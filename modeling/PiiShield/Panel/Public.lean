import PiiShield.Panel.Handlers
import PiiShield.Panel.Receiving

/-! The requests of the rule server outside the management API: clusters that pull and report
under a token, and the sign-in. What the rate limits decide is given. -/

namespace PiiShield.Panel

open Transactions

structure Access where
  token : TokenRow
  set : RuleSet
  org : OrgRow

variable {Conf : Type} (cfg : Settings) (K : Packages Conf)

/-- The source's `Authenticate`; a revoked token has no error of the store. -/
def authenticateToken (value : Bytes) : Sql (Except (Option StoreError) Access) := do
  match ← Client.query fun d => d.tokens.find? (·.hash == K.services.hashToken value) with
  | none => pure (.error (some .notFound))
  | some t =>
    if t.revokedAt.isSome then pure (.error none)
    else
      match ← getSetByID t.setID with
      | .error e => pure (.error (some e))
      | .ok set =>
        match ← getOrgByID set.orgID with
        | .error e => pure (.error (some e))
        | .ok org => pure (.ok ⟨t, set, org⟩)

def Tables.touchToken (id : Nat) (ip now cutoff : Bytes) (d : Tables) : Tables :=
  { d with tokens := d.tokens.map fun t =>
      if t.id == id && t.lastUsedAt.all (fun used => decide (used < cutoff)) then
        { t with lastUsedAt := some now, lastUsedIP := ip }
      else t }

def PullRow.add (notModified : Nat) (p : PullRow) : PullRow :=
  { p with pulls := p.pulls + 1, notModified := p.notModified + notModified }

variable (tokenID : Nat)

def Tables.bumpPull (day : Bytes) (notModified : Nat) (d : Tables) : Tables :=
  { d with pulls := d.pulls.map fun p => if p.tokenID == tokenID && p.day == day then p.add notModified else p }

def Tables.insertPull (day : Bytes) (notModified : Nat) (d : Tables) : Tables :=
  if d.tokens.all (·.id != tokenID) then d
  else if d.pulls.any fun p => p.tokenID == tokenID && p.day == day then d.bumpPull tokenID day notModified
  else { d with pulls := d.pulls ++ [⟨tokenID, day, 1, notModified⟩] }

theorem tokens_insertPull (day : Bytes) (n : Nat) (d : Tables) :
    (d.insertPull tokenID day n).tokens = d.tokens := by
  rw [Tables.insertPull]
  split
  · rfl
  split <;> rfl

def Tables.dropPulls (cutoff : Bytes) (d : Tables) : Tables :=
  { d with pulls := d.pulls.filter fun p => !(p.tokenID == tokenID && decide (p.day < cutoff)) }

def countPull (notModified : Bool) (day cutoff : Bytes) : Sql (Except StoreError Unit) := do
  let affected ← Client.exec (Tables.bumpPull tokenID day notModified.toNat) fun d =>
    d.pulls.countP fun p => p.tokenID == tokenID && p.day == day
  if affected = 0 then
    let known ← Client.exec (Tables.insertPull tokenID day notModified.toNat) fun d => d.tokens.any (·.id == tokenID)
    if known then
      Client.exec (Tables.dropPulls tokenID cutoff) fun _ => ()
      pure (.ok ())
    else pure (.error .foreignKey)
  else pure (.ok ())

/-- A request under a token: its path, what the limit of the token says, the texts of the times
it is stored with, and how it compares the `ETag`. -/
structure Visit where
  bearer : Option Bytes
  org : Bytes
  set : Bytes
  allowed : Bool
  ip : Bytes
  usedAt : Bytes
  usedBefore : Bytes
  day : Bytes
  oldestDay : Bytes
  etagMatches : Bytes → Bool

variable (v : Visit)

def withAccess (kind : Bytes) (next : Access → Sql (Answer Conf)) : Sql (Answer Conf) :=
  match v.bearer with
  | none => fail 401 (bs "missing or malformed Authorization: Bearer <token>")
  | some value => do
    match ← authenticateToken K value with
    | .error none => fail 401 (bs "invalid token")
    | .error (some .notFound) => fail 401 (bs "invalid token")
    | .error _ => internal
    | .ok acc =>
      if !v.allowed then fail 429 (bs "too many pulls with this token")
      else if acc.org.slug ≠ v.org ∨ acc.set.slug ≠ v.set then fail 404 (bs "no such rule set for this token")
      else if acc.token.kind ≠ kind then
        if kind = kindPull then fail 403 (bs "this token sends stats reports; it cannot read rules")
        else fail 403 (bs "this token reads rules; it cannot send reports")
      else next acc

def touch (acc : Access) : Sql Unit :=
  Client.exec (Tables.touchToken acc.token.id v.ip v.usedAt v.usedBefore) fun _ => ()

def servePolicy : Sql (Answer Conf) :=
  withAccess K v kindPull fun acc => do
    touch v acc
    match ← published acc.set.id with
    | .error .notPublished => fail 404 (bs "the rule set has no published version")
    | .error _ => internal
    | .ok version =>
      if v.etagMatches version.etag then do
        let _ ← countPull acc.token.id true v.day v.oldestDay
        respond 304 (.notModified version.etag version.revision)
      else do
        let _ ← countPull acc.token.id false v.day v.oldestDay
        respond 200 (.policy version.content version.etag version.revision)

def serveSignature : Sql (Answer Conf) :=
  withAccess K v kindPull fun acc => do
    touch v acc
    match ← latestPublication acc.set.id with
    | .error .notPublished => fail 404 (bs "the rule set has no published version")
    | .error _ => internal
    | .ok pub =>
      if pub.signature.isEmpty then fail 404 (bs "the published version is not signed")
      else do
        match ← published acc.set.id with
        | .error _ => internal
        | .ok version =>
          respond 200 (.signature (statementFor K (acc.org.slug ++ bs "/" ++ acc.set.slug) pub.seq version.revision
            version.content) pub.keyID pub.signature)

def takeReport (body : Body ReportBody) (now cutoff : Instant) : Sql (Answer Conf) :=
  withAccess K v kindReport fun acc => do
    touch v acc
    decode body fun b =>
      match b.check with
      | .error problem => fail 422 (bs "report rejected: " ++ problem.message)
      | .ok () => do
        match ← addReport K.services (b.row acc.set.id acc.token.id) now cutoff with
        | .error _ => internal
        | .ok _ => respond 204 .empty

variable (r : Request)

def login (allowed : Bool) (email : Body Bytes) (allowedEmail : Bool) : Sql (Answer Conf) :=
  if r.csrfProblem ≠ [] then fail 403 r.csrfProblem
  else if !cfg.hasMailer then fail 503 (bs "sign-in is not available on this server: no mail is configured")
  else if !allowed then
    fail 429 (bs "too many sign-in requests from this address; try again in a minute")
  else
    decode email fun email =>
    match normalizeEmail K.services email with
    | .error _ => fail 400 (bs "not an e-mail address")
    | .ok email =>
      if !allowedEmail then
        fail 429 (bs "a link was sent to this address recently; look for it, or try again in ten minutes")
      else do
        let user ← getUserByEmail K.services email
        match user, cfg.signup with
        | .error .notFound, false => respond 200 .sent
        | .error .notFound, true | .ok _, _ => do
          if ← sendLink cfg K r email then respond 200 .sent
          else fail 502 (bs "the mail could not be sent; try again later")
        | .error _, _ => internal

def signupTx (slug email : Bytes) (t : Instant) : StoreTx :=
  insertTx (Tables.insertOrg K.services slug email t.format) fun orgID =>
  let f := Tables.insertUser K.services orgID email [] t.format
  .stmt f.write fun d =>
  match f.result d with
  | .ok userID => .commit (.ok userID)
  | .error .unique => .rollback (.error .exists)
  | .error e => .rollback (.error e)

def signup (email : Bytes) (t : Instant) : List Bytes → Sql (Except StoreError (UserRow × OrgRow))
  | [] => pure (.error .noRows)
  | slug :: slugs => do
    match ← Client.transaction (signupTx K slug email t) with
    | .error .unique => signup email t slugs
    | .error e => pure (.error e)
    | .ok userID =>
      match ← getUserByID userID with
      | .error e => pure (.error e)
      | .ok user =>
        match ← getOrgByID user.orgID with
        | .error e => pure (.error e)
        | .ok org => pure (.ok (user, org))

def auditAs (actor : Bytes) (orgID : Nat) (action target : Bytes) : Sql Unit := do
  let _ ← record K.services ⟨0, orgID, r.auditedAt.format, actor, action, target, [], r.ip⟩
  pure ()

def signIn (email : Bytes) (user : UserRow) (session : Bytes) (expires : Instant) :
    Sql (Answer Conf) := do
  match ← createSession K.services user.id session r.writtenAt expires with
  | .error _ => internal
  | .ok _ => do
    auditAs K r email user.orgID (bs "signin") []
    respond 303 (.redirect (bs "/"))

def verify (allowed : Bool) (value session : Bytes) (slugs : List Bytes) (expires : Instant) :
    Sql (Answer Conf) :=
  if r.originProblem ≠ [] then fail 403 r.originProblem
  else if !allowed then fail 429 (bs "too many attempts from this address")
  else if value.isEmpty then fail 400 (bs "the link carries no token")
  else do
    match ← consumeLogin K.services value r.checkedAt with
    | .error .notFound | .error .expired => respond 303 (.redirect (bs "/#/login?error=link"))
    | .error _ => internal
    | .ok email => do
      match ← getUserByEmail K.services email with
      | .ok user => signIn K r email user session expires
      | .error .notFound =>
        if !cfg.signup then respond 303 (.redirect (bs "/#/login?error=no-account"))
        else do
          match ← signup K email r.writtenAt slugs with
          | .error _ => internal
          | .ok (user, org) => do
            auditAs K r email org.id (bs "org.signup") org.slug
            signIn K r email user session expires
      | .error _ => internal

/-- The requests of the rule server that come to the database. -/
inductive Arrival
  | manage (r : Request) (route : Route)
  | policy (v : Visit)
  | signature (v : Visit)
  | report (v : Visit) (body : Body ReportBody) (now cutoff : Instant)
  | login (r : Request) (allowed : Bool) (email : Body Bytes) (allowedEmail : Bool)
  | verify (r : Request) (allowed : Bool) (value session : Bytes) (slugs : List Bytes) (expires : Instant)

def serve : Arrival → Sql (Answer Conf)
  | .manage r route => manage cfg K r route
  | .policy v => servePolicy K v
  | .signature v => serveSignature K v
  | .report v body now cutoff => takeReport K v body now cutoff
  | .login r allowed email allowedEmail => login cfg K r allowed email allowedEmail
  | .verify r allowed value session slugs expires => verify cfg K r allowed value session slugs expires

def startServer (t : Instant) : Tables :=
  if cfg.singleTenant then ((createOrg K.services (bs "default") (bs "Default") t).eval .empty).2 else .empty

def afterRequests (d : Tables) (requests : List Arrival) : Tables :=
  requests.foldl (fun d a => ((serve cfg K a).eval d).2) d

end PiiShield.Panel
