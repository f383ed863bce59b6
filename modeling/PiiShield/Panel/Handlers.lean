import PiiShield.Panel.Reports
import PiiShield.Panel.Store

/-! The management API of the rule server: who a request runs as, and its handlers. A request
comes with its route decoded, with the times at which it reads the clock and with the random
value it draws; headers other than cookie and authorization are given by what they decide. -/

namespace PiiShield.Panel

open Transactions

structure Settings where
  adminToken : Bytes
  singleTenant : Bool
  signup : Bool
  hasMailer : Bool
  pg : Bool

inductive Detail
  | text (b : Bytes)
  | number (n : Int)
  | flag (b : Bool)
  deriving DecidableEq

/-- A rule set in its canonical form, as `policy.Canonical` returns it. -/
structure Document (Conf : Type) where
  content : Bytes
  etag : Bytes
  config : Conf

structure Statement where
  set : Bytes
  publication : Nat
  revision : Nat
  sha256 : Bytes
  deriving DecidableEq

/-- What the handlers take from other packages. `scan` runs a scanner of its own, with the salt
of previews and the adaptive mode off. -/
structure Packages (Conf : Type) where
  services : Services
  canonical : Bytes → Nat → Except Bytes (Document Conf)
  parsePolicy : Bytes → Except Bytes Conf
  isAdaptive : Conf → Bool
  scan : Conf → Bytes → Bytes
  sha256 : Bytes → Bytes
  parsePublicKey : Bytes → Except Bytes Bytes
  formatPublicKey : Bytes → Bytes
  keyID : Bytes → Bytes
  verify : Bytes → Statement → Bytes → Bool
  marshal : List (Bytes × Detail) → Bytes

inductive BodyProblem
  | tooLarge (limit : Nat)
  | invalid (reason : Bytes)

abbrev Body (A : Type) := Except BodyProblem A

structure NameBody where
  slug : Bytes
  name : Bytes

structure VersionBody where
  content : Bytes
  author : Bytes
  comment : Bytes

structure PreviewBody where
  content : Bytes
  lines : Option (List Bytes)
  text : Option Bytes

structure PublishBody where
  revision : Int
  author : Bytes
  publication : Int
  keyID : Bytes
  signature : Bytes

structure TokenBody where
  name : Bytes
  kind : Bytes

structure KeyBody where
  name : Bytes
  publicKey : Bytes

/-- A management request, with its path values, query and body. -/
inductive Route
  | logout
  | me
  | listMembers (org : Bytes)
  | invite (org : Bytes) (email : Body Bytes)
  | listOrgs
  | createOrg (body : Body NameBody)
  | listSets (org : Bytes)
  | createSet (org : Bytes) (body : Body NameBody)
  | getSet (org set : Bytes)
  | listVersions (org set : Bytes)
  | createVersion (org set : Bytes) (body : Body VersionBody)
  | getVersion (org set rev : Bytes)
  | validate (org set : Bytes) (content : Body Bytes)
  | preview (org set : Bytes) (body : Body PreviewBody)
  | publish (org set : Bytes) (body : Body PublishBody)
  | statement (org set revision : Bytes)
  | listAudit (org limit before : Bytes)
  | listSigningKeys (org : Bytes)
  | addSigningKey (org : Bytes) (body : Body KeyBody)
  | revokeSigningKey (org id : Bytes)
  | publications (org set : Bytes)
  | listTokens (org set : Bytes)
  | listPulls (org set days : Bytes)
  | listClusters (org set hours : Bytes)
  | createToken (org set : Bytes) (body : Body TokenBody)
  | revokeToken (org set id : Bytes)

def Route.safe : Route → Bool
  | .me | .listMembers .. | .listOrgs | .listSets .. | .getSet .. | .listVersions .. | .getVersion .. => true
  | .statement .. | .listAudit .. | .listSigningKeys .. | .publications .. | .listTokens .. => true
  | .listPulls .. | .listClusters .. => true
  | _ => false

/-- The rest of a request: `csrfProblem` and `originProblem` are what these say of its headers,
`drawn` is the random value in hex, `mailed` whether the mailer took a mail. -/
structure Request where
  bearer : Option Bytes
  cookie : Bytes
  csrfProblem : Bytes
  originProblem : Bytes
  fromBrowser : Bool
  ip : Bytes
  path : Bytes
  checkedAt : Instant
  writtenAt : Instant
  auditedAt : Instant
  linkExpires : Instant
  daysAgo : Nat → Bytes
  hoursAgo : Nat → Instant
  drawn : Bytes
  mailed : Bool

/-- Who a request runs as; `opened` is anyone on a single-tenant server. -/
inductive Principal
  | admin
  | opened
  | member (user : UserRow) (org : OrgRow) (session : Bytes)

def Principal.email : Principal → Bytes
  | .member user _ _ => user.email
  | _ => []

def Principal.actor : Principal → Bytes
  | .member user _ _ => user.email
  | .admin => bs "admin token"
  | .opened => bs "single-tenant, no sign-in"

def Principal.org : Principal → Option OrgRow
  | .member _ org _ => some org
  | _ => none

def Principal.authorOf (p : Principal) (claimed : Bytes) : Bytes := if p.email ≠ [] then p.email else claimed

structure PreviewLine where
  input : Bytes
  output : Bytes
  changed : Bool

inductive Payload (Conf : Type)
  | empty
  | error (message : Bytes)
  | me (signup : Bool) (mode : Bytes) (email : Option Bytes) (org : Option OrgRow)
  | members (members : List UserRow)
  | member (member : UserRow) (mailed : Bool)
  | orgs (orgs : List OrgRow)
  | org (org : OrgRow)
  | sets (sets : List RuleSet)
  | set (set : Option RuleSet)
  | overview (set : RuleSet) (versions : List VersionRow) (tokens : List Token) (policyPath : Bytes)
  | versions (versions : List VersionRow)
  | version (version : VersionRow)
  | versionFile (version : VersionRow) (content : Bytes)
  | accepted (bytes : Nat) (config : Conf)
  | preview (source : Bytes) (revision : Nat) (lines : List PreviewLine) (changed : Nat) (note : Bytes)
  | statement (statement : Statement)
  | publications (publications : List Publication)
  | tokens (tokens : List Token)
  | token (token : Token) (value note : Bytes)
  | pulls (days : Nat) (pulls : List PullRow)
  | clusters (clusters : List ClusterSummary) (hours publishedRevision : Nat) (publication : Option Nat)
  | keys (keys : List KeyRow)
  | key (key : KeyRow)
  | events (events : List EventRow) (next : Option Nat)
  | sent
  | redirect (location : Bytes)
  | policy (content etag : Bytes) (revision : Nat)
  | notModified (etag : Bytes) (revision : Nat)
  | signature (statement : Statement) (keyID signature : Bytes)

structure Answer (Conf : Type) where
  status : Nat
  body : Payload Conf

section Answers

variable {Conf : Type}

def respond (status : Nat) (body : Payload Conf) : Sql (Answer Conf) := pure ⟨status, body⟩

def fail (status : Nat) (message : Bytes) : Sql (Answer Conf) := respond status (.error message)

def internal : Sql (Answer Conf) := fail 500 (bs "internal error")

def storeError : StoreError → Sql (Answer Conf)
  | .notFound => fail 404 (bs "not found")
  | .exists => fail 409 (bs "already exists")
  | .invalidSlug =>
    fail 400 (bs "slug must be 1-63 characters of a-z, 0-9 and '-', starting with a letter or digit")
  | _ => internal

def decode {A : Type} (body : Body A) (next : A → Sql (Answer Conf)) : Sql (Answer Conf) :=
  match body with
  | .ok a => next a
  | .error (.tooLarge limit) => fail 413 (bs "body larger than " ++ formatNat limit ++ bs " bytes")
  | .error (.invalid reason) => fail 400 (bs "invalid json body: " ++ reason)

def withNumber (text message : Bytes) (next : Int → Sql (Answer Conf)) : Sql (Answer Conf) :=
  match atoi text with
  | none => fail 400 message
  | some n => next n

def withCount (text : Bytes) (default bound : Nat) (message : Bytes)
    (next : Nat → Sql (Answer Conf)) : Sql (Answer Conf) :=
  if text.isEmpty then next default
  else withNumber text message fun n => if n ≤ 0 ∨ (bound : Int) < n then fail 400 message else next n.toNat

end Answers

section Handlers

variable {Conf : Type} (cfg : Settings) (K : Packages Conf) (r : Request) (p : Principal)

def audit (orgID : Nat) (action target : Bytes) (detail : List (Bytes × Detail)) : Sql Unit := do
  let _ ← record K.services
    ⟨0, orgID, r.auditedAt.format, p.actor, action, target,
      if detail.isEmpty then [] else K.marshal detail, r.ip⟩
  pure ()

/-- The source's `org`: a session sees its own organization only. -/
def withOrg (slug : Bytes) (next : OrgRow → Sql (Answer Conf)) : Sql (Answer Conf) := do
  match ← getOrg slug with
  | .error e => storeError e
  | .ok org => if p.org.any (·.id != org.id) then fail 404 (bs "not found") else next org

def withSet (org slug : Bytes) (next : RuleSet → Sql (Answer Conf)) : Sql (Answer Conf) :=
  withOrg p org fun org => do
    match ← getSet org.id slug with
    | .error e => storeError e
    | .ok set => next set

def logout : Sql (Answer Conf) := do
  match p with
  | .member _ org session =>
    if session ≠ [] then deleteSession K.services session
    audit K r p org.id (bs "signout") [] []
  | _ => pure ()
  respond 204 .empty

def me : Sql (Answer Conf) :=
  match p with
  | .admin => respond 200 (.me cfg.signup (bs "admin") none none)
  | .opened => do
    match ← getOrg (bs "default") with
    | .ok org => respond 200 (.me cfg.signup (bs "single-tenant") none (some org))
    | .error _ => respond 200 (.me cfg.signup (bs "single-tenant") none none)
  | .member user org _ => respond 200 (.me cfg.signup (bs "session") (some user.email) (some org))

def listMembers (org : Bytes) : Sql (Answer Conf) :=
  withOrg p org fun org => do respond 200 (.members (← Client.query (Tables.usersOf org.id)))

def sendLink (email : Bytes) : Sql Bool :=
  if !cfg.hasMailer then pure false
  else do
    match ← createLogin K.services email r.drawn r.writtenAt r.linkExpires with
    | .error _ => pure false
    | .ok _ => pure r.mailed

def invite (org : Bytes) (email : Body Bytes) : Sql (Answer Conf) :=
  withOrg p org fun org =>
  decode email fun email => do
    match ← createUser K.services org.id email p.email r.writtenAt with
    | .error .invalidEmail => fail 400 (bs "not an e-mail address")
    | .error .exists => fail 409 (bs "this address already has an account")
    | .error e => storeError e
    | .ok user => do
      let mailed ← sendLink cfg K r user.email
      audit K r p org.id (bs "member.invite") user.email [(bs "mailed", .flag mailed)]
      respond 201 (.member user mailed)

def listOrgsHandler : Sql (Answer Conf) :=
  match p.org with
  | some org => respond 200 (.orgs [org])
  | none => do respond 200 (.orgs (← listOrgs))

def createOrgHandler (body : Body NameBody) : Sql (Answer Conf) :=
  match p with
  | .member .. => fail 403 (bs "an account has one organization; the admin token creates others")
  | _ =>
    decode body fun req => do
      match ← createOrg K.services req.slug req.name r.writtenAt with
      | .error e => storeError e
      | .ok org => do
        audit K r p org.id (bs "org.create") org.slug [(bs "name", .text org.name)]
        respond 201 (.org org)

def listSets (org : Bytes) : Sql (Answer Conf) :=
  withOrg p org fun org => do respond 200 (.sets (← Client.query (Tables.setsOf org.id)))

def createSetHandler (org : Bytes) (body : Body NameBody) : Sql (Answer Conf) :=
  withOrg p org fun org =>
  decode body fun req => do
    match ← createSet K.services org.id req.slug req.name r.writtenAt with
    | .error e => storeError e
    | .ok set => do
      audit K r p org.id (bs "set.create") set.slug []
      respond 201 (.set (some set))

def withPullCounts (today : Bytes) (pulls : List PullRow) (tokens : List Token) : List Token :=
  tokens.map fun t =>
    let own := pulls.filter (·.tokenID == t.id)
    { t with
      pullsToday := ((own.filter (·.day == today)).map (·.pulls)).sum
      pullsWeek := (own.map (·.pulls)).sum }

def tokensWithCounts (setID : Nat) : Sql (List Token) := do
  let tokens ← Client.query (Tables.tokensOf setID)
  let pulls ← Client.query (Tables.pullsOf setID (r.daysAgo 6))
  pure (withPullCounts (r.daysAgo 0) pulls tokens)

def getSetHandler (org set : Bytes) : Sql (Answer Conf) :=
  withSet p org set fun set => do
    let versions ← Client.query (Tables.versionsOf set.id)
    let tokens ← tokensWithCounts r set.id
    respond 200 (.overview set versions tokens
      (bs "/v1/" ++ org ++ bs "/" ++ set.slug ++ bs "/policy.json"))

def listVersions (org set : Bytes) : Sql (Answer Conf) :=
  withSet p org set fun set => do respond 200 (.versions (← Client.query (Tables.versionsOf set.id)))

def createVersionHandler (org set : Bytes) (body : Body VersionBody) : Sql (Answer Conf) :=
  withSet p org set fun set =>
  decode body fun req =>
    if req.content.isEmpty then fail 400 (bs "\"content\" is required: the rule set as a JSON object")
    else do
      match ← createVersion K.services cfg.pg set.id
          ⟨p.authorOf req.author, req.comment, fun rev => (K.canonical req.content rev).map fun doc =>
            (doc.content, doc.etag)⟩ r.writtenAt with
      | .error (.rejected message) => fail 422 (bs "rule set rejected: " ++ message)
      | .error e => storeError e
      | .ok v => do
        audit K r p set.orgID (bs "version.create") set.slug
          [(bs "revision", .number v.revision), (bs "etag", .text v.etag), (bs "comment", .text v.comment)]
        respond 201 (.version v.withoutContent)

def getVersionHandler (org set rev : Bytes) : Sql (Answer Conf) :=
  withSet p org set fun set =>
  withNumber rev (bs "revision must be a number") fun rev => do
    match ← Client.query fun d => found (d.version set.id rev) with
    | .error e => storeError e
    | .ok v => respond 200 (.versionFile v.withoutContent v.content)

def withDraft (content : Bytes) (next : Document Conf → Sql (Answer Conf)) : Sql (Answer Conf) :=
  if content.isEmpty then fail 400 (bs "\"content\" is required: the rule set as a JSON object")
  else
    match K.canonical content 0 with
    | .error message => fail 422 (bs "rule set rejected: " ++ message)
    | .ok doc => next doc

def validate (org set : Bytes) (content : Body Bytes) : Sql (Answer Conf) :=
  withSet p org set fun _ =>
  decode content fun content =>
  withDraft K content fun doc => respond 200 (.accepted doc.content.length doc.config)

def maxPreviewLines : Nat := 200

def previewLines (req : PreviewBody) : Except Bytes (List Bytes) :=
  let bounded (lines : List Bytes) : Except Bytes (List Bytes) :=
    if maxPreviewLines < lines.length then
      .error (bs "at most " ++ formatNat maxPreviewLines ++ bs " lines per preview, got " ++ formatNat lines.length)
    else .ok lines
  match req.text, req.lines with
  | some _, some _ => .error (bs "send \"lines\" or \"text\", not both")
  | some text, none => bounded (List.splitOn newline (trimSuffix text [newline]))
  | none, none => .error (bs "\"lines\" (an array of log lines) or \"text\" is required")
  | none, some lines => bounded lines

def hasDraft (content : Bytes) : Bool := !content.isEmpty && trimSpace content != bs "null"

def previewWith (lines : List Bytes) (source : Bytes) (revision : Nat) (config : Conf) : Sql (Answer Conf) :=
  let lines := lines.map fun l => ⟨l, K.scan config l, K.scan config l != l⟩
  let note := bs "hashes are computed with a preview salt and match no cluster"
  respond 200 (.preview source revision lines (lines.countP (·.changed))
    (if K.isAdaptive config then
      note ++ bs "; adaptive_threshold is off in a preview, it learns from a running stream"
    else note))

def preview (org set : Bytes) (body : Body PreviewBody) : Sql (Answer Conf) :=
  withSet p org set fun set =>
  decode body fun req =>
  match previewLines req with
  | .error message => fail 400 message
  | .ok lines =>
    if hasDraft req.content then withDraft K req.content fun doc => previewWith K lines (bs "draft") 0 doc.config
    else do
      match ← published set.id with
      | .error .notPublished =>
        fail 404 (bs "nothing published to preview; send \"content\" with a draft rule set")
      | .error _ => internal
      | .ok v =>
        match K.parsePolicy v.content with
        | .error _ => internal
        | .ok config => previewWith K lines (bs "published") v.revision config

def statementFor (set : Bytes) (publication revision : Nat) (content : Bytes) : Statement :=
  ⟨set, publication, revision, K.sha256 content⟩

def PublishBody.signed (req : PublishBody) : Bool := !req.signature.isEmpty || !req.keyID.isEmpty

def refuse (set : RuleSet) (detail : List (Bytes × Detail)) (reason message : Bytes) : Sql (Answer Conf) := do
  audit K r p set.orgID (bs "publish.refused") set.slug (detail ++ [(bs "reason", .text reason)])
  fail 422 message

/-- The end of `publish`, once the key it is checked with is known. -/
def publishWith (set : RuleSet) (req : PublishBody)
    (check : Nat → VersionRow → Except StoreError Unit) : Sql (Answer Conf) := do
  match ← publish K.services cfg.pg set.id
      ⟨req.revision, p.authorOf req.author, req.publication, req.keyID, req.signature, check⟩ r.writtenAt with
  | .error .badSignature =>
    refuse K r p set [(bs "revision", .number req.revision), (bs "keyId", .text req.keyID)] (bs "bad signature")
      (bs "the signature does not verify with key " ++ req.keyID ++ bs " for this statement")
  | .error .stale => fail 409 (bs "the set was published meanwhile; sign the new statement")
  | .error e => storeError e
  | .ok pub => do
    audit K r p set.orgID (bs "publish") set.slug
      ([(bs "revision", .number pub.revision), (bs "publication", .number pub.seq)] ++
        if pub.keyID ≠ [] then [(bs "keyId", .text pub.keyID)] else [])
    let served ← getSetByID set.id
    respond 200 (.set served.toOption)

def publishSigned (org : Bytes) (set : RuleSet) (req : PublishBody) : Sql (Answer Conf) := do
  match ← Client.query (Tables.activeKey set.orgID req.keyID) with
  | none =>
    refuse K r p set [(bs "revision", .number req.revision), (bs "keyId", .text req.keyID)]
      (bs "no such active key") (bs "no active signing key " ++ req.keyID ++ bs " in this organization")
  | some k =>
    match K.parsePublicKey k.publicKey with
    | .error _ => internal
    | .ok key =>
      publishWith cfg K r p set req fun seq v =>
        if K.verify key (statementFor K (org ++ bs "/" ++ set.slug) seq v.revision v.content) req.signature then .ok ()
        else .error .badSignature

def publishUnsigned (set : RuleSet) (req : PublishBody) : Sql (Answer Conf) := do
  if ← Client.query (Tables.hasKeys set.orgID) then
    refuse K r p set [(bs "revision", .number req.revision)] (bs "unsigned")
      (bs "this organization signs its publications: sign the statement from GET " ++ r.path ++
        bs "/statement?revision=N and send publication, keyId and signature")
  else publishWith cfg K r p set req fun _ _ => .ok ()

def publishHandler (org set : Bytes) (body : Body PublishBody) : Sql (Answer Conf) :=
  withSet p org set fun set =>
  decode body fun req =>
    if req.revision ≤ 0 then fail 400 (bs "\"revision\" is required")
    else if req.signed && (req.signature.isEmpty || req.keyID.isEmpty || decide (req.publication ≤ 0)) then
      fail 400 (bs "a signed publish needs \"publication\", \"keyId\" and \"signature\" together")
    else if req.signed then publishSigned cfg K r p org set req
    else publishUnsigned cfg K r p set req

def statement (org set revision : Bytes) : Sql (Answer Conf) :=
  withSet p org set fun set =>
  withNumber revision (bs "revision must be a positive number") fun rev =>
    if rev ≤ 0 then fail 400 (bs "revision must be a positive number")
    else do
      match ← Client.query fun d => found (d.version set.id rev) with
      | .error e => storeError e
      | .ok v => do
        let seq ← Client.query (Tables.nextSeq set.id)
        respond 200 (.statement (statementFor K (org ++ bs "/" ++ set.slug) seq v.revision v.content))

def publications (org set : Bytes) : Sql (Answer Conf) :=
  withSet p org set fun set => do respond 200 (.publications (← Client.query (Tables.publicationsOf set.id)))

def maxAuditPage : Nat := 500

def listAuditPage (orgID limit : Nat) (before : Int) : Sql (Answer Conf) := do
  let page ← events orgID before limit
  respond 200 (.events page (if page.length = limit then page.getLast?.map (·.id) else none))

def listAudit (org limit before : Bytes) : Sql (Answer Conf) :=
  withOrg p org fun org =>
  let withBefore (limit : Nat) : Sql (Answer Conf) :=
    if before.isEmpty then listAuditPage org.id limit 0
    else
      withNumber before (bs "before must be a positive event id") fun n =>
        if n ≤ 0 then fail 400 (bs "before must be a positive event id") else listAuditPage org.id limit n
  if limit.isEmpty then withBefore 100
  else
    withNumber limit (bs "limit must be a positive number") fun n =>
      if n ≤ 0 then fail 400 (bs "limit must be a positive number") else withBefore (min n.toNat maxAuditPage)

def listSigningKeys (org : Bytes) : Sql (Answer Conf) :=
  withOrg p org fun org => do respond 200 (.keys (← Client.query (Tables.keysOf org.id)))

def addSigningKeyHandler (org : Bytes) (body : Body KeyBody) : Sql (Answer Conf) :=
  withOrg p org fun org =>
  decode body fun req =>
    if req.name.isEmpty then fail 400 (bs "\"name\" is required: whose key it is and where it lives")
    else
      match K.parsePublicKey req.publicKey with
      | .error message => fail 400 message
      | .ok pk => do
        match ← addSigningKey K.services org.id (K.keyID pk) req.name (K.formatPublicKey pk) (p.authorOf [])
            r.writtenAt with
        | .error e => storeError e
        | .ok k => do
          audit K r p org.id (bs "key.add") k.keyID [(bs "name", .text k.name)]
          respond 201 (.key k)

def revokeSigningKeyHandler (org id : Bytes) : Sql (Answer Conf) :=
  withOrg p org fun org =>
  withNumber id (bs "key id must be a number") fun id => do
    match ← revokeSigningKey org.id id r.writtenAt with
    | .error e => storeError e
    | .ok () => do
      audit K r p org.id (bs "key.revoke") [] [(bs "keyRowId", .number id)]
      respond 204 .empty

def listTokens (org set : Bytes) : Sql (Answer Conf) :=
  withSet p org set fun set => do respond 200 (.tokens (← tokensWithCounts r set.id))

def listPulls (org set days : Bytes) : Sql (Answer Conf) :=
  withSet p org set fun set =>
  withCount days 30 90 (bs "days must be between 1 and 90") fun days => do
    respond 200 (.pulls days (← Client.query (Tables.pullsOf set.id (r.daysAgo (days - 1)))))

def listClusters (org set hours : Bytes) : Sql (Answer Conf) :=
  withSet p org set fun set =>
  withCount hours 24 2160 (bs "hours must be between 1 and 2160") fun hours => do
    let summaries ← clusters set.id (r.hoursAgo hours)
    let latest ← latestPublication set.id
    respond 200 (.clusters summaries hours set.publishedRevision (latest.toOption.map (·.seq)))

def tokenNote (kind : Bytes) : Bytes :=
  if kind = kindReport then
    bs "the value is shown once; put it whole, as 'Bearer pss_…', into the Secret named by stats.headerSecretRef; " ++
      bs "it can only send reports"
  else
    bs "the value is shown once; put it whole, as 'Bearer psr_…', into the Secret named by remoteConfig.headerSecretRef"

def createTokenHandler (org set : Bytes) (body : Body TokenBody) : Sql (Answer Conf) :=
  withSet p org set fun set =>
  decode body fun req =>
    if req.name.isEmpty then fail 400 (bs "\"name\" is required: which cluster or team holds the token")
    else do
      match ← createToken K.services set.id req.name req.kind r.drawn r.writtenAt with
      | .error .invalidKind => fail 400 (bs "kind must be \"pull\" or \"report\"")
      | .error e => storeError e
      | .ok (tok, value) => do
        audit K r p set.orgID (bs "token.create") set.slug
          [(bs "name", .text tok.name), (bs "prefix", .text tok.tokenPrefix), (bs "kind", .text tok.kind)]
        respond 201 (.token tok value (tokenNote tok.kind))

def revokeTokenHandler (org set id : Bytes) : Sql (Answer Conf) :=
  withSet p org set fun set =>
  withNumber id (bs "token id must be a number") fun id => do
    match ← revokeToken set.id id r.writtenAt with
    | .error e => storeError e
    | .ok () => do
      audit K r p set.orgID (bs "token.revoke") set.slug [(bs "tokenId", .number id)]
      respond 204 .empty

def dispatch : Route → Sql (Answer Conf)
  | .logout => logout K r p
  | .me => me cfg p
  | .listMembers org => listMembers p org
  | .invite org email => invite cfg K r p org email
  | .listOrgs => listOrgsHandler p
  | .createOrg body => createOrgHandler K r p body
  | .listSets org => listSets p org
  | .createSet org body => createSetHandler K r p org body
  | .getSet org set => getSetHandler r p org set
  | .listVersions org set => listVersions p org set
  | .createVersion org set body => createVersionHandler cfg K r p org set body
  | .getVersion org set rev => getVersionHandler p org set rev
  | .validate org set content => validate K p org set content
  | .preview org set body => preview K p org set body
  | .publish org set body => publishHandler cfg K r p org set body
  | .statement org set revision => statement K p org set revision
  | .listAudit org limit before => listAudit p org limit before
  | .listSigningKeys org => listSigningKeys p org
  | .addSigningKey org body => addSigningKeyHandler K r p org body
  | .revokeSigningKey org id => revokeSigningKeyHandler K r p org id
  | .publications org set => publications p org set
  | .listTokens org set => listTokens r p org set
  | .listPulls org set days => listPulls r p org set days
  | .listClusters org set hours => listClusters r p org set hours
  | .createToken org set body => createTokenHandler K r p org set body
  | .revokeToken org set id => revokeTokenHandler K r p org set id

def authenticateSession : Sql (Except StoreError (Option Principal)) :=
  if r.cookie.isEmpty then pure (.ok none)
  else do
    match ← getSession K.services r.cookie r.checkedAt with
    | .error .notFound => pure (.ok none)
    | .error e => pure (.error e)
    | .ok s => pure (.ok (some (.member s.user s.org r.cookie)))

def authenticate : Sql (Except StoreError (Option Principal)) :=
  match r.bearer with
  | some value =>
    if cfg.adminToken ≠ [] then pure (.ok (if value = cfg.adminToken then some .admin else none))
    else if cfg.singleTenant then pure (.ok (some .opened))
    else authenticateSession K r
  | none =>
    if cfg.singleTenant && cfg.adminToken.isEmpty then pure (.ok (some .opened)) else authenticateSession K r

def refusal (safe : Bool) : Principal → Bytes
  | .member .. => if safe then [] else r.csrfProblem
  | .opened => if !safe && r.fromBrowser then r.originProblem else []
  | .admin => []

/-- The source's `requireAccess` around the handler of a route. -/
def manage (route : Route) : Sql (Answer Conf) := do
  match ← authenticate cfg K r with
  | .error _ => internal
  | .ok none => fail 401 (bs "sign in, or send the admin token")
  | .ok (some p) =>
    if refusal r route.safe p ≠ [] then fail 403 (refusal r route.safe p)
    else dispatch cfg K r p route

end Handlers

end PiiShield.Panel
