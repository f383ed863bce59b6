import PiiShield.Panel.Accounts

/-! Organizations, their accounts, rule sets, tokens, signing keys and logs: the statements on
these tables and the functions of the store that run them. -/

namespace PiiShield.Panel

open Transactions

def isSlugByte (c : UInt8) : Bool := isLowerASCII c || isASCIIDigit c

def slugRe : Bytes → Bool
  | [] => false
  | c :: t => isSlugByte c && decide (t.length ≤ 62) && t.all fun c => isSlugByte c || c == '-'

def checkSlug (s : Bytes) : Except StoreError Unit := if slugRe s then .ok () else .error .invalidSlug

structure RuleSet where
  id : Nat
  orgID : Nat
  slug : Bytes
  name : Bytes
  publishedRevision : Nat
  latestRevision : Nat
  createdAt : Bytes
  deriving DecidableEq

structure Publication where
  seq : Nat
  revision : Nat
  author : Bytes
  keyID : Bytes
  signature : Bytes
  publishedAt : Bytes
  deriving DecidableEq

structure Token where
  id : Nat
  setID : Nat
  name : Bytes
  kind : Bytes
  tokenPrefix : Bytes
  createdAt : Bytes
  revokedAt : Option Bytes
  lastUsedAt : Option Bytes
  lastUsedIP : Bytes
  pullsToday : Nat
  pullsWeek : Nat
  deriving DecidableEq

def Token.ofRow (t : TokenRow) : Token :=
  ⟨t.id, t.setID, t.name, t.kind, t.tokenPrefix, t.createdAt, t.revokedAt, t.lastUsedAt, t.lastUsedIP, 0, 0⟩

def VersionRow.withoutContent (v : VersionRow) : VersionRow := { v with content := [] }

namespace Tables

def ruleSet (d : Tables) (s : SetRow) : RuleSet where
  id := s.id
  orgID := s.orgID
  slug := s.slug
  name := s.name
  publishedRevision :=
    ((s.publishedVersionID.bind fun id => d.versions.find? (·.id == id)).map (·.revision)).getD 0
  latestRevision := ((d.versions.filter (·.setID == s.id)).map (·.revision)).foldl max 0
  createdAt := s.createdAt

def setBySlug (orgID : Nat) (slug : Bytes) (d : Tables) : Option RuleSet :=
  (d.sets.find? fun s => s.orgID == orgID && s.slug == slug).map d.ruleSet

def setByID (id : Nat) (d : Tables) : Option RuleSet := (d.sets.find? (·.id == id)).map d.ruleSet

def setsOf (orgID : Nat) (d : Tables) : List RuleSet :=
  ((d.sets.filter (·.orgID == orgID)).mergeSort fun s t => decide (s.slug ≤ t.slug)).map d.ruleSet

def versionByID (id : Nat) (d : Tables) : Option VersionRow := d.versions.find? (·.id == id)

def version (setID : Nat) (revision : Int) (d : Tables) : Option VersionRow :=
  d.versions.find? fun v => v.setID == setID && (v.revision : Int) == revision

def versionsOf (setID : Nat) (d : Tables) : List VersionRow :=
  ((d.versions.filter (·.setID == setID)).mergeSort fun v w => decide (w.revision ≤ v.revision)).map
    VersionRow.withoutContent

def nextRevision (setID : Nat) (d : Tables) : Nat :=
  ((d.versions.filter (·.setID == setID)).map (·.revision)).foldl max 0 + 1

def nextSeq (setID : Nat) (d : Tables) : Nat :=
  ((d.publications.filter (·.setID == setID)).map (·.seq)).foldl max 0 + 1

def publicationsOf (setID : Nat) (d : Tables) : List Publication :=
  ((d.publications.filter (·.setID == setID)).mergeSort fun p q => decide (q.seq ≤ p.seq)).filterMap fun p =>
    (d.versions.find? (·.id == p.versionID)).map fun v =>
      ⟨p.seq, v.revision, p.author, p.keyID, p.signature, p.publishedAt⟩

def publishedVersion (setID : Nat) (d : Tables) : Option VersionRow :=
  ((d.sets.find? (·.id == setID)).bind (·.publishedVersionID)).bind fun id => d.versions.find? (·.id == id)

def tokenByID (id : Nat) (d : Tables) : Option Token := (d.tokens.find? (·.id == id)).map .ofRow

def tokensOf (setID : Nat) (d : Tables) : List Token :=
  ((d.tokens.filter (·.setID == setID)).mergeSort fun t u => decide (t.id ≤ u.id)).map .ofRow

def keyByID (id : Nat) (d : Tables) : Option KeyRow := d.keys.find? (·.id == id)

def activeKey (orgID : Nat) (keyID : Bytes) (d : Tables) : Option KeyRow :=
  d.keys.find? fun k => k.orgID == orgID && k.keyID == keyID && k.revokedAt.isNone

def hasKeys (orgID : Nat) (d : Tables) : Bool :=
  decide (0 < d.keys.countP fun k => k.orgID == orgID && k.revokedAt.isNone)

def keysOf (orgID : Nat) (d : Tables) : List KeyRow :=
  (d.keys.filter (·.orgID == orgID)).mergeSort fun k l => decide (k.id ≤ l.id)

def usersOf (orgID : Nat) (d : Tables) : List UserRow :=
  (d.users.filter (·.orgID == orgID)).mergeSort fun u v => decide (u.id ≤ v.id)

def eventsOf (orgID : Nat) (before : Int) (limit : Nat) (d : Tables) : List EventRow :=
  ((d.events.filter fun e => e.orgID == orgID && decide ((e.id : Int) < before)).mergeSort fun e f =>
    decide (f.id ≤ e.id)).take limit

def pullsOf (setID : Nat) (since : Bytes) (d : Tables) : List PullRow :=
  (d.pulls.filter fun p => decide (since ≤ p.day) &&
    d.tokens.any fun t => t.id == p.tokenID && t.setID == setID).mergeSort fun p q =>
      decide (q.day < p.day) || p.day == q.day && decide (p.tokenID ≤ q.tokenID)

def addOrg (o : OrgRow) (d : Tables) : Tables := { d with orgs := d.orgs ++ [o] }

def addUser (u : UserRow) (d : Tables) : Tables := { d with users := d.users ++ [u] }

def addSet (s : SetRow) (d : Tables) : Tables := { d with sets := d.sets ++ [s] }

def addVersion (v : VersionRow) (d : Tables) : Tables := { d with versions := d.versions ++ [v] }

def addPublication (p : PublicationRow) (d : Tables) : Tables := { d with publications := d.publications ++ [p] }

def addToken (t : TokenRow) (d : Tables) : Tables := { d with tokens := d.tokens ++ [t] }

def addKey (k : KeyRow) (d : Tables) : Tables := { d with keys := d.keys ++ [k] }

def addEvent (e : EventRow) (d : Tables) : Tables := { d with events := d.events ++ [e] }

def lacksOrg (id : Nat) (d : Tables) : Bool := d.orgs.all (·.id != id)

def lacksSet (id : Nat) (d : Tables) : Bool := d.sets.all (·.id != id)

def lacksVersion (id : Nat) (d : Tables) : Bool := d.versions.all (·.id != id)

def violated (unique foreign : Bool) : Option StoreError :=
  if unique then some .unique else if foreign then some .foreignKey else none

variable (S : Services)

def insertRow (problem : Tables → Option StoreError) (ids : Tables → List Nat) (add : Nat → Tables → Tables) :
    Insert := fun d =>
  match problem d with
  | some e => .error e
  | none => .ok (S.newID (ids d), add (S.newID (ids d)) d)

def insertOrg (slug name createdAt : Bytes) : Insert :=
  insertRow S (fun d => violated (d.orgs.any (·.slug == slug)) false) (·.orgs.map (·.id)) fun id =>
    addOrg ⟨id, slug, name, createdAt⟩

def insertUser (orgID : Nat) (email invitedBy createdAt : Bytes) : Insert :=
  insertRow S (fun d => violated (d.users.any (·.email == email)) (d.lacksOrg orgID)) (·.users.map (·.id)) fun id =>
    addUser ⟨id, orgID, email, invitedBy, createdAt, none⟩

def hasSlug (orgID : Nat) (slug : Bytes) (d : Tables) : Bool := d.sets.any fun s => s.orgID == orgID && s.slug == slug

def insertSet (orgID : Nat) (slug name createdAt : Bytes) : Insert :=
  insertRow S (fun d => violated (d.hasSlug orgID slug) (d.lacksOrg orgID)) (·.sets.map (·.id)) fun id =>
    addSet ⟨id, orgID, slug, name, none, createdAt⟩

def hasRevision (setID revision : Nat) (d : Tables) : Bool :=
  d.versions.any fun v => v.setID == setID && v.revision == revision

def insertVersion (v : VersionRow) : Insert :=
  insertRow S (fun d => violated (d.hasRevision v.setID v.revision) (d.lacksSet v.setID)) (·.versions.map (·.id))
    fun id => addVersion { v with id := id }

def setPublished (setID versionID : Nat) (d : Tables) : Tables :=
  { d with sets := d.sets.map fun s => if s.id == setID then { s with publishedVersionID := some versionID } else s }

def hasSeq (setID seq : Nat) (d : Tables) : Bool := d.publications.any fun p => p.setID == setID && p.seq == seq

def insertPublication (p : PublicationRow) : Insert :=
  insertRow S (fun d => violated (d.hasSeq p.setID p.seq) (d.lacksSet p.setID || d.lacksVersion p.versionID))
    (·.publications.map (·.id)) fun id => addPublication { p with id := id }

def insertToken (t : TokenRow) : Insert :=
  insertRow S (fun d => violated (d.tokens.any (·.hash == t.hash)) (d.lacksSet t.setID)) (·.tokens.map (·.id))
    fun id => addToken { t with id := id }

def isToken (setID : Nat) (id : Int) (t : TokenRow) : Bool := (t.id : Int) == id && t.setID == setID

def revokeToken (setID : Nat) (id : Int) (now : Bytes) (d : Tables) : Tables :=
  { d with tokens := d.tokens.map fun t =>
      if isToken setID id t then { t with revokedAt := t.revokedAt.or (some now) } else t }

def hasKey (orgID : Nat) (keyID : Bytes) (d : Tables) : Bool := d.keys.any fun k => k.orgID == orgID && k.keyID == keyID

def insertKey (k : KeyRow) : Insert :=
  insertRow S (fun d => violated (d.hasKey k.orgID k.keyID) (d.lacksOrg k.orgID)) (·.keys.map (·.id)) fun id =>
    addKey { k with id := id }

def isKey (orgID : Nat) (id : Int) (k : KeyRow) : Bool := (k.id : Int) == id && k.orgID == orgID

def revokeKey (orgID : Nat) (id : Int) (now : Bytes) (d : Tables) : Tables :=
  { d with keys := d.keys.map fun k =>
      if isKey orgID id k then { k with revokedAt := k.revokedAt.or (some now) } else k }

def insertEvent (e : EventRow) : Insert :=
  insertRow S (fun d => violated false (d.lacksOrg e.orgID)) (·.events.map (·.id))
    fun id => addEvent { e with id := id }

end Tables

def found {A : Type} : Option A → Except StoreError A
  | some a => .ok a
  | none => .error .notFound

def orExists {A : Type} : Except StoreError A → Except StoreError A
  | .error .unique => .error .exists
  | r => r

variable (S : Services)

def insertAndGet {A : Type} (f : Insert) (get : Nat → Tables → Option A) : Sql (Except StoreError A) := do
  match ← insert f with
  | .error e => pure (.error e)
  | .ok id => Client.query fun d => found (get id d)

def createOrg (slug name : Bytes) (t : Instant) : Sql (Except StoreError OrgRow) :=
  match checkSlug slug with
  | .error e => pure (.error e)
  | .ok () => do
    pure (orExists (← insertAndGet (Tables.insertOrg S slug (if name.isEmpty then slug else name) t.format)
      fun id d => d.orgs.find? (·.id == id)))

def getOrg (slug : Bytes) : Sql (Except StoreError OrgRow) :=
  Client.query fun d => found (d.orgs.find? (·.slug == slug))

def listOrgs : Sql (List OrgRow) :=
  Client.query fun d => d.orgs.mergeSort fun o p => decide (o.slug ≤ p.slug)

def createUser (orgID : Nat) (email invitedBy : Bytes) (t : Instant) : Sql (Except StoreError UserRow) :=
  match normalizeEmail S email with
  | .error e => pure (.error e)
  | .ok email => do
    match ← getOrgByID orgID with
    | .error e => pure (.error e)
    | .ok _ =>
      pure (orExists (← insertAndGet (Tables.insertUser S orgID email invitedBy t.format)
        fun id d => d.users.find? (·.id == id)))

def getUserByEmail (email : Bytes) : Sql (Except StoreError UserRow) :=
  match normalizeEmail S email with
  | .error e => pure (.error e)
  | .ok email => Client.query fun d => found (d.users.find? (·.email == email))

def getSet (orgID : Nat) (slug : Bytes) : Sql (Except StoreError RuleSet) :=
  Client.query fun d => found (d.setBySlug orgID slug)

def getSetByID (id : Nat) : Sql (Except StoreError RuleSet) := Client.query fun d => found (d.setByID id)

def createSet (orgID : Nat) (slug name : Bytes) (t : Instant) : Sql (Except StoreError RuleSet) :=
  match checkSlug slug with
  | .error e => pure (.error e)
  | .ok () => do
    pure (orExists (← insertAndGet (Tables.insertSet S orgID slug (if name.isEmpty then slug else name) t.format)
      fun _ => Tables.setBySlug orgID slug))

def lockSet (pg : Bool) (setID : Nat) (locked : StoreTx) : StoreTx :=
  if pg then
    .lock setID (fun d => d.sets.any (·.id == setID)) fun row => if row then locked else .rollback (.error .notFound)
  else locked

structure VersionRequest where
  author : Bytes
  comment : Bytes
  canonical : Nat → Except Bytes (Bytes × Bytes)

def createVersionTx (pg : Bool) (setID : Nat) (req : VersionRequest) (t : Instant) : StoreTx :=
  lockSet pg setID <|
  .stmt id fun d =>
  if d.sets.countP (·.id == setID) = 0 then .rollback (.error .notFound)
  else
    .stmt id fun d =>
    match req.canonical (d.nextRevision setID) with
    | .error message => .rollback (.error (.rejected message))
    | .ok (content, etag) =>
      insertTx (Tables.insertVersion S
        ⟨0, setID, d.nextRevision setID, content, etag, req.author, req.comment, t.format⟩) fun id =>
      .commit (.ok id)

def maxRaceRetries : Nat := 5

def retry {A : Type} (again : StoreError → Bool) (attempt : Sql (Except StoreError A)) :
    Nat → Sql (Except StoreError A)
  | 0 => attempt
  | retries + 1 => do
    match ← attempt with
    | .ok a => pure (.ok a)
    | .error e => if again e then retry again attempt retries else pure (.error e)

def createVersionAttempt (pg : Bool) (setID : Nat) (req : VersionRequest) (t : Instant) :
    Sql (Except StoreError VersionRow) := do
  match ← Client.transaction (createVersionTx S pg setID req t) with
  | .error e => pure (.error e)
  | .ok id => Client.query fun d => found (d.versionByID id)

def createVersion (pg : Bool) (setID : Nat) (req : VersionRequest) (t : Instant) :
    Sql (Except StoreError VersionRow) :=
  retry (· == .unique) (createVersionAttempt S pg setID req t) maxRaceRetries

structure PublishRequest where
  revision : Int
  author : Bytes
  seq : Int
  keyID : Bytes
  signature : Bytes
  check : Nat → VersionRow → Except StoreError Unit

/-- The insert of a publication whose number was taken meanwhile is `ErrStale`. -/
def insertPublicationTx (setID : Nat) (req : PublishRequest) (v : VersionRow) (seq : Nat) (t : Instant) : StoreTx :=
  .stmt (Tables.setPublished setID v.id) fun _ =>
  let f := Tables.insertPublication S ⟨0, setID, seq, v.id, req.author, req.keyID, req.signature, t.format⟩
  .stmt f.write fun d =>
  match f.result d with
  | .ok _ => .commit (.ok seq)
  | .error .unique => .rollback (.error .stale)
  | .error e => .rollback (.error e)

def publishTx (pg : Bool) (setID : Nat) (req : PublishRequest) (t : Instant) : StoreTx :=
  lockSet pg setID <|
  .stmt id fun d =>
  match d.version setID req.revision with
  | none => .rollback (.error .notFound)
  | some v =>
    .stmt id fun d =>
    if req.seq ≠ 0 ∧ req.seq ≠ d.nextSeq setID then .rollback (.error .stale)
    else
      match req.check (d.nextSeq setID) v with
      | .error e => .rollback (.error e)
      | .ok () => insertPublicationTx S setID req v (d.nextSeq setID) t

def publishAttempt (pg : Bool) (setID : Nat) (req : PublishRequest) (t : Instant) :
    Sql (Except StoreError Publication) := do
  match ← Client.transaction (publishTx S pg setID req t) with
  | .error e => pure (.error e)
  | .ok seq => pure (.ok ⟨seq, req.revision.toNat, req.author, req.keyID, req.signature, t.format⟩)

def publish (pg : Bool) (setID : Nat) (req : PublishRequest) (t : Instant) : Sql (Except StoreError Publication) :=
  retry (fun e => e == .stale && req.seq == 0) (publishAttempt S pg setID req t) maxRaceRetries

def latestPublication (setID : Nat) : Sql (Except StoreError Publication) :=
  Client.query fun d =>
  match (d.publicationsOf setID).head? with
  | some p => .ok p
  | none => .error .notPublished

def published (setID : Nat) : Sql (Except StoreError VersionRow) :=
  Client.query fun d =>
  match d.publishedVersion setID with
  | some v => .ok v
  | none => .error .notPublished

def kindPull : Bytes := bs "pull"

def kindReport : Bytes := bs "report"

def prefixOf (kind : Bytes) : Option Bytes :=
  if kind = kindPull then some (bs "psr_") else if kind = kindReport then some (bs "pss_") else none

def createToken (setID : Nat) (name kind drawn : Bytes) (t : Instant) : Sql (Except StoreError (Token × Bytes)) :=
  let kind := if kind.isEmpty then kindPull else kind
  match prefixOf kind with
  | none => pure (.error .invalidKind)
  | some tp => do
    match ← getSetByID setID with
    | .error e => pure (.error e)
    | .ok _ =>
      let value := tp ++ drawn
      match ← insertAndGet (Tables.insertToken S
          ⟨0, setID, name, kind, value.take (tp.length + 8), S.hashToken value, t.format, none, none, []⟩)
        Tables.tokenByID with
      | .error e => pure (.error e)
      | .ok tok => pure (.ok (tok, value))

/-- An update of the rows a condition holds of; without one it is `ErrNotFound`. -/
def updateRows {A : Type} (write : Tables → Tables) (rows : Tables → List A) (isRow : A → Bool) :
    Sql (Except StoreError Unit) := do
  let affected ← Client.exec write fun d => (rows d).countP isRow
  pure (if affected = 0 then .error .notFound else .ok ())

def revokeToken (setID : Nat) (id : Int) (t : Instant) : Sql (Except StoreError Unit) :=
  updateRows (Tables.revokeToken setID id t.format) (·.tokens) (Tables.isToken setID id)

def addSigningKey (orgID : Nat) (keyID name publicKey createdBy : Bytes) (t : Instant) :
    Sql (Except StoreError KeyRow) := do
  pure (orExists (← insertAndGet
    (Tables.insertKey S ⟨0, orgID, keyID, name, publicKey, createdBy, t.format, none⟩) Tables.keyByID))

def revokeSigningKey (orgID : Nat) (id : Int) (t : Instant) : Sql (Except StoreError Unit) :=
  updateRows (Tables.revokeKey orgID id t.format) (·.keys) (Tables.isKey orgID id)

def record (e : EventRow) : Sql (Except StoreError Nat) := insert (Tables.insertEvent S e)

def events (orgID : Nat) (before : Int) (limit : Nat) : Sql (List EventRow) :=
  Client.query (Tables.eventsOf orgID (if before ≤ 0 then 2 ^ 63 - 1 else before) limit)

end PiiShield.Panel
