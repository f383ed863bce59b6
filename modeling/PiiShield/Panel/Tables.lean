import PiiShield.Sequential
import PiiShield.Timestamps
import PiiShield.Unicode

/-! The tables behind the panel, and the statements on them. Rows stand in the order of their
insertion; times are stored as texts. -/

namespace PiiShield.Panel

open Transactions

structure OrgRow where
  id : Nat
  slug : Bytes
  name : Bytes
  createdAt : Bytes
  deriving DecidableEq

structure UserRow where
  id : Nat
  orgID : Nat
  email : Bytes
  invitedBy : Bytes
  createdAt : Bytes
  lastLogin : Option Bytes
  deriving DecidableEq

structure LoginRow where
  id : Nat
  email : Bytes
  hash : Bytes
  createdAt : Bytes
  expiresAt : Bytes
  usedAt : Option Bytes
  deriving DecidableEq

structure SessionRow where
  id : Nat
  userID : Nat
  hash : Bytes
  createdAt : Bytes
  expiresAt : Bytes
  deriving DecidableEq

structure SetRow where
  id : Nat
  orgID : Nat
  slug : Bytes
  name : Bytes
  publishedVersionID : Option Nat
  createdAt : Bytes
  deriving DecidableEq

structure VersionRow where
  id : Nat
  setID : Nat
  revision : Nat
  content : Bytes
  etag : Bytes
  author : Bytes
  comment : Bytes
  createdAt : Bytes
  deriving DecidableEq

structure PublicationRow where
  id : Nat
  setID : Nat
  seq : Nat
  versionID : Nat
  author : Bytes
  keyID : Bytes
  signature : Bytes
  publishedAt : Bytes
  deriving DecidableEq

structure TokenRow where
  id : Nat
  setID : Nat
  name : Bytes
  kind : Bytes
  tokenPrefix : Bytes
  hash : Bytes
  createdAt : Bytes
  revokedAt : Option Bytes
  lastUsedAt : Option Bytes
  lastUsedIP : Bytes
  deriving DecidableEq

structure KeyRow where
  id : Nat
  orgID : Nat
  keyID : Bytes
  name : Bytes
  publicKey : Bytes
  createdBy : Bytes
  createdAt : Bytes
  revokedAt : Option Bytes
  deriving DecidableEq

structure EventRow where
  id : Nat
  orgID : Nat
  time : Bytes
  actor : Bytes
  action : Bytes
  target : Bytes
  detail : Bytes
  ip : Bytes
  deriving DecidableEq

/-- The maps are stored as their JSON texts and read back from them. -/
structure ReportRow where
  id : Nat
  setID : Nat
  tokenID : Nat
  cluster : Bytes
  policy : Bytes
  receivedAt : Bytes
  windowFrom : Bytes
  windowTo : Bytes
  mode : Bytes
  podsReporting : Int
  podsTotal : Int
  revisions : List (Bytes × Int)
  remoteRevision : Bytes
  remotePublication : Int
  remoteSignedBy : Bytes
  lines : Int
  errors : Int
  redactions : List (Bytes × Int)
  auditFindings : List (Bytes × Int)
  deriving DecidableEq

structure PullRow where
  tokenID : Nat
  day : Bytes
  pulls : Nat
  notModified : Nat
  deriving DecidableEq

structure Tables where
  orgs : List OrgRow
  users : List UserRow
  logins : List LoginRow
  sessions : List SessionRow
  sets : List SetRow
  versions : List VersionRow
  publications : List PublicationRow
  tokens : List TokenRow
  keys : List KeyRow
  events : List EventRow
  reports : List ReportRow
  pulls : List PullRow

def Tables.empty : Tables := ⟨[], [], [], [], [], [], [], [], [], [], [], []⟩

inductive StoreError
  | notFound
  | exists
  | invalidSlug
  | invalidEmail
  | invalidKind
  | notPublished
  | expired
  | stale
  | badSignature
  | rejected (message : Bytes)
  | unique
  | foreignKey
  | noRows
  deriving DecidableEq

/-- What the store takes from outside: Unicode tables, `net/mail`, SHA-256 in hex and the id
the database gives a row beside the ids there are. -/
structure Services where
  unicode : Unicode
  parseAddress : Bytes → Option (Bytes × Bytes)
  hashToken : Bytes → Bytes
  newID : List Nat → Nat

/-- ASCII, every address taken as it is, values stored in clear and ids counted up. -/
def Services.plain : Services := ⟨.ascii, fun a => some ([], a), id, List.length⟩

abbrev StoreTx := Tx Tables Nat (Except StoreError Nat)

abbrev Sql := Client Tables Nat Empty (Except StoreError Nat)

abbrev Insert := Tables → Except StoreError (Nat × Tables)

def Insert.write (f : Insert) (d : Tables) : Tables :=
  match f d with
  | .ok (_, d') => d'
  | .error _ => d

def Insert.result (f : Insert) (d : Tables) : Except StoreError Nat := (f d).map Prod.fst

def insert (f : Insert) : Sql (Except StoreError Nat) := Client.exec f.write f.result

def insertTx (f : Insert) (next : Nat → StoreTx) : StoreTx :=
  .stmt f.write fun d =>
  match f.result d with
  | .ok id => next id
  | .error e => .rollback (.error e)

end PiiShield.Panel
