import PiiShield.Bytes
import PiiShield.Transactions

/-! The store of the rule server: versions and publications of rule sets, and the keys of
organizations. A version is named by its set and revision. -/

namespace PiiShield.Rules

open Transactions

structure Version where
  revision : Nat
  content : Bytes
  etag : Bytes
  author : Bytes
  comment : Bytes
  deriving DecidableEq

structure Publication where
  seq : Nat
  revision : Nat
  author : Bytes
  keyID : Bytes
  signature : Bytes
  deriving DecidableEq

/-- A row of `rule_sets` with the rows that refer to it, in the order of their insertion. -/
structure RuleSet where
  org : Nat
  slug : Bytes
  published : Option Nat
  versions : List Version
  publications : List Publication
  deriving DecidableEq

structure SigningKey where
  org : Nat
  keyID : Bytes
  publicKey : Bytes
  revoked : Bool
  deriving DecidableEq

structure Database where
  orgSlug : Nat → Bytes
  sets : Nat → Option RuleSet
  keys : List SigningKey

inductive Fact
  | noKey (org : Nat)
  | activeKey (org : Nat) (keyID : Bytes)
  | serves (set revision : Nat)
  deriving DecidableEq

inductive StoreError (E : Type)
  | notFound
  | exists
  | stale
  | unique
  | rejected (e : E)
  deriving DecidableEq

abbrev StoreTx (E : Type) := Tx Database Nat (Except (StoreError E) Nat)

abbrev Code (E A : Type) := Client Database Nat Fact (Except (StoreError E) Nat) A

namespace Database

variable (d : Database)

variable (set : Nat)

def version (revision : Int) : Option Version :=
  (d.sets set).bind fun s => s.versions.find? fun v => (v.revision : Int) == revision

def maxRevision : Nat :=
  ((d.sets set).map fun s => (s.versions.map (·.revision)).foldl max 0).getD 0

def maxSeq : Nat :=
  ((d.sets set).map fun s => (s.publications.map (·.seq)).foldl max 0).getD 0

def hasSeq (set seq : Nat) : Bool := (d.sets set).any fun s => s.publications.any (·.seq == seq)

def updateSet (f : RuleSet → RuleSet) : Database :=
  { d with sets := fun i => if i = set then (d.sets i).map f else d.sets i }

def insertVersion (v : Version) (d : Database) : Database :=
  if (d.version set v.revision).isSome then d
  else d.updateSet set fun s => { s with versions := s.versions ++ [v] }

def setPublished (set revision : Nat) (d : Database) : Database :=
  d.updateSet set fun s => { s with published := some revision }

def insertPublication (p : Publication) (d : Database) : Database :=
  if d.hasSeq set p.seq then d
  else d.updateSet set fun s => { s with publications := s.publications ++ [p] }

def latestPublication : Option Publication :=
  (d.sets set).bind fun s => s.publications.find? fun p => p.seq == d.maxSeq set

def publishedVersion : Option Version :=
  (d.sets set).bind fun s => s.published.bind fun revision => d.version set revision

end Database

variable {E A : Type}

variable (pg : Bool)

def lockSet (set : Nat) (found : StoreTx E) : StoreTx E :=
  if pg then .lock set (fun d => (d.sets set).isSome) fun row => if row then found else .rollback (.error .notFound)
  else found

def insertVersionTx (set : Nat) (author comment : Bytes) (canonical : Nat → Except E (Bytes × Bytes))
    (revision : Nat) : StoreTx E :=
  match canonical revision with
  | .error e => .rollback (.error (.rejected e))
  | .ok (content, etag) =>
    .stmt (Database.insertVersion set ⟨revision, content, etag, author, comment⟩) fun d =>
    if (d.version set revision).isSome then .rollback (.error .unique) else .commit (.ok revision)

def createVersionTx (set : Nat) (author comment : Bytes)
    (canonical : Nat → Except E (Bytes × Bytes)) : StoreTx E :=
  lockSet pg set <|
  .stmt id fun d =>
  if (d.sets set).isNone then .rollback (.error .notFound)
  else .stmt id fun d => insertVersionTx set author comment canonical (d.maxRevision set + 1)

def maxRaceRetries : Nat := 5

def retrying {C : Type} (attempt : Option C → C) : Nat → C
  | 0 => attempt none
  | retries + 1 => attempt (some (retrying attempt retries))

def createVersionAttempt (set : Nat) (author comment : Bytes)
    (canonical : Nat → Except E (Bytes × Bytes)) (next : Except (StoreError E) Version → Code E A)
    (again : Option (Code E A)) : Code E A :=
  .transact [] (createVersionTx pg set author comment canonical) fun
    | .ok revision => .stmt [] id fun d =>
      match d.version set revision with
      | some v => next (.ok v)
      | none => next (.error .notFound)
    | .error .unique => again.getD (next (.error .unique))
    | .error e => next (.error e)

def createVersion (set : Nat) (author comment : Bytes)
    (canonical : Nat → Except E (Bytes × Bytes)) (next : Except (StoreError E) Version → Code E A) : Code E A :=
  retrying (createVersionAttempt pg set author comment canonical next) maxRaceRetries

structure PublishRequest (E : Type) where
  revision : Int
  author : Bytes
  seq : Int
  keyID : Bytes
  signature : Bytes
  check : Nat → Version → Except E Unit

def insertPublicationTx (set : Nat) (req : PublishRequest E) (v : Version) (seq : Nat) : StoreTx E :=
  if req.seq ≠ 0 ∧ req.seq ≠ seq then .rollback (.error .stale)
  else
    match req.check seq v with
    | .error e => .rollback (.error (.rejected e))
    | .ok () =>
      .stmt (Database.setPublished set v.revision) fun _ =>
      .stmt (Database.insertPublication set ⟨seq, v.revision, req.author, req.keyID, req.signature⟩) fun d =>
      if d.hasSeq set seq then .rollback (.error .stale) else .commit (.ok seq)

def publishTx (set : Nat) (req : PublishRequest E) : StoreTx E :=
  lockSet pg set <|
  .stmt id fun d =>
  match d.version set req.revision with
  | none => .rollback (.error .notFound)
  | some v => .stmt id fun d => insertPublicationTx set req v (d.maxSeq set + 1)

def publishAttempt (relies : List Fact) (pg : Bool) (set : Nat) (req : PublishRequest E)
    (next : Except (StoreError E) Publication → Code E A) (again : Option (Code E A)) : Code E A :=
  .transact relies (publishTx pg set req) fun
    | .ok seq => next (.ok ⟨seq, req.revision.toNat, req.author, req.keyID, req.signature⟩)
    | .error .stale => if req.seq = 0 then again.getD (next (.error .stale)) else next (.error .stale)
    | .error e => next (.error e)

def publish (relies : List Fact) (pg : Bool) (set : Nat) (req : PublishRequest E)
    (next : Except (StoreError E) Publication → Code E A) : Code E A :=
  retrying (publishAttempt relies pg set req next) maxRaceRetries

end PiiShield.Rules
