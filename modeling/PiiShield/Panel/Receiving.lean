import PiiShield.Panel.Reports

/-! The rule server takes a stats report from a cluster: its bounds, and how it is stored. -/

namespace PiiShield.Panel

open Transactions

structure ReportRemote where
  revision : Bytes
  publication : Int
  signedBy : Bytes
  deriving DecidableEq

structure ReportBody where
  schema : Bytes
  cluster : Bytes
  policy : Bytes
  windowFrom : Instant
  windowTo : Instant
  mode : Bytes
  podsReporting : Int
  podsTotal : Int
  revisions : List (Bytes × Int)
  remote : Option ReportRemote
  lines : Int
  errors : Int
  redactions : List (Bytes × Int)
  auditFindings : List (Bytes × Int)

inductive ReportProblem
  | schema
  | policy
  | mode
  | window
  | counts
  | keys
  | detectorType
  | revision
  | remote
  deriving DecidableEq

def reportSchema : Bytes := bs "pii-shield-stats-v1"

def maxReportKeys : Nat := 64

def ReportProblem.message : ReportProblem → Bytes
  | schema => bs "schema must be \"" ++ reportSchema ++ bs "\""
  | policy => bs "policy is required (at most 253 characters) and cluster at most 128"
  | mode => bs "mode must be \"redact\" or \"audit\""
  | window => bs "from and to must be a window, from before to"
  | counts => bs "counts must not be negative, and podsReporting not above podsTotal"
  | keys => bs "at most " ++ formatNat maxReportKeys ++ bs " revisions or detector types"
  | detectorType => bs "a detector type is too long or its count negative"
  | revision => bs "a revision is too long or its count negative"
  | remote => bs "remote revision or signedBy too long"

def maxKeyLen : Nat := 128

def fitKeys (counts : List (Bytes × Int)) : Bool :=
  counts.all fun e => decide (e.1.length ≤ maxKeyLen) && decide (0 ≤ e.2)

namespace ReportBody

def check (b : ReportBody) : Except ReportProblem Unit :=
  if b.schema ≠ reportSchema then .error .schema
  else if b.policy = [] ∨ b.policy.length > 253 ∨ b.cluster.length > maxKeyLen then .error .policy
  else if b.mode ≠ bs "redact" ∧ b.mode ≠ bs "audit" then .error .mode
  else if b.windowFrom.nanos = 0 ∨ b.windowTo.nanos < b.windowFrom.nanos then .error .window
  else if b.lines < 0 ∨ b.errors < 0 ∨ b.podsReporting < 0 ∨ b.podsTotal < b.podsReporting then .error .counts
  else if b.revisions.length > maxReportKeys ∨ b.redactions.length > maxReportKeys ∨
      b.auditFindings.length > maxReportKeys then .error .keys
  else if !(fitKeys b.redactions && fitKeys b.auditFindings) then .error .detectorType
  else if !fitKeys b.revisions then .error .revision
  else if b.remote.any fun r => decide (r.revision.length > maxKeyLen) || decide (r.signedBy.length > maxKeyLen) then
    .error .remote
  else .ok ()

theorem check_eq_ok_iff (b : ReportBody) : b.check = .ok () ↔
    b.schema = reportSchema ∧ (b.policy ≠ [] ∧ b.policy.length ≤ 253 ∧ b.cluster.length ≤ maxKeyLen) ∧
    (b.mode = bs "redact" ∨ b.mode = bs "audit") ∧
    (b.windowFrom.nanos ≠ 0 ∧ b.windowFrom.nanos ≤ b.windowTo.nanos) ∧
    (0 ≤ b.lines ∧ 0 ≤ b.errors ∧ 0 ≤ b.podsReporting ∧ b.podsReporting ≤ b.podsTotal) ∧
    (b.revisions.length ≤ maxReportKeys ∧ b.redactions.length ≤ maxReportKeys ∧
      b.auditFindings.length ≤ maxReportKeys) ∧
    (fitKeys b.redactions = true ∧ fitKeys b.auditFindings = true) ∧ fitKeys b.revisions = true ∧
    ∀ r, b.remote = some r → r.revision.length ≤ maxKeyLen ∧ r.signedBy.length ≤ maxKeyLen := by
  have hremote : (b.remote.any fun r => decide (r.revision.length > maxKeyLen) ||
      decide (r.signedBy.length > maxKeyLen)) = false ↔
        ∀ r, b.remote = some r → r.revision.length ≤ maxKeyLen ∧ r.signedBy.length ≤ maxKeyLen := by
    cases b.remote <;> simp
  rw [← hremote, check]
  grind

def row (b : ReportBody) (setID tokenID : Nat) : ReportRow where
  id := 0
  setID := setID
  tokenID := tokenID
  cluster := b.cluster
  policy := b.policy
  receivedAt := []
  windowFrom := b.windowFrom.format
  windowTo := b.windowTo.format
  mode := b.mode
  podsReporting := b.podsReporting
  podsTotal := b.podsTotal
  revisions := b.revisions
  remoteRevision := (b.remote.map (·.revision)).getD []
  remotePublication := (b.remote.map (·.publication)).getD 0
  remoteSignedBy := (b.remote.map (·.signedBy)).getD []
  lines := b.lines
  errors := b.errors
  redactions := b.redactions
  auditFindings := b.auditFindings

end ReportBody

variable (S : Services)

def receiveReport (setID tokenID : Nat) (b : ReportBody) (now cutoff : Instant) : Sql Bool :=
  match b.check with
  | .error _ => pure false
  | .ok () => do
    match ← addReport S (b.row setID tokenID) now cutoff with
    | .error _ => pure false
    | .ok _ => pure true

theorem eval_receiveReport {setID tokenID : Nat} {b : ReportBody} {now cutoff : Instant} {d : Tables} :
    (receiveReport S setID tokenID b now cutoff).eval d =
      if b.check.isOk then (((addReport S (b.row setID tokenID) now cutoff).eval d).1.isOk,
        ((addReport S (b.row setID tokenID) now cutoff).eval d).2)
      else (false, d) := by
  rw [receiveReport]
  cases b.check with
  | error problem => rfl
  | ok _ =>
    simp only [Client.eval_bind]
    cases ((addReport S (b.row setID tokenID) now cutoff).eval d).1 <;> rfl

end PiiShield.Panel
