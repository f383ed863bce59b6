import PiiShield.Panel.Tables

/-! The stats reports the store keeps. -/

namespace PiiShield.Panel

open Transactions

namespace Tables

variable (S : Services)

def insertReport (r : ReportRow) : Insert := fun d =>
  if d.sets.all (·.id != r.setID) || d.tokens.all (·.id != r.tokenID) then .error .foreignKey
  else
    let id := S.newID (d.reports.map (·.id))
    .ok (id, { d with reports := d.reports ++ [{ r with id := id }] })

def dropReports (setID : Nat) (cutoff : Bytes) (d : Tables) : Tables :=
  { d with reports := d.reports.filter fun r => !(r.setID == setID && decide (r.receivedAt < cutoff)) }

/-- The rows `Clusters` goes through, each with its token's name. -/
def reportsSince (setID : Nat) (since : Bytes) (d : Tables) : List (ReportRow × Bytes) :=
  ((d.reports.filter fun r => r.setID == setID && decide (since ≤ r.receivedAt)).mergeSort
    fun r r' => decide (r'.id ≤ r.id)).filterMap fun r =>
      (d.tokens.find? (·.id == r.tokenID)).map fun t => (r, t.name)

end Tables

variable (S : Services)

def addReportTx (r : ReportRow) (now cutoff : Instant) : StoreTx :=
  insertTx (Tables.insertReport S { r with receivedAt := now.format }) fun id =>
  .stmt (Tables.dropReports r.setID cutoff.format) fun _ =>
  .commit (.ok id)

def addReport (r : ReportRow) (now cutoff : Instant) : Sql (Except StoreError Nat) :=
  Client.transaction (addReportTx S r now cutoff)

theorem eval_addReport (S : Services) (r : ReportRow) (now cutoff : Instant) (d : Tables) :
    (∃ e, (addReport S r now cutoff).eval d = (.error e, d)) ∨
      ∃ id, (addReport S r now cutoff).eval d = (.ok id, Tables.dropReports r.setID cutoff.format
        { d with reports := d.reports ++ [{ r with receivedAt := now.format, id := id }] }) := by
  rw [addReport, Client.eval_transaction, addReportTx, insertTx, Tx.eval, Insert.result, Insert.write,
    Tables.insertReport]
  split_ifs
  · exact .inl ⟨_, rfl⟩
  exact .inr ⟨_, rfl⟩

structure ClusterSummary where
  tokenID : Nat
  tokenName : Bytes
  cluster : Bytes
  policy : Bytes
  latest : ReportRow
  reports : Nat
  lines : Int
  errors : Int
  redactions : List (Bytes × Int)
  auditFindings : List (Bytes × Int)
  deriving DecidableEq

def addCounts (sums counts : List (Bytes × Int)) : List (Bytes × Int) :=
  counts.foldl (fun sums c =>
    if sums.any (·.1 == c.1) then sums.map fun s => if s.1 == c.1 then (s.1, s.2 + c.2) else s
    else sums ++ [c]) sums

namespace ClusterSummary

def ofReport (r : ReportRow) (tokenName : Bytes) : ClusterSummary :=
  ⟨r.tokenID, tokenName, r.cluster, r.policy, r, 0, 0, 0, [], []⟩

def isOf (r : ReportRow) (c : ClusterSummary) : Bool :=
  c.tokenID == r.tokenID && c.cluster == r.cluster && c.policy == r.policy

def add (r : ReportRow) (c : ClusterSummary) : ClusterSummary :=
  { c with
    reports := c.reports + 1
    lines := c.lines + r.lines
    errors := c.errors + r.errors
    redactions := addCounts c.redactions r.redactions
    auditFindings := addCounts c.auditFindings r.auditFindings }

end ClusterSummary

def addToClusters (out : List ClusterSummary) (row : ReportRow × Bytes) : List ClusterSummary :=
  let out := if out.any (·.isOf row.1) then out else out ++ [.ofReport row.1 row.2]
  out.map fun c => if c.isOf row.1 then c.add row.1 else c

def clusters (setID : Nat) (since : Instant) : Sql (List ClusterSummary) :=
  Client.query fun d => (d.reportsSince setID since.format).foldl addToClusters []

end PiiShield.Panel
