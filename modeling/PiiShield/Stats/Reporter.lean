import PiiShield.Operator.Reconcile
import PiiShield.Stats.Metrics
import PiiShield.Timestamps

/-! The stats channel of the operator for one policy: it reads the counters of the policy's
pods every pass, keeps their growth, and sends a report of it when one is due. -/

namespace PiiShield.Stats

open Operator

/-- A pod with the label of the webhook. Its UID is its own; the annotation is empty where
there is none. -/
structure Pod where
  uid : Nat
  name : Bytes
  policy : Bytes
  deleting : Bool
  running : Bool
  podIP : Bytes
  portNames : List Bytes
  deriving DecidableEq

structure RemoteRef where
  revision : Bytes
  publication : Int64
  signedBy : Bytes
  deriving DecidableEq

structure Policy where
  ns : Bytes
  name : Bytes
  auditMode : Bool
  url : Bytes
  intervalSeconds : Int
  clusterName : Bytes
  headerSecretRef : Option SecretKeySelector
  caBundleSecretRef : Option SecretKeySelector
  allowInsecure : Bool
  remote : Option RemoteRef

structure Totals where
  lines : Nat
  errors : Nat
  redactions : Tally Bytes
  auditFindings : Tally Bytes

def newTotals : Totals := ⟨0, 0, .empty, .empty⟩

/-- Why a pass could not list the pods or a report was not sent. -/
inductive StatsProblem
  | listPods (message : Bytes)
  | headerSecret (ref : SecretKeySelector)
  | caBundleSecret (ref : SecretKeySelector)
  | post (message : Bytes)
  deriving DecidableEq

structure StatsStatus where
  lastReportTime : Option Nat
  lastError : Option StatsProblem
  podsReporting : Nat
  podsTotal : Nat
  deriving DecidableEq

structure PolicyState where
  pods : Nat → Option Sample
  acc : Totals
  windowStart : Instant
  revisions : Tally Bytes
  podsReporting : Nat
  podsTotal : Nat
  lastStatus : StatsStatus

def freshState (now : Instant) : PolicyState :=
  ⟨fun _ => none, newTotals, now, .empty, 0, 0, ⟨none, none, 0, 0⟩⟩

structure Report where
  schema : Bytes
  cluster : Bytes
  policy : Bytes
  windowFrom : Instant
  windowTo : Instant
  mode : Bytes
  podsReporting : Nat
  podsTotal : Nat
  revisions : Tally Bytes
  remote : Option RemoteRef
  lines : Int
  errors : Int
  redactions : List (Bytes × Int)
  auditFindings : List (Bytes × Int)

/-- What a pass meets outside: the clock when the state is made and when the report is due,
the pods or why they could not be listed, what a sidecar answers, the Secrets, what becomes
of a report and of the status. -/
structure PassEnv where
  started : Instant
  now : Instant
  listPods : Except Bytes (List Pod)
  scrape : Pod → Option Bytes
  secretValue : SecretKeySelector → Option Bytes
  post : Source → Report → Except Bytes Unit
  patched : Bool

def interval (seconds : Int) : Int := if seconds ≤ 0 then 300 else max seconds 60

def grow (prev cur : Nat) : Nat := if prev ≤ cur then cur - prev else cur

/-- Go's `int64` of a whole number; one too large gives the least integer on amd64. -/
def int64Of (n : Nat) : Int := if n < 2 ^ 63 then n else -2 ^ 63

def policyPods (name : Bytes) (pods : List Pod) : List Pod :=
  (pods.filter fun pod =>
    (if pod.policy.isEmpty then bs "default" else pod.policy) == name && !pod.deleting && pod.running &&
      !pod.podIP.isEmpty).mergeSort fun a b => decide (a.name ≤ b.name)

def hasMetricsPort (pod : Pod) : Bool := pod.portNames.contains (bs "pii-metrics")

variable (parseFloat : Bytes → Option Nat)

def scraped (scrape : Pod → Option Bytes) (pod : Pod) : Option Sample :=
  if hasMetricsPort pod then (scrape pod).map (parse parseFloat) else none

def addGrowth (acc prev cur : Tally Bytes) : Tally Bytes :=
  cur.entries.foldl (fun acc e => acc.add e.1 (grow (prev.get e.1) e.2)) acc

def Totals.addGrowth (acc : Totals) (prev cur : Sample) : Totals where
  lines := acc.lines + grow prev.lines cur.lines
  errors := acc.errors + grow prev.errors cur.errors
  redactions := Stats.addGrowth acc.redactions prev.redactions cur.redactions
  auditFindings := Stats.addGrowth acc.auditFindings prev.auditFindings cur.auditFindings

structure Reading where
  pods : Nat → Option Sample
  acc : Totals
  alive : List Nat
  revisions : Tally Bytes

def readPod (samples : Pod → Option Sample) (r : Reading) (pod : Pod) : Reading :=
  match samples pod with
  | none => r
  | some s =>
    { pods := fun uid => if uid = pod.uid then some s else r.pods uid
      acc := match r.pods pod.uid with
        | none => r.acc
        | some prev => r.acc.addGrowth prev s
      alive := if pod.uid ∈ r.alive then r.alive else r.alive ++ [pod.uid]
      revisions := r.revisions.add (s.revision.getD []) 1 }

def readPods (samples : Pod → Option Sample) (st : PolicyState) (pods : List Pod) : Reading :=
  pods.foldl (readPod samples) ⟨st.pods, st.acc, [], .empty⟩

variable (p : Policy)

def report (st : PolicyState) (now : Instant) : Report where
  schema := bs "pii-shield-stats-v1"
  cluster := p.clusterName
  policy := p.ns ++ bs "/" ++ p.name
  windowFrom := st.windowStart
  windowTo := now
  mode := if p.auditMode then bs "audit" else bs "redact"
  podsReporting := st.podsReporting
  podsTotal := st.podsTotal
  revisions := st.revisions
  remote := p.remote
  lines := int64Of st.acc.lines
  errors := int64Of st.acc.errors
  redactions := st.acc.redactions.entries.map fun e => (e.1, int64Of e.2)
  auditFindings := if p.auditMode then st.acc.auditFindings.entries.map fun e => (e.1, int64Of e.2) else []

def secretOf (e : PassEnv) (ref : Option SecretKeySelector) (problem : SecretKeySelector → StatsProblem) :
    Except StatsProblem Bytes :=
  match ref with
  | none => .ok []
  | some ref =>
    match e.secretValue ref with
    | none => .error (problem ref)
    | some v => .ok v

def reportSource (e : PassEnv) : Except StatsProblem Source := do
  let authorization ← secretOf e p.headerSecretRef .headerSecret
  let caBundle ← secretOf e p.caBundleSecretRef .caBundleSecret
  return ⟨p.url, trimSpace authorization, caBundle, p.allowInsecure, []⟩

def send (st : PolicyState) (e : PassEnv) : Except StatsProblem Unit := do
  let src ← reportSource p e
  (e.post src (report p st e.now)).mapError .post

def patchStatus (st : PolicyState) (status : StatsStatus) (patched : Bool) : PolicyState :=
  if st.lastStatus = status ∨ patched = false then st else { st with lastStatus := status }

def afterReading (st : PolicyState) (pods : List Pod) (r : Reading) : PolicyState :=
  { st with
    pods := fun uid => if uid ∈ r.alive then r.pods uid else none
    acc := r.acc
    revisions := r.revisions
    podsReporting := r.alive.length
    podsTotal := pods.length }

def isDue (st : PolicyState) (now : Instant) : Bool :=
  decide (interval p.intervalSeconds * 10 ^ 9 ≤ (now.nanos : Int) - st.windowStart.nanos)

def passPolicy (st : PolicyState) (e : PassEnv) :
    PolicyState × Option (Report × Except StatsProblem Unit) :=
  match e.listPods with
  | .error message =>
    (patchStatus st { st.lastStatus with lastError := some (.listPods message) } e.patched, none)
  | .ok pods =>
    let pods := policyPods p.name pods
    let st' := afterReading st pods (readPods (scraped parseFloat e.scrape) st pods)
    let status : StatsStatus :=
      { st.lastStatus with podsReporting := st'.podsReporting, podsTotal := st'.podsTotal }
    if isDue p st' e.now then
      match send p st' e with
      | .error problem =>
        (patchStatus st' { status with lastError := some problem } e.patched,
          some (report p st' e.now, .error problem))
      | .ok () =>
        (patchStatus { st' with acc := newTotals, windowStart := e.now }
          { status with lastReportTime := some e.now.nanos, lastError := none } e.patched,
          some (report p st' e.now, .ok ()))
    else (patchStatus st' status e.patched, none)

/-- One `Pass` as a policy sees it: the policies were not listed, it is not among those with
stats, or it is. -/
inductive Round
  | unlisted
  | off
  | on (p : Policy) (e : PassEnv)

def Round.run (st : Option PolicyState) : Round → Option PolicyState × Option (Report × Except StatsProblem Unit)
  | .unlisted => (st, none)
  | .off => (none, none)
  | .on p e =>
    let pass := passPolicy parseFloat p (st.getD (freshState e.started)) e
    (some pass.1, pass.2)

end PiiShield.Stats
