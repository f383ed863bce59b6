import PiiShield.Histories
import PiiShield.Operator.Environment

/-! The sidecar's policy reloader: each check looks at the file and may publish the environment over
its content. What a check finds at the path is an input, so a file may change between the `stat` and
the read. -/

namespace PiiShield.Cleaner

open Operator

/-- The variables `ApplyEnvOverrides` reads; they do not change while the process runs. -/
structure Environ where
  rules : Variable → Bytes
  salt : Bytes
  requireStrongSalt : Bytes

structure RandomSalt where
  bytes : Bytes
  length_eq : bytes.length = 32

structure SaltedConfig (Num : Type) extends FileConfig Num where
  salt : Bytes

/-- The source's `configState`. The HMAC pool and the bigram table are those of the salt and the
score in `config`. -/
structure Snapshot (Num : Type) where
  config : SaltedConfig Num
  sensitiveRegex : Option Regexp
  keyMatcher : KeyMatcher

structure FileInfo where
  modTime : Int
  size : Int
  deriving DecidableEq

/-- What opening, reading to the end and closing the file gives. -/
inductive FileRead
  | openError
  | readError
  | closeError
  | content (b : Bytes)

/-- What a check finds at the path, and the random bytes it could draw. -/
structure Observation where
  stat : Option FileInfo
  read : FileRead
  random : RandomSalt

inductive LoadProblem
  | openError
  | readError
  | closeError
  | tooLarge
  | policy (p : PolicyProblem)

structure PolicyReloader where
  salt : Bytes
  metrics : Bool
  seen : Option FileInfo
  missingLogged : Bool
  revision : Bytes

structure ReloadMetrics where
  configReloadErrorsTotal : Nat
  configReloadsTotal : Nat
  configRevisionInfo : Option Bytes

structure Reloading (Num : Type) where
  reloader : PolicyReloader
  active : Snapshot Num
  metrics : ReloadMetrics

def maxPolicyFileBytes : Nat := 4 <<< 20

variable {Num : Type} {P : Platform Num} (S : Sidecar P) (T : TextForms Num) (e : Environ)

def overrideSalt (U : Unicode) (e : Environ) (random : RandomSalt) (salt : Bytes) : Option Bytes :=
  if !e.salt.isEmpty then
    if e.salt.length < 16 && envTruthy U e.requireStrongSalt then none else some e.salt
  else if salt.isEmpty then some random.bytes
  else some salt

def environmentOver (c : FileConfig Num) (salt : Bytes) : SaltedConfig Num :=
  { applyEnvOverrides S T e.rules c with salt }

def applyEnv (random : RandomSalt) (c : SaltedConfig Num) : Option (SaltedConfig Num) :=
  (overrideSalt P.unicode e random c.salt).map (environmentOver S T e c.toFileConfig)

def updateConfig (c : SaltedConfig Num) : Snapshot Num where
  config := c
  sensitiveRegex := (compileSensitiveKeyPatterns S c.sensitiveKeyPatterns).join
  keyMatcher := newKeyMatcher c.sensitiveKeys

def newPolicyReloader (metricsEnabled : Bool) (random : RandomSalt) : Option (Reloading Num) :=
  (applyEnv S T e random ⟨defaultFileConfig S, []⟩).map fun base =>
    { reloader :=
        { salt := base.salt, metrics := metricsEnabled, seen := none, missingLogged := false, revision := [] }
      active := updateConfig S base
      metrics := ⟨0, 0, none⟩ }

def loadPolicyFile : FileRead → Except LoadProblem (FileConfig Num × Bytes)
  | .openError => .error .openError
  | .readError => .error .readError
  | .closeError => .error .closeError
  | .content c =>
    let b := c.take (maxPolicyFileBytes + 1)
    if maxPolicyFileBytes < b.length then .error .tooLarge else (parsePolicyJSON S b).mapError .policy

def check (o : Observation) (s : Reloading Num) : Option (Reloading Num × Bool) :=
  match o.stat with
  | none => some ({ s with reloader := { s.reloader with missingLogged := true } }, false)
  | some fi =>
    let r := { s.reloader with missingLogged := false }
    if r.seen = some fi then some ({ s with reloader := r }, false)
    else
      let r := { r with seen := some fi }
      match loadPolicyFile S o.read with
      | .error _ =>
        let errors := s.metrics.configReloadErrorsTotal + if r.metrics then 1 else 0
        some ({ s with reloader := r, metrics := { s.metrics with configReloadErrorsTotal := errors } }, false)
      | .ok (cfg, rev) =>
        (applyEnv S T e o.random ⟨cfg, r.salt⟩).map fun cfg =>
          let metrics :=
            if r.metrics then
              { s.metrics with
                configReloadsTotal := s.metrics.configReloadsTotal + 1
                configRevisionInfo := some rev }
            else s.metrics
          ({ reloader := { r with revision := rev }, active := updateConfig S cfg, metrics }, true)

def checks : List Observation → Reloading Num → Option (Reloading Num)
  | [], s => some s
  | o :: run, s => (check S T e o s).bind fun r => checks run r.1

/-- The file as the latest `stat` that succeeded described it. -/
def latestStat (run : List Observation) : Option FileInfo := (run.filterMap (·.stat)).getLast?

/-- The policy in a file that was read completely, if `ParsePolicyJSON` accepts it. -/
def FileRead.policy : FileRead → Option (FileConfig Num × Bytes)
  | .content b => if b.length ≤ maxPolicyFileBytes then (parsePolicyJSON S b).toOption else none
  | _ => none

def accepted (before : List Observation) (o : Observation) : Option (FileConfig Num × Bytes) :=
  if o.stat = none ∨ o.stat = latestStat before then none else o.read.policy S

def IsLatest (run : List Observation) : Option (FileConfig Num × Bytes) → Prop
  | none => AtEvery (fun before o => accepted S before o = none) run
  | some f => ∃ before o after, run = before ++ o :: after ∧ accepted S before o = some f ∧
      ∀ mid o', before ++ o :: mid ++ [o'] <+: run → accepted S (before ++ o :: mid) o' = none

end PiiShield.Cleaner
