import PiiShield.Operator.Sidecar

/-! The rules of a policy as environment variables: what the webhook writes on a pod and what
the sidecar reads back. Lists of texts are joined by commas, rules are JSON. -/

namespace PiiShield.Operator

inductive Variable
  | entropyThreshold
  | confidenceThreshold
  | minSecretLength
  | disableBigramCheck
  | bigramDefaultScore
  | entityTypeLabels
  | adaptiveThreshold
  | adaptiveSamples
  | sensitiveKeys
  | sensitiveKeyPatterns
  | customRegexList
  | safeRegexList
  deriving DecidableEq

variable {Num : Type} {P : Platform Num}

/-- `strconv` for numbers with a fraction, and `encoding/json` for a list of rules. -/
structure TextForms (Num : Type) where
  formatFloat : Num → Bytes
  parseFloat : Bytes → Option Num
  marshalRules : List Rule → Option Bytes
  unmarshalRules : Bytes → Option (List Rule)

def itoa (i : Int) : Bytes := if i < 0 then chr '-' :: formatNat i.natAbs else formatNat i.natAbs

section Webhook

variable (P) (T : TextForms Num)

def addEnv (name : Variable) (value : Bytes) : List (Variable × Bytes) :=
  if value.isEmpty then [] else [(name, value)]

def marshalRegexRules (rules : List Rule) : Bytes :=
  if rules.isEmpty then [] else (T.marshalRules rules).getD []

def scannerEnv (spec : PolicyRules Num) : List (Variable × Bytes) :=
  (if P.isZero spec.confidenceThreshold then []
    else addEnv .confidenceThreshold (T.formatFloat spec.confidenceThreshold)) ++
  (if P.isZero spec.entropyThreshold then []
    else addEnv .entropyThreshold (T.formatFloat spec.entropyThreshold)) ++
  (if 0 < spec.minSecretLength then addEnv .minSecretLength (itoa spec.minSecretLength) else []) ++
  addEnv .sensitiveKeys ([chr ','].intercalate spec.sensitiveKeys) ++
  addEnv .sensitiveKeyPatterns ([chr ','].intercalate spec.sensitiveKeyPatterns) ++
  addEnv .customRegexList (marshalRegexRules T spec.customRegexList) ++
  addEnv .safeRegexList (marshalRegexRules T spec.safeRegexList)

end Webhook

def getenv (env : List (Variable × Bytes)) (name : Variable) : Bytes := (env.lookup name).getD []

def splitCommas (s : Bytes) : List Bytes := s.splitOn (chr ',')

section Overrides

variable (S : Sidecar P) (T : TextForms Num)

def overrideNumber (s : Bytes) (old : Num) : Num :=
  if s.isEmpty then old else (T.parseFloat (trimSpace s)).getD old

def overrideLength (s : Bytes) (old : Int) : Int :=
  if s.isEmpty then old
  else
    match atoi (trimSpace s) with
    | some n => if 0 < n && n ≤ maxMinSecretLength then n else old
    | none => old

def overrideSamples (s : Bytes) (old : Int) : Int :=
  if s.isEmpty then old
  else
    match atoi (trimSpace s) with
    | some n => if 0 < n then n else old
    | none => old

def envTruthy (U : Unicode) (s : Bytes) : Bool :=
  [bs "1", bs "true", bs "yes", bs "y", bs "on"].contains (U.toLowerString (trimSpace s))

def envIsOn (s : Bytes) : Bool := s == bs "true" || s == bs "1"

def overridePatterns (s : Bytes) (c : FileConfig Num) : FileConfig Num :=
  if s.isEmpty then c else (applySensitiveKeyPatterns S c (splitCommas s)).1

def dropInvalidRegexRules (P : Platform Num) (raw : List Rule) : List Rule := raw.filter fun r => P.compiles r.pattern

def overrideRules (apply : FileConfig Num → List Rule → FileConfig Num × Bool) (s : Bytes)
    (c : FileConfig Num) : FileConfig Num :=
  if s.isEmpty then c
  else
    match T.unmarshalRules s with
    | none => c
    | some raw => (apply c (dropInvalidRegexRules P raw)).1

def overrideSettings (env : Variable → Bytes) (c : FileConfig Num) : FileConfig Num := { c with
  entropyThreshold := overrideNumber T (env .entropyThreshold) c.entropyThreshold
  confidenceThreshold := overrideNumber T (env .confidenceThreshold) c.confidenceThreshold
  minSecretLength := overrideLength (env .minSecretLength) c.minSecretLength
  disableBigramCheck := envIsOn (env .disableBigramCheck) || c.disableBigramCheck
  bigramDefaultScore := overrideNumber T (env .bigramDefaultScore) c.bigramDefaultScore
  entityTypeLabels := envTruthy P.unicode (env .entityTypeLabels) || c.entityTypeLabels
  adaptiveThreshold := envIsOn (env .adaptiveThreshold) || c.adaptiveThreshold
  adaptiveBaselineSamples :=
    if envIsOn (env .adaptiveThreshold) then overrideSamples (env .adaptiveSamples) c.adaptiveBaselineSamples
    else c.adaptiveBaselineSamples
  sensitiveKeys :=
    if (env .sensitiveKeys).isEmpty then c.sensitiveKeys
    else (splitCommas (env .sensitiveKeys)).map (normalKey P) }

def applyEnvOverrides (env : Variable → Bytes) (c : FileConfig Num) : FileConfig Num :=
  let c := overrideSettings (P := P) T env c
  let c := overridePatterns S (env .sensitiveKeyPatterns) c
  let c := overrideRules (P := P) T (applyCustomRegexes S) (env .customRegexList) c
  overrideRules (P := P) T (applySafeRegexes S) (env .safeRegexList) c

end Overrides

end PiiShield.Operator
