import PiiShield.Operator.PolicyFile

/-! How the sidecar builds its configuration from a policy file: all or nothing, with the
sensitive key patterns joined into one expression. -/

namespace PiiShield.Operator

structure Regexp where
  matchString : Bytes → Bool
  findStringSubmatchIndex : Bytes → Option (List Int)

/-- The configuration, with the fields a scan reads only through what is derived from them. -/
structure FileConfig (Num : Type) extends Config Num where
  sensitiveKeyPatterns : List Bytes
  adaptiveBaselineSamples : Int

variable {Num : Type}

/-- What the sidecar runs on: the arithmetic of its defaults and `regexp.Compile`, which the
operator calls too. -/
structure Sidecar (P : Platform Num) where
  arith : Arith Num
  compile : Bytes → Option Regexp
  compile_isSome : ∀ p, (compile p).isSome = P.compiles p

inductive PolicyProblem
  | file (p : FileProblem)
  | joinedPatterns
  | skippedRules (field : RuleField)
  deriving DecidableEq

variable {P : Platform Num} (S : Sidecar P)

def cleanedPatterns (patterns : List Bytes) : List Bytes := (patterns.map trimSpace).filter (!·.isEmpty)

def joinedPatterns (patterns : List Bytes) : Bytes :=
  bs "(?i)(" ++ (bs "|").intercalate (cleanedPatterns patterns) ++ bs ")"

def compileSensitiveKeyPatterns (patterns : List Bytes) : Option (Option Regexp) :=
  if (cleanedPatterns patterns).isEmpty then some none else (S.compile (joinedPatterns patterns)).map some

variable (c : FileConfig Num)

def applySensitiveKeyPatterns (patterns : List Bytes) : FileConfig Num × Bool :=
  ({ c with sensitiveKeyPatterns := cleanedPatterns patterns },
    (compileSensitiveKeyPatterns S (cleanedPatterns patterns)).isSome)

def compileRegexRules (raw : List Rule) : List CustomRegexRule × List Rule :=
  (raw.filterMap fun r => (S.compile r.pattern).map fun re => ⟨re.matchString, r.name⟩,
    raw.filter fun r => P.compiles r.pattern)

def applyCustomRegexes (raw : List Rule) : FileConfig Num × Bool :=
  let (rules, valid) := compileRegexRules S raw
  let c := { c with customRegexes := rules }
  let whole := valid.length == raw.length
  if valid.isEmpty then ({ c with combinedCustomRegex := none, customRegexNames := [] }, whole)
  else
    match S.compile ((bs "|").intercalate (valid.map fun r => bs "(" ++ r.pattern ++ bs ")")) with
    | none => ({ c with combinedCustomRegex := none, customRegexNames := [] }, whole)
    | some combined =>
      ({ c with
          combinedCustomRegex := some combined.findStringSubmatchIndex
          customRegexNames := valid.map (·.name) }, whole)

def applySafeRegexes (raw : List Rule) : FileConfig Num × Bool :=
  let (rules, valid) := compileRegexRules S raw
  ({ c with safeRegexes := rules }, valid.length == raw.length)

def defaultFileConfig : FileConfig Num := { defaultConfig S.arith with
  sensitiveKeyPatterns := []
  adaptiveBaselineSamples := 100 }

def isPositive (P : Platform Num) (x : Num) : Bool := !P.isNegative x && !P.isZero x

def checkRegexRules (P : Platform Num) (field : RuleField) (rules : List Rule) : Except PolicyProblem Unit :=
  (checkRules P field rules).mapError .file

def applySettings (doc : Document Num) : Except PolicyProblem (FileConfig Num) := do
  if P.isNegative doc.entropyThreshold then .error (.file .negativeEntropy)
  if P.isNegative doc.confidenceThreshold then .error (.file .negativeConfidence)
  if doc.minSecretLength < 0 || maxMinSecretLength < doc.minSecretLength then .error (.file .secretLength)
  let keys := doc.sensitiveKeys.map (normalKey P)
  if keys.any (·.isEmpty) then .error (.file .emptyKey)
  return { c with
    entropyThreshold := if isPositive P doc.entropyThreshold then doc.entropyThreshold else c.entropyThreshold
    confidenceThreshold :=
      if isPositive P doc.confidenceThreshold then doc.confidenceThreshold else c.confidenceThreshold
    minSecretLength := if 0 < doc.minSecretLength then doc.minSecretLength else c.minSecretLength
    sensitiveKeys := if doc.sensitiveKeys.isEmpty then c.sensitiveKeys else keys
    disableBigramCheck := doc.disableBigramCheck.getD c.disableBigramCheck
    adaptiveThreshold := doc.adaptiveThreshold.getD c.adaptiveThreshold
    entityTypeLabels := doc.entityTypeLabels.getD c.entityTypeLabels }

def applyPatterns (patterns : List Bytes) : Except PolicyProblem (FileConfig Num) :=
  if patterns.isEmpty then .ok c
  else
    match patterns.find? (!P.compiles ·) with
    | some p => .error (.file (.keyPattern p))
    | none =>
      let r := applySensitiveKeyPatterns S c patterns
      if r.2 then .ok r.1 else .error .joinedPatterns

def applyRules (field : RuleField) (apply : FileConfig Num → List Rule → FileConfig Num × Bool)
    (c : FileConfig Num) (rules : List Rule) : Except PolicyProblem (FileConfig Num) := do
  checkRegexRules P field rules
  if rules.isEmpty then return c
  let r := apply c rules
  if r.2 then return r.1 else .error (.skippedRules field)

def policyConfig (doc : Document Num) : Except PolicyProblem (FileConfig Num) := do
  let c ← applySettings (P := P) (defaultFileConfig S) doc
  let c ← applyPatterns S c doc.sensitiveKeyPatterns
  let c ← applyRules (P := P) .customRegexes (applyCustomRegexes S) c doc.customRegexes
  applyRules (P := P) .safeRegexes (applySafeRegexes S) c doc.safeRegexes

def parsePolicyJSON (b : Bytes) : Except PolicyProblem (FileConfig Num × Bytes) :=
  match P.decodeFile b with
  | none => .error (.file .invalidJSON)
  | some f => (policyConfig S f.document).map fun c => (c, f.document.revision)

end PiiShield.Operator
