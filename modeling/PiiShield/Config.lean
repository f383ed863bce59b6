import PiiShield.KeyMatcher

/-! The configuration snapshot a scan reads, with what the Go runtime supplies to it:
the Unicode tables, the float64 arithmetic and the keyed hash. -/

namespace PiiShield

/-- The float64 operations the scorer uses. Every literal of the source has one
decimal, so literals are given in tenths. -/
structure Arith (Num : Type) where
  tenths : Int → Num
  ofNat : Nat → Num
  add : Num → Num → Num
  sub : Num → Num → Num
  mul : Num → Num → Num
  div : Num → Num → Num
  log2 : Num → Num
  sqrt : Num → Num
  lt : Num → Num → Bool
  le : Num → Num → Bool

/-- A compiled rule: whether its expression matches a text, and its name. -/
structure CustomRegexRule where
  matchString : Bytes → Bool
  name : Bytes

structure Config (Num : Type) where
  entropyThreshold : Num
  confidenceThreshold : Num
  minSecretLength : Int
  sensitiveKeys : List Bytes
  disableBigramCheck : Bool
  bigramDefaultScore : Num
  adaptiveThreshold : Bool
  entityTypeLabels : Bool
  customRegexes : List CustomRegexRule
  safeRegexes : List CustomRegexRule
  /-- The source's `FindStringSubmatchIndex` of the combined expression. -/
  combinedCustomRegex : Option (Bytes → Option (List Int))
  customRegexNames : List Bytes

/-- The snapshot, together with the runtime it is used under. `mac` gives the first
three bytes of the HMAC keyed with the salt; `mapOrder` is the order in which a
`range` over the rune counts visits them. -/
structure ConfigState (Num : Type) where
  config : Config Num
  sensitiveRegex : Option (Bytes → Bool)
  keyMatcher : KeyMatcher
  mac : Bytes → UInt8 × UInt8 × UInt8
  unicode : Unicode
  arith : Arith Num
  mapOrder : List (Nat × Nat) → List (Nat × Nat)

inductive Strategy
  | entropy
  | regex
  | luhn
  | signature
  | key
  deriving DecidableEq

structure Mark where
  sensitiveData : Bytes
  name : Bytes
  strategy : Strategy
  deriving DecidableEq

structure BaselineStats (Num : Type) where
  samples : List Num
  maxSamples : Nat
  ready : Bool

variable {Num : Type}

def BaselineStats.update (b : BaselineStats Num) (entropy : Num) : BaselineStats Num :=
  if b.samples.length < b.maxSamples then
    { b with samples := b.samples ++ [entropy],
             ready := b.ready || b.samples.length + 1 == b.maxSamples }
  else b

def BaselineStats.getThreshold (A : Arith Num) (b : BaselineStats Num) : Option Num :=
  if !b.ready then none
  else
    let n := A.ofNat b.samples.length
    let mean := A.div (b.samples.foldl A.add (A.tenths 0)) n
    let variance := b.samples.foldl
      (fun v x => A.add v (A.mul (A.sub x mean) (A.sub x mean))) (A.tenths 0)
    some (A.add mean (A.mul (A.tenths 20) (A.sqrt (A.div variance n))))

def newBaselineStats : BaselineStats Num := ⟨[], 100, false⟩

def hexDigits (b : UInt8) : Bytes :=
  [hexDigit (b.toNat / 16), hexDigit (b.toNat % 16)]

namespace ConfigState

variable (st : ConfigState Num)

def marker (m : Mark) : Bytes :=
  let h := st.mac m.sensitiveData
  bs "[HIDDEN" ++ (if m.name.isEmpty then [] else bs ":" ++ m.name) ++
    bs ":" ++ (hexDigits h.1 ++ hexDigits h.2.1 ++ hexDigits h.2.2) ++ bs "]"

def entityLabel (entityType : Bytes) : Bytes :=
  if st.config.entityTypeLabels then entityType else []

def isSafeRegexWhitelisted (content : Bytes) : Bool :=
  if content.length < 3 then false else st.config.safeRegexes.any (·.matchString content)

def customRuleName (content : Bytes) : Option Bytes :=
  match st.config.combinedCustomRegex with
  | none => none
  | some find =>
    match find content with
    | none => none
    | some loc =>
      let named := st.config.customRegexNames.zipIdx.find? fun p =>
        2 + p.2 * 2 < loc.length && loc.getD (2 + p.2 * 2) (-1) != -1 && !p.1.isEmpty
      some (match named with
        | some p => p.1
        | none => st.entityLabel (bs "regex"))

end ConfigState

def defaultConfig (A : Arith Num) : Config Num where
  entropyThreshold := A.tenths 36
  confidenceThreshold := A.tenths 10
  minSecretLength := 6
  sensitiveKeys :=
    ["pass", "secret", "token", "key", "cvv", "cvc", "auth", "sign",
      "password", "passwd", "api_key", "apikey", "access_token", "client_secret",
      "aws_access_key_id", "aws_secret_access_key", "gcp_credentials", "slack_token",
      "密码", "口令", "密钥", "令牌", "パスワード"].map bs
  disableBigramCheck := false
  bigramDefaultScore := A.tenths (-70)
  adaptiveThreshold := false
  entityTypeLabels := false
  customRegexes := []
  safeRegexes := []
  combinedCustomRegex := none
  customRegexNames := []

end PiiShield
