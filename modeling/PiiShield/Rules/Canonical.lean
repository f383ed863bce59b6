import PiiShield.JsonStruct
import PiiShield.Operator.Sidecar

/-! The file the rule server makes of a submitted rule set: decoded into a map, without the
settings of the pod, with its revision, written in order and checked by the scanner's parser. -/

namespace PiiShield.Rules

open Operator

inductive PolicyField
  | entropyThreshold
  | salt
  | confidenceThreshold
  | failPolicy
  | minSecretLength
  | sensitiveKeys
  | disableBigramCheck
  | adaptiveThreshold
  | entityTypeLabels
  | sensitiveKeyPatterns
  | customRegexes
  | safeRegexes
  | revision
  deriving DecidableEq

namespace PolicyField

def all : List PolicyField :=
  [entropyThreshold, salt, confidenceThreshold, failPolicy, minSecretLength, sensitiveKeys, disableBigramCheck,
    adaptiveThreshold, entityTypeLabels, sensitiveKeyPatterns, customRegexes, safeRegexes, revision]

def name : PolicyField → Bytes
  | entropyThreshold => bs "entropy_threshold"
  | salt => bs "salt"
  | confidenceThreshold => bs "confidence_score"
  | failPolicy => bs "fail_policy"
  | minSecretLength => bs "min_secret_length"
  | sensitiveKeys => bs "sensitive_keys"
  | disableBigramCheck => bs "disable_bigram_check"
  | adaptiveThreshold => bs "adaptive_threshold"
  | entityTypeLabels => bs "entity_type_labels"
  | sensitiveKeyPatterns => bs "sensitive_key_patterns"
  | customRegexes => bs "custom_regexes"
  | safeRegexes => bs "safe_regexes"
  | revision => bs "revision"

abbrev Value (Num : Type) : PolicyField → Type
  | entropyThreshold | confidenceThreshold => Num
  | salt | failPolicy | revision => Bytes
  | minSecretLength => Int
  | sensitiveKeys | sensitiveKeyPatterns => Slice Bytes
  | disableBigramCheck | adaptiveThreshold | entityTypeLabels => Option Bool
  | customRegexes | safeRegexes => Slice Rule

end PolicyField

inductive RegexField
  | pattern
  | name
  deriving DecidableEq

def regexStruct : Struct RegexField fun _ => Bytes where
  fields := [.pattern, .name]
  name
    | .pattern => bs "pattern"
    | .name => bs "name"
  decode _ := decodeString

def ruleFields (rule : Rule) : RegexField → Bytes
  | .pattern => rule.pattern
  | .name => rule.name

def readRule (old : Rule) (v : Json) : Option Rule :=
  (regexStruct.read (ruleFields old) v).map fun r => ⟨r .pattern, r .name⟩

variable {Num : Type}

def policyStruct (readFloat : Bytes → Option Num) : Struct PolicyField (PolicyField.Value Num) where
  fields := PolicyField.all
  name := PolicyField.name
  decode
    | .entropyThreshold, old => decodeNumber readFloat old
    | .confidenceThreshold, old => decodeNumber readFloat old
    | .salt, old => decodeString old
    | .failPolicy, old => decodeString old
    | .revision, old => decodeString old
    | .minSecretLength, old => decodeNumber atoi old
    | .sensitiveKeys, old => decodeSlice [] decodeString old
    | .sensitiveKeyPatterns, old => decodeSlice [] decodeString old
    | .disableBigramCheck, _ => decodeFlag
    | .adaptiveThreshold, _ => decodeFlag
    | .entityTypeLabels, _ => decodeFlag
    | .customRegexes, old => decodeSlice ⟨[], []⟩ readRule old
    | .safeRegexes, old => decodeSlice ⟨[], []⟩ readRule old

def zeroFields (zero : Num) : (i : PolicyField) → i.Value Num
  | .entropyThreshold => zero
  | .confidenceThreshold => zero
  | .salt => ([] : Bytes)
  | .failPolicy => ([] : Bytes)
  | .revision => ([] : Bytes)
  | .minSecretLength => (0 : Int)
  | .sensitiveKeys => (⟨[], []⟩ : Slice Bytes)
  | .sensitiveKeyPatterns => (⟨[], []⟩ : Slice Bytes)
  | .disableBigramCheck => (none : Option Bool)
  | .adaptiveThreshold => (none : Option Bool)
  | .entityTypeLabels => (none : Option Bool)
  | .customRegexes => (⟨[], []⟩ : Slice Rule)
  | .safeRegexes => (⟨[], []⟩ : Slice Rule)

def remoteFile (r : (i : PolicyField) → i.Value Num) : RemoteFile Num where
  document :=
    { revision := r .revision
      entropyThreshold := r .entropyThreshold
      confidenceThreshold := r .confidenceThreshold
      minSecretLength := r .minSecretLength
      sensitiveKeys := Slice.items (r .sensitiveKeys)
      sensitiveKeyPatterns := Slice.items (r .sensitiveKeyPatterns)
      customRegexes := Slice.items (r .customRegexes)
      safeRegexes := Slice.items (r .safeRegexes)
      disableBigramCheck := r .disableBigramCheck
      adaptiveThreshold := r .adaptiveThreshold
      entityTypeLabels := r .entityTypeLabels }
  salt := r .salt
  failPolicy := r .failPolicy

def unmarshalPolicy (readFloat : Bytes → Option Num) (zero : Num) (b : Bytes) : Option (RemoteFile Num) :=
  (readDocument b).bind fun v => ((policyStruct readFloat).read (zeroFields zero) v).map remoteFile

def maxBytes : Nat := 256 * 1024

/-- A canonical policy file with the configuration it parses into. -/
structure CanonicalFile (Num : Type) where
  content : Bytes
  eTag : Bytes
  config : FileConfig Num

inductive CanonicalProblem
  | tooLarge
  | invalidJSON
  | trailing
  | notObject
  | podSetting (key : Bytes)
  | policy (p : PolicyProblem)
  deriving DecidableEq

/-- The decoder's `More`: something but a closing bracket follows. -/
def hasMore (rest : Bytes) : Bool := firstIs (skipSpace rest) fun c => c != ']' && c != '\x7d'

def rawMap (members : List (Text × Json)) : List (Text × Json) :=
  Assoc.ofMembers (members.map fun m => (m.1, m.2.generic))

/-- The decoder's `Decode` into a map, with what follows the value; `none` is the nil map. -/
def decodeMap (content : Bytes) : Option (Option (List (Text × Json)) × Bytes) :=
  match readValue maxNestingDepth content with
  | some (.obj members, rest) => some (some (rawMap members), rest)
  | some (.null, rest) => some (none, rest)
  | _ => none

def isUnset : Json → Bool
  | .null => true
  | .str s => s.bytes.isEmpty
  | _ => false

def removeSetting (key : Bytes) (raw : List (Text × Json)) : Except CanonicalProblem (List (Text × Json)) :=
  if raw.any fun m => m.1.bytes == key && !isUnset m.2 then .error (.podSetting key)
  else .ok (raw.filter fun m => m.1.bytes != key)

def revisionKey : Text := ⟨bs "revision", by rfl⟩

def revisionText (n : Int64) : Text := ⟨formatInt n, utf8Valid_ascii (formatInt_ascii n)⟩

variable {P : Platform Num} (S : Sidecar P)

def eTag (P : Platform Num) (b : Bytes) : Bytes := bs "\"" ++ hexEncode ((P.sha256 b).take 16) ++ bs "\""

def writeCanonical (raw : List (Text × Json)) (revision : Int64) :
    Except CanonicalProblem (CanonicalFile Num) := do
  let raw ← removeSetting (bs "salt") raw
  let raw ← removeSetting (bs "fail_policy") raw
  let out := (Json.obj (Assoc.insert revisionKey (.str (revisionText revision)) raw)).marshal
  let parsed ← (parsePolicyJSON S out).mapError .policy
  return ⟨out, eTag P out, parsed.1⟩

def canonical (content : Bytes) (revision : Int64) : Except CanonicalProblem (CanonicalFile Num) :=
  if maxBytes < content.length then .error .tooLarge
  else
    match decodeMap content with
    | none => .error .invalidJSON
    | some (raw, rest) =>
      if hasMore rest then .error .trailing
      else
        match raw with
        | none => .error .notObject
        | some raw => writeCanonical S raw revision

end PiiShield.Rules
