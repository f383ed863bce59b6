import PiiShield.Config
import PiiShield.Decimal

/-! The policy file of the operator: what is accepted from a remote source and how the
fields of a policy are laid over it. The packages the operator calls are a parameter. -/

namespace PiiShield.Operator

structure Rule where
  pattern : Bytes
  name : Bytes
  deriving DecidableEq

structure Document (Num : Type) where
  revision : Bytes
  entropyThreshold : Num
  confidenceThreshold : Num
  minSecretLength : Int
  sensitiveKeys : List Bytes
  sensitiveKeyPatterns : List Bytes
  customRegexes : List Rule
  safeRegexes : List Rule
  disableBigramCheck : Option Bool
  adaptiveThreshold : Option Bool
  entityTypeLabels : Option Bool
  deriving DecidableEq

/-- A file as it is decoded, with the two keys that are never accepted from outside. -/
structure RemoteFile (Num : Type) where
  document : Document Num
  salt : Bytes
  failPolicy : Bytes
  deriving DecidableEq

structure SignatureFile where
  set : Bytes
  publication : Int64
  revision : Int64
  sha256 : Bytes
  keyID : Bytes
  signature : Bytes
  deriving DecidableEq

/-- A parsed URL; `other` is what the operator does not look at. -/
structure URL where
  scheme : Bytes
  path : Bytes
  rawPath : Bytes
  other : Bytes

/-- The packages the operator calls: `net/url`, `encoding/json`, `regexp`, the hash, the
signature scheme and the numbers of a file. -/
structure Platform (Num : Type) where
  unicode : Unicode
  parseURL : Bytes → Option URL
  urlString : URL → Bytes
  decodeFile : Bytes → Option (RemoteFile Num)
  decodeSignature : Bytes → Option SignatureFile
  encode : Document Num → Option Bytes
  compiles : Bytes → Bool
  hasCertificate : Bytes → Bool
  sha256 : Bytes → Bytes
  verify : (key text signature : Bytes) → Bool
  zero : Num
  isZero : Num → Bool
  isNegative : Num → Bool
  shortest : Num → Num
  /-- An empty text is no JSON. -/
  decodeFile_nil : decodeFile [] = none
  sha256_length : ∀ b, (sha256 b).length = 32

def maxMinSecretLength : Int := 1024

def configMapName (policyName : Bytes) : Bytes := bs "pii-shield-policy-" ++ policyName

def maxNameLength : Nat := 253

def checkName (policyName : Bytes) : Bool := (configMapName policyName).length ≤ maxNameLength

inductive RuleField
  | customRegexes
  | safeRegexes
  deriving DecidableEq

/-- Why a remote file was rejected, with what the message names. -/
inductive FileProblem
  | invalidJSON
  | negativeEntropy
  | negativeConfidence
  | secretLength
  | emptyKey
  | keyPattern (pattern : Bytes)
  | emptyPattern (field : RuleField) (i : Nat)
  | rulePattern (field : RuleField) (i : Nat) (pattern : Bytes)
  deriving DecidableEq

variable {Num : Type} (P : Platform Num)

def hexEncode (b : Bytes) : Bytes := b.flatMap hexDigits

def hash (b : Bytes) : Bytes := hexEncode ((P.sha256 b).take 8)

def checkRulesFrom (field : RuleField) : Nat → List Rule → Except FileProblem Unit
  | _, [] => .ok ()
  | i, r :: rs =>
    if r.pattern.isEmpty then .error (.emptyPattern field i)
    else if !P.compiles r.pattern then .error (.rulePattern field i r.pattern)
    else checkRulesFrom field (i + 1) rs

def checkRules (field : RuleField) (rules : List Rule) : Except FileProblem Unit :=
  checkRulesFrom P field 0 rules

def normalKey (k : Bytes) : Bytes := P.unicode.toLowerString (trimSpace k)

def parse (b : Bytes) : Except FileProblem (Document Num × List Bytes) :=
  match P.decodeFile b with
  | none => .error .invalidJSON
  | some f => do
    let ignored := (if f.salt.isEmpty then [] else [bs "salt"]) ++
      (if f.failPolicy.isEmpty then [] else [bs "fail_policy"])
    let doc := f.document
    if P.isNegative doc.entropyThreshold then .error .negativeEntropy
    if P.isNegative doc.confidenceThreshold then .error .negativeConfidence
    if doc.minSecretLength < 0 || maxMinSecretLength < doc.minSecretLength then .error .secretLength
    let keys := doc.sensitiveKeys.map (normalKey P)
    if keys.any (·.isEmpty) then .error .emptyKey
    match doc.sensitiveKeyPatterns.find? (!P.compiles ·) with
    | some p => .error (.keyPattern p)
    | none => pure ()
    checkRules P .customRegexes doc.customRegexes
    checkRules P .safeRegexes doc.safeRegexes
    return ({ doc with sensitiveKeys := keys }, ignored)

structure PolicyRules (Num : Type) where
  entropyThreshold : Num
  confidenceThreshold : Num
  minSecretLength : Int
  sensitiveKeys : List Bytes
  sensitiveKeyPatterns : List Bytes
  customRegexList : List Rule
  safeRegexList : List Rule

def merge (remote : Document Num) (spec : PolicyRules Num) (generation : Int64) : Document Num :=
  { remote with
    entropyThreshold :=
      if P.isZero spec.entropyThreshold then remote.entropyThreshold else P.shortest spec.entropyThreshold
    confidenceThreshold :=
      if P.isZero spec.confidenceThreshold then remote.confidenceThreshold
      else P.shortest spec.confidenceThreshold
    minSecretLength := if 0 < spec.minSecretLength then spec.minSecretLength else remote.minSecretLength
    sensitiveKeys := if spec.sensitiveKeys.isEmpty then remote.sensitiveKeys else spec.sensitiveKeys
    sensitiveKeyPatterns :=
      if spec.sensitiveKeyPatterns.isEmpty then remote.sensitiveKeyPatterns else spec.sensitiveKeyPatterns
    customRegexes := if spec.customRegexList.isEmpty then remote.customRegexes else spec.customRegexList
    safeRegexes := if spec.safeRegexList.isEmpty then remote.safeRegexes else spec.safeRegexList
    revision :=
      if remote.revision.isEmpty then formatInt generation
      else remote.revision ++ bs "+" ++ formatInt generation }

def emptyDocument : Document Num := ⟨[], P.zero, P.zero, 0, [], [], [], [], none, none, none⟩

/-- The source's `Local`: the document of a policy without a remote source. -/
def localDocument (spec : PolicyRules Num) (generation : Int64) : Document Num :=
  merge P (emptyDocument P) spec generation

end PiiShield.Operator
