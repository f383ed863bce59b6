import PiiShield.Prog
import PiiShield.Tokenizer
import PiiShield.Url

/-! The frames of the scanner's recursion, and the programs that call no frame: what is
done with a single token, a binary blob, the key of a pair and the path of a URL. -/

namespace PiiShield

structure SegmentState where
  pendingKeySensitive : Bool := false
  pendingContextSensitive : Bool := false
  isInValuePos : Bool := false
  valueOfQuotedKey : Bool := false
  lastTokenQuoted : Bool := false
  pendingGenericKey : Bool := false
  nextValueIsSensitive : Bool := false
  pendingBearer : Bool := false
  bearerAfterKey : Bool := false
  pendingBasic : Bool := false
  pendingScheme : Bool := false
  sepAfterSensitiveKey : Bool := false
  prevClean : Bytes := []
  pendingHashKey : Bool := false
  pendingSessionKey : Bool := false
  pendingAfterCopula : Bool := false
  prevStrongSecretWord : Bool := false
  afterMarker : Bool := false
  bracketAfterContext : Bool := false
  keyNamesSecret : Bool := false
  deriving DecidableEq

structure TokenCall where
  rawToken : Bytes
  forcedSensitive : Bool
  contextSensitive : Bool
  isValuePos : Bool
  autoQuote : Bool
  overrideSensitivity : Bool
  depth : Nat
  deriving DecidableEq

/-- A call of one of the mutually recursive functions, with its arguments. -/
inductive Frame
  | scanLine (logLine : Bytes) (depth : Nat)
  | scanSegmentFrom (segment : Bytes) (depth : Nat) (inQuote : Bool) (quoteChar : Nat)
  | processAndAppend (token : Bytes) (state : SegmentState) (depth : Nat)
  | processTokenLogic (t : TokenCall)
  | processEqualPair (rawToken : Bytes) (forcedSensitive overrideSensitivity : Bool) (depth : Nat)
  | processColonPair (rawToken : Bytes) (overrideSensitivity : Bool) (depth : Nat)
  | maskURLParameters (url : Bytes) (depth : Nat)
  | scanUserAgent (ua : Bytes) (depth : Nat)
  deriving DecidableEq

/-- What a call returns; `processAndAppend` updates the state it is given, and the pair
functions return whether the token was a key and whether they handled it. -/
abbrev Frame.Ret : Frame → Type
  | scanLine .. => Unit
  | scanSegmentFrom .. => Bool × Nat
  | processAndAppend .. => SegmentState
  | processTokenLogic .. => Bool
  | processEqualPair .. => Bool × Bool
  | processColonPair .. => Bool × Bool
  | maskURLParameters .. => Unit
  | scanUserAgent .. => Unit

abbrev scanSig (Num : Type) : Sig where
  Frame := Frame
  Ret := Frame.Ret
  Mark := Mark
  State := BaselineStats Num

abbrev Scan (Num : Type) (α : Type) := Prog (scanSig Num) α

/-- The source's `scanSegment`, which starts outside a quotation. -/
abbrev Frame.scanSegment (segment : Bytes) (depth : Nat) : Frame :=
  .scanSegmentFrom segment depth false 0

variable {Num : Type}

abbrev enter (f : Frame) : Scan Num f.Ret := Prog.call (S := scanSig Num) f .pure

/-- What becomes of a token: it is kept, with the score the baseline learns from it, or
replaced by a marker between the bytes given. -/
inductive TokenAction (Num : Type)
  | keep (score : Option Num)
  | redact (opening : Bytes) (m : Mark) (closing : Bytes)

def quoteOf (original : Bytes) : Bytes :=
  if hasPrefix original [dquote] then [dquote]
  else if hasPrefix original [squote] then [squote]
  else []

def quoteFor (U : Unicode) (original content : Bytes) (autoQuote : Bool) : Bytes :=
  if quoteOf original != [] then quoteOf original
  else if autoQuote && (isDigits U content || inWords ["true", "false", "null"] (U.toLowerString content))
  then [dquote]
  else []

namespace ConfigState

variable (st : ConfigState Num)

def signatureOf (content : Bytes) : Option (Bytes × Bytes × Bytes) :=
  if matchSignature content != [] then some (matchSignature content, content, [])
  else if 0 < (indexByte content '@').getD 0 then
    let n := content.length
    let trailed := 1 < n && (lastByte content == '.' || lastByte content == ',')
    let body := if trailed then content.take (n - 1) else content
    let trail := if trailed then content.drop (n - 1) else []
    if isEmailAddress body then some (bs "email", body, trail) else none
  else none

def customRule (content : Bytes) : Option Bytes :=
  match st.config.combinedCustomRegex with
  | some _ => st.customRuleName content
  | none =>
    (st.config.customRegexes.find? (·.matchString content)).map fun rule =>
      if rule.name.isEmpty then st.entityLabel (bs "regex") else rule.name

variable (b : BaselineStats Num)

def threshold (contextSensitive : Bool) : Num :=
  let base :=
    if contextSensitive then st.arith.sub st.config.entropyThreshold (st.arith.tenths 13)
    else if st.config.adaptiveThreshold then
      (b.getThreshold st.arith).getD st.config.entropyThreshold
    else st.config.entropyThreshold
  st.arith.mul base st.config.confidenceThreshold

def isBase64Text (content : Bytes) : Bool :=
  64 < content.length && hasSuffix content (bs "=") && !containsAny content (bs "-_ \t\n")

/-- A token no rule and no signature decides: `forced` hides it, else its score does. -/
def scoredAction (content original : Bytes)
    (forced contextSensitive autoQuote : Bool) (strategy : Strategy) : TokenAction Num :=
  let score := st.calculateComplexity content
  let q := quoteFor st.unicode original content autoQuote
  if forced || st.arith.lt (st.threshold b contextSensitive) score then
    let entityType := if forced then "key" else if contextSensitive then "context" else "entropy"
    .redact q ⟨content, st.entityLabel (bs entityType), strategy⟩ q
  else .keep (if st.config.adaptiveThreshold then some score else none)

def singleTokenAction (content original : Bytes)
    (forcedSensitive contextSensitive autoQuote : Bool) : TokenAction Num :=
  let strategy := if forcedSensitive then Strategy.key else .entropy
  if content.isEmpty || isRedacted content then .keep none
  else if !forcedSensitive && isSafe st.unicode content then .keep none
  else if st.config.safeRegexes.any (·.matchString content) then .keep none
  else
    match st.customRule content, signatureOf content with
    | some name, _ =>
      let q := quoteFor st.unicode original content autoQuote
      .redact q ⟨content, name, .regex⟩ q
    | none, some (label, body, trail) =>
      let q := quoteOf original
      .redact q ⟨body, st.entityLabel label, .signature⟩ (trail ++ q)
    | none, none =>
      if forcedSensitive then
        st.scoredAction b content original true contextSensitive autoQuote strategy
      else if (content.length : Int) < st.config.minSecretLength || content.contains (chr ' ') then
        .keep none
      else if content.length == 36 && uuidRegex content then
        if !contextSensitive then .keep none
        else st.scoredAction b content original true contextSensitive autoQuote strategy
      else if isBase64Text content then
        if contextSensitive || st.arith.le st.config.confidenceThreshold (st.arith.tenths 12) then
          st.scoredAction b content original true contextSensitive autoQuote strategy
        else .keep none
      else st.scoredAction b content original false contextSensitive autoQuote strategy

def perform (original : Bytes) : TokenAction Num → Scan Num Unit
  | .keep none => .write original
  | .keep (some score) => .set (b.update score) (.write original)
  | .redact opening m closing => do
    .write opening
    .place m
    .write closing

def processSingleToken (content original : Bytes)
    (forcedSensitive contextSensitive autoQuote : Bool) : Scan Num Unit :=
  .get fun b => perform b original
    (st.singleTokenAction b content original forcedSensitive contextSensitive autoQuote)

def binaryBlobAction (content : Bytes) (contextSensitive : Bool) :
    TokenAction Num :=
  if st.config.safeRegexes.any (·.matchString content) then .keep none
  else if st.arith.le (st.calculateComplexity content) (st.threshold b contextSensitive) then .keep none
  else
    let entityType := if contextSensitive then "context" else "entropy"
    .redact [] ⟨content, st.entityLabel (bs entityType), .entropy⟩ []

def processBinaryBlob (content : Bytes) (contextSensitive : Bool) : Scan Num Unit :=
  .get fun b => perform b content (st.binaryBlobAction b content contextSensitive)

def writeKeyHalf (key : Bytes) : Scan Num Unit :=
  if key.isEmpty || looksLikeFieldName st.unicode key && matchSignature key == [] then .write key
  else st.processSingleToken key key false false false

def writeURLSegment (seg : Bytes) : Scan Num Unit :=
  match urlPathSignature seg with
  | (keep, label) =>
    if label.isEmpty then
      if st.isSecretPathSegment seg then .place ⟨seg, st.entityLabel (bs "url"), .entropy⟩
      else .write seg
    else do
      .write (seg.take keep)
      .place ⟨seg.drop keep, st.entityLabel label, .signature⟩

def separated (sep : Bytes) (act : Bytes → Scan Num Unit) : List Bytes → Scan Num Unit
  | [] => pure ()
  | [p] => act p
  | p :: ps => do
    act p
    .write sep
    separated sep act ps

def writeURLPath (path : Bytes) : Scan Num Unit :=
  if !hasPathSignature path && !st.hasSecretPathSegment path then .write path
  else separated (bs "/") st.writeURLSegment (List.splitOn (chr '/') path)

def writeURLParam (param : Bytes) : Scan Num Unit :=
  match cut param (bs "=") with
  | none => .write param
  | some (key, val) =>
    match st.urlParamMark key val with
    | none => .write param
    | some m => do
      .write (key ++ bs "=")
      .place m

def writeURLSection (sect : Bytes) : Scan Num Unit :=
  separated (bs "&") st.writeURLParam (List.splitOn (chr '&') sect)

end ConfigState

end PiiShield
