import PiiShield.Cards
import PiiShield.TokenLogic

/-! The scanner from the line down: what is remembered from token to token, the loop
over the tokens of a segment, the numbers carved out of a line, and the machine. -/

namespace PiiShield

variable {Num : Type}

def cleanTokenOf (trimmed : Bytes) : Bytes :=
  trimQuotes (if hasSuffix trimmed (bs ":") || hasSuffix trimmed (bs "=") then trimmed.dropLast else trimmed)

def isLoneSep (trimmed : Bytes) : Bool := trimmed == bs "=" || trimmed == bs ":"

def endsWithSep (trimmed : Bytes) : Bool := hasSuffix trimmed (bs ":") || hasSuffix trimmed (bs "=")

def pairOf (trimmed : Bytes) : Option (Bytes × Bytes) :=
  (splitCompactPair trimmed).or ((cut trimmed (bs "=")).map fun p => (trimQuotes p.1, trimQuotes p.2))

def isGenericName (w : Bytes) : Bool := inWords ["key", "name", "setting"] w

namespace ConfigState

variable (st : ConfigState Num)

/-- A pair `Authorization=Basic` or `=Bearer`, whose credential is the next token. -/
def isSchemePair (trimmed : Bytes) : Option Bytes :=
  if !trimmed.isEmpty && (lastByte trimmed ||| 0x20 == 'c' || lastByte trimmed ||| 0x20 == 'r') then
    match cut trimmed (bs "=") with
    | some (k, v) =>
      if !k.isEmpty && (equalFold v (bs "basic") || equalFold v (bs "bearer")) &&
          st.isSensitiveKey (trimQuotes k) then some v
      else none
    | none => none
  else none

variable (s : SegmentState)

def afterSchemePair (v : Bytes) : SegmentState :=
  { s with
    pendingKeySensitive := false
    pendingContextSensitive := false
    pendingAfterCopula := false
    prevStrongSecretWord := false
    pendingHashKey := false
    bracketAfterContext := false
    afterMarker := false
    isInValuePos := false
    pendingBearer := equalFold v (bs "bearer")
    bearerAfterKey := equalFold v (bs "bearer")
    pendingBasic := equalFold v (bs "basic")
    pendingScheme := false
    sepAfterSensitiveKey := false
    prevClean := [] }

def readsAsEnglish (clean : Bytes) : Bool :=
  st.arith.lt (st.calculateBigramAdjustment (loweredForBigrams st.unicode clean)) (st.arith.tenths 0)

def schemeSlot : Bool := s.pendingKeySensitive || s.sepAfterSensitiveKey

def forcedByKey (clean : Bytes) : Bool :=
  let U := st.unicode
  let lower := loweredToken U clean
  let letters := isAllLetters U clean
  let word := (clean.length : Int) < st.config.minSecretLength && letters &&
    (!s.isInValuePos || !s.keyNamesSecret || inWords valueLiterals lower)
  let short := !s.isInValuePos && runeCount clean < 3
  let prose := !s.isInValuePos && letters && (st.readsAsEnglish clean || !hasASCII clean)
  let identifier := !s.isInValuePos && equalFold s.prevClean (bs "key") &&
    st.isIdentifierName ((clean.dropWhile fun c => c == backtick || c == backslash || isQuote c).rdropWhile
      fun c => c == backtick || c == backslash || isQuote c)
  s.pendingKeySensitive && !word && !short && !prose && !identifier &&
    !(schemeSlot s && inWords longAuthSchemes lower)

def isSchemeCredential (clean : Bytes) : Bool :=
  let U := st.unicode
  let long := st.config.minSecretLength ≤ (clean.length : Int)
  let secret := looksLikeSecretWord U clean && !isISO8601Timestamp U clean && !isSchemeParameter clean
  s.pendingBearer && minBearerCredentialLength ≤ clean.length ||
    s.bearerAfterKey && long && secret ||
    s.pendingBasic && long && isBase64Body (trimRight clean (bs "=")) && countByte clean '=' ≤ 2 &&
      !(isAllLetters U clean && st.readsAsEnglish clean) ||
    s.pendingScheme && minBearerCredentialLength ≤ clean.length && secret

def isSaidSecret (clean : Bytes) : Bool :=
  let core := trimRightFunc clean fun r => st.unicode.isPunct r && r != 0x5F
  s.pendingAfterCopula && st.config.minSecretLength ≤ (core.length : Int) &&
    looksLikeSecretWord st.unicode core

def isForced (clean : Bytes) : Bool :=
  st.forcedByKey s clean || st.isSchemeCredential s clean ||
    s.pendingSessionKey && st.isSessionTokenValue clean || st.isSaidSecret s clean

/-- Whether the token is the generic value key of a pair that named a secret; `none` is
a panic. -/
def overrides (trimmed : Bytes) : Option Bool :=
  if s.nextValueIsSensitive then
    match pairKey trimmed with
    | some k => isGenericValueKey st.unicode k
    | none => some false
  else some false

/-- The call of `processTokenLogic` for a token, unless it is written as it is. -/
def tokenCall (token : Bytes) (override : Bool) (depth : Nat) : Option TokenCall :=
  let trimmed := trimSpace token
  let clean := cleanTokenOf trimmed
  if s.afterMarker && hasPrefix trimmed (bs "&") && !trimmed.contains (chr '=') then none
  else if st.isShortHashUnderHashKey trimmed s.pendingHashKey then none
  else
    some
      { rawToken := token
        forcedSensitive := st.isForced s clean
        contextSensitive :=
          s.pendingContextSensitive && !(s.bracketAfterContext && st.readsAsWords clean)
        isValuePos := s.isInValuePos || st.isSchemeCredential s clean
        autoQuote := s.isInValuePos && s.valueOfQuotedKey
        overrideSensitivity := override
        depth := depth }

def afterNames (trimmed clean : Bytes) (isKey override : Bool) : SegmentState :=
  let generic := isGenericName (loweredToken st.unicode clean)
  if isKey then
    { s with
      pendingKeySensitive := true
      keyNamesSecret := hasPrefix trimmed [dquote] && st.keyNamesSecret clean
      nextValueIsSensitive := false
      pendingGenericKey := generic }
  else
    let named := s.isInValuePos && s.pendingGenericKey
    let paired := match pairOf trimmed with
      | some (k, v) => !v.isEmpty && isGenericName (st.unicode.toLowerString k) && st.isSensitiveKey v
      | none => false
    { s with
      pendingKeySensitive := false
      nextValueIsSensitive :=
        s.nextValueIsSensitive && !override || named && st.isSensitiveKey clean || paired
      pendingGenericKey := s.pendingGenericKey && !named || generic && endsWithSep trimmed }

def afterPosition (trimmed : Bytes) : SegmentState :=
  let quoted := firstIs trimmed isQuote
  let s :=
    if isLoneSep trimmed then { s with isInValuePos := true, valueOfQuotedKey := s.lastTokenQuoted }
    else if endsWithSep trimmed || hasSuffix trimmed fullWidthColon then
      { s with isInValuePos := true, valueOfQuotedKey := quoted }
    else if !trimmed.isEmpty then { s with isInValuePos := false }
    else s
  { s with lastTokenQuoted := quoted }

def afterToken (token : Bytes) (isKey override : Bool) : SegmentState :=
  let U := st.unicode
  let trimmed := trimSpace token
  let clean := cleanTokenOf trimmed
  let lower := loweredToken U clean
  let slot := schemeSlot s
  let sensitiveBefore := !s.prevClean.isEmpty && st.isSensitiveKey s.prevClean
  let key := if endsWithSep trimmed then pairKey trimmed else none
  afterPosition
    { st.afterNames s trimmed clean isKey override with
      sepAfterSensitiveKey := isLoneSep trimmed && (s.pendingKeySensitive || sensitiveBefore)
      prevClean := clean
      afterMarker := false
      bracketAfterContext := false
      pendingBearer := lower == bs "bearer"
      bearerAfterKey := lower == bs "bearer" && slot
      pendingBasic := lower == bs "basic" && slot
      pendingScheme := slot && isAuthSchemeWord clean
      pendingAfterCopula :=
        s.prevStrongSecretWord && (inWords copulaWords lower || trimmed == bs "=") ||
          isLoneSep trimmed && sensitiveBefore
      prevStrongSecretWord := isKey && inWords strongSecretWords lower
      pendingHashKey := key.any fun k => isHashKeyName U k && !st.isSensitiveKey k
      pendingSessionKey := key.any (isSessionKey U)
      pendingContextSensitive := inWords contextKeywords lower }
    trimmed

def processAndAppend (token : Bytes) (s : SegmentState) (depth : Nat) : Scan Num SegmentState :=
  let trimmed := trimSpace token
  match st.isSchemePair trimmed with
  | some v => do
    .write token
    return afterSchemePair s v
  | none =>
    match st.overrides s trimmed with
    | none => .panic
    | some override =>
      match st.tokenCall s token override depth with
      | none => do
        .write token
        return st.afterToken s token false override
      | some t => do
        let isKey ← enter (.processTokenLogic t)
        return st.afterToken s token isKey override

def atBoundary (b : Boundary) (glued : Bool) : SegmentState :=
  match b with
  | .sep r =>
    if glued then s
    else
      { s with
        afterMarker := false
        bracketAfterContext :=
          s.bracketAfterContext || (r == 0x28 || r == 0x5B) && s.pendingContextSensitive }
  | .marker =>
    { s with
      pendingKeySensitive := false
      pendingContextSensitive := false
      pendingBearer := false
      pendingBasic := false
      pendingScheme := false
      isInValuePos := false
      afterMarker := true }
  | .lineBreak => s
  | .chain => s

def scanPieces (depth : Nat) : List Piece → SegmentState → Scan Num Unit
  | [], _ => pure ()
  | .token raw seenInvalid :: ps, s => do
    let s' ← enter (.processAndAppend (tokenText raw seenInvalid) s depth)
    scanPieces depth ps s'
  | .boundary b text glued :: ps, s => do
    .write (b.written text)
    scanPieces depth ps (atBoundary s b glued)

def scanSegmentFrom (segment : Bytes) (depth : Nat) (inQuote : Bool) (quoteChar : Nat) :
    Scan Num (Bool × Nat) := do
  let r := segmentPieces segment.length ⟨[], segment, inQuote, quoteChar, false⟩
  scanPieces depth r.1 {}
  return r.2

def writeCarve (cv : Carve) (secret : Bytes) : Scan Num Unit :=
  if st.isSafeRegexWhitelisted secret then .write secret
  else
    match st.customRuleName secret with
    | some name => .place ⟨secret, name, .regex⟩
    | none =>
      if !cv.label.isEmpty then .place ⟨secret, st.entityLabel cv.label, .signature⟩
      else .place ⟨secret, st.entityLabel (bs "card"), .luhn⟩

variable (logLine : Bytes)

def carveQuote (cv : Carve) : Bytes :=
  if 0 < cv.start && cv.stop < logLine.length && isQuote (byteAt logLine (cv.start - 1)) &&
      byteAt logLine cv.stop == byteAt logLine (cv.start - 1) then
    [byteAt logLine (cv.start - 1)]
  else []

/-- The loop over the carves; `chunkStart` is the end of the last one. -/
def scanCarves (logLine : Bytes) (depth : Nat) : List Carve → Nat → Bool → Nat → Scan Num Unit
  | [], chunkStart, inQuote, quoteChar =>
    if chunkStart < logLine.length then do
      let _ ← enter (.scanSegmentFrom (logLine.drop chunkStart) depth inQuote quoteChar)
    else pure ()
  | cv :: cvs, chunkStart, inQuote, quoteChar => do
    let quote := carveQuote logLine cv
    let start := cv.start - quote.length
    let stop := cv.stop + quote.length
    let q ←
      if chunkStart < start then
        enter (.scanSegmentFrom (slice logLine chunkStart start) depth inQuote quoteChar)
      else pure (inQuote, quoteChar)
    .write quote
    st.writeCarve cv (slice logLine cv.start cv.stop)
    .write quote
    scanCarves logLine depth cvs stop q.1 q.2

def luhnRanges : List Range :=
  let found := findLuhnSequences st.unicode logLine
  if st.arith.lt (st.arith.tenths 12) st.config.confidenceThreshold then
    let lowerLine := st.unicode.toLowerString logLine
    if ["card", "cc", "pan", "visa"].any fun w => contains lowerLine (bs w) then found else []
  else found

def carves : List Carve :=
  mergeCarves (st.luhnRanges logLine) (findShapedNumbers st.unicode logLine)

def diffMarks : Nat :=
  let n := ((logLine.take 2).takeWhile fun c : UInt8 => c == '+' || c == '-').length
  if n < logLine.length then n else 0

def scanLine (depth : Nat) : Scan Num Unit :=
  if logLine.isEmpty then pure ()
  else if depth == 0 && isGitDiffHeader logLine then .write logLine
  else if depth == 0 && isPrivateKeyMarker logLine then
    .place ⟨logLine, st.entityLabel (bs "private-key"), .signature⟩
  else do
    let n := if depth == 0 then diffMarks logLine else 0
    .write (logLine.take n)
    st.scanCarves (logLine.drop n) depth (st.carves (logLine.drop n)) 0 false 0

/-- The table of the frames' programs; a mark is written as `redactWithHMAC` does. -/
def machine : Machine (scanSig Num) where
  body
    | .scanLine logLine depth => st.scanLine logLine depth
    | .scanSegmentFrom segment depth inQuote quoteChar =>
      ConfigState.scanSegmentFrom segment depth inQuote quoteChar
    | .processAndAppend token state depth => st.processAndAppend token state depth
    | .processTokenLogic t => st.processTokenLogic t
    | .processEqualPair rawToken forcedSensitive overrideSensitivity depth =>
      st.processEqualPair rawToken forcedSensitive overrideSensitivity depth
    | .processColonPair rawToken overrideSensitivity depth =>
      st.processColonPair rawToken overrideSensitivity depth
    | .maskURLParameters url depth => st.maskURLParameters url depth
    | .scanUserAgent ua depth => ConfigState.scanUserAgent ua depth
  render := st.marker

def scanFuel : Nat := (maxTokenRecursionDepth + 3) * (8 * (logLine.length + 1))

def scanAndRedact (b : BaselineStats Num) (logLine : Bytes) : Outcome (scanSig Num) Unit :=
  st.machine.run (scanFuel logLine) (.scanLine logLine 0) b

def splitEnding (line ending : Bytes) : Bytes × Bytes :=
  if hasSuffix line (bs "\r") then (line.dropLast, bs "\r" ++ ending) else (line, ending)

/-- The lines of a text with their endings; `line` is what the current one has so far. -/
def textLinesFrom (line : Bytes) : Bytes → List (Bytes × Bytes)
  | [] => if line.isEmpty then [] else [splitEnding line []]
  | c :: text =>
    if c == newline then splitEnding line [newline] :: textLinesFrom [] text
    else textLinesFrom (line ++ [c]) text

def textLines (text : Bytes) : List (Bytes × Bytes) := textLinesFrom [] text

def scanLines (b : BaselineStats Num) : List (Bytes × Bytes) → Outcome (scanSig Num) Unit
  | [] => ⟨[], [], b, .ok ()⟩
  | (line, ending) :: rest =>
    let r := st.scanAndRedact b line
    match r.res with
    | .ok _ => (scanLines r.state rest).after (r.out ++ ending) r.log
    | .error h => ⟨r.out, r.log, r.state, .error h⟩

def scanAndRedactText (b : BaselineStats Num) (text : Bytes) : Outcome (scanSig Num) Unit :=
  if !text.contains newline then st.scanAndRedact b text else st.scanLines b (textLines text)

end ConfigState

end PiiShield
