import PiiShield.Frames

/-! The functions that read one token: `processTokenLogic` tries its shapes one after the
other and hands the parts of a pair, a literal or a URL to the other frames. -/

namespace PiiShield

def maxTokenRecursionDepth : Nat := 32

variable {Num : Type}

namespace ConfigState

variable (st : ConfigState Num)

/-- A quoted `key=value`, the key being what stands before the first `=`. -/
def quotedEqualPair (quote trimmed key val : Bytes) (forcedSensitive overrideSensitivity : Bool)
    (depth : Nat) : Scan Num (Bool × Bool) :=
  if forcedSensitive then do
    .write quote
    st.processSingleToken trimmed trimmed true false false
    .write quote
    return (false, true)
  else if anyRune key isSepRune then do
    .write quote
    if startsWithProductToken trimmed then enter (.scanUserAgent trimmed (depth + 1))
    else do let _ ← enter (.scanSegment trimmed (depth + 1))
    .write quote
    return (false, true)
  else do
    let keySensitive := st.isSensitivePairKey key || overrideSensitivity
    .write quote
    st.writeKeyHalf key
    .write (bs "=")
    if keySensitive then st.processSingleToken val val true false false
    else if (val.contains (chr '=') || val.contains (chr ':')) && anyRune val isSepRune then
      enter (.scanLine val (depth + 1))
    else if val.contains (chr '=') || val.contains (chr ':') then do
      let _ ← enter
        (.processTokenLogic ⟨val, false, false, false, false, overrideSensitivity, depth + 1⟩)
    else enter (.scanLine val (depth + 1))
    .write quote
    return (keySensitive && val.isEmpty, true)

def bareEqualPair (key val : Bytes) (overrideSensitivity : Bool) (depth : Nat) : Scan Num (Bool × Bool) := do
  let keySensitive := st.isSensitivePairKey key || overrideSensitivity ||
    isSessionKey st.unicode key && st.isSessionTokenValue val
  st.writeKeyHalf key
  .write (bs "=")
  if (val.contains (chr '=') || val.contains (chr ':')) && !keySensitive then do
    let _ ← enter
      (.processTokenLogic ⟨val, false, false, false, false, overrideSensitivity, depth + 1⟩)
  else if isBalancedQuoted val || isBytesLiteral val then do
    let _ ← enter
      (.processTokenLogic ⟨val, keySensitive, false, true, false, false, depth + 1⟩)
  else st.processSingleToken val val keySensitive false false
  return (keySensitive && val.isEmpty, true)

variable (rawToken : Bytes)

def processEqualPair (forcedSensitive overrideSensitivity : Bool) (depth : Nat) : Scan Num (Bool × Bool) :=
  match cut rawToken (bs "=") with
  | none => pure (false, false)
  | some (key, val) =>
    if isPaddedBase64Blob rawToken || isElidedBase64 rawToken then pure (false, false)
    else if forcedSensitive && isPaddedBase64Token rawToken then pure (false, false)
    else if isBalancedQuoted rawToken then
      let quote := rawToken.take 1
      let trimmed := trimQuotes rawToken
      if isPaddedBase64Blob trimmed || isElidedBase64 trimmed then do
        .write quote
        st.processSingleToken trimmed trimmed forcedSensitive false false
        .write quote
        return (false, true)
      else
        match cut trimmed (bs "=") with
        | none => pure (false, false)
        | some (key, val) =>
          st.quotedEqualPair quote trimmed key val forcedSensitive overrideSensitivity depth
    else st.bareEqualPair key val overrideSensitivity depth

def colonIndex : Option Nat :=
  if firstIs rawToken isQuote then
    match indexByte (rawToken.drop 1) (byteAt rawToken 0) with
    | some endQ => (indexByte (rawToken.drop (endQ + 2)) ':').map (endQ + 2 + ·)
    | none => indexByte rawToken ':'
  else indexByte rawToken ':'

def colonKey (rawToken keyRaw key : Bytes) (keySensitive : Bool) : Scan Num (Bool × Bool) :=
  if 0 < (indexByte key '@').getD 0 && (keyRaw == key || isBalancedQuoted keyRaw) &&
      isEmailAddress key then do
    st.processSingleToken key keyRaw false false false
    .write (bs ":")
    return (keySensitive, true)
  else if keyRaw == key && !keySensitive && (key.length != 12 || !isHexString key) then do
    st.writeKeyHalf key
    .write (bs ":")
    return (false, true)
  else do
    .write rawToken
    return (keySensitive, true)

def processColonPair (overrideSensitivity : Bool) (depth : Nat) : Scan Num (Bool × Bool) :=
  if contains rawToken (bs "://") then pure (false, false)
  else
    match colonIndex rawToken with
    | none => pure (false, false)
    | some idx =>
      let keyRaw := rawToken.take idx
      let val := rawToken.drop (idx + 1)
      let key := trimQuotes keyRaw
      let keySensitive := st.isSensitiveKey key || overrideSensitivity ||
        isSessionKey st.unicode key && st.isSessionTokenValue (trimQuotes val)
      if isImage rawToken then do
        .write rawToken
        return (false, true)
      else if val.isEmpty then st.colonKey rawToken keyRaw key keySensitive
      else if keyRaw == key && 0 < (indexByte key '@').getD 0 && isEmailAddress key &&
          !isSCPTarget val then do
        st.processSingleToken key keyRaw false false false
        .write (bs ":")
        st.processSingleToken val val true false false
        return (false, true)
      else do
        .write keyRaw
        .write (bs ":")
        let inner ← enter (.processTokenLogic
          ⟨val, keySensitive, false, true, firstIs keyRaw isQuote, false, depth + 1⟩)
        return (inner, true)

variable (t : TokenCall)

def tokenRest : Scan Num Bool :=
  let trimmed := trimQuotes t.rawToken
  if !t.isValuePos && (st.isSensitiveKey trimmed || t.overrideSensitivity) then do
    .write t.rawToken
    return true
  else if !t.forcedSensitive && isBalancedQuoted t.rawToken then do
    .write (t.rawToken.take 1)
    if startsWithProductToken trimmed then enter (.scanUserAgent trimmed (t.depth + 1))
    else do let _ ← enter (.scanSegment trimmed (t.depth + 1))
    .write (t.rawToken.take 1)
    return false
  else do
    st.processSingleToken trimmed t.rawToken t.forcedSensitive t.contextSensitive t.autoQuote
    return false

def wideColonIndex : Option Nat :=
  match indexByte rawToken 0xEF with
  | some i =>
    if 0 < i && hasPrefix (rawToken.drop i) fullWidthColon && !containsAny rawToken (bs ":=\"'") then
      some i
    else none
  | none => none

def tokenColonPair : Scan Num Bool := do
  let r ← enter (.processColonPair t.rawToken t.overrideSensitivity t.depth)
  if r.2 then return r.1 else st.tokenRest t

def tokenWideColon : Scan Num Bool :=
  match wideColonIndex t.rawToken with
  | none => st.tokenColonPair t
  | some i => do
    let key := t.rawToken.take i
    let val := t.rawToken.drop (i + fullWidthColon.length)
    let keySensitive := st.isSensitiveKey key || t.overrideSensitivity
    st.writeKeyHalf key
    .write fullWidthColon
    if val.isEmpty then return keySensitive
    else enter (.processTokenLogic ⟨val, keySensitive, false, true, false, false, t.depth + 1⟩)

def tokenEqualPair : Scan Num Bool := do
  let r ← enter
    (.processEqualPair t.rawToken t.forcedSensitive t.overrideSensitivity t.depth)
  if r.2 then return r.1 else st.tokenWideColon t

def tokenForcedColon : Scan Num Bool :=
  let colon := (indexByte t.rawToken ':').getD 0
  if t.forcedSensitive && 1 < t.rawToken.length && !firstIs t.rawToken isQuote &&
      0 < colon && colon < t.rawToken.length - 1 then do
    st.processSingleToken t.rawToken t.rawToken true t.contextSensitive t.isValuePos
    return false
  else st.tokenEqualPair t

def tokenCompactPair : Scan Num Bool :=
  if (splitCompactPair t.rawToken).isSome then do
    let r ← enter (.processColonPair t.rawToken t.overrideSensitivity t.depth)
    if r.2 then return r.1 else st.tokenForcedColon t
  else st.tokenForcedColon t

def tokenLogPrefix : Scan Num Bool :=
  let stop := pythonLogPrefixEnd t.rawToken
  if !t.forcedSensitive && 0 < stop then do
    .write (t.rawToken.take stop)
    if stop == t.rawToken.length then return false
    else enter (.processTokenLogic
      ⟨t.rawToken.drop stop, false, t.contextSensitive, false, false, t.overrideSensitivity,
        t.depth + 1⟩)
  else st.tokenCompactPair t

def tokenTimestamp : Scan Num Bool :=
  if !t.forcedSensitive && isISO8601Timestamp st.unicode (trimQuotes t.rawToken) then do
    .write t.rawToken
    return false
  else st.tokenLogPrefix t

def tokenTelegram : Scan Num Bool :=
  let trimmed := trimQuotes t.rawToken
  if hasTelegramShape t.rawToken && matchSignature trimmed != [] then do
    st.processSingleToken trimmed t.rawToken t.forcedSensitive t.contextSensitive t.isValuePos
    return false
  else if hasTelegramShape t.rawToken && t.rawToken.contains (chr '/') &&
      hasPathSignature t.rawToken then do
    st.writeURLPath t.rawToken
    return false
  else st.tokenTimestamp t

/-- The `=` of an assignment whose value is a quoted phrase. -/
def phraseAssignment : Option Nat :=
  match indexByte rawToken '=' with
  | some eq =>
    if 0 < eq && !containsAny (rawToken.take eq) (bs "\"' :/?&") && isQuotedPhrase (rawToken.drop (eq + 1))
    then some eq
    else none
  | none => none

def phrasePair : Option (Bytes × Nat) :=
  match splitCompactPair rawToken with
  | some (k, _) => if isQuotedPhrase (rawToken.drop (k.length + 3)) then some (k, k.length + 3) else none
  | none => none

def tokenURL : Scan Num Bool :=
  if !(contains t.rawToken (bs "://") || hasQueryShape t.rawToken) then st.tokenTelegram t
  else if isQuotedPhrase t.rawToken then
    if t.forcedSensitive then do
      st.processSingleToken (trimQuotes t.rawToken) t.rawToken true t.contextSensitive t.isValuePos
      return false
    else do
      .write (t.rawToken.take 1)
      let _ ← enter (.scanSegment (slice t.rawToken 1 (t.rawToken.length - 1)) (t.depth + 1))
      .write (t.rawToken.take 1)
      return false
  else
    match phrasePair t.rawToken, phraseAssignment t.rawToken with
    | some (k, at_), _ => do
      .write (t.rawToken.take at_)
      let _ ← enter (.processTokenLogic
        ⟨t.rawToken.drop at_, st.isSensitiveKey k || t.overrideSensitivity, false, true, true, false,
          t.depth + 1⟩)
      return false
    | none, some eq => do
      .write (t.rawToken.take (eq + 1))
      let _ ← enter (.processTokenLogic
        ⟨t.rawToken.drop (eq + 1), st.isSensitiveKey (t.rawToken.take eq) || t.overrideSensitivity,
          false, true, false, false, t.depth + 1⟩)
      return false
    | none, none => do
      enter (.maskURLParameters t.rawToken t.depth)
      return false

def isQuotedChain : Bool :=
  let inner := slice rawToken 1 (rawToken.length - 1)
  isBalancedQuoted rawToken && !inner.contains (byteAt rawToken 0) && hasChainBoundary inner

def tokenChain : Scan Num Bool :=
  if !(!t.forcedSensitive && firstIs t.rawToken isQuote && t.rawToken.contains (chr '=') &&
      containsAny t.rawToken (bs "&\\\n")) then st.tokenURL t
  else if isQuotedChain t.rawToken then do
    .write (t.rawToken.take 1)
    let _ ← enter (.scanSegment (slice t.rawToken 1 (t.rawToken.length - 1)) (t.depth + 1))
    .write (t.rawToken.take 1)
    return false
  else
    match splitCompactPair t.rawToken with
    | some (k, v) =>
      if hasChainBoundary v then do
        .write (t.rawToken.take (k.length + 2))
        .write (bs ":")
        let _ ← enter (.processTokenLogic
          ⟨t.rawToken.drop (k.length + 3), st.isSensitiveKey k || t.overrideSensitivity, false, true,
            true, false, t.depth + 1⟩)
        return false
      else st.tokenURL t
    | none => st.tokenURL t

def tokenBytesLiteral : Scan Num Bool :=
  if isBytesLiteral t.rawToken then do
    let inner := slice t.rawToken 2 (t.rawToken.length - 1)
    .write (t.rawToken.take 2)
    if t.forcedSensitive then st.processSingleToken inner inner true t.contextSensitive false
    else if isEscapedBinary inner then st.processBinaryBlob inner t.contextSensitive
    else do let _ ← enter (.scanSegment inner (t.depth + 1))
    .write (slice t.rawToken 1 2)
    return false
  else st.tokenChain t

def tokenJSONLiteral : Scan Num Bool :=
  match escapedJSONString t.rawToken with
  | none => st.tokenBytesLiteral t
  | some inner =>
    if t.forcedSensitive then do
      .write [dquote]
      st.processSingleToken inner inner true t.contextSensitive false
      .write [dquote]
      return false
    else
      .capture (Frame.scanLine inner (t.depth + 1)) fun _ scanned => do
        .write (if scanned == inner then t.rawToken else jsonQuote scanned)
        return false

def tokenMarker : Scan Num Bool :=
  if !contains t.rawToken (bs "[HIDDEN") then st.tokenJSONLiteral t
  else if (urlPassword st.unicode t.rawToken).any fun p => isRedacted (slice t.rawToken p.1 p.2) then do
    enter (.maskURLParameters t.rawToken t.depth)
    return false
  else if isRedacted (trimQuotes t.rawToken) then do
    .write t.rawToken
    return false
  else if !t.rawToken.any isQuote then do
    enter (.scanLine t.rawToken (t.depth + 1))
    return false
  else st.tokenJSONLiteral t

def processTokenLogic : Scan Num Bool :=
  if maxTokenRecursionDepth < t.depth then do
    st.processSingleToken (trimQuotes t.rawToken) t.rawToken t.forcedSensitive t.contextSensitive true
    return false
  else
    match escapedOrBacktickWrap t.rawToken with
    | some (pre, post) => do
      .write (t.rawToken.take pre)
      let inner ← enter (.processTokenLogic
        { t with rawToken := slice t.rawToken pre (t.rawToken.length - post), autoQuote := false,
                 depth := t.depth + 1 })
      .write (t.rawToken.drop (t.rawToken.length - post))
      return inner
    | none => st.tokenMarker t

def writeURLSections : List Bytes → Scan Num Unit
  | [] => pure ()
  | sect :: ss => do
    .write (bs "?")
    st.writeURLSection sect
    writeURLSections ss

def writeURLQuery (url : Bytes) : Scan Num Unit :=
  match List.splitOn (chr '?') url with
  | [] => pure ()
  | path :: sections => do
    st.writeURLPath path
    st.writeURLSections sections

def writeURLSecret (pw : Bytes) : Scan Num Unit :=
  if isRedacted pw then .write pw
  else if matchSignature pw != [] then .place ⟨pw, st.entityLabel (matchSignature pw), .signature⟩
  else .place ⟨pw, st.entityLabel (bs "key"), .key⟩

def maskURLParameters (url : Bytes) (depth : Nat) : Scan Num Unit :=
  match urlPassword st.unicode url with
  | some (pwStart, pwEnd) => do
    .write (url.take pwStart)
    st.writeURLSecret (slice url pwStart pwEnd)
    enter (.maskURLParameters (url.drop pwEnd) depth)
  | none =>
    let tail := urlClosingTail url
    if !url.contains (chr '?') then
      -- Slicing by an index out of range panics.
      if tail < 0 || url.length < tail then .panic
      else do
        st.writeURLPath (url.take tail.toNat)
        .write (url.drop tail.toNat)
    else if tail < url.length then
      if tail < 0 then .panic
      else do
        enter (.maskURLParameters (url.take tail.toNat) depth)
        .write (url.drop tail.toNat)
    else
      match indexWhitespace url with
      | some i => do
        enter (.maskURLParameters (url.take i) depth)
        let _ ← enter (.scanSegment (url.drop i) depth)
      | none => st.writeURLQuery url

/-- The loop of `scanUserAgent` over the pieces of the header. -/
def writeAgentPieces (depth : Nat) : List AgentPiece → Scan Num Unit
  | [] => pure ()
  | .run text :: ps => do
    let _ ← enter (.scanSegment text depth)
    writeAgentPieces depth ps
  | .product core :: ps => do
    .write core
    writeAgentPieces depth ps

def scanUserAgent (ua : Bytes) (depth : Nat) : Scan Num Unit :=
  writeAgentPieces depth (agentPieces ua)

end ConfigState

end PiiShield
