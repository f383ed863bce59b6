import PiiShield.Complexity
import PiiShield.ShapedNumbers
import PiiShield.Tokens

/-! Which names announce a secret, a hash or a plain value. -/

namespace PiiShield

def fieldNameRunes (U : Unicode) (key : Bytes) : Bool → Bool → List Nat → Bool
  | _, _, [] => true
  | first, digits, r :: rs =>
    if U.isDigit r then !first && fieldNameRunes U key false true rs
    else if U.isLetter r then
      if digits then isCamelCaseWithDigits key else fieldNameRunes U key false digits rs
    else false

variable (U : Unicode)

def looksLikeFieldName (key : Bytes) : Bool :=
  containsAny key (bs "_-.:&;%") || fieldNameRunes U key true false (runes key)

def abbrevParts (part : Bytes) : Bytes → List (Bytes × Bool)
  | [] => if part.isEmpty then [] else [(part, false)]
  | c :: t =>
    if isKeyWordSep c || c == ':' then
      (if part.isEmpty then [] else [(part, true)]) ++ abbrevParts [] t
    else if isUpperASCII c && isLowerASCII (lastByte part) then (part, true) :: abbrevParts [c] t
    else abbrevParts (part ++ [c]) t

def hasPasswordAbbrevComponent (key : Bytes) : Bool :=
  if key.length < 2 || containsAny key (bs "/0123456789") ||
      2 < countByte key '_' + countByte key '-' + countByte key '.' then false
  else
    (abbrevParts [] key).zipIdx.any fun q =>
      equalFold q.1.1 (bs "pw") || equalFold q.1.1 (bs "pwd") && (0 < q.2 || q.1.2)

def isWordsName (k : Bytes) : Bool :=
  k.all (fun c => isLowerASCII c || c == '_' || c == '-') && (k.any fun c => c == '_' || c == '-') &&
    isLowerASCII (byteAt k 0)

def isNamedSecretWord (w : Bytes) : Bool :=
  inWords ["password", "passwd", "passphrase", "secret", "token"] w

/-- The lower-cased words of a key, as `keyNamesSecret` cuts them. -/
def secretWordsFrom (U : Unicode) (word : Bytes) (prevLower : Bool) : List Nat → List Bytes
  | [] => if word.isEmpty then [] else [word]
  | r :: rs =>
    if r == 0x5F || r == 0x2D || r == 0x2E || r == 0x20 then
      (if word.isEmpty then [] else [word]) ++ secretWordsFrom U [] false rs
    else
      let lowered := encodeRune (U.lowerRune r)
      let prevLower' := U.isLower r || U.isDigit r
      if U.isUpper r && prevLower && !word.isEmpty then
        word :: secretWordsFrom U lowered prevLower' rs
      else secretWordsFrom U (word ++ lowered) prevLower' rs

def isHexRune (r : Nat) : Bool := r < 0x80 && isHexByte (.ofNat r)

def isHexStr (s : Bytes) : Bool := (runes s).all isHexRune

def isHashKeyName (k : Bytes) : Bool :=
  let lk := U.toLowerString (trimQuotes k)
  if contains lk (bs "commit") then true
  else
    let last := (lk.reverse.takeWhile (!isKeyWordSep ·)).reverse
    inWords ["sha", "sha1", "hash", "rev", "revision"] last

def isShortHex (s : Bytes) : Bool := 7 ≤ s.length && s.length ≤ 40 && isHexStr s

def splitCompactPair (tok : Bytes) : Option (Bytes × Bytes) :=
  if tok.length < 5 || !isQuote (byteAt tok 0) then none
  else
    match indexByte (tok.drop 1) (byteAt tok 0) with
    | none => none
    | some at_ =>
      let stop := at_ + 1
      let v := tok.drop (stop + 2)
      if !firstIs (tok.drop (stop + 1)) (· == ':') then none
      else if v.length < 2 || !isQuote (byteAt v 0) || lastByte v != byteAt v 0 then none
      else some (slice tok 1 stop, slice v 1 (v.length - 1))

def pairKey (tok : Bytes) : Option Bytes :=
  match splitCompactPair tok with
  | some (k, _) => some k
  | none =>
    let k := trimQuotes (tok.takeWhile fun c : UInt8 => c != ':' && c != '=')
    -- Without a separator, or with one in front, there is no key.
    if !tok.any (fun c => c == ':' || c == '=') || firstIs tok (fun c => c == ':' || c == '=') then none
    else if k.isEmpty || k.any (fun c => c == ' ' || isQuote c) then none
    else some k

def isGenericValueKey (k : Bytes) : Option Bool :=
  let lk := U.toLowerString k
  if inWords ["value", "val", "values", "data"] lk then some true
  else if k.length ≤ 5 then some false
  else
    let i := k.length - 5
    if lk.length < i then none
    else if lk.drop i != bs "value" then some false
    else
      let before := byteAt k (i - 1)
      some (byteAt k i == 'V' || before == '_' || before == '-' || before == '.')

def looksLikeSecretWord (s : Bytes) : Bool :=
  anyRune s fun r =>
    U.isDigit r || !U.isLetter r && r != 0x2D && r != 0x2E && r != 0x5F && r != 0x27

def isAuthSchemeWord (s : Bytes) : Bool :=
  3 ≤ s.length && s.length ≤ 24 && isUpperASCII (byteAt s 0) &&
    (s.drop 1).all fun c => isAlnumByte c || c == '-'

def isSchemeParameter (s : Bytes) : Bool :=
  match indexByte s '=', indexByte s ':' with
  | none, _ => false
  | some _, none => true
  | some eq, some colon => eq < colon

def strongSecretWords : List String :=
  ["pass", "password", "passwd", "passphrase", "secret", "token"]

def copulaWords : List String := ["is", "was", "are", "were"]

def longAuthSchemes : List String := ["bearer", "digest", "negotiate"]

def contextKeywords : List String :=
  ["error", "failed", "exception", "invalid", "fatal", "panic", "warning", "bad", "denied",
    "unauthorized", "broken", "password", "secret", "token", "key", "auth"]

def valueLiterals : List String := ["true", "false", "null", "none"]

/-- The source's `newLoweredToken`: a short ASCII token is lowered byte by byte. -/
def loweredToken (src : Bytes) : Bytes :=
  if src.length ≤ 64 && !hasNonASCII src then src.map lowerASCIIByte else U.toLowerString src

def loweredForBigrams (src : Bytes) : Bytes :=
  if src.length ≤ 64 && !hasNonASCII src then src else U.toLowerString src

variable {Num : Type}

namespace ConfigState

variable (st : ConfigState Num)

def isWordsSecretName (k : Bytes) : Bool :=
  st.config.sensitiveKeys.contains k ||
    isWordsName k && (k.splitOnP fun c : UInt8 => c == '_' || c == '-').any isNamedSecretWord

def isSensitiveKey (key : Bytes) : Bool :=
  let (found, lowered) := st.keyMatcher.find st.unicode key
  if found then
    let k := if lowered.isEmpty then st.unicode.toLowerString key else lowered
    if contains k (bs "pub") && contains k (bs "key") then false
    else
      !(15 < key.length && st.arith.lt st.config.entropyThreshold (st.calculateComplexity key) &&
        !st.isWordsSecretName k)
  else
    let k := if lowered.isEmpty then key else lowered
    containsFoldPW k && looksLikeFieldName st.unicode key && hasPasswordAbbrevComponent key ||
      st.sensitiveRegex.any (· key)

def isSensitivePairKey (key : Bytes) : Bool :=
  st.isSensitiveKey key ||
    match lastIndexByte key ':' with
    | some i => i + 1 < key.length && st.isSensitiveKey (key.drop (i + 1))
    | none => false

def listedKey (s : Bytes) : Bool := st.config.sensitiveKeys.contains s

def listedStrongKey (s : Bytes) : Bool :=
  st.listedKey s && !inWords ["key", "auth", "sign", "pass"] s

def joinedListed : Bytes → List Bytes → Bool
  | _, [] => false
  | joined, w :: ws =>
    st.listedKey (joined ++ bs "_" ++ w) || joinedListed (joined ++ bs "_" ++ w) ws

def wordsNameSecret : List Bytes → Bool
  | [] => false
  | w :: ws => isNamedSecretWord w || st.joinedListed w ws || wordsNameSecret ws

def keyNamesSecret (key : Bytes) : Bool :=
  let lk := st.unicode.toLowerString key
  let words := secretWordsFrom st.unicode [] false (runes key)
  st.sensitiveRegex.any (· key) ||
    contains lk (bs "pw") && looksLikeFieldName st.unicode key && hasPasswordAbbrevComponent key ||
    st.listedStrongKey lk || words.length == 1 && st.listedStrongKey (words.headD []) ||
    st.wordsNameSecret words

def isShortHashUnderHashKey (tok : Bytes) (afterHashKey : Bool) : Bool :=
  if afterHashKey then isShortHex (trimQuotes (trimSuffix tok (bs ",")))
  else
    let pair := (splitCompactPair tok).or
      ((cut tok (bs "=")).map fun p => (trimQuotes p.1, trimQuotes p.2))
    match pair with
    | some (k, v) => isShortHex v && isHashKeyName st.unicode k && !st.isSensitiveKey k
    | none => false

def isSessionTokenValue (val : Bytes) : Bool :=
  let val := trimRight val (bs ";,")
  if (val.length : Int) < st.config.minSecretLength || !looksLikeSecretWord st.unicode val ||
      containsAny val (bs " ;") || (trimRight val (bs "=")).contains (chr '=') then false
  else anyRune val st.unicode.isLetter

end ConfigState

end PiiShield
