import PiiShield.Config

/-! The complexity score: Shannon entropy, a bonus for mixed character classes and an
adjustment by English bigrams, taken over the parts of a token that reads as words. -/

namespace PiiShield

/-- The source's `EnglishBigramFreqs` in tenths, the bigrams of one score in a row. -/
def englishBigramFreqs : List (Int × String) :=
  [(-35, "th"), (-38, "he"), (-39, "in"), (-40, "er"), (-41, "an re"), (-43, "nd"),
    (-44, "at on"), (-45, "nt ha"), (-46, "es st"), (-47, "en ed to it"), (-48, "ou ea hi"),
    (-49, "is or ti as"), (-50, "te et ng of al"), (-51, "de se le sa"), (-52, "si ar ve ra"),
    (-53, "ld ur ac ne no fo co oa"), (-54, "me ec ot ri ro io ic ma ta el li om us"),
    (-55, "ce ca il na la ge un ch wi di pe be so rt wa ay ga um pi eb ug ey"),
    (-56, "nc wh tr pr ul ni ns ts ow em ie ll ut po lo ss ad ho rs"),
    (-57, "mo we pa im tt mi ai su qu pp pl da os bl ty bu rn"),
    (-58, "nf fe gh ds ke ct op sc rr sp vo mp am iv id ef ev au ck ir ep tu bo ci ab eg"),
    (-58, "ye wn dr gr od ph av ew do ag nu yl"), (-59, "ex ly mu fr"),
    (-60, "ms sg ja ju jy jo ym mm"), (-65, "aj"), (-75, "wd nm ky"), (-80, "cv pw"),
    (-85, "tk"), (-90, "t_ vv")]

def bigramRowHas (b0 b1 : UInt8) : Bytes → Bool
  | a :: b :: _ :: t => a == b0 && b == b1 || bigramRowHas b0 b1 t
  | [a, b] => a == b0 && b == b1
  | _ => false

def isCompoundSep (c : UInt8) : Bool := c == '-' || c == '.' || c == '_' || c == '/'

/-- The parts `nextCompoundPart` yields: what stands between separators. -/
def compoundParts (token : Bytes) : List Bytes :=
  (token.splitOnP isCompoundSep).filter (!·.isEmpty)

/-- The parts `nextCamelPart` yields: a capital starts a new one. -/
def camelPartsFrom (part : Bytes) : Bytes → List Bytes
  | [] => if part.isEmpty then [] else [part]
  | c :: t =>
    if isUpperASCII c && !part.isEmpty then part :: camelPartsFrom [c] t
    else camelPartsFrom (part ++ [c]) t

def camelParts (token : Bytes) : List Bytes := camelPartsFrom [] token

def adjacent (s : Bytes) : List (UInt8 × UInt8) := s.zip (s.drop 1)

/-- The loop of `isCamelCaseWithDigits`; `inner` counts the digit groups before a capital. -/
def camelDigitsFrom : Nat → Nat → Bytes → Bool
  | 0, _, key => key.isEmpty
  | fuel + 1, inner, key =>
    if key.isEmpty then true
    else
      let word := if firstIs key isUpperASCII then key.drop 1 else key
      let afterWord := word.dropWhile isLowerASCII
      let digits := afterWord.takeWhile isASCIIDigit
      let rest := afterWord.dropWhile isASCIIDigit
      if afterWord.length == word.length || 3 < digits.length then false
      else if !digits.isEmpty && !rest.isEmpty then
        firstIs rest isUpperASCII && inner + 1 ≤ 2 && camelDigitsFrom fuel (inner + 1) rest
      else camelDigitsFrom fuel inner rest

def isCamelCaseWithDigits (key : Bytes) : Bool := camelDigitsFrom key.length 0 key

def isIndexedName (token : Bytes) : Bool :=
  if containsAny token (bs "./") then false
  else
    let rest := (compoundParts token).drop 1
    !rest.isEmpty && rest.all (·.all isASCIIDigit)

def aloneLower (prevLower : Bool) : Bytes → Nat
  | [] => 0
  | c :: t =>
    (if isLowerASCII c && !prevLower && !firstIs t isLowerASCII then 1 else 0) +
      aloneLower (isLowerASCII c) t

def wordShapedPart (p : Bytes) (dotted : Bool) : Option Nat :=
  let letters := (p.takeWhile isASCIILetter).length
  let afterLetters := p.drop letters
  let digits := (afterLetters.takeWhile isASCIIDigit).length
  let tail := afterLetters.drop digits
  let named (n : Nat) (q : Bytes) : Option Nat :=
    let alone := aloneLower false (q.take n)
    if 4 ≤ n && 0 < alone && (1 < alone || !dotted) then none else some n
  if 24 < p.length || 8 < digits || !tail.all isASCIILetter then none
  else if tail.length ≤ 2 then named letters p
  else if !dotted || letters == 0 || letters == 2 || 4 < letters || digits != 1 ||
      tail.length < 4 then none
  else if letters == 1 && !firstIs p fun c => c == 'v' || c == 'V' || c == 's' || c == 'S' then none
  else if 3 ≤ letters && !firstIs tail isUpperASCII then none
  else named tail.length tail

variable {Num : Type}

namespace ConfigState

variable (st : ConfigState Num)

def bigramProbBytes (b0 b1 : UInt8) : Num :=
  match englishBigramFreqs.find? fun row => bigramRowHas b0 b1 (bs row.2) with
  | some row => st.arith.tenths row.1
  | none => st.config.bigramDefaultScore

def letterBigram (p : UInt8 × UInt8) : Num :=
  st.bigramProbBytes (lowerASCIIByte p.1) (lowerASCIIByte p.2)

def average (xs : List Num) : Num :=
  st.arith.div (xs.foldl st.arith.add (st.arith.tenths 0)) (st.arith.ofNat xs.length)

/-- The source's `compoundMinBigramAvg` is not exceeded by the letter pairs given. -/
def unlikelyWords (pairs : List (UInt8 × UInt8)) : Bool :=
  st.arith.le (st.average (pairs.map st.letterBigram)) (st.arith.tenths (-65))

variable (token : Bytes)

def namesSecret : Bool :=
  let low := token.map lowerASCIIByte
  st.config.sensitiveKeys.any (contains low) || st.sensitiveRegex.any (· token)

def readsAsName (nParts : Nat) (hasWord : Bool) (pairs : List (UInt8 × UInt8)) : Bool :=
  2 ≤ nParts && hasWord && !(2 < pairs.length && st.unlikelyWords pairs) && !st.namesSecret token

def isCamelWordCompound : Bool :=
  let parts := camelParts token
  if st.config.disableBigramCheck || 128 < token.length then false
  else if !parts.all fun p => 2 ≤ p.length && p.all isASCIILetter then false
  else st.readsAsName token parts.length (parts.any (3 ≤ ·.length)) (parts.flatMap adjacent)

def isCamelDigitCompound : Bool :=
  let words := (camelParts token).map (·.takeWhile isASCIILetter)
  if st.config.disableBigramCheck || 128 < token.length || !token.any isASCIIDigit ||
      !isCamelCaseWithDigits token then false
  else st.readsAsName token words.length (words.any (3 ≤ ·.length)) (words.flatMap adjacent)

def isTwoLetterPrefixedName (p : Bytes) : Bool :=
  let words := camelParts (p.drop 2)
  let pairs := words.flatMap adjacent
  if p.length < 5 || 64 < p.length || !isUpperASCII (byteAt p 0) || !isLowerASCII (byteAt p 1) ||
      !isUpperASCII (byteAt p 2) then false
  else if !words.all fun w => 3 ≤ w.length && w.all isASCIILetter then false
  else
    !pairs.isEmpty && st.arith.lt (st.arith.tenths (-65)) (st.average (pairs.map st.letterBigram)) &&
      !st.namesSecret p

/-- The letters that lead a part of the compound `token`, if the part is word-shaped. -/
def compoundLetters (dotOnly : Bool) (p : Bytes) : Option Nat :=
  match wordShapedPart p dotOnly with
  | some n => some n
  | none => if isIndexedName token && st.isTwoLetterPrefixedName p then some p.length else none

def isWordCompound : Bool :=
  let parts := compoundParts token
  let first := parts.headD []
  let dotOnly := !containsAny token (bs "-_/")
  let letters := parts.map (st.compoundLetters token dotOnly)
  if st.config.disableBigramCheck || 128 < token.length || !token.any isCompoundSep then false
  else if letters.any (·.isNone) then false
  else if 4 ≤ first.length && !dotOnly && parts.all (·.length == first.length) then false
  else
    let hasWord := (parts.zip letters).any fun q => q.2 == some q.1.length && 3 ≤ q.1.length
    let pairs := (parts.flatMap adjacent).filter fun q => isASCIILetter q.1 && isASCIILetter q.2
    st.readsAsName token parts.length hasWord pairs

def charCounts : List Nat :=
  if isASCIIString token then
    ((List.range 128).map fun b => token.count (.ofNat b)).filter (0 < ·)
  else
    let rs := runes token
    (st.mapOrder (rs.dedup.map fun r => (r, rs.count r))).map Prod.snd

def calculateShannon : Num :=
  let A := st.arith
  if token.isEmpty then A.tenths 0
  else
    let total := if isASCIIString token then token.length else runeCount token
    let logLen := A.log2 (A.ofNat total)
    (st.charCounts token).foldl (fun entropy count =>
      A.sub entropy (A.mul (A.div (A.ofNat count) (A.ofNat total))
        (A.sub (A.log2 (A.ofNat count)) logLen))) (A.tenths 0)

def calculateClassBonus : Num :=
  let U := st.unicode
  let classes := [U.isUpper, U.isLower, U.isDigit, fun r => U.isPunct r || U.isSymbol r].countP
    fun c => anyRune token c
  if 1 < classes then st.arith.mul (st.arith.ofNat (classes - 1)) (st.arith.tenths 5)
  else st.arith.tenths 0

def bigramPairs : List (UInt8 × UInt8) :=
  let rs := runes token
  ((rs.zip (rs.drop 1)).filter fun q => q.1 < 0x80 && q.2 < 0x80).map fun q =>
    (lowerASCIIByte (.ofNat q.1), lowerASCIIByte (.ofNat q.2))

def calculateBigramAdjustment : Num :=
  let A := st.arith
  let probs := (bigramPairs token).map fun q => st.bigramProbBytes q.1 q.2
  if st.config.disableBigramCheck || token.length ≤ 3 || probs.isEmpty then A.tenths 0
  else if A.lt (A.tenths (-58)) (st.average probs) then A.tenths (-15)
  else if A.lt (st.average probs) (A.tenths (-70)) then A.tenths 5
  else A.tenths 0

def calculateRawComplexity : Num :=
  if token.isEmpty then st.arith.tenths 0
  else
    st.arith.add (st.arith.add (st.calculateShannon token) (st.calculateClassBonus token))
      (st.calculateBigramAdjustment token)

def larger (best s : Num) : Num := if st.arith.lt best s then s else best

def camelPartsComplexity : Num :=
  ((camelParts token).map st.calculateRawComplexity).foldl st.larger (st.arith.tenths 0)

def partComplexity (part : Bytes) (dotted : Bool) : Num :=
  if st.isCamelDigitCompound part || dotted && st.isCamelWordCompound part then
    st.camelPartsComplexity part
  else st.calculateRawComplexity part

def isCamelCompound : Bool :=
  st.isCamelDigitCompound token || !token.any isCompoundSep && st.isCamelWordCompound token

def readsAsWords : Bool := st.isWordCompound token || st.isCamelCompound token

def calculateComplexity : Num :=
  let A := st.arith
  if !st.isWordCompound token then
    if st.isCamelCompound token then st.camelPartsComplexity token
    else st.calculateRawComplexity token
  else
    let dotted := !containsAny token (bs "-_/") || isIndexedName token
    (compoundParts token).foldl (fun best part =>
      -- No part scores above the logarithm of its length plus two.
      if part.length < 256 && A.le (A.add (A.log2 (A.ofNat part.length)) (A.tenths 20)) best then best
      else st.larger best (st.partComplexity part dotted)) (A.tenths 0)

def isIdentifierName (s : Bytes) : Bool :=
  let parts := s.splitOnP fun c : UInt8 => c == '.' || c == '_'
  let words := parts.map (·.takeWhile isASCIILetter)
  if st.config.disableBigramCheck || s.length < 3 || 64 < s.length then false
  else if !parts.all fun p =>
      (p.dropWhile isASCIILetter).all isASCIIDigit && 2 ≤ (p.takeWhile isASCIILetter).length then false
  else st.readsAsName s parts.length (words.any (3 ≤ ·.length)) (words.flatMap adjacent)

end ConfigState

end PiiShield
