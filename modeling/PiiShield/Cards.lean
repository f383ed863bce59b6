import PiiShield.ShapedNumbers

/-! Payment card numbers: the windows of connected digits that pass the Luhn check
under a card prefix, and how they are merged with the shaped numbers of a line. -/

namespace PiiShield

/-- An inclusive range of card prefixes of `digits` digits, with the accepted lengths. -/
structure BinRange where
  lo : Nat
  hi : Nat
  digits : Nat
  lengths : List Nat

def cardBINs : List BinRange :=
  [⟨4, 4, 1, [13, 16, 19]⟩, ⟨51, 55, 2, [16]⟩, ⟨2221, 2720, 4, [16]⟩, ⟨34, 34, 2, [15]⟩,
    ⟨37, 37, 2, [15]⟩, ⟨6011, 6011, 4, [16, 19]⟩, ⟨622126, 622925, 6, [16, 19]⟩,
    ⟨644, 649, 3, [16, 19]⟩, ⟨65, 65, 2, [16, 19]⟩, ⟨3528, 3589, 4, [16, 17, 18, 19]⟩,
    ⟨300, 305, 3, [14, 15, 16, 17, 18, 19]⟩, ⟨36, 36, 2, [14, 15, 16, 17, 18, 19]⟩,
    ⟨38, 39, 2, [14, 15, 16, 17, 18, 19]⟩, ⟨62, 62, 2, [16, 17, 18, 19]⟩]

def matchesCardBIN (digits : Bytes) : Bool :=
  cardBINs.any fun r =>
    r.lengths.contains digits.length && r.digits ≤ digits.length &&
      (let p := decimalValue (digits.take r.digits)
       r.lo ≤ p && p ≤ r.hi)

def countDistinctDigits (digits : Bytes) : Nat := digits.dedup.length

def luhnSum : Bool → Bytes → Nat
  | _, [] => 0
  | alternate, c :: t =>
    let digit := c.toNat - 0x30
    (if alternate then (if 9 < digit * 2 then digit * 2 - 9 else digit * 2) else digit) +
      luhnSum (!alternate) t

def validLuhn (digits : Bytes) : Bool := luhnSum false digits.reverse % 10 == 0

def prevRune (line : Bytes) (idx : Nat) : Nat :=
  let b := byteAt line (idx - 1)
  if isASCII b then b.toNat else decodeLastRune (line.take idx)

def nextRune (line : Bytes) (idx : Nat) : Nat :=
  let b := byteAt line idx
  if isASCII b then b.toNat else (decodeRune (line.drop idx)).1

/-- The rune `r` next to a window, and `r2` past it, let a number end there. -/
def boundaryRunes (U : Unicode) (r : Nat) (r2 : Option Nat) : Bool :=
  if U.isLetter r || U.isDigit r then false
  else if r == 0x2D || r == 0x2E then
    match r2 with
    | some r2 => !U.isLetter r2 && !(r == 0x2E && U.isDigit r2)
    | none => true
  else true

def isValidBoundary (U : Unicode) (line : Bytes) (startIdx endIdx : Nat) : Bool :=
  (startIdx == 0 || boundaryRunes U (prevRune line startIdx)
    (if 1 < startIdx then some (prevRune line (startIdx - 1)) else none)) &&
  (line.length ≤ endIdx || boundaryRunes U (nextRune line endIdx)
    (if endIdx + 1 < line.length then some (nextRune line (endIdx + 1)) else none))

def digitsConnected (line : Bytes) (prevIdx currIdx : Nat) : Bool :=
  let diff := currIdx - prevIdx
  if 2 < diff then false
  else if diff == 2 then byteAt line (prevIdx + 1) == ' ' || byteAt line (prevIdx + 1) == '-'
  else true

def digitIndices (line : Bytes) : List Nat :=
  line.zipIdx.filterMap fun p => if isASCIIDigit p.1 then some p.2 else none

section Luhn

variable (U : Unicode) (line : Bytes) (idx : List Nat)

def extendRun : Nat → Nat → Nat
  | 0, runEnd => runEnd
  | fuel + 1, runEnd =>
    if runEnd < idx.length && digitsConnected line (idx.getD (runEnd - 1) 0) (idx.getD runEnd 0) then
      extendRun fuel (runEnd + 1)
    else runEnd

/-- The window of `len` digits from the `i`-th on, when it is a card number. -/
def cardWindow (i len : Nat) : Option Range :=
  let startIdx := idx.getD i 0
  let endIdx := idx.getD (i + len - 1) 0 + 1
  let digits := ((idx.drop i).take len).map (byteAt line)
  if !isValidBoundary U line startIdx endIdx then none
  else if countDistinctDigits digits < 2 then none
  else if !matchesCardBIN digits then none
  else if validLuhn digits then some ⟨startIdx, endIdx⟩
  else none

/-- The windows that start at the `i`-th digit, shortest first. -/
def cardWindows (i runEnd : Nat) : List Range :=
  let maxLen := min (min 19 (idx.length - i)) (runEnd - i)
  (List.range' 13 (maxLen + 1 - 13)).filterMap (cardWindow U line idx i)

/-- The loop over the first digit of a window; `runEnd` only moves forward. -/
def luhnFrom : Nat → Nat → Nat → List Range
  | 0, _, _ => []
  | left + 1, i, runEnd =>
    let runEnd := extendRun line idx idx.length (max runEnd (i + 1))
    cardWindows U line idx i runEnd ++ luhnFrom left (i + 1) runEnd

end Luhn

def mergeFrom (current : Range) : List Range → List Range
  | [] => [current]
  | next :: rs =>
    if next.start ≤ current.stop then
      mergeFrom { current with stop := max current.stop next.stop } rs
    else current :: mergeFrom next rs

def mergeRanges : List Range → List Range
  | [] => []
  | r :: rs => mergeFrom r rs

def findLuhnSequences (U : Unicode) (line : Bytes) : List Range :=
  let idx := digitIndices line
  if line.length < 13 || idx.length < 13 then []
  else mergeRanges (luhnFrom U line idx (idx.length - 12) 0 0)

/-- A part of a line to redact before the tokens are read; no label means a card. -/
structure Carve extends Range where
  label : Bytes
  deriving DecidableEq

def mergeCarvesFrom : Nat → List Range → List ShapedNumber → List Carve
  | 0, _, _ => []
  | _, [], nums => nums.map fun n => ⟨n.toRange, n.label⟩
  | _, cards, [] => cards.map fun c => ⟨c, []⟩
  | fuel + 1, c :: cards, n :: nums =>
    if n.stop ≤ c.start then ⟨n.toRange, n.label⟩ :: mergeCarvesFrom fuel (c :: cards) nums
    else if c.stop ≤ n.start then ⟨c, []⟩ :: mergeCarvesFrom fuel cards (n :: nums)
    else mergeCarvesFrom fuel cards (n :: nums)

def mergeCarves (cards : List Range) (nums : List ShapedNumber) : List Carve :=
  mergeCarvesFrom (cards.length + nums.length) cards nums

end PiiShield
