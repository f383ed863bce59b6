import PiiShield.Unicode

/-! Numbers told by their shape or by the key before them: phone and ID numbers,
session numbers, one-time codes and dates of birth. -/

namespace PiiShield

structure Range where
  start : Nat
  stop : Nat
  deriving DecidableEq

structure ShapedNumber extends Range where
  label : Bytes
  deriving DecidableEq

variable (line : Bytes)

def isDigitAt (j : Nat) : Bool := firstIs (line.drop j) isASCIIDigit

def spanDigits (j : Nat) : Nat := ((line.drop j).takeWhile isASCIIDigit).length

def digitGroup (j k : Nat) : Bool :=
  j + k ≤ line.length && (slice line j (j + k)).all isASCIIDigit

def nanpGroup (j k : Nat) : Bool := digitGroup line j k && '2' ≤ byteAt line j

def isAt (j : Nat) (c : UInt8) : Bool := j < line.length && byteAt line j == c

def minPhoneDigits : Nat := 8
def maxPhoneDigits : Nat := 15
def minKeyedDigits : Nat := 7
def maxPhoneGroup : Nat := 8
def maxAreaCodeDigits : Nat := 4
def maxPhoneGroups : Nat := 6

structure PhoneGroups where
  j : Nat
  stop : Nat
  digits : Nat
  sep : UInt8
  dots : Nat
  afterArea : Bool

/-- One group read from `k`, after its separator; `false` leaves the loop. -/
def readPhoneGroup (parens : Bool) (g k : Nat) (s : PhoneGroups) : PhoneGroups × Bool :=
  if parens && g == 0 && isAt line k '(' then
    let d := min maxAreaCodeDigits (spanDigits line (k + 1))
    let k' := k + 1 + d
    if d == 0 || !isAt line k' ')' then (s, false)
    else
      let spaced := isAt line (k' + 1) ' ' && isDigitAt line (k' + 2)
      ({ s with digits := s.digits + d, stop := k' + 1, sep := 0, afterArea := spaced,
                j := if spaced then k' + 2 else k' + 1 }, true)
  else
    let d := min maxPhoneGroup (spanDigits line k)
    if d == 0 || isDigitAt line (k + d) then (s, false)
    else ({ s with digits := s.digits + d, stop := k + d, j := k + d }, true)

def phoneGroup (parens : Bool) (g : Nat) (s : PhoneGroups) : PhoneGroups × Bool :=
  let c := byteAt line s.j
  if s.j < line.length && (c == ' ' || c == '-' || c == '.') then
    if s.sep != 0 && c != s.sep then (s, false)
    else
      readPhoneGroup line parens g (s.j + 1)
        { s with sep := c, dots := if c == '.' then s.dots + 1 else s.dots, afterArea := false }
  else if g > 0 && !s.afterArea then (s, false)
  else readPhoneGroup line parens g s.j { s with afterArea := false }

def phoneGroupsFrom (line : Bytes) (parens : Bool) : Nat → Nat → PhoneGroups → PhoneGroups
  | 0, _, s => s
  | left + 1, g, s =>
    match phoneGroup line parens g s with
    | (s', true) => phoneGroupsFrom line parens left (g + 1) s'
    | (s', false) => s'

def matchPhoneGroups (j have_ : Nat) (parens : Bool) : Nat × Nat :=
  let s := phoneGroupsFrom line parens maxPhoneGroups 0 ⟨j, 0, have_, 0, 0, false⟩
  if s.stop == 0 || s.dots == 1 then (0, 0) else (s.stop, s.digits)

def matchInternationalPhone (i : Nat) : Nat :=
  let cc := min 3 (spanDigits line (i + 1))
  let j := i + 1 + cc
  if cc == 0 then 0
  else if isDigitAt line j then
    let digits := cc + spanDigits line j
    if digits < minPhoneDigits || maxPhoneDigits < digits then 0 else j + spanDigits line j
  else
    let (stop, more) := matchPhoneGroups line j cc true
    if stop == 0 || more < minPhoneDigits || maxPhoneDigits < more then 0 else stop

/-- From the second group of a NANP number on; `sep` is what the last group follows. -/
def matchNANPTail (j : Nat) (sep : UInt8 → Bool) : Nat :=
  if !nanpGroup line j 3 then 0
  else if !firstIs (line.drop (j + 3)) sep then 0
  else if !digitGroup line (j + 4) 4 || isDigitAt line (j + 8) then 0
  else j + 8

def matchNANPPhone (i : Nat) : Nat :=
  if isAt line i '(' then
    if !nanpGroup line (i + 1) 3 || !isAt line (i + 4) ')' then 0
    else
      matchNANPTail line (if isAt line (i + 5) ' ' then i + 6 else i + 5)
        fun c => c == '-' || c == ' ' || c == '.'
  else if !nanpGroup line i 3 || !(isAt line (i + 3) '-' || isAt line (i + 3) '.') then 0
  else matchNANPTail line (i + 4) (· == byteAt line (i + 3))

def matchKeyedPhone (i : Nat) : Nat :=
  let first := min maxPhoneGroup (spanDigits line i)
  let j := i + first
  if isDigitAt line j then
    let digits := first + spanDigits line j
    if digits < minKeyedDigits || maxPhoneDigits < digits then 0 else j + spanDigits line j
  else
    let found := matchPhoneGroups line j first false
    let (stop, more) := if found.1 == 0 then (j, first) else found
    if more < minKeyedDigits || maxPhoneDigits < more then 0 else stop

def groupedRun (quoted : Bool) : UInt8 → Bytes → Nat × Nat
  | _, [] => (0, 0)
  | prev, c :: t =>
    if isASCIIDigit c then
      let r := groupedRun quoted c t
      (r.1 + 1, r.2 + 1)
    else if (c == '-' || c == '.' || c == ' ' && quoted) && firstIs t isASCIIDigit &&
        isASCIIDigit prev then
      let r := groupedRun quoted c t
      (r.1, r.2 + 1)
    else (0, 0)

def matchGroupedDigits (i minDigits maxDigits : Nat) : Nat :=
  let quoted := 0 < i && isQuote (byteAt line (i - 1))
  let r := groupedRun quoted 0 (line.drop i)
  if r.1 < minDigits || maxDigits < r.1 then 0 else i + r.2

def matchKeyedIDNumber (i : Nat) : Nat := matchGroupedDigits line i 6 15

def matchKeyedOTP (i : Nat) : Nat := matchGroupedDigits line i 4 8

def matchSessionNumber (i : Nat) : Nat :=
  if spanDigits line i < 10 then 0 else i + spanDigits line i

def decimalValue (s : Bytes) : Nat := s.foldl (fun v c => v * 10 + (c.toNat - 0x30)) 0

def atoiN (i k : Nat) : Nat := decimalValue (slice line i (i + k))

def readDigits (i max : Nat) : Option (Nat × Nat) :=
  let w := min max (spanDigits line i)
  if w == 0 then none else some (decimalValue (slice line i (i + w)), i + w)

def plausibleYear (y : Nat) : Bool := 1900 ≤ y && y ≤ 2099

def plausibleDayMonth (a b : Nat) : Bool :=
  1 ≤ a && 1 ≤ b && (a ≤ 31 && b ≤ 12 || a ≤ 12 && b ≤ 31)

def isDateSep (c : UInt8) : Bool := c == '/' || c == '.' || c == '-'

def skipSeconds (k : Nat) : Nat :=
  if isAt line k ':' && digitGroup line (k + 1) 2 then
    if (isAt line (k + 3) '.' || isAt line (k + 3) ',') && isDigitAt line (k + 4) then
      k + 4 + spanDigits line (k + 4)
    else k + 3
  else k

/-- The end of a zone: `Z`, or an offset with or without a colon. -/
def skipZone (k : Nat) : Nat :=
  if isAt line k 'Z' || isAt line k 'z' then k + 1
  else if (isAt line k '+' || isAt line k '-') && digitGroup line (k + 1) 2 then
    if isAt line (k + 3) ':' && digitGroup line (k + 4) 2 then k + 6
    else if digitGroup line (k + 3) 2 then k + 5
    else k + 3
  else k

def skipTimeOfDay (j : Nat) : Nat :=
  if !(isAt line j 'T' || isAt line j 't' || isAt line j ' ') then j
  else if !digitGroup line (j + 1) 2 || !isAt line (j + 3) ':' || !digitGroup line (j + 4) 2 then j
  else skipZone line (skipSeconds line (j + 6))

def matchISODate (i : Nat) : Nat :=
  let year := atoiN line i 4
  let j := i + 4
  if !firstIs (line.drop j) isDateSep then 0
  else if !digitGroup line (j + 1) 2 || !isAt line (j + 3) (byteAt line j) ||
      !digitGroup line (j + 4) 2 then 0
  else
    let month := atoiN line (j + 1) 2
    let day := atoiN line (j + 4) 2
    if !plausibleYear year || month < 1 || 12 < month || day < 1 || 31 < day then 0
    else skipTimeOfDay line (j + 6)

def matchKeyedDate (i : Nat) : Nat :=
  if digitGroup line i 4 then matchISODate line i
  else
    match readDigits line i 2 with
    | none => 0
    | some (a, j) =>
      if !firstIs (line.drop j) isDateSep then 0
      else
        match readDigits line (j + 1) 2 with
        | none => 0
        | some (b, j') =>
          if !isAt line j' (byteAt line j) || !digitGroup line (j' + 1) 4 then 0
          else if !plausibleYear (atoiN line (j' + 1) 4) || !plausibleDayMonth a b then 0
          else j' + 5

end PiiShield
