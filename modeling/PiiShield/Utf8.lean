import PiiShield.Bytes

/-! UTF-8 as Go's `unicode/utf8` and `strings` read it. A rune is a number; a byte
that starts no encoding decodes to `runeError` with width one. -/

namespace PiiShield

def runeError : Nat := 0xFFFD

def isCont (b : UInt8) : Bool := 0x80 ≤ b && b ≤ 0xBF

def secondOk (b0 b1 : UInt8) : Bool :=
  (if b0 == 0xE0 then 0xA0 else if b0 == 0xF0 then 0x90 else 0x80) ≤ b1 &&
    b1 ≤ (if b0 == 0xED then 0x9F else if b0 == 0xF4 then 0x8F else 0xBF)

/-- Go's `utf8.DecodeRuneInString`: the first rune and its width. -/
def decodeRune : Bytes → Nat × Nat
  | [] => (runeError, 0)
  | b0 :: t =>
    if b0 < 0x80 then (b0.toNat, 1)
    else if 0xC2 ≤ b0 && b0 ≤ 0xDF then
      match t with
      | b1 :: _ =>
        if isCont b1 then ((b0.toNat - 0xC0) * 64 + (b1.toNat - 0x80), 2) else (runeError, 1)
      | _ => (runeError, 1)
    else if 0xE0 ≤ b0 && b0 ≤ 0xEF then
      match t with
      | b1 :: b2 :: _ =>
        if secondOk b0 b1 && isCont b2 then
          ((b0.toNat - 0xE0) * 4096 + (b1.toNat - 0x80) * 64 + (b2.toNat - 0x80), 3)
        else (runeError, 1)
      | _ => (runeError, 1)
    else if 0xF0 ≤ b0 && b0 ≤ 0xF4 then
      match t with
      | b1 :: b2 :: b3 :: _ =>
        if secondOk b0 b1 && isCont b2 && isCont b3 then
          ((b0.toNat - 0xF0) * 262144 + (b1.toNat - 0x80) * 4096 +
            (b2.toNat - 0x80) * 64 + (b3.toNat - 0x80), 4)
        else (runeError, 1)
      | _ => (runeError, 1)
    else (runeError, 1)

def isScalar (r : Nat) : Bool := r < 0xD800 || 0xE000 ≤ r && r ≤ 0x10FFFF

/-- Go's `utf8.AppendRune`: what is no scalar value is written as U+FFFD. -/
def encodeRune (r : Nat) : Bytes :=
  let r := if isScalar r then r else runeError
  if r < 0x80 then [UInt8.ofNat r]
  else if r < 0x800 then [UInt8.ofNat (0xC0 + r / 64), UInt8.ofNat (0x80 + r % 64)]
  else if r < 0x10000 then
    [UInt8.ofNat (0xE0 + r / 4096), UInt8.ofNat (0x80 + r / 64 % 64), UInt8.ofNat (0x80 + r % 64)]
  else
    [UInt8.ofNat (0xF0 + r / 262144), UInt8.ofNat (0x80 + r / 4096 % 64),
      UInt8.ofNat (0x80 + r / 64 % 64), UInt8.ofNat (0x80 + r % 64)]

variable (s : Bytes)

def decodeLastRune : Nat :=
  -- The widest suffix, of one to four bytes, that is one whole encoding.
  let whole (k : Nat) : Option Nat :=
    let d := decodeRune (s.drop (s.length - k))
    if k ≤ s.length && d.2 == k && d != (runeError, 1) then some d.1 else none
  ((whole 1).or ((whole 2).or ((whole 3).or (whole 4)))).getD runeError

/-- The decoded runes of a string with their widths, as a `range` loop sees them. The
counter skips the bytes of the rune just read. -/
def runesFrom : Nat → Bytes → List (Nat × Nat)
  | _, [] => []
  | 0, b :: t => decodeRune (b :: t) :: runesFrom ((decodeRune (b :: t)).2 - 1) t
  | k + 1, _ :: t => runesFrom k t

def runes : List Nat := (runesFrom 0 s).map Prod.fst

def runeCount : Nat := (runesFrom 0 s).length

def utf8Valid : Bool := (runesFrom 0 s).all (· != (runeError, 1))

/-- Go's `strings.ToValidUTF8` with U+FFFD: each run of invalid bytes becomes one U+FFFD.
`bad` says whether the run has been written already. -/
def toValidUTF8From (bad : Bool) : List (Nat × Nat) → Bytes
  | [] => []
  | (r, w) :: ds =>
    if r == runeError && w == 1 then
      (if bad then [] else encodeRune runeError) ++ toValidUTF8From true ds
    else encodeRune r ++ toValidUTF8From false ds

def toValidUTF8 : Bytes := toValidUTF8From false (runesFrom 0 s)

end PiiShield
