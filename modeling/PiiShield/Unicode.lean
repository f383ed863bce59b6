import PiiShield.Utf8

/-! Unicode character classes and case mapping. ASCII is spelled out; the tables
for all other runes are a parameter, so what is proved holds for any version of
the Unicode database. -/

namespace PiiShield

/-- The tables of package `unicode` for runes from U+0080 on. -/
structure Unicode where
  letter : Nat → Bool
  digit : Nat → Bool
  upper : Nat → Bool
  lower : Nat → Bool
  punct : Nat → Bool
  symbol : Nat → Bool
  toLower : Nat → Nat

namespace Unicode

variable (U : Unicode)

variable (r : Nat)

def isLetter : Bool := if r < 0x80 then isASCIILetter (.ofNat r) else U.letter r

def isDigit : Bool := if r < 0x80 then isASCIIDigit (.ofNat r) else U.digit r

def isUpper : Bool := if r < 0x80 then isUpperASCII (.ofNat r) else U.upper r

def isLower : Bool := if r < 0x80 then isLowerASCII (.ofNat r) else U.lower r

def isPunct : Bool :=
  if r < 0x80 then (bs "!\"#%&'()*,-./:;?@[\\]_\x7b\x7d").contains (.ofNat r) else U.punct r

def isSymbol : Bool :=
  if r < 0x80 then (bs "$+<=>^\x60|~").contains (.ofNat r) else U.symbol r

def lowerRune : Nat :=
  if r < 0x80 then (lowerASCIIByte (.ofNat r)).toNat else U.toLower r

def toLowerString (s : Bytes) : Bytes := (runes s).flatMap fun r => encodeRune (U.lowerRune r)

/-- The tables with no character beyond ASCII in any class. -/
def ascii : Unicode :=
  ⟨fun _ => false, fun _ => false, fun _ => false, fun _ => false, fun _ => false, fun _ => false, id⟩

end Unicode

def isSpaceRune (r : Nat) : Bool :=
  0x09 ≤ r && r ≤ 0x0D || r == 0x20 || r == 0x85 || r == 0xA0 || r == 0x1680 ||
    0x2000 ≤ r && r ≤ 0x200A || r == 0x2028 || r == 0x2029 || r == 0x202F || r == 0x205F ||
    r == 0x3000

def chunksOf : List (Nat × Nat) → Bytes → List Bytes
  | [], _ => []
  | (_, w) :: ds, s => s.take w :: chunksOf ds (s.drop w)

def chunks (s : Bytes) : List Bytes := chunksOf (runesFrom 0 s) s

def trimSpace (s : Bytes) : Bytes :=
  let space (c : Bytes) : Bool := isSpaceRune (decodeRune c).1
  (((chunks s).dropWhile space).rdropWhile space).flatten

def trimRightFunc (s : Bytes) (f : Nat → Bool) : Bytes :=
  ((chunks s).rdropWhile fun c => f (decodeRune c).1).flatten

/-- Whether `r` is in the folding orbit of the ASCII character `c`: besides the two
cases, the Kelvin sign folds to `k` and the long s to `s`. -/
def foldsTo (r : Nat) (c : UInt8) : Bool :=
  let l := lowerASCIIByte c
  if r < 0x80 then lowerASCIIByte (.ofNat r) == l
  else r == 0x212A && l == 'k' || r == 0x17F && l == 's'

def equalFold (s lit : Bytes) : Bool :=
  (runes s).length == lit.length && ((runes s).zip lit).all fun p => foldsTo p.1 p.2

/-- The ASCII separators of the tokenizer, `" \t,;[]{}()<>"`. -/
def sepTable : Bytes := bs " \t,;[]\x7b\x7d()<>"

def sepRunes : List Nat :=
  [0x3010, 0x3011, 0x300C, 0x300D, 0x300E, 0x300F, 0x3014, 0x3015, 0x3008, 0x3009, 0x300A, 0x300B,
    0x3016, 0x3017, 0xFF08, 0xFF09, 0xFF3B, 0xFF3D, 0xFF5B, 0xFF5D]

def isSepRune (r : Nat) : Bool :=
  if r < 0x80 then sepTable.contains (.ofNat r) else sepRunes.contains r

def anyRune (s : Bytes) (f : Nat → Bool) : Bool := (runes s).any f

def fullWidthColon : Bytes := [0xEF, 0xBC, 0x9A]

end PiiShield
