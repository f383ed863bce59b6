import Mathlib.Data.List.DropRight
import Mathlib.Data.List.Infix
import Mathlib.Order.Lattice

/-! Byte strings and the string functions the scanner calls on them. A Go string
is an arbitrary list of bytes; an index that Go reports as `-1` is `none` here,
except where the sentinel itself enters the arithmetic. -/

namespace PiiShield

abbrev Bytes := List UInt8

instance byteOrder : LinearOrder UInt8 where
  le_refl := UInt8.le_refl
  le_trans _ _ _ := UInt8.le_trans
  le_antisymm _ _ := UInt8.le_antisymm
  le_total := UInt8.le_total
  lt_iff_le_not_ge a b := by
    rw [UInt8.not_le]
    exact ⟨fun h => ⟨UInt8.le_of_lt h, h⟩, fun h => h.2⟩
  toDecidableLE := inferInstance

@[coe] def chr (c : Char) : UInt8 := UInt8.ofNat c.toNat

@[simp, grind =] theorem chr_def (c : Char) : chr c = UInt8.ofNat c.toNat := rfl

instance coeChar : Coe Char UInt8 := ⟨chr⟩

def bs (s : String) : Bytes := s.toByteArray.data.toList

def dquote : UInt8 := 0x22
def squote : UInt8 := 0x27
def backslash : UInt8 := 0x5c
def backtick : UInt8 := 0x60
def newline : UInt8 := 0x0a

variable (s : Bytes)

def indexByte (c : UInt8) : Option Nat := s.idxOf? c

def lastIndexByte (c : UInt8) : Option Nat :=
  (s.reverse.idxOf? c).map (s.length - 1 - ·)

/-- The value Go returns for a search: `-1` when nothing was found. -/
def goIndex : Option Nat → Int
  | some i => i
  | none => -1

def hasPrefix (s p : Bytes) : Bool := p.isPrefixOf s

def hasSuffix (s p : Bytes) : Bool := p.isSuffixOf s

def index (sub : Bytes) : Bytes → Option Nat
  | [] => if sub.isEmpty then some 0 else none
  | c :: s => if sub.isPrefixOf (c :: s) then some 0 else (index sub s).map (· + 1)

def contains (s sub : Bytes) : Bool := (index sub s).isSome

/-- Go's `strings.ContainsAny` for a set of ASCII characters. -/
def containsAny (s chars : Bytes) : Bool := s.any chars.contains

def countByte (c : UInt8) : Nat := s.count c

/-- Go's `strings.TrimRight` for a set of ASCII characters. -/
def trimRight (s cutset : Bytes) : Bytes := s.rdropWhile cutset.contains

def trimSuffix (s p : Bytes) : Bytes :=
  if hasSuffix s p then s.take (s.length - p.length) else s

def cut (s sep : Bytes) : Option (Bytes × Bytes) :=
  (index sep s).map fun i => (s.take i, s.drop (i + sep.length))

/-- The slice `s[i:j]` of Go, for bounds the caller has checked. -/
def slice (i j : Nat) : Bytes := (s.take j).drop i

def byteAt (i : Nat) : UInt8 := s.getD i 0

theorem byteAt_drop (n i : Nat) : byteAt (s.drop n) i = byteAt s (n + i) := by
  simp [byteAt, List.getD_eq_getElem?_getD]

/-- The last byte of `s`, for a string the caller has checked is not empty. -/
def lastByte : UInt8 := s.getLastD 0

def firstIs (p : UInt8 → Bool) : Bool := s.head?.any p

theorem run_cons_inj {p : UInt8 → Bool} {g g' r r' : Bytes} {c c' : UInt8} (hg : g.all p = true)
    (hg' : g'.all p = true) (hc : p c = false) (hc' : p c' = false)
    (h : g ++ c :: r = g' ++ c' :: r') : g = g' ∧ c = c' ∧ r = r' := by
  induction g generalizing g' with
  | nil =>
    cases g' with
    | nil => simpa using h
    | cons b g' =>
      simp_all
  | cons a g ih =>
    simp only [List.all_cons, Bool.and_eq_true] at hg
    cases g' with
    | nil | cons b g' =>
      grind

variable (c : UInt8)

def isASCIILetter : Bool := 'a' ≤ c && c ≤ 'z' || 'A' ≤ c && c ≤ 'Z'

def isASCIIDigit : Bool := '0' ≤ c && c ≤ '9'

def isAlnumByte : Bool := isASCIILetter c || isASCIIDigit c

def isUpperASCII : Bool := 'A' ≤ c && c ≤ 'Z'

def isLowerASCII : Bool := 'a' ≤ c && c ≤ 'z'

def isHexByte : Bool :=
  '0' ≤ c && c ≤ '9' || 'a' ≤ c && c ≤ 'f' || 'A' ≤ c && c ≤ 'F'

def hexDigit (n : Nat) : UInt8 := if n < 10 then .ofNat (0x30 + n) else .ofNat (0x57 + n)

def lowerASCIIByte (b : UInt8) : UInt8 := if isUpperASCII b then b + 0x20 else b

def isQuote : Bool := c == dquote || c == squote

def isSpaceByte : Bool := c == ' '

def isBlank : Bool := c == ' ' || c == '\t'

/-- Go's `utf8.RuneSelf`: the bytes below it are characters of their own. -/
def isASCII : Bool := c < 0x80

def hasNonASCII : Bool := s.any (!isASCII ·)

def hasASCII : Bool := s.any isASCII

def isASCIIString : Bool := s.all isASCII

/-- How many bytes of `s` are ASCII; every cut and every re-encoding keeps or lowers it. -/
def asciiCount : Nat := s.countP isASCII

theorem forall_byte {P : UInt8 → Prop} (h : ∀ n : Fin 256, P (.ofNat n)) (c : UInt8) : P c := by
  have hc := h ⟨c.toNat, c.toNat_lt⟩
  rwa [UInt8.ofNat_toNat] at hc

def Diverge (a b : Bytes) : Prop :=
  ∃ p x y a' b', a = p ++ x :: a' ∧ b = p ++ y :: b' ∧ x ≠ y

namespace Diverge

variable {a b : Bytes}

theorem ne (h : Diverge a b) : a ≠ b := by
  obtain ⟨p, x, y, a', b', rfl, rfl, hxy⟩ := h
  simpa using fun h => absurd h hxy

theorem append_right (h : Diverge a b) (u v : Bytes) : Diverge (a ++ u) (b ++ v) := by
  obtain ⟨p, x, y, a', b', rfl, rfl, hxy⟩ := h
  exact ⟨p, x, y, a' ++ u, b' ++ v, by simp, by simp, hxy⟩

theorem append_left (h : Diverge a b) (u : Bytes) : Diverge (u ++ a) (u ++ b) := by
  obtain ⟨p, x, y, a', b', rfl, rfl, hxy⟩ := h
  exact ⟨u ++ p, x, y, a', b', by simp, by simp, hxy⟩

theorem of_cons {x y : UInt8} (h : x ≠ y) (a b : Bytes) : Diverge (x :: a) (y :: b) :=
  ⟨[], x, y, a, b, rfl, rfl, h⟩

theorem symm (h : Diverge a b) : Diverge b a := by
  obtain ⟨p, x, y, a', b', ha, hb, hxy⟩ := h
  exact ⟨p, y, x, b', a', hb, ha, hxy.symm⟩

theorem not_isPrefix (h : Diverge a b) : ¬ a <+: b := by
  rintro ⟨t, rfl⟩
  obtain ⟨p, x, y, a', b', rfl, hb, hxy⟩ := h
  simp_all

theorem or_isPrefix (a b : Bytes) : a <+: b ∨ b <+: a ∨ Diverge a b := by
  induction a generalizing b with
  | nil => simp
  | cons x a ih =>
    match b with
    | [] => simp
    | y :: b =>
      by_cases hxy : x = y
      · subst hxy
        rcases ih b with h | h | h
        · exact .inl (by simpa using h)
        · exact .inr (.inl (by simpa using h))
        exact .inr (.inr (h.append_left [x]))
      exact .inr (.inr (.of_cons hxy a b))

end Diverge

end PiiShield
