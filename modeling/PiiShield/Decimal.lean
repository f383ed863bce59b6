import Mathlib.Algebra.Order.Ring.Int
import PiiShield.Bytes

/-! Decimal numerals of 64-bit integers, written and read as Go's `strconv` does. -/

namespace PiiShield

variable {fuel n : Nat}

def decimalDigit (n : Nat) : UInt8 := .ofNat (0x30 + n)

def decimalFrom : Nat → Nat → Bytes → Bytes
  | 0, _, acc => acc
  | fuel + 1, n, acc =>
    if n < 10 then decimalDigit n :: acc else decimalFrom fuel (n / 10) (decimalDigit (n % 10) :: acc)

def formatNat (n : Nat) : Bytes := decimalFrom (n + 1) n []

def formatInt (i : Int64) : Bytes :=
  if i.toInt < 0 then chr '-' :: formatNat i.toInt.natAbs else formatNat i.toInt.toNat

def parseNat (s : Bytes) : Nat := s.foldl (fun n c => n * 10 + (c.toNat - 0x30)) 0

def parseInt (s : Bytes) : Int64 :=
  let negative := firstIs s (· == '-')
  let digits := if firstIs s (fun c => c == '-' || c == '+') then s.drop 1 else s
  if digits.isEmpty || !digits.all isASCIIDigit then 0
  else if negative then
    if 2 ^ 63 < parseNat digits then Int64.minValue else .ofInt (-(parseNat digits : Int))
  else if 2 ^ 63 ≤ parseNat digits then Int64.maxValue
  else .ofInt (parseNat digits)

def atoi (s : Bytes) : Option Int :=
  let negative := firstIs s (· == chr '-')
  let digits := if negative || firstIs s (· == chr '+') then s.drop 1 else s
  let n : Int := if negative then -(parseNat digits : Int) else parseNat digits
  if digits.isEmpty || !digits.all isASCIIDigit || n < -2 ^ 63 || 2 ^ 63 ≤ n then none else some n

theorem toNat_decimalDigit (h : n < 10) : (decimalDigit n).toNat = 0x30 + n := by
  simp only [decimalDigit, UInt8.toNat_ofNat']
  omega

theorem isASCIIDigit_decimalDigit (h : n < 10) : isASCIIDigit (decimalDigit n) = true := by
  have hn := toNat_decimalDigit h
  simp only [isASCIIDigit, Bool.and_eq_true, decide_eq_true_eq, UInt8.le_iff_toNat_le, hn]
  show 48 ≤ 0x30 + n ∧ 0x30 + n ≤ 57
  omega

theorem foldl_decimalFrom (h : n < fuel) (acc : Bytes) :
    (decimalFrom fuel n acc).foldl (fun n c => n * 10 + (c.toNat - 0x30)) 0 =
      acc.foldl (fun n c => n * 10 + (c.toNat - 0x30)) n := by
  induction fuel generalizing n acc with
  | zero => omega
  | succ fuel ih =>
    grind [decimalFrom, toNat_decimalDigit]

theorem parseNat_formatNat (n : Nat) : parseNat (formatNat n) = n := foldl_decimalFrom (by omega) []

theorem all_decimalFrom {acc : Bytes} (h : acc.all isASCIIDigit = true) :
    (decimalFrom fuel n acc).all isASCIIDigit = true := by
  induction fuel generalizing n acc with
  | zero => exact h
  | succ fuel ih =>
    grind [decimalFrom, isASCIIDigit_decimalDigit, Bool.and_self]

theorem decimalFrom_ne_nil {acc : Bytes} (h : 0 < fuel ∨ acc ≠ []) : decimalFrom fuel n acc ≠ [] := by
  induction fuel generalizing n acc with
  | zero => exact h.resolve_left (by omega)
  | succ fuel ih =>
    rw [decimalFrom]
    split
    · simp
    exact ih (.inr (by simp))

theorem formatNat_spec (n : Nat) : formatNat n ≠ [] ∧ (formatNat n).all isASCIIDigit = true :=
  ⟨decimalFrom_ne_nil (.inl (by omega)), all_decimalFrom rfl⟩

theorem firstIs_formatNat (n : Nat) {p : UInt8 → Bool} (hp : ∀ c, isASCIIDigit c = true → p c = false) :
    firstIs (formatNat n) p = false := by
  obtain ⟨-, hall⟩ := formatNat_spec n
  generalize formatNat n = s at hall
  match s with
  | [] => rfl
  | c :: t =>
    rw [List.all_cons, Bool.and_eq_true] at hall
    exact hp c hall.1

theorem not_sign_of_isASCIIDigit {c : UInt8} (h : isASCIIDigit c = true) :
    (c == chr '-') = false ∧ (c == chr '+') = false := by
  constructor <;> (rw [beq_eq_false_iff_ne]; rintro rfl; exact absurd h (by decide))

theorem parseInt_formatInt (i : Int64) : parseInt (formatInt i) = i := by
  have hlo := i.le_toInt
  have hhi := i.toInt_lt
  unfold formatInt
  split
  · next hneg =>
    obtain ⟨hne, hall⟩ := formatNat_spec i.toInt.natAbs
    have hempty : (formatNat i.toInt.natAbs).isEmpty = false := by simpa using hne
    have hle : ¬ 2 ^ 63 < i.toInt.natAbs := by omega
    have hval : -(i.toInt.natAbs : Int) = i.toInt := by omega
    simp only [parseInt, firstIs, List.head?_cons, Option.any_some, beq_self_eq_true, Bool.true_or, if_true,
      List.drop_succ_cons, List.drop_zero, hempty, hall, Bool.not_true, Bool.or_self, Bool.false_eq_true,
      if_false, parseNat_formatNat, hle, hval, Int64.ofInt_toInt]
  · next hpos =>
    obtain ⟨hne, hall⟩ := formatNat_spec i.toInt.toNat
    have hempty : (formatNat i.toInt.toNat).isEmpty = false := by simpa using hne
    have hlt : ¬ 2 ^ 63 ≤ i.toInt.toNat := by omega
    have hval : (i.toInt.toNat : Int) = i.toInt := by omega
    have hminus := firstIs_formatNat i.toInt.toNat (p := (· == chr '-')) fun c hc => (not_sign_of_isASCIIDigit hc).1
    have hsign := firstIs_formatNat i.toInt.toNat (p := fun c => c == chr '-' || c == chr '+') fun c hc => by
      rw [(not_sign_of_isASCIIDigit hc).1, (not_sign_of_isASCIIDigit hc).2, Bool.or_self]
    simp only [parseInt, hminus, hsign, hempty, hall, Bool.not_true, Bool.or_self, Bool.false_eq_true,
      if_false, parseNat_formatNat, hlt, hval, Int64.ofInt_toInt]

theorem atoi_formatNat (h : n < 2 ^ 63) : atoi (formatNat n) = some (n : Int) := by
  obtain ⟨hne, hdigits⟩ := formatNat_spec n
  have hminus : firstIs (formatNat n) (· == chr '-') = false :=
    firstIs_formatNat n fun c hc => by simpa using (not_sign_of_isASCIIDigit hc).1
  have hplus : firstIs (formatNat n) (· == chr '+') = false :=
    firstIs_formatNat n fun c hc => by simpa using (not_sign_of_isASCIIDigit hc).2
  have hempty : (formatNat n).isEmpty = false := by simpa using hne
  simp_all [atoi, parseNat_formatNat]

theorem isASCII_of_isASCIIDigit {c : UInt8} (h : isASCIIDigit c = true) : isASCII c = true := by
  simp only [isASCIIDigit, Bool.and_eq_true, chr_def] at h
  simp only [isASCII, decide_eq_true_eq]
  grind

theorem formatInt_ascii (i : Int64) : (formatInt i).all isASCII = true := by
  grind [formatNat, isASCII, List.all_eq_true, isASCII_of_isASCIIDigit, formatNat_spec, formatInt]

end PiiShield
