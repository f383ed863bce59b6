import Mathlib.Data.List.Lex
import PiiShield.Decimal

/-! Instants of the years 1 to 9999 in UTC and the texts `time.RFC3339Nano` gives them, which
leave out the zeros at the end of the fraction. -/

namespace PiiShield

variable {a b width : Nat}

def pad : Nat → Nat → Bytes
  | 0, _ => []
  | width + 1, n => pad width (n / 10) ++ [decimalDigit (n % 10)]

variable (year : Nat)

def isLeap : Bool := year % 4 == 0 && (year % 100 != 0 || year % 400 == 0)

def daysIn (leap : Bool) (month : Nat) : Nat :=
  if month == 2 then if leap then 29 else 28
  else if month == 4 || month == 6 || month == 9 || month == 11 then 30
  else 31

variable (day : Nat)

def yearOf : Nat × Nat :=
  let centuries := day % 146097 / 36524
  let century := centuries - centuries / 4
  let rest := day % 146097 - 36524 * century
  let years := rest % 1461 / 365
  let year := years - years / 4
  (400 * (day / 146097) + 100 * century + 4 * (rest / 1461) + year + 1, rest % 1461 - 365 * year)

/-- The month and the day in it, for a day of a year from `month` on. -/
def monthFrom (leap : Bool) : Nat → Nat → Nat → Nat × Nat
  | 0, month, day => (month, day + 1)
  | fuel + 1, month, day =>
    if day < daysIn leap month then (month, day + 1) else monthFrom leap fuel (month + 1) (day - daysIn leap month)

def dateText : Bytes :=
  let (year, yday) := yearOf day
  let (month, mday) := monthFrom (isLeap year) 11 1 yday
  pad 4 year ++ (chr '-' :: pad 2 month) ++ (chr '-' :: pad 2 mday)

def clockText (second : Nat) : Bytes :=
  (chr 'T' :: pad 2 (second / 3600)) ++ (chr ':' :: pad 2 (second / 60 % 60)) ++ (chr ':' :: pad 2 (second % 60))

def secondText (second : Nat) : Bytes := dateText (second / 86400) ++ clockText (second % 86400)

def fractionDigits (nanos : Nat) : Bytes := (pad 9 nanos).rdropWhile (· == chr '0')

def fractionText (nanos : Nat) : Bytes :=
  if (fractionDigits nanos).isEmpty then [] else chr '.' :: fractionDigits nanos

def lastSecond : Nat := 3652059 * 86400

structure Instant where
  nanos : Nat
  within : nanos < lastSecond * 10 ^ 9
  deriving DecidableEq

namespace Instant

theorem within_zero : 0 < lastSecond * 10 ^ 9 := by decide

theorem within_first : 10 ^ 9 < lastSecond * 10 ^ 9 := by decide

theorem within_400 : 400 * 10 ^ 9 < lastSecond * 10 ^ 9 := by decide

theorem within_800 : 800 * 10 ^ 9 < lastSecond * 10 ^ 9 := by decide

theorem within_newYear : 739616 * 86400 * 10 ^ 9 < lastSecond * 10 ^ 9 := by decide

def second (t : Instant) : Nat := t.nanos / 10 ^ 9

def fraction (t : Instant) : Nat := t.nanos % 10 ^ 9

def format (t : Instant) : Bytes := secondText t.second ++ (fractionText t.fraction ++ [chr 'Z'])

end Instant

theorem append_lt_append_iff {a b x y : Bytes} (h : a.length = b.length) :
    a ++ x < b ++ y ↔ a < b ∨ a = b ∧ x < y := by
  induction a generalizing b with
  | nil =>
    rw [List.eq_nil_of_length_eq_zero h.symm]
    simp
  | cons c a ih =>
    match b with
    | [] => cases h
    | d :: b =>
      have hlen : a.length = b.length := Nat.succ.inj h
      rw [List.cons_append, List.cons_append, List.cons_lt_cons_iff, List.cons_lt_cons_iff, ih hlen,
        List.cons.injEq]
      tauto

theorem eq_iff_of_lt_iff {a b : Bytes} {x y : Nat} (hlt : a < b ↔ x < y) (hgt : b < a ↔ y < x) : a = b ↔ x = y := by
  rw [eq_iff_le_not_lt, eq_iff_le_not_lt, ← not_lt, ← not_lt, hlt, hgt]

theorem cons_lt_cons_self_iff {c : UInt8} {x y : Bytes} : c :: x < c :: y ↔ x < y := by simp

@[simp] theorem length_pad (width n : Nat) : (pad width n).length = width := by
  induction width generalizing n with
  | zero => rfl
  | succ width ih => simp [pad, ih]

theorem pad_eq_pad_iff (ha : a < 10 ^ width) (hb : b < 10 ^ width) :
    pad width a = pad width b ↔ a = b := by
  refine ⟨fun h => ?_, fun h => by rw [h]⟩
  induction width generalizing a b with
  | zero =>
    rw [pow_zero] at ha hb
    omega
  | succ width ih =>
    rw [pow_succ] at ha hb
    obtain ⟨hpre, hlast⟩ := List.append_inj' h rfl
    have hdigit := congrArg UInt8.toNat (List.singleton_inj.mp hlast)
    grind [toNat_decimalDigit]

theorem pad_lt_pad_iff (ha : a < 10 ^ width) (hb : b < 10 ^ width) :
    pad width a < pad width b ↔ a < b := by
  induction width generalizing a b with
  | zero =>
    rw [pow_zero] at ha hb
    simp only [pad, List.not_lt_nil, false_iff]
    omega
  | succ width ih =>
    rw [pow_succ] at ha hb
    have hdigit : decimalDigit (a % 10) < decimalDigit (b % 10) ↔ a % 10 < b % 10 := by
      grind [UInt8.lt_iff_toNat_lt, toNat_decimalDigit]
    rw [pad, pad, append_lt_append_iff (by simp), ih (by omega) (by omega), pad_eq_pad_iff (by omega) (by omega),
      List.cons_lt_cons_iff, hdigit]
    simp only [List.not_lt_nil, and_false, or_false]
    omega

def daysBeforeYear : Nat :=
  365 * (year - 1) + (year - 1) / 4 - (year - 1) / 100 + (year - 1) / 400

theorem daysBeforeYear_cycles {q c f o : Nat} (hc : c ≤ 3) (hf : f ≤ 24) (ho : o ≤ 3) :
    daysBeforeYear (400 * q + 100 * c + 4 * f + o + 1) = 146097 * q + 36524 * c + 1461 * f + 365 * o := by
  grind [daysBeforeYear, Nat.add_sub_cancel]

theorem daysBeforeYear_le_succ : daysBeforeYear year ≤ daysBeforeYear (year + 1) := by
  cases year with
  | zero => decide
  | succ y =>
    have h4 : y / 4 ≤ (y + 1) / 4 := Nat.div_le_div_right (Nat.le_succ y)
    have h400 : y / 400 ≤ (y + 1) / 400 := Nat.div_le_div_right (Nat.le_succ y)
    grind [daysBeforeYear]

theorem lt_daysBeforeYear_succ {q c f o r : Nat} (hc : c ≤ 3) (hf : f ≤ 24) (ho : o ≤ 3)
    (hr : r < 365 ∨ o = 3 ∧ r < 366)
    (hlast : 1461 * f + (365 * o + r) < 36524 ∨ c = 3 ∧ 1461 * f + (365 * o + r) < 36525) :
    146097 * q + 36524 * c + 1461 * f + 365 * o + r < daysBeforeYear (400 * q + 100 * c + 4 * f + o + 1 + 1) := by
  by_cases ho3 : o < 3
  · have hnext : 400 * q + 100 * c + 4 * f + o + 1 + 1 = 400 * q + 100 * c + 4 * f + (o + 1) + 1 := by omega
    rw [hnext, daysBeforeYear_cycles hc hf ho3]
    omega
  by_cases hf24 : f < 24
  · have hnext : 400 * q + 100 * c + 4 * f + o + 1 + 1 = 400 * q + 100 * c + 4 * (f + 1) + 0 + 1 := by omega
    rw [hnext, daysBeforeYear_cycles hc hf24 (Nat.zero_le 3)]
    omega
  by_cases hc3 : c < 3
  · have hnext : 400 * q + 100 * c + 4 * f + o + 1 + 1 = 400 * q + 100 * (c + 1) + 4 * 0 + 0 + 1 := by omega
    rw [hnext, daysBeforeYear_cycles hc3 (Nat.zero_le 24) (Nat.zero_le 3)]
    omega
  have hnext : 400 * q + 100 * c + 4 * f + o + 1 + 1 = 400 * (q + 1) + 100 * 0 + 4 * 0 + 0 + 1 := by omega
  rw [hnext, daysBeforeYear_cycles (Nat.zero_le 3) (Nat.zero_le 24) (Nat.zero_le 3)]
  omega

theorem yearOf_spec :
    1 ≤ (yearOf day).1 ∧ daysBeforeYear (yearOf day).1 + (yearOf day).2 = day ∧
      day < daysBeforeYear ((yearOf day).1 + 1) := by
  obtain ⟨q, r, hr, hq⟩ : ∃ q r, r < 146097 ∧ day = 146097 * q + r :=
    ⟨day / 146097, day % 146097, Nat.mod_lt _ (by omega), (Nat.div_add_mod _ _).symm⟩
  obtain ⟨c, r1, hc, hcentury, hr1, hc'⟩ : ∃ c r1, c ≤ 3 ∧ r / 36524 - r / 36524 / 4 = c ∧
      (r1 < 36524 ∨ c = 3 ∧ r1 < 36525) ∧ r = 36524 * c + r1 :=
    ⟨_, r - 36524 * (r / 36524 - r / 36524 / 4), by omega, rfl, by omega, by omega⟩
  obtain ⟨f, r2, hf, hr2, hf'⟩ : ∃ f r2, f ≤ 24 ∧ r2 < 1461 ∧ r1 = 1461 * f + r2 :=
    ⟨r1 / 1461, r1 % 1461, by omega, Nat.mod_lt _ (by omega), (Nat.div_add_mod _ _).symm⟩
  obtain ⟨o, r3, ho, hyear, hr3, ho'⟩ : ∃ o r3, o ≤ 3 ∧ r2 / 365 - r2 / 365 / 4 = o ∧
      (r3 < 365 ∨ o = 3 ∧ r3 < 366) ∧ r2 = 365 * o + r3 :=
    ⟨_, r2 - 365 * (r2 / 365 - r2 / 365 / 4), by omega, rfl, by omega, by omega⟩
  have hyearOf : yearOf day = (400 * q + 100 * c + 4 * f + o + 1, r3) := by
    simp_all [Nat.mod_eq_of_lt, Nat.mul_add_div, Nat.div_eq_of_lt, yearOf]
  have hday : day = 146097 * q + 36524 * c + 1461 * f + 365 * o + r3 := by
    rw [hq, hc', hf', ho']
    simp only [Nat.add_assoc]
  rw [hf', ho'] at hr1
  rw [hyearOf, hday]
  dsimp only
  refine ⟨Nat.le_add_left 1 _, ?_, lt_daysBeforeYear_succ hc hf ho hr3 hr1⟩
  rw [daysBeforeYear_cycles hc hf ho]

def daysBeforeMonth (leap : Bool) : Nat → Nat
  | 0 => 0
  | 1 => 0
  | month + 2 => daysBeforeMonth leap (month + 1) + daysIn leap (month + 1)

theorem daysBeforeMonth_le_succ (leap : Bool) (month : Nat) :
    daysBeforeMonth leap month ≤ daysBeforeMonth leap (month + 1) := by
  cases month with
  | zero => exact Nat.le_refl 0
  | succ month => exact Nat.le_add_right _ _

theorem monthFrom_spec (leap : Bool) (fuel month day : Nat) (hmonth : 1 ≤ month)
    (hday : daysBeforeMonth leap month + day < daysBeforeMonth leap (month + fuel + 1)) :
    month ≤ (monthFrom leap fuel month day).1 ∧ (monthFrom leap fuel month day).1 ≤ month + fuel ∧
      1 ≤ (monthFrom leap fuel month day).2 ∧ (monthFrom leap fuel month day).2 ≤ 31 ∧
      daysBeforeMonth leap (monthFrom leap fuel month day).1 + (monthFrom leap fuel month day).2 =
        daysBeforeMonth leap month + day + 1 ∧
      daysBeforeMonth leap month + day < daysBeforeMonth leap ((monthFrom leap fuel month day).1 + 1) := by
  have hlen (m : Nat) : daysIn leap m ≤ 31 := by
    unfold daysIn
    split <;> split <;> simp
  obtain ⟨m, rfl⟩ : ∃ m, month = m + 1 := ⟨month - 1, by omega⟩
  induction fuel generalizing day m with
  | zero =>
    grind [daysBeforeMonth, monthFrom]
  | succ fuel ih =>
    rw [monthFrom]
    by_cases hlt : day < daysIn leap (m + 1)
    · have := hlen (m + 1)
      rw [if_pos hlt]
      simp only [daysBeforeMonth]
      omega
    have hstep : daysBeforeMonth leap (m + 1 + 1) = daysBeforeMonth leap (m + 1) + daysIn leap (m + 1) := rfl
    grind

theorem daysBeforeYear_succ {year : Nat} (h : 1 ≤ year) :
    daysBeforeYear (year + 1) = daysBeforeYear year + daysBeforeMonth (isLeap year) 13 := by
  obtain ⟨y, rfl⟩ : ∃ y, year = y + 1 := ⟨year - 1, by omega⟩
  have h4 : (y + 1) / 4 = y / 4 + if (y + 1) % 4 = 0 then 1 else 0 := by split <;> omega
  have h100 : (y + 1) / 100 = y / 100 + if (y + 1) % 100 = 0 then 1 else 0 := by split <;> omega
  have h400 : (y + 1) / 400 = y / 400 + if (y + 1) % 400 = 0 then 1 else 0 := by split <;> omega
  have hlong : daysBeforeMonth true 13 = 366 := rfl
  have hshort : daysBeforeMonth false 13 = 365 := rfl
  rw [daysBeforeYear, daysBeforeYear, Nat.add_sub_cancel, Nat.add_sub_cancel, h4, h100, h400]
  cases hleap : isLeap (y + 1) with
  | true =>
    simp only [isLeap, Bool.and_eq_true, Bool.or_eq_true, beq_iff_eq, bne_iff_ne] at hleap
    rw [hlong]
    split_ifs <;> omega
  | false =>
    simp only [isLeap, Bool.and_eq_false_iff, Bool.or_eq_false_iff, beq_eq_false_iff_ne, bne_eq_false_iff_eq] at hleap
    rw [hshort]
    split_ifs <;> omega

theorem lt_iff_of_steps {size : Nat → Nat} (hsize : ∀ k, size k ≤ size (k + 1)) {j k x y : Nat}
    (hx : size j ≤ x ∧ x < size (j + 1)) (hy : size k ≤ y ∧ y < size (k + 1)) :
    x < y ↔ j < k ∨ j = k ∧ x < y := by
  have hmono {a b : Nat} (h : a ≤ b) : size a ≤ size b := monotone_nat_of_le_succ hsize h
  constructor
  · intro h
    by_contra hnot
    have hkj : k + 1 ≤ j ∨ j = k := by omega
    rcases hkj with hkj | rfl
    · have := hmono hkj
      omega
    omega
  grind

@[simp] theorem length_dateText : (dateText day).length = 10 := by simp [dateText]

theorem yearOf_lt {day : Nat} (hday : day < 3652059) : (yearOf day).1 < 10 ^ 4 := by
  by_contra hnot
  have := monotone_nat_of_le_succ daysBeforeYear_le_succ (Nat.le_of_not_lt hnot)
  have h9999 : daysBeforeYear (10 ^ 4) = 3652059 := rfl
  have := (yearOf_spec day).2.1
  omega

theorem exists_month : ∃ m d, monthFrom (isLeap (yearOf day).1) 11 1 (yearOf day).2 = (m, d) ∧
    m < 10 ^ 2 ∧ d < 10 ^ 2 ∧ 1 ≤ d ∧ daysBeforeMonth (isLeap (yearOf day).1) m + d = (yearOf day).2 + 1 ∧
      (yearOf day).2 < daysBeforeMonth (isLeap (yearOf day).1) (m + 1) := by
  obtain ⟨h1, h2, h3⟩ := yearOf_spec day
  rw [daysBeforeYear_succ h1] at h3
  have hstart : daysBeforeMonth (isLeap (yearOf day).1) 1 = 0 := rfl
  have hspec := monthFrom_spec (isLeap (yearOf day).1) 11 1 (yearOf day).2 (Nat.le_refl 1)
    (show _ < daysBeforeMonth _ 13 by rw [hstart]; omega)
  grind

theorem dateText_eq_append : dateText day = pad 4 (yearOf day).1 ++
    (chr '-' :: pad 2 (monthFrom (isLeap (yearOf day).1) 11 1 (yearOf day).2).1) ++
      (chr '-' :: pad 2 (monthFrom (isLeap (yearOf day).1) 11 1 (yearOf day).2).2) := rfl

theorem dateText_eq : dateText day = pad 4 (yearOf day).1 ++ (dateText day).drop 4 := by
  rw [dateText_eq_append, List.append_assoc, List.drop_left' (length_pad 4 _)]

theorem drop_dateText_lt_iff (hsame : (yearOf a).1 = (yearOf b).1) :
    (dateText a).drop 4 < (dateText b).drop 4 ↔ a < b := by
  obtain ⟨m, d, hm, hm', hd', hd, hsum, hnext⟩ := exists_month a
  obtain ⟨n, e, hn, hn', he', he, hsum', hnext'⟩ := exists_month b
  have hspec := (yearOf_spec a).2.1
  have hspec' := (yearOf_spec b).2.1
  have hdrop (day : Nat) : (dateText day).drop 4 =
      chr '-' :: pad 2 (monthFrom (isLeap (yearOf day).1) 11 1 (yearOf day).2).1 ++
        chr '-' :: pad 2 (monthFrom (isLeap (yearOf day).1) 11 1 (yearOf day).2).2 := by
    simp [dateText_eq_append]
  rw [hdrop, hdrop, hm, hn]
  rw [← hsame] at hsum' hnext' hspec'
  rw [List.cons_append, List.cons_append, cons_lt_cons_self_iff, append_lt_append_iff (by simp), pad_lt_pad_iff hm' hn',
    pad_eq_pad_iff hm' hn', cons_lt_cons_self_iff, pad_lt_pad_iff hd' he']
  have hyday : a < b ↔ (yearOf a).2 < (yearOf b).2 := by omega
  rw [hyday, lt_iff_of_steps (daysBeforeMonth_le_succ (isLeap (yearOf a).1)) (x := (yearOf a).2)
    ⟨by omega, hnext⟩ ⟨by omega, hnext'⟩]
  grind

theorem dateText_lt_dateText_iff (ha : a < 3652059) (hb : b < 3652059) :
    dateText a < dateText b ↔ a < b := by
  obtain ⟨-, hspec, hlt⟩ := yearOf_spec a
  obtain ⟨-, hspec', hlt'⟩ := yearOf_spec b
  rw [lt_iff_of_steps daysBeforeYear_le_succ (x := a) (y := b) ⟨by omega, hlt⟩ ⟨by omega, hlt'⟩,
    dateText_eq a, dateText_eq b, append_lt_append_iff (by simp), pad_lt_pad_iff (yearOf_lt ha) (yearOf_lt hb),
    pad_eq_pad_iff (yearOf_lt ha) (yearOf_lt hb)]
  exact or_congr_right (and_congr_right drop_dateText_lt_iff)

def yearText : Bytes := if year < 10 ^ 4 then pad 4 year else formatNat year

/-- The text `2006-01-02` stands for, of a day in any year. -/
def dayText : Bytes := yearText (yearOf day).1 ++ (dateText day).drop 4

theorem dayText_eq_dateText {day : Nat} (h : day < 3652059) : dayText day = dateText day := by
  rw [dayText, yearText, if_pos (yearOf_lt h), ← dateText_eq]

theorem parseNat_pad (width n : Nat) : parseNat (pad width n) = n % 10 ^ width := by
  induction width generalizing n with
  | zero => exact (Nat.mod_one n).symm
  | succ width ih =>
    have hdigit := toNat_decimalDigit (Nat.mod_lt n (by decide : 0 < 10))
    rw [pad, parseNat, List.foldl_append, ← parseNat, ih, List.foldl_cons, List.foldl_nil, hdigit, pow_succ,
      Nat.mul_comm (10 ^ width), Nat.mod_mul]
    omega

theorem parseNat_yearText : parseNat (yearText year) = year := by
  rw [yearText]
  split
  · next h => rw [parseNat_pad, Nat.mod_eq_of_lt h]
  exact parseNat_formatNat year

theorem dayText_inj (h : dayText a = dayText b) : a = b := by
  obtain ⟨hyear, hrest⟩ := List.append_inj' h (by simp)
  have hsame : (yearOf a).1 = (yearOf b).1 := by
    rw [← parseNat_yearText (yearOf a).1, hyear, parseNat_yearText]
  exact (eq_iff_of_lt_iff (drop_dateText_lt_iff hsame) (drop_dateText_lt_iff hsame.symm)).mp hrest

theorem dayText_lt_dayText_iff (ha : a < 3652059) (hb : b < 3652059) :
    dayText a < dayText b ↔ a < b := by
  rw [dayText_eq_dateText ha, dayText_eq_dateText hb, dateText_lt_dateText_iff ha hb]

@[simp] theorem length_clockText (second : Nat) : (clockText second).length = 9 := by simp [clockText]

theorem clockText_lt_clockText_iff (ha : a < 86400) (hb : b < 86400) :
    clockText a < clockText b ↔ a < b := by
  simp only [clockText, List.append_assoc, List.cons_append, cons_lt_cons_self_iff]
  rw [append_lt_append_iff (by simp), cons_lt_cons_self_iff, append_lt_append_iff (by simp), cons_lt_cons_self_iff,
    pad_lt_pad_iff (by omega) (by omega), pad_lt_pad_iff (by omega) (by omega), pad_lt_pad_iff (by omega) (by omega),
    pad_eq_pad_iff (by omega) (by omega), pad_eq_pad_iff (by omega) (by omega)]
  omega

@[simp] theorem length_secondText (second : Nat) : (secondText second).length = 19 := by simp [secondText]

theorem secondText_lt_secondText_iff (ha : a < lastSecond) (hb : b < lastSecond) :
    secondText a < secondText b ↔ a < b := by
  have hlast : lastSecond = 3652059 * 86400 := rfl
  have hdate {x y : Nat} (hx : x < 3652059) (hy : y < 3652059) : dateText x = dateText y ↔ x = y :=
    eq_iff_of_lt_iff (dateText_lt_dateText_iff hx hy) (dateText_lt_dateText_iff hy hx)
  rw [secondText, secondText, append_lt_append_iff (by simp), dateText_lt_dateText_iff (by omega) (by omega),
    hdate (by omega) (by omega), clockText_lt_clockText_iff (by omega) (by omega)]
  omega

theorem isASCIIDigit_of_mem_pad {n : Nat} {c : UInt8} (h : c ∈ pad width n) : isASCIIDigit c = true := by
  induction width generalizing n with
  | zero => cases h
  | succ width ih =>
    rcases List.mem_append.mp h with h | h
    · exact ih h
    rw [List.mem_singleton.mp h]
    exact isASCIIDigit_decimalDigit (by omega)

theorem pad_eq_fractionDigits (n : Nat) : ∃ k, pad 9 n = fractionDigits n ++ List.replicate k (chr '0') := by
  refine ⟨((pad 9 n).rtakeWhile (· == chr '0')).length, ?_⟩
  grind [List.eq_replicate_of_mem, List.mem_rtakeWhile_imp, fractionDigits,
    List.rdropWhile_append_rtakeWhile]

theorem not_lt_replicate_zero {s : Bytes} (h : ∀ c ∈ s, isASCIIDigit c = true) {k : Nat} (hlen : s.length = k) :
    ¬ s < List.replicate k (chr '0') := by
  induction s generalizing k with
  | nil =>
    subst hlen
    exact List.not_lt_nil _
  | cons c s ih =>
    subst hlen
    rw [List.length_cons, List.replicate_succ, List.cons_lt_cons_iff]
    rintro (hlt | ⟨-, hlt⟩)
    · have hc := h c List.mem_cons_self
      simp only [isASCIIDigit, Bool.and_eq_true, decide_eq_true_eq] at hc
      exact absurd hlt (not_lt.mpr hc.1)
    exact ih (fun d hd => h d (List.mem_cons_of_mem c hd)) rfl hlt

theorem lt_of_diverging {p a b : Bytes} {x y : UInt8} (h : x ≠ y) : p ++ x :: a < p ++ y :: b ↔ x < y := by
  rw [append_lt_append_iff rfl, List.cons_lt_cons_iff]
  simp [h]

section Fractions

variable {a b : Nat}

theorem fractionText_of_cons {n : Nat} {p : Bytes} {x : UInt8} {r : Bytes} (h : fractionDigits n = p ++ x :: r) :
    fractionText n = chr '.' :: (p ++ x :: r) := by
  rw [fractionText, h]
  simp

theorem fraction_of_isPrefix (ha : a < 10 ^ 9) (hb : b < 10 ^ 9) (hne : a ≠ b)
    (h : fractionDigits a <+: fractionDigits b) :
    a < b ∧ fractionText b ++ [chr 'Z'] < fractionText a ++ [chr 'Z'] := by
  obtain ⟨k, hk⟩ := pad_eq_fractionDigits a
  obtain ⟨j, hj⟩ := pad_eq_fractionDigits b
  obtain ⟨t, ht⟩ := h
  have hlen := congrArg List.length hk
  have hlen' := congrArg List.length hj
  rw [length_pad, List.length_append, List.length_replicate] at hlen hlen'
  rw [← ht, List.length_append] at hlen'
  have hdigits (c : UInt8) (hc : c ∈ t ++ List.replicate j (chr '0')) : isASCIIDigit c = true := by
    have hmem : c ∈ pad 9 b := by
      rw [hj, ← ht, List.append_assoc]
      exact List.mem_append_right _ hc
    exact isASCIIDigit_of_mem_pad hmem
  constructor
  · refine lt_of_le_of_ne (not_lt.mp fun hlt => ?_) hne
    rw [← pad_lt_pad_iff hb ha, hj, hk, ← ht, List.append_assoc, append_lt_append_iff rfl] at hlt
    rcases hlt with hlt | ⟨-, hlt⟩
    · exact lt_irrefl _ hlt
    refine not_lt_replicate_zero hdigits ?_ hlt
    rw [List.length_append, List.length_replicate]
    omega
  cases t with
  | nil =>
    refine absurd ((pad_eq_pad_iff ha hb).mp ?_) hne
    rw [hk, hj, ← ht, List.append_nil, show k = j by simp at hlen'; omega]
  | cons c t =>
    have hc := hdigits c (by simp)
    have hcZ : c < chr 'Z' := by
      simp only [isASCIIDigit, Bool.and_eq_true, decide_eq_true_eq] at hc
      exact lt_of_le_of_lt hc.2 (by decide)
    rw [fractionText_of_cons ht.symm]
    cases hempty : fractionDigits a with
    | nil =>
      rw [fractionText, hempty]
      exact List.cons_lt_cons_iff.mpr (.inl (by decide))
    | cons d ds =>
      have hshort : fractionText a = chr '.' :: fractionDigits a := by rw [fractionText, hempty]; rfl
      rw [hshort, ← hempty, List.cons_append, List.cons_append, cons_lt_cons_self_iff, List.append_assoc,
        List.cons_append, append_lt_append_iff rfl, List.cons_lt_cons_iff]
      exact .inr ⟨rfl, .inl hcZ⟩

theorem fraction_of_diverge (ha : a < 10 ^ 9) (hb : b < 10 ^ 9)
    (h : Diverge (fractionDigits a) (fractionDigits b)) :
    fractionText a ++ [chr 'Z'] < fractionText b ++ [chr 'Z'] ↔ a < b := by
  obtain ⟨k, hk⟩ := pad_eq_fractionDigits a
  obtain ⟨j, hj⟩ := pad_eq_fractionDigits b
  obtain ⟨p, x, y, u, v, hx, hy, hxy⟩ := h
  simp [fractionText_of_cons hx, fractionText_of_cons hy, ← pad_lt_pad_iff ha hb, hk, hj, hx, hy,
    lt_of_diverging hxy]

end Fractions

namespace Instant

/-- Two instants of one second, and the digits of one fraction start those of the other. -/
def Clash (t e : Instant) : Prop :=
  t.second = e.second ∧ t.fraction ≠ e.fraction ∧
    (fractionDigits t.fraction <+: fractionDigits e.fraction ∨ fractionDigits e.fraction <+: fractionDigits t.fraction)

instance (t e : Instant) : Decidable (t.Clash e) := inferInstanceAs (Decidable (_ ∧ _ ∧ _))

theorem Clash.symm {t e : Instant} (h : t.Clash e) : e.Clash t := ⟨h.1.symm, h.2.1.symm, h.2.2.symm⟩

theorem second_lt (t : Instant) : t.second < lastSecond := by
  have := t.within
  exact Nat.div_lt_of_lt_mul (by rw [Nat.mul_comm]; exact this)

theorem fraction_lt (t : Instant) : t.fraction < 10 ^ 9 := Nat.mod_lt _ (by decide)

theorem format_lt_format_iff (t e : Instant) :
    t.format < e.format ↔ t.second < e.second ∨ t.second = e.second ∧
      fractionText t.fraction ++ [chr 'Z'] < fractionText e.fraction ++ [chr 'Z'] := by
  have hlt := secondText_lt_secondText_iff t.second_lt e.second_lt
  have hgt := secondText_lt_secondText_iff e.second_lt t.second_lt
  rw [format, format, append_lt_append_iff (by simp), hlt, eq_iff_of_lt_iff hlt hgt]

theorem format_agrees_iff (t e : Instant) : (t.format < e.format ↔ t.nanos < e.nanos) ↔ ¬ t.Clash e := by
  have hnanos : t.nanos < e.nanos ↔ t.second < e.second ∨ t.second = e.second ∧ t.fraction < e.fraction := by
    simp only [second, fraction]
    omega
  rw [format_lt_format_iff, hnanos]
  by_cases hsecond : t.second = e.second
  · rw [hsecond]
    simp only [lt_irrefl, true_and, false_or]
    by_cases hne : t.fraction = e.fraction
    · simp [Clash, hne]
    rcases Diverge.or_isPrefix (fractionDigits t.fraction) (fractionDigits e.fraction) with h | h | h
    · obtain ⟨hlt, htext⟩ := fraction_of_isPrefix t.fraction_lt e.fraction_lt hne h
      have hclash : t.Clash e := ⟨hsecond, hne, .inl h⟩
      grind
    · obtain ⟨hlt, htext⟩ := fraction_of_isPrefix e.fraction_lt t.fraction_lt (Ne.symm hne) h
      have hclash : t.Clash e := ⟨hsecond, hne, .inr h⟩
      grind
    refine iff_of_true (fraction_of_diverge t.fraction_lt e.fraction_lt h) ?_
    rintro ⟨-, -, hpre | hpre⟩
    · exact h.not_isPrefix hpre
    exact h.symm.not_isPrefix hpre
  simp [Clash, hsecond]

end Instant

end PiiShield
