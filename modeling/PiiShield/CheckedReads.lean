import PiiShield.Cuts

/-! Reads that fail out of range, as an index or a slice expression of the source does. -/

namespace PiiShield

/-- The byte `s[i]`; `none` is the panic of an index out of range. -/
def readAt (s : Bytes) (i : Int) : Option UInt8 := if 0 ≤ i then s[i.toNat]? else none

def sliceFrom (s : Bytes) (i : Int) : Option Bytes :=
  if 0 ≤ i ∧ i ≤ s.length then some (s.drop i.toNat) else none

def sliceBetween (s : Bytes) (i j : Int) : Option Bytes :=
  if 0 ≤ i ∧ i ≤ j ∧ j ≤ s.length then some (slice s i.toNat j.toNat) else none

def readIf (s : Bytes) (i : Nat) (p : UInt8 → Bool) : Option Bool :=
  if i < s.length then (readAt s i).map p else some false

def readBack (s : Bytes) (i : Int) (p : UInt8 → Bool) : Option Bool :=
  if 0 ≤ i then (readAt s i).map p else some false

def andThen (a : Bool) (b : Option Bool) : Option Bool := if a then b else some false

def readWhen (guard : Bool) (s : Bytes) (i : Nat) (p : UInt8 → Bool) : Option Bool :=
  andThen guard ((readAt s i).map p)

@[simp] theorem andThen_some (a b : Bool) : andThen a (some b) = some (a && b) := by
  cases a <;> rfl

variable {s : Bytes} {i : Nat}

theorem readAt_eq (hi : i < s.length) : readAt s i = some (byteAt s i) := by
  rw [readAt, if_pos (Int.natCast_nonneg i), Int.toNat_natCast, byteAt_eq hi]
  exact List.getElem?_eq_getElem hi

theorem readIf_eq (s : Bytes) (i : Nat) (p : UInt8 → Bool) : readIf s i p = some (firstIs (s.drop i) p) := by
  rw [readIf]
  split
  · next hi =>
    rw [readAt_eq hi, byteAt_eq hi, List.drop_eq_getElem_cons hi]
    rfl
  · next hi =>
    rw [List.drop_eq_nil_of_le (Nat.not_lt.mp hi)]
    rfl

theorem readBack_eq (hi : i ≤ s.length) (p : UInt8 → Bool) :
    readBack s (i - 1) p = some (firstIs (s.take i).reverse p) := by
  cases i with
  | zero => rfl
  | succ i =>
    have hcast : ((i + 1 : Nat) : Int) - 1 = i := by omega
    rw [readBack, hcast, if_pos (Int.natCast_nonneg i), readAt_eq hi, byteAt_eq hi,
      List.take_succ_eq_append_getElem hi, List.reverse_append, List.reverse_singleton]
    rfl

theorem readWhen_eq {guard : Bool} (hi : guard = true → i < s.length) (p : UInt8 → Bool) :
    readWhen guard s i p = some (guard && p (byteAt s i)) := by
  cases guard with
  | false => rfl
  | true =>
    rw [readWhen, readAt_eq (hi rfl)]
    rfl

theorem sliceBetween_eq {j : Nat} (hij : i ≤ j) (hj : j ≤ s.length) :
    sliceBetween s i j = some (slice s i j) := by
  rw [sliceBetween, if_pos ⟨by omega, by omega, by omega⟩]
  rfl

theorem sliceFrom_eq (hi : i ≤ s.length) : sliceFrom s i = some (s.drop i) := by
  rw [sliceFrom, if_pos ⟨Int.natCast_nonneg i, Int.ofNat_le.mpr hi⟩, Int.toNat_natCast]

theorem sliceFrom_eq_none (hi : s.length < i) : sliceFrom s i = none := by
  simp [sliceFrom, hi]

end PiiShield
