import PiiShield.Utf8Facts

/-! Cuts of a text between its characters. A part of a valid text cut out so is valid,
and no part has more ASCII characters than the whole. -/

namespace PiiShield

variable {a s : Bytes} {c : UInt8} {i j n : Nat}

@[simp] theorem asciiCount_nil : asciiCount [] = 0 := rfl

@[simp] theorem asciiCount_append (a b : Bytes) : asciiCount (a ++ b) = asciiCount a + asciiCount b :=
  List.countP_append

theorem asciiCount_cons (hc : isASCII c = true) (t : Bytes) : asciiCount (c :: t) = asciiCount t + 1 := by
  simp [asciiCount, hc]

theorem asciiCount_le_of_sublist {t : Bytes} (h : s.Sublist t) : asciiCount s ≤ asciiCount t :=
  h.countP_le

theorem isASCII_of_isQuote (h : isQuote c = true) : isASCII c = true := by
  simp only [isQuote, dquote, squote, Bool.or_eq_true, beq_iff_eq] at h
  rcases h with rfl | rfl <;> decide

theorem isASCII_of_isBlank (h : isBlank c = true) : isASCII c = true := by
  simp only [isBlank, Bool.or_eq_true, beq_iff_eq] at h
  rcases h with rfl | rfl <;> decide

theorem utf8Valid_ascii_append (ha : a.all isASCII = true) (b : Bytes) :
    utf8Valid (a ++ b) = utf8Valid b := by
  induction a with
  | nil => rfl
  | cons c a ih =>
    simp only [List.all_cons, Bool.and_eq_true] at ha
    grind [utf8Valid_ascii_cons ha.1]

theorem utf8Valid_ascii (ha : a.all isASCII = true) : utf8Valid a = true := by
  have h := utf8Valid_ascii_append ha []
  rwa [List.append_nil] at h

/-- Text `u` is a part of `s`, cut out between characters, or a text decoded from one. -/
structure Cut (s u : Bytes) : Prop where
  ascii : asciiCount u ≤ asciiCount s
  valid : utf8Valid s = true → utf8Valid u = true

theorem Cut.refl (s : Bytes) : Cut s s := ⟨le_rfl, id⟩

theorem Cut.trans {u v : Bytes} (h : Cut s u) (h' : Cut u v) : Cut s v :=
  ⟨Nat.le_trans h'.ascii h.ascii, h'.valid ∘ h.valid⟩

/-- No character of a valid text stands on both sides of position `n`. -/
def Bound (s : Bytes) (n : Nat) : Prop :=
  utf8Valid s = true → utf8Valid (s.take n) = true ∧ utf8Valid (s.drop n) = true

theorem Bound.zero (s : Bytes) : Bound s 0 := fun h => by simpa using h

theorem Bound.ascii_take (h : (s.take n).all isASCII = true) : Bound s n := by
  intro hv
  refine ⟨utf8Valid_ascii h, ?_⟩
  rwa [← List.take_append_drop n s, utf8Valid_ascii_append h] at hv

theorem Encodes.bound {u : Bytes} {r : Nat} (hu : Encodes u r) (t : Bytes) : Bound (u ++ t) u.length := by
  intro hv
  rw [hu.utf8Valid_append] at hv
  rw [List.take_left, List.drop_left]
  exact ⟨hu.valid, hv⟩

theorem eq_take_cons_drop (hn : n < s.length) : s = s.take n ++ s[n] :: s.drop (n + 1) := by
  rw [← List.drop_eq_getElem_cons hn, List.take_append_drop]

theorem byteAt_eq (hn : n < s.length) : byteAt s n = s[n] := by
  simp [byteAt, hn]

theorem lastByte_eq (s : Bytes) : lastByte s = byteAt s (s.length - 1) := by
  rw [byteAt, List.getD_eq_getElem?_getD, lastByte, List.getLastD_eq_getLast?, List.getLast?_eq_getElem?]

theorem take_one (hs : 0 < s.length) : s.take 1 = [byteAt s 0] := by
  match s with
  | [] => simp at hs
  | c :: t => rfl

theorem drop_pred (hs : 0 < s.length) : s.drop (s.length - 1) = [byteAt s (s.length - 1)] := by
  rw [byteAt_eq (by omega), List.drop_eq_getElem_cons (by omega), Nat.sub_add_cancel hs, List.drop_length]

theorem Bound.before (hc : ∀ x ∈ (s.drop n).head?, isCont x = false) : Bound s n := by
  intro hs
  rw [← List.take_append_drop n s] at hs
  exact utf8Valid_split hs hc

theorem Bound.at_ascii (hn : n < s.length) (hc : isASCII (byteAt s n) = true) : Bound s n := by
  simp_all [before, not_isCont_of_isASCII, byteAt_eq]

theorem Bound.after_ascii (hn : n < s.length) (hc : isASCII (byteAt s n) = true) : Bound s (n + 1) := by
  intro hs
  rw [byteAt_eq hn] at hc
  rw [eq_take_cons_drop hn, utf8Valid_append_ascii_cons hc] at hs
  refine ⟨?_, hs.2⟩
  rw [List.take_succ_eq_append_getElem hn]
  exact (utf8Valid_append_ascii_cons hc _ []).mpr ⟨hs.1, rfl⟩

theorem utf8Valid_right {b : Bytes} (ha : utf8Valid a = true) (h : utf8Valid (a ++ b) = true) :
    utf8Valid b = true := by
  revert h
  refine utf8Valid_induction (P := fun a => utf8Valid (a ++ b) = true → utf8Valid b = true) id ?_ ha
  intro c r t he _ ih h
  rw [List.append_assoc, he.utf8Valid_append] at h
  exact ih h

theorem take_append_slice (hij : i ≤ j) : s.take i ++ slice s i j = s.take j := by
  calc s.take i ++ slice s i j = (s.take j).take i ++ (s.take j).drop i := by
        rw [List.take_take, min_eq_left hij, slice]
    _ = s.take j := List.take_append_drop i _

theorem take_slice_drop (hij : i ≤ j) : s = s.take i ++ (slice s i j ++ s.drop j) := by
  rw [← List.append_assoc, take_append_slice hij, List.take_append_drop]

theorem slice_self (s : Bytes) (i : Nat) : slice s i i = [] := by
  rw [slice, List.drop_eq_nil_of_le]
  rw [List.length_take]
  omega

theorem slice_succ (hij : i ≤ j) (hj : j < s.length) : slice s i (j + 1) = slice s i j ++ [byteAt s j] := by
  grind [List.length_take, slice, List.take_succ_eq_append_getElem, byteAt_eq]

theorem length_slice (hj : j ≤ s.length) : (slice s i j).length = j - i := by
  rw [slice, List.length_drop, List.length_take]
  omega

theorem slice_eq_cons (hij : i < j) (hj : j ≤ s.length) : slice s i j = byteAt s i :: slice s (i + 1) j := by
  grind [List.length_take, slice, List.drop_eq_getElem_cons, byteAt_eq]

theorem slice_sublist (s : Bytes) (i j : Nat) : (slice s i j).Sublist s :=
  (List.drop_sublist i _).trans (List.take_sublist j s)

theorem Bound.cut_take (h : Bound s n) : Cut s (s.take n) :=
  ⟨asciiCount_le_of_sublist (List.take_sublist n s), fun hs => (h hs).1⟩

theorem Bound.cut_drop (h : Bound s n) : Cut s (s.drop n) :=
  ⟨asciiCount_le_of_sublist (List.drop_sublist n s), fun hs => (h hs).2⟩

theorem Bound.cut_slice (hi : Bound s i) (hj : Bound s j) (hij : i ≤ j) : Cut s (slice s i j) := by
  refine ⟨asciiCount_le_of_sublist (slice_sublist s i j), fun hs => ?_⟩
  refine utf8Valid_right (hi hs).1 ?_
  rw [take_append_slice hij]
  exact (hj hs).1

/-- The text is its parts one after the other, cut between characters. -/
structure Parts (s : Bytes) (ps : List Bytes) : Prop where
  eq : s = ps.flatten
  cut : ∀ p ∈ ps, Cut s p

theorem Bound.parts_slice (hi : Bound s i) (hj : Bound s j) (hij : i ≤ j) :
    Parts s [s.take i, slice s i j, s.drop j] where
  eq := by simpa using take_slice_drop hij
  cut := by simp [hi.cut_take, hi.cut_slice hj hij, hj.cut_drop]

theorem Parts.around (hn : n < s.length) (hc : isASCII (byteAt s n) = true) :
    Parts s [s.take n, [byteAt s n], s.drop (n + 1)] := by
  have h := (Bound.at_ascii hn hc).parts_slice (.after_ascii hn hc) (Nat.le_succ n)
  grind [slice, List.take_succ_eq_append_getElem, byteAt_eq]

end PiiShield
