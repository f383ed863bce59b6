import PiiShield.Cards

/-! Every number matcher stops right after a digit or a zone letter, past its start and
inside the line; so the shaped numbers of a line never touch. -/

namespace PiiShield

variable {c : UInt8} {g have_ i j k : Nat} {line : Bytes} {parens : Bool} {s : PhoneGroups}

theorem firstIs_drop {p : UInt8 → Bool} :
    firstIs (line.drop j) p = true ↔ j < line.length ∧ p (byteAt line j) = true := by
  grind [firstIs, List.head?_drop, byteAt]

theorem isDigitAt_iff :
    isDigitAt line j = true ↔ j < line.length ∧ isASCIIDigit (byteAt line j) = true := firstIs_drop

theorem isAt_iff : isAt line j c = true ↔ j < line.length ∧ byteAt line j = c := by
  simp [isAt]

theorem firstIs_eq_isAt (line : Bytes) (j : Nat) (c : UInt8) :
    firstIs (line.drop j) (· == c) = isAt line j c := by
  rw [Bool.eq_iff_iff, firstIs_drop, isAt_iff, beq_iff_eq]

theorem spanDigits_le (line : Bytes) (j : Nat) : spanDigits line j ≤ line.length - j := by
  rw [spanDigits, ← List.length_drop]
  exact (List.takeWhile_prefix _).length_le

theorem digit_of_lt_spanDigits (h : k < spanDigits line j) :
    j + k < line.length ∧ isASCIIDigit (byteAt line (j + k)) = true := by
  have hpre := List.takeWhile_prefix (p := isASCIIDigit) (l := line.drop j)
  have hk : k < (line.drop j).length := Nat.lt_of_lt_of_le h hpre.length_le
  have hlen : j + k < line.length := by rw [List.length_drop] at hk; omega
  refine ⟨hlen, ?_⟩
  have hd := List.mem_takeWhile_imp (List.getElem_mem h)
  rw [hpre.getElem h, List.getElem_drop] at hd
  simpa [byteAt, List.getD_eq_getElem?_getD, List.getElem?_eq_getElem hlen] using hd

theorem digitGroup_iff : digitGroup line j k = true ↔
      j + k ≤ line.length ∧ ∀ m < k, isASCIIDigit (byteAt line (j + m)) = true := by
  simp only [digitGroup, Bool.and_eq_true, decide_eq_true_eq, List.all_eq_true, slice]
  refine and_congr_right fun hlen => ⟨fun h m hm => ?_, fun h b hb => ?_⟩
  · refine h _ (List.mem_iff_getElem.mpr ⟨m, ?_, ?_⟩)
    · simp only [List.length_drop, List.length_take]
      omega
    have : j + m < line.length := by omega
    simp [byteAt, this]
  obtain ⟨m, hm, rfl⟩ := List.mem_iff_getElem.mp hb
  simp only [List.length_drop, List.length_take] at hm
  have hlt : j + m < line.length := by omega
  have := h m (by omega)
  simpa [byteAt, List.getD_eq_getElem?_getD, hlt] using this

def isNumberEnd (c : UInt8) : Bool := isASCIIDigit c || c == 'Z' || c == 'z'

structure Stops (line : Bytes) (i e : Nat) : Prop where
  lt : i < e
  le : e ≤ line.length
  last : isNumberEnd (byteAt line (e - 1)) = true

theorem isNumberEnd_of_digit (h : isASCIIDigit c = true) : isNumberEnd c = true := by
  simp [isNumberEnd, h]

theorem phoneGlue_of_isNumberEnd (h : isNumberEnd c = true) : phoneGlue c = true := by
  simp only [isNumberEnd, Bool.or_eq_true, beq_iff_eq, chr_def] at h
  simp only [phoneGlue, Bool.or_eq_true]
  rcases h with (h | rfl) | rfl
  · simp [h]
  · decide
  decide

theorem Stops.of_digit (hij : i ≤ j) (hj : j < line.length)
    (hd : isASCIIDigit (byteAt line j) = true) : Stops line i (j + 1) :=
  ⟨by omega, hj, isNumberEnd_of_digit (by simpa using hd)⟩

theorem Stops.of_span (hij : i ≤ j) (hk : 0 < k) (hs : k ≤ spanDigits line j) : Stops line i (j + k) := by
  obtain ⟨m, rfl⟩ : ∃ m, k = m + 1 := ⟨k - 1, by omega⟩
  grind [digit_of_lt_spanDigits, of_digit]

theorem Stops.of_group (hij : i ≤ j) (hk : 0 < k)
    (hg : digitGroup line j k = true) : Stops line i (j + k) := by
  obtain ⟨m, rfl⟩ : ∃ m, k = m + 1 := ⟨k - 1, by omega⟩
  grind [digitGroup_iff, of_digit]

theorem spanDigits_pos (h : isDigitAt line j = true) : 0 < spanDigits line j := by
  grind [isDigitAt_iff, spanDigits, List.drop_eq_getElem_cons, isASCIIDigit, byteAt,
    List.takeWhile_cons_of_pos]

/-- What the loop over phone groups keeps: the position has not gone back, and where a
number could stop there is a digit, unless only an area code was read. -/
structure PhoneGroupsOk (line : Bytes) (parens : Bool) (i have_ : Nat) (s : PhoneGroups) : Prop where
  pos : i ≤ s.j
  stop : s.stop = 0 ∨ Stops line i s.stop ∨ parens = true ∧ s.digits ≤ have_ + maxAreaCodeDigits
  first : s.stop = 0 → s.digits = have_

theorem readPhoneGroup_ok (hs : PhoneGroupsOk line parens i have_ s) (hk : i ≤ k) (hg : g = 0 → s.stop = 0) :
    PhoneGroupsOk line parens i have_ (readPhoneGroup line parens g k s).1 ∧
      ((readPhoneGroup line parens g k s).2 = true → (readPhoneGroup line parens g k s).1.stop ≠ 0) := by
  unfold readPhoneGroup
  split
  · next hp =>
    simp only
    split
    · exact ⟨hs, by simp⟩
    refine ⟨⟨?_, ?_, ?_⟩, ?_⟩
    · simp only
      split <;> omega
    · simp only [Bool.and_eq_true, beq_iff_eq] at hp
      have := hs.first (hg hp.1.2)
      refine .inr (.inr ⟨hp.1.1, ?_⟩)
      simp only
      omega
    · simp
    simp
  simp only
  split
  · exact ⟨hs, by simp⟩
  · next hd =>
    have hpos : 0 < min maxPhoneGroup (spanDigits line k) := by
      simp only [Bool.or_eq_true, beq_iff_eq] at hd
      omega
    have hst : Stops line i (k + min maxPhoneGroup (spanDigits line k)) :=
      .of_span hk hpos (by omega)
    exact ⟨⟨by simp only; omega, .inr (.inl hst), by simp only; omega⟩, by simp only; omega⟩

theorem phoneGroup_ok (hs : PhoneGroupsOk line parens i have_ s) (hg : g = 0 → s.stop = 0) :
    PhoneGroupsOk line parens i have_ (phoneGroup line parens g s).1 ∧
      ((phoneGroup line parens g s).2 = true → (phoneGroup line parens g s).1.stop ≠ 0) := by
  unfold phoneGroup
  simp only
  split
  · split
    · exact ⟨hs, by simp⟩
    refine readPhoneGroup_ok ⟨hs.pos, hs.stop, hs.first⟩ ?_ hg
    have := hs.pos
    omega
  split
  · exact ⟨hs, by simp⟩
  exact readPhoneGroup_ok ⟨hs.pos, hs.stop, hs.first⟩ hs.pos hg

theorem phoneGroupsFrom_ok {left : Nat} (hs : PhoneGroupsOk line parens i have_ s) (hg : g = 0 → s.stop = 0) :
    PhoneGroupsOk line parens i have_ (phoneGroupsFrom line parens left g s) := by
  induction left generalizing g s with
  | zero => exact hs
  | succ left ih =>
    grind [phoneGroup_ok, phoneGroupsFrom]

theorem matchPhoneGroups_stops {e digits : Nat}
    (hij : i ≤ j) (h : matchPhoneGroups line j have_ parens = (e, digits)) (he : e ≠ 0)
    (hd : parens = true → have_ + maxAreaCodeDigits < digits) : Stops line i e := by
  have hok : PhoneGroupsOk line parens i have_
      (phoneGroupsFrom line parens maxPhoneGroups 0 ⟨j, 0, have_, 0, 0, false⟩) :=
    phoneGroupsFrom_ok ⟨hij, .inl rfl, fun _ => rfl⟩ fun _ => rfl
  unfold matchPhoneGroups at h
  simp only at h
  split at h
  · simp only [Prod.mk.injEq] at h
    omega
  simp only [Prod.mk.injEq] at h
  rcases hok.stop with h0 | h1 | h2
  · omega
  · exact h.1 ▸ h1
  have := hd h2.1
  omega

theorem matchInternationalPhone_stops
    (h : matchInternationalPhone line i ≠ 0) : Stops line i (matchInternationalPhone line i) := by
  unfold matchInternationalPhone at h ⊢
  simp only at h ⊢
  split at h
  · exact absurd rfl h
  · next hcc =>
    rw [if_neg hcc]
    split at h
    · next hd =>
      rw [if_pos hd]
      split at h
      · exact absurd rfl h
      · next hn =>
        rw [if_neg hn]
        exact .of_span (by omega) (spanDigits_pos hd) le_rfl
    · next hd =>
      rw [if_neg hd]
      generalize hm : matchPhoneGroups line (i + 1 + min 3 (spanDigits line (i + 1)))
        (min 3 (spanDigits line (i + 1))) true = found at h ⊢
      obtain ⟨stop, more⟩ := found
      simp only at h ⊢
      split at h
      · exact absurd rfl h
      · next hn =>
        rw [if_neg hn]
        simp only [Bool.or_eq_true, beq_iff_eq, decide_eq_true_eq, not_or] at hn
        have hmin : minPhoneDigits = 8 := rfl
        refine matchPhoneGroups_stops (by omega) hm hn.1.1 fun _ => ?_
        simp only [maxAreaCodeDigits]
        omega

theorem matchNANPTail_stops {sep : UInt8 → Bool} (hij : i ≤ j)
    (h : matchNANPTail line j sep ≠ 0) : Stops line i (matchNANPTail line j sep) := by
  unfold matchNANPTail at h ⊢
  split_ifs at h ⊢ with h1 h2 h3
  all_goals first | exact absurd rfl h | skip
  simp only [Bool.or_eq_true, Bool.not_eq_true', not_or, Bool.not_eq_false] at h3
  exact .of_group (j := j + 4) (by omega) (by omega) h3.1

theorem matchNANPPhone_stops (h : matchNANPPhone line i ≠ 0) : Stops line i (matchNANPPhone line i) := by
  grind [matchNANPPhone, matchNANPTail_stops]

theorem matchKeyedPhone_stops (h : matchKeyedPhone line i ≠ 0) : Stops line i (matchKeyedPhone line i) := by
  unfold matchKeyedPhone at h ⊢
  simp only at h ⊢
  split at h
  · next hd =>
    rw [if_pos hd]
    split at h
    · exact absurd rfl h
    · next hn =>
      rw [if_neg hn]
      exact .of_span (by omega) (spanDigits_pos hd) le_rfl
  · next hd =>
    rw [if_neg hd]
    generalize hm : matchPhoneGroups line (i + min maxPhoneGroup (spanDigits line i))
      (min maxPhoneGroup (spanDigits line i)) false = found at h ⊢
    obtain ⟨stop, more⟩ := found
    simp only at h ⊢
    by_cases h0 : stop = 0
    · simp only [h0, beq_self_eq_true, if_true] at h ⊢
      split at h
      · exact absurd rfl h
      · next hn =>
        rw [if_neg hn]
        simp only [Bool.or_eq_true, decide_eq_true_eq, not_or] at hn
        have hmin : minKeyedDigits = 7 := rfl
        exact .of_span le_rfl (by omega) (by omega)
    have hne : (stop == 0) = false := by simpa using h0
    simp only [hne, Bool.false_eq_true, if_false] at h ⊢
    split at h
    · exact absurd rfl h
    · next hn =>
      rw [if_neg hn]
      exact matchPhoneGroups_stops (by omega) hm h0 (by simp)

theorem groupedRun_digits_le (quoted : Bool) (prev : UInt8) (s : Bytes) :
    (groupedRun quoted prev s).1 ≤ (groupedRun quoted prev s).2 := by
  induction s generalizing prev with
  | nil => simp [groupedRun]
  | cons c t ih =>
    have := ih c
    rw [groupedRun]
    split_ifs <;> simp only <;> omega

theorem groupedRun_ends (quoted : Bool) (prev : UInt8) (s : Bytes) (h : (groupedRun quoted prev s).2 ≠ 0) :
    (groupedRun quoted prev s).2 ≤ s.length ∧
      isASCIIDigit (byteAt s ((groupedRun quoted prev s).2 - 1)) = true := by
  induction s generalizing prev with
  | nil => simp [groupedRun] at h
  | cons c t ih =>
    have longer (hne : (groupedRun quoted c t).2 ≠ 0) :
        (groupedRun quoted c t).2 + 1 ≤ (c :: t).length ∧
          isASCIIDigit (byteAt (c :: t) ((groupedRun quoted c t).2 + 1 - 1)) = true := by
      obtain ⟨m, hm⟩ : ∃ m, (groupedRun quoted c t).2 = m + 1 := ⟨_, (Nat.succ_pred hne).symm⟩
      have := ih c hne
      rw [hm] at this ⊢
      exact ⟨by simpa using this.1, by simpa [byteAt] using this.2⟩
    rw [groupedRun] at h ⊢
    split at h
    · next hc =>
      rw [if_pos hc]
      grind [groupedRun, byteAt]
    · next hc =>
      rw [if_neg hc]
      split at h
      · next hs =>
        rw [if_pos hs]
        simp only [Bool.and_eq_true] at hs
        refine longer ?_
        cases t with
        | nil => simp [firstIs] at hs
        | cons d t =>
          have hd : isASCIIDigit d = true := by simpa [firstIs] using hs.1.2
          simp [groupedRun, hd]
      exact absurd rfl h

theorem matchGroupedDigits_stops {minDigits maxDigits : Nat} (hmin : 0 < minDigits)
    (h : matchGroupedDigits line i minDigits maxDigits ≠ 0) :
    Stops line i (matchGroupedDigits line i minDigits maxDigits) := by
  unfold matchGroupedDigits at h ⊢
  simp only at h ⊢
  split at h
  · exact absurd rfl h
  · next hn =>
    rw [if_neg hn]
    generalize (decide (0 < i) && isQuote (byteAt line (i - 1))) = quoted at hn ⊢
    simp only [Bool.or_eq_true, decide_eq_true_eq, not_or] at hn
    have hle := groupedRun_digits_le quoted 0 (line.drop i)
    obtain ⟨h1, h2⟩ := groupedRun_ends quoted 0 (line.drop i) (by omega)
    rw [List.length_drop] at h1
    rw [byteAt_drop] at h2
    have hlast : i + ((groupedRun quoted 0 (line.drop i)).2 - 1) + 1 =
        i + (groupedRun quoted 0 (line.drop i)).2 := by omega
    exact hlast ▸ .of_digit (by omega) (by omega) h2

theorem matchSessionNumber_stops (h : matchSessionNumber line i ≠ 0) :
    Stops line i (matchSessionNumber line i) := by
  unfold matchSessionNumber at h ⊢
  split_ifs at h ⊢
  · exact absurd rfl h
  exact .of_span le_rfl (by omega) le_rfl

theorem skipSeconds_stops (h : Stops line i k) : Stops line i (skipSeconds line k) := by
  have := h.lt
  unfold skipSeconds
  split_ifs with h1 h2
  · simp only [Bool.and_eq_true] at h2
    exact .of_span (by omega) (spanDigits_pos h2.2) le_rfl
  · simp only [Bool.and_eq_true] at h1
    exact .of_group (j := k + 1) (by omega) (by omega) h1.2
  exact h

theorem skipZone_stops (h : Stops line i k) : Stops line i (skipZone line k) := by
  have := h.lt
  unfold skipZone
  split_ifs with h1 h2 h3 h4
  · simp only [Bool.or_eq_true, isAt_iff] at h1
    refine ⟨by omega, by omega, ?_⟩
    rcases h1 with h1 | h1 <;> simp [h1.2, isNumberEnd]
  · simp only [Bool.and_eq_true] at h3
    exact .of_group (j := k + 4) (by omega) (by omega) h3.2
  · exact .of_group (j := k + 3) (by omega) (by omega) h4
  · simp only [Bool.and_eq_true] at h2
    exact .of_group (j := k + 1) (by omega) (by omega) h2.2
  exact h

theorem skipTimeOfDay_stops (h : Stops line i j) : Stops line i (skipTimeOfDay line j) := by
  have := h.lt
  unfold skipTimeOfDay
  split_ifs with h1 h2
  · exact h
  · exact h
  simp only [Bool.or_eq_true, Bool.not_eq_true', not_or, Bool.not_eq_false] at h2
  exact skipZone_stops (skipSeconds_stops (.of_group (j := j + 4) (by omega) (by omega) h2.2))

theorem matchISODate_stops (h : matchISODate line i ≠ 0) : Stops line i (matchISODate line i) := by
  unfold matchISODate at h ⊢
  simp only at h ⊢
  split_ifs at h ⊢ with h1 h2 h3
  all_goals first | exact absurd rfl h | skip
  simp only [Bool.or_eq_true, Bool.not_eq_true', not_or, Bool.not_eq_false] at h2
  exact skipTimeOfDay_stops (.of_group (j := i + 4 + 4) (by omega) (by omega) h2.2)

theorem readDigits_le {max v : Nat} (h : readDigits line i max = some (v, j)) : i ≤ j := by
  grind [readDigits, Option.some.injEq, Prod.mk.injEq]

theorem matchKeyedDate_stops (h : matchKeyedDate line i ≠ 0) : Stops line i (matchKeyedDate line i) := by
  unfold matchKeyedDate at h ⊢
  split at h
  · next hg =>
    rw [if_pos hg]
    exact matchISODate_stops h
  · next hg =>
    rw [if_neg hg]
    cases ha : readDigits line i 2 with
    | none => simp [ha] at h
    | some r =>
      obtain ⟨a, j⟩ := r
      simp only [ha] at h ⊢
      split at h
      · exact absurd rfl h
      · next hs =>
        rw [if_neg hs]
        cases hb : readDigits line (j + 1) 2 with
        | none => simp [hb] at h
        | some r' =>
          obtain ⟨b, j'⟩ := r'
          have := readDigits_le ha
          have := readDigits_le hb
          simp only [hb] at h ⊢
          split_ifs at h ⊢ with h1 h2
          all_goals first | exact absurd rfl h | skip
          simp only [Bool.or_eq_true, Bool.not_eq_true', not_or, Bool.not_eq_false] at h1
          exact .of_group (j := j' + 1) (by omega) (by omega) h1.2

theorem matchKeyedNumber_stops {U : Unicode}
    (h : (matchKeyedNumber U line i).1 ≠ 0) : Stops line i (matchKeyedNumber U line i).1 := by
  unfold matchKeyedNumber at h ⊢
  simp only at h ⊢
  split_ifs at h ⊢
  · exact absurd rfl h
  · exact matchKeyedPhone_stops h
  · exact matchGroupedDigits_stops (by omega) h
  · exact matchSessionNumber_stops h
  · exact matchGroupedDigits_stops (by omega) h
  · exact matchKeyedDate_stops h
  exact absurd rfl h

theorem matchShapedNumber_stops {U : Unicode}
    (h : (matchShapedNumber U line i).1 ≠ 0) : Stops line i (matchShapedNumber U line i).1 := by
  grind [matchShapedNumber, matchInternationalPhone_stops, matchNANPPhone_stops,
    matchKeyedNumber_stops]

end PiiShield
