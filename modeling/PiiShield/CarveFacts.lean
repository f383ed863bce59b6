import PiiShield.NumberShapes

/-! The numbers of a line: sorted, apart from each other, framed by the bytes that start
and end a number; and which card numbers their merge with the shaped numbers leaves out. -/

namespace PiiShield

variable {U : Unicode} {cards : List Range} {fuel i : Nat} {line : Bytes} {n : ShapedNumber}
  {nums : List ShapedNumber} {r : Range}

def isNumberStart (c : UInt8) : Bool := c == '+' || c == '(' || isASCIIDigit c

structure NumberAt (line : Bytes) (r : Range) : Prop where
  stops : Stops line r.start r.stop
  first : isNumberStart (byteAt line r.start) = true

theorem le_skipPhoneRun (line : Bytes) (i : Nat) : i ≤ skipPhoneRun line i := by
  unfold skipPhoneRun
  split <;> omega

theorem mem_shapedNumbersFrom (h : n ∈ shapedNumbersFrom U line fuel i) :
    i ≤ n.start ∧ NumberAt line n.toRange ∧
      (0 < n.start → phoneGlue (byteAt line (n.start - 1)) = false) := by
  induction fuel generalizing i with
  | zero => simp [shapedNumbersFrom] at h
  | succ fuel ih =>
    have skip {j : Nat} (hj : i ≤ j) (hn : n ∈ shapedNumbersFrom U line fuel j) :=
      (ih hn).imp_left (Nat.le_trans hj)
    rw [shapedNumbersFrom] at h
    simp only at h
    split_ifs at h with h1 h2 h3 h4
    · simp at h
    · exact skip (Nat.le_succ i) h
    · exact skip (le_skipPhoneRun line i) h
    · simp only [Bool.and_eq_true, decide_eq_true_eq] at h4
      have hst := matchShapedNumber_stops (Nat.ne_of_gt h4.1.1)
      rcases List.mem_cons.mp h with rfl | h
      · refine ⟨le_rfl, ⟨hst, ?_⟩, fun hi => ?_⟩
        · simp only [isNumberStart]
          grind
        simpa [hi] using h3
      exact skip (Nat.le_of_lt hst.lt) h
    exact skip (le_skipPhoneRun line i) h

def Apart (a b : Range) : Prop := a.stop < b.start

theorem pairwise_shapedNumbersFrom (U : Unicode) (line : Bytes) (fuel i : Nat) :
    (shapedNumbersFrom U line fuel i).Pairwise fun a b => Apart a.toRange b.toRange := by
  induction fuel generalizing i with
  | zero => simp [shapedNumbersFrom]
  | succ fuel ih =>
    rw [shapedNumbersFrom]
    simp only
    split_ifs with h1 h2 h3 h4
    · simp
    · exact ih _
    · exact ih _
    · refine List.pairwise_cons.mpr ⟨fun b hb => ?_, ih _⟩
      simp only [Bool.and_eq_true, decide_eq_true_eq] at h4
      have hst := matchShapedNumber_stops (Nat.ne_of_gt h4.1.1)
      obtain ⟨hle, -, hglue⟩ := mem_shapedNumbersFrom hb
      refine Nat.lt_of_le_of_ne hle fun heq => ?_
      -- A number cannot start where one stops: the byte before is glue.
      have hpos := hst.lt
      have := hglue (by rw [← heq]; omega)
      rw [← heq, phoneGlue_of_isNumberEnd hst.last] at this
      simp at this
    exact ih _

theorem mem_findShapedNumbers (h : n ∈ findShapedNumbers U line) : NumberAt line n.toRange := by
  unfold findShapedNumbers at h
  split at h
  · simp at h
  exact (mem_shapedNumbersFrom h).2.1

theorem not_glued_of_mem (h : n ∈ findShapedNumbers U line)
    (hpos : 0 < n.start) : phoneGlue (byteAt line (n.start - 1)) = false := by
  unfold findShapedNumbers at h
  split at h
  · simp at h
  exact (mem_shapedNumbersFrom h).2.2 hpos

theorem pairwise_findShapedNumbers (U : Unicode) (line : Bytes) :
    (findShapedNumbers U line).Pairwise fun a b => Apart a.toRange b.toRange := by
  unfold findShapedNumbers
  split
  · simp
  exact pairwise_shapedNumbersFrom U line _ _

theorem mem_digitIndices (h : i ∈ digitIndices line) :
    i < line.length ∧ isASCIIDigit (byteAt line i) = true := by
  simp only [digitIndices, List.mem_filterMap, Option.ite_none_right_eq_some, Option.some.injEq] at h
  grind [byteAt]

theorem pairwise_digitIndices (line : Bytes) : (digitIndices line).Pairwise (· < ·) := by
  have hz : line.zipIdx.Pairwise fun a b => a.2 < b.2 := by
    rw [← List.pairwise_map, List.zipIdx_map_snd]
    exact List.pairwise_lt_range'
  refine hz.filterMap _ ?_
  simp_all

theorem mem_mergeFrom {cur : Range} {rs : List Range} (h : r ∈ mergeFrom cur rs)
    (hsort : (cur :: rs).Pairwise (·.start ≤ ·.start)) (hlt : ∀ a ∈ cur :: rs, a.start < a.stop) :
    cur.start ≤ r.start ∧ r.start < r.stop ∧ (∃ a ∈ cur :: rs, a.start = r.start) ∧
      ∃ b ∈ cur :: rs, b.stop = r.stop := by
  induction rs generalizing cur with
  | nil =>
    simp_all [mergeFrom]
  | cons next rs ih =>
    obtain ⟨hcur, hrest⟩ := List.pairwise_cons.mp hsort
    have hnext := hlt next (by simp)
    have hself := hlt cur (by simp)
    rw [mergeFrom] at h
    split at h
    · obtain ⟨hle, hr, ⟨a, ha, has⟩, b, hb, hbs⟩ := ih h
        (List.pairwise_cons.mpr ⟨fun x hx => hcur x (by simp [hx]), (List.pairwise_cons.mp hrest).2⟩)
        (by
          simp_all)
      grind
    grind

theorem pairwise_mergeFrom {cur : Range} {rs : List Range}
    (hsort : (cur :: rs).Pairwise (·.start ≤ ·.start)) (hlt : ∀ a ∈ cur :: rs, a.start < a.stop) :
    (mergeFrom cur rs).Pairwise Apart := by
  induction rs generalizing cur with
  | nil => simp [mergeFrom]
  | cons next rs ih =>
    obtain ⟨hcur, hrest⟩ := List.pairwise_cons.mp hsort
    have hself := hlt cur (by simp)
    rw [mergeFrom]
    split
    · simp_all
    · next hgap =>
      have hrs : ∀ a ∈ next :: rs, a.start < a.stop := fun a ha => hlt a (by simp [ha])
      refine List.pairwise_cons.mpr ⟨fun b hb => ?_, ih hrest hrs⟩
      have := (mem_mergeFrom hb hrest hrs).1
      show cur.stop < b.start
      omega

section Luhn

variable {U : Unicode} {line : Bytes} {idx : List Nat}

theorem mem_cardWindows {runEnd : Nat} (h : r ∈ cardWindows U line idx i runEnd) :
    ∃ k, i + k < idx.length ∧ r = ⟨idx.getD i 0, idx.getD (i + k) 0 + 1⟩ := by
  simp only [cardWindows, List.mem_filterMap, List.mem_range'_1] at h
  obtain ⟨len, ⟨hlo, hhi⟩, hw⟩ := h
  refine ⟨len - 1, by omega, ?_⟩
  unfold cardWindow at hw
  simp only at hw
  split_ifs at hw
  grind

theorem mem_luhnFrom {left runEnd : Nat} (h : r ∈ luhnFrom U line idx left i runEnd) :
    ∃ j k, i ≤ j ∧ j + k < idx.length ∧ r = ⟨idx.getD j 0, idx.getD (j + k) 0 + 1⟩ := by
  induction left generalizing i runEnd with
  | zero => simp [luhnFrom] at h
  | succ left ih =>
    grind [luhnFrom, mem_cardWindows, le_rfl]

theorem getD_le_getD (hidx : idx.Pairwise (· < ·)) {j : Nat} (hij : i ≤ j) (hj : j < idx.length) :
    idx.getD i 0 ≤ idx.getD j 0 := by
  have hi : i < idx.length := by omega
  simp only [List.getD_eq_getElem?_getD, List.getElem?_eq_getElem hj, List.getElem?_eq_getElem hi,
    Option.getD_some]
  rcases Nat.eq_or_lt_of_le hij with rfl | hlt
  · exact le_rfl
  exact Nat.le_of_lt (List.pairwise_iff_getElem.mp hidx i j _ hj hlt)

theorem sorted_luhnFrom (U : Unicode) (line : Bytes) (hidx : idx.Pairwise (· < ·)) (left i runEnd : Nat) :
    (luhnFrom U line idx left i runEnd).Pairwise (·.start ≤ ·.start) := by
  induction left generalizing i runEnd with
  | zero => simp [luhnFrom]
  | succ left ih =>
    rw [luhnFrom]
    refine List.pairwise_append.mpr ⟨?_, ih _ _, ?_⟩
    · refine List.pairwise_of_forall_mem_list fun a ha b hb => ?_
      obtain ⟨k, -, rfl⟩ := mem_cardWindows ha
      obtain ⟨k', -, rfl⟩ := mem_cardWindows hb
      exact le_rfl
    intro a ha b hb
    obtain ⟨k, -, rfl⟩ := mem_cardWindows ha
    obtain ⟨j, k', hij, hk', rfl⟩ := mem_luhnFrom hb
    exact getD_le_getD hidx (by omega) (by omega)

end Luhn

theorem numberAt_of_digitIndices {j k : Nat} (h : j + k < (digitIndices line).length) :
    NumberAt line ⟨(digitIndices line).getD j 0, (digitIndices line).getD (j + k) 0 + 1⟩ := by
  have hj : j < (digitIndices line).length := by omega
  have hle := getD_le_getD (pairwise_digitIndices line) (Nat.le_add_right j k) h
  simp only [List.getD_eq_getElem?_getD, List.getElem?_eq_getElem hj, List.getElem?_eq_getElem h,
    Option.getD_some] at hle ⊢
  have hfirst := mem_digitIndices (List.getElem_mem hj)
  have hlast := mem_digitIndices (List.getElem_mem h)
  exact ⟨.of_digit hle hlast.1 hlast.2, by simp [isNumberStart, hfirst.2]⟩

theorem findLuhnSequences_spec (U : Unicode) (line : Bytes) :
    (findLuhnSequences U line).Pairwise Apart ∧ ∀ r ∈ findLuhnSequences U line, NumberAt line r := by
  unfold findLuhnSequences
  simp only
  split
  · simp
  have hsort := sorted_luhnFrom U line (pairwise_digitIndices line) ((digitIndices line).length - 12) 0 0
  have hmem : ∀ r ∈ luhnFrom U line (digitIndices line) ((digitIndices line).length - 12) 0 0,
      NumberAt line r := by grind [mem_luhnFrom, numberAt_of_digitIndices]
  revert hsort hmem
  cases luhnFrom U line (digitIndices line) ((digitIndices line).length - 12) 0 0 with
  | nil => simp [mergeRanges]
  | cons r rs =>
    intro hsort hmem
    have hlt : ∀ a ∈ r :: rs, a.start < a.stop := fun a ha => (hmem a ha).stops.lt
    refine ⟨pairwise_mergeFrom hsort hlt, fun c hc => ?_⟩
    obtain ⟨-, hclt, ⟨a, ha, has⟩, b, hb, hbs⟩ := mem_mergeFrom hc hsort hlt
    exact ⟨⟨hclt, hbs ▸ (hmem b hb).stops.le, hbs ▸ (hmem b hb).stops.last⟩, has ▸ (hmem a ha).first⟩

/-- Two ranges with a position in common, when neither is empty. -/
def Range.Overlaps (a b : Range) : Prop := a.start < b.stop ∧ b.start < a.stop

instance (a b : Range) : Decidable (a.Overlaps b) := inferInstanceAs (Decidable (_ ∧ _))

def Range.Contains (r : Range) (p : Nat) : Prop := r.start ≤ p ∧ p < r.stop

instance (r : Range) (p : Nat) : Decidable (r.Contains p) := inferInstanceAs (Decidable (_ ∧ _))

/-- The two lists `mergeCarves` walks over: sorted, apart, no range empty. -/
structure Mergeable (cards : List Range) (nums : List ShapedNumber) : Prop where
  cards_apart : cards.Pairwise Apart
  cards_lt : ∀ c ∈ cards, c.start < c.stop
  nums_apart : nums.Pairwise fun a b => Apart a.toRange b.toRange
  nums_lt : ∀ n ∈ nums, n.start < n.stop

/-- Two lists of ranges in order, with no position twice in a list. -/
structure InOrder (cards : List Range) (nums : List ShapedNumber) : Prop where
  cards_pairwise : cards.Pairwise (·.stop ≤ ·.start)
  cards_le : ∀ c ∈ cards, c.start ≤ c.stop
  nums_pairwise : nums.Pairwise (·.stop ≤ ·.start)
  nums_le : ∀ n ∈ nums, n.start ≤ n.stop

theorem Mergeable.inOrder (h : Mergeable cards nums) : InOrder cards nums where
  cards_pairwise := h.cards_apart.imp Nat.le_of_lt
  cards_le c hc := (h.cards_lt c hc).le
  nums_pairwise := h.nums_apart.imp Nat.le_of_lt
  nums_le n hn := (h.nums_lt n hn).le

namespace InOrder

variable {c : Range} {n : ShapedNumber} {cards : List Range} {nums : List ShapedNumber}

theorem tail_card (h : InOrder (c :: cards) nums) : InOrder cards nums :=
  ⟨(List.pairwise_cons.mp h.cards_pairwise).2, fun x hx => h.cards_le x (by simp [hx]), h.nums_pairwise, h.nums_le⟩

theorem tail_num (h : InOrder cards (n :: nums)) : InOrder cards nums :=
  ⟨h.cards_pairwise, h.cards_le, (List.pairwise_cons.mp h.nums_pairwise).2, fun x hx => h.nums_le x (by simp [hx])⟩

theorem start_le_card (h : InOrder (c :: cards) nums) {x : Range} (hx : x ∈ c :: cards) : c.start ≤ x.start := by
  rcases List.mem_cons.mp hx with rfl | hx
  · exact le_rfl
  exact (h.cards_le c (by simp)).trans ((List.pairwise_cons.mp h.cards_pairwise).1 x hx)

theorem start_le_num (h : InOrder cards (n :: nums)) {x : ShapedNumber} (hx : x ∈ n :: nums) :
    n.start ≤ x.start := by
  rcases List.mem_cons.mp hx with rfl | hx
  · exact le_rfl
  exact (h.nums_le n (by simp)).trans ((List.pairwise_cons.mp h.nums_pairwise).1 x hx)

end InOrder

theorem mem_mergeCarvesFrom
    (h : InOrder cards nums) (hfuel : cards.length + nums.length ≤ fuel) {cv : Carve} :
    cv ∈ mergeCarvesFrom fuel cards nums ↔
      (∃ n ∈ nums, cv = ⟨n.toRange, n.label⟩) ∨
        ∃ c ∈ cards, cv = ⟨c, []⟩ ∧ ∀ n ∈ nums, ¬ c.Overlaps n.toRange := by
  induction fuel generalizing cards nums with
  | zero =>
    simp_all [mergeCarvesFrom]
  | succ fuel ih =>
    match cards, nums with
    | [], nums => simp [mergeCarvesFrom, eq_comm]
    | c :: cards, [] => simp [mergeCarvesFrom, eq_comm]
    | c :: cards, n :: nums =>
      simp only [List.length_cons] at hfuel
      rw [mergeCarvesFrom]
      split_ifs with h1 h2
      · -- The number lies before every card.
        rw [List.mem_cons, ih h.tail_num (by simp only [List.length_cons]; omega)]
        have hfree : ∀ x ∈ c :: cards, ¬ x.Overlaps n.toRange := by
          intro x hx ho
          have := h.start_le_card hx
          have := ho.1
          omega
        grind
      · -- The card lies before every number.
        rw [List.mem_cons, ih h.tail_card (by simp only [List.length_cons]; omega)]
        have hfree : ∀ m ∈ n :: nums, ¬ c.Overlaps m.toRange := by
          intro m hm ho
          have := h.start_le_num hm
          have := ho.2
          omega
        grind
      -- They overlap, and the card goes.
      rw [ih h.tail_card (by simp only [List.length_cons]; omega)]
      refine or_congr_right ⟨?_, ?_⟩
      · rintro ⟨x, hx, rfl, hno⟩
        exact ⟨x, by simp [hx], rfl, hno⟩
      rintro ⟨x, hx, rfl, hno⟩
      rcases List.mem_cons.mp hx with rfl | hx
      · exact absurd ⟨by omega, by omega⟩ (hno n (by simp))
      exact ⟨x, hx, rfl, hno⟩

theorem pairwise_mergeCarvesFrom (h : InOrder cards nums) (hfuel : cards.length + nums.length ≤ fuel) :
    (mergeCarvesFrom fuel cards nums).Pairwise (·.stop ≤ ·.start) := by
  induction fuel generalizing cards nums with
  | zero => simp [mergeCarvesFrom]
  | succ fuel ih =>
    match cards, nums with
    | [], nums =>
      simp only [mergeCarvesFrom, List.pairwise_map]
      exact h.nums_pairwise
    | c :: cards, [] =>
      simp only [mergeCarvesFrom, List.pairwise_map]
      exact h.cards_pairwise
    | c :: cards, n :: nums =>
      simp only [List.length_cons] at hfuel
      have hc := h.tail_card
      have hn := h.tail_num
      rw [mergeCarvesFrom]
      split_ifs with h1 h2
      · refine List.pairwise_cons.mpr ⟨fun cv hcv => ?_, ih hn (by simp only [List.length_cons]; omega)⟩
        rw [mem_mergeCarvesFrom hn (by simp only [List.length_cons]; omega)] at hcv
        rcases hcv with ⟨m, hm, rfl⟩ | ⟨x, hx, rfl, -⟩
        · exact (List.pairwise_cons.mp h.nums_pairwise).1 m hm
        exact Nat.le_trans h1 (h.start_le_card hx)
      · refine List.pairwise_cons.mpr ⟨fun cv hcv => ?_, ih hc (by simp only [List.length_cons]; omega)⟩
        rw [mem_mergeCarvesFrom hc (by simp only [List.length_cons]; omega)] at hcv
        rcases hcv with ⟨m, hm, rfl⟩ | ⟨x, hx, rfl, -⟩
        · exact Nat.le_trans h2 (h.start_le_num hm)
        exact (List.pairwise_cons.mp h.cards_pairwise).1 x hx
      exact ih hc (by simp only [List.length_cons]; omega)

theorem mergeable_line (U : Unicode) (line : Bytes) :
    Mergeable (findLuhnSequences U line) (findShapedNumbers U line) where
  cards_apart := (findLuhnSequences_spec U line).1
  cards_lt c hc := ((findLuhnSequences_spec U line).2 c hc).stops.lt
  nums_apart := pairwise_findShapedNumbers U line
  nums_lt _ hn := (mem_findShapedNumbers hn).stops.lt

theorem not_contains_beside (h : Mergeable cards nums)
    {c : Range} (hc : c ∈ cards) (hn : n ∈ nums) (ho : c.Overlaps n.toRange)
    {p : Nat} (hp : c.Contains p) (hbeside : p = n.stop ∨ p + 1 = n.start) {cv : Carve}
    (hcv : cv ∈ mergeCarves cards nums) : ¬ cv.Contains p := by
  intro hcon
  have hlt := h.nums_lt n hn
  rw [mergeCarves, mem_mergeCarvesFrom h.inOrder le_rfl] at hcv
  rcases hcv with ⟨m, hm, rfl⟩ | ⟨x, hx, rfl, hno⟩
  · -- Shaped numbers are apart, so `m` is `n` or leaves a gap.
    have hmn : m = n ∨ m.stop < n.start ∨ n.stop < m.start := by
      by_contra hcontra
      simp only [not_or] at hcontra
      rcases List.Pairwise.forall_of_forall_of_flip (R := fun a b : ShapedNumber =>
          a ≠ b → a.stop < b.start ∨ b.stop < a.start) (by simp)
          (h.nums_apart.imp fun hab _ => .inl hab) (h.nums_apart.imp fun hab _ => .inr hab)
          hm hn hcontra.1 with h1 | h1
      · exact hcontra.2.1 h1
      exact hcontra.2.2 h1
    simp only [Range.Contains] at hcon
    rcases hmn with rfl | hmn | hmn <;> omega
  have hxc : x = c := by
    by_contra hne
    rcases List.Pairwise.forall_of_forall_of_flip (R := fun a b : Range =>
        a ≠ b → a.stop < b.start ∨ b.stop < a.start) (by simp)
        (h.cards_apart.imp fun hab _ => .inl hab) (h.cards_apart.imp fun hab _ => .inr hab)
        hx hc hne with h1 | h1
    · simp only [Range.Contains] at hcon hp
      omega
    simp only [Range.Contains] at hcon hp
    omega
  exact hno n hn (hxc ▸ ho)

/-- Every position of every card number of the line is carved out exactly when each
shaped number that overlaps a card number contains it. -/
theorem cards_covered_iff (U : Unicode) (line : Bytes) :
    (∀ c ∈ findLuhnSequences U line, ∀ p, c.Contains p →
        ∃ cv ∈ mergeCarves (findLuhnSequences U line) (findShapedNumbers U line), cv.Contains p) ↔
      ∀ c ∈ findLuhnSequences U line, ∀ n ∈ findShapedNumbers U line, c.Overlaps n.toRange →
        n.start ≤ c.start ∧ c.stop ≤ n.stop := by
  have h := mergeable_line U line
  constructor
  · intro hcover c hc n hn ho
    have hlt := h.nums_lt n hn
    obtain ⟨ho1, ho2⟩ := ho
    by_contra hnot
    rw [not_and_or] at hnot
    rcases hnot with hnot | hnot
    · have hp : c.Contains (n.start - 1) := ⟨by omega, by omega⟩
      obtain ⟨cv, hcv, hcon⟩ := hcover c hc _ hp
      exact not_contains_beside h hc hn ⟨ho1, ho2⟩ hp (.inr (by omega)) hcv hcon
    have hp : c.Contains n.stop := ⟨by omega, by omega⟩
    obtain ⟨cv, hcv, hcon⟩ := hcover c hc _ hp
    exact not_contains_beside h hc hn ⟨ho1, ho2⟩ hp (.inl rfl) hcv hcon
  intro hcontain c hc p hp
  by_cases hfree : ∀ n ∈ findShapedNumbers U line, ¬ c.Overlaps n.toRange
  · refine ⟨⟨c, []⟩, ?_, hp⟩
    rw [mergeCarves, mem_mergeCarvesFrom h.inOrder le_rfl]
    exact .inr ⟨c, hc, rfl, hfree⟩
  push Not at hfree
  obtain ⟨n, hn, ho⟩ := hfree
  have hin := hcontain c hc n hn ho
  refine ⟨⟨n.toRange, n.label⟩, ?_, Nat.le_trans hin.1 hp.1, Nat.lt_of_lt_of_le hp.2 hin.2⟩
  rw [mergeCarves, mem_mergeCarvesFrom h.inOrder le_rfl]
  exact .inl ⟨n, hn, rfl⟩

/-- A phone number at the head of a longer card number leaves the rest of it in clear. -/
theorem card_uncovered : ¬ ∀ c ∈ findLuhnSequences .ascii (bs "415-234-5678 901239"), ∀ p, c.Contains p →
    ∃ cv ∈ mergeCarves (findLuhnSequences .ascii (bs "415-234-5678 901239"))
      (findShapedNumbers .ascii (bs "415-234-5678 901239")), cv.Contains p := by
  intro h
  have hcard : (⟨0, 19⟩ : Range) ∈ findLuhnSequences .ascii (bs "415-234-5678 901239") := by decide
  have hfree : ¬ ∃ cv ∈ mergeCarves (findLuhnSequences .ascii (bs "415-234-5678 901239"))
      (findShapedNumbers .ascii (bs "415-234-5678 901239")), cv.Contains 13 := by decide
  exact hfree (h _ hcard 13 (by decide))

end PiiShield
