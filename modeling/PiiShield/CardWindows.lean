import Mathlib.Algebra.GroupWithZero.Nat
import Mathlib.Data.List.Chain
import Mathlib.Data.List.Dedup
import Mathlib.Data.List.Perm.Subperm
import PiiShield.CarveFacts
import PiiShield.Cuts

/-! The card numbers of a line are its windows of connected digits that pass every check of a
card: a position lies in a range that is found exactly when it lies in such a window. -/

namespace PiiShield

variable {digits line : Bytes} {i p : Nat} {r : Range}

def Neighbours (line : Bytes) (p q : Nat) : Prop :=
  q = p + 1 ∨ q = p + 2 ∧ (byteAt line (p + 1) = ' ' ∨ byteAt line (p + 1) = '-')

def doubledDigit (d : Nat) : Nat := 2 * d / 10 + 2 * d % 10

def luhnTotal (digits : List Nat) : Nat :=
  (digits.reverse.zipIdx.map fun d => if d.2 % 2 = 1 then doubledDigit d.1 else d.1).sum

def digitValue (c : UInt8) : Nat := c.toNat - 0x30

/-- The positions of the digits of a card number, in order. -/
structure CardNumber (U : Unicode) (line : Bytes) (window : List Nat) : Prop where
  digit : ∀ p ∈ window, p < line.length ∧ isASCIIDigit (byteAt line p) = true
  neighbours : window.IsChain (Neighbours line)
  length : 13 ≤ window.length ∧ window.length ≤ 19
  boundary : isValidBoundary U line (window.headD 0) (window.getLastD 0 + 1) = true
  distinct : ∃ p ∈ window, ∃ q ∈ window, byteAt line p ≠ byteAt line q
  issuer : ∃ r ∈ cardBINs, window.length ∈ r.lengths ∧
    r.lo ≤ decimalValue ((window.map (byteAt line)).take r.digits) ∧
    decimalValue ((window.map (byteAt line)).take r.digits) ≤ r.hi
  luhn : 10 ∣ luhnTotal (window.map fun p => digitValue (byteAt line p))

theorem digitsConnected_iff {q : Nat} (hpq : p < q) :
    digitsConnected line p q = true ↔ Neighbours line p q := by
  rw [digitsConnected, Neighbours]
  grind

theorem two_le_countDistinctDigits : 2 ≤ countDistinctDigits digits ↔ ∃ a ∈ digits, ∃ b ∈ digits, a ≠ b := by
  rw [countDistinctDigits]
  constructor
  · intro h
    match hd : digits.dedup with
    | [] =>
      rw [hd] at h
      simp at h
    | [_] =>
      rw [hd] at h
      simp at h
    | a :: b :: t =>
      have hnodup := List.nodup_dedup digits
      rw [hd] at hnodup
      have hne : a ≠ b := fun hab => (List.nodup_cons.mp hnodup).1 (hab ▸ List.mem_cons_self)
      refine ⟨a, List.mem_dedup.mp (by simp [hd]), b, List.mem_dedup.mp (by simp [hd]), hne⟩
  rintro ⟨a, ha, b, hb, hne⟩
  have hsub : [a, b] ⊆ digits.dedup := by
    intro x hx
    rw [List.mem_dedup]
    rcases List.mem_pair.mp hx with rfl | rfl
    · exact ha
    exact hb
  have hpair : [a, b].Nodup := by simpa using hne
  exact (List.subperm_of_subset hpair hsub).length_le

theorem binRange_digits_le : ∀ r ∈ cardBINs, ∀ n ∈ r.lengths, r.digits ≤ n := by decide

theorem matchesCardBIN_iff : matchesCardBIN digits = true ↔ ∃ r ∈ cardBINs, digits.length ∈ r.lengths ∧
      r.lo ≤ decimalValue (digits.take r.digits) ∧ decimalValue (digits.take r.digits) ≤ r.hi := by
  simp only [matchesCardBIN, List.any_eq_true, Bool.and_eq_true, List.contains_iff_mem, decide_eq_true_eq]
  constructor
  · rintro ⟨r, hr, ⟨hlen, -⟩, hlo, hhi⟩
    exact ⟨r, hr, hlen, hlo, hhi⟩
  rintro ⟨r, hr, hlen, hlo, hhi⟩
  exact ⟨r, hr, ⟨hlen, binRange_digits_le r hr _ hlen⟩, hlo, hhi⟩

theorem digitValue_le {c : UInt8} (h : isASCIIDigit c = true) : digitValue c ≤ 9 := by
  simp_all [digitValue, isASCIIDigit, Bool.and_eq_true, decide_eq_true_eq, UInt8.le_iff_toNat_le,
    chr_def]

theorem luhnSum_eq (h : ∀ c ∈ digits, isASCIIDigit c = true) (n : Nat) : luhnSum (decide (n % 2 = 1)) digits =
      (((digits.map digitValue).zipIdx n).map fun d => if d.2 % 2 = 1 then doubledDigit d.1 else d.1).sum := by
  induction digits generalizing n with
  | nil => rfl
  | cons c t ih =>
    have hc := digitValue_le (h c (by simp))
    have hparity : (!decide (n % 2 = 1)) = decide ((n + 1) % 2 = 1) := by grind
    rw [luhnSum, hparity, ih (fun x hx => h x (by simp [hx])), List.map_cons, List.zipIdx_cons, List.map_cons,
      List.sum_cons]
    congr 1
    change (if decide (n % 2 = 1) = true then
      (if 9 < digitValue c * 2 then digitValue c * 2 - 9 else digitValue c * 2) else digitValue c) = _
    by_cases hn : n % 2 = 1
    · simp only [hn, decide_true, if_true, doubledDigit]
      split <;> omega
    simp [hn]

theorem validLuhn_iff (h : ∀ c ∈ digits, isASCIIDigit c = true) :
    validLuhn digits = true ↔ 10 ∣ luhnTotal (digits.map digitValue) := by
  have hdigits : ∀ c ∈ digits.reverse, isASCIIDigit c = true := fun c hc => h c (List.mem_reverse.mp hc)
  have hsum := luhnSum_eq hdigits 0
  rw [validLuhn, beq_iff_eq, luhnTotal, ← List.map_reverse]
  grind

section Windows

variable {line : Bytes}

theorem mem_digitIndices_iff :
    i ∈ digitIndices line ↔ i < line.length ∧ isASCIIDigit (byteAt line i) = true := by
  refine ⟨mem_digitIndices, fun ⟨hi, hd⟩ => ?_⟩
  rw [digitIndices, List.mem_filterMap]
  refine ⟨(_, i), List.mem_zipIdx_iff_getElem?.mpr (List.getElem?_eq_getElem hi), ?_⟩
  rw [byteAt_eq hi] at hd
  simp [hd]

theorem getElem?_succ_of_neighbours {q k : Nat} (hp : (digitIndices line)[k]? = some p)
    (hq : q ∈ digitIndices line) (h : Neighbours line p q) : (digitIndices line)[k + 1]? = some q := by
  have hsorted := List.pairwise_iff_getElem.mp (pairwise_digitIndices line)
  obtain ⟨hk, hpk⟩ := List.getElem?_eq_some_iff.mp hp
  obtain ⟨j, hj, hqj⟩ := List.mem_iff_getElem.mp hq
  have hlt : p < q := by
    rcases h with h | h <;> omega
  have hkj : k < j := by grind
  rcases Nat.eq_or_lt_of_le (Nat.succ_le_of_lt hkj) with heq | hbetween
  · simp_all
  -- A digit between would be the space or the dash.
  have hk' : k + 1 < (digitIndices line).length := by omega
  have h1 := hsorted k (k + 1) hk hk' (by omega)
  have h2 := hsorted (k + 1) j hk' hj hbetween
  have hmid : (digitIndices line)[k + 1] = p + 1 := by
    rcases h with h | h <;> omega
  have hdigit := (mem_digitIndices (List.getElem_mem hk')).2
  rw [hmid] at hdigit
  rcases h with h | ⟨-, hsep | hsep⟩
  · omega
  · rw [hsep] at hdigit
    exact absurd hdigit (by decide)
  rw [hsep] at hdigit
  exact absurd hdigit (by decide)

theorem window_eq_stretch {window : List Nat} (hdigit : ∀ p ∈ window, p ∈ digitIndices line)
    (hchain : window.IsChain (Neighbours line)) (hi : ∀ p ∈ window.head?, (digitIndices line)[i]? = some p) :
    ((digitIndices line).drop i).take window.length = window := by
  induction window generalizing i with
  | nil => simp
  | cons p window ih =>
    have hp := hi p (by simp)
    obtain ⟨hlt, hget⟩ := List.getElem?_eq_some_iff.mp hp
    obtain ⟨hnext, hrest⟩ := List.isChain_cons.mp hchain
    have htail : ((digitIndices line).drop (i + 1)).take window.length = window := by
      refine ih (fun q hq => hdigit q (by simp [hq])) hrest fun q hq => ?_
      exact getElem?_succ_of_neighbours hp (hdigit q (by simp [List.mem_of_mem_head? hq])) (hnext q hq)
    simp [List.drop_eq_getElem_cons hlt, htail, hget]

end Windows

section Runs

variable {line : Bytes} {idx : List Nat}

def Joined (line : Bytes) (idx : List Nat) (k : Nat) : Prop :=
  digitsConnected line (idx.getD k 0) (idx.getD (k + 1) 0) = true

/-- The digits from the `i`-th on before the `stop`-th are connected. -/
def JoinedFrom (line : Bytes) (idx : List Nat) (i stop : Nat) : Prop :=
  ∀ k, i ≤ k → k + 1 < stop → Joined line idx k

theorem extendRun_spec (fuel : Nat) {runEnd : Nat} (hrun : JoinedFrom line idx i runEnd) (hpos : 1 ≤ runEnd)
    (hle : runEnd ≤ idx.length) (hfuel : idx.length ≤ fuel + runEnd) :
    JoinedFrom line idx i (extendRun line idx fuel runEnd) ∧ runEnd ≤ extendRun line idx fuel runEnd ∧
      extendRun line idx fuel runEnd ≤ idx.length ∧
      (extendRun line idx fuel runEnd < idx.length → ¬ Joined line idx (extendRun line idx fuel runEnd - 1)) := by
  induction fuel generalizing runEnd with
  | zero => exact ⟨hrun, le_rfl, hle, fun h => by simp only [extendRun] at h; omega⟩
  | succ fuel ih =>
    rw [extendRun]
    have hindex : runEnd - 1 + 1 = runEnd := by omega
    by_cases hext : (runEnd < idx.length && digitsConnected line (idx.getD (runEnd - 1) 0) (idx.getD runEnd 0)) = true
    · rw [if_pos hext]
      rw [Bool.and_eq_true, decide_eq_true_eq] at hext
      have hrun' : JoinedFrom line idx i (runEnd + 1) := by
        intro k hk hlt
        by_cases hlast : k + 1 < runEnd
        · exact hrun k hk hlast
        obtain rfl : k = runEnd - 1 := by omega
        rw [Joined, hindex]
        exact hext.2
      grind
    rw [if_neg hext]
    refine ⟨hrun, le_rfl, hle, fun hlt hjoined => hext ?_⟩
    rw [Joined, hindex] at hjoined
    rw [Bool.and_eq_true, decide_eq_true_eq]
    exact ⟨hlt, hjoined⟩

theorem mem_luhnFrom_iff (U : Unicode) {left runEnd : Nat} (hrun : JoinedFrom line idx i runEnd)
    (hle : runEnd ≤ idx.length) (hleft : left ≤ idx.length - i) :
    r ∈ luhnFrom U line idx left i runEnd ↔
      ∃ j len, i ≤ j ∧ j < i + left ∧ 13 ≤ len ∧ len ≤ 19 ∧ j + len ≤ idx.length ∧
        JoinedFrom line idx j (j + len) ∧ cardWindow U line idx j len = some r := by
  induction left generalizing i runEnd with
  | zero =>
    simp only [luhnFrom, List.not_mem_nil, false_iff]
    rintro ⟨j, len, h1, h2, -⟩
    omega
  | succ left ih =>
    have hstart : JoinedFrom line idx i (max runEnd (i + 1)) := by
      intro k hk hlt
      exact hrun k hk (by omega)
    obtain ⟨hjoined, hge, hend, hstop⟩ := extendRun_spec idx.length hstart (by omega) (by omega) (by omega)
    rw [luhnFrom]
    generalize extendRun line idx idx.length (max runEnd (i + 1)) = stop at hjoined hge hend hstop
    have hnext : JoinedFrom line idx (i + 1) stop := fun k hk hlt => hjoined k (by omega) hlt
    rw [List.mem_append, ih hnext hend (by omega)]
    have hhere : r ∈ cardWindows U line idx i stop ↔ ∃ len, 13 ≤ len ∧ len ≤ 19 ∧ i + len ≤ idx.length ∧
        JoinedFrom line idx i (i + len) ∧ cardWindow U line idx i len = some r := by
      simp only [cardWindows, List.mem_filterMap, List.mem_range'_1]
      constructor
      · rintro ⟨len, ⟨hlo, hhi⟩, hw⟩
        exact ⟨len, hlo, by omega, by omega, fun k hk hlt => hjoined k hk (by omega), hw⟩
      rintro ⟨len, hlo, hhi, hlen, hj, hw⟩
      refine ⟨len, ⟨hlo, ?_⟩, hw⟩
      -- The run ends where the digits are not connected, so the window lies in it.
      have : i + len ≤ stop := by
        by_contra hcut
        exact hstop (by omega) (hj (stop - 1) (by omega) (by omega))
      omega
    grind

end Runs

theorem contains_mergeFrom {cur : Range} {rs : List Range} (hsort : (cur :: rs).Pairwise (·.start ≤ ·.start))
    (hlt : ∀ a ∈ cur :: rs, a.start < a.stop) :
    (∃ r ∈ mergeFrom cur rs, r.Contains p) ↔ ∃ r ∈ cur :: rs, r.Contains p := by
  induction rs generalizing cur with
  | nil => simp [mergeFrom]
  | cons next rs ih =>
    obtain ⟨hcur, hrest⟩ := List.pairwise_cons.mp hsort
    have hstart := hcur next (by simp)
    have hself := hlt cur (by simp)
    have hnext := hlt next (by simp)
    rw [mergeFrom]
    by_cases htouch : next.start ≤ cur.stop
    · rw [if_pos htouch]
      have hunion : ({ cur with stop := max cur.stop next.stop } : Range).Contains p ↔
          cur.Contains p ∨ next.Contains p := by
        simp only [Range.Contains]
        omega
      simp_all [or_assoc]
    simp_all [if_neg]

theorem contains_mergeRanges {rs : List Range} (hsort : rs.Pairwise (·.start ≤ ·.start))
    (hlt : ∀ a ∈ rs, a.start < a.stop) :
    (∃ r ∈ mergeRanges rs, r.Contains p) ↔ ∃ r ∈ rs, r.Contains p := by
  cases rs with
  | nil => rfl
  | cons r rs => exact contains_mergeFrom hsort hlt

section Stretch

variable {U : Unicode} {line : Bytes} {i len : Nat}

def stretch (line : Bytes) (i len : Nat) : List Nat := ((digitIndices line).drop i).take len

theorem length_stretch (h : i + len ≤ (digitIndices line).length) : (stretch line i len).length = len := by
  rw [stretch, List.length_take, List.length_drop]
  omega

theorem getElem_stretch {k : Nat} (hk : k < (stretch line i len).length) :
    (stretch line i len)[k] = (digitIndices line).getD (i + k) 0 := by
  grind [digitIndices, stretch, List.length_take, List.length_drop]

theorem mem_of_mem_stretch (h : p ∈ stretch line i len) : p ∈ digitIndices line :=
  List.mem_of_mem_drop (List.mem_of_mem_take h)

theorem headD_stretch (hpos : 0 < len) : (stretch line i len).headD 0 = (digitIndices line).getD i 0 := by
  simp_all [stretch, List.headD_eq_head?_getD, List.head?_eq_getElem?]

theorem getLastD_stretch (hpos : 0 < len) (h : i + len ≤ (digitIndices line).length) :
    (stretch line i len).getLastD 0 = (digitIndices line).getD (i + len - 1) 0 := by
  grind [stretch, length_stretch, getElem_stretch, Nat.add_sub_assoc, List.getElem?_eq_getElem]

theorem joinedFrom_iff (h : i + len ≤ (digitIndices line).length) :
    JoinedFrom line (digitIndices line) i (i + len) ↔ (stretch line i len).IsChain (Neighbours line) := by
  have hsorted := List.pairwise_iff_getElem.mp (pairwise_digitIndices line)
  have hstep {k : Nat} (hk : i ≤ k) (hlt : k + 1 < i + len) :
      Joined line (digitIndices line) k ↔
        Neighbours line ((digitIndices line).getD k 0) ((digitIndices line).getD (k + 1) 0) := by
    have h1 : k < (digitIndices line).length := by omega
    have h2 : k + 1 < (digitIndices line).length := by omega
    refine digitsConnected_iff ?_
    simpa [List.getD_eq_getElem?_getD, h1, h2] using hsorted k (k + 1) h1 h2 (by omega)
  rw [List.isChain_iff_getElem]
  constructor
  · intro hj k hk
    rw [getElem_stretch, getElem_stretch, ← Nat.add_assoc]
    rw [length_stretch h] at hk
    exact (hstep (by omega) (by omega)).mp (hj (i + k) (by omega) (by omega))
  intro hchain k hk hlt
  have hget := hchain (k - i) (by rw [length_stretch h]; omega)
  grind [getElem_stretch, Nat.add_assoc, Nat.add_sub_cancel']

theorem cardWindow_eq_some_iff {idx : List Nat} : cardWindow U line idx i len = some r ↔
    isValidBoundary U line (idx.getD i 0) (idx.getD (i + len - 1) 0 + 1) = true ∧
      2 ≤ countDistinctDigits (((idx.drop i).take len).map (byteAt line)) ∧
      matchesCardBIN (((idx.drop i).take len).map (byteAt line)) = true ∧
      validLuhn (((idx.drop i).take len).map (byteAt line)) = true ∧
      r = ⟨idx.getD i 0, idx.getD (i + len - 1) 0 + 1⟩ := by
  rw [cardWindow]
  grind

theorem cardNumber_stretch (hlen : 13 ≤ len ∧ len ≤ 19) (h : i + len ≤ (digitIndices line).length) :
    JoinedFrom line (digitIndices line) i (i + len) ∧ cardWindow U line (digitIndices line) i len = some r ↔
      CardNumber U line (stretch line i len) ∧
        r = ⟨(stretch line i len).headD 0, (stretch line i len).getLastD 0 + 1⟩ := by
  have hdigits : ∀ c ∈ (stretch line i len).map (byteAt line), isASCIIDigit c = true := by
    intro c hc
    obtain ⟨p, hp, rfl⟩ := List.mem_map.mp hc
    exact (mem_digitIndices (mem_of_mem_stretch hp)).2
  have hvalues : (stretch line i len).map (fun p => digitValue (byteAt line p)) =
      ((stretch line i len).map (byteAt line)).map digitValue := by
    rw [List.map_map]
    rfl
  have hdistinct : (∃ a ∈ (stretch line i len).map (byteAt line), ∃ b ∈ (stretch line i len).map (byteAt line), a ≠ b) ↔
      ∃ p ∈ stretch line i len, ∃ q ∈ stretch line i len, byteAt line p ≠ byteAt line q := by
    simp
  rw [cardWindow_eq_some_iff, joinedFrom_iff h, ← stretch, two_le_countDistinctDigits, matchesCardBIN_iff,
    validLuhn_iff hdigits, hdistinct, List.length_map, headD_stretch (show 0 < len by omega),
    getLastD_stretch (by omega) h]
  constructor
  · rintro ⟨hchain, hbound, hdist, hissuer, hluhn, rfl⟩
    refine ⟨⟨fun p hp => mem_digitIndices (mem_of_mem_stretch hp), hchain, ?_, ?_, hdist, hissuer, ?_⟩, rfl⟩
    · rwa [length_stretch h]
    · rwa [headD_stretch (show 0 < len by omega), getLastD_stretch (by omega) h]
    rwa [hvalues]
  rintro ⟨hcard, rfl⟩
  have hbound := hcard.boundary
  rw [headD_stretch (show 0 < len by omega), getLastD_stretch (by omega) h] at hbound
  have hluhn := hcard.luhn
  rw [hvalues] at hluhn
  exact ⟨hcard.neighbours, hbound, hcard.distinct, hcard.issuer, hluhn, rfl⟩

end Stretch

theorem CardNumber.eq_stretch {U : Unicode} {window : List Nat} (h : CardNumber U line window) :
    ∃ i, i + window.length ≤ (digitIndices line).length ∧ stretch line i window.length = window := by
  have hdigit : ∀ p ∈ window, p ∈ digitIndices line := fun p hp => mem_digitIndices_iff.mpr (h.digit p hp)
  have hne : window ≠ [] := by
    rintro rfl
    exact absurd h.length.1 (by decide)
  obtain ⟨i, hi, hget⟩ := List.mem_iff_getElem.mp (hdigit _ (List.head_mem hne))
  have heq := window_eq_stretch hdigit h.neighbours (i := i) fun p hp => by
    rw [List.getElem?_eq_getElem hi, hget, ← List.head?_eq_some_head hne]
    exact hp
  refine ⟨i, ?_, heq⟩
  grind

theorem mem_windows_iff {U : Unicode} (h13 : 13 ≤ (digitIndices line).length) :
    r ∈ luhnFrom U line (digitIndices line) ((digitIndices line).length - 12) 0 0 ↔
      ∃ window, CardNumber U line window ∧ r = ⟨window.headD 0, window.getLastD 0 + 1⟩ := by
  rw [mem_luhnFrom_iff U (fun k _ hk => absurd hk (Nat.not_lt_zero _)) (Nat.zero_le _) (by omega)]
  constructor
  · grind [stretch, cardNumber_stretch]
  rintro ⟨window, hcard, hr⟩
  obtain ⟨i, hi, heq⟩ := hcard.eq_stretch
  obtain ⟨hlo, hhi⟩ := hcard.length
  refine ⟨i, window.length, Nat.zero_le _, by omega, hlo, hhi, hi, ?_⟩
  rw [cardNumber_stretch hcard.length hi, heq]
  exact ⟨hcard, hr⟩

/-- The ranges found are sorted and do not touch, and they cover exactly the positions in a card
number of the line. -/
theorem card_ranges_exact (U : Unicode) (line : Bytes) :
    (findLuhnSequences U line).Pairwise (fun a b => a.stop < b.start) ∧
      (∀ r ∈ findLuhnSequences U line, r.start < r.stop ∧ r.stop ≤ line.length) ∧
      ∀ p, (∃ r ∈ findLuhnSequences U line, r.start ≤ p ∧ p < r.stop) ↔
        ∃ window, CardNumber U line window ∧ window.headD 0 ≤ p ∧ p ≤ window.getLastD 0 := by
  obtain ⟨hapart, hnumber⟩ := findLuhnSequences_spec U line
  refine ⟨hapart, fun r hr => ⟨(hnumber r hr).stops.lt, (hnumber r hr).stops.le⟩, fun p => ?_⟩
  rw [findLuhnSequences]
  by_cases hshort : (line.length < 13 || (digitIndices line).length < 13) = true
  · rw [if_pos hshort]
    simp only [List.not_mem_nil, false_and, exists_false, false_iff]
    rintro ⟨window, hcard, -⟩
    obtain ⟨i, hi, -⟩ := hcard.eq_stretch
    have h13 := hcard.length.1
    have hle : (digitIndices line).length ≤ line.length := by
      rw [digitIndices]
      exact (List.length_filterMap_le _ _).trans (by simp)
    simp only [Bool.or_eq_true, decide_eq_true_eq] at hshort
    omega
  rw [if_neg hshort]
  simp only [Bool.or_eq_true, decide_eq_true_eq, not_or, Nat.not_lt] at hshort
  have hsort := sorted_luhnFrom U line (pairwise_digitIndices line) ((digitIndices line).length - 12) 0 0
  have hlt : ∀ r ∈ luhnFrom U line (digitIndices line) ((digitIndices line).length - 12) 0 0, r.start < r.stop := by
    intro r hr
    obtain ⟨j, k, -, hk, rfl⟩ := mem_luhnFrom hr
    exact (numberAt_of_digitIndices hk).stops.lt
  have hunion := contains_mergeRanges hsort hlt (p := p)
  simp only [Range.Contains] at hunion
  rw [hunion]
  constructor
  · rintro ⟨r, hr, hlo, hhi⟩
    obtain ⟨window, hcard, rfl⟩ := (mem_windows_iff hshort.2).mp hr
    exact ⟨window, hcard, hlo, Nat.le_of_lt_succ hhi⟩
  rintro ⟨window, hcard, hlo, hhi⟩
  exact ⟨_, (mem_windows_iff hshort.2).mpr ⟨window, hcard, rfl⟩, hlo, Nat.lt_succ_of_le hhi⟩

end PiiShield
