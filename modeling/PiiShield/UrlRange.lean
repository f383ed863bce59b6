import PiiShield.Sample
import PiiShield.Termination
import PiiShield.LedgerText

/-! Where masking a URL slices out of range: on a text of closing punctuation alone, which is
reached exactly from a token that starts with such punctuation and a blank. -/

namespace PiiShield

open ConfigState

variable {Num : Type} {U : Unicode} {url : Bytes}

variable {c : UInt8} {n : Nat}

def MaskInRange (U : Unicode) (url : Bytes) : Prop :=
  0 ≤ urlClosingTail url ∧ urlClosingTail url ≤ url.length ∧
    ∀ i j, urlPassword U url = some (i, j) → i ≤ j ∧ j ≤ url.length

/-- A query without a password that starts with closing punctuation, if any, and a blank. -/
def blankLed (U : Unicode) (url : Bytes) : Bool :=
  url.contains (chr '?') && (urlPassword U url).isNone && firstIs (url.dropWhile isClosing) isBlank

theorem not_isQuote_of_isClosing (h : isClosing c = true) : isQuote c = false := by
  have hall : (bs ":,.;)]\x7d>").all (fun c => !isQuote c) = true := by decide
  have := List.all_eq_true.mp hall c (by simpa [isClosing] using h)
  simpa using this

theorem not_isBlank_of_isClosing (h : isClosing c = true) : isBlank c = false := by
  have hall : (bs ":,.;)]\x7d>").all (fun c => !isBlank c) = true := by decide
  have := List.all_eq_true.mp hall c (by simpa [isClosing] using h)
  simpa using this

theorem urlClosingTail_of_all_isClosing (h : url.all isClosing = true) : urlClosingTail url = -1 := by
  have hmem : ∀ c ∈ url, isClosing c = true := List.all_eq_true.mp h
  have hq : lastQuote url = -1 := by grind [lastQuote_spec, byteAt_eq, not_isQuote_of_isClosing]
  have hno : indexByte url '?' = none := by
    rw [indexByte, List.idxOf?_eq_none_iff]
    exact fun hm => absurd (hmem _ hm) (by decide)
  simp only [urlClosingTail, hq, hno, goIndex]
  simp [h]

theorem maskInRange_iff : MaskInRange U url ↔ url.all isClosing = false := by
  constructor
  · rintro ⟨h, -⟩
    grind [urlClosingTail_of_all_isClosing]
  intro hc
  have htail : 0 ≤ urlClosingTail url ∧ urlClosingTail url ≤ url.length := by grind [urlClosingTail_spec]
  refine ⟨htail.1, htail.2, fun i j hp => ?_⟩
  obtain ⟨hij, hj, -⟩ := urlPassword_spec hp
  exact ⟨hij, hj.le⟩

section Peel

variable {p e : Bytes}

theorem index_append {sub : Bytes} {k : Nat} (h : index sub p = some k) :
    index sub (p ++ e) = some k ∧ k + sub.length ≤ p.length := by
  induction p generalizing k with
  | nil =>
    rw [index] at h
    split at h
    · next he =>
      cases h
      rw [List.isEmpty_iff.mp he]
      cases e <;> simp [index]
    simp at h
  | cons c p ih =>
    rw [index] at h
    rw [List.cons_append, index]
    split at h
    · grind
    · next hp =>
      simp only [Option.map_eq_some_iff] at h
      obtain ⟨m, hm, rfl⟩ := h
      obtain ⟨h1, h2⟩ := ih hm
      have hnot : ¬ sub.isPrefixOf (c :: (p ++ e)) = true := by grind [List.prefix_of_prefix_length_le]
      rw [if_neg hnot, h1]
      exact ⟨rfl, by simp only [List.length_cons]; omega⟩

theorem indexByte_append_of_not_mem (he : c ∉ e) : indexByte (p ++ e) c = indexByte p c := by
  induction p with
  | nil =>
    simp [indexByte, List.idxOf?_eq_none_iff, List.nil_append, he]
  | cons b p ih =>
    simp_all [indexByte, List.cons_append, List.idxOf?_cons]

theorem slice_append {i j : Nat} (hj : j ≤ p.length) : slice (p ++ e) i j = slice p i j := by
  rw [slice, slice, List.take_append_of_le_length hj]

theorem lastAt_append {fuel : Nat} (he : chr '@' ∉ e) (hn : n < p.length) :
    lastAt (p ++ e) fuel n = lastAt p fuel n := by
  induction fuel generalizing n with
  | zero => rfl
  | succ fuel ih =>
    unfold lastAt
    rw [List.drop_append_of_le_length (by omega), indexByte_append_of_not_mem he]
    split
    · rfl
    · next k hk =>
      obtain ⟨hlt, -⟩ := indexByte_drop hk
      rw [slice_append (by omega), ih hlt]

theorem urlPassword_append {r : Nat × Nat} (he : chr '@' ∉ e) (h : urlPassword U p = some r) :
    urlPassword U (p ++ e) = some r := by
  unfold urlPassword at h ⊢
  split at h
  · simp at h
  · next k hk =>
    obtain ⟨hk', hlen⟩ := index_append (e := e) hk
    have hsub : (bs "://").length = 3 := rfl
    rw [hk']
    simp only at h ⊢
    rw [List.drop_append_of_le_length (by omega), indexByte_append_of_not_mem he]
    split at h
    · simp at h
    · next rel hrel =>
      obtain ⟨hlt, hc⟩ := indexByte_drop hrel
      have hat : lastAt (p ++ e) (p ++ e).length (k + 3 + rel) = lastAt p p.length (k + 3 + rel) := by
        grind [lastAt_append, lastAt_fuel]
      obtain ⟨h1, h2, -⟩ := lastAt_spec p.length hlt hc
      simp only [hat]
      generalize lastAt p p.length (k + 3 + rel) = n at h h1 h2 ⊢
      rw [slice_append h2.le]
      split at h
      · simp at h
      · next colon hcolon =>
        have hcl := (indexByte_eq hcolon).1
        have hlen : (slice p (k + 3) n).length = n - (k + 3) := by simp [slice]; omega
        rw [slice_append (by omega), slice_append (by omega)]
        exact h

theorem not_mem_of_all_tail (hc : isTailByte c = false)
    (h : (url.drop n).all isTailByte = true) : c ∉ url.drop n := by
  intro hm
  rw [List.all_eq_true.mp h c hm] at hc
  simp at hc

end Peel

theorem firstIs_dropWhile_append {p e : Bytes} (hp : p.all isClosing = false) :
    firstIs ((p ++ e).dropWhile isClosing) isBlank = firstIs (p.dropWhile isClosing) isBlank := by
  have hne : (p.dropWhile isClosing).isEmpty = false := by simp_all
  rw [List.dropWhile_append, if_neg (by simp [hne])]
  cases hd : p.dropWhile isClosing with
  | nil => simp [hd] at hne
  | cons c t => rfl

theorem not_all_isClosing_of_mem (hc : isClosing c = false) (h : c ∈ url) : url.all isClosing = false := by
  grind

theorem mem_take_closingTail (hq : url.contains (chr '?') = true)
    (hn : urlClosingTail url = (n : Nat)) (hlt : n < url.length) :
    chr '?' ∈ url.take n ∧ (url.drop n).all isTailByte = true := by
  have htail : (url.drop n).all isTailByte = true := by grind [urlClosingTail_spec]
  refine ⟨?_, htail⟩
  have hmem : chr '?' ∈ url.take n ++ url.drop n := by
    rw [List.take_append_drop]
    simpa using hq
  exact (List.mem_append.mp hmem).resolve_right (not_mem_of_all_tail (by decide) htail)

theorem blankLed_peel (hp : urlPassword U url = none) (hq : url.contains (chr '?') = true)
    (hn : urlClosingTail url = (n : Nat)) (hlt : n < url.length) :
    blankLed U (url.take n) = blankLed U url := by
  obtain ⟨hmem, htail⟩ := mem_take_closingTail hq hn hlt
  have hnone : urlPassword U (url.take n) = none := by
    cases hr : urlPassword U (url.take n) with
    | none => rfl
    | some r =>
      have := urlPassword_append (not_mem_of_all_tail (by decide) htail) hr
      rw [List.take_append_drop, hp] at this
      simp at this
  have hfirst : firstIs (url.dropWhile isClosing) isBlank = firstIs ((url.take n).dropWhile isClosing) isBlank := by
    have h := firstIs_dropWhile_append (e := url.drop n) (not_all_isClosing_of_mem (by decide) hmem)
    rwa [List.take_append_drop] at h
  simp_all [blankLed]

theorem indexWhitespace_of_firstIs (h : firstIs (url.dropWhile isClosing) isBlank = true) :
    ∃ i, indexWhitespace url = some i ∧ (url.take i).all isClosing = true := by
  induction url with
  | nil => simp [firstIs] at h
  | cons c t ih =>
    cases hc : isClosing c with
    | true =>
      simp_all [List.dropWhile_cons_of_pos, indexWhitespace, List.findIdx?_cons,
        not_isBlank_of_isClosing]
    | false =>
      simp_all [List.dropWhile_cons_of_neg, isBlank, firstIs, indexWhitespace, List.findIdx?_cons]

theorem firstIs_of_indexWhitespace {i : Nat} (hi : indexWhitespace url = some i)
    (h : (url.take i).all isClosing = true) : firstIs (url.dropWhile isClosing) isBlank = true := by
  obtain ⟨hlt, hb⟩ := indexWhitespace_eq hi
  have hc : isClosing (byteAt url i) = false := by grind [not_isBlank_of_isClosing]
  rw [eq_take_cons_drop hlt, ← byteAt_eq hlt,
    List.dropWhile_append_of_pos (fun x hx => List.all_eq_true.mp h x hx),
    List.dropWhile_cons_of_neg (by simp [hc])]
  simpa [firstIs] using hb

theorem exists_mask_of_blankLed {st : ConfigState Num} {depth : Nat} {s : BaselineStats Num}
    (hb : blankLed st.unicode url = true)
    (hfuel : (st.machine.run n (.maskURLParameters url depth) s).res ≠ .error .outOfFuel) :
    ∃ g u, (st.machine.run n (.maskURLParameters url depth) s).Called g (.maskURLParameters u depth) ∧
      u.all isClosing = true := by
  induction n generalizing url s with
  | zero => simp [Machine.run] at hfuel
  | succ n ih =>
    have hb' := hb
    simp only [blankLed, Bool.and_eq_true, Option.isNone_iff_eq_none] at hb'
    obtain ⟨⟨hq, hp⟩, hfirst⟩ := hb'
    have hcall {u : Bytes} {k : Unit → Scan Num Unit}
        (hbody : st.maskURLParameters url depth = (enter (.maskURLParameters u depth) >>= k)) :
        (st.machine.run (n + 1) (.maskURLParameters url depth) s).Called (.maskURLParameters url depth)
            (.maskURLParameters u depth) ∧
          (st.machine.run n (.maskURLParameters u depth) s).PartOf false
            (st.machine.run (n + 1) (.maskURLParameters url depth) s) := by
      have hrun : st.machine.run (n + 1) (.maskURLParameters url depth) s =
          st.machine.exec (st.machine.run n) (.maskURLParameters url depth)
            (enter (.maskURLParameters u depth) >>= k) s := by
        rw [← hbody]
        rfl
      rw [hrun]
      have h := @Machine.exec_call (scanSig Num) Unit (st.machine.run n) st.machine
        (.maskURLParameters url depth) (.maskURLParameters u depth) k s
      exact ⟨⟨false, h.1⟩, h.2⟩
    by_cases hlt : urlClosingTail url < url.length
    · have hpos := contains_lt_closingTail hq
      have hm : urlClosingTail url = ((urlClosingTail url).toNat : Int) := (Int.toNat_of_nonneg hpos).symm
      obtain ⟨-, hpart⟩ := hcall (u := url.take (urlClosingTail url).toNat)
        (k := fun _ => .write (url.drop (urlClosingTail url).toNat)) (by
          simp only [maskURLParameters, hp, hq, Bool.not_true, Bool.false_eq_true, if_false]
          rw [if_pos hlt, if_neg (by omega)])
      obtain ⟨g, u, hgu, hall⟩ := ih ((blankLed_peel hp hq hm (by omega)).trans hb)
        (fun h => hfuel (hpart.res _ h))
      exact ⟨g, u, hpart.called hgu, hall⟩
    obtain ⟨i, hi, hall⟩ := indexWhitespace_of_firstIs hfirst
    obtain ⟨hcalled, -⟩ := hcall (u := url.take i)
      (k := fun _ => do let _ ← enter (.scanSegment (url.drop i) depth)) (by
        simp only [maskURLParameters, hp, hq, Bool.not_true, Bool.false_eq_true, if_false]
        rw [if_neg hlt, hi])
    exact ⟨_, _, hcalled, hall⟩

def MaskSafe (U : Unicode) : Frame → Prop
  | .maskURLParameters url _ => url.all isClosing = false ∧ blankLed U url = false
  | _ => True

theorem not_all_isClosing_of_masksToken {st : ConfigState Num} {tok : Bytes}
    (h : st.masksToken tok = true) : tok.all isClosing = false := by
  have hslash {k : Nat} (h : index (bs "://") tok = some k) : tok.all isClosing = false :=
    not_all_isClosing_of_mem (c := chr '/') (by decide) (mem_of_index h (by decide))
  simp only [masksToken, Bool.or_eq_true] at h
  rcases h with (h | h) | h
  · grind [urlPassword]
  · obtain ⟨k, hk⟩ := Option.isSome_iff_exists.mp h
    exact hslash hk
  unfold hasQueryShape at h
  split at h
  · next q hq =>
    obtain ⟨hlt, hc⟩ := indexByte_eq hq
    refine not_all_isClosing_of_mem (c := chr '?') (by decide) ?_
    rw [← hc, byteAt_eq hlt]
    exact List.getElem_mem hlt
  simp at h

theorem maskSafe_of_maskCut {u : Bytes} {depth : Nat} (h : MaskCut U url u)
    (hs : MaskSafe U (.maskURLParameters url depth)) : MaskSafe U (.maskURLParameters u depth) := by
  cases h with
  | @password i j h =>
    obtain ⟨-, hj, hat, -⟩ := urlPassword_spec h
    rw [List.drop_eq_getElem_cons hj, ← byteAt_eq hj, hat]
    refine ⟨not_all_isClosing_of_mem (c := chr '@') (by decide) (by simp), ?_⟩
    rw [blankLed, List.dropWhile_cons_of_neg (by decide)]
    simp [firstIs, isBlank]
  | @tail n hp hq hn hlt =>
    obtain ⟨hmem, -⟩ := mem_take_closingTail hq hn hlt
    exact ⟨not_all_isClosing_of_mem (by decide) hmem, (blankLed_peel hp hq hn hlt).trans hs.2⟩
  | @blank i hp hq ht hi =>
    have hfirst : firstIs (url.dropWhile isClosing) isBlank = false := by
      have := hs.2
      rwa [blankLed, hp, hq, Option.isNone_none, Bool.true_and, Bool.true_and] at this
    constructor
    · rw [Bool.eq_false_iff]
      grind [firstIs_of_indexWhitespace]
    rw [blankLed, Bool.and_eq_false_iff]
    right
    rw [Bool.eq_false_iff]
    grind [indexWhitespace_of_firstIs, indexWhitespace_eq, List.length_take_le, indexWhitespace,
      List.findIdx?_eq_some_iff_getElem, byteAt_eq]

/-- Masking slices in range in a run exactly if no token it is called on is blank-led. -/
theorem mask_in_range_iff (st : ConfigState Num) (b : BaselineStats Num) (line : Bytes) :
    (∀ g url depth, (st.scanAndRedact b line).Called g (.maskURLParameters url depth) →
        MaskInRange st.unicode url) ↔
      ∀ t url depth, (st.scanAndRedact b line).Called (.processTokenLogic t) (.maskURLParameters url depth) →
        blankLed st.unicode url = false := by
  constructor
  · rintro h t url depth ⟨c, he⟩
    by_contra hb
    obtain ⟨n, s, hpart⟩ := Machine.run_visit he
    have hfuel : (st.machine.run n (.maskURLParameters url depth) s).res ≠ .error .outOfFuel :=
      fun hf => scanAndRedact_fuel st b line (hpart.res _ hf)
    obtain ⟨g, u, hgu, hall⟩ := exists_mask_of_blankLed (by simpa using hb) hfuel
    have hrange := maskInRange_iff.mp (h g u depth (hpart.called hgu))
    rw [hall] at hrange
    simp at hrange
  rintro h g url depth ⟨c, he⟩
  have hsafe : MaskSafe st.unicode (.maskURLParameters url depth) := by
    refine (Machine.run_inv trivial (fun g f c he hg => ?_) he).2
    obtain ⟨hcalls, -⟩ := calls_of_mem_log he
    cases hcalls with
    | mask hd hm => exact ⟨not_all_isClosing_of_masksToken hm, h _ _ _ ⟨c, he⟩⟩
    | maskCut hu => exact maskSafe_of_maskCut hu hg
    | deeper _ hg => cases hg <;> trivial
    | _ => trivial
  exact maskInRange_iff.mpr hsafe.1

theorem mask_out_of_range : ¬ ∀ g url depth,
    (ConfigState.sample.scanAndRedact newBaselineStats (bs "\\\" a?x=1\\\"")).Called g (.maskURLParameters url depth) →
      MaskInRange ConfigState.sample.unicode url := by
  intro h
  have hfuel : scanFuel (bs "\\\" a?x=1\\\"") = 3080 := by decide +kernel
  have hany : (ConfigState.sample.machine.run 3080 (.scanLine (bs "\\\" a?x=1\\\"") 0) newBaselineStats).log.any
      (fun
        | .call _ (.maskURLParameters url _) _ => url.all isClosing
        | _ => false) = true := by decide +kernel
  rw [← hfuel] at hany
  obtain ⟨e, he, hu⟩ := List.any_eq_true.mp hany
  split at hu
  · have := maskInRange_iff.mp (h _ _ _ ⟨_, he⟩)
    rw [hu] at this
    simp at this
  simp at hu

end PiiShield
