import PiiShield.Cuts
import PiiShield.TokenLogic

/-! Where the functions that read a token cut it: around quotes, wrappings, separators,
the password of a URL and its closing punctuation. -/

namespace PiiShield

open ConfigState

section Quotes

variable {s : Bytes}

theorem parts_quoted (h : isBalancedQuoted s = true) :
    Parts s [s.take 1, slice s 1 (s.length - 1), s.take 1] := by
  simp only [isBalancedQuoted, Bool.and_eq_true, decide_eq_true_eq, beq_iff_eq] at h
  obtain ⟨⟨hlen, hq⟩, hlast⟩ := h
  have hq' := isASCII_of_isQuote hq
  have hend : byteAt s (s.length - 1) = byteAt s 0 := by rw [← lastByte_eq, hlast]
  have h1 : Bound s 1 := .after_ascii (by omega) hq'
  have h2 : Bound s (s.length - 1) := .at_ascii (by omega) (hend ▸ hq')
  have h := h1.parts_slice h2 (by omega)
  rwa [drop_pred (by omega), hend, ← take_one (by omega)] at h

theorem trimQuotes_of_balanced (h : isBalancedQuoted s = true) : trimQuotes s = slice s 1 (s.length - 1) := by
  simp only [isBalancedQuoted, Bool.and_eq_true, decide_eq_true_eq] at h
  rw [trimQuotes, if_neg (by omega), if_pos (by simp [h.1.2, h.2])]

theorem parts_bytesLiteral (h : isBytesLiteral s = true) :
    Parts s [s.take 2, slice s 2 (s.length - 1), slice s 1 2] := by
  simp only [isBytesLiteral, Bool.and_eq_true, decide_eq_true_eq, beq_iff_eq] at h
  obtain ⟨⟨⟨hlen, -⟩, hq⟩, hlast⟩ := h
  have hq' := isASCII_of_isQuote hq
  have hend : byteAt s (s.length - 1) = byteAt s 1 := by rw [← lastByte_eq, hlast]
  have h1 : Bound s 2 := .after_ascii (by omega) hq'
  have h2 : Bound s (s.length - 1) := .at_ascii (by omega) (hend ▸ hq')
  have h := h1.parts_slice h2 (by omega)
  have hs : slice s 1 2 = [byteAt s 1] := by
    match s with
    | [] => simp at hlen
    | [_] => simp at hlen
    | _ :: _ :: _ => rfl
  rwa [drop_pred (by omega), hend, ← hs] at h

theorem parts_wrap {pre post : Nat} (h : escapedOrBacktickWrap s = some (pre, post)) :
    Parts s [s.take pre, slice s pre (s.length - post), s.drop (s.length - post)] := by
  simp only [escapedOrBacktickWrap] at h
  split at h
  · next hc =>
    obtain ⟨rfl, rfl⟩ : pre = 2 ∧ post = 2 := by simpa [eq_comm] using h
    simp only [Bool.and_eq_true, decide_eq_true_eq, beq_iff_eq] at hc
    obtain ⟨⟨⟨⟨⟨hlen, -⟩, hq⟩, hb⟩, -⟩, -⟩ := hc
    have h1 : Bound s 2 := .after_ascii (by omega) (isASCII_of_isQuote hq)
    have h2 : Bound s (s.length - 2) := .at_ascii (by omega) (hb ▸ by decide)
    exact h1.parts_slice h2 (by omega)
  split at h
  · next hc =>
    obtain ⟨rfl, rfl⟩ : pre = 1 ∧ post = 1 := by simpa [eq_comm] using h
    simp only [Bool.and_eq_true, decide_eq_true_eq, beq_iff_eq] at hc
    obtain ⟨⟨⟨hlen, h0⟩, hb⟩, -⟩ := hc
    have h1 : Bound s 1 := .after_ascii (by omega) (h0 ▸ by decide)
    have h2 : Bound s (s.length - 1) := .at_ascii (by omega) (hb ▸ by decide)
    exact h1.parts_slice h2 (by omega)
  simp at h

end Quotes

section Separators

variable {s : Bytes}

theorem indexByte_eq {c : UInt8} {i : Nat} (h : indexByte s c = some i) : i < s.length ∧ byteAt s i = c := by
  simp only [indexByte, List.idxOf?, List.findIdx?_eq_some_iff_getElem] at h
  obtain ⟨hi, hc, -⟩ := h
  exact ⟨hi, by simpa [byteAt_eq hi] using hc⟩

theorem indexByte_drop {c : UInt8} {n i : Nat} (h : indexByte (s.drop n) c = some i) :
    n + i < s.length ∧ byteAt s (n + i) = c := by
  obtain ⟨hi, hc⟩ := indexByte_eq h
  rw [List.length_drop] at hi
  exact ⟨by omega, by rw [← byteAt_drop, hc]⟩

theorem eq_of_index {s sub : Bytes} {k : Nat} (h : index sub s = some k) :
    s = s.take k ++ (sub ++ s.drop (k + sub.length)) := by
  induction s generalizing k with
  | nil =>
    simp_all [index, Option.ite_none_right_eq_some]
  | cons c s ih =>
    rw [index] at h
    split at h
    · next hp =>
      cases h
      obtain ⟨t, ht⟩ := List.isPrefixOf_iff_prefix.mp hp
      rw [← ht]
      simp
    obtain ⟨j, hj, rfl⟩ := Option.map_eq_some_iff.mp h
    grind

theorem mem_of_index {s sub : Bytes} {k : Nat} (h : index sub s = some k) {c : UInt8} (hc : c ∈ sub) :
    c ∈ s := by
  rw [eq_of_index h]
  simp [hc]

theorem index_singleton (s : Bytes) (c : UInt8) : index [c] s = indexByte s c := by
  induction s with
  | nil => rfl
  | cons b s ih =>
    rw [index, ih, indexByte, indexByte, List.idxOf?_cons]
    by_cases hb : b = c
    · simp [hb]
    simp [hb, Ne.symm hb]

theorem parts_cut {c : UInt8} (hc : isASCII c = true) {a b : Bytes} (h : cut s [c] = some (a, b)) :
    Parts s [a, [c], b] := by
  grind [cut, index_singleton, Option.map_eq_some_iff, Prod.mk.injEq, indexByte_eq, Parts.around]

theorem parts_equals {a b : Bytes} (h : cut s (bs "=") = some (a, b)) : Parts s [a, bs "=", b] :=
  parts_cut (by decide) h

theorem colonIndex_eq {i : Nat} (h : colonIndex s = some i) : i < s.length ∧ byteAt s i = ':' := by
  unfold colonIndex at h
  split at h
  · split at h
    · simp only [Option.map_eq_some_iff] at h
      obtain ⟨j, hj, rfl⟩ := h
      exact indexByte_drop hj
    exact indexByte_eq h
  exact indexByte_eq h

theorem parts_colon {i : Nat} (h : colonIndex s = some i) : Parts s [s.take i, bs ":", s.drop (i + 1)] := by
  obtain ⟨hi, hc⟩ := colonIndex_eq h
  have h := Parts.around hi (hc ▸ by decide)
  rwa [hc] at h

theorem encodes_fullWidthColon : Encodes fullWidthColon 0xFF1A := by
  have h : Encodes [0xEF, 0xBC, 0x9A] _ := encodes_three rfl rfl rfl
  exact h

theorem parts_wideColon {i : Nat} (h : wideColonIndex s = some i) :
    Parts s [s.take i, fullWidthColon, s.drop (i + fullWidthColon.length)] := by
  unfold wideColonIndex at h
  split at h
  · split at h
    · next j _ hc =>
      obtain rfl : j = i := by simpa using h
      simp only [Bool.and_eq_true, hasPrefix] at hc
      obtain ⟨t, ht⟩ := List.isPrefixOf_iff_prefix.mp hc.1.2
      have htail : s.drop (j + fullWidthColon.length) = t := by
        simp [← List.drop_drop, ← ht]
      have hs : s = s.take j ++ (fullWidthColon ++ t) := by simp [ht]
      have hj : Bound s j := .before (by rw [← ht]; simp [fullWidthColon]; decide)
      rw [htail]
      refine ⟨by simpa using hs, ?_⟩
      simp only [List.mem_cons, List.not_mem_nil, or_false, forall_eq_or_imp, forall_eq]
      refine ⟨hj.cut_take, ⟨?_, fun _ => rfl⟩, ⟨?_, fun hv => ?_⟩⟩
      · exact asciiCount_le_of_sublist (by rw [hs]; simp)
      · exact asciiCount_le_of_sublist (by rw [← htail]; exact List.drop_sublist _ s)
      rw [← encodes_fullWidthColon.utf8Valid_append, ht]
      exact (hj hv).2
    simp at h
  simp at h

theorem bound_phraseAssignment {i : Nat} (h : phraseAssignment s = some i) : Bound s (i + 1) := by
  unfold phraseAssignment at h
  split at h
  · next j hj =>
    split at h
    · obtain rfl : j = i := by simpa using h
      obtain ⟨hlt, hc⟩ := indexByte_eq hj
      exact .after_ascii hlt (hc ▸ by decide)
    simp at h
  simp at h

theorem splitCompactPair_colon {k v : Bytes} (h : splitCompactPair s = some (k, v)) :
    k.length + 2 < s.length ∧ byteAt s (k.length + 2) = ':' := by
  simp only [splitCompactPair] at h
  split at h
  · simp at h
  split at h
  · simp at h
  · next j hj =>
    split at h
    · simp at h
    · next hcolon =>
      split at h
      · simp at h
      simp only [Option.some.injEq, Prod.mk.injEq] at h
      obtain ⟨rfl, -⟩ := h
      have hlt := (indexByte_drop hj).1
      have hk : (slice s 1 (j + 1)).length = j := by simp [slice]; omega
      simp only [Bool.not_eq_true', Bool.not_eq_false, firstIs, List.head?_drop,
        Option.any_eq_true, beq_iff_eq] at hcolon
      grind [byteAt_eq]

theorem parts_compactPair {k v : Bytes} (h : splitCompactPair s = some (k, v)) :
    Parts s [s.take (k.length + 2), bs ":", s.drop (k.length + 3)] := by
  obtain ⟨hi, hc⟩ := splitCompactPair_colon h
  have h := Parts.around hi (hc ▸ by decide)
  rwa [hc] at h

theorem bound_phrasePair {k : Bytes} {n : Nat} (h : phrasePair s = some (k, n)) : Bound s n := by
  unfold phrasePair at h
  split at h
  · next hk =>
    split at h
    · simp only [Option.some.injEq, Prod.mk.injEq] at h
      obtain ⟨rfl, rfl⟩ := h
      obtain ⟨hi, hc⟩ := splitCompactPair_colon hk
      exact .after_ascii hi (hc ▸ by decide)
    simp at h
  simp at h

theorem bound_pythonLogPrefixEnd (h : 0 < pythonLogPrefixEnd s) : Bound s (pythonLogPrefixEnd s) := by
  revert h
  unfold pythonLogPrefixEnd
  split
  · simp
  · next colon hcolon =>
    simp only
    split
    · simp
    split
    · simp
    split
    · next hfirst =>
      intro _
      simp only [firstIs, List.head?_drop, Option.any_eq_true, beq_iff_eq] at hfirst
      obtain ⟨c, hc, rfl⟩ := hfirst
      rw [List.getElem?_drop] at hc
      obtain ⟨hi, hc⟩ := List.getElem?_eq_some_iff.mp hc
      exact .after_ascii hi (by rw [byteAt_eq hi, hc]; decide)
    simp

end Separators

section Urls

variable {U : Unicode} {url : Bytes}

theorem byteAt_slice {s : Bytes} {i j n : Nat} (hn : i + n < j) : byteAt (slice s i j) n = byteAt s (i + n) := by
  simp [byteAt, slice, List.getD_eq_getElem?_getD, hn]

theorem lastAt_spec {s : Bytes} (fuel : Nat) {n : Nat} (hn : n < s.length) (hc : byteAt s n = '@') :
    n ≤ lastAt s fuel n ∧ lastAt s fuel n < s.length ∧ byteAt s (lastAt s fuel n) = '@' := by
  induction fuel generalizing n with
  | zero => exact ⟨le_rfl, hn, hc⟩
  | succ fuel ih =>
    unfold lastAt
    split
    · exact ⟨le_rfl, hn, hc⟩
    · next k hk =>
      split
      · exact ⟨le_rfl, hn, hc⟩
      obtain ⟨hlt, hc'⟩ := indexByte_drop hk
      obtain ⟨h1, h2, h3⟩ := ih hlt hc'
      exact ⟨by omega, h2, h3⟩

theorem lastAt_fuel {s : Bytes} {n m i : Nat} (hn : s.length ≤ i + 1 + n) (hm : s.length ≤ i + 1 + m) :
    lastAt s n i = lastAt s m i := by
  have stop {i : Nat} (h : s.length ≤ i + 1) (k : Nat) : lastAt s k i = i := by
    cases k with
    | zero => rfl
    | succ k => simp [lastAt, List.drop_of_length_le h, indexByte]
  induction n generalizing m i with
  | zero => rw [stop (by omega), stop (by omega)]
  | succ n ih =>
    match m with
    | 0 => rw [stop (by omega), stop (by omega)]
    | m + 1 =>
      unfold lastAt
      split
      · rfl
      split
      · rfl
      exact ih (by omega) (by omega)

theorem urlPassword_spec {i j : Nat} (h : urlPassword U url = some (i, j)) :
    i ≤ j ∧ j < url.length ∧ byteAt url j = '@' ∧ 0 < i ∧ byteAt url (i - 1) = ':' := by
  unfold urlPassword at h
  split at h
  · simp at h
  · next k _ =>
    simp only at h
    split at h
    · simp at h
    · next rel hrel =>
      obtain ⟨hlt, hc⟩ := indexByte_drop hrel
      obtain ⟨h1, h2, h3⟩ := lastAt_spec url.length hlt hc
      generalize lastAt url url.length (k + 3 + rel) = n at h h1 h2 h3
      split at h
      · simp at h
      · next colon hcolon =>
        obtain ⟨hcl, hcc⟩ := indexByte_eq hcolon
        have hlen : (slice url (k + 3) n).length = n - (k + 3) := by simp [slice]; omega
        rw [byteAt_slice (by omega)] at hcc
        grind

theorem parts_password {i j : Nat} (h : urlPassword U url = some (i, j)) :
    Parts url [url.take i, slice url i j, url.drop j] := by
  obtain ⟨hij, hj, hat, hi, hcolon⟩ := urlPassword_spec h
  have h1 : Bound url (i - 1 + 1) := .after_ascii (by omega) (hcolon ▸ by decide)
  rw [Nat.sub_add_cancel hi] at h1
  exact h1.parts_slice (.at_ascii hj (hat ▸ by decide)) hij

theorem lastIndexByte_eq {s : Bytes} {c : UInt8} {i : Nat} (h : lastIndexByte s c = some i) :
    i < s.length ∧ byteAt s i = c := by
  simp only [lastIndexByte, Option.map_eq_some_iff] at h
  obtain ⟨k, hk, rfl⟩ := h
  obtain ⟨hlt, hc⟩ := indexByte_eq (s := s.reverse) hk
  grind [byteAt_eq]

theorem lastQuote_spec (url : Bytes) : lastQuote url = -1 ∧ url.any isQuote = false ∨
      ∃ i, i < url.length ∧ isQuote (byteAt url i) = true ∧ lastQuote url = i := by
  have none_of {c : UInt8} (h : lastIndexByte url c = none) : c ∉ url := by
    simpa [lastIndexByte, List.idxOf?_eq_none_iff] using h
  unfold lastQuote
  cases hd : lastIndexByte url dquote with
  | none =>
    cases hs : lastIndexByte url squote with
    | none =>
      refine .inl ⟨rfl, ?_⟩
      simp only [List.any_eq_false, isQuote, Bool.or_eq_true, beq_iff_eq]
      rintro c hc (rfl | rfl)
      exacts [none_of hd hc, none_of hs hc]
    | some j =>
      obtain ⟨hj, hc⟩ := lastIndexByte_eq hs
      exact .inr ⟨j, hj, hc ▸ by decide, by simp only [goIndex]; omega⟩
  | some i =>
    obtain ⟨hi, hci⟩ := lastIndexByte_eq hd
    cases hs : lastIndexByte url squote with
    | none => exact .inr ⟨i, hi, hci ▸ by decide, by simp only [goIndex]; omega⟩
    | some j =>
      obtain ⟨hj, hcj⟩ := lastIndexByte_eq hs
      rcases Nat.le_total i j with h | h
      · exact .inr ⟨j, hj, hcj ▸ by decide, by simp only [goIndex]; omega⟩
      exact .inr ⟨i, hi, hci ▸ by decide, by simp only [goIndex]; omega⟩

def isTailByte (c : UInt8) : Bool := c == backslash || isQuote c || isClosing c

theorem isASCII_of_isTailByte {c : UInt8} (h : isTailByte c = true) : isASCII c = true := by
  simp only [isTailByte, Bool.or_eq_true, beq_iff_eq] at h
  rcases h with (rfl | h) | h
  · decide
  · exact isASCII_of_isQuote h
  have hall : (bs ":,.;)]\x7d>").all isASCII = true := by decide
  exact List.all_eq_true.mp hall c (by simpa [isClosing] using h)

theorem byteAt_of_backslashes {url : Bytes} {i : Nat} (hi : i < url.length)
    (h : 0 < ((url.take i).reverse.takeWhile (· == backslash)).length) :
    i ≠ 0 ∧ byteAt url (i - 1) = backslash := by
  obtain ⟨c, t, hct⟩ := List.exists_cons_of_length_pos h
  have hc : c = backslash := by grind [List.mem_takeWhile_imp, List.mem_cons_self]
  have hpre : c :: t <+: (url.take i).reverse := hct ▸ List.takeWhile_prefix _
  have h0 : (url.take i).reverse[0]? = some c := by
    obtain ⟨z, hz⟩ := hpre
    rw [← hz]
    rfl
  have hi0 : i ≠ 0 := by
    rintro rfl
    simp at h
  refine ⟨hi0, ?_⟩
  rw [List.getElem?_reverse (by simp; omega), List.length_take, Nat.min_eq_left hi.le,
    List.getElem?_take_of_lt (by omega), Nat.sub_zero] at h0
  rw [byteAt, List.getD_eq_getElem?_getD, h0, hc]
  rfl

theorem urlClosingTail_spec (url : Bytes) : urlClosingTail url = url.length ∨
      (∃ n, urlClosingTail url = (n : Nat) ∧ n < url.length ∧ (url.drop n).all isTailByte = true) ∨
      urlClosingTail url = -1 ∧ url.all isClosing = true := by
  unfold urlClosingTail
  simp only
  split
  · exact .inl rfl
  split
  · exact .inl rfl
  · next hclose =>
    rcases lastQuote_spec url with ⟨h, -⟩ | ⟨i, hi, hiq, h⟩
    · refine .inr (.inr ?_)
      rw [h] at hclose ⊢
      simpa using hclose
    refine .inr (.inl ?_)
    rw [h] at hclose ⊢
    have hafter : (url.drop (i + 1)).all isTailByte = true := by simp_all [isTailByte]
    have hquote : (url.drop i).all isTailByte = true := by
      grind [List.drop_eq_getElem_cons, byteAt_eq, isTailByte]
    split
    · next hodd =>
      rw [Int.toNat_natCast, beq_iff_eq] at hodd
      obtain ⟨hi0, hb⟩ := byteAt_of_backslashes hi (by omega)
      refine ⟨i - 1, by omega, by omega, ?_⟩
      rw [List.drop_eq_getElem_cons (by omega), List.all_cons, Nat.sub_add_cancel (by omega), hquote,
        ← byteAt_eq (by omega), hb]
      decide
    exact ⟨i, rfl, hi, hquote⟩

theorem byteAt_tail {n : Nat} (hn : n < url.length) (h : (url.drop n).all isTailByte = true) :
    isTailByte (byteAt url n) = true := by
  rw [List.drop_eq_getElem_cons hn, List.all_cons, Bool.and_eq_true] at h
  rw [byteAt_eq hn]
  exact h.1

theorem bound_closingTail {n : Nat} (h : urlClosingTail url = (n : Nat)) : Bound url n := by
  rcases urlClosingTail_spec url with h' | ⟨m, h', hm, hc⟩ | ⟨h', -⟩
  · obtain rfl : n = url.length := by omega
    intro hv
    simpa using hv
  · obtain rfl : n = m := by omega
    exact .at_ascii hm (isASCII_of_isTailByte (byteAt_tail hm hc))
  omega

theorem indexWhitespace_eq {i : Nat} (h : indexWhitespace url = some i) :
    i < url.length ∧ isBlank (byteAt url i) = true := by
  grind [indexWhitespace, List.findIdx?_eq_some_iff_getElem, byteAt_eq]

theorem intercalate_cons {sep p q : Bytes} {ps : List Bytes} :
    sep.intercalate (p :: q :: ps) = p ++ (sep ++ sep.intercalate (q :: ps)) := by
  simp [List.intercalate]

theorem sublist_intercalate {sep p : Bytes} {ps : List Bytes} (hp : p ∈ ps) :
    p.Sublist (sep.intercalate ps) := by
  match ps with
  | [] => simp at hp
  | [q] =>
    obtain rfl : p = q := by simpa using hp
    simp [List.intercalate]
  | q :: r :: ps =>
    rw [intercalate_cons]
    rcases List.mem_cons.mp hp with rfl | hp
    · exact List.sublist_append_left _ _
    exact (sublist_intercalate hp).trans
      ((List.sublist_append_right _ _).trans (List.sublist_append_right _ _))

theorem utf8Valid_of_intercalate {c : UInt8} (hc : isASCII c = true) {ps : List Bytes}
    (h : utf8Valid ([c].intercalate ps) = true) {p : Bytes} (hp : p ∈ ps) : utf8Valid p = true := by
  match ps with
  | [] => simp at hp
  | [q] =>
    obtain rfl : p = q := by simpa using hp
    simpa [List.intercalate] using h
  | q :: r :: ps =>
    rw [intercalate_cons] at h
    obtain ⟨hq, hps⟩ := (utf8Valid_append_ascii_cons hc _ _).mp h
    rcases List.mem_cons.mp hp with rfl | hp
    · exact hq
    exact utf8Valid_of_intercalate hc hps hp

theorem cut_of_mem_splitOn {c : UInt8} (hc : isASCII c = true) {s p : Bytes} (hp : p ∈ s.splitOn c) :
    Cut s p := by
  have hs : [c].intercalate (s.splitOn c) = s := List.intercalate_splitOn c
  refine ⟨?_, fun h => utf8Valid_of_intercalate hc (by rwa [hs]) hp⟩
  have := asciiCount_le_of_sublist (sublist_intercalate hp : p.Sublist ([c].intercalate _))
  rwa [hs] at this

theorem bound_pathSignature (seg : Bytes) : Bound seg (urlPathSignature seg).1 := by
  unfold urlPathSignature
  split
  · exact .zero seg
  split
  · next h =>
    simp only [Bool.and_eq_true] at h
    obtain ⟨t, rfl⟩ := List.isPrefixOf_iff_prefix.mp h.1
    have hlen : (bs "bot").length = 3 := rfl
    exact .after_ascii (by rw [List.length_append]; omega) rfl
  exact .zero seg

end Urls

end PiiShield
