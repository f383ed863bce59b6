import PiiShield.Unicode
import PiiShield.Utf8Facts

/-! What `strings.TrimSpace` and `strings.ToLower` leave of a text, read rune by rune. -/

namespace PiiShield

variable {U : Unicode} {c s : Bytes}

theorem decodeRune_single {b : UInt8} (h : isASCII b = false) : decodeRune [b] = (runeError, 1) := by
  simp_all [isASCII, decodeRune]

theorem chunk_cases (b : UInt8) (t : Bytes) : ∃ c rest, b :: t = c ++ rest ∧ c ≠ [] ∧
    decodeRune (b :: t) = ((decodeRune c).1, c.length) := by
  rcases decodeRune_cons b t with hd | ⟨c, rest, r, hs, hd, he⟩
  · refine ⟨[b], t, rfl, by simp, ?_⟩
    rw [hd, decodeRune_single (not_isASCII_of_decodeRune_eq hd)]
    rfl
  obtain ⟨x, y, hc, -⟩ := he.lead
  have hself := he.decode []
  grind

theorem chunks_append {rest : Bytes} (hc : c ≠ [])
    (hd : decodeRune (c ++ rest) = ((decodeRune c).1, c.length)) : chunks (c ++ rest) = c :: chunks rest := by
  obtain ⟨x, y, rfl⟩ := List.exists_cons_of_ne_nil hc
  simp_all [chunks, runesFrom_cons, chunksOf]

theorem runes_append {rest : Bytes} (hc : c ≠ [])
    (hd : decodeRune (c ++ rest) = ((decodeRune c).1, c.length)) :
    runes (c ++ rest) = (decodeRune c).1 :: runes rest := by
  obtain ⟨x, y, rfl⟩ := List.exists_cons_of_ne_nil hc
  simp_all [runes, runesFrom_cons]

theorem chunk_induction {P : Bytes → Prop} (nil : P [])
    (append : ∀ c t, c ≠ [] → decodeRune (c ++ t) = ((decodeRune c).1, c.length) → P t → P (c ++ t))
    (s : Bytes) : P s := by
  induction hn : s.length using Nat.strong_induction_on generalizing s with
  | _ n ih =>
    match s with
    | [] => exact nil
    | b :: t =>
      obtain ⟨c, rest, hs, hc, hd⟩ := chunk_cases b t
      rw [hs] at hn hd ⊢
      refine append c rest hc hd (ih rest.length ?_ rest rfl)
      have hpos := List.length_pos_iff.mpr hc
      rw [← hn, List.length_append]
      omega

theorem flatten_chunks (s : Bytes) : (chunks s).flatten = s := by
  induction s using chunk_induction with
  | nil => rfl
  | append c t hc hd ih => rw [chunks_append hc hd, List.flatten_cons, ih]

theorem ne_nil_of_mem_chunks (h : c ∈ chunks s) : c ≠ [] := by
  induction s using chunk_induction with
  | nil => simp [chunks, chunksOf, runesFrom] at h
  | append d t hd hdec ih =>
    grind [chunks_append]

theorem runes_eq_map_chunks (s : Bytes) : runes s = (chunks s).map fun c => (decodeRune c).1 := by
  induction s using chunk_induction with
  | nil => rfl
  | append c t hc hd ih => rw [runes_append hc hd, chunks_append hc hd, List.map_cons, ih]

theorem rdropWhile_dropWhile_eq_nil_iff {α : Type} {p : α → Bool} {l : List α} :
    (l.dropWhile p).rdropWhile p = [] ↔ ∀ x ∈ l, p x = true := by
  rw [List.rdropWhile_eq_nil_iff]
  constructor
  · intro h
    have hnil : l.dropWhile p = [] := by
      by_contra hne
      have hfalse := List.head_dropWhile_not p hne
      rw [h _ (List.head_mem hne)] at hfalse
      cases hfalse
    simpa using hnil
  intro h x hx
  exact h x ((List.dropWhile_sublist p).mem hx)

theorem decodeRune_of_mem_chunks (h : c ∈ chunks s) {x : UInt8} (hx : x ∈ c)
    (hascii : isASCII x = true) : (decodeRune c).1 = x.toNat := by
  have hlead (t : Bytes) (ht : t.all isCont = true) (b : UInt8) (hmem : x ∈ b :: t) : x = b := by
    grind [not_isCont_of_isASCII]
  have hlt : x < 0x80 := by simpa [isASCII] using hascii
  induction s using chunk_induction with
  | nil => simp [chunks, chunksOf, runesFrom] at h
  | append d t hd hdec ih =>
    rw [chunks_append hd hdec, List.mem_cons] at h
    rcases h with rfl | h
    · obtain ⟨b, y, rfl⟩ := List.exists_cons_of_ne_nil hd
      rcases decodeRune_cons b (y ++ t) with herr | ⟨e, rest, r, hs, hr, he⟩
      · rw [← List.cons_append, hdec] at herr
        have hy : y = [] := by simpa using congrArg Prod.snd herr
        grind [decodeRune]
      rw [← List.cons_append, hdec] at hr
      rw [← List.cons_append] at hs
      have hlen := congrArg Prod.snd hr
      have heq : b :: y = e := (List.append_inj hs hlen).1
      obtain ⟨b', y', he', -, hcont⟩ := he.lead
      rw [← heq] at he'
      cases he'
      have hxb := hlead y hcont b hx
      subst hxb
      simp [decodeRune, hlt]
    exact ih h

theorem trimSpace_split (s : Bytes) : ∃ a b, s = a ++ trimSpace s ++ b ∧
    ∀ x ∈ a ++ b, isASCII x = true → isSpaceRune x.toNat = true := by
  let space (c : Bytes) : Bool := isSpaceRune (decodeRune c).1
  let rest := (chunks s).dropWhile space
  have hparts : chunks s = (chunks s).takeWhile space ++ (rest.rdropWhile space ++ rest.rtakeWhile space) := by
    rw [List.rdropWhile_append_rtakeWhile, List.takeWhile_append_dropWhile]
  refine ⟨((chunks s).takeWhile space).flatten, (rest.rtakeWhile space).flatten, ?_, ?_⟩
  · have hflat := congrArg List.flatten hparts
    rw [flatten_chunks, List.flatten_append, List.flatten_append, ← List.append_assoc] at hflat
    exact hflat
  intro x hx hascii
  have hspace (l : List Bytes) (hl : ∀ c ∈ l, c ∈ chunks s ∧ space c = true) (hmem : x ∈ l.flatten) :
      isSpaceRune x.toNat = true := by
    obtain ⟨c, hc, hxc⟩ := List.mem_flatten.mp hmem
    rw [← decodeRune_of_mem_chunks (hl c hc).1 hxc hascii]
    exact (hl c hc).2
  grind [List.mem_takeWhile_imp, List.mem_rtakeWhile_imp]

theorem mem_trimSpace_iff {x : UInt8} (hascii : isASCII x = true)
    (hspace : isSpaceRune x.toNat = false) : x ∈ trimSpace s ↔ x ∈ s := by
  obtain ⟨a, b, hs, hab⟩ := trimSpace_split s
  grind

theorem trimSpace_of_no_space (h : ∀ x ∈ s, isASCII x = true ∧ isSpaceRune x.toNat = false) :
    trimSpace s = s := by
  obtain ⟨a, b, hs, hab⟩ := trimSpace_split s
  have hnil : a ++ b = [] := by
    rw [List.eq_nil_iff_forall_not_mem]
    intro x hx
    have hmem : x ∈ s := by
      rw [hs]
      rcases List.mem_append.mp hx with hx | hx <;> simp [hx]
    have htrue := hab x hx (h x hmem).1
    rw [(h x hmem).2] at htrue
    cases htrue
  obtain ⟨rfl, rfl⟩ := List.append_eq_nil_iff.mp hnil
  simpa using hs.symm

theorem trimSpace_eq_nil_iff : trimSpace s = [] ↔ ∀ r ∈ runes s, isSpaceRune r = true := by
  have hkept (l : List Bytes) (hl : ∀ c ∈ l, c ≠ []) : l.flatten = [] ↔ l = [] := by
    rw [List.flatten_eq_nil_iff]
    constructor
    · intro h
      exact List.eq_nil_iff_forall_not_mem.mpr fun c hc => hl c hc (h c hc)
    rintro rfl
    simp
  rw [trimSpace, hkept, rdropWhile_dropWhile_eq_nil_iff, runes_eq_map_chunks, List.forall_mem_map]
  grind [ne_nil_of_mem_chunks, List.dropWhile_sublist, List.rdropWhile_prefix]

theorem decodeRune_of_append {x y : Bytes} (hc : c ≠ [])
    (hd : decodeRune (c ++ (x ++ y)) = ((decodeRune c).1, c.length)) :
    decodeRune (c ++ x) = ((decodeRune c).1, c.length) := by
  obtain ⟨b, t, rfl⟩ := List.exists_cons_of_ne_nil hc
  rcases decodeRune_cons b (t ++ x) with herr | ⟨e, rest, r, hs, hr, he⟩
  · rcases decodeRune_cons b (t ++ (x ++ y)) with herr' | ⟨e, rest, r, hs, hr, he⟩
    · rw [List.cons_append] at hd ⊢
      rw [herr, ← hd, herr']
    rw [List.cons_append, hr] at hd
    have hwhole : b :: t ++ (x ++ y) = e ++ rest := hs
    have heq : b :: t = e := (List.append_inj hwhole (congrArg Prod.snd hd).symm).1
    rw [heq, he.decode x, hd, heq]
  have hwhole : b :: t ++ (x ++ y) = e ++ (rest ++ y) := by
    grind
  rw [hwhole, he.decode] at hd
  rw [List.cons_append, hr, hd]

theorem chunks_flatten_left {l m : List Bytes} (h : chunks s = l ++ m) : chunks l.flatten = l := by
  induction s using chunk_induction generalizing l with
  | nil =>
    have hnil : l = [] := (List.append_eq_nil_iff.mp h.symm).1
    rw [hnil]
    rfl
  | append c t hc hd ih =>
    rw [chunks_append hc hd] at h
    match l with
    | [] => rfl
    | d :: l =>
      rw [List.cons_append, List.cons.injEq] at h
      obtain ⟨rfl, h⟩ := h
      have hrest : t = l.flatten ++ m.flatten := by rw [← List.flatten_append, ← h, flatten_chunks]
      rw [hrest] at hd
      rw [List.flatten_cons, chunks_append hc (decodeRune_of_append hc hd), ih h]

theorem chunks_flatten_right {l m : List Bytes} (h : chunks s = l ++ m) : chunks m.flatten = m := by
  induction s using chunk_induction generalizing l with
  | nil =>
    have hnil : m = [] := (List.append_eq_nil_iff.mp h.symm).2
    rw [hnil]
    rfl
  | append c t hc hd ih =>
    match l with
    | [] =>
      rw [List.nil_append] at h
      rw [← h, flatten_chunks]
    | d :: l =>
      rw [chunks_append hc hd, List.cons_append, List.cons.injEq] at h
      exact ih h.2

theorem chunks_trimSpace (s : Bytes) : chunks (trimSpace s) =
    ((chunks s).dropWhile fun c => isSpaceRune (decodeRune c).1).rdropWhile fun c => isSpaceRune (decodeRune c).1 := by
  let space (c : Bytes) : Bool := isSpaceRune (decodeRune c).1
  have hrest : chunks ((chunks s).dropWhile space).flatten = (chunks s).dropWhile space :=
    chunks_flatten_right (s := s) (List.takeWhile_append_dropWhile (p := space)).symm
  exact chunks_flatten_left (hrest.trans (List.rdropWhile_append_rtakeWhile).symm)

theorem trimSpace_trimSpace (s : Bytes) : trimSpace (trimSpace s) = trimSpace s := by
  let space (c : Bytes) : Bool := isSpaceRune (decodeRune c).1
  let rest := (chunks s).dropWhile space
  have hkept : chunks (trimSpace s) = rest.rdropWhile space := chunks_trimSpace s
  have hhead : (rest.rdropWhile space).dropWhile space = rest.rdropWhile space := by
    rw [List.dropWhile_eq_self_iff]
    intro hl hspace
    obtain ⟨x, xs, hx⟩ := List.exists_cons_of_ne_nil (List.length_pos_iff.mp hl)
    obtain ⟨ys, hys⟩ := List.rdropWhile_prefix space rest
    rw [hx] at hys
    have hne : rest ≠ [] := by rw [← hys]; simp
    have hfalse := List.head_dropWhile_not space (l := chunks s) hne
    have heq : rest.head hne = x := by
      simp [← hys]
    simp only [hx, List.getElem_cons_zero] at hspace
    rw [show ((chunks s).dropWhile space).head hne = x from heq, hspace] at hfalse
    cases hfalse
  grind [trimSpace, chunks, List.rdropWhile_idempotent]

theorem runes_flatMap_encodeRune (f : Nat → Nat) (l : List Nat) :
    runes (l.flatMap fun r => encodeRune (f r)) = l.map fun r => writtenRune (f r) := by
  induction l with
  | nil => rfl
  | cons r l ih =>
    have he : Encodes (encodeRune (f r)) (writtenRune (f r)) := encodes_encodeRune (f r)
    rw [List.flatMap_cons, runes, he.runesFrom_append, List.map_cons, List.map_cons, ← ih]
    rfl

theorem runes_toLowerString (U : Unicode) (s : Bytes) :
    runes (U.toLowerString s) = (runes s).map fun r => writtenRune (U.lowerRune r) :=
  runes_flatMap_encodeRune U.lowerRune (runes s)

theorem toLowerString_eq_nil_iff : U.toLowerString s = [] ↔ s = [] := by
  constructor
  · intro h
    have hrunes := runes_toLowerString U s
    rw [h] at hrunes
    by_contra hne
    obtain ⟨b, t, rfl⟩ := List.exists_cons_of_ne_nil hne
    rw [runes, runes, runesFrom_cons] at hrunes
    simp [runesFrom] at hrunes
  rintro rfl
  rfl

def Unicode.LowersNoSpace (U : Unicode) : Prop :=
  ∀ r, isSpaceRune (U.lowerRune r) = true → isSpaceRune r = true

theorem trimSpace_toLowerString_ne_nil (hU : U.LowersNoSpace)
    (h : trimSpace s ≠ []) : trimSpace (U.toLowerString s) ≠ [] := by
  intro hnil
  apply h
  rw [trimSpace_eq_nil_iff] at hnil ⊢
  intro r hr
  apply hU r
  have hspace : isSpaceRune (writtenRune (U.lowerRune r)) = true := by
    apply hnil
    rw [runes_toLowerString]
    exact List.mem_map_of_mem hr
  by_cases hs : isScalar (U.lowerRune r) = true
  · rwa [writtenRune, if_pos hs] at hspace
  rw [writtenRune, if_neg hs] at hspace
  cases hspace

theorem kept_eq_self_iff {α : Type} {p : α → Bool} {l : List α} : (l.dropWhile p).rdropWhile p = l ↔
    (∀ x, l.head? = some x → p x = false) ∧ ∀ x, l.getLast? = some x → p x = false := by
  constructor
  · intro h
    have hhead := List.rdropWhile_prefix p (l.dropWhile p)
    rw [h] at hhead
    have hdrop : l.dropWhile p = l :=
      ((List.dropWhile_suffix p).sublist.eq_of_length_le hhead.length_le)
    rw [hdrop] at h
    rw [List.dropWhile_eq_self_iff] at hdrop
    rw [List.rdropWhile_eq_self_iff] at h
    cases l with
    | nil => simp
    | cons y l =>
      grind
  rintro ⟨hhead, hlast⟩
  have hdrop : l.dropWhile p = l := by
    rw [List.dropWhile_eq_self_iff]
    intro hl
    cases l with
    | nil => exact absurd hl (by simp)
    | cons y l => simpa using hhead y rfl
  grind [List.rdropWhile_eq_self_iff]

theorem trimSpace_eq_self_iff : trimSpace s = s ↔ (∀ r, (runes s).head? = some r → isSpaceRune r = false) ∧
      ∀ r, (runes s).getLast? = some r → isSpaceRune r = false := by
  have hkept : trimSpace s = s ↔ ((chunks s).dropWhile fun c => isSpaceRune (decodeRune c).1).rdropWhile
      (fun c => isSpaceRune (decodeRune c).1) = chunks s := by
    grind [chunks_trimSpace, flatten_chunks]
  simp_all [kept_eq_self_iff, runes_eq_map_chunks]

/-- A lowered rune stays as it is when it is lowered again. -/
def Unicode.LowersOnce (U : Unicode) : Prop :=
  ∀ r, U.lowerRune (writtenRune (U.lowerRune r)) = writtenRune (U.lowerRune r)

theorem isSpaceRune_writtenRune {r : Nat} (h : isSpaceRune r = false) : isSpaceRune (writtenRune r) = false := by
  by_cases hs : isScalar r = true
  · rwa [writtenRune, if_pos hs]
  rw [writtenRune, if_neg hs]
  rfl

theorem trimSpace_toLowerString (hU : U.LowersNoSpace) (h : trimSpace s = s) :
    trimSpace (U.toLowerString s) = U.toLowerString s := by
  have hlower (r : Nat) (hr : isSpaceRune r = false) : isSpaceRune (writtenRune (U.lowerRune r)) = false := by
    apply isSpaceRune_writtenRune
    by_contra hspace
    rw [hU r (by simpa using hspace)] at hr
    cases hr
  simp_all [trimSpace_eq_self_iff, runes_toLowerString]

theorem encodeRune_writtenRune (r : Nat) : encodeRune (writtenRune r) = encodeRune r := by
  by_cases hs : isScalar r = true
  · rw [writtenRune, if_pos hs]
  rw [writtenRune, if_neg hs, encodeRune, encodeRune, if_neg hs]
  rfl

theorem toLowerString_toLowerString (hU : U.LowersOnce) (s : Bytes) :
    U.toLowerString (U.toLowerString s) = U.toLowerString s := by
  rw [Unicode.toLowerString, runes_toLowerString, List.flatMap_map, Unicode.toLowerString]
  simp only [hU _, encodeRune_writtenRune]

end PiiShield
