import PiiShield.TokenShape

/-! The grammar of an e-mail address, and the loop over the labels of a domain against it: the
loop takes a dot at the end of the domain for the end of its last label. -/

namespace PiiShield

variable {c : UInt8} {d label : Bytes}

def isLocalByte (c : UInt8) : Bool := isAlnumByte c || (bs "._%+-").contains c

structure IsLocalPart (l : Bytes) : Prop where
  pos : 1 ≤ l.length
  most : l.length ≤ 64
  bytes : ∀ c ∈ l, isLocalByte c = true
  first : l.head? ≠ some (chr '.')
  last : l.getLast? ≠ some (chr '.')

structure IsLabel (l : Bytes) : Prop where
  pos : 1 ≤ l.length
  most : l.length ≤ 63
  bytes : ∀ c ∈ l, isAlnumByte c = true ∨ c = chr '-'
  first : l.head? ≠ some (chr '-')
  last : l.getLast? ≠ some (chr '-')

structure IsTopLabel (l : Bytes) : Prop extends IsLabel l where
  two : 2 ≤ l.length
  letters : ∀ c ∈ l, isASCIILetter c = true

def joinLabels (ls : List Bytes) (top : Bytes) : Bytes :=
  ls.foldr (fun l rest => l ++ chr '.' :: rest) top

structure IsDomain (d : Bytes) : Prop where
  labels : ∃ ls top, ls ≠ [] ∧ (∀ l ∈ ls, IsLabel l) ∧ IsTopLabel top ∧ d = joinLabels ls top

structure IsAddress (s : Bytes) : Prop where
  parts : ∃ l d, IsLocalPart l ∧ IsDomain d ∧ s = l ++ chr '@' :: d
  once : s.count (chr '@') = 1

section Labels

variable {l : Bytes}

theorem head?_ne_iff (hl : 1 ≤ l.length) : l.head? ≠ some c ↔ byteAt l 0 ≠ c := by
  obtain ⟨b, t, rfl⟩ := List.exists_cons_of_ne_nil (List.ne_nil_of_length_pos hl)
  simp [byteAt]

theorem getLast?_ne_iff (hl : 1 ≤ l.length) : l.getLast? ≠ some c ↔ lastByte l ≠ c := by
  obtain ⟨t, b, rfl⟩ := (List.eq_nil_or_concat' l).resolve_left (List.ne_nil_of_length_pos hl)
  simp [lastByte]

theorem isDomainLabel_iff : isDomainLabel l = true ↔ IsLabel l := by
  simp only [isDomainLabel, Bool.and_eq_true, Bool.not_eq_true', List.isEmpty_eq_false_iff,
    decide_eq_true_eq, bne_iff_ne, List.all_eq_true, Bool.or_eq_true, beq_iff_eq]
  constructor
  · rintro ⟨⟨⟨⟨hne, hmost⟩, hfirst⟩, hlast⟩, hbytes⟩
    have hpos : 1 ≤ l.length := List.length_pos_of_ne_nil hne
    exact ⟨hpos, hmost, hbytes, (head?_ne_iff hpos).mpr hfirst, (getLast?_ne_iff hpos).mpr hlast⟩
  intro h
  exact ⟨⟨⟨⟨List.ne_nil_of_length_pos h.pos, h.most⟩, (head?_ne_iff h.pos).mp h.first⟩,
    (getLast?_ne_iff h.pos).mp h.last⟩, h.bytes⟩

theorem IsLabel.no_dot (h : IsLabel l) : l.all (· != chr '.') = true := by
  rw [List.all_eq_true]
  intro c hc
  rw [bne_iff_ne]
  rintro rfl
  rcases h.bytes _ hc with h | h <;> cases h

theorem all_ne_of_not_mem (h : c ∉ l) : l.all (· != c) = true := by
  rw [List.all_eq_true]
  intro b hb
  rw [bne_iff_ne]
  rintro rfl
  exact h hb

theorem cut_dot_cases (d : Bytes) : (d.all (· != chr '.') = true ∧ cut d (bs ".") = none) ∨
      ∃ l r, l.all (· != chr '.') = true ∧ d = l ++ chr '.' :: r ∧ cut d (bs ".") = some (l, r) := by
  have hb : bs "." = [chr '.'] := by rfl
  rw [cut, hb, index_singleton]
  cases hi : indexByte d (chr '.') with
  | none =>
    refine .inl ⟨all_ne_of_not_mem ?_, rfl⟩
    simpa [indexByte, List.idxOf?_eq_none_iff] using hi
  | some i =>
    obtain ⟨l, r, rfl, rfl, hl⟩ := exists_of_indexByte hi
    exact .inr ⟨l, r, all_ne_of_not_mem hl, rfl, by simp⟩

end Labels

section Domains

variable {ls : List Bytes} {top : Bytes}

theorem joinLabels_cons (l : Bytes) (ls : List Bytes) (top : Bytes) :
    joinLabels (l :: ls) top = l ++ chr '.' :: joinLabels ls top := rfl

theorem joinLabels_ne_nil (h : IsTopLabel top) : joinLabels ls top ≠ [] := by
  cases ls with
  | nil => exact List.ne_nil_of_length_pos h.pos
  | cons l ls => simp [joinLabels_cons]

theorem getLast?_joinLabels (h : IsTopLabel top) : (joinLabels ls top).getLast? = top.getLast? := by
  induction ls with
  | nil => rfl
  | cons l ls ih =>
    have hne : joinLabels ls top ≠ [] := joinLabels_ne_nil h
    obtain ⟨y, hy⟩ := Option.isSome_iff_exists.mp (List.getLast?_isSome.mpr hne)
    rw [joinLabels_cons, List.getLast?_append, List.getLast?_cons, ← ih, hy]
    simp

def LabelsRead (n : Nat) (d : Bytes) : Prop :=
  ∃ ls top, (∀ l ∈ ls, IsLabel l) ∧ IsTopLabel top ∧ 1 ≤ n + ls.length ∧
    (d = joinLabels ls top ∨ d = joinLabels ls top ++ [chr '.'])

theorem isTop_iff :
    IsTopLabel label ↔ isDomainLabel label = true ∧ 2 ≤ label.length ∧ label.all isASCIILetter = true := by
  rw [isDomainLabel_iff, List.all_eq_true]
  exact ⟨fun h => ⟨h.toIsLabel, h.two, h.letters⟩, fun h => ⟨h.1, h.2.1, h.2.2⟩⟩

theorem labelsRead_cons {rest : Bytes} (hlabel : label.all (· != chr '.') = true)
    (hrest : rest ≠ []) (n : Nat) :
    LabelsRead n (label ++ chr '.' :: rest) ↔ IsLabel label ∧ LabelsRead (n + 1) rest := by
  constructor
  · rintro ⟨ls, top, hls, htop, hn, hd⟩
    cases ls with
    | nil =>
      rcases hd with hd | hd
      · have hmem : chr '.' ∈ top := by grind [joinLabels]
        have := List.all_eq_true.mp htop.no_dot _ hmem
        simp at this
      have hinj := run_cons_inj hlabel htop.no_dot (by decide) (by decide) hd
      exact absurd hinj.2.2 hrest
    | cons l ls =>
      have hl := hls l (by simp)
      have hls' : ∀ l ∈ ls, IsLabel l := fun l' hl' => hls l' (List.mem_cons_of_mem _ hl')
      rcases hd with hd | hd
      · obtain ⟨rfl, -, hr⟩ := run_cons_inj hlabel hl.no_dot (by decide) (by decide) hd
        exact ⟨hl, ls, top, hls', htop, by omega, .inl hr⟩
      rw [joinLabels_cons, List.append_assoc, List.cons_append] at hd
      obtain ⟨rfl, -, hr⟩ := run_cons_inj hlabel hl.no_dot (by decide) (by decide) hd
      exact ⟨hl, ls, top, hls', htop, by omega, .inr hr⟩
  rintro ⟨hl, ls, top, hls, htop, hn, hd⟩
  refine ⟨label :: ls, top, ?_, htop, by simp only [List.length_cons]; omega, ?_⟩
  · simp_all
  simp_all [joinLabels_cons]

theorem labelsRead_last (hlabel : label.all (· != chr '.') = true) (n : Nat) (hd : d = label ∨ d = label ++ [chr '.']) :
    LabelsRead n d ↔ IsTopLabel label ∧ 1 ≤ n := by
  constructor
  · rintro ⟨ls, top, hls, htop, hn, hread⟩
    have hjoin : joinLabels [] top = top := rfl
    cases ls with
    | nil =>
      rw [hjoin] at hread
      have heq : label = top := by
        rcases hd with rfl | rfl <;> rcases hread with hread | hread
        · exact hread
        · simp_all
        · have hmem := List.all_eq_true.mp htop.no_dot (chr '.') (by rw [← hread]; simp)
          simp at hmem
        simpa using hread
      rw [heq]
      exact ⟨htop, by simpa using hn⟩
    | cons l ls =>
      have hl := hls l (by simp)
      have hne : joinLabels ls top ≠ [] := joinLabels_ne_nil htop
      rw [joinLabels_cons] at hread
      rcases hd with rfl | rfl
      · grind
      rcases hread with h | h
      · have hinj := run_cons_inj (r := []) hlabel hl.no_dot (by decide) (by decide) h
        exact absurd hinj.2.2.symm hne
      rw [List.append_assoc, List.cons_append] at h
      have hinj := run_cons_inj (r := []) hlabel hl.no_dot (by decide) (by decide) h
      simp at hinj
  rintro ⟨htop, hn⟩
  exact ⟨[], label, by simp, htop, by simpa using hn, hd⟩

theorem emailLabels_iff {fuel n : Nat} (hd : d ≠ []) (hfuel : d.length ≤ fuel) :
    emailLabels fuel n d = true ↔ LabelsRead n d := by
  induction fuel generalizing n d with
  | zero => exact absurd (List.length_eq_zero_iff.mp (by omega)) hd
  | succ fuel ih =>
    have hne : d.isEmpty = false := by simpa using hd
    have hlast {label : Bytes} : (if (!isDomainLabel label) = true then false
        else 2 ≤ label.length && label.all isASCIILetter && 2 ≤ n + 1) = true ↔
        IsTopLabel label ∧ 1 ≤ n := by
      rw [isTop_iff]
      cases isDomainLabel label <;> simp [and_assoc]
    rw [emailLabels, hne]
    rcases cut_dot_cases d with ⟨hall, hcut⟩ | ⟨label, rest, hlabel, rfl, hcut⟩
    · rw [hcut, labelsRead_last hall n (.inl rfl), ← hlast]
      simp
    rw [hcut]
    by_cases hrest : rest = []
    · subst hrest
      rw [labelsRead_last hlabel n (.inr rfl), ← hlast]
      simp
    grind [List.length_append, List.length_cons, labelsRead_cons, isDomainLabel_iff, isDomainLabel]

theorem emailLabels_length_iff : emailLabels d.length 0 d = true ↔ LabelsRead 0 d := by
  by_cases hd : d = []
  · subst hd
    refine iff_of_false (by decide) ?_
    rintro ⟨ls, top, -, htop, -, h | h⟩
    · exact joinLabels_ne_nil htop h.symm
    simp at h
  exact emailLabels_iff hd le_rfl

end Domains

section Addresses

variable {s l d : Bytes}

theorem labelsRead_zero_iff : LabelsRead 0 d ↔ IsDomain d ∨ ∃ d', IsDomain d' ∧ d = d' ++ [chr '.'] := by
  constructor
  · rintro ⟨ls, top, hls, htop, hn, hd⟩
    have hne : ls ≠ [] := List.ne_nil_of_length_pos (by omega)
    have hdomain : IsDomain (joinLabels ls top) := ⟨ls, top, hne, hls, htop, rfl⟩
    grind
  rintro (⟨ls, top, hne, hls, htop, rfl⟩ | ⟨d', ⟨ls, top, hne, hls, htop, rfl⟩, rfl⟩)
  · exact ⟨ls, top, hls, htop, by have := List.length_pos_of_ne_nil hne; omega, .inl rfl⟩
  exact ⟨ls, top, hls, htop, by have := List.length_pos_of_ne_nil hne; omega, .inr rfl⟩

theorem joinLabels_bytes {ls : List Bytes} {top : Bytes} (hls : ∀ l ∈ ls, IsLabel l) (htop : IsTopLabel top) :
    ∀ c ∈ joinLabels ls top, isAlnumByte c = true ∨ c = chr '-' ∨ c = chr '.' := by
  induction ls with
  | nil =>
    intro c hc
    rcases htop.bytes c hc with h | h
    · exact .inl h
    exact .inr (.inl h)
  | cons l ls ih =>
    intro c hc
    rw [joinLabels_cons, List.mem_append, List.mem_cons] at hc
    rcases hc with hc | hc | hc
    · rcases (hls l (by simp)).bytes c hc with h | h
      · exact .inl h
      exact .inr (.inl h)
    · exact .inr (.inr hc)
    exact ih (fun l' hl' => hls l' (List.mem_cons_of_mem _ hl')) c hc

theorem IsDomain.no_at (h : IsDomain d) : chr '@' ∉ d := by
  obtain ⟨ls, top, -, hls, htop, rfl⟩ := h.labels
  intro hm
  rcases joinLabels_bytes hls htop _ hm with h | h | h <;> cases h

theorem IsLocalPart.no_at (h : IsLocalPart l) : chr '@' ∉ l := by
  intro hm
  have := h.bytes _ hm
  cases this

theorem isAddress_iff : IsAddress s ↔ ∃ l d, IsLocalPart l ∧ IsDomain d ∧ s = l ++ chr '@' :: d := by
  constructor
  · exact IsAddress.parts
  rintro ⟨l, d, hl, hd, rfl⟩
  refine ⟨⟨l, d, hl, hd, rfl⟩, ?_⟩
  grind [List.count_eq_zero.mpr hl.no_at, List.count_eq_zero.mpr hd.no_at]

theorem IsAddress.last (h : IsAddress s) : s.getLast? ≠ some (chr '.') := by
  obtain ⟨l, d, -, ⟨ls, top, -, -, htop, rfl⟩, rfl⟩ := h.parts
  have hlast : (joinLabels ls top).getLast? = top.getLast? := getLast?_joinLabels htop
  intro hdot
  have htop' : top.getLast? = some (chr '.') := by grind
  have := htop.letters _ (List.mem_of_getLast? htop')
  cases this

theorem isEmailAddress_iff :
    isEmailAddress s = true ↔ ∃ l d, IsLocalPart l ∧ chr '@' ∉ d ∧ LabelsRead 0 d ∧ s = l ++ chr '@' :: d := by
  unfold isEmailAddress
  cases hi : indexByte s (chr '@') with
  | none =>
    have hnot : chr '@' ∉ s := by simpa [indexByte, List.idxOf?_eq_none_iff] using hi
    grind
  | some i =>
    obtain ⟨l, d, rfl, rfl, hl⟩ := exists_of_indexByte hi
    have htake : (l ++ chr '@' :: d).take l.length = l := by simp
    have hdrop : (l ++ chr '@' :: d).drop (l.length + 1) = d := by simp
    simp only [htake, hdrop]
    have hone : (∃ l' d', IsLocalPart l' ∧ chr '@' ∉ d' ∧ LabelsRead 0 d' ∧
        l ++ chr '@' :: d = l' ++ chr '@' :: d') ↔ IsLocalPart l ∧ chr '@' ∉ d ∧ LabelsRead 0 d := by
      constructor
      · rintro ⟨l', d', hl', hd', hread, heq⟩
        obtain ⟨rfl, -, rfl⟩ := run_cons_inj (all_ne_of_not_mem hl) (all_ne_of_not_mem hl'.no_at)
          (by decide) (by decide) heq
        exact ⟨hl', hd', hread⟩
      rintro ⟨hl', hd', hread⟩
      exact ⟨l, d, hl', hd', hread, rfl⟩
    rw [hone, ← emailLabels_length_iff]
    constructor
    · intro h
      split at h
      · cases h
      · next h1 =>
        split at h
        · cases h
        · next h2 =>
          simp only [Bool.or_eq_true, decide_eq_true_eq, List.contains_iff_mem, not_or, Nat.not_lt] at h1
          simp only [Bool.or_eq_true, beq_iff_eq, not_or] at h2
          simp only [Bool.and_eq_true, List.all_eq_true] at h
          exact ⟨⟨h1.1.1, h1.1.2, h.1, (head?_ne_iff h1.1.1).mpr h2.1, (getLast?_ne_iff h1.1.1).mpr h2.2⟩,
            h1.2, h.2⟩
    rintro ⟨hl', hd', hread⟩
    have hpos := hl'.pos
    have hmost := hl'.most
    have hfirst := (head?_ne_iff hpos).mp hl'.first
    have hlast := (getLast?_ne_iff hpos).mp hl'.last
    have hbytes : (l.all fun c => isAlnumByte c || (bs "._%+-").contains c) = true :=
      List.all_eq_true.mpr hl'.bytes
    grind

/-- The shape test accepts the grammar, and beside it an address with a dot behind it. -/
theorem email_shape_exact_iff (s : Bytes) :
    (isEmailAddress s = true ↔ IsAddress s) ↔ ¬ ∃ t, IsAddress t ∧ s = t ++ bs "." := by
  have hb : bs "." = [chr '.'] := by decide +kernel
  have hshape : isEmailAddress s = true ↔ IsAddress s ∨ ∃ t, IsAddress t ∧ s = t ++ bs "." := by
    rw [isEmailAddress_iff, hb]
    constructor
    · rintro ⟨l, d, hl, -, hd, rfl⟩
      rcases labelsRead_zero_iff.mp hd with hd | ⟨d', hd', rfl⟩
      · exact .inl (isAddress_iff.mpr ⟨l, d, hl, hd, rfl⟩)
      exact .inr ⟨_, isAddress_iff.mpr ⟨l, d', hl, hd', rfl⟩, by simp⟩
    rintro (h | ⟨t, h, rfl⟩)
    · obtain ⟨l, d, hl, hd, rfl⟩ := h.parts
      exact ⟨l, d, hl, hd.no_at, labelsRead_zero_iff.mpr (.inl hd), rfl⟩
    obtain ⟨l, d, hl, hd, rfl⟩ := h.parts
    refine ⟨l, d ++ [chr '.'], hl, ?_, labelsRead_zero_iff.mpr (.inr ⟨d, hd, rfl⟩), by simp⟩
    simp only [List.mem_append, not_or]
    exact ⟨hd.no_at, by decide⟩
  rw [hshape]
  constructor
  · rintro h ⟨t, ht, rfl⟩
    have hs := h.mp (.inr ⟨t, ht, rfl⟩)
    exact hs.last (by rw [hb]; simp)
  intro h
  exact or_iff_left h

/-- A dot behind the domain is accepted, though it ends no label. -/
theorem dotted_domain_accepted :
    isEmailAddress (bs "lena@example.com.") = true ∧ ¬ IsAddress (bs "lena@example.com.") :=
  ⟨by decide +kernel, fun h => h.last (by decide +kernel)⟩

end Addresses

end PiiShield
