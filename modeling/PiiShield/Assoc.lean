import Mathlib.Data.List.Perm.Basic
import Mathlib.Data.List.Nodup
import Mathlib.Data.List.Induction
import Mathlib.Order.Lattice

/-! Maps as lists of members sorted by key. Of several members with one key the last is kept. -/

namespace PiiShield.Assoc

variable {K V : Type}

variable {k : K} {m : K × V} {ms : List (K × V)}

def lasts [DecidableEq K] : List (K × V) → List (K × V)
  | [] => []
  | m :: ms => if m.1 ∈ ms.map Prod.fst then lasts ms else m :: lasts ms

theorem mem_lasts [DecidableEq K] : m ∈ lasts ms ↔ ∃ l r, ms = l ++ m :: r ∧ m.1 ∉ r.map Prod.fst := by
  induction ms with
  | nil => simp [lasts]
  | cons x ms ih =>
    have hcons : (∃ l r, x :: ms = l ++ m :: r ∧ m.1 ∉ r.map Prod.fst) ↔
        (x = m ∧ m.1 ∉ ms.map Prod.fst) ∨ ∃ l r, ms = l ++ m :: r ∧ m.1 ∉ r.map Prod.fst := by
      constructor
      · rintro ⟨l, r, h, hr⟩
        cases l with
        | nil =>
          cases h
          exact .inl ⟨rfl, hr⟩
        | cons y l =>
          cases h
          exact .inr ⟨l, r, rfl, hr⟩
      rintro (⟨rfl, hm⟩ | ⟨l, r, rfl, hr⟩)
      · exact ⟨[], ms, rfl, hm⟩
      exact ⟨x :: l, r, rfl, hr⟩
    rw [hcons, ← ih, lasts]
    grind

theorem lasts_sublist [DecidableEq K] (ms : List (K × V)) : (lasts ms).Sublist ms := by
  induction ms with
  | nil => exact List.Sublist.slnil
  | cons m ms ih =>
    rw [lasts]
    split
    · exact ih.cons m
    exact ih.cons_cons m

theorem nodup_lasts [DecidableEq K] (ms : List (K × V)) : ((lasts ms).map Prod.fst).Nodup := by
  induction ms with
  | nil => exact List.nodup_nil
  | cons m ms ih =>
    rw [lasts]
    split
    · exact ih
    · next hm =>
      rw [List.map_cons, List.nodup_cons]
      exact ⟨fun h => hm (((lasts_sublist ms).map Prod.fst).subset h), ih⟩

theorem lasts_map [DecidableEq K] {W : Type} (f : V → W) (ms : List (K × V)) :
    lasts (ms.map fun m => (m.1, f m.2)) = (lasts ms).map fun m => (m.1, f m.2) := by
  induction ms with
  | nil => rfl
  | cons m ms ih =>
    have hkeys : (ms.map fun m => (m.1, f m.2)).map Prod.fst = ms.map Prod.fst := by
      rw [List.map_map]
      rfl
    rw [List.map_cons, lasts, lasts, hkeys, ih]
    split <;> rfl

theorem lasts_filter [DecidableEq K] (p : K → Bool) (ms : List (K × V)) :
    lasts (ms.filter fun m => p m.1) = (lasts ms).filter fun m => p m.1 := by
  induction ms with
  | nil => rfl
  | cons m ms ih =>
    by_cases hp : p m.1 = true
    · have hmem : m.1 ∈ (ms.filter fun m => p m.1).map Prod.fst ↔ m.1 ∈ ms.map Prod.fst := by simp_all
      rw [List.filter_cons, if_pos hp, lasts, lasts]
      grind
    rw [List.filter_cons, if_neg hp, lasts, ih]
    split
    · rfl
    rw [List.filter_cons, if_neg hp]

variable [LinearOrder K]

def insert (k : K) (v : V) : List (K × V) → List (K × V)
  | [] => [(k, v)]
  | m :: ms =>
    if k = m.1 then (k, v) :: ms
    else if k < m.1 then (k, v) :: m :: ms
    else m :: insert k v ms

def Sorted (ms : List (K × V)) : Prop := ms.Pairwise fun m m' => m.1 < m'.1

def ofMembers (ms : List (K × V)) : List (K × V) := ms.foldl (fun map m => insert m.1 m.2 map) []

theorem Sorted.nodup_keys (h : Sorted ms) : (ms.map Prod.fst).Nodup := by
  rw [List.Nodup, List.pairwise_map]
  exact h.imp fun hlt => hlt.ne

theorem mem_insert {v : V} (h : Sorted ms) : m ∈ insert k v ms ↔ m = (k, v) ∨ m ∈ ms ∧ m.1 ≠ k := by
  induction ms with
  | nil => simp [insert]
  | cons x ms ih =>
    obtain ⟨hx, hms⟩ := List.pairwise_cons.mp h
    rw [insert]
    by_cases heq : k = x.1
    · grind
    rw [if_neg heq]
    by_cases hlt : k < x.1
    · grind
    rw [if_neg hlt, List.mem_cons, ih hms, List.mem_cons]
    grind

theorem sorted_insert (h : Sorted ms) (k : K) (v : V) : Sorted (insert k v ms) := by
  induction ms with
  | nil => exact List.pairwise_singleton _ _
  | cons x ms ih =>
    obtain ⟨hx, hms⟩ := List.pairwise_cons.mp h
    rw [insert]
    by_cases heq : k = x.1
    · rw [if_pos heq]
      exact List.pairwise_cons.mpr ⟨fun m hm => heq ▸ hx m hm, hms⟩
    rw [if_neg heq]
    by_cases hlt : k < x.1
    · rw [if_pos hlt]
      refine List.pairwise_cons.mpr ⟨fun m hm => ?_, h⟩
      grind
    rw [if_neg hlt]
    refine List.pairwise_cons.mpr ⟨fun m hm => ?_, ih hms⟩
    rcases (mem_insert hms).mp hm with rfl | ⟨hm, -⟩
    · exact lt_of_le_of_ne (not_lt.mp hlt) (Ne.symm heq)
    exact hx m hm

theorem insert_perm [DecidableEq K] (h : Sorted ms) (k : K) (v : V) :
    (insert k v ms).Perm ((k, v) :: ms.filter fun m => m.1 ≠ k) := by
  refine (List.perm_ext_iff_of_nodup ?_ ?_).mpr fun m => ?_
  · exact (sorted_insert h k v).nodup_keys.of_map Prod.fst
  · rw [List.nodup_cons]
    exact ⟨by simp, (h.nodup_keys.of_map Prod.fst).filter _⟩
  simp [mem_insert h]

theorem filter_insert_of_neg {p : K → Bool} (hp : p k = false) (v : V) (ms : List (K × V)) :
    (insert k v ms).filter (fun m => p m.1) = ms.filter fun m => p m.1 := by
  have hk (t : List (K × V)) : ((k, v) :: t).filter (fun m => p m.1) = t.filter fun m => p m.1 :=
    List.filter_cons_of_neg (by rw [hp]; exact Bool.false_ne_true)
  induction ms with
  | nil => exact hk []
  | cons x ms ih =>
    rw [insert]
    grind

theorem Sorted.filter (h : Sorted ms) (p : K × V → Bool) : Sorted (ms.filter p) :=
  List.Pairwise.filter p h

theorem ofMembers_concat (ms : List (K × V)) (m : K × V) :
    ofMembers (ms ++ [m]) = insert m.1 m.2 (ofMembers ms) := by
  simp [ofMembers]

theorem sorted_ofMembers (ms : List (K × V)) : Sorted (ofMembers ms) := by
  induction ms using List.reverseRecOn with
  | nil => exact List.Pairwise.nil
  | append_singleton ms m ih =>
    rw [ofMembers_concat]
    exact sorted_insert ih m.1 m.2

theorem mem_ofMembers : m ∈ ofMembers ms ↔ ∃ l r, ms = l ++ m :: r ∧ m.1 ∉ r.map Prod.fst := by
  induction ms using List.reverseRecOn with
  | nil => simp [ofMembers]
  | append_singleton ms x ih =>
    rw [ofMembers_concat, mem_insert (sorted_ofMembers ms), ih]
    constructor
    · rintro (rfl | ⟨⟨l, r, rfl, hr⟩, hne⟩)
      · exact ⟨ms, [], rfl, List.not_mem_nil⟩
      grind
    rintro ⟨l, r, h, hr⟩
    rcases List.eq_nil_or_concat r with rfl | ⟨r, y, rfl⟩
    · obtain ⟨rfl, hx⟩ := List.append_inj' h rfl
      cases hx
      exact .inl rfl
    rw [List.concat_eq_append, ← List.cons_append, ← List.append_assoc] at h
    obtain ⟨rfl, hx⟩ := List.append_inj' h rfl
    grind

theorem ofMembers_perm_lasts [DecidableEq K] (ms : List (K × V)) : (ofMembers ms).Perm (lasts ms) := by
  refine (List.perm_ext_iff_of_nodup ?_ ?_).mpr fun m => mem_ofMembers.trans mem_lasts.symm
  · exact (sorted_ofMembers ms).nodup_keys.of_map Prod.fst
  exact (nodup_lasts ms).of_map Prod.fst

theorem Sorted.eq_of_mem (h : Sorted ms) {m' : K × V} (hm : m ∈ ms) (hm' : m' ∈ ms)
    (hkey : m.1 = m'.1) : m = m' :=
  List.inj_on_of_nodup_map h.nodup_keys hm hm' hkey

theorem Sorted.eq_of_mem_iff {ms' : List (K × V)} (h : Sorted ms) (h' : Sorted ms')
    (hmem : ∀ m, m ∈ ms ↔ m ∈ ms') : ms = ms' := by
  have hperm : ms.Perm ms' := (List.perm_ext_iff_of_nodup (h.nodup_keys.of_map Prod.fst)
    (h'.nodup_keys.of_map Prod.fst)).mpr hmem
  exact hperm.eq_of_pairwise (fun _ _ _ _ hlt hlt' => absurd hlt' hlt.not_gt) h h'

theorem mem_ofMembers_of_nodup (h : (ms.map Prod.fst).Nodup) : m ∈ ofMembers ms ↔ m ∈ ms := by
  grind [mem_ofMembers, List.append_of_mem]

theorem ofMembers_of_sorted (h : Sorted ms) : ofMembers ms = ms :=
  (sorted_ofMembers ms).eq_of_mem_iff h fun _ => mem_ofMembers_of_nodup h.nodup_keys

theorem ofMembers_perm {ms' : List (K × V)} (h : (ms.map Prod.fst).Nodup) (hperm : ms.Perm ms') :
    ofMembers ms = ofMembers ms' := by
  have h' : (ms'.map Prod.fst).Nodup := (hperm.map Prod.fst).nodup_iff.mp h
  refine (sorted_ofMembers ms).eq_of_mem_iff (sorted_ofMembers ms') fun m => ?_
  grind [mem_ofMembers_of_nodup h, mem_ofMembers_of_nodup h']

theorem insert_of_mem {v : V} (h : Sorted ms) (hm : (k, v) ∈ ms) : insert k v ms = ms := by
  refine (sorted_insert h k v).eq_of_mem_iff h fun m => ?_
  rw [mem_insert h]
  constructor
  · rintro (rfl | ⟨hm', -⟩)
    · exact hm
    exact hm'
  intro hm'
  by_cases hkey : m.1 = k
  · exact .inl (h.eq_of_mem hm' hm hkey)
  exact .inr ⟨hm', hkey⟩

theorem ofMembers_filter [DecidableEq K] (p : K → Bool) (ms : List (K × V)) :
    (ofMembers ms).filter (fun m => p m.1) = ofMembers (ms.filter fun m => p m.1) := by
  refine ((sorted_ofMembers ms).filter _).eq_of_mem_iff (sorted_ofMembers _) fun m => ?_
  have hlasts := (ofMembers_perm_lasts ms).filter fun m => p m.1
  rw [← lasts_filter] at hlasts
  exact (hlasts.trans (ofMembers_perm_lasts _).symm).mem_iff

theorem mem_of_mem_ofMembers (h : m ∈ ofMembers ms) : m ∈ ms := by
  obtain ⟨l, r, rfl, -⟩ := mem_ofMembers.mp h
  simp

theorem Sorted.eq_concat (h : Sorted ms) (hm : m ∈ ms) (hlast : ∀ m' ∈ ms, m'.1 ≤ m.1) : ∃ l, ms = l ++ [m] := by
  obtain ⟨l, r, rfl⟩ := List.append_of_mem hm
  cases r with
  | nil => exact ⟨l, rfl⟩
  | cons m' r =>
    have hlt : m.1 < m'.1 := (List.pairwise_cons.mp (List.pairwise_append.mp h).2.1).1 m' List.mem_cons_self
    exact absurd (hlast m' (by simp)) (not_le.mpr hlt)

theorem insert_of_lt (h : ∀ m ∈ ms, m.1 < k) (v : V) : insert k v ms = ms ++ [(k, v)] := by
  induction ms with
  | nil => rfl
  | cons x ms ih =>
    have hx := h x List.mem_cons_self
    rw [insert, if_neg hx.ne', if_neg hx.not_gt, ih fun m hm => h m (List.mem_cons_of_mem x hm), List.cons_append]

/-- Members in order, behind others whose keys are no greater, come last in the map. -/
theorem ofMembers_append {l r : List (K × V)} (hm : m ∈ r.head?) (hr : Sorted r) (hl : ∀ m' ∈ l, m'.1 ≤ m.1) :
    ∃ t, ofMembers (l ++ r) = t ++ r := by
  induction r using List.reverseRecOn with
  | nil => cases hm
  | append_singleton r z ih =>
    rw [← List.append_assoc, ofMembers_concat]
    obtain ⟨hsorted, -, hz⟩ := List.pairwise_append.mp hr
    cases r with
    | nil =>
      obtain rfl : z = m := Option.some.inj hm
      have hmem := (mem_insert (m := z) (k := z.1) (v := z.2) (sorted_ofMembers (l ++ []))).mpr (.inl rfl)
      refine (sorted_insert (sorted_ofMembers _) z.1 z.2).eq_concat hmem fun m' hm' => ?_
      rcases (mem_insert (sorted_ofMembers _)).mp hm' with rfl | ⟨hm', -⟩
      · exact le_refl _
      exact hl m' (by simpa using mem_of_mem_ofMembers hm')
    | cons x r =>
      obtain ⟨t, ht⟩ := ih hm hsorted
      have hlt (m' : K × V) (hm' : m' ∈ ofMembers (l ++ x :: r)) : m'.1 < z.1 := by
        obtain rfl : x = m := Option.some.inj hm
        rcases List.mem_append.mp (mem_of_mem_ofMembers hm') with hl' | hr'
        · exact (hl m' hl').trans_lt (hz x List.mem_cons_self z (List.mem_singleton_self z))
        exact hz m' hr' z (List.mem_singleton_self z)
      exact ⟨t, by rw [insert_of_lt hlt, ht, List.append_assoc]⟩

theorem mem_of_ofMembers_append {l r t : List (K × V)} (h : ofMembers (l ++ r) = t ++ r) (hm : m ∈ t) : m ∈ l := by
  have hsorted := h ▸ sorted_ofMembers (l ++ r)
  have hmem : m ∈ ofMembers (l ++ r) := h ▸ List.mem_append_left r hm
  rcases List.mem_append.mp (mem_of_mem_ofMembers hmem) with hl | hr
  · exact hl
  exact absurd ((List.pairwise_append.mp hsorted).2.2 m hm m hr) (lt_irrefl _)

end PiiShield.Assoc
