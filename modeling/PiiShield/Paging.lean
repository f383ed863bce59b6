import Mathlib.Data.List.Sort

/-! Going through a growing table page by page, newest first. A page holds the rows below a key, and
a full page says where the next one begins. -/

namespace PiiShield.Paging

section Definitions

variable {α : Type} (key : α → Nat)

def sortedBelow (below : Int) (rows : List α) : List α :=
  (rows.filter fun e => decide ((key e : Int) < below)).mergeSort fun e f => decide (key f ≤ key e)

def newest (below : Int) (limit : Nat) (rows : List α) : List α := (sortedBelow key below rows).take limit

def next (limit : Nat) (page : List α) : Option Nat := if page.length = limit then page.getLast?.map key else none

structure Grows (rows rows' : List α) : Prop where
  subset : rows ⊆ rows'
  nodup : (rows'.map key).Nodup

/-- A reader that follows the pages: the rows at the last request, where the next page begins, and the
pages so far. -/
inductive Follows (top : Int) (limit : Nat) (start : List α) : List α → Option Nat → List (List α) → Prop
  | first {rows : List α} (h : Grows key start rows) :
      Follows top limit start rows (next key limit (newest key top limit rows)) [newest key top limit rows]
  | more {rows rows' : List α} {n : Nat} {pages : List (List α)} (h : Follows top limit start rows (some n) pages)
      (hgrows : Grows key rows rows') :
      Follows top limit start rows' (next key limit (newest key n limit rows'))
        (pages ++ [newest key n limit rows'])

end Definitions

variable {α : Type} {key : α → Nat} {below top : Int} {limit : Nat} {rows start : List α}

def Descending (key : α → Nat) (rows : List α) : Prop := rows.Pairwise fun e f => key f < key e

theorem mem_sortedBelow {e : α} : e ∈ sortedBelow key below rows ↔ e ∈ rows ∧ (key e : Int) < below := by
  rw [sortedBelow, (List.mergeSort_perm _ _).mem_iff, List.mem_filter, decide_eq_true_eq]

theorem descending_sortedBelow (below : Int) (h : (rows.map key).Nodup) :
    Descending key (sortedBelow key below rows) := by
  have hsorted : (sortedBelow key below rows).Pairwise fun e f => decide (key f ≤ key e) = true :=
    List.pairwise_mergeSort (fun a b c hab hbc => by simp only [decide_eq_true_eq] at *; omega)
      (fun a b => by simp only [Bool.or_eq_true, decide_eq_true_eq]; omega) _
  have hnodup : ((sortedBelow key below rows).map key).Nodup :=
    ((List.mergeSort_perm _ _).map key).nodup_iff.mpr (h.sublist (List.filter_sublist.map key))
  rw [List.Nodup, List.pairwise_map] at hnodup
  refine (hsorted.and hnodup).imp fun {e f} hef => ?_
  simp [of_decide_eq_true, Nat.lt_of_le_of_ne, Ne.symm, hef]

theorem mem_newest {e : α} (h : e ∈ newest key below limit rows) : e ∈ rows ∧ (key e : Int) < below :=
  mem_sortedBelow.mp (List.mem_of_mem_take h)

theorem descending_newest (below : Int) (limit : Nat) (h : (rows.map key).Nodup) :
    Descending key (newest key below limit rows) :=
  (descending_sortedBelow below h).sublist (List.take_sublist _ _)

theorem next_eq_some {page : List α} {n : Nat} (h : next key limit page = some n) :
    page.length = limit ∧ ∃ last, page.getLast? = some last ∧ key last = n := by
  simp_all [next]

theorem mem_newest_of_le (hlimit : 0 < limit) (h : (rows.map key).Nodup) {e : α} (he : e ∈ rows)
    (hbelow : (key e : Int) < below)
    (hnext : ∀ n, next key limit (newest key below limit rows) = some n → n ≤ key e) :
    e ∈ newest key below limit rows := by
  have hmem : e ∈ (sortedBelow key below rows).take limit ++ (sortedBelow key below rows).drop limit := by
    rw [List.take_append_drop]
    exact mem_sortedBelow.mpr ⟨he, hbelow⟩
  rcases List.mem_append.mp hmem with htake | hdrop
  · exact htake
  have hlong : limit < (sortedBelow key below rows).length := by
    have := List.length_pos_of_mem hdrop
    rw [List.length_drop] at this
    omega
  have hlen : (newest key below limit rows).length = limit := by
    rw [newest, List.length_take]
    omega
  have hne : newest key below limit rows ≠ [] := by
    rw [← List.length_pos_iff, hlen]
    exact hlimit
  have hlast : next key limit (newest key below limit rows) =
      some (key ((newest key below limit rows).getLast hne)) := by
    simp [next, if_pos hlen, List.getLast?_eq_some_getLast hne]
  have hsorted := descending_sortedBelow below h
  rw [Descending, ← List.take_append_drop limit (sortedBelow key below rows)] at hsorted
  have hlt := (List.pairwise_append.mp hsorted).2.2 _ (List.getLast_mem hne) e hdrop
  exact absurd (hnext _ hlast) (Nat.not_le.mpr hlt)

section Run

variable {after : Option Nat} {pages : List (List α)}

structure Read (key : α → Nat) (top : Int) (limit : Nat) (start rows : List α) (after : Option Nat)
    (pages : List (List α)) : Prop where
  nodup : (rows.map key).Nodup
  grown : start ⊆ rows
  descending : Descending key pages.flatten
  rows : ∀ e ∈ pages.flatten, e ∈ rows ∧ (key e : Int) < top
  reached : ∀ n, after = some n → (∃ e ∈ pages.flatten, key e = n) ∧ ∀ e ∈ pages.flatten, n ≤ key e
  covers : ∀ e ∈ start, (key e : Int) < top → (∀ n, after = some n → n ≤ key e) → e ∈ pages.flatten
  full : ∀ n, after = some n → pages.length ≤ pages.flatten.length
  pages_le : pages.length ≤ pages.flatten.length + 1

theorem le_of_next {page : List α} (h : Descending key page) {n : Nat} (hnext : next key limit page = some n)
    {e : α} (he : e ∈ page) : n ≤ key e := by
  obtain ⟨-, last, hlast, rfl⟩ := next_eq_some hnext
  obtain ⟨init, rfl⟩ := List.getLast?_eq_some_iff.mp hlast
  rcases List.mem_append.mp he with he | he
  · exact ((List.pairwise_append.mp h).2.2 e he last List.mem_cons_self).le
  rw [List.mem_singleton.mp he]

theorem exists_mem_of_next {page : List α} {n : Nat} (h : next key limit page = some n) : ∃ e ∈ page, key e = n := by
  obtain ⟨-, last, hlast, hn⟩ := next_eq_some h
  exact ⟨last, List.mem_of_getLast? hlast, hn⟩

theorem Follows.read (hlimit : 0 < limit) (h : Follows key top limit start rows after pages) :
    Read key top limit start rows after pages := by
  induction h with
  | @first rows hgrows =>
    have hpage := descending_newest top limit hgrows.nodup
    have hflatten : [newest key top limit rows].flatten = newest key top limit rows := by simp
    refine ⟨hgrows.nodup, hgrows.subset, ?_, ?_, ?_, ?_, ?_, ?_⟩ <;> rw [hflatten]
    · exact hpage
    · exact fun e he => mem_newest he
    · exact fun n hn => ⟨exists_mem_of_next hn, fun e he => le_of_next hpage hn he⟩
    · exact fun e he htop hnext => mem_newest_of_le hlimit hgrows.nodup (hgrows.subset he) htop hnext
    · intro n hn
      rw [(next_eq_some hn).1]
      exact hlimit
    simp
  | @more rows rows' n pages h hgrows ih =>
    have hpage := descending_newest n limit hgrows.nodup
    have hflatten : (pages ++ [newest key n limit rows']).flatten = pages.flatten ++ newest key n limit rows' := by simp
    have hlen : (pages ++ [newest key n limit rows']).length = pages.length + 1 := by simp
    have hbelow : ∀ e ∈ newest key n limit rows', key e < n := fun e he => Int.ofNat_lt.mp (mem_newest he).2
    have hfull := ih.full n rfl
    obtain ⟨⟨e₀, he₀, hn⟩, hreached⟩ := ih.reached n rfl
    have htop : (n : Int) < top := hn ▸ (ih.rows e₀ he₀).2
    refine ⟨hgrows.nodup, fun e he => hgrows.subset (ih.grown he), ?_, ?_, ?_, ?_, ?_, ?_⟩ <;> rw [hflatten]
    · refine List.pairwise_append.mpr ⟨ih.descending, hpage, fun e he f hf => ?_⟩
      exact (hbelow f hf).trans_le (hreached e he)
    · intro e he
      rcases List.mem_append.mp he with he | he
      · exact ⟨hgrows.subset (ih.rows e he).1, (ih.rows e he).2⟩
      exact ⟨(mem_newest he).1, (mem_newest he).2.trans htop⟩
    · intro m hm
      obtain ⟨e₁, he₁, hm₁⟩ := exists_mem_of_next hm
      grind [List.mem_append_right, le_of_next]
    · intro e he htop' hnext
      by_cases hn : n ≤ key e
      · exact List.mem_append_left _ (ih.covers e he htop' fun m hm => by cases hm; exact hn)
      refine List.mem_append_right _ (mem_newest_of_le hlimit hgrows.nodup (hgrows.subset (ih.grown he)) ?_ hnext)
      omega
    · intro m hm
      rw [hlen, List.length_append, (next_eq_some hm).1]
      omega
    rw [hlen, List.length_append]
    omega

theorem length_le_of_descending {page : List α} (h : Descending key page) (hpos : ∀ e ∈ page, 0 < key e) :
    page.length ≤ (page.head?.map key).getD 0 := by
  induction page with
  | nil => exact Nat.le_refl 0
  | cons e page ih =>
    obtain ⟨hlt, hrest⟩ := List.pairwise_cons.mp h
    have hlen := ih hrest fun f hf => hpos f (List.mem_cons_of_mem e hf)
    cases page with
    | nil => exact hpos e List.mem_cons_self
    | cons f page =>
      grind

end Run

end PiiShield.Paging
