import Mathlib.Data.List.Nodup

/-! Tables as lists of rows: reading one through some of its rows, and rows known by a key. -/

namespace PiiShield.Restriction

variable {α β : Type} {p q : α → Bool} {l : List α}

theorem filter_restrict (h : ∀ x ∈ l, q x = true → p x = true) : (l.filter p).filter q = l.filter q := by
  rw [List.filter_filter]
  apply List.filter_congr
  simp_all

theorem find?_restrict (h : ∀ x ∈ l, q x = true → p x = true) : (l.filter p).find? q = l.find? q := by
  rw [← List.head?_filter, ← List.head?_filter, filter_restrict h]

theorem countP_restrict (h : ∀ x ∈ l, q x = true → p x = true) : (l.filter p).countP q = l.countP q := by
  rw [List.countP_eq_length_filter, List.countP_eq_length_filter, filter_restrict h]

theorem any_restrict (h : ∀ x ∈ l, q x = true → p x = true) : (l.filter p).any q = l.any q := by
  grind

theorem filter_map_comm {f : α → α} (hp : ∀ x ∈ l, p (f x) = p x) : (l.map f).filter p = (l.filter p).map f := by
  simp_all [List.filter_congr, List.filter_map]

theorem filter_map_eq_self {f : α → α} (hp : ∀ x ∈ l, p (f x) = p x) (hf : ∀ x ∈ l, p x = true → f x = x) :
    (l.map f).filter p = l.filter p := by
  rw [filter_map_comm hp]
  conv_rhs => rw [← List.map_id (l.filter p)]
  grind [List.map_congr_left]

theorem all_restrict (h : ∀ x ∈ l, q x = false → p x = true) : (l.filter p).all q = l.all q := by
  grind

theorem any_congr (h : ∀ x ∈ l, p x = q x) : l.any p = l.any q := by
  grind

theorem any_concat {x : α} (hx : p x = false) : (l ++ [x]).any p = l.any p := by
  rw [List.any_append, List.any_cons, hx, List.any_nil, Bool.or_false, Bool.or_false]

theorem filter_concat (p : α → Bool) (l : List α) (x : α) (hx : p x = true) (inside : Bool) :
    (l ++ [x]).filter (fun y => p y == inside) =
      if inside then l.filter (fun y => p y == inside) ++ [x] else l.filter fun y => p y == inside := by
  rw [List.filter_append, List.filter_singleton, hx]
  cases inside <;> simp

variable {key : α → β}

theorem nodup_concat {x : α} (h : (l.map key).Nodup) (hx : key x ∉ l.map key) : ((l ++ [x]).map key).Nodup := by
  grind

theorem eq_of_key (h : (l.map key).Nodup) {x y : α} (hx : x ∈ l) (hy : y ∈ l) (hkey : key x = key y) : x = y :=
  List.inj_on_of_nodup_map h hx hy hkey

theorem find?_eq_some_of_unique {x : α} (hx : x ∈ l) (hq : q x = true) (h : ∀ y ∈ l, q y = true → y = x) :
    l.find? q = some x := by
  cases hfind : l.find? q with
  | none => exact absurd hq (List.find?_eq_none.mp hfind x hx)
  | some y => rw [h y (List.mem_of_find?_eq_some hfind) (List.find?_some hfind)]

theorem find?_key [BEq β] [LawfulBEq β] {k : β} {x : α} (hk : k ∉ l.map key) (hx : key x = k) :
    (l ++ [x]).find? (fun y => key y == k) = some x := by
  grind

def SameMembers (l m : List β) : Prop := ∀ x, x ∈ l ↔ x ∈ m

theorem SameMembers.concat {m : List α} (h : SameMembers (l.map key) (m.map key)) (x : α) :
    SameMembers ((l ++ [x]).map key) ((m ++ [x]).map key) := by
  intro y
  simp [h y]

theorem SameMembers.any_eq [BEq β] [LawfulBEq β] {m : List α} (h : SameMembers (l.map key) (m.map key)) (k : β) :
    (l.any fun x => key x == k) = m.any fun x => key x == k := by
  have hany (n : List α) : (n.any fun x => key x == k) = true ↔ k ∈ n.map key := by
    simp
  rw [Bool.eq_iff_iff, hany, hany, h k]

end PiiShield.Restriction
