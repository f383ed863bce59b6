import Mathlib.Data.List.Forall2
import PiiShield.JsonRoundTrip

/-! When two documents say the same: their objects have no key twice and are compared as maps,
their numbers by how they are spelled. -/

namespace PiiShield.Json

inductive Same : Json → Json → Prop
  | null : Same .null .null
  | bool (b : Bool) : Same (.bool b) (.bool b)
  | num (n : Numeral) : Same (.num n) (.num n)
  | str (s : Text) : Same (.str s) (.str s)
  | arr {items items' : List Json} (h : List.Forall₂ Same items items') : Same (.arr items) (.arr items')
  | obj {members named members' : List (Text × Json)} (distinct : (members.map Prod.fst).Nodup)
      (keys : members.map Prod.fst = named.map Prod.fst)
      (values : List.Forall₂ Same (members.map Prod.snd) (named.map Prod.snd)) (order : named.Perm members') :
      Same (.obj members) (.obj members')

theorem Same.generic_eq {v w : Json} (h : v.Same w) : v.generic = w.generic := by
  induction v using Json.induct generalizing w with
  | null | bool b | num n | str s =>
    cases h
    rfl
  | arr items ih =>
    cases h with
    | arr h =>
      rw [generic_arr, generic_arr]
      congr 1
      induction h with
      | nil => rfl
      | cons hv hvs ih' =>
        rw [List.map_cons, List.map_cons, ih _ List.mem_cons_self hv, ih' fun v hv => ih v (List.mem_cons_of_mem _ hv)]
  | obj members ih =>
    cases h with
    | @obj _ named members' distinct keys values order =>
      have hnamed : members.map (fun m => (m.1, m.2.generic)) = named.map fun m => (m.1, m.2.generic) := by
        clear * - keys values ih
        induction members generalizing named with
        | nil =>
          cases named with
          | nil => rfl
          | cons m named => cases keys
        | cons m members ih' =>
          cases named with
          | nil => cases keys
          | cons m' named =>
            obtain ⟨hkey, hkeys⟩ := List.cons.inj keys
            obtain ⟨hvalue, hvalues⟩ := List.forall₂_cons.mp values
            simp [hkey, ih m List.mem_cons_self hvalue,
              ih' (fun m hm => ih m (List.mem_cons_of_mem _ hm)) hkeys hvalues]
      have hdistinct : ((named.map fun m => (m.1, m.2.generic)).map Prod.fst).Nodup := by
        rw [List.map_map]
        exact keys ▸ distinct
      simp [generic_obj, hnamed, Assoc.ofMembers_perm hdistinct (order.map _)]

theorem generic_generic (v : Json) : v.generic.generic = v.generic := by
  induction v using Json.induct with
  | null => rfl
  | bool b => rfl
  | num n => rfl
  | str s => rfl
  | arr items ih =>
    rw [generic_arr, generic_arr, List.map_map]
    exact congrArg arr (List.map_congr_left ih)
  | obj members ih =>
    rw [generic_obj, generic_obj]
    have hvalues : ∀ m ∈ Assoc.ofMembers (members.map fun m => (m.1, m.2.generic)), (m.1, m.2.generic) = m := by
      intro m hm
      obtain ⟨x, hx, rfl⟩ := List.mem_map.mp (Assoc.mem_of_mem_ofMembers hm)
      rw [ih x hx]
    simp [List.map_congr_left hvalues, Assoc.ofMembers_of_sorted (Assoc.sorted_ofMembers _)]

end PiiShield.Json
