import Mathlib.Data.List.Nodup

/-! Counts by key: a map from keys to numbers that are added to. -/

namespace PiiShield

structure Tally (K : Type) where
  entries : List (K × Nat)
  nodup : (entries.map Prod.fst).Nodup

namespace Tally

variable {K : Type} [DecidableEq K]

def empty : Tally K := ⟨[], List.nodup_nil⟩

variable (t : Tally K)

omit [DecidableEq K] in
def keys : List K := t.entries.map Prod.fst

def get (k : K) : Nat := ((t.entries.find? (·.1 = k)).map Prod.snd).getD 0

def addTo (k : K) (n : Nat) (e : K × Nat) : K × Nat := if e.1 = k then (e.1, e.2 + n) else e

theorem addTo_fst (k : K) (n : Nat) (e : K × Nat) : (addTo k n e).1 = e.1 := by
  rw [addTo]
  split <;> rfl

theorem map_fst_map_addTo (k : K) (n : Nat) (l : List (K × Nat)) :
    (l.map (addTo k n)).map Prod.fst = l.map Prod.fst := by
  rw [List.map_map]
  exact List.map_congr_left fun e _ => addTo_fst k n e

theorem nodup_map_addTo (k : K) (n : Nat) : ((t.entries.map (addTo k n)).map Prod.fst).Nodup := by
  rw [map_fst_map_addTo]
  exact t.nodup

omit [DecidableEq K] in
theorem nodup_concat {k : K} (h : k ∉ t.keys) (n : Nat) :
    ((t.entries ++ [(k, n)]).map Prod.fst).Nodup := by
  rw [List.map_append]
  exact t.nodup.append (List.nodup_singleton k) (List.disjoint_singleton.mpr h)

def add (k : K) (n : Nat) : Tally K :=
  if h : k ∈ t.keys then ⟨t.entries.map (addTo k n), t.nodup_map_addTo k n⟩
  else ⟨t.entries ++ [(k, n)], t.nodup_concat h n⟩

end Tally

end PiiShield
