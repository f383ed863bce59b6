import Mathlib.Algebra.GroupWithZero.Nat
import Mathlib.Algebra.Order.BigOperators.Group.List
import Mathlib.Data.List.Basic

/-! Threads over a shared state. A thread advances by its own steps, which may be blocked, and a
thread may be added at any time. An assertion of each thread about the shared state holds in every
run if its own steps keep it and those of the others do not disturb it. -/

namespace PiiShield.Threads

structure System (G L : Type) where
  shared : G
  threads : List L

variable {G L : Type}

namespace System

def fire (advance : Nat → G → L → Option (G × L)) (s : System G L) (i : Nat) : Option (System G L) :=
  (s.threads[i]?).bind fun l =>
    (advance i s.shared l).map fun (g, l') => ⟨g, s.threads.set i l'⟩

def spawn (s : System G L) (l : L) : System G L := ⟨s.shared, s.threads ++ [l]⟩

/-- Threads advance in the given order, none of them blocked. -/
def goes (advance : Nat → G → L → Option (G × L)) : System G L → List Nat → Option (System G L)
  | s, [] => some s
  | s, i :: picks => (s.fire advance i).bind fun s' => s'.goes advance picks

end System

variable {advance : Nat → G → L → Option (G × L)} {s s' : System G L} {i : Nat}

theorem fire_eq_some : s.fire advance i = some s' ↔ ∃ l g l', s.threads[i]? = some l ∧
      advance i s.shared l = some (g, l') ∧ s' = ⟨g, s.threads.set i l'⟩ := by
  constructor
  · intro h
    obtain ⟨l, hl, h⟩ := Option.bind_eq_some_iff.mp h
    obtain ⟨⟨g, l'⟩, hadv, heq⟩ := Option.map_eq_some_iff.mp h
    exact ⟨l, g, l', hl, hadv, heq.symm⟩
  rintro ⟨l, g, l', hl, hadv, rfl⟩
  simp [System.fire, hl, hadv]

section Assertions

variable {I : Nat → G → Prop} {J : G → Nat → L → Prop}

/-- The shared state meets `I` with the number of threads and each thread its assertion. -/
structure Holds (I : Nat → G → Prop) (J : G → Nat → L → Prop) (s : System G L) : Prop where
  shared : I s.threads.length s.shared
  each : ∀ i l, s.threads[i]? = some l → J s.shared i l

theorem Holds.replace {g : G} {l' : L} (hi : i < s.threads.length)
    (hI : I s.threads.length g) (hown : J g i l')
    (hother : ∀ k m, i ≠ k → s.threads[k]? = some m → J g k m) : Holds I J ⟨g, s.threads.set i l'⟩ := by
  constructor
  · rw [List.length_set]
    exact hI
  grind

theorem Holds.fire (h : Holds I J s)
    (hown : ∀ i n g l g' l', I n g → i < n → J g i l → advance i g l = some (g', l') → I n g' ∧ J g' i l')
    (hother : ∀ i k n g l g' l' m, i ≠ k → I n g → J g i l → J g k m →
      advance i g l = some (g', l') → J g' k m)
    (hfire : s.fire advance i = some s') : Holds I J s' := by
  obtain ⟨l, g, l', hl, hadv, rfl⟩ := fire_eq_some.mp hfire
  have hi : i < s.threads.length := (List.getElem?_eq_some_iff.mp hl).1
  obtain ⟨hI, hJ⟩ := hown i _ _ _ _ _ h.shared hi (h.each i l hl) hadv
  refine Holds.replace hi hI hJ ?_
  intro k m hk hm
  exact hother i k _ _ _ _ _ m hk h.shared (h.each i l hl) (h.each k m hm) hadv

theorem Holds.spawn {l : L} (h : Holds I J s)
    (hnew : I (s.threads.length + 1) s.shared ∧ J s.shared s.threads.length l) :
    Holds I J (s.spawn l) := by
  constructor
  · rw [System.spawn, List.length_append, List.length_singleton]
    exact hnew.1
  intro k m hm
  rw [System.spawn, List.getElem?_append] at hm
  split at hm
  · exact h.each k m hm
  · next hk =>
    have hzero : k - s.threads.length = 0 := by grind
    rw [hzero, List.getElem?_cons_zero, Option.some.injEq] at hm
    have hlen : k = s.threads.length := by omega
    exact hlen ▸ hm ▸ hnew.2

end Assertions

section Load

def load (v : G → Nat) (w : L → Nat) (s : System G L) : Nat := v s.shared + (s.threads.map w).sum

theorem sum_set (w : L → Nat) {threads : List L} {l : L} (h : threads[i]? = some l) (l' : L) :
    ((threads.set i l').map w).sum + w l = (threads.map w).sum + w l' := by
  induction threads generalizing i with
  | nil => cases h
  | cons m threads ih =>
    cases i with
    | zero | succ i =>
      grind

variable {v : G → Nat} {w : L → Nat}

theorem load_fire (hstep : ∀ i g l g' l', advance i g l = some (g', l') → v g' + w l' < v g + w l)
    (h : s.fire advance i = some s') : load v w s' < load v w s := by
  obtain ⟨l, g, l', hl, hadv, rfl⟩ := fire_eq_some.mp h
  grind [sum_set, load]

theorem length_le_load (hstep : ∀ i g l g' l', advance i g l = some (g', l') → v g' + w l' < v g + w l)
    {picks : List Nat} (h : s.goes advance picks = some s') : picks.length ≤ load v w s := by
  induction picks generalizing s with
  | nil => exact Nat.zero_le _
  | cons i picks ih =>
    obtain ⟨t, hfire, hrest⟩ := Option.bind_eq_some_iff.mp h
    have hless := load_fire hstep hfire
    have hle := ih hrest
    rw [List.length_cons]
    omega

end Load

end PiiShield.Threads
