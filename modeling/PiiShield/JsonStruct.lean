import Mathlib.Logic.Function.Basic
import Mathlib.Logic.Relation
import PiiShield.Json

/-! How `encoding/json` reads an object into a struct: a member goes to the field its key names,
exactly or up to case, and later members are read over earlier ones. -/

namespace PiiShield

def foldRune (r : Nat) : Nat :=
  if 0x61 ≤ r && r ≤ 0x7A then r - 0x20
  else if r == 0x017F then 0x53
  else if r == 0x212A then 0x4B
  else r

def foldName (s : Bytes) : List Nat := (runes s).map foldRune

structure Struct (ι : Type) (α : ι → Type) where
  fields : List ι
  name : ι → Bytes
  /-- Reads a value over the one a field has. -/
  decode : (i : ι) → α i → Json → Option (α i)

namespace Struct

variable {ι : Type} {α : ι → Type} [DecidableEq ι] (T : Struct ι α)

def fieldOf (key : Bytes) : Option ι :=
  (T.fields.find? fun i => T.name i == key).or (T.fields.find? fun i => foldName (T.name i) == foldName key)

def set (r : (i : ι) → α i) (m : Text × Json) : Option ((i : ι) → α i) :=
  match T.fieldOf m.1.bytes with
  | none => some r
  | some i => (T.decode i (r i) m.2).map (Function.update r i)

variable {T} in
theorem set_of_unknown {m : Text × Json} (h : T.fieldOf m.1.bytes = none) (r : (i : ι) → α i) : T.set r m = some r := by
  rw [set, h]

variable {T} in
theorem set_of_field {m : Text × Json} {i : ι} (h : T.fieldOf m.1.bytes = some i) (r : (i : ι) → α i) :
    T.set r m = (T.decode i (r i) m.2).map (Function.update r i) := by
  rw [set, h]

def read (r : (i : ι) → α i) : Json → Option ((i : ι) → α i)
  | .obj members => members.foldlM T.set r
  | .null => some r
  | _ => none

def named (i : ι) (members : List (Text × Json)) : List (Text × Json) :=
  members.filter fun m => T.fieldOf m.1.bytes == some i

theorem named_cons_self {i : ι} {m : Text × Json} (h : T.fieldOf m.1.bytes = some i) (ms : List (Text × Json)) :
    T.named i (m :: ms) = m :: T.named i ms := by
  rw [named, List.filter_cons_of_pos (by rw [h]; exact beq_self_eq_true _), named]

theorem named_cons_of_ne {i : ι} {m : Text × Json} (h : T.fieldOf m.1.bytes ≠ some i) (ms : List (Text × Json)) :
    T.named i (m :: ms) = T.named i ms := by
  rw [named, List.filter_cons_of_neg (by rw [beq_iff_eq]; exact h), named]

theorem foldlM_set_iff {members : List (Text × Json)} {r r' : (i : ι) → α i} :
    members.foldlM T.set r = some r' ↔
      ∀ i, (T.named i members).foldlM (fun x m => T.decode i x m.2) (r i) = some (r' i) := by
  induction members generalizing r with
  | nil =>
    simp only [named, List.filter_nil, List.foldlM_nil, pure, Option.some.injEq]
    exact funext_iff
  | cons m ms ih =>
    rw [List.foldlM_cons]
    cases hf : T.fieldOf m.1.bytes with
    | none =>
      have hnamed (i : ι) : T.named i (m :: ms) = T.named i ms := T.named_cons_of_ne (by rw [hf]; nofun) ms
      simp [set_of_unknown hf, ih, hnamed]
    | some j =>
      rw [set_of_field hf]
      cases hd : T.decode j (r j) m.2 with
      | none =>
        simp only [Option.map_none, Option.bind_eq_bind, Option.bind_none, reduceCtorEq, false_iff]
        intro h
        have hj := h j
        rw [T.named_cons_self hf, List.foldlM_cons, hd] at hj
        cases hj
      | some x =>
        simp only [Option.map_some, Option.bind_eq_bind, Option.bind_some, ih]
        refine forall_congr' fun i => ?_
        by_cases hij : i = j
        · subst hij
          rw [T.named_cons_self hf, List.foldlM_cons, hd, Function.update_self]
          rfl
        have hne : T.fieldOf m.1.bytes ≠ some i := by
          rw [hf]
          exact fun h => hij (Option.some.inj h).symm
        grind [T.named_cons_of_ne hne]

theorem named_map (f : Json → Json) (i : ι) (members : List (Text × Json)) :
    T.named i (members.map fun m => (m.1, f m.2)) = (T.named i members).map fun m => (m.1, f m.2) := by
  rw [named, List.filter_map]
  rfl

theorem named_filter (p : Text × Json → Bool) (i : ι) (members : List (Text × Json)) :
    T.named i (members.filter p) = (T.named i members).filter p := by
  simp [named, List.filter_filter, Bool.and_comm]

/-- What field `i` may come to hold where some of the members, or their generic forms, are read into it. -/
def Leaves (i : ι) (members : List (Text × Json)) : α i → α i → Prop :=
  Relation.ReflTransGen fun x y => ∃ m ∈ members, T.decode i x m.2 = some y ∨ T.decode i x m.2.generic = some y

/-- Members that name field `i` are read alike in the order of an object and in that of a map: they end in
members in the order of their keys, which show the same of the field over all that those before them leave. -/
def Settled (i : ι) (view : α i → α i) (good : Json → Prop) (members : List (Text × Json)) : Prop :=
  ∃ l r, members = l ++ r ∧ Assoc.Sorted r ∧ (∀ m ∈ r, good m.2) ∧
    (l = [] ∨ ∃ m ∈ r.head?, (∀ m' ∈ l, m'.1 ≤ m.1) ∧ ∀ x y z, T.Leaves i l x y → T.Leaves i l x z →
      (r.foldlM (fun x m => T.decode i x m.2) y).map view = (r.foldlM (fun x m => T.decode i x m.2) z).map view)

/-- A value is read as its generic form is, where both can be read. -/
def Alike {β : Type} (decode : β → Json → Option β) (v : Json) : Prop :=
  ∀ x a b, decode x v = some a → decode x v.generic = some b → a = b

theorem foldlM_alike {β : Type} {decode : β → Json → Option β} {ms : List (Text × Json)}
    (h : ∀ m ∈ ms, Alike decode m.2) {x a b : β} (ha : ms.foldlM (fun x m => decode x m.2) x = some a)
    (hb : (ms.map fun m => (m.1, m.2.generic)).foldlM (fun x m => decode x m.2) x = some b) : a = b := by
  induction ms generalizing x with
  | nil => exact Option.some.inj (ha.symm.trans hb)
  | cons m ms ih =>
    rw [List.foldlM_cons] at ha
    rw [List.map_cons, List.foldlM_cons] at hb
    obtain ⟨y, hy, ha⟩ := Option.bind_eq_some_iff.mp ha
    obtain ⟨z, hz, hb⟩ := Option.bind_eq_some_iff.mp hb
    cases h m List.mem_cons_self x y z hy hz
    exact ih (fun m' hm' => h m' (List.mem_cons_of_mem m hm')) ha hb

variable {T}

omit [DecidableEq ι] in
theorem leaves_of_foldlM {i : ι} {l ms : List (Text × Json)}
    (hms : ∀ m ∈ ms, ∃ m' ∈ l, m.2 = m'.2 ∨ m.2 = m'.2.generic) {x y : α i}
    (h : ms.foldlM (fun x m => T.decode i x m.2) x = some y) : T.Leaves i l x y := by
  induction ms generalizing x with
  | nil =>
    cases h
    exact .refl
  | cons m ms ih =>
    rw [List.foldlM_cons] at h
    obtain ⟨z, hz, h⟩ := Option.bind_eq_some_iff.mp h
    obtain ⟨m', hm', hvalue⟩ := hms m List.mem_cons_self
    refine .head ⟨m', hm', ?_⟩ (ih (fun k hk => hms k (List.mem_cons_of_mem m hk)) h)
    rcases hvalue with hv | hv
    · exact .inl (hv ▸ hz)
    exact .inr (hv ▸ hz)

theorem Settled.same {i : ι} {view : α i → α i} {good : Json → Prop} {members : List (Text × Json)}
    (h : T.Settled i view good (T.named i members)) (hgood : ∀ v, good v → Alike (T.decode i) v) {x a b : α i}
    (ha : (T.named i members).foldlM (fun x m => T.decode i x m.2) x = some a)
    (hb : (T.named i (Assoc.ofMembers (members.map fun m => (m.1, m.2.generic)))).foldlM
      (fun x m => T.decode i x m.2) x = some b) : view a = view b := by
  obtain ⟨l, r, hnamed, hr, hg, hl⟩ := h
  have halike (m : Text × Json) (hm : m ∈ r) : Alike (T.decode i) m.2 := hgood m.2 (hg m hm)
  have hsorted : Assoc.Sorted (r.map fun m => (m.1, m.2.generic)) := List.pairwise_map.mpr hr
  rw [named, Assoc.ofMembers_filter fun k : Text => T.fieldOf k.bytes == some i] at hb
  change (Assoc.ofMembers (T.named i _)).foldlM _ _ = _ at hb
  rw [named_map, hnamed, List.map_append] at hb
  rw [hnamed] at ha
  rcases hl with rfl | ⟨m, hm, hle, hover⟩
  · rw [List.map_nil, List.nil_append, Assoc.ofMembers_of_sorted hsorted] at hb
    exact congrArg view (foldlM_alike halike ha hb)
  have hhead : (m.1, m.2.generic) ∈ (r.map fun m => (m.1, m.2.generic)).head? := by
    rw [List.head?_map, hm]
    rfl
  have hkeys : ∀ k ∈ l.map fun m => (m.1, m.2.generic), k.1 ≤ m.1 := List.forall_mem_map.mpr hle
  obtain ⟨t, ht⟩ := Assoc.ofMembers_append hhead hsorted hkeys
  have hleft (k : Text × Json) (hk : k ∈ t) : ∃ m' ∈ l, k.2 = m'.2 ∨ k.2 = m'.2.generic := by
    obtain ⟨m', hm', rfl⟩ := List.mem_map.mp (Assoc.mem_of_ofMembers_append ht hk)
    exact ⟨m', hm', .inr rfl⟩
  rw [ht, List.foldlM_append] at hb
  rw [List.foldlM_append] at ha
  obtain ⟨y, hy, ha⟩ := Option.bind_eq_some_iff.mp ha
  obtain ⟨z, hz, hb⟩ := Option.bind_eq_some_iff.mp hb
  have hshown := hover x y z (leaves_of_foldlM (fun k hk => ⟨k, hk, .inl rfl⟩) hy) (leaves_of_foldlM hleft hz)
  rw [ha] at hshown
  obtain ⟨a', ha', hview⟩ := Option.map_eq_some_iff.mp hshown.symm
  cases foldlM_alike halike ha' hb
  exact hview.symm

end Struct

def decodeString (old : Bytes) : Json → Option Bytes
  | .str s => some s.bytes
  | .null => some old
  | _ => none

def decodeNumber {α : Type} (read : Bytes → Option α) (old : α) : Json → Option α
  | .num n => read n.text
  | .null => some old
  | _ => none

def decodeFlag : Json → Option (Option Bool)
  | .bool b => some (some b)
  | .null => some none
  | _ => none

/-- A slice with the elements it keeps behind its length. -/
structure Slice (α : Type) where
  items : List α
  spare : List α

def Slice.shown {α : Type} (s : Slice α) : Slice α := ⟨s.items, []⟩

/-- The values of an array are read over the elements a slice has, up to its capacity. -/
def decodeItems {α : Type} (zero : α) (item : α → Json → Option α) : List α → List Json → Option (Slice α)
  | old, [] => some ⟨[], old⟩
  | old, v :: vs => do
    let x ← item (old.headD zero) v
    let rest ← decodeItems zero item old.tail vs
    return ⟨x :: rest.items, rest.spare⟩

def decodeSlice {α : Type} (zero : α) (item : α → Json → Option α) (old : Slice α) : Json → Option (Slice α)
  | .arr [] => some ⟨[], []⟩
  | .arr vs => decodeItems zero item (old.items ++ old.spare) vs
  | .null => some ⟨[], []⟩
  | _ => none

end PiiShield
