import Mathlib.Data.List.Basic
import PiiShield.TiedRuns

/-! Programs that touch the ambient state only through a few basic programs, and the order in which
a run reads and replaces it. -/

namespace PiiShield

variable {S : Sig} {α β : Type}

variable {p : Prog S α} {s : S.State}

theorem Prog.bind_bind {γ : Type} (p : Prog S α) (k : α → Prog S β) (k' : β → Prog S γ) :
    (p.bind k).bind k' = p.bind fun a => (k a).bind k' := by
  induction p with
  | pure a => rfl
  | emit o p ih | mark m p ih | set x p ih => exact congrArg _ ih
  | call f p ih | get p ih => exact congrArg _ (funext ih)
  | capture f p ih => exact congrArg _ (funext fun r => funext (ih r))
  | panic => rfl

theorem Prog.bind_pure (p : Prog S α) : p.bind Prog.pure = p := by
  induction p with
  | pure a => rfl
  | emit o p ih | mark m p ih | set x p ih => exact congrArg _ ih
  | call f p ih | get p ih => exact congrArg _ (funext ih)
  | capture f p ih => exact congrArg _ (funext fun r => funext (ih r))
  | panic => rfl

inductive Prog.BuiltOf (A : Prog S Unit → Prop) : Prog S α → Prop
  | pure (a : α) : BuiltOf A (.pure a)
  | emit (o : Bytes) {k : Prog S α} (h : BuiltOf A k) : BuiltOf A (.emit o k)
  | mark (m : S.Mark) {k : Prog S α} (h : BuiltOf A k) : BuiltOf A (.mark m k)
  | call (f : S.Frame) {k : S.Ret f → Prog S α} (h : ∀ r, BuiltOf A (k r)) : BuiltOf A (.call f k)
  | capture (f : S.Frame) {k : S.Ret f → Bytes → Prog S α} (h : ∀ r o, BuiltOf A (k r o)) :
      BuiltOf A (.capture f k)
  | basic {p : Prog S Unit} {k : Unit → Prog S α} (hp : A p) (h : ∀ a, BuiltOf A (k a)) : BuiltOf A (p.bind k)
  | panic : BuiltOf A .panic

namespace Prog.BuiltOf

variable {A : Prog S Unit → Prop} {s s' : S.State}

theorem bind {k : α → Prog S β} (hp : p.BuiltOf A) (hk : ∀ a, (k a).BuiltOf A) : (p.bind k).BuiltOf A := by
  induction hp with
  | pure a => exact hk a
  | emit o _ ih => exact .emit o ih
  | mark m _ ih => exact .mark m ih
  | call f _ ih => exact .call f ih
  | capture f _ ih => exact .capture f ih
  | basic hp _ ih =>
    rw [Prog.bind_bind]
    exact .basic hp ih
  | panic => exact .panic

theorem write (o : Bytes) : (Prog.write o : Prog S Unit).BuiltOf A := .emit o (.pure ())

theorem place (m : S.Mark) : (Prog.place m).BuiltOf A := .mark m (.pure ())

theorem invoke (f : S.Frame) : (Prog.call f Prog.pure : Prog S (S.Ret f)).BuiltOf A := .call f .pure

theorem wrote {o : Bytes} {k : Unit → Prog S α} (hk : (k ()).BuiltOf A) : ((Prog.write o).bind k).BuiltOf A :=
  .emit o hk

theorem called {f : S.Frame} {k : S.Ret f → Prog S α} (hk : ∀ r, (k r).BuiltOf A) :
    ((Prog.call f Prog.pure).bind k).BuiltOf A :=
  .call f hk

theorem single {p : Prog S Unit} (hp : A p) : p.BuiltOf A := by
  rw [← p.bind_pure]
  exact .basic hp .pure

theorem ite {c : Prop} [Decidable c] {q : Prog S α} (hp : p.BuiltOf A) (hq : q.BuiltOf A) :
    (if c then p else q).BuiltOf A := by
  split
  · exact hp
  exact hq

theorem tied (hp : p.BuiltOf A) (hA : ∀ p, A p → p.Tied s s') : p.Tied s s' := by
  induction hp with
  | pure a => trivial
  | emit o _ ih => exact ih
  | mark m _ ih => exact ih
  | call f _ ih => exact ih
  | capture f _ ih => exact ih
  | basic hp _ ih => exact .bind (hA _ hp) ih
  | panic => trivial

end Prog.BuiltOf

def Prog.Steps (R : S.State → S.State → Prop) : Prog S α → S.State → Prop
  | .pure _, _ => True
  | .emit _ k, s => k.Steps R s
  | .mark _ k, s => k.Steps R s
  | .call _ k, _ => ∀ r s, (k r).Steps R s
  | .capture _ k, _ => ∀ r o s, (k r o).Steps R s
  | .get k, s => (k s).Steps R s
  | .set x k, s => R s x ∧ k.Steps R x
  | .panic, _ => True

section Steps

variable {R : S.State → S.State → Prop}

theorem Prog.Steps.bind {k : α → Prog S β} (hp : p.Steps R s)
    (hk : ∀ a s, (k a).Steps R s) : (p.bind k).Steps R s := by
  induction p generalizing s with
  | pure a => exact hk a s
  | emit o p ih | mark m p ih => exact ih hp
  | call f p ih => exact fun r s => ih r (hp r s)
  | capture f p ih => exact fun r o s => ih r o (hp r o s)
  | get p ih => exact ih s hp
  | set x p ih => exact ⟨hp.1, ih hp.2⟩
  | panic => trivial

theorem Prog.BuiltOf.steps {A : Prog S Unit → Prop} (hp : p.BuiltOf A)
    (hA : ∀ p, A p → ∀ s, p.Steps R s) (s : S.State) : p.Steps R s := by
  induction hp generalizing s with
  | pure a => trivial
  | emit o _ ih | mark m _ ih => exact ih s
  | call f _ ih => exact ih
  | capture f _ ih => exact ih
  | basic hp _ ih => exact .bind (hA _ hp s) ih
  | panic => trivial

end Steps

inductive Access (S : Sig)
  | read (s : S.State)
  | write (s : S.State)

namespace Access

def isWrite : Access S → Bool
  | .read _ => false
  | .write _ => true

def last (s : S.State) : List (Access S) → S.State
  | [] => s
  | .read _ :: l => last s l
  | .write x :: l => last x l

def Chained (R : S.State → S.State → Prop) : S.State → List (Access S) → Prop
  | _, [] => True
  | s, .read x :: l => x = s ∧ Chained R s l
  | s, .write x :: l => R s x ∧ Chained R x l

variable {R : S.State → S.State → Prop}

theorem last_append (s : S.State) (l l' : List (Access S)) : last s (l ++ l') = last (last s l) l' := by
  induction l generalizing s with
  | nil => rfl
  | cons a l ih => cases a <;> exact ih _

theorem Chained.append {l l' : List (Access S)} (hl : Chained R s l)
    (hl' : Chained R (last s l) l') : Chained R s (l ++ l') := by
  induction l generalizing s with
  | nil => exact hl'
  | cons a l ih =>
    cases a with
    | read x | write x => exact ⟨hl.1, ih hl.2 hl'⟩

theorem Chained.at_read {P : Nat → S.State → Prop} (hstep : ∀ n s x, P n s → R s x → P (n + 1) x)
    {b : S.State} {n : Nat} {before after : List (Access S)} (hs : P n s)
    (h : Chained R s (before ++ .read b :: after)) : P (n + before.countP isWrite) b := by
  induction before generalizing s n with
  | nil =>
    obtain ⟨rfl, _⟩ := h
    exact hs
  | cons a before ih =>
    cases a with
    | read x =>
      rw [List.countP_cons_of_neg (by simp [isWrite])]
      exact ih hs h.2
    | write x =>
      rw [List.countP_cons_of_pos (by simp [isWrite]), Nat.add_comm _ 1, ← Nat.add_assoc]
      exact ih (hstep n s x hs h.1) h.2

end Access

namespace Machine

variable (M : Machine S)

def execAccesses (answer : (f : S.Frame) → S.State → Outcome S (S.Ret f))
    (calls : S.Frame → S.State → List (Access S)) : Prog S α → S.State → List (Access S)
  | .pure _, _ => []
  | .emit _ k, s => execAccesses answer calls k s
  | .mark _ k, s => execAccesses answer calls k s
  | .call f k, s =>
    calls f s ++
      match (answer f s).res with
      | .ok r => execAccesses answer calls (k r) (answer f s).state
      | .error _ => []
  | .capture f k, s =>
    calls f s ++
      match (answer f s).res with
      | .ok r => execAccesses answer calls (k r (answer f s).out) (answer f s).state
      | .error _ => []
  | .get k, s => .read s :: execAccesses answer calls (k s) s
  | .set x k, _ => .write x :: execAccesses answer calls k x
  | .panic, _ => []

def accesses : Nat → S.Frame → S.State → List (Access S)
  | 0, _, _ => []
  | n + 1, f, s => execAccesses (M.run n) (accesses n) (M.body f) s

variable {M} {answer : (f : S.Frame) → S.State → Outcome S (S.Ret f)}
  {calls : S.Frame → S.State → List (Access S)} {R : S.State → S.State → Prop} {self : S.Frame}

theorem exec_chained (hcalls : ∀ f s, Access.Chained R s (calls f s) ∧ (answer f s).state = Access.last s (calls f s))
    (hp : p.Steps R s) :
    Access.Chained R s (execAccesses answer calls p s) ∧
      (M.exec answer self p s).state = Access.last s (execAccesses answer calls p s) := by
  induction p generalizing s with
  | pure a | panic => exact ⟨trivial, rfl⟩
  | emit o p ih | mark m p ih => exact ih hp
  | call f p ih =>
    obtain ⟨hchain, hlast⟩ := hcalls f s
    rw [execAccesses, exec]
    cases hres : (answer f s).res with
    | ok r =>
      obtain ⟨hchain', hlast'⟩ := ih r (hp r (answer f s).state)
      refine ⟨hchain.append (hlast ▸ hchain'), ?_⟩
      rw [Access.last_append, ← hlast]
      exact hlast'
    | error e =>
      rw [List.append_nil]
      exact ⟨hchain, hlast⟩
  | capture f p ih =>
    obtain ⟨hchain, hlast⟩ := hcalls f s
    rw [execAccesses, exec]
    cases hres : (answer f s).res with
    | ok r =>
      obtain ⟨hchain', hlast'⟩ := ih r (answer f s).out (hp r _ (answer f s).state)
      refine ⟨hchain.append (hlast ▸ hchain'), ?_⟩
      rw [Access.last_append, ← hlast]
      exact hlast'
    | error e =>
      rw [List.append_nil]
      exact ⟨hchain, hlast⟩
  | get p ih =>
    obtain ⟨hchain, hlast⟩ := ih s hp
    exact ⟨⟨rfl, hchain⟩, hlast⟩
  | set x p ih =>
    obtain ⟨hchain, hlast⟩ := ih hp.2
    exact ⟨⟨hp.1, hchain⟩, hlast⟩

theorem run_chained (hM : ∀ f s, (M.body f).Steps R s) (n : Nat) (f : S.Frame) (s : S.State) :
    Access.Chained R s (M.accesses n f s) ∧ (M.run n f s).state = Access.last s (M.accesses n f s) := by
  induction n generalizing f s with
  | zero => exact ⟨trivial, rfl⟩
  | succ n ih => exact exec_chained ih (hM f s)

end Machine

end PiiShield
