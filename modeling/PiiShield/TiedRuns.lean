import PiiShield.Prog

/-! Programs that cannot tell two ambient states apart: their runs write and return the same
and leave both states as they were. -/

namespace PiiShield

variable {S : Sig} {α β : Type} {s s' : S.State}

/-- The program does the same in `s` and in `s'` and writes neither. -/
def Prog.Tied (s s' : S.State) : Prog S α → Prop
  | .pure _ => True
  | .emit _ k => k.Tied s s'
  | .mark _ k => k.Tied s s'
  | .call _ k => ∀ r, (k r).Tied s s'
  | .capture _ k => ∀ r o, (k r o).Tied s s'
  | .get k => k s = k s' ∧ (k s).Tied s s'
  | .set x k => x = s ∧ x = s' ∧ k.Tied s s'
  | .panic => True

def Outcome.Tied (s s' : S.State) (r r' : Outcome S α) : Prop :=
  r.state = s ∧ r' = { r with state := s' }

namespace Prog.Tied

theorem bind {p : Prog S α} {k : α → Prog S β} (hp : p.Tied s s') (hk : ∀ a, (k a).Tied s s') :
    (p.bind k).Tied s s' := by
  induction p with
  | pure a => exact hk a
  | emit o p ih | mark m p ih => exact ih hp
  | call f p ih => exact fun r => ih r (hp r)
  | capture f p ih => exact fun r o => ih r o (hp r o)
  | get p ih => exact ⟨by simp only [hp.1], ih s hp.2⟩
  | set x p ih => exact ⟨hp.1, hp.2.1, ih hp.2.2⟩
  | panic => trivial

end Prog.Tied

theorem Outcome.Tied.after {r r' : Outcome S α} (h : r.Tied s s' r') (o : Bytes) (l : List (Event S)) :
    (r.after o l).Tied s s' (r'.after o l) := by
  obtain ⟨hs, rfl⟩ := h
  exact ⟨hs, rfl⟩

namespace Machine

variable {M : Machine S} {answer : (f : S.Frame) → S.State → Outcome S (S.Ret f)} {self : S.Frame}

theorem exec_tied (ha : ∀ f, (answer f s).Tied s s' (answer f s')) {p : Prog S α} (hp : p.Tied s s') :
    (M.exec answer self p s).Tied s s' (M.exec answer self p s') := by
  induction p with
  | pure a | panic => exact ⟨rfl, rfl⟩
  | emit o p ih => exact (ih hp).after o []
  | mark m p ih => exact (ih hp).after _ _
  | call f p ih =>
    obtain ⟨hs, hr⟩ := ha f
    rw [exec, exec, hr]
    cases hres : (answer f s).res with
    | ok r =>
      rw [hs]
      exact (ih r (hp r)).after _ _
    | error e => exact ⟨hs, rfl⟩
  | capture f p ih =>
    obtain ⟨hs, hr⟩ := ha f
    rw [exec, exec, hr]
    cases hres : (answer f s).res with
    | ok r =>
      rw [hs]
      exact (ih r _ (hp r _)).after _ _
    | error e => exact ⟨hs, rfl⟩
  | get p ih =>
    rw [exec, exec, ← hp.1]
    exact ih s hp.2
  | set x p ih =>
    obtain ⟨rfl, rfl, hk⟩ := hp
    exact ih hk

theorem run_tied (hM : ∀ f, (M.body f).Tied s s') (n : Nat) (f : S.Frame) :
    (M.run n f s).Tied s s' (M.run n f s') := by
  induction n generalizing f with
  | zero => exact ⟨rfl, rfl⟩
  | succ n ih => exact exec_tied ih (hM f)

end Machine

end PiiShield
