import Mathlib.Data.List.Infix

/-! Runs of a system as lists of inputs: a condition that every input meets after those
before it, and what it keeps along a run. -/

namespace PiiShield

variable {α : Type*} {C : List α → α → Prop} {run : List α}

/-- Every input of the run meets the condition after the inputs before it. -/
def AtEvery (C : List α → α → Prop) (run : List α) : Prop := ∀ before i, before ++ [i] <+: run → C before i

theorem atEvery_nil : AtEvery C [] := by
  intro before i h
  simp at h

theorem atEvery_concat {i : α} : AtEvery C (run ++ [i]) ↔ AtEvery C run ∧ C run i := by
  constructor
  · intro h
    exact ⟨fun before j hj => h before j (hj.trans (List.prefix_append _ _)), h run i (List.prefix_refl _)⟩
  rintro ⟨h, hi⟩ before j hj
  rcases List.prefix_concat_iff.mp hj with heq | hj
  · obtain ⟨rfl, hlast⟩ := List.append_inj' heq rfl
    cases hlast
    exact hi
  exact h before j hj

theorem AtEvery.keeps {I : List α → Prop} {before : List α} (h : AtEvery C (before ++ run))
    (hstart : I before) (hstep : ∀ r i, I r → C r i → I (r ++ [i])) : I (before ++ run) := by
  induction run using List.reverseRecOn with
  | nil => simpa using hstart
  | append_singleton run i ih =>
    rw [← List.append_assoc] at h ⊢
    obtain ⟨h, hi⟩ := atEvery_concat.mp h
    exact hstep _ i (ih h) hi

end PiiShield
