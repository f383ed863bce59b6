import Mathlib.Algebra.BigOperators.Group.Finset.Piecewise
import PiiShield.Sequential

/-! What interleaved clients of single statements still owe to a number read off their
database: a statement may pay its client's dues into it, and may leave some of them unpaid. -/

namespace PiiShield.Transactions

variable {D K F R A : Type}

variable {dues : Nat → Nat} {s : System D K F R A}

def Balanced (lossless : Prop) (now before : Nat) : Prop := now ≤ before ∧ (lossless → now = before)

theorem Balanced.refl (lossless : Prop) (n : Nat) : Balanced lossless n n := ⟨Nat.le_refl n, fun _ => rfl⟩

theorem Balanced.trans {lossless : Prop} {a b c : Nat} (h : Balanced lossless a b) (h' : Balanced lossless b c) :
    Balanced lossless a c :=
  ⟨h.1.trans h'.1, fun he => (h.2 he).trans (h'.2 he)⟩

section Owing

variable (worth : D → Nat) (lossless : Prop) (good : A → Prop)

def Client.Owes : Client D K F R A → Nat → Prop
  | .done a, dues => good a → dues = 0
  | .stmt _ write next, dues =>
    ∀ d, ∃ left, Balanced lossless (worth (write d) + left) (worth d + dues) ∧ (next d).Owes left
  | .transact .., _ => False

def Thread.Owes : Thread D K F R A → Nat → Prop
  | .idle c, dues => c.Owes worth lossless good dues
  | .busy .., _ => False
  | .gone, _ => True

variable {worth lossless good}

theorem Client.owes_pure {a : A} {dues : Nat} :
    (pure a : Client D K F R A).Owes worth lossless good dues ↔ (good a → dues = 0) := Iff.rfl

theorem Client.owes_exec_bind {B : Type} {write : D → D} {report : D → B} {f : B → Client D K F R A} {dues : Nat} :
    (Client.exec write report >>= f).Owes worth lossless good dues ↔
      ∀ d, ∃ left, Balanced lossless (worth (write d) + left) (worth d + dues) ∧
        (f (report d)).Owes worth lossless good left := Iff.rfl

theorem Thread.Owes.advance {t t' : Thread D K F R A} {dues : Nat} {blocked : K → Bool} {d d' : D}
    (h : t.Owes worth lossless good dues) (hstep : t.advance blocked d = some (d', t')) :
    ∃ left, Balanced lossless (worth d' + left) (worth d + dues) ∧ t'.Owes worth lossless good left := by
  cases t with
  | gone => cases hstep
  | busy => cases h
  | idle c =>
    cases c with
    | done => cases hstep
    | transact => cases h
    | stmt relies write next =>
      cases hstep
      exact h d

namespace System

variable [DecidableEq K] (serial : Bool)

def Owing (worth : D → Nat) (lossless : Prop) (good : A → Prop) (s : System D K F R A) (dues : Nat → Nat) : Prop :=
  ∀ p (t : Thread D K F R A), s.threads[p]? = some t → t.Owes worth lossless good (dues p)

omit [DecidableEq K] in
theorem Owing.set (h : s.Owing worth lossless good dues) {d : D} {p left : Nat}
    {t : Thread D K F R A} (ht : t.Owes worth lossless good left) :
    (System.mk d (s.threads.set p t)).Owing worth lossless good (Function.update dues p left) := by
  intro q u hq
  rw [List.getElem?_set] at hq
  by_cases hqp : p = q
  · simp_all
  rw [if_neg hqp] at hq
  rw [Function.update_of_ne (Ne.symm hqp)]
  exact h q u hq

theorem sum_update {n p : Nat} (dues : Nat → Nat) (left : Nat) (hp : p < n) :
    ∑ q ∈ Finset.range n, Function.update dues p left q + dues p = ∑ q ∈ Finset.range n, dues q + left := by
  have hmem : p ∈ Finset.range n := Finset.mem_range.mpr hp
  rw [Finset.sum_update_of_mem hmem, Finset.sum_eq_add_sum_sdiff_singleton_of_mem hmem dues]
  omega

theorem Owing.step (h : s.Owing worth lossless good dues) (a : Action) :
    ∃ left, (s.step serial a).Owing worth lossless good left ∧ (s.step serial a).threads.length = s.threads.length ∧
      Balanced lossless (worth (s.step serial a).db + ∑ p ∈ Finset.range s.threads.length, left p)
        (worth s.db + ∑ p ∈ Finset.range s.threads.length, dues p) := by
  have still : ∃ left, s.Owing worth lossless good left ∧ s.threads.length = s.threads.length ∧
      Balanced lossless (worth s.db + ∑ p ∈ Finset.range s.threads.length, left p)
        (worth s.db + ∑ p ∈ Finset.range s.threads.length, dues p) :=
    ⟨dues, h, rfl, .refl lossless _⟩
  cases a with
  | crash p =>
    refine ⟨Function.update dues p (dues p), h.set trivial, List.length_set, ?_⟩
    rw [Function.update_eq_self]
    exact .refl lossless _
  | advance p =>
    rw [System.step]
    cases ht : s.threads[p]? with
    | none => exact still
    | some t =>
      dsimp only
      split
      · exact still
      · cases hstep : t.advance (fun k => (s.threads.eraseIdx p).any (·.held.contains k)) s.db with
        | none => exact still
        | some next =>
          obtain ⟨d', t'⟩ := next
          obtain ⟨left, hbal, hnext⟩ := (h p t ht).advance hstep
          obtain ⟨hp, -⟩ := List.getElem?_eq_some_iff.mp ht
          refine ⟨Function.update dues p left, h.set hnext, List.length_set, ?_⟩
          have hsum := sum_update dues left hp
          dsimp only
          refine ⟨?_, fun he => ?_⟩
          · have := hbal.1
            omega
          have := hbal.2 he
          omega

theorem Owing.run (h : s.Owing worth lossless good dues) (actions : List Action) :
    ∃ left, (s.run serial actions).Owing worth lossless good left ∧
      (s.run serial actions).threads.length = s.threads.length ∧
      Balanced lossless (worth (s.run serial actions).db + ∑ p ∈ Finset.range s.threads.length, left p)
        (worth s.db + ∑ p ∈ Finset.range s.threads.length, dues p) := by
  induction actions generalizing s dues with
  | nil => exact ⟨dues, h, rfl, .refl lossless _⟩
  | cons a actions ih =>
    obtain ⟨mid, hmid, hlen, hbal⟩ := h.step serial a
    obtain ⟨left, hleft, hlen', hbal'⟩ := ih hmid
    rw [hlen] at hlen' hbal'
    exact ⟨left, hleft, hlen', hbal'.trans hbal⟩

theorem Owing.paid (h : s.Owing worth lossless good dues) (actions : List Action)
    (hgood : ∀ p < s.threads.length, ∃ a, (s.run serial actions).answer p = some a ∧ good a) :
    Balanced lossless (worth (s.run serial actions).db)
      (worth s.db + ∑ p ∈ Finset.range s.threads.length, dues p) := by
  obtain ⟨left, hleft, hlen, hbal⟩ := h.run serial actions
  have hnone : ∑ p ∈ Finset.range s.threads.length, left p = 0 := by
    refine Finset.sum_eq_zero fun p hp => ?_
    obtain ⟨a, ha, hok⟩ := hgood p (Finset.mem_range.mp hp)
    exact hleft p _ (thread_of_answer ha) hok
  rwa [hnone, Nat.add_zero] at hbal

end System

end Owing

end PiiShield.Transactions
