import PiiShield.Sequential
import Mathlib.Algebra.BigOperators.Fin
import Mathlib.Algebra.Order.BigOperators.Group.Finset

/-! Counting what clients take out of a database. Every state has a stock, every client holds
some amount, and no statement leaves more in both together than there was. So the answers of
all clients are worth no more than the stock and the holdings were at the start. -/

namespace PiiShield.Transactions

variable {D K F R A B : Type}

section Holds

variable (stock : D → Nat) (worth : A → Nat)

def Tx.Holds (post : R → Nat → Prop) : Tx D K R → (D → D) → Nat → Prop
  | .stmt write next, w, n => ∀ d, (next (w d)).Holds post (write ∘ w) n
  | .lock _ _ next, w, n => ∀ row, (next row).Holds post w n
  | .commit r, w, n => ∀ d, ∃ m, stock (w d) + m ≤ stock d + n ∧ post r m
  | .rollback r, _, n => post r n

def Client.Holds : Client D K F R A → Nat → Prop
  | .done a, n => worth a ≤ n
  | .stmt _ write next, n => ∀ d, ∃ m, stock (write d) + m ≤ stock d + n ∧ (next d).Holds m
  | .transact _ body next, n => body.Holds stock (fun r m => (next r).Holds m) id n

def Thread.Holds : Thread D K F R A → Nat → Prop
  | .idle client, n => client.Holds stock worth n
  | .busy _ _ w body next, n => body.Holds stock (fun r m => (next r).Holds stock worth m) w n
  | .gone, _ => True

variable {stock worth}

theorem Client.holds_exec {write : D → D} {report : D → B} {f : B → Client D K F R A} {n : Nat}
    (h : ∀ d, ∃ m, stock (write d) + m ≤ stock d + n ∧ (f (report d)).Holds stock worth m) :
    (Client.exec write report >>= f).Holds stock worth n := h

theorem Client.holds_query {read : D → B} {f : B → Client D K F R A} {n : Nat}
    (h : ∀ d, (f (read d)).Holds stock worth n) : (Client.query read >>= f).Holds stock worth n :=
  fun d => ⟨n, Nat.le_refl _, h d⟩

theorem Client.holds_transaction {body : Tx D K R} {f : R → Client D K F R A} {n : Nat}
    (h : body.Holds stock (fun r m => (f r).Holds stock worth m) id n) :
    (Client.transaction body >>= f).Holds stock worth n := h

theorem Thread.Holds.advance {t t' : Thread D K F R A} {blocked : K → Bool} {d d' : D} {n : Nat}
    (h : t.Holds stock worth n) (hstep : t.advance blocked d = some (d', t')) :
    ∃ m, stock d' + m ≤ stock d + n ∧ t'.Holds stock worth m := by
  match t with
  | .idle (.done _) => cases hstep
  | .idle (.stmt _ write next) =>
    cases hstep
    exact h d
  | .idle (.transact _ body next) =>
    cases hstep
    exact ⟨n, Nat.le_refl _, h⟩
  | .busy _ held w (.stmt write body) next =>
    cases hstep
    exact ⟨n, Nat.le_refl _, h d⟩
  | .busy _ held w (.lock key row body) next =>
    rw [Thread.advance] at hstep
    split_ifs at hstep
    · cases hstep
      exact ⟨n, Nat.le_refl _, h true⟩
    · cases hstep
      exact ⟨n, Nat.le_refl _, h false⟩
  | .busy _ held w (.commit r) next =>
    cases hstep
    exact h d
  | .busy _ held w (.rollback r) next =>
    cases hstep
    exact ⟨n, Nat.le_refl _, h⟩
  | .gone => cases hstep

end Holds

section Runs

variable [DecidableEq K] (stock : D → Nat) (worth : Nat → A → Nat)

/-- The stock and what the connections hold come to at most `total`. -/
def System.Holds (total : Nat) (s : System D K F R A) : Prop :=
  ∃ holdings : Nat → Nat,
    (∀ (p : Nat) (t : Thread D K F R A), s.threads[p]? = some t → t.Holds stock (worth p) (holdings p)) ∧
      stock s.db + ∑ p ∈ Finset.range s.threads.length, holdings p ≤ total

variable {stock worth} {serial : Bool} {total : Nat} {s : System D K F R A}

theorem System.Holds.step (h : s.Holds stock worth total) (a : Action) :
    (s.step serial a).Holds stock worth total := by
  obtain ⟨holdings, hthreads, hsum⟩ := h
  rcases System.step_cases serial s a with hs | ⟨p, -, hs⟩ | ⟨p, t, t', d, -, ht, -, hstep, hs⟩
  · rw [hs]
    exact ⟨holdings, hthreads, hsum⟩
  · rw [hs]
    refine ⟨holdings, fun q u hu => ?_, by rwa [List.length_set]⟩
    rcases getElem?_set_cases hu with ⟨-, rfl⟩ | ⟨-, hu⟩
    · trivial
    exact hthreads q u hu
  obtain ⟨m, hm, ht'⟩ := (hthreads p t ht).advance hstep
  rw [hs]
  refine ⟨Function.update holdings p m, fun q u hu => ?_, ?_⟩
  · grind
  have hp : p ∈ Finset.range s.threads.length :=
    Finset.mem_range.mpr (List.getElem?_eq_some_iff.mp ht).1
  have hold := Finset.sum_erase_add (Finset.range s.threads.length) holdings hp
  have hnew := Finset.sum_erase_add (Finset.range s.threads.length) (Function.update holdings p m) hp
  grind [Finset.sum_congr]

theorem System.Holds.run (h : s.Holds stock worth total) (actions : List Action) :
    (s.run serial actions).Holds stock worth total := by
  induction actions using List.reverseRecOn with
  | nil => exact h
  | append_singleton actions a ih =>
    rw [System.run_concat]
    exact ih.step a

omit [DecidableEq K] in
theorem System.Holds.worth_add_le (h : s.Holds stock worth total) {p q : Nat} (hpq : p ≠ q) {a b : A}
    (ha : s.answer p = some a) (hb : s.answer q = some b) : worth p a + worth q b ≤ total := by
  obtain ⟨holdings, hthreads, hsum⟩ := h
  have hp := System.thread_of_answer ha
  have hq := System.thread_of_answer hb
  have hpa : worth p a ≤ holdings p := hthreads p _ hp
  have hqb : worth q b ≤ holdings q := hthreads q _ hq
  have hsub : {p, q} ⊆ Finset.range s.threads.length := by grind
  have hpair := Finset.sum_le_sum_of_subset (f := holdings) hsub
  rw [Finset.sum_pair hpq] at hpair
  omega

end Runs

end PiiShield.Transactions
