import PiiShield.Sequential

/-! Two runs of one client, each alone on a database of its own. The client agrees if states
that are related at its start give one answer and leave related states; a client that keeps a
property is the case of a single run. -/

namespace PiiShield.Transactions.Client

variable {D K F X A B : Type}

variable {c : Client D K F X A}

/-- From states that `R` relates the answers are the same, and `Q` relates what is left. -/
def Agrees (R : D → D → Prop) (c : Client D K F X A) (Q : A → D → D → Prop) : Prop :=
  ∀ d e, R d e → (c.eval d).1 = (c.eval e).1 ∧ Q (c.eval d).1 (c.eval d).2 (c.eval e).2

variable {R R' : D → D → Prop} {Q Q' : A → D → D → Prop} {T : B → D → D → Prop}

theorem Agrees.pure {a : A} (h : ∀ d e, R d e → Q a d e) : Agrees R (pure a : Client D K F X A) Q :=
  fun d e hR => ⟨rfl, h d e hR⟩

theorem Agrees.bind {f : A → Client D K F X B} (hc : Agrees R c Q)
    (hf : ∀ a, Agrees (Q a) (f a) T) : Agrees R (c >>= f) T := by
  intro d e hR
  obtain ⟨heq, hQ⟩ := hc d e hR
  rw [eval_bind, eval_bind, ← heq]
  exact hf _ _ _ hQ

theorem Agrees.mono (hc : Agrees R c Q) (hR : ∀ d e, R' d e → R d e)
    (hQ : ∀ a d e, Q a d e → Q' a d e) : Agrees R' c Q' := by
  intro d e h
  obtain ⟨heq, hpost⟩ := hc d e (hR d e h)
  exact ⟨heq, hQ _ _ _ hpost⟩

theorem Agrees.query {read : D → A} (h : ∀ d e, R d e → read d = read e)
    (hQ : ∀ d e, R d e → Q (read d) d e) : Agrees R (query read : Client D K F X A) Q :=
  fun d e hR => ⟨h d e hR, hQ d e hR⟩

theorem Agrees.exec {write : D → D} {report : D → A} (h : ∀ d e, R d e → report d = report e)
    (hQ : ∀ d e, R d e → Q (report d) (write d) (write e)) :
    Agrees R (exec write report : Client D K F X A) Q :=
  fun d e hR => ⟨h d e hR, hQ d e hR⟩

def Keeps (I : D → Prop) (c : Client D K F X A) : Prop := ∀ d, I d → I (c.eval d).2

variable {I : D → Prop}

theorem Keeps.pure {a : A} : Keeps I (pure a : Client D K F X A) := fun _ h => h

theorem Keeps.bind {f : A → Client D K F X B} (hc : Keeps I c)
    (hf : ∀ a, Keeps I (f a)) : Keeps I (c >>= f) := by
  intro d h
  rw [eval_bind]
  exact hf _ _ (hc d h)

theorem Keeps.bind_result {E : Type} {c : Client D K F X (Except E A)} {f : Except E A → Client D K F X B}
    (hc : Keeps I c) (herror : ∀ e, Keeps I (f (.error e))) (hok : ∀ a, Keeps I (f (.ok a))) : Keeps I (c >>= f) :=
  hc.bind fun r => by
    cases r with
    | error e => exact herror e
    | ok a => exact hok a

theorem Keeps.query {read : D → A} : Keeps I (query read : Client D K F X A) := fun _ h => h

theorem Keeps.ite {q : Prop} [Decidable q] {c' : Client D K F X A} (hc : Keeps I c) (hc' : Keeps I c') :
    Keeps I (if q then c else c') := by
  by_cases h : q
  · rw [if_pos h]
    exact hc
  rw [if_neg h]
  exact hc'

theorem Keeps.exec {write : D → D} {report : D → A} (h : ∀ d, I d → I (write d)) :
    Keeps I (exec write report : Client D K F X A) := h

end PiiShield.Transactions.Client
