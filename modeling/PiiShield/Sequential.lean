import PiiShield.Transactions

/-! Clients one after the other, and what a client does that has the database to itself. -/

namespace PiiShield.Transactions

variable {D K F R A B : Type}

variable {p : Nat} {t : Thread D K F R A} {threads : List (Thread D K F R A)}

/-- What a transaction does alone: the state it leaves, `d` being the one it started from. -/
def Tx.eval (d : D) : Tx D K R → D → R × D
  | .stmt write next, w => (next w).eval d (write w)
  | .lock _ row next, w => (next (row w)).eval d w
  | .commit r, w => (r, w)
  | .rollback r, _ => (r, d)

namespace Client

def eval : Client D K F R A → D → A × D
  | .done a, d => (a, d)
  | .stmt _ write next, d => (next d).eval (write d)
  | .transact _ body next, d => (next (body.eval d d).1).eval (body.eval d d).2

def bind : Client D K F R A → (A → Client D K F R B) → Client D K F R B
  | .done a, f => f a
  | .stmt relies write next, f => .stmt relies write fun d => (next d).bind f
  | .transact relies body next, f => .transact relies body fun r => (next r).bind f

instance monad : Monad (Client D K F R) where
  pure := .done
  bind := .bind

def query (read : D → A) : Client D K F R A := .stmt [] id fun d => .done (read d)

def exec (write : D → D) (report : D → A) : Client D K F R A := .stmt [] write fun d => .done (report d)

def transaction (body : Tx D K R) : Client D K F R R := .transact [] body .done

@[simp]
theorem eval_pure (a : A) (d : D) : (pure a : Client D K F R A).eval d = (a, d) := rfl

@[simp]
theorem eval_bind (c : Client D K F R A) (f : A → Client D K F R B) (d : D) :
    (c >>= f).eval d = (f (c.eval d).1).eval (c.eval d).2 := by
  change (c.bind f).eval d = _
  induction c generalizing d with
  | done a => rfl
  | stmt relies write next ih => exact ih d (write d)
  | transact relies body next ih => exact ih (body.eval d d).1 (body.eval d d).2

@[simp]
theorem eval_query (read : D → A) (d : D) : (query read : Client D K F R A).eval d = (read d, d) := rfl

@[simp]
theorem eval_exec (write : D → D) (report : D → A) (d : D) :
    (exec write report : Client D K F R A).eval d = (report d, write d) := rfl

@[simp]
theorem eval_transaction (body : Tx D K R) (d : D) :
    (transaction body : Client D K F R R).eval d = body.eval d d := rfl

/-- A client of single statements among others that change the database between them: what it
answers and the state it leaves. -/
inductive Among (others : D → D → Prop) : Client D K F R A → D → A → D → Prop
  | done (a : A) (d : D) : Among others (.done a) d a d
  | stmt {relies : List F} {write : D → D} {next : D → Client D K F R A} {d d' d'' : D} {a : A} (h : others d d')
      (hnext : Among others (next d') (write d') a d'') : Among others (.stmt relies write next) d a d''

variable {others : D → D → Prop} {d d' : D}

theorem among_pure {a b : A} : Among others (pure a : Client D K F R A) d b d' ↔ b = a ∧ d' = d := by
  constructor
  · rintro ⟨⟩
    exact ⟨rfl, rfl⟩
  rintro ⟨rfl, rfl⟩
  exact .done b d'

theorem among_query_bind {read : D → A} {f : A → Client D K F R B} {b : B} :
    Among others (query read >>= f) d b d' ↔ ∃ e, others d e ∧ Among others (f (read e)) e b d' := by
  constructor
  · rintro ⟨⟩
    next e h hnext => exact ⟨e, h, hnext⟩
  rintro ⟨e, h, hnext⟩
  exact .stmt h hnext

end Client

namespace System

variable [DecidableEq K] (serial : Bool)

theorem run_append (s : System D K F R A) (as bs : List Action) :
    s.run serial (as ++ bs) = (s.run serial as).run serial bs := List.foldl_append

omit [DecidableEq K] in
theorem held_of_isBusy (h : t.isBusy = false) : t.held = [] := by
  cases t with
  | busy => cases h
  | idle => rfl
  | gone => rfl

theorem step_beside_quiet {d d' : D} {t' : Thread D K F R A}
    (hquiet : ∀ u ∈ threads.eraseIdx p, u.isBusy = false) (hp : p < threads.length)
    (hstep : t.advance (fun _ => false) d = some (d', t')) :
    (System.mk d (threads.set p t)).step serial (.advance p) = ⟨d', threads.set p t'⟩ := by
  have hbusy : (threads.eraseIdx p).any (·.isBusy) = false := by simpa using hquiet
  have hfree (k : K) : (threads.eraseIdx p).any (·.held.contains k) = false := by simp_all [held_of_isBusy]
  simp only [step, List.getElem?_set_self hp, List.eraseIdx_set_eq, hbusy, hfree, hstep, Bool.and_false, List.set_set,
    Bool.false_eq_true, if_false]

theorem run_transaction_alone (d : D)
    (hquiet : ∀ u ∈ threads.eraseIdx p, u.isBusy = false) (hp : p < threads.length) (relies : List F)
    (body : Tx D K R) (next : R → Client D K F R A) (held : List K) (pending : D → D) :
    ∃ actions, (System.mk d (threads.set p (.busy relies held pending body next))).run serial actions =
      ⟨(body.eval d (pending d)).2, threads.set p (.idle (next (body.eval d (pending d)).1))⟩ := by
  induction body generalizing held pending with
  | stmt write more ih =>
    obtain ⟨actions, h⟩ := ih (pending d) held (write ∘ pending)
    refine ⟨.advance p :: actions, ?_⟩
    rw [run, List.foldl_cons, step_beside_quiet serial hquiet hp rfl]
    exact h
  | lock key row more ih =>
    cases hrow : row (pending d) with
    | true =>
      obtain ⟨actions, h⟩ := ih true (key :: held) pending
      refine ⟨.advance p :: actions, ?_⟩
      rw [run, List.foldl_cons, step_beside_quiet serial hquiet hp (by simp only [Thread.advance, hrow, if_true]; rfl)]
      rw [Tx.eval, hrow]
      exact h
    | false =>
      obtain ⟨actions, h⟩ := ih false held pending
      refine ⟨.advance p :: actions, ?_⟩
      grind [run, step_beside_quiet, Thread.advance, Tx.eval]
  | commit r | rollback r => exact ⟨[.advance p], step_beside_quiet serial hquiet hp rfl⟩

theorem run_alone (d : D)
    (hquiet : ∀ u ∈ threads.eraseIdx p, u.isBusy = false) (hp : p < threads.length) (c : Client D K F R A) :
    ∃ actions, (System.mk d (threads.set p (.idle c))).run serial actions =
      ⟨(c.eval d).2, threads.set p (.idle (.done (c.eval d).1))⟩ := by
  induction c generalizing d with
  | done a => exact ⟨[], rfl⟩
  | stmt relies write next ih =>
    obtain ⟨actions, h⟩ := ih d (write d)
    refine ⟨.advance p :: actions, ?_⟩
    rw [run, List.foldl_cons, step_beside_quiet serial hquiet hp rfl]
    exact h
  | transact relies body next ih =>
    obtain ⟨actions, h⟩ := run_transaction_alone serial d hquiet hp relies body next [] id
    obtain ⟨more, h'⟩ := ih (body.eval d d).1 (body.eval d d).2
    refine ⟨.advance p :: (actions ++ more), ?_⟩
    rw [run, List.foldl_cons, step_beside_quiet serial hquiet hp rfl, ← run, run_append, h]
    exact h'

theorem run_alone_of_get {d : D} {c : Client D K F R A}
    (hquiet : ∀ u ∈ threads, u.isBusy = false) (hget : threads[p]? = some (.idle c)) :
    ∃ actions, (System.mk d threads).run serial actions =
      ⟨(c.eval d).2, threads.set p (.idle (.done (c.eval d).1))⟩ := by
  obtain ⟨hp, hc⟩ := List.getElem?_eq_some_iff.mp hget
  have h := run_alone serial d (fun u hu => hquiet u (List.mem_of_mem_eraseIdx hu)) hp c
  rwa [← hc, List.set_getElem_self] at h

def Finishes (inv : D → Prop) (good : A → Prop) (t : Thread D K F R A) : Prop :=
  ∃ c, t = .idle c ∧ ∀ d, inv d → inv (c.eval d).2 ∧ good (c.eval d).1

variable {inv : D → Prop} {good : A → Prop}

omit [DecidableEq K] in
theorem Finishes.isBusy (h : Finishes inv good t) : t.isBusy = false := by
  obtain ⟨c, rfl, -⟩ := h
  rfl

theorem exists_finish_upTo {s : System D K F R A} (hinv : inv s.db) (h : ∀ t ∈ s.threads, Finishes inv good t)
    {n : Nat} (hn : n ≤ s.threads.length) :
    ∃ actions d threads, s.run serial actions = ⟨d, threads⟩ ∧ inv d ∧ threads.length = s.threads.length ∧
      (∀ t ∈ threads, Finishes inv good t) ∧
      ∀ p < n, ∃ a, threads[p]? = some (.idle (.done a)) ∧ good a := by
  induction n with
  | zero => exact ⟨[], s.db, s.threads, rfl, hinv, rfl, h, fun p hp => absurd hp (Nat.not_lt_zero p)⟩
  | succ n ih =>
    obtain ⟨actions, d, threads, hrun, hd, hlen, hall, hdone⟩ := ih (by omega)
    have hlt : n < threads.length := by omega
    obtain ⟨c, hc, hfinish⟩ := hall _ (List.getElem_mem hlt)
    obtain ⟨more, hmore⟩ := run_alone_of_get (d := d) serial (fun u hu => (hall u hu).isBusy)
      (List.getElem?_eq_some_iff.mpr ⟨hlt, hc⟩)
    obtain ⟨hd', hgood⟩ := hfinish d hd
    refine ⟨actions ++ more, _, _, by rw [run_append, hrun, hmore], hd', by rw [List.length_set, hlen], ?_, ?_⟩
    · intro t ht
      rcases List.mem_or_eq_of_mem_set ht with ht | rfl
      · exact hall t ht
      exact ⟨_, rfl, fun e he => ⟨he, hgood⟩⟩
    intro p hp
    by_cases hpn : n = p
    · rw [← hpn, List.getElem?_set_self hlt]
      exact ⟨_, rfl, hgood⟩
    rw [List.getElem?_set_ne hpn]
    exact hdone p (by omega)

theorem exists_finish {s : System D K F R A} (hinv : inv s.db) (h : ∀ t ∈ s.threads, Finishes inv good t) :
    ∃ actions, ∀ p < s.threads.length, ∃ a, (s.run serial actions).answer p = some a ∧ good a := by
  obtain ⟨actions, d, threads, hrun, -, -, -, hdone⟩ := exists_finish_upTo serial hinv h (Nat.le_refl _)
  refine ⟨actions, fun p hp => ?_⟩
  grind [answer]

end System

end PiiShield.Transactions
