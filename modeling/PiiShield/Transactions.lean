import PiiShield.Histories

/-! Clients of one database whose statements interleave. A statement outside a transaction
takes effect at once. One inside sees what is committed when it runs, under the transaction's
own writes, and these are applied when the transaction commits; a row that is locked stays so
until then. A serial database runs nothing beside an open transaction. -/

namespace PiiShield.Transactions

/-- A transaction over databases `D`, with locks `K` and results `R`. A statement hands on the
state it saw. A row that is not there cannot be locked. -/
inductive Tx (D K R : Type)
  | stmt (write : D → D) (next : D → Tx D K R)
  | lock (key : K) (row : D → Bool) (next : Bool → Tx D K R)
  | commit (result : R)
  | rollback (result : R)

/-- A client with its answer. `relies` names what it goes by at a statement or throughout a
transaction; it has no effect. -/
inductive Client (D K F R A : Type)
  | done (answer : A)
  | stmt (relies : List F) (write : D → D) (next : D → Client D K F R A)
  | transact (relies : List F) (body : Tx D K R) (next : R → Client D K F R A)

/-- A connection: between transactions, inside one, or lost. -/
inductive Thread (D K F R A : Type)
  | idle (client : Client D K F R A)
  | busy (relies : List F) (held : List K) (pending : D → D) (body : Tx D K R) (next : R → Client D K F R A)
  | gone

structure System (D K F R A : Type) where
  db : D
  threads : List (Thread D K F R A)

/-- A connection runs its next statement, or is lost and what it had open with it. -/
inductive Action
  | advance (p : Nat)
  | crash (p : Nat)

def Action.actor : Action → Nat
  | .advance p => p
  | .crash p => p

variable {D K F R A : Type}

namespace Thread

def held : Thread D K F R A → List K
  | .busy _ held _ _ _ => held
  | _ => []

def isBusy : Thread D K F R A → Bool
  | .busy .. => true
  | _ => false

def relies : Thread D K F R A → List F
  | .idle (.stmt relies _ _) => relies
  | .idle (.transact relies _ _) => relies
  | .busy relies _ _ _ _ => relies
  | _ => []

theorem isBusy_of_mem_held {t : Thread D K F R A} {k : K} (h : k ∈ t.held) : t.isBusy = true := by
  cases t with
  | busy => rfl
  | idle => cases h
  | gone => cases h

/-- The next statement of a connection; nothing if it has to wait or is through. -/
def advance (blocked : K → Bool) (d : D) : Thread D K F R A → Option (D × Thread D K F R A)
  | .idle (.done _) => none
  | .idle (.stmt _ write next) => some (write d, .idle (next d))
  | .idle (.transact relies body next) => some (d, .busy relies [] id body next)
  | .busy relies held w (.stmt write body) next => some (d, .busy relies held (write ∘ w) (body (w d)) next)
  | .busy relies held w (.lock key row body) next =>
    if row (w d) then
      if blocked key then none else some (d, .busy relies (key :: held) w (body true) next)
    else some (d, .busy relies held w (body false) next)
  | .busy _ _ w (.commit r) next => some (w d, .idle (next r))
  | .busy _ _ _ (.rollback r) next => some (d, .idle (next r))
  | .gone => none

end Thread

namespace System

variable [DecidableEq K]

/-- One action; a connection that has to wait stays as it is. -/
def step (serial : Bool) (s : System D K F R A) : Action → System D K F R A
  | .advance p =>
    let others := s.threads.eraseIdx p
    match s.threads[p]? with
    | none => s
    | some t =>
      if serial && others.any (·.isBusy) then s
      else
        match t.advance (fun k => others.any (·.held.contains k)) s.db with
        | none => s
        | some (d, t) => ⟨d, s.threads.set p t⟩
  | .crash p => ⟨s.db, s.threads.set p .gone⟩

def run (serial : Bool) (s : System D K F R A) (actions : List Action) : System D K F R A :=
  actions.foldl (step serial) s

def answer (s : System D K F R A) (p : Nat) : Option A :=
  match s.threads[p]? with
  | some (.idle (.done a)) => some a
  | _ => none

omit [DecidableEq K] in
theorem thread_of_answer {s : System D K F R A} {p : Nat} {a : A} (h : s.answer p = some a) :
    s.threads[p]? = some (.idle (.done a)) := by
  grind [answer]

theorem run_concat (serial : Bool) (s : System D K F R A) (actions : List Action) (a : Action) :
    s.run serial (actions ++ [a]) = (s.run serial actions).step serial a := by
  simp [run]

end System

/-- What holds of every committed state, what no commit undoes, what others leave alone while
a lock is held, and what the names a client may rely on stand for. -/
structure Discipline (D K F : Type) where
  inv : D → Prop
  always : D → D → Prop
  always_refl : ∀ d, always d d
  always_trans : ∀ {a b c}, always a b → always b c → always a c
  owned : K → D → D → Prop
  owned_refl : ∀ k d, owned k d d
  owned_trans : ∀ {k a b c}, owned k a b → owned k b c → owned k a c
  fact : F → D → Prop

section Soundness

variable (X : Discipline D K F) (serial : Bool)

/-- What may happen around a connection that relies on the given facts. -/
structure Around (relies : List F) (d d' : D) : Prop where
  inv : X.inv d'
  always : X.always d d'
  facts : ∀ f ∈ relies, X.fact f d → X.fact f d'

structure Beside (relies : List F) (held : List K) (d d' : D) : Prop extends Around X relies d d' where
  serial : serial = true → d' = d
  owned : ∀ k ∈ held, X.owned k d d'

/-- What a connection may commit: nothing, or what it guarantees. -/
structure Commits (guarantee : D → D → Prop) (held : List K) (d d' : D) : Prop where
  inv : X.inv d'
  always : X.always d d'
  frame : serial = false → ∀ k, k ∉ held → X.owned k d d'
  change : d' = d ∨ guarantee d d'

def Tx.Ok (guarantee : D → D → Prop) (relies : List F) (post : R → D → Prop) :
    Tx D K R → List K → (D → D) → D → Prop
  | .stmt write next, held, w, d =>
    ∀ d', Beside X serial relies held d d' → (next (w d')).Ok guarantee relies post held (write ∘ w) d'
  | .lock key row next, held, w, d =>
    ∀ d', Beside X serial relies held d d' →
      if row (w d') then (next true).Ok guarantee relies post (key :: held) w d'
      else (next false).Ok guarantee relies post held w d'
  | .commit r, held, w, d =>
    ∀ d', Beside X serial relies held d d' → Commits X serial guarantee held d' (w d') ∧ post r (w d')
  | .rollback r, held, _, d => ∀ d', Beside X serial relies held d d' → post r d'

def Client.Ok (guarantee : D → D → Prop) (answers : A → D → Prop) : Client D K F R A → D → Prop
  | .done a, d => ∀ d', Around X [] d d' → answers a d'
  | .stmt relies write next, d =>
    ∀ d', Around X relies d d' →
      Commits X serial guarantee [] d' (write d') ∧ (next d').Ok guarantee answers (write d')
  | .transact relies body next, d =>
    ∀ d', Around X relies d d' →
      body.Ok X serial guarantee relies (fun r d => (next r).Ok guarantee answers d) [] id d'

def Thread.Ok (guarantee : D → D → Prop) (answers : A → D → Prop) : Thread D K F R A → D → Prop
  | .idle c, d => c.Ok X serial guarantee answers d
  | .busy relies held w body next, d =>
    body.Ok X serial guarantee relies (fun r d => (next r).Ok X serial guarantee answers d) held w d
  | .gone, _ => True

variable {X serial} {guarantee : D → D → Prop} {answers : A → D → Prop} {relies : List F} {held : List K}
  {post : R → D → Prop}

theorem Around.trans {a b c : D} (h : Around X relies a b) (h' : Around X relies b c) : Around X relies a c :=
  ⟨h'.inv, X.always_trans h.always h'.always, fun f hf ha => h'.facts f hf (h.facts f hf ha)⟩

variable {d : D}

theorem Around.refl (h : X.inv d) : Around X relies d d :=
  ⟨h, X.always_refl d, fun _ _ hd => hd⟩

theorem Beside.trans {a b c : D} (h : Beside X serial relies held a b)
    (h' : Beside X serial relies held b c) : Beside X serial relies held a c where
  toAround := h.toAround.trans h'.toAround
  serial hs := (h'.serial hs).trans (h.serial hs)
  owned k hk := X.owned_trans (h.owned k hk) (h'.owned k hk)

theorem Beside.refl (h : X.inv d) : Beside X serial relies held d d :=
  ⟨.refl h, fun _ => rfl, fun k _ => X.owned_refl k d⟩

theorem Commits.refl (h : X.inv d) : Commits X serial guarantee held d d :=
  ⟨h, X.always_refl d, fun _ k _ => X.owned_refl k d, .inl rfl⟩

theorem Tx.Ok.beside {body : Tx D K R} {w : D → D} {d d' : D}
    (h : body.Ok X serial guarantee relies post held w d) (hd : Beside X serial relies held d d') :
    body.Ok X serial guarantee relies post held w d' := by
  cases body <;> exact fun d'' hd' => h d'' (hd.trans hd')

theorem Client.Ok.around {client : Client D K F R A} {d d' : D} (h : client.Ok X serial guarantee answers d)
    (hd : Around X (Thread.idle client).relies d d') : client.Ok X serial guarantee answers d' := by
  cases client <;> exact fun d'' hd' => h d'' (hd.trans hd')

theorem Tx.ok_read {next : D → Tx D K R}
    (h : ∀ d', Beside X serial relies held d d' → (next d').Ok X serial guarantee relies post held id d') :
    (Tx.stmt id next).Ok X serial guarantee relies post held id d := h

theorem Tx.ok_write {write : D → D} {next : D → Tx D K R}
    (h : ∀ d', Beside X serial relies held d d' → (next d').Ok X serial guarantee relies post held write d') :
    (Tx.stmt write next).Ok X serial guarantee relies post held id d := h

theorem Client.ok_read {next : D → Client D K F R A}
    (h : ∀ d', Around X relies d d' → (next d').Ok X serial guarantee answers d') :
    (Client.stmt relies id next).Ok X serial guarantee answers d :=
  fun d' hd => ⟨.refl hd.inv, h d' hd⟩

theorem Thread.Ok.advance {t t' : Thread D K F R A} {blocked : K → Bool} {d d' : D}
    (h : t.Ok X serial guarantee answers d) (hinv : X.inv d) (hstep : t.advance blocked d = some (d', t')) :
    t'.Ok X serial guarantee answers d' ∧ X.inv d' ∧ X.always d d' ∧
      (serial = false → ∀ k, k ∉ t.held → X.owned k d d') ∧ (d' = d ∨ guarantee d d') := by
  have still : X.inv d ∧ X.always d d ∧ (serial = false → ∀ k, k ∉ t.held → X.owned k d d) ∧
      (d = d ∨ guarantee d d) :=
    ⟨hinv, X.always_refl d, fun _ k _ => X.owned_refl k d, .inl rfl⟩
  match t with
  | .idle (.done _) => cases hstep
  | .idle (.stmt _ write next) =>
    cases hstep
    obtain ⟨hc, hnext⟩ := h d (.refl hinv)
    exact ⟨hnext, hc.inv, hc.always, hc.frame, hc.change⟩
  | .idle (.transact _ body next) =>
    cases hstep
    exact ⟨h d (.refl hinv), still⟩
  | .busy _ held w (.stmt write body) next =>
    cases hstep
    exact ⟨h d (.refl hinv), still⟩
  | .busy _ held w (.lock key row body) next =>
    have hbody := h d (.refl hinv)
    rw [Thread.advance] at hstep
    by_cases hrow : row (w d) = true
    · rw [if_pos hrow] at hbody hstep
      by_cases hb : blocked key = true
      · rw [if_pos hb] at hstep
        cases hstep
      rw [if_neg hb] at hstep
      cases hstep
      exact ⟨hbody, still⟩
    rw [if_neg hrow] at hbody hstep
    cases hstep
    exact ⟨hbody, still⟩
  | .busy _ held w (.commit r) next =>
    cases hstep
    obtain ⟨hc, hnext⟩ := h d (.refl hinv)
    exact ⟨hnext, hc.inv, hc.always, hc.frame, hc.change⟩
  | .busy _ held w (.rollback r) next =>
    cases hstep
    exact ⟨h d (.refl hinv), still⟩
  | .gone => cases hstep

theorem Thread.held_advance {t t' : Thread D K F R A} {blocked : K → Bool} {d d' : D}
    (hstep : t.advance blocked d = some (d', t')) {k : K} (hk : k ∈ t'.held) :
    k ∈ t.held ∨ blocked k = false := by
  match t with
  | .idle (.done _) => cases hstep
  | .idle (.stmt ..) =>
    cases hstep
    cases hk
  | .idle (.transact ..) =>
    cases hstep
    cases hk
  | .busy _ held w (.stmt write body) next =>
    cases hstep
    exact .inl hk
  | .busy _ held w (.lock key row body) next =>
    rw [Thread.advance] at hstep
    by_cases hrow : row (w d) = true
    · rw [if_pos hrow] at hstep
      by_cases hb : blocked key = true
      · rw [if_pos hb] at hstep
        cases hstep
      rw [if_neg hb] at hstep
      cases hstep
      rcases List.mem_cons.mp hk with rfl | hk
      · exact .inr (by simpa using hb)
      exact .inl hk
    rw [if_neg hrow] at hstep
    cases hstep
    exact .inl hk
  | .busy _ held w (.commit r) next =>
    cases hstep
    cases hk
  | .busy _ held w (.rollback r) next =>
    cases hstep
    cases hk
  | .gone => cases hstep

theorem Thread.Ok.around {t : Thread D K F R A} {d d' : D} (h : t.Ok X serial guarantee answers d)
    (hd : Around X t.relies d d') (hserial : serial = true → t.isBusy = true → d' = d)
    (howned : ∀ k ∈ t.held, X.owned k d d') : t.Ok X serial guarantee answers d' := by
  match t with
  | .idle c => exact Client.Ok.around h hd
  | .busy relies held w body next => exact Tx.Ok.beside h ⟨hd, fun hs => hserial hs rfl, howned⟩
  | .gone => trivial

end Soundness

section Runs

variable [DecidableEq K] (X : Discipline D K F) (serial : Bool) (guarantee : Nat → D → D → Prop)
  (answers : Nat → A → D → Prop)

/-- Every connection is in order, no lock is held twice, and on a serial database at most one
transaction is open. -/
structure System.Good (s : System D K F R A) : Prop where
  inv : X.inv s.db
  threads : ∀ (p : Nat) (t : Thread D K F R A), s.threads[p]? = some t →
    t.Ok X serial (guarantee p) (answers p) s.db
  exclusive : ∀ (p q : Nat) (t u : Thread D K F R A), p ≠ q → s.threads[p]? = some t →
    s.threads[q]? = some u → ∀ k ∈ t.held, k ∉ u.held
  alone : serial = true → ∀ (p q : Nat) (t u : Thread D K F R A), p ≠ q → s.threads[p]? = some t →
    s.threads[q]? = some u → t.isBusy = true → u.isBusy = false

/-- An action leaves the facts standing that other connections rely on. -/
def System.Respects (s : System D K F R A) (a : Action) : Prop :=
  ∀ q t, q ≠ a.actor → s.threads[q]? = some t → ∀ f ∈ t.relies, X.fact f s.db → X.fact f (s.step serial a).db

variable {X serial guarantee answers} {s : System D K F R A}

theorem mem_eraseIdx_of_ne {α : Type} {l : List α} {p q : Nat} (h : q ≠ p) {t : α} (ht : l[q]? = some t) :
    t ∈ l.eraseIdx p :=
  List.mem_eraseIdx_iff_getElem?.mpr ⟨q, h, ht⟩

theorem getElem?_set_cases {α : Type} {l : List α} {p q : Nat} {t u : α} (h : (l.set p t)[q]? = some u) :
    (q = p ∧ u = t) ∨ (q ≠ p ∧ l[q]? = some u) := by
  grind

theorem System.step_advance {p : Nat} {t t' : Thread D K F R A} {d : D} (ht : s.threads[p]? = some t)
    (hfree : (serial && (s.threads.eraseIdx p).any (·.isBusy)) = false)
    (hstep : t.advance (fun k => (s.threads.eraseIdx p).any (·.held.contains k)) s.db = some (d, t')) :
    s.step serial (.advance p) = ⟨d, s.threads.set p t'⟩ := by
  rw [System.step, ht]
  dsimp only
  rw [hfree, if_neg Bool.false_ne_true, hstep]

theorem System.step_cases (serial : Bool) (s : System D K F R A) (a : Action) :
    s.step serial a = s ∨ (∃ p, a = .crash p ∧ s.step serial a = ⟨s.db, s.threads.set p .gone⟩) ∨
      ∃ p t t' d, a = .advance p ∧ s.threads[p]? = some t ∧
        (serial && (s.threads.eraseIdx p).any (·.isBusy)) = false ∧
        t.advance (fun k => (s.threads.eraseIdx p).any (·.held.contains k)) s.db = some (d, t') ∧
        s.step serial a = ⟨d, s.threads.set p t'⟩ := by
  match a with
  | .crash p => exact .inr (.inl ⟨p, rfl, rfl⟩)
  | .advance p =>
    cases ht : s.threads[p]? with
    | none =>
      left
      rw [System.step, ht]
    | some t =>
      cases hfree : serial && (s.threads.eraseIdx p).any (·.isBusy) with
      | true =>
        left
        rw [System.step, ht]
        dsimp only
        rw [hfree, if_pos rfl]
      | false =>
        cases hstep : t.advance (fun k => (s.threads.eraseIdx p).any (·.held.contains k)) s.db with
        | none =>
          left
          rw [System.step, ht]
          dsimp only
          rw [hfree, if_neg Bool.false_ne_true, hstep]
        | some r =>
          obtain ⟨d, t'⟩ := r
          exact .inr (.inr ⟨p, t, t', d, rfl, ht, hfree, hstep, System.step_advance ht hfree hstep⟩)

omit [DecidableEq K] in
theorem System.Good.crash (h : s.Good X serial guarantee answers) (p : Nat) :
    System.Good X serial guarantee answers ⟨s.db, s.threads.set p .gone⟩ where
  inv := h.inv
  threads q t ht := by
    rcases getElem?_set_cases ht with ⟨-, rfl⟩ | ⟨-, ht⟩
    · trivial
    exact h.threads q t ht
  exclusive q r t u hqr ht hu k hk := by
    rcases getElem?_set_cases ht with ⟨-, rfl⟩ | ⟨-, ht⟩
    · cases hk
    rcases getElem?_set_cases hu with ⟨-, rfl⟩ | ⟨-, hu⟩
    · simp [Thread.held]
    exact h.exclusive q r t u hqr ht hu k hk
  alone hs q r t u hqr ht hu hbusy := by
    rcases getElem?_set_cases hu with ⟨-, rfl⟩ | ⟨-, hu⟩
    · rfl
    rcases getElem?_set_cases ht with ⟨-, rfl⟩ | ⟨-, ht⟩
    · cases hbusy
    exact h.alone hs q r t u hqr ht hu hbusy

theorem System.Good.advance (h : s.Good X serial guarantee answers) {p : Nat} {t t' : Thread D K F R A} {d : D}
    (ht : s.threads[p]? = some t) (hfree : (serial && (s.threads.eraseIdx p).any (·.isBusy)) = false)
    (hstep : t.advance (fun k => (s.threads.eraseIdx p).any (·.held.contains k)) s.db = some (d, t'))
    (hfacts : ∀ q u, q ≠ p → s.threads[q]? = some u → ∀ f ∈ u.relies, X.fact f s.db → X.fact f d) :
    System.Good X serial guarantee answers ⟨d, s.threads.set p t'⟩ := by
  obtain ⟨hok, hinv, halways, hframe, -⟩ := (h.threads p t ht).advance h.inv hstep
  have hidle (hs : serial = true) (q : Nat) (u : Thread D K F R A) (hq : q ≠ p) (hu : s.threads[q]? = some u) :
      u.isBusy = false := by
    rw [hs, Bool.true_and, List.any_eq_false] at hfree
    simpa using hfree u (mem_eraseIdx_of_ne hq hu)
  have hlocks (q : Nat) (u : Thread D K F R A) (hq : q ≠ p) (hu : s.threads[q]? = some u) :
      ∀ k ∈ t'.held, k ∉ u.held := by
    intro k hk hku
    rcases Thread.held_advance hstep hk with hk | hk
    · exact h.exclusive p q t u (Ne.symm hq) ht hu k hk hku
    rw [List.any_eq_false] at hk
    exact hk u (mem_eraseIdx_of_ne hq hu) (by simpa using hku)
  constructor
  · exact hinv
  · intro q u hu
    rcases getElem?_set_cases hu with ⟨rfl, rfl⟩ | ⟨hq, hu⟩
    · exact hok
    refine (h.threads q u hu).around ⟨hinv, halways, hfacts q u hq hu⟩ ?_ ?_
    · intro hs hbusy
      rw [hidle hs q u hq hu] at hbusy
      cases hbusy
    intro k hk
    have hserial : serial = false := by grind [Thread.isBusy_of_mem_held]
    exact hframe hserial k fun hkt => h.exclusive p q t u (Ne.symm hq) ht hu k hkt hk
  · intro q r u v hqr hu hv k hk hkv
    rcases getElem?_set_cases hu with ⟨rfl, rfl⟩ | ⟨hq, hu'⟩
    · grind
    rcases getElem?_set_cases hv with ⟨rfl, rfl⟩ | ⟨hr, hv'⟩
    · exact hlocks q u hq hu' k hkv hk
    exact h.exclusive q r u v hqr hu' hv' k hk hkv
  grind

theorem System.Good.step (h : s.Good X serial guarantee answers) {a : Action} (ha : s.Respects X serial a) :
    (s.step serial a).Good X serial guarantee answers ∧ X.always s.db (s.step serial a).db ∧
      ((s.step serial a).db = s.db ∨ guarantee a.actor s.db (s.step serial a).db) := by
  rcases System.step_cases serial s a with heq | ⟨p, rfl, heq⟩ | ⟨p, t, t', d, rfl, ht, hfree, hstep, heq⟩
  · rw [heq]
    exact ⟨h, X.always_refl _, .inl rfl⟩
  · rw [heq]
    exact ⟨h.crash p, X.always_refl _, .inl rfl⟩
  have hfacts : ∀ q u, q ≠ p → s.threads[q]? = some u → ∀ f ∈ u.relies, X.fact f s.db → X.fact f d := by
    intro q u hq hu f hf hd
    have := ha q u hq hu f hf hd
    rwa [heq] at this
  obtain ⟨-, -, halways, -, hcommit⟩ := (h.threads p t ht).advance h.inv hstep
  rw [heq]
  exact ⟨h.advance ht hfree hstep hfacts, halways, hcommit⟩

theorem System.Good.run (h : s.Good X serial guarantee answers) {actions : List Action}
    (ha : AtEvery (fun before a => (s.run serial before).Respects X serial a) actions) :
    (s.run serial actions).Good X serial guarantee answers ∧ X.always s.db (s.run serial actions).db := by
  induction actions using List.reverseRecOn with
  | nil => exact ⟨h, X.always_refl _⟩
  | append_singleton actions a ih =>
    obtain ⟨hbefore, hlast⟩ := atEvery_concat.mp ha
    obtain ⟨hgood, halways⟩ := ih hbefore
    obtain ⟨hgood', halways', -⟩ := hgood.step hlast
    rw [System.run_concat]
    exact ⟨hgood', X.always_trans halways halways'⟩

theorem System.respects_of_fact (hfact : ∀ f d, X.fact f d) (a : Action) : s.Respects X serial a :=
  fun _ _ _ _ f _ _ => hfact f _

/-- Whether at every action no other connection relies on anything. -/
def System.quiet (serial : Bool) (s : System D K F R A) : List Action → Bool
  | [] => true
  | a :: actions => (s.threads.eraseIdx a.actor).all (·.relies.isEmpty) && quiet serial (s.step serial a) actions

theorem System.respects_of_quiet {actions : List Action} (h : s.quiet serial actions = true) :
    AtEvery (fun before a => (s.run serial before).Respects X serial a) actions := by
  induction actions generalizing s with
  | nil => exact atEvery_nil
  | cons a actions ih =>
    rw [System.quiet, Bool.and_eq_true, List.all_eq_true] at h
    intro before a' hpre
    cases before with
    | nil =>
      obtain ⟨rfl, -⟩ := List.cons_prefix_cons.mp hpre
      intro q t hq ht f hf
      rw [List.isEmpty_iff.mp (h.1 t (mem_eraseIdx_of_ne hq ht))] at hf
      cases hf
    | cons b before =>
      obtain ⟨rfl, hrest⟩ := List.cons_prefix_cons.mp hpre
      exact ih h.2 before a' hrest

omit [DecidableEq K] in
theorem System.good_of_idle {d : D} {clients : List (Client D K F R A)} (hinv : X.inv d)
    (hok : ∀ (p : Nat) (c : Client D K F R A), clients[p]? = some c → c.Ok X serial (guarantee p) (answers p) d) :
    System.Good X serial guarantee answers ⟨d, clients.map .idle⟩ := by
  have hidle {p : Nat} {t : Thread D K F R A} (ht : (clients.map Thread.idle)[p]? = some t) :
      ∃ c, clients[p]? = some c ∧ t = .idle c := by grind
  constructor
  · exact hinv
  · intro p t ht
    obtain ⟨c, hc, rfl⟩ := hidle ht
    exact hok p c hc
  · intro p q t u _ ht _ k hk
    obtain ⟨c, -, rfl⟩ := hidle ht
    cases hk
  intro _ p q t u _ ht _ hbusy
  obtain ⟨c, -, rfl⟩ := hidle ht
  cases hbusy

end Runs

end PiiShield.Transactions
