import PiiShield.Cuts
import PiiShield.LedgerRuns
import PiiShield.RunLog

/-! What a run writes, by its ledger. Without marks it writes the text of its frame, or
diverges from it if a departure was made. A byte that is not in the text is written by a
mark or a departure only. -/

namespace PiiShield

variable {S : Sig} {α : Type}

/-- The output is the text if `B` holds, and diverges from it if not. -/
structure Faithful (B : Prop) (o t : Bytes) : Prop where
  eq : B → o = t
  diverge : ¬ B → Diverge o t

theorem Faithful.append {B B' : Prop} {o o' t t' : Bytes} (h : Faithful B o t) (h' : Faithful B' o' t') :
    Faithful (B ∧ B') (o ++ o') (t ++ t') where
  eq hB := by rw [h.eq hB.1, h'.eq hB.2]
  diverge hB := by
    by_cases hb : B
    · rw [h.eq hb]
      exact (h'.diverge fun hb' => hB ⟨hb, hb'⟩).append_left t
    exact (h.diverge hb).append_right o' t'

theorem Faithful.refl (t : Bytes) : Faithful True t t := ⟨fun _ => rfl, fun h => absurd trivial h⟩

theorem Faithful.congr {B B' : Prop} {o t : Bytes} (h : Faithful B o t) (hB : B ↔ B') : Faithful B' o t :=
  ⟨fun hb => h.eq (hB.mpr hb), fun hb => h.diverge fun hb' => hb (hB.mp hb')⟩

theorem Faithful.of_diverge {B : Prop} {o t : Bytes} (h : Diverge o t) (hB : ¬ B) : Faithful B o t :=
  ⟨fun hb => absurd hb hB, fun _ => h⟩

def Unmarked (l : List (Event S)) : Prop := ∀ m c, Event.mark m c ∉ l

def Calm (departs : S.Frame → Bool) (l : List (Event S)) : Prop :=
  ∀ f g c, Event.call f g c ∈ l → departs g = false

section Logs

variable {departs : S.Frame → Bool} {l l' : List (Event S)}

theorem unmarked_append : Unmarked (l ++ l') ↔ Unmarked l ∧ Unmarked l' := by
  simp only [Unmarked, List.mem_append, not_or]
  grind

theorem unmarked_call {f g : S.Frame} {c : Bool} : Unmarked (.call f g c :: l) ↔ Unmarked l := by
  simp [Unmarked]

theorem unmarked_capture : Unmarked (l.map Event.capture) ↔ Unmarked l := by
  constructor
  · intro h m c hm
    exact h m true (List.mem_map.mpr ⟨_, hm, rfl⟩)
  intro h m c hm
  obtain ⟨e, he, hcap⟩ := List.mem_map.mp hm
  cases e with
  | mark m' c' => exact h m' c' he
  | call f g c' => simp [Event.capture] at hcap

theorem calm_append : Calm departs (l ++ l') ↔ Calm departs l ∧ Calm departs l' := by
  grind [Calm]

theorem calm_call {f g : S.Frame} {c : Bool} :
    Calm departs (.call f g c :: l) ↔ departs g = false ∧ Calm departs l := by
  grind [Calm, Event.call.injEq]

theorem calm_capture : Calm departs (l.map Event.capture) ↔ Calm departs l := by
  constructor
  · intro h f g c hm
    exact h f g true (List.mem_map.mpr ⟨_, hm, rfl⟩)
  intro h f g c hm
  obtain ⟨e, he, hcap⟩ := List.mem_map.mp hm
  cases e with
  | mark m' c' => simp [Event.capture] at hcap
  | call f' g' c' =>
    simp only [Event.capture, Event.call.injEq] at hcap
    obtain ⟨rfl, rfl, -⟩ := hcap
    exact h f' g' c' he

end Logs

structure Ledger.Lawful (L : Ledger S) : Prop where
  nil : L.valid []
  append : ∀ {a b}, L.valid a → L.valid b → L.valid (a ++ b)
  repair : ∀ {u}, L.valid u → L.repair u = u
  replaces : ∀ {f u o c}, L.replaces f u o c → L.valid (L.text f) →
    L.valid o ∧ ∀ x y, Diverge (o ++ (c ++ x)) (u ++ (c ++ y))
  decoded : ∀ {u x}, L.encodes u x → L.valid x
  quote : ∀ {o}, L.valid o → L.valid (L.quote o)
  encodes : ∀ {u x o}, L.encodes u x → L.valid o → o ≠ x → ∀ y z, Diverge (L.quote o ++ y) (u ++ z)

variable {L : Ledger S} {M : Machine S} {departs : S.Frame → Bool}

def Ledger.Writes (L : Ledger S) (departs : S.Frame → Bool) (f : S.Frame) (r : Outcome S α) : Prop :=
  L.valid (L.text f) → Unmarked r.log → ∀ a, r.res = .ok a →
    L.valid r.out ∧ Faithful (departs f = false ∧ Calm departs r.log) r.out (L.text f)

variable {self : S.Frame} {ok : α → Prop} {p : Prog S α}
  {answer : (f : S.Frame) → S.State → Outcome S (S.Ret f)} {s : S.State}

theorem Accounts.exec_text {d : Bool} {t : Bytes} (hp : Accounts L self (L.valid (L.text self)) ok d p t)
    (hL : L.Lawful)
    (hans : ∀ g s a, (answer g s).res = .ok a → L.answers g a)
    (hwrites : ∀ g s, L.Writes departs g (answer g s)) (hv : L.valid (L.text self)) {a : α}
    (ha : (M.exec answer self p s).res = .ok a) (hm : Unmarked (M.exec answer self p s).log) :
    L.valid (M.exec answer self p s).out ∧
      Faithful (d = false ∧ Calm departs (M.exec answer self p s).log) (M.exec answer self p s).out t := by
  induction hp generalizing s with
  | pure _ => exact ⟨hL.nil, (Faithful.refl []).congr (by simp [Machine.exec, Calm])⟩
  | emit ho _ ih =>
    obtain ⟨h1, h2⟩ := ih ha hm
    exact ⟨hL.append (ho hv) h1, ((Faithful.refl _).append h2).congr (by simp [Machine.exec, Outcome.after])⟩
  | replace hr hc _ ih =>
    obtain ⟨h1, -⟩ := ih ha hm
    obtain ⟨ho, hdiv⟩ := hL.replaces hr hv
    exact ⟨hL.append ho (hL.append (hc hv) h1), .of_diverge (hdiv _ _) (by simp)⟩
  | @mark d d' m | @hide d d' m =>
    refine absurd ?_ (hm m false)
    simp [Machine.exec, Outcome.after]
  | @call d f u t k hf hu htext _ ih =>
    have htext : L.text f = u := htext.elim id fun h => h.trans (hL.repair (hu hv))
    have hfv : L.valid (L.text f) := htext ▸ hu hv
    cases hr : (answer f s).res with
    | error h => simp [Machine.exec, hr] at ha
    | ok r =>
      simp only [Machine.exec, hr] at ha hm ⊢
      obtain ⟨hm1, hm2⟩ := unmarked_append.mp hm
      obtain ⟨h1, h2⟩ := hwrites f s hfv (unmarked_call.mp hm1) r hr
      obtain ⟨h3, h4⟩ := ih r (hans _ _ _ hr) ha hm2
      refine ⟨hL.append h1 h3, ((htext ▸ h2).append h4).congr ?_⟩
      simp only [Outcome.after, List.cons_append, calm_call, calm_append]
      tauto
  | @capture d f u t k hf hu huv _ ih =>
    have hfv := hL.decoded hu
    cases hr : (answer f s).res with
    | error h => simp [Machine.exec, hr] at ha
    | ok r =>
      simp only [Machine.exec, hr] at ha hm ⊢
      obtain ⟨hm1, hm2⟩ := unmarked_append.mp hm
      obtain ⟨h1, h2⟩ := hwrites f s hfv (unmarked_capture.mp (unmarked_call.mp hm1)) r hr
      obtain ⟨h3, h4⟩ := ih r (hans _ _ _ hr) ha hm2
      -- The literal is written back if nothing in it changed, and encoded anew if not.
      have hlit : L.valid (if (answer f s).out == L.text f then u else L.quote (answer f s).out) ∧
          ∀ o, Faithful (d = false ∧ Calm departs (M.exec answer self (k r) (answer f s).state).log) o t →
            Faithful ((departs f = false ∧ Calm departs (answer f s).log) ∧
              d = false ∧ Calm departs (M.exec answer self (k r) (answer f s).state).log)
              ((if (answer f s).out == L.text f then u else L.quote (answer f s).out) ++ o) (u ++ t) := by
        by_cases hB : departs f = false ∧ Calm departs (answer f s).log
        · rw [if_pos (beq_iff_eq.mpr (h2.eq hB))]
          exact ⟨huv hv, fun o ho => ((Faithful.refl u).append ho).congr (by simp [hB])⟩
        have hne := (h2.diverge hB).ne
        rw [if_neg (by simpa using hne)]
        exact ⟨hL.quote h1, fun o _ => .of_diverge (hL.encodes hu h1 hne o t) fun h => hB h.1⟩
      have hvalid := hL.append hlit.1 h3
      refine ⟨hvalid, (hlit.2 _ h4).congr ?_⟩
      simp only [Outcome.after, List.nil_append, List.cons_append, calm_call, calm_append, calm_capture]
      tauto
  | get _ ih => exact ih s ha hm
  | set _ ih => exact ih ha hm
  | panic _ => simp [Machine.exec] at ha

namespace Machine.Keeps

theorem run_text (hM : M.Keeps L departs) (hL : L.Lawful) (n : Nat) (f : S.Frame) (s : S.State) :
    L.Writes departs f (M.run n f s) := by
  induction n generalizing f s with
  | zero => simp [Ledger.Writes, Machine.run]
  | succ n ih =>
    intro hv hm a ha
    exact (hM f).exec_text hL (hM.run_answers n) ih hv ha hm

end Machine.Keeps

def Ledger.Halts (L : Ledger S) (f : S.Frame) (l : List (Event S)) : Prop :=
  L.panics f ∨ ∃ g h c, Event.call g h c ∈ l ∧ L.panics h

theorem Accounts.exec_panic {clean : Prop} {d : Bool} {t : Bytes} (hp : Accounts L self clean ok d p t)
    (hans : ∀ g s a, (answer g s).res = .ok a → L.answers g a)
    (hpanic : ∀ g s, (answer g s).res = .error .panic → L.Halts g (answer g s).log)
    (hx : (M.exec answer self p s).res = .error .panic) : L.Halts self (M.exec answer self p s).log := by
  have step {l : List (Event S)} {f : S.Frame} {c : Bool} (h : L.Halts f l) {l' : List (Event S)}
      (hf : Event.call self f c ∈ l') (hl : ∀ e ∈ l, e.under c ∈ l') : L.Halts self l' := by
    rcases h with h | ⟨g, k, b, he, hk⟩
    · exact .inr ⟨self, f, c, hf, h⟩
    exact .inr ⟨g, k, _, Event.under_call c b g k ▸ hl _ he, hk⟩
  have later (l' : List (Event S)) {l : List (Event S)} (h : L.Halts self l) : L.Halts self (l' ++ l) := by
    rcases h with h | ⟨g, k, b, he, hk⟩
    · exact .inl h
    exact .inr ⟨g, k, b, List.mem_append_right _ he, hk⟩
  induction hp generalizing s with
  | pure _ => simp [Machine.exec] at hx
  | emit _ _ ih | replace _ _ _ ih | set _ ih => exact ih hx
  | @mark _ _ m _ _ _ _ _ ih | @hide _ _ m _ _ _ _ _ _ _ _ _ ih => exact later [.mark m false] (ih hx)
  | @call _ f _ _ _ _ _ _ _ ih =>
    cases hr : (answer f s).res with
    | error h =>
      simp only [Machine.exec, hr, Except.error.injEq] at hx ⊢
      subst hx
      exact step (c := false) (hpanic f s hr) (by simp) fun e he => by simp [he]
    | ok r =>
      simp only [Machine.exec, hr] at hx ⊢
      exact later _ (ih r (hans _ _ _ hr) hx)
  | @capture _ f _ _ _ _ _ _ _ ih =>
    cases hr : (answer f s).res with
    | error h =>
      simp only [Machine.exec, hr, Except.error.injEq] at hx ⊢
      subst hx
      exact step (c := true) (hpanic f s hr) (by simp) fun e he => by simp; exact .inr ⟨e, he, rfl⟩
    | ok r =>
      simp only [Machine.exec, hr] at hx ⊢
      exact later _ (ih r (hans _ _ _ hr) hx)
  | get _ ih => exact ih s hx
  | panic h => exact .inl h

theorem Machine.Keeps.run_panic (hM : M.Keeps L departs) (n : Nat) {f : S.Frame}
    (hx : (M.run n f s).res = .error .panic) : L.Halts f (M.run n f s).log := by
  induction n generalizing f s with
  | zero => simp [Machine.run] at hx
  | succ n ih => exact (hM f).exec_panic (hM.run_answers n) (fun g s h => ih h) hx

theorem Machine.run_ne_ok {n : Nat} {f g h : S.Frame} {c : Bool} {a : S.Ret f}
    (he : Event.call g h c ∈ (M.run n f s).log) (hb : M.body h = .panic) : (M.run n f s).res ≠ .ok a := by
  obtain ⟨n', s', hpart⟩ := Machine.run_visit he
  intro ha
  cases n' with
  | zero =>
    have := hpart.res .outOfFuel rfl
    rw [ha] at this
    simp at this
  | succ n' =>
    have hp : (M.run (n' + 1) h s').res = .error .panic := by rw [Machine.run, hb, Machine.exec]
    have := hpart.res _ hp
    rw [ha] at this
    simp at this

structure Ledger.Excludes (L : Ledger S) (x : UInt8) : Prop where
  filler : L.filler x = false
  repair : ∀ {u}, x ∉ u → x ∉ L.repair u
  quote : ∀ o, x ∉ L.quote o

def Ledger.PutsIn (L : Ledger S) (x : UInt8) (f : S.Frame) : Prop :=
  ∃ u o c, L.replaces f u o c ∧ x ∈ o

/-- Byte `x` is written by frame `f` itself, by a frame it calls, or by a mark. -/
def Machine.Brings (M : Machine S) (L : Ledger S) (x : UInt8) (f : S.Frame) (l : List (Event S)) : Prop :=
  L.PutsIn x f ∨ (∃ g h, Event.call g h false ∈ l ∧ L.PutsIn x h) ∨
    ∃ m, Event.mark m false ∈ l ∧ x ∈ M.render m

variable {x : UInt8}

theorem Machine.Brings.mono {f : S.Frame} {l l' : List (Event S)} (h : M.Brings L x f l)
    (hl : ∀ e ∈ l, e ∈ l') : M.Brings L x f l' := by
  rcases h with h | ⟨g, k, he, hk⟩ | ⟨m, he, hm⟩
  · exact .inl h
  · exact .inr (.inl ⟨g, k, hl _ he, hk⟩)
  exact .inr (.inr ⟨m, hl _ he, hm⟩)

theorem not_mem_of_all_filler (hx : L.filler x = false) {q : Bytes} (hq : q.all L.filler = true) : x ∉ q := by
  intro h
  have := List.all_eq_true.mp hq x h
  rw [hx] at this
  simp at this

theorem Accounts.exec_byte {clean : Prop} {d : Bool} {t : Bytes} (hp : Accounts L self clean ok d p t)
    (hL : L.Excludes x)
    (hans : ∀ g s a, (answer g s).res = .ok a → L.answers g a)
    (hbyte : ∀ g s, x ∉ L.text g → x ∈ (answer g s).out → M.Brings L x g (answer g s).log)
    (ht : x ∉ t) (hx : x ∈ (M.exec answer self p s).out) :
    M.Brings L x self (M.exec answer self p s).log := by
  induction hp generalizing s with
  | pure _ | panic _ => simp [Machine.exec] at hx
  | emit _ _ ih =>
    simp only [List.mem_append, not_or] at ht
    exact ih ht.2 ((List.mem_append.mp hx).resolve_left ht.1)
  | @replace _ u o c _ _ hr _ _ ih =>
    simp only [List.mem_append, not_or] at ht
    rcases List.mem_append.mp hx with hx | hx
    · exact .inl ⟨u, o, c, hr, hx⟩
    exact ih ht.2.2 ((List.mem_append.mp hx).resolve_left ht.2.1)
  | @mark _ _ m _ _ _ _ _ ih =>
    simp only [List.mem_append, not_or] at ht
    rcases List.mem_append.mp hx with hx | hx
    · exact .inr (.inr ⟨m, by simp [Machine.exec, Outcome.after], hx⟩)
    exact (ih ht.2 hx).mono fun e he => List.mem_append_right _ he
  | @hide _ _ m q e _ _ _ hq he _ _ ih =>
    simp only [List.mem_append, not_or] at ht
    have hx := (List.mem_append.mp hx).resolve_left (not_mem_of_all_filler hL.filler hq)
    rcases List.mem_append.mp hx with hx | hx
    · exact .inr (.inr ⟨m, by simp [Machine.exec, Outcome.after], hx⟩)
    have hx := (List.mem_append.mp hx).resolve_left (not_mem_of_all_filler hL.filler he)
    refine (ih ht.2 hx).mono fun e he => ?_
    simp [Machine.exec, Outcome.after, he]
  | @call _ f u _ _ _ _ htext _ ih =>
    simp only [List.mem_append, not_or] at ht
    have hf : x ∉ L.text f := htext.elim (fun h => h ▸ ht.1) fun h => h ▸ hL.repair ht.1
    have hcall {l : List (Event S)} (h : M.Brings L x f l) (l' : List (Event S)) :
        M.Brings L x self (.call self f false :: l ++ l') := by
      rcases h with h | ⟨g, k, he, hk⟩ | ⟨m, he, hm⟩
      · exact .inr (.inl ⟨self, f, by simp, h⟩)
      · exact .inr (.inl ⟨g, k, by simp [he], hk⟩)
      exact .inr (.inr ⟨m, by simp [he], hm⟩)
    cases hr : (answer f s).res with
    | error h =>
      simp only [Machine.exec, hr] at hx ⊢
      simpa using hcall (hbyte f s hf hx) []
    | ok r =>
      simp only [Machine.exec, hr] at hx ⊢
      rcases List.mem_append.mp hx with hx | hx
      · exact hcall (hbyte f s hf hx) _
      exact (ih r (hans _ _ _ hr) ht.2 hx).mono fun e he => List.mem_append_right _ he
  | @capture _ f u _ _ _ _ _ _ ih =>
    simp only [List.mem_append, not_or] at ht
    cases hr : (answer f s).res with
    | error h => simp [Machine.exec, hr] at hx
    | ok r =>
      simp only [Machine.exec, hr] at hx ⊢
      have hno : x ∉ if (answer f s).out == L.text f then u else L.quote (answer f s).out := by
        split
        · exact ht.1
        exact hL.quote _
      have hx := (List.mem_append.mp ((List.mem_append.mp hx).resolve_left (by simp))).resolve_left hno
      exact (ih r (hans _ _ _ hr) ht.2 hx).mono fun e he => List.mem_append_right _ he
  | get _ ih => exact ih s ht hx
  | set _ ih => exact ih ht hx

theorem Machine.Keeps.run_byte (hM : M.Keeps L departs) (hL : L.Excludes x) (n : Nat) {f : S.Frame}
    (ht : x ∉ L.text f) (hx : x ∈ (M.run n f s).out) :
    M.Brings L x f (M.run n f s).log := by
  induction n generalizing f s with
  | zero => simp [Machine.run] at hx
  | succ n ih => exact (hM f).exec_byte hL (hM.run_answers n) (fun g s hg hx => ih hg hx) ht hx

end PiiShield
