import PiiShield.Prog

/-! What the log of a run says about it. Behind every logged call is the run of its frame,
which is part of the whole run: its log, its output unless captured, its failure. -/

namespace PiiShield

variable {S : Sig} {α β γ : Type}

variable {f g : S.Frame} {n : Nat} {s : S.State}

@[simp] theorem Event.capture_capture (e : Event S) : e.capture.capture = e.capture := by
  cases e <;> rfl

def Event.under (captured : Bool) (e : Event S) : Event S := if captured then e.capture else e

@[simp] theorem Event.under_false (e : Event S) : e.under false = e := rfl

@[simp] theorem Event.under_true (e : Event S) : e.under true = e.capture := rfl

theorem Event.under_under (b c : Bool) (e : Event S) : (e.under b).under c = e.under (b || c) := by
  cases b <;> cases c <;> simp

@[simp] theorem Event.under_call (b c : Bool) (f g : S.Frame) :
    (Event.call f g c : Event S).under b = .call f g (c || b) := by
  cases b <;> cases c <;> rfl

def Outcome.Called (r : Outcome S α) (f g : S.Frame) : Prop := ∃ c, Event.call f g c ∈ r.log

/-- Outcome `r` is part of outcome `R`; `captured` says that its output went to another
builder. -/
structure Outcome.PartOf (r : Outcome S α) (captured : Bool) (R : Outcome S β) : Prop where
  log : ∀ e ∈ r.log, e.under captured ∈ R.log
  out : captured = false → ∀ x ∈ r.out, x ∈ R.out
  res : ∀ h, r.res = .error h → R.res = .error h

namespace Outcome.PartOf

variable {r : Outcome S α} {R : Outcome S β} {T : Outcome S γ} {b c : Bool}

theorem trans (h : r.PartOf b R) (h' : R.PartOf c T) : r.PartOf (b || c) T where
  log e he := Event.under_under b c e ▸ h'.log _ (h.log e he)
  out hbc x hx := by
    obtain ⟨hb, hc⟩ := Bool.or_eq_false_iff.mp hbc
    exact h'.out hc x (h.out hb x hx)
  res e he := h'.res e (h.res e he)

theorem after (h : r.PartOf c R) (o : Bytes) (l : List (Event S)) : r.PartOf c (R.after o l) where
  log e he := List.mem_append_right l (h.log e he)
  out hc x hx := List.mem_append_right o (h.out hc x hx)
  res := h.res

theorem called (h : r.PartOf c R) (hc : r.Called f g) : R.Called f g := by
  obtain ⟨b, hb⟩ := hc
  exact ⟨b || c, Event.under_call c b f g ▸ h.log _ hb⟩

end Outcome.PartOf

namespace Machine

variable {M : Machine S} {self : S.Frame} {answer : (f : S.Frame) → S.State → Outcome S (S.Ret f)}

/-- Where an event of a run comes from: a mark that was placed, or a call with the run behind it. -/
def Source (M : Machine S) (answer : (f : S.Frame) → S.State → Outcome S (S.Ret f)) (self : S.Frame)
    (R : Outcome S α) (e : Event S) : Prop :=
  (∃ m, e = .mark m false ∧ ∀ x ∈ M.render m, x ∈ R.out) ∨
    ∃ f s c, (answer f s).PartOf c R ∧ Event.call self f c ∈ R.log ∧
      (e = .call self f c ∨ ∃ e' ∈ (answer f s).log, e = e'.under c)

theorem Source.after {R : Outcome S α} {e : Event S} (h : M.Source answer self R e) (o : Bytes) (l : List (Event S)) :
    M.Source answer self (R.after o l) e := by
  rcases h with ⟨m, rfl, hm⟩ | ⟨f, s, c, hpart, hcall, hfrom⟩
  · exact .inl ⟨m, rfl, fun x hx => List.mem_append_right o (hm x hx)⟩
  exact .inr ⟨f, s, c, hpart.after o l, List.mem_append_right l hcall, hfrom⟩

theorem exec_call (M : Machine S) (self f : S.Frame) (k : S.Ret f → Prog S α) (s : S.State) :
    Event.call self f false ∈ (M.exec answer self (.call f k) s).log ∧
      (answer f s).PartOf false (M.exec answer self (.call f k) s) := by
  cases hr : (answer f s).res with
  | error h =>
    simp only [exec, hr]
    exact ⟨by simp, fun e he => by simp [he], fun _ x hx => hx, fun e he => by cases hr.symm.trans he; rfl⟩
  | ok r =>
    simp only [exec, hr]
    refine ⟨by simp [Outcome.after], fun e he => by simp [Outcome.after, he], ?_, fun e he => ?_⟩
    · exact fun _ x hx => List.mem_append_left _ hx
    rw [hr] at he
    cases he

theorem exec_capture (M : Machine S) (self f : S.Frame) (k : S.Ret f → Bytes → Prog S α) (s : S.State) :
    Event.call self f true ∈ (M.exec answer self (.capture f k) s).log ∧
      (answer f s).PartOf true (M.exec answer self (.capture f k) s) := by
  have hlog (e : Event S) (he : e ∈ (answer f s).log) : e.under true ∈ (answer f s).log.map Event.capture :=
    List.mem_map_of_mem he
  cases hr : (answer f s).res with
  | error h =>
    simp only [exec, hr]
    exact ⟨by simp, fun e he => List.mem_cons_of_mem _ (hlog e he), by simp, fun e he => by cases hr.symm.trans he; rfl⟩
  | ok r =>
    simp only [exec, hr]
    refine ⟨by simp [Outcome.after], fun e he => ?_, by simp, fun e he => ?_⟩
    · exact List.mem_append_left _ (List.mem_cons_of_mem _ (hlog e he))
    rw [hr] at he
    cases he

theorem exec_log {p : Prog S α} {e : Event S} (he : e ∈ (M.exec answer self p s).log) :
    M.Source answer self (M.exec answer self p s) e := by
  induction p generalizing s with
  | pure a | panic => simp [exec] at he
  | emit o k ih => exact (ih (by simpa [exec, Outcome.after] using he)).after o []
  | mark m k ih =>
    simp only [exec, Outcome.after, List.singleton_append, List.mem_cons] at he
    rcases he with rfl | he
    · exact .inl ⟨m, rfl, fun x hx => List.mem_append_left _ hx⟩
    exact (ih he).after _ _
  | call f k ih =>
    obtain ⟨hcall, hpart⟩ := exec_call M self f k s
    have hfirst (he : e = .call self f false ∨ e ∈ (answer f s).log) :
        M.Source answer self (M.exec answer self (.call f k) s) e :=
      .inr ⟨f, s, false, hpart, hcall, he.imp_right fun he => ⟨e, he, rfl⟩⟩
    cases hr : (answer f s).res with
    | error h => exact hfirst (by simpa only [exec, hr, List.mem_cons] using he)
    | ok a =>
      simp only [exec, hr, Outcome.after, List.mem_append, List.mem_cons] at he
      rcases he with he | he
      · exact hfirst he
      simp only [exec, hr]
      exact (ih a he).after _ _
  | capture f k ih =>
    obtain ⟨hcall, hpart⟩ := exec_capture M self f k s
    have hfirst (he : e = .call self f true ∨ e ∈ (answer f s).log.map Event.capture) :
        M.Source answer self (M.exec answer self (.capture f k) s) e := by
      refine .inr ⟨f, s, true, hpart, hcall, he.imp_right fun he => ?_⟩
      obtain ⟨e', he', rfl⟩ := List.mem_map.mp he
      exact ⟨e', he', rfl⟩
    cases hr : (answer f s).res with
    | error h => exact hfirst (by simpa only [exec, hr, List.mem_cons] using he)
    | ok a =>
      simp only [exec, hr, Outcome.after, List.mem_append, List.mem_cons] at he
      rcases he with he | he
      · exact hfirst he
      simp only [exec, hr]
      exact (ih a _ he).after _ _
  | get k ih => exact ih s he
  | set s' k ih => exact ih he

theorem run_visit {h : S.Frame} {c : Bool} (he : Event.call g h c ∈ (M.run n f s).log) :
    ∃ n' s', (M.run n' h s').PartOf c (M.run n f s) := by
  induction n generalizing f s c with
  | zero => simp [run] at he
  | succ n ih =>
    rcases exec_log he with ⟨m, hm, -⟩ | ⟨f', s', b, hpart, -, hfrom⟩
    · simp at hm
    rcases hfrom with hcall | ⟨e', he', hcall⟩
    · cases hcall
      exact ⟨n, s', hpart⟩
    match e' with
    | .mark m c' => cases b <;> simp [Event.under, Event.capture] at hcall
    | .call g' h' c' =>
      rw [Event.under_call] at hcall
      cases hcall
      obtain ⟨n', s'', hsub⟩ := ih he'
      exact ⟨n', s'', hsub.trans hpart⟩

theorem run_mark {m : S.Mark}
    (he : Event.mark m false ∈ (M.run n f s).log) : ∀ x ∈ M.render m, x ∈ (M.run n f s).out := by
  induction n generalizing f s with
  | zero => simp [run] at he
  | succ n ih =>
    rcases exec_log he with ⟨m', hm, hout⟩ | ⟨f', s', b, hpart, -, hfrom⟩
    · cases hm
      exact hout
    rcases hfrom with hcall | ⟨e', he', hcall⟩
    · simp at hcall
    · cases b with
      | true => cases e' <;> simp [Event.under, Event.capture] at hcall
      | false =>
        rw [Event.under_false] at hcall
        subst hcall
        exact fun x hx => hpart.out rfl x (ih he' x hx)

theorem run_inv {inv : S.Frame → Prop} (hf : inv f)
    (hstep : ∀ g h c, Event.call g h c ∈ (M.run n f s).log → inv g → inv h) {h : S.Frame} {c : Bool}
    (he : Event.call g h c ∈ (M.run n f s).log) : inv g ∧ inv h := by
  induction n generalizing f s c with
  | zero => simp [run] at he
  | succ n ih =>
    rcases exec_log he with ⟨m, hm, -⟩ | ⟨f', s', b, hpart, hcall, hfrom⟩
    · simp at hm
    have hf' : inv f' := hstep f f' b hcall hf
    rcases hfrom with hcall' | ⟨e', he', hcall'⟩
    · cases hcall'
      exact ⟨hf, hf'⟩
    match e' with
    | .mark m c' => cases b <;> simp [Event.under, Event.capture] at hcall'
    | .call g' h' c' =>
      rw [Event.under_call] at hcall'
      cases hcall'
      refine ih hf' (fun g h c hc => ?_) he'
      have := hpart.log _ hc
      rw [Event.under_call] at this
      exact hstep g h _ this

theorem exec_congr {answer' : (f : S.Frame) → S.State → Outcome S (S.Ret f)}
    (h : ∀ f s, (answer f s).res ≠ .error .outOfFuel → answer' f s = answer f s) (p : Prog S α) (s : S.State)
    (hp : (M.exec answer self p s).res ≠ .error .outOfFuel) :
    M.exec answer' self p s = M.exec answer self p s := by
  induction p generalizing s with
  | pure a => rfl
  | emit o k ih | mark m k ih => simp only [exec, ih s hp]
  | call f k ih | capture f k ih =>
    cases hr : (answer f s).res with
    | error e =>
      simp_all [exec]
    | ok r =>
      have hf : answer' f s = answer f s := h f s (by simp [hr])
      simp only [exec, hf, hr] at hp ⊢
      rw [ih]
      exact hp
  | get k ih => exact ih s s hp
  | set s' k ih => exact ih s' hp
  | panic => rfl

theorem run_mono {m : Nat} (hnm : n ≤ m)
    (hn : (M.run n f s).res ≠ .error .outOfFuel) : M.run m f s = M.run n f s := by
  induction n generalizing m f s with
  | zero => simp [run] at hn
  | succ n ih =>
    obtain ⟨m, rfl⟩ : ∃ m', m = m' + 1 := ⟨m - 1, by omega⟩
    exact exec_congr (fun f s hf => ih (by omega) hf) _ s hn

end Machine

end PiiShield
