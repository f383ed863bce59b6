import PiiShield.Ledger

/-! What a ledger says of whole runs: which calls are made, that a measure of the frames
bounds their nesting, and that a run ends. -/

namespace PiiShield

variable {S : Sig} {α : Type}

namespace Accounts

variable {L : Ledger S} {M : Machine S} {self : S.Frame} {clean : Prop} {ok : α → Prop} {d : Bool}
  {p : Prog S α} {t : Bytes} {answer : (f : S.Frame) → S.State → Outcome S (S.Ret f)}

theorem exec_ok (hp : Accounts L self clean ok d p t)
    (hans : ∀ g s a, (answer g s).res = .ok a → L.answers g a) {s : S.State} {a : α}
    (ha : (M.exec answer self p s).res = .ok a) : ok a := by
  induction hp generalizing s with
  | pure h =>
    simp only [Machine.exec, Except.ok.injEq] at ha
    exact ha ▸ h
  | emit _ _ ih | replace _ _ _ ih | mark _ _ ih | hide _ _ _ _ ih | set _ ih => exact ih ha
  | @call _ f _ _ _ _ _ _ _ ih | @capture _ f _ _ _ _ _ _ _ ih =>
    grind [Machine.exec, Outcome.after]
  | get _ ih => exact ih s ha
  | panic _ => simp [Machine.exec] at ha

theorem exec_log {P : Event S → Prop} (hp : Accounts L self clean ok d p t)
    (hans : ∀ g s a, (answer g s).res = .ok a → L.answers g a)
    (hcap : ∀ e, P e → P e.capture) (hmark : ∀ m, P (.mark m false))
    (hcall : ∀ g, L.may self g → P (.call self g false))
    (hlog : ∀ g s, L.may self g → ∀ e ∈ (answer g s).log, P e) (s : S.State) :
    ∀ e ∈ (M.exec answer self p s).log, P e := by
  induction hp generalizing s with
  | pure _ | panic _ => simp [Machine.exec]
  | emit _ _ ih | replace _ _ _ ih => simpa [Machine.exec, Outcome.after] using ih s
  | mark _ _ ih | hide _ _ _ _ ih => simpa [Machine.exec, Outcome.after] using ⟨hmark _, ih s⟩
  | @call _ f _ _ _ hf _ _ _ ih =>
    grind [Machine.exec, Outcome.after]
  | @capture _ f _ _ _ hf _ _ _ ih =>
    grind [Event.capture, Machine.exec, Outcome.after]
  | get _ ih => exact ih s s
  | set _ ih => exact ih _

theorem exec_fuel (hp : Accounts L self clean ok d p t)
    (hans : ∀ g s a, (answer g s).res = .ok a → L.answers g a)
    (hfuel : ∀ g s, L.may self g → (answer g s).res ≠ .error .outOfFuel) (s : S.State) :
    (M.exec answer self p s).res ≠ .error .outOfFuel := by
  induction hp generalizing s with
  | pure _ | panic _ => simp [Machine.exec]
  | emit _ _ ih | replace _ _ _ ih | mark _ _ ih | hide _ _ _ _ ih => exact ih s
  | @call _ f _ _ _ hf _ _ _ ih | @capture _ f _ _ _ hf _ _ _ ih =>
    grind [Machine.exec, Outcome.after]
  | get _ ih => exact ih s s
  | set _ ih => exact ih _

end Accounts

/-- Every program of the machine accounts for the text of its frame; `dirty` names the
frames that depart from it. -/
def Machine.Keeps (M : Machine S) (L : Ledger S) (dirty : S.Frame → Bool) : Prop :=
  ∀ f, Accounts L f (L.valid (L.text f)) (L.answers f) (dirty f) (M.body f) (L.text f)

namespace Machine.Keeps

variable {M : Machine S} {L : Ledger S} {dirty : S.Frame → Bool}

theorem run_answers (hM : M.Keeps L dirty) (n : Nat) (f : S.Frame) (s : S.State) (a : S.Ret f)
    (ha : (M.run n f s).res = .ok a) : L.answers f a := by
  induction n generalizing f s with
  | zero => simp [Machine.run] at ha
  | succ n ih => exact (hM f).exec_ok ih ha

theorem run_calls (hM : M.Keeps L dirty) {inv : S.Frame → Prop}
    (hinv : ∀ f g, inv f → L.may f g → inv g) (n : Nat) {f : S.Frame} (hf : inv f) (s : S.State)
    {g h : S.Frame} {c : Bool} (he : Event.call g h c ∈ (M.run n f s).log) :
    L.may g h ∧ inv g ∧ inv h := by
  suffices ∀ e ∈ (M.run n f s).log, ∀ g h c, e = .call g h c → L.may g h ∧ inv g ∧ inv h from
    this _ he g h c rfl
  clear he
  induction n generalizing f s with
  | zero => simp [Machine.run]
  | succ n ih =>
    refine (hM f).exec_log (hM.run_answers n) ?_ ?_ ?_ ?_ s
    · rintro (⟨g, h, c⟩ | ⟨m, c⟩) hP g' h' c' he
      · cases he
        exact hP g h c rfl
      · cases he
    · rintro m g h c he
      cases he
    · rintro g hg _ _ _ he
      cases he
      exact ⟨hg, hf, hinv f g hf hg⟩
    exact fun g s hg => ih (hinv f g hf hg) s

theorem run_fuel (hM : M.Keeps L dirty) {inv : S.Frame → Prop} {rank : S.Frame → Nat}
    (hinv : ∀ f g, inv f → L.may f g → inv g)
    (hrank : ∀ f g, inv f → L.may f g → rank g < rank f) (n : Nat) {f : S.Frame} (hf : inv f)
    (hn : rank f < n) (s : S.State) : (M.run n f s).res ≠ .error .outOfFuel := by
  induction n generalizing f s with
  | zero => omega
  | succ n ih =>
    refine (hM f).exec_fuel (hM.run_answers n) (fun g s hg => ?_) s
    have := hrank f g hf hg
    exact ih (hinv f g hf hg) (by omega) s

end Machine.Keeps

theorem length_le_rank_of_isChain {β : Type} {R : β → β → Prop} {rank : β → Nat}
    (h : ∀ a b, R a b → rank b < rank a) (a : β) (l : List β) (hl : (a :: l).IsChain R) :
    l.length ≤ rank a := by
  induction l generalizing a with
  | nil => simp
  | cons b l ih =>
    grind

end PiiShield
