import PiiShield.LedgerText

/-! Postconditions of programs that append to an output: what a run returns, if it does, and what it
wrote. A program meets one step by step, and a table of programs meets its own in every run. -/

namespace PiiShield

variable {S : Sig} {α β : Type}

variable {p : Prog S α}

abbrev Post (α : Type) := Option α → Bytes → Prop

section Programs

variable (render : S.Mark → Bytes) (post : (f : S.Frame) → Post (S.Ret f))

/-- The program ends in `Q` whatever its calls do within their postconditions. -/
def Prog.Meets : Prog S α → Post α → Prop
  | .pure a, Q => Q (some a) []
  | .emit o k, Q => k.Meets fun r x => Q r (o ++ x)
  | .mark m k, Q => k.Meets fun r x => Q r (render m ++ x)
  | .call f k, Q =>
    (∀ x, post f none x → Q none x) ∧ ∀ a x, post f (some a) x → (k a).Meets fun r y => Q r (x ++ y)
  | .capture f k, Q => (∀ x, post f none x → Q none []) ∧ ∀ a x, post f (some a) x → (k a x).Meets Q
  | .get k, Q => ∀ s, (k s).Meets Q
  | .set _ k, Q => k.Meets Q
  | .panic, Q => Q none []

variable {render post}

namespace Prog.Meets

theorem mono {Q Q' : Post α} (hp : p.Meets render post Q) (h : ∀ r x, Q r x → Q' r x) :
    p.Meets render post Q' := by
  induction p generalizing Q Q' with
  | pure a | panic => exact h _ _ hp
  | emit o p ih => exact ih hp fun r x => h r (o ++ x)
  | mark m p ih => exact ih hp fun r x => h r (render m ++ x)
  | call f p ih => exact ⟨fun x hx => h _ _ (hp.1 x hx), fun a x hx => ih a (hp.2 a x hx) fun r y => h r (x ++ y)⟩
  | capture f p ih => exact ⟨fun x hx => h _ _ (hp.1 x hx), fun a x hx => ih a x (hp.2 a x hx) h⟩
  | get p ih => exact fun s => ih s (hp s) h
  | set s p ih => exact ih hp h

theorem and {Q Q' : Post α} (hp : p.Meets render post Q) (hp' : p.Meets render post Q') :
    p.Meets render post fun r x => Q r x ∧ Q' r x := by
  induction p generalizing Q Q' with
  | pure a | panic => exact ⟨hp, hp'⟩
  | emit o p ih | mark m p ih | set s p ih => exact ih hp hp'
  | call f p ih => exact ⟨fun x hx => ⟨hp.1 x hx, hp'.1 x hx⟩, fun a x hx => ih a (hp.2 a x hx) (hp'.2 a x hx)⟩
  | capture f p ih => exact ⟨fun x hx => ⟨hp.1 x hx, hp'.1 x hx⟩, fun a x hx => ih a x (hp.2 a x hx) (hp'.2 a x hx)⟩
  | get p ih => exact fun s => ih s (hp s) (hp' s)

theorem bind {k : α → Prog S β} {P : Post α} {Q : Post β} (hp : p.Meets render post P)
    (hnone : ∀ x, P none x → Q none x)
    (hk : ∀ a x, P (some a) x → (k a).Meets render post fun r y => Q r (x ++ y)) :
    (p >>= k).Meets render post Q := by
  show (p.bind k).Meets render post Q
  induction p generalizing P Q with
  | pure a => exact hk a [] hp
  | emit o p ih =>
    refine ih hp (fun x => hnone (o ++ x)) fun a x hx => ?_
    have h := hk a (o ++ x) hx
    simp only [List.append_assoc] at h
    exact h
  | mark m p ih =>
    refine ih hp (fun x => hnone (render m ++ x)) fun a x hx => ?_
    have h := hk a (render m ++ x) hx
    simp only [List.append_assoc] at h
    exact h
  | call f p ih =>
    refine ⟨fun x hx => hnone x (hp.1 x hx), fun a x hx => ih a (hp.2 a x hx) (fun y => hnone (x ++ y)) ?_⟩
    grind
  | capture f p ih =>
    exact ⟨fun x hx => hnone [] (hp.1 x hx), fun a x hx => ih a x (hp.2 a x hx) hnone hk⟩
  | get p ih => exact fun s => ih s (hp s) hnone hk
  | set s p ih => exact ih hp hnone hk
  | panic => exact hnone [] hp

theorem call_only (f : S.Frame) : (Prog.call f .pure : Prog S (S.Ret f)).Meets render post (post f) := by
  refine ⟨fun x hx => hx, fun a x hx => ?_⟩
  show post f (some a) (x ++ [])
  rw [List.append_nil]
  exact hx

end Prog.Meets

namespace Machine

variable {M : Machine S} {self : S.Frame} {answer : (f : S.Frame) → S.State → Outcome S (S.Ret f)}

theorem exec_meets {Q : Post α} (hp : p.Meets M.render post Q)
    (hans : ∀ f s, post f (answer f s).res.toOption (answer f s).out) (s : S.State) :
    Q (M.exec answer self p s).res.toOption (M.exec answer self p s).out := by
  induction p generalizing Q s with
  | pure a => exact hp
  | emit o p ih | mark m p ih => exact ih hp s
  | call f p ih =>
    have hcallee := hans f s
    cases hr : (answer f s).res with
    | error h =>
      rw [hr] at hcallee
      simp only [exec, hr]
      exact hp.1 _ hcallee
    | ok a =>
      rw [hr] at hcallee
      simp only [exec, hr]
      exact ih a (hp.2 a _ hcallee) _
  | capture f p ih =>
    have hcallee := hans f s
    cases hr : (answer f s).res with
    | error h =>
      rw [hr] at hcallee
      simp only [exec, hr]
      exact hp.1 _ hcallee
    | ok a =>
      rw [hr] at hcallee
      simp only [exec, hr]
      exact ih a _ (hp.2 a _ hcallee) _
  | get p ih => exact ih s (hp s) s
  | set s' p ih => exact ih hp s'
  | panic => exact hp

theorem run_meets (hzero : ∀ f, post f none []) (hM : ∀ f, (M.body f).Meets M.render post (post f)) (n : Nat)
    (f : S.Frame) (s : S.State) : post f (M.run n f s).res.toOption (M.run n f s).out := by
  induction n generalizing f s with
  | zero => exact hzero f
  | succ n ih => exact exec_meets (hM f) ih s

end Machine

theorem Accounts.meets {L : Ledger S} {self : S.Frame} {ok : α → Prop} {d : Bool} {t x : Bytes}
    (hp : Accounts L self (L.valid (L.text self)) ok d p t) (hL : L.Lawful)
    (hmark : ∀ {m u q e}, L.hides self m u q e → L.valid (render m))
    (hfill : ∀ {q}, q.all L.filler = true → L.valid q)
    (hpost : ∀ f r y, post f r y → (L.valid (L.text f) → L.valid y) ∧ ∀ a, r = some a → L.answers f a)
    (hx : L.valid (L.text self) → L.valid x) :
    p.Meets render post fun r y => (L.valid (L.text self) → L.valid (x ++ y)) ∧ ∀ a, r = some a → ok a := by
  have longer {x o : Bytes} (hx : L.valid (L.text self) → L.valid x) (ho : L.valid (L.text self) → L.valid o) :
      L.valid (L.text self) → L.valid (x ++ o) := fun h => hL.append (hx h) (ho h)
  induction hp generalizing x with
  | pure ha =>
    refine ⟨fun h => ?_, fun a heq => Option.some.inj heq ▸ ha⟩
    rw [List.append_nil]
    exact hx h
  | emit ho _ ih =>
    have h := ih (longer hx ho)
    simp only [List.append_assoc] at h
    exact h
  | replace hr hc _ ih =>
    have h := ih (longer (longer hx fun hv => (hL.replaces hr hv).1) hc)
    simp only [List.append_assoc] at h
    exact h
  | mark hm _ ih =>
    have h := ih (longer hx fun _ => hmark hm)
    simp only [List.append_assoc] at h
    exact h
  | hide hq he hm _ ih =>
    have h := ih (longer (longer (longer hx fun _ => hfill hq) fun _ => hmark hm) fun _ => hfill he)
    simp only [List.append_assoc] at h
    exact h
  | @call _ f u t k hf hu htext _ ih =>
    have hcallee (hv : L.valid (L.text self)) : L.valid (L.text f) := by
      have heq : L.text f = u := htext.elim id fun h => h.trans (hL.repair (hu hv))
      rw [heq]
      exact hu hv
    refine ⟨fun y hy => ⟨longer hx fun hv => (hpost f none y hy).1 (hcallee hv), fun a heq => nomatch heq⟩, ?_⟩
    intro a y hy
    obtain ⟨hvalid, hanswer⟩ := hpost f (some a) y hy
    have h := ih a (hanswer a rfl) (longer hx fun hv => hvalid (hcallee hv))
    simp only [List.append_assoc] at h
    exact h
  | @capture _ f u t k hf hu huv _ ih =>
    refine ⟨fun y hy => ⟨fun hv => ?_, fun a heq => nomatch heq⟩, fun a y hy => ?_⟩
    · rw [List.append_nil]
      exact hx hv
    obtain ⟨hvalid, hanswer⟩ := hpost f (some a) y hy
    have hlit (hv : L.valid (L.text self)) : L.valid (if y == L.text f then u else L.quote y) := by
      split
      · exact huv hv
      exact hL.quote (hvalid (hL.decoded hu))
    have h := ih a (hanswer a rfl) (longer hx hlit)
    simp only [List.append_assoc] at h
    exact h
  | get _ ih => exact fun s => ih s hx
  | set _ ih => exact ih hx
  | panic _ =>
    refine ⟨fun h => ?_, fun a heq => nomatch heq⟩
    rw [List.append_nil]
    exact hx h

end Programs

end PiiShield
