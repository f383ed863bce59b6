import PiiShield.Prog

/-! Rules for what a program writes and returns, step by step. -/

namespace PiiShield

variable {S : Sig} {α β : Type}

structure Outcome.Gives (r : Outcome S α) (o : Bytes) (a : α) : Prop where
  out : r.out = o
  res : r.res = .ok a

namespace Machine

/-- From any state, the program writes `o` and ends with result `a`. -/
def Yields (M : Machine S) (answer : (f : S.Frame) → S.State → Outcome S (S.Ret f)) (self : S.Frame)
    (p : Prog S α) (o : Bytes) (a : α) : Prop :=
  ∀ s, (M.exec answer self p s).Gives o a

variable {M : Machine S} {self : S.Frame} {answer : (f : S.Frame) → S.State → Outcome S (S.Ret f)}

theorem exec_bind_gives {p : Prog S α} {k : α → Prog S β} {s : S.State} {o o' : Bytes} {a : α} {b : β}
    (hp : (M.exec answer self p s).Gives o a) (hk : M.Yields answer self (k a) o' b) :
    (M.exec answer self (p.bind k) s).Gives (o ++ o') b := by
  induction p generalizing s o with
  | pure c =>
    obtain ⟨rfl, hres⟩ := hp
    cases hres
    exact hk s
  | emit u p ih | mark m p ih =>
    obtain ⟨rfl, hres⟩ := hp
    obtain ⟨h1, h2⟩ := ih ⟨rfl, hres⟩
    exact ⟨by simp [Prog.bind, exec, Outcome.after, h1], h2⟩
  | call f p ih =>
    cases hr : (answer f s).res with
    | error e =>
      have := hp.res
      simp [exec, hr] at this
    | ok r =>
      simp only [exec, hr] at hp
      obtain ⟨rfl, hres⟩ := hp
      obtain ⟨h1, h2⟩ := ih r ⟨rfl, hres⟩
      exact ⟨by simp [Prog.bind, exec, hr, Outcome.after, h1], by simpa [Prog.bind, exec, hr, Outcome.after] using h2⟩
  | capture f p ih =>
    cases hr : (answer f s).res with
    | error e =>
      have := hp.res
      simp [exec, hr] at this
    | ok r =>
      simp only [exec, hr] at hp
      obtain ⟨rfl, hres⟩ := hp
      obtain ⟨h1, h2⟩ := ih r _ ⟨rfl, hres⟩
      exact ⟨by simp [Prog.bind, exec, hr, Outcome.after, h1], by simpa [Prog.bind, exec, hr, Outcome.after] using h2⟩
  | get p ih => exact ih s hp
  | set s' p ih => exact ih hp
  | panic =>
    have := hp.res
    simp [exec] at this

namespace Yields

variable {o o' : Bytes} {a : α} {b : β}

theorem pure (a : α) : M.Yields answer self (.pure a) [] a := fun _ => ⟨rfl, rfl⟩

theorem bind {p : Prog S α} {k : α → Prog S β} (hp : M.Yields answer self p o a)
    (hk : M.Yields answer self (k a) o' b) : M.Yields answer self (p >>= k) (o ++ o') b :=
  fun s => exec_bind_gives (hp s) hk

theorem write (o : Bytes) : M.Yields answer self (Prog.write o) o () :=
  fun _ => ⟨List.append_nil o, rfl⟩

theorem place (m : S.Mark) : M.Yields answer self (Prog.place m) (M.render m) () :=
  fun _ => ⟨List.append_nil _, rfl⟩

theorem get {k : S.State → Prog S α} (h : ∀ s, M.Yields answer self (k s) o a) :
    M.Yields answer self (.get k) o a := fun s => h s s

theorem invoke {f : S.Frame} {a : S.Ret f} (h : ∀ s, (answer f s).Gives o a) :
    M.Yields answer self (Prog.invoke f) o a := by
  intro s
  obtain ⟨h1, h2⟩ := h s
  exact ⟨by simp [Prog.invoke, exec, h2, Outcome.after, h1], by simp [Prog.invoke, exec, h2, Outcome.after]⟩

end Yields

end Machine

end PiiShield
