import PiiShield.Bytes

/-! Recursive programs that append to an output. A program is a tree of effects:
it writes bytes, places marks, reads and replaces an ambient state, calls another
frame (with the same output or with a fresh one) or panics. Which program a frame
runs is a table, and running it takes fuel for the nesting of calls. -/

namespace PiiShield

/-- What a family of programs is about: the frames they call, what a call returns,
the marks they place and the state they share. -/
structure Sig where
  Frame : Type
  Ret : Frame → Type
  Mark : Type
  State : Type

inductive Prog (S : Sig) (α : Type) : Type
  | pure (a : α)
  | emit (o : Bytes) (k : Prog S α)
  | mark (m : S.Mark) (k : Prog S α)
  | call (f : S.Frame) (k : S.Ret f → Prog S α)
  /-- A call whose output goes to a builder of its own and is handed to `k`. -/
  | capture (f : S.Frame) (k : S.Ret f → Bytes → Prog S α)
  | get (k : S.State → Prog S α)
  | set (s : S.State) (k : Prog S α)
  | panic

variable {S : Sig} {α β γ : Type}

namespace Prog

def bind : Prog S α → (α → Prog S β) → Prog S β
  | pure a, k => k a
  | emit o p, k => emit o (p.bind k)
  | mark m p, k => mark m (p.bind k)
  | call f p, k => call f fun r => (p r).bind k
  | capture f p, k => capture f fun r o => (p r o).bind k
  | get p, k => get fun s => (p s).bind k
  | set s p, k => set s (p.bind k)
  | panic, _ => panic

instance : Monad (Prog S) where
  pure := Prog.pure
  bind := Prog.bind

def write (o : Bytes) : Prog S Unit := emit o (pure ())

def place (m : S.Mark) : Prog S Unit := mark m (pure ())

def invoke (f : S.Frame) : Prog S (S.Ret f) := call f pure

@[simp] theorem bind_eq (p : Prog S α) (k : α → Prog S β) : p >>= k = p.bind k := rfl

@[simp] theorem pure_eq (a : α) : (Pure.pure a : Prog S α) = pure a := rfl

end Prog

inductive Halt
  | panic
  | outOfFuel
  deriving DecidableEq

/-- What a run leaves in its log: who called whom and which marks were placed.
`captured` says that the output went to another builder first. -/
inductive Event (S : Sig)
  | call (caller callee : S.Frame) (captured : Bool)
  | mark (m : S.Mark) (captured : Bool)

def Event.capture : Event S → Event S
  | .call f g _ => .call f g true
  | .mark m _ => .mark m true

structure Outcome (S : Sig) (α : Type) where
  out : Bytes
  log : List (Event S)
  state : S.State
  res : Except Halt α

def Outcome.after (o : Bytes) (l : List (Event S)) (r : Outcome S α) : Outcome S α :=
  { r with out := o ++ r.out, log := l ++ r.log }

structure Machine (S : Sig) where
  body : (f : S.Frame) → Prog S (S.Ret f)
  render : S.Mark → Bytes

namespace Machine

variable (M : Machine S)

/-- Run the program of frame `self`, given how calls are answered. -/
def exec (answer : (f : S.Frame) → S.State → Outcome S (S.Ret f)) (self : S.Frame) :
    Prog S α → S.State → Outcome S α
  | .pure a, s => ⟨[], [], s, .ok a⟩
  | .emit o k, s => (exec answer self k s).after o []
  | .mark m k, s => (exec answer self k s).after (M.render m) [.mark m false]
  | .call f k, s =>
    let c := answer f s
    match c.res with
    | .ok r => (exec answer self (k r) c.state).after c.out (.call self f false :: c.log)
    | .error h => ⟨c.out, .call self f false :: c.log, c.state, .error h⟩
  | .capture f k, s =>
    let c := answer f s
    let log := .call self f true :: c.log.map Event.capture
    match c.res with
    | .ok r => (exec answer self (k r c.out) c.state).after [] log
    | .error h => ⟨[], log, c.state, .error h⟩
  | .get k, s => exec answer self (k s) s
  | .set s' k, _ => exec answer self k s'
  | .panic, s => ⟨[], [], s, .error .panic⟩

def run : Nat → (f : S.Frame) → S.State → Outcome S (S.Ret f)
  | 0, _, s => ⟨[], [], s, .error .outOfFuel⟩
  | n + 1, f, s => M.exec (run n) f (M.body f) s

end Machine

end PiiShield
