import PiiShield.Regex.Syntax

/-! The parser of Go's `regexp/syntax` as a stack machine over tokens: one frame for each group that
is open, with its alternatives and the concatenation that is being read. -/

namespace PiiShield.Regex

/-- The last of several alternatives is the first in the list. -/
structure Frame where
  /-- The number of the group, unless it does not capture. -/
  cap : Option Nat
  /-- The flags before the group. -/
  saved : Flags
  alts : List Node
  cur : List Node

/-- The frame on top is the first; `repeated` says that the last token was a repetition. -/
structure State where
  stack : List Frame
  flags : Flags
  caps : Nat
  repeated : Bool

namespace Node

def cats : List Node → Node
  | [] => .empty
  | n :: ns => .cat n (cats ns)

def alts : List Node → Node
  | [] => .fail
  | n :: ns => .alt n (alts ns)

end Node

section Atoms

variable (T : Tables) (f : Flags)

def Item.matches (i : Item) (r : Nat) : Bool := (if f.foldCase then (T.orbit r).any i.ok else i.ok r) != i.negated

def litNode (c : Nat) : Node := .rune (Item.matches T f ⟨(· == c), false⟩)

def classNode (items : List Item) (negated : Bool) : Node :=
  .rune fun r => items.any (·.matches T f r) != negated

def dotNode : Node := .rune fun r => f.dotNL || r != 0x0A

def beginNode : Node := .assert (if f.multiLine then .beginLine else .beginText)

def endNode : Node := .assert (if f.multiLine then .endLine else .endText)

end Atoms

namespace Frame

def fresh (cap : Option Nat) (saved : Flags) : Frame := ⟨cap, saved, [], []⟩

variable (f : Frame)

def branches : List Node := (Node.cats f.cur.reverse :: f.alts).reverse

def body : Node := Node.alts f.branches

def node : Node :=
  match f.cap with
  | some i => .group i f.body
  | none => f.body

def push (ns : List Node) : Frame := { f with cur := ns.reverse ++ f.cur }

def bar : Frame := { f with alts := Node.cats f.cur.reverse :: f.alts, cur := [] }

def repeatLast (g : Node → Node) : Option Frame :=
  match f.cur with
  | [] => none
  | n :: ns => some { f with cur := g n :: ns }

end Frame

namespace Token

variable (T : Tables) (f : Flags)

def atoms : Token → List Node
  | .beginLine => [beginNode f]
  | .endLine => [endNode f]
  | .dot => [dotNode f]
  | .assert a => [.assert a]
  | .lit r => [litNode T f r]
  | .quote rs _ => rs.map (litNode T f)
  | .cls items negated => [classNode T f items negated]
  | _ => []

def isRep : Token → Bool
  | .rep .. => true
  | _ => false

def change : Token → Flags
  | .flags changes => changes.foldl Flags.set f
  | _ => f

def edit (fr : Frame) : Token → Option Frame
  | .bar => some fr.bar
  | .rep min max lazy => fr.repeatLast (.rep min max (lazy == f.nonGreedy))
  | t => some (fr.push (t.atoms T f))

end Token

section Steps

variable (T : Tables)

def step (s : State) (t : Token) : Option State :=
  match t, s.stack with
  | _, [] => none
  | .openGroup, stack => some ⟨.fresh (some (s.caps + 1)) s.flags :: stack, s.flags, s.caps + 1, false⟩
  | .openPlain changes, stack =>
    some ⟨.fresh none s.flags :: stack, changes.foldl Flags.set s.flags, s.caps, false⟩
  | .closeGroup, f :: g :: fs => some ⟨g.push [f.node] :: fs, f.saved, s.caps, false⟩
  | .closeGroup, [_] => none
  | t, f :: fs =>
    if s.repeated && t.isRep then none
    else (t.edit T s.flags f).map fun f => ⟨f :: fs, t.change s.flags, s.caps, t.isRep⟩

def steps (s : State) (ts : List Token) : Option State := ts.foldlM (step T) s

def State.start (f : Flags) (caps : Nat) : State := ⟨[.fresh none f], f, caps, false⟩

end Steps

/-- An expression: its alternatives and the number of its groups. -/
structure Expr where
  branches : List Node
  caps : Nat

def parseFlags (T : Tables) (f : Flags) (ts : List Token) : Option (Expr × Flags) :=
  (steps T (.start f 0) ts).bind fun s =>
    match s.stack with
    | [frame] => some (⟨frame.branches, s.caps⟩, s.flags)
    | _ => none

def parseTokens (T : Tables) (f : Flags) (ts : List Token) : Option Expr := (parseFlags T f ts).map Prod.fst

def parseWith (T : Tables) (f : Flags) (p : Bytes) : Option Expr := (lex T p).bind (parseTokens T f)

def parse (T : Tables) (p : Bytes) : Option Expr := parseWith T .perl p

section Frames

variable {T : Tables}

theorem steps_append (s : State) (a b : List Token) : steps T s (a ++ b) = (steps T s a).bind (steps T · b) := by
  simp [steps, List.foldlM_append]

theorem steps_cons (s : State) (t : Token) (ts : List Token) :
    steps T s (t :: ts) = (step T s t).bind (steps T · ts) := rfl

def Frame.within (f : Frame) (cap : Option Nat) (saved : Flags) (alts : List Node) : Frame :=
  ⟨cap, saved, f.alts ++ alts, f.cur⟩

def inContext (ctx : Frame → Frame) (below : List Frame) : List Frame → List Frame
  | [] => below
  | [f] => ctx f :: below
  | f :: g :: fs => f :: inContext ctx below (g :: fs)

def State.inContext (s : State) (ctx : Frame → Frame) (below : List Frame) : State :=
  { s with stack := Regex.inContext ctx below s.stack }

inductive Step (T : Tables) : State → Token → State → Prop
  | openGroup (f : Frame) (fs : List Frame) (flags : Flags) (caps : Nat) (repeated : Bool) :
      Step T ⟨f :: fs, flags, caps, repeated⟩ .openGroup
        ⟨.fresh (some (caps + 1)) flags :: f :: fs, flags, caps + 1, false⟩
  | openPlain (f : Frame) (fs : List Frame) (flags : Flags) (caps : Nat) (repeated : Bool)
      (changes : List (Flag × Bool)) :
      Step T ⟨f :: fs, flags, caps, repeated⟩ (.openPlain changes)
        ⟨.fresh none flags :: f :: fs, changes.foldl Flags.set flags, caps, false⟩
  | closeGroup (f g : Frame) (fs : List Frame) (flags : Flags) (caps : Nat) (repeated : Bool) :
      Step T ⟨f :: g :: fs, flags, caps, repeated⟩ .closeGroup ⟨g.push [f.node] :: fs, f.saved, caps, false⟩
  | edit {f f' : Frame} {flags : Flags} {repeated : Bool} {t : Token} (fs : List Frame) (caps : Nat)
      (hgroup : t ≠ .openGroup ∧ (∀ changes, t ≠ .openPlain changes) ∧ t ≠ .closeGroup)
      (hrep : (repeated && t.isRep) = false) (hf : t.edit T flags f = some f') :
      Step T ⟨f :: fs, flags, caps, repeated⟩ t ⟨f' :: fs, t.change flags, caps, t.isRep⟩

theorem step_edit {f : Frame} {fs : List Frame} {flags : Flags} {caps : Nat} {repeated : Bool} {t : Token}
    (hgroup : t ≠ .openGroup ∧ (∀ changes, t ≠ .openPlain changes) ∧ t ≠ .closeGroup) :
    step T ⟨f :: fs, flags, caps, repeated⟩ t =
      if repeated && t.isRep then none
      else (t.edit T flags f).map fun f => ⟨f :: fs, t.change flags, caps, t.isRep⟩ := by
  cases t with
  | openGroup => exact absurd rfl hgroup.1
  | openPlain changes => exact absurd rfl (hgroup.2.1 changes)
  | closeGroup => exact absurd rfl hgroup.2.2
  | _ => rfl

theorem step_iff {s s' : State} {t : Token} : step T s t = some s' ↔ Step T s t s' := by
  constructor
  · intro h
    obtain ⟨stack, flags, caps, repeated⟩ := s
    cases stack with
    | nil => cases h
    | cons f fs =>
      by_cases hgroup : t ≠ .openGroup ∧ (∀ changes, t ≠ .openPlain changes) ∧ t ≠ .closeGroup
      · rw [step_edit hgroup] at h
        split at h
        · cases h
        · next hrep =>
          obtain ⟨f', hf, rfl⟩ := Option.map_eq_some_iff.mp h
          exact .edit fs caps hgroup (Bool.eq_false_iff.mpr hrep) hf
      · cases t with
        | openGroup =>
          cases h
          exact .openGroup ..
        | openPlain changes =>
          cases h
          exact .openPlain ..
        | closeGroup =>
          cases fs with
          | nil => cases h
          | cons g fs =>
            cases h
            exact .closeGroup ..
        | _ => exact absurd ⟨nofun, nofun, nofun⟩ hgroup
  intro h
  cases h with
  | openGroup => rfl
  | openPlain => rfl
  | closeGroup => rfl
  | edit fs caps hgroup hrep hf =>
    rw [step_edit hgroup, hrep, hf]
    rfl

end Frames

section Contexts

variable {T : Tables} {cap : Option Nat} {saved : Flags} {alts : List Node} {below : List Frame}
  {s s' : State} {t : Token}

theorem edit_within (flags : Flags) (f : Frame) (t : Token) :
    t.edit T flags (f.within cap saved alts) = (t.edit T flags f).map (·.within cap saved alts) := by
  cases t with
  | rep min max lazy =>
    rw [Token.edit, Token.edit, Frame.repeatLast, Frame.repeatLast, Frame.within]
    cases f.cur <;> rfl
  | _ => rfl

theorem Step.inContext (h : Step T s t s') :
    Step T (s.inContext (·.within cap saved alts) below) t (s'.inContext (·.within cap saved alts) below) := by
  cases h with
  | openGroup f fs =>
    cases fs with
    | nil | cons g fs => exact .openGroup ..
  | openPlain f fs =>
    cases fs with
    | nil | cons g fs => exact .openPlain ..
  | closeGroup f g fs =>
    cases fs with
    | nil | cons h fs => exact .closeGroup ..
  | edit fs caps hgroup hrep hf =>
    cases fs with
    | nil =>
      refine .edit below caps hgroup hrep ?_
      simp [edit_within, hf]
    | cons g fs => exact .edit _ caps hgroup hrep hf

theorem steps_inContext {ts : List Token} (h : steps T s ts = some s') :
    steps T (s.inContext (·.within cap saved alts) below) ts =
      some (s'.inContext (·.within cap saved alts) below) := by
  induction ts generalizing s with
  | nil =>
    cases h
    rfl
  | cons t ts ih =>
    rw [steps_cons] at h ⊢
    obtain ⟨u, hu, h⟩ := Option.bind_eq_some_iff.mp h
    rw [step_iff.mpr (step_iff.mp hu).inContext]
    exact ih h

end Contexts

section Shifts

def Node.shift (k : Nat) : Node → Node
  | .fail => .fail
  | .empty => .empty
  | .rune ok => .rune ok
  | .assert a => .assert a
  | .cat a b => .cat (a.shift k) (b.shift k)
  | .alt a b => .alt (a.shift k) (b.shift k)
  | .group i a => .group (i + k) (a.shift k)
  | .rep min max greedy a => .rep min max greedy (a.shift k)

def Frame.shift (k : Nat) (f : Frame) : Frame :=
  ⟨f.cap.map (· + k), f.saved, f.alts.map (Node.shift k), f.cur.map (Node.shift k)⟩

def State.shift (k : Nat) (s : State) : State := { s with stack := s.stack.map (Frame.shift k), caps := s.caps + k }

variable {T : Tables} {s s' : State} {t : Token} (k : Nat)

theorem shift_cats (ns : List Node) : (Node.cats ns).shift k = Node.cats (ns.map (Node.shift k)) := by
  induction ns with
  | nil => rfl
  | cons n ns ih => rw [Node.cats, Node.shift, ih, List.map_cons, Node.cats]

theorem shift_alts (ns : List Node) : (Node.alts ns).shift k = Node.alts (ns.map (Node.shift k)) := by
  induction ns with
  | nil => rfl
  | cons n ns ih => rw [Node.alts, Node.shift, ih, List.map_cons, Node.alts]

theorem branches_shift (f : Frame) : (f.shift k).branches = f.branches.map (Node.shift k) := by
  simp [Frame.branches, Frame.shift, shift_cats, ← List.map_reverse]

theorem node_shift (f : Frame) : (f.shift k).node = f.node.shift k := by
  grind [Frame.body, branches_shift, shift_alts, Frame.node, Frame.shift, Node.shift]

theorem push_shift (f : Frame) (ns : List Node) :
    (f.shift k).push (ns.map (Node.shift k)) = (f.push ns).shift k := by
  simp [Frame.push, Frame.shift]

theorem atoms_shift (flags : Flags) (t : Token) : (t.atoms T flags).map (Node.shift k) = t.atoms T flags := by
  cases t with
  | quote rs closed =>
    rw [Token.atoms, List.map_map]
    rfl
  | _ => rfl

theorem edit_shift (flags : Flags) (f : Frame) (t : Token) :
    t.edit T flags (f.shift k) = (t.edit T flags f).map (Frame.shift k) := by
  have hpush : ∀ t : Token, some ((f.shift k).push (t.atoms T flags)) =
      (some (f.push (t.atoms T flags))).map (Frame.shift k) := by
    intro t
    simp [← push_shift, atoms_shift]
  cases t with
  | bar =>
    simp [Token.edit, Frame.bar, Frame.shift, shift_cats, ← List.map_reverse]
  | rep min max lazy =>
    grind [Token.edit, Frame.repeatLast, Frame.shift, Node.shift]
  | _ => exact hpush _

theorem Step.shift (h : Step T s t s') : Step T (s.shift k) t (s'.shift k) := by
  cases h with
  | openGroup f fs flags caps repeated =>
    have hstep := Step.openGroup (T := T) (f.shift k) (fs.map (Frame.shift k)) flags (caps + k) repeated
    rw [Nat.add_right_comm] at hstep
    exact hstep
  | openPlain => exact .openPlain ..
  | closeGroup f g fs flags caps repeated =>
    have hstep := Step.closeGroup (T := T) (f.shift k) (g.shift k) (fs.map (Frame.shift k)) flags (caps + k) repeated
    rw [node_shift] at hstep
    have hpush := push_shift k g [f.node]
    rw [List.map_singleton] at hpush
    rw [hpush] at hstep
    exact hstep
  | edit fs caps hgroup hrep hf =>
    refine .edit (fs.map (Frame.shift k)) (caps + k) hgroup hrep ?_
    simp [edit_shift, hf]

theorem steps_shift {ts : List Token} (h : steps T s ts = some s') : steps T (s.shift k) ts = some (s'.shift k) := by
  induction ts generalizing s with
  | nil =>
    cases h
    rfl
  | cons t ts ih =>
    rw [steps_cons] at h ⊢
    obtain ⟨u, hu, h⟩ := Option.bind_eq_some_iff.mp h
    rw [step_iff.mpr ((step_iff.mp hu).shift k)]
    exact ih h

end Shifts

section Shapes

def State.shape (s : State) : List Bool × Bool := (s.stack.map (·.cur.isEmpty), s.repeated)

variable {T : Tables} {s s' u : State} {t : Token}

theorem edit_shape {flags : Flags} (flags' : Flags) {f f' g : Frame} (hf : t.edit T flags f = some f')
    (hg : g.cur.isEmpty = f.cur.isEmpty) :
    ∃ g', t.edit T flags' g = some g' ∧ g'.cur.isEmpty = f'.cur.isEmpty := by
  have hpush : ∀ t : Token, some (f.push (t.atoms T flags)) = some f' →
      ∃ g', some (g.push (t.atoms T flags')) = some g' ∧ g'.cur.isEmpty = f'.cur.isEmpty := by
    intro t hf
    cases hf
    have hatoms : (t.atoms T flags').isEmpty = (t.atoms T flags).isEmpty := by
      cases t with
      | quote rs closed => simp [Token.atoms]
      | _ => rfl
    have happend : ∀ a b : List Node, (a.reverse ++ b).isEmpty = (a.isEmpty && b.isEmpty) := by
      intro a b
      cases a <;> cases b <;> simp
    refine ⟨_, rfl, ?_⟩
    simp [Frame.push, happend, hatoms, hg]
  cases t with
  | bar =>
    cases hf
    exact ⟨_, rfl, rfl⟩
  | rep min max lazy =>
    grind [Token.edit, Frame.repeatLast]
  | _ => exact hpush _ hf

theorem Step.shape (h : Step T s t s') (hu : u.shape = s.shape) :
    ∃ u', Step T u t u' ∧ u'.shape = s'.shape := by
  obtain ⟨stack, flags, caps, repeated⟩ := u
  cases h with
  | openGroup f fs =>
    cases stack with
    | nil => cases hu
    | cons g gs =>
      simp only [State.shape, List.map_cons, Prod.mk.injEq] at hu
      refine ⟨_, .openGroup .., ?_⟩
      simp only [State.shape, List.map_cons, hu.1]
      rfl
  | openPlain f fs =>
    cases stack with
    | nil => cases hu
    | cons g gs =>
      simp only [State.shape, List.map_cons, Prod.mk.injEq] at hu
      refine ⟨_, .openPlain .., ?_⟩
      simp only [State.shape, List.map_cons, hu.1]
      rfl
  | closeGroup f f₂ fs =>
    cases stack with
    | nil => cases hu
    | cons g gs =>
      cases gs with
      | nil => simp [State.shape] at hu
      | cons g₂ gs =>
        simp only [State.shape, List.map_cons, Prod.mk.injEq, List.cons.injEq] at hu
        refine ⟨_, .closeGroup .., ?_⟩
        simp [State.shape, Frame.push, hu.1.2.2]
  | edit fs caps hgroup hrep hf =>
    cases stack with
    | nil => cases hu
    | cons g gs =>
      simp only [State.shape, List.map_cons, Prod.mk.injEq, List.cons.injEq] at hu
      obtain ⟨g', hg', hempty⟩ := edit_shape flags hf hu.1.1
      refine ⟨_, .edit gs _ hgroup (by rw [hu.2, hrep]) hg', ?_⟩
      simp [State.shape, hempty, hu.1.2]

theorem steps_shape {ts : List Token} (h : steps T s ts = some s') (hu : u.shape = s.shape) :
    ∃ u', steps T u ts = some u' ∧ u'.shape = s'.shape := by
  induction ts generalizing s u with
  | nil =>
    cases h
    exact ⟨u, rfl, hu⟩
  | cons t ts ih =>
    rw [steps_cons] at h
    obtain ⟨v, hv, h⟩ := Option.bind_eq_some_iff.mp h
    obtain ⟨w, hw, hshape⟩ := (step_iff.mp hv).shape hu
    obtain ⟨u', hu', hshape'⟩ := ih h hshape
    refine ⟨u', ?_, hshape'⟩
    rw [steps_cons, step_iff.mpr hw]
    exact hu'

end Shapes

end PiiShield.Regex
