import PiiShield.Regex.Parser

/-! Leftmost-first matching as the backtracker of `regexp` does it: alternatives are tried in the order of
preference, and no branching point twice at one place of the text. -/

namespace PiiShield.Regex

/-- A place in a text: the bytes before it, the rune before it and the runes behind it. -/
structure Pos where
  off : Nat
  prev : Option Nat
  rest : List (Nat × Nat)

abbrev Caps := Nat → Option (Nat × Nat)

def Caps.none : Caps := fun _ => .none

def Caps.set (c : Caps) (i : Nat) (v : Nat × Nat) : Caps := fun j => if j = i then some v else c j

/-- The branching points that were reached, each named by its way from the root of the expression, with
the places where they were. -/
abbrev Visited := List Nat → Nat → Bool

def Visited.none : Visited := fun _ _ => false

def Visited.mark (v : Visited) (α : List Nat) (off : Nat) : Visited := fun β q => decide (β = α ∧ q = off) || v β q

/-- What is still to be matched: it finds the end and the groups of a match, or nothing. -/
abbrev Cont := Pos → Caps → Visited → Option (Pos × Caps) × Visited

section Matchers

def Pos.next (p : Pos) : Option (Nat × Pos) :=
  match p.rest with
  | [] => none
  | (r, w) :: rest => some (r, ⟨p.off + w, some r, rest⟩)

def Pos.wordSides (p : Pos) : Bool × Bool := (p.prev.any isWordRune, p.next.any fun n => isWordRune n.1)

def Assertion.holds (p : Pos) : Assertion → Bool
  | .beginText => p.prev.isNone
  | .beginLine => p.prev.all (· == 0x0A)
  | .endText => p.rest.isEmpty
  | .endLine => p.next.all (·.1 == 0x0A)
  | .wordBoundary => p.wordSides.1 != p.wordSides.2
  | .noWordBoundary => p.wordSides.1 == p.wordSides.2

namespace Cont

def fail : Cont := fun _ _ v => (none, v)

def done : Cont := fun p c v => (some (p, c), v)

/-- Tries the first way and behind it the second one, unless it has been here before. -/
def fork (α : List Nat) (first second : Cont) : Cont := fun p c v =>
  if v α p.off then (none, v)
  else
    match first p c (v.mark α p.off) with
    | (some r, v) => (some r, v)
    | (none, v) => second p c v

def choose (α : List Nat) (greedy : Bool) (more stop : Cont) : Cont :=
  if greedy then fork α more stop else fork α stop more

end Cont

abbrev Matcher := Cont → Cont

namespace Matcher

variable (m : Nat → Matcher) (point : Nat → List Nat) (greedy : Bool)

/-- Copies of an expression behind each other. -/
def times (k : Cont) : Nat → Cont
  | 0 => k
  | n + 1 => times (m n k) n

/-- Copies from the `i`th on, each of which may be left out with those behind it. -/
def atMost (k : Cont) (i : Nat) : Nat → Cont
  | 0 => k
  | n + 1 => .choose (point i) greedy (m i (atMost k (i + 1) n)) k

def again (m : Matcher) (α : List Nat) (k : Cont) : Nat → Cont
  | 0 => .fail
  | fuel + 1 => m (.choose α greedy (again m α k fuel) k)

/-- The branching point behind the body is passed at most once at each place that is left, so that the
fuel is enough. -/
def onceOrMore (m : Matcher) (α : List Nat) (k : Cont) : Cont := fun p => again greedy m α k (p.rest.length + 2) p

def between (min : Nat) (max : Option Nat) : Matcher := fun k =>
  match max, min with
  | some max, min => times m (atMost m point greedy k min (max - min)) min
  | none, 0 => .choose (point 1) greedy (onceOrMore greedy (m 0) (point 0) k) k
  | none, n + 1 => times m (onceOrMore greedy (m n) (point 0) k) n

end Matcher

def Node.run : Node → List Nat → Matcher
  | .fail, _ => fun _ => .fail
  | .empty, _ => id
  | .rune ok, _ => fun k p c v =>
    match p.next with
    | some (r, q) => if ok r then k q c v else (none, v)
    | none => (none, v)
  | .assert a, _ => fun k p c v => if a.holds p then k p c v else (none, v)
  | .cat a b, α => fun k => a.run (0 :: α) (b.run (1 :: α) k)
  | .alt a b, α => fun k => .fork α (a.run (0 :: α) k) (b.run (1 :: α) k)
  | .group i a, α => fun k p => a.run α (fun q c => k q (c.set i (p.off, q.off))) p
  | .rep min max greedy a, α => .between (fun i => a.run (i :: 0 :: α)) (fun i => i :: 1 :: α) greedy min max

end Matchers

def positionsFrom (off : Nat) (prev : Option Nat) : List (Nat × Nat) → List Pos
  | [] => [⟨off, prev, []⟩]
  | (r, w) :: rest => ⟨off, prev, (r, w) :: rest⟩ :: positionsFrom (off + w) (some r) rest

def positions (s : Bytes) : List Pos := positionsFrom 0 none (runesFrom 0 s)

def found (p : Pos) (r : Pos × Caps) : Nat × Nat × Caps := (p.off, r.1.off, r.2)

/-- What was reached from one start is not tried again from the next. -/
def search (k : Cont) : List Pos → Visited → Option (Nat × Nat × Caps)
  | [], _ => none
  | p :: ps, v =>
    match k p .none v with
    | (some r, _) => some (found p r)
    | (none, v) => search k ps v

def Node.find (n : Node) (s : Bytes) : Option (Nat × Nat × Caps) := search (n.run [] .done) (positions s) .none

namespace Expr

def node (e : Expr) : Node := .alts e.branches

def find (e : Expr) (s : Bytes) : Option (Nat × Nat × Caps) := e.node.find s

def matchString (e : Expr) (s : Bytes) : Bool := (e.find s).isSome

def ends : Option (Nat × Nat) → List Int
  | some (a, b) => [a, b]
  | none => [-1, -1]

def findStringSubmatchIndex (e : Expr) (s : Bytes) : Option (List Int) :=
  (e.find s).map fun (a, b, c) => ends (some (a, b)) ++ (List.range e.caps).flatMap fun i => ends (c (i + 1))

end Expr

section Mirrors

def Caps.graft (g : Nat) (c : Caps) : Caps := fun j => if j < g then .none else c (j - g)

theorem Caps.graft_none (g : Nat) : Caps.none.graft g = Caps.none := by
  funext j
  simp [Caps.graft, Caps.none]

theorem Caps.graft_set (g : Nat) (c : Caps) (i : Nat) (v : Nat × Nat) :
    (c.set i v).graft g = (c.graft g).set (i + g) v := by
  funext j
  by_cases hj : j < g
  · simp [Caps.graft, Caps.set, hj, show j ≠ i + g by omega]
  have hiff : j - g = i ↔ j = i + g := by omega
  simp [Caps.graft, Caps.set, hj, hiff]

/-- Below `δ` the points are those of `V`, elsewhere those of `U`. -/
structure Mirror (δ : List Nat) (U V W : Visited) : Prop where
  inside : ∀ α q, W (α ++ δ) q = V α q
  outside : ∀ β q, ¬δ <:+ β → W β q = U β q

variable {δ : List Nat} {U V W : Visited}

theorem Mirror.mark (h : Mirror δ U V W) (α : List Nat) (q : Nat) : Mirror δ U (V.mark α q) (W.mark (α ++ δ) q) where
  inside β r := by simp [Visited.mark, h.inside]
  outside β r hβ := by
    have hne : β ≠ α ++ δ := by
      rintro rfl
      exact hβ (List.suffix_append α δ)
    simp [Visited.mark, hne, h.outside β r hβ]

/-- The first does below `δ`, with groups numbered behind `g`, what the second does, and changes its
matches by `f`. -/
def Mirrors (δ : List Nat) (U : Visited) (g : Nat) (f : Pos × Caps → Pos × Caps) (k' k : Cont) : Prop :=
  ∀ p c V W, Mirror δ U V W →
    (k' p (c.graft g) W).1 = (k p c V).1.map f ∧ Mirror δ U (k p c V).2 (k' p (c.graft g) W).2

variable {g : Nat} {f : Pos × Caps → Pos × Caps} {k k' l l' : Cont}

theorem Mirrors.fail : Mirrors δ U g f .fail .fail := fun _ _ _ _ h => ⟨rfl, h⟩

theorem Mirrors.fork (hk : Mirrors δ U g f k' k) (hl : Mirrors δ U g f l' l) (α : List Nat) :
    Mirrors δ U g f (.fork (α ++ δ) k' l') (.fork α k l) := by
  intro p c V W h
  simp only [Cont.fork, h.inside]
  split
  · exact ⟨rfl, h⟩
  obtain ⟨hsame, hmirror⟩ := hk p c _ _ (h.mark α p.off)
  cases hr : k p c (V.mark α p.off) with
  | mk r V' =>
    cases hr' : k' p (c.graft g) (W.mark (α ++ δ) p.off) with
    | mk r' W' =>
      rw [hr, hr'] at hsame hmirror
      cases r with
      | none =>
        cases hsame
        exact hl p c V' W' hmirror
      | some x =>
        cases hsame
        exact ⟨rfl, hmirror⟩

theorem Mirrors.choose (hk : Mirrors δ U g f k' k) (hl : Mirrors δ U g f l' l) (α : List Nat) (greedy : Bool) :
    Mirrors δ U g f (.choose (α ++ δ) greedy k' l') (.choose α greedy k l) := by
  cases greedy
  · exact hl.fork hk α
  · exact hk.fork hl α

/-- A matcher keeps the relation between what is behind it. -/
def Carries (δ : List Nat) (U : Visited) (g : Nat) (f : Pos × Caps → Pos × Caps) (m' m : Matcher) : Prop :=
  ∀ k' k, Mirrors δ U g f k' k → Mirrors δ U g f (m' k') (m k)

section Repeats

variable {m m' : Nat → Matcher} (hm : ∀ i, Carries δ U g f (m' i) (m i))

include hm

theorem Mirrors.times (h : Mirrors δ U g f k' k) (n : Nat) :
    Mirrors δ U g f (Matcher.times m' k' n) (Matcher.times m k n) := by
  induction n generalizing k k' with
  | zero => exact h
  | succ n ih => exact ih (hm n _ _ h)

theorem Mirrors.atMost (h : Mirrors δ U g f k' k) (greedy : Bool) (point : Nat → List Nat) (i n : Nat) :
    Mirrors δ U g f (Matcher.atMost m' (point · ++ δ) greedy k' i n) (Matcher.atMost m point greedy k i n) := by
  induction n generalizing i with
  | zero => exact h
  | succ n ih => exact .choose (hm i _ _ (ih (i + 1))) h (point i) greedy

theorem Mirrors.onceOrMore (h : Mirrors δ U g f k' k) (greedy : Bool) (α : List Nat) (i : Nat) :
    Mirrors δ U g f (Matcher.onceOrMore greedy (m' i) (α ++ δ) k') (Matcher.onceOrMore greedy (m i) α k) := by
  have hagain : ∀ fuel, Mirrors δ U g f (Matcher.again greedy (m' i) (α ++ δ) k' fuel)
      (Matcher.again greedy (m i) α k fuel) := by
    intro fuel
    induction fuel with
    | zero => exact .fail
    | succ fuel ih => exact hm i _ _ (ih.choose h α greedy)
  exact fun p => hagain (p.rest.length + 2) p

theorem carries_between (greedy : Bool) (point : Nat → List Nat) (min : Nat) (max : Option Nat) :
    Carries δ U g f (Matcher.between m' (point · ++ δ) greedy min max) (Matcher.between m point greedy min max) := by
  intro k' k h
  cases max with
  | some max => exact .times hm (.atMost hm h greedy point min (max - min)) min
  | none =>
    cases min with
    | zero => exact .choose (.onceOrMore hm h greedy (point 0) 0) h (point 1) greedy
    | succ n => exact .times hm (.onceOrMore hm h greedy (point 0) n) n

end Repeats

theorem run_shift (n : Node) (α : List Nat) : Carries δ U g f ((n.shift g).run (α ++ δ)) (n.run α) := by
  induction n generalizing α with
  | fail => exact fun _ _ _ => .fail
  | empty => exact fun _ _ h => h
  | rune ok =>
    intro k' k h p c V W hmirror
    simp only [Node.shift, Node.run]
    split
    · split
      · exact h _ c V W hmirror
      · exact ⟨rfl, hmirror⟩
    · exact ⟨rfl, hmirror⟩
  | assert a =>
    intro k' k h p c V W hmirror
    simp only [Node.shift, Node.run]
    split
    · exact h p c V W hmirror
    · exact ⟨rfl, hmirror⟩
  | cat a b iha ihb => exact fun k' k h => iha (0 :: α) _ _ (ihb (1 :: α) k' k h)
  | alt a b iha ihb => exact fun k' k h => (iha (0 :: α) k' k h).fork (ihb (1 :: α) k' k h) α
  | group i a ih =>
    intro k' k h p
    refine ih α _ _ (fun q c V W hmirror => ?_) p
    rw [← Caps.graft_set]
    exact h q _ V W hmirror
  | rep min max greedy a ih => exact carries_between (fun i => ih (i :: 0 :: α)) greedy (fun i => i :: 1 :: α) min max

end Mirrors

end PiiShield.Regex
