import Mathlib.Algebra.GroupWithZero.Nat
import PiiShield.Regex.Lexing
import PiiShield.Regex.Matching

/-! Expressions that are joined by bars, each in a group of its own or all in one: they match where one
of them does, and the groups of the match are those of the leading one. -/

namespace PiiShield.Regex

variable {e : Expr} {ps : List Bytes}

section Entries

variable {T : Tables} {f : Flags} {ts : List Token}

theorem parseFlags_isSome (f g : Flags) (ts : List Token) :
    (parseFlags T f ts).isSome = true → (parseFlags T g ts).isSome = true := by
  intro h
  obtain ⟨x, h⟩ := Option.isSome_iff_exists.mp h
  rw [parseFlags] at h
  obtain ⟨s, hs, h⟩ := Option.bind_eq_some_iff.mp h
  obtain ⟨u, hu, hshape⟩ := steps_shape (u := .start g 0) hs rfl
  rw [parseFlags, hu, Option.bind_some]
  split at h
  · next frame hstack =>
    have hlength : u.stack.length = 1 := by
      have hmap := congrArg (fun p => p.1.length) hshape
      simpa [State.shape, hstack] using hmap
    obtain ⟨frame', hframe⟩ := List.length_eq_one_iff.mp hlength
    rw [hframe]
    rfl
  · cases h

theorem steps_entry {g : Flags} (h : parseFlags T f ts = some (e, g)) (cap : Option Nat)
    (saved : Flags) (alts : List Node) (below : List Frame) (k : Nat) :
    ∃ frame repeated, frame.branches = alts.reverse ++ e.branches.map (Node.shift k) ∧ frame.cap = cap ∧
      frame.saved = saved ∧
      steps T ⟨⟨cap, saved, alts, []⟩ :: below, f, k, false⟩ ts =
        some ⟨frame :: below, g, e.caps + k, repeated⟩ := by
  rw [parseFlags] at h
  obtain ⟨⟨stack, flags, caps, repeated⟩, hs, h⟩ := Option.bind_eq_some_iff.mp h
  split at h
  · next frame hstack =>
    cases h
    cases hstack
    have hinside : steps T (((State.start f 0).shift k).inContext (·.within cap saved alts) below) ts = some _ :=
      steps_inContext (steps_shift k hs)
    have hstart : ((State.start f 0).shift k).inContext (·.within cap saved alts) below =
        ⟨⟨cap, saved, alts, []⟩ :: below, f, k, false⟩ := by
      simp [State.start, State.shift, State.inContext, inContext, Frame.shift, Frame.fresh, Frame.within]
    rw [hstart] at hinside
    refine ⟨(frame.shift k).within cap saved alts, repeated, ?_, rfl, rfl, hinside⟩
    rw [← branches_shift]
    simp [Frame.branches, Frame.within]
  · cases h

end Entries

section Texts

variable {T : Tables} {p q : Bytes} {ts us : List Token}

def EndsText (q : Bytes) : Prop := ∀ c ∈ q.head?, c = chr ')' ∨ c = chr '|'

theorem endsText_bar (q : Bytes) : EndsText (chr '|' :: q) := by
  intro c hc
  cases hc
  exact .inr rfl

theorem endsText_close (q : Bytes) : EndsText (chr ')' :: q) := by
  intro c hc
  cases hc
  exact .inl rfl

theorem charsOf_head {f : Flags} (hp : lex T p = some ts) (hts : (parseFlags T f ts).isSome = true)
    (hq : EndsText q) : ∀ cs, charsOf (p ++ q) = some cs → cs.head? ≠ some '?' := by
  intro cs hcs hhead
  rw [lex] at hp
  obtain ⟨ps, hps, hp⟩ := Option.bind_eq_some_iff.mp hp
  have hvalid : utf8Valid p = true := by simp_all [charsOf]
  have hchars : (runes p).map Char.ofNat = ps := by
    rw [charsOf, if_pos hvalid] at hps
    exact Option.some.inj hps
  rw [charsOf_append hvalid, hchars] at hcs
  obtain ⟨qs, hqs, rfl⟩ := Option.map_eq_some_iff.mp hcs
  cases ps with
  | nil =>
    cases q with
    | nil =>
      cases hqs
      cases hhead
    | cons c q =>
      have hc : c < 0x80 := by rcases hq c rfl with rfl | rfl <;> decide
      rw [charsOf_cons hc] at hqs
      obtain ⟨rs, -, rfl⟩ := Option.map_eq_some_iff.mp hqs
      have hhead := Option.some.inj hhead
      rcases hq c rfl with rfl | rfl
      · exact absurd hhead (by decide)
      exact absurd hhead (by decide)
  | cons c ps =>
    cases hhead
    rw [lexFrom] at hp
    obtain ⟨⟨tok, n⟩, htok, hp⟩ := Option.bind_eq_some_iff.mp hp
    obtain ⟨rest, -, rfl⟩ := Option.map_eq_some_iff.mp hp
    change lexLazy 0 (some 1) ps = _ at htok
    obtain ⟨lazy, r, -, htok⟩ := bind_eq_some htok
    cases htok
    cases hts

end Texts

section Rules

variable {T : Tables}

theorem parse_iff {p : Bytes} :
    parse T p = some e ↔ ∃ ts, lex T p = some ts ∧ parseTokens T .perl ts = some e := Option.bind_eq_some_iff

end Rules

section Search

def earlier {α : Type} (start : α → Nat) : Option α → Option α → Option α
  | some a, some b => if start b < start a then some b else some a
  | some a, none => some a
  | none, b => b

theorem positionsFrom_sorted {off : Nat} {prev : Option Nat} {ds : List (Nat × Nat)} (hw : ∀ d ∈ ds, 1 ≤ d.2) :
    (positionsFrom off prev ds).Pairwise (·.off < ·.off) ∧ ∀ p ∈ positionsFrom off prev ds, off ≤ p.off := by
  induction ds generalizing off prev with
  | nil => simp [positionsFrom]
  | cons d ds ih =>
    obtain ⟨r, w⟩ := d
    obtain ⟨hsorted, hle⟩ : (positionsFrom (off + w) (some r) ds).Pairwise (·.off < ·.off) ∧
        ∀ p ∈ positionsFrom (off + w) (some r) ds, off + w ≤ p.off := ih fun d hd => hw d (List.mem_cons_of_mem _ hd)
    have hpos : 1 ≤ w := hw (r, w) List.mem_cons_self
    rw [positionsFrom]
    refine ⟨List.pairwise_cons.mpr ⟨fun p hp => ?_, hsorted⟩, fun p hp => ?_⟩
    · have := hle p hp
      show off < p.off
      omega
    grind

theorem runesFrom_width (s : Bytes) (k : Nat) : ∀ d ∈ runesFrom k s, 1 ≤ d.2 := by
  induction s generalizing k with
  | nil =>
    cases k <;> exact fun d hd => nomatch hd
  | cons b t ih =>
    cases k with
    | zero =>
      grind [runesFrom, decodeRune_width_pos]
    | succ k => exact ih k

variable {δ : List Nat} {U V W : Visited} {k k' l : Cont}

theorem search_start {ps : List Pos} {x : Nat × Nat × Caps} (h : search k ps V = some x) : ∃ p ∈ ps, x.1 = p.off := by
  induction ps generalizing V with
  | nil => cases h
  | cons p ps ih =>
    rw [search] at h
    split at h
    · cases h
      exact ⟨p, List.mem_cons_self, rfl⟩
    · obtain ⟨q, hq, hx⟩ := ih h
      exact ⟨q, List.mem_cons_of_mem p hq, hx⟩

/-- A search below `δ` finds what the other finds, changed by `f`. -/
theorem search_mirrors {f : Nat × Nat × Caps → Nat × Nat × Caps}
    (h : ∀ p V W, Mirror δ U V W → (k' p .none W).1.map (found p) = ((k p .none V).1.map (found p)).map f ∧
      Mirror δ U (k p .none V).2 (k' p .none W).2)
    (hm : Mirror δ U V W) (ps : List Pos) : search k' ps W = (search k ps V).map f := by
  induction ps generalizing V W with
  | nil => rfl
  | cons p ps ih =>
    obtain ⟨hsame, hmirror⟩ := h p V W hm
    rw [search, search]
    cases hr : k p .none V with
    | mk r V' =>
      cases hr' : k' p .none W with
      | mk r' W' =>
        rw [hr, hr'] at hsame hmirror
        cases r with
        | none =>
          cases r' with
          | none => exact ih hmirror
          | some x => cases hsame
        | some x =>
          cases r' with
          | none => cases hsame
          | some x' => exact hsame

theorem mirror_none (δ : List Nat) : Mirror δ .none .none .none := ⟨fun _ _ => rfl, fun _ _ _ => rfl⟩

def inGroup (i g : Nat) (m : Nat × Nat × Caps) : Nat × Nat × Caps :=
  (m.1, m.2.1, (m.2.2.graft g).set i (m.1, m.2.1))

theorem find_group (i g : Nat) (n : Node) (s : Bytes) :
    (Node.cats [.group i (n.shift g)]).find s = (n.find s).map (inGroup i g) := by
  refine search_mirrors (δ := [0]) (fun p V W h => ?_) (mirror_none [0]) _
  have hdone : Mirrors [0] .none g (fun r => (r.1, (r.2.graft g).set i (p.off, r.1.off)))
      (fun q c => Cont.done q (c.set i (p.off, q.off))) .done := fun _ _ _ _ h => ⟨rfl, h⟩
  obtain ⟨hsame, hmirror⟩ := run_shift n [] _ _ hdone p .none V W h
  rw [Caps.graft_none] at hsame hmirror
  refine ⟨?_, hmirror⟩
  change ((n.shift g).run [0] (fun q c => Cont.done q (c.set i (p.off, q.off))) p .none W).1.map (found p) = _
  rw [List.nil_append] at hsame
  rw [hsame, Option.map_map, Option.map_map]
  rfl

theorem find_shift (g : Nat) (n : Node) (s : Bytes) :
    (n.shift g).find s = (n.find s).map fun m => (m.1, m.2.1, m.2.2.graft g) := by
  refine search_mirrors (δ := []) (fun p V W h => ?_) (mirror_none []) _
  have hdone : Mirrors [] .none g (fun r => (r.1, r.2.graft g)) .done .done := fun _ _ _ _ h => ⟨rfl, h⟩
  obtain ⟨hsame, hmirror⟩ := run_shift n [] _ _ hdone p .none V W h
  rw [Caps.graft_none, List.append_nil] at hsame hmirror
  rw [hsame, Option.map_map, Option.map_map]
  exact ⟨rfl, hmirror⟩

theorem shift_zero (n : Node) : n.shift 0 = n := by
  induction n <;> simp_all [Node.shift]

theorem run_below (n : Node) {δ : List Nat} (h : ∀ α q, W (α ++ δ) q = V α q) (p : Pos) :
    (n.run δ .done p .none W).1 = (n.run [] .done p .none V).1 ∧
      Mirror δ W (n.run [] .done p .none V).2 (n.run δ .done p .none W).2 := by
  have hdone : Mirrors δ W 0 id .done .done := fun _ c _ _ h => ⟨rfl, h⟩
  have hrun := run_shift n [] _ _ hdone p .none V W ⟨h, fun _ _ _ => rfl⟩
  rw [shift_zero, Caps.graft_none, Option.map_id] at hrun
  exact hrun

theorem not_suffix {i j : Nat} (h : i ≠ j) (α : List Nat) : ¬[i] <:+ α ++ [j] := by
  rintro ⟨t, ht⟩
  have hlast := congrArg List.getLast? ht
  simp only [List.getLast?_append, List.getLast?_singleton, Option.some_or, Option.some.injEq] at hlast
  exact h hlast

theorem earlier_of_le {α : Type} {start : α → Nat} {x : α} {b : Option α} (h : ∀ y ∈ b, start x ≤ start y) :
    earlier start (some x) b = some x := by
  cases b with
  | none => rfl
  | some y => exact if_neg (Nat.not_lt.mpr (h y rfl))

theorem earlier_of_lt {α : Type} {start : α → Nat} {a : Option α} {y : α} (h : ∀ x ∈ a, start y < start x) :
    earlier start a (some y) = some y := by
  cases a with
  | none => rfl
  | some x => exact if_pos (h x rfl)

theorem search_fork (a b : Node) {ps : List Pos} (hps : ps.Pairwise (·.off < ·.off)) {V V' W : Visited}
    (hV : ∀ α q, W (α ++ [0]) q = V α q) (hV' : ∀ α q, W (α ++ [1]) q = V' α q)
    (hW : ∀ p ∈ ps, W [] p.off = false) :
    search ((Node.alt a b).run [] .done) ps W =
      earlier (·.1) (search (a.run [] .done) ps V) (search (b.run [] .done) ps V') := by
  induction ps generalizing V V' W with
  | nil => rfl
  | cons p ps ih =>
    obtain ⟨hlt, hsorted⟩ := List.pairwise_cons.mp hps
    have hmark : ∀ i α q, W.mark [] p.off (α ++ [i]) q = W (α ++ [i]) q := by simp [Visited.mark]
    obtain ⟨ha, hma⟩ := run_below a (V := V) (fun α q => (hmark 0 α q).trans (hV α q)) p
    have hlater : ∀ (k : Cont) V x, search k ps V = some x → p.off < x.1 := by
      intro k V x hx
      obtain ⟨q, hq, hx⟩ := search_start hx
      rw [hx]
      exact hlt q hq
    rw [search, search]
    rcases hx : a.run [0] .done p .none (W.mark [] p.off) with ⟨r, W₁⟩
    rcases hy : a.run [] .done p .none V with ⟨r', V₁⟩
    rw [hx, hy] at ha hma
    obtain rfl : r = r' := ha
    cases r with
    | some r =>
      have hfork : (Node.alt a b).run [] .done p .none W = (some r, W₁) := by
        simp [Node.run, Cont.fork, hW p List.mem_cons_self, hx]
      rw [hfork]
      refine (earlier_of_le fun y hy => ?_).symm
      obtain ⟨q, hq, hstart⟩ := search_start hy
      rcases List.mem_cons.mp hq with rfl | hq
      · exact Nat.le_of_eq hstart.symm
      · rw [hstart]
        exact Nat.le_of_lt (hlt q hq)
    | none =>
      have hfork : (Node.alt a b).run [] .done p .none W = b.run [1] .done p .none W₁ := by
        simp [Node.run, Cont.fork, hW p List.mem_cons_self, hx]
      have hV₁ : ∀ α q, W₁ (α ++ [1]) q = V' α q := by
        intro α q
        exact (hma.outside _ q (not_suffix (by decide) α)).trans ((hmark 1 α q).trans (hV' α q))
      obtain ⟨hb, hmb⟩ := run_below b hV₁ p
      rw [hfork, search]
      rcases hx' : b.run [1] .done p .none W₁ with ⟨r, W₂⟩
      rcases hy' : b.run [] .done p .none V' with ⟨r', V₂⟩
      rw [hx', hy'] at hb hmb
      obtain rfl : r = r' := hb
      cases r with
      | some r => exact (earlier_of_lt fun x hx => hlater _ _ x hx).symm
      | none =>
        refine ih hsorted (fun α q => ?_) hmb.inside fun q hq => ?_
        · exact (hmb.outside _ q (not_suffix (by decide) α)).trans (hma.inside α q)
        have hne : q.off ≠ p.off := Nat.ne_of_gt (hlt q hq)
        have hroot : W₂ [] q.off = W.mark [] p.off [] q.off :=
          (hmb.outside [] _ (by simp)).trans (hma.outside [] _ (by simp))
        simp [hroot, Visited.mark, hne, hW q (List.mem_cons_of_mem p hq)]

theorem find_alt (a b : Node) (s : Bytes) : (Node.alt a b).find s = earlier (·.1) (a.find s) (b.find s) :=
  search_fork a b (positionsFrom_sorted (runesFrom_width s 0)).1 (fun _ _ => rfl) (fun _ _ => rfl) fun _ _ => rfl

theorem find_fail (s : Bytes) : Node.fail.find s = none := by
  have hsearch : ∀ ps V, search (Node.fail.run [] .done) ps V = none := by
    intro ps
    induction ps with
    | nil => exact fun _ => rfl
    | cons p ps ih => exact fun V => ih V
  exact hsearch _ _

theorem earlier_isSome {α : Type} (start : α → Nat) (a b : Option α) :
    (earlier start a b).isSome = (a.isSome || b.isSome) := by
  cases a with
  | none => rfl
  | some a =>
    cases b with
    | none => rfl
    | some b =>
      rw [earlier]
      split <;> rfl

end Search

section Turns

variable {T : Tables}

/-- Expressions that stand behind each other with bars between them: each one starts with the flags that
the one before leaves. -/
def inTurn (T : Tables) : Flags → List Bytes → List Expr
  | _, [] => []
  | f, p :: ps =>
    match (lex T p).bind (parseFlags T f) with
    | some (e, g) => e :: inTurn T g ps
    | none => inTurn T f ps

/-- The alternatives of several expressions whose groups are numbered behind `k`. -/
def turnBranches (k : Nat) : List Expr → List Node
  | [] => []
  | e :: es => e.branches.map (Node.shift k) ++ turnBranches (e.caps + k) es

theorem step_bar (frame : Frame) (below : List Frame) (f : Flags) (k : Nat) (repeated : Bool) :
    step T ⟨frame :: below, f, k, repeated⟩ .bar =
      some ⟨⟨frame.cap, frame.saved, frame.branches.reverse, []⟩ :: below, f, k, false⟩ := by
  rw [Frame.branches, List.reverse_reverse]
  cases repeated <;> rfl

theorem steps_inTurn (hps : ∀ p ∈ ps, ∃ e, parse T p = some e) (hclosed : ∀ p ∈ ps, Closed T p)
    (hne : ps ≠ []) {q : Bytes} (hq : EndsText q) {us : List Token}
    (hus : lex T ((bs "|").intercalate ps ++ q) = some us) (f : Flags) (cap : Option Nat) (saved : Flags)
    (alts : List Node) (below : List Frame) (k : Nat) :
    ∃ vs frame g caps repeated, lex T q = some vs ∧
      frame.branches = alts.reverse ++ turnBranches k (inTurn T f ps) ∧ frame.cap = cap ∧ frame.saved = saved ∧
      steps T ⟨⟨cap, saved, alts, []⟩ :: below, f, k, false⟩ us =
        steps T ⟨frame :: below, g, caps, repeated⟩ vs := by
  induction ps generalizing us f alts k with
  | nil => exact absurd rfl hne
  | cons p ps ih =>
    obtain ⟨e', he'⟩ := hps p List.mem_cons_self
    obtain ⟨ts, hts, hparse⟩ := parse_iff.mp he'
    have hsome : (parseFlags T f ts).isSome = true := by
      refine parseFlags_isSome .perl f ts ?_
      rw [← Option.isSome_map, ← parseTokens, hparse]
      rfl
    obtain ⟨⟨e, g⟩, hflags⟩ := Option.isSome_iff_exists.mp hsome
    have hturn : inTurn T f (p :: ps) = e :: inTurn T g ps := by
      simp [inTurn, hts, hflags]
    obtain ⟨frame, repeated, hbranches, hcap, hsaved, hsteps⟩ := steps_entry hflags cap saved alts below k
    cases ps with
    | nil =>
      rw [List.intercalate_singleton] at hus
      obtain ⟨vs, hvs, rfl⟩ := lex_append hts (hclosed p List.mem_cons_self) hq hus
      grind [inTurn, turnBranches, steps_append]
    | cons p' ps =>
      have hbar : bs "|" = [chr '|'] := by decide
      rw [List.intercalate_cons_cons, List.append_assoc, List.append_assoc, hbar, List.singleton_append] at hus
      obtain ⟨vs, hvs, rfl⟩ := lex_append hts (hclosed p List.mem_cons_self) (endsText_bar _) hus
      rw [lex_bar] at hvs
      obtain ⟨ws, hws, rfl⟩ := Option.map_eq_some_iff.mp hvs
      rw [← hbar] at hws
      obtain ⟨vs, frame', g', caps, repeated', hvs, hbranches', hcap', hsaved', hsteps'⟩ :=
        ih (fun r hr => hps r (List.mem_cons_of_mem p hr)) (fun r hr => hclosed r (List.mem_cons_of_mem p hr))
          (by simp) hws g frame.branches.reverse (e.caps + k)
      refine ⟨vs, frame', g', caps, repeated', hvs, ?_, hcap', hsaved', ?_⟩
      · rw [hbranches', hbranches, hturn, turnBranches, List.reverse_reverse, List.append_assoc]
      simp [steps_append, hsteps, steps_cons, step_bar, hcap, hsaved, hsteps']

def Flags.fold : Flags := { Flags.perl with foldCase := true }

theorem lex_fold {q : Bytes} (hq : ∀ cs, charsOf q = some cs → cs.head? ≠ some '?') :
    lex T (bs "(?i)(" ++ q) = (lex T q).map fun ts => .flags [(.foldCase, true)] :: .openGroup :: ts := by
  have htext : bs "(?i)(" ++ q = chr '(' :: chr '?' :: chr 'i' :: chr ')' :: chr '(' :: q := by
    have hhead : bs "(?i)(" = [chr '(', chr '?', chr 'i', chr ')', chr '('] := by decide
    rw [hhead]
    rfl
  rw [htext, lex, lex]
  repeat rw [charsOf_cons (by decide)]
  cases hcs : charsOf q with
  | none => rfl
  | some cs =>
    change lexFrom T 0 ('(' :: '?' :: 'i' :: ')' :: '(' :: cs) = (lexFrom T 0 cs).map _
    have hflags : lexOne T ('(' :: '?' :: 'i' :: ')' :: '(' :: cs) = some (.flags [(.foldCase, true)], '(' :: cs) :=
      rfl
    have hskip : ('?' :: 'i' :: ')' :: '(' :: cs).length - ('(' :: cs).length = 3 := by
      simp only [List.length_cons]
      omega
    rw [lexFrom, hflags]
    change (lexFrom T (('?' :: 'i' :: ')' :: '(' :: cs).length - ('(' :: cs).length) _).map _ = _
    rw [hskip]
    change (lexFrom T 0 ('(' :: cs)).map _ = _
    rw [lexFrom_one (lexOne_open (hq cs hcs)), Option.map_map]
    rfl

theorem find_alts_isSome (ns : List Node) (s : Bytes) :
    ((Node.alts ns).find s).isSome = true ↔ ∃ n ∈ ns, (n.find s).isSome = true := by
  induction ns with
  | nil => simp [Node.alts, find_fail]
  | cons n ns ih => simp [Node.alts, find_alt, earlier_isSome, ih]

theorem turnBranches_match (k : Nat) (es : List Expr) (s : Bytes) :
    (∃ n ∈ turnBranches k es, (n.find s).isSome = true) ↔ ∃ e ∈ es, e.matchString s = true := by
  induction es generalizing k with
  | nil => simp [turnBranches]
  | cons e es ih =>
    have hmatch : e.matchString s = true ↔ ∃ n ∈ e.branches, (n.find s).isSome = true :=
      find_alts_isSome e.branches s
    simp only [turnBranches, List.mem_append, or_and_right, exists_or, ih, List.mem_cons, exists_eq_left, hmatch]
    simp [find_shift]

theorem parse_inTurn (hps : ∀ p ∈ ps, ∃ e, parse T p = some e) (hclosed : ∀ p ∈ ps, Closed T p)
    (hne : ps ≠ []) (he : parse T (bs "(?i)(" ++ (bs "|").intercalate ps ++ bs ")") = some e)
    (s : Bytes) : e.matchString s = true ↔ ∃ e' ∈ inTurn T .fold ps, e'.matchString s = true := by
  obtain ⟨us, hus, hparse⟩ := parse_iff.mp he
  have hclose : bs ")" = [chr ')'] := by decide
  have hhead : ∀ cs, charsOf ((bs "|").intercalate ps ++ bs ")") = some cs → cs.head? ≠ some '?' := by
    cases ps with
    | nil => exact absurd rfl hne
    | cons p ps =>
      obtain ⟨e', he'⟩ := hps p List.mem_cons_self
      obtain ⟨ts, hts, hparse'⟩ := parse_iff.mp he'
      have hsome : (parseFlags T .perl ts).isSome = true := by
        rw [← Option.isSome_map, ← parseTokens, hparse']
        rfl
      cases ps with
      | nil =>
        rw [List.intercalate_singleton, hclose]
        exact charsOf_head hts hsome (endsText_close [])
      | cons p' ps =>
        have hbar : bs "|" = [chr '|'] := by decide
        rw [List.intercalate_cons_cons, List.append_assoc, List.append_assoc, hbar, List.singleton_append]
        exact charsOf_head hts hsome (endsText_bar _)
  rw [List.append_assoc, lex_fold hhead] at hus
  obtain ⟨ws, hws, rfl⟩ := Option.map_eq_some_iff.mp hus
  rw [hclose] at hws
  obtain ⟨vs, frame, g, caps, repeated, hvs, hbranches, hcap, hsaved, hsteps⟩ :=
    steps_inTurn hps hclosed hne (endsText_close []) hws .fold (some 1) .fold [] [.fresh none .perl] 1
  cases hvs
  have hstart : steps T (.start .perl 0) (.flags [(.foldCase, true)] :: .openGroup :: ws) =
      steps T ⟨[⟨some 1, .fold, [], []⟩, .fresh none .perl], .fold, 1, false⟩ ws := rfl
  have hend : steps T ⟨[frame, .fresh none .perl], g, caps, repeated⟩ [.closeGroup] =
      some ⟨[(Frame.fresh none .perl).push [frame.node]], frame.saved, caps, false⟩ := rfl
  rw [parseTokens, parseFlags, hstart, hsteps, hend] at hparse
  cases hparse
  have hnode : frame.node = .group 1 (Node.alts (turnBranches 1 (inTurn T .fold ps))) := by
    rw [Frame.node, hcap, Frame.body, hbranches]
    rfl
  have hpush : ((Frame.fresh none .perl).push [frame.node]).branches = [.cats [frame.node]] := rfl
  rw [Expr.matchString, Expr.find, Expr.node, hpush, find_alts_isSome]
  simp only [List.mem_singleton, exists_eq_left]
  rw [hnode, ← shift_zero (Node.alts _), find_group, Option.isSome_map, find_alts_isSome, turnBranches_match]

end Turns

end PiiShield.Regex
