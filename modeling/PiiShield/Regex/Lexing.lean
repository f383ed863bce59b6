import PiiShield.Regex.Parser
import PiiShield.Utf8Facts

/-! The tokens of a text in front of a bar or a closing bracket are those of the text alone, unless a
quote in it is left open. -/

namespace PiiShield.Regex

variable {T : Tables} {α β : Type} {l : Lexer α} {k : α → Lexer β} {a b t : List Char}

def Ends (b : List Char) : Prop := ∀ c ∈ b.head?, c = ')' ∨ c = '|'

/-- What the lexer reads in a text, if it is of the kind, it reads there too with `b` behind the text,
unless that is an error. -/
def KeptIf (ok : α → List Char → Prop) (b : List Char) (l : Lexer α) : Prop :=
  ∀ a x r y, ok x r → l a = some (x, r) → l (a ++ b) = some y → y = (x, r ++ b)

abbrev Kept (b : List Char) (l : Lexer α) : Prop := KeptIf (fun _ _ => True) b l

/-- The lexer does the same in a text with `b` behind it, also where it fails. -/
def Exact (b : List Char) (l : Lexer α) : Prop := ∀ a, l (a ++ b) = (l a).map fun x => (x.1, x.2 ++ b)

theorem bind_eq_some {y : β × List Char} (h : (l >>= k) a = some y) :
    ∃ x r, l a = some (x, r) ∧ k x r = some y := by
  obtain ⟨⟨x, r⟩, hx, h⟩ := Option.bind_eq_some_iff.mp h
  exact ⟨x, r, hx, h⟩

theorem Exact.kept (h : Exact b l) (ok : α → List Char → Prop) : KeptIf ok b l := by
  intro a x r y _ hx hy
  rw [h, hx] at hy
  exact (Option.some.inj hy).symm

variable {ok : α → List Char → Prop}

theorem KeptIf.pure (x : α) : KeptIf ok b (pure x : Lexer α) := by
  intro a x r y _ hx hy
  cases hx
  exact (Option.some.inj hy).symm

theorem KeptIf.failure : KeptIf ok b (failure : Lexer α) :=
  fun _ _ _ _ _ hx => nomatch hx

theorem KeptIf.bind {ok : β → List Char → Prop} (hl : Kept b l) (hk : ∀ x, KeptIf ok b (k x)) :
    KeptIf ok b (l >>= k) := by
  intro a x r y hok hx hy
  obtain ⟨u, s, hu, hx⟩ := bind_eq_some hx
  obtain ⟨v, s', hv, hy⟩ := bind_eq_some hy
  cases hl a u s (v, s') trivial hu hv
  exact hk u s x r y hok hx hy

theorem KeptIf.of_kept (h : Kept b l) : KeptIf ok b l := fun a x r y _ => h a x r y trivial

theorem Exact.pure (x : α) : Exact b (pure x : Lexer α) := fun _ => rfl

theorem Exact.failure : Exact b (failure : Lexer α) := fun _ => rfl

theorem Exact.bind (hl : Exact b l) (hk : ∀ x, Exact b (k x)) : Exact b (l >>= k) := by
  intro a
  change (l (a ++ b)).bind (fun x => k x.1 x.2) = ((l a).bind fun x => k x.1 x.2).map _
  rw [hl]
  cases l a with
  | none => rfl
  | some x => exact hk x.1 x.2

theorem exact_ofOption (x : Option α) : Exact b (ofOption x) := by
  intro a
  cases x <;> rfl

theorem kept_ofOption (x : Option α) : Kept b (ofOption x) := (exact_ofOption x).kept _

theorem kept_item : Kept b item := by
  intro a x r y _ hx hy
  cases a with
  | nil => cases hx
  | cons c t =>
    cases hx
    exact (Option.some.inj hy).symm

theorem kept_lexUntil (stop : Char) : Kept b (lexUntil stop) := by
  intro a
  induction a with
  | nil => exact fun x r y _ hx => nomatch hx
  | cons c t ih =>
    intro x r y _ hx hy
    rw [List.cons_append] at hy
    rw [lexUntil] at hx hy
    split at hx
    · next hstop =>
      rw [if_pos hstop] at hy
      cases hx
      exact (Option.some.inj hy).symm
    · next hstop =>
      rw [if_neg hstop] at hy
      obtain ⟨u, hu, hx⟩ := Option.map_eq_some_iff.mp hx
      obtain ⟨v, hv, rfl⟩ := Option.map_eq_some_iff.mp hy
      cases hx
      rw [ih u.1 u.2 v trivial hu hv]

theorem exact_peek (hb : Ends b) {p : Char → Bool} (hp : p ')' = false ∧ p '|' = false) : Exact b (peek p) := by
  intro a
  cases a with
  | cons c t => rfl
  | nil =>
    cases b with
    | nil => rfl
    | cons c b =>
      have hc : p c = false := by rcases hb c rfl with rfl | rfl <;> simp [hp]
      simp [peek, hc]

theorem exact_lexWhile (hb : Ends b) {p : Char → Bool} (hp : p ')' = false ∧ p '|' = false) :
    Exact b (lexWhile p) := by
  intro a
  induction a with
  | nil =>
    cases b with
    | nil => rfl
    | cons c b =>
      have hc : p c = false := by rcases hb c rfl with rfl | rfl <;> simp [hp]
      simp [lexWhile, hc]
  | cons c t ih =>
    simp only [lexWhile, Option.map_some, Option.some.injEq, Prod.mk.injEq] at ih ⊢
    cases hc : p c <;> simp [hc, ih]

variable {w : List Char}

theorem isPrefixOf_append (hb : Ends b) (hw : ')' ∉ w ∧ '|' ∉ w) (a : List Char) :
    w.isPrefixOf (a ++ b) = w.isPrefixOf a := by
  induction w generalizing a with
  | nil => rfl
  | cons c w ih =>
    cases a with
    | cons d t => grind [List.isPrefixOf]
    | nil =>
      cases b with
      | nil => rfl
      | cons d b =>
        have hd := hb d rfl
        grind [List.isPrefixOf]

theorem exact_accept (hb : Ends b) (hw : ')' ∉ w ∧ '|' ∉ w) : Exact b (accept w) := by
  intro a
  rw [accept, accept, isPrefixOf_append hb hw]
  split
  · next hword =>
    rw [List.drop_append_of_le_length (List.isPrefixOf_iff_prefix.mp hword).length_le]
    rfl
  · rfl

theorem kept_accept (hb : Ends b) (hw : ')' ∉ w ∧ '|' ∉ w) : Kept b (accept w) :=
  (exact_accept hb hw).kept _

theorem kept_lexBraced : Kept b lexBraced := by
  refine .bind (kept_lexUntil _) fun ds => .bind (kept_ofOption _) fun digits => ?_
  dsimp only
  split
  · exact .failure
  · exact .pure _

theorem kept_lexOctal (hb : Ends b) (n r : Nat) : Kept b (lexOctal n r) := by
  induction n generalizing r with
  | zero => exact .pure r
  | succ n ih =>
    refine .bind ((exact_peek hb (by decide)).kept _) fun octal => ?_
    split
    · exact .bind kept_item fun c => ih _
    · exact .pure r

theorem kept_lexHex : Kept b lexHex := by
  refine .bind kept_item fun c => ?_
  split
  · exact kept_lexBraced
  refine .bind (kept_ofOption _) fun x => .bind kept_item fun d => .bind (kept_ofOption _) fun y => ?_
  exact .pure _

theorem kept_lexEscape (hb : Ends b) (c : Char) : Kept b (lexEscape c) := by
  unfold lexEscape
  split
  case h_1 => exact kept_lexHex
  case h_8 =>
    refine .bind ((exact_peek hb (by decide)).kept _) fun octal => ?_
    split
    · exact kept_lexOctal hb _ _
    split
    · exact .pure _
    · exact .failure
  all_goals exact .pure _

theorem kept_lexUnicode (T : Tables) (negated : Bool) : Kept b (lexUnicode T negated) := by
  refine .bind kept_item fun c => ?_
  split
  · refine .bind (kept_lexUntil _) fun name => ?_
    split <;> exact .bind (kept_ofOption _) fun ok => .pure _
  · exact .bind (kept_ofOption _) fun ok => .pure _

section Classes

variable {c d : Char}

theorem lexPosixName_cons (h : ¬(c = ':' ∧ d = ']')) (t : List Char) :
    lexPosixName (c :: d :: t) = (lexPosixName (d :: t)).map fun x => (c :: x.1, x.2) := by
  simp_all [lexPosixName]

theorem lexPosixName_append {x : List Char × List Char} (h : lexPosixName a = some x) :
    lexPosixName (a ++ b) = some (x.1, x.2 ++ b) := by
  fun_induction lexPosixName a generalizing x with
  | case1 => cases h
  | case2 => cases h
  | case3 t =>
    cases h
    rfl
  | case4 c d t hne ih =>
    have hnot : ¬(c = ':' ∧ d = ']') := fun h => hne h.1 h.2
    obtain ⟨y, hy, rfl⟩ := Option.map_eq_some_iff.mp h
    have hmore := ih hy
    rw [List.cons_append] at hmore
    rw [List.cons_append, List.cons_append, lexPosixName_cons hnot, hmore]
    rfl

/-- A name that is closed behind the text has the end of the text in it. -/
theorem lexPosixName_past (hb : Ends b) {x : List Char × List Char} (ha : lexPosixName a = none)
    (h : lexPosixName (a ++ b) = some x) : ')' ∈ x.1 ∨ '|' ∈ x.1 := by
  have hcons : ∀ {c d t x}, ¬(c = ':' ∧ d = ']') → lexPosixName (c :: d :: t) = some x →
      ∃ y, lexPosixName (d :: t) = some y ∧ x.1 = c :: y.1 := by simp_all [lexPosixName_cons]
  induction a generalizing x with
  | nil =>
    cases b with
    | nil => cases h
    | cons c b =>
      cases b with
      | nil => cases h
      | cons d b =>
        have hc := hb c rfl
        obtain ⟨y, -, hx⟩ := hcons (by rcases hc with rfl | rfl <;> simp) h
        grind
  | cons c a ih =>
    cases a with
    | nil =>
      cases b with
      | nil => cases h
      | cons d b =>
        obtain ⟨y, hy, hx⟩ := hcons (by rcases hb d rfl with rfl | rfl <;> simp) h
        have hmore := ih rfl hy
        grind
    | cons d a =>
      by_cases hcd : c = ':' ∧ d = ']'
      · obtain ⟨rfl, rfl⟩ := hcd
        cases ha
      obtain ⟨y, hy, hx⟩ := hcons hcd h
      rw [lexPosixName_cons hcd] at ha
      have hmore := ih (Option.map_eq_none_iff.mp ha) hy
      grind

theorem posixItem_none {name : List Char} (h : ')' ∈ name ∨ '|' ∈ name) : posixItem name = none := by
  have hclass : ∀ name, ')' ∈ name ∨ '|' ∈ name → posixClass name = none := by
    intro name h
    rw [posixClass, List.findSome?_eq_none_iff]
    intro e he
    have hne : e.1.toList ≠ name := by
      rintro rfl
      simp only [List.mem_cons, List.not_mem_nil, or_false] at he
      rcases he with rfl | rfl | rfl | rfl | rfl | rfl | rfl | rfl | rfl | rfl | rfl | rfl | rfl | rfl
      all_goals simp at h
    exact if_neg hne
  unfold posixItem
  split
  · rw [hclass _ (by simpa using h)]
    rfl
  · rw [hclass _ h]
    rfl

theorem kept_lexPosix (hb : Ends b) : Kept b lexPosix := by
  intro a x r y _ hx hy
  rw [lexPosix, isPrefixOf_append hb (by decide)] at hy
  rw [lexPosix] at hx
  split at hx
  · next hopen =>
    have hlength : 2 ≤ a.length := (List.isPrefixOf_iff_prefix.mp hopen).length_le
    rw [if_pos hopen, List.drop_append_of_le_length hlength] at hy
    cases hname : lexPosixName (a.drop 2) with
    | some z =>
      rw [lexPosixName_append hname] at hy
      rw [hname] at hx
      obtain ⟨i, hi, hx⟩ := Option.map_eq_some_iff.mp hx
      obtain ⟨j, hj, rfl⟩ := Option.map_eq_some_iff.mp hy
      cases hi.symm.trans hj
      cases hx
      rfl
    | none =>
      cases hpast : lexPosixName (a.drop 2 ++ b) with
      | some z =>
        rw [hpast] at hy
        dsimp only at hy
        rw [posixItem_none (lexPosixName_past hb hname hpast)] at hy
        cases hy
      | none =>
        rw [hname] at hx
        rw [hpast] at hy
        cases hx
        exact (Option.some.inj hy).symm
  · next hopen =>
    rw [if_neg hopen] at hy
    cases hx
    exact (Option.some.inj hy).symm

theorem kept_lexClassChar (hb : Ends b) : Kept b lexClassChar := by
  refine .bind kept_item fun c => ?_
  split
  · exact .bind kept_item fun d => kept_lexEscape hb d
  · exact .pure _

/-- More than a minus sign is left, so that what is behind the text does not matter for a range. -/
def Inside (_ : Item) (r : List Char) : Prop := r ≠ [] ∧ r ≠ ['-']

theorem rangeFollows_append (h : a ≠ [] ∧ a ≠ ['-']) :
    rangeFollows (a ++ b) = (rangeFollows a).map fun x => (x.1, x.2 ++ b) := by
  cases a with
  | nil => exact absurd rfl h.1
  | cons c t =>
    by_cases hc : c = '-'
    · subst hc
      cases t with
      | nil => exact absurd rfl h.2
      | cons d t =>
        simp only [List.cons_append, rangeFollows]
        split <;> rfl
    · simp [rangeFollows, hc]

theorem keptIf_lexRange (hb : Ends b) (lo : Nat) : KeptIf Inside b (lexRange lo) := by
  intro a x r y hinside hx hy
  have hleft : a ≠ [] ∧ a ≠ ['-'] := by
    refine ⟨?_, ?_⟩
    all_goals
      rintro rfl
      cases hx
    · exact hinside.1 rfl
    · exact hinside.2 rfl
  obtain ⟨more, u, hu, hx⟩ := bind_eq_some hx
  obtain ⟨more', u', hv, hy⟩ := bind_eq_some hy
  rw [rangeFollows_append hleft, hu] at hv
  cases hv
  cases more with
  | false => exact KeptIf.pure _ u x r y hinside hx hy
  | true =>
    refine KeptIf.bind (kept_lexClassChar hb) (fun hi => ?_) u x r y hinside hx hy
    split
    · exact .failure
    · exact .pure _

theorem keptIf_lexItem (T : Tables) (hb : Ends b) : KeptIf Inside b (lexItem T) := by
  refine .bind (kept_lexPosix hb) fun i => ?_
  split
  · exact .pure _
  refine .bind kept_item fun c => ?_
  split
  · refine .bind kept_item fun c => ?_
    split
    · exact .of_kept (kept_lexUnicode T false)
    · exact .of_kept (kept_lexUnicode T true)
    split
    · exact .pure _
    · exact .bind (kept_lexEscape hb _) fun lo => keptIf_lexRange hb lo
  · exact keptIf_lexRange hb c.toNat

theorem inside_of_lexItems {n : Nat} {x : List Item × List Char} (i : Item) (h : lexItems T n false a = some x) :
    Inside i a := by
  have hnil : ∀ n, lexItems T n false [] = none := by
    intro n
    cases n <;> rfl
  refine ⟨?_, ?_⟩
  · rintro rfl
    rw [hnil] at h
    cases h
  rintro rfl
  cases n with
  | zero => cases h
  | succ n =>
    change (lexItems T n false []).bind _ = some x at h
    rw [hnil] at h
    cases h

theorem lexItems_append (hb : Ends b) {n m : Nat} {first : Bool} {is : List Item} {r : List Char}
    {y : List Item × List Char} (h : lexItems T n first a = some (is, r))
    (hy : lexItems T m first (a ++ b) = some y) : y = (is, r ++ b) := by
  induction n generalizing m first a is r y with
  | zero => cases h
  | succ n ih =>
    cases m with
    | zero => cases hy
    | succ m =>
      rw [lexItems] at h hy
      obtain ⟨close, u, hu, h⟩ := bind_eq_some h
      obtain ⟨close', v, hv, hy⟩ := bind_eq_some hy
      cases (exact_peek hb (by decide)).kept (fun _ _ => True) a close u (close', v) trivial hu hv
      split at h
      · next hclose =>
        rw [if_pos hclose] at hy
        exact (KeptIf.bind kept_item (fun _ => .pure []) : Kept b _) u is r y trivial h hy
      · next hclose =>
        rw [if_neg hclose] at hy
        obtain ⟨i, s, hi, h⟩ := bind_eq_some h
        obtain ⟨j, s', hj, hy⟩ := bind_eq_some hy
        obtain ⟨is', r', his, h⟩ := bind_eq_some h
        obtain ⟨js, r'', hjs, hy⟩ := bind_eq_some hy
        cases keptIf_lexItem T hb u i s (j, s') (inside_of_lexItems i his) hi hj
        cases ih his hjs
        exact (KeptIf.pure (i :: is') : Kept b _) r' is r y trivial h hy

theorem kept_lexClass (hb : Ends b) : Kept b (lexClass T) := by
  refine .bind (kept_accept hb (by decide)) fun negated => ?_
  intro a x r y _ hx hy
  change (lexItems T a.length true >>= fun is => pure (Token.cls is negated)) a = _ at hx
  change (lexItems T (a ++ b).length true >>= fun is => pure (Token.cls is negated)) (a ++ b) = _ at hy
  obtain ⟨is, r', his, hx⟩ := bind_eq_some hx
  obtain ⟨js, r'', hjs, hy⟩ := bind_eq_some hy
  cases lexItems_append hb his hjs
  exact (KeptIf.pure (.cls is negated) : Kept b _) r' x r y trivial hx hy

end Classes

theorem kept_lexFlags (hb : Ends b) : Kept b lexFlags := by
  refine .bind ((exact_lexWhile hb (by decide)).kept _) fun fs => .bind (kept_ofOption _) fun changes => ?_
  refine .bind kept_item fun c => ?_
  split
  · exact .pure _
  split
  · exact .pure _
  · exact .failure

theorem kept_lexGroup (hb : Ends b) : Kept b lexGroup := by
  have hname : Kept b lexGroupName := by
    refine .bind (kept_lexUntil _) fun name => ?_
    split
    · exact .pure _
    · exact .failure
  refine .bind (kept_accept hb (by decide)) fun long => ?_
  split
  · exact hname
  refine .bind (kept_accept hb (by decide)) fun short => ?_
  split
  · exact hname
  · exact kept_lexFlags hb

theorem exact_lexNumber (hb : Ends b) : Exact b lexNumber := by
  refine .bind (exact_lexWhile hb (by decide)) fun digits => ?_
  split
  · exact .failure
  · exact .pure _

theorem exact_lexBounds (hb : Ends b) : Exact b lexBounds := by
  refine .bind (exact_lexNumber hb) fun min => .bind (exact_accept hb (by decide)) fun close => ?_
  split
  · exact .pure _
  refine .bind (exact_accept hb (by decide)) fun unbounded => ?_
  split
  · exact .pure _
  refine .bind (exact_accept hb (by decide)) fun comma => ?_
  split
  · refine .bind (exact_lexNumber hb) fun max => .bind (exact_accept hb (by decide)) fun close => ?_
    split
    · exact .pure _
    · exact .failure
  · exact .failure

theorem kept_lexLazy (hb : Ends b) (min : Nat) (max : Option Nat) : Kept b (lexLazy min max) :=
  .bind (kept_accept hb (by decide)) fun _ => .pure _

theorem kept_lexBrace (hb : Ends b) : Kept b lexBrace := by
  intro a x r y _ hx hy
  rw [lexBrace] at hx
  rw [lexBrace, exact_lexBounds hb a] at hy
  cases hbounds : lexBounds a with
  | none =>
    rw [hbounds] at hx hy
    cases hx
    exact (Option.some.inj hy).symm
  | some z =>
    rw [hbounds] at hx hy
    dsimp only [Option.map_some] at hx hy
    split at hx
    · cases hx
    · next hmax =>
      rw [if_neg hmax] at hy
      exact kept_lexLazy hb _ _ z.2 x r y trivial hx hy

section Tokens

variable {c d : Char}

theorem lexQuote_cons (h : ¬(c = '\\' ∧ d = 'E')) (t : List Char) :
    lexQuote (c :: d :: t) = (lexQuote (d :: t)).map fun x => ((c.toNat :: x.1.1, x.1.2), x.2) := by
  simp_all [lexQuote]

theorem keptIf_lexQuote : KeptIf (fun x _ => x.2 = true) b lexQuote := by
  intro a
  induction a with
  | nil =>
    intro x r y hclosed hx
    cases hx
    cases hclosed
  | cons c a ih =>
    intro x r y hclosed hx hy
    cases a with
    | nil =>
      cases hx
      cases hclosed
    | cons d t =>
      by_cases hend : c = '\\' ∧ d = 'E'
      · obtain ⟨rfl, rfl⟩ := hend
        cases hx
        exact (Option.some.inj hy).symm
      rw [List.cons_append, List.cons_append, lexQuote_cons hend] at hy
      rw [lexQuote_cons hend] at hx
      obtain ⟨u, hu, hx⟩ := Option.map_eq_some_iff.mp hx
      obtain ⟨v, hv, rfl⟩ := Option.map_eq_some_iff.mp hy
      cases hx
      obtain rfl := ih u.1 u.2 v hclosed hu hv
      rfl

abbrev IsClosed (tok : Token) (_ : List Char) : Prop := tok.leftOpen = false

theorem keptIf_lexBackslash (hb : Ends b) : KeptIf IsClosed b (lexBackslash T) := by
  refine .bind kept_item fun c => ?_
  split
  case h_4 => exact .failure
  case h_6 =>
    intro a x r y hclosed hx hy
    obtain ⟨q, u, hu, hx⟩ := bind_eq_some hx
    obtain ⟨q', v, hv, hy⟩ := bind_eq_some hy
    cases hx
    have hquote : q.2 = true := by
      cases hq : q.2 <;> simp_all [IsClosed, Token.leftOpen]
    cases keptIf_lexQuote a q r (q', v) hquote hu hv
    exact (Option.some.inj hy).symm
  case h_7 => exact .bind (kept_lexUnicode T false) fun _ => .pure _
  case h_8 => exact .bind (kept_lexUnicode T true) fun _ => .pure _
  case h_9 =>
    split
    · exact .pure _
    · exact .bind (kept_lexEscape hb _) fun _ => .pure _
  all_goals exact .pure _

theorem keptIf_lexOne (hb : Ends b) : KeptIf IsClosed b (lexOne T) := by
  refine .bind kept_item fun c => ?_
  split
  case h_1 =>
    refine .bind (kept_accept hb (by decide)) fun flags => ?_
    split
    · exact .of_kept (kept_lexGroup hb)
    · exact .pure _
  case h_7 => exact .of_kept (kept_lexClass hb)
  case h_8 | h_9 | h_10 => exact .of_kept (kept_lexLazy hb _ _)
  case h_11 => exact .of_kept (kept_lexBrace hb)
  case h_12 => exact keptIf_lexBackslash hb
  all_goals exact .pure _

theorem lexFrom_append (hb : Ends b) {skip : Nat} {ts us : List Token}
    (h : lexFrom T skip a = some ts) (hskip : skip ≤ a.length) (hclosed : ∀ t ∈ ts, t.leftOpen = false)
    (hus : lexFrom T skip (a ++ b) = some us) : ∃ vs, lexFrom T 0 b = some vs ∧ us = ts ++ vs := by
  induction a generalizing skip ts us with
  | nil =>
    obtain rfl : skip = 0 := Nat.le_zero.mp hskip
    cases h
    exact ⟨us, hus, rfl⟩
  | cons c t ih =>
    rw [List.cons_append] at hus
    cases skip with
    | succ skip =>
      rw [lexFrom] at h hus
      exact ih h (Nat.le_of_succ_le_succ hskip) hclosed hus
    | zero =>
      rw [lexFrom] at h hus
      obtain ⟨⟨tok, r⟩, hx, h⟩ := Option.bind_eq_some_iff.mp h
      obtain ⟨y, hy, hus⟩ := Option.bind_eq_some_iff.mp hus
      obtain ⟨ts, hts, rfl⟩ := Option.map_eq_some_iff.mp h
      obtain ⟨us, hus', rfl⟩ := Option.map_eq_some_iff.mp hus
      obtain rfl := keptIf_lexOne hb _ tok r y (hclosed tok List.mem_cons_self) hx hy
      rw [List.length_append, List.length_append, Nat.add_sub_add_right] at hus'
      obtain ⟨vs, hvs, rfl⟩ := ih hts (Nat.sub_le _ _) (fun t ht => hclosed t (List.mem_cons_of_mem tok ht)) hus'
      exact ⟨vs, hvs, rfl⟩

theorem lexOne_open (h : t.head? ≠ some '?') : lexOne T ('(' :: t) = some (.openGroup, t) := by
  have haccept : accept ['?'] t = some (false, t) := by
    cases t with
    | nil => rfl
    | cons c t =>
      have hc : '?' ≠ c := fun hc => h (by rw [← hc]; rfl)
      simp [accept, hc]
  change (accept ['?'] t).bind _ = _
  rw [haccept]
  rfl

theorem lexFrom_one {tok : Token} (h : lexOne T (c :: t) = some (tok, t)) :
    lexFrom T 0 (c :: t) = (lexFrom T 0 t).map (tok :: ·) := by
  simp [lexFrom, h]

end Tokens

section Texts

variable {T : Tables} {p q : Bytes} {ts us : List Token}

theorem runes_append (hp : utf8Valid p = true) (q : Bytes) :
    runes (p ++ q) = runes p ++ runes q ∧ utf8Valid (p ++ q) = utf8Valid q := by
  refine utf8Valid_induction
    (P := fun p => runes (p ++ q) = runes p ++ runes q ∧ utf8Valid (p ++ q) = utf8Valid q) ⟨rfl, rfl⟩ ?_ hp
  intro c r t he _ ih
  have hcons : ∀ u, runes (c ++ u) = r :: runes u := by
    intro u
    rw [runes, he.runesFrom_append]
    rfl
  rw [List.append_assoc, hcons, hcons, he.utf8Valid_append, ih.1, ih.2]
  exact ⟨rfl, rfl⟩

theorem charsOf_append (hp : utf8Valid p = true) (q : Bytes) :
    charsOf (p ++ q) = (charsOf q).map ((runes p).map Char.ofNat ++ ·) := by
  simp [runes_append, charsOf, List.map_append, hp]

theorem charsOf_cons {c : UInt8} (hc : c < 0x80) (q : Bytes) :
    charsOf (c :: q) = (charsOf q).map (Char.ofNat c.toNat :: ·) := by
  have he := encodes_one hc
  have hrunes := he.runesFrom_append []
  rw [List.append_nil] at hrunes
  have h := charsOf_append he.valid q
  rw [runes, hrunes] at h
  exact h

theorem lex_bar (q : Bytes) : lex T (chr '|' :: q) = (lex T q).map (.bar :: ·) := by
  rw [lex, lex, charsOf_cons (by decide)]
  cases charsOf q with
  | none => rfl
  | some cs => exact lexFrom_one (c := '|') rfl

/-- A quote that the text does not end would go on behind it. -/
def Closed (T : Tables) (p : Bytes) : Prop := ∀ ts, lex T p = some ts → ∀ t ∈ ts, t.leftOpen = false

instance closedDecidable (T : Tables) (p : Bytes) : Decidable (Closed T p) :=
  inferInstanceAs (Decidable (∀ ts ∈ lex T p, ∀ t ∈ ts, t.leftOpen = false))

theorem lex_append (hp : lex T p = some ts) (hclosed : Closed T p)
    (hq : ∀ c ∈ q.head?, c = chr ')' ∨ c = chr '|') (hus : lex T (p ++ q) = some us) :
    ∃ vs, lex T q = some vs ∧ us = ts ++ vs := by
  have hts := hclosed ts hp
  rw [lex] at hp hus
  obtain ⟨cs, hcs, hp⟩ := Option.bind_eq_some_iff.mp hp
  obtain ⟨ds, hds, hus⟩ := Option.bind_eq_some_iff.mp hus
  have hvalid : utf8Valid p = true := by simp_all [charsOf]
  have hchars : cs = (runes p).map Char.ofNat := by
    rw [charsOf, if_pos hvalid] at hcs
    exact (Option.some.inj hcs).symm
  rw [charsOf_append hvalid, ← hchars] at hds
  obtain ⟨es, hes, rfl⟩ := Option.map_eq_some_iff.mp hds
  have hends : Ends es := by
    intro c hc
    cases q with
    | nil =>
      cases hes
      cases hc
    | cons d q =>
      have hd : d < 0x80 := by rcases hq d rfl with rfl | rfl <;> decide
      rw [charsOf_cons hd] at hes
      obtain ⟨fs, -, rfl⟩ := Option.map_eq_some_iff.mp hes
      cases hc
      rcases hq d rfl with rfl | rfl
      · exact .inl (by decide)
      exact .inr (by decide)
  obtain ⟨vs, hvs, rfl⟩ := lexFrom_append hends hp (Nat.zero_le _) hts hus
  refine ⟨vs, ?_, rfl⟩
  rw [lex, hes]
  exact hvs

end Texts

end PiiShield.Regex
