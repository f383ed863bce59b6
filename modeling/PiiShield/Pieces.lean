import PiiShield.TokenCuts

/-! The pieces a text is cut into by the loops of the scanner: the tokens of a segment and
the words of a user agent. Put together they are the text. -/

namespace PiiShield

variable {b : Boundary} {c : Cursor} {fuel w : Nat} {p : Piece} {rest : Bytes}

theorem not_of_mem_head?_drop {p : UInt8 → Bool} (l : Bytes) :
    ∀ x ∈ (l.drop (l.takeWhile p).length).head?, p x = false := by
  induction l with
  | nil => simp
  | cons c l ih =>
    cases hc : p c with
    | true => simpa [hc] using ih
    | false => simp [hc]

theorem rdropWhile_append_rtakeWhile (p : UInt8 → Bool) (l : Bytes) :
    l.rdropWhile p ++ l.rtakeWhile p = l := by
  rw [List.rdropWhile, List.rtakeWhile, ← List.reverse_append, List.takeWhile_append_dropWhile,
    List.reverse_reverse]

@[simp] def AgentPiece.text : AgentPiece → Bytes
  | run text => text
  | product core => core

theorem flatten_agentRun (run : Bytes) : ((agentRun run).map AgentPiece.text).flatten = run := by
  grind [agentRun, AgentPiece.text]

theorem mem_agentRun {run : Bytes} {p : AgentPiece} (hp : p ∈ agentRun run) : p.text = run := by
  simp_all [agentRun]

theorem word_parts (word : Bytes) : let lead := word.takeWhile fun b : UInt8 => b == '('
    let body := word.drop lead.length
    let core := body.rdropWhile fun b : UInt8 => b == ';' || b == ')' || b == ','
    word = lead ++ (core ++ body.drop core.length) ∧
      (utf8Valid word = true →
        utf8Valid lead = true ∧ utf8Valid core = true ∧ utf8Valid (body.drop core.length) = true) := by
  intro lead body core
  have hword : lead ++ body = word := List.prefix_iff_eq_append.mp (List.takeWhile_prefix _)
  have hbody := rdropWhile_append_rtakeWhile (fun b : UInt8 => b == ';' || b == ')' || b == ',') body
  have htrail : body.drop core.length = body.rtakeWhile fun b : UInt8 => b == ';' || b == ')' || b == ',' := by
    conv_lhs => rw [← hbody]
    exact List.drop_left
  have hlead : lead.all isASCII = true := by
    rw [List.all_eq_true]
    intro b hb
    have := List.mem_takeWhile_imp hb
    rw [beq_iff_eq] at this
    subst this
    decide
  refine ⟨by rw [htrail, hbody, hword], fun hv => ?_⟩
  have hvb : utf8Valid body = true := by
    rwa [← hword, utf8Valid_ascii_append hlead] at hv
  rw [htrail]
  rw [← hbody] at hvb
  refine ⟨?_, utf8Valid_split hvb ?_⟩
  · exact utf8Valid_ascii hlead
  intro x hx
  have := List.mem_rtakeWhile_imp (List.mem_of_mem_head? hx)
  simp only [Bool.or_eq_true, beq_iff_eq] at this
  rcases this with (rfl | rfl) | rfl <;> decide

theorem agentPiecesFrom_spec (fuel : Nat) (run : Bytes) (paren : Nat) (ua : Bytes) :
    ((agentPiecesFrom fuel run paren ua).map AgentPiece.text).flatten = run ++ ua ∧
      (utf8Valid run = true → utf8Valid ua = true →
        ∀ p ∈ agentPiecesFrom fuel run paren ua, utf8Valid p.text = true) := by
  induction fuel generalizing run paren ua with
  | zero =>
    refine ⟨flatten_agentRun _, fun hr hu p hp => ?_⟩
    rw [mem_agentRun hp]
    exact utf8Valid_append hr hu
  | succ fuel ih =>
    match ua with
    | [] =>
      grind [agentPiecesFrom, flatten_agentRun, mem_agentRun]
    | c :: t =>
      simp only [agentPiecesFrom]
      split
      · grind [isASCII_of_isBlank, utf8Valid_append, utf8Valid_ascii_cons, utf8Valid_nil]
      have hua : (c :: t).takeWhile (!isBlank ·) ++
          (c :: t).drop ((c :: t).takeWhile (!isBlank ·)).length = c :: t :=
        List.prefix_iff_eq_append.mp (List.takeWhile_prefix _)
      have hsplit : utf8Valid (c :: t) = true →
          utf8Valid ((c :: t).takeWhile (!isBlank ·)) = true ∧
            utf8Valid ((c :: t).drop ((c :: t).takeWhile (!isBlank ·)).length) = true := by
        intro hv
        rw [← hua] at hv
        refine utf8Valid_split hv fun x hx => not_isCont_of_isASCII (isASCII_of_isBlank ?_)
        simpa using not_of_mem_head?_drop _ x hx
      generalize (c :: t).takeWhile (!isBlank ·) = word at hua hsplit ⊢
      obtain ⟨hword, hvalid⟩ := word_parts word
      generalize word.takeWhile (fun b : UInt8 => b == '(') = lead at hword hvalid ⊢
      generalize (word.drop lead.length).rdropWhile
        (fun b : UInt8 => b == ';' || b == ')' || b == ',') = core at hword hvalid ⊢
      generalize (word.drop lead.length).drop core.length = trail at hword hvalid ⊢
      split
      · obtain ⟨h1, h2⟩ := ih trail (paren + countByte word '(' - countByte word ')')
          ((c :: t).drop word.length)
        constructor
        · simp_all [List.map_append, List.flatten_append, flatten_agentRun, List.map_cons,
            List.flatten_cons, AgentPiece.text]
        intro hr hu
        obtain ⟨hl, hcore, htrail⟩ := hvalid (hsplit hu).1
        simp only [List.mem_append, List.mem_cons]
        rintro p (hp | rfl | hp)
        · rw [mem_agentRun hp]
          exact utf8Valid_append hr hl
        · exact hcore
        exact h2 htrail (hsplit hu).2 p hp
      grind [countByte, List.append_assoc, utf8Valid_append]

theorem agentPiecesFrom_fuel {n m : Nat} (run : Bytes) (paren : Nat) {ua : Bytes} (hn : ua.length ≤ n)
    (hm : ua.length ≤ m) : agentPiecesFrom n run paren ua = agentPiecesFrom m run paren ua := by
  induction n generalizing m run paren ua with
  | zero =>
    obtain rfl : ua = [] := List.length_eq_zero_iff.mp (by omega)
    cases m <;> simp [agentPiecesFrom]
  | succ n ih =>
    match ua, m with
    | [], 0 => simp [agentPiecesFrom]
    | [], m + 1 => rfl
    | c :: t, m + 1 =>
      simp only [List.length_cons, Nat.add_le_add_iff_right] at hn hm
      simp only [agentPiecesFrom]
      split
      · exact ih _ _ hn hm
      · next hc =>
        have hlen : ((c :: t).drop ((c :: t).takeWhile (!isBlank ·)).length).length ≤ t.length := by
          simp [hc]
        rw [ih _ _ (hlen.trans hn) (hlen.trans hm), ih _ _ (hlen.trans hn) (hlen.trans hm)]

@[simp] def Piece.text : Piece → Bytes
  | token raw _ => raw
  | boundary _ text _ => text

/-- The text a piece hands on: a token to `processAndAppend`, a boundary to the output. -/
def Piece.handed : Piece → Bytes
  | token raw seenInvalid => tokenText raw seenInvalid
  | boundary b text _ => b.written text

theorem flatten_tokenPiece (tok : Bytes) (seenInvalid : Bool) :
    ((tokenPiece tok seenInvalid).map Piece.text).flatten = tok := by
  grind [tokenPiece, Piece.text]

theorem eq_of_mem_tokenPiece {tok : Bytes} {seenInvalid : Bool}
    (hp : p ∈ tokenPiece tok seenInvalid) : p = .token tok seenInvalid := by
  unfold tokenPiece at hp
  split at hp
  · simp at hp
  simpa using hp

theorem flatten_segmentPieces (fuel : Nat) (c : Cursor) :
    ((segmentPieces fuel c).1.map Piece.text).flatten = c.tok ++ c.rest := by
  induction fuel generalizing c with
  | zero => exact flatten_tokenPiece _ _
  | succ fuel ih =>
    unfold segmentPieces
    split
    · next h => simp [flatten_tokenPiece, List.isEmpty_iff.mp h]
    split
    · rw [ih]
      simp
    simp [flatten_tokenPiece, ih]

/-- A token ends at the start of a character, and the boundary is whole characters that
are written as they are. -/
structure StopsAt (rest : Bytes) (b : Boundary) (w : Nat) : Prop where
  head : ∀ x ∈ rest.head?, isCont x = false
  bound : Bound rest w
  written : b.written (rest.take w) = rest.take w
  pos : 1 ≤ w

theorem StopsAt.of_ascii {p : Bytes} (hp : hasPrefix rest p = true)
    (ha : p.all isASCII = true) (hne : p ≠ []) (hb : ∀ t, b.written t = t) : StopsAt rest b p.length := by
  obtain ⟨t, rfl⟩ := List.isPrefixOf_iff_prefix.mp hp
  refine ⟨?_, .ascii_take ?_, hb _, List.length_pos_iff.mpr hne⟩
  · match p with
    | [] => simp at hne
    | c :: p =>
      simp only [List.all_cons, Bool.and_eq_true] at ha
      simpa using not_isCont_of_isASCII ha.1
  rwa [List.take_left]

theorem chainBoundary_stops {tok : Bytes} (h : 0 < chainBoundary tok rest) :
    StopsAt rest .chain (chainBoundary tok rest) := by
  revert h
  unfold chainBoundary
  split
  · split
    · next h =>
      intro _
      simp only [Bool.and_eq_true] at h
      exact .of_ascii h.1 (by decide) (by simp) fun _ => rfl
    simp
  split
  · next h =>
    split
    · exact fun _ => .of_ascii h (by decide) (by simp) fun _ => rfl
    simp
  split
  · next h =>
    split
    · exact fun _ => .of_ascii h (by decide) (by decide) fun _ => rfl
    simp
  simp

theorem markerLength_stops (h : c.markerLength = some w) : StopsAt c.rest .marker w := by
  unfold Cursor.markerLength at h
  split at h
  · next hp =>
    simp only [Option.map_eq_some_iff] at h
    obtain ⟨i, hi, rfl⟩ := h
    obtain ⟨hlt, hc⟩ := indexByte_eq hi
    have h0 : StopsAt c.rest .marker (bs "[HIDDEN").length :=
      .of_ascii hp (by decide) (by decide) fun _ => rfl
    exact ⟨h0.head, .after_ascii hlt (hc ▸ by decide), rfl, by omega⟩
  simp at h

theorem boundaryStep_stops {u t : Bytes} {r : Nat}
    (hs : c.rest = u ++ t) (hu : Encodes u r) (h : c.boundaryStep r u.length = .stop b w) :
    StopsAt c.rest b w := by
  unfold Cursor.boundaryStep at h
  split at h
  · next hp =>
    obtain ⟨rfl, rfl⟩ : .lineBreak = b ∧ 4 = w := by simpa using h
    exact .of_ascii hp (by decide) (by decide) fun _ => rfl
  split at h
  · grind [chainBoundary, chainBoundary_stops]
  split at h
  · obtain ⟨rfl, rfl⟩ : .sep r = b ∧ u.length = w := by simpa using h
    rw [hs]
    obtain ⟨x, y, rfl, hx, -⟩ := hu.lead
    refine ⟨by simpa using hx, hu.bound t, ?_, by simp⟩
    rw [List.take_left]
    exact hu.encode
  simp at h

theorem step_stops (h : c.step = .stop b w) : c.rest = [] ∨ StopsAt c.rest b w := by
  cases hrest : c.rest with
  | nil => exact .inl rfl
  | cons x t =>
    grind [Cursor.step, decodeRune_cons, Cursor.quotedStep, Cursor.plainStep, markerLength_stops,
      boundaryStep_stops]

theorem utf8Valid_of_mem_pieces (hv : utf8Valid (c.tok ++ c.rest) = true) (hp : p ∈ (segmentPieces fuel c).1) :
    utf8Valid p.text = true := by
  induction fuel generalizing c with
  | zero => rwa [eq_of_mem_tokenPiece hp]
  | succ fuel ih =>
    unfold segmentPieces at hp
    split at hp
    · next h =>
      rw [List.isEmpty_iff.mp h, List.append_nil] at hv
      rwa [eq_of_mem_tokenPiece hp]
    · next hne =>
      split at hp
      · exact ih (by simpa using hv) hp
      · next b w hstep =>
        have hstop := (step_stops hstep).resolve_left (by simpa using hne)
        obtain ⟨htok, hrest⟩ := utf8Valid_split hv hstop.head
        obtain ⟨htake, hdrop⟩ := hstop.bound hrest
        simp only [List.mem_append, List.mem_cons] at hp
        rcases hp with hp | rfl | hp
        · rwa [eq_of_mem_tokenPiece hp]
        · exact htake
        exact ih (by simpa using hdrop) hp

theorem written_of_mem_pieces {text : Bytes} {glued : Bool}
    (hp : .boundary b text glued ∈ (segmentPieces fuel c).1) : b.written text = text := by
  induction fuel generalizing c with
  | zero => simpa using eq_of_mem_tokenPiece hp
  | succ fuel ih =>
    unfold segmentPieces at hp
    split at hp
    · simpa using eq_of_mem_tokenPiece hp
    · next hne =>
      split at hp
      · exact ih hp
      · next hstep =>
        have hstop := (step_stops hstep).resolve_left (by simpa using hne)
        simp only [List.mem_append, List.mem_cons, Piece.boundary.injEq] at hp
        rcases hp with hp | ⟨rfl, rfl, -⟩ | hp
        · simpa using eq_of_mem_tokenPiece hp
        · exact hstop.written
        exact ih hp

theorem handed_of_mem_pieces (hv : utf8Valid (c.tok ++ c.rest) = true) (hp : p ∈ (segmentPieces fuel c).1) :
    p.handed = p.text := by
  cases p with
  | token raw seen =>
    have hraw : utf8Valid raw = true := utf8Valid_of_mem_pieces hv hp
    rw [Piece.handed, tokenText]
    split
    · exact toValidUTF8_of_valid hraw
    rfl
  | boundary b text glued => exact written_of_mem_pieces hp

theorem asciiCount_of_mem_pieces
    (hp : p ∈ (segmentPieces fuel c).1) : asciiCount p.text ≤ asciiCount (c.tok ++ c.rest) := by
  rw [← flatten_segmentPieces fuel c]
  exact asciiCount_le_of_sublist (List.sublist_flatten_of_mem (List.mem_map_of_mem hp))

theorem step_blank {c : UInt8} (hc : isBlank c = true) (rest : Bytes) (q : Nat) (seen : Bool) :
    (Cursor.mk [] (c :: rest) false q seen).step = .stop (.sep c.toNat) 1 := by
  simp only [isBlank, Bool.or_eq_true, beq_iff_eq] at hc
  rcases hc with rfl | rfl <;> rfl

theorem asciiCount_of_mem_tokens {q : Nat} (hfuel : rest.length ≤ fuel)
    {raw : Bytes} {seen : Bool} (hp : .token raw seen ∈ (segmentPieces fuel ⟨[], rest, false, q, false⟩).1) :
    asciiCount raw ≤ asciiCount (rest.dropWhile isBlank) := by
  induction rest generalizing fuel with
  | nil => simpa using asciiCount_of_mem_pieces hp
  | cons c rest ih =>
    cases hc : isBlank c with
    | false => simpa [hc] using asciiCount_of_mem_pieces hp
    | true =>
      obtain ⟨fuel, rfl⟩ : ∃ n, fuel = n + 1 := ⟨fuel - 1, by simp at hfuel; omega⟩
      rw [segmentPieces, if_neg (by simp), step_blank hc] at hp
      simp only [tokenPiece, List.isEmpty_nil, if_true, List.nil_append, List.mem_cons, reduceCtorEq,
        false_or, List.drop_succ_cons, List.drop_zero] at hp
      rw [List.dropWhile_cons_of_pos hc]
      exact ih (by simpa using hfuel) hp

def Step.width : Step → Nat
  | grow w .. => w
  | stop _ w => w

theorem width_plainStep {r : Nat} (hw : 1 ≤ w) {w' q : Nat} {inQuote invalid : Bool}
    (hs : c.plainStep r w = .grow w' inQuote q invalid) : 1 ≤ w' := by
  unfold Cursor.plainStep at hs
  split at hs
  · next len hlen =>
    cases hs
    rw [Option.ite_none_right_eq_some] at hlen
    grind [Cursor.quotedDocument]
  split at hs
  · cases hs
    exact hw
  split at hs
  · next len hm =>
    split at hs
    · cases hs
      exact (markerLength_stops hm).pos
    simp at hs
  unfold Cursor.boundaryStep at hs
  split_ifs at hs
  cases hs
  exact hw

theorem width_step_pos (hc : c.rest ≠ []) : 1 ≤ c.step.width := by
  cases hs : c.step with
  | stop b w => exact ((step_stops hs).resolve_left hc).pos
  | grow w inQuote quoteChar invalid =>
    obtain ⟨x, t, hrest⟩ := List.exists_cons_of_ne_nil hc
    have hw := decodeRune_width_pos x t
    rw [← hrest] at hw
    show 1 ≤ w
    unfold Cursor.step at hs
    generalize decodeRune c.rest = e at hs hw
    obtain ⟨r, v⟩ := e
    simp only at hs hw
    split at hs
    · cases hs
      exact le_rfl
    split at hs
    · grind [Cursor.quotedStep]
    exact width_plainStep hw hs

theorem segmentPieces_fuel {n m : Nat} (hn : c.rest.length ≤ n) (hm : c.rest.length ≤ m) :
    segmentPieces n c = segmentPieces m c := by
  induction n generalizing m c with
  | zero =>
    have hrest : c.rest = [] := List.length_eq_zero_iff.mp (by omega)
    cases m <;> simp [segmentPieces, hrest]
  | succ n ih =>
    match m with
    | 0 =>
      have hrest : c.rest = [] := List.length_eq_zero_iff.mp (by omega)
      simp [segmentPieces, hrest]
    | m + 1 =>
      unfold segmentPieces
      split
      · rfl
      · next hne =>
        have hpos := width_step_pos (c := c) (by simpa using hne)
        have hlen : 0 < c.rest.length := List.length_pos_iff.mpr (by simpa using hne)
        split
        · next hs =>
          rw [hs, Step.width] at hpos
          exact ih (by simp; omega) (by simp; omega)
        · next hs =>
          rw [hs, Step.width] at hpos
          rw [ih (m := m) (by simp; omega) (by simp; omega)]

end PiiShield
