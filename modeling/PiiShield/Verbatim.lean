import PiiShield.TokenShape

/-! The texts of a line that the scanner takes over without a look at their bytes. Every other byte
that is no UTF-8 is noticed by the tokenizer, and its token is repaired. -/

namespace PiiShield

variable {c : Cursor} {r : Nat} {t u : Bytes}

/-- A text taken over as a whole. One that stands alone is written as it is; the others become part
of a token. -/
structure Verbatim where
  text : Bytes
  alone : Bool
  deriving DecidableEq

/-- The single-quoted JSON document or the marker at the cursor. -/
def Cursor.verbatim (c : Cursor) : List Verbatim :=
  let r := (decodeRune c.rest).1
  if r == runeError || c.inQuote then []
  else
    match (if r == 0x27 then c.quotedDocument else none) with
    | some len => [⟨c.rest.take len, false⟩]
    | none =>
      match c.markerLength with
      | some len => [⟨c.rest.take len, !c.markerInURL len⟩]
      | none => []

def verbatimFrom : Nat → Cursor → List Verbatim
  | 0, _ => []
  | fuel + 1, c =>
    if c.rest.isEmpty then []
    else
      c.verbatim ++
        match c.step with
        | .grow w inQuote quoteChar invalid =>
          verbatimFrom fuel
            ⟨c.tok ++ c.rest.take w, c.rest.drop w, inQuote, quoteChar, c.seenInvalid || invalid⟩
        | .stop _ w => verbatimFrom fuel ⟨[], c.rest.drop w, false, c.quoteChar, false⟩

def segmentVerbatim (segment : Bytes) (inQuote : Bool) (quoteChar : Nat) : List Verbatim :=
  verbatimFrom segment.length ⟨[], segment, inQuote, quoteChar, false⟩

def carvedVerbatim (logLine : Bytes) : List Carve → Nat → Bool → Nat → List Verbatim
  | [], chunkStart, inQuote, quoteChar =>
    if chunkStart < logLine.length then segmentVerbatim (logLine.drop chunkStart) inQuote quoteChar else []
  | cv :: cvs, chunkStart, inQuote, quoteChar =>
    let quote := ConfigState.carveQuote logLine cv
    let start := cv.start - quote.length
    let stop := cv.stop + quote.length
    if chunkStart < start then
      let segment := slice logLine chunkStart start
      let q := (segmentPieces segment.length ⟨[], segment, inQuote, quoteChar, false⟩).2
      segmentVerbatim segment inQuote quoteChar ++ carvedVerbatim logLine cvs stop q.1 q.2
    else carvedVerbatim logLine cvs stop inQuote quoteChar

def ConfigState.verbatim {Num : Type} (st : ConfigState Num) (logLine : Bytes) : List Verbatim :=
  if logLine.isEmpty then []
  else if isGitDiffHeader logLine then [⟨logLine, true⟩]
  else if isPrivateKeyMarker logLine then []
  else
    let rest := logLine.drop (ConfigState.diffMarks logLine)
    carvedVerbatim rest (st.carves rest) 0 false 0

section Steps

variable {c : Cursor} {w q : Nat} {inQuote invalid : Bool}

theorem decodeRune_behind_error (hu : Encodes u runeError) :
    decodeRune ((u ++ t).drop 1) = (runeError, 1) := by
  have henc : u = [0xEF, 0xBF, 0xBD] := by
    rw [← hu.encode]
    decide
  rw [henc]
  exact decodeRune_of_isCont (by decide) _

theorem quotedStep_valid (hs : c.rest = u ++ t) (hu : Encodes u r)
    (h : c.quotedStep r u.length = .grow w inQuote q invalid) :
    invalid = true ∨ utf8Valid (c.rest.take w) = true := by
  have hvalid := hu.valid
  have hrest : c.rest.drop u.length = t := by rw [hs, List.drop_left]
  have htake : c.rest.take u.length = u := by rw [hs, List.take_left]
  unfold Cursor.quotedStep at h
  rw [hrest] at h
  simp only at h
  split at h
  · split at h
    · obtain ⟨rfl, -⟩ := Step.grow.inj h
      rw [htake]
      exact .inr hvalid
    · next hne =>
      obtain ⟨rfl, -, -, rfl⟩ := Step.grow.inj h
      cases t with
      | nil => simp at hne
      | cons b t =>
        rcases decodeRune_cons b t with hd | ⟨u', t', r', hs', hd, hu'⟩
        · rw [hd]
          exact .inl rfl
        have htake' : c.rest.take (u.length + u'.length) = u ++ u' := by grind
        rw [hd, htake']
        exact .inr (utf8Valid_append hvalid hu'.valid)
  obtain ⟨rfl, -⟩ := Step.grow.inj h
  rw [htake]
  exact .inr hvalid

theorem boundaryStep_valid (hs : c.rest = u ++ t) (hu : Encodes u r)
    (h : c.boundaryStep r u.length = .grow w inQuote q invalid) : utf8Valid (c.rest.take w) = true := by
  unfold Cursor.boundaryStep at h
  split_ifs at h
  obtain ⟨rfl, -⟩ := Step.grow.inj h
  rw [hs, List.take_left]
  exact hu.valid

theorem step_valid (h : c.step = .grow w inQuote q invalid) (hr : (decodeRune c.rest).1 ≠ runeError)
    (hv : ∀ v ∈ c.verbatim, utf8Valid v.text = true) : invalid = true ∨ utf8Valid (c.rest.take w) = true := by
  have hne : c.rest ≠ [] := by
    intro hnil
    rw [hnil] at hr
    exact hr rfl
  obtain ⟨b, s, hcons⟩ := List.exists_cons_of_ne_nil hne
  rcases decodeRune_cons b s with hd | ⟨u, t, r, hs, hd, hu⟩
  · rw [hcons, hd] at hr
    exact absurd rfl hr
  rw [← hcons] at hs hd
  have hr : (r == runeError) = false := by
    rw [hd] at hr
    simpa using hr
  have htake : c.rest.take u.length = u := by rw [hs, List.take_left]
  simp only [Cursor.verbatim, hd, hr, Bool.false_or] at hv
  simp only [Cursor.step, hd, hr, Bool.false_eq_true, if_false] at h
  cases hq : c.inQuote with
  | true =>
    rw [hq, if_pos rfl] at h
    exact quotedStep_valid hs hu h
  | false =>
    simp only [hq, Bool.false_eq_true, if_false] at h hv
    unfold Cursor.plainStep at h
    split at h
    · simp_all
    · next hdoc =>
      rw [hdoc] at hv
      split at h
      · obtain ⟨rfl, -⟩ := Step.grow.inj h
        rw [htake]
        exact .inr hu.valid
      split at h
      · next len hlen =>
        split at h
        · obtain ⟨rfl, -⟩ := Step.grow.inj h
          rw [hlen] at hv
          exact .inr (hv _ (List.mem_singleton_self _))
        · cases h
      exact .inr (boundaryStep_valid hs hu h)

theorem chainBoundary_ascii (tok rest : Bytes) : (rest.take (chainBoundary tok rest)).all isASCII = true := by
  have ascii {p : Bytes} (hp : hasPrefix rest p = true) (ha : p.all isASCII = true) :
      (rest.take p.length).all isASCII = true := by
    rw [List.prefix_iff_eq_take.mp (List.isPrefixOf_iff_prefix.mp hp)] at ha
    exact ha
  unfold chainBoundary
  split
  · split
    · next h =>
      simp only [Bool.and_eq_true] at h
      exact ascii h.1 (by decide)
    rfl
  split
  · next h =>
    split
    · exact ascii h (by decide)
    rfl
  split
  · next h =>
    split
    · exact ascii h (by decide)
    rfl
  rfl

theorem boundaryStep_written {b : Boundary} {n : Nat} (h : c.boundaryStep r n = .stop b w) :
    utf8Valid (b.written (c.rest.take w)) = true := by
  unfold Cursor.boundaryStep at h
  split at h
  · next hp =>
    obtain ⟨rfl, rfl⟩ := Step.stop.inj h
    have htake := List.prefix_iff_eq_take.mp (List.isPrefixOf_iff_prefix.mp hp)
    show utf8Valid (c.rest.take (bs "\\r\\n").length) = true
    rw [← htake]
    decide
  split at h
  · obtain ⟨rfl, rfl⟩ := Step.stop.inj h
    exact utf8Valid_ascii (chainBoundary_ascii _ _)
  split at h
  · obtain ⟨rfl, rfl⟩ := Step.stop.inj h
    exact utf8Valid_encodeRune _
  · cases h

theorem stop_valid {b : Boundary} (h : c.step = .stop b w) (hv : ∀ v ∈ c.verbatim, utf8Valid v.text = true) :
    (decodeRune c.rest).1 ≠ runeError ∧ utf8Valid (b.written (c.rest.take w)) = true := by
  by_cases hr : (decodeRune c.rest).1 = runeError
  · simp [Cursor.step, hr] at h
  refine ⟨hr, ?_⟩
  have hr : ((decodeRune c.rest).1 == runeError) = false := by simpa using hr
  simp only [Cursor.verbatim, hr, Bool.false_or] at hv
  simp only [Cursor.step, hr, Bool.false_eq_true, if_false] at h
  cases hq : c.inQuote with
  | true =>
    rw [hq, if_pos rfl] at h
    unfold Cursor.quotedStep at h
    simp only at h
    split_ifs at h
  | false =>
    simp only [hq, Bool.false_eq_true, if_false] at h hv
    unfold Cursor.plainStep at h
    split at h
    · cases h
    · next hdoc =>
      rw [hdoc] at hv
      split at h
      · cases h
      split at h
      · next len hlen =>
        split at h
        · cases h
        obtain ⟨rfl, rfl⟩ := Step.stop.inj h
        rw [hlen] at hv
        exact hv _ (List.mem_singleton_self _)
      exact boundaryStep_written h

end Steps

theorem opens_of_marker {len : Nat} (h : c.markerLength = some len) : (decodeRune c.rest).1 = 0x5B := by
  unfold Cursor.markerLength at h
  split at h
  · next hp =>
    obtain ⟨t, ht⟩ := List.isPrefixOf_iff_prefix.mp hp
    rw [← ht]
    rfl
  · cases h

theorem step_of_alone {v : Verbatim} (hv : v ∈ c.verbatim) (halone : v.alone = true) :
    ∃ len, c.step = .stop .marker len ∧ v.text = c.rest.take len := by
  unfold Cursor.verbatim at hv
  simp only at hv
  split at hv
  · simp at hv
  · next hplain =>
    simp only [Bool.or_eq_true, not_or, Bool.not_eq_true] at hplain
    split at hv
    · obtain rfl := List.mem_singleton.mp hv
      cases halone
    · next hdoc =>
      split at hv
      · simp_all [opens_of_marker, Cursor.step, Bool.false_eq_true, Cursor.plainStep]
      simp at hv

def Cursor.Noticed (c : Cursor) : Prop :=
  c.seenInvalid = true ∨ utf8Valid c.tok = true ∨ decodeRune c.rest = (runeError, 1)

theorem utf8Valid_tokenText {tok : Bytes} {seenInvalid : Bool} (h : seenInvalid = true ∨ utf8Valid tok = true) :
    utf8Valid (tokenText tok seenInvalid) = true := by
  cases seenInvalid with
  | true => exact utf8Valid_toValidUTF8 tok
  | false => exact h.resolve_left (by decide)

theorem Cursor.Noticed.grow (hc : c.Noticed) {w q : Nat} {inQuote invalid : Bool} (hne : c.rest ≠ [])
    (h : c.step = .grow w inQuote q invalid) (hv : ∀ v ∈ c.verbatim, utf8Valid v.text = true) :
    Cursor.Noticed ⟨c.tok ++ c.rest.take w, c.rest.drop w, inQuote, q, c.seenInvalid || invalid⟩ := by
  by_cases hr : (decodeRune c.rest).1 = runeError
  · obtain ⟨rfl, -, -, hinvalid⟩ : 1 = w ∧ c.inQuote = inQuote ∧ c.quoteChar = q ∧
        ((decodeRune c.rest).2 == 1) = invalid := by simpa [Cursor.step, hr] using h
    obtain ⟨b, s, hcons⟩ := List.exists_cons_of_ne_nil hne
    rcases decodeRune_cons b s with hd | ⟨u, t, r, hs, hd, hu⟩
    · left
      rw [← hcons] at hd
      rw [← hinvalid, hd]
      simp
    right
    grind [decodeRune_behind_error]
  rcases step_valid h hr hv with rfl | htake
  · left
    simp
  rcases hc with hseen | htok | hnext
  · left
    simp [hseen]
  · exact .inr (.inl (utf8Valid_append htok htake))
  rw [hnext] at hr
  exact absurd rfl hr

theorem utf8Valid_handed {fuel : Nat} (hfuel : c.rest.length ≤ fuel) (hc : c.Noticed)
    (hv : ∀ v ∈ verbatimFrom fuel c, utf8Valid v.text = true) {p : Piece} (hp : p ∈ (segmentPieces fuel c).1) :
    utf8Valid p.handed = true := by
  have last {c : Cursor} (hc : c.Noticed) (hr : (decodeRune c.rest) ≠ (runeError, 1)) {p : Piece}
      (hp : p ∈ tokenPiece c.tok c.seenInvalid) : utf8Valid p.handed = true := by
    rw [eq_of_mem_tokenPiece hp]
    rcases hc with hseen | htok | hnext
    · exact utf8Valid_tokenText (.inl hseen)
    · exact utf8Valid_tokenText (.inr htok)
    exact absurd hnext hr
  induction fuel generalizing c with
  | zero =>
    have hrest : c.rest = [] := List.length_eq_zero_iff.mp (by omega)
    rw [segmentPieces, hrest, List.append_nil] at hp
    exact last hc (by rw [hrest]; decide) hp
  | succ fuel ih =>
    unfold segmentPieces at hp
    unfold verbatimFrom at hv
    by_cases hempty : c.rest.isEmpty = true
    · rw [if_pos hempty] at hp
      exact last hc (by rw [List.isEmpty_iff.mp hempty]; decide) hp
    have hne : c.rest ≠ [] := by simpa using hempty
    have hwidth := width_step_pos hne
    rw [if_neg hempty] at hp hv
    simp only [List.mem_append] at hv
    have hhere (v : Verbatim) (hmem : v ∈ c.verbatim) := hv v (.inl hmem)
    cases hstep : c.step with
    | grow w inQuote q invalid =>
      rw [hstep] at hp hv hwidth
      refine ih ?_ (hc.grow hne hstep hhere) (fun v hmem => hv v (.inr hmem)) hp
      simp only [Step.width, List.length_drop] at hwidth ⊢
      omega
    | stop b w =>
      rw [hstep] at hp hv hwidth
      obtain ⟨hr, hwritten⟩ := stop_valid hstep hhere
      simp only [List.mem_append, List.mem_cons] at hp
      rcases hp with hp | rfl | hp
      · exact last hc (fun h => hr (by rw [h])) hp
      · exact hwritten
      refine ih ?_ (.inr (.inl utf8Valid_nil)) (fun v hmem => hv v (.inr hmem)) hp
      simp only [Step.width, List.length_drop] at hwidth ⊢
      omega

theorem boundary_of_alone {fuel : Nat} {v : Verbatim} (hv : v ∈ verbatimFrom fuel c)
    (halone : v.alone = true) : ∃ glued, .boundary .marker v.text glued ∈ (segmentPieces fuel c).1 := by
  induction fuel generalizing c with
  | zero => simp [verbatimFrom] at hv
  | succ fuel ih =>
    unfold verbatimFrom at hv
    unfold segmentPieces
    split at hv
    · simp at hv
    · next hempty =>
      rw [if_neg hempty]
      grind [step_of_alone]

theorem IsMarkerText.valid_of_part {m out : Bytes} (hm : IsMarkerText m) (hpart : m <:+: out)
    (hv : utf8Valid out = true) : utf8Valid m = true := by
  obtain ⟨x, rfl, -⟩ := hm
  obtain ⟨a, b, rfl⟩ := hpart
  have hclose : isASCII (chr ']') = true := by decide
  have hsplit : a ++ (bs "[HIDDEN" ++ (x ++ bs "]")) ++ b = a ++ (bs "[HIDDEN" ++ x) ++ chr ']' :: b := by
    have hbracket : bs "]" = [chr ']'] := by decide
    simp [hbracket]
  rw [hsplit, utf8Valid_append_ascii_cons hclose] at hv
  have hfirst : ∀ c ∈ (bs "[HIDDEN" ++ x).head?, isCont c = false := by
    have hword : bs "[HIDDEN" = chr '[' :: bs "HIDDEN" := by decide
    rw [hword]
    simp [isCont]
  obtain ⟨-, hopen⟩ := utf8Valid_split hv.1 hfirst
  rw [← List.append_assoc]
  exact utf8Valid_append hopen (by decide)

theorem isMarkerText_of_alone {v : Verbatim} (hv : v ∈ c.verbatim) (halone : v.alone = true) :
    IsMarkerText v.text := by
  grind [Cursor.verbatim, markerLength_spec]

theorem forall_verbatimFrom {P : Verbatim → Prop} (h : ∀ c : Cursor, ∀ v ∈ c.verbatim, P v) (fuel : Nat) (c : Cursor) :
    ∀ v ∈ verbatimFrom fuel c, P v := by
  induction fuel generalizing c with
  | zero => exact fun v hv => nomatch hv
  | succ fuel ih =>
    grind [verbatimFrom]

theorem forall_carvedVerbatim {P : Verbatim → Prop} (h : ∀ c : Cursor, ∀ v ∈ c.verbatim, P v) (line : Bytes)
    (cvs : List Carve) (chunkStart : Nat) (inQuote : Bool) (quoteChar : Nat) :
    ∀ v ∈ carvedVerbatim line cvs chunkStart inQuote quoteChar, P v := by
  induction cvs generalizing chunkStart inQuote quoteChar with
  | nil =>
    intro v hv
    unfold carvedVerbatim at hv
    split at hv
    · exact forall_verbatimFrom h _ _ v hv
    simp at hv
  | cons cv cvs ih =>
    intro v hv
    unfold carvedVerbatim at hv
    simp only at hv
    split at hv
    · rcases List.mem_append.mp hv with hv | hv
      · exact forall_verbatimFrom h _ _ v hv
      exact ih _ _ _ v hv
    exact ih _ _ _ v hv

theorem isMarkerText_of_mem_verbatim {Num : Type} {st : ConfigState Num} {line : Bytes}
    (hline : isGitDiffHeader line = false) {v : Verbatim} (hv : v ∈ st.verbatim line) (halone : v.alone = true) :
    IsMarkerText v.text := by
  unfold ConfigState.verbatim at hv
  simp only [hline, Bool.false_eq_true, if_false] at hv
  split at hv
  · simp at hv
  split at hv
  · simp at hv
  exact forall_carvedVerbatim (fun c v hv => isMarkerText_of_alone hv) _ _ _ _ _ v hv halone

end PiiShield
