import PiiShield.Postconditions
import PiiShield.Unchanged
import PiiShield.Verbatim

/-! When the scanner's output is valid UTF-8: whenever the texts that it takes over without a look at
their bytes are, and of those that it writes as they are, only then. -/

namespace PiiShield

open ConfigState

variable {Num : Type} {st : ConfigState Num}

theorem isASCII_hexDigit : ∀ n < 16, isASCII (hexDigit n) = true := by decide

theorem all_hexDigits (b : UInt8) : (hexDigits b).all isASCII = true := by
  have hlt := b.toNat_lt
  simp only [hexDigits, List.all_cons, List.all_nil, Bool.and_true, Bool.and_eq_true]
  exact ⟨isASCII_hexDigit _ (by omega), isASCII_hexDigit _ (by omega)⟩

theorem utf8Valid_marker {m : Mark} (h : m.name = []) : utf8Valid (st.marker m) = true := by
  apply utf8Valid_ascii
  simp only [marker, h, List.isEmpty_nil, if_true, List.append_nil, List.all_append, all_hexDigits, Bool.and_true]
  decide

theorem utf8Valid_of_filler {q : Bytes} (h : q.all isFiller = true) : utf8Valid q = true := by
  apply utf8Valid_ascii
  rw [List.all_eq_true] at h ⊢
  intro c hc
  have hfill := h c hc
  simp only [isFiller, Bool.or_eq_true, beq_iff_eq] at hfill
  rcases hfill with (hq | rfl) | rfl
  · exact isASCII_of_isQuote hq
  · decide
  decide

def ConfigState.Sound (st : ConfigState Num) : Frame → Prop
  | .scanSegmentFrom segment _ inQuote quoteChar =>
    utf8Valid segment = true ∨ ∀ v ∈ segmentVerbatim segment inQuote quoteChar, utf8Valid v.text = true
  | .scanLine logLine 0 => utf8Valid logLine = true ∨ ∀ v ∈ st.verbatim logLine, utf8Valid v.text = true
  | f => utf8Valid (st.ledger.text f) = true

def ConfigState.Shows (st : ConfigState Num) : (f : Frame) → f.Ret → Bytes → Prop
  | .scanSegmentFrom segment _ inQuote quoteChar, q, out =>
    q = (segmentPieces segment.length ⟨[], segment, inQuote, quoteChar, false⟩).2 ∧
      ∀ v ∈ segmentVerbatim segment inQuote quoteChar, v.alone = true → v.text <:+: out
  | .scanLine logLine 0, _, out => ∀ v ∈ st.verbatim logLine, v.alone = true → v.text <:+: out
  | f, a, _ => st.ledger.answers f a

def ConfigState.post (st : ConfigState Num) (f : Frame) : Post f.Ret :=
  fun r out => (st.Sound f → utf8Valid out = true) ∧ ∀ a, r = some a → st.Shows f a out

theorem sound_of_valid {f : Frame} (h : utf8Valid (st.ledger.text f) = true) : st.Sound f := by
  cases f with
  | scanSegmentFrom segment depth inQuote quoteChar => exact .inl h
  | scanLine line depth =>
    cases depth with
    | zero => exact .inl h
    | succ depth => exact h
  | _ => exact h

theorem answers_of_shows {f : Frame} {a : f.Ret} {out : Bytes} (h : st.Shows f a out) : st.ledger.answers f a := by
  cases f with
  | scanSegmentFrom segment depth inQuote quoteChar | scanLine line depth => exact trivial
  | _ => exact h

theorem meets_ledger (hst : st.isPlain = true) (f : Frame) :
    (st.machine.body f).Meets st.machine.render st.post fun r out =>
      (utf8Valid (st.ledger.text f) = true → utf8Valid out = true) ∧ ∀ a, r = some a → st.ledger.answers f a := by
  have h : (st.machine.body f).Meets st.machine.render st.post fun r out =>
      (utf8Valid (st.ledger.text f) = true → utf8Valid ([] ++ out) = true) ∧
        ∀ a, r = some a → st.ledger.answers f a := by
    refine (keeps_ledger st f).meets (lawful_ledger st) ?_ ?_ ?_ fun _ => rfl
    · exact fun hm => utf8Valid_marker (hm.1 hst)
    · exact fun hq => utf8Valid_of_filler hq
    exact fun g r y hy => ⟨fun hv => hy.1 (sound_of_valid hv), fun a ha => answers_of_shows (hy.2 a ha)⟩
  exact h

theorem meets_pieces {ps : List Piece} {C : Prop} (hv : C → ∀ p ∈ ps, utf8Valid p.handed = true) (depth : Nat)
    (s : SegmentState) :
    (scanPieces depth ps s : Scan Num Unit).Meets st.machine.render st.post fun r out =>
      (C → utf8Valid out = true) ∧
        ∀ a, r = some a → ∀ b text glued, .boundary b text glued ∈ ps → b.written text <:+: out := by
  induction ps generalizing s with
  | nil => exact ⟨fun _ => rfl, fun _ _ _ _ _ hmem => nomatch hmem⟩
  | cons p ps ih =>
    have ih (s : SegmentState) := ih (fun hC p hp => hv hC p (List.mem_cons_of_mem _ hp)) s
    have hhead (hC : C) := hv hC p List.mem_cons_self
    cases p with
    | token raw seen =>
      refine Prog.Meets.bind (.call_only (S := scanSig Num) _) (fun x hx => ?_) fun s' x hx => (ih s').mono ?_
      · exact ⟨fun hC => hx.1 (hhead hC), fun a ha => nomatch ha⟩
      rintro r y ⟨hvalid, hshow⟩
      refine ⟨fun hC => utf8Valid_append (hx.1 (hhead hC)) (hvalid hC), fun a ha b text glued hmem => ?_⟩
      grind
    | boundary b text glued =>
      show (scanPieces depth ps (atBoundary s b glued) : Scan Num Unit).Meets _ _ _
      refine (ih _).mono ?_
      rintro r y ⟨hvalid, hshow⟩
      refine ⟨fun hC => utf8Valid_append (hhead hC) (hvalid hC), fun a ha b' text' glued' hmem => ?_⟩
      grind [List.prefix_append]

theorem meets_segment (segment : Bytes) (depth : Nat) (inQuote : Bool) (quoteChar : Nat) :
    (ConfigState.scanSegmentFrom segment depth inQuote quoteChar : Scan Num (Bool × Nat)).Meets st.machine.render
      st.post (st.post (.scanSegmentFrom segment depth inQuote quoteChar)) := by
  have hhanded (hs : st.Sound (.scanSegmentFrom segment depth inQuote quoteChar)) (p : Piece)
      (hp : p ∈ (segmentPieces segment.length ⟨[], segment, inQuote, quoteChar, false⟩).1) :
      utf8Valid p.handed = true := by
    rcases hs with hvalid | hverbatim
    · rw [handed_of_mem_pieces (by exact hvalid) hp]
      exact utf8Valid_of_mem_pieces (by exact hvalid) hp
    exact utf8Valid_handed (c := ⟨[], segment, inQuote, quoteChar, false⟩) (Nat.le_refl _)
      (.inr (.inl rfl)) hverbatim hp
  refine Prog.Meets.bind (meets_pieces hhanded depth {}) (fun x hx => ⟨hx.1, fun a ha => nomatch ha⟩) ?_
  rintro _ x ⟨hvalid, hshow⟩
  show st.post _ (some _) (x ++ [])
  rw [List.append_nil]
  refine ⟨hvalid, fun a ha => ⟨(Option.some.inj ha).symm, fun v hv halone => ?_⟩⟩
  obtain ⟨glued, hmem⟩ := boundary_of_alone hv halone
  exact hshow _ rfl .marker v.text glued hmem

theorem writeCarve_plain (hst : st.isPlain = true) (cv : Carve) (secret : Bytes) :
    ∃ m : Mark, st.writeCarve cv secret = .place m ∧ m.name = [] := by
  have hsafe : st.isSafeRegexWhitelisted secret = false := by grind [not_plain_of_safe]
  unfold writeCarve
  rw [hsafe, if_neg (by decide)]
  split
  · next name hrule => exact ⟨_, rfl, name_carve hst hrule⟩
  split
  · exact ⟨_, rfl, label_plain hst _⟩
  exact ⟨_, rfl, label_plain hst _⟩

theorem utf8Valid_carveQuote (line : Bytes) (cv : Carve) : utf8Valid (carveQuote line cv) = true := by
  grind [carveQuote_spec, utf8Valid_of_filler, isFiller]

def LinePost (vs : List Verbatim) : Post Unit := fun r out =>
  ((∀ v ∈ vs, utf8Valid v.text = true) → utf8Valid out = true) ∧
    ∀ a, r = some a → ∀ v ∈ vs, v.alone = true → v.text <:+: out

theorem LinePost.append {vs ws : List Verbatim} {r : Option Unit} {x y : Bytes}
    (hx : (∀ v ∈ vs, utf8Valid v.text = true) → utf8Valid x = true)
    (hshow : ∀ v ∈ vs, v.alone = true → v.text <:+: x) (hy : LinePost ws r y) : LinePost (vs ++ ws) r (x ++ y) := by
  obtain ⟨hvalid, hrest⟩ := hy
  refine ⟨fun hv => utf8Valid_append (hx fun v hmem => ?_) (hvalid fun v hmem => ?_), fun a ha v hmem halone => ?_⟩
  · exact hv v (List.mem_append_left _ hmem)
  · exact hv v (List.mem_append_right _ hmem)
  grind

theorem LinePost.after {vs : List Verbatim} {r : Option Unit} {x y : Bytes} (hx : utf8Valid x = true)
    (hy : LinePost vs r y) : LinePost vs r (x ++ y) := by
  obtain ⟨hvalid, hrest⟩ := hy
  refine ⟨fun hv => utf8Valid_append hx (hvalid hv), fun a ha v hmem halone => ?_⟩
  exact (hrest a ha v hmem halone).trans (List.suffix_append x y).isInfix

theorem meets_carves (hst : st.isPlain = true) (line : Bytes) (depth : Nat) (cvs : List Carve) (chunkStart : Nat)
    (inQuote : Bool) (quoteChar : Nat) :
    (st.scanCarves line depth cvs chunkStart inQuote quoteChar).Meets st.machine.render st.post
      (LinePost (carvedVerbatim line cvs chunkStart inQuote quoteChar)) := by
  induction cvs generalizing chunkStart inQuote quoteChar with
  | nil =>
    unfold scanCarves carvedVerbatim
    split
    · refine Prog.Meets.bind (.call_only (S := scanSig Num) _) (fun x hx => ?_) fun q x hx => ?_
      · exact ⟨fun hv => hx.1 (.inr hv), fun a ha => by cases ha⟩
      show LinePost _ (some ()) (x ++ [])
      rw [List.append_nil]
      exact ⟨fun hv => hx.1 (.inr hv), fun _ _ => (hx.2 q rfl).2⟩
    exact ⟨fun _ => rfl, fun _ _ _ hmem => by cases hmem⟩
  | cons cv cvs ih =>
    obtain ⟨m, hcarve, hname⟩ := writeCarve_plain hst cv (slice line cv.start cv.stop)
    have hquote := utf8Valid_carveQuote line cv
    have hmark : utf8Valid (st.machine.render m) = true := utf8Valid_marker hname
    have hrest (q : Bool × Nat) := ih (cv.stop + (carveQuote line cv).length) q.1 q.2
    have hhidden {ws : List Verbatim} {r : Option Unit} {y : Bytes} (hy : LinePost ws r y) :
        LinePost ws r (carveQuote line cv ++ (st.machine.render m ++ (carveQuote line cv ++ y))) :=
      .after hquote (.after hmark (.after hquote hy))
    unfold scanCarves carvedVerbatim
    simp only [hcarve]
    split
    · refine Prog.Meets.bind (.call_only (S := scanSig Num) _) (fun x hx => ?_) fun q x hx => ?_
      · refine ⟨fun hv => hx.1 (.inr fun v hmem => hv v (List.mem_append_left _ hmem)), fun a ha => by cases ha⟩
      obtain ⟨hq, hshow⟩ := hx.2 q rfl
      rw [← hq]
      refine (hrest q).mono fun r y hy => ?_
      exact .append (fun hv => hx.1 (.inr hv)) hshow (hhidden hy)
    exact (hrest (inQuote, quoteChar)).mono fun r y hy => hhidden hy

theorem meets_line (hst : st.isPlain = true) (line : Bytes) :
    (st.scanLine line 0).Meets st.machine.render st.post (LinePost (st.verbatim line)) := by
  unfold scanLine ConfigState.verbatim
  simp only [beq_self_eq_true, Bool.true_and, if_true]
  split
  · exact ⟨fun _ => rfl, fun _ _ _ hmem => nomatch hmem⟩
  split
  · show LinePost _ (some ()) (line ++ [])
    rw [List.append_nil]
    refine ⟨fun hv => hv _ (List.mem_singleton_self _), fun _ _ v hmem _ => ?_⟩
    grind
  split
  · show LinePost _ (some ()) (st.marker _ ++ [])
    rw [List.append_nil]
    exact ⟨fun _ => utf8Valid_marker (label_plain hst _), fun _ _ _ hmem => nomatch hmem⟩
  refine (meets_carves hst _ 0 _ 0 false 0).mono fun r y hy => ?_
  exact hy.after (utf8Valid_ascii (diffMarks_ascii line))

theorem meets_body (hst : st.isPlain = true) (f : Frame) :
    (st.machine.body f).Meets st.machine.render st.post (st.post f) := by
  cases f with
  | scanSegmentFrom segment depth inQuote quoteChar => exact meets_segment segment depth inQuote quoteChar
  | scanLine line depth =>
    have hledger := meets_ledger hst (.scanLine line depth)
    cases depth with
    | zero =>
      refine (hledger.and (meets_line hst line)).mono ?_
      rintro r x ⟨⟨hvalid, -⟩, hverbatim, hshow⟩
      exact ⟨fun hs => hs.elim hvalid hverbatim, hshow⟩
    | succ depth => exact hledger
  | processAndAppend token s depth => exact meets_ledger hst (.processAndAppend token s depth)
  | processTokenLogic t => exact meets_ledger hst (.processTokenLogic t)
  | processEqualPair raw forced override depth => exact meets_ledger hst (.processEqualPair raw forced override depth)
  | processColonPair raw override depth => exact meets_ledger hst (.processColonPair raw override depth)
  | maskURLParameters url depth => exact meets_ledger hst (.maskURLParameters url depth)
  | scanUserAgent ua depth => exact meets_ledger hst (.scanUserAgent ua depth)

theorem run_post (hst : st.isPlain = true) (n : Nat) (f : Frame) (b : BaselineStats Num) :
    st.post f (st.machine.run n f b).res.toOption (st.machine.run n f b).out := by
  have hzero (f : Frame) : st.post f none [] := ⟨fun _ => rfl, fun a ha => nomatch ha⟩
  exact Machine.run_meets (S := scanSig Num) hzero (meets_body hst) n f b

theorem scan_header (b : BaselineStats Num) {line : Bytes} (hline : isGitDiffHeader line = true) :
    (st.scanAndRedact b line).out = line := by
  have hne : line.isEmpty = false := by
    cases line with
    | nil => exact absurd hline (by decide)
    | cons c line => rfl
  have hbody : st.machine.body (.scanLine line 0) = Prog.write line := by
    show st.scanLine line 0 = _
    simp [ConfigState.scanLine, hne, hline]
  obtain ⟨n, hn⟩ : ∃ n, scanFuel line = n + 1 := Nat.exists_eq_add_one.mpr (by simp [scanFuel])
  rw [scanAndRedact, hn, Machine.run, hbody]
  exact List.append_nil line

/-- The output is valid UTF-8 whenever the texts taken over without a look at their bytes are; those
that stand alone are written as they are, so the output of a scan that ends is valid only if they are. -/
theorem output_utf8_valid (st : ConfigState Num) (hst : st.isPlain = true) (b : BaselineStats Num) (line : Bytes) :
    let r := st.scanAndRedact b line
    ((utf8Valid line = true ∨ ∀ v ∈ st.verbatim line, utf8Valid v.text = true) → utf8Valid r.out = true) ∧
      (r.res = .ok () → utf8Valid r.out = true →
        ∀ v ∈ st.verbatim line, v.alone = true → utf8Valid v.text = true) := by
  intro r
  have hpost : st.post (.scanLine line 0) r.res.toOption r.out := run_post hst (scanFuel line) (.scanLine line 0) b
  refine ⟨hpost.1, fun hres hvalid v hv halone => ?_⟩
  cases hline : isGitDiffHeader line with
  | true =>
    have hout : r.out = line := scan_header b hline
    have hmem : v ∈ [(⟨line, true⟩ : Verbatim)] := by
      unfold ConfigState.verbatim at hv
      split at hv
      · simp at hv
      exact hv
    rw [List.mem_singleton.mp hmem]
    rwa [hout] at hvalid
  | false =>
    rw [hres] at hpost
    have hpart : v.text <:+: r.out := hpost.2 () rfl v hv halone
    exact (isMarkerText_of_mem_verbatim hline hv halone).valid_of_part hpart hvalid

theorem output_utf8_repaired :
    utf8Valid (ConfigState.sample.scanAndRedact newBaselineStats (bs "a" ++ [0xFF] ++ bs " b")).out = true :=
  (output_utf8_valid ConfigState.sample (by decide) newBaselineStats (bs "a" ++ [0xFF] ++ bs " b")).1
    (.inr (by decide +kernel))

theorem output_utf8_invalid :
    utf8Valid (ConfigState.sample.scanAndRedact newBaselineStats (bs "rename to " ++ [0xFF])).out = false ∧
      utf8Valid (ConfigState.sample.scanAndRedact newBaselineStats (bs "[HIDDEN" ++ [0xFF] ++ bs "]")).out = false := by
  decide +kernel

end PiiShield
