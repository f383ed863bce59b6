import PiiShield.TokenLedger

/-! Every frame of the scanner accounts for its text: the tokens and boundaries of a
segment, the words of a user agent, the carves of a line and what stands between them. -/

namespace PiiShield

open ConfigState

variable {Num : Type} {st : ConfigState Num}

variable {c : UInt8} {secret : Bytes}

theorem tokenCall_spec {s : SegmentState} {token : Bytes} {override : Bool} {depth : Nat} {t : TokenCall}
    (h : st.tokenCall s token override depth = some t) : t.rawToken = token ∧ t.depth = depth := by
  grind [tokenCall, Option.some.inj]

theorem accounts_append (token : Bytes) (s : SegmentState) (depth : Nat) :
    Accounts st.ledger (.processAndAppend token s depth) (utf8Valid token = true) (fun _ => True) false
      (st.processAndAppend token s depth) token := by
  unfold processAndAppend
  simp only
  split
  · exact Accounts.of_eq (.write id (.pure trivial)) (List.append_nil _)
  · next hs =>
    split
    · next ho => exact .panic ⟨hs, ho⟩
    split
    · exact Accounts.of_eq (.write id (.pure trivial)) (List.append_nil _)
    · next t ht =>
      obtain ⟨rfl, rfl⟩ := tokenCall_spec ht
      exact Accounts.of_eq ((accounts_enter _ .logic id rfl).bind_clean fun _ _ => .pure trivial)
        (List.append_nil _)

section Segments

variable {seg : Bytes} {depth quoteChar : Nat} {inQuote : Bool}

theorem asciiCount_tokenText (raw : Bytes) (seen : Bool) : asciiCount (tokenText raw seen) = asciiCount raw := by
  unfold tokenText
  split
  · simp only [asciiCount, List.countP_eq_length_filter, filter_isASCII_toValidUTF8]
  rfl

theorem accounts_pieces {ps : List Piece} (s : SegmentState)
    (hv : ∀ p ∈ ps, utf8Valid seg = true → utf8Valid p.text = true)
    (hw : ∀ b text glued, .boundary b text glued ∈ ps → b.written text = text)
    (ha : ∀ raw seen, .token raw seen ∈ ps →
      asciiCount raw ≤ (Frame.scanSegmentFrom seg depth inQuote quoteChar).ascii) :
    Accounts st.ledger (.scanSegmentFrom seg depth inQuote quoteChar) (utf8Valid seg = true)
      (fun _ => True) false (scanPieces depth ps s) (ps.map Piece.text).flatten := by
  induction ps generalizing s with
  | nil => exact .pure trivial
  | cons p ps ih =>
    have ih (s : SegmentState) := ih s (fun p hp => hv p (by simp [hp]))
      (fun b text glued h => hw b text glued (by simp [h])) fun raw seen h => ha raw seen (by simp [h])
    rw [List.map_cons, List.flatten_cons]
    cases p with
    | token raw seen =>
      refine .call (L := st.ledger) (f := .processAndAppend (tokenText raw seen) s depth) ?_
        (hv _ (by simp)) ?_ fun s' _ => ih s'
      · exact .append (by rw [asciiCount_tokenText]; exact ha raw seen (by simp))
      · cases seen
        · exact .inl rfl
        exact .inr rfl
    | boundary b text glued =>
      have hb := hw b text glued (by simp)
      have hvalid : utf8Valid seg = true → utf8Valid (b.written text) = true := by
        rw [hb]
        exact hv (.boundary b text glued) (by simp)
      refine Accounts.of_eq (.write hvalid (ih _)) ?_
      rw [hb, Piece.text]

theorem accounts_segment (seg : Bytes) (depth : Nat) (inQuote : Bool) (quoteChar : Nat) :
    Accounts st.ledger (.scanSegmentFrom seg depth inQuote quoteChar) (utf8Valid seg = true)
      (fun _ => True) false (ConfigState.scanSegmentFrom seg depth inQuote quoteChar) seg := by
  have hflat := flatten_segmentPieces seg.length ⟨[], seg, inQuote, quoteChar, false⟩
  refine Accounts.of_eq ((accounts_pieces {} ?_ ?_ ?_).bind_clean fun _ _ => .pure trivial)
    ((List.append_nil _).trans hflat)
  · exact fun p hp hseg => utf8Valid_of_mem_pieces (by exact hseg) hp
  · exact fun b text glued hp => written_of_mem_pieces hp
  intro raw seen hp
  cases inQuote with
  | false => exact asciiCount_of_mem_tokens le_rfl hp
  | true => exact asciiCount_of_mem_pieces hp

end Segments

theorem accounts_agentPieces {ua : Bytes} {depth : Nat} {ps : List AgentPiece}
    (hcut : ∀ p ∈ ps, Cut ua p.text) :
    Accounts st.ledger (.scanUserAgent ua depth) (utf8Valid ua = true) (fun _ => True) false
      (writeAgentPieces depth ps) (ps.map AgentPiece.text).flatten := by
  induction ps with
  | nil => exact .pure trivial
  | cons p ps ih =>
    have ih := ih fun p hp => hcut p (by simp [hp])
    have hp := hcut p (by simp)
    rw [List.map_cons, List.flatten_cons]
    cases p with
    | run text => exact (accounts_enter _ (.agentRun hp) hp.valid rfl).bind_clean fun _ _ => ih
    | product core => exact .write hp.valid ih

theorem accounts_agent (ua : Bytes) (depth : Nat) :
    Accounts st.ledger (.scanUserAgent ua depth) (utf8Valid ua = true) (fun _ => True) false
      (ConfigState.scanUserAgent ua depth) ua := by
  obtain ⟨hflat, hvalid⟩ := agentPiecesFrom_spec ua.length [] 0 ua
  refine Accounts.of_eq (accounts_agentPieces fun p hp => ⟨?_, fun hv => hvalid rfl hv p hp⟩) hflat
  have h : asciiCount p.text ≤ asciiCount ([] ++ ua) := by
    rw [← hflat]
    exact asciiCount_le_of_sublist (List.sublist_flatten_of_mem (List.mem_map_of_mem hp))
  exact h

section Carves

theorem mergeable_carves (st : ConfigState Num) (line : Bytes) :
    Mergeable (st.luhnRanges line) (findShapedNumbers st.unicode line) ∧
      ∀ c ∈ st.luhnRanges line, NumberAt line c := by
  have h := mergeable_line st.unicode line
  have hno : Mergeable [] (findShapedNumbers st.unicode line) :=
    ⟨.nil, by simp, h.nums_apart, h.nums_lt⟩
  grind [luhnRanges, findLuhnSequences_spec]

theorem carves_spec (st : ConfigState Num) (line : Bytes) :
    (st.carves line).Pairwise (·.stop ≤ ·.start) ∧ ∀ cv ∈ st.carves line, NumberAt line cv.toRange := by
  obtain ⟨h, hcards⟩ := mergeable_carves st line
  refine ⟨pairwise_mergeCarvesFrom h.inOrder le_rfl, fun cv hcv => ?_⟩
  rcases (mem_mergeCarvesFrom h.inOrder le_rfl).mp hcv with ⟨n, hn, rfl⟩ | ⟨c, hc, rfl, -⟩
  · exact mem_findShapedNumbers hn
  exact hcards c hc

theorem isASCII_of_isNumberStart (h : isNumberStart c = true) : isASCII c = true := by
  simp only [isNumberStart, isASCIIDigit, Bool.or_eq_true, beq_iff_eq, Bool.and_eq_true,
    chr_def] at h
  simp only [isASCII, decide_eq_true_eq]
  rcases h with (rfl | rfl) | h
  · decide
  · decide
  grind

theorem isASCII_of_isNumberEnd (h : isNumberEnd c = true) : isASCII c = true := by
  simp only [isNumberEnd, isASCIIDigit, Bool.or_eq_true, beq_iff_eq, Bool.and_eq_true,
    chr_def] at h
  simp only [isASCII, decide_eq_true_eq]
  rcases h with (h | rfl) | rfl
  · grind
  · decide
  decide

theorem not_isQuote_of_isNumberStart (h : isNumberStart c = true) : isQuote c = false := by
  by_contra hq
  simp only [isQuote, dquote, squote, Bool.not_eq_false, Bool.or_eq_true, beq_iff_eq] at hq
  rcases hq with rfl | rfl <;> exact absurd h (by decide)

theorem NumberAt.bound_start {line : Bytes} {r : Range} (h : NumberAt line r) : Bound line r.start :=
  .at_ascii (Nat.lt_of_lt_of_le h.stops.lt h.stops.le) (isASCII_of_isNumberStart h.first)

theorem NumberAt.bound_stop {line : Bytes} {r : Range} (h : NumberAt line r) : Bound line r.stop := by
  have hlt := h.stops.lt
  have hle := h.stops.le
  have hb : Bound line (r.stop - 1 + 1) :=
    .after_ascii (by omega) (isASCII_of_isNumberEnd h.stops.last)
  rwa [Nat.sub_add_cancel (by omega)] at hb

theorem carveQuote_spec (line : Bytes) (cv : Carve) :
    carveQuote line cv = [] ∨ ∃ q, carveQuote line cv = [q] ∧ isQuote q = true ∧ 0 < cv.start ∧
      cv.stop < line.length ∧ byteAt line (cv.start - 1) = q ∧ byteAt line cv.stop = q := by
  unfold carveQuote
  grind

section Loop

variable {logLine line : Bytes} {depth : Nat} {d : Bool} {t : Bytes}

abbrev AccountsLine (st : ConfigState Num) (logLine : Bytes) (depth : Nat) (d : Bool) (p : Scan Num Unit) (t : Bytes) :
    Prop :=
  Accounts st.ledger (.scanLine logLine depth) (utf8Valid logLine = true) (fun _ => True) d p t

theorem name_carve {name : Bytes} (h : st.isPlain = true) (hrule : st.customRuleName secret = some name) :
    name = [] := by
  simp only [isPlain, Bool.and_eq_true, Option.isNone_iff_eq_none] at h
  simp [customRuleName, h.1.1.2] at hrule

theorem not_plain_of_safe (h : st.isSafeRegexWhitelisted secret = true) : st.isPlain = false := by
  grind [isSafeRegexWhitelisted, isPlain]

theorem accounts_writeCarve {cv : Carve} {quote : Bytes} {k : Scan Num Unit}
    (hsafe : st.isSafeRegexWhitelisted secret = true →
      AccountsLine st logLine depth d (.emit quote (.emit secret (.emit quote k))) t)
    (hhide : ∀ name strategy, (st.isPlain = true → name = []) →
      AccountsLine st logLine depth d (.emit quote (.mark ⟨secret, name, strategy⟩ (.emit quote k))) t) :
    AccountsLine st logLine depth d (do
      Prog.write quote
      st.writeCarve cv secret
      Prog.write quote
      k) t := by
  unfold writeCarve
  split
  · next hrule => exact hsafe hrule
  split
  · next name hrule => exact hhide _ _ fun h => name_carve h hrule
  split
  · exact hhide _ _ fun h => label_plain h _
  exact hhide _ _ fun h => label_plain h _

theorem accounts_carve {cv : Carve} {quote : Bytes} {k : Scan Num Unit} (hq : quote.all isFiller = true)
    (hquote : utf8Valid logLine = true → utf8Valid quote = true)
    (hv : utf8Valid logLine = true → utf8Valid secret = true) (hk : AccountsLine st logLine depth d k t) :
    AccountsLine st logLine depth d (do
      Prog.write quote
      st.writeCarve cv secret
      Prog.write quote
      k) (quote ++ (secret ++ (quote ++ t))) := by
  refine accounts_writeCarve (fun _ => .emit hquote (.emit hv (.emit hquote hk))) fun name strategy hname => ?_
  have hhides : st.ledger.hides (.scanLine logLine depth) ⟨secret, name, strategy⟩
      (quote ++ (secret ++ quote)) quote quote := by
    refine ⟨hname, .inr ⟨?_, ?_⟩⟩
    · simp only [List.length_append]
      omega
    simp only [List.length_append]
    omega
  exact (Accounts.hide (L := st.ledger) hq hq hhides hk).of_eq (by simp)

theorem accounts_sharedCarve {cv : Carve} {q : UInt8} {k : Scan Num Unit}
    (hq : isQuote q = true) (hfirst : firstIs secret isNumberStart = true)
    (hv : utf8Valid logLine = true → utf8Valid secret = true) (hk : AccountsLine st logLine depth d k t) :
    AccountsLine st logLine depth true (do
      Prog.write [q]
      st.writeCarve cv secret
      Prog.write [q]
      k) (secret ++ ([q] ++ t)) := by
  have hfill : [q].all isFiller = true := by simp [isFiller, hq]
  have hvalid : utf8Valid [q] = true := by simp [utf8Valid_ascii_cons (isASCII_of_isQuote hq)]
  refine accounts_writeCarve (fun hsafe => ?_) fun name strategy hname => ?_
  · exact .replace (L := st.ledger) (u := []) ⟨rfl, ⟨q, hq, rfl⟩, hfirst, not_plain_of_safe hsafe⟩ hv
      (.emit (fun _ => hvalid) hk)
  have hhides : st.ledger.hides (.scanLine logLine depth) ⟨secret, name, strategy⟩ (secret ++ [q]) [q] [q] := by
    refine ⟨hname, .inr ⟨?_, ?_⟩⟩
    · simp only [List.length_append, List.length_singleton]
      omega
    simp only [List.length_append, List.length_singleton]
    omega
  exact (Accounts.hide (L := st.ledger) hfill hfill hhides hk).of_eq (by simp)

theorem drop_eq_slice_append (s : Bytes) {i j : Nat} (hij : i ≤ j) : s.drop i = slice s i j ++ s.drop j := by
  have h := take_slice_drop (s := s) hij
  have h' := List.take_append_drop i s
  exact List.append_cancel_left (h'.trans h)

theorem accounts_chunk (hcut : Cut logLine line) {chunkStart start : Nat} (hb : Bound line chunkStart)
    (hs : Bound line start) (hle : chunkStart ≤ start) (inQuote : Bool) (quoteChar : Nat)
    {k : Bool × Nat → Scan Num Unit}
    (hk : ∀ q, AccountsLine st logLine depth d (k q) t) :
    AccountsLine st logLine depth d
      (if chunkStart < start then
        enter (.scanSegmentFrom (slice line chunkStart start) depth inQuote quoteChar) >>= k
      else pure (inQuote, quoteChar) >>= k) (slice line chunkStart start ++ t) := by
  split
  · have hslice := hcut.trans (hb.cut_slice hs hle)
    exact (accounts_enter _ (.segment hslice) hslice.valid rfl).bind_clean fun q _ => hk q
  have hnil : slice line chunkStart start = [] := by simp [slice]; omega
  rw [hnil]
  exact hk _

theorem accounts_carves (hcut : Cut logLine line) {cvs : List Carve} {chunkStart : Nat}
    (hsort : cvs.Pairwise (·.stop ≤ ·.start)) (hnum : ∀ cv ∈ cvs, NumberAt line cv.toRange)
    (hstart : ∀ cv ∈ cvs, chunkStart ≤ cv.start) (hb : Bound line chunkStart) (inQuote : Bool)
    (quoteChar : Nat) :
    AccountsLine st logLine depth (sharesQuoteFrom line cvs chunkStart)
      (st.scanCarves line depth cvs chunkStart inQuote quoteChar) (line.drop chunkStart) := by
  induction cvs generalizing chunkStart inQuote quoteChar with
  | nil =>
    unfold scanCarves
    split
    · have hdrop := hcut.trans hb.cut_drop
      exact accounts_discard _ (.segment hdrop) hdrop.valid rfl
    · next h =>
      rw [List.drop_of_length_le (Nat.le_of_not_lt h)]
      exact .pure trivial
  | cons cv cvs ih =>
    obtain ⟨hafter, hsort⟩ := List.pairwise_cons.mp hsort
    have hcv := hnum cv (by simp)
    have hle := hstart cv (by simp)
    have hlt := hcv.stops.lt
    have hlen := hcv.stops.le
    have hsecret : Cut line (slice line cv.start cv.stop) :=
      hcv.bound_start.cut_slice hcv.bound_stop hlt.le
    have ih {n : Nat} (hn : ∀ cv' ∈ cvs, n ≤ cv'.start) (hbn : Bound line n) (inQuote : Bool) (quoteChar : Nat) :=
      ih hsort (fun c hc => hnum c (by simp [hc])) hn hbn inQuote quoteChar
    rw [scanCarves, sharesQuoteFrom]
    rcases carveQuote_spec line cv with hq | ⟨q, hq, hquote, hpos, hstop, hbefore, hbehind⟩
    · -- No quotes: the carve follows the chunk before it.
      rw [hq, List.length_nil, Nat.sub_zero, Nat.add_zero, decide_eq_false (Nat.not_lt.mpr hle),
        Bool.false_or, drop_eq_slice_append line hle, drop_eq_slice_append line hlt.le]
      refine accounts_chunk hcut hb hcv.bound_start hle _ _ fun q => ?_
      exact accounts_carve rfl (fun _ => rfl) (hcut.trans hsecret).valid
        (ih (fun c hc => hafter c hc) hcv.bound_stop q.1 q.2)
    have hnext : ∀ c ∈ cvs, cv.stop + 1 ≤ c.start := by
      intro c hc
      have h1 := hafter c hc
      have h2 := not_isQuote_of_isNumberStart (hnum c (by simp [hc])).first
      rcases Nat.eq_or_lt_of_le h1 with h | h
      · rw [← h, hbehind, hquote] at h2
        simp at h2
      exact h
    have hascii := isASCII_of_isQuote hquote
    have hbstop : Bound line (cv.stop + 1) := .after_ascii hstop (hbehind ▸ hascii)
    have hrest := ih hnext hbstop
    have htail : line.drop cv.start = slice line cv.start cv.stop ++ ([q] ++ line.drop (cv.stop + 1)) := by
      rw [drop_eq_slice_append line hlt.le, List.drop_eq_getElem_cons hstop, ← byteAt_eq hstop, hbehind]
      rfl
    rw [hq, List.length_singleton]
    by_cases hshare : cv.start - 1 < chunkStart
    · -- The quote before the carve was written after the carve before.
      obtain rfl : chunkStart = cv.start := by omega
      rw [if_neg (by omega), decide_eq_true hshare, Bool.true_or, htail]
      refine accounts_sharedCarve hquote ?_ (hcut.trans hsecret).valid (hrest _ _)
      have hlen : cv.start < line.length := by omega
      simpa [firstIs, slice, hlt, hlen, byteAt_eq hlen] using hcv.first
    have hsub : cv.start - 1 + 1 = cv.start := by omega
    have hbstart : Bound line (cv.start - 1) := .at_ascii (by omega) (hbefore ▸ hascii)
    have hhead : line.drop (cv.start - 1) = [q] ++ line.drop cv.start := by
      rw [List.drop_eq_getElem_cons (by omega), ← byteAt_eq (by omega), hbefore, hsub]
      rfl
    rw [decide_eq_false hshare, Bool.false_or, drop_eq_slice_append line (Nat.le_of_not_lt hshare),
      hhead, htail]
    refine accounts_chunk hcut hb hbstart (Nat.le_of_not_lt hshare) _ _ fun c => ?_
    refine accounts_carve (by simp [isFiller, hquote]) (fun _ => ?_) (hcut.trans hsecret).valid
      (hrest c.1 c.2)
    simp [utf8Valid_ascii_cons hascii]

end Loop

end Carves

theorem diffMarks_ascii (line : Bytes) : (line.take (diffMarks line)).all isASCII = true := by
  unfold diffMarks
  simp only
  split
  · have hpre : (line.take 2).takeWhile (fun c : UInt8 => c == '+' || c == '-') <+: line :=
      (List.takeWhile_prefix _).trans (List.take_prefix 2 line)
    rw [← List.prefix_iff_eq_take.mp hpre, List.all_eq_true]
    intro c hc
    have hmark := List.mem_takeWhile_imp hc
    simp only [Bool.or_eq_true, beq_iff_eq] at hmark
    rcases hmark with rfl | rfl
    · decide
    decide
  rfl

theorem bound_diffMarks (line : Bytes) : Bound line (diffMarks line) := .ascii_take (diffMarks_ascii line)

theorem accounts_line (line : Bytes) (depth : Nat) :
    Accounts st.ledger (.scanLine line depth) (utf8Valid line = true) (fun _ => True)
      (st.sharesQuote line depth) (st.scanLine line depth) line := by
  have hb : Bound line (if depth == 0 then diffMarks line else 0) := by
    split
    · exact bound_diffMarks line
    exact .zero line
  unfold scanLine sharesQuote
  simp only
  generalize (if (depth == 0) = true then diffMarks line else 0) = n at hb ⊢
  split
  · next h =>
    obtain rfl : line = [] := List.isEmpty_iff.mp h
    exact .pure trivial
  · next h =>
    split
    · next hg =>
      rw [hg]
      simp only [Bool.not_true, Bool.and_false, Bool.false_and]
      exact .write_only id
    · next hg =>
      split
      · exact .place_only hides_whole
      obtain ⟨hsort, hnum⟩ := carves_spec st (line.drop n)
      rw [Bool.eq_false_iff.mpr h, Bool.eq_false_iff.mpr hg, Bool.not_false, Bool.true_and,
        Bool.true_and]
      refine Accounts.of_eq (.write hb.cut_take.valid
        (accounts_carves hb.cut_drop hsort hnum (by simp) (.zero _) false 0)) ?_
      simp

theorem keeps_ledger (st : ConfigState Num) : st.machine.Keeps st.ledger st.departs := by
  intro f
  cases f with
  | scanLine line depth => exact accounts_line line depth
  | scanSegmentFrom seg depth inQuote quoteChar => exact accounts_segment seg depth inQuote quoteChar
  | processAndAppend token s depth => exact accounts_append token s depth
  | processTokenLogic t => exact accounts_tokenLogic t
  | processEqualPair raw forced override depth => exact accounts_equalPair raw forced override depth
  | processColonPair raw override depth => exact accounts_colonPair raw override depth
  | maskURLParameters url depth => exact accounts_mask url depth
  | scanUserAgent ua depth => exact accounts_agent ua depth

end PiiShield
