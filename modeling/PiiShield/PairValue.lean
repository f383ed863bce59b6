import PiiShield.PlainTokens
import PiiShield.RunResult

/-! The value of a sensitive pair `key=value` is hidden whole, unless the token is read as a
URL, as a path with a bot token or as padded base64, or a number is carved out of it. -/

namespace PiiShield

open ConfigState

variable {Num : Type}

variable {line : Bytes}

structure SensitiveKey (st : ConfigState Num) (k : Bytes) : Prop where
  bytes : k.all isKeyByte = true
  letter : firstIs k isASCIILetter = true
  field : looksLikeFieldName st.unicode k = true
  signature : matchSignature k = []
  sensitive : st.isSensitiveKey k = true

structure SensitivePair (st : ConfigState Num) (k v : Bytes) : Prop extends SensitiveKey st k where
  plain : v.all isPlainByte = true
  nonempty : v ≠ []
  url : contains v (bs "://") = false
  basic : equalFold v (bs "basic") = false
  bearer : equalFold v (bs "bearer") = false

structure ReadAsPair (k u : Bytes) : Prop where
  basic : equalFold u (bs "basic") = false
  bearer : equalFold u (bs "bearer") = false
  query : hasQueryShape (k ++ chr '=' :: u) = false
  path : (hasTelegramShape (k ++ chr '=' :: u) && (k ++ chr '=' :: u).contains (chr '/') &&
    hasPathSignature (k ++ chr '=' :: u)) = false
  blob : isPaddedBase64Blob (k ++ chr '=' :: u) = false

def tiles (stop : Nat) : List Carve → Nat → Bool
  | [], at_ => at_ == stop
  | cv :: cvs, at_ => cv.start == at_ && tiles stop cvs cv.stop

def carvesStart (line : Bytes) (cvs : List Carve) : Nat := (cvs.head?.map (·.start)).getD line.length

/-- The numbers carved out of `k=v`, if any, take the end of the value, and what is before
them is read as a pair. -/
structure ReadWhole (st : ConfigState Num) (k v : Bytes) : Prop where
  inside : k.length < carvesStart (k ++ chr '=' :: v) (st.carves (k ++ chr '=' :: v))
  tiled : tiles (k ++ chr '=' :: v).length (st.carves (k ++ chr '=' :: v))
    (carvesStart (k ++ chr '=' :: v) (st.carves (k ++ chr '=' :: v))) = true
  pair : ReadAsPair k
    (v.take (carvesStart (k ++ chr '=' :: v) (st.carves (k ++ chr '=' :: v)) - (k.length + 1)))

section Token

variable {st : ConfigState Num} {k u : Bytes}

/-- The call of `processTokenLogic` for the first token of a line. -/
def firstCall (tok : Bytes) : TokenCall := ⟨tok, false, false, false, false, false, 0⟩

theorem all_isPlainByte_key (hk : SensitiveKey st k) : k.all isPlainByte = true :=
  List.all_eq_true.mpr fun c hc => isPlainByte_of_isKeyByte (List.all_eq_true.mp hk.bytes c hc)

theorem all_isPlainByte_pair (hk : SensitiveKey st k) (hu : u.all isPlainByte = true) :
    (k ++ chr '=' :: u).all isPlainByte = true := by
  rw [List.all_append, List.all_cons, all_isPlainByte_key hk, hu]
  rfl

theorem firstIs_pair (hk : SensitiveKey st k) (u : Bytes) :
    firstIs (k ++ chr '=' :: u) isASCIILetter = true := by
  have h := hk.letter
  cases k with
  | nil => simp [firstIs] at h
  | cons c t => simpa [firstIs] using h

theorem cut_of_key (hk : SensitiveKey st k) (u : Bytes) : cut (k ++ chr '=' :: u) (bs "=") = some (k, u) :=
  cut_pair (not_mem_key hk.bytes (by decide))

theorem tokenCall_pair (hk : SensitiveKey st k) (hu : u.all isPlainByte = true) :
    st.tokenCall {} (k ++ chr '=' :: u) false 0 = some (firstCall (k ++ chr '=' :: u)) := by
  have hplain := all_isPlainByte_pair hk hu
  have hhash : st.isShortHashUnderHashKey (k ++ chr '=' :: u) false = false := by
    simp only [isShortHashUnderHashKey, Bool.false_eq_true, if_false, splitCompactPair_plain hplain,
      cut_of_key hk u, Option.none_or, Option.map_some, trimQuotes_plain (all_isPlainByte_key hk),
      hk.sensitive, Bool.not_true, Bool.and_false]
  simp only [tokenCall, trimSpace_plain hplain, hhash, Bool.false_and, Bool.false_eq_true, if_false,
    isForced, forcedByKey, isSchemeCredential, isSaidSecret, Bool.or_self, firstCall]

theorem processTokenLogic_pair (hk : SensitiveKey st k) (hu : u.all isPlainByte = true)
    (hurl : contains u (bs "://") = false) (h : ReadAsPair k u) :
    st.processTokenLogic (firstCall (k ++ chr '=' :: u)) =
      st.tokenEqualPair (firstCall (k ++ chr '=' :: u)) := by
  have hplain := all_isPlainByte_pair hk hu
  have hletter := firstIs_pair hk u
  have hmark : contains (k ++ chr '=' :: u) (bs "[HIDDEN") = false := by
    rw [show bs "[HIDDEN" = chr '[' :: bs "HIDDEN" from by rfl]
    exact contains_plain hplain (by rfl) _
  have hscheme : contains (k ++ chr '=' :: u) (bs "://") = false := by
    have hb : bs "://" = chr ':' :: bs "//" := by rfl
    rw [hb] at hurl ⊢
    rw [List.append_cons, contains_pair, hurl]
    rw [List.mem_append, not_or]
    exact ⟨not_mem_key hk.bytes (by decide), by decide⟩
  have hsig : matchSignature (k ++ chr '=' :: u) = [] := matchSignature_pair (by simp) hletter
  have hdepth : ¬ maxTokenRecursionDepth < 0 := by decide
  simp only [processTokenLogic, tokenMarker, tokenJSONLiteral, tokenBytesLiteral, tokenChain, tokenURL,
    tokenTelegram, tokenTimestamp, tokenLogPrefix, tokenCompactPair, tokenForcedColon, firstCall, hdepth,
    if_false, escapedOrBacktickWrap_plain hplain, hmark, Bool.not_false, if_true, escapedJSONString_plain hplain,
    isBytesLiteral_plain hplain, Bool.false_eq_true, firstIs_isQuote_plain hplain, Bool.false_and,
    hscheme, h.query, Bool.or_self, trimQuotes_plain hplain, hsig, bne_self_eq_false,
    Bool.and_false, h.path, isISO8601Timestamp_of_letter _ hletter, pythonLogPrefixEnd_pair hk.bytes,
    Nat.lt_irrefl, decide_false, splitCompactPair_plain hplain, Option.isSome_none]

theorem processEqualPair_pair (hk : SensitiveKey st k) (hu : u.all isPlainByte = true) (h : ReadAsPair k u) :
    st.processEqualPair (k ++ chr '=' :: u) false false 0 = st.bareEqualPair k u false 0 := by
  simp only [processEqualPair, cut_of_key hk u, h.blob, isElidedBase64_pair hk.bytes, Bool.or_self,
    Bool.false_eq_true, if_false, Bool.false_and, isBalancedQuoted_plain (all_isPlainByte_pair hk hu)]

theorem singleTokenAction_plain (hsafe : st.config.safeRegexes = []) (hu : u.all isPlainByte = true)
    (hne : u ≠ []) : ∃ m, ∀ b, st.singleTokenAction b u u true false false = .redact [] m [] := by
  have hquote : quoteOf u = [] := by
    have hno (c : UInt8) (hc : isPlainByte c = false) : hasPrefix u [c] = false := by
      rw [Bool.eq_false_iff]
      intro hp
      exact not_mem_plain hu hc ((List.isPrefixOf_iff_prefix.mp hp).subset (by simp))
    simp [quoteOf, hno dquote (by rfl), hno squote (by rfl)]
  have hq : quoteFor st.unicode u u false = [] := by simp [quoteFor, hquote]
  have hred : isRedacted u = false := by
    have : hasPrefix u (bs "[HIDDEN") = false := by
      rw [Bool.eq_false_iff]
      intro hp
      exact not_mem_plain hu (c := chr '[') (by rfl)
        ((List.isPrefixOf_iff_prefix.mp hp).subset (by decide))
    simp [isRedacted, this]
  have hempty : u.isEmpty = false := by simpa using hne
  have hat : indexByte u '@' = none := by
    have : chr '@' ∉ u := not_mem_plain hu (by rfl)
    simpa [indexByte, List.idxOf?_eq_none_iff] using this
  simp only [singleTokenAction, hempty, hred, Bool.or_self, Bool.false_eq_true, if_false, Bool.not_true,
    Bool.false_and, hsafe, List.any_nil]
  cases hrule : st.customRule u with
  | some name => exact ⟨_, fun _ => by rw [hq]⟩
  | none =>
    cases hsig : matchSignature u with
    | nil =>
      have hs : signatureOf u = none := by
        rw [signatureOf, hsig, if_neg (by simp), hat]
        rfl
      simp only [hs, if_true, scoredAction, Bool.true_or, hq]
      exact ⟨_, fun _ => rfl⟩
    | cons c t =>
      have hs : signatureOf u = some (c :: t, u, []) := by simp [signatureOf, hsig]
      simp only [hs, hquote, List.append_nil]
      exact ⟨_, fun _ => rfl⟩

theorem bareEqualPair_pair (hk : SensitiveKey st k) (hu : u.all isPlainByte = true) :
    st.bareEqualPair k u false 0 = (do
      Prog.write k
      Prog.write (bs "=")
      st.processSingleToken u u true false false
      return (u.isEmpty, true)) := by
  simp only [bareEqualPair, isSensitivePairKey, hk.sensitive, Bool.true_or, writeKeyHalf, hk.field,
    hk.signature, beq_self_eq_true, Bool.and_self, Bool.or_true, if_true, Bool.not_true, Bool.and_false,
    Bool.false_eq_true, if_false, isBalancedQuoted_plain hu, isBytesLiteral_plain hu, Bool.or_self,
    Bool.true_and]

end Token

section Run

variable {st : ConfigState Num} {k u : Bytes}

theorem yields_value (hsafe : st.config.safeRegexes = []) (hu : u.all isPlainByte = true) :
    ∃ ms : List Mark, (u ≠ [] → ms ≠ []) ∧ ∀ answer self,
      st.machine.Yields answer self (st.processSingleToken u u true false false) (ms.flatMap st.marker) () := by
  by_cases hne : u = []
  · subst hne
    refine ⟨[], fun h => absurd rfl h, fun answer self => .get fun b => ?_⟩
    exact .write []
  obtain ⟨m, hm⟩ := singleTokenAction_plain hsafe hu hne
  refine ⟨[m], fun _ => by simp, fun answer self => .get fun b => ?_⟩
  rw [hm b]
  have h : st.machine.Yields answer self (perform b u (.redact [] m [])) ([] ++ (st.marker m ++ [])) () :=
    .bind (.write []) (.bind (Machine.Yields.place (M := st.machine) m) (.write []))
  simpa using h

theorem run_segment (hsafe : st.config.safeRegexes = []) (hk : SensitiveKey st k)
    (hu : u.all isPlainByte = true) (hurl : contains u (bs "://") = false) (h : ReadAsPair k u) :
    ∃ ms : List Mark, (u ≠ [] → ms ≠ []) ∧ ∀ n s,
      (st.machine.run (n + 4) (.scanSegmentFrom (k ++ chr '=' :: u) 0 false 0) s).Gives
        (k ++ bs "=" ++ ms.flatMap st.marker) (false, 0) := by
  obtain ⟨ms, hne, hval⟩ := yields_value hsafe hu
  refine ⟨ms, hne, fun n => ?_⟩
  have hplain := all_isPlainByte_pair hk hu
  set tok := k ++ chr '=' :: u with htok
  have hequal (s) : (st.machine.run (n + 1) (.processEqualPair tok false false 0) s).Gives
      (k ++ bs "=" ++ ms.flatMap st.marker) (u.isEmpty, true) := by
    have hbody : st.machine.Yields (st.machine.run n) (.processEqualPair tok false false 0)
        (st.processEqualPair tok false false 0) (k ++ (bs "=" ++ (ms.flatMap st.marker ++ []))) (u.isEmpty, true) := by
      rw [processEqualPair_pair hk hu h, bareEqualPair_pair hk hu]
      exact .bind (.write k) (.bind (.write _) (.bind (hval _ _) (.pure _)))
    rw [List.append_nil, ← List.append_assoc] at hbody
    exact hbody s
  have htoken (s) : (st.machine.run (n + 2) (.processTokenLogic (firstCall tok)) s).Gives
      (k ++ bs "=" ++ ms.flatMap st.marker) u.isEmpty := by
    have hbody : st.machine.Yields (st.machine.run (n + 1)) (.processTokenLogic (firstCall tok))
        (st.processTokenLogic (firstCall tok)) (k ++ bs "=" ++ ms.flatMap st.marker ++ []) u.isEmpty := by
      rw [processTokenLogic_pair hk hu hurl h]
      exact .bind (.invoke hequal) (.pure _)
    rw [List.append_nil] at hbody
    exact hbody s
  have happend (s) : (st.machine.run (n + 3) (.processAndAppend tok {} 0) s).Gives
      (k ++ bs "=" ++ ms.flatMap st.marker) (st.afterToken {} tok u.isEmpty false) := by
    have hscheme : st.isSchemePair tok = none := by
      simp only [isSchemePair, htok, cut_of_key hk u, h.basic, h.bearer, Bool.or_self, Bool.and_false,
        Bool.false_and, Bool.false_eq_true, if_false, ite_self]
    have hbody : st.machine.Yields (st.machine.run (n + 2)) (.processAndAppend tok {} 0)
        (st.processAndAppend tok {} 0) (k ++ bs "=" ++ ms.flatMap st.marker ++ [])
        (st.afterToken {} tok u.isEmpty false) := by
      have hcall : st.tokenCall {} tok false 0 = some (firstCall tok) := tokenCall_pair hk hu
      simp only [processAndAppend, trimSpace_plain hplain, hscheme, overrides, Bool.false_eq_true, if_false, hcall]
      exact .bind (.invoke htoken) (.pure _)
    rw [List.append_nil] at hbody
    exact hbody s
  intro s
  have hpiece : segmentPieces tok.length ⟨[], tok, false, 0, false⟩ = ([.token tok false], false, 0) := by
    rw [segmentPieces_plain hplain, tokenPiece, if_neg (by simp [htok]), List.nil_append]
  have hbody : st.machine.Yields (st.machine.run (n + 3)) (.scanSegmentFrom tok 0 false 0)
      (ConfigState.scanSegmentFrom tok 0 false 0) (k ++ bs "=" ++ ms.flatMap st.marker ++ [] ++ []) (false, 0) := by
    simp only [ConfigState.scanSegmentFrom, hpiece]
    exact .bind (.bind (.invoke happend) (.pure _)) (.pure _)
  rw [List.append_nil, List.append_nil] at hbody
  exact hbody s

theorem carveQuote_plain (h : line.all isPlainByte = true) (cv : Carve) : carveQuote line cv = [] := by
  simp [carveQuote, isQuote_byteAt_plain h]

theorem yields_carve (hsafe : st.config.safeRegexes = []) (cv : Carve) (secret : Bytes) :
    ∃ m, ∀ answer self, st.machine.Yields answer self (st.writeCarve cv secret) (st.marker m) () := by
  have hno : st.isSafeRegexWhitelisted secret = false := by simp [isSafeRegexWhitelisted, hsafe]
  simp only [writeCarve, hno, Bool.false_eq_true, if_false]
  split
  · exact ⟨_, fun _ _ => .place (M := st.machine) _⟩
  split
  · exact ⟨_, fun _ _ => .place (M := st.machine) _⟩
  exact ⟨_, fun _ _ => .place (M := st.machine) _⟩

theorem yields_tiles (hsafe : st.config.safeRegexes = []) (h : line.all isPlainByte = true)
    {cvs : List Carve} {at_ : Nat} (ht : tiles line.length cvs at_ = true) :
    ∃ ms : List Mark, ms.length = cvs.length ∧ ∀ answer self depth inQuote quoteChar,
      st.machine.Yields answer self (st.scanCarves line depth cvs at_ inQuote quoteChar)
        (ms.flatMap st.marker) () := by
  induction cvs generalizing at_ with
  | nil =>
    have hlen : ¬ at_ < line.length := by
      have : at_ = line.length := by simpa [tiles] using ht
      omega
    refine ⟨[], rfl, fun answer self depth inQuote quoteChar => ?_⟩
    rw [scanCarves, if_neg hlen]
    exact .pure ()
  | cons cv cvs ih =>
    simp only [tiles, Bool.and_eq_true, beq_iff_eq] at ht
    obtain ⟨rfl, ht⟩ := ht
    obtain ⟨m, hm⟩ := yields_carve hsafe cv (slice line cv.start cv.stop)
    obtain ⟨ms, hlen, hms⟩ := ih ht
    refine ⟨m :: ms, by simp [hlen], fun answer self depth inQuote quoteChar => ?_⟩
    simp only [scanCarves, carveQuote_plain h, List.length_nil, Nat.sub_zero, Nat.add_zero, Nat.lt_irrefl,
      if_false]
    rw [List.flatMap_cons]
    show st.machine.Yields answer self _ ([] ++ ([] ++ (st.marker m ++ ([] ++ ms.flatMap st.marker)))) ()
    exact .bind (.pure _) (.bind (.write []) (.bind (hm _ _) (.bind (.write []) (hms _ _ _ _ _))))

theorem yields_scanCarves (hsafe : st.config.safeRegexes = [])
    (h : line.all isPlainByte = true) {cvs : List Carve} (hpos : 0 < carvesStart line cvs)
    (ht : tiles line.length cvs (carvesStart line cvs) = true) :
    ∃ ms : List Mark, ms.length = cvs.length ∧ ∀ answer self o q,
      (∀ s, (answer (.scanSegmentFrom (line.take (carvesStart line cvs)) 0 false 0) s).Gives o q) →
      st.machine.Yields answer self (st.scanCarves line 0 cvs 0 false 0) (o ++ ms.flatMap st.marker) () := by
  cases cvs with
  | nil =>
    refine ⟨[], rfl, fun answer self o q hseg => ?_⟩
    have hstart : carvesStart line [] = line.length := rfl
    rw [hstart, List.take_length] at hseg
    rw [scanCarves, if_pos (hstart ▸ hpos)]
    exact .bind (.invoke hseg) (.pure ())
  | cons cv cvs =>
    have hstart : carvesStart line (cv :: cvs) = cv.start := rfl
    rw [hstart] at hpos
    simp only [tiles, Bool.and_eq_true] at ht
    obtain ⟨m, hm⟩ := yields_carve hsafe cv (slice line cv.start cv.stop)
    obtain ⟨ms, hlen, hms⟩ := yields_tiles hsafe h ht.2
    refine ⟨m :: ms, by simp [hlen], fun answer self o q hseg => ?_⟩
    have hseg : ∀ s, (answer (.scanSegmentFrom
        (slice line 0 (cv.start - (carveQuote line cv).length)) 0 false 0) s).Gives o q := by
      rw [carveQuote_plain h]
      exact hseg
    simp only [scanCarves, carveQuote_plain h, List.length_nil, Nat.sub_zero, Nat.add_zero, hpos, if_true]
    rw [List.flatMap_cons]
    show st.machine.Yields answer self _ (o ++ ([] ++ (st.marker m ++ ([] ++ ms.flatMap st.marker)))) ()
    exact .bind (.invoke hseg) (.bind (.write []) (.bind (hm _ _) (.bind (.write []) (hms _ _ _ _ _))))

theorem scanLine_plain (h : line.all isPlainByte = true) (hl : firstIs line isASCIILetter = true) :
    st.scanLine line 0 = (do
      Prog.write []
      st.scanCarves line 0 (st.carves line) 0 false 0) := by
  have hne : line.isEmpty = false := by
    cases line with
    | nil => simp [firstIs] at hl
    | cons c t => rfl
  simp_all [ConfigState.scanLine, isGitDiffHeader_plain, isPrivateKeyMarker_plain,
    diffMarks_of_letter]

end Run

/-- The value of a sensitive pair is written as markers alone if the token is read as a
pair up to the numbers at its end. -/
theorem pair_value_hidden (st : ConfigState Num) (b : BaselineStats Num) {k v : Bytes}
    (hsafe : st.config.safeRegexes = []) (hpair : SensitivePair st k v) (hread : ReadWhole st k v) :
    ∃ ms : List Mark, ms ≠ [] ∧ (st.scanAndRedact b (k ++ chr '=' :: v)).res = .ok () ∧
      (st.scanAndRedact b (k ++ chr '=' :: v)).out = k ++ bs "=" ++ ms.flatMap st.marker := by
  have hk := hpair.toSensitiveKey
  have hplain := all_isPlainByte_pair hk hpair.plain
  obtain ⟨hin, htiled, hpre⟩ := hread
  set line := k ++ chr '=' :: v with hline
  set n := carvesStart line (st.carves line) with hn
  set u := v.take (n - (k.length + 1)) with hu
  have huplain : u.all isPlainByte = true :=
    List.all_eq_true.mpr fun c hc => List.all_eq_true.mp hpair.plain c (List.mem_of_mem_take hc)
  have hurl : contains u (bs "://") = false := by
    have := hpair.url
    rw [contains, Option.isSome_eq_false_iff, Option.isNone_iff_eq_none] at this ⊢
    by_contra hne
    obtain ⟨i, hi⟩ := Option.ne_none_iff_exists'.mp hne
    have happ := (index_append (e := v.drop (n - (k.length + 1))) hi).1
    rw [hu, List.take_append_drop, this] at happ
    cases happ
  have htake : line.take n = k ++ chr '=' :: u := by
    obtain ⟨j, hj⟩ : ∃ j, n = k.length + 1 + j := ⟨n - (k.length + 1), by omega⟩
    rw [hu, hline, hj, List.append_cons, List.take_append]
    simp [List.take_of_length_le]
  obtain ⟨ms, hne, hseg⟩ := run_segment hsafe hk huplain hurl hpre
  obtain ⟨cs, hlen, hcarves⟩ := yields_scanCarves hsafe hplain (by omega) htiled
  obtain ⟨fuel, hfuel⟩ : ∃ f, scanFuel line = f + 5 :=
    ⟨scanFuel line - 5, by simp only [scanFuel, maxTokenRecursionDepth]; omega⟩
  have hrun : (st.scanAndRedact b line).Gives
      ([] ++ (k ++ bs "=" ++ ms.flatMap st.marker ++ cs.flatMap st.marker)) () := by
    have hbody : st.machine.Yields (st.machine.run (fuel + 4)) (.scanLine line 0) (st.scanLine line 0)
        ([] ++ (k ++ bs "=" ++ ms.flatMap st.marker ++ cs.flatMap st.marker)) () := by
      rw [scanLine_plain hplain (firstIs_pair hk v)]
      refine .bind (.write []) (hcarves _ _ _ (false, 0) fun s => ?_)
      rw [← hn, htake]
      exact hseg fuel s
    rw [ConfigState.scanAndRedact, hfuel]
    exact hbody b
  refine ⟨ms ++ cs, fun hempty => ?_, hrun.res, by rw [hrun.out]; simp⟩
  obtain ⟨rfl, rfl⟩ := List.append_eq_nil_iff.mp hempty
  have hnil : st.carves line = [] := List.length_eq_zero_iff.mp hlen.symm
  have hnlen : n = line.length := by rw [hn, hnil]; rfl
  have : u = v := by
    rw [hu, hnlen, hline]
    exact List.take_of_length_le (by simp; omega)
  exact hne (this ▸ hpair.nonempty) rfl

theorem sensitiveKey_password : SensitiveKey (ConfigState.sample.withKeys [bs "password"]) (bs "password") := by
  constructor <;> decide +kernel

theorem pair_value_hidden_password :
    ∃ ms : List Mark, ms ≠ [] ∧
      ((ConfigState.sample.withKeys [bs "password"]).scanAndRedact newBaselineStats
        (bs "password" ++ chr '=' :: bs "hunter2")).res = .ok () ∧
      ((ConfigState.sample.withKeys [bs "password"]).scanAndRedact newBaselineStats
        (bs "password" ++ chr '=' :: bs "hunter2")).out =
          bs "password" ++ bs "=" ++ ms.flatMap (ConfigState.sample.withKeys [bs "password"]).marker := by
  have hcarves : (ConfigState.sample.withKeys [bs "password"]).carves
      (bs "password" ++ chr '=' :: bs "hunter2") = [] := by decide +kernel
  have hpair : SensitivePair (ConfigState.sample.withKeys [bs "password"]) (bs "password") (bs "hunter2") := by
    refine ⟨sensitiveKey_password, ?_, ?_, ?_, ?_, ?_⟩ <;> decide +kernel
  refine pair_value_hidden _ _ rfl hpair ⟨?_, ?_, ?_⟩
  · rw [hcarves]
    decide +kernel
  · rw [hcarves]
    decide +kernel
  rw [hcarves]
  constructor <;> decide +kernel

theorem head?_marker (st : ConfigState Num) (m : Mark) (s : Bytes) :
    (st.marker m ++ s).head? = some (chr '[') := by
  rw [marker, show bs "[HIDDEN" = chr '[' :: bs "HIDDEN" from by rfl]
  rfl

theorem pair_value_shown : ¬ ∀ k v : Bytes, SensitivePair (ConfigState.sample.withKeys [bs "password"]) k v →
    ∃ ms : List Mark, ms ≠ [] ∧
      ((ConfigState.sample.withKeys [bs "password"]).scanAndRedact newBaselineStats (k ++ chr '=' :: v)).out =
        k ++ bs "=" ++ ms.flatMap (ConfigState.sample.withKeys [bs "password"]).marker := by
  intro h
  have hpair : SensitivePair (ConfigState.sample.withKeys [bs "password"]) (bs "password") (bs "abc?x=y") := by
    refine ⟨sensitiveKey_password, ?_, ?_, ?_, ?_, ?_⟩ <;> decide +kernel
  have hrun : ∀ n, n = 4760 →
      ((ConfigState.sample.withKeys [bs "password"]).machine.run n
        (.scanLine (bs "password" ++ chr '=' :: bs "abc?x=y") 0) newBaselineStats).out =
          bs "password" ++ bs "=" ++ bs "abc?x=y" := by
    rintro n rfl
    decide +kernel
  obtain ⟨ms, hne, hout⟩ := h _ _ hpair
  rw [ConfigState.scanAndRedact, hrun _ (by decide +kernel), List.append_cancel_left_eq] at hout
  cases ms with
  | nil => exact hne rfl
  | cons m ms =>
    have := congrArg List.head? hout
    rw [List.flatMap_cons, head?_marker] at this
    exact absurd this (by decide +kernel)

end PiiShield
