import PiiShield.UrlRange

/-! Tokens of plain characters: the tokenizer keeps them whole, and a pair `key=value` of
them has no shape that is tried before the pair itself, but for those of a URL. -/

namespace PiiShield

open ConfigState

variable {Num : Type}

variable {c : UInt8} {s t : Bytes}

def isPlainByte (c : UInt8) : Bool :=
  0x20 < c && c < 0x7f && !isSepRune c.toNat && !isQuote c && c != backtick && c != backslash &&
    c != '&' && c != '@'

def isKeyByte (c : UInt8) : Bool := isAlnumByte c || c == '_'

structure PlainByte (c : UInt8) : Prop where
  ascii : c < 0x80
  space : isSpaceRune c.toNat = false
  sep : isSepRune c.toNat = false
  quote : isQuote c = false
  backtick : c ≠ backtick
  backslash : c ≠ backslash
  amp : c ≠ '&'
  at_ : c ≠ '@'

theorem plainByte (h : isPlainByte c = true) : PlainByte c := by
  simp only [isPlainByte, Bool.and_eq_true, decide_eq_true_eq, Bool.not_eq_true', bne_iff_ne] at h
  obtain ⟨⟨⟨⟨⟨⟨⟨h1, h2⟩, h3⟩, h4⟩, h5⟩, h6⟩, h7⟩, h8⟩ := h
  have h1' : 0x20 < c.toNat := h1
  have h2' : c.toNat < 0x7f := h2
  refine ⟨?_, ?_, h3, h4, h5, h6, h7, h8⟩
  · exact UInt8.lt_iff_toNat_lt.mpr (by show c.toNat < 0x80; omega)
  simp only [isSpaceRune, Bool.or_eq_false_iff, Bool.and_eq_false_iff, decide_eq_false_iff_not,
    beq_eq_false_iff_ne]
  omega

theorem isPlainByte_of_isKeyByte (h : isKeyByte c = true) : isPlainByte c = true := by
  have all : ∀ n < 256, isKeyByte (.ofNat n) = true → isPlainByte (.ofNat n) = true := by decide +kernel
  have hc := all c.toNat c.toNat_lt
  rw [UInt8.ofNat_toNat] at hc
  exact hc h

theorem decodeRune_ascii (h : c < 0x80) (t : Bytes) : decodeRune (c :: t) = (c.toNat, 1) :=
  (encodes_one h).decode t

theorem step_plain {tok : Bytes} {q : Nat} {bad : Bool} (h : isPlainByte c = true) :
    (Cursor.mk tok (c :: t) false q bad).step = .grow 1 false q false := by
  have hp := plainByte h
  have hne (d : UInt8) (hd : isPlainByte d = false) : c ≠ d := by
    rintro rfl
    rw [h] at hd
    cases hd
  have hrune (d : UInt8) (hd : isPlainByte d = false) : (c.toNat == d.toNat) = false := by
    rw [beq_eq_false_iff_ne]
    exact fun he => hne d hd (UInt8.toNat_inj.mp he)
  have herr : (c.toNat == runeError) = false := by
    have : c.toNat < 0x80 := hp.ascii
    rw [beq_eq_false_iff_ne, runeError]
    omega
  have hpre (d : UInt8) (p : Bytes) (hd : isPlainByte d = false) : hasPrefix (c :: t) (d :: p) = false := by
    simp [hasPrefix, List.isPrefixOf, (hne d hd).symm]
  have hdq := hrune 0x22 (by rfl)
  have hsq := hrune 0x27 (by rfl)
  have hmark : (Cursor.mk tok (c :: t) false q bad).markerLength = none := by
    simp only [Cursor.markerLength]
    rw [show bs "[HIDDEN" = chr '[' :: bs "HIDDEN" from by rfl, hpre _ _ (by rfl)]
    rfl
  have hchain : chainBoundary tok (c :: t) = 0 := by
    have hb := hpre backslash [] (by rfl)
    have hn := hpre newline [] (by rfl)
    have ha : hasPrefix (c :: t) (bs "&") = false := hpre (chr '&') [] (by rfl)
    simp [chainBoundary, hb, hn, ha]
  have hbreak : hasPrefix (c :: t) (bs "\\r\\n") = false := by
    rw [show bs "\\r\\n" = backslash :: bs "r\\n" from by rfl]
    exact hpre _ _ (by rfl)
  simp only [Cursor.step, decodeRune_ascii hp.ascii, herr, Cursor.plainStep, Bool.false_eq_true, if_false]
  simp only [show (0x22 : UInt8).toNat = 34 from rfl, show (0x27 : UInt8).toNat = 39 from rfl] at hdq hsq
  simp [hsq, hdq, hmark, Cursor.boundaryStep, hbreak, hchain, hp.sep]

theorem segmentPieces_plain (h : s.all isPlainByte = true) (tok : Bytes) (q : Nat) :
    segmentPieces s.length ⟨tok, s, false, q, false⟩ = (tokenPiece (tok ++ s) false, false, q) := by
  induction s generalizing tok with
  | nil => simp [segmentPieces]
  | cons c t ih =>
    rw [List.all_cons, Bool.and_eq_true] at h
    simp_all [segmentPieces, step_plain]

theorem chunks_ascii (h : s.all isASCII = true) : chunks s = s.map fun c => [c] := by
  induction s with
  | nil => rfl
  | cons c t ih =>
    simp_all [List.all_cons, Bool.and_eq_true, isASCII, chunks, runesFrom_cons, decodeRune_ascii,
      chunksOf]

theorem trimSpace_plain (h : s.all isPlainByte = true) : trimSpace s = s := by
  have hp (c : UInt8) (hc : c ∈ s) := plainByte (List.all_eq_true.mp h c hc)
  have hascii : s.all isASCII = true :=
    List.all_eq_true.mpr fun c hc => by simpa [isASCII] using (hp c hc).ascii
  have hno (c : Bytes) (hc : c ∈ s.map fun c => [c]) : ¬ isSpaceRune (decodeRune c).1 = true := by
    obtain ⟨b, hb, rfl⟩ := List.mem_map.mp hc
    rw [decodeRune_ascii (hp b hb).ascii, (hp b hb).space]
    simp
  simp only [trimSpace, chunks_ascii hascii]
  rw [List.dropWhile_eq_self_iff.mpr fun hl => hno _ (List.getElem_mem hl),
    List.rdropWhile_eq_self_iff.mpr fun hl => hno _ (List.getLast_mem hl)]
  rw [← List.flatMap_def]
  exact List.flatMap_singleton' s

section Shapes

variable {tok : Bytes} (h : tok.all isPlainByte = true)

include h

theorem not_mem_plain (hc : isPlainByte c = false) : c ∉ tok := by
  intro hm
  rw [List.all_eq_true.mp h c hm] at hc
  cases hc

theorem byteAt_plain (hc : isPlainByte c = false) (h0 : c ≠ 0) (i : Nat) : byteAt tok i ≠ c := by
  grind [byteAt_eq, not_mem_plain, List.getElem_mem, byteAt, List.getElem?_eq_none, Nat.le_of_not_lt]

theorem isQuote_byteAt_plain (i : Nat) : isQuote (byteAt tok i) = false := by
  have hd := byteAt_plain h (c := dquote) (by rfl) (by decide) i
  have hs := byteAt_plain h (c := squote) (by rfl) (by decide) i
  simp [isQuote, hd, hs]

theorem contains_plain (hc : isPlainByte c = false) (p : Bytes) : contains tok (c :: p) = false := by
  rw [contains, Option.isSome_eq_false_iff, Option.isNone_iff_eq_none]
  by_contra hne
  obtain ⟨k, hk⟩ := Option.ne_none_iff_exists'.mp hne
  exact not_mem_plain h hc (mem_of_index hk List.mem_cons_self)

theorem firstIs_isQuote_plain : firstIs tok isQuote = false := by
  match tok with
  | [] => rfl
  | c :: t =>
    rw [List.all_cons, Bool.and_eq_true] at h
    exact (plainByte h.1).quote

theorem trimQuotes_plain : trimQuotes tok = tok := by
  simp [trimQuotes, isQuote_byteAt_plain h]

theorem isBalancedQuoted_plain : isBalancedQuoted tok = false := by
  simp [isBalancedQuoted, isQuote_byteAt_plain h]

theorem isBytesLiteral_plain : isBytesLiteral tok = false := by
  simp [isBytesLiteral, isQuote_byteAt_plain h]

theorem splitCompactPair_plain : splitCompactPair tok = none := by
  simp [splitCompactPair, isQuote_byteAt_plain h]

theorem escapedJSONString_plain : escapedJSONString tok = none := by
  have := byteAt_plain h (c := dquote) (by rfl) (by decide) 0
  simp [escapedJSONString, this]

theorem escapedOrBacktickWrap_plain : escapedOrBacktickWrap tok = none := by
  have hb := byteAt_plain h (c := backslash) (by rfl) (by decide) 0
  have ht := byteAt_plain h (c := backtick) (by rfl) (by decide) 0
  simp [escapedOrBacktickWrap, hb, ht]

theorem isGitDiffHeader_plain : isGitDiffHeader tok = false := by
  rw [isGitDiffHeader, List.any_eq_false]
  intro p hp hpre
  have hspace : gitDiffHeaderPrefixes.all (fun p => (bs p).contains (chr ' ')) = true := by rfl
  have hm : chr ' ' ∈ bs p := by simpa using List.all_eq_true.mp hspace p hp
  exact not_mem_plain h (by rfl) ((List.isPrefixOf_iff_prefix.mp hpre).subset hm)

theorem isPrivateKeyMarker_plain : isPrivateKeyMarker tok = false := by
  have hno (p : Bytes) (hp : chr ' ' ∈ p) : hasPrefix tok p = false := by
    rw [Bool.eq_false_iff]
    intro hpre
    exact not_mem_plain h (by rfl) ((List.isPrefixOf_iff_prefix.mp hpre).subset hp)
  simp [isPrivateKeyMarker, trimSpace_plain h, hno (bs "-----BEGIN ") (by decide),
    hno (bs "-----END ") (by decide)]

end Shapes

section Letters

variable {tok : Bytes}

theorem isASCIILetter_spec (h : isASCIILetter c = true) : c < 0x80 ∧ isASCIIDigit c = false := by
  simp only [isASCIILetter, Bool.or_eq_true, Bool.and_eq_true, chr_def] at h
  simp only [isASCIIDigit, Bool.and_eq_false_iff, chr_def]
  grind

theorem isISO8601Timestamp_of_letter (U : Unicode) (h : firstIs tok isASCIILetter = true) :
    isISO8601Timestamp U tok = false := by
  match tok with
  | [] => simp [firstIs] at h
  | c :: t =>
    obtain ⟨hlt, hd⟩ := isASCIILetter_spec (c := c) (by simpa [firstIs] using h)
    have hdigits : isDigits U (slice (c :: t) 0 4) = false := by
      have hlt' : c.toNat < 0x80 := hlt
      simp only [slice, List.take_succ_cons, List.drop_zero, isDigits, runes, runesFrom_cons,
        decodeRune_ascii hlt, List.map_cons, List.all_cons, Unicode.isDigit, hlt', if_true,
        UInt8.ofNat_toNat, hd, Bool.false_and]
    simp only [isISO8601Timestamp, hdigits, Bool.not_false, Bool.true_or, if_true, ite_self]

theorem diffMarks_of_letter (h : firstIs tok isASCIILetter = true) : diffMarks tok = 0 := by
  match tok with
  | [] => simp [firstIs] at h
  | c :: t =>
    have hc : isASCIILetter c = true := by simpa [firstIs] using h
    have hno : ¬ (c == chr '+' || c == chr '-') = true := by
      rw [Bool.or_eq_true, beq_iff_eq, beq_iff_eq]
      rintro (rfl | rfl) <;> exact absurd hc (by decide)
    have htake : (c :: t.take 1).takeWhile (fun c : UInt8 => c == '+' || c == '-') = [] :=
      List.takeWhile_cons_of_neg hno
    rw [diffMarks, List.take_succ_cons, htake, List.length_nil, ite_self]

end Letters

section Pairs

variable {k u : Bytes}

theorem index_append_of_not_mem (p : Bytes) (s : Bytes) (h : c ∉ k) :
    index (c :: p) (k ++ s) = (index (c :: p) s).map (· + k.length) := by
  induction k with
  | nil => simp
  | cons d t ih =>
    rw [List.mem_cons, not_or] at h
    have hpre : (c :: p).isPrefixOf (d :: (t ++ s)) = false := by simp [List.isPrefixOf, h.1]
    rw [List.cons_append, index, hpre, if_neg Bool.false_ne_true, ih h.2]
    cases index (c :: p) s <;> simp [Nat.add_assoc]

theorem cut_pair (h : chr '=' ∉ k) : cut (k ++ chr '=' :: u) (bs "=") = some (k, u) := by
  have hb : bs "=" = [chr '='] := by rfl
  rw [cut, hb, index_append_of_not_mem _ _ h]
  simp [index, List.isPrefixOf]

theorem contains_pair (p : Bytes) (h : c ∉ k) (s : Bytes) :
    contains (k ++ s) (c :: p) = contains s (c :: p) := by
  rw [contains, index_append_of_not_mem p s h, contains]
  cases index (c :: p) s <;> rfl

theorem mem_intercalate {sep : Bytes} {ps : List Bytes} (h : c ∈ sep.intercalate ps) :
    c ∈ sep ∨ ∃ p ∈ ps, c ∈ p := by
  match ps with
  | [] => simp [List.intercalate] at h
  | [p] => exact .inr ⟨p, by simp, by simpa [List.intercalate] using h⟩
  | p :: q :: ps =>
    rw [intercalate_cons, List.mem_append, List.mem_append] at h
    rcases h with h | h | h
    · exact .inr ⟨p, by simp, h⟩
    · exact .inl h
    rcases mem_intercalate h with h | ⟨r, hr, h⟩
    · exact .inl h
    exact .inr ⟨r, by simp [List.mem_cons.mp hr], h⟩

theorem mem_splitOn_of_mem {d : UInt8} (h : c ∈ t) (hne : c ≠ d) : ∃ p ∈ List.splitOn d t, c ∈ p := by
  have hs : [d].intercalate (t.splitOn d) = t := List.intercalate_splitOn d
  rw [← hs] at h
  exact (mem_intercalate h).resolve_left (by simpa using hne)

theorem not_mem_of_prefixes {ps : List String} {n : Nat} {f : UInt8 → Bool}
    (hps : (ps.all fun p => (bs p).length == n && !(bs p).contains c) = true) (hf : f c = false)
    (hp : (ps.any fun p => hasPrefix t (bs p)) = true) (hall : (t.drop n).all f = true) : c ∉ t := by
  intro hm
  obtain ⟨p, hmem, hpre⟩ := List.any_eq_true.mp hp
  have h := List.all_eq_true.mp hps p hmem
  simp only [Bool.and_eq_true, beq_iff_eq, Bool.not_eq_true', List.contains_eq_mem,
    decide_eq_false_iff_not] at h
  obtain ⟨r, hr⟩ := List.isPrefixOf_iff_prefix.mp hpre
  grind

theorem re_pair {r : SignatureRule} (hr : r ∈ signatureRules) (hm : chr '=' ∈ t) : r.re t = false := by
  rw [Bool.eq_false_iff]
  intro h
  simp only [signatureRules, List.mem_cons, List.not_mem_nil, or_false] at hr
  rcases hr with rfl | rfl | rfl | rfl | rfl | rfl
  · simp only [awsKeyRe, Bool.and_eq_true] at h
    have hp : (["AKIA", "ASIA"].any fun p => hasPrefix t (bs p)) = true := by simpa using h.1.1
    exact not_mem_of_prefixes (by rfl) (by rfl) hp h.2 hm
  · simp only [gcpKeyRe, Bool.and_eq_true] at h
    have hp : (["AIza"].any fun p => hasPrefix t (bs p)) = true := by simpa using h.1.1
    exact not_mem_of_prefixes (by rfl) (by rfl) hp h.2 hm
  · simp only [githubTokenRe, Bool.and_eq_true] at h
    exact not_mem_of_prefixes (by rfl) (by rfl) h.1.1.1 h.2 hm
  · simp only [slackTokenRe, Bool.and_eq_true] at h
    exact not_mem_of_prefixes (by rfl) (by rfl) h.1.1 h.2 hm
  · simp only [stripeKeyRe, Bool.and_eq_true] at h
    exact not_mem_of_prefixes (by rfl) (by rfl) h.1.1 h.2 hm
  simp only [jwtRe] at h
  split at h
  · next header payload sig hsplit =>
    simp only [Bool.and_eq_true] at h
    obtain ⟨p, hp, hmp⟩ := mem_splitOn_of_mem (d := chr '.') hm (by decide)
    have hall : p.all isURLSafeByte = true := by grind
    exact absurd (List.all_eq_true.mp hall _ hmp) (by decide)
  · cases h

theorem matchSignature_pair {tok : Bytes} (hm : chr '=' ∈ tok) (hl : firstIs tok isASCIILetter = true) :
    matchSignature tok = [] := by
  have hnone : (signatureRules.find? fun r => r.starts.any (hasPrefix tok) && r.re tok) = none := by
    rw [List.find?_eq_none]
    intro r hr
    simp [re_pair hr hm]
  have hdigit : firstIs tok isASCIIDigit = false := by
    cases tok with
    | nil => rfl
    | cons c t => exact (isASCIILetter_spec (by simpa [firstIs] using hl)).2
  unfold matchSignature
  rw [hnone]
  simp [hdigit]

theorem not_mem_key (h : k.all isKeyByte = true) (hc : isKeyByte c = false) : c ∉ k := by
  intro hm
  rw [List.all_eq_true.mp h c hm] at hc
  cases hc

theorem pythonLogPrefixEnd_pair (h : k.all isKeyByte = true) (u : Bytes) :
    pythonLogPrefixEnd (k ++ chr '=' :: u) = 0 := by
  rw [List.append_cons]
  have hno : chr ':' ∉ k ++ [chr '='] := by
    rw [List.mem_append, not_or]
    exact ⟨not_mem_key h (by decide), by decide⟩
  unfold pythonLogPrefixEnd
  split
  · rfl
  · next colon hcolon =>
    have hlevel : (pythonLogLevels.any fun l => bs l == (k ++ [chr '='] ++ u).take colon) = false := by
      rw [List.any_eq_false]
      intro l hl heq
      obtain ⟨hlt, hc⟩ := indexByte_eq hcolon
      have hge : (k ++ [chr '=']).length ≤ colon := by
        by_contra hle
        rw [byteAt_eq hlt, List.getElem_append_left (by omega)] at hc
        exact hno (hc ▸ List.getElem_mem _)
      have hall : pythonLogLevels.all (fun l => !(bs l).contains (chr '=')) = true := by rfl
      have hl := List.all_eq_true.mp hall l hl
      rw [beq_iff_eq.mp heq, List.take_append, List.take_of_length_le hge] at hl
      simp at hl
    simp only [hlevel, Bool.not_false, Bool.or_true, if_true]

theorem isElidedBase64_pair (h : k.all isKeyByte = true) (u : Bytes) :
    isElidedBase64 (k ++ chr '=' :: u) = false := by
  rw [List.append_cons]
  have hdot : chr '.' ∉ k ++ [chr '='] := by
    rw [List.mem_append, not_or]
    exact ⟨not_mem_key h (by decide), by decide⟩
  unfold isElidedBase64
  simp only
  split
  · rfl
  have hbody : trimRight (k ++ [chr '='] ++ u) (bs "=") <+: k ++ [chr '='] ++ u :=
    List.rdropWhile_prefix _ _
  generalize trimRight (k ++ [chr '='] ++ u) (bs "=") = body at hbody
  split
  · next head tail hcut =>
    rw [Bool.eq_false_iff]
    intro hb
    simp only [Bool.and_eq_true] at hb
    obtain ⟨i, hi, hht⟩ := Option.map_eq_some_iff.mp hcut
    have heq := eq_of_index hi
    obtain ⟨rfl, rfl⟩ := Prod.mk.inj hht
    have hno (s : Bytes) (hs : isBase64Body s = true) : chr '=' ∉ s := by
      intro hm
      simp only [isBase64Body, Bool.and_eq_true] at hs
      exact absurd (List.all_eq_true.mp hs.2 _ hm) (by decide)
    have hnb : chr '=' ∉ body := by
      rw [heq, List.mem_append, List.mem_append, not_or, not_or]
      exact ⟨hno _ hb.1.2, by decide, hno _ hb.2⟩
    have hdb : chr '.' ∈ body := mem_of_index hi (by decide)
    rcases List.prefix_or_prefix_of_prefix hbody (List.prefix_append _ u) with hp | hp
    · exact hdot (hp.subset hdb)
    exact hnb (hp.subset (by simp))
  rfl

end Pairs

end PiiShield
