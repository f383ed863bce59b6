import PiiShield.Cuts
import PiiShield.JsonString

/-! JSON literals decode to valid text and back: what the encoder writes decodes to what
it was given, and no literal is the start of another. -/

namespace PiiShield

variable {a c o s t tok x : Bytes} {b d : UInt8} {r w : Nat}

theorem isASCII_of_isHexByte {c : UInt8} (h : isHexByte c = true) : isASCII c = true := by
  simp only [isHexByte, Bool.or_eq_true, Bool.and_eq_true, chr_def] at h
  simp only [isASCII, decide_eq_true_eq]
  grind

theorem asciiCount_encodeRune_le (r : Nat) : asciiCount (encodeRune r) ≤ 1 := by
  have h := encodes_encodeRune r
  obtain ⟨b, t, hc, -, ht⟩ := h.lead
  grind [asciiCount, List.countP_eq_length_filter, filter_isASCII_eq_nil_of_isCont]

theorem unquoteStep_spec (h : unquoteStep s = some (o, w)) :
    utf8Valid o = true ∧ asciiCount o ≤ asciiCount (s.take w) ∧ 1 ≤ w := by
  match s with
  | [] => simp [unquoteStep] at h
  | c :: t =>
    simp only [unquoteStep] at h
    split at h
    · next hc =>
      obtain rfl : c = backslash := by simpa using hc
      have hascii (n : Nat) : 1 ≤ asciiCount ((backslash :: t).take (n + 1)) := by
        rw [List.take_succ_cons, asciiCount_cons (by decide)]
        omega
      have rune (r n : Nat) : utf8Valid (encodeRune r) = true ∧
          asciiCount (encodeRune r) ≤ asciiCount ((backslash :: t).take (n + 1)) ∧ 1 ≤ n + 1 :=
        ⟨utf8Valid_encodeRune r, Nat.le_trans (asciiCount_encodeRune_le r) (hascii n), by omega⟩
      split at h
      · simp at h
      · next e t' =>
        split at h
        · simp only [Option.map_eq_some_iff] at h
          obtain ⟨r, -, hr⟩ := h
          repeat' split at hr
          all_goals
            simp only [Prod.mk.injEq] at hr
            obtain ⟨rfl, rfl⟩ := hr
            exact rune _ _
        simp only [Option.map_eq_some_iff, Prod.mk.injEq] at h
        obtain ⟨d, hd, rfl, rfl⟩ := h
        have hd : isASCII d = true := by
          unfold unescape at hd
          repeat' split at hd
          all_goals simp at hd
          all_goals try (subst hd; decide)
          next hd' =>
          subst hd
          simp only [dquote, backslash, Bool.or_eq_true, beq_iff_eq] at hd'
          rcases hd' with (rfl | rfl) | rfl <;> decide
        grind [utf8Valid_ascii_cons, utf8Valid_nil, asciiCount_cons, asciiCount_nil]
    split at h
    · simp at h
    simp only [Option.some.injEq, Prod.mk.injEq] at h
    obtain ⟨rfl, rfl⟩ := h
    refine ⟨utf8Valid_encodeRune _, ?_, decodeRune_width_pos c t⟩
    rcases decodeRune_cons c t with hd | ⟨c', rest, r, hs, hd, he⟩
    · rw [hd]
      exact Nat.le_trans (by decide) (Nat.zero_le _)
    rw [hd, he.encode, hs, List.take_left]

theorem unquoteFrom_spec {k : Nat} (h : unquoteFrom k s = some x) :
    utf8Valid x = true ∧ asciiCount x ≤ asciiCount (s.drop k) := by
  induction s generalizing k x with
  | nil =>
    obtain rfl : x = [] := by cases k <;> simpa [unquoteFrom, eq_comm] using h
    simp
  | cons c t ih =>
    cases k with
    | succ k => exact ih h
    | zero =>
      rw [unquoteFrom] at h
      split at h
      · next o w hstep =>
        simp only [Option.map_eq_some_iff] at h
        obtain ⟨y, hy, rfl⟩ := h
        obtain ⟨hv, ha, hw⟩ := unquoteStep_spec hstep
        obtain ⟨hv', ha'⟩ := ih hy
        refine ⟨utf8Valid_append hv hv', ?_⟩
        obtain ⟨w, rfl⟩ : ∃ w', w = w' + 1 := ⟨w - 1, by omega⟩
        rw [Nat.add_sub_cancel] at ha'
        calc asciiCount (o ++ y) = asciiCount o + asciiCount y := asciiCount_append o y
          _ ≤ asciiCount ((c :: t).take (w + 1)) + asciiCount ((c :: t).drop (w + 1)) :=
            Nat.add_le_add ha ha'
          _ = asciiCount (c :: t) := by rw [← asciiCount_append, List.take_append_drop]
      simp at h

theorem cut_escapedJSONString (h : escapedJSONString tok = some x) : Cut tok x := by
  unfold escapedJSONString at h
  split at h
  · simp at h
  obtain ⟨hv, ha⟩ := unquoteFrom_spec h
  exact ⟨Nat.le_trans ha (asciiCount_le_of_sublist (slice_sublist _ _ _)), fun _ => hv⟩

theorem unquoteFrom_skip (k : Nat) (s : Bytes) : unquoteFrom k s = unquoteFrom 0 (s.drop k) := by
  induction s generalizing k with
  | nil => cases k <;> simp [unquoteFrom]
  | cons c t ih =>
    cases k with
    | zero => rfl
    | succ k => exact ih k

theorem hex4_append_dquote (t b : Bytes) : hex4 (t ++ dquote :: b) = hex4 t := by
  match t with
  | [] => rcases b with _ | ⟨x, _ | ⟨y, _ | ⟨z, b⟩⟩⟩ <;> simp [hex4, isHexByte, dquote]
  | [_] => rcases b with _ | ⟨x, _ | ⟨y, b⟩⟩ <;> simp [hex4, isHexByte, dquote]
  | [_, _] => rcases b with _ | ⟨x, b⟩ <;> simp [hex4, isHexByte, dquote]
  | [_, _, _] => simp [hex4, isHexByte, dquote]
  | _ :: _ :: _ :: _ :: _ => rfl

theorem length_of_hex4 (h : hex4 t = some r) : 4 ≤ t.length := by
  match t with
  | [] | [_] | [_, _] | [_, _, _] => simp [hex4] at h
  | _ :: _ :: _ :: _ :: _ => simp

theorem decodeRune_append_dquote (c : UInt8) (t b : Bytes) :
    decodeRune (c :: t ++ dquote :: b) = decodeRune (c :: t) := by
  rcases decodeRune_cons c t with hd | ⟨u, rest, r, hs, hd, he⟩
  · rcases decodeRune_cons c (t ++ dquote :: b) with hd' | ⟨u, rest, r, hs, -, he⟩
    · rw [hd, List.cons_append, hd']
    -- The encoding ends before the quote, so it starts the shorter text as well.
    have hsub : u <+: c :: t := by
      have h1 : u <+: c :: t ++ dquote :: b := ⟨rest, hs.symm⟩
      have h2 : c :: t <+: c :: t ++ dquote :: b := ⟨dquote :: b, rfl⟩
      rcases List.prefix_or_prefix_of_prefix h1 h2 with h | ⟨v, hv⟩
      · exact h
      match v with
      | [] => exact ⟨[], by simpa using hv.symm⟩
      | x :: v =>
        exfalso
        obtain ⟨y, w, hu, -, hw⟩ := he.lead
        have hx : x ∈ w := by
          rw [hu, List.cons_append, List.cons.injEq] at hv
          rw [← hv.2]
          simp
        have hdq : x = dquote := by
          have h : c :: t ++ dquote :: b = c :: t ++ (x :: v ++ rest) := by
            rw [← List.append_assoc, hv]
            exact hs
          exact (List.cons.inj (List.append_cancel_left h)).1.symm
        have := List.all_eq_true.mp hw x hx
        rw [hdq] at this
        exact absurd this (by decide)
    obtain ⟨v, hv⟩ := hsub
    rw [List.cons_append, hs, he.decode, ← hv, he.decode]
  rw [hs, List.append_assoc, he.decode, he.decode]

theorem unquoteStep_append_dquote (h : unquoteStep a = some (o, w)) (b : Bytes) :
    unquoteStep (a ++ dquote :: b) = some (o, w) ∧ w ≤ a.length := by
  match a with
  | [] => simp [unquoteStep] at h
  | c :: t =>
    rw [List.cons_append]
    simp only [unquoteStep] at h ⊢
    split at h
    · next hc =>
      match t with
      | [] => simp at h
      | e :: t' =>
        simp only [hc, if_true, List.cons_append] at h ⊢
        split at h
        · next he =>
          simp only [he, if_true, Option.map_eq_some_iff, hex4_append_dquote] at h ⊢
          obtain ⟨r, hr, h⟩ := h
          have hlen := length_of_hex4 hr
          refine ⟨⟨r, hr, ?_⟩, ?_⟩
          · rw [← h]
            split
            · rw [List.drop_append_of_le_length hlen]
              match t'.drop 4 with
              | [] => rcases b with _ | ⟨x, b⟩ <;> simp [backslash, dquote]
              | [_] => simp [dquote]
              | x :: y :: t'' => simp only [List.cons_append, hex4_append_dquote]
            rfl
          have hw := congrArg Prod.snd h
          simp only [List.length_cons]
          split at hw
          · split at hw
            · next hdrop =>
              have hdrop := congrArg List.length hdrop
              simp only [List.length_drop, List.length_cons] at hdrop
              split at hw
              · next hr2 =>
                have hlen2 : 4 ≤ _ := length_of_hex4 (Option.ite_none_right_eq_some.mp hr2).2
                split at hw <;> simp only at hw <;> omega
              simp only at hw
              omega
            simp only at hw
            omega
          simp only at hw
          omega
        · next he =>
          simp only [he] at h ⊢
          refine ⟨by simpa using h, ?_⟩
          simp only [Option.map_eq_some_iff, Prod.mk.injEq] at h
          obtain ⟨d, -, -, rfl⟩ := h
          simp
    · next hc =>
      simp only [hc] at h ⊢
      split at h
      · simp at h
      · next hc' =>
        have hd := decodeRune_append_dquote c t b
        rw [List.cons_append] at hd
        simp only [hc', hd]
        simp only [Option.some.injEq, Prod.mk.injEq] at h
        exact ⟨by simp [h], h.2 ▸ decodeRune_width_le (c :: t)⟩

theorem unquoteFrom_append_dquote (h : unquoteFrom 0 a = some x) (b : Bytes) :
    unquoteFrom 0 (a ++ dquote :: b) = none := by
  induction hn : a.length using Nat.strong_induction_on generalizing a x with
  | _ n ih =>
    match a with
    | [] => simp [unquoteFrom, unquoteStep, backslash, dquote]
    | c :: t =>
      rw [unquoteFrom] at h
      split at h
      · next o w hstep =>
        simp only [Option.map_eq_some_iff] at h
        obtain ⟨y, hy, rfl⟩ := h
        obtain ⟨hstep', hle⟩ := unquoteStep_append_dquote hstep b
        have hw := (unquoteStep_spec hstep).2.2
        obtain ⟨w, rfl⟩ : ∃ w', w = w' + 1 := ⟨w - 1, by omega⟩
        simp only [List.length_cons, Nat.add_le_add_iff_right, Nat.add_sub_cancel] at hle hy hn
        rw [unquoteFrom_skip] at hy
        rw [List.cons_append] at hstep' ⊢
        simp only [unquoteFrom, hstep', Nat.add_sub_cancel]
        rw [unquoteFrom_skip, List.drop_append_of_le_length hle, ih _ _ hy rfl, Option.map_none]
        rw [List.length_drop]
        omega
      simp at h

theorem unquoteStep_short {e : UInt8} (h : unescape e = some d) (t : Bytes) :
    unquoteStep (backslash :: e :: t) = some ([d], 2) := by
  have he : e ≠ chr 'u' := by
    rintro rfl
    have hu : unescape (chr 'u') = none := by decide
    rw [hu] at h
    simp at h
  simp_all [unquoteStep]

theorem unquoteStep_hex {a c : UInt8} (h : hex4 [a, b, c, d] = some r) (hr : r < 0xD800) (t : Bytes) :
    unquoteStep (backslash :: chr 'u' :: a :: b :: c :: d :: t) = some (encodeRune r, 6) := by
  have h' : hex4 (a :: b :: c :: d :: t) = some r := h
  have hs : (decide (0xD800 ≤ r) && decide (r < 0xE000)) = false := by simp; omega
  simp only [unquoteStep, h', beq_self_eq_true, if_true, Option.map_some, hs]
  rfl

theorem hexDigit_spec : ∀ n < 16, isHexByte (hexDigit n) = true ∧ (hexByteValue (hexDigit n)).toNat = n := by
  decide

theorem unquoteStep_plain (h : Encodes c r) (h20 : ¬ r < 0x20) (h22 : r ≠ 0x22)
    (h5c : r ≠ 0x5C) (t : Bytes) : unquoteStep (c ++ t) = some (c, c.length) := by
  obtain ⟨b, c', rfl, -⟩ := h.lead
  have hd := h.decode t
  rw [List.cons_append] at hd ⊢
  have hb : b ≠ backslash ∧ b ≠ dquote ∧ ¬ b < 0x20 := by
    by_cases hlt : b < 0x80
    · obtain rfl : r = b.toNat := by
        have := (encodes_one hlt).decode (c' ++ t)
        simpa [hd] using congrArg Prod.fst this
      refine ⟨?_, ?_, ?_⟩
      · rintro rfl
        exact h5c rfl
      · rintro rfl
        exact h22 rfl
      rwa [UInt8.lt_iff_toNat_lt]
    refine ⟨?_, ?_, ?_⟩
    · rintro rfl
      exact hlt (by decide)
    · rintro rfl
      exact hlt (by decide)
    grind
  simp [unquoteStep, hb, hd, h.encode]

theorem unquoteStep_quoteRune (h : Encodes c r) (t : Bytes) :
    unquoteStep (quoteRune (r, c.length) ++ t) = some (c, (quoteRune (r, c.length)).length) := by
  have herr : (r == runeError && c.length == 1) = false := by
    simpa using fun h1 h2 => h.proper (by rw [h1, h2])
  have short (n : Nat) (e d : UInt8) (hn : r = n) (he : unescape e = some d) (hd : encodeRune n = [d]) :
      unquoteStep (backslash :: e :: t) = some (c, 2) := by
    rw [unquoteStep_short he, ← h.encode, hn, hd]
  simp only [quoteRune, herr, Bool.false_eq_true, if_false]
  split
  · next hr =>
    simp only [Bool.or_eq_true, beq_iff_eq] at hr
    rcases hr with hr | hr <;> subst hr <;> exact short _ _ _ rfl rfl rfl
  · next h1 =>
    iterate 5
      split
      next hr =>
        simp only [beq_iff_eq] at hr
        exact short _ _ _ hr rfl rfl
    split
    · next h20 =>
      have hx := hexDigit_spec (r / 16) (by omega)
      have hy := hexDigit_spec (r % 16) (by omega)
      have h4 : hex4 ['0', '0', hexDigit (r / 16), hexDigit (r % 16)] = some r := by
        have h0 : isHexByte '0' = true ∧ (hexByteValue '0').toNat = 0 := by decide
        simp only [hex4, h0, hx, hy, Bool.and_self, if_true, Option.some.injEq]
        omega
      rw [← h.encode]
      exact unquoteStep_hex h4 (by omega) t
    · next h20 =>
      split
      · next hls =>
        simp only [Bool.or_eq_true, beq_iff_eq] at hls
        rw [← h.encode]
        rcases hls with hls | hls <;> subst hls <;>
          exact unquoteStep_hex (by decide) (by decide) t
      simp only [Bool.or_eq_true, beq_iff_eq, not_or] at h1
      rw [h.encode]
      exact unquoteStep_plain h h20 h1.1 h1.2 t

theorem unquoteFrom_quote (hs : utf8Valid s = true) :
    unquoteFrom 0 ((runesFrom 0 s).flatMap quoteRune) = some s := by
  refine utf8Valid_induction
    (P := fun s => unquoteFrom 0 ((runesFrom 0 s).flatMap quoteRune) = some s) rfl ?_ hs
  intro c r t h _ ih
  rw [h.runesFrom_append, List.flatMap_cons]
  have hstep := unquoteStep_quoteRune h ((runesFrom 0 t).flatMap quoteRune)
  have hpos := (unquoteStep_spec hstep).2.2
  generalize quoteRune (r, c.length) = q at hstep hpos ⊢
  match q with
  | [] => simp at hpos
  | b :: q =>
    rw [List.cons_append] at hstep ⊢
    simp only [unquoteFrom, hstep, List.length_cons, Nat.add_sub_cancel]
    rw [unquoteFrom_skip, List.drop_left, ih, Option.map_some]

theorem diverge_literals {b y : Bytes} (ha : unquoteFrom 0 a = some x)
    (hb : unquoteFrom 0 b = some y) (hxy : x ≠ y) : Diverge (a ++ [dquote]) (b ++ [dquote]) := by
  have no {a b x y : Bytes} (ha : unquoteFrom 0 a = some x) (hb : unquoteFrom 0 b = some y)
      (hxy : x ≠ y) : ¬ a ++ [dquote] <+: b ++ [dquote] := by
    rintro ⟨z, hz⟩
    rcases List.eq_nil_or_concat z with rfl | ⟨z, c, rfl⟩
    · simp_all
    have hb' : b = a ++ dquote :: z := by
      have h := congrArg List.dropLast hz
      rw [List.append_cons]
      simpa [List.dropLast_concat, ← List.append_assoc] using h.symm
    rw [hb', unquoteFrom_append_dquote ha] at hb
    simp at hb
  grind [Diverge.or_isPrefix]

theorem escapedJSONString_eq (h : escapedJSONString tok = some x) :
    tok = dquote :: (slice tok 1 (tok.length - 1) ++ [dquote]) ∧
      unquoteFrom 0 (slice tok 1 (tok.length - 1)) = some x := by
  unfold escapedJSONString at h
  split at h
  · simp at h
  · next hq =>
    simp only [Bool.or_eq_true, decide_eq_true_eq, bne_iff_ne, not_or, not_lt, not_not] at hq
    obtain ⟨⟨⟨hlen, h0⟩, hl⟩, -⟩ := hq
    refine ⟨?_, h⟩
    have h := take_slice_drop (s := tok) (i := 1) (j := tok.length - 1) (by omega)
    rwa [take_one (by omega), drop_pred (by omega), h0, ← lastByte_eq, hl] at h

theorem diverge_jsonQuote (h : escapedJSONString tok = some x)
    (ho : utf8Valid o = true) (hne : o ≠ x) (u v : Bytes) :
    Diverge (jsonQuote o ++ u) (tok ++ v) := by
  obtain ⟨htok, h⟩ := escapedJSONString_eq h
  rw [htok, jsonQuote]
  have h := (diverge_literals (unquoteFrom_quote ho) h hne).append_left [dquote]
  exact Diverge.append_right (by simpa using h) u v

theorem le_of_mem_encodeRune (hr : 0x20 ≤ r) (hb : b ∈ encodeRune r) : 0x20 ≤ b := by
  obtain ⟨n, hn, hs, he⟩ : ∃ n, 0x20 ≤ n ∧ n < 0x110000 ∧ (if isScalar r then r else runeError) = n := by
    refine ⟨_, ?_, ?_, rfl⟩ <;> split
    · exact hr
    · decide
    · next h =>
      simp only [isScalar, Bool.or_eq_true, decide_eq_true_eq, Bool.and_eq_true] at h
      omega
    decide
  simp only [encodeRune, he] at hb
  rw [UInt8.le_iff_toNat_le]
  show 0x20 ≤ b.toNat
  split_ifs at hb <;> simp only [List.mem_cons, List.not_mem_nil, or_false] at hb
  · subst hb
    simp only [UInt8.toNat_ofNat']
    omega
  · rcases hb with rfl | rfl <;> simp only [UInt8.toNat_ofNat'] <;> omega
  · rcases hb with rfl | rfl | rfl <;> simp only [UInt8.toNat_ofNat'] <;> omega
  rcases hb with rfl | rfl | rfl | rfl <;> simp only [UInt8.toNat_ofNat'] <;> omega

theorem le_hexDigit : ∀ n < 16, 0x20 ≤ hexDigit n := by
  decide

theorem le_of_mem_quoteRune {d : Nat × Nat} (hb : b ∈ quoteRune d) : 0x20 ≤ b := by
  have all {l : Bytes} (h : l.all (fun b => decide (0x20 ≤ b)) = true) (hb : b ∈ l) : 0x20 ≤ b :=
    of_decide_eq_true (List.all_eq_true.mp h b hb)
  simp only [quoteRune] at hb
  split at hb
  · next hr =>
    simp only [Bool.or_eq_true, beq_iff_eq] at hr
    rcases hr with hr | hr <;> rw [hr] at hb <;> exact all (by decide) hb
  iterate 5
    split at hb
    next => exact all (by decide) hb
  split at hb
  · next h20 =>
    simp only [List.mem_cons, List.not_mem_nil, or_false] at hb
    rcases hb with rfl | rfl | rfl | rfl | rfl | rfl
    · decide
    · decide
    · decide
    · decide
    · exact le_hexDigit _ (by omega)
    exact le_hexDigit _ (by omega)
  · next h20 =>
    split at hb
    · exact all (by decide) hb
    split at hb
    · simp only [List.mem_append, List.mem_singleton] at hb
      rcases hb with hb | rfl
      · exact all (by decide) hb
      exact le_hexDigit _ (by omega)
    exact le_of_mem_encodeRune (by omega) hb

theorem le_of_mem_jsonQuote (hb : b ∈ jsonQuote s) : 0x20 ≤ b := by
  simp only [jsonQuote, List.mem_cons, List.mem_append, List.mem_flatMap, List.not_mem_nil,
    or_false] at hb
  rcases hb with (rfl | ⟨d, -, hb⟩) | rfl
  · decide
  · exact le_of_mem_quoteRune hb
  decide

theorem utf8Valid_quoteRune (d : Nat × Nat) : utf8Valid (quoteRune d) = true := by
  simp only [quoteRune]
  split
  · next h =>
    simp only [Bool.or_eq_true, beq_iff_eq] at h
    rcases h with h | h <;> rw [h] <;> rfl
  iterate 5
    split
    next => rfl
  split
  · next h =>
    have hx := (hexDigit_spec (d.1 / 16) (by omega)).1
    have hy := (hexDigit_spec (d.1 % 16) (by omega)).1
    refine utf8Valid_ascii ?_
    simp only [List.all_cons, List.all_nil, isASCII_of_isHexByte hx, isASCII_of_isHexByte hy]
    decide
  split
  · rfl
  split
  · have hy := (hexDigit_spec (d.1 % 16) (by omega)).1
    refine utf8Valid_ascii ?_
    rw [List.all_append, List.all_cons, isASCII_of_isHexByte hy]
    decide
  exact utf8Valid_encodeRune _

theorem utf8Valid_jsonQuote (s : Bytes) : utf8Valid (jsonQuote s) = true := by
  have hflat (ds : List (Nat × Nat)) : utf8Valid (ds.flatMap quoteRune) = true := by
    induction ds with
    | nil => rfl
    | cons d ds ih => exact utf8Valid_append (utf8Valid_quoteRune d) ih
  have h := utf8Valid_append (utf8Valid_append (show utf8Valid [dquote] = true from rfl) (hflat (runesFrom 0 s)))
    (show utf8Valid [dquote] = true from rfl)
  simpa [jsonQuote] using h

theorem hex4_spec (h : hex4 t = some r) : (t.take 4).all isHexByte = true := by
  match t with
  | [] | [_] | [_, _] | [_, _, _] => simp [hex4] at h
  | a :: b :: c :: d :: t =>
    rw [hex4, Option.ite_none_right_eq_some] at h
    simpa [and_assoc] using h.1

theorem length_encodeRune_le (r : Nat) : (encodeRune r).length ≤ 4 := by
  simp only [encodeRune]
  split_ifs <;> simp

def isPlainEscape (c : UInt8) : Bool := isASCII c && c != dquote

theorem all_isPlainEscape_of_hex4 (h : hex4 t = some r) : (t.take 4).all isPlainEscape = true := by
  refine List.all_eq_true.mpr fun c hc => ?_
  have hx := List.all_eq_true.mp (hex4_spec h) c hc
  have hne : c ≠ dquote := by
    rintro rfl
    exact absurd hx (by decide)
  simp [isPlainEscape, isASCII_of_isHexByte hx, hne]

theorem all_isPlainEscape {p : Bytes} (h : p.all isPlainEscape = true) :
    p.all isASCII = true ∧ dquote ∉ p := by
  have h := List.all_eq_true.mp h
  refine ⟨List.all_eq_true.mpr fun c hc => ?_, fun hm => absurd (h _ hm) (by decide)⟩
  have := h c hc
  simp only [isPlainEscape, Bool.and_eq_true] at this
  exact this.1

theorem unescape_spec {e : UInt8} (h : unescape e = some d) : isASCII e = true ∧ (e = dquote → d = dquote) := by
  unfold unescape at h
  split at h
  · next he =>
    simp only [Bool.or_eq_true, beq_iff_eq] at he
    cases h
    rcases he with (rfl | rfl) | rfl <;> decide
  iterate 5
    split at h
    next he =>
      rw [beq_iff_eq] at he
      subst he
      cases h
      exact ⟨by decide, by decide⟩
  simp at h

theorem unquoteStep_escape (h : unquoteStep (backslash :: t) = some (o, w)) :
    ((backslash :: t).take w).all isASCII = true ∧ o.length < w ∧ w ≤ t.length + 1 ∧
      (dquote ∈ (backslash :: t).take w → w = 2 ∧ o = [dquote]) := by
  have hw := (unquoteStep_append_dquote h []).2
  simp only [unquoteStep, beq_self_eq_true, if_true] at h
  match t with
  | [] => simp at h
  | e :: t' =>
    simp only at h
    split at h
    · next he =>
      obtain rfl : e = chr 'u' := by simpa using he
      simp only [Option.map_eq_some_iff] at h
      obtain ⟨r, hr, h⟩ := h
      have h4 := all_isPlainEscape_of_hex4 hr
      have hlen := length_encodeRune_le
      have six (x : Nat) (h : (encodeRune x, 6) = (o, w)) :
          ((backslash :: chr 'u' :: t').take w).all isPlainEscape = true ∧ o.length < w := by
        obtain ⟨rfl, rfl⟩ := Prod.mk.inj h
        refine ⟨?_, Nat.lt_of_le_of_lt (hlen x) (by omega)⟩
        simp only [List.take_succ_cons, List.all_cons, h4]
        decide
      have key : ((backslash :: chr 'u' :: t').take w).all isPlainEscape = true ∧ o.length < w := by
        split at h
        · split at h
          · next b u t'' hdrop =>
            split at h
            · next r2 hr2 =>
              split at h
              · obtain ⟨hbu, hr2⟩ := Option.ite_none_right_eq_some.mp hr2
                simp only [Bool.and_eq_true, beq_iff_eq] at hbu
                obtain ⟨rfl, rfl⟩ := hbu
                obtain ⟨rfl, rfl⟩ := Prod.mk.inj h
                refine ⟨?_, Nat.lt_of_le_of_lt (hlen _) (by omega)⟩
                have hten : t'.take 10 = t'.take 4 ++ (t'.drop 4).take 6 := by
                  rw [← List.take_add]
                simp only [List.take_succ_cons, List.all_cons, hten, hdrop, List.all_append, h4,
                  all_isPlainEscape_of_hex4 hr2]
                decide
              exact six _ h
            exact six _ h
          exact six _ h
        exact six _ h
      obtain ⟨hascii, hno⟩ := all_isPlainEscape key.1
      exact ⟨hascii, key.2, by simpa using hw, fun hm => absurd hm hno⟩
    · next he =>
      simp only [Option.map_eq_some_iff, Prod.mk.injEq] at h
      obtain ⟨d, hd, rfl, rfl⟩ := h
      obtain ⟨hascii, hquote⟩ := unescape_spec hd
      refine ⟨?_, by simp, by simp, fun hm => ⟨rfl, ?_⟩⟩
      · simp only [List.take_succ_cons, List.take_zero, List.all_cons, List.all_nil, hascii]
        decide
      have : e = dquote := by simpa [backslash, dquote, eq_comm] using hm
      rw [hquote this]

/-- How the inside of a valid literal is decoded: plain characters stand for themselves,
and an escape is longer than what it stands for. -/
inductive Decodes : Bytes → Bytes → Prop
  | nil : Decodes [] []
  | plain {p s x : Bytes} (hq : dquote ∉ p) (hb : backslash ∉ p) (h : Decodes s x) :
    Decodes (p ++ s) (p ++ x)
  | escape {p o s x : Bytes} (hlen : o.length < p.length) (hhead : p.head? = some backslash)
    (hq : dquote ∈ p → o = [dquote]) (h : Decodes s x) : Decodes (p ++ s) (o ++ x)

theorem Encodes.not_mem (h : Encodes c r) (hb : isASCII b = true) (hhead : c.head? ≠ some b) : b ∉ c := by
  obtain ⟨x, t, rfl, -, ht⟩ := h.lead
  rw [List.mem_cons, not_or]
  refine ⟨by simpa [eq_comm] using hhead, fun hm => ?_⟩
  have := List.all_eq_true.mp ht b hm
  rw [not_isCont_of_isASCII hb] at this
  exact Bool.false_ne_true this

theorem decodes_of_unquoteFrom (hv : utf8Valid s = true) (h : unquoteFrom 0 s = some x) : Decodes s x := by
  induction hn : s.length using Nat.strong_induction_on generalizing s x with
  | _ n ih =>
    match s with
    | [] =>
      obtain rfl : x = [] := by simpa [unquoteFrom, eq_comm] using h
      exact .nil
    | c :: t =>
      rw [unquoteFrom] at h
      split at h
      case h_2 => simp at h
      next o w hstep =>
      obtain ⟨y, hy, rfl⟩ := Option.map_eq_some_iff.mp h
      have hw := (unquoteStep_spec hstep).2.2
      have hdrop : (c :: t).drop w = t.drop (w - 1) := by
        obtain ⟨w, rfl⟩ : ∃ w', w = w' + 1 := ⟨w - 1, by omega⟩
        rfl
      rw [unquoteFrom_skip, ← hdrop] at hy
      have rest (hv : utf8Valid ((c :: t).drop w) = true) : Decodes ((c :: t).drop w) y :=
        ih _ (by rw [← hn, List.length_drop, List.length_cons]; omega) hv hy rfl
      rw [← List.take_append_drop w (c :: t)]
      by_cases hc : c = backslash
      · subst hc
        obtain ⟨hascii, hlen, hle, hq⟩ := unquoteStep_escape hstep
        refine .escape ?_ ?_ (fun hm => (hq hm).2) (rest ?_)
        · rwa [List.length_take, List.length_cons, Nat.min_eq_left hle]
        · simp [List.head?_take, Nat.ne_of_gt hw]
        rwa [← List.take_append_drop w (backslash :: t), utf8Valid_ascii_append hascii] at hv
      simp only [unquoteStep, beq_iff_eq, hc, if_false] at hstep
      split at hstep
      · simp at hstep
      · next hdq =>
        simp only [Bool.or_eq_true, beq_iff_eq, not_or] at hdq
        obtain ⟨d, rest', r, hs, he, hv'⟩ := utf8Valid_cons hv
        simp only [hs, he.decode, he.encode, Option.some.injEq, Prod.mk.injEq] at hstep
        obtain ⟨rfl, rfl⟩ := hstep
        have hhead : d.head? = some c := by
          obtain ⟨b, t', rfl, -⟩ := he.lead
          simp only [List.cons_append, List.cons.injEq] at hs
          simp [hs.1]
        have hd := rest (by rwa [hs, List.drop_left])
        rw [hs, List.take_left]
        rw [hs] at hd
        refine .plain (he.not_mem (by decide) ?_) (he.not_mem (by decide) ?_) hd
        · simpa [hhead] using hdq.1
        simpa [hhead] using hc

theorem Decodes.length_le (h : Decodes s x) : x.length ≤ s.length := by
  induction h with
  | nil => exact Nat.le_refl 0
  | plain hq hb h ih => simpa using ih
  | escape hlen hhead hq h ih =>
    simp only [List.length_append]
    omega

theorem Decodes.length_lt (h : Decodes s x) (hb : backslash ∈ s) : x.length < s.length := by
  induction h with
  | nil => simp at hb
  | plain hq hno h ih => simpa using ih (by simpa [hno] using hb)
  | escape hlen hhead hq h ih =>
    have := h.length_le
    simp only [List.length_append]
    omega

theorem Decodes.exists_quote (h : Decodes s x) (hm : dquote ∈ s) :
    ∃ y z, x = y ++ dquote :: z ∧ dquote ∉ s.take (y.length + 1) := by
  induction h with
  | nil => simp at hm
  | @plain p s x hq hb h ih =>
    obtain ⟨y, z, rfl, hno⟩ := ih (by simpa [hq] using hm)
    refine ⟨p ++ y, z, by simp, ?_⟩
    rw [List.length_append, Nat.add_assoc, List.take_length_add_append, List.mem_append]
    exact not_or.mpr ⟨hq, hno⟩
  | @escape p o s x hlen hhead hq h ih =>
    by_cases hp : dquote ∈ p
    · refine ⟨[], x, by rw [hq hp]; rfl, ?_⟩
      obtain ⟨t, rfl⟩ : ∃ t, p = backslash :: t := by
        match p with
        | [] => simp at hhead
        | b :: t => exact ⟨t, by simpa using hhead⟩
      simp [dquote, backslash]
    obtain ⟨y, z, rfl, hno⟩ := ih (by simpa [hp] using hm)
    refine ⟨o ++ y, z, by simp, fun hm => ?_⟩
    have hle : (o ++ y).length + 1 ≤ p.length + (y.length + 1) := by
      rw [List.length_append]
      omega
    have hm := (List.take_sublist_take_left hle).subset hm
    rw [List.take_length_add_append, List.mem_append] at hm
    exact hm.elim hp hno

theorem diverge_decoded (hv : utf8Valid s = true) (h : unquoteFrom 0 s = some x)
    (hb : backslash ∈ s) (u v : Bytes) : Diverge (x ++ dquote :: u) (s ++ dquote :: v) := by
  have hd := decodes_of_unquoteFrom hv h
  have hlen := hd.length_lt hb
  have no : ¬ x ++ [dquote] <+: s := by
    intro hp
    obtain ⟨y, z, rfl, hno⟩ := hd.exists_quote (hp.subset (by simp))
    obtain ⟨w, rfl⟩ := hp
    exact hno (by simp [List.take_append])
  have key : Diverge (x ++ [dquote]) s := by
    rcases Diverge.or_isPrefix (x ++ [dquote]) s with hp | hp | hdiv
    · exact absurd hp no
    · have heq : s = x ++ [dquote] := hp.eq_of_length_le (by simpa [Nat.succ_le_iff] using hlen)
      exact absurd (heq ▸ List.prefix_rfl) no
    exact hdiv
  simpa using key.append_right u (dquote :: v)

end PiiShield
