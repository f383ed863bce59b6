import PiiShield.CheckedReads
import PiiShield.LineReader
import PiiShield.Stats.Metrics
import PiiShield.Trimming

/-! Series as the Prometheus text format writes them, read back label by label, and the reader
with every offset checked. -/

namespace PiiShield.Stats

variable {c : UInt8} {fuel i : Nat} {l : Bytes × Bytes} {s : Bytes}

def escapeByte (c : UInt8) : Bytes :=
  if c = backslash then [backslash, backslash]
  else if c = dquote then [backslash, dquote]
  else if c = newline then [backslash, chr 'n']
  else [c]

def writeLabel (l : Bytes × Bytes) : Bytes := l.1 ++ chr '=' :: dquote :: (l.2.flatMap escapeByte ++ [dquote])

def writeSeries (name : Bytes) (labels : List (Bytes × Bytes)) (value : Bytes) : Bytes :=
  name ++ chr '\x7b' :: ([chr ','].intercalate (labels.map writeLabel) ++ chr '\x7d' :: chr ' ' :: value)

def Spaceless (s : Bytes) : Prop := ∀ r ∈ runes s, isSpaceRune r = false

/-- A name: no white space and none of the marks of the format. -/
structure IsName (n : Bytes) : Prop where
  ne_nil : n ≠ []
  spaceless : Spaceless n
  unmarked : ∀ c ∈ n, c ≠ chr '\x7b' ∧ c ≠ chr '\x7d' ∧ c ≠ chr '=' ∧ c ≠ chr ','

theorem Spaceless.not_mem (h : Spaceless s) (hascii : isASCII c = true)
    (hspace : isSpaceRune c.toNat = true) : c ∉ s := by
  intro hc
  rw [← flatten_chunks s] at hc
  obtain ⟨chunk, hchunk, hmem⟩ := List.mem_flatten.mp hc
  have hrune := h (decodeRune chunk).1 (by rw [runes_eq_map_chunks]; exact List.mem_map_of_mem hchunk)
  rw [decodeRune_of_mem_chunks hchunk hmem hascii, hspace] at hrune
  cases hrune

theorem Spaceless.trimSpace (h : Spaceless s) : trimSpace s = s :=
  trimSpace_eq_self_iff.mpr ⟨fun r hr => h r (List.mem_of_mem_head? hr), fun r hr => h r (List.mem_of_getLast? hr)⟩

theorem isName_of_word {n : Bytes} (hne : n ≠ []) (h : ∀ c ∈ n, (isAlnumByte c || c == chr '_') = true) : IsName n := by
  have hbyte : ∀ c : UInt8, (isAlnumByte c || c == chr '_') = true → isASCII c = true ∧ isSpaceRune c.toNat = false ∧
      c ≠ chr '\x7b' ∧ c ≠ chr '\x7d' ∧ c ≠ chr '=' ∧ c ≠ chr ',' := by
    refine forall_byte ?_
    decide +kernel
  refine ⟨hne, fun r hr => ?_, fun c hc => (hbyte c (h c hc)).2.2⟩
  rw [runes_eq_map_chunks] at hr
  obtain ⟨chunk, hchunk, rfl⟩ := List.mem_map.mp hr
  obtain ⟨c, rest, rfl⟩ := List.exists_cons_of_ne_nil (ne_nil_of_mem_chunks hchunk)
  have hc : c ∈ n := by
    rw [← flatten_chunks n]
    exact List.mem_flatten.mpr ⟨_, hchunk, List.mem_cons_self⟩
  grind [decodeRune_of_mem_chunks, List.mem_cons_self]

theorem readLabelValue_plain (hq : c ≠ dquote) (hb : c = backslash → s = []) :
    readLabelValue (c :: s) = (readLabelValue s).map fun r => (c :: r.1, r.2) := by
  cases s with
  | nil =>
    simp [readLabelValue, Option.map_none, hq]
  | cons e s =>
    simp_all [backslash, List.cons_ne_nil, readLabelValue]

theorem readLabelValue_escaped (hc : c = backslash) (e : UInt8) (s : Bytes) : readLabelValue (c :: e :: s) =
      (readLabelValue s).map fun r => ((if e == chr 'n' then newline else e) :: r.1, r.2) := by
  rw [hc]
  rfl

theorem readLabelValue_close (rest : Bytes) : readLabelValue (dquote :: rest) = some ([], rest) := by
  cases rest <;> rfl

theorem readLabelValue_escapeByte (c : UInt8) (s : Bytes) :
    readLabelValue (escapeByte c ++ s) = (readLabelValue s).map fun r => (c :: r.1, r.2) := by
  rw [escapeByte]
  split
  · next h =>
    subst h
    rfl
  · next hb =>
    split
    · next h =>
      subst h
      rfl
    · next hq =>
      split
      · next h =>
        subst h
        rfl
      exact readLabelValue_plain hq fun h => absurd h hb

theorem readLabelValue_escape (value rest : Bytes) :
    readLabelValue (value.flatMap escapeByte ++ dquote :: rest) = some (value, rest) := by
  induction value with
  | nil => exact readLabelValue_close rest
  | cons c value ih =>
    rw [List.flatMap_cons, List.append_assoc, readLabelValue_escapeByte, ih]
    rfl

theorem skipSeparators_of_not (h : (c == chr ' ' || c == chr ',') = false) (s : Bytes) :
    skipSeparators (c :: s) = c :: s := by
  rw [skipSeparators, List.dropWhile_cons_of_neg (by simpa using h)]

theorem skipSeparators_of (h : (c == chr ' ' || c == chr ',') = true) (s : Bytes) :
    skipSeparators (c :: s) = skipSeparators s := by
  rw [skipSeparators, List.dropWhile_cons_of_pos (by simpa using h), skipSeparators]

theorem readLabel_close (rest : Bytes) : readLabel (chr '\x7d' :: rest) = some (none, rest) := by
  have hskip : skipSeparators (chr '\x7d' :: rest) = chr '\x7d' :: rest := skipSeparators_of_not rfl rest
  rw [readLabel, hskip]
  rfl

theorem readLabel_writeLabel (hl : IsName l.1) (rest : Bytes) :
    readLabel (writeLabel l ++ rest) = some (some l, rest) := by
  obtain ⟨name, value⟩ := l
  have htext : writeLabel (name, value) ++ rest =
      name ++ chr '=' :: dquote :: (value.flatMap escapeByte ++ dquote :: rest) := by
    simp [writeLabel]
  have hstart : skipSeparators (writeLabel (name, value) ++ rest) = writeLabel (name, value) ++ rest ∧
      firstIs (writeLabel (name, value) ++ rest) (· == chr '\x7d') = false := by
    obtain ⟨c, tail, rfl⟩ := List.exists_cons_of_ne_nil hl.ne_nil
    have hspace : c ≠ chr ' ' := by
      rintro rfl
      exact hl.spaceless.not_mem (c := chr ' ') rfl rfl List.mem_cons_self
    obtain ⟨-, hclose, -, hcomma⟩ := hl.unmarked c List.mem_cons_self
    rw [htext, List.cons_append]
    refine ⟨skipSeparators_of_not ?_ _, ?_⟩
    · rw [beq_eq_false_iff_ne.mpr hspace, beq_eq_false_iff_ne.mpr hcomma]
      rfl
    exact beq_eq_false_iff_ne.mpr hclose
  have hequals : chr '=' ∉ name := fun h => (hl.unmarked _ h).2.2.1 rfl
  rw [readLabel, hstart.1, hstart.2, htext, indexByte, LineReader.idxOf?_line hequals]
  have hnext : (name ++ chr '=' :: dquote :: (value.flatMap escapeByte ++ dquote :: rest))[name.length + 1]? =
      some dquote := by simp_all
  have hvalue : (name ++ chr '=' :: dquote :: (value.flatMap escapeByte ++ dquote :: rest)).drop (name.length + 2) =
      value.flatMap escapeByte ++ dquote :: rest := by simp_all
  simp [readLabelValue_escape, hl.spaceless.trimSpace]

theorem readLabel_comma (s : Bytes) : readLabel (chr ',' :: s) = readLabel s := by
  rw [readLabel, skipSeparators_of rfl, readLabel]

theorem readLabels_eq (s : Bytes) : readLabels s = match readLabel s with
    | none => none
    | some (none, rest) => some ([], rest)
    | some (some l, rest) => (readLabels rest).map fun r => (l :: r.1, r.2) := by
  rw [readLabels]
  split <;> simp only [*]

theorem readLabels_comma (s : Bytes) : readLabels (chr ',' :: s) = readLabels s := by
  rw [readLabels_eq, readLabel_comma, ← readLabels_eq]

theorem readLabels_close (rest : Bytes) : readLabels (chr '\x7d' :: rest) = some ([], rest) := by
  rw [readLabels_eq, readLabel_close]

theorem readLabels_label (hl : IsName l.1) (rest : Bytes) :
    readLabels (writeLabel l ++ rest) = (readLabels rest).map fun r => (l :: r.1, r.2) := by
  rw [readLabels_eq, readLabel_writeLabel hl]

theorem readLabels_writeLabels (labels : List (Bytes × Bytes)) (hl : ∀ l ∈ labels, IsName l.1) (rest : Bytes) :
    readLabels ([chr ','].intercalate (labels.map writeLabel) ++ chr '\x7d' :: rest) = some (labels, rest) := by
  induction labels with
  | nil => exact readLabels_close rest
  | cons l labels ih =>
    have hfirst := hl l List.mem_cons_self
    have hrest := ih fun l' hl' => hl l' (List.mem_cons_of_mem _ hl')
    cases labels with
    | nil =>
      have htext : [chr ','].intercalate ([l].map writeLabel) = writeLabel l := by simp
      rw [htext, readLabels_label hfirst, readLabels_close]
      rfl
    | cons m labels =>
      have hne : (m :: labels).map writeLabel ≠ [] := by simp
      rw [List.map_cons, List.intercalate_cons_of_ne_nil hne, List.append_assoc, List.append_assoc,
        readLabels_label hfirst, List.singleton_append, readLabels_comma, hrest]
      rfl

theorem firstField_blank (h : Spaceless s) : firstField (chr ' ' :: s) = s := by
  have hchunks : chunks (chr ' ' :: s) = [chr ' '] :: chunks s :=
    chunks_append (c := [chr ' ']) (by simp) (by simp [decodeRune])
  have hkept : ∀ c ∈ chunks s, isSpaceRune (decodeRune c).1 = false := fun c hc =>
    h _ (by rw [runes_eq_map_chunks]; exact List.mem_map_of_mem hc)
  have hdrop : (chunks s).dropWhile (fun c => isSpaceRune (decodeRune c).1) = chunks s :=
    List.dropWhile_eq_self_iff.mpr fun hl => by rw [hkept _ (List.getElem_mem hl)]; exact Bool.false_ne_true
  have htake : (chunks s).takeWhile (fun c => !isSpaceRune (decodeRune c).1) = chunks s :=
    List.takeWhile_eq_self_iff.mpr fun c hc => by rw [hkept c hc]; rfl
  rw [firstField, hchunks, List.dropWhile_cons_of_pos rfl]
  dsimp only
  rw [hdrop, htake, flatten_chunks]

/-- What is documented of `strconv.ParseFloat`: a text it reads is a numeral or a name of an
infinity or of no number. -/
def ReadsNumerals {V : Type} (parseFloat : Bytes → Option V) : Prop :=
  ∀ text v, parseFloat text = some v → text ≠ [] ∧ Spaceless text

theorem splitSeries_writeSeries {V : Type} {parseFloat : Bytes → Option V} (hfloat : ReadsNumerals parseFloat)
    {name value : Bytes} {labels : List (Bytes × Bytes)} {v : V} (hname : IsName name)
    (hlabels : ∀ l ∈ labels, IsName l.1) (hvalue : parseFloat value = some v) :
    splitSeries parseFloat (writeSeries name labels value) = some (name, labels, v) := by
  obtain ⟨hne, hspaceless⟩ := hfloat value v hvalue
  have hopen : chr '\x7b' ∉ name := fun h => (hname.unmarked _ h).1 rfl
  have hlabels' : readLabels ((writeSeries name labels value).drop (name.length + 1)) =
      some (labels, chr ' ' :: value) := by
    rw [writeSeries, List.drop_append, List.drop_eq_nil_of_le (Nat.le_succ _), Nat.add_sub_cancel_left]
    exact readLabels_writeLabels labels hlabels _
  have hindex : indexByte (writeSeries name labels value) (chr '\x7b') = some name.length :=
    LineReader.idxOf?_line hopen
  grind [writeSeries, splitSeries, firstField_blank]

/-- The value of a label in the map that is filled in the order of the labels. -/
def labelOf (labels : List (Bytes × Bytes)) (name : Bytes) : Option Bytes :=
  (labels.reverse.find? (·.1 == name)).map Prod.snd

theorem labelOf_eq_some_iff {labels : List (Bytes × Bytes)} (hnodup : (labels.map Prod.fst).Nodup)
    (name value : Bytes) :
    labelOf labels name = some value ↔ (name, value) ∈ labels := by
  rw [labelOf, Option.map_eq_some_iff]
  constructor
  · grind
  intro hmem
  cases hfind : labels.reverse.find? (·.1 == name) with
  | none =>
    have hnone := List.find?_eq_none.mp hfind (name, value) (List.mem_reverse.mpr hmem)
    exact absurd (beq_self_eq_true name) hnone
  | some l =>
    have hl := List.mem_reverse.mp (List.mem_of_find?_eq_some hfind)
    have hname := List.find?_some hfind
    rw [beq_iff_eq] at hname
    exact ⟨l, rfl, congrArg Prod.snd (List.inj_on_of_nodup_map hnodup hl hmem hname)⟩

def skipFrom (s : Bytes) : Nat → Nat → Option Nat
  | 0, _ => none
  | fuel + 1, i => do
    if ← readIf s i fun c => c == chr ' ' || c == chr ',' then skipFrom s fuel (i + 1) else return i

def valueFrom (s : Bytes) : Nat → Nat → Bytes → Option (Option (Bytes × Nat))
  | 0, _, _ => none
  | fuel + 1, i, value => do
    if s.length ≤ i then return none
    let c ← readAt s i
    if c == dquote then return some (value, i + 1)
    else if c == backslash && i + 1 < s.length then
      let e ← readAt s (i + 1 : Nat)
      valueFrom s fuel (i + 2) (value ++ [if e == chr 'n' then newline else e])
    else valueFrom s fuel (i + 1) (value ++ [c])

/-- One round of `readLabels`: the next label, or none at the closing brace, and the offset past
it. An offset out of range, or a loop that does not come to its end, gives `none`. -/
def labelFrom (s : Bytes) (i : Nat) : Option (Option (Option (Bytes × Bytes) × Nat)) := do
  let i ← skipFrom s (s.length + 1) i
  if ← readIf s i (· == chr '\x7d') then return some (none, i + 1)
  match indexByte (← sliceFrom s i) (chr '=') with
  | none => return none
  | some eq =>
    if s.length ≤ i + eq + 1 then return none
    if (← readAt s (i + eq + 1 : Nat)) != dquote then return none
    let key ← sliceBetween s i (i + eq : Nat)
    let value ← valueFrom s (s.length + 1) (i + eq + 2) []
    return value.map fun r => (some (trimSpace key, r.1), r.2)

def labelsFrom (s : Bytes) : Nat → Nat → List (Bytes × Bytes) → Option (Option (List (Bytes × Bytes) × Nat))
  | 0, _, _ => none
  | fuel + 1, i, labels => do
    match ← labelFrom s i with
    | none => return none
    | some (none, i) => return some (labels, i)
    | some (some l, i) => labelsFrom s fuel i (labels ++ [l])

def checkedReadLabels (s : Bytes) : Option (Option (List (Bytes × Bytes) × Nat)) := labelsFrom s (s.length + 1) 0 []

theorem skipFrom_eq (s : Bytes) (hi : i ≤ s.length) (hfuel : s.length < fuel + i) :
    ∃ j, skipFrom s fuel i = some j ∧ i ≤ j ∧ j ≤ s.length ∧ s.drop j = skipSeparators (s.drop i) := by
  induction fuel generalizing i with
  | zero => omega
  | succ fuel ih =>
    rw [skipFrom, readIf_eq]
    by_cases hlt : i < s.length
    · rw [List.drop_eq_getElem_cons hlt]
      cases hsep : (s[i] == chr ' ' || s[i] == chr ',') with
      | true =>
        grind [firstIs, List.head?_cons, skipSeparators_of]
      | false =>
        refine ⟨i, ?_, Nat.le_refl i, hi, ?_⟩
        · simp only [firstIs, List.head?_cons, Option.any_some, hsep]
          rfl
        rw [skipSeparators_of_not hsep, List.drop_eq_getElem_cons hlt]
    have hend : s.drop i = [] := List.drop_eq_nil_of_le (by omega)
    refine ⟨i, ?_, Nat.le_refl i, hi, by rw [hend]; rfl⟩
    rw [hend]
    rfl

theorem valueFrom_eq (s : Bytes) (hi : i ≤ s.length) (hfuel : s.length < fuel + i) (value : Bytes) :
    valueFrom s fuel i value =
      some ((readLabelValue (s.drop i)).map fun r => (value ++ r.1, s.length - r.2.length)) := by
  induction fuel generalizing i value with
  | zero => omega
  | succ fuel ih =>
    rw [valueFrom]
    by_cases hlt : i < s.length
    · have hdrop := List.drop_eq_getElem_cons hlt
      rw [if_neg (Nat.not_le.mpr hlt), readAt_eq hlt, byteAt_eq hlt, hdrop]
      by_cases hq : s[i] = dquote
      · grind [List.length_drop, readLabelValue_close]
      by_cases hb : s[i] = backslash ∧ i + 1 < s.length
      · have hvalue := ih (by omega : i + 2 ≤ s.length) (by omega)
          (value ++ [if s[i + 1] == chr 'n' then newline else s[i + 1]])
        have hguard : (s[i] == backslash && decide (i + 1 < s.length)) = true := by simpa using hb
        rw [List.drop_eq_getElem_cons hb.2, readLabelValue_escaped hb.1]
        simp only [Option.bind_eq_bind, Option.bind_some, hguard, if_true, readAt_eq hb.2, byteAt_eq hb.2,
          beq_eq_false_iff_ne.mpr hq, Bool.false_eq_true, if_false, hvalue, Option.map_map]
        simp [Function.comp_def]
      have hvalue := ih (Nat.succ_le_of_lt hlt) (by omega) (value ++ [s[i]])
      have hguard : (s[i] == backslash && decide (i + 1 < s.length)) = false := by simpa using hb
      have hend (h : s[i] = backslash) : s.drop (i + 1) = [] :=
        List.drop_eq_nil_of_le (Nat.not_lt.mp fun hlt' => hb ⟨h, hlt'⟩)
      rw [readLabelValue_plain hq hend]
      simp only [Option.bind_eq_bind, Option.bind_some, hguard, beq_eq_false_iff_ne.mpr hq, Bool.false_eq_true,
        if_false, hvalue, Option.map_map]
      simp [Function.comp_def]
    rw [if_pos (Nat.not_lt.mp hlt), List.drop_eq_nil_of_le (Nat.not_lt.mp hlt)]
    rfl

theorem suffix_readLabelValue {value rest : Bytes} (h : readLabelValue s = some (value, rest)) : rest <:+ s := by
  fun_induction readLabelValue s generalizing value with
  | case1 => cases h
  | case2 c hc =>
    cases h
    exact List.nil_suffix
  | case3 c hc => cases h
  | case4 c e s hc =>
    cases h
    exact List.suffix_cons c _
  | case5 c e s hc hb ih =>
    obtain ⟨r, hr, heq⟩ := Option.map_eq_some_iff.mp h
    grind [List.suffix_cons]
  | case6 c e s hc hb ih =>
    obtain ⟨r, hr, heq⟩ := Option.map_eq_some_iff.mp h
    cases heq
    exact (ih hr).trans (List.suffix_cons c _)

theorem labelFrom_eq (s : Bytes) (hi : i ≤ s.length) :
    labelFrom s i = some ((readLabel (s.drop i)).map fun r => (r.1, s.length - r.2.length)) := by
  obtain ⟨j, hskip, hij, hj, hdrop⟩ := skipFrom_eq s hi (by omega : s.length < s.length + 1 + i)
  rw [labelFrom, hskip, readLabel, ← hdrop]
  simp only [Option.bind_eq_bind, Option.bind_some, readIf_eq, sliceFrom_eq hj]
  cases hclose : firstIs (s.drop j) (· == chr '\x7d') with
  | true =>
    have hlt : j < s.length := by
      by_contra hge
      rw [List.drop_eq_nil_of_le (Nat.not_lt.mp hge)] at hclose
      cases hclose
    grind
  | false =>
    cases heq : indexByte (s.drop j) (chr '=') with
    | none => rfl
    | some eq =>
      by_cases hlt : j + eq + 1 < s.length
      · have hbyte : (s.drop j)[eq + 1]? = some s[j + eq + 1] := by grind
        have hread : readAt s (j + eq + 1 : Nat) = some s[j + eq + 1] := by rw [readAt_eq hlt, byteAt_eq hlt]
        simp only [Bool.false_eq_true, if_false, Nat.not_le.mpr hlt, hread, hbyte, Option.bind_some]
        by_cases hq : s[j + eq + 1] = dquote
        · have hkey : sliceBetween s j (j + eq : Nat) = some ((s.drop j).take eq) := by
            rw [sliceBetween_eq (Nat.le_add_right j eq) (by omega), slice, List.drop_take, Nat.add_sub_cancel_left]
          have hvalue := valueFrom_eq s (by omega : j + eq + 2 ≤ s.length)
            (by omega : s.length < s.length + 1 + (j + eq + 2)) []
          have hdrop' : (s.drop j).drop (eq + 2) = s.drop (j + eq + 2) := by simp [Nat.add_assoc]
          simp only [hq, bne_self_eq_false, beq_self_eq_true, Bool.false_eq_true, if_false, if_true, hkey, hvalue,
            hdrop', Option.bind_some, Option.map_map]
          rfl
        simp_all
      grind

theorem suffix_readLabel {rest : Bytes} (h : readLabel s = some (some l, rest)) : rest <:+ s := by
  have hskip : skipSeparators s <:+ s := List.dropWhile_suffix _
  obtain ⟨n, value, hr⟩ := readLabel_value h
  exact ((suffix_readLabelValue hr).trans (List.drop_suffix _ _)).trans hskip

theorem labelsFrom_eq (s : Bytes) (hi : i ≤ s.length) (hfuel : s.length < fuel + i)
    (labels : List (Bytes × Bytes)) :
    labelsFrom s fuel i labels =
      some ((readLabels (s.drop i)).map fun r => (labels ++ r.1, s.length - r.2.length)) := by
  induction fuel generalizing i labels with
  | zero => omega
  | succ fuel ih =>
    rw [labelsFrom, labelFrom_eq s hi, readLabels_eq]
    cases hr : readLabel (s.drop i) with
    | none => rfl
    | some r =>
      obtain ⟨l, rest⟩ := r
      cases l with
      | none => simp
      | some l =>
        have hshort := length_readLabel_lt hr
        rw [List.length_drop] at hshort
        have hrest : s.drop (s.length - rest.length) = rest :=
          (List.suffix_iff_eq_drop.mp ((suffix_readLabel hr).trans (List.drop_suffix _ _))).symm
        have hnext := ih (Nat.sub_le s.length rest.length) (by omega) (labels ++ [l])
        rw [hrest] at hnext
        simp [hnext, Function.comp_def]

theorem checkedReadLabels_eq (s : Bytes) : checkedReadLabels s =
    some ((readLabels s).map fun r => (r.1, s.length - r.2.length)) :=
  labelsFrom_eq s (Nat.zero_le _) (by omega) []

/-- A series that was written is read back with its labels, and the reader of the labels comes
to its end on every string without an offset out of range. -/
theorem series_read_back {V : Type} {parseFloat : Bytes → Option V} (hfloat : ReadsNumerals parseFloat) :
    (∀ name labels value v, IsName name → (∀ l ∈ labels, IsName l.1) → (labels.map Prod.fst).Nodup →
      parseFloat value = some v →
        ∃ found, splitSeries parseFloat (writeSeries name labels value) = some (name, found, v) ∧
          ∀ label text, labelOf found label = some text ↔ (label, text) ∈ labels) ∧
    ∀ s, checkedReadLabels s = some ((readLabels s).map fun r => (r.1, s.length - r.2.length)) := by
  refine ⟨fun name labels value v hname hlabels hnodup hvalue => ?_, checkedReadLabels_eq⟩
  exact ⟨labels, splitSeries_writeSeries hfloat hname hlabels hvalue, labelOf_eq_some_iff hnodup⟩

def readTwelve (text : Bytes) : Option Nat := if text = bs "12" then some 12 else none

theorem readsNumerals_readTwelve : ReadsNumerals readTwelve := by
  intro text v h
  rw [readTwelve, Option.ite_none_right_eq_some] at h
  have hrunes : ∀ r ∈ runes (bs "12"), isSpaceRune r = false := by decide
  rw [h.1]
  exact ⟨by decide, hrunes⟩

theorem series_read_back_with_marks :
    ∃ found, splitSeries readTwelve (bs "m\x7btype=\"\x7da=\\\"b\\\",\\\\\"\x7d 12") = some (bs "m", found, 12) ∧
      ∀ label text, labelOf found label = some text ↔ (label, text) ∈ [(bs "type", bs "\x7da=\"b\",\\")] := by
  have hname (n : Bytes) (hne : n ≠ []) (h : n.all (fun c => isAlnumByte c || c == chr '_') = true) : IsName n :=
    isName_of_word hne (List.all_eq_true.mp h)
  refine (series_read_back readsNumerals_readTwelve).1 (bs "m") [(bs "type", bs "\x7da=\"b\",\\")] (bs "12") 12
    (hname _ (by decide) (by decide)) (fun l hl => ?_) (by decide) (by decide)
  rw [List.mem_singleton.mp hl]
  exact hname _ (by decide) (by decide)

end PiiShield.Stats
