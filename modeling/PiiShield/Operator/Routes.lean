import PiiShield.Operator.Environment
import PiiShield.Operator.Rendering

/-! The two routes of the rules of a policy to a sidecar, by environment variables and by the
rendered file. They build one configuration up to commas inside a key or a pattern, which
separate entries on the first route only. -/

namespace PiiShield.Operator

section Separators

variable {α : Type} [BEq α] [LawfulBEq α] {x : α}

theorem splitOn_append_sep (a b : List α) (x : α) : (a ++ x :: b).splitOn x = a.splitOn x ++ b.splitOn x :=
  List.splitOnP_append_cons a b (by simp)

theorem splitOn_intercalate_eq_flatMap (x : α) {ls : List (List α)} (h : ls ≠ []) :
    ([x].intercalate ls).splitOn x = ls.flatMap (·.splitOn x) := by
  induction ls with
  | nil => exact absurd rfl h
  | cons l ls ih =>
    cases ls with
    | nil => simp
    | cons m ls =>
      simp_all [List.intercalate, splitOn_append_sep]

theorem not_mem_of_mem_splitOn {l m : List α} (h : m ∈ l.splitOn x) : x ∉ m := by
  induction l generalizing m with
  | nil =>
    have hm : m = [] := by simpa using h
    simp [hm]
  | cons y l ih =>
    rw [List.splitOn_eq_splitOnP, List.splitOnP_cons_eq_if_modifyHead, ← List.splitOn_eq_splitOnP] at h
    by_cases hy : (y == x) = true
    · grind
    rw [if_neg hy] at h
    obtain ⟨d, ds, hsplit⟩ := List.exists_cons_of_ne_nil (List.splitOn_ne_nil x l)
    grind [List.modifyHead_cons]

omit [LawfulBEq α] in
theorem length_splitOn_pos (l : List α) : 0 < (l.splitOn x).length :=
  List.length_pos_iff.mpr (List.splitOn_ne_nil x l)

theorem length_splitOn_eq_one_iff {l : List α} : (l.splitOn x).length = 1 ↔ x ∉ l := by
  constructor
  · intro h hx
    obtain ⟨a, b, rfl⟩ := List.append_of_mem hx
    grind [splitOn_append_sep, length_splitOn_pos]
  intro hx
  rw [List.splitOn_eq_singleton hx]
  rfl

theorem length_flatMap_splitOn {ls : List (List α)} : ls.length ≤ (ls.flatMap (·.splitOn x)).length ∧
      ((ls.flatMap (·.splitOn x)).length = ls.length ↔ ∀ l ∈ ls, x ∉ l) := by
  induction ls with
  | nil => simp
  | cons l ls ih =>
    have hpos := length_splitOn_pos (x := x) l
    have hone := length_splitOn_eq_one_iff (x := x) (l := l)
    grind

end Separators

variable {Num : Type} {P : Platform Num}

section Overlay

variable {S : Sidecar P} {T : TextForms Num}

def fileSettings (S : Sidecar P) (doc : Document Num) : FileConfig Num :=
  let c := defaultFileConfig S
  { c with
    entropyThreshold := if isPositive P doc.entropyThreshold then doc.entropyThreshold else c.entropyThreshold
    confidenceThreshold :=
      if isPositive P doc.confidenceThreshold then doc.confidenceThreshold else c.confidenceThreshold
    minSecretLength := if 0 < doc.minSecretLength then doc.minSecretLength else c.minSecretLength
    sensitiveKeys :=
      if doc.sensitiveKeys.isEmpty then c.sensitiveKeys else doc.sensitiveKeys.map (normalKey P)
    disableBigramCheck := doc.disableBigramCheck.getD c.disableBigramCheck
    adaptiveThreshold := doc.adaptiveThreshold.getD c.adaptiveThreshold
    entityTypeLabels := doc.entityTypeLabels.getD c.entityTypeLabels }

def withRules (apply : FileConfig Num → List Rule → FileConfig Num × Bool) (c : FileConfig Num)
    (rules : List Rule) : FileConfig Num := if rules.isEmpty then c else (apply c rules).1

def assembled (S : Sidecar P) (c : FileConfig Num) (patterns : List Bytes) (custom safe : List Rule) :
    FileConfig Num :=
  withRules (applySafeRegexes S)
    (withRules (applyCustomRegexes S) { c with sensitiveKeyPatterns := cleanedPatterns patterns } custom) safe

theorem applySettings_eq {doc : Document Num} (h : Valid P doc) :
    applySettings (P := P) (defaultFileConfig S) doc = .ok (fileSettings S doc) := by
  have hlength := secretLength_iff.mpr h.length
  have hkeys := any_normalKey.mpr h.keys
  simp only [applySettings, h.entropy, h.confidence, hlength, hkeys, Bool.false_eq_true, if_false]
  rfl

theorem applyPatterns_eq {c : FileConfig Num} (hc : c.sensitiveKeyPatterns = []) {patterns : List Bytes}
    (h : ∀ p ∈ patterns, P.compiles p = true) (hjoins : Joins S patterns) :
    applyPatterns S c patterns = .ok { c with sensitiveKeyPatterns := cleanedPatterns patterns } := by
  by_cases hempty : patterns.isEmpty = true
  · have hnil : patterns = [] := by simpa using hempty
    subst hnil
    rw [show cleanedPatterns [] = c.sensitiveKeyPatterns from hc.symm]
    rfl
  have hjoins' : (compileSensitiveKeyPatterns S (cleanedPatterns patterns)).isSome = true := hjoins
  grind [applyPatterns, applySensitiveKeyPatterns]

theorem applyRules_eq {field : RuleField} {apply : FileConfig Num → List Rule → FileConfig Num × Bool}
    {c : FileConfig Num} {rules : List Rule} (h : ∀ r ∈ rules, r.pattern ≠ [] ∧ P.compiles r.pattern = true)
    (hall : (apply c rules).2 = true) :
    applyRules (P := P) field apply c rules = .ok (withRules apply c rules) := by
  rw [applyRules, checkRegexRules_ok_iff.mpr h, withRules]
  by_cases hempty : rules.isEmpty = true
  · simp [hempty, bind, Except.bind, pure, Except.pure]
  simp [hempty, hall, bind, Except.bind, pure, Except.pure]

theorem policyConfig_eq {doc : Document Num} (h : Valid P doc) (hjoins : Joins S doc.sensitiveKeyPatterns) :
    policyConfig S doc = .ok
      (assembled S (fileSettings S doc) doc.sensitiveKeyPatterns doc.customRegexes doc.safeRegexes) := by
  rw [policyConfig, applySettings_eq h]
  simp only [bind, Except.bind]
  rw [applyPatterns_eq rfl h.patterns hjoins]
  simp only []
  rw [applyRules_eq h.custom (applyCustomRegexes_snd h.custom)]
  simp only []
  rw [applyRules_eq h.safe (applySafeRegexes_snd h.safe)]
  rfl

theorem applyCustomRegexes_frame (c : FileConfig Num) (rules : List Rule) :
    (applyCustomRegexes S c rules).1.sensitiveKeys = c.sensitiveKeys ∧
      (applyCustomRegexes S c rules).1.sensitiveKeyPatterns = c.sensitiveKeyPatterns := by
  grind [applyCustomRegexes]

theorem assembled_frame (c : FileConfig Num) (patterns : List Bytes) (custom safe : List Rule) :
    (assembled S c patterns custom safe).sensitiveKeys = c.sensitiveKeys ∧
      (assembled S c patterns custom safe).sensitiveKeyPatterns = cleanedPatterns patterns := by
  have hframe (c : FileConfig Num) (rules : List Rule) :
      (withRules (applyCustomRegexes S) c rules).sensitiveKeys = c.sensitiveKeys ∧
        (withRules (applyCustomRegexes S) c rules).sensitiveKeyPatterns = c.sensitiveKeyPatterns := by
    grind [withRules, applyCustomRegexes_frame]
  rw [assembled, withRules]
  split
  · exact hframe _ _
  exact hframe _ _

end Overlay

section Variables

variable (P) (T : TextForms Num)

def envValue (spec : PolicyRules Num) : Variable → Bytes
  | .confidenceThreshold =>
    if P.isZero spec.confidenceThreshold then [] else T.formatFloat spec.confidenceThreshold
  | .entropyThreshold => if P.isZero spec.entropyThreshold then [] else T.formatFloat spec.entropyThreshold
  | .minSecretLength => if 0 < spec.minSecretLength then itoa spec.minSecretLength else []
  | .sensitiveKeys => [chr ','].intercalate spec.sensitiveKeys
  | .sensitiveKeyPatterns => [chr ','].intercalate spec.sensitiveKeyPatterns
  | .customRegexList => marshalRegexRules T spec.customRegexList
  | .safeRegexList => marshalRegexRules T spec.safeRegexList
  | _ => []

theorem getenv_addEnv_append (n name : Variable) (value : Bytes) (e : List (Variable × Bytes)) :
    getenv (addEnv n value ++ e) name = if n = name ∧ value ≠ [] then value else getenv e name := by
  rw [addEnv]
  by_cases hv : value = []
  · simp [hv]
  have hv' : value.isEmpty = false := by simpa using hv
  by_cases hn : n = name
  · simp [hv, hv', hn, getenv]
  have hn' : (name == n) = false := by simpa using Ne.symm hn
  simp [hv', hn, hn', getenv, List.lookup_cons]

theorem getenv_scannerEnv (spec : PolicyRules Num) (name : Variable) :
    getenv (scannerEnv P T spec) name = envValue P T spec name := by
  have hskip (c : Prop) [Decidable c] (n : Variable) (v : Bytes) :
      (if c then [] else addEnv n v) = addEnv n (if c then [] else v) := by
    by_cases hc : c <;> simp [hc, addEnv]
  have hkeep (c : Prop) [Decidable c] (n : Variable) (v : Bytes) :
      (if c then addEnv n v else []) = addEnv n (if c then v else []) := by
    by_cases hc : c <;> simp [hc, addEnv]
  have hvalue (v : Bytes) : (if v = [] then [] else v) = v := by
    by_cases hv : v = [] <;> simp [hv]
  have hend : scannerEnv P T spec = scannerEnv P T spec ++ [] := (List.append_nil _).symm
  rw [hend, scannerEnv]
  simp only [hskip, hkeep, List.append_assoc, getenv_addEnv_append]
  cases name <;> simp [envValue, getenv, hvalue]

end Variables

theorem trimSpace_formatNat (n : Nat) : trimSpace (formatNat n) = formatNat n := by
  apply trimSpace_of_no_space
  intro x hx
  have hdigit := List.all_eq_true.mp (formatNat_spec n).2 x hx
  have hrange : 0x30 ≤ x.toNat ∧ x.toNat ≤ 0x39 := le_toNat_le (l := 0x30) (h := 0x39) hdigit
  constructor
  · simp only [isASCII, decide_eq_true_eq, UInt8.lt_iff_toNat_lt, UInt8.reduceToNat]
    omega
  simp only [isSpaceRune, Bool.or_eq_false_iff, Bool.and_eq_false_iff, decide_eq_false_iff_not,
    beq_eq_false_iff_ne]
  omega

theorem overrideLength_itoa {n old : Int} (hn : n ≤ maxMinSecretLength) :
    overrideLength (if 0 < n then itoa n else []) old = if 0 < n then n else old := by
  by_cases hpos : 0 < n
  · have hlt : ¬ n < 0 := by omega
    have hne := (formatNat_spec n.natAbs).1
    have hsmall : n.natAbs < 2 ^ 63 := by
      rw [maxMinSecretLength] at hn
      omega
    have hempty : (formatNat n.natAbs).isEmpty = false := by simpa using hne
    have habs : (n.natAbs : Int) = n := by omega
    simp [hpos, itoa, hlt, overrideLength, hempty, trimSpace_formatNat, atoi_formatNat hsmall,
      habs, hn]
  simp [hpos, overrideLength]

/-- What is assumed of the texts of one policy: a number is read as its decimal form says,
and a list of rules as it was. -/
structure Reads (P : Platform Num) (T : TextForms Num) (spec : PolicyRules Num) : Prop where
  number : ∀ x, P.isZero x = false →
    T.formatFloat x ≠ [] ∧ T.parseFloat (trimSpace (T.formatFloat x)) = some (P.shortest x)
  rules : ∀ rules, rules = spec.customRegexList ∨ rules = spec.safeRegexList → rules ≠ [] →
    ∃ b, T.marshalRules rules = some b ∧ b ≠ [] ∧ T.unmarshalRules b = some rules

section Agreement

variable {S : Sidecar P} {T : TextForms Num} {spec : PolicyRules Num}

theorem overrideNumber_eq (signs : Signs P) (reads : Reads P T spec) {x : Num}
    (hx : P.isNegative x = false) (old : Num) :
    overrideNumber T (if P.isZero x then [] else T.formatFloat x) old =
      let y := rereadNumber P (if P.isZero x then P.zero else P.shortest x)
      if isPositive P y then y else old := by
  cases hz : P.isZero x with
  | true => simp [overrideNumber, rereadNumber, signs.zero, isPositive]
  | false =>
    obtain ⟨hne, hparse⟩ := reads.number x hz
    have hzero : P.isZero (P.shortest x) = false := by rw [signs.shortest_zero, hz]
    have hpos : P.isNegative (P.shortest x) = false := by rw [signs.shortest_negative, hx]
    simp [overrideNumber, rereadNumber, isPositive, hne, hparse, hzero, hpos]

theorem overridePatterns_eq {c : FileConfig Num} (hc : c.sensitiveKeyPatterns = []) (s : Bytes) :
    overridePatterns S s c = { c with sensitiveKeyPatterns := cleanedPatterns (splitCommas s) } := by
  by_cases hs : s = []
  · subst hs
    have hclean : cleanedPatterns (splitCommas []) = c.sensitiveKeyPatterns := by
      rw [hc]
      rfl
    rw [hclean]
    rfl
  simp [overridePatterns, applySensitiveKeyPatterns, hs]

theorem overrideRules_eq {apply : FileConfig Num → List Rule → FileConfig Num × Bool} {c : FileConfig Num}
    {rules : List Rule} (hall : ∀ r ∈ rules, P.compiles r.pattern = true)
    (hread : rules ≠ [] → ∃ b, T.marshalRules rules = some b ∧ b ≠ [] ∧ T.unmarshalRules b = some rules) :
    overrideRules (P := P) T apply (marshalRegexRules T rules) c = withRules apply c rules := by
  by_cases hnil : rules = []
  · simp [hnil, overrideRules, marshalRegexRules, withRules]
  obtain ⟨b, hmarshal, hb, hunmarshal⟩ := hread hnil
  have hempty : rules.isEmpty = false := by simpa using hnil
  have hb' : b.isEmpty = false := by simpa using hb
  have hdrop : dropInvalidRegexRules P rules = rules := List.filter_eq_self.mpr hall
  grind [overrideRules, marshalRegexRules, withRules]

theorem overrideSettings_eq (signs : Signs P) (reads : Reads P T spec) (hpasses : Passes P spec)
    (generation : Int64) :
    overrideSettings (P := P) T (envValue P T spec) (defaultFileConfig S) =
      { fileSettings S (reread P (localDocument P spec generation)) with
        sensitiveKeys :=
          if spec.sensitiveKeys.isEmpty then (defaultFileConfig S).sensitiveKeys
          else (spec.sensitiveKeys.flatMap splitCommas).map (normalKey P) } := by
  have hjoin : ([chr ','].intercalate spec.sensitiveKeys).isEmpty = spec.sensitiveKeys.isEmpty := by
    cases hkeys : spec.sensitiveKeys with
    | nil => rfl
    | cons k ks =>
      have hk : k ≠ [] := by
        rintro rfl
        exact hpasses.keys [] (by simp [hkeys]) rfl
      cases ks with
      | nil => simpa using hk
      | cons k' ks => simp [List.intercalate]
  have hentropy := overrideNumber_eq signs reads hpasses.entropy (defaultFileConfig S).entropyThreshold
  have hconfidence := overrideNumber_eq signs reads hpasses.confidence (defaultFileConfig S).confidenceThreshold
  have hlength : overrideLength (if 0 < spec.minSecretLength then itoa spec.minSecretLength else [])
      (defaultFileConfig S).minSecretLength =
        let n := if 0 < spec.minSecretLength then spec.minSecretLength else 0
        if 0 < n then n else (defaultFileConfig S).minSecretLength := by
    rw [overrideLength_itoa hpasses.length]
    by_cases hn : 0 < spec.minSecretLength <;> simp [hn]
  have hkeys : (if spec.sensitiveKeys.isEmpty then (defaultFileConfig S).sensitiveKeys
      else (splitCommas ([chr ','].intercalate spec.sensitiveKeys)).map (normalKey P)) =
      if spec.sensitiveKeys.isEmpty then (defaultFileConfig S).sensitiveKeys
      else (spec.sensitiveKeys.flatMap splitCommas).map (normalKey P) := by
    by_cases hempty : spec.sensitiveKeys = []
    · simp [hempty]
    rw [splitCommas, splitOn_intercalate_eq_flatMap _ hempty]
    rfl
  have hoff : envIsOn [] = false := by decide
  have hfalse : envTruthy P.unicode [] = false := by rfl
  have hempty : overrideNumber T [] (defaultFileConfig S).bigramDefaultScore =
      (defaultFileConfig S).bigramDefaultScore := rfl
  rw [overrideSettings]
  simp only [envValue, hentropy, hconfidence, hlength, hjoin, hkeys, hoff, hfalse, hempty, Bool.false_or,
    Bool.false_eq_true, if_false]
  rfl

/-- The keys and patterns have no comma, the patterns compile together and no rule is empty. -/
structure Portable (S : Sidecar P) (spec : PolicyRules Num) : Prop where
  keys : ∀ k ∈ spec.sensitiveKeys, chr ',' ∉ k
  patterns : ∀ p ∈ spec.sensitiveKeyPatterns, chr ',' ∉ p
  joins : Joins S spec.sensitiveKeyPatterns
  rules : NoEmptyRule spec

theorem applyEnvOverrides_eq (signs : Signs P) (reads : Reads P T spec) (hpasses : Passes P spec)
    (generation : Int64) :
    applyEnvOverrides S T (getenv (scannerEnv P T spec)) (defaultFileConfig S) =
      assembled S
        { fileSettings S (reread P (localDocument P spec generation)) with
          sensitiveKeys :=
            if spec.sensitiveKeys.isEmpty then (defaultFileConfig S).sensitiveKeys
            else (spec.sensitiveKeys.flatMap splitCommas).map (normalKey P) }
        (splitCommas ([chr ','].intercalate spec.sensitiveKeyPatterns))
        spec.customRegexList spec.safeRegexList := by
  have henv : getenv (scannerEnv P T spec) = envValue P T spec := funext (getenv_scannerEnv P T spec)
  rw [henv, applyEnvOverrides]
  simp only []
  rw [overrideSettings_eq signs reads hpasses generation, overridePatterns_eq rfl,
    show envValue P T spec .customRegexList = marshalRegexRules T spec.customRegexList from rfl,
    overrideRules_eq hpasses.custom (reads.rules _ (.inl rfl)),
    show envValue P T spec .safeRegexList = marshalRegexRules T spec.safeRegexList from rfl,
    overrideRules_eq hpasses.safe (reads.rules _ (.inr rfl))]
  rfl

theorem map_flatMap_splitCommas_iff {f : Bytes → Bytes} {keys : List Bytes} :
    (keys.flatMap splitCommas).map f = keys.map f ↔ ∀ k ∈ keys, chr ',' ∉ k := by
  constructor
  · intro h
    have hlength := congrArg List.length h
    rw [List.length_map, List.length_map] at hlength
    exact (length_flatMap_splitOn (x := chr ',')).2.mp hlength
  intro h
  have hself : keys.flatMap splitCommas = keys := by
    rw [show splitCommas = fun k => k.splitOn (chr ',') from rfl,
      List.flatMap_congr fun k hk => List.splitOn_eq_singleton (h k hk), List.flatMap_singleton']
  rw [hself]

theorem cleanedPatterns_splitCommas_iff {patterns : List Bytes} :
    cleanedPatterns (splitCommas ([chr ','].intercalate patterns)) = cleanedPatterns patterns ↔
      ∀ p ∈ patterns, chr ',' ∉ p := by
  have hcomma {p : Bytes} : chr ',' ∈ trimSpace p ↔ chr ',' ∈ p :=
    mem_trimSpace_iff (by decide) (by decide)
  constructor
  · intro h p hp hmem
    have htrim : chr ',' ∈ trimSpace p := hcomma.mpr hmem
    have hclean : trimSpace p ∈ cleanedPatterns patterns := by grind [cleanedPatterns]
    rw [← h, cleanedPatterns, List.mem_filter, List.mem_map] at hclean
    obtain ⟨⟨q, hq, hqp⟩, -⟩ := hclean
    rw [← hqp] at htrim
    exact not_mem_of_mem_splitOn hq (hcomma.mp htrim)
  intro h
  by_cases hnil : patterns = []
  · subst hnil
    rfl
  rw [splitCommas, List.splitOn_intercalate _ h hnil]

/-- A pod configured by variables and one configured by the file run on the same rules
exactly if the rules of the policy are portable. -/
theorem routes_agree_iff (S : Sidecar P) (T : TextForms Num) (signs : Signs P) (spec : PolicyRules Num)
    (reads : Reads P T spec) (hpasses : Passes P spec) (generation : Int64) {data : Bytes}
    (hencode : P.encode (localDocument P spec generation) = some data)
    (hround : ∀ b, P.encode (localDocument P spec generation) = some b →
      P.decodeFile b = some ⟨reread P (localDocument P spec generation), [], []⟩) :
    (parsePolicyJSON S data).map Prod.fst =
        .ok (applyEnvOverrides S T (getenv (scannerEnv P T spec)) (defaultFileConfig S)) ↔
      Portable S spec := by
  let doc := reread P (localDocument P spec generation)
  have hself {α : Type} (l : List α) : (if l.isEmpty then [] else l) = l := by cases l <;> rfl
  have hkeys : doc.sensitiveKeys = spec.sensitiveKeys := hself _
  have hpatterns : doc.sensitiveKeyPatterns = spec.sensitiveKeyPatterns := hself _
  have hcustom : doc.customRegexes = spec.customRegexList := hself _
  have hsafe : doc.safeRegexes = spec.safeRegexList := hself _
  have hvalid : Valid P doc ↔ NoEmptyRule spec := by
    rw [valid_reread_iff signs, localDocument, valid_merge_iff signs (valid_emptyDocument signs)]
    exact and_iff_right hpasses
  have hfile : (parsePolicyJSON S data).map Prod.fst = policyConfig S doc := by
    rw [parsePolicyJSON, hround data hencode]
    change ((policyConfig S doc).map fun c => (c, doc.revision)).map Prod.fst = _
    cases policyConfig S doc <;> rfl
  have hsettings : (fileSettings S doc).sensitiveKeys =
      if spec.sensitiveKeys.isEmpty then (defaultFileConfig S).sensitiveKeys
      else spec.sensitiveKeys.map (normalKey P) := by
    rw [← hkeys]
    rfl
  rw [hfile, applyEnvOverrides_eq signs reads hpasses generation]
  constructor
  · intro h
    obtain ⟨hok, hjoins⟩ := policyConfig_isOk_iff.mp (isOk_iff.mpr ⟨_, h⟩)
    rw [policyConfig_eq hok hjoins] at h
    injection h with h
    have hsame := congrArg (fun c => (c.sensitiveKeys, c.sensitiveKeyPatterns)) h
    simp only [assembled_frame, hpatterns, Prod.mk.injEq] at hsame
    rw [hpatterns] at hjoins
    refine ⟨?_, cleanedPatterns_splitCommas_iff.mp hsame.2.symm, hjoins, hvalid.mp hok⟩
    by_cases hempty : spec.sensitiveKeys = []
    · simp [hempty]
    have hne : spec.sensitiveKeys.isEmpty = false := by simpa using hempty
    have hlists := hsettings.symm.trans hsame.1
    rw [hne] at hlists
    exact map_flatMap_splitCommas_iff.mp hlists.symm
  intro h
  have hjoins : Joins S doc.sensitiveKeyPatterns := by
    rw [hpatterns]
    exact h.joins
  rw [policyConfig_eq (hvalid.mpr h.rules) hjoins, hpatterns, hcustom, hsafe]
  have hcut := map_flatMap_splitCommas_iff (f := normalKey P).mpr h.keys
  rw [hcut, ← hsettings, assembled, assembled, cleanedPatterns_splitCommas_iff.mpr h.patterns]

end Agreement

def sampleForms : TextForms Unit where
  formatFloat _ := bs "1"
  parseFloat _ := some ()
  marshalRules rules := if rules.isEmpty then some (bs "[]") else none
  unmarshalRules b := if b == bs "[]" then some [] else none

/-- A policy that sets sensitive keys and key patterns only. -/
def keyRules (keys patterns : List Bytes) : PolicyRules Unit := ⟨(), (), 0, keys, patterns, [], []⟩

def keyFile : Bytes := bs "\x7b\n  \"revision\": \"1\",\n  \"sensitive_keys\": [\n    \"card\"\n  ]\n\x7d"

def boundFile : Bytes :=
  bs "\x7b\n  \"revision\": \"1\",\n  \"sensitive_key_patterns\": [\n    \"a\x7b1,2\x7d\"\n  ]\n\x7d"

def keyPlatform : Platform Unit := filePlatform
  [(keyFile, localDocument (samplePlatform []) (keyRules [bs "card"] []) 1),
    (boundFile, localDocument (samplePlatform []) (keyRules [] [bs "a\x7b1,2\x7d"]) 1)]

theorem passes_keyRules {keys patterns : List Bytes} (h : ∀ k ∈ keys, normalKey keyPlatform k ≠ []) :
    Passes keyPlatform (keyRules keys patterns) :=
  ⟨rfl, rfl, by simp [keyRules, maxMinSecretLength], h, fun _ _ => rfl, by simp [keyRules], by simp [keyRules]⟩

theorem keyPlatform_rereads (b : Bytes)
    (hb : keyPlatform.encode (localDocument keyPlatform (keyRules [bs "card"] []) 1) = some b) :
    keyPlatform.decodeFile b =
      some ⟨reread keyPlatform (localDocument keyPlatform (keyRules [bs "card"] []) 1), [], []⟩ := by
  have hfile : keyPlatform.encode (localDocument keyPlatform (keyRules [bs "card"] []) 1) = some keyFile := by
    rfl
  cases hb.symm.trans hfile
  rfl

theorem reads_keyRules (keys patterns : List Bytes) : Reads keyPlatform sampleForms (keyRules keys patterns) where
  number _ h := by cases h
  rules rules h hne := by
    rcases h with rfl | rfl <;> exact absurd rfl hne

theorem routes_agree_card :
    (parsePolicyJSON (sampleSidecar keyPlatform) keyFile).map Prod.fst =
      .ok (applyEnvOverrides (sampleSidecar keyPlatform) sampleForms
        (getenv (scannerEnv keyPlatform sampleForms (keyRules [bs "card"] [])))
        (defaultFileConfig (sampleSidecar keyPlatform))) :=
  (routes_agree_iff (sampleSidecar keyPlatform) sampleForms (filePlatform_signs _) (keyRules [bs "card"] [])
    (reads_keyRules _ _) (passes_keyRules (by decide +kernel)) 1 (by decide +kernel) keyPlatform_rereads).mpr
    ⟨by decide +kernel, by simp [keyRules], joins_nil, by simp [NoEmptyRule, keyRules]⟩

/-- A bounded repetition is cut in two on the way through the environment. -/
theorem routes_disagree :
    let spec := keyRules [] [bs "a\x7b1,2\x7d"]
    let S := sampleSidecar keyPlatform
    Passes keyPlatform spec ∧ keyPlatform.encode (localDocument keyPlatform spec 1) = some boundFile ∧
      (parsePolicyJSON S boundFile).toOption.map (·.1.sensitiveKeyPatterns) = some [bs "a\x7b1,2\x7d"] ∧
      (applyEnvOverrides S sampleForms (getenv (scannerEnv keyPlatform sampleForms spec))
        (defaultFileConfig S)).sensitiveKeyPatterns = [bs "a\x7b1", bs "2\x7d"] :=
  ⟨passes_keyRules (by simp), by decide +kernel, by decide +kernel, by decide +kernel⟩

end PiiShield.Operator
