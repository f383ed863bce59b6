import PiiShield.Operator.Expressions

/-! What the operator and the sidecar accept of a policy file. They agree on everything but
the sensitive key patterns taken together, which only the sidecar compiles. -/

namespace PiiShield.Operator

variable {Num : Type} {P : Platform Num}

variable {b : Bytes} {c : FileConfig Num} {doc : Document Num} {field : RuleField}
  {rules : List Rule}

theorem isOk_bind {ε α β : Type} {x : Except ε α} {f : α → Except ε β} :
    (x >>= f).isOk = true ↔ ∃ a, x = .ok a ∧ (f a).isOk = true := by
  cases x with
  | error e => simp [bind, Except.bind, Except.isOk, Except.toBool]
  | ok a => simp [bind, Except.bind]

theorem isOk_iff {ε α : Type} {x : Except ε α} : x.isOk = true ↔ ∃ a, x = .ok a := by
  cases x <;> simp [Except.toBool]

/-- A document that passes the checks made on each of its entries. -/
structure Valid (P : Platform Num) (doc : Document Num) : Prop where
  entropy : P.isNegative doc.entropyThreshold = false
  confidence : P.isNegative doc.confidenceThreshold = false
  length : 0 ≤ doc.minSecretLength ∧ doc.minSecretLength ≤ maxMinSecretLength
  keys : ∀ k ∈ doc.sensitiveKeys, normalKey P k ≠ []
  patterns : ∀ p ∈ doc.sensitiveKeyPatterns, P.compiles p = true
  custom : ∀ r ∈ doc.customRegexes, r.pattern ≠ [] ∧ P.compiles r.pattern = true
  safe : ∀ r ∈ doc.safeRegexes, r.pattern ≠ [] ∧ P.compiles r.pattern = true

theorem checkRulesFrom_ok_iff {i : Nat} :
    checkRulesFrom P field i rules = .ok () ↔ ∀ r ∈ rules, r.pattern ≠ [] ∧ P.compiles r.pattern = true := by
  induction rules generalizing i with
  | nil => simp [checkRulesFrom]
  | cons r rules ih =>
    rw [checkRulesFrom]
    grind

theorem checkRules_ok_iff :
    checkRules P field rules = .ok () ↔ ∀ r ∈ rules, r.pattern ≠ [] ∧ P.compiles r.pattern = true :=
  checkRulesFrom_ok_iff

theorem find_not_compiles {patterns : List Bytes} :
    patterns.find? (!P.compiles ·) = none ↔ ∀ p ∈ patterns, P.compiles p = true := by
  simp [List.find?_eq_none]

theorem any_normalKey {keys : List Bytes} :
    (keys.map (normalKey P)).any (·.isEmpty) = false ↔ ∀ k ∈ keys, normalKey P k ≠ [] := by
  simp

theorem secretLength_iff {n : Int} :
    (decide (n < 0) || decide (maxMinSecretLength < n)) = false ↔ 0 ≤ n ∧ n ≤ maxMinSecretLength := by
  simp

def accepted (P : Platform Num) (f : RemoteFile Num) : Document Num :=
  { f.document with sensitiveKeys := f.document.sensitiveKeys.map (normalKey P) }

theorem parse_eq_ok_iff : (∃ ignored, parse P b = .ok (doc, ignored)) ↔
      ∃ f, P.decodeFile b = some f ∧ Valid P f.document ∧ doc = accepted P f := by
  unfold parse
  cases hf : P.decodeFile b with
  | none => simp
  | some f =>
    have hvalid : Valid P f.document ↔
        P.isNegative f.document.entropyThreshold = false ∧
          P.isNegative f.document.confidenceThreshold = false ∧
          (decide (f.document.minSecretLength < 0) ||
            decide (maxMinSecretLength < f.document.minSecretLength)) = false ∧
          (f.document.sensitiveKeys.map (normalKey P)).any (·.isEmpty) = false ∧
          f.document.sensitiveKeyPatterns.find? (!P.compiles ·) = none ∧
          checkRules P .customRegexes f.document.customRegexes = .ok () ∧
          checkRules P .safeRegexes f.document.safeRegexes = .ok () := by
      rw [secretLength_iff, any_normalKey, find_not_compiles, checkRules_ok_iff, checkRules_ok_iff]
      exact ⟨fun ⟨h1, h2, h3, h4, h5, h6, h7⟩ => ⟨h1, h2, h3, h4, h5, h6, h7⟩,
        fun ⟨h1, h2, h3, h4, h5, h6, h7⟩ => ⟨h1, h2, h3, h4, h5, h6, h7⟩⟩
    simp only [Option.some.injEq, exists_eq_left', hvalid, bind, Except.bind, pure, Except.pure]
    cases h1 : P.isNegative f.document.entropyThreshold with
    | true => simp
    | false =>
    cases h2 : P.isNegative f.document.confidenceThreshold with
    | true => simp
    | false =>
    cases h3 : (decide (f.document.minSecretLength < 0) ||
        decide (maxMinSecretLength < f.document.minSecretLength)) with
    | true => simp
    | false =>
    cases h4 : (f.document.sensitiveKeys.map (normalKey P)).any (·.isEmpty) with
    | true => simp
    | false =>
    cases h5 : f.document.sensitiveKeyPatterns.find? (!P.compiles ·) with
    | some p => simp
    | none =>
    cases h6 : checkRules P .customRegexes f.document.customRegexes with
    | error e => simp
    | ok _ =>
    cases h7 : checkRules P .safeRegexes f.document.safeRegexes with
    | error e => simp
    | ok _ =>
      constructor
      · rintro ⟨ignored, h⟩
        injection h with h
        exact ⟨⟨rfl, rfl, rfl, rfl, rfl, rfl, rfl⟩, (congrArg Prod.fst h).symm⟩
      rintro ⟨-, rfl⟩
      exact ⟨_, rfl⟩

theorem parse_isOk_iff : (parse P b).isOk = true ↔ ∃ f, P.decodeFile b = some f ∧ Valid P f.document := by
  rw [isOk_iff]
  constructor
  · rintro ⟨⟨doc, ignored⟩, h⟩
    obtain ⟨f, hf, hvalid, -⟩ := parse_eq_ok_iff.mp ⟨ignored, h⟩
    exact ⟨f, hf, hvalid⟩
  rintro ⟨f, hf, hvalid⟩
  obtain ⟨ignored, h⟩ := parse_eq_ok_iff.mpr ⟨f, hf, hvalid, rfl⟩
  exact ⟨_, h⟩

section Sidecar

variable {S : Sidecar P}

theorem checkRegexRules_ok_iff :
    checkRegexRules P field rules = .ok () ↔ ∀ r ∈ rules, r.pattern ≠ [] ∧ P.compiles r.pattern = true := by
  refine Iff.trans (?_ : _ ↔ checkRules P field rules = .ok ()) checkRules_ok_iff
  rw [checkRegexRules]
  cases checkRules P field rules <;> simp [Except.mapError]

def Joins (S : Sidecar P) (patterns : List Bytes) : Prop :=
  (compileSensitiveKeyPatterns S (cleanedPatterns patterns)).isSome = true

theorem joins_nil : Joins S [] := by
  simp [Joins, cleanedPatterns, compileSensitiveKeyPatterns]

theorem applySettings_isOk_iff : (applySettings (P := P) c doc).isOk = true ↔
      P.isNegative doc.entropyThreshold = false ∧ P.isNegative doc.confidenceThreshold = false ∧
        (0 ≤ doc.minSecretLength ∧ doc.minSecretLength ≤ maxMinSecretLength) ∧
        ∀ k ∈ doc.sensitiveKeys, normalKey P k ≠ [] := by
  rw [← secretLength_iff, ← any_normalKey]
  simp only [applySettings, bind, Except.bind, pure, Except.pure]
  cases h1 : P.isNegative doc.entropyThreshold with
  | true => simp [Except.isOk, Except.toBool]
  | false =>
  cases h2 : P.isNegative doc.confidenceThreshold with
  | true => simp [Except.isOk, Except.toBool]
  | false =>
  cases h3 : (decide (doc.minSecretLength < 0) || decide (maxMinSecretLength < doc.minSecretLength)) with
  | true => simp [Except.isOk, Except.toBool]
  | false =>
  cases h4 : (doc.sensitiveKeys.map (normalKey P)).any (·.isEmpty) with
  | true | false => simp [Except.isOk, Except.toBool]

theorem applyPatterns_isOk_iff {patterns : List Bytes} :
    (applyPatterns S c patterns).isOk = true ↔ (∀ p ∈ patterns, P.compiles p = true) ∧ Joins S patterns := by
  rw [← find_not_compiles, applyPatterns]
  by_cases hempty : patterns.isEmpty = true
  · simp_all [joins_nil, Except.isOk, Except.toBool]
  · cases hfind : patterns.find? (!P.compiles ·) with
    | some p => simp [hempty, Except.isOk, Except.toBool]
    | none =>
      simp only [hempty, Bool.false_eq_true, if_false, true_and, applySensitiveKeyPatterns, Joins]
      by_cases hj : (compileSensitiveKeyPatterns S (cleanedPatterns patterns)).isSome = true
      · simp [hj, Except.isOk, Except.toBool]
      simp [hj, Except.toBool]

theorem compileRegexRules_snd (h : ∀ r ∈ rules, r.pattern ≠ [] ∧ P.compiles r.pattern = true) :
    (compileRegexRules S rules).2 = rules := by
  simp only [compileRegexRules, List.filter_eq_self]
  intro r hr
  exact (h r hr).2

theorem applyCustomRegexes_snd
    (h : ∀ r ∈ rules, r.pattern ≠ [] ∧ P.compiles r.pattern = true) : (applyCustomRegexes S c rules).2 = true := by
  grind [compileRegexRules_snd, applyCustomRegexes]

theorem applySafeRegexes_snd
    (h : ∀ r ∈ rules, r.pattern ≠ [] ∧ P.compiles r.pattern = true) : (applySafeRegexes S c rules).2 = true := by
  simp [applySafeRegexes, compileRegexRules_snd (S := S) h]

theorem applyRules_isOk_iff {apply : FileConfig Num → List Rule → FileConfig Num × Bool}
    (hall : (∀ r ∈ rules, r.pattern ≠ [] ∧ P.compiles r.pattern = true) → (apply c rules).2 = true) :
    (applyRules (P := P) field apply c rules).isOk = true ↔
      ∀ r ∈ rules, r.pattern ≠ [] ∧ P.compiles r.pattern = true := by
  rw [applyRules, isOk_bind]
  constructor
  · rintro ⟨_, hcheck, -⟩
    exact checkRegexRules_ok_iff.mp hcheck
  intro h
  refine ⟨(), checkRegexRules_ok_iff.mpr h, ?_⟩
  by_cases hempty : rules.isEmpty = true
  · simp [hempty, pure, Except.pure, Except.isOk, Except.toBool]
  simp [hempty, hall h, pure, Except.pure, Except.toBool]

theorem policyConfig_isOk_iff :
    (policyConfig S doc).isOk = true ↔ Valid P doc ∧ Joins S doc.sensitiveKeyPatterns := by
  constructor
  · intro h
    obtain ⟨c1, h1, h⟩ := isOk_bind.mp h
    obtain ⟨c2, h2, h⟩ := isOk_bind.mp h
    obtain ⟨c3, h3, h4⟩ := isOk_bind.mp h
    obtain ⟨hentropy, hconfidence, hlength, hkeys⟩ := applySettings_isOk_iff.mp (isOk_iff.mpr ⟨c1, h1⟩)
    obtain ⟨hpatterns, hjoins⟩ := applyPatterns_isOk_iff.mp (isOk_iff.mpr ⟨c2, h2⟩)
    have hcustom := (applyRules_isOk_iff applyCustomRegexes_snd).mp (isOk_iff.mpr ⟨c3, h3⟩)
    have hsafe := (applyRules_isOk_iff applySafeRegexes_snd).mp h4
    exact ⟨⟨hentropy, hconfidence, hlength, hkeys, hpatterns, hcustom, hsafe⟩, hjoins⟩
  rintro ⟨hvalid, hjoins⟩
  obtain ⟨c1, h1⟩ := isOk_iff.mp (applySettings_isOk_iff (c := defaultFileConfig S) |>.mpr
    ⟨hvalid.entropy, hvalid.confidence, hvalid.length, hvalid.keys⟩)
  obtain ⟨c2, h2⟩ := isOk_iff.mp (applyPatterns_isOk_iff (c := c1) |>.mpr ⟨hvalid.patterns, hjoins⟩)
  have hcustom : (applyRules (P := P) .customRegexes (applyCustomRegexes S) c2 doc.customRegexes).isOk = true :=
    (applyRules_isOk_iff applyCustomRegexes_snd).mpr hvalid.custom
  obtain ⟨c3, h3⟩ := isOk_iff.mp hcustom
  refine isOk_bind.mpr ⟨c1, h1, isOk_bind.mpr ⟨c2, h2, isOk_bind.mpr ⟨c3, h3, ?_⟩⟩⟩
  exact (applyRules_isOk_iff applySafeRegexes_snd).mpr hvalid.safe

theorem parsePolicyJSON_isOk_iff : (parsePolicyJSON S b).isOk = true ↔
      ∃ f, P.decodeFile b = some f ∧ Valid P f.document ∧ Joins S f.document.sensitiveKeyPatterns := by
  unfold parsePolicyJSON
  cases hf : P.decodeFile b with
  | none => simp [Except.isOk, Except.toBool]
  | some f =>
    have hmap : ((policyConfig S f.document).map fun c => (c, f.document.revision)).isOk =
        (policyConfig S f.document).isOk := by
      cases policyConfig S f.document <;> rfl
    simp [hmap, policyConfig_isOk_iff]

/-- The operator and the sidecar agree on a file exactly if its sensitive key patterns
compile together whenever each of its entries passes. -/
theorem parse_agrees_iff (S : Sidecar P) (b : Bytes) :
    (parse P b).isOk = (parsePolicyJSON S b).isOk ↔
      ∀ f, P.decodeFile b = some f → Valid P f.document → Joins S f.document.sensitiveKeyPatterns := by
  rw [Bool.eq_iff_iff, parse_isOk_iff, parsePolicyJSON_isOk_iff]
  constructor
  · intro h f hf hvalid
    obtain ⟨g, hg, -, hjoins⟩ := h.mp ⟨f, hf, hvalid⟩
    cases hf.symm.trans hg
    exact hjoins
  intro h
  constructor
  · rintro ⟨f, hf, hvalid⟩
    exact ⟨f, hf, hvalid, h f hf hvalid⟩
  rintro ⟨f, hf, hvalid, -⟩
  exact ⟨f, hf, hvalid⟩

end Sidecar

/-- A sidecar over a sample platform, whose expressions match nothing. -/
def sampleSidecar (P : Platform Unit) : Sidecar P where
  arith :=
    { tenths _ := (), ofNat _ := (), add _ _ := (), sub _ _ := (), mul _ _ := (), div _ _ := (),
      log2 _ := (), sqrt _ := (), lt _ _ := false, le _ _ := false }
  compile p := if P.compiles p then some ⟨fun _ => false, fun _ => none⟩ else none
  compile_isSome p := by cases P.compiles p <;> rfl

def quoteFile : Bytes := bs "\x7b\"sensitive_key_patterns\":[\"\\\\Qa\"]\x7d"

def quotePlatform : Platform Unit :=
  regexPlatform (filePlatform [(quoteFile, ⟨[], (), (), 0, [], [bs "\\Qa"], [], [], none, none, none⟩)])

/-- The pattern compiles, and in the group of the joined one its quote takes the closing bracket. -/
theorem parse_disagrees :
    (parse quotePlatform quoteFile).isOk = true ∧
      (parsePolicyJSON (sampleSidecar quotePlatform) quoteFile).isOk = false := by
  decide +kernel

end PiiShield.Operator
