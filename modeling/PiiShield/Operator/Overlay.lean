import PiiShield.Operator.Routes

/-! What the sidecar runs on when the fields of a policy are laid over a remote file: the
configuration of the remote file, with the fields that the policy sets. -/

namespace PiiShield.Operator

variable {Num : Type} {P : Platform Num}

theorem normalKey_normalKey (hspace : P.unicode.LowersNoSpace) (honce : P.unicode.LowersOnce) (k : Bytes) :
    normalKey P (normalKey P k) = normalKey P k := by
  rw [normalKey, normalKey, trimSpace_toLowerString hspace (trimSpace_trimSpace k), toLowerString_toLowerString honce]

section Fields

variable (S : Sidecar P)

def withSettings (P : Platform Num) (spec : PolicyRules Num) (c : FileConfig Num) : FileConfig Num := { c with
  entropyThreshold := if P.isZero spec.entropyThreshold then c.entropyThreshold else P.shortest spec.entropyThreshold
  confidenceThreshold :=
    if P.isZero spec.confidenceThreshold then c.confidenceThreshold else P.shortest spec.confidenceThreshold
  minSecretLength := if 0 < spec.minSecretLength then spec.minSecretLength else c.minSecretLength
  sensitiveKeys := if spec.sensitiveKeys.isEmpty then c.sensitiveKeys else spec.sensitiveKeys.map (normalKey P)
  sensitiveKeyPatterns :=
    if spec.sensitiveKeyPatterns.isEmpty then c.sensitiveKeyPatterns
    else cleanedPatterns spec.sensitiveKeyPatterns }

variable (spec : PolicyRules Num)

variable (c : FileConfig Num)

def overlaid : FileConfig Num :=
  withRules (applySafeRegexes S)
    (withRules (applyCustomRegexes S) (withSettings P spec c) spec.customRegexList) spec.safeRegexList

variable {S}

theorem applyCustomRegexes_fst (c d : FileConfig Num) (rules : List Rule) :
    (applyCustomRegexes S c rules).1 = { c with
      customRegexes := (applyCustomRegexes S d rules).1.customRegexes
      combinedCustomRegex := (applyCustomRegexes S d rules).1.combinedCustomRegex
      customRegexNames := (applyCustomRegexes S d rules).1.customRegexNames } := by
  simp only [applyCustomRegexes]
  split
  · rfl
  split <;> rfl

theorem withRules_twice {apply : FileConfig Num → List Rule → FileConfig Num × Bool} {remote own : List Rule}
    (h : (apply (apply c remote).1 own).1 = (apply c own).1) :
    withRules apply (withRules apply c remote) own = withRules apply c (if own.isEmpty then remote else own) := by
  by_cases hown : own.isEmpty = true
  · rw [withRules, if_pos hown, if_pos hown]
  rw [if_neg hown, withRules, withRules, withRules, if_neg hown, if_neg hown]
  by_cases hremote : remote.isEmpty = true
  · rw [if_pos hremote]
  rw [if_neg hremote, h]

theorem withRules_custom_twice (remote own : List Rule) :
    withRules (applyCustomRegexes S) (withRules (applyCustomRegexes S) c remote) own =
      withRules (applyCustomRegexes S) c (if own.isEmpty then remote else own) := by
  apply withRules_twice
  rw [applyCustomRegexes_fst _ c own, applyCustomRegexes_fst c c remote, applyCustomRegexes_fst c c own]

theorem withRules_safe_twice (remote own : List Rule) :
    withRules (applySafeRegexes S) (withRules (applySafeRegexes S) c remote) own =
      withRules (applySafeRegexes S) c (if own.isEmpty then remote else own) := withRules_twice c rfl

theorem withRules_comm (custom safe : List Rule) :
    withRules (applyCustomRegexes S) (withRules (applySafeRegexes S) c safe) custom =
      withRules (applySafeRegexes S) (withRules (applyCustomRegexes S) c custom) safe := by
  by_cases hcustom : custom.isEmpty = true
  · simp only [withRules, if_pos hcustom]
  by_cases hsafe : safe.isEmpty = true
  · simp only [withRules, if_pos hsafe]
  simp only [withRules, if_neg hcustom, if_neg hsafe]
  rw [applyCustomRegexes_fst _ c custom, applyCustomRegexes_fst c c custom]
  rfl

theorem withSettings_custom (rules : List Rule) :
    withSettings P spec (withRules (applyCustomRegexes S) c rules) =
      withRules (applyCustomRegexes S) (withSettings P spec c) rules := by
  by_cases hrules : rules.isEmpty = true
  · simp only [withRules, if_pos hrules]
  simp only [withRules, if_neg hrules]
  rw [applyCustomRegexes_fst c c rules, applyCustomRegexes_fst (withSettings P spec c) c rules]
  rfl

theorem withSettings_safe (rules : List Rule) :
    withSettings P spec (withRules (applySafeRegexes S) c rules) =
      withRules (applySafeRegexes S) (withSettings P spec c) rules := by
  by_cases hrules : rules.isEmpty = true
  · simp only [withRules, if_pos hrules]
  simp only [withRules, if_neg hrules]
  rfl

theorem overlaid_assembled (patterns : List Bytes) (custom safe : List Rule) :
    overlaid S spec (assembled S c patterns custom safe) =
      withRules (applySafeRegexes S)
        (withRules (applyCustomRegexes S)
          (withSettings P spec { c with sensitiveKeyPatterns := cleanedPatterns patterns })
          (if spec.customRegexList.isEmpty then custom else spec.customRegexList))
        (if spec.safeRegexList.isEmpty then safe else spec.safeRegexList) := by
  rw [overlaid, assembled, withSettings_safe, withSettings_custom, withRules_comm, withRules_custom_twice,
    withRules_safe_twice]

end Fields

section Merging

variable {S : Sidecar P}

theorem isPositive_rereadNumber (signs : Signs P) (x : Num) : isPositive P (rereadNumber P x) = isPositive P x := by
  by_cases hx : P.isZero x = true
  · rw [rereadNumber, if_pos hx, isPositive, isPositive, signs.zero, hx]
    simp
  rw [rereadNumber, if_neg hx]

theorem threshold_rendered (signs : Signs P) {own remote : Num} (default : Num)
    (hvalid : P.isNegative (rereadNumber P (if P.isZero own then remote else P.shortest own)) = false) :
    (if isPositive P (rereadNumber P (if P.isZero own then remote else P.shortest own)) then
        rereadNumber P (if P.isZero own then remote else P.shortest own) else default) =
      if P.isZero own then if isPositive P remote then remote else default else P.shortest own := by
  rw [signs.reread_negative] at hvalid
  rw [isPositive_rereadNumber signs]
  by_cases hown : P.isZero own = true
  · simp_all [isPositive, rereadNumber]
  simp only [hown, Bool.false_eq_true, if_false] at hvalid ⊢
  have hzero : P.isZero (P.shortest own) = false := by
    rw [signs.shortest_zero]
    simpa using hown
  simp [isPositive, rereadNumber, hzero, hvalid]

theorem length_rendered (own remote default : Int) :
    (if 0 < (if 0 < own then own else remote) then (if 0 < own then own else remote) else default) =
      if 0 < own then own else if 0 < remote then remote else default := by
  by_cases hown : 0 < own <;> simp [hown]

theorem keys_rendered (hspace : P.unicode.LowersNoSpace) (honce : P.unicode.LowersOnce)
    (own remote default : List Bytes) :
    (if (if own.isEmpty then remote.map (normalKey P) else own).isEmpty then default
      else (if own.isEmpty then remote.map (normalKey P) else own).map (normalKey P)) =
      if own.isEmpty then if remote.isEmpty then default else remote.map (normalKey P)
      else own.map (normalKey P) := by
  by_cases hown : own.isEmpty = true
  · have htwice : (remote.map (normalKey P)).map (normalKey P) = remote.map (normalKey P) := by
      simp [normalKey_normalKey hspace honce]
    simp [hown, htwice]
  simp [hown]

theorem patterns_rendered (own remote : List Bytes) : cleanedPatterns (if own.isEmpty then remote else own) =
      if own.isEmpty then cleanedPatterns remote else cleanedPatterns own := by
  by_cases hown : own.isEmpty = true <;> simp [hown]

theorem fileSettings_rendered (signs : Signs P) (hspace : P.unicode.LowersNoSpace) (honce : P.unicode.LowersOnce)
    {f : RemoteFile Num} {spec : PolicyRules Num} {generation : Int64}
    (hvalid : Valid P (reread P (merge P (accepted P f) spec generation))) :
    { fileSettings S (reread P (merge P (accepted P f) spec generation)) with
      sensitiveKeyPatterns := cleanedPatterns (merge P (accepted P f) spec generation).sensitiveKeyPatterns } =
    withSettings P spec { fileSettings S f.document with
      sensitiveKeyPatterns := cleanedPatterns f.document.sensitiveKeyPatterns } := by
  have hentropy := threshold_rendered signs (defaultFileConfig S).entropyThreshold hvalid.entropy
  have hconfidence := threshold_rendered signs (defaultFileConfig S).confidenceThreshold hvalid.confidence
  have hlength := length_rendered spec.minSecretLength f.document.minSecretLength (defaultFileConfig S).minSecretLength
  have hkeys := keys_rendered hspace honce spec.sensitiveKeys f.document.sensitiveKeys
    (defaultFileConfig S).sensitiveKeys
  have hpatterns := patterns_rendered spec.sensitiveKeyPatterns f.document.sensitiveKeyPatterns
  unfold withSettings fileSettings
  simp only [FileConfig.mk.injEq, Config.mk.injEq, true_and, and_true]
  exact ⟨⟨hentropy, hconfidence, hlength, hkeys, rfl, rfl, rfl⟩, hpatterns⟩

theorem policyConfig_of_parse {b : Bytes} {c : FileConfig Num} {revision : Bytes}
    (h : parsePolicyJSON S b = .ok (c, revision)) :
    ∃ f, P.decodeFile b = some f ∧ Valid P f.document ∧
      c = assembled S (fileSettings S f.document) f.document.sensitiveKeyPatterns f.document.customRegexes
        f.document.safeRegexes := by
  obtain ⟨f, hf, hvalid, hjoins⟩ := parsePolicyJSON_isOk_iff.mp (isOk_iff.mpr ⟨_, h⟩)
  refine ⟨f, hf, hvalid, ?_⟩
  simp only [parsePolicyJSON, hf, policyConfig_eq hvalid hjoins] at h
  exact (Prod.mk.inj (Except.ok.inj h)).1.symm

/-- A file rendered from an accepted remote file and a policy, if the sidecar accepts it, gives
the configuration of the remote file with the fields the policy sets. -/
theorem rendered_eq_overlaid (signs : Signs P) (hspace : P.unicode.LowersNoSpace) (honce : P.unicode.LowersOnce)
    {b : Bytes} {remote : Document Num} {ignored : List Bytes} (hremote : parse P b = .ok (remote, ignored))
    {c : FileConfig Num} {revision : Bytes} (hb : parsePolicyJSON S b = .ok (c, revision)) (spec : PolicyRules Num)
    (generation : Int64) {data : Bytes} (hencode : P.encode (merge P remote spec generation) = some data)
    (hround : ∀ b, P.encode (merge P remote spec generation) = some b →
      P.decodeFile b = some ⟨reread P (merge P remote spec generation), [], []⟩)
    {c' : FileConfig Num} {revision' : Bytes} (hdata : parsePolicyJSON S data = .ok (c', revision')) :
    c' = overlaid S spec c := by
  obtain ⟨f, hf, hvalid, rfl⟩ := policyConfig_of_parse hb
  obtain ⟨g, hg, -, rfl⟩ := parse_eq_ok_iff.mp ⟨ignored, hremote⟩
  cases hf.symm.trans hg
  obtain ⟨f', hf', hvalid', rfl⟩ := policyConfig_of_parse hdata
  cases hf'.symm.trans (hround data hencode)
  rw [overlaid_assembled, ← fileSettings_rendered signs hspace honce hvalid']
  rfl

end Merging

theorem ascii_lowersOnce : Unicode.ascii.LowersOnce := by
  intro r
  have hsmall : ∀ r < 0x80, Unicode.ascii.lowerRune (writtenRune (Unicode.ascii.lowerRune r)) =
      writtenRune (Unicode.ascii.lowerRune r) := by decide
  have hlarge : ∀ r, ¬ r < 0x80 → Unicode.ascii.lowerRune r = r := by
    intro r hr
    rw [Unicode.lowerRune, if_neg hr]
    rfl
  by_cases hr : r < 0x80
  · exact hsmall r hr
  rw [hlarge r hr]
  apply hlarge
  rw [writtenRune]
  split
  · exact hr
  decide

def remoteText : Bytes :=
  bs "\x7b\"revision\": \"7\", \"min_secret_length\": 12, \"sensitive_keys\": [\" Card\"]\x7d"

def renderedText : Bytes :=
  bs "\x7b\n  \"revision\": \"7+1\",\n  \"min_secret_length\": 12,\n  \"sensitive_keys\": [\n    \"card\"\n  ],\n" ++
    bs "  \"sensitive_key_patterns\": [\n    \"pin\"\n  ]\n\x7d"

def remotePlatform : Platform Unit := filePlatform
  [(remoteText, ⟨bs "7", (), (), 12, [bs " Card"], [], [], [], none, none, none⟩),
    (renderedText, ⟨bs "7+1", (), (), 12, [bs "card"], [bs "pin"], [], [], none, none, none⟩)]

theorem rendered_eq_overlaid_sample :
    ∃ c revision c' revision', parsePolicyJSON (sampleSidecar remotePlatform) remoteText = .ok (c, revision) ∧
      parsePolicyJSON (sampleSidecar remotePlatform) renderedText = .ok (c', revision') ∧
      c' = overlaid (sampleSidecar remotePlatform) (keyRules [] [bs "pin"]) c := by
  obtain ⟨⟨remote, ignored⟩, hremote⟩ := isOk_iff.mp
    (by decide +kernel : (parse remotePlatform remoteText).isOk = true)
  obtain ⟨⟨c, revision⟩, hb⟩ := isOk_iff.mp
    (by decide +kernel : (parsePolicyJSON (sampleSidecar remotePlatform) remoteText).isOk = true)
  obtain ⟨⟨c', revision'⟩, hdata⟩ := isOk_iff.mp
    (by decide +kernel : (parsePolicyJSON (sampleSidecar remotePlatform) renderedText).isOk = true)
  have hdoc : (parse remotePlatform remoteText).toOption.map Prod.fst =
      some ⟨bs "7", (), (), 12, [bs "card"], [], [], [], none, none, none⟩ := by decide +kernel
  rw [hremote] at hdoc
  cases hdoc
  have hencode : remotePlatform.encode (merge remotePlatform
      ⟨bs "7", (), (), 12, [bs "card"], [], [], [], none, none, none⟩ (keyRules [] [bs "pin"]) 1) =
        some renderedText := by decide +kernel
  refine ⟨c, revision, c', revision', hb, hdata, rendered_eq_overlaid (filePlatform_signs _) ascii_lowersNoSpace
    ascii_lowersOnce hremote hb (keyRules [] [bs "pin"]) 1 hencode (fun b hb => ?_) hdata⟩
  cases hb.symm.trans hencode
  decide +kernel

end PiiShield.Operator
