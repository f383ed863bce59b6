import PiiShield.Operator.Validation
import PiiShield.Trimming

/-! The file rendered for a policy. The fields of the policy are laid over a checked remote
document without a check of their own, so the sidecar may reject what the operator renders. -/

namespace PiiShield.Operator

variable {Num : Type} {P : Platform Num}

def NoEmptyRule (spec : PolicyRules Num) : Prop :=
  ∀ r ∈ spec.customRegexList ++ spec.safeRegexList, r.pattern ≠ []

/-- What the schema of the custom resource asks of the rule fields. -/
structure Admitted (spec : PolicyRules Num) : Prop where
  length : 0 ≤ spec.minSecretLength
  rules : NoEmptyRule spec

/-- A document the rules of a policy are laid over: an accepted one, or none. -/
def IsRemote (P : Platform Num) (remote : Document Num) : Prop :=
  remote = emptyDocument P ∨ ∃ b ignored, parse P b = .ok (remote, ignored)

/-- The signs of the numbers of a file; `shortest` rewrites a number in its decimal form. -/
structure Signs (P : Platform Num) : Prop where
  zero : P.isZero P.zero = true
  not_negative : ∀ x, P.isZero x = true → P.isNegative x = false
  shortest_negative : ∀ x, P.isNegative (P.shortest x) = P.isNegative x
  shortest_zero : ∀ x, P.isZero (P.shortest x) = P.isZero x

def rereadNumber (P : Platform Num) (x : Num) : Num := if P.isZero x then P.zero else x

/-- A document after it was written and read: a threshold of zero is left out of the file. -/
def reread (P : Platform Num) (doc : Document Num) : Document Num := { doc with
  entropyThreshold := rereadNumber P doc.entropyThreshold
  confidenceThreshold := rereadNumber P doc.confidenceThreshold }

theorem Signs.reread_negative (signs : Signs P) (x : Num) :
    P.isNegative (rereadNumber P x) = P.isNegative x := by
  by_cases hx : P.isZero x = true
  · rw [rereadNumber, if_pos hx, signs.not_negative _ signs.zero, signs.not_negative x hx]
  rw [rereadNumber, if_neg hx]

theorem valid_reread_iff (signs : Signs P) {doc : Document Num} : Valid P (reread P doc) ↔ Valid P doc := by
  constructor
  · intro h
    exact { h with
      entropy := (signs.reread_negative _).symm.trans h.entropy
      confidence := (signs.reread_negative _).symm.trans h.confidence }
  intro h
  exact { h with
    entropy := (signs.reread_negative _).trans h.entropy
    confidence := (signs.reread_negative _).trans h.confidence }

theorem normalKey_normalKey_ne_nil (hlower : P.unicode.LowersNoSpace) {k : Bytes} (h : normalKey P k ≠ []) :
    normalKey P (normalKey P k) ≠ [] := by
  have hk : trimSpace k ≠ [] := fun hnil => h (toLowerString_eq_nil_iff.mpr hnil)
  have htwice : trimSpace (trimSpace k) ≠ [] := by rwa [trimSpace_trimSpace]
  intro hnil
  exact trimSpace_toLowerString_ne_nil hlower htwice (toLowerString_eq_nil_iff.mp hnil)

theorem valid_emptyDocument (signs : Signs P) : Valid P (emptyDocument P) := by
  have hzero := signs.not_negative _ signs.zero
  constructor <;> simp [emptyDocument, maxMinSecretLength, hzero]

theorem IsRemote.valid (signs : Signs P) (hlower : P.unicode.LowersNoSpace) {remote : Document Num}
    (h : IsRemote P remote) : Valid P remote := by
  rcases h with rfl | ⟨b, ignored, h⟩
  · exact valid_emptyDocument signs
  obtain ⟨f, -, hvalid, rfl⟩ := parse_eq_ok_iff.mp ⟨ignored, h⟩
  have hkeys : ∀ k ∈ (accepted P f).sensitiveKeys, normalKey P k ≠ [] := by
    intro k hk
    obtain ⟨k', hk', rfl⟩ := List.mem_map.mp hk
    exact normalKey_normalKey_ne_nil hlower (hvalid.keys k' hk')
  exact { hvalid with keys := hkeys }

/-- The fields of a policy pass the checks made on each entry. -/
structure Passes (P : Platform Num) (spec : PolicyRules Num) : Prop where
  entropy : P.isNegative spec.entropyThreshold = false
  confidence : P.isNegative spec.confidenceThreshold = false
  length : spec.minSecretLength ≤ maxMinSecretLength
  keys : ∀ k ∈ spec.sensitiveKeys, normalKey P k ≠ []
  patterns : ∀ p ∈ spec.sensitiveKeyPatterns, P.compiles p = true
  custom : ∀ r ∈ spec.customRegexList, P.compiles r.pattern = true
  safe : ∀ r ∈ spec.safeRegexList, P.compiles r.pattern = true

theorem forall_overlay_iff {α : Type} {l remote : List α} {Q : α → Prop} (hremote : ∀ x ∈ remote, Q x) :
    (∀ x ∈ if l.isEmpty then remote else l, Q x) ↔ ∀ x ∈ l, Q x := by
  grind

theorem threshold_overlay (signs : Signs P) {x remote : Num} (hremote : P.isNegative remote = false) :
    P.isNegative (if P.isZero x then remote else P.shortest x) = false ↔ P.isNegative x = false := by
  by_cases hx : P.isZero x = true
  · simp [hx, hremote, signs.not_negative x hx]
  rw [if_neg hx, signs.shortest_negative]

theorem length_overlay {n remote : Int} (hremote : 0 ≤ remote ∧ remote ≤ maxMinSecretLength) :
    (0 ≤ (if 0 < n then n else remote) ∧ (if 0 < n then n else remote) ≤ maxMinSecretLength) ↔
      n ≤ maxMinSecretLength := by
  omega

theorem valid_merge_iff (signs : Signs P) {remote : Document Num} (hremote : Valid P remote)
    (spec : PolicyRules Num) (generation : Int64) :
    Valid P (merge P remote spec generation) ↔ Passes P spec ∧ NoEmptyRule spec := by
  have hentropy := threshold_overlay signs (x := spec.entropyThreshold) hremote.entropy
  have hconfidence := threshold_overlay signs (x := spec.confidenceThreshold) hremote.confidence
  have hlength := length_overlay (n := spec.minSecretLength) hremote.length
  have hkeys := forall_overlay_iff (l := spec.sensitiveKeys) hremote.keys
  have hpatterns := forall_overlay_iff (l := spec.sensitiveKeyPatterns) hremote.patterns
  have hcustom := forall_overlay_iff (l := spec.customRegexList) hremote.custom
  have hsafe := forall_overlay_iff (l := spec.safeRegexList) hremote.safe
  constructor
  · intro h
    have hc := hcustom.mp h.custom
    have hs := hsafe.mp h.safe
    refine ⟨⟨hentropy.mp h.entropy, hconfidence.mp h.confidence, hlength.mp h.length, hkeys.mp h.keys,
      hpatterns.mp h.patterns, fun r hr => (hc r hr).2, fun r hr => (hs r hr).2⟩, ?_⟩
    intro r hr
    grind
  rintro ⟨h, hne⟩
  have hc (r : Rule) (hr : r ∈ spec.customRegexList) := hne r (List.mem_append_left _ hr)
  have hs (r : Rule) (hr : r ∈ spec.safeRegexList) := hne r (List.mem_append_right _ hr)
  exact ⟨hentropy.mpr h.entropy, hconfidence.mpr h.confidence, hlength.mpr h.length, hkeys.mpr h.keys,
    hpatterns.mpr h.patterns, hcustom.mpr fun r hr => ⟨hc r hr, h.custom r hr⟩,
    hsafe.mpr fun r hr => ⟨hs r hr, h.safe r hr⟩⟩

def renderedPatterns (remote : Document Num) (spec : PolicyRules Num) : List Bytes :=
  if spec.sensitiveKeyPatterns.isEmpty then remote.sensitiveKeyPatterns else spec.sensitiveKeyPatterns

/-- The sidecar accepts a rendered file exactly if the fields of the policy pass and the
patterns of the file compile together. -/
theorem rendered_accepted_iff (S : Sidecar P) (signs : Signs P) (hlower : P.unicode.LowersNoSpace)
    {remote : Document Num} (hremote : IsRemote P remote) {spec : PolicyRules Num} (hspec : Admitted spec)
    (generation : Int64) {data : Bytes} (hencode : P.encode (merge P remote spec generation) = some data)
    (hround : ∀ b, P.encode (merge P remote spec generation) = some b →
      P.decodeFile b = some ⟨reread P (merge P remote spec generation), [], []⟩) :
    (parsePolicyJSON S data).isOk = true ↔ Passes P spec ∧ Joins S (renderedPatterns remote spec) := by
  have hvalid := valid_merge_iff signs (hremote.valid signs hlower) spec generation
  rw [parsePolicyJSON_isOk_iff, hround data hencode]
  simp only [Option.some.injEq, exists_eq_left', valid_reread_iff signs, hvalid, and_iff_left hspec.rules]
  rfl

def lengthRules (n : Int) : PolicyRules Unit := ⟨(), (), n, [], [], [], []⟩

theorem admitted_lengthRules {n : Int} (h : 0 ≤ n) : Admitted (lengthRules n) :=
  ⟨h, by simp [NoEmptyRule, lengthRules]⟩

def lengthFile (n : Nat) : Bytes :=
  bs "\x7b\n  \"revision\": \"1\",\n  \"min_secret_length\": " ++ formatNat n ++ bs "\n\x7d"

def lengthPlatform : Platform Unit := filePlatform
  [(lengthFile 20, localDocument (samplePlatform []) (lengthRules 20) 1),
    (lengthFile 2000, localDocument (samplePlatform []) (lengthRules 2000) 1)]

theorem filePlatform_signs (files : List (Bytes × Document Unit)) : Signs (filePlatform files) :=
  ⟨rfl, fun _ _ => rfl, fun _ => rfl, fun _ => rfl⟩

theorem ascii_lowersNoSpace : Unicode.ascii.LowersNoSpace := by
  intro r h
  by_cases hr : r < 0x80
  · have hall : ∀ r < 0x80, isSpaceRune (Unicode.ascii.lowerRune r) = true → isSpaceRune r = true := by
      decide +kernel
    exact hall r hr h
  have hid : Unicode.ascii.lowerRune r = r := by
    rw [Unicode.lowerRune, if_neg hr]
    rfl
  rwa [hid] at h

theorem lengthPlatform_rereads (b : Bytes)
    (hb : lengthPlatform.encode (localDocument lengthPlatform (lengthRules 20) 1) = some b) :
    lengthPlatform.decodeFile b =
      some ⟨reread lengthPlatform (localDocument lengthPlatform (lengthRules 20) 1), [], []⟩ := by
  have hfile : lengthPlatform.encode (localDocument lengthPlatform (lengthRules 20) 1) = some (lengthFile 20) := by
    rfl
  cases hb.symm.trans hfile
  rfl

theorem rendered_accepted_length :
    (parsePolicyJSON (sampleSidecar lengthPlatform) (lengthFile 20)).isOk = true :=
  (rendered_accepted_iff (sampleSidecar lengthPlatform) (filePlatform_signs _) ascii_lowersNoSpace
    (.inl rfl) (admitted_lengthRules (n := 20) (by decide)) 1 (by decide +kernel) lengthPlatform_rereads).mpr
    ⟨⟨rfl, rfl, by decide, by simp [lengthRules], by simp [lengthRules], by simp [lengthRules],
      by simp [lengthRules]⟩, joins_nil⟩

/-- A secret length of 2000 is admitted and rendered. -/
theorem rendered_rejected :
    Admitted (lengthRules 2000) ∧
      lengthPlatform.encode (localDocument lengthPlatform (lengthRules 2000) 1) = some (lengthFile 2000) ∧
      (parsePolicyJSON (sampleSidecar lengthPlatform) (lengthFile 2000)).isOk = false :=
  ⟨admitted_lengthRules (by decide), by decide +kernel, by decide +kernel⟩

end PiiShield.Operator
