import PiiShield.Operator.Sidecar
import PiiShield.ScannerHistories

/-! When the adaptive threshold replaces the configured one. A token is judged where the baseline is
read, and a token that is safe is recorded where the baseline is replaced. -/

namespace PiiShield

variable {Num : Type}

def BaselineStats.Learns (b b' : BaselineStats Num) : Prop := ∃ score, b' = b.update score

namespace ConfigState

variable {st : ConfigState Num} {b : BaselineStats Num}

theorem steps_perform (original : Bytes) (a : TokenAction Num) :
    (perform b original a).Steps BaselineStats.Learns b := by
  cases a with
  | keep score =>
    cases score with
    | none => trivial
    | some score => exact ⟨⟨score, rfl⟩, trivial⟩
  | redact opening m closing => trivial

theorem steps_tokenStep {p : Scan Num Unit} (hp : st.TokenStep p) (b : BaselineStats Num) :
    p.Steps BaselineStats.Learns b := by
  cases hp with
  | single content original forced context autoQuote => exact steps_perform original _
  | blob content context => exact steps_perform content _

theorem steps_body (f : Frame) (b : BaselineStats Num) : (st.machine.body f).Steps BaselineStats.Learns b :=
  (built_body f).steps (fun _ hp => steps_tokenStep hp) b

/-- The accesses to the baseline while lines are scanned one after the other. -/
def accesses (st : ConfigState Num) : BaselineStats Num → List Bytes → List (Access (scanSig Num))
  | _, [] => []
  | b, line :: lines =>
    st.machine.accesses (scanFuel line) (.scanLine line 0) b ++ accesses st (st.scanAndRedact b line).state lines

theorem chained_accesses (b : BaselineStats Num) (lines : List Bytes) :
    Access.Chained BaselineStats.Learns b (st.accesses b lines) := by
  induction lines generalizing b with
  | nil => trivial
  | cons line lines ih =>
    obtain ⟨hchain, hlast⟩ := Machine.run_chained (M := st.machine) steps_body (scanFuel line) (.scanLine line 0) b
    refine hchain.append ?_
    rw [← hlast]
    exact ih _

/-- A token that is neither forced nor in context is held against the threshold of the baseline. -/
def UsesAdaptive (st : ConfigState Num) (b : BaselineStats Num) : Prop :=
  ∃ a, b.getThreshold st.arith = some a ∧
    st.threshold b false = st.arith.mul a st.config.confidenceThreshold

theorem usesAdaptive_iff (hon : st.config.adaptiveThreshold = true) : st.UsesAdaptive b ↔ b.ready = true := by
  constructor
  · rintro ⟨a, ha, _⟩
    simp_all [BaselineStats.getThreshold]
  intro hready
  have hsome : ∃ a, b.getThreshold st.arith = some a := by
    rw [BaselineStats.getThreshold, hready]
    exact ⟨_, rfl⟩
  obtain ⟨a, ha⟩ := hsome
  refine ⟨a, ha, ?_⟩
  simp [threshold, hon, ha]

end ConfigState

/-- The baseline of the process after `n` tokens were recorded. -/
structure BaselineStats.Recorded (n : Nat) (b : BaselineStats Num) : Prop where
  maxSamples : b.maxSamples = 100
  length : b.samples.length = min n 100
  ready : b.ready = true ↔ 100 ≤ n

theorem BaselineStats.recorded_new : (newBaselineStats : BaselineStats Num).Recorded 0 :=
  ⟨rfl, rfl, iff_of_false Bool.false_ne_true (by omega)⟩

theorem BaselineStats.Recorded.learns {n : Nat} {b b' : BaselineStats Num} (h : b.Recorded n) (hb : b.Learns b') :
    b'.Recorded (n + 1) := by
  obtain ⟨score, rfl⟩ := hb
  obtain ⟨hmax, hlen, hready⟩ := h
  rw [BaselineStats.update]
  split
  · next hroom =>
    rw [hmax, hlen] at hroom
    refine ⟨hmax, ?_, ?_⟩
    · rw [List.length_append, hlen, List.length_singleton]
      omega
    rw [Bool.or_eq_true, hready, beq_iff_eq, hmax, hlen]
    omega
  · next hfull =>
    rw [hmax, hlen] at hfull
    refine ⟨hmax, ?_, ?_⟩
    · rw [hlen]
      omega
    rw [hready]
    omega

/-- At a token before which some were recorded, the adaptive threshold is used from the configured
number on exactly if the tokens recorded are not between that number and a hundred. -/
theorem adaptive_samples_honoured_iff (c : Operator.FileConfig Num) (st : ConfigState Num)
    (hst : st.config = c.toConfig) (hon : c.adaptiveThreshold = true)
    (lines : List Bytes) (before after : List (Access (scanSig Num))) (b : BaselineStats Num)
    (hread : st.accesses newBaselineStats lines = before ++ .read b :: after) :
    (st.UsesAdaptive b ↔ c.adaptiveBaselineSamples ≤ before.countP Access.isWrite) ↔
      ¬ (min c.adaptiveBaselineSamples 100 ≤ before.countP Access.isWrite ∧
        before.countP Access.isWrite < max c.adaptiveBaselineSamples 100) := by
  have hchain : Access.Chained BaselineStats.Learns newBaselineStats (st.accesses newBaselineStats lines) :=
    ConfigState.chained_accesses newBaselineStats lines
  rw [hread] at hchain
  have hrecorded : b.Recorded (0 + before.countP Access.isWrite) :=
    hchain.at_read (P := BaselineStats.Recorded) (fun _ _ _ h hb => h.learns hb) BaselineStats.recorded_new
  rw [Nat.zero_add] at hrecorded
  rw [ConfigState.usesAdaptive_iff (by rw [hst, hon]), hrecorded.ready]
  omega

/-- The sample configuration with an adaptive threshold and a number of samples. -/
def adaptiveFile (n : Int) : Operator.FileConfig Int :=
  { ConfigState.adaptive.config with sensitiveKeyPatterns := [], adaptiveBaselineSamples := n }

def Access.shown : Access (scanSig Int) → Bool × List Int × Nat × Bool
  | .read b => (false, b.samples, b.maxSamples, b.ready)
  | .write b => (true, b.samples, b.maxSamples, b.ready)

theorem Access.shown_injective : Function.Injective Access.shown := by
  intro a a' h
  cases a with
  | read b =>
    cases a' with
    | read b' =>
      cases b
      cases b'
      cases h
      rfl
    | write b' => cases h
  | write b =>
    cases a' with
    | read b' => cases h
    | write b' =>
      cases b
      cases b'
      cases h
      rfl

theorem accesses_plainWords : ConfigState.adaptive.accesses newBaselineStats [plainWord, plainWord] =
      [.read newBaselineStats, .write ⟨[0], 100, false⟩] ++
        .read ⟨[0], 100, false⟩ :: [.write ⟨[0, 0], 100, false⟩] := by
  refine List.map_injective_iff.mpr Access.shown_injective ?_
  decide +kernel

/-- The second of two tokens waits for two samples. -/
theorem two_samples_awaited :
    ConfigState.adaptive.UsesAdaptive ⟨[0], 100, false⟩ ↔
      (adaptiveFile 2).adaptiveBaselineSamples ≤
        ([.read newBaselineStats, .write ⟨[0], 100, false⟩] : List (Access (scanSig Int))).countP Access.isWrite :=
  (adaptive_samples_honoured_iff (adaptiveFile 2) ConfigState.adaptive rfl rfl [plainWord, plainWord] _ _ _
    accesses_plainWords).mpr (by decide)

/-- One sample is asked for and one token was recorded, but the second one is held against the
configured threshold. -/
theorem one_sample_not_enough :
    ConfigState.adaptive.config = (adaptiveFile 1).toConfig ∧ (adaptiveFile 1).adaptiveThreshold = true ∧
    ∃ before after b,
      ConfigState.adaptive.accesses newBaselineStats [plainWord, plainWord] = before ++ .read b :: after ∧
      (adaptiveFile 1).adaptiveBaselineSamples ≤ before.countP Access.isWrite ∧
      ¬ ConfigState.adaptive.UsesAdaptive b := by
  refine ⟨rfl, rfl, _, _, _, accesses_plainWords, by decide, ?_⟩
  rw [ConfigState.usesAdaptive_iff rfl]
  exact Bool.false_ne_true

end PiiShield
