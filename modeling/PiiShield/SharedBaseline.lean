import PiiShield.TokenSteps

/-! The one state all scanners of a process share is the adaptive baseline. A scanner that is
not adaptive neither reads nor changes it, and a full baseline stays as it is. -/

namespace PiiShield

variable {Num : Type}

def BaselineStats.Full (b : BaselineStats Num) : Prop := ¬ b.samples.length < b.maxSamples

namespace ConfigState

def Inert (st : ConfigState Num) (b b' : BaselineStats Num) : Prop :=
  st.config.adaptiveThreshold = false ∨ b = b' ∧ b.Full

variable {st : ConfigState Num} {b b' : BaselineStats Num}

section Tokens

theorem threshold_congr (b b' : BaselineStats Num) (h : st.config.adaptiveThreshold = false) (contextSensitive : Bool) :
    st.threshold b contextSensitive = st.threshold b' contextSensitive := by
  rw [threshold, threshold, h]
  rfl

theorem singleTokenAction_congr (h : st.config.adaptiveThreshold = false) (content original : Bytes)
    (forced context autoQuote : Bool) :
    st.singleTokenAction b content original forced context autoQuote =
      st.singleTokenAction b' content original forced context autoQuote := by
  have hscored (forced : Bool) (strategy : Strategy) :
      st.scoredAction b content original forced context autoQuote strategy =
        st.scoredAction b' content original forced context autoQuote strategy := by
    simp [scoredAction, threshold_congr b b' h]
  simp only [singleTokenAction, hscored]

theorem binaryBlobAction_congr (h : st.config.adaptiveThreshold = false) (content : Bytes) (context : Bool) :
    st.binaryBlobAction b content context = st.binaryBlobAction b' content context := by
  rw [binaryBlobAction, threshold_congr b b' h]
  rfl

def Forgets : TokenAction Num → Prop
  | .keep (some _) => False
  | _ => True

theorem forgets_scoredAction (h : st.config.adaptiveThreshold = false) (content original : Bytes)
    (forced context autoQuote : Bool) (strategy : Strategy) :
    Forgets (st.scoredAction b content original forced context autoQuote strategy) := by
  rw [scoredAction]
  split
  · trivial
  rw [h]
  trivial

theorem forgets_singleTokenAction (h : st.config.adaptiveThreshold = false) (content original : Bytes)
    (forced context autoQuote : Bool) :
    Forgets (st.singleTokenAction b content original forced context autoQuote) := by
  have hscored := forgets_scoredAction (b := b) h content original
  rw [singleTokenAction]
  repeat' split
  all_goals first | trivial | exact hscored ..

theorem forgets_binaryBlobAction (content : Bytes) (context : Bool) :
    Forgets (st.binaryBlobAction b content context) := by
  rw [binaryBlobAction]
  repeat' split
  all_goals trivial

theorem perform_of_forgets (b b' : BaselineStats Num) {a : TokenAction Num} (h : Forgets a) (original : Bytes) :
    perform b original a = perform b' original a ∧ (perform b original a).Tied b b' := by
  cases a with
  | keep score =>
    cases score with
    | none => exact ⟨rfl, trivial⟩
    | some score => exact h.elim
  | redact opening m closing => exact ⟨rfl, trivial⟩

theorem perform_of_full (h : b.Full) (a : TokenAction Num) (original : Bytes) :
    (perform b original a).Tied b b := by
  cases a with
  | keep score =>
    cases score with
    | none => trivial
    | some score => exact ⟨if_neg h, if_neg h, trivial⟩
  | redact opening m closing => trivial

variable (h : st.Inert b b')
include h

theorem tied_processSingleToken (content original : Bytes) (forced context autoQuote : Bool) :
    (st.processSingleToken content original forced context autoQuote).Tied b b' := by
  rcases h with h | ⟨rfl, hfull⟩
  · have hsame := perform_of_forgets b b'
      (forgets_singleTokenAction (b := b) h content original forced context autoQuote) original
    refine ⟨hsame.1.trans ?_, hsame.2⟩
    rw [singleTokenAction_congr h]
  exact ⟨rfl, perform_of_full hfull _ _⟩

theorem tied_processBinaryBlob (content : Bytes) (context : Bool) :
    (st.processBinaryBlob content context).Tied b b' := by
  rcases h with h | ⟨rfl, hfull⟩
  · have hforgets : Forgets (st.binaryBlobAction b content context) := forgets_binaryBlobAction content context
    have hsame := perform_of_forgets b b' hforgets content
    refine ⟨hsame.1.trans ?_, hsame.2⟩
    rw [binaryBlobAction_congr h]
  exact ⟨rfl, perform_of_full hfull _ _⟩

end Tokens

theorem tied_tokenStep (h : st.Inert b b') {p : Scan Num Unit} (hp : st.TokenStep p) : p.Tied b b' := by
  cases hp with
  | single content original forced context autoQuote => exact tied_processSingleToken h ..
  | blob content context => exact tied_processBinaryBlob h ..

theorem scanAndRedact_tied (h : st.Inert b b') (line : Bytes) :
    (st.scanAndRedact b line).Tied b b' (st.scanAndRedact b' line) :=
  Machine.run_tied (fun f => (built_body f).tied fun _ hp => tied_tokenStep h hp) _ _

end ConfigState

end PiiShield
