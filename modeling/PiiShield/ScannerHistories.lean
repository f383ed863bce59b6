import PiiShield.PairValue
import PiiShield.SharedBaseline

/-! Histories of a process with several scanners: what one of them answers, compared with
what it answers in a process of its own. -/

namespace PiiShield

/-- What a call returns to its caller; a panic returns nothing. -/
def Outcome.returned {S : Sig} {α : Type} (r : Outcome S α) : Option Bytes :=
  match r.res with
  | .ok _ => some r.out
  | .error _ => none

variable {Num ι : Type} [DecidableEq ι]

def baselineAfter (scanner : ι → ConfigState Num) : BaselineStats Num → List (ι × Bytes) → BaselineStats Num
  | b, [] => b
  | b, (i, line) :: history =>
    baselineAfter scanner ((scanner i).scanAndRedact b line).state history

/-- The answer of scanner `j` to the line `x` after a history of the process. -/
def answerAfter (scanner : ι → ConfigState Num) (j : ι) (history : List (ι × Bytes)) (x : Bytes) :
    Option Bytes :=
  ((scanner j).scanAndRedact (baselineAfter scanner newBaselineStats history) x).returned

def ownLines (j : ι) (history : List (ι × Bytes)) : List (ι × Bytes) := history.filter (·.1 = j)

/-- Every step that is not of scanner `j` is of a scanner that is not adaptive, or finds the
baseline full. -/
def Undisturbed (scanner : ι → ConfigState Num) (j : ι) : BaselineStats Num → List (ι × Bytes) → Prop
  | _, [] => True
  | b, (i, line) :: history =>
    (i = j ∨ (scanner i).config.adaptiveThreshold = false ∨ b.Full) ∧
      Undisturbed scanner j ((scanner i).scanAndRedact b line).state history

variable {scanner : ι → ConfigState Num} {j : ι} {b : BaselineStats Num} {history : List (ι × Bytes)}

theorem ConfigState.Inert.state_eq {st : ConfigState Num} (h : st.Inert b b) (line : Bytes) :
    (st.scanAndRedact b line).state = b :=
  (scanAndRedact_tied h line).1

theorem baselineAfter_ownLines (h : Undisturbed scanner j b history) :
    baselineAfter scanner b history = baselineAfter scanner b (ownLines j history) := by
  induction history generalizing b with
  | nil => rfl
  | cons step history ih =>
    obtain ⟨i, line⟩ := step
    obtain ⟨hstep, hrest⟩ := h
    have hrun := ih hrest
    by_cases hij : i = j
    · rw [ownLines, List.filter_cons_of_pos (by simpa using hij)]
      exact hrun
    rw [ownLines, List.filter_cons_of_neg (by simpa using hij)]
    have hinert : (scanner i).Inert b b := (hstep.resolve_left hij).imp_right fun hfull => ⟨rfl, hfull⟩
    rw [hinert.state_eq] at hrun
    rw [baselineAfter, hinert.state_eq]
    exact hrun

theorem returned_congr {st : ConfigState Num} (h : st.config.adaptiveThreshold = false)
    (b b' : BaselineStats Num) (x : Bytes) :
    (st.scanAndRedact b x).returned = (st.scanAndRedact b' x).returned := by
  have htied : (st.scanAndRedact b x).Tied b b' (st.scanAndRedact b' x) :=
    ConfigState.scanAndRedact_tied (Or.inl h) x
  rw [htied.2]
  rfl

/-- A scanner answers as in a process of its own, in every history in which it is not
adaptive itself or no step of another scanner adds to the baseline. -/
theorem scanner_answers_alone
    (h : (scanner j).config.adaptiveThreshold = false ∨ Undisturbed scanner j newBaselineStats history)
    (x : Bytes) :
    answerAfter scanner j history x = answerAfter scanner j (ownLines j history) x := by
  rcases h with h | h
  · exact returned_congr h _ _ x
  rw [answerAfter, baselineAfter_ownLines h]
  rfl

/-- The sample configuration with an adaptive threshold, without sensitive keys and bigrams. -/
def ConfigState.adaptive : ConfigState Int :=
  { sample.withKeys [] with
    config := { (sample.withKeys []).config with adaptiveThreshold := true, disableBigramCheck := true } }

theorem scanner_answers_alone_beside_default :
    Undisturbed (fun i : Bool => if i then ConfigState.adaptive else ConfigState.sample) true
      newBaselineStats [(false, bs "aaaaaa"), (true, bs "abc123")] ∧
    answerAfter (fun i : Bool => if i then ConfigState.adaptive else ConfigState.sample) true
        [(false, bs "aaaaaa"), (true, bs "abc123")] (bs "abc123") =
      answerAfter (fun i : Bool => if i then ConfigState.adaptive else ConfigState.sample) true
        [(true, bs "abc123")] (bs "abc123") := by
  have h : Undisturbed (fun i : Bool => if i then ConfigState.adaptive else ConfigState.sample) true
      newBaselineStats [(false, bs "aaaaaa"), (true, bs "abc123")] :=
    ⟨Or.inr (Or.inl rfl), Or.inl rfl, trivial⟩
  exact ⟨h, scanner_answers_alone (Or.inr h) (bs "abc123")⟩

section Learning

open ConfigState

structure Outcome.Leaves {S : Sig} {α : Type} (r : Outcome S α) (s : S.State) (a : α) : Prop where
  state : r.state = s
  res : r.res = .ok a

theorem Machine.exec_call_leaves {S : Sig} {α : Type} {M : Machine S}
    {answer : (f : S.Frame) → S.State → Outcome S (S.Ret f)} {self f : S.Frame} {k : S.Ret f → Prog S α}
    {s s₁ s₂ : S.State} {r : S.Ret f} {a : α} (hc : (answer f s).Leaves s₁ r)
    (hk : (M.exec answer self (k r) s₁).Leaves s₂ a) :
    (M.exec answer self (.call f k) s).Leaves s₂ a := by
  rw [exec, hc.res, hc.state]
  exact ⟨hk.state, hk.res⟩

def plainWord : Bytes := bs "aaaaaa"

theorem singleTokenAction_plainWord {b : BaselineStats Int} (hb : b.ready = false) :
    adaptive.singleTokenAction b plainWord plainWord false false false = .keep (some 0) := by
  have hsafe : isSafe adaptive.unicode plainWord = false := by rfl
  have hrule : adaptive.customRule plainWord = none := by rfl
  have hsig : signatureOf plainWord = none := by rfl
  have hscore : adaptive.calculateComplexity plainWord = 0 := by rfl
  have hthr : adaptive.threshold b false = 36 := by
    rw [threshold, BaselineStats.getThreshold, hb]
    rfl
  have hscored : adaptive.scoredAction b plainWord plainWord false false false .entropy = .keep (some 0) := by
    rw [scoredAction, hthr, hscore]
    rfl
  have hplain : (plainWord.isEmpty || isRedacted plainWord) = false := by rfl
  have hbase : isBase64Text plainWord = false := by rfl
  have hshort : ((plainWord.length : Int) < adaptive.config.minSecretLength ||
      plainWord.contains (chr ' ')) = false := by rfl
  rw [singleTokenAction, hplain, hsafe, hrule, hsig, hbase, hshort]
  exact hscored

theorem processTokenLogic_plainWord :
    adaptive.processTokenLogic (firstCall plainWord) = adaptive.tokenEqualPair (firstCall plainWord) := by
  have hplain : plainWord.all isPlainByte = true := by rfl
  have hmark : contains plainWord (bs "[HIDDEN") = false := by rfl
  have hurl : (contains plainWord (bs "://") || hasQueryShape plainWord) = false := by rfl
  have htele : hasTelegramShape plainWord = false := by rfl
  have htime : isISO8601Timestamp adaptive.unicode plainWord = false := by rfl
  have hlog : pythonLogPrefixEnd plainWord = 0 := by rfl
  have hdepth : ¬ maxTokenRecursionDepth < 0 := by decide
  simp [processTokenLogic, tokenMarker, tokenJSONLiteral, tokenBytesLiteral, tokenChain, tokenURL,
    tokenTelegram, tokenTimestamp, tokenLogPrefix, tokenCompactPair, tokenForcedColon, firstCall,
    escapedOrBacktickWrap_plain hplain, hmark, escapedJSONString_plain hplain,
    isBytesLiteral_plain hplain, firstIs_isQuote_plain hplain, hurl, htele,
    trimQuotes_plain hplain, htime, hlog, splitCompactPair_plain hplain]

theorem processEqualPair_plainWord :
    adaptive.processEqualPair plainWord false false 0 = pure (false, false) := by
  have hcut : cut plainWord (bs "=") = none := by rfl
  rw [processEqualPair, hcut]

theorem processColonPair_plainWord : adaptive.processColonPair plainWord false 0 = pure (false, false) := by
  have hurl : contains plainWord (bs "://") = false := by rfl
  have hcolon : colonIndex plainWord = none := by rfl
  rw [processColonPair, hurl, hcolon]
  rfl

theorem tokenWideColon_plainWord :
    adaptive.tokenWideColon (firstCall plainWord) = adaptive.tokenColonPair (firstCall plainWord) := by
  have hwide : wideColonIndex plainWord = none := by rfl
  rw [tokenWideColon, firstCall, hwide]

theorem tokenRest_plainWord : adaptive.tokenRest (firstCall plainWord) = (do
      adaptive.processSingleToken plainWord plainWord false false false
      return false) := by
  have htrim : trimQuotes plainWord = plainWord := by rfl
  have hkey : adaptive.isSensitiveKey plainWord = false := by rfl
  have hquoted : isBalancedQuoted plainWord = false := by rfl
  simp [tokenRest, firstCall, htrim, hkey, hquoted]

variable {b : BaselineStats Int}

theorem exec_tokenRest_plainWord (hb : b.ready = false)
    (answer : (f : Frame) → BaselineStats Int → Outcome (scanSig Int) f.Ret) (self : Frame) :
    (adaptive.machine.exec answer self (adaptive.tokenRest (firstCall plainWord)) b).Leaves (b.update 0) false := by
  rw [tokenRest_plainWord, processSingleToken]
  simp only [Prog.bind_eq, Prog.bind, Machine.exec, singleTokenAction_plainWord hb, perform]
  exact ⟨rfl, rfl⟩

theorem run_equalPair_plainWord (n : Nat) :
    (adaptive.machine.run (n + 1) (.processEqualPair plainWord false false 0) b).Leaves b (false, false) := by
  show (adaptive.machine.exec _ _ (adaptive.processEqualPair plainWord false false 0) b).Leaves b (false, false)
  rw [processEqualPair_plainWord]
  exact ⟨rfl, rfl⟩

theorem run_colonPair_plainWord (n : Nat) :
    (adaptive.machine.run (n + 1) (.processColonPair plainWord false 0) b).Leaves b (false, false) := by
  show (adaptive.machine.exec _ _ (adaptive.processColonPair plainWord false 0) b).Leaves b (false, false)
  rw [processColonPair_plainWord]
  exact ⟨rfl, rfl⟩

theorem run_token_plainWord (hb : b.ready = false) (n : Nat) :
    (adaptive.machine.run (n + 2) (.processTokenLogic (firstCall plainWord)) b).Leaves (b.update 0) false := by
  show (adaptive.machine.exec _ _ (adaptive.processTokenLogic (firstCall plainWord)) b).Leaves (b.update 0) false
  rw [processTokenLogic_plainWord, tokenEqualPair, tokenWideColon_plainWord]
  refine Machine.exec_call_leaves (run_equalPair_plainWord n) ?_
  refine Machine.exec_call_leaves (run_colonPair_plainWord n) ?_
  exact exec_tokenRest_plainWord hb _ _

theorem run_line_plainWord (hb : b.ready = false) (n : Nat) :
    (adaptive.machine.run (n + 5) (.scanLine plainWord 0) b).Leaves (b.update 0) () := by
  have happend : (adaptive.machine.run (n + 3) (.processAndAppend plainWord {} 0) b).Leaves (b.update 0)
      (adaptive.afterToken {} plainWord false false) := by
    have hscheme : adaptive.isSchemePair (trimSpace plainWord) = none := by rfl
    have hcall : adaptive.tokenCall {} plainWord false 0 = some (firstCall plainWord) := by
      have htrim : trimSpace plainWord = plainWord := by rfl
      have hhash : adaptive.isShortHashUnderHashKey plainWord false = false := by rfl
      simp [tokenCall, htrim, hhash, isForced, forcedByKey, isSchemeCredential, isSaidSecret,
        firstCall]
    have hover : adaptive.overrides {} (trimSpace plainWord) = some false := rfl
    show (adaptive.machine.exec _ _ (adaptive.processAndAppend plainWord {} 0) b).Leaves _ _
    simp only [processAndAppend, hscheme, hover, hcall]
    exact Machine.exec_call_leaves (run_token_plainWord hb n) ⟨rfl, rfl⟩
  have hsegment : (adaptive.machine.run (n + 4) (.scanSegmentFrom plainWord 0 false 0) b).Leaves
      (b.update 0) (false, 0) := by
    have hpiece : segmentPieces plainWord.length ⟨[], plainWord, false, 0, false⟩ =
        ([.token plainWord false], false, 0) := by rfl
    show (adaptive.machine.exec _ _ (ConfigState.scanSegmentFrom plainWord 0 false 0) b).Leaves _ _
    rw [ConfigState.scanSegmentFrom, hpiece]
    exact Machine.exec_call_leaves happend ⟨rfl, rfl⟩
  have hcarves : adaptive.carves plainWord = [] := by rfl
  have hline : adaptive.scanLine plainWord 0 = (do
      Prog.write []
      adaptive.scanCarves plainWord 0 (adaptive.carves plainWord) 0 false 0) :=
    scanLine_plain (by rfl) (by rfl)
  show (adaptive.machine.exec _ _ (adaptive.scanLine plainWord 0) b).Leaves _ _
  rw [hline, hcarves]
  have hcall : (adaptive.machine.exec (adaptive.machine.run (n + 4)) (.scanLine plainWord 0)
      (.call (.scanSegmentFrom plainWord 0 false 0) fun _ => .pure ()) b).Leaves (b.update 0) () :=
    Machine.exec_call_leaves hsegment ⟨rfl, rfl⟩
  exact ⟨hcall.state, hcall.res⟩

theorem scan_plainWord (hb : b.ready = false) : (adaptive.scanAndRedact b plainWord).state = b.update 0 := by
  have hfuel : scanFuel plainWord = 1955 + 5 := by rfl
  rw [ConfigState.scanAndRedact, hfuel]
  exact (run_line_plainWord hb 1955).state

def learned (k : Nat) : BaselineStats Int := ⟨List.replicate k 0, 100, k == 100⟩

theorem scan_learned {k : Nat} (hk : k < 100) :
    (adaptive.scanAndRedact (learned k) plainWord).state = learned (k + 1) := by
  rw [scan_plainWord (by simpa [learned] using hk.ne), BaselineStats.update, if_pos (by simpa [learned] using hk)]
  simp only [learned, List.length_replicate, List.replicate_succ']
  simp [hk.ne]

theorem baselineAfter_learned {ι : Type} [DecidableEq ι] (i : ι) {k n : Nat} (h : k + n ≤ 100) :
    baselineAfter (fun _ : ι => adaptive) (learned k) (List.replicate n (i, plainWord)) = learned (k + n) := by
  induction n generalizing k with
  | zero => rfl
  | succ n ih =>
    rw [List.replicate_succ, baselineAfter, scan_learned (by omega), ih (by omega), Nat.add_right_comm]
    rfl

end Learning

/-- A hundred plain lines of one adaptive scanner lower the threshold of another. -/
theorem scanner_answers_change :
    answerAfter (fun _ : Bool => ConfigState.adaptive) true (List.replicate 100 (false, bs "aaaaaa"))
        (bs "abc123") ≠
      answerAfter (fun _ : Bool => ConfigState.adaptive) true
        (ownLines true (List.replicate 100 (false, bs "aaaaaa"))) (bs "abc123") := by
  have hown : ownLines true (List.replicate 100 (false, bs "aaaaaa")) = [] := by
    simp [ownLines]
  have hlearned := baselineAfter_learned false (k := 0) (n := 100) le_rfl
  have hstart : learned 0 = newBaselineStats := rfl
  rw [hstart] at hlearned
  rw [hown, answerAfter, show bs "aaaaaa" = plainWord from rfl, hlearned]
  decide +kernel

end PiiShield
