import PiiShield.Calls
import PiiShield.CarveFacts
import PiiShield.LedgerRuns

/-! The ledger of the scanner: which text each frame accounts for, and the two places where
what is written is not what was read. The programs that call no frame keep it. -/

namespace PiiShield

open ConfigState

variable {Num : Type}

variable {content label original u : Bytes}

def isFiller (c : UInt8) : Bool := isQuote c || c == '.' || c == ','

def equalPairHandled (rawToken : Bytes) (forcedSensitive : Bool) : Bool :=
  if (cut rawToken (bs "=")).isNone then false
  else if isPaddedBase64Blob rawToken || isElidedBase64 rawToken then false
  else if forcedSensitive && isPaddedBase64Token rawToken then false
  else if isBalancedQuoted rawToken then
    let trimmed := trimQuotes rawToken
    isPaddedBase64Blob trimmed || isElidedBase64 trimmed || (cut trimmed (bs "=")).isSome
  else true

def colonPairHandled (rawToken : Bytes) : Bool :=
  !contains rawToken (bs "://") && (colonIndex rawToken).isSome

def sharesQuoteFrom (logLine : Bytes) : List Carve → Nat → Bool
  | [], _ => false
  | cv :: cvs, chunkStart =>
    let quote := carveQuote logLine cv
    cv.start - quote.length < chunkStart || sharesQuoteFrom logLine cvs (cv.stop + quote.length)

def Frame.decodes : Frame → Bool
  | .processTokenLogic t => (escapedJSONString t.rawToken).isSome
  | _ => false

def Mark.StandsFor (m : Mark) (u q e : Bytes) : Prop :=
  u.length ≤ m.sensitiveData.length + q.length + e.length ∧
    m.sensitiveData.length + q.length + e.length ≤ u.length + 2

namespace ConfigState

variable (st : ConfigState Num)

def isPlain : Bool :=
  !st.config.entityTypeLabels && st.config.combinedCustomRegex.isNone && st.config.customRegexes.isEmpty &&
    st.config.safeRegexes.isEmpty

def keepsForced (content : Bytes) : Bool :=
  content.isEmpty || isRedacted content || st.config.safeRegexes.any (·.matchString content)

/-- Whether `tokenMarker` leaves a token to the shapes tried after it. -/
def passesMarker (tok : Bytes) : Bool :=
  !contains tok (bs "[HIDDEN") ||
    !((urlPassword st.unicode tok).any fun p => isRedacted (slice tok p.1 p.2)) &&
      !isRedacted (trimQuotes tok) && tok.any isQuote

def writesBack (t : TokenCall) : Bool :=
  t.depth ≤ maxTokenRecursionDepth && (escapedOrBacktickWrap t.rawToken).isNone &&
    st.passesMarker t.rawToken && t.forcedSensitive && (escapedJSONString t.rawToken).any st.keepsForced

def sharesQuote (logLine : Bytes) (depth : Nat) : Bool :=
  let n := if depth == 0 then diffMarks logLine else 0
  !logLine.isEmpty && !(depth == 0 && isGitDiffHeader logLine) &&
    sharesQuoteFrom (logLine.drop n) (st.carves (logLine.drop n)) 0

def departs : Frame → Bool
  | .processTokenLogic t => st.writesBack t
  | .scanLine logLine depth => st.sharesQuote logLine depth
  | _ => false

def panics : Frame → Prop
  | .maskURLParameters url _ => url.all isClosing = true
  | .processAndAppend token s _ =>
    st.isSchemePair (trimSpace token) = none ∧ st.overrides s (trimSpace token) = none
  | _ => False

def ledger : Ledger (scanSig Num) where
  text
    | .processEqualPair rawToken forcedSensitive _ _ =>
      if equalPairHandled rawToken forcedSensitive then rawToken else []
    | .processColonPair rawToken _ _ => if colonPairHandled rawToken then rawToken else []
    | f => f.arg
  answers
    | .processEqualPair rawToken forcedSensitive _ _, r => r.2 = equalPairHandled rawToken forcedSensitive
    | .processColonPair rawToken _ _, r => r.2 = colonPairHandled rawToken
    | _, _ => True
  may := Calls st
  valid s := utf8Valid s = true
  repair := toValidUTF8
  filler := isFiller
  hides f m u q e := (st.isPlain = true → m.name = []) ∧ (f.decodes = true ∨ m.StandsFor u q e)
  replaces
    | .processTokenLogic t, u, o, c =>
      st.writesBack t = true ∧ t.rawToken = dquote :: (u ++ [dquote]) ∧
        escapedJSONString t.rawToken = some o ∧ c = [dquote]
    | .scanLine _ _, u, o, c =>
      u = [] ∧ (∃ q, isQuote q = true ∧ o = [q]) ∧ firstIs c isNumberStart = true ∧ st.isPlain = false
    | _, _, _, _ => False
  panics := st.panics
  encodes u x := escapedJSONString u = some x
  quote := jsonQuote

end ConfigState

section Leaves

variable {st : ConfigState Num} {self : Frame} {clean : Prop}

theorem all_quoteOf (original : Bytes) : (quoteOf original).all isFiller = true := by
  unfold quoteOf
  split
  · decide
  split <;> decide

theorem all_quoteFor (U : Unicode) (original content : Bytes) (autoQuote : Bool) :
    (quoteFor U original content autoQuote).all isFiller = true := by
  unfold quoteFor
  split
  · exact all_quoteOf original
  split <;> decide

def TokenAction.Framed : TokenAction Num → Prop
  | .keep _ => True
  | .redact q _ e => q.all isFiller = true ∧ e.all isFiller = true

variable (b : BaselineStats Num)

theorem framed_scoredAction (content original : Bytes)
    (forced contextSensitive autoQuote : Bool) (strategy : Strategy) :
    (st.scoredAction b content original forced contextSensitive autoQuote strategy).Framed := by
  unfold scoredAction
  simp only
  split
  · exact ⟨all_quoteFor .., all_quoteFor ..⟩
  trivial

theorem all_trail_of_signatureOf {body trail : Bytes}
    (h : signatureOf content = some (label, body, trail)) : trail.all isFiller = true := by
  unfold signatureOf at h
  split at h
  · simp only [Option.some.injEq, Prod.mk.injEq] at h
    rw [← h.2.2]
    rfl
  split at h
  · simp only [Option.ite_none_right_eq_some, Option.some.injEq, Prod.mk.injEq] at h
    obtain ⟨-, -, -, rfl⟩ := h
    split
    · next ht =>
      simp only [Bool.and_eq_true, decide_eq_true_eq, Bool.or_eq_true, beq_iff_eq, lastByte_eq] at ht
      rw [drop_pred (by omega)]
      rcases ht.2 with h | h <;> rw [h] <;> decide
    rfl
  simp at h

theorem framed_singleTokenAction (content original : Bytes)
    (forcedSensitive contextSensitive autoQuote : Bool) :
    (st.singleTokenAction b content original forcedSensitive contextSensitive autoQuote).Framed := by
  unfold singleTokenAction
  simp only
  iterate 3
    split
    next => trivial
  split
  · exact ⟨all_quoteFor .., all_quoteFor ..⟩
  · next hs =>
    refine ⟨all_quoteOf _, ?_⟩
    simp [all_trail_of_signatureOf hs, all_quoteOf]
  repeat' split
  all_goals first | trivial | exact framed_scoredAction ..

theorem label_plain (h : st.isPlain = true) (label : Bytes) : st.entityLabel label = [] := by
  simp only [isPlain, Bool.and_eq_true, Bool.not_eq_true'] at h
  simp [entityLabel, h.1.1.1]

theorem customRule_plain (h : st.isPlain = true) (content : Bytes) : st.customRule content = none := by
  simp only [isPlain, Bool.and_eq_true, Option.isNone_iff_eq_none, List.isEmpty_iff] at h
  simp [customRule, h.1.1.2, h.1.2]

theorem hides_whole {strategy : Strategy} :
    st.ledger.hides self ⟨u, st.entityLabel label, strategy⟩ u [] [] :=
  ⟨fun h => label_plain h label, .inr ⟨Nat.le_refl _, Nat.le_add_right _ 2⟩⟩

theorem length_quoteOf (original : Bytes) : (quoteOf original).length ≤ 1 := by
  unfold quoteOf
  split
  · exact Nat.le_refl 1
  split <;> simp

theorem length_quoteFor (U : Unicode) (original content : Bytes) (autoQuote : Bool) :
    (quoteOf original).length ≤ (quoteFor U original content autoQuote).length ∧
      (quoteFor U original content autoQuote).length ≤ 1 := by
  unfold quoteFor
  split
  · exact ⟨Nat.le_refl _, length_quoteOf original⟩
  · next h =>
    have hnil : quoteOf original = [] := by simpa using h
    rw [hnil]
    split <;> simp

theorem length_trimQuotes (s : Bytes) :
    (trimQuotes s).length ≤ s.length ∧ s.length ≤ (trimQuotes s).length + 2 * (quoteOf s).length := by
  unfold trimQuotes
  split
  · exact ⟨Nat.le_refl _, Nat.le_add_right _ _⟩
  · next hlen =>
    split
    · next hq =>
      simp only [Bool.and_eq_true] at hq
      have hone : (quoteOf s).length = 1 := by
        cases s with
        | nil => simp at hlen
        | cons c s =>
          have hc : isQuote c = true := hq.1
          simp only [isQuote, Bool.or_eq_true, beq_iff_eq] at hc
          rcases hc with rfl | rfl
          · rfl
          rfl
      rw [hone, length_slice (Nat.sub_le _ _)]
      omega
    exact ⟨Nat.le_refl _, Nat.le_add_right _ _⟩

def TokenAction.Hides (st : ConfigState Num) (self : Frame) (original : Bytes) : TokenAction Num → Prop
  | .keep _ => True
  | .redact q m e => st.ledger.hides self m original q e

theorem hides_quoted (hc : content = original ∨ content = trimQuotes original)
    (autoQuote : Bool) {name : Bytes} (hname : st.isPlain = true → name = []) (strategy : Strategy) :
    st.ledger.hides self ⟨content, name, strategy⟩ original
      (quoteFor st.unicode original content autoQuote) (quoteFor st.unicode original content autoQuote) := by
  have hq := length_quoteFor st.unicode original content autoQuote
  have ht := length_trimQuotes original
  refine ⟨hname, .inr ?_⟩
  rcases hc with rfl | rfl
  · exact ⟨by simp only; omega, by simp only; omega⟩
  exact ⟨by simp only; omega, by simp only; omega⟩

theorem hides_scoredAction (hc : content = original ∨ content = trimQuotes original)
    (b : BaselineStats Num) (forced contextSensitive autoQuote : Bool) (strategy : Strategy) :
    (st.scoredAction b content original forced contextSensitive autoQuote strategy).Hides st self original := by
  unfold scoredAction
  simp only
  split
  · exact hides_quoted hc autoQuote (fun h => label_plain h _) strategy
  trivial

theorem append_of_signatureOf {body trail : Bytes}
    (h : signatureOf content = some (label, body, trail)) : body ++ trail = content := by
  unfold signatureOf at h
  split at h
  · simp_all
  split at h
  · simp only [Option.ite_none_right_eq_some, Option.some.injEq, Prod.mk.injEq] at h
    grind [List.take_append_drop]
  simp at h

theorem hides_singleTokenAction
    (hc : content = original ∨ content = trimQuotes original) (b : BaselineStats Num)
    (forcedSensitive contextSensitive autoQuote : Bool) :
    (st.singleTokenAction b content original forcedSensitive contextSensitive autoQuote).Hides st self original := by
  unfold singleTokenAction
  simp only
  iterate 3
    split
    next => trivial
  split
  · next name _ hrule =>
    refine hides_quoted hc autoQuote (fun h => ?_) _
    rw [customRule_plain h] at hrule
    cases hrule
  · next label body trail _ hs =>
    have hbody := congrArg List.length (append_of_signatureOf hs)
    have ht := length_trimQuotes original
    have hq := length_quoteOf original
    rw [List.length_append] at hbody
    refine ⟨fun h => label_plain h _, .inr ⟨?_, ?_⟩⟩
    · rcases hc with rfl | rfl
      · simp only [List.length_append]
        omega
      simp only [List.length_append]
      omega
    rcases hc with rfl | rfl
    · simp only [List.length_append]
      omega
    simp only [List.length_append]
    omega
  repeat' split
  all_goals first | trivial | exact hides_scoredAction hc ..

theorem accounts_perform {a : TokenAction Num}
    (ha : a.Framed) (hh : a.Hides st self original) (hv : clean → utf8Valid original = true) :
    Accounts st.ledger self clean (fun _ => True) false (perform b original a) original := by
  match a with
  | .keep none => exact .write_only hv
  | .keep (some score) => exact .set (.write_only hv)
  | .redact q m e =>
    obtain ⟨hq, he⟩ := ha
    have h : Accounts st.ledger self clean (fun _ : Unit => True) false
        (.emit q (.mark m (.emit e (.pure ())))) (original ++ []) := .hide hq he hh (.pure trivial)
    rwa [List.append_nil] at h

theorem accounts_single (hc : content = original ∨ content = trimQuotes original)
    (forcedSensitive contextSensitive autoQuote : Bool) (hv : clean → utf8Valid original = true) :
    Accounts st.ledger self clean (fun _ => True) false
      (st.processSingleToken content original forcedSensitive contextSensitive autoQuote) original :=
  .get fun b => accounts_perform b (framed_singleTokenAction ..) (hides_singleTokenAction hc ..) hv

theorem accounts_blob (contextSensitive : Bool) (hv : clean → utf8Valid content = true) :
    Accounts st.ledger self clean (fun _ => True) false (st.processBinaryBlob content contextSensitive)
      content := by
  refine .get fun b => accounts_perform b ?_ ?_ hv
  · unfold binaryBlobAction
    split
    · trivial
    split
    · trivial
    exact ⟨rfl, rfl⟩
  unfold binaryBlobAction
  split
  · trivial
  split
  · trivial
  exact hides_whole

theorem accounts_keyHalf {key : Bytes} (hv : clean → utf8Valid key = true) :
    Accounts st.ledger self clean (fun _ => True) false (st.writeKeyHalf key) key := by
  unfold writeKeyHalf
  split
  · exact .write_only hv
  exact accounts_single (.inl rfl) _ _ _ hv

theorem accounts_enter (f : Frame) (hf : Calls st self f)
    (hv : clean → utf8Valid u = true) (hu : st.ledger.text f = u) :
    Accounts st.ledger self clean (fun _ => True) false (enter f) u :=
  (Accounts.call_only (L := st.ledger) hf hv (.inl hu)).weaken fun _ _ => trivial

theorem accounts_discard (f : Frame) (hf : Calls st self f)
    (hv : clean → utf8Valid u = true) (hu : st.ledger.text f = u) :
    Accounts st.ledger self clean (fun _ => True) false (do let _ ← enter f) u := by
  have h : Accounts st.ledger self clean (fun _ : Unit => True) false (do let _ ← enter f) (u ++ []) :=
    (accounts_enter f hf hv hu).bind_clean fun _ _ => .pure trivial
  rwa [List.append_nil] at h

end Leaves

end PiiShield
