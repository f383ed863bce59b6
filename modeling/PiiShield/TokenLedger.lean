import PiiShield.PairLedger
import PiiShield.UrlLedger

/-! `processTokenLogic` accounts for its token, shape by shape. A forced JSON literal that
is kept is the one place where it writes something else. -/

namespace PiiShield

open ConfigState

variable {Num : Type} {st : ConfigState Num} {t : TokenCall}

/-- A program of `processTokenLogic` accounts for the token. -/
abbrev AccountsToken (st : ConfigState Num) (t : TokenCall) (d : Bool) (p : Scan Num Bool) : Prop :=
  Accounts st.ledger (.processTokenLogic t) (utf8Valid t.rawToken = true) (fun _ => True) d p t.rawToken

theorem accountsToken_write {b : Bool} : AccountsToken st t false (Prog.write t.rawToken >>= fun _ => pure b) :=
  Accounts.of_eq (.write id (.pure trivial)) (List.append_nil _)

theorem accountsToken_single {content : Bytes} (hc : content = t.rawToken ∨ content = trimQuotes t.rawToken)
    {forced contextSensitive autoQuote b : Bool} :
    AccountsToken st t false
      (st.processSingleToken content t.rawToken forced contextSensitive autoQuote >>= fun _ => pure b) :=
  Accounts.of_eq ((accounts_single hc _ _ _ id).bind_clean fun _ _ => .pure trivial) (List.append_nil _)

theorem accounts_handled {p : Scan Num Bool} (hp : AccountsToken st t false p) {r : Bool × Bool} {handled : Bool}
    (hr : r.2 = handled) :
    Accounts st.ledger (.processTokenLogic t) (utf8Valid t.rawToken = true) (fun _ => True) false
      (if r.2 then pure r.1 else p) (if handled then [] else t.rawToken) := by
  subst hr
  split
  · exact .pure trivial
  exact hp

section Nesting

variable (hd : t.depth ≤ maxTokenRecursionDepth)

include hd

theorem accountsToken_colonPair {p : Scan Num Bool} (hp : AccountsToken st t false p) : AccountsToken st t false (do
      let r ← enter (.processColonPair t.rawToken t.overrideSensitivity t.depth)
      if r.2 then return r.1 else p) := by
  refine Accounts.attempt (L := st.ledger) (.colonPair hd) id rfl rfl (fun h r hr => ?_) (fun h r hr => ?_)
  · exact accounts_handled hp (hr.trans h)
  exact accounts_handled hp (hr.trans h)

theorem accountsToken_equalPair {p : Scan Num Bool} (hp : AccountsToken st t false p) : AccountsToken st t false (do
      let r ← enter (.processEqualPair t.rawToken t.forcedSensitive t.overrideSensitivity t.depth)
      if r.2 then return r.1 else p) := by
  refine Accounts.attempt (L := st.ledger) (.equalPair hd) id rfl rfl (fun h r hr => ?_) (fun h r hr => ?_)
  · exact accounts_handled hp (hr.trans h)
  exact accounts_handled hp (hr.trans h)

theorem accounts_tokenRest : AccountsToken st t false (st.tokenRest t) := by
  unfold tokenRest
  simp only
  split
  · exact accountsToken_write
  split
  · next h =>
    simp only [Bool.and_eq_true] at h
    have hparts := parts_quoted h.2
    rw [← trimQuotes_of_balanced h.2] at hparts
    have hquote := (hparts.cut (t.rawToken.take 1) (by simp)).valid
    have htrim := hparts.cut (trimQuotes t.rawToken) (by simp)
    refine Accounts.of_eq ?_ hparts.eq.symm
    exact .write hquote (accounts_inner hd htrim htrim.valid (.write hquote (.pure trivial)))
  exact accountsToken_single (.inr rfl)

theorem accounts_tokenColonPair : AccountsToken st t false (st.tokenColonPair t) :=
  accountsToken_colonPair hd (accounts_tokenRest hd)

theorem accounts_tokenWideColon : AccountsToken st t false (st.tokenWideColon t) := by
  unfold tokenWideColon
  split
  · exact accounts_tokenColonPair hd
  · next i hi =>
    have hparts := parts_wideColon hi
    have hval := hparts.cut (t.rawToken.drop (i + fullWidthColon.length)) (by simp)
    refine Accounts.of_eq ((accounts_keyHalf (hparts.cut _ (by simp)).valid).bind_clean fun _ _ =>
      .write (fun _ => rfl) ?_) hparts.eq.symm
    split
    · next he =>
      rw [List.isEmpty_iff.mp he]
      exact .pure trivial
    exact accounts_token (k := pure) hd hval hval.valid rfl rfl fun _ => .pure trivial

theorem accounts_tokenEqualPair : AccountsToken st t false (st.tokenEqualPair t) :=
  accountsToken_equalPair hd (accounts_tokenWideColon hd)

theorem accounts_tokenForcedColon : AccountsToken st t false (st.tokenForcedColon t) := by
  unfold tokenForcedColon
  simp only
  split
  · exact accountsToken_single (.inl rfl)
  exact accounts_tokenEqualPair hd

theorem accounts_tokenCompactPair : AccountsToken st t false (st.tokenCompactPair t) := by
  grind [tokenCompactPair, accountsToken_colonPair, accounts_tokenForcedColon]

theorem accountsToken_rest {n : Nat} (hb : Bound t.rawToken n)
    {c : TokenCall} (hc : c.rawToken = t.rawToken.drop n) (hcd : c.depth = t.depth + 1)
    {k : Bool → Scan Num Bool}
    (hk : ∀ r, Accounts st.ledger (.processTokenLogic t) (utf8Valid t.rawToken = true) (fun _ => True)
      false (k r) []) :
    AccountsToken st t false (do
      Prog.write (t.rawToken.take n)
      let r ← enter (.processTokenLogic c)
      k r) := by
  refine Accounts.of_eq (.write hb.cut_take.valid (accounts_token hd hb.cut_drop hb.cut_drop.valid hc hcd hk)) ?_
  simp

theorem accounts_tokenLogPrefix : AccountsToken st t false (st.tokenLogPrefix t) := by
  unfold tokenLogPrefix
  simp only
  split
  · next h =>
    simp only [Bool.and_eq_true, decide_eq_true_eq] at h
    have hb := bound_pythonLogPrefixEnd h.2
    split
    · next hlen =>
      rw [beq_iff_eq] at hlen
      rw [hlen, List.take_length]
      exact accountsToken_write
    exact accountsToken_rest hd hb rfl rfl fun _ => .pure trivial
  exact accounts_tokenCompactPair hd

theorem accounts_tokenTimestamp : AccountsToken st t false (st.tokenTimestamp t) := by
  unfold tokenTimestamp
  split
  · exact accountsToken_write
  exact accounts_tokenLogPrefix hd

theorem accounts_tokenTelegram : AccountsToken st t false (st.tokenTelegram t) := by
  unfold tokenTelegram
  simp only
  split
  · exact accountsToken_single (.inr rfl)
  split
  · exact Accounts.of_eq ((accounts_urlPath id).bind_clean fun _ _ => .pure trivial) (List.append_nil _)
  exact accounts_tokenTimestamp hd

theorem accountsToken_quoted (hq : isBalancedQuoted t.rawToken = true) : AccountsToken st t false (do
      Prog.write (t.rawToken.take 1)
      let _ ← enter (.scanSegment (slice t.rawToken 1 (t.rawToken.length - 1)) (t.depth + 1))
      Prog.write (t.rawToken.take 1)
      return false) := by
  have hparts := parts_quoted hq
  have hquote := (hparts.cut (t.rawToken.take 1) (by simp)).valid
  have hin := hparts.cut (slice t.rawToken 1 (t.rawToken.length - 1)) (by simp)
  refine Accounts.of_eq (.write hquote ?_) hparts.eq.symm
  refine (accounts_enter _ ?_ hin.valid rfl).bind_clean fun _ _ => .write hquote (.pure trivial)
  exact .deeper (f := .processTokenLogic t) hd (.segment hin)

theorem accounts_tokenURL : AccountsToken st t false (st.tokenURL t) := by
  unfold tokenURL
  split
  · exact accounts_tokenTelegram hd
  · next hurl =>
    split
    · next hphrase =>
      split
      · exact accountsToken_single (.inr rfl)
      simp only [isQuotedPhrase, Bool.and_eq_true] at hphrase
      exact accountsToken_quoted hd hphrase.1.1.1
    split
    · next hpair => exact accountsToken_rest hd (bound_phrasePair hpair) rfl rfl fun _ => .pure trivial
    · next hassign =>
      exact accountsToken_rest hd (bound_phraseAssignment hassign) rfl rfl fun _ => .pure trivial
    have hm : st.masksToken t.rawToken = true := by
      simp only [Bool.not_eq_true', Bool.not_eq_false, Bool.or_eq_true] at hurl
      simp only [masksToken, Bool.or_eq_true]
      rcases hurl with h | h <;> simp [h]
    refine Accounts.of_eq ((accounts_enter _ (.mask hd hm) id rfl).bind_clean fun _ _ => .pure trivial)
      (List.append_nil _)

theorem accounts_tokenChain : AccountsToken st t false (st.tokenChain t) := by
  unfold tokenChain
  split
  · exact accounts_tokenURL hd
  split
  · next hq =>
    simp only [isQuotedChain, Bool.and_eq_true] at hq
    exact accountsToken_quoted hd hq.1.1
  split
  · next k v hkv =>
    split
    · have hparts := parts_compactPair hkv
      have hval := hparts.cut (t.rawToken.drop (k.length + 3)) (by simp)
      refine Accounts.of_eq (.write (hparts.cut _ (by simp)).valid (.write (fun _ => rfl) ?_))
        hparts.eq.symm
      exact accounts_token hd hval hval.valid rfl rfl fun _ => .pure trivial
    exact accounts_tokenURL hd
  exact accounts_tokenURL hd

theorem accounts_tokenBytesLiteral : AccountsToken st t false (st.tokenBytesLiteral t) := by
  unfold tokenBytesLiteral
  split
  · next hb =>
    have hparts := parts_bytesLiteral hb
    have hin := hparts.cut (slice t.rawToken 2 (t.rawToken.length - 1)) (by simp)
    have hend : Accounts st.ledger (.processTokenLogic t) (utf8Valid t.rawToken = true) (fun _ => True)
        false (Prog.write (slice t.rawToken 1 2) >>= fun _ => pure false) (slice t.rawToken 1 2 ++ []) :=
      .write (hparts.cut _ (by simp)).valid (.pure trivial)
    refine Accounts.of_eq (.write (hparts.cut _ (by simp)).valid ?_) hparts.eq.symm
    simp only
    split
    · exact (accounts_single (.inl rfl) _ _ _ hin.valid).bind_clean fun _ _ => hend
    split
    · exact (accounts_blob _ hin.valid).bind_clean fun _ _ => hend
    refine (accounts_enter _ ?_ hin.valid rfl).bind_clean fun _ _ => hend
    exact .deeper (f := .processTokenLogic t) hd (.segment hin)
  exact accounts_tokenChain hd

end Nesting

theorem singleTokenAction_of_keepsForced {content : Bytes} (h : st.keepsForced content = true)
    (b : BaselineStats Num) (original : Bytes) (contextSensitive autoQuote : Bool) :
    st.singleTokenAction b content original true contextSensitive autoQuote = .keep none := by
  simp only [keepsForced, Bool.or_eq_true] at h
  unfold singleTokenAction
  rcases h with (h | h) | h <;> simp [h]

theorem singleTokenAction_of_not_keepsForced {content : Bytes} (h : st.keepsForced content = false)
    (b : BaselineStats Num) (original : Bytes) (contextSensitive autoQuote : Bool) :
    ∃ q m e, st.singleTokenAction b content original true contextSensitive autoQuote = .redact q m e := by
  simp only [keepsForced, Bool.or_eq_false_iff] at h
  unfold singleTokenAction
  simp only [h, Bool.or_self, Bool.not_true, Bool.false_and, Bool.false_eq_true, if_false, if_true]
  split
  · exact ⟨_, _, _, rfl⟩
  · exact ⟨_, _, _, rfl⟩
  exact ⟨_, _, _, rfl⟩

theorem accounts_forcedLiteral {inner : Bytes} (hj : escapedJSONString t.rawToken = some inner)
    (hback : st.writesBack t = st.keepsForced inner) :
    AccountsToken st t (st.writesBack t) (do
      Prog.write [dquote]
      st.processSingleToken inner inner true t.contextSensitive false
      Prog.write [dquote]
      return false) := by
  have heq := (escapedJSONString_eq hj).1
  generalize slice t.rawToken 1 (t.rawToken.length - 1) = body at heq
  refine Accounts.of_eq (t := [dquote] ++ (body ++ ([dquote] ++ []))) ?_ (by simpa using heq.symm)
  refine .write (fun _ => rfl) (.get fun b => ?_)
  beta_reduce
  cases hk : st.keepsForced inner with
  | true =>
    rw [singleTokenAction_of_keepsForced hk, hback, hk]
    exact .replace (L := st.ledger) ⟨hback.trans hk, by simpa using heq, hj, rfl⟩ (fun _ => rfl)
      (.pure trivial)
  | false =>
    have hframed : (st.singleTokenAction b inner inner true t.contextSensitive false).Framed :=
      framed_singleTokenAction ..
    have hhides : (st.singleTokenAction b inner inner true t.contextSensitive false).Hides st
        (.processTokenLogic t) inner := hides_singleTokenAction (.inl rfl) ..
    obtain ⟨q, m, e, hact⟩ := singleTokenAction_of_not_keepsForced hk b inner t.contextSensitive false
    rw [hact] at hframed hhides ⊢
    have hdecodes : (Frame.processTokenLogic t).decodes = true := by
      rw [Frame.decodes, hj]
      rfl
    exact .hide (L := st.ledger) hframed.1 hframed.2 ⟨hhides.1, .inl hdecodes⟩
      (.emit (fun _ => rfl) (.pure trivial))

theorem accounts_tokenJSONLiteral (hd : t.depth ≤ maxTokenRecursionDepth)
    (hback : st.writesBack t = (t.forcedSensitive && (escapedJSONString t.rawToken).any st.keepsForced)) :
    AccountsToken st t (st.writesBack t) (st.tokenJSONLiteral t) := by
  unfold tokenJSONLiteral
  split
  · next hj =>
    rw [hback, hj]
    simpa using accounts_tokenBytesLiteral hd
  · next inner hj =>
    rw [hj, Option.any_some] at hback
    split
    · next hf =>
      rw [hf, Bool.true_and] at hback
      exact accounts_forcedLiteral hj hback
    · next hf =>
      have hcut := cut_escapedJSONString hj
      rw [hback, Bool.eq_false_iff.mpr hf, Bool.false_and]
      refine Accounts.of_eq ?_ (List.append_nil t.rawToken)
      exact .capture (L := st.ledger) (f := .scanLine inner (t.depth + 1))
        (.deeper (f := .processTokenLogic t) hd (.line hcut)) hj id fun _ _ => .pure trivial

theorem accounts_tokenMarker (hd : t.depth ≤ maxTokenRecursionDepth)
    (hw : escapedOrBacktickWrap t.rawToken = none) :
    AccountsToken st t (st.writesBack t) (st.tokenMarker t) := by
  have hback : st.writesBack t = (st.passesMarker t.rawToken &&
      (t.forcedSensitive && (escapedJSONString t.rawToken).any st.keepsForced)) := by
    simp [writesBack, hd, hw, Bool.and_assoc]
  unfold tokenMarker
  split
  · next h => exact accounts_tokenJSONLiteral hd (by simpa [passesMarker, h] using hback)
  · next h =>
    have h : contains t.rawToken (bs "[HIDDEN") = true := by simpa using h
    split
    · next hp =>
      have hm : st.masksToken t.rawToken = true := by grind [Option.any_eq_true, masksToken]
      have hb : st.writesBack t = false := by
        rw [hback]
        simp [passesMarker, h, hp]
      rw [hb]
      exact Accounts.of_eq ((accounts_enter _ (.mask hd hm) id rfl).bind_clean fun _ _ => .pure trivial)
        (List.append_nil _)
    · next hp =>
      split
      · next hr =>
        have hb : st.writesBack t = false := by simp [hback, passesMarker, h, hr]
        rw [hb]
        exact accountsToken_write
      · next hr =>
        split
        · next hq =>
          have hb : st.writesBack t = false := by simp_all [passesMarker, isQuote]
          rw [hb]
          refine Accounts.of_eq (Accounts.bind_clean (accounts_enter (.scanLine t.rawToken (t.depth + 1))
            (.deeper (f := .processTokenLogic t) hd (.line (.refl _))) id rfl) fun _ _ => .pure trivial)
            (List.append_nil _)
        · next hq =>
          refine accounts_tokenJSONLiteral hd ?_
          rw [hback, passesMarker, h, Bool.eq_false_iff.mpr hp, Bool.eq_false_iff.mpr hr,
            (by simpa using hq : t.rawToken.any isQuote = true)]
          simp

theorem accounts_tokenLogic (t : TokenCall) : AccountsToken st t (st.writesBack t) (st.processTokenLogic t) := by
  unfold processTokenLogic
  split
  · next hd =>
    have hb : st.writesBack t = false := by
      rw [writesBack, decide_eq_false (Nat.not_le.mpr hd)]
      simp
    rw [hb]
    exact accountsToken_single (.inr rfl)
  · next hd =>
    have hd : t.depth ≤ maxTokenRecursionDepth := Nat.le_of_not_lt hd
    split
    · next pre post hw =>
      have hb : st.writesBack t = false := by simp [writesBack, hw]
      rw [hb]
      have hparts := parts_wrap hw
      have hin := hparts.cut (slice t.rawToken pre (t.rawToken.length - post)) (by simp)
      refine Accounts.of_eq (.write (hparts.cut _ (by simp)).valid
        (accounts_token hd hin hin.valid rfl rfl fun _ => .write ?_ (.pure trivial))) hparts.eq.symm
      exact (hparts.cut _ (by simp)).valid
    · next hw => exact accounts_tokenMarker hd hw

end PiiShield
