import PiiShield.ScanLedger

/-! The pair functions account for the token they handle: its quotes, its key, its
separator and its value. -/

namespace PiiShield

open ConfigState

variable {Num : Type} {st : ConfigState Num} {self : Frame} {clean : Prop} {α : Type} {ok : α → Prop}
  {d : Bool}

theorem accounts_inner {u t : Bytes} {k : Unit → Scan Num α} (hn : self.Nests) (hu : Cut self.arg u)
    (hv : clean → utf8Valid u = true) (hk : Accounts st.ledger self clean ok d (k ()) t) :
    Accounts st.ledger self clean ok d
      (if startsWithProductToken u then enter (.scanUserAgent u (self.depth + 1)) >>= k
        else enter (.scanSegment u (self.depth + 1)) >>= fun _ => k ()) (u ++ t) := by
  split
  · exact (accounts_enter _ (.deeper hn (.agent hu)) hv rfl).bind_clean fun _ _ => hk
  exact (accounts_enter _ (.deeper hn (.segment hu)) hv rfl).bind_clean fun _ _ => hk

theorem accounts_token {u t : Bytes} {c : TokenCall} {k : Bool → Scan Num α} (hn : self.Nests)
    (hu : Cut self.arg u) (hv : clean → utf8Valid u = true) (hc : c.rawToken = u)
    (hd : c.depth = self.depth + 1) (hk : ∀ r, Accounts st.ledger self clean ok d (k r) t) :
    Accounts st.ledger self clean ok d (enter (.processTokenLogic c) >>= k) (u ++ t) := by
  subst hc
  exact (accounts_enter _ (.deeper hn (.token hu hd)) hv rfl).bind_clean fun r _ => hk r

/-- The pair function that handles `raw` writes `t` of it and says that it did. -/
abbrev AccountsPair (st : ConfigState Num) (self : Frame) (raw : Bytes) (p : Scan Num (Bool × Bool)) (t : Bytes) :
    Prop :=
  Accounts st.ledger self (utf8Valid raw = true) (fun r => r.2 = true) false p t

theorem accounts_of_text {f : Frame} {t : Bytes} {ok : (scanSig Num).Ret f → Prop} {p : Scan Num ((scanSig Num).Ret f)}
    (ht : st.ledger.text f = t) (hp : Accounts st.ledger f (utf8Valid t = true) ok false p t)
    (hok : ∀ r, ok r → st.ledger.answers f r) :
    Accounts st.ledger f (st.ledger.valid (st.ledger.text f)) (st.ledger.answers f) false p (st.ledger.text f) := by
  rw [ht]
  exact hp.weaken hok

section EqualPair

variable {raw : Bytes} {forced override : Bool} {depth : Nat}

theorem accounts_quotedEqualPair {key val : Bytes} (hq : isBalancedQuoted raw = true)
    (hcut : cut (trimQuotes raw) (bs "=") = some (key, val)) :
    AccountsPair st (.processEqualPair raw forced override depth) raw
      (st.quotedEqualPair (raw.take 1) (trimQuotes raw) key val forced override depth) raw := by
  have hparts := parts_quoted hq
  rw [← trimQuotes_of_balanced hq] at hparts
  have hquote := (hparts.cut (raw.take 1) (by simp)).valid
  have htrim := hparts.cut (trimQuotes raw) (by simp)
  have hpair := parts_equals hcut
  have hkey := htrim.trans (hpair.cut key (by simp))
  have hval := htrim.trans (hpair.cut val (by simp))
  have hn : (Frame.processEqualPair raw forced override depth).Nests := trivial
  unfold quotedEqualPair
  split
  · refine Accounts.of_eq ?_ hparts.eq.symm
    exact .write hquote ((accounts_single (.inl rfl) _ _ _ htrim.valid).bind_clean fun _ _ =>
      .write hquote (.pure rfl))
  split
  · refine Accounts.of_eq ?_ hparts.eq.symm
    exact .write hquote (accounts_inner hn htrim htrim.valid (.write hquote (.pure rfl)))
  have heq : raw.take 1 ++ (key ++ (bs "=" ++ (val ++ (raw.take 1 ++ [])))) = raw := by
    conv_rhs => rw [hparts.eq, hpair.eq]
    simp
  refine Accounts.of_eq (.write hquote ((accounts_keyHalf hkey.valid).bind_clean fun _ _ =>
    .write (fun _ => rfl) ?_)) heq
  have hend (b : Bool) : AccountsPair st (.processEqualPair raw forced override depth) raw
      (Prog.write (raw.take 1) >>= fun _ => pure (b, true)) (raw.take 1 ++ []) :=
    .write hquote (.pure rfl)
  simp only
  split
  · exact (accounts_single (.inl rfl) _ _ _ hval.valid).bind_clean fun _ _ => hend _
  split
  · exact (accounts_enter _ (.deeper hn (.line hval)) hval.valid rfl).bind_clean fun _ _ => hend _
  split
  · exact accounts_token hn hval hval.valid rfl rfl fun _ => hend _
  exact (accounts_enter _ (.deeper hn (.line hval)) hval.valid rfl).bind_clean fun _ _ => hend _

theorem accounts_bareEqualPair {key val : Bytes} (hcut : cut raw (bs "=") = some (key, val)) :
    AccountsPair st (.processEqualPair raw forced override depth) raw
      (st.bareEqualPair key val override depth) raw := by
  have hpair := parts_equals hcut
  have hkey := hpair.cut key (by simp)
  have hval := hpair.cut val (by simp)
  have hn : (Frame.processEqualPair raw forced override depth).Nests := trivial
  refine Accounts.of_eq ((accounts_keyHalf hkey.valid).bind_clean fun _ _ =>
    .write (fun _ => rfl) ?_) hpair.eq.symm
  split
  · exact accounts_token hn hval hval.valid rfl rfl fun _ => .pure rfl
  split
  · exact accounts_token hn hval hval.valid rfl rfl fun _ => .pure rfl
  exact (accounts_single (.inl rfl) _ _ _ hval.valid).bind_clean fun _ _ => .pure rfl

theorem accounts_equalPair (raw : Bytes) (forced override : Bool) (depth : Nat) :
    Accounts st.ledger (.processEqualPair raw forced override depth)
      (st.ledger.valid (st.ledger.text (.processEqualPair raw forced override depth)))
      (st.ledger.answers (.processEqualPair raw forced override depth)) false
      (st.processEqualPair raw forced override depth)
      (st.ledger.text (.processEqualPair raw forced override depth)) := by
  have hno (h : equalPairHandled raw forced = false) :=
    @accounts_of_text Num st (.processEqualPair raw forced override depth) [] _ _
      (by simp [ConfigState.ledger, h]) (.pure rfl) fun r (hr : (false, false) = r) => hr ▸ h.symm
  have hyes (h : equalPairHandled raw forced = true) {p : Scan Num (Bool × Bool)}
      (hp : AccountsPair st (.processEqualPair raw forced override depth) raw p raw) :=
    accounts_of_text (by simp [ConfigState.ledger, h]) hp fun r hr => hr.trans h.symm
  unfold processEqualPair
  split
  · next hc => exact hno (by simp [equalPairHandled, hc])
  · next key val hc =>
    split
    · next hb => exact hno (by simp [equalPairHandled, hc, hb])
    · next hb =>
      split
      · next hf => exact hno (by simp [equalPairHandled, hc, hb, hf])
      · next hf =>
        split
        · next hq =>
          simp only
          split
          · next hb' =>
            refine hyes (by simp [equalPairHandled, hc, hb, hf, hq, hb']) ?_
            have hparts := parts_quoted hq
            rw [← trimQuotes_of_balanced hq] at hparts
            have hquote := (hparts.cut (raw.take 1) (by simp)).valid
            refine Accounts.of_eq ?_ hparts.eq.symm
            exact .write hquote ((accounts_single (.inl rfl) _ _ _ (hparts.cut _ (by simp)).valid).bind_clean
              fun _ _ => .write hquote (.pure rfl))
          · next hb' =>
            split
            · next hc' =>
              exact hno (by simp [equalPairHandled, hc, hb, hf, hq, hc']; simpa using hb')
            · next hc' =>
              exact hyes (by simp [equalPairHandled, hc, hb, hf, hq, hc']) (accounts_quotedEqualPair hq hc')
        · next hq => exact hyes (by simp [equalPairHandled, hc, hb, hf, hq]) (accounts_bareEqualPair hc)

end EqualPair

section ColonPair

variable {raw : Bytes} {override : Bool} {depth : Nat}

theorem accounts_colonKey {key : Bytes} {keySensitive : Bool} {i : Nat} (hi : colonIndex raw = some i)
    (hval : raw.drop (i + 1) = []) (hkey : key = trimQuotes (raw.take i)) :
    AccountsPair st (.processColonPair raw override depth) raw (st.colonKey raw (raw.take i) key keySensitive) raw := by
  have hparts := parts_colon hi
  have hraw := hparts.cut (raw.take i) (by simp)
  have heq : raw.take i ++ (bs ":" ++ []) = raw := by
    conv_rhs => rw [hparts.eq, hval]
    simp
  have hend (b : Bool) : AccountsPair st (.processColonPair raw override depth) raw
      (Prog.write (bs ":") >>= fun _ => pure (b, true)) (bs ":" ++ []) :=
    .write (fun _ => rfl) (.pure rfl)
  unfold colonKey
  split
  · exact ((accounts_single (.inr hkey) _ _ _ hraw.valid).bind_clean fun _ _ => hend _).of_eq heq
  split
  · next h =>
    simp only [Bool.and_eq_true, beq_iff_eq] at h
    refine Accounts.of_eq ?_ heq
    rw [h.1.1]
    exact (accounts_keyHalf fun hv => h.1.1 ▸ hraw.valid hv).bind_clean fun _ _ => hend _
  exact Accounts.of_eq (.write id (.pure rfl)) (List.append_nil raw)

theorem accounts_colonPair (raw : Bytes) (override : Bool) (depth : Nat) :
    Accounts st.ledger (.processColonPair raw override depth)
      (st.ledger.valid (st.ledger.text (.processColonPair raw override depth)))
      (st.ledger.answers (.processColonPair raw override depth)) false
      (st.processColonPair raw override depth)
      (st.ledger.text (.processColonPair raw override depth)) := by
  have hno (h : colonPairHandled raw = false) :=
    @accounts_of_text Num st (.processColonPair raw override depth) [] _ _
      (by simp [ConfigState.ledger, h]) (.pure rfl) fun r (hr : (false, false) = r) => hr ▸ h.symm
  have hyes (h : colonPairHandled raw = true) {p : Scan Num (Bool × Bool)}
      (hp : AccountsPair st (.processColonPair raw override depth) raw p raw) :=
    accounts_of_text (by simp [ConfigState.ledger, h]) hp fun r hr => hr.trans h.symm
  unfold processColonPair
  split
  · next hc => exact hno (by simp [colonPairHandled, hc])
  · next hc =>
    split
    · next hi => exact hno (by simp [colonPairHandled, hi])
    · next i hi =>
      refine hyes (by simp [colonPairHandled, hi, hc]) ?_
      have hparts := parts_colon hi
      have hraw := hparts.cut (raw.take i) (by simp)
      have hval := hparts.cut (raw.drop (i + 1)) (by simp)
      have heq := hparts.eq.symm
      simp only
      split
      · exact Accounts.of_eq (.write id (.pure rfl)) (List.append_nil raw)
      split
      · next he => exact accounts_colonKey hi (List.isEmpty_iff.mp he) rfl
      split
      · refine Accounts.of_eq ((accounts_single (.inr rfl) _ _ _ hraw.valid).bind_clean fun _ _ =>
          .write (fun _ => rfl) ((accounts_single (.inl rfl) _ _ _ hval.valid).bind_clean fun _ _ => ?_)) heq
        exact .pure rfl
      refine Accounts.of_eq (.write hraw.valid (.write (fun _ => rfl) ?_)) heq
      exact accounts_token trivial hval hval.valid rfl rfl fun _ => .pure rfl

end ColonPair

end PiiShield
