import PiiShield.ScanLedger

/-! Masking a URL accounts for it: its path, its query, its password and what is left to
scan are the URL, and masking panics only on nothing but closing punctuation. -/

namespace PiiShield

open ConfigState

variable {Num : Type} {st : ConfigState Num} {self : Frame} {clean : Prop}

abbrev AccountsText (st : ConfigState Num) (self : Frame) (clean : Prop) (p : Scan Num Unit) (t : Bytes) : Prop :=
  Accounts st.ledger self clean (fun _ => True) false p t

theorem accounts_urlSegment {seg : Bytes} (hv : clean → utf8Valid seg = true) :
    AccountsText st self clean (st.writeURLSegment seg) seg := by
  have hb := bound_pathSignature seg
  unfold writeURLSegment
  generalize urlPathSignature seg = k at hb
  obtain ⟨keep, label⟩ := k
  simp only
  split
  · split
    · exact .place_only hides_whole
    exact .write_only hv
  have h : AccountsText st self clean
      (Prog.write (seg.take keep) >>= fun _ => .place ⟨seg.drop keep, st.entityLabel label, .signature⟩)
      (seg.take keep ++ seg.drop keep) :=
    .write (fun hc => (hb (hv hc)).1) (.place_only hides_whole)
  exact h.of_eq (List.take_append_drop keep seg)

theorem accounts_separated {c : UInt8} (hc : isASCII c = true) {act : Bytes → Scan Num Unit} {ps : List Bytes}
    (hact : ∀ p ∈ ps, AccountsText st self clean (act p) p) :
    AccountsText st self clean (separated [c] act ps) ([c].intercalate ps) := by
  match ps with
  | [] => exact .pure trivial
  | [p] => simpa [separated, List.intercalate] using hact p (by simp)
  | p :: q :: ps =>
    rw [intercalate_cons]
    refine (hact p (by simp)).bind_clean fun _ _ => .write (fun _ => ?_) ?_
    · show utf8Valid [c] = true
      rw [utf8Valid_ascii_cons hc, utf8Valid_nil]
    exact accounts_separated hc fun x hx => hact x (by simp [hx])

theorem accounts_urlPath {path : Bytes} (hv : clean → utf8Valid path = true) :
    AccountsText st self clean (st.writeURLPath path) path := by
  unfold writeURLPath
  split
  · exact .write_only hv
  have h : AccountsText st self clean
      (separated [chr '/'] st.writeURLSegment (List.splitOn (chr '/') path))
      ([chr '/'].intercalate (List.splitOn (chr '/') path)) :=
    accounts_separated (by decide) fun p hp =>
      accounts_urlSegment fun hc => (cut_of_mem_splitOn (by decide) hp).valid (hv hc)
  exact h.of_eq (List.intercalate_splitOn _)

theorem hides_urlParam {key val : Bytes} {m : Mark} (h : st.urlParamMark key val = some m) :
    st.ledger.hides self m val [] [] := by
  have hm : ∃ label strategy, m = ⟨val, st.entityLabel label, strategy⟩ := by
    unfold urlParamMark at h
    simp only at h
    repeat' split at h
    all_goals first | exact ⟨_, _, (Option.some.inj h).symm⟩ | cases h
  obtain ⟨label, strategy, rfl⟩ := hm
  exact hides_whole

theorem accounts_urlParam {param : Bytes} (hv : clean → utf8Valid param = true) :
    AccountsText st self clean (st.writeURLParam param) param := by
  unfold writeURLParam
  split
  · exact .write_only hv
  · next key val hcut =>
    have hparts := parts_equals hcut
    split
    · exact .write_only hv
    · next m hm =>
      refine Accounts.of_eq (.write (fun hc => ?_) (.place_only (hides_urlParam hm))) (t := key ++ bs "=" ++ val) ?_
      · exact utf8Valid_append ((hparts.cut key (by simp)).valid (hv hc)) rfl
      simpa using hparts.eq.symm

theorem accounts_urlSection {sect : Bytes} (hv : clean → utf8Valid sect = true) :
    AccountsText st self clean (st.writeURLSection sect) sect := by
  have h : AccountsText st self clean
      (separated [chr '&'] st.writeURLParam (List.splitOn (chr '&') sect))
      ([chr '&'].intercalate (List.splitOn (chr '&') sect)) :=
    accounts_separated (by decide) fun p hp =>
      accounts_urlParam fun hc => (cut_of_mem_splitOn (by decide) hp).valid (hv hc)
  exact h.of_eq (List.intercalate_splitOn _)

theorem accounts_urlSections {ss : List Bytes} (hv : ∀ s ∈ ss, clean → utf8Valid s = true) :
    AccountsText st self clean (st.writeURLSections ss) (ss.flatMap fun s => bs "?" ++ s) := by
  induction ss with
  | nil => exact .pure trivial
  | cons s ss ih =>
    rw [List.flatMap_cons, List.append_assoc]
    refine .write (fun _ => rfl) ((accounts_urlSection (hv s (by simp))).bind_clean fun _ _ => ?_)
    exact ih fun x hx => hv x (by simp [hx])

theorem intercalate_eq_flatMap (sep p : Bytes) (ps : List Bytes) :
    sep.intercalate (p :: ps) = p ++ ps.flatMap fun s => sep ++ s := by
  induction ps generalizing p with
  | nil => simp [List.intercalate]
  | cons q ps ih => rw [intercalate_cons, ih, List.flatMap_cons, List.append_assoc]

theorem accounts_urlQuery {url : Bytes} (hv : clean → utf8Valid url = true) :
    AccountsText st self clean (st.writeURLQuery url) url := by
  have heq : [chr '?'].intercalate (List.splitOn (chr '?') url) = url := List.intercalate_splitOn _
  have hcut (p : Bytes) (hp : p ∈ List.splitOn (chr '?') url) : clean → utf8Valid p = true :=
    fun hc => (cut_of_mem_splitOn (by decide) hp).valid (hv hc)
  unfold writeURLQuery
  generalize List.splitOn (chr '?') url = ps at heq hcut
  match ps with
  | [] =>
    obtain rfl : [] = url := heq
    exact .pure trivial
  | path :: sections =>
    rw [intercalate_eq_flatMap] at heq
    refine Accounts.of_eq (t := path ++ sections.flatMap fun s => bs "?" ++ s) ?_ heq
    refine (accounts_urlPath (hcut path (by simp))).bind_clean fun _ _ => accounts_urlSections ?_
    exact fun s hs => hcut s (by simp [hs])

theorem accounts_urlSecret {pw : Bytes} (hv : clean → utf8Valid pw = true) :
    AccountsText st self clean (st.writeURLSecret pw) pw := by
  unfold writeURLSecret
  split
  · exact .write_only hv
  split <;> exact .place_only hides_whole

theorem contains_lt_closingTail {url : Bytes} (h : url.contains (chr '?') = true) : 0 ≤ urlClosingTail url := by
  rcases urlClosingTail_spec url with h' | ⟨n, h', -⟩ | ⟨-, h'⟩
  · omega
  · omega
  exfalso
  have := List.all_eq_true.mp h' _ (by simpa using h)
  exact absurd this (by decide)

theorem accounts_mask (url : Bytes) (depth : Nat) :
    Accounts st.ledger (.maskURLParameters url depth) (utf8Valid url = true) (fun _ => True) false
      (st.maskURLParameters url depth) url := by
  unfold maskURLParameters
  split
  · next i j hp =>
    have hparts := parts_password hp
    refine Accounts.of_eq (t := [url.take i, slice url i j, url.drop j].flatten) ?_ hparts.eq.symm
    refine .write (hparts.cut _ (by simp)).valid
      ((accounts_urlSecret (hparts.cut _ (by simp)).valid).bind_clean fun _ _ => ?_)
    rw [List.flatten_cons, List.flatten_nil, List.append_nil]
    exact accounts_enter _ (.maskCut (.password hp)) (hparts.cut _ (by simp)).valid rfl
  · next hp =>
    simp only
    split
    · next hq =>
      split
      · next ht =>
        have ht : urlClosingTail url < 0 ∨ url.length < urlClosingTail url := by simpa using ht
        refine .panic ?_
        rcases urlClosingTail_spec url with h | ⟨n, h, hn, -⟩ | ⟨-, h⟩
        · omega
        · omega
        exact h
      · next ht =>
        obtain ⟨n, hn⟩ := Int.eq_ofNat_of_zero_le (show 0 ≤ urlClosingTail url by
          simp only [Bool.or_eq_true, decide_eq_true_eq, not_or] at ht
          omega)
        have hb := bound_closingTail hn
        rw [hn, Int.toNat_natCast]
        refine Accounts.of_eq ?_ (List.take_append_drop n url)
        exact (accounts_urlPath hb.cut_take.valid).bind_clean fun _ _ => .write_only hb.cut_drop.valid
    · next hq =>
      have hq : url.contains (chr '?') = true := by simpa using hq
      split
      · next hlt =>
        split
        · next hneg => exact absurd (contains_lt_closingTail hq) (by omega)
        · next hneg =>
          obtain ⟨n, hn⟩ := Int.eq_ofNat_of_zero_le (show 0 ≤ urlClosingTail url by omega)
          have hb := bound_closingTail hn
          rw [hn, Int.toNat_natCast]
          refine Accounts.of_eq ?_ (List.take_append_drop n url)
          refine (accounts_enter _ (.maskCut (.tail hp hq hn (by omega))) hb.cut_take.valid
            rfl).bind_clean fun _ _ => .write_only hb.cut_drop.valid
      · next hlt =>
        split
        · next i hi =>
          obtain ⟨hlen, hc⟩ := indexWhitespace_eq hi
          have hb : Bound url i := .at_ascii hlen (isASCII_of_isBlank hc)
          refine Accounts.of_eq ?_ (List.take_append_drop i url)
          refine (accounts_enter _ (.maskCut (.blank hp hq hlt hi)) hb.cut_take.valid
            rfl).bind_clean fun _ _ => ?_
          exact accounts_discard _ (.maskRest hi) hb.cut_drop.valid rfl
        exact accounts_urlQuery id

end PiiShield
