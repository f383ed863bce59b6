import PiiShield.UrlRange

/-! A line in which nothing is hidden comes back as it was, up to two departures: a forced
JSON literal that is written back decoded, and a quote that two carves share. -/

namespace PiiShield

open ConfigState

variable {Num : Type}

theorem backslash_mem_of_escapedJSONString {u x : Bytes}
    (h : escapedJSONString (dquote :: (u ++ [dquote])) = some x) : backslash ∈ u := by
  unfold escapedJSONString at h
  split at h
  · simp at h
  · next hq =>
    simp only [Bool.or_eq_true, Bool.not_eq_true', not_or, Bool.not_eq_false, contains] at hq
    obtain ⟨k, hk⟩ := Option.isSome_iff_exists.mp hq.2
    have hm : backslash ∈ dquote :: (u ++ [dquote]) := mem_of_index hk (by simp)
    have hne : backslash ≠ dquote := by decide
    simpa [hne] using hm

theorem diverge_of_replaces {st : ConfigState Num} {f : Frame} {u o c : Bytes}
    (h : st.ledger.replaces f u o c) (hv : utf8Valid (st.ledger.text f) = true) :
    utf8Valid o = true ∧ ∀ x y, Diverge (o ++ (c ++ x)) (u ++ (c ++ y)) := by
  cases f with
  | processTokenLogic t =>
    obtain ⟨-, htok, hesc, rfl⟩ := h
    have hv : utf8Valid t.rawToken = true := hv
    rw [htok] at hesc hv
    rw [utf8Valid_ascii_cons (by decide)] at hv
    have hu : utf8Valid u = true := ((utf8Valid_append_ascii_cons (by decide) u []).mp hv).1
    obtain ⟨-, hx⟩ := escapedJSONString_eq hesc
    have hslice : slice (dquote :: (u ++ [dquote])) 1 ((dquote :: (u ++ [dquote])).length - 1) = u := by
      simp [slice]
    rw [hslice] at hx
    exact ⟨(unquoteFrom_spec hx).1, fun x y =>
      diverge_decoded hu hx (backslash_mem_of_escapedJSONString hesc) x y⟩
  | scanLine line depth =>
    obtain ⟨rfl, ⟨q, hq, rfl⟩, hc, -⟩ := h
    refine ⟨utf8Valid_ascii (by simp [isASCII_of_isQuote hq]), fun x y => ?_⟩
    cases c with
    | nil => simp [firstIs] at hc
    | cons d c =>
      refine Diverge.of_cons ?_ _ _
      rintro rfl
      have hd : isNumberStart q = true := by simpa [firstIs] using hc
      simp only [isQuote, Bool.or_eq_true, beq_iff_eq] at hq
      rcases hq with rfl | rfl <;> exact absurd hd (by decide)
  | _ => exact h.elim

theorem lawful_ledger (st : ConfigState Num) : st.ledger.Lawful where
  nil := utf8Valid_nil
  append := utf8Valid_append
  repair := toValidUTF8_of_valid
  replaces := diverge_of_replaces
  decoded h := (unquoteFrom_spec (escapedJSONString_eq h).2).1
  quote _ := utf8Valid_jsonQuote _
  encodes h hv hne := diverge_jsonQuote h hv hne

theorem body_of_panics {st : ConfigState Num} {f : Frame} (h : st.panics f) : st.machine.body f = .panic := by
  cases f with
  | maskURLParameters url depth =>
    have h : url.all isClosing = true := h
    have hpw : urlPassword st.unicode url = none := by
      by_contra hp
      obtain ⟨⟨i, j⟩, hp⟩ := Option.ne_none_iff_exists'.mp hp
      obtain ⟨-, hj, hat, -⟩ := urlPassword_spec hp
      have hm : chr '@' ∈ url := by
        rw [← hat, byteAt_eq hj]
        exact List.getElem_mem hj
      rw [not_all_isClosing_of_mem (by decide) hm] at h
      exact Bool.false_ne_true h
    have hq : url.contains (chr '?') = false := by
      by_contra hq
      rw [not_all_isClosing_of_mem (c := chr '?') (by decide) (by simpa using hq)] at h
      exact Bool.false_ne_true h
    show st.maskURLParameters url depth = .panic
    simp only [ConfigState.maskURLParameters, hpw, hq, urlClosingTail_of_all_isClosing h]
    rfl
  | processAndAppend token s depth =>
    show st.processAndAppend token s depth = .panic
    simp only [ConfigState.processAndAppend, h.1, h.2]
  | _ => exact h.elim

theorem scan_ok_iff (st : ConfigState Num) (b : BaselineStats Num) (line : Bytes) :
    (st.scanAndRedact b line).res = .ok () ↔
      ∀ f g c, Event.call f g c ∈ (st.scanAndRedact b line).log → ¬ st.panics g := by
  constructor
  · intro hres f g c he hp
    exact Machine.run_ne_ok he (body_of_panics hp) hres
  intro h
  cases hr : (st.scanAndRedact b line).res with
  | ok _ => rfl
  | error e =>
    exfalso
    cases e with
    | outOfFuel => exact scanAndRedact_fuel st b line hr
    | panic =>
      rcases (keeps_ledger st).run_panic (scanFuel line) hr with hp | ⟨f, g, c, he, hp⟩
      · exact hp
      exact h f g c he hp

/-- A line in which nothing is hidden comes back unchanged exactly if no frame of its scan
writes back a decoded literal, has two carves that share a quote, or panics. -/
theorem scan_unchanged_iff (st : ConfigState Num) (b : BaselineStats Num) {line : Bytes}
    (hv : utf8Valid line = true) (hm : Unmarked (st.scanAndRedact b line).log) :
    ((st.scanAndRedact b line).res = .ok () ∧ (st.scanAndRedact b line).out = line) ↔
      ∀ g, (g = .scanLine line 0 ∨ ∃ f, (st.scanAndRedact b line).Called f g) →
        st.departs g = false ∧ ¬ st.panics g := by
  have htext := (keeps_ledger st).run_text (lawful_ledger st) (scanFuel line) (.scanLine line 0) b hv hm
  constructor
  · rintro ⟨hres, hout⟩ g hg
    have hcalm : st.departs (.scanLine line 0) = false ∧ Calm st.departs (st.scanAndRedact b line).log := by
      by_contra hB
      exact ((htext () hres).2.diverge hB).ne hout
    rcases hg with rfl | ⟨f, c, he⟩
    · exact ⟨hcalm.1, id⟩
    exact ⟨hcalm.2 f g c he, (scan_ok_iff st b line).mp hres f g c he⟩
  intro h
  have hres := (scan_ok_iff st b line).mpr fun f g c he => (h g (.inr ⟨f, c, he⟩)).2
  exact ⟨hres, (htext () hres).2.eq ⟨(h _ (.inl rfl)).1, fun f g c he => (h g (.inr ⟨f, c, he⟩)).1⟩⟩

def Event.isMark {S : Sig} : Event S → Bool
  | .mark _ _ => true
  | .call _ _ _ => false

theorem unmarked_of_any {S : Sig} {l : List (Event S)} (h : l.any Event.isMark = false) : Unmarked l := by
  intro m c hm
  rw [List.any_eq_false] at h
  exact h _ hm rfl

theorem eq_ok_of_isOk {r : Except Halt Unit} (h : r.isOk = true) : r = .ok () := by
  cases r with
  | ok _ => rfl
  | error _ => cases h

/-- The scan of a plain request line departs nowhere. -/
theorem scan_unchanged_request :
    ((ConfigState.sample.withKeys [bs "password"]).scanAndRedact newBaselineStats
        (bs "GET /index.html")).out = bs "GET /index.html" ∧
      ∀ g, (g = .scanLine (bs "GET /index.html") 0 ∨
          ∃ f, ((ConfigState.sample.withKeys [bs "password"]).scanAndRedact newBaselineStats
            (bs "GET /index.html")).Called f g) →
        (ConfigState.sample.withKeys [bs "password"]).departs g = false ∧
          ¬ (ConfigState.sample.withKeys [bs "password"]).panics g := by
  have hrun : ∀ n, n = 4480 →
      ((ConfigState.sample.withKeys [bs "password"]).machine.run n (.scanLine (bs "GET /index.html") 0)
          newBaselineStats).log.any Event.isMark = false ∧
        ((ConfigState.sample.withKeys [bs "password"]).machine.run n (.scanLine (bs "GET /index.html") 0)
          newBaselineStats).res.isOk = true ∧
        ((ConfigState.sample.withKeys [bs "password"]).machine.run n (.scanLine (bs "GET /index.html") 0)
          newBaselineStats).out = bs "GET /index.html" := by
    rintro n rfl
    decide +kernel
  obtain ⟨hm, hres, hout⟩ := hrun (scanFuel (bs "GET /index.html")) (by decide +kernel)
  exact ⟨hout,
    (scan_unchanged_iff _ _ (by decide +kernel) (unmarked_of_any hm)).mp ⟨eq_ok_of_isOk hres, hout⟩⟩

theorem scan_changed : ¬ ∀ line : Bytes, utf8Valid line = true →
    Unmarked ((ConfigState.sample.withKeys [bs "password"]).scanAndRedact newBaselineStats line).log →
      ((ConfigState.sample.withKeys [bs "password"]).scanAndRedact newBaselineStats line).out = line := by
  intro h
  have hrun : ∀ n, n = 7840 →
      ((ConfigState.sample.withKeys [bs "password"]).machine.run n
          (.scanLine (bs "password: \"\\u005bHIDDEN\\\"]\"") 0) newBaselineStats).log.any Event.isMark = false ∧
        ((ConfigState.sample.withKeys [bs "password"]).machine.run n
          (.scanLine (bs "password: \"\\u005bHIDDEN\\\"]\"") 0) newBaselineStats).out =
            bs "password: \"[HIDDEN\"]\"" := by
    rintro n rfl
    decide +kernel
  have hfuel : scanFuel (bs "password: \"\\u005bHIDDEN\\\"]\"") = 7840 := by decide +kernel
  obtain ⟨hm, hout⟩ := hrun _ hfuel
  have := h _ (by decide +kernel) (unmarked_of_any hm)
  rw [ConfigState.scanAndRedact, hout] at this
  exact absurd this (by decide +kernel)

end PiiShield
