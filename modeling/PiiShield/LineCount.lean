import Mathlib.Algebra.BigOperators.Group.List.Basic
import Mathlib.Algebra.Order.Ring.Int
import PiiShield.Unchanged

/-! A text keeps its number of lines. A newline that was not in the text is written by a
decoded literal or by a rule whose name has one. -/

namespace PiiShield

open ConfigState

variable {Num : Type}

structure OneLine (st : ConfigState Num) (l : List (Event (scanSig Num))) : Prop where
  ends : ∀ f g c, Event.call f g c ∈ l → ¬ st.panics g
  decoded : ∀ f t x, Event.call f (Frame.processTokenLogic t) false ∈ l → st.writesBack t = true →
    escapedJSONString t.rawToken = some x → newline ∉ x
  named : ∀ m, Event.mark m false ∈ l → newline ∉ m.name

section Log

variable {st : ConfigState Num} {l l' : List (Event (scanSig Num))}

theorem oneLine_nil : OneLine st [] := ⟨by simp, by simp, by simp⟩

theorem oneLine_append : OneLine st (l ++ l') ↔ OneLine st l ∧ OneLine st l' := by
  constructor
  · rintro ⟨h1, h2, h3⟩
    exact ⟨⟨fun f g c he => h1 f g c (List.mem_append_left _ he),
        fun f t x he => h2 f t x (List.mem_append_left _ he),
        fun m he => h3 m (List.mem_append_left _ he)⟩,
      ⟨fun f g c he => h1 f g c (List.mem_append_right _ he),
        fun f t x he => h2 f t x (List.mem_append_right _ he),
        fun m he => h3 m (List.mem_append_right _ he)⟩⟩
  rintro ⟨h, h'⟩
  exact ⟨fun f g c he => (List.mem_append.mp he).elim (h.ends f g c) (h'.ends f g c),
    fun f t x he => (List.mem_append.mp he).elim (h.decoded f t x) (h'.decoded f t x),
    fun m he => (List.mem_append.mp he).elim (h.named m) (h'.named m)⟩

end Log

section Line

variable {st : ConfigState Num}

theorem newline_mem_marker {m : Mark} : newline ∈ st.marker m ↔ newline ∈ m.name := by
  have hhex (b : UInt8) : newline ∉ hexDigits b := by
    intro hm
    simp only [hexDigits, List.mem_cons, List.not_mem_nil, or_false] at hm
    have hb := b.toNat_lt
    rcases hm with hm | hm
    · have := le_hexDigit (b.toNat / 16) (by omega)
      rw [← hm] at this
      exact absurd this (by decide)
    have := le_hexDigit (b.toNat % 16) (by omega)
    rw [← hm] at this
    exact absurd this (by decide)
  have h1 : newline ∉ bs "[HIDDEN" := by decide
  have h2 : newline ∉ bs ":" := by decide
  have h3 : newline ∉ bs "]" := by decide
  simp only [marker, List.mem_append, hhex, h1, h2, h3, or_false, false_or]
  split
  · next h => simp [List.isEmpty_iff.mp h]
  simp [h2]

theorem excludes_newline (st : ConfigState Num) : st.ledger.Excludes newline where
  filler := show isFiller newline = false by decide
  repair := fun {u} hu hm => by
    have hm : newline ∈ (toValidUTF8 u).filter isASCII := List.mem_filter.mpr ⟨hm, by decide⟩
    rw [filter_isASCII_toValidUTF8] at hm
    exact hu (List.mem_filter.mp hm).1
  quote o hm := absurd (le_of_mem_jsonQuote hm) (by decide)

theorem putsIn_newline {f : Frame} (h : st.ledger.PutsIn newline f) :
    ∃ t x, f = .processTokenLogic t ∧ st.writesBack t = true ∧ escapedJSONString t.rawToken = some x ∧
      newline ∈ x := by
  obtain ⟨u, o, c, hr, hm⟩ := h
  cases f with
  | processTokenLogic t => exact ⟨t, o, rfl, hr.1, hr.2.2.1, hm⟩
  | scanLine line depth =>
    obtain ⟨-, ⟨q, hq, rfl⟩, -⟩ := hr
    obtain rfl : newline = q := by simpa using hm
    exact absurd hq (by decide)
  | _ => exact hr.elim

theorem processTokenLogic_of_writesBack {t : TokenCall} {x : Bytes} (h : st.writesBack t = true)
    (hx : escapedJSONString t.rawToken = some x) :
    st.processTokenLogic t = (do
      Prog.write [dquote]
      st.processSingleToken x x true t.contextSensitive false
      Prog.write [dquote]
      return false) := by
  simp only [writesBack, Bool.and_eq_true, decide_eq_true_eq, Option.isNone_iff_eq_none] at h
  obtain ⟨⟨⟨⟨hd, hw⟩, hm⟩, hf⟩, -⟩ := h
  have hlit : st.tokenMarker t = st.tokenJSONLiteral t := by
    unfold tokenMarker
    cases hc : contains t.rawToken (bs "[HIDDEN") with
    | false => rfl
    | true =>
      simp_all [passesMarker, Bool.not_true, Bool.false_or, Bool.and_eq_true]
  simp_all [processTokenLogic, tokenJSONLiteral]

theorem mem_run_of_writesBack {t : TokenCall} {x : Bytes} (h : st.writesBack t = true)
    (hx : escapedJSONString t.rawToken = some x) (n : Nat) (s : BaselineStats Num) :
    ∀ c ∈ x, c ∈ (st.machine.run (n + 1) (.processTokenLogic t) s).out := by
  intro c hc
  have hk : st.keepsForced x = true := by
    simp only [writesBack, hx, Option.any_some, Bool.and_eq_true] at h
    exact h.2
  have hrun : (st.machine.run (n + 1) (.processTokenLogic t) s).out = [dquote] ++ (x ++ ([dquote] ++ [])) := by
    rw [Machine.run]
    show (st.machine.exec _ _ (st.processTokenLogic t) s).out = _
    rw [processTokenLogic_of_writesBack h hx]
    show (st.machine.exec _ _ (.emit [dquote] (.get fun b => (perform b x
      (st.singleTokenAction b x x true t.contextSensitive false)).bind fun _ =>
        .emit [dquote] (.pure false))) s).out = _
    simp only [singleTokenAction_of_keepsForced hk]
    rfl
  rw [hrun]
  simp [hc]

theorem oneLine_scan_iff (st : ConfigState Num) (b : BaselineStats Num) {line : Bytes} (hl : newline ∉ line) :
    ((st.scanAndRedact b line).res = .ok () ∧ newline ∉ (st.scanAndRedact b line).out) ↔
      OneLine st (st.scanAndRedact b line).log := by
  constructor
  · rintro ⟨hres, hout⟩
    refine ⟨(scan_ok_iff st b line).mp hres, fun f t x he hw hx hm => hout ?_, fun m he hm => hout ?_⟩
    · obtain ⟨n, s, hpart⟩ := Machine.run_visit he
      cases n with
      | zero => exact absurd (hpart.res .outOfFuel rfl) (scanAndRedact_fuel st b line)
      | succ n => exact hpart.out rfl _ (mem_run_of_writesBack hw hx n s _ hm)
    exact Machine.run_mark he _ (newline_mem_marker.mpr hm)
  intro h
  refine ⟨(scan_ok_iff st b line).mpr h.ends, fun hm => ?_⟩
  rcases (keeps_ledger st).run_byte (excludes_newline st) (scanFuel line)
      (f := .scanLine line 0) hl hm with
    hp | ⟨f, g, he, hp⟩ | ⟨m, he, hm⟩
  · obtain ⟨t, x, hf, -⟩ := putsIn_newline hp
    cases hf
  · obtain ⟨t, x, rfl, hw, hx, hm⟩ := putsIn_newline hp
    exact h.decoded f t x he hw hx hm
  exact h.named m he (newline_mem_marker.mp hm)

end Line

section Text

variable {st : ConfigState Num}

theorem splitEnding_spec {line : Bytes} (ending : Bytes) (hl : newline ∉ line) :
    newline ∉ (splitEnding line ending).1 ∧ (splitEnding line ending).2.count newline = ending.count newline := by
  unfold splitEnding
  split
  · exact ⟨fun hm => hl (List.dropLast_subset _ hm), by rw [List.count_append]; simp; decide⟩
  exact ⟨hl, rfl⟩

theorem textLinesFrom_spec (text : Bytes) {line : Bytes} (hl : newline ∉ line) :
    (∀ p ∈ textLinesFrom line text, newline ∉ p.1) ∧
      ((textLinesFrom line text).map fun p => p.2.count newline).sum = text.count newline := by
  induction text generalizing line with
  | nil =>
    grind [textLinesFrom, splitEnding_spec]
  | cons c text ih =>
    grind [textLinesFrom, newline, splitEnding_spec, List.count_singleton_self, List.count_cons_self]

theorem scanLines_cons_ok {b : BaselineStats Num} {line ending : Bytes} {ls : List (Bytes × Bytes)}
    (h : (st.scanAndRedact b line).res = .ok ()) :
    st.scanLines b ((line, ending) :: ls) =
      (st.scanLines (st.scanAndRedact b line).state ls).after
        ((st.scanAndRedact b line).out ++ ending) (st.scanAndRedact b line).log := by
  simp only [scanLines, h]

theorem scanLines_cons_error {b : BaselineStats Num} {line ending : Bytes} {ls : List (Bytes × Bytes)}
    {e : Halt} (h : (st.scanAndRedact b line).res = .error e) :
    st.scanLines b ((line, ending) :: ls) = st.scanAndRedact b line := by
  simp only [scanLines, h]
  rw [← h]

theorem le_count_scanLines (ls : List (Bytes × Bytes)) (b : BaselineStats Num)
    (h : (st.scanLines b ls).res = .ok ()) :
    (ls.map fun p => p.2.count newline).sum ≤ (st.scanLines b ls).out.count newline := by
  induction ls generalizing b with
  | nil => simp
  | cons p ls ih =>
    obtain ⟨line, ending⟩ := p
    cases hr : (st.scanAndRedact b line).res with
    | error e =>
      rw [scanLines_cons_error hr, hr] at h
      cases h
    | ok _ =>
      rw [scanLines_cons_ok hr] at h ⊢
      have := ih (st.scanAndRedact b line).state h
      simp only [Outcome.after, List.map_cons, List.sum_cons, List.count_append]
      omega

theorem oneLine_scanLines_iff (st : ConfigState Num) (ls : List (Bytes × Bytes)) (b : BaselineStats Num)
    (hl : ∀ p ∈ ls, newline ∉ p.1) :
    ((st.scanLines b ls).res = .ok () ∧
        (st.scanLines b ls).out.count newline = (ls.map fun p => p.2.count newline).sum) ↔
      OneLine st (st.scanLines b ls).log := by
  induction ls generalizing b with
  | nil => simpa [scanLines] using oneLine_nil
  | cons p ls ih =>
    obtain ⟨line, ending⟩ := p
    have hline := oneLine_scan_iff st b (hl (line, ending) (by simp))
    have hrest := ih (st.scanAndRedact b line).state fun p hp => hl p (by simp [hp])
    cases hr : (st.scanAndRedact b line).res with
    | error e =>
      rw [scanLines_cons_error hr, ← hline, hr]
      simp
    | ok _ =>
      rw [scanLines_cons_ok hr]
      simp only [Outcome.after, oneLine_append, ← hline, ← hrest, hr, List.map_cons, List.sum_cons,
        List.count_append, true_and]
      grind [List.count_eq_zero, le_count_scanLines]

end Text

/-- A text keeps its newlines exactly if no frame of its scan panics, no forced literal that
is written back decodes to a newline, and no rule named with one hides something. -/
theorem newline_count_iff (st : ConfigState Num) (b : BaselineStats Num) (text : Bytes) :
    ((st.scanAndRedactText b text).res = .ok () ∧
        (st.scanAndRedactText b text).out.count newline = text.count newline) ↔
      OneLine st (st.scanAndRedactText b text).log := by
  unfold scanAndRedactText
  split
  · next h =>
    have hno : newline ∉ text := by simpa using h
    rw [← oneLine_scan_iff st b hno, List.count_eq_zero.mpr hno, List.count_eq_zero]
  obtain ⟨hl, hsum⟩ := @textLinesFrom_spec text [] (by simp)
  rw [textLines, ← oneLine_scanLines_iff st _ b hl, hsum]

theorem newline_added : ¬ ∀ text : Bytes,
    ((ConfigState.sample.withKeys [bs "password"]).scanAndRedactText newBaselineStats text).out.count newline =
      text.count newline := by
  intro h
  have hrun : ∀ n, n = 8400 →
      ((ConfigState.sample.withKeys [bs "password"]).machine.run n
        (.scanLine (bs "password: \"\\u005bHIDDEN\\\"\\n]\"") 0) newBaselineStats).out =
          bs "password: \"[HIDDEN\"\n]\"" := by
    rintro n rfl
    decide +kernel
  have hout := hrun (scanFuel (bs "password: \"\\u005bHIDDEN\\\"\\n]\"")) (by decide +kernel)
  have := h (bs "password: \"\\u005bHIDDEN\\\"\\n]\"")
  rw [scanAndRedactText, if_pos (by decide +kernel), ConfigState.scanAndRedact, hout] at this
  exact absurd this (by decide +kernel)

end PiiShield
