import PiiShield.Cleaner.OutputOrder

/-! The timer and its channels: each is closed once, by the timer and by the first `Close`. -/

namespace PiiShield.Cleaner.Output

variable {i k n : Nat} {o o' : OutputWriter} {l l' m : Pc}

structure ChannelShared (n : Nat) (o : OutputWriter) : Prop where
  panicked : o.panicked = false
  unclosed : o.closed = false → o.closer = none ∧ o.stop = false
  timer : o.buffered = true → 0 < n

/-- Thread 0 is the timer if there is a buffer, it alone closes `done`, and only the first `Close`
closes `stop`. -/
structure ChannelLocal (o : OutputWriter) (i : Nat) (l : Pc) : Prop where
  timer : l.isTimer = true ↔ i = 0 ∧ o.buffered = true
  done : l.isTimer = true → (o.done = true ↔ l = .ended)
  stopper : l.isStopper = true → o.closer = some i ∧ o.stop = false
  waiting : l = .waiting → o.stop = true
  buffered : l = .stopping ∨ l = .waiting → o.buffered = true
  closed : l.hasClosed = true → o.closed = true

theorem not_crashes (hlock : LockLocal o i l) (hJ : ChannelLocal o i l) : l.crashes o = false := by
  cases l with
  | unlock r =>
    rw [Pc.crashes, hlock.mp rfl]
    rfl
  | stopping => exact (hJ.stopper rfl).2
  | ending =>
    rw [Pc.crashes, Bool.eq_false_iff]
    intro hdone
    cases (hJ.done rfl).mp hdone
  | _ => rfl

theorem ChannelLocal.away (hJ : ChannelLocal o i l) (htimer : l'.isTimer = l.isTimer)
    (hended : l'.isTimer = true → (l' = .ended ↔ l = .ended)) (hstopper : l'.isStopper = false)
    (hwaits : l' ≠ .waiting) (hcloses : l'.hasClosed = true → o.closed = true)
    (hdone : o'.done = o.done) (hbuf : o'.buffered = o.buffered) (hclosed : o'.closed = o.closed) :
    ChannelLocal o' i l' where
  timer := by
    rw [htimer, hbuf]
    exact hJ.timer
  done := by
    intro ht
    rw [hdone, hended ht]
    exact hJ.done (htimer ▸ ht)
  stopper := by
    intro h
    rw [hstopper] at h
    cases h
  waiting := fun h => absurd h hwaits
  buffered := by
    rintro (rfl | rfl)
    · cases hstopper
    exact absurd rfl hwaits
  closed := by
    intro h
    rw [hclosed]
    exact hcloses h

/-- A point that does not end the timer and at which no `Close` is under way. -/
def Pc.isRunning : Pc → Bool
  | .ended | .waiting => false
  | l => !l.isStopper && !l.hasClosed

theorem ChannelLocal.running (hJ : ChannelLocal o i l) (hl : l.isRunning = true) (hl' : l'.isRunning = true)
    (htimer : l'.isTimer = l.isTimer) (hdone : o'.done = o.done) (hbuf : o'.buffered = o.buffered)
    (hclosed : o'.closed = o.closed) : ChannelLocal o' i l' := by
  have hends (k : Pc) (hk : k.isRunning = true) : k ≠ .ended ∧ k ≠ .waiting := by
    constructor <;> rintro rfl <;> cases hk
  have hquiet : l'.isStopper = false ∧ l'.hasClosed = false := by cases l' <;> simp_all [Pc.isRunning]
  refine hJ.away htimer (fun _ => iff_of_false (hends l' hl').1 (hends l hl).1) hquiet.1 (hends l' hl').2 ?_ hdone hbuf
    hclosed
  rw [hquiet.2]
  rintro ⟨⟩

theorem channel_flushLocked (o : OutputWriter) :
    o.flushLocked.done = o.done ∧ o.flushLocked.buffered = o.buffered ∧ o.flushLocked.closed = o.closed ∧
      o.flushLocked.stop = o.stop ∧ o.flushLocked.closer = o.closer ∧ o.flushLocked.panicked = o.panicked := by
  rw [OutputWriter.flushLocked]
  split <;> exact ⟨rfl, rfl, rfl, rfl, rfl, rfl⟩

theorem channel_fill (o : OutputWriter) (p rest : Bytes) (nn : Nat) :
    (o.fill p rest nn).1.done = o.done ∧ (o.fill p rest nn).1.stop = o.stop ∧
      (o.fill p rest nn).1.closer = o.closer ∧ (o.fill p rest nn).1.panicked = o.panicked := by
  rw [OutputWriter.fill]
  split <;> exact ⟨rfl, rfl, rfl, rfl⟩

theorem channel_own (hI : ChannelShared n o) (hok : l.crashes o = false) (hJ : ChannelLocal o i l)
    (h : Moves i o l o' l') : ChannelShared n o' ∧ ChannelLocal o' i l' := by
  cases h with
  | take hl _ =>
    refine ⟨⟨hI.panicked, hI.unclosed, hI.timer⟩, ?_⟩
    cases l <;> cases hl <;> exact hJ.running rfl rfl rfl rfl rfl rfl
  | pass _ =>
    exact ⟨⟨hI.panicked, hI.unclosed, hI.timer⟩, hJ.running rfl rfl rfl rfl rfl rfl⟩
  | start _ _ | leave _ => exact ⟨hI, hJ.running rfl rfl rfl rfl rfl rfl⟩
  | flush hl =>
    obtain ⟨hdone, hbuf, hclosed, hstop, hcloser, hpanic⟩ := channel_flushLocked o
    refine ⟨⟨hpanic.trans hI.panicked, ?_, fun h => hI.timer (hbuf ▸ h)⟩, ?_⟩
    · rw [hclosed, hcloser, hstop]
      exact hI.unclosed
    · cases l with
      | body op => cases op <;> cases hl <;> exact hJ.running rfl rfl rfl hdone hbuf hclosed
      | tickBody =>
        cases hl
        exact hJ.running rfl rfl rfl hdone hbuf hclosed
      | _ => cases hl
  | fill p rest nn =>
    obtain ⟨hbuf, hclosed, _⟩ := fields_fill o p rest nn
    obtain ⟨hdone, hstop, hcloser, hpanic⟩ := channel_fill o p rest nn
    refine ⟨⟨hpanic.trans hI.panicked, ?_, fun h => hI.timer (hbuf ▸ h)⟩, ?_⟩
    · rw [hclosed, hcloser, hstop]
      exact hI.unclosed
    have hkind : (o.fill p rest nn).2.isTimer = false ∧ (o.fill p rest nn).2.isStopper = false ∧
        (o.fill p rest nn).2 ≠ .waiting ∧ (o.fill p rest nn).2.hasClosed = false := by
      rw [OutputWriter.fill]
      split <;> exact ⟨rfl, rfl, (by rintro ⟨⟩), rfl⟩
    obtain ⟨htimer, hstopper, hwaits, hcloses⟩ := hkind
    refine hJ.away htimer (fun h => ?_) hstopper hwaits (fun h => ?_) hdone hbuf hclosed
    · rw [htimer] at h
      cases h
    rw [hcloses] at h
    cases h
  | mark =>
    refine ⟨⟨hI.panicked, (by rintro ⟨⟩), hI.timer⟩, ⟨hJ.timer, (by rintro ⟨⟩), ?_, (by rintro ⟨⟩),
      (by rintro (h | h) <;> cases h), fun _ => rfl⟩⟩
    intro h
    cases hclosed : o.closed with
    | true =>
      rw [hclosed] at h
      cases h
    | false => exact ⟨by simp, (hI.unclosed hclosed).2⟩
  | @release r _ =>
    refine ⟨⟨hI.panicked, hI.unclosed, hI.timer⟩, ?_⟩
    cases r with
    | wrote p nn | flushed | ticked => exact hJ.running rfl rfl rfl rfl rfl rfl
    | closed wasClosed =>
      have hclosed := hJ.closed rfl
      rw [OutputWriter.afterUnlock]
      split
      · next hfirst =>
        rw [Bool.and_eq_true, Bool.not_eq_true'] at hfirst
        obtain ⟨hbuf, rfl⟩ := hfirst
        exact ⟨hJ.timer, (by rintro ⟨⟩), hJ.stopper, (by rintro ⟨⟩), fun _ => hbuf, fun _ => hclosed⟩
      exact hJ.away rfl (by rintro ⟨⟩) rfl (by rintro ⟨⟩) (fun _ => hclosed) rfl rfl rfl
  | stop _ =>
    have hclosed := hJ.closed rfl
    refine ⟨⟨hI.panicked, fun h => ?_, hI.timer⟩,
      ⟨hJ.timer, (by rintro ⟨⟩), (by rintro ⟨⟩), fun _ => rfl, fun _ => hJ.buffered (.inl rfl), fun _ => hclosed⟩⟩
    rw [hclosed] at h
    cases h
  | wake _ => exact ⟨hI, hJ.away rfl (by rintro ⟨⟩) rfl (by rintro ⟨⟩) (fun _ => hJ.closed rfl) rfl rfl rfl⟩
  | finish _ =>
    refine ⟨⟨hI.panicked, hI.unclosed, hI.timer⟩, ⟨hJ.timer, ?_, (by rintro ⟨⟩), (by rintro ⟨⟩),
      (by rintro (h | h) <;> cases h), (by rintro ⟨⟩)⟩⟩
    intro _
    exact iff_of_true rfl rfl
  | crash hcrash =>
    rw [hok] at hcrash
    cases hcrash

theorem closed_moves (h : Moves i o l o' l') (hclosed : o.closed = true) : o'.closed = true := by
  cases h with
  | flush _ => exact (channel_flushLocked o).2.2.1.trans hclosed
  | fill p rest nn => exact (fields_fill o p rest nn).2.1.trans hclosed
  | mark => rfl
  | _ => exact hclosed

theorem stop_moves (h : Moves i o l o' l') : o'.stop = o.stop ∨ l = .stopping ∧ o'.stop = true := by
  cases h with
  | flush _ => exact .inl (channel_flushLocked o).2.2.2.1
  | fill p rest nn => exact .inl (channel_fill o p rest nn).2.1
  | stop _ => exact .inr ⟨rfl, rfl⟩
  | _ => exact .inl rfl

theorem done_moves (h : Moves i o l o' l') : o'.done = o.done ∨ l = .ending := by
  cases h with
  | flush _ => exact .inl (channel_flushLocked o).1
  | fill p rest nn => exact .inl (channel_fill o p rest nn).1
  | finish _ => exact .inr rfl
  | _ => exact .inl rfl

theorem closer_moves (hI : ChannelShared n o) (h : Moves i o l o' l') (hcloser : o.closer = some k) :
    o'.closer = some k := by
  cases h with
  | flush _ => exact (channel_flushLocked o).2.2.2.2.1.trans hcloser
  | fill p rest nn => exact (channel_fill o p rest nn).2.2.1.trans hcloser
  | mark =>
    cases hclosed : o.closed with
    | true => exact hcloser
    | false =>
      rw [(hI.unclosed hclosed).1] at hcloser
      cases hcloser
  | _ => exact hcloser

theorem channel_other (hik : i ≠ k) (hI : ChannelShared n o) (hi : ChannelLocal o i l)
    (hJ : ChannelLocal o k m) (h : Moves i o l o' l') : ChannelLocal o' k m := by
  have hbuf := buffered_moves h
  constructor
  · rw [hbuf]
    exact hJ.timer
  · intro ht
    have hdone : o'.done = o.done := by
      rcases done_moves h with hdone | rfl
      · exact hdone
      exact absurd ((hi.timer.mp rfl).1.trans (hJ.timer.mp ht).1.symm) hik
    rw [hdone]
    exact hJ.done ht
  · intro hs
    obtain ⟨hcloser, hstop⟩ := hJ.stopper hs
    refine ⟨closer_moves hI h hcloser, ?_⟩
    rcases stop_moves h with hsame | ⟨rfl, _⟩
    · rw [hsame, hstop]
    have hown := (hi.stopper rfl).1
    rw [hcloser] at hown
    exact absurd (Option.some.inj hown).symm hik
  · intro hw
    rcases stop_moves h with hsame | ⟨_, hstop⟩
    · rw [hsame]
      exact hJ.waiting hw
    exact hstop
  · rw [hbuf]
    exact hJ.buffered
  intro hc
  exact closed_moves h (hJ.closed hc)

end PiiShield.Cleaner.Output
