import PiiShield.Cleaner.OutputChannels

/-! Runs of the output writer under any schedule: nothing is lost or reordered, nothing panics, and
every call can return. -/

namespace PiiShield.Cleaner.Output

open Threads (System Holds)
open OutputWriter (advance)

variable {i k n : Nat} {o o' : OutputWriter} {l l' m : Pc}

section Runs

def Shared (n : Nat) (o : OutputWriter) : Prop := LockShared n o ∧ OrderShared n o ∧ ChannelShared n o

def Local (o : OutputWriter) (i : Nat) (l : Pc) : Prop := LockLocal o i l ∧ OrderLocal o i l ∧ ChannelLocal o i l

variable {s : System OutputWriter Pc}

theorem good_fire {s' : System OutputWriter Pc} (h : Holds Shared Local s) (hfire : s.fire advance i = some s') :
    Holds Shared Local s' := by
  refine h.fire ?_ ?_ hfire
  · rintro i n o l o' l' ⟨hI, hI', hI''⟩ hi ⟨hJ, hJ', hJ''⟩ hadv
    have hmoves := moves_of_advance hadv
    have hok := not_crashes hJ hJ''
    obtain ⟨hS, hL⟩ := lock_own hI hi hok hJ hmoves
    obtain ⟨hS', hL'⟩ := order_own hI' hi hok hJ hJ' hmoves
    obtain ⟨hS'', hL''⟩ := channel_own hI'' hok hJ'' hmoves
    exact ⟨⟨hS, hS', hS''⟩, hL, hL', hL''⟩
  rintro i k n o l o' l' m hik ⟨_, _, hI''⟩ ⟨hJ, _, hJ''⟩ ⟨hk, hk', hk''⟩ hadv
  have hmoves := moves_of_advance hadv
  exact ⟨lock_other hik hJ hk hmoves, order_other hik hJ hk hk' hmoves, channel_other hik hI'' hJ'' hk'' hmoves⟩

theorem good_spawn (h : Holds Shared Local s) (op : Op) : Holds Shared Local (s.spawn (.lock op)) := by
  obtain ⟨hI, hI', hI''⟩ := h.shared
  refine h.spawn ⟨⟨?_, ?_, ?_⟩, ?_, ?_, ?_⟩
  · intro k hk
    exact Nat.lt_succ_of_lt (hI k hk)
  · exact ⟨fun e he => Nat.lt_succ_of_lt (hI'.taken_lt e he), hI'.free, hI'.unbuffered, hI'.closed⟩
  · exact ⟨hI''.panicked, hI''.unclosed, fun _ => Nat.succ_pos _⟩
  · refine iff_of_false Bool.false_ne_true fun hheld => ?_
    exact absurd (hI _ hheld) (lt_irrefl _)
  · refine .of_plain rfl (fun q => iff_of_false (fun hq => ?_) nofun) nofun
    exact absurd (hI'.taken_lt _ hq) (lt_irrefl _)
  refine ⟨iff_of_false Bool.false_ne_true ?_, nofun, nofun, nofun, nofun, nofun⟩
  rintro ⟨hzero, hbuf⟩
  have := hI''.timer hbuf
  omega

theorem good_tick (h : Holds Shared Local s) (i : Nat) : Holds Shared Local (tick s i) := by
  rw [tick]
  split
  · next hl =>
    have hi : i < s.threads.length := (List.getElem?_eq_some_iff.mp hl).1
    obtain ⟨hJ, hJ', hJ''⟩ := h.each i _ hl
    refine Holds.replace hi h.shared ⟨hJ, ?_, ?_⟩ fun k m _ hm => h.each k m hm
    · exact hJ'.away rfl rfl rfl rfl
    exact hJ''.away rfl (fun _ => ⟨nofun, nofun⟩) rfl nofun nofun rfl rfl rfl
  exact h

theorem good_step (h : Holds Shared Local s) (a : Action) : Holds Shared Local (step s a) := by
  cases a with
  | call op => exact good_spawn h op
  | go i =>
    rw [step]
    cases hfire : s.fire advance i with
    | none => exact h
    | some s' => exact good_fire h hfire
  | tick i => exact good_tick h i

theorem good_init (interval : Int) : Holds Shared Local (newOutputWriter interval) := by
  constructor
  · refine ⟨nofun, ⟨nofun, fun _ => rfl, fun _ => rfl, fun _ => rfl⟩, ⟨rfl, fun _ => ⟨rfl, rfl⟩, ?_⟩⟩
    intro hbuf
    have hpos : ¬ interval ≤ 0 := not_le.mpr (of_decide_eq_true hbuf)
    simp [newOutputWriter, hpos]
  intro i l hl
  by_cases hpos : interval ≤ 0
  · simp [newOutputWriter, hpos] at hl
  simp only [newOutputWriter, hpos, if_false, List.getElem?_singleton] at hl
  split at hl
  · next hi =>
    cases hl
    have hbuf : (newOutputWriter interval).shared.buffered = true := decide_eq_true (not_le.mp hpos)
    refine ⟨iff_of_false Bool.false_ne_true nofun, .of_plain rfl (fun _ => ⟨nofun, nofun⟩) nofun, ?_⟩
    exact ⟨iff_of_true rfl ⟨hi, hbuf⟩, fun _ => ⟨nofun, nofun⟩, nofun, nofun, nofun, nofun⟩
  · cases hl

theorem good_run (h : Holds Shared Local s) (actions : List Action) : Holds Shared Local (run s actions) := by
  induction actions generalizing s with
  | nil => exact h
  | cons a actions ih => exact ih (good_step h a)

theorem closed_run (h : Holds Shared Local s) (actions : List Action) (hclosed : s.shared.closed = true) :
    (run s actions).shared.closed = true := by
  induction actions generalizing s with
  | nil => exact hclosed
  | cons a actions ih =>
    refine ih (good_step h a) ?_
    cases a with
    | call op => exact hclosed
    | go i =>
      rw [step]
      cases hfire : s.fire advance i with
      | none => exact hclosed
      | some s' =>
        obtain ⟨l, o, l', _, hadv, rfl⟩ := Threads.fire_eq_some.mp hfire
        exact closed_moves (moves_of_advance hadv) hclosed
    | tick i =>
      rw [step, tick]
      split <;> exact hclosed

theorem exists_thread (hi : i < s.threads.length) : ∃ l, s.threads[i]? = some l :=
  ⟨s.threads[i], List.getElem?_eq_getElem hi⟩

theorem isReturned_of_writes {q : Bytes} (hw : l.writes = some q) (hin : ¬ l.inside = true) :
    l.isReturned = true := by
  cases l with
  | returned r => rfl
  | body op | filling p rest nn | unlock r => exact absurd rfl hin
  | _ => cases hw

theorem not_isReturned (hin : l.inside = true) : l.isReturned = false := by
  cases l with
  | returned r => cases hin
  | _ => rfl

theorem Holds.returned (h : Holds Shared Local s) {e : Nat × Bytes} (he : e ∈ s.shared.taken)
    (hfree : s.shared.holder ≠ some e.1) : hasReturned s e.1 = true := by
  obtain ⟨l, hl⟩ := exists_thread (h.shared.2.1.taken_lt e he)
  obtain ⟨hlock, horder, _⟩ := h.each e.1 l hl
  have hwrites : l.writes = some e.2 := (horder.listed e.2).mp he
  rw [hasReturned, hl]
  exact isReturned_of_writes hwrites fun hin => hfree (hlock.mp hin)

theorem Holds.text (h : Holds Shared Local s) : s.shared.w.text = (completed s).flatten ++ underway s := by
  cases hheld : s.shared.holder with
  | none =>
    have hall : s.shared.taken.filter (fun e => hasReturned s e.1) = s.shared.taken := by simp_all [Holds.returned]
    rw [completed, hall, underway, hheld, h.shared.2.1.free hheld]
    simp [flat]
  | some i =>
    obtain ⟨l, hl⟩ := exists_thread (h.shared.1 i hheld)
    obtain ⟨hlock, horder, _⟩ := h.each i l hl
    have hin : l.inside = true := hlock.mpr hheld
    obtain ⟨before, htaken, hown, htext⟩ := horder.text hin
    have hbefore : before.filter (fun e => hasReturned s e.1) = before := by
      refine List.filter_eq_self.mpr fun e he => ?_
      refine Holds.returned h (htaken ▸ List.mem_append_left _ he) fun hsame => ?_
      rw [hheld, Option.some.injEq] at hsame
      obtain ⟨k, q⟩ := e
      cases hsame
      exact hown q he
    have hlast : (l.ownEntry i).filter (fun e => hasReturned s e.1) = [] := by
      refine List.filter_eq_nil_iff.mpr fun e he => ?_
      obtain ⟨q, _, rfl⟩ := Option.map_eq_some_iff.mp (Option.mem_toList.mp he)
      rw [hasReturned, hl, Option.any_some, not_isReturned hin]
      exact Bool.false_ne_true
    rw [completed, htaken, List.filter_append, hbefore, hlast, List.append_nil, underway, hheld, htext]
    simp [flat, hl]

theorem advance_inside (hin : l.inside = true) : advance i o l ≠ none := by
  cases l with
  | body op =>
    cases op with
    | write p =>
      rw [advance]
      split <;> simp
    | _ => simp [advance]
  | unlock r =>
    rw [advance]
    split <;> simp
  | tickBody | filling p rest nn | marking => simp [advance]
  | _ => cases hin

theorem Holds.quiet (h : Holds Shared Local s) (hquiet : ∀ i, s.fire advance i = none) :
    ∀ l ∈ s.threads, l.isPending = false := by
  have hstuck : ∀ i l, s.threads[i]? = some l → advance i s.shared l = none := by simp_all [System.fire]
  have hfree : s.shared.holder = none := by
    cases hheld : s.shared.holder with
    | none => rfl
    | some i =>
      obtain ⟨l, hl⟩ := exists_thread (h.shared.1 i hheld)
      have hin := (h.each i l hl).1.mpr hheld
      exact absurd (hstuck i l hl) (advance_inside hin)
  have hout : ∀ (i : Nat) (l : Pc), s.threads[i]? = some l → ¬ l.inside = true := by
    intro i l hl hin
    exact advance_inside hin (hstuck i l hl)
  intro l hmem
  obtain ⟨i, hl⟩ := List.mem_iff_getElem?.mp hmem
  have hnext := hstuck i l hl
  obtain ⟨_, _, hchannel⟩ := h.each i l hl
  cases l with
  | lock op => simp [advance, hfree] at hnext
  | stopping => simp [advance, (hchannel.stopper rfl).2] at hnext
  | waiting =>
    obtain ⟨t, ht⟩ := exists_thread (h.shared.2.2.timer (hchannel.buffered (.inr rfl)))
    have htimer := (h.each 0 t ht).2.2
    have hkind : t.isTimer = true := htimer.timer.mpr ⟨rfl, hchannel.buffered (.inr rfl)⟩
    have hstop := hchannel.waiting rfl
    have hnext' := hstuck 0 t ht
    have hout' := hout 0 t ht
    cases t with
    | tickLock => simp [advance, hfree] at hnext'
    | selecting => simp [advance, hstop] at hnext'
    | ending =>
      rw [advance] at hnext'
      split at hnext' <;> cases hnext'
    | ended => simp [advance, (htimer.done rfl).mpr rfl] at hnext
    | tickBody | unlock r => exact absurd rfl hout'
    | _ => cases hkind
  | body op | filling p rest nn | marking | unlock r => exact absurd rfl (hout i _ hl)
  | _ => rfl

end Runs

def Pc.work : Pc → Nat
  | .lock (.write _) => 6
  | .lock .flush => 3
  | .lock .close => 6
  | .tickLock => 5
  | .body (.write _) => 5
  | .body .flush => 2
  | .body .close => 5
  | .tickBody => 4
  | .filling _ rest _ => if rest.isEmpty then 3 else 4
  | .marking => 4
  | .unlock (.wrote _ _) => 1
  | .unlock .flushed => 1
  | .unlock (.closed _) => 3
  | .unlock .ticked => 3
  | .stopping => 2
  | .waiting => 1
  | .returned _ => 0
  | .selecting => 2
  | .ending => 1
  | .ended => 0

def bufferWork (o : OutputWriter) : Nat := if o.w.buf.isEmpty then 0 else 1

theorem bufferWork_flushLocked (o : OutputWriter) : bufferWork o.flushLocked ≤ bufferWork o := by
  rw [OutputWriter.flushLocked]
  split
  · exact le_rfl
  simp [bufferWork]

theorem work_fill (o : OutputWriter) (p rest : Bytes) (nn : Nat) :
    bufferWork (o.fill p rest nn).1 + (o.fill p rest nn).2.work <
      bufferWork o + (Pc.filling p rest nn).work := by
  rw [OutputWriter.fill]
  split
  · next hlong =>
    have hrest : rest.isEmpty = false := by grind
    have hbuf := Bufio.buf_round outputBufferSize o.w rest
    by_cases hempty : o.w.buf.isEmpty = true
    · simp [bufferWork, Bufio.round, hempty, Pc.work, hrest]
    simp only [bufferWork, hbuf, Pc.work, hrest, hempty, List.isEmpty_nil, if_true, Bool.false_eq_true, if_false]
    split <;> omega
  simp only [bufferWork, Pc.work]
  split <;> split <;> split <;> omega

theorem work_moves (h : Moves i o l o' l') : bufferWork o' + l'.work < bufferWork o + l.work := by
  cases h with
  | take hl _ =>
    refine Nat.add_lt_add_left ?_ (bufferWork o)
    cases l with
    | lock op => cases op <;> cases hl <;> simp [Pc.work]
    | tickLock =>
      cases hl
      decide
    | _ => cases hl
  | pass _ | mark => exact Nat.add_lt_add_left (by simp [Pc.work]) (bufferWork o)
  | start _ _ =>
    refine Nat.add_lt_add_left ?_ (bufferWork o)
    simp only [Pc.work]
    split <;> omega
  | flush hl =>
    refine Nat.add_lt_add_of_le_of_lt (bufferWork_flushLocked o) ?_
    cases l with
    | body op => cases op <;> cases hl <;> decide
    | tickBody =>
      cases hl
      decide
    | _ => cases hl
  | fill p rest nn => exact work_fill o p rest nn
  | @release r _ =>
    refine Nat.add_lt_add_left ?_ (bufferWork o)
    cases r with
    | closed wasClosed =>
      rw [OutputWriter.afterUnlock]
      split <;> simp [Pc.work]
    | _ => simp [OutputWriter.afterUnlock, Pc.work]
  | stop _ | wake _ | leave _ | finish _ => exact Nat.add_lt_add_left (by decide) (bufferWork o)
  | crash hcrash =>
    refine Nat.add_lt_add_left ?_ (bufferWork o)
    cases l with
    | unlock r => cases r <;> simp [Pc.work]
    | stopping => decide
    | ending => decide
    | _ => cases hcrash

/-- In every run the destination and the buffer have the completed writes in the order of the lock
and what the write under way has handed on, and every write that has returned is among them. Once a
`Close` has returned the buffer stays empty. Nothing panics, and whatever the order in which threads
go on, they come to a point where none can, and there every call has returned. -/
theorem output_loses_nothing (interval : Int) (actions : List Action) :
    let s := run (newOutputWriter interval) actions
    s.shared.w.wr ++ s.shared.w.buf = (completed s).flatten ++ underway s ∧
    (∀ (i : Nat) (p : Bytes) (nn : Nat), s.threads[i]? = some (Pc.returned (.wrote p nn)) →
      p ∈ completed s ∧ nn = p.length) ∧
    (∀ (i : Nat) (wasClosed : Bool) (more : List Action), s.threads[i]? = some (Pc.returned (.closed wasClosed)) →
      (run s more).shared.w.buf = [] ∧
        (run s more).shared.w.wr = (completed (run s more)).flatten ++ underway (run s more)) ∧
    s.shared.panicked = false ∧
    ((∀ i, s.fire advance i = none) → ∀ l ∈ s.threads, l.isPending = false) ∧
    ∃ bound, ∀ picks t, s.goes advance picks = some t → picks.length ≤ bound := by
  intro s
  have hgood : Holds Shared Local s := good_run (good_init interval) actions
  refine ⟨Holds.text hgood, ?_, ?_, hgood.shared.2.2.panicked, Holds.quiet hgood, ?_⟩
  · intro i p nn hl
    obtain ⟨_, horder, _⟩ := hgood.each i _ hl
    have hmem : (i, p) ∈ s.shared.taken := (horder.listed p).mpr rfl
    have hback : hasReturned s i = true := by
      rw [hasReturned, hl]
      rfl
    exact ⟨List.mem_map.mpr ⟨(i, p), List.mem_filter.mpr ⟨hmem, hback⟩, rfl⟩, horder.wrote p nn (.inr rfl)⟩
  · intro i wasClosed more hl
    have hlater := good_run hgood more
    have hclosed : (run s more).shared.closed = true :=
      closed_run hgood more ((hgood.each i _ hl).2.2.closed rfl)
    have hempty := hlater.shared.2.1.closed hclosed
    refine ⟨hempty, ?_⟩
    have htext := Holds.text hlater
    rw [Bufio.text, hempty, List.append_nil] at htext
    exact htext
  exact ⟨_, fun picks t h => Threads.length_le_load (fun _ _ _ _ _ hadv => work_moves (moves_of_advance hadv)) h⟩

end PiiShield.Cleaner.Output
