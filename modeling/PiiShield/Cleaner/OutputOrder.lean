import PiiShield.Cleaner.OutputSteps

/-! The order of the writes: what a thread under the lock may assert of the bytes in the destination
and the buffer. -/

namespace PiiShield.Cleaner.Output

variable {i k n : Nat} {o o' : OutputWriter} {l l' m : Pc}

def flat (taken : List (Nat × Bytes)) : Bytes := (taken.map Prod.snd).flatten

theorem flat_append (a b : List (Nat × Bytes)) : flat (a ++ b) = flat a ++ flat b := by
  simp [flat]

def Pc.ownEntry (i : Nat) (l : Pc) : List (Nat × Bytes) := (l.writes.map fun p => (i, p)).toList

structure OrderShared (n : Nat) (o : OutputWriter) : Prop where
  taken_lt : ∀ e ∈ o.taken, e.1 < n
  free : o.holder = none → o.w.text = flat o.taken
  unbuffered : o.buffered = false → o.w.buf = []
  closed : o.closed = true → o.w.buf = []

def OwnText (o : OutputWriter) (i : Nat) (l : Pc) : Prop :=
  ∃ before, o.taken = before ++ l.ownEntry i ∧ (∀ q, (i, q) ∉ before) ∧ o.w.text = flat before ++ l.handed

structure OrderLocal (o : OutputWriter) (i : Nat) (l : Pc) : Prop where
  filling : ∀ p rest nn, l = .filling p rest nn →
    o.buffered = true ∧ o.closed = false ∧ rest <:+ p ∧ nn + rest.length = p.length
  marking : l = .marking → o.w.buf = []
  wrote : ∀ p nn, l = .unlock (.wrote p nn) ∨ l = .returned (.wrote p nn) → nn = p.length
  listed : ∀ q, (i, q) ∈ o.taken ↔ l.writes = some q
  text : l.inside = true → OwnText o i l

theorem take_of_suffix {s p : Bytes} (h : s <:+ p) : p.take (p.length - s.length) ++ s = p := by
  obtain ⟨u, rfl⟩ := h
  simp

theorem OwnText.flush (h : OwnText o i l) (hl : l.flushed = some l') : OwnText o.flushLocked i l' := by
  obtain ⟨before, htaken, hown, htext⟩ := h
  have hfl : o.flushLocked.taken = o.taken ∧ o.flushLocked.w.text = o.w.text := by
    grind [OutputWriter.flushLocked, Bufio.text_flush]
  have hl' : l'.ownEntry i = l.ownEntry i ∧ l'.handed = l.handed := by
    cases l with
    | body op => cases op <;> cases hl <;> exact ⟨rfl, rfl⟩
    | tickBody =>
      cases hl
      exact ⟨rfl, rfl⟩
    | _ => cases hl
  refine ⟨before, ?_, hown, ?_⟩
  · rw [hfl.1, hl'.1, htaken]
  rw [hfl.2, hl'.2, htext]

theorem OwnText.fill {p rest : Bytes} {nn : Nat} (h : OwnText o i (.filling p rest nn)) (hrest : rest <:+ p) :
    OwnText (o.fill p rest nn).1 i (o.fill p rest nn).2 := by
  obtain ⟨before, htaken, hown, htext⟩ := h
  have hgiven : o.w.text ++ rest = flat before ++ p := by
    simp [htext, Pc.handed, take_of_suffix hrest]
  rw [OutputWriter.fill]
  split
  · refine ⟨before, htaken, hown, ?_⟩
    have hsuffix := (Bufio.round_suffix outputBufferSize o.w rest).trans hrest
    have hround := Bufio.text_round outputBufferSize o.w rest
    rw [hgiven] at hround
    rw [← take_of_suffix hsuffix, ← List.append_assoc] at hround
    exact List.append_cancel_right hround
  refine ⟨before, htaken, hown, ?_⟩
  rw [Pc.handed, ← hgiven]
  exact Bufio.text_append _ _

theorem writes_entered (h : l.entered = some l') : l.writes = none ∧ l'.ownEntry i = l.entry i ∧ l'.handed = [] := by
  cases l with
  | lock op => cases op <;> cases h <;> exact ⟨rfl, rfl, rfl⟩
  | tickLock =>
    cases h
    exact ⟨rfl, rfl, rfl⟩
  | _ => cases h

theorem writes_flushed (h : l.flushed = some l') : l'.writes = l.writes := by
  cases l with
  | body op => cases op <;> cases h <;> rfl
  | tickBody =>
    cases h
    rfl
  | _ => cases h

theorem writes_afterUnlock (o : OutputWriter) (r : Reply) : (o.afterUnlock r).writes = (Pc.unlock r).writes := by
  cases r with
  | closed wasClosed =>
    rw [OutputWriter.afterUnlock]
    split <;> rfl
  | _ => rfl

theorem afterUnlock_eq_wrote {r : Reply} {p : Bytes} {nn : Nat} (h : o.afterUnlock r = .returned (.wrote p nn)) :
    r = .wrote p nn := by
  cases r with
  | closed wasClosed =>
    rw [OutputWriter.afterUnlock] at h
    split at h <;> cases h
  | _ =>
    cases h <;> rfl

theorem flushed_ne_write {p : Bytes} :
    (∀ rest nn, l.flushed ≠ some (.filling p rest nn)) ∧ (∀ nn, l.flushed ≠ some (.unlock (.wrote p nn))) ∧
      ∀ nn, l.flushed ≠ some (.returned (.wrote p nn)) := by
  cases l with
  | body op => cases op <;> simp [Pc.flushed]
  | _ => simp [Pc.flushed]

theorem OrderShared.buf_flushLocked (hI : OrderShared n o) : o.flushLocked.w.buf = [] := by
  rw [OutputWriter.flushLocked]
  split
  · next h =>
    rw [Bool.or_eq_true, Bool.not_eq_true', List.isEmpty_iff] at h
    exact h.elim hI.unbuffered id
  exact Bufio.buf_flush _

theorem mem_ownEntry {q : Bytes} : (i, q) ∈ l.ownEntry i ↔ l.writes = some q := by
  cases hw : l.writes with
  | none => simp [Pc.ownEntry, hw]
  | some p => simp [Pc.ownEntry, hw, eq_comm]

/-- A thread that is neither in a write under the lock nor behind the flush of a `Close`. -/
def Pc.isPlain : Pc → Bool
  | .filling .. | .marking | .unlock (.wrote _ _) | .returned (.wrote _ _) => false
  | _ => true

theorem OrderLocal.of_plain (hl : l.isPlain = true) (hlisted : ∀ q, (i, q) ∈ o.taken ↔ l.writes = some q)
    (htext : l.inside = true → OwnText o i l) : OrderLocal o i l where
  filling := by
    rintro p rest nn rfl
    cases hl
  marking := by
    rintro rfl
    cases hl
  wrote := by
    rintro p nn (rfl | rfl) <;> cases hl
  listed := hlisted
  text := htext

theorem OrderLocal.take (hI : OrderShared n o) (hJ : OrderLocal o i l) (hl : l.entered = some l')
    (hfree : o.holder = none) :
    OrderLocal { o with holder := some i, taken := o.taken ++ l.entry i } i l' := by
  obtain ⟨hwrites, hentry, hhanded⟩ := writes_entered (i := i) hl
  have hnone : ∀ q, (i, q) ∉ o.taken := by
    intro q hq
    rw [hJ.listed q, hwrites] at hq
    cases hq
  have htext : OwnText { o with holder := some i, taken := o.taken ++ l.entry i } i l' := by
    refine ⟨o.taken, by rw [hentry], hnone, ?_⟩
    rw [hhanded, List.append_nil]
    exact hI.free hfree
  have hplain : l'.isPlain = true := by
    cases l <;> cases hl <;> rfl
  refine .of_plain hplain ?_ fun _ => htext
  intro q
  rw [← mem_ownEntry (i := i), hentry, List.mem_append]
  exact or_iff_right (hnone q)

theorem OrderLocal.away (hJ : OrderLocal o i l) (hw : l'.writes = l.writes) (hplain : l'.isPlain = true)
    (hout : l'.inside = false) (htaken : o'.taken = o.taken) : OrderLocal o' i l' := by
  refine .of_plain hplain ?_ fun hin => ?_
  · intro q
    rw [htaken, hw]
    exact hJ.listed q
  rw [hout] at hin
  cases hin

theorem order_own (hI : OrderShared n o) (hi : i < n) (hok : l.crashes o = false) (hlock : LockLocal o i l)
    (hJ : OrderLocal o i l) (h : Moves i o l o' l') : OrderShared n o' ∧ OrderLocal o' i l' := by
  cases h with
  | take hl hfree =>
    refine ⟨⟨?_, nofun, hI.unbuffered, hI.closed⟩, hJ.take hI hl hfree⟩
    intro e he
    rcases List.mem_append.mp he with he | he
    · exact hI.taken_lt e he
    · cases l with
      | lock op =>
        cases op with
        | write p =>
          cases List.mem_singleton.mp he
          exact hi
        | _ => cases he
      | _ => cases he
  | @pass p hpass =>
    have hempty : o.w.buf = [] := by
      rcases hpass with hbuf | hclosed
      · exact hI.unbuffered hbuf
      exact hI.closed hclosed
    obtain ⟨before, htaken, hown, htext⟩ := hJ.text rfl
    have hheld := hlock.mp rfl
    refine ⟨⟨hI.taken_lt, fun h => ?_, fun _ => hempty, fun _ => hempty⟩, ⟨?_, ?_, ?_, hJ.listed, fun _ => ?_⟩⟩
    · rw [hheld] at h
      cases h
    · intro _ _ _ h
      cases h
    · intro h
      cases h
    · rintro q nn (h | h)
      · cases h
        rfl
      · cases h
    refine ⟨before, htaken, hown, ?_⟩
    rw [Bufio.text_through hempty, htext]
    simp [Pc.handed]
  | @start p hbuf hopen =>
    obtain ⟨before, htaken, hown, htext⟩ := hJ.text rfl
    refine ⟨hI, ⟨?_, ?_, ?_, hJ.listed, fun _ => ⟨before, htaken, hown, ?_⟩⟩⟩
    · simp_all
    · intro h
      cases h
    · rintro q nn (h | h) <;> cases h
    rw [htext]
    simp [Pc.handed]
  | flush hl =>
    obtain ⟨htaken, hholder⟩ := fields_flushLocked o
    have hempty := hI.buf_flushLocked
    have hheld := hlock.mp (inside_flushed hl).1
    refine ⟨⟨?_, ?_, fun _ => hempty, fun _ => hempty⟩, ⟨?_, fun _ => hempty, ?_, ?_, fun _ => ?_⟩⟩
    · rw [htaken]
      exact hI.taken_lt
    · intro h
      rw [hholder, hheld] at h
      cases h
    · rintro p rest nn rfl
      exact absurd hl (flushed_ne_write.1 rest nn)
    · rintro p nn (rfl | rfl)
      · exact absurd hl (flushed_ne_write.2.1 nn)
      exact absurd hl (flushed_ne_write.2.2 nn)
    · rw [htaken, writes_flushed hl]
      exact hJ.listed
    exact (hJ.text (inside_flushed hl).1).flush hl
  | fill p rest nn =>
    obtain ⟨hbuf, hopen, hsuffix, hcount⟩ := hJ.filling p rest nn rfl
    obtain ⟨hbuf', hopen', htaken, hholder⟩ := fields_fill o p rest nn
    have hheld := hlock.mp rfl
    refine ⟨⟨?_, ?_, ?_, ?_⟩, ⟨?_, ?_, ?_, ?_, fun _ => (hJ.text rfl).fill hsuffix⟩⟩
    · rw [htaken]
      exact hI.taken_lt
    · intro h
      rw [hholder, hheld] at h
      cases h
    · intro h
      rw [hbuf', hbuf] at h
      cases h
    · intro h
      rw [hopen', hopen] at h
      cases h
    · intro q left mm h
      obtain ⟨rfl, hleft, hmm⟩ := fill_eq_filling h
      grind [Bufio.round_suffix]
    · intro h
      exact absurd h (fill_ne o p rest nn).1
    · grind [fill_eq_wrote, fill_ne]
    intro q
    rw [htaken, writes_fill]
    exact hJ.listed q
  | mark =>
    have hempty := hJ.marking rfl
    obtain ⟨before, htaken, hown, htext⟩ := hJ.text rfl
    refine ⟨⟨hI.taken_lt, hI.free, hI.unbuffered, fun _ => hempty⟩, .of_plain rfl hJ.listed fun _ => ?_⟩
    exact ⟨before, htaken, hown, htext⟩
  | @release r hheld =>
    obtain ⟨before, htaken, hown, htext⟩ := hJ.text rfl
    refine ⟨⟨hI.taken_lt, fun _ => ?_, hI.unbuffered, hI.closed⟩, ⟨?_, ?_, ?_, ?_, ?_⟩⟩
    · have hflat : flat ((Pc.unlock r).ownEntry i) = (Pc.unlock r).handed := by
        cases r <;> simp [flat, Pc.ownEntry, Pc.writes, Pc.handed]
      rw [htaken, flat_append, hflat]
      exact htext
    · intro p rest nn h
      have hout := inside_afterUnlock o r
      rw [h] at hout
      cases hout
    · intro h
      have hout := inside_afterUnlock o r
      rw [h] at hout
      cases hout
    · rintro p nn (h | h)
      · have hout := inside_afterUnlock o r
        rw [h] at hout
        cases hout
      exact hJ.wrote p nn (.inl (by rw [afterUnlock_eq_wrote h]))
    · intro q
      rw [writes_afterUnlock]
      exact hJ.listed q
    intro hin
    rw [inside_afterUnlock] at hin
    cases hin
  | stop _ | finish _ => exact ⟨⟨hI.taken_lt, hI.free, hI.unbuffered, hI.closed⟩, hJ.away rfl rfl rfl rfl⟩
  | wake _ | leave _ => exact ⟨hI, hJ.away rfl rfl rfl rfl⟩
  | crash hcrash =>
    rw [hok] at hcrash
    cases hcrash

theorem buffered_moves (h : Moves i o l o' l') : o'.buffered = o.buffered := by
  cases h with
  | flush _ =>
    rw [OutputWriter.flushLocked]
    split <;> rfl
  | fill p rest nn => exact (fields_fill o p rest nn).1
  | _ => rfl

theorem taken_moves (hik : i ≠ k) (h : Moves i o l o' l') (q : Bytes) : (k, q) ∈ o'.taken ↔ (k, q) ∈ o.taken := by
  cases h with
  | take _ _ =>
    rw [List.mem_append]
    refine or_iff_left ?_
    cases l with
    | lock op =>
      cases op with
      | write p =>
        intro hmem
        cases List.mem_singleton.mp hmem
        exact hik rfl
      | _ => exact List.not_mem_nil
    | _ => exact List.not_mem_nil
  | flush _ => rw [(fields_flushLocked o).1]
  | fill p rest nn => rw [(fields_fill o p rest nn).2.2.1]
  | _ => rfl

theorem order_other (hik : i ≠ k) (hlock : LockLocal o i l) (hlock' : LockLocal o k m) (hJ : OrderLocal o k m)
    (h : Moves i o l o' l') : OrderLocal o' k m := by
  have hguard : m.inside = true → o'.w = o.w ∧ o'.closed = o.closed ∧ o'.taken = o.taken := fun hin =>
    guarded_moves hlock hik (hlock'.mp hin) h
  constructor
  · rintro p rest nn rfl
    rw [buffered_moves h, (hguard rfl).2.1]
    exact hJ.filling p rest nn rfl
  · rintro rfl
    rw [(hguard rfl).1]
    exact hJ.marking rfl
  · exact hJ.wrote
  · intro q
    rw [taken_moves hik h]
    exact hJ.listed q
  intro hin
  obtain ⟨hw, _, htaken⟩ := hguard hin
  rw [OwnText, hw, htaken]
  exact hJ.text hin

end PiiShield.Cleaner.Output
