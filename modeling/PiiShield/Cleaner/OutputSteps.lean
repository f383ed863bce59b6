import PiiShield.Cleaner.Output

/-! The operations of a thread on the output writer, and the lock: a thread is inside exactly if it
holds the lock, and what the lock guards is left alone by the others. -/

namespace PiiShield.Cleaner.Output

open OutputWriter (advance)

namespace Pc

def inside : Pc → Bool
  | .body _ | .tickBody | .filling .. | .marking | .unlock _ => true
  | _ => false

def isTimer : Pc → Bool
  | .tickLock | .tickBody | .unlock .ticked | .selecting | .ending | .ended => true
  | _ => false

def writes : Pc → Option Bytes
  | .body (.write p) | .filling p _ _ | .unlock (.wrote p _) | .returned (.wrote p _) => some p
  | _ => none

def isStopper : Pc → Bool
  | .unlock (.closed false) | .stopping => true
  | _ => false

def hasClosed : Pc → Bool
  | .unlock (.closed _) | .stopping | .waiting | .returned (.closed _) => true
  | _ => false

end Pc

variable {i k n : Nat} {o o' : OutputWriter} {l l' m : Pc}

namespace Pc

def entered : Pc → Option Pc
  | .lock op => some (.body op)
  | .tickLock => some .tickBody
  | _ => none

def flushed : Pc → Option Pc
  | .body .flush => some (.unlock .flushed)
  | .body .close => some .marking
  | .tickBody => some (.unlock .ticked)
  | _ => none

def entry (i : Nat) : Pc → List (Nat × Bytes)
  | .lock op => op.entry i
  | _ => []

def crashes (o : OutputWriter) : Pc → Bool
  | .unlock _ => o.holder.isNone
  | .stopping => o.stop
  | .ending => o.done
  | _ => false

end Pc

inductive Moves (i : Nat) (o : OutputWriter) : Pc → OutputWriter → Pc → Prop
  | take {l l' : Pc} (hl : l.entered = some l') (hfree : o.holder = none) :
      Moves i o l { o with holder := some i, taken := o.taken ++ l.entry i } l'
  | pass {p : Bytes} (h : o.buffered = false ∨ o.closed = true) :
      Moves i o (.body (.write p)) { o with w := o.w.through p } (.unlock (.wrote p p.length))
  | start {p : Bytes} (hbuf : o.buffered = true) (hopen : o.closed = false) :
      Moves i o (.body (.write p)) o (.filling p p 0)
  | flush {l l' : Pc} (hl : l.flushed = some l') : Moves i o l o.flushLocked l'
  | fill (p rest : Bytes) (nn : Nat) :
      Moves i o (.filling p rest nn) (o.fill p rest nn).1 (o.fill p rest nn).2
  | mark :
      Moves i o .marking { o with closed := true, closer := if o.closed then o.closer else some i }
        (.unlock (.closed o.closed))
  | release {r : Reply} (hheld : o.holder ≠ none) :
      Moves i o (.unlock r) { o with holder := none } (o.afterUnlock r)
  | stop (h : o.stop = false) : Moves i o .stopping { o with stop := true } .waiting
  | wake (h : o.done = true) : Moves i o .waiting o (.returned (.closed false))
  | leave (h : o.stop = true) : Moves i o .selecting o .ending
  | finish (h : o.done = false) : Moves i o .ending { o with done := true } .ended
  | crash {l : Pc} (h : l.crashes o = true) : Moves i o l { o with panicked := true } .ended

theorem moves_of_advance (h : advance i o l = some (o', l')) : Moves i o l o' l' := by
  cases l with
  | lock op =>
    rw [advance] at h
    split at h
    · next hfree =>
      cases h
      exact .take rfl (Option.isNone_iff_eq_none.mp hfree)
    · cases h
  | tickLock =>
    rw [advance] at h
    split at h
    · next hfree =>
      cases h
      have hmove := Moves.take (i := i) (l := .tickLock) rfl (Option.isNone_iff_eq_none.mp hfree)
      have hent : Pc.tickLock.entry i = [] := rfl
      rwa [hent, List.append_nil] at hmove
    · cases h
  | body op =>
    cases op with
    | write p =>
      rw [advance] at h
      split at h
      · next hpass =>
        cases h
        rw [Bool.or_eq_true, Bool.not_eq_true'] at hpass
        exact .pass hpass
      · next hpass =>
        cases h
        simp only [Bool.or_eq_true, Bool.not_eq_true', not_or, Bool.not_eq_false, Bool.not_eq_true] at hpass
        exact .start hpass.1 hpass.2
    | flush | close =>
      cases h
      exact .flush rfl
  | tickBody =>
    cases h
    exact .flush rfl
  | filling p rest nn =>
    have hfill := Option.some.inj h
    have hmove := Moves.fill (i := i) (o := o) p rest nn
    rwa [hfill] at hmove
  | marking =>
    cases h
    exact .mark
  | unlock r =>
    rw [advance] at h
    split at h
    · next hfree =>
      cases h
      exact .crash hfree
    · next hheld =>
      cases h
      exact .release fun hnone => hheld (Option.isNone_iff_eq_none.mpr hnone)
  | stopping =>
    rw [advance] at h
    split at h
    · next hstop =>
      cases h
      exact .crash hstop
    · next hstop =>
      cases h
      exact .stop (Bool.not_eq_true _ ▸ hstop)
  | waiting =>
    rw [advance] at h
    split at h
    · next hdone =>
      cases h
      exact .wake hdone
    · cases h
  | returned r => cases h
  | selecting =>
    rw [advance] at h
    split at h
    · next hstop =>
      cases h
      exact .leave hstop
    · cases h
  | ending =>
    rw [advance] at h
    split at h
    · next hdone =>
      cases h
      exact .crash hdone
    · next hdone =>
      cases h
      exact .finish (Bool.not_eq_true _ ▸ hdone)
  | ended => cases h

section Facts

theorem inside_entered (h : l.entered = some l') : l.inside = false ∧ l'.inside = true := by
  cases l <;> cases h <;> exact ⟨rfl, rfl⟩

theorem inside_flushed (h : l.flushed = some l') : l.inside = true ∧ l'.inside = true := by
  cases l with
  | body op => cases op <;> cases h <;> exact ⟨rfl, rfl⟩
  | tickBody =>
    cases h
    exact ⟨rfl, rfl⟩
  | _ => cases h

theorem inside_fill (o : OutputWriter) (p rest : Bytes) (nn : Nat) : (o.fill p rest nn).2.inside = true := by
  rw [OutputWriter.fill]
  split <;> rfl

theorem inside_afterUnlock (o : OutputWriter) (r : Reply) : (o.afterUnlock r).inside = false := by
  cases r with
  | closed wasClosed =>
    rw [OutputWriter.afterUnlock]
    split <;> rfl
  | _ => rfl

theorem fields_flushLocked (o : OutputWriter) :
    o.flushLocked.taken = o.taken ∧ o.flushLocked.holder = o.holder := by
  rw [OutputWriter.flushLocked]
  split <;> exact ⟨rfl, rfl⟩

section Fill

variable {p q rest left : Bytes} {nn mm : Nat}

theorem fields_fill (o : OutputWriter) (p rest : Bytes) (nn : Nat) :
    (o.fill p rest nn).1.buffered = o.buffered ∧ (o.fill p rest nn).1.closed = o.closed ∧
      (o.fill p rest nn).1.taken = o.taken ∧ (o.fill p rest nn).1.holder = o.holder := by
  rw [OutputWriter.fill]
  split <;> exact ⟨rfl, rfl, rfl, rfl⟩

theorem fill_eq_filling (h : (o.fill p rest nn).2 = .filling q left mm) :
    p = q ∧ left = (o.w.round outputBufferSize rest).2 ∧ mm = nn + (rest.length - left.length) := by
  grind [OutputWriter.fill]

theorem fill_eq_wrote (h : (o.fill p rest nn).2 = .unlock (.wrote q mm)) : p = q ∧ mm = nn + rest.length := by
  grind [OutputWriter.fill]

theorem fill_ne (o : OutputWriter) (p rest : Bytes) (nn : Nat) :
    (o.fill p rest nn).2 ≠ .marking ∧ ∀ r, (o.fill p rest nn).2 ≠ .returned r := by
  rw [OutputWriter.fill]
  split <;> exact ⟨Pc.noConfusion, fun _ => Pc.noConfusion⟩

theorem writes_fill (o : OutputWriter) (p rest : Bytes) (nn : Nat) : (o.fill p rest nn).2.writes = some p := by
  rw [OutputWriter.fill]
  split <;> rfl

end Fill

end Facts

def LockShared (n : Nat) (o : OutputWriter) : Prop := ∀ i, o.holder = some i → i < n

def LockLocal (o : OutputWriter) (i : Nat) (l : Pc) : Prop := l.inside = true ↔ o.holder = some i

theorem lock_own (hI : LockShared n o) (hi : i < n) (hok : l.crashes o = false) (hJ : LockLocal o i l)
    (h : Moves i o l o' l') :
    LockShared n o' ∧ LockLocal o' i l' := by
  cases h with
  | take hl hfree =>
    refine ⟨?_, iff_of_true (inside_entered hl).2 rfl⟩
    intro k hk
    cases hk
    exact hi
  | pass _ | start _ _ | mark => exact ⟨hI, iff_of_true rfl (hJ.mp rfl)⟩
  | flush hl =>
    have hheld := hJ.mp (inside_flushed hl).1
    refine ⟨?_, iff_of_true (inside_flushed hl).2 (by rw [(fields_flushLocked o).2, hheld])⟩
    intro k hk
    rw [(fields_flushLocked o).2] at hk
    exact hI k hk
  | fill p rest nn =>
    have hheld := hJ.mp rfl
    refine ⟨?_, iff_of_true (inside_fill o p rest nn) (by rw [(fields_fill o p rest nn).2.2.2, hheld])⟩
    intro k hk
    rw [(fields_fill o p rest nn).2.2.2] at hk
    exact hI k hk
  | release _ =>
    refine ⟨?_, iff_of_false (by rw [inside_afterUnlock]; exact Bool.false_ne_true) (fun h => by cases h)⟩
    intro k hk
    cases hk
  | stop _ | wake _ | leave _ | finish _ => exact ⟨hI, hJ⟩
  | crash hcrash =>
    rw [hok] at hcrash
    cases hcrash

theorem holder_moves (hJ : LockLocal o i l) (hik : i ≠ k) (h : Moves i o l o' l') :
    o'.holder = some k ↔ o.holder = some k := by
  cases h with
  | take _ hfree =>
    simp_all
  | flush _ => rw [(fields_flushLocked o).2]
  | fill p rest nn => rw [(fields_fill o p rest nn).2.2.2]
  | release _ =>
    have hheld := hJ.mp rfl
    simp_all
  | pass _ => rfl
  | start _ _ => rfl
  | mark => rfl
  | stop _ => rfl
  | wake _ => rfl
  | leave _ => rfl
  | finish _ => rfl
  | crash _ => rfl

theorem lock_other (hik : i ≠ k) (hJ : LockLocal o i l) (hk : LockLocal o k m) (h : Moves i o l o' l') :
    LockLocal o' k m := by
  rw [LockLocal, holder_moves hJ hik h]
  exact hk

theorem guarded_moves (hJ : LockLocal o i l) (hik : i ≠ k) (hheld : o.holder = some k)
    (h : Moves i o l o' l') : o'.w = o.w ∧ o'.closed = o.closed ∧ o'.taken = o.taken := by
  have hout : ¬ l.inside = true := by
    intro hin
    rw [hJ.mp hin] at hheld
    exact hik (Option.some.inj hheld)
  cases h with
  | take _ hfree =>
    rw [hheld] at hfree
    cases hfree
  | flush hl => exact absurd (inside_flushed hl).1 hout
  | pass _ | start _ _ | fill p rest nn | mark | release _ => exact absurd rfl hout
  | stop _ | wake _ | leave _ | finish _ | crash _ => exact ⟨rfl, rfl, rfl⟩

end PiiShield.Cleaner.Output
