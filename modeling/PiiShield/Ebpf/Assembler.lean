import PiiShield.Bytes
import PiiShield.Durations
import PiiShield.LineReader
import Mathlib.Data.List.AList

/-! The assembler of the eBPF agent, which joins the writes of every process and descriptor into
lines. However the writes are cut, the lines are those of the stream. -/

namespace PiiShield.Ebpf

open LineReader

variable {data l : Bytes}

structure Key where
  tgid : UInt32
  fd : UInt32
  deriving DecidableEq

structure Pending where
  buf : Bytes
  seen : Int

inductive Cause
  | newline
  | overflow
  | idle
  deriving DecidableEq

/-- A call of `OnLine`. The code hands on the line alone, without its stream and cause. -/
structure Emission where
  key : Key
  line : Bytes
  cause : Cause
  deriving DecidableEq

structure Assembler where
  maxLine : Int
  overflows : UInt64
  streams : AList fun _ : Key => Pending

def defaultMaxLine : Int := 2 ^ 20

def Assembler.new : Assembler := ⟨defaultMaxLine, 0, ∅⟩

def wholeLines (data : Bytes) : List Bytes × Bytes :=
  if data.isEmpty then ([], data)
  else
    match indexByte data newline with
    | none => ([], data)
    | some i =>
      let r := wholeLines (data.drop (i + 1))
      (data.take i :: r.1, r.2)
termination_by data.length
decreasing_by
  rename_i h
  simp only [List.isEmpty_iff] at h
  have := List.length_pos_iff.mpr h
  simp only [List.length_drop]
  omega

def appendLines (buf data : Bytes) : List Bytes × Bytes :=
  if data.isEmpty then ([], buf)
  else
    match indexByte data newline with
    | none => ([], buf ++ data)
    | some i =>
      let r := appendLines [] (data.drop (i + 1))
      ((buf ++ data.take i) :: r.1, r.2)
termination_by data.length
decreasing_by
  rename_i h
  simp only [List.isEmpty_iff] at h
  have := List.length_pos_iff.mpr h
  simp only [List.length_drop]
  omega

variable (k : Key)

variable (lines : List Bytes)

def closed : List Emission := lines.map fun l => ⟨k, l, .newline⟩

namespace Assembler

variable (a : Assembler)

def pending (k : Key) : Bytes := ((a.streams.lookup k).map (·.buf)).getD []

def keep (streams : AList fun _ : Key => Pending) (k : Key) (p : Pending) : AList fun _ : Key => Pending :=
  if p.buf.isEmpty then streams.erase k else streams.insert k p

def buffer (k : Key) (buf data : Bytes) (now : Int) : Assembler × List Emission :=
  let r := appendLines buf data
  let full := decide (a.maxLine ≤ r.2.length)
  ({ a with
      overflows := if full then a.overflows + 1 else a.overflows
      streams := keep a.streams k ⟨if full then [] else r.2, now⟩ },
    closed k r.1 ++ if full then [⟨k, r.2, .overflow⟩] else [])

def push (k : Key) (data : Bytes) (now : Int) : Assembler × List Emission :=
  if (a.pending k).isEmpty then
    let r := wholeLines data
    if r.2.isEmpty then (a, closed k r.1)
    else
      let b := a.buffer k [] r.2 now
      (b.1, closed k r.1 ++ b.2)
  else a.buffer k (a.pending k) data now

def flushStep (now idle : Int) (st : Assembler × List Emission) (k : Key) : Assembler × List Emission :=
  match st.1.streams.lookup k with
  | none => st
  | some p =>
    if idle ≤ timeSub now p.seen then
      ({ st.1 with streams := st.1.streams.erase k },
        st.2 ++ if p.buf.isEmpty then [] else [⟨k, p.buf, .idle⟩])
    else st

def flushIdle (order : List Key) (now idle : Int) : Assembler × List Emission :=
  order.foldl (flushStep now idle) (a, [])

end Assembler

inductive Call
  | push (k : Key) (data : Bytes) (now : Int)
  | flushIdle (now idle : Int)

inductive Run (maxLine : Int) : List Call → List Emission → Assembler → Prop
  | new : Run maxLine [] [] { Assembler.new with maxLine := maxLine }
  | push {calls : List Call} {log : List Emission} {a : Assembler} (k : Key) (data : Bytes) (now : Int)
      (h : Run maxLine calls log a) :
      Run maxLine (calls ++ [.push k data now]) (log ++ (a.push k data now).2) (a.push k data now).1
  | flushIdle {calls : List Call} {log : List Emission} {a : Assembler} (now idle : Int) (order : List Key)
      (horder : order.Perm a.streams.keys) (h : Run maxLine calls log a) :
      Run maxLine (calls ++ [.flushIdle now idle]) (log ++ (a.flushIdle order now idle).2)
        (a.flushIdle order now idle).1

def Call.pushed : Call → Bytes
  | .push k' data _ => if k' = k then data else []
  | .flushIdle .. => []

def pushed (calls : List Call) : Bytes := calls.flatMap (Call.pushed k)

theorem pushed_concat (calls : List Call) (c : Call) :
    pushed k (calls ++ [c]) = pushed k calls ++ c.pushed k := by
  simp [pushed]

variable (log : List Emission)

def emitted : List Emission := log.filter (·.key = k)

def linesOf : List Bytes := (emitted k log).map (·.line)

theorem wholeLines_last (hl : newline ∉ l) : wholeLines l = ([], l) := by
  grind [indexByte, newline, wholeLines]

theorem wholeLines_line (rest : Bytes) (hl : newline ∉ l) :
    wholeLines (l ++ newline :: rest) = (l :: (wholeLines rest).1, (wholeLines rest).2) := by
  rw [wholeLines, indexByte, idxOf?_line hl]
  simp [drop_line]

theorem appendLines_last (buf : Bytes) (hl : newline ∉ l) : appendLines buf l = ([], buf ++ l) := by
  grind [indexByte, newline, appendLines]

theorem appendLines_line (buf rest : Bytes) (hl : newline ∉ l) :
    appendLines buf (l ++ newline :: rest) = ((buf ++ l) :: (appendLines [] rest).1, (appendLines [] rest).2) := by
  rw [appendLines, indexByte, idxOf?_line hl]
  simp [drop_line]

theorem framing_wholeLines (data : Bytes) : Framing newline data (wholeLines data).1 (wholeLines data).2 := by
  induction data using line_induction newline with
  | nil =>
    rw [wholeLines_last (by simp)]
    exact .last (by simp)
  | last l hne hl =>
    rw [wholeLines_last hl]
    exact .last hl
  | line l rest hl ih =>
    rw [wholeLines_line rest hl]
    exact ih.line hl

theorem framing_appendLines {buf : Bytes} (data : Bytes) (hbuf : newline ∉ buf) :
    Framing newline (buf ++ data) (appendLines buf data).1 (appendLines buf data).2 := by
  induction data using line_induction newline generalizing buf with
  | nil =>
    rw [appendLines_last buf (by simp)]
    exact .last (by simpa using hbuf)
  | last l hne hl =>
    rw [appendLines_last buf hl]
    exact .last (by simp [hbuf, hl])
  | line l rest hl ih =>
    rw [appendLines_line buf rest hl, ← List.append_assoc]
    exact (ih (List.not_mem_nil)).line (by simp [hbuf, hl])

def Emission.text (e : Emission) : Bytes := e.line ++ if e.cause = .newline then [newline] else []

def textOf : Bytes := log.flatMap Emission.text

def overflowsIn : Nat := log.countP (·.cause = .overflow)

theorem textOf_append (log log' : List Emission) : textOf (log ++ log') = textOf log ++ textOf log' := by
  simp [textOf]

theorem overflowsIn_append (log log' : List Emission) :
    overflowsIn (log ++ log') = overflowsIn log + overflowsIn log' := by
  simp [overflowsIn]

theorem textOf_closed : textOf (closed k lines) = rejoin newline lines := by
  simp [textOf, closed, rejoin, List.flatMap_map, Emission.text]

theorem overflowsIn_closed : overflowsIn (closed k lines) = 0 := by
  simp [overflowsIn, closed, List.countP_eq_zero]

theorem mem_closed {k : Key} {lines : List Bytes} {e : Emission} (he : e ∈ closed k lines) :
    e.key = k ∧ e.line ∈ lines := by
  obtain ⟨l, hl, rfl⟩ := List.mem_map.mp he
  exact ⟨rfl, hl⟩

structure Pending.Open (maxLine : Int) (p : Pending) : Prop where
  nonempty : p.buf ≠ []
  line : newline ∉ p.buf
  short : 1 ≤ maxLine → (p.buf.length : Int) < maxLine

/-- Bytes pushed on one stream, and what is handed on for them. -/
structure Moves (k : Key) (data : Bytes) (out : List Emission) (a a' : Assembler) : Prop where
  maxLine : a'.maxLine = a.maxLine
  others : ∀ k', k' ≠ k → a'.streams.lookup k' = a.streams.lookup k'
  stored : ∀ p, a'.streams.lookup k = some p → p.Open a.maxLine
  emissions : ∀ e ∈ out, e.key = k ∧ newline ∉ e.line
  text : textOf out ++ a'.pending k = a.pending k ++ data
  overflows : a'.overflows = a.overflows + .ofNat (overflowsIn out)

namespace Assembler

def Stored (a : Assembler) : Prop := ∀ k p, a.streams.lookup k = some p → p.Open a.maxLine

variable {a : Assembler} {k : Key}

theorem pending_of_lookup {p : Pending} (h : a.streams.lookup k = some p) : a.pending k = p.buf := by
  rw [pending, h]
  rfl

theorem Stored.newline_not_mem (h : a.Stored) (k : Key) : newline ∉ a.pending k := by
  cases hk : a.streams.lookup k with
  | none => simp [pending, hk]
  | some p =>
    rw [pending_of_lookup hk]
    exact (h k p hk).line

theorem lookup_keep_ne {k' : Key} (streams : AList fun _ : Key => Pending) (p : Pending) (h : k' ≠ k) :
    (keep streams k p).lookup k' = streams.lookup k' := by
  rw [keep]
  split
  · exact AList.lookup_erase_ne h
  exact AList.lookup_insert_ne h

theorem lookup_keep (streams : AList fun _ : Key => Pending) (k : Key) (p : Pending) :
    (keep streams k p).lookup k = if p.buf = [] then none else some p := by
  rw [keep]
  by_cases h : p.buf = []
  · rw [if_pos h, if_pos (List.isEmpty_iff.mpr h), AList.lookup_erase]
  simp [if_neg h]

theorem moves_keep {out : List Emission} {p : Pending} {overflows : UInt64}
    (hopen : p.buf ≠ [] → p.Open a.maxLine) (hout : ∀ e ∈ out, e.key = k ∧ newline ∉ e.line)
    (htext : textOf out ++ p.buf = a.pending k ++ data)
    (hover : overflows = a.overflows + .ofNat (overflowsIn out)) :
    Moves k data out a { a with overflows := overflows, streams := keep a.streams k p } where
  maxLine := rfl
  others k' hne := lookup_keep_ne _ _ hne
  stored q hq := by
    grind [lookup_keep]
  emissions := hout
  text := by
    have hpending : pending { a with overflows := overflows, streams := keep a.streams k p } k = p.buf := by
      rw [pending, lookup_keep]
      split
      · next h => simp [h]
      rfl
    rw [hpending, htext]
  overflows := hover

theorem buffer_moves {buf : Bytes} (data : Bytes) (now : Int) (hbuf : a.pending k = buf) (hline : newline ∉ buf) :
    Moves k data (a.buffer k buf data now).2 a (a.buffer k buf data now).1 := by
  have hframing := framing_appendLines data hline
  have hclosed : ∀ e ∈ closed k (appendLines buf data).1, e.key = k ∧ newline ∉ e.line := fun e he =>
    ⟨(mem_closed he).1, hframing.closed _ (mem_closed he).2⟩
  rw [buffer]
  by_cases hfull : a.maxLine ≤ (appendLines buf data).2.length
  · simp only [hfull, decide_true, if_true]
    refine moves_keep (fun h => absurd rfl h) (fun e he => ?_) ?_ ?_
    · rcases List.mem_append.mp he with he | he
      · exact hclosed e he
      rw [List.mem_singleton.mp he]
      exact ⟨rfl, hframing.left_open⟩
    · rw [textOf_append, textOf_closed, hbuf, ← hframing.text]
      simp [textOf, Emission.text]
    rw [overflowsIn_append, overflowsIn_closed]
    rfl
  simp only [hfull, decide_false, Bool.false_eq_true, if_false, List.append_nil]
  refine moves_keep (fun h => ⟨h, hframing.left_open, fun _ => by simpa using hfull⟩) hclosed ?_ ?_
  · rw [textOf_closed, hbuf, hframing.text]
  rw [overflowsIn_closed]
  exact (UInt64.add_zero _).symm

theorem closed_moves {lines : List Bytes} (h : Framing newline data lines [])
    (hk : a.streams.lookup k = none) : Moves k data (closed k lines) a a where
  maxLine := rfl
  others _ _ := rfl
  stored p hp := by
    rw [hk] at hp
    cases hp
  emissions e he := ⟨(mem_closed he).1, h.closed _ (mem_closed he).2⟩
  text := by
    rw [textOf_closed, ← h.text, pending, hk]
    simp
  overflows := by
    rw [overflowsIn_closed]
    exact (UInt64.add_zero _).symm

end Assembler

theorem Moves.trans {k : Key} {d d' : Bytes} {out out' : List Emission} {a b c : Assembler} (h : Moves k d out a b)
    (h' : Moves k d' out' b c) : Moves k (d ++ d') (out ++ out') a c where
  maxLine := h'.maxLine.trans h.maxLine
  others k' hne := (h'.others k' hne).trans (h.others k' hne)
  stored p hp := h.maxLine ▸ h'.stored p hp
  emissions e he := (List.mem_append.mp he).elim (h.emissions e) (h'.emissions e)
  text := by
    rw [textOf_append, List.append_assoc, h'.text, ← List.append_assoc, h.text, List.append_assoc]
  overflows := by
    rw [h'.overflows, h.overflows, overflowsIn_append, UInt64.ofNat_add, UInt64.add_assoc]

namespace Assembler

variable {a : Assembler} {k : Key}

theorem push_moves (data : Bytes) (now : Int) (h : a.Stored) :
    Moves k data (a.push k data now).2 a (a.push k data now).1 := by
  rw [push]
  by_cases hk : a.pending k = []
  · have hnone : a.streams.lookup k = none := by
      cases hp : a.streams.lookup k with
      | none => rfl
      | some p => exact absurd ((pending_of_lookup hp).symm.trans hk) (h k p hp).nonempty
    have hframing := framing_wholeLines data
    have hlines : Framing newline (rejoin newline (wholeLines data).1) (wholeLines data).1 [] :=
      ⟨List.append_nil _, hframing.closed, List.not_mem_nil⟩
    rw [hk, List.isEmpty_nil, if_pos rfl]
    by_cases hrest : (wholeLines data).2 = []
    · simp_all [List.isEmpty_nil, closed_moves]
    simp only [mt List.isEmpty_iff.mp hrest]
    have hbuffer := buffer_moves (wholeLines data).2 now hk List.not_mem_nil
    have := (closed_moves hlines hnone).trans hbuffer
    rwa [hframing.text] at this
  rw [if_neg (mt List.isEmpty_iff.mp hk)]
  exact buffer_moves data now rfl (h.newline_not_mem k)

theorem erase_moves {p : Pending} (h : p.Open a.maxLine) (hk : a.streams.lookup k = some p) :
    Moves k [] [⟨k, p.buf, .idle⟩] a { a with streams := a.streams.erase k } := by
  have hkeep : keep a.streams k ⟨[], 0⟩ = a.streams.erase k := rfl
  rw [← hkeep]
  refine moves_keep (fun hne => absurd rfl hne) (fun e he => ?_) ?_ (UInt64.add_zero _).symm
  · rw [List.mem_singleton.mp he]
    exact ⟨rfl, h.line⟩
  rw [pending_of_lookup hk]
  simp [textOf, Emission.text]

end Assembler

/-- An assembler against what was pushed on its streams and what it handed on. -/
structure Accounts (maxLine : Int) (stream : Key → Bytes) (log : List Emission) (a : Assembler) : Prop where
  bound : a.maxLine = maxLine
  stored : a.Stored
  text : ∀ k, textOf (emitted k log) ++ a.pending k = stream k
  lines : ∀ e ∈ log, newline ∉ e.line
  overflows : a.overflows = .ofNat (overflowsIn log)

namespace Accounts

variable {maxLine : Int} {stream stream' : Key → Bytes} {log out : List Emission} {a a' : Assembler} {k : Key}

theorem moves (h : Accounts maxLine stream log a) (hmoves : Moves k data out a a')
    (hk : stream' k = stream k ++ data) (hothers : ∀ k', k' ≠ k → stream' k' = stream k') :
    Accounts maxLine stream' (log ++ out) a' where
  bound := hmoves.maxLine.trans h.bound
  stored k' p hp := by
    rw [hmoves.maxLine]
    by_cases hne : k' = k
    · subst hne
      exact hmoves.stored p hp
    exact h.stored k' p ((hmoves.others k' hne).symm.trans hp)
  text k' := by
    rw [emitted, List.filter_append, textOf_append]
    by_cases hne : k' = k
    · subst hne
      have hall : out.filter (·.key = k') = out := by
        rw [List.filter_eq_self]
        exact fun e he => decide_eq_true (hmoves.emissions e he).1
      rw [hall, List.append_assoc, hmoves.text, ← List.append_assoc, hk, ← h.text k', emitted]
    have hnone : out.filter (·.key = k') = [] := by
      rw [List.filter_eq_nil_iff]
      intro e he heq
      exact hne ((of_decide_eq_true heq).symm.trans (hmoves.emissions e he).1)
    have hpending : a'.pending k' = a.pending k' := by
      simp [Assembler.pending, hmoves.others k' hne]
    rw [hnone, hothers k' hne, hpending, ← h.text k', emitted]
    simp [textOf]
  lines e he := (List.mem_append.mp he).elim (h.lines e) fun he => (hmoves.emissions e he).2
  overflows := by
    rw [hmoves.overflows, h.overflows, overflowsIn_append, UInt64.ofNat_add]

theorem flushStep {st : Assembler × List Emission} (h : Accounts maxLine stream (log ++ st.2) st.1)
    (now idle : Int) (k : Key) :
    Accounts maxLine stream (log ++ (Assembler.flushStep now idle st k).2) (Assembler.flushStep now idle st k).1 := by
  rw [Assembler.flushStep]
  cases hk : st.1.streams.lookup k with
  | none => exact h
  | some p =>
    by_cases hidle : idle ≤ timeSub now p.seen
    · have hopen := h.stored k p hk
      simp only [hidle, if_true, mt List.isEmpty_iff.mp hopen.nonempty]
      rw [← List.append_assoc]
      exact h.moves (Assembler.erase_moves hopen hk) (List.append_nil _).symm fun _ _ => rfl
    simp only [hidle, if_false]
    exact h

theorem flushIdle (h : Accounts maxLine stream log a) (order : List Key) (now idle : Int) :
    Accounts maxLine stream (log ++ (a.flushIdle order now idle).2) (a.flushIdle order now idle).1 := by
  have hfold : ∀ st : Assembler × List Emission, Accounts maxLine stream (log ++ st.2) st.1 →
      Accounts maxLine stream (log ++ (order.foldl (Assembler.flushStep now idle) st).2)
        (order.foldl (Assembler.flushStep now idle) st).1 := by
    induction order with
    | nil => exact fun st hst => hst
    | cons k order ih => exact fun st hst => ih _ (hst.flushStep now idle k)
  exact hfold (a, []) (by simpa using h)

theorem push (h : Accounts maxLine stream log a) (k : Key) (data : Bytes) (now : Int)
    (hstream : ∀ k', stream' k' = stream k' ++ if k = k' then data else []) :
    Accounts maxLine stream' (log ++ (a.push k data now).2) (a.push k data now).1 := by
  refine h.moves (Assembler.push_moves data now h.stored) ?_ fun k' hne => ?_
  · rw [hstream k, if_pos rfl]
  simp [hstream k', if_neg (Ne.symm hne)]

theorem flatten_linesOf (h : Accounts maxLine stream log a) (k : Key) :
    (linesOf k log).flatten ++ a.pending k = (stream k).filter (· ≠ newline) := by
  have hself : ∀ l : Bytes, newline ∉ l → l.filter (· ≠ newline) = l := by grind [List.filter_eq_self]
  have htext : ∀ e ∈ emitted k log, e.text.filter (· ≠ newline) = e.line := by
    intro e he
    have hline := hself e.line (h.lines e (List.mem_of_mem_filter he))
    rw [Emission.text, List.filter_append, hline]
    split <;> simp
  rw [← h.text k, List.filter_append, hself _ (h.stored.newline_not_mem k), textOf, List.filter_flatMap,
    List.flatMap_congr htext, linesOf, List.flatMap_def]

theorem framing (h : Accounts maxLine stream log a) (k : Key)
    (hcause : ∀ e ∈ emitted k log, e.cause = .newline) :
    Framing newline (stream k) (linesOf k log) (a.pending k) where
  text := by
    have htext : ∀ e ∈ emitted k log, e.text = e.line ++ [newline] := by
      intro e he
      rw [Emission.text, if_pos (hcause e he)]
    rw [← h.text k, textOf, List.flatMap_congr htext, rejoin, linesOf, List.flatMap_map]
  closed l hl := by
    obtain ⟨e, he, rfl⟩ := List.mem_map.mp hl
    exact h.lines e (List.mem_of_mem_filter he)
  left_open := h.stored.newline_not_mem k

end Accounts

theorem Run.accounts {maxLine : Int} {calls : List Call} {log : List Emission} {a : Assembler}
    (h : Run maxLine calls log a) : Accounts maxLine (fun k => pushed k calls) log a := by
  induction h with
  | new =>
    refine ⟨rfl, fun k p hp => ?_, fun k => ?_, fun e he => ?_, rfl⟩
    · rw [Assembler.new, AList.lookup_empty] at hp
      cases hp
    · rfl
    · cases he
  | push k data now h ih =>
    refine ih.push k data now fun k' => ?_
    rw [pushed_concat, Call.pushed]
  | flushIdle now idle order horder h ih =>
    simp only [pushed_concat, Call.pushed, List.append_nil]
    exact ih.flushIdle order now idle

/-- Lines are put together the same however the writes are cut and interleaved. -/
theorem lines_independent_of_cuts {maxLine : Int} {calls : List Call} {log : List Emission} {a : Assembler}
    (h : Run maxLine calls log a) :
    (∀ k, (∀ e ∈ emitted k log, e.cause = .newline) →
      (pushed k calls).splitOn newline = linesOf k log ++ [a.pending k]) ∧
    (∀ k p, a.streams.lookup k = some p →
      p.buf ≠ [] ∧ newline ∉ p.buf ∧ (1 ≤ maxLine → (p.buf.length : Int) < maxLine)) ∧
    (∀ k, (linesOf k log).flatten ++ a.pending k = (pushed k calls).filter (· ≠ newline)) ∧
    a.overflows = .ofNat (overflowsIn log) := by
  have hacc := h.accounts
  refine ⟨fun k hcause => (hacc.framing k hcause).splitOn, fun k p hp => ?_, hacc.flatten_linesOf, hacc.overflows⟩
  obtain ⟨hne, hline, hshort⟩ := hacc.stored k p hp
  rw [hacc.bound] at hshort
  exact ⟨hne, hline, hshort⟩

theorem lines_of_cut_write : ∃ log a,
    Run 10 [.push ⟨7, 1⟩ (bs "ab") 1, .push ⟨8, 1⟩ (bs "x") 2, .push ⟨7, 1⟩ (bs "c\nd") 3] log a ∧
    linesOf ⟨7, 1⟩ log = [bs "abc"] ∧ a.pending ⟨7, 1⟩ = bs "d" ∧
    (bs "abc\nd").splitOn newline = linesOf ⟨7, 1⟩ log ++ [a.pending ⟨7, 1⟩] := by
  have hrun := Run.push ⟨7, 1⟩ (bs "c\nd") 3
    (.push ⟨8, 1⟩ (bs "x") 2 (.push ⟨7, 1⟩ (bs "ab") 1 (.new : Run 10 [] [] _)))
  exact ⟨_, _, hrun, by decide +kernel, by decide +kernel,
    (lines_independent_of_cuts hrun).1 ⟨7, 1⟩ (by decide +kernel)⟩

end PiiShield.Ebpf
