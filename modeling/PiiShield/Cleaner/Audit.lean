import PiiShield.Cleaner.Stream

/-! Audit mode writes every line it reads, whatever the scanner makes of it. The stream comes out
unchanged as far as its line endings are those the sidecar writes. -/

namespace PiiShield.Cleaner

variable {Num : Type}

section Written

variable (e : Settings Num)

@[simp] theorem written_countMetrics (f : Metrics → Metrics) (p : Process Num) :
    (e.countMetrics f p).written = p.written := by
  rw [Settings.countMetrics]
  split <;> rfl

@[simp] theorem written_recordLine (text : Bytes) (p : Process Num) :
    (e.recordLine text p).written = p.written :=
  written_countMetrics e _ p

@[simp] theorem written_recordRedactions (found : Strategy → Nat) (p : Process Num) :
    (e.recordRedactions found p).written = p.written :=
  written_countMetrics e _ p

@[simp] theorem written_recordAuditLine (wouldRedact : Bool) (p : Process Num) :
    (e.recordAuditLine wouldRedact p).written = p.written :=
  written_countMetrics e _ p

@[simp] theorem written_recordError (p : Process Num) : (e.recordError p).written = p.written :=
  written_countMetrics e _ p

@[simp] theorem written_println (p : Process Num) (text : Bytes) :
    (p.println text).written = p.written ++ (text ++ [newline]) := rfl

end Written

variable {e : Settings Num}

theorem written_processLine (haudit : e.auditMode = true) (p : Process Num) (text : Bytes) :
    (e.processLine p text).written = p.written ++ (text ++ [newline]) := by
  rw [Settings.processLine]
  cases (e.scanner.scanAndRedact (e.recordLine text p).baseline text).res with
  | ok _ => simp [haudit]
  | error _ => simp [Settings.drops, haudit]

theorem written_lines (haudit : e.auditMode = true) (lines : List Bytes) (p : Process Num) :
    (lines.foldl e.processLine p).written = p.written ++ LineReader.rejoin newline lines := by
  induction lines generalizing p with
  | nil => simp [LineReader.rejoin]
  | cons text lines ih =>
    rw [List.foldl_cons, ih, written_processLine haudit]
    simp [LineReader.rejoin]

theorem written_stream (haudit : e.auditMode = true) (p : Process Num) {input : Bytes}
    (hfits : LineReader.Fits newline Settings.bufferLimit input) :
    (e.stream p input).written = p.written ++ LineReader.rejoin newline
      (LineReader.tokens (chr '\r') newline Settings.bufferLimit (input.length + 1) input).1 := by
  have hread : (LineReader.tokens (chr '\r') newline Settings.bufferLimit (input.length + 1) input).2 = false :=
    LineReader.tokens_fits (by decide) hfits (Nat.lt_succ_self _)
  rw [Settings.stream, hread]
  exact written_lines haudit _ p

/-- In audit mode a stream of fitting lines is written unchanged exactly when each of its lines ends
in a line break with no carriage return before it. -/
theorem audit_unchanged_iff (e : Settings Num) (haudit : e.auditMode = true) (p : Process Num) (input : Bytes)
    (hfits : LineReader.Fits newline Settings.bufferLimit input) :
    (e.stream p input).written = p.written ++ input ↔ LineReader.PlainEndings (chr '\r') newline input := by
  rw [written_stream haudit p hfits, List.append_cancel_left_eq]
  exact LineReader.rejoin_tokens_iff (by decide) (by decide) hfits (Nat.lt_succ_self _)

/-- The sidecar in audit mode under a closed fail policy, before its first line. -/
def auditSidecar : Settings Int := ⟨.sample, true, true, bs "closed"⟩

def idleProcess : Process Int := ⟨newBaselineStats, ⟨0, 0, fun _ => 0, fun _ => 0, 0, 0⟩, none, []⟩

theorem audit_unchanged_request :
    LineReader.Fits newline Settings.bufferLimit (bs "password: hunter2\nGET /\n") ∧
      (auditSidecar.stream idleProcess (bs "password: hunter2\nGET /\n")).written =
        bs "password: hunter2\nGET /\n" := by
  have hfits : LineReader.Fits newline Settings.bufferLimit (bs "password: hunter2\nGET /\n") :=
    LineReader.fits_of_length (by decide)
  refine ⟨hfits, (audit_unchanged_iff auditSidecar rfl idleProcess _ hfits).mpr ⟨.inr (by decide), ?_⟩⟩
  decide

/-- A carriage return before the line break is lost, and a last line without a break gets one. -/
theorem audit_changes_endings :
    ((auditSidecar.stream idleProcess (bs "GET /\r\n")).written = bs "GET /\n" ∧
      bs "GET /\n" ≠ bs "GET /\r\n") ∧
    (auditSidecar.stream idleProcess (bs "GET /")).written = bs "GET /\n" ∧ bs "GET /\n" ≠ bs "GET /" := by
  refine ⟨⟨?_, by decide⟩, ?_, by decide⟩
  · rw [written_stream rfl idleProcess (LineReader.fits_of_length (by decide))]
    decide +kernel
  rw [written_stream rfl idleProcess (LineReader.fits_of_length (by decide))]
  decide +kernel

end PiiShield.Cleaner
