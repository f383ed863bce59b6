import Mathlib.Algebra.Group.Nat.Defs
import PiiShield.Tally
import PiiShield.Unicode

/-! What one read of a sidecar's counters gives: a reader of the Prometheus text format for
the series of the stats channel. -/

namespace PiiShield.Stats

/-- Running totals since the sidecar started, and the revision it runs if it says so. -/
structure Sample where
  lines : Nat
  errors : Nat
  redactions : Tally Bytes
  auditFindings : Tally Bytes
  audit : Bool
  revision : Option Bytes

def readLabelValue : Bytes → Option (Bytes × Bytes)
  | [] => none
  | [c] => if c == dquote then some ([], []) else none
  | c :: e :: s =>
    if c == dquote then some ([], e :: s)
    else if c == backslash then
      (readLabelValue s).map fun r => ((if e == 'n' then newline else e) :: r.1, r.2)
    else (readLabelValue (e :: s)).map fun r => (c :: r.1, r.2)

theorem length_readLabelValue_lt {s value rest : Bytes} (h : readLabelValue s = some (value, rest)) :
    rest.length < s.length := by
  fun_induction readLabelValue s generalizing value with
  | case1 => cases h
  | case2 c hc =>
    cases h
    exact Nat.zero_lt_one
  | case3 c hc => cases h
  | case4 c e s hc =>
    cases h
    exact Nat.lt_succ_self _
  | case5 c e s hc hb ih =>
    obtain ⟨r, hr, heq⟩ := Option.map_eq_some_iff.mp h
    cases heq
    have := ih hr
    simp only [List.length_cons]
    omega
  | case6 c e s hc hb ih =>
    obtain ⟨r, hr, heq⟩ := Option.map_eq_some_iff.mp h
    cases heq
    have := ih hr
    simp only [List.length_cons] at this ⊢
    omega

def skipSeparators (s : Bytes) : Bytes := s.dropWhile fun c : UInt8 => c == ' ' || c == ','

def readLabel (s : Bytes) : Option (Option (Bytes × Bytes) × Bytes) :=
  if firstIs (skipSeparators s) (· == '\x7d') then some (none, (skipSeparators s).drop 1)
  else
    match indexByte (skipSeparators s) '=' with
    | none => none
    | some eq =>
      if (skipSeparators s)[eq + 1]? == some dquote then
        (readLabelValue ((skipSeparators s).drop (eq + 2))).map fun r =>
          (some (trimSpace ((skipSeparators s).take eq), r.1), r.2)
      else none

theorem readLabel_value {s rest : Bytes} {l : Bytes × Bytes} (h : readLabel s = some (some l, rest)) :
    ∃ n value, readLabelValue ((skipSeparators s).drop n) = some (value, rest) := by
  rw [readLabel] at h
  split at h
  · cases h
  split at h
  · cases h
  split at h
  · obtain ⟨r, hr, heq⟩ := Option.map_eq_some_iff.mp h
    cases heq
    exact ⟨_, _, hr⟩
  · cases h

theorem length_readLabel_lt {s rest : Bytes} {l : Bytes × Bytes} (h : readLabel s = some (some l, rest)) :
    rest.length < s.length := by
  have hskip : (skipSeparators s).length ≤ s.length := List.length_dropWhile_le _ _
  obtain ⟨n, value, hr⟩ := readLabel_value h
  have hvalue := length_readLabelValue_lt hr
  rw [List.length_drop] at hvalue
  omega

def readLabels (s : Bytes) : Option (List (Bytes × Bytes) × Bytes) :=
  match _h : readLabel s with
  | none => none
  | some (none, rest) => some ([], rest)
  | some (some l, rest) => (readLabels rest).map fun r => (l :: r.1, r.2)
termination_by s.length
decreasing_by exact length_readLabel_lt _h

/-- A label given twice has its last value, one not given the empty one. -/
def label (labels : List (Bytes × Bytes)) (name : Bytes) : Bytes :=
  ((labels.reverse.find? (·.1 == name)).map Prod.snd).getD []

def firstField (s : Bytes) : Bytes :=
  let space (c : Bytes) : Bool := isSpaceRune (decodeRune c).1
  (((chunks s).dropWhile space).takeWhile (!space ·)).flatten

def splitSeries {V : Type} (parseFloat : Bytes → Option V) (line : Bytes) :
    Option (Bytes × List (Bytes × Bytes) × V) := do
  let (name, labels, rest) ← match indexByte line '\x7b' with
    | some i => (readLabels (line.drop (i + 1))).map fun r => (line.take i, r.1, r.2)
    | none => (line.findIdx? isBlank).map fun sp => (line.take sp, [], line.drop sp)
  let field := firstField rest
  if field.isEmpty then none
  else (parseFloat field).map fun v => (name, labels, v)

namespace Sample

def empty : Sample := ⟨0, 0, .empty, .empty, false, none⟩

def addSeries (s : Sample) (name : Bytes) (labels : List (Bytes × Bytes)) (value : Nat) : Sample :=
  if name == bs "piishield_processing_duration_seconds_count" then { s with lines := s.lines + value }
  else if name == bs "piishield_errors_total" then { s with errors := s.errors + value }
  else if name == bs "piishield_redaction_events_total" then
    { s with redactions := s.redactions.add (label labels (bs "type")) value }
  else if name == bs "piishield_audit_findings_total" then
    { s with auditFindings := s.auditFindings.add (label labels (bs "type")) value }
  else if name == bs "piishield_audit_mode" then { s with audit := value == 1 }
  else if name == bs "piishield_config_revision_info" && value == 1 then
    { s with revision := some (label labels (bs "revision")) }
  else s

end Sample

/-- Lines as `bufio.Scanner` gives them: without the line break, and none from one of `limit`
bytes on. -/
def scanLines (limit : Nat) (body : Bytes) : List Bytes :=
  let lines := body.splitOn newline
  let lines := if lines.getLast? == some [] then lines.dropLast else lines
  (lines.takeWhile (·.length < limit)).map fun l => trimSuffix l (bs "\r")

variable (parseFloat : Bytes → Option Nat)

def addLine (s : Sample) (line : Bytes) : Sample :=
  let line := trimSpace line
  if line.isEmpty || firstIs line (· == '#') then s
  else
    match splitSeries parseFloat line with
    | none => s
    | some (name, labels, value) => s.addSeries name labels value

def parse (body : Bytes) : Sample := (scanLines (2 ^ 20) body).foldl (addLine parseFloat) .empty

end PiiShield.Stats
