import PiiShield.LineReader
import PiiShield.Sample

/-! The sidecar's stream: lines are read, scanned and written out, and what audit mode and the fail
policy make of a line that panics or fills the buffer. -/

namespace PiiShield.Cleaner

variable {Num : Type}

structure Metrics where
  processedBytesTotal : Nat
  errorsTotal : Nat
  redactionEventsTotal : Strategy → Nat
  auditFindingsTotal : Strategy → Nat
  auditLinesClean : Nat
  auditLinesWouldRedact : Nat

structure StatsCollector where
  redactions : Strategy → Nat
  lines : Nat
  bytes : Nat
  wouldRedact : Nat

structure Settings (Num : Type) where
  scanner : ConfigState Num
  auditMode : Bool
  metricsEnabled : Bool
  failPolicy : Bytes

structure Process (Num : Type) where
  baseline : BaselineStats Num
  metrics : Metrics
  stats : Option StatsCollector
  written : Bytes

def redactionsOf (log : List (Event (scanSig Num))) (strategy : Strategy) : Nat :=
  log.countP fun
    | .mark m _ => m.strategy == strategy
    | .call .. => false

def Process.println (p : Process Num) (text : Bytes) : Process Num :=
  { p with written := p.written ++ (text ++ [newline]) }

namespace Settings

variable (e : Settings Num)

def countMetrics (f : Metrics → Metrics) (p : Process Num) : Process Num :=
  if e.metricsEnabled then { p with metrics := f p.metrics } else p

def recordLine (text : Bytes) (p : Process Num) : Process Num :=
  let p := e.countMetrics (fun m => { m with processedBytesTotal := m.processedBytesTotal + text.length }) p
  { p with stats := p.stats.map fun s => { s with lines := s.lines + 1, bytes := s.bytes + text.length } }

/-- The source's `RedactionCallback`, for every redaction of the scan. -/
def recordRedactions (found : Strategy → Nat) (p : Process Num) : Process Num :=
  let p := e.countMetrics (fun m =>
    if e.auditMode then { m with auditFindingsTotal := fun s => m.auditFindingsTotal s + found s }
    else { m with redactionEventsTotal := fun s => m.redactionEventsTotal s + found s }) p
  { p with stats := p.stats.map fun s => { s with redactions := fun t => s.redactions t + found t } }

def recordAuditLine (wouldRedact : Bool) (p : Process Num) : Process Num :=
  let p := e.countMetrics (fun m =>
    if wouldRedact then { m with auditLinesWouldRedact := m.auditLinesWouldRedact + 1 }
    else { m with auditLinesClean := m.auditLinesClean + 1 }) p
  { p with stats := p.stats.map fun s => { s with wouldRedact := s.wouldRedact + wouldRedact.toNat } }

def recordError : Process Num → Process Num :=
  e.countMetrics fun m => { m with errorsTotal := m.errorsTotal + 1 }

def drops : Bool := e.failPolicy == bs "closed" && !e.auditMode

def overflowMarker : Bytes :=
  if e.drops then bs "[PII_SHIELD_DROP: BUFFER_OVERFLOW]"
  else bs "[PII_SHIELD_WARN: BUFFER_OVERFLOW, STREAM_BROKEN]"

def processLine (p : Process Num) (text : Bytes) : Process Num :=
  let p := e.recordLine text p
  let r := e.scanner.scanAndRedact p.baseline text
  let p := e.recordRedactions (redactionsOf r.log) { p with baseline := r.state }
  match r.res with
  | .ok _ =>
    if e.auditMode then (e.recordAuditLine (r.out != text) p).println text else p.println r.out
  | .error _ =>
    let p := e.recordError p
    if e.drops then p.println (bs "[PII_SHIELD_DROP: FATAL_ERROR]") else p.println text

def bufferLimit : Nat := 10 * 1024 * 1024

/-- The loop over standard input, and that of `streamPipeOnce` over a pipe until its writer closes
it: the two differ only in what they log. -/
def stream (p : Process Num) (input : Bytes) : Process Num :=
  let lines := LineReader.tokens (chr '\r') newline bufferLimit (input.length + 1) input
  let p := lines.1.foldl e.processLine p
  if lines.2 then (e.recordError p).println e.overflowMarker else p

end Settings

end PiiShield.Cleaner
