import PiiShield.BufferedWriter
import PiiShield.Bytes
import PiiShield.Threads

/-! The sanitized stream's writer. Callers and the timer are threads that advance one operation on
the writer at a time; a call to the destination and the bookkeeping behind it are one operation. -/

namespace PiiShield.Cleaner.Output

open Threads (System)

def outputBufferSize : Nat := 64 * 1024

structure OutputWriter where
  /-- Who holds `mu`. -/
  holder : Option Nat
  /-- The destination and the content of `buf`. -/
  w : Bufio UInt8
  /-- Whether `buf` is not nil. -/
  buffered : Bool
  closed : Bool
  /-- Whether the channels `stop` and `done` are closed. -/
  stop : Bool
  done : Bool
  /-- A channel was closed twice or a free lock released. -/
  panicked : Bool
  /-- The writes so far, as they took the lock. -/
  taken : List (Nat × Bytes)
  /-- The first `Close`. -/
  closer : Option Nat

inductive Op
  | write (p : Bytes)
  | flush
  | close
  deriving DecidableEq

def Op.entry (i : Nat) : Op → List (Nat × Bytes)
  | .write p => [(i, p)]
  | _ => []

/-- A call on its way out of the lock, with what it returns. The error is always nil. -/
inductive Reply
  | wrote (p : Bytes) (nn : Nat)
  | flushed
  | closed (wasClosed : Bool)
  | ticked
  deriving DecidableEq

inductive Pc
  /-- At `mu.Lock`, in a call or in the flush of the timer. -/
  | lock (op : Op)
  | tickLock
  /-- At the first operation under the lock. -/
  | body (op : Op)
  | tickBody
  /-- In the loop of `buf.Write`. -/
  | filling (p rest : Bytes) (nn : Nat)
  /-- In `Close`, behind `flushLocked`. -/
  | marking
  /-- At `mu.Unlock`. -/
  | unlock (r : Reply)
  /-- In `Close`, at `close(o.stop)` and at `<-o.done`. -/
  | stopping
  | waiting
  | returned (r : Reply)
  /-- The timer, at its `select`, at `close(o.done)` and behind it. -/
  | selecting
  | ending
  | ended
  deriving DecidableEq

namespace OutputWriter

variable (o : OutputWriter)

def flushLocked : OutputWriter := if !o.buffered || o.w.buf.isEmpty then o else { o with w := o.w.flush }

def fill (p rest : Bytes) (nn : Nat) : OutputWriter × Pc :=
  if rest.length > o.w.available outputBufferSize then
    let (w, left) := o.w.round outputBufferSize rest
    ({ o with w }, .filling p left (nn + (rest.length - left.length)))
  else ({ o with w := o.w.append rest }, .unlock (.wrote p (nn + rest.length)))

def afterUnlock : Reply → Pc
  | .closed wasClosed => if o.buffered && !wasClosed then .stopping else .returned (.closed wasClosed)
  | .ticked => .selecting
  | r => .returned r

/-- The next operation of a thread, unless it is blocked or through. -/
def advance (i : Nat) (o : OutputWriter) : Pc → Option (OutputWriter × Pc)
  | .lock op =>
    if o.holder.isNone then
      some ({ o with holder := some i, taken := o.taken ++ op.entry i }, .body op)
    else none
  | .tickLock => if o.holder.isNone then some ({ o with holder := some i }, .tickBody) else none
  | .body (.write p) =>
    if !o.buffered || o.closed then some ({ o with w := o.w.through p }, .unlock (.wrote p p.length))
    else some (o, .filling p p 0)
  | .body .flush => some (o.flushLocked, .unlock .flushed)
  | .body .close => some (o.flushLocked, .marking)
  | .tickBody => some (o.flushLocked, .unlock .ticked)
  | .filling p rest nn => some (o.fill p rest nn)
  | .marking =>
    some ({ o with closed := true, closer := if o.closed then o.closer else some i }, .unlock (.closed o.closed))
  | .unlock r =>
    if o.holder.isNone then some ({ o with panicked := true }, .ended)
    else some ({ o with holder := none }, o.afterUnlock r)
  | .stopping =>
    if o.stop then some ({ o with panicked := true }, .ended) else some ({ o with stop := true }, .waiting)
  | .waiting => if o.done then some (o, .returned (.closed false)) else none
  | .selecting => if o.stop then some (o, .ending) else none
  | .ending =>
    if o.done then some ({ o with panicked := true }, .ended) else some ({ o with done := true }, .ended)
  | .returned _ => none
  | .ended => none

end OutputWriter

open OutputWriter (advance)

def newOutputWriter (interval : Int) : System OutputWriter Pc :=
  let o : OutputWriter :=
    { holder := none, w := ⟨[], []⟩, buffered := decide (0 < interval), closed := false, stop := false,
      done := false, panicked := false, taken := [], closer := none }
  ⟨o, if interval ≤ 0 then [] else [.selecting]⟩

/-- What happens next: a call begins, a thread goes on, or the timer takes a tick. -/
inductive Action
  | call (op : Op)
  | go (i : Nat)
  | tick (i : Nat)

variable (s : System OutputWriter Pc)

def tick (i : Nat) : System OutputWriter Pc :=
  if s.threads[i]? = some .selecting then { s with threads := s.threads.set i .tickLock } else s

def step : Action → System OutputWriter Pc
  | .call op => s.spawn (.lock op)
  | .go i => (s.fire advance i).getD s
  | .tick i => tick s i

def run (actions : List Action) : System OutputWriter Pc := actions.foldl step s

def Pc.isReturned : Pc → Bool
  | .returned _ => true
  | _ => false

def hasReturned (i : Nat) : Bool := (s.threads[i]?).any Pc.isReturned

/-- The writes that have returned, in the order they took the lock. -/
def completed : List Bytes :=
  (s.shared.taken.filter fun e => hasReturned s e.1).map Prod.snd

def Pc.handed : Pc → Bytes
  | .filling p rest _ => p.take (p.length - rest.length)
  | .unlock (.wrote p _) => p
  | _ => []

/-- The part already handed on of the write that holds the lock. -/
def underway : Bytes :=
  ((s.shared.holder.bind fun i => s.threads[i]?).map Pc.handed).getD []

def Pc.isPending : Pc → Bool
  | .lock _ | .body _ | .filling .. | .marking | .stopping | .waiting => true
  | .unlock .ticked => false
  | .unlock _ => true
  | _ => false

end PiiShield.Cleaner.Output
