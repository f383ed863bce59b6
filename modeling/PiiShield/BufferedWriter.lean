import Mathlib.Data.List.Basic

/-! Go's `bufio.Writer` over a destination that takes every write whole. -/

namespace PiiShield

structure Bufio (α : Type) where
  wr : List α
  buf : List α

namespace Bufio

variable {α : Type} {size : Nat} {b : Bufio α} {p : List α}

def available (size : Nat) (b : Bufio α) : Nat := size - b.buf.length

def flush (b : Bufio α) : Bufio α := if b.buf.isEmpty then b else ⟨b.wr ++ b.buf, []⟩

/-- One round of the loop of `Write`, with what it leaves of `p`: an empty buffer is passed by,
another one is filled up and flushed. -/
def round (size : Nat) (b : Bufio α) (p : List α) : Bufio α × List α :=
  if b.buf.isEmpty then (⟨b.wr ++ p, b.buf⟩, [])
  else (flush ⟨b.wr, b.buf ++ p.take (b.available size)⟩, p.drop (b.available size))

def append (b : Bufio α) (p : List α) : Bufio α := ⟨b.wr, b.buf ++ p⟩

def through (b : Bufio α) (p : List α) : Bufio α := ⟨b.wr ++ p, b.buf⟩

def text (b : Bufio α) : List α := b.wr ++ b.buf

@[simp] theorem buf_flush (b : Bufio α) : b.flush.buf = [] := by
  rw [flush]
  split
  · next h => exact List.isEmpty_iff.mp h
  rfl

@[simp] theorem text_flush (b : Bufio α) : b.flush.text = b.text := by
  rw [flush]
  split
  · rfl
  simp [text]

@[simp] theorem text_append (b : Bufio α) (p : List α) : (b.append p).text = b.text ++ p := by
  simp [append, text]

theorem text_through (h : b.buf = []) : (b.through p).text = b.text ++ p := by
  simp [through, text, h]

theorem text_round (size : Nat) (b : Bufio α) (p : List α) :
    (b.round size p).1.text ++ (b.round size p).2 = b.text ++ p := by
  rw [round]
  split
  · next h => simp [text, List.isEmpty_iff.mp h]
  rw [text_flush]
  simp [text]

theorem buf_round (size : Nat) (b : Bufio α) (p : List α) : (b.round size p).1.buf = [] := by
  rw [round]
  split
  · next h => exact List.isEmpty_iff.mp h
  exact buf_flush _

theorem round_suffix (size : Nat) (b : Bufio α) (p : List α) : (b.round size p).2 <:+ p := by
  rw [round]
  split
  · exact List.nil_suffix
  exact List.drop_suffix _ _

end Bufio

end PiiShield
