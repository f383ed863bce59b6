import Mathlib.Data.List.Chain
import PiiShield.LineLedger
import PiiShield.Sample

/-! The loop over the carves of a line as the pieces it emits: the segments it scans, the carved
values and the quotes around them. They are the line again unless two carves share a quote. -/

namespace PiiShield

open ConfigState

variable {Num : Type}

/-- A piece the loop emits, with the bounds of its slice of the line. -/
inductive CarvePiece
  | segment (start stop : Nat)
  | quote (q : Bytes)
  | value (cv : Carve)
  deriving DecidableEq

namespace CarvePiece

def text (line : Bytes) : CarvePiece → Bytes
  | segment start stop => slice line start stop
  | quote q => q
  | value cv => slice line cv.start cv.stop

/-- The slice of the piece is one Go takes without a panic. -/
def InRange (line : Bytes) : CarvePiece → Prop
  | segment start stop => start ≤ stop ∧ stop ≤ line.length
  | quote _ => True
  | value cv => cv.start ≤ cv.stop ∧ cv.stop ≤ line.length

end CarvePiece

def carvePieces (line : Bytes) : List Carve → Nat → List CarvePiece
  | [], chunkStart => if chunkStart < line.length then [.segment chunkStart line.length] else []
  | cv :: cvs, chunkStart =>
    let quote := carveQuote line cv
    let start := cv.start - quote.length
    let stop := cv.stop + quote.length
    (if chunkStart < start then [.segment chunkStart start] else []) ++
      .quote quote :: .value cv :: .quote quote :: carvePieces line cvs stop

def piecesText (line : Bytes) (ps : List CarvePiece) : Bytes := ps.flatMap (·.text line)

namespace ConfigState

variable (st : ConfigState Num)

def scanCarvePieces (line : Bytes) (depth : Nat) : List CarvePiece → Bool → Nat → Scan Num Unit
  | [], _, _ => pure ()
  | .segment start stop :: ps, inQuote, quoteChar => do
    let q ← enter (.scanSegmentFrom (slice line start stop) depth inQuote quoteChar)
    scanCarvePieces line depth ps q.1 q.2
  | .quote q :: ps, inQuote, quoteChar => do
    .write q
    scanCarvePieces line depth ps inQuote quoteChar
  | .value cv :: ps, inQuote, quoteChar => do
    st.writeCarve cv (slice line cv.start cv.stop)
    scanCarvePieces line depth ps inQuote quoteChar

theorem scanCarves_eq_pieces (line : Bytes) (depth : Nat) (cvs : List Carve) (chunkStart : Nat) (inQuote : Bool)
    (quoteChar : Nat) :
    st.scanCarves line depth cvs chunkStart inQuote quoteChar =
      st.scanCarvePieces line depth (carvePieces line cvs chunkStart) inQuote quoteChar := by
  induction cvs generalizing chunkStart inQuote quoteChar with
  | nil =>
    rw [scanCarves, carvePieces]
    by_cases h : chunkStart < line.length
    · rw [if_pos h, if_pos h, scanCarvePieces, slice, List.take_length]
      rfl
    rw [if_neg h, if_neg h, scanCarvePieces]
  | cons cv cvs ih =>
    rw [scanCarves, carvePieces]
    by_cases h : chunkStart < cv.start - (carveQuote line cv).length
    · simp only [h, if_true, List.cons_append, List.nil_append, scanCarvePieces, ih]
    simp only [h, if_false, List.nil_append, scanCarvePieces, ih]
    rfl

end ConfigState

/-- Two carves with one quote between them that both take for their own. -/
def SharesQuote (line : Bytes) (a b : Carve) : Prop :=
  b.start = a.stop + 1 ∧ carveQuote line a ≠ [] ∧ carveQuote line b ≠ []

/-- The carves the loop still has before it at `chunkStart`. -/
structure Ahead (line : Bytes) (cvs : List Carve) (chunkStart : Nat) : Prop where
  number : ∀ cv ∈ cvs, NumberAt line cv.toRange
  sorted : cvs.Pairwise (·.stop ≤ ·.start)
  start : ∀ cv ∈ cvs, chunkStart ≤ cv.start
  within : chunkStart ≤ line.length

namespace Ahead

variable {line : Bytes} {cv : Carve} {cvs : List Carve} {chunkStart : Nat}

theorem tail (h : Ahead line (cv :: cvs) chunkStart) : Ahead line cvs (cv.stop + (carveQuote line cv).length) := by
  obtain ⟨hafter, hsorted⟩ := List.pairwise_cons.mp h.sorted
  have hnumber : ∀ c ∈ cvs, NumberAt line c.toRange := fun c hc => h.number c (by simp [hc])
  have hstop := (h.number cv (by simp)).stops.le
  rcases carveQuote_spec line cv with hq | ⟨q, hq, hquote, -, hlt, -, hbehind⟩
  · rw [hq]
    exact ⟨hnumber, hsorted, hafter, hstop⟩
  rw [hq]
  refine ⟨hnumber, hsorted, fun c hc => ?_, hlt⟩
  rcases Nat.eq_or_lt_of_le (hafter c hc) with heq | hgap
  · have hfirst := not_isQuote_of_isNumberStart (hnumber c hc).first
    rw [← heq, hbehind, hquote] at hfirst
    cases hfirst
  exact hgap

theorem quote_length_le (line : Bytes) (cv : Carve) : (carveQuote line cv).length ≤ cv.start := by
  rcases carveQuote_spec line cv with hq | ⟨q, hq, -, hpos, -⟩
  · rw [hq]
    exact Nat.zero_le _
  rw [hq]
  exact hpos

theorem inRange (h : Ahead line cvs chunkStart) : ∀ pc ∈ carvePieces line cvs chunkStart, pc.InRange line := by
  induction cvs generalizing chunkStart with
  | nil =>
    intro pc hpc
    rw [carvePieces, List.mem_ite_nil_right, List.mem_singleton] at hpc
    obtain ⟨hlt, rfl⟩ := hpc
    exact ⟨hlt.le, le_rfl⟩
  | cons cv cvs ih =>
    intro pc hpc
    have hcv := (h.number cv (by simp)).stops
    have hlt := hcv.lt
    have hle := hcv.le
    rw [carvePieces, List.mem_append, List.mem_ite_nil_right, List.mem_singleton] at hpc
    simp only [List.mem_cons] at hpc
    rcases hpc with ⟨hchunk, rfl⟩ | rfl | rfl | rfl | hpc
    · exact ⟨hchunk.le, by omega⟩
    · trivial
    · exact ⟨hlt.le, hle⟩
    · trivial
    exact ih h.tail pc hpc

theorem text_cons (line : Bytes) (cv : Carve) (cvs : List Carve) (chunkStart : Nat) :
    piecesText line (carvePieces line (cv :: cvs) chunkStart) =
      slice line chunkStart (cv.start - (carveQuote line cv).length) ++ (carveQuote line cv ++
        (slice line cv.start cv.stop ++ (carveQuote line cv ++
          piecesText line (carvePieces line cvs (cv.stop + (carveQuote line cv).length))))) := by
  rw [carvePieces, piecesText]
  by_cases h : chunkStart < cv.start - (carveQuote line cv).length
  · simp [h, CarvePiece.text, piecesText]
  have hnil : slice line chunkStart (cv.start - (carveQuote line cv).length) = [] := by
    simp only [slice, List.drop_eq_nil_iff, List.length_take]
    omega
  simp [h, CarvePiece.text, piecesText, hnil]

theorem length_text (h : Ahead line cvs chunkStart) :
    line.length - chunkStart ≤ (piecesText line (carvePieces line cvs chunkStart)).length ∧
      (sharesQuoteFrom line cvs chunkStart = true →
        line.length - chunkStart < (piecesText line (carvePieces line cvs chunkStart)).length) := by
  induction cvs generalizing chunkStart with
  | nil =>
    refine ⟨?_, fun hshare => by cases hshare⟩
    rw [carvePieces]
    by_cases hlt : chunkStart < line.length
    · rw [if_pos hlt]
      simp [piecesText, CarvePiece.text, length_slice le_rfl]
    rw [if_neg hlt]
    omega
  | cons cv cvs ih =>
    have hcv := (h.number cv (by simp)).stops
    have hlt := hcv.lt
    have hle := hcv.le
    have hstart := h.start cv (by simp)
    have hquote := quote_length_le line cv
    obtain ⟨hrest, hshared⟩ := ih h.tail
    have hwithin := h.tail.within
    have hchunk := length_slice (i := chunkStart) (show cv.start - (carveQuote line cv).length ≤ line.length by omega)
    rw [text_cons, sharesQuoteFrom]
    simp only [List.length_append, length_slice hle, hchunk, Bool.or_eq_true, decide_eq_true_eq]
    grind

theorem text_eq_drop (h : Ahead line cvs chunkStart) (hclear : sharesQuoteFrom line cvs chunkStart = false) :
    piecesText line (carvePieces line cvs chunkStart) = line.drop chunkStart := by
  induction cvs generalizing chunkStart with
  | nil =>
    rw [carvePieces]
    by_cases hlt : chunkStart < line.length
    · rw [if_pos hlt]
      simp [piecesText, CarvePiece.text, slice]
    rw [if_neg hlt, List.drop_of_length_le (Nat.le_of_not_lt hlt)]
    rfl
  | cons cv cvs ih =>
    have hcv := (h.number cv (by simp)).stops
    have hlt := hcv.lt
    rw [sharesQuoteFrom, Bool.or_eq_false_iff, decide_eq_false_iff_not, Nat.not_lt] at hclear
    obtain ⟨hchunk, hrest⟩ := hclear
    rw [text_cons, ih h.tail hrest, drop_eq_slice_append line hchunk]
    congr 1
    rcases carveQuote_spec line cv with hq | ⟨q, hq, -, hpos, hstop, hbefore, hbehind⟩
    · rw [hq, List.length_nil, Nat.sub_zero, Nat.add_zero, List.nil_append, List.nil_append,
        ← drop_eq_slice_append line hlt.le]
    grind [List.drop_eq_getElem_cons, byteAt_eq, Nat.sub_add_cancel, List.length_singleton,
      drop_eq_slice_append]

theorem sharesQuoteFrom_cons (h : Ahead line (cv :: cvs) chunkStart) :
    sharesQuoteFrom line (cv :: cvs) chunkStart = false ↔ ¬ (cv.start = chunkStart ∧ carveQuote line cv ≠ []) ∧
      sharesQuoteFrom line cvs (cv.stop + (carveQuote line cv).length) = false := by
  have hstart := h.start cv (by simp)
  have hhere : cv.start - (carveQuote line cv).length < chunkStart ↔
      cv.start = chunkStart ∧ carveQuote line cv ≠ [] := by
    rcases carveQuote_spec line cv with hq | ⟨q, hq, -, hpos, -⟩
    · simp only [hq, List.length_nil, ne_eq, not_true, and_false, iff_false]
      omega
    simp only [hq, List.length_singleton, ne_eq, List.cons_ne_nil, not_false_iff, and_true]
    omega
  simp [sharesQuoteFrom, hhere]

theorem start_eq_iff {next : Carve} (h : Ahead line (cv :: next :: cvs) chunkStart) :
    next.start = cv.stop + (carveQuote line cv).length ∧ carveQuote line next ≠ [] ↔ SharesQuote line cv next := by
  have hlast := (h.number cv (by simp)).stops.last
  have hlt := (h.number cv (by simp)).stops.lt
  rw [SharesQuote]
  rcases carveQuote_spec line cv with hq | ⟨q, hq, -⟩
  · simp only [hq, List.length_nil, Nat.add_zero, ne_eq, not_true, false_and, and_false, iff_false]
    rintro ⟨heq, hnext⟩
    rcases carveQuote_spec line next with hn | ⟨q, hn, hquote, -, -, hbefore, -⟩
    · exact hnext hn
    rw [heq] at hbefore
    rw [hbefore] at hlast
    simp only [isQuote, dquote, squote, Bool.or_eq_true, beq_iff_eq] at hquote
    rcases hquote with rfl | rfl <;> exact absurd hlast (by decide)
  simp_all

theorem sharesQuoteFrom_eq_false_iff (h : Ahead line (cv :: cvs) chunkStart) :
    sharesQuoteFrom line (cv :: cvs) chunkStart = false ↔ ¬ (cv.start = chunkStart ∧ carveQuote line cv ≠ []) ∧
      (cv :: cvs).IsChain fun a b => ¬ SharesQuote line a b := by
  induction cvs generalizing cv chunkStart with
  | nil =>
    rw [h.sharesQuoteFrom_cons]
    simp [sharesQuoteFrom]
  | cons next cvs ih => rw [h.sharesQuoteFrom_cons, ih h.tail, h.start_eq_iff, List.isChain_cons_cons]

end Ahead

theorem ahead_carves (st : ConfigState Num) (line : Bytes) : Ahead line (st.carves line) 0 := by
  obtain ⟨hsorted, hnumber⟩ := carves_spec st line
  exact ⟨hnumber, hsorted, fun _ _ => Nat.zero_le _, Nat.zero_le _⟩

theorem sharesQuoteFrom_carves (st : ConfigState Num) (line : Bytes) :
    sharesQuoteFrom line (st.carves line) 0 = false ↔
      (st.carves line).IsChain fun a b => ¬ SharesQuote line a b := by
  have h := ahead_carves st line
  cases hcarves : st.carves line with
  | nil => simp [sharesQuoteFrom]
  | cons cv cvs =>
    rw [hcarves] at h
    have hfirst : ¬ (cv.start = 0 ∧ carveQuote line cv ≠ []) := by
      rintro ⟨hzero, hquote⟩
      have hlen := Ahead.quote_length_le line cv
      exact hquote (List.length_eq_zero_iff.mp (by omega))
    rw [h.sharesQuoteFrom_eq_false_iff]
    exact and_iff_right hfirst

/-- The pieces the carve loop emits are the line, each slice in range, exactly when no two
neighbouring carves take the one quote between them. -/
theorem carving_exact_iff (st : ConfigState Num) (line : Bytes) :
    ((∀ pc ∈ carvePieces line (st.carves line) 0, pc.InRange line) ∧
        piecesText line (carvePieces line (st.carves line) 0) = line) ↔
      (st.carves line).IsChain fun a b => ¬ SharesQuote line a b := by
  have h := ahead_carves st line
  rw [← sharesQuoteFrom_carves]
  constructor
  · rintro ⟨-, heq⟩
    by_contra hshare
    have hlonger := h.length_text.2 (by simpa using hshare)
    rw [heq] at hlonger
    omega
  intro hclear
  exact ⟨h.inRange, by simpa using h.text_eq_drop hclear⟩

def quotedPhones : Bytes := bs "\"415-234-5678\"415-234-5679\""

/-- Two phone numbers with one quote between them: it is written twice. -/
theorem carving_repeats_quote :
    ¬ ((∀ pc ∈ carvePieces quotedPhones (ConfigState.sample.carves quotedPhones) 0, pc.InRange quotedPhones) ∧
      piecesText quotedPhones (carvePieces quotedPhones (ConfigState.sample.carves quotedPhones) 0) =
        quotedPhones) := by
  rintro ⟨-, heq⟩
  have hwritten : piecesText quotedPhones (carvePieces quotedPhones (ConfigState.sample.carves quotedPhones) 0) =
      bs "\"415-234-5678\"\"415-234-5679\"" := by decide +kernel
  rw [hwritten] at heq
  exact absurd heq (by decide)

end PiiShield
