import Mathlib.Data.List.Infix

/-! A reader that cuts a stream into lines through a buffer of bounded size, and what comes back when
the lines are written out again with a line break after each. -/

namespace PiiShield.LineReader

section Definitions

variable {α : Type*} [DecidableEq α] (cr nl : α)

def dropCR (data : List α) : List α := if data.getLast? = some cr then data.dropLast else data

def splitLine (data : List α) (atEOF : Bool) : Option (Nat × List α) :=
  match data.idxOf? nl with
  | some i => some (i + 1, dropCR cr (data.take i))
  | none => if atEOF && !data.isEmpty then some (data.length, dropCR cr data) else none

/-- The lines of a stream, and whether one of them filled the buffer. The end of the stream is
seen when the buffer has room behind it. -/
def tokens (limit : Nat) : Nat → List α → List (List α) × Bool
  | 0, _ => ([], false)
  | fuel + 1, rest =>
    match splitLine cr nl (rest.take limit) (rest.length < limit) with
    | some (advance, token) =>
      let r := tokens limit fuel (rest.drop advance)
      (token :: r.1, r.2)
    | none => ([], limit ≤ rest.length)

def rejoin (lines : List (List α)) : List α := lines.flatMap (· ++ [nl])

def Fits (limit : Nat) (stream : List α) : Prop := ∀ l, l <:+: stream → nl ∉ l → l.length < limit

/-- Every line ends in a line break with no carriage return before it. -/
def PlainEndings (stream : List α) : Prop :=
  (stream = [] ∨ stream.getLast? = some nl) ∧ ¬ [cr, nl] <:+: stream

end Definitions

variable {α : Type*} {cr nl : α} {limit fuel : Nat} {l rest stream : List α}

theorem line_induction (nl : α) {P : List α → Prop} (nil : P []) (last : ∀ l, l ≠ [] → nl ∉ l → P l)
    (line : ∀ l rest, nl ∉ l → P rest → P (l ++ nl :: rest)) (stream : List α) : P stream := by
  induction hn : stream.length using Nat.strong_induction_on generalizing stream with
  | _ n ih =>
    by_cases hmem : nl ∈ stream
    · obtain ⟨l, rest, rfl, hl⟩ := List.eq_append_cons_of_mem hmem
      grind
    grind

theorem append_cons_inj {l' rest' : List α} (hl : nl ∉ l) (hl' : nl ∉ l') :
    l ++ nl :: rest = l' ++ nl :: rest' ↔ l = l' ∧ rest = rest' := by
  induction l generalizing l' with
  | nil =>
    cases l' with
    | nil => simp
    | cons b l' =>
      simp only [List.mem_cons, not_or] at hl'
      simp [hl'.1]
  | cons a l ih =>
    simp only [List.mem_cons, not_or] at hl
    cases l' with
    | nil => simp [Ne.symm hl.1]
    | cons b l' =>
      simp only [List.mem_cons, not_or] at hl'
      simp [ih hl.2 hl'.2, and_assoc]

theorem Fits.length_lt (h : Fits nl limit l) (hl : nl ∉ l) : l.length < limit := h l (List.infix_refl l) hl

theorem Fits.of_infix (h : Fits nl limit stream) (hl : l <:+: stream) : Fits nl limit l :=
  fun m hm => h m (hm.trans hl)

theorem Fits.head (h : Fits nl limit (l ++ nl :: rest)) (hl : nl ∉ l) : l.length < limit :=
  (h.of_infix (List.prefix_append _ _).isInfix).length_lt hl

theorem Fits.tail (h : Fits nl limit (l ++ nl :: rest)) : Fits nl limit rest :=
  h.of_infix ((List.suffix_cons nl rest).trans (List.suffix_append l _)).isInfix

theorem fits_of_length (h : stream.length < limit) : Fits nl limit stream :=
  fun _ hl _ => hl.length_le.trans_lt h

theorem drop_line : (l ++ nl :: rest).drop (l.length + 1) = rest := by
  rw [List.drop_length_add_append]
  rfl

/-- A stream taken apart at its line breaks: the lines that are closed, and what is left open. -/
structure Framing (nl : α) (stream : List α) (lines : List (List α)) (rest : List α) : Prop where
  text : rejoin nl lines ++ rest = stream
  closed : ∀ l ∈ lines, nl ∉ l
  left_open : nl ∉ rest

theorem Framing.last (hl : nl ∉ l) : Framing nl l [] l where
  text := rfl
  closed := by simp
  left_open := hl

theorem Framing.line {lines : List (List α)} {tail : List α} (hl : nl ∉ l) (h : Framing nl rest lines tail) :
    Framing nl (l ++ nl :: rest) (l :: lines) tail where
  text := by simp [← h.text, rejoin]
  closed := by
    intro m hm
    rcases List.mem_cons.mp hm with rfl | hm
    · exact hl
    exact h.closed m hm
  left_open := h.left_open

theorem Framing.splitOn [DecidableEq α] {lines : List (List α)} (h : Framing nl stream lines rest) :
    stream.splitOn nl = lines ++ [rest] := by
  have hjoin : [nl].intercalate (lines ++ [rest]) = stream := by
    rw [← h.text]
    clear h
    induction lines with
    | nil => simp [rejoin]
    | cons l lines ih =>
      simp [List.cons_append, List.intercalate_cons_of_ne_nil, rejoin, ih]
  rw [← hjoin]
  refine List.splitOn_intercalate nl (fun m hm => ?_) (by simp)
  rcases List.mem_append.mp hm with hm | hm
  · exact h.closed m hm
  rw [List.mem_singleton.mp hm]
  exact h.left_open

variable [DecidableEq α]

theorem idxOf?_line (hl : nl ∉ l) : (l ++ nl :: rest).idxOf? nl = some l.length := by
  have hnone : l.findIdx? (· == nl) = none := by grind
  rw [List.idxOf?, List.findIdx?_append, hnone]
  simp [List.findIdx?_cons]

theorem splitLine_line (hl : nl ∉ l) (atEOF : Bool) :
    splitLine cr nl (l ++ nl :: rest) atEOF = some (l.length + 1, dropCR cr l) := by
  simp only [splitLine, idxOf?_line hl, List.take_left]

theorem splitLine_last (hl : nl ∉ l) (hne : l ≠ []) :
    splitLine cr nl l true = some (l.length, dropCR cr l) := by
  grind [splitLine]

theorem tokens_nil (hlimit : 0 < limit) : tokens cr nl limit fuel [] = ([], false) := by
  cases fuel with
  | zero => rfl
  | succ fuel => simp [tokens, splitLine, hlimit.not_ge]

theorem tokens_last (hl : nl ∉ l) (hne : l ≠ []) (hlen : l.length < limit) :
    tokens cr nl limit (fuel + 1) l = ([dropCR cr l], false) := by
  grind [tokens, List.take_of_length_le, decide_eq_true, splitLine_last, List.drop_length,
    tokens_nil]

theorem tokens_line (hl : nl ∉ l) (hlen : l.length < limit) :
    tokens cr nl limit (fuel + 1) (l ++ nl :: rest) =
      (dropCR cr l :: (tokens cr nl limit fuel rest).1, (tokens cr nl limit fuel rest).2) := by
  obtain ⟨k, rfl⟩ : ∃ k, limit = l.length + (k + 1) := ⟨limit - l.length - 1, by omega⟩
  rw [tokens, List.take_length_add_append, List.take_succ_cons, splitLine_line hl]
  simp only [drop_line]

theorem tokens_fits (hlimit : 0 < limit) (h : Fits nl limit stream) (hfuel : stream.length < fuel) :
    (tokens cr nl limit fuel stream).2 = false := by
  induction stream using line_induction nl generalizing fuel with
  | nil => rw [tokens_nil hlimit]
  | last l hne hl =>
    obtain ⟨k, rfl⟩ : ∃ k, fuel = k + 1 := ⟨fuel - 1, by omega⟩
    rw [tokens_last hl hne (h.length_lt hl)]
  | line l rest hl ih =>
    obtain ⟨k, rfl⟩ : ∃ k, fuel = k + 1 := ⟨fuel - 1, by omega⟩
    rw [tokens_line hl (h.head hl)]
    simp only [List.length_append, List.length_cons] at hfuel
    exact ih h.tail (by omega)

theorem dropCR_eq_self : dropCR cr l = l ↔ l.getLast? ≠ some cr := by
  rw [dropCR]
  grind

theorem not_mem_dropCR (hl : nl ∉ l) : nl ∉ dropCR cr l := by
  rw [dropCR]
  split
  · exact fun h => hl (List.mem_of_mem_dropLast h)
  exact hl

theorem crlf_infix_line (hne : cr ≠ nl) (hl : nl ∉ l) :
    [cr, nl] <:+: l ++ nl :: rest ↔ l.getLast? = some cr ∨ [cr, nl] <:+: rest := by
  constructor
  · rintro ⟨a, b, hab⟩
    have hab : (a ++ [cr]) ++ nl :: b = l ++ nl :: rest := by simpa using hab
    by_cases ha : nl ∈ a
    · obtain ⟨l', a', rfl, hl'⟩ := List.eq_append_cons_of_mem ha
      have hab : l' ++ nl :: (a' ++ cr :: nl :: b) = l ++ nl :: rest := by simpa using hab
      obtain ⟨-, rfl⟩ := (append_cons_inj hl' hl).mp hab
      exact .inr ⟨a', b, by simp⟩
    grind [append_cons_inj]
  rintro (h | h)
  · obtain ⟨a, rfl⟩ := List.getLast?_eq_some_iff.mp h
    exact ⟨a, rest, by simp⟩
  exact h.trans ((List.suffix_cons nl rest).trans (List.suffix_append l _)).isInfix

theorem plainEndings_line (hne : cr ≠ nl) (hl : nl ∉ l) :
    PlainEndings cr nl (l ++ nl :: rest) ↔ l.getLast? ≠ some cr ∧ PlainEndings cr nl rest := by
  have hlast : (l ++ nl :: rest).getLast? = some nl ↔ rest = [] ∨ rest.getLast? = some nl := by
    cases rest with
    | nil => simp
    | cons x rest => simp [List.getLast?_cons]
  rw [PlainEndings, PlainEndings, crlf_infix_line hne hl, hlast]
  simp only [List.append_eq_nil_iff, reduceCtorEq, and_false, false_or, not_or]
  tauto

theorem rejoin_tokens_iff (hne : cr ≠ nl) (hlimit : 0 < limit) (h : Fits nl limit stream)
    (hfuel : stream.length < fuel) :
    rejoin nl (tokens cr nl limit fuel stream).1 = stream ↔ PlainEndings cr nl stream := by
  induction stream using line_induction nl generalizing fuel with
  | nil => simp [tokens_nil hlimit, rejoin, PlainEndings]
  | last l hnil hl =>
    obtain ⟨k, rfl⟩ : ∃ k, fuel = k + 1 := ⟨fuel - 1, by omega⟩
    rw [tokens_last hl hnil (h.length_lt hl)]
    have hbreak : nl ∈ rejoin nl [dropCR cr l] := by simp [rejoin]
    have hlast : l.getLast? ≠ some nl := fun h => hl (List.mem_of_getLast? h)
    simp only [PlainEndings, hnil, hlast, or_self, false_and, iff_false]
    exact fun heq => hl (heq ▸ hbreak)
  | line l rest hl ih =>
    obtain ⟨k, rfl⟩ : ∃ k, fuel = k + 1 := ⟨fuel - 1, by omega⟩
    simp only [List.length_append, List.length_cons] at hfuel
    have hjoin : rejoin nl (tokens cr nl limit (k + 1) (l ++ nl :: rest)).1 =
        dropCR cr l ++ nl :: rejoin nl (tokens cr nl limit k rest).1 := by
      rw [tokens_line hl (h.head hl)]
      simp [rejoin]
    rw [hjoin, append_cons_inj (not_mem_dropCR hl) hl, dropCR_eq_self, ih h.tail (by omega),
      plainEndings_line hne hl]

end PiiShield.LineReader
