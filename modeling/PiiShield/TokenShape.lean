import PiiShield.Pieces
import PiiShield.Sample

/-! The tokens of a segment: no byte is lost or moved, no token is empty, and a separator stands
in a token only inside a quotation, a marker in the password of a URL or a single-quoted JSON
document. -/

namespace PiiShield

variable {c : Cursor} {inQuote invalid : Bool} {quoteChar : Nat} {q₀ : Option Nat}

def IsQuotedDocument (d : Bytes) : Prop :=
  ∃ doc, d = squote :: (doc ++ [squote]) ∧ firstIs doc (fun b => b == 0x7b || b == '[') = true ∧
    jsonDocumentEnd doc 0 = some doc.length

def IsMarkerText (m : Bytes) : Prop := ∃ x, m = bs "[HIDDEN" ++ (x ++ bs "]") ∧ chr ']' ∉ x

def opensQuote (r : Nat) (rest : Bytes) : Bool := r == 0x22 || r == 0x27 && apostropheOpens rest

/-- Whether the quote `k` before `rest` closes the quotation it opened. -/
def closesQuote (k : Nat) (rest : Bytes) : Bool := k != 0x27 || apostropheCloses rest

/-- How a token is read, character by character. The quotation it stands in is given before the
token and after it, `rest` is what follows in the segment. -/
inductive TokenRun (q₀ : Option Nat) : Bytes → Option Nat → Bytes → Prop
  | start {rest} : TokenRun q₀ [] q₀ rest
  | plain {t c r rest} (h : TokenRun q₀ t none (c ++ rest)) (hc : Encodes c r) (hsep : isSepRune r = false)
      (hq : opensQuote r rest = false) : TokenRun q₀ (t ++ c) none rest
  | opening {t c r rest} (h : TokenRun q₀ t none (c ++ rest)) (hc : Encodes c r) (hq : opensQuote r rest = true) :
    TokenRun q₀ (t ++ c) (some r) rest
  | inside {t c r k rest} (h : TokenRun q₀ t (some k) (c ++ rest)) (hc : Encodes c r) (hesc : r ≠ 0x5C)
      (hk : ¬ (r = k ∧ closesQuote k rest = true)) : TokenRun q₀ (t ++ c) (some k) rest
  | escape {t c k rest} (h : TokenRun q₀ t (some k) (backslash :: (c ++ rest)))
      (hc : (∃ r, Encodes c r) ∨ c = [] ∧ rest = []) : TokenRun q₀ (t ++ backslash :: c) (some k) rest
  | closing {t c k rest} (h : TokenRun q₀ t (some k) (c ++ rest)) (hc : Encodes c k)
      (hk : closesQuote k rest = true) : TokenRun q₀ (t ++ c) none rest
  | document {t d rest} (h : TokenRun q₀ t none (d ++ rest)) (hd : IsQuotedDocument d) :
    TokenRun q₀ (t ++ d) none rest
  /-- The password slot of a URL: after its colon, before the `@`. -/
  | marker {t m rest} (h : TokenRun q₀ t none (m ++ rest)) (hm : IsMarkerText m)
      (hat : hasPrefix rest (bs "@") = true) (hcolon : hasSuffix t (bs ":") = true)
      (hscheme : contains t (bs "://") = true) : TokenRun q₀ (t ++ m) none rest

def Cursor.quotation (c : Cursor) : Option Nat := if c.inQuote then some c.quoteChar else none

section Documents

theorem jsonDocumentEndFrom_cons (depth : Int) (inStr : Bool) (skip : Nat) (c : UInt8) :
    (∀ t, jsonDocumentEndFrom depth inStr skip (c :: t) = some 1) ∨
      ∃ depth' inStr' skip', ∀ t, jsonDocumentEndFrom depth inStr skip (c :: t) =
        (jsonDocumentEndFrom depth' inStr' skip' t).map (· + 1) := by
  cases skip with
  | succ skip => exact .inr ⟨depth, inStr, skip, fun _ => rfl⟩
  | zero =>
    simp only [jsonDocumentEndFrom]
    split_ifs
    · exact .inr ⟨_, _, _, fun _ => rfl⟩
    · exact .inr ⟨_, _, _, fun _ => rfl⟩
    · exact .inr ⟨_, _, _, fun _ => rfl⟩
    · exact .inr ⟨_, _, _, fun _ => rfl⟩
    · exact .inl fun _ => rfl
    · exact .inr ⟨_, _, _, fun _ => rfl⟩
    exact .inr ⟨_, _, _, fun _ => rfl⟩

theorem jsonDocumentEndFrom_eq_some {depth : Int} {inStr : Bool} {skip : Nat} {s : Bytes} {n : Nat}
    (h : jsonDocumentEndFrom depth inStr skip s = some n) :
    n ≤ s.length ∧ jsonDocumentEndFrom depth inStr skip (s.take n) = some n := by
  induction s generalizing depth inStr skip n with
  | nil => cases skip <;> simp [jsonDocumentEndFrom] at h
  | cons c t ih =>
    rcases jsonDocumentEndFrom_cons depth inStr skip c with hc | ⟨depth', inStr', skip', hc⟩
    · rw [hc, Option.some.injEq] at h
      subst h
      exact ⟨by simp, hc _⟩
    rw [hc] at h
    obtain ⟨m, hm, rfl⟩ := Option.map_eq_some_iff.mp h
    grind

variable {c : Cursor} {n : Nat}

theorem quotedDocument_spec (hrest : hasPrefix c.rest [squote] = true) (h : c.quotedDocument = some n) :
    Bound c.rest n ∧ IsQuotedDocument (c.rest.take n) := by
  obtain ⟨s, hs⟩ := List.isPrefixOf_iff_prefix.mp hrest
  rw [Cursor.quotedDocument, ← hs] at h
  simp only [List.singleton_append, List.drop_succ_cons, List.drop_zero, jsonDocumentEnd] at h
  split at h
  · next hopen =>
    cases hend : jsonDocumentEndFrom 0 false 0 s with
    | none => simp [hend] at h
    | some m =>
      simp only [hend, Option.map_some] at h
      obtain ⟨hle, htake⟩ := jsonDocumentEndFrom_eq_some hend
      split at h
      · next hq =>
        rw [Option.some.injEq] at h
        subst h
        obtain ⟨t, ht⟩ : ∃ t, s.drop m = squote :: t := by
          rw [Nat.add_comm 1 m, List.drop_succ_cons] at hq
          cases hd : s.drop m with
          | nil => simp [firstIs, hd] at hq
          | cons x t =>
            rw [firstIs, hd] at hq
            exact ⟨t, by simpa using hq⟩
        have hsplit : s = s.take m ++ squote :: t := by simp [← ht]
        have hlen : (s.take m).length = m := List.length_take_of_le hle
        have hrest : c.rest = (squote :: s.take m) ++ squote :: t := by
          grind
        generalize s.take m = doc at hsplit hlen hrest htake
        subst hsplit
        have hn : (squote :: doc).length = 1 + m := by simp [hlen, Nat.add_comm]
        constructor
        · rw [hrest, ← hn]
          refine .after_ascii (by simp) ?_
          rw [byteAt_eq (by simp), List.getElem_append_right le_rfl]
          simp [squote, isASCII]
        refine ⟨doc, ?_, ?_, ?_⟩
        · rw [hrest, ← hn, List.take_length_add_append]
          rfl
        · cases doc with
          | nil => simp [jsonDocumentEndFrom] at htake
          | cons x doc => exact hopen
        rw [jsonDocumentEnd, List.drop_zero, htake, hlen]
        simp
      simp at h
  simp at h

theorem exists_of_indexByte {s : Bytes} {b : UInt8} {i : Nat} (h : indexByte s b = some i) :
    ∃ x t, s = x ++ b :: t ∧ x.length = i ∧ b ∉ x := by
  simp only [indexByte, List.idxOf?, List.findIdx?_eq_some_iff_getElem] at h
  obtain ⟨hlt, hb, hbefore⟩ := h
  refine ⟨s.take i, s.drop (i + 1), ?_, List.length_take_of_le hlt.le, fun hmem => ?_⟩
  · rw [beq_iff_eq] at hb
    rw [← hb]
    exact eq_take_cons_drop hlt
  obtain ⟨j, hj, hjb⟩ := List.mem_take_iff_getElem.mp hmem
  exact hbefore j (by omega) (by simpa using hjb)

theorem markerLength_spec (h : c.markerLength = some n) : IsMarkerText (c.rest.take n) := by
  unfold Cursor.markerLength at h
  split at h
  · next hp =>
    obtain ⟨i, hi, rfl⟩ := Option.map_eq_some_iff.mp h
    obtain ⟨t, ht⟩ := List.isPrefixOf_iff_prefix.mp hp
    have hword : List.findIdx? (· == chr ']') (bs "[HIDDEN") = none := by decide
    rw [← ht, indexByte, List.idxOf?, List.findIdx?_append, hword, Option.none_or] at hi
    obtain ⟨j, hj, rfl⟩ := Option.map_eq_some_iff.mp hi
    obtain ⟨x, t, rfl, rfl, hx⟩ := exists_of_indexByte hj
    have hlen : x.length + (bs "[HIDDEN").length + 1 = (bs "[HIDDEN").length + (x.length + 1) := by omega
    refine ⟨x, ?_, hx⟩
    rw [← ht, hlen, List.take_length_add_append, List.take_length_add_append]
    rfl
  simp at h

end Documents

section Steps

/-- The cursor stands at a character of a valid segment, after a token read up to there. -/
structure Reads (q₀ : Option Nat) (c : Cursor) : Prop where
  run : TokenRun q₀ c.tok c.quotation c.rest
  rest : utf8Valid c.rest = true
  valid : utf8Valid (c.tok ++ c.rest) = true
  quote : c.inQuote = true → c.quoteChar = 0x22 ∨ c.quoteChar = 0x27

variable {q₀ : Option Nat} {c : Cursor} {u t : Bytes} {r w : Nat}

theorem Reads.grow (h : Reads q₀ c) (hw : Bound c.rest w)
    (hrun : TokenRun q₀ (c.tok ++ c.rest.take w) (if inQuote then some quoteChar else none) (c.rest.drop w))
    (hquote : inQuote = true → quoteChar = 0x22 ∨ quoteChar = 0x27) :
    Reads q₀ ⟨c.tok ++ c.rest.take w, c.rest.drop w, inQuote, quoteChar, invalid⟩ where
  run := hrun
  rest := (hw h.rest).2
  valid := by simpa using h.valid
  quote := hquote

theorem quotedStep_run (hrun : TokenRun q₀ c.tok (some c.quoteChar) (u ++ t)) (hs : c.rest = u ++ t)
    (hu : Encodes u r) (ht : utf8Valid t = true)
    (hstep : c.quotedStep r u.length = .grow w inQuote quoteChar invalid) :
    Bound c.rest w ∧ c.quoteChar = quoteChar ∧
      TokenRun q₀ (c.tok ++ c.rest.take w) (if inQuote then some quoteChar else none) (c.rest.drop w) := by
  rw [Cursor.quotedStep, hs, List.drop_left] at hstep
  simp only at hstep
  rw [hs]
  by_cases hesc : r = 0x5C
  · obtain rfl : u = [backslash] := by rw [← hu.encode, hesc]; rfl
    rw [if_pos (by simp [hesc])] at hstep
    cases t with
    | nil =>
      obtain ⟨rfl, rfl, rfl, -⟩ : 1 = w ∧ true = inQuote ∧ c.quoteChar = quoteChar ∧ false = invalid := by
        simpa using hstep
      exact ⟨hu.bound [], rfl, .escape hrun (.inr ⟨rfl, rfl⟩)⟩
    | cons b t =>
      obtain ⟨v, t', r', hb, hv, ht'⟩ := utf8Valid_cons ht
      rw [if_neg (by simp), hb, hv.decode, Step.grow.injEq] at hstep
      obtain ⟨rfl, rfl, rfl, -⟩ := hstep
      rw [hb] at hrun ⊢
      have htake : ([backslash] ++ (v ++ t')).take ([backslash].length + v.length) = [backslash] ++ v := by
        grind
      have hdrop : ([backslash] ++ (v ++ t')).drop ([backslash].length + v.length) = t' := by
        grind
      refine ⟨fun _ => ?_, rfl, ?_⟩
      · have hvalid := hu.utf8Valid_append v
        rw [← List.append_nil v, hv.utf8Valid_append, List.append_nil] at hvalid
        rw [htake, hdrop]
        exact ⟨hvalid, ht'⟩
      rw [htake, hdrop]
      exact .escape hrun (.inl ⟨r', hv⟩)
  rw [if_neg (by simp [hesc])] at hstep
  rw [Step.grow.injEq] at hstep
  obtain ⟨rfl, hin, rfl, -⟩ := hstep
  replace hin : (!(r == c.quoteChar && closesQuote r t)) = inQuote := hin
  rw [List.take_left, List.drop_left]
  refine ⟨hu.bound t, rfl, ?_⟩
  by_cases hclose : r = c.quoteChar ∧ closesQuote c.quoteChar t = true
  · obtain ⟨rfl, hc⟩ := hclose
    obtain rfl : inQuote = false := by
      rw [← hin, hc]
      simp
    exact .closing hrun hu hc
  obtain rfl : inQuote = true := by
    grind
  exact .inside hrun hu hesc hclose

theorem plainStep_run (hrun : TokenRun q₀ c.tok none c.rest) (hs : c.rest = u ++ t) (hu : Encodes u r)
    (hstep : c.plainStep r u.length = .grow w inQuote quoteChar invalid) :
    Bound c.rest w ∧ (inQuote = true → quoteChar = 0x22 ∨ quoteChar = 0x27) ∧
      TokenRun q₀ (c.tok ++ c.rest.take w) (if inQuote then some quoteChar else none) (c.rest.drop w) := by
  rw [Cursor.plainStep] at hstep
  split at hstep
  · next len hlen =>
    obtain ⟨hr, hlen⟩ := Option.ite_none_right_eq_some.mp hlen
    cases hstep
    have hquote : hasPrefix c.rest [squote] = true := by
      rw [hs, ← hu.encode, beq_iff_eq.mp hr]
      rfl
    obtain ⟨hbound, hdoc⟩ := quotedDocument_spec hquote hlen
    refine ⟨hbound, by simp, .document ?_ hdoc⟩
    rwa [List.take_append_drop]
  split at hstep
  · next hopen =>
    cases hstep
    rw [hs, List.drop_left] at hopen
    rw [hs] at hrun ⊢
    rw [List.take_left, List.drop_left]
    refine ⟨hu.bound t, fun _ => ?_, .opening hrun hu hopen⟩
    grind
  · next hopen =>
    split at hstep
    · next len hm =>
      split at hstep
      · next hurl =>
        cases hstep
        simp only [Cursor.markerInURL, Bool.and_eq_true] at hurl
        refine ⟨(markerLength_stops hm).bound, by simp, ?_⟩
        refine .marker ?_ (markerLength_spec hm) hurl.1.1 hurl.1.2 hurl.2
        rwa [List.take_append_drop]
      simp at hstep
    rw [Cursor.boundaryStep] at hstep
    split_ifs at hstep with h1 h2 h3
    cases hstep
    rw [hs, List.drop_left] at hopen
    rw [hs] at hrun ⊢
    rw [List.take_left, List.drop_left]
    exact ⟨hu.bound t, by simp, .plain hrun hu (by simpa using h3) (Bool.eq_false_iff.mpr hopen)⟩

end Steps

theorem Reads.step {u t : Bytes} {r : Nat} (h : Reads q₀ c) (hs : c.rest = u ++ t)
    (hu : Encodes u r) (hr : r ≠ runeError) {w k : Nat} {q : Bool} (hstep : c.step = .grow w q k invalid)
    (seen : Bool) : Reads q₀ ⟨c.tok ++ c.rest.take w, c.rest.drop w, q, k, seen⟩ := by
  have hrun := h.run
  have ht : utf8Valid t = true := by rw [← hu.utf8Valid_append, ← hs]; exact h.rest
  rw [Cursor.step, hs, hu.decode] at hstep
  simp only [beq_iff_eq, hr, if_false] at hstep
  cases hin : c.inQuote with
  | true =>
    rw [hin, if_pos rfl] at hstep
    rw [Cursor.quotation, if_pos hin, hs] at hrun
    obtain ⟨hbound, rfl, hrun'⟩ := quotedStep_run hrun hs hu ht hstep
    exact h.grow hbound hrun' fun _ => h.quote hin
  | false =>
    rw [hin, if_neg (by simp)] at hstep
    rw [Cursor.quotation, if_neg (by simp [hin])] at hrun
    obtain ⟨hbound, hquote, hrun'⟩ := plainStep_run hrun hs hu hstep
    exact h.grow hbound hrun' hquote

section Runs

variable {Num : Type} {answer : (f : Frame) → BaselineStats Num → Outcome (scanSig Num) f.Ret}

end Runs

end PiiShield
