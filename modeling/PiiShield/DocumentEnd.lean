import PiiShield.JsonRoundTrip
import PiiShield.TokenShape

/-! The end of an embedded JSON document. The grammar is the one of RFC 8259 over bytes, and the
bracket count of `jsonDocumentEnd` stops exactly behind every object and array it derives. -/

namespace PiiShield

variable {b v : Bytes} {c : UInt8}

def IsPadding (w : Bytes) : Prop := w.all isJsonSpace = true

/-- The inside of a string. A character is one or more bytes from 0x20 on. -/
inductive IsStringBody : Bytes → Prop
  | nil : IsStringBody []
  | plain {c : UInt8} {t : Bytes} (hlow : 0x20 ≤ c) (hquote : c ≠ dquote) (hslash : c ≠ backslash)
      (ht : IsStringBody t) : IsStringBody (c :: t)
  | short {c d : UInt8} {t : Bytes} (hc : unescape c = some d) (ht : IsStringBody t) :
      IsStringBody (backslash :: c :: t)
  | unicode {x t : Bytes} (hlen : x.length = 4) (hx : x.all isHexByte = true) (ht : IsStringBody t) :
      IsStringBody (backslash :: chr 'u' :: (x ++ t))

def IsString (s : Bytes) : Prop := ∃ body, IsStringBody body ∧ s = dquote :: (body ++ [dquote])

inductive Phrase
  | value
  | document
  | item
  | member
  | items
  | members

/-- The grammar. A document is an object or an array, from its opening to its closing bracket. -/
inductive Derives : Phrase → Bytes → Prop
  | literal {v : Bytes} (hv : v ∈ [bs "null", bs "true", bs "false"]) : Derives .value v
  | number {v : Bytes} (hv : isNumber v = true) : Derives .value v
  | string {v : Bytes} (hv : IsString v) : Derives .value v
  | nested {v : Bytes} (hv : Derives .document v) : Derives .value v
  | item {w v w' : Bytes} (hw : IsPadding w) (hv : Derives .value v) (hw' : IsPadding w') :
      Derives .item (w ++ v ++ w')
  | member {w k w' v : Bytes} (hw : IsPadding w) (hk : IsString k) (hw' : IsPadding w')
      (hv : Derives .item v) : Derives .member (w ++ k ++ w' ++ chr ':' :: v)
  | lastItem {v : Bytes} (hv : Derives .item v) : Derives .items v
  | moreItems {v vs : Bytes} (hv : Derives .item v) (hvs : Derives .items vs) :
      Derives .items (v ++ chr ',' :: vs)
  | lastMember {m : Bytes} (hm : Derives .member m) : Derives .members m
  | moreMembers {m ms : Bytes} (hm : Derives .member m) (hms : Derives .members ms) :
      Derives .members (m ++ chr ',' :: ms)
  | emptyArray {w : Bytes} (hw : IsPadding w) : Derives .document (chr '[' :: (w ++ [chr ']']))
  | array {vs : Bytes} (hvs : Derives .items vs) : Derives .document (chr '[' :: (vs ++ [chr ']']))
  | emptyObject {w : Bytes} (hw : IsPadding w) : Derives .document (0x7b :: (w ++ [0x7d]))
  | object {ms : Bytes} (hms : Derives .members ms) : Derives .document (0x7b :: (ms ++ [0x7d]))

def IsDocument (d : Bytes) : Prop := Derives .document d

section Scanning

/-- The scan in a state goes over `v` and is in another state behind it. -/
def ScansOver (depth : Int) (inStr : Bool) (v : Bytes) (depth' : Int) (inStr' : Bool) : Prop :=
  ∀ t, jsonDocumentEndFrom depth inStr 0 (v ++ t) =
    (jsonDocumentEndFrom depth' inStr' 0 t).map (· + v.length)

theorem ScansOver.nil (depth : Int) (inStr : Bool) : ScansOver depth inStr [] depth inStr := by
  intro t
  simp

theorem ScansOver.append {d₁ d₂ d₃ : Int} {s₁ s₂ s₃ : Bool} {u : Bytes}
    (hu : ScansOver d₁ s₁ u d₂ s₂) (hv : ScansOver d₂ s₂ v d₃ s₃) :
    ScansOver d₁ s₁ (u ++ v) d₃ s₃ := by
  intro t
  rw [List.append_assoc, hu, hv, Option.map_map, List.length_append]
  congr 1
  funext n
  simp only [Function.comp]
  omega

theorem ScansOver.cons {d₁ d₂ d₃ : Int} {s₁ s₂ s₃ : Bool}
    (hc : ScansOver d₁ s₁ [c] d₂ s₂) (hv : ScansOver d₂ s₂ v d₃ s₃) :
    ScansOver d₁ s₁ (c :: v) d₃ s₃ :=
  hc.append hv

def isDocumentMark (c : UInt8) : Bool :=
  c == dquote || c == 0x7b || c == '[' || c == 0x7d || c == ']'

variable {depth : Int} {c : UInt8}

theorem scansOver_plain (hc : isDocumentMark c = false) : ScansOver depth false [c] depth false := by
  intro t
  simp_all [isDocumentMark, jsonDocumentEndFrom]

theorem scansOver_plains (hv : ∀ c ∈ v, isDocumentMark c = false) : ScansOver depth false v depth false := by
  induction v with
  | nil => exact ScansOver.nil _ _
  | cons c v ih =>
    have hc := hv c List.mem_cons_self
    exact (scansOver_plain hc).cons (ih fun b hb => hv b (List.mem_cons_of_mem c hb))

theorem scansOver_quote (inStr : Bool) : ScansOver depth inStr [dquote] depth (!inStr) := by
  intro t
  grind [jsonDocumentEndFrom, dquote, backslash]

theorem scansOver_char (hquote : c ≠ dquote) (hslash : c ≠ backslash) :
    ScansOver depth true [c] depth true := by
  intro t
  grind [dquote, jsonDocumentEndFrom]

theorem scansOver_chars (hv : ∀ c ∈ v, c ≠ dquote ∧ c ≠ backslash) : ScansOver depth true v depth true := by
  induction v with
  | nil => exact ScansOver.nil _ _
  | cons c v ih =>
    obtain ⟨hquote, hslash⟩ := hv c List.mem_cons_self
    exact (scansOver_char hquote hslash).cons (ih fun b hb => hv b (List.mem_cons_of_mem c hb))

theorem scansOver_escape (c : UInt8) : ScansOver depth true [backslash, c] depth true := by
  intro t
  simp [jsonDocumentEndFrom]

theorem scansOver_open (hc : c = 0x7b ∨ c = chr '[') : ScansOver depth false [c] (depth + 1) false := by
  intro t
  have hq : (c == dquote) = false := by
    rcases hc with rfl | rfl <;> rfl
  simp_all [jsonDocumentEndFrom]

theorem jsonDocumentEndFrom_close (hc : c = 0x7d ∨ c = chr ']') (t : Bytes) :
    jsonDocumentEndFrom depth false 0 (c :: t) =
      if depth - 1 == 0 then some 1 else (jsonDocumentEndFrom (depth - 1) false 0 t).map (· + 1) := by
  have hq : (c == dquote) = false := by
    rcases hc with rfl | rfl <;> rfl
  have ho : (c == 0x7b || c == chr '[') = false := by
    rcases hc with rfl | rfl <;> rfl
  simp_all [jsonDocumentEndFrom]

theorem scansOver_body (h : IsStringBody b) : ScansOver depth true b depth true := by
  induction h with
  | nil => exact ScansOver.nil _ _
  | plain _ hquote hslash _ ih => exact (scansOver_char hquote hslash).cons ih
  | short _ _ ih => exact (scansOver_escape _).append ih
  | @unicode x t _ hx _ ih =>
    have hdigits : ScansOver depth true x depth true := by
      refine scansOver_chars fun c hc => ?_
      have hhex := List.all_eq_true.mp hx c hc
      constructor
      · rintro rfl
        exact absurd hhex (by decide)
      rintro rfl
      exact absurd hhex (by decide)
    exact (scansOver_escape (chr 'u')).append (hdigits.append ih)

theorem scansOver_string {s : Bytes} (h : IsString s) : ScansOver depth false s depth false := by
  obtain ⟨body, hbody, rfl⟩ := h
  exact (scansOver_quote false).cons ((scansOver_body hbody).append (scansOver_quote true))

theorem scansOver_bracketed {o : UInt8} (ho : o = 0x7b ∨ o = chr '[')
    (hc : c = 0x7d ∨ c = chr ']') (hb : ScansOver (depth + 1) false b (depth + 1) false) (hd : 1 ≤ depth) :
    ScansOver depth false (o :: (b ++ [c])) depth false := by
  have hclose : ScansOver (depth + 1) false [c] depth false := by
    intro t
    have hne : ¬ depth = 0 := by omega
    rw [List.singleton_append, jsonDocumentEndFrom_close hc]
    simp [hne]
  exact (scansOver_open ho).cons (hb.append hclose)

theorem jsonDocumentEndFrom_bracketed {o : UInt8} (ho : o = 0x7b ∨ o = chr '[')
    (hc : c = 0x7d ∨ c = chr ']') (hb : ScansOver 1 false b 1 false) (t : Bytes) :
    jsonDocumentEndFrom 0 false 0 (o :: (b ++ [c]) ++ t) = some (o :: (b ++ [c])).length := by
  have hopen : ScansOver 0 false (o :: b) 1 false := (scansOver_open ho).cons hb
  have hsplit : o :: (b ++ [c]) ++ t = (o :: b) ++ (c :: t) := by simp
  rw [hsplit, hopen, jsonDocumentEndFrom_close hc]
  simp [Nat.add_comm]

theorem isDocumentMark_of_space (hc : isJsonSpace c = true) : isDocumentMark c = false := by
  simp only [isJsonSpace, Bool.or_eq_true, beq_iff_eq] at hc
  rcases hc with ((rfl | rfl) | rfl) | rfl <;> rfl

theorem isDocumentMark_of_number (hc : isNumberByte c = true) : isDocumentMark c = false := by
  rw [Bool.eq_false_iff]
  intro hmark
  simp only [isDocumentMark, Bool.or_eq_true, beq_iff_eq] at hmark
  rcases hmark with (((rfl | rfl) | rfl) | rfl) | rfl <;> exact absurd hc (by decide)

theorem scansOver_padding {w : Bytes} (hw : IsPadding w) : ScansOver depth false w depth false :=
  scansOver_plains fun c hc => isDocumentMark_of_space (List.all_eq_true.mp hw c hc)

theorem scansOver_number (hv : isNumber v = true) : ScansOver depth false v depth false :=
  scansOver_plains fun c hc => isDocumentMark_of_number (List.all_eq_true.mp (all_of_isNumber hv) c hc)

theorem scansOver_literal (hv : v ∈ [bs "null", bs "true", bs "false"]) :
    ScansOver depth false v depth false := by
  have hall : [bs "null", bs "true", bs "false"].all (·.all fun c => !isDocumentMark c) = true := rfl
  simp only [List.all_eq_true, Bool.not_eq_true'] at hall
  exact scansOver_plains (hall v hv)

theorem scansOver_derived {p : Phrase} (h : Derives p v) (hd : 1 ≤ depth) :
    ScansOver depth false v depth false := by
  have hcomma : ∀ depth, ScansOver depth false [chr ','] depth false := fun _ => scansOver_plain rfl
  have hcolon : ∀ depth, ScansOver depth false [chr ':'] depth false := fun _ => scansOver_plain rfl
  induction h generalizing depth with
  | literal hv => exact scansOver_literal hv
  | number hv => exact scansOver_number hv
  | string hv => exact scansOver_string hv
  | nested _ ih | lastItem _ ih | lastMember _ ih => exact ih hd
  | item hw _ hw' ih => exact ((scansOver_padding hw).append (ih hd)).append (scansOver_padding hw')
  | member hw hk hw' _ ih =>
    have hkey : ScansOver depth false _ depth false :=
      ((scansOver_padding hw).append (scansOver_string hk)).append (scansOver_padding hw')
    exact hkey.append ((hcolon depth).cons (ih hd))
  | moreItems _ _ ihv ihvs => exact (ihv hd).append ((hcomma depth).cons (ihvs hd))
  | moreMembers _ _ ihm ihms => exact (ihm hd).append ((hcomma depth).cons (ihms hd))
  | emptyArray hw => exact scansOver_bracketed (.inr rfl) (.inr rfl) (scansOver_padding hw) hd
  | array _ ih => exact scansOver_bracketed (.inr rfl) (.inr rfl) (ih (by omega)) hd
  | emptyObject hw => exact scansOver_bracketed (.inl rfl) (.inl rfl) (scansOver_padding hw) hd
  | object _ ih => exact scansOver_bracketed (.inl rfl) (.inl rfl) (ih (by omega)) hd

theorem jsonDocumentEndFrom_document {d : Bytes} (h : IsDocument d) (t : Bytes) :
    jsonDocumentEndFrom 0 false 0 (d ++ t) = some d.length := by
  cases h with
  | emptyArray hw => exact jsonDocumentEndFrom_bracketed (.inr rfl) (.inr rfl) (scansOver_padding hw) t
  | array hvs => exact jsonDocumentEndFrom_bracketed (.inr rfl) (.inr rfl) (scansOver_derived hvs le_rfl) t
  | emptyObject hw => exact jsonDocumentEndFrom_bracketed (.inl rfl) (.inl rfl) (scansOver_padding hw) t
  | object hms => exact jsonDocumentEndFrom_bracketed (.inl rfl) (.inl rfl) (scansOver_derived hms le_rfl) t

theorem jsonDocumentEndFrom_pos {inStr : Bool} {skip : Nat} {s : Bytes} {n : Nat}
    (h : jsonDocumentEndFrom depth inStr skip s = some n) : 0 < n := by
  cases s with
  | nil => cases skip <;> simp [jsonDocumentEndFrom] at h
  | cons c t =>
    rcases jsonDocumentEndFrom_cons depth inStr skip c with hc | ⟨depth', inStr', skip', hc⟩
    · rw [hc, Option.some.injEq] at h
      omega
    rw [hc] at h
    obtain ⟨m, _, rfl⟩ := Option.map_eq_some_iff.mp h
    omega

end Scanning

/-- Behind `p` the document `d` ends where it ends, and every index found lies behind the start and
inside the string. -/
theorem document_end_exact :
    (∀ p d t : Bytes, IsDocument d →
      jsonDocumentEnd (p ++ d ++ t) p.length = some (p.length + d.length)) ∧
    ∀ (s : Bytes) (i : Nat), firstIs (s.drop i) (fun c => c == 0x7b || c == '[') = true →
      jsonDocumentEnd s i = none ∨ ∃ e, jsonDocumentEnd s i = some e ∧ i < e ∧ e ≤ s.length := by
  constructor
  · intro p d t hd
    rw [jsonDocumentEnd, List.append_assoc, List.drop_left, jsonDocumentEndFrom_document hd,
      Option.map_some]
  intro s i _
  cases h : jsonDocumentEndFrom 0 false 0 (s.drop i) with
  | none =>
    left
    rw [jsonDocumentEnd, h, Option.map_none]
  | some n =>
    right
    have hpos := jsonDocumentEndFrom_pos h
    have hle := (jsonDocumentEndFrom_eq_some h).1
    rw [List.length_drop] at hle
    refine ⟨i + n, ?_, by omega, by omega⟩
    rw [jsonDocumentEnd, h, Option.map_some]

/-- Behind `x='` an object with an escaped quote and a bracket in its string. -/
theorem document_end_quoted_bracket :
    IsDocument (bs "\x7b\"k\": [1, \"]\\\"\"]\x7d") ∧
      jsonDocumentEnd (bs "x='" ++ bs "\x7b\"k\": [1, \"]\\\"\"]\x7d" ++ bs "' b='2'") 3 = some 20 := by
  have hkey : IsString (bs "\"k\"") :=
    ⟨bs "k", .plain (by decide) (by decide) (by decide) .nil, by decide⟩
  have hescape : unescape dquote = some dquote := rfl
  have htext : IsString (bs "\"]\\\"\"") :=
    ⟨bs "]\\\"", .plain (by decide) (by decide) (by decide) (.short hescape .nil), by decide⟩
  have hnone : IsPadding [] := rfl
  have hblank : IsPadding (bs " ") := rfl
  have hone : Derives .item (bs "1") := .item hnone (.number (v := bs "1") (by decide)) hnone
  have hlast : Derives .item (bs " \"]\\\"\"") := .item hblank (.string htext) hnone
  have harray : Derives .value (bs "[1, \"]\\\"\"]") := .nested (.array (.moreItems hone (.lastItem hlast)))
  have hdoc : IsDocument (bs "\x7b\"k\": [1, \"]\\\"\"]\x7d") :=
    .object (.lastMember (.member hnone hkey hnone (.item hblank harray hnone)))
  exact ⟨hdoc, document_end_exact.1 (bs "x='") _ _ hdoc⟩

end PiiShield
