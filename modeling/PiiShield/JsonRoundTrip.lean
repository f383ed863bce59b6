import Mathlib.Algebra.BigOperators.Group.List.Basic
import Mathlib.Algebra.Order.Ring.Int
import PiiShield.Json

/-! What the encoder writes is read back as the value it was given, and how long it is. -/

namespace PiiShield

theorem unquoteStep_dquote (t : Bytes) : unquoteStep (dquote :: t) = none := by
  simp [unquoteStep, dquote, backslash]

theorem unquoteStep_quoteRuneHTML {c : Bytes} {r : Nat} (h : Encodes c r) (t : Bytes) :
    unquoteStep (quoteRuneHTML (r, c.length) ++ t) = some (c, (quoteRuneHTML (r, c.length)).length) := by
  rw [quoteRuneHTML]
  split
  · next hr =>
    simp only [Bool.or_eq_true, beq_iff_eq] at hr
    have hhex : hex4 [chr '0', chr '0', hexDigit (r / 16), hexDigit (r % 16)] = some r := by
      rcases hr with (rfl | rfl) | rfl <;> decide
    have hstep := unquoteStep_hex hhex (by omega) t
    rw [h.encode] at hstep
    exact hstep
  exact unquoteStep_quoteRune h t

theorem readString_skip (k : Nat) (s : Bytes) : readString k s = readString 0 (s.drop k) := by
  induction s generalizing k with
  | nil => cases k <;> rfl
  | cons c t ih =>
    cases k with
    | zero => rfl
    | succ k => exact ih k

theorem readString_step {s o : Bytes} {w : Nat} (h : unquoteStep s = some (o, w)) :
    readString 0 s = (readString 0 (s.drop w)).map fun (x, rest) => (o ++ x, rest) := by
  match s with
  | [] => cases h
  | c :: t =>
    have hc : (c == dquote) = false := by grind [unquoteStep_dquote]
    obtain ⟨w, rfl⟩ := Nat.exists_eq_add_of_le' (unquoteStep_spec h).2.2
    rw [readString, hc, if_neg Bool.false_ne_true, h]
    dsimp only
    simp [readString_skip]

theorem readString_quote {s : Bytes} (hs : utf8Valid s = true) (rest : Bytes) :
    readString 0 ((runesFrom 0 s).flatMap quoteRuneHTML ++ dquote :: rest) = some (s, rest) := by
  refine utf8Valid_induction (P := fun s =>
    readString 0 ((runesFrom 0 s).flatMap quoteRuneHTML ++ dquote :: rest) = some (s, rest)) ?_ ?_ hs
  · simp [runesFrom, readString]
  intro c r t h _ ih
  rw [h.runesFrom_append, List.flatMap_cons, List.append_assoc,
    readString_step (unquoteStep_quoteRuneHTML h _), List.drop_left, ih]
  rfl

theorem readText_quote (s : Text) (rest : Bytes) :
    readText ((runesFrom 0 s.bytes).flatMap quoteRuneHTML ++ dquote :: rest) = some (s, rest) := by
  have h := readString_quote s.valid rest
  rw [readText]
  split
  · next x r hx =>
    cases h.symm.trans hx
    rfl
  · next hx => cases h.symm.trans hx

variable {t : Bytes}

theorem all_takeWhile_digits (h : (t.dropWhile isASCIIDigit).all isNumberByte = true) :
    t.all isNumberByte = true := by
  rw [← List.takeWhile_append_dropWhile (p := isASCIIDigit) (l := t), List.all_append, h, Bool.and_true,
    List.all_eq_true]
  grind [List.mem_takeWhile_imp, isNumberByte]

theorem all_isNumberByte_of_digits (h : t.all isASCIIDigit = true) : t.all isNumberByte = true := by
  rw [List.all_eq_true] at h ⊢
  intro c hc
  rw [isNumberByte, h c hc]
  rfl

theorem all_of_isExponent (h : isExponent t = true) : t.all isNumberByte = true := by
  match t with
  | [] => rfl
  | c :: t =>
    simp only [isExponent, Bool.and_eq_true] at h
    obtain ⟨⟨hc, -⟩, hdigits⟩ := h
    have hc : isNumberByte c = true := by
      rw [Bool.or_eq_true, beq_iff_eq, beq_iff_eq] at hc
      rcases hc with rfl | rfl <;> decide
    rw [List.all_cons, hc, Bool.true_and]
    split at hdigits
    · next hsign =>
      match t with
      | [] => cases hsign
      | s :: t =>
        have hs : isNumberByte s = true := by
          simp only [firstIs, List.head?_cons, Option.any_some, Bool.or_eq_true, beq_iff_eq] at hsign
          rcases hsign with rfl | rfl <;> decide
        rw [List.all_cons, hs, Bool.true_and]
        exact all_isNumberByte_of_digits hdigits
    exact all_isNumberByte_of_digits hdigits

theorem all_of_isFraction (h : isFraction t = true) : t.all isNumberByte = true := by
  match t with
  | [] => rfl
  | c :: t =>
    rw [isFraction] at h
    split at h
    · next hc =>
      rw [Bool.and_eq_true] at h
      have hc : isNumberByte c = true := by
        rw [isNumberByte, hc]
        simp
      rw [List.all_cons, hc, Bool.true_and]
      exact all_takeWhile_digits (all_of_isExponent h.2)
    exact all_of_isExponent h

theorem all_of_isUnsigned (h : isUnsigned t = true) : t.all isNumberByte = true := by
  match t with
  | [] => cases h
  | c :: t =>
    rw [isUnsigned] at h
    split at h
    · next hc =>
      have hc : isNumberByte c = true := by
        rw [beq_iff_eq.mp hc]
        decide
      rw [List.all_cons, hc, Bool.true_and]
      exact all_of_isFraction h
    rw [Bool.and_eq_true] at h
    have hc : isNumberByte c = true := by
      rw [isNumberByte, h.1]
      rfl
    rw [List.all_cons, hc, Bool.true_and]
    exact all_takeWhile_digits (all_of_isFraction h.2)

theorem all_of_isNumber (h : isNumber t = true) : t.all isNumberByte = true := by
  rw [isNumber] at h
  split at h
  · next hsign =>
    match t with
    | [] => cases hsign
    | c :: t =>
      have hc : c = chr '-' := by simpa [firstIs] using hsign
      rw [List.drop_one, List.tail_cons] at h
      rw [List.all_cons, hc, all_of_isUnsigned h]
      decide
  exact all_of_isUnsigned h

theorem readNumber_append (n : Numeral) {rest : Bytes} (hrest : firstIs rest isNumberByte = false) :
    readNumber (n.text ++ rest) = some (.num n, rest) := by
  have hall := List.all_eq_true.mp (all_of_isNumber n.valid)
  have htake : (n.text ++ rest).takeWhile isNumberByte = n.text := by
    rw [List.takeWhile_append_of_pos hall]
    match rest with
    | [] => simp
    | c :: t =>
      have hc : isNumberByte c = false := hrest
      simp [hc]
  simp only [readNumber, htake, n.valid, dif_pos, List.drop_left]

section Values

def isValueStart (c : UInt8) : Bool :=
  c == dquote || c == '[' || c == '\x7b' || c == 'n' || c == 't' || c == 'f' || c == '-' || isASCIIDigit c

theorem isValueStart_spec {c : UInt8} (h : isValueStart c = true) :
    isJsonSpace c = false ∧ c ≠ ']' ∧ c ≠ '\x7d' := by
  have hall : ∀ c : UInt8, isValueStart c = true → isJsonSpace c = false ∧ c ≠ ']' ∧ c ≠ '\x7d' := by
    refine forall_byte ?_
    decide +kernel
  exact hall c h

theorem isValueStart_number {t : Bytes} (h : isNumber t = true) :
    ∃ c u, t = c :: u ∧ (c = chr '-' ∨ isASCIIDigit c = true) := by
  match t with
  | [] => cases h
  | c :: u =>
    refine ⟨c, u, rfl, ?_⟩
    rw [isNumber] at h
    split at h
    · next hsign => exact .inl (by simpa [firstIs] using hsign)
    right
    rw [isUnsigned] at h
    split at h
    · next hc =>
      rw [beq_iff_eq.mp hc]
      decide
    exact (Bool.and_eq_true_iff.mp h).1

theorem marshal_start (v : Json) : ∃ c t, v.marshal = c :: t ∧ isValueStart c = true := by
  cases v with
  | null => exact ⟨chr 'n', bs "ull", by rfl, by decide⟩
  | bool b =>
    cases b with
    | false => exact ⟨chr 'f', bs "alse", by rfl, by decide⟩
    | true => exact ⟨chr 't', bs "rue", by rfl, by decide⟩
  | num n =>
    obtain ⟨c, u, ht, hc⟩ := isValueStart_number n.valid
    refine ⟨c, u, ht, ?_⟩
    rcases hc with rfl | hc
    · decide
    simp [isValueStart, hc]
  | str s => exact ⟨dquote, _, rfl, by decide⟩
  | arr items => exact ⟨chr '[', _, rfl, by decide⟩
  | obj members => exact ⟨chr '\x7b', _, rfl, by decide⟩

theorem skipSpace_cons {c : UInt8} (h : isJsonSpace c = false) (t : Bytes) : skipSpace (c :: t) = c :: t := by
  rw [skipSpace, List.dropWhile_cons_of_neg (by rw [h]; exact Bool.false_ne_true)]

variable {α : Type} (item : Reader α) (write : α → Bytes) (closing : UInt8) {xs : List α}

theorem readItems_intercalate (hclosing : isJsonSpace closing = false ∧ closing ≠ ',' ∧ isNumberByte closing = false)
    (hitem : ∀ x ∈ xs, ∀ rest, firstIs rest isNumberByte = false → item (write x ++ rest) = some (x, rest))
    (hne : xs ≠ []) {rounds : Nat} (hrounds : xs.length ≤ rounds) (rest : Bytes) :
    readItems item closing rounds (List.intercalate [chr ','] (xs.map write) ++ closing :: rest) =
      some (xs, rest) := by
  induction xs generalizing rounds with
  | nil => exact absurd rfl hne
  | cons x xs ih =>
    obtain ⟨rounds, rfl⟩ : ∃ k, rounds = k + 1 := ⟨rounds - 1, by simp at hrounds; omega⟩
    cases xs with
    | nil =>
      have hcomma : (closing == chr ',') = false := beq_eq_false_iff_ne.mpr hclosing.2.1
      rw [List.map_cons, List.map_nil, List.intercalate_singleton, readItems,
        hitem x (List.mem_singleton_self x) (closing :: rest) hclosing.2.2, Option.bind_some]
      simp_all [skipSpace_cons]
    | cons y ys =>
      have hrest (t : Bytes) : firstIs (chr ',' :: t) isNumberByte = false := rfl
      have hfewer : (y :: ys).length ≤ rounds := by simpa using hrounds
      have htail := ih (fun z hz => hitem z (List.mem_cons_of_mem x hz)) (List.cons_ne_nil y ys) hfewer
      rw [List.map_cons, List.map_cons, List.intercalate_cons_cons, ← List.map_cons, readItems]
      rw [List.append_assoc, List.append_assoc, List.singleton_append, hitem x List.mem_cons_self _ (hrest _),
        Option.bind_some]
      dsimp only
      rw [skipSpace_cons (by decide)]
      simp only [beq_self_eq_true, if_true, htail, Option.map_some]

theorem length_le_intercalate (hwrite : ∀ x ∈ xs, write x ≠ []) :
    xs.length ≤ (List.intercalate [chr ','] (xs.map write)).length := by
  induction xs with
  | nil => exact Nat.le_refl 0
  | cons x xs ih =>
    have hx := List.length_pos_iff.mpr (hwrite x List.mem_cons_self)
    have hxs := ih fun y hy => hwrite y (List.mem_cons_of_mem x hy)
    cases xs with
    | nil =>
      rw [List.map_cons, List.map_nil, List.intercalate_singleton]
      exact hx
    | cons y ys =>
      grind [List.intercalate_cons_cons, List.length_append, List.length_cons,
        List.length_nil]

theorem readList_enclose (hclosing : isJsonSpace closing = false ∧ closing ≠ ',' ∧ isNumberByte closing = false)
    (hstart : ∀ x ∈ xs, ∃ c t, write x = c :: t ∧ isJsonSpace c = false ∧ c ≠ closing)
    (hitem : ∀ x ∈ xs, ∀ rest, firstIs rest isNumberByte = false → item (write x ++ rest) = some (x, rest))
    (rest : Bytes) :
    readList item closing (List.intercalate [chr ','] (xs.map write) ++ [closing] ++ rest) = some (xs, rest) := by
  rw [List.append_assoc, List.singleton_append]
  match xs with
  | [] =>
    rw [List.map_nil, List.intercalate_nil, List.nil_append, readList, skipSpace_cons hclosing.1]
    simp
  | x :: xs =>
    obtain ⟨c, t, hx, hspace, hne⟩ := hstart x List.mem_cons_self
    obtain ⟨u, hu⟩ : ∃ u, List.intercalate [chr ','] ((x :: xs).map write) ++ closing :: rest = c :: u := by
      simp_all
    have hwrite (y : α) (hy : y ∈ x :: xs) : write y ≠ [] := by grind
    have hlen : (x :: xs).length ≤
        (List.intercalate [chr ','] ((x :: xs).map write) ++ closing :: rest).length := by
      rw [List.length_append]
      exact Nat.le_add_right_of_le (length_le_intercalate write hwrite)
    have hitems := readItems_intercalate item write closing hclosing hitem (List.cons_ne_nil x xs) hlen rest
    simp_all [readList, skipSpace_cons]

variable {rest : Bytes}

theorem readMember_append {value : Reader Json} {m : Text × Json}
    (hvalue : value (m.2.marshal ++ rest) = some (m.2, rest)) :
    readMember value (quoteHTML m.1.bytes ++ chr ':' :: m.2.marshal ++ rest) = some (m, rest) := by
  have hquote : quoteHTML m.1.bytes ++ chr ':' :: m.2.marshal ++ rest =
      dquote :: ((runesFrom 0 m.1.bytes).flatMap quoteRuneHTML ++ dquote :: (chr ':' :: (m.2.marshal ++ rest))) := by
    simp [quoteHTML]
  rw [hquote, readMember, skipSpace_cons (by decide)]
  dsimp only
  rw [beq_self_eq_true, if_pos rfl, readText_quote, Option.bind_some]
  dsimp only
  rw [skipSpace_cons (by decide)]
  dsimp only
  rw [beq_self_eq_true, if_pos rfl, hvalue]
  rfl

theorem foldr_max_le {l : List Nat} {d : Nat} : l.foldr max 0 ≤ d ↔ ∀ x ∈ l, x ≤ d := by
  induction l with
  | nil => simp
  | cons x l ih => rw [List.foldr_cons, Nat.max_le, ih, List.forall_mem_cons]

namespace Json

theorem depth_arr_le {items : List Json} {d : Nat} : (arr items).depth ≤ d + 1 ↔ ∀ v ∈ items, v.depth ≤ d := by
  rw [depth, fold_arr, Nat.add_le_add_iff_right, foldr_max_le, List.forall_mem_map]

theorem depth_obj_le {members : List (Text × Json)} {d : Nat} :
    (obj members).depth ≤ d + 1 ↔ ∀ m ∈ members, m.2.depth ≤ d := by
  rw [depth, fold_obj, Nat.add_le_add_iff_right, List.map_map, foldr_max_le, List.forall_mem_map]
  rfl

theorem depth_arr_pos (items : List Json) : 0 < (arr items).depth := by
  rw [depth, fold_arr]
  exact Nat.succ_pos _

theorem depth_obj_pos (members : List (Text × Json)) : 0 < (obj members).depth := by
  rw [depth, fold_obj]
  exact Nat.succ_pos _

theorem marshal_arr (items : List Json) : (arr items).marshal = enclose '[' ']' (items.map marshal) := by
  rw [marshal, fold_arr]

theorem marshal_obj (members : List (Text × Json)) : (obj members).marshal =
      enclose '\x7b' '\x7d' (members.map fun m => quoteHTML m.1.bytes ++ chr ':' :: m.2.marshal) := by
  rw [marshal, fold_obj]
  dsimp only
  rw [List.map_map]
  rfl

end Json

theorem skipSpace_start {c : UInt8} (hc : isValueStart c = true) (t : Bytes) : skipSpace (c :: t) = c :: t :=
  skipSpace_cons (isValueStart_spec hc).1 t

theorem readValue_eq (depth : Nat) : ∃ nested, readValue depth = readWith nested := by
  cases depth with
  | zero => exact ⟨none, rfl⟩
  | succ depth => exact ⟨some (readValue depth), rfl⟩

theorem readWith_number (nested : Option (Reader Json)) (n : Numeral)
    (hrest : firstIs rest isNumberByte = false) : readWith nested (n.text ++ rest) = some (.num n, rest) := by
  obtain ⟨c, u, ht, hc⟩ := isValueStart_number n.valid
  have hplain : isValueStart c = true ∧ (c == dquote) = false ∧ (c == chr '[') = false ∧
      (c == chr '\x7b') = false ∧ (chr 'n' == c) = false ∧ (chr 't' == c) = false ∧ (chr 'f' == c) = false := by
    clear ht
    revert c
    refine forall_byte ?_
    decide +kernel
  obtain ⟨hstart, h1, h2, h3, h4, h5, h6⟩ := hplain
  have hhead (k : UInt8) (word : Bytes) (hk : (k == c) = false) :
      hasPrefix (c :: (u ++ rest)) (k :: word) = false := by
    simp [hasPrefix, List.isPrefixOf, hk]
  have hnull : hasPrefix (c :: (u ++ rest)) (bs "null") = false := hhead (chr 'n') (bs "ull") h4
  have htrue : hasPrefix (c :: (u ++ rest)) (bs "true") = false := hhead (chr 't') (bs "rue") h5
  have hfalse : hasPrefix (c :: (u ++ rest)) (bs "false") = false := hhead (chr 'f') (bs "alse") h6
  have hread := readNumber_append n hrest
  rw [ht, List.cons_append] at hread ⊢
  rw [readWith, skipSpace_start hstart]
  dsimp only
  rw [h1, h2, h3, hnull, htrue, hfalse]
  exact hread

theorem readWith_string (nested : Option (Reader Json)) (s : Text) (rest : Bytes) :
    readWith nested (quoteHTML s.bytes ++ rest) = some (.str s, rest) := by
  have hquote : quoteHTML s.bytes ++ rest =
      dquote :: ((runesFrom 0 s.bytes).flatMap quoteRuneHTML ++ dquote :: rest) := by
    simp [quoteHTML]
  rw [hquote, readWith, skipSpace_start (by decide)]
  dsimp only
  rw [beq_self_eq_true, if_pos rfl, readText_quote]
  rfl

theorem readValue_marshal (v : Json) {depth : Nat} (hdepth : v.depth ≤ depth)
    (hrest : firstIs rest isNumberByte = false) : readValue depth (v.marshal ++ rest) = some (v, rest) := by
  induction v using Json.induct generalizing depth rest with
  | null => cases depth <;> rfl
  | bool b => cases b <;> cases depth <;> rfl
  | num n =>
    obtain ⟨nested, hread⟩ := readValue_eq depth
    rw [hread]
    exact readWith_number nested n hrest
  | str s =>
    obtain ⟨nested, hread⟩ := readValue_eq depth
    rw [hread]
    exact readWith_string nested s rest
  | arr items ih =>
    obtain ⟨depth, rfl⟩ := Nat.exists_eq_add_of_le' (Nat.lt_of_lt_of_le (Json.depth_arr_pos items) hdepth)
    rw [Json.depth_arr_le] at hdepth
    have hlist := readList_enclose (readValue depth) Json.marshal ']' (by decide)
      (fun v _ => by
        obtain ⟨c, t, hv, hc⟩ := marshal_start v
        exact ⟨c, t, hv, (isValueStart_spec hc).1, (isValueStart_spec hc).2.1⟩)
      (fun v hv r hr => ih v hv (hdepth v hv) hr) rest
    rw [Json.marshal_arr, enclose, List.cons_append, List.cons_append, readValue, readWith,
      skipSpace_start (by decide)]
    dsimp only
    rw [if_neg (by decide), if_pos (by decide), Option.bind_some, hlist]
    rfl
  | obj members ih =>
    obtain ⟨depth, rfl⟩ := Nat.exists_eq_add_of_le' (Nat.lt_of_lt_of_le (Json.depth_obj_pos members) hdepth)
    rw [Json.depth_obj_le] at hdepth
    have hlist := readList_enclose (readMember (readValue depth))
      (fun m => quoteHTML m.1.bytes ++ chr ':' :: m.2.marshal) '\x7d' (by decide)
      (fun m _ => ⟨dquote, _, rfl, by decide, by decide⟩)
      (fun m hm r hr => readMember_append (ih m hm (hdepth m hm) hr)) rest
    rw [Json.marshal_obj, enclose, List.cons_append, List.cons_append, readValue, readWith,
      skipSpace_start (by decide)]
    dsimp only
    rw [if_neg (by decide), if_neg (by decide), if_pos (by decide), Option.bind_some, hlist]
    rfl

theorem readValue_marshal_nil {v : Json} (hdepth : v.depth ≤ maxNestingDepth) :
    readValue maxNestingDepth v.marshal = some (v, []) := by
  have hend : firstIs [] isNumberByte = false := rfl
  have h := readValue_marshal v hdepth hend
  rwa [List.append_nil] at h

theorem readDocument_marshal {v : Json} (hdepth : v.depth ≤ maxNestingDepth) : readDocument v.marshal = some v := by
  rw [readDocument, readValue_marshal_nil hdepth]
  rfl

end Values

section Nesting

variable {α : Type} {item : Reader α} {closing : UInt8} {s rest : Bytes}

theorem mem_readItems {rounds : Nat} {xs : List α}
    (h : readItems item closing rounds s = some (xs, rest)) {x : α} (hx : x ∈ xs) :
    ∃ s' rest', item s' = some (x, rest') := by
  induction rounds generalizing s xs with
  | zero => cases h
  | succ rounds ih =>
    rw [readItems] at h
    obtain ⟨⟨y, s'⟩, hy, h⟩ := Option.bind_eq_some_iff.mp h
    dsimp only at h
    split at h
    · cases h
    split at h
    · obtain ⟨⟨ys, s''⟩, hys, heq⟩ := Option.map_eq_some_iff.mp h
      grind
    grind

theorem mem_readList {xs : List α} (h : readList item closing s = some (xs, rest)) {x : α}
    (hx : x ∈ xs) : ∃ s' rest', item s' = some (x, rest') := by
  grind [readList, mem_readItems]

theorem value_of_readMember {value : Reader Json} {m : Text × Json}
    (h : readMember value s = some (m, rest)) : ∃ s' rest', value s' = some (m.2, rest') := by
  rw [readMember] at h
  split at h
  · cases h
  split at h
  · obtain ⟨⟨k, s'⟩, -, h⟩ := Option.bind_eq_some_iff.mp h
    dsimp only at h
    split at h
    · cases h
    split at h
    · obtain ⟨⟨v, r⟩, hv, heq⟩ := Option.map_eq_some_iff.mp h
      cases heq
      exact ⟨_, _, hv⟩
    · cases h
  · cases h

theorem readWith_nested {nested : Option (Reader Json)} {v : Json} (h : readWith nested s = some (v, rest)) :
    v.depth = 0 ∨ ∃ value, nested = some value ∧
      ((∃ items, v = .arr items ∧ ∀ x ∈ items, ∃ s' rest', value s' = some (x, rest')) ∨
        ∃ members, v = .obj members ∧ ∀ m ∈ members, ∃ s' rest', value s' = some (m.2, rest')) := by
  rw [readWith] at h
  split at h
  · cases h
  split at h
  · obtain ⟨⟨x, r⟩, -, heq⟩ := Option.map_eq_some_iff.mp h
    cases heq
    exact .inl rfl
  split at h
  · obtain ⟨value, hvalue, h⟩ := Option.bind_eq_some_iff.mp h
    obtain ⟨⟨vs, r⟩, hvs, heq⟩ := Option.map_eq_some_iff.mp h
    grind [mem_readList]
  split at h
  · obtain ⟨value, hvalue, h⟩ := Option.bind_eq_some_iff.mp h
    obtain ⟨⟨ms, r⟩, hms, heq⟩ := Option.map_eq_some_iff.mp h
    grind [mem_readList, value_of_readMember]
  left
  split at h
  · cases h
    rfl
  split at h
  · cases h
    rfl
  split at h
  · cases h
    rfl
  rw [readNumber] at h
  split at h
  · cases h
    rfl
  · cases h

theorem depth_of_readValue {depth : Nat} {v : Json}
    (h : readValue depth s = some (v, rest)) : v.depth ≤ depth := by
  induction depth generalizing s rest v with
  | zero =>
    rcases readWith_nested h with h0 | ⟨value, hvalue, -⟩
    · exact Nat.le_of_eq h0
    · cases hvalue
  | succ depth ih =>
    rcases readWith_nested h with h0 | ⟨value, hvalue, ⟨items, rfl, hitems⟩ | ⟨members, rfl, hmembers⟩⟩
    · rw [h0]
      exact Nat.zero_le _
    · cases hvalue
      rw [Json.depth_arr_le]
      intro x hx
      obtain ⟨s', r', hx⟩ := hitems x hx
      exact ih hx
    · cases hvalue
      rw [Json.depth_obj_le]
      intro m hm
      obtain ⟨s', r', hm⟩ := hmembers m hm
      exact ih hm

namespace Json

theorem depth_generic_le (v : Json) {d : Nat} (h : v.depth ≤ d) : v.generic.depth ≤ d := by
  induction v using Json.induct generalizing d with
  | null => exact h
  | bool b => exact h
  | num n => exact h
  | str s => exact h
  | arr items ih =>
    obtain ⟨d, rfl⟩ := Nat.exists_eq_add_of_le' (Nat.lt_of_lt_of_le (depth_arr_pos items) h)
    simp_all [depth_arr_le, generic_arr]
  | obj members ih =>
    obtain ⟨d, rfl⟩ := Nat.exists_eq_add_of_le' (Nat.lt_of_lt_of_le (depth_obj_pos members) h)
    rw [depth_obj_le] at h
    rw [generic_obj, depth_obj_le]
    intro m hm
    obtain ⟨x, hx, rfl⟩ := List.mem_map.mp (Assoc.mem_of_mem_ofMembers hm)
    exact ih x hx (h x hx)

end Json

end Nesting

def runeCost (d : Nat × Nat) : Nat :=
  if d.1 == 0x22 || d.1 == 0x5C || d.1 == 0x08 || d.1 == 0x0C || d.1 == 0x0A || d.1 == 0x0D || d.1 == 0x09 then 2
  else if d.1 < 0x20 || d.1 == 0x3C || d.1 == 0x3E || d.1 == 0x26 || d.1 == 0x2028 || d.1 == 0x2029 then 6
  else d.2

def textCost (s : Bytes) : Nat := ((runesFrom 0 s).map runeCost).sum + 2

def listCost (costs : List Nat) : Nat := costs.sum + (costs.length - 1) + 2

def Json.cost : Json → Nat := fold
  { null := 4
    bool b := if b then 4 else 5
    num n := n.text.length
    str s := textCost s.bytes
    arr := listCost
    obj members := listCost ((Assoc.lasts members).map fun m => textCost m.1.bytes + 1 + m.2) }

theorem length_quoteRuneHTML {c : Bytes} {r : Nat} (h : Encodes c r) :
    (quoteRuneHTML (r, c.length)).length = runeCost (r, c.length) := by
  have herr : (r == runeError && c.length == 1) = false := by
    simpa using fun h1 h2 => h.proper (by rw [h1, h2])
  by_cases hshort : r = 0x22 ∨ r = 0x5C ∨ r = 0x08 ∨ r = 0x0C ∨ r = 0x0A ∨ r = 0x0D ∨ r = 0x09
  · rcases hshort with rfl | rfl | rfl | rfl | rfl | rfl | rfl <;> rfl
  by_cases hlong : r = 0x3C ∨ r = 0x3E ∨ r = 0x26 ∨ r = 0x2028 ∨ r = 0x2029
  · rcases hlong with rfl | rfl | rfl | rfl | rfl <;> rfl
  simp only [not_or] at hshort hlong
  by_cases hcontrol : r < 0x20
  · simp [quoteRuneHTML, quoteRune, runeCost, hshort, hlong, hcontrol]
  simp [quoteRuneHTML, quoteRune, runeCost, hshort, hlong, hcontrol, herr, h.encode]

theorem length_quoteHTML {s : Bytes} (hs : utf8Valid s = true) : (quoteHTML s).length = textCost s := by
  have hflat : ((runesFrom 0 s).flatMap quoteRuneHTML).length = ((runesFrom 0 s).map runeCost).sum := by
    refine utf8Valid_induction (P := fun s =>
      ((runesFrom 0 s).flatMap quoteRuneHTML).length = ((runesFrom 0 s).map runeCost).sum) rfl ?_ hs
    intro c r t h _ ih
    simp [h.runesFrom_append, length_quoteRuneHTML h, ih]
  simp [quoteHTML, textCost, hflat]

theorem length_enclose (opening closing : UInt8) (parts : List Bytes) :
    (enclose opening closing parts).length = listCost (parts.map List.length) := by
  have hinter : (List.intercalate [chr ','] parts).length = (parts.map List.length).sum + (parts.length - 1) := by
    induction parts with
    | nil => rfl
    | cons p parts ih =>
      cases parts with
      | nil => simp
      | cons q parts =>
        rw [List.intercalate_cons_cons, List.length_append, List.length_append, ih]
        simp only [List.map_cons, List.sum_cons, List.length_cons, List.length_nil]
        omega
  rw [enclose, listCost, List.length_append, List.length_cons, hinter, List.length_map, List.length_singleton]

theorem listCost_perm {l l' : List Nat} (h : l.Perm l') : listCost l = listCost l' := by
  rw [listCost, listCost, h.sum_nat, h.length_eq]

namespace Json

theorem length_marshal_generic (v : Json) : v.generic.marshal.length = v.cost := by
  induction v using Json.induct with
  | null => rfl
  | bool b => cases b <;> rfl
  | num n => rfl
  | str s => exact length_quoteHTML s.valid
  | arr items ih =>
    rw [generic_arr, marshal_arr, length_enclose, cost, fold_arr, List.map_map, List.map_map]
    refine congrArg listCost (List.map_congr_left fun v hv => ?_)
    exact ih v hv
  | obj members ih =>
    rw [generic_obj, marshal_obj, length_enclose, cost, fold_obj]
    dsimp only
    rw [Assoc.lasts_map]
    have hperm := Assoc.ofMembers_perm_lasts (members.map fun m => (m.1, m.2.generic))
    rw [Assoc.lasts_map] at hperm
    refine (listCost_perm ((hperm.map _).map _)).trans (congrArg listCost ?_)
    simp only [List.map_map]
    refine List.map_congr_left fun m hm => ?_
    have hlen := ih m ((Assoc.lasts_sublist members).subset hm)
    rw [cost] at hlen
    simp only [Function.comp_apply, List.length_append, List.length_cons, length_quoteHTML m.1.valid, hlen]
    omega

end Json

end PiiShield
