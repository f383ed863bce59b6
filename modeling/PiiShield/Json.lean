import Mathlib.Data.List.Lex
import PiiShield.Assoc
import PiiShield.JsonFacts

/-! JSON documents as `encoding/json` reads and writes them: a value is a tree whose strings
are valid UTF-8 and whose numbers keep their spelling. -/

namespace PiiShield

@[ext]
structure Text where
  bytes : Bytes
  valid : utf8Valid bytes = true
  deriving DecidableEq

instance textOrder : LinearOrder Text := LinearOrder.lift' Text.bytes fun a b h => by
  cases a
  cases b
  cases h
  rfl

def isNumberByte (c : UInt8) : Bool := isASCIIDigit c || c == '-' || c == '+' || c == '.' || c == 'e' || c == 'E'

def isExponent : Bytes → Bool
  | [] => true
  | c :: t =>
    let digits := if firstIs t (fun c => c == '+' || c == '-') then t.drop 1 else t
    (c == 'e' || c == 'E') && !digits.isEmpty && digits.all isASCIIDigit

def isFraction : Bytes → Bool
  | [] => true
  | c :: t =>
    if c == '.' then firstIs t isASCIIDigit && isExponent (t.dropWhile isASCIIDigit) else isExponent (c :: t)

def isUnsigned : Bytes → Bool
  | [] => false
  | c :: t => if c == '0' then isFraction t else isASCIIDigit c && isFraction (t.dropWhile isASCIIDigit)

def isNumber (t : Bytes) : Bool := isUnsigned (if firstIs t (· == '-') then t.drop 1 else t)

structure Numeral where
  text : Bytes
  valid : isNumber text = true
  deriving DecidableEq

inductive Json
  | null
  | bool (b : Bool)
  | num (n : Numeral)
  | str (s : Text)
  | arr (items : List Json)
  | obj (members : List (Text × Json))

namespace Json

structure Algebra (β : Type) where
  null : β
  bool : Bool → β
  num : Numeral → β
  str : Text → β
  arr : List β → β
  obj : List (Text × β) → β

variable {β : Type} (A : Algebra β)

mutual

def fold : Json → β
  | .null => A.null
  | .bool b => A.bool b
  | .num n => A.num n
  | .str s => A.str s
  | .arr items => A.arr (foldItems items)
  | .obj members => A.obj (foldMembers members)

def foldItems : List Json → List β
  | [] => []
  | v :: vs => fold v :: foldItems vs

def foldMembers : List (Text × Json) → List (Text × β)
  | [] => []
  | (k, v) :: ms => (k, fold v) :: foldMembers ms

end

theorem foldItems_eq_map (vs : List Json) : foldItems A vs = vs.map (fold A) := by
  induction vs with
  | nil => rfl
  | cons v vs ih => rw [foldItems, ih, List.map_cons]

theorem foldMembers_eq_map (ms : List (Text × Json)) : foldMembers A ms = ms.map fun m => (m.1, fold A m.2) := by
  induction ms with
  | nil => rfl
  | cons m ms ih => rw [foldMembers, ih, List.map_cons]

@[simp] theorem fold_arr (items : List Json) : (arr items).fold A = A.arr (items.map (fold A)) := by
  rw [fold, foldItems_eq_map]

@[simp] theorem fold_obj (members : List (Text × Json)) :
    (obj members).fold A = A.obj (members.map fun m => (m.1, fold A m.2)) := by
  rw [fold, foldMembers_eq_map]

@[elab_as_elim]
theorem induct {P : Json → Prop} (null : P .null) (bool : ∀ b, P (.bool b)) (num : ∀ n, P (.num n))
    (str : ∀ s, P (.str s)) (arr : ∀ items, (∀ v ∈ items, P v) → P (.arr items))
    (obj : ∀ members, (∀ m ∈ members, P m.2) → P (.obj members)) (v : Json) : P v :=
  @Json.rec P (fun vs => ∀ v ∈ vs, P v) (fun ms => ∀ m ∈ ms, P m.2) (fun m => P m.2) null bool num str arr obj
    nofun (fun _ _ hv hvs => List.forall_mem_cons.mpr ⟨hv, hvs⟩) nofun
    (fun _ _ hm hms => List.forall_mem_cons.mpr ⟨hm, hms⟩) (fun _ _ hv => hv) v

def depth : Json → Nat := fold
  { null := 0
    bool _ := 0
    num _ := 0
    str _ := 0
    arr depths := depths.foldr max 0 + 1
    obj depths := (depths.map Prod.snd).foldr max 0 + 1 }

def generic : Json → Json := fold
  { null := .null
    bool := .bool
    num := .num
    str := .str
    arr := .arr
    obj members := .obj (Assoc.ofMembers members) }

theorem generic_arr (items : List Json) : (arr items).generic = arr (items.map generic) := by
  rw [generic, fold_arr]

theorem generic_obj (members : List (Text × Json)) :
    (obj members).generic = obj (Assoc.ofMembers (members.map fun m => (m.1, m.2.generic))) := by
  rw [generic, fold_obj]

end Json

def quoteRuneHTML (d : Nat × Nat) : Bytes :=
  if d.1 == 0x3C || d.1 == 0x3E || d.1 == 0x26 then
    [backslash, 'u', '0', '0', hexDigit (d.1 / 16), hexDigit (d.1 % 16)]
  else quoteRune d

def quoteHTML (s : Bytes) : Bytes := dquote :: (runesFrom 0 s).flatMap quoteRuneHTML ++ [dquote]

def enclose (opening closing : UInt8) (parts : List Bytes) : Bytes :=
  opening :: List.intercalate [chr ','] parts ++ [closing]

def Json.marshal : Json → Bytes := fold
  { null := bs "null"
    bool b := if b then bs "true" else bs "false"
    num n := n.text
    str s := quoteHTML s.bytes
    arr parts := enclose '[' ']' parts
    obj parts := enclose '\x7b' '\x7d' (parts.map fun m => quoteHTML m.1.bytes ++ chr ':' :: m.2) }

abbrev Reader (α : Type) := Bytes → Option (α × Bytes)

def isJsonSpace (c : UInt8) : Bool := c == ' ' || c == '\t' || c == '\r' || c == '\n'

def skipSpace (s : Bytes) : Bytes := s.dropWhile isJsonSpace

def readString : Nat → Bytes → Option (Bytes × Bytes)
  | _, [] => none
  | 0, c :: t =>
    if c == dquote then some ([], t)
    else
      match unquoteStep (c :: t) with
      | some (o, w) => (readString (w - 1) t).map fun (x, rest) => (o ++ x, rest)
      | none => none
  | k + 1, _ :: t => readString k t

theorem utf8Valid_readString {k : Nat} {s x rest : Bytes} (h : readString k s = some (x, rest)) :
    utf8Valid x = true := by
  induction s generalizing k x with
  | nil => cases k <;> cases h
  | cons c t ih =>
    cases k with
    | succ k => exact ih h
    | zero =>
      rw [readString] at h
      split at h
      · cases h
        rfl
      split at h
      · next o w hstep =>
        obtain ⟨⟨y, r⟩, hy, heq⟩ := Option.map_eq_some_iff.mp h
        cases heq
        exact utf8Valid_append (unquoteStep_spec hstep).1 (ih hy)
      · cases h

def readText : Reader Text := fun s =>
  match h : readString 0 s with
  | some (x, rest) => some (⟨x, utf8Valid_readString h⟩, rest)
  | none => none

def readNumber : Reader Json := fun s =>
  let text := s.takeWhile isNumberByte
  if h : isNumber text = true then some (.num ⟨text, h⟩, s.drop text.length) else none

def readItems {α : Type} (item : Reader α) (closing : UInt8) : Nat → Reader (List α)
  | 0, _ => none
  | rounds + 1, s =>
    (item s).bind fun (x, s) =>
    match skipSpace s with
    | [] => none
    | c :: s =>
      if c == ',' then (readItems item closing rounds s).map fun (xs, s) => (x :: xs, s)
      else if c == closing then some ([x], s)
      else none

def readList {α : Type} (item : Reader α) (closing : UInt8) : Reader (List α) := fun s =>
  match skipSpace s with
  | [] => none
  | c :: t => if c == closing then some ([], t) else readItems item closing s.length s

def readMember (value : Reader Json) : Reader (Text × Json) := fun s =>
  match skipSpace s with
  | [] => none
  | c :: s =>
    if c == dquote then
      (readText s).bind fun (k, s) =>
      match skipSpace s with
      | [] => none
      | c :: s => if c == ':' then (value s).map fun (v, s) => ((k, v), s) else none
    else none

def readWith (nested : Option (Reader Json)) : Reader Json := fun s =>
  match skipSpace s with
  | [] => none
  | c :: t =>
    if c == dquote then (readText t).map fun (x, rest) => (.str x, rest)
    else if c == '[' then
      nested.bind fun value => (readList value ']' t).map fun (vs, rest) => (.arr vs, rest)
    else if c == '\x7b' then
      nested.bind fun value => (readList (readMember value) '\x7d' t).map fun (ms, rest) => (.obj ms, rest)
    else if hasPrefix (c :: t) (bs "null") then some (.null, t.drop 3)
    else if hasPrefix (c :: t) (bs "true") then some (.bool true, t.drop 3)
    else if hasPrefix (c :: t) (bs "false") then some (.bool false, t.drop 4)
    else readNumber (c :: t)

/-- A value with at most so many arrays and objects around one another. -/
def readValue : Nat → Reader Json
  | 0 => readWith none
  | depth + 1 => readWith (some (readValue depth))

def maxNestingDepth : Nat := 10000

/-- What `json.Unmarshal` reads: one value and space around it. -/
def readDocument (s : Bytes) : Option Json :=
  (readValue maxNestingDepth s).bind fun (v, rest) => if (skipSpace rest).isEmpty then some v else none

end PiiShield
