import PiiShield.Utf8

/-! The syntax of Go's `regexp`: the nodes of an expression and the tokens of its text. Tables of
Unicode are parameters. -/

namespace PiiShield.Regex

/-- The tables of package unicode that expressions use: the runes a rune is the same as when case
does not count, itself among them, and the classes that have a name. -/
structure Tables where
  orbit : Nat → List Nat
  named : List Char → Option (Nat → Bool)

inductive Flag
  | foldCase
  | multiLine
  | dotNL
  | nonGreedy
  deriving DecidableEq

structure Flags where
  foldCase : Bool
  multiLine : Bool
  dotNL : Bool
  nonGreedy : Bool
  deriving DecidableEq

def Flags.perl : Flags := ⟨false, false, false, false⟩

def Flags.set (f : Flags) : Flag × Bool → Flags
  | (.foldCase, b) => { f with foldCase := b }
  | (.multiLine, b) => { f with multiLine := b }
  | (.dotNL, b) => { f with dotNL := b }
  | (.nonGreedy, b) => { f with nonGreedy := b }

inductive Assertion
  | beginLine
  | endLine
  | beginText
  | endText
  | wordBoundary
  | noWordBoundary
  deriving DecidableEq

inductive Node
  | fail
  | empty
  | rune (ok : Nat → Bool)
  | assert (a : Assertion)
  | cat (a b : Node)
  | alt (a b : Node)
  | group (i : Nat) (a : Node)
  | rep (min : Nat) (max : Option Nat) (greedy : Bool) (a : Node)

/-- A part of a class: a range or a named class, possibly negated. -/
structure Item where
  ok : Nat → Bool
  negated : Bool

inductive Token
  | openGroup
  | openPlain (changes : List (Flag × Bool))
  | flags (changes : List (Flag × Bool))
  | bar
  | closeGroup
  | beginLine
  | endLine
  | dot
  | assert (a : Assertion)
  | lit (r : Nat)
  /-- The text behind `\Q`, with whether `\E` ended it. -/
  | quote (rs : List Nat) (closed : Bool)
  | cls (items : List Item) (negated : Bool)
  | rep (min : Nat) (max : Option Nat) (lazy : Bool)

def Token.leftOpen : Token → Bool
  | .quote _ closed => !closed
  | _ => false

def isNameChar (c : Char) : Bool := c.isAlphanum || c == '_'

def isOctal (c : Char) : Bool := '0' ≤ c && c ≤ '7'

def digitOf (c : Char) : Nat := c.toNat - '0'.toNat

def unhex (c : Char) : Option Nat :=
  if c.isDigit then some (digitOf c)
  else if 'a' ≤ c && c ≤ 'f' then some (c.toNat - 'a'.toNat + 10)
  else if 'A' ≤ c && c ≤ 'F' then some (c.toNat - 'A'.toNat + 10)
  else none

def maxRune : Nat := 0x10FFFF

def inRange (lo hi r : Nat) : Bool := lo ≤ r && r ≤ hi

def isDigitRune (r : Nat) : Bool := inRange 0x30 0x39 r

def isSpaceRune (r : Nat) : Bool := r == 0x09 || r == 0x0A || r == 0x0C || r == 0x0D || r == 0x20

def isUpperRune (r : Nat) : Bool := inRange 0x41 0x5A r

def isLowerRune (r : Nat) : Bool := inRange 0x61 0x7A r

def isWordRune (r : Nat) : Bool := isDigitRune r || isUpperRune r || isLowerRune r || r == 0x5F

def posixClass (name : List Char) : Option (Nat → Bool) :=
  [("alnum", fun r => isDigitRune r || isUpperRune r || isLowerRune r),
    ("alpha", fun r => isUpperRune r || isLowerRune r),
    ("ascii", inRange 0 0x7F),
    ("blank", fun r => r == 0x09 || r == 0x20),
    ("cntrl", fun r => inRange 0 0x1F r || r == 0x7F),
    ("digit", isDigitRune),
    ("graph", inRange 0x21 0x7E),
    ("lower", isLowerRune),
    ("print", inRange 0x20 0x7E),
    ("punct", fun r => inRange 0x21 0x2F r || inRange 0x3A 0x40 r || inRange 0x5B 0x60 r || inRange 0x7B 0x7E r),
    ("space", fun r => inRange 0x09 0x0D r || r == 0x20),
    ("upper", isUpperRune),
    ("word", isWordRune),
    ("xdigit", fun r => isDigitRune r || inRange 0x41 0x46 r || inRange 0x61 0x66 r)].findSome?
    fun e => if e.1.toList = name then some e.2 else none

def perlClass : Char → Option Item
  | 'd' => some ⟨isDigitRune, false⟩
  | 'D' => some ⟨isDigitRune, true⟩
  | 's' => some ⟨isSpaceRune, false⟩
  | 'S' => some ⟨isSpaceRune, true⟩
  | 'w' => some ⟨isWordRune, false⟩
  | 'W' => some ⟨isWordRune, true⟩
  | _ => none

/-- A lexer takes a value off the front of a text and leaves the rest. -/
abbrev Lexer := StateT (List Char) Option

def item : Lexer Char
  | [] => none
  | c :: t => some (c, t)

def peek (p : Char → Bool) : Lexer Bool := fun t => some (t.head?.any p, t)

/-- Takes a word if it is next. -/
def accept (w : List Char) : Lexer Bool := fun t =>
  if w.isPrefixOf t then some (true, t.drop w.length) else some (false, t)

def lexWhile (p : Char → Bool) : Lexer (List Char) := fun t => some (t.takeWhile p, t.dropWhile p)

def lexUntil (stop : Char) : Lexer (List Char)
  | [] => none
  | c :: t => if c == stop then some ([], t) else (lexUntil stop t).map fun (cs, r) => (c :: cs, r)

def ofOption {α : Type} (x : Option α) : Lexer α := fun t => x.map (·, t)

def lexBraced : Lexer Nat := do
  let digits ← ofOption ((← lexUntil '\x7d').mapM unhex)
  let r := digits.foldl (fun r v => r * 16 + v) 0
  if digits.isEmpty || maxRune < r then failure else pure r

def lexOctal : Nat → Nat → Lexer Nat
  | 0, r => pure r
  | k + 1, r => do
    if ← peek isOctal then
      let c ← item
      lexOctal k (r * 8 + digitOf c)
    else pure r

def lexHex : Lexer Nat := do
  let c ← item
  if c == '\x7b' then lexBraced
  else
    let x ← ofOption (unhex c)
    let y ← ofOption (unhex (← item))
    pure (x * 16 + y)

/-- What a character behind a backslash stands for. -/
def lexEscape (c : Char) : Lexer Nat :=
  match c with
  | 'x' => lexHex
  | 'a' => pure 7
  | 'f' => pure 12
  | 'n' => pure 10
  | 'r' => pure 13
  | 't' => pure 9
  | 'v' => pure 11
  | c => do
    let octal ← peek isOctal
    if c == '0' || isOctal c && octal then lexOctal 2 (digitOf c)
    else if c.toNat < 0x80 && !c.isAlphanum then pure c.toNat
    else failure

variable (T : Tables)

def lexUnicode (negated : Bool) : Lexer Item := do
  let c ← item
  if c == '\x7b' then
    match ← lexUntil '\x7d' with
    | '^' :: name => return ⟨← ofOption (T.named name), !negated⟩
    | name => return ⟨← ofOption (T.named name), negated⟩
  else return ⟨← ofOption (T.named [c]), negated⟩

def lexPosixName : Lexer (List Char)
  | [] => none
  | [_] => none
  | ':' :: ']' :: t => some ([], t)
  | c :: d :: t => (lexPosixName (d :: t)).map fun (cs, r) => (c :: cs, r)

def posixItem : List Char → Option Item
  | '^' :: name => (posixClass name).map (⟨·, true⟩)
  | name => (posixClass name).map (⟨·, false⟩)

/-- A class such as `[:alpha:]`. If nothing closes it, the bracket is a character. -/
def lexPosix : Lexer (Option Item) := fun t =>
  if ['[', ':'].isPrefixOf t then
    match lexPosixName (t.drop 2) with
    | some (name, r) => (posixItem name).map fun i => (some i, r)
    | none => some (none, t)
  else some (none, t)

def lexClassChar : Lexer Nat := do
  let c ← item
  if c == '\\' then lexEscape (← item) else pure c.toNat

/-- A minus sign that is not the last character of its class. -/
def rangeFollows : Lexer Bool
  | '-' :: d :: t => if d == ']' then some (false, '-' :: d :: t) else some (true, d :: t)
  | t => some (false, t)

def lexRange (lo : Nat) : Lexer Item := do
  if ← rangeFollows then
    let hi ← lexClassChar
    if hi < lo then failure else return ⟨inRange lo hi, false⟩
  else return ⟨inRange lo lo, false⟩

def lexItem : Lexer Item := do
  match ← lexPosix with
  | some i => return i
  | none =>
    let c ← item
    if c == '\\' then
      let c ← item
      match c with
      | 'p' => lexUnicode T false
      | 'P' => lexUnicode T true
      | c =>
        match perlClass c with
        | some i => return i
        | none => lexRange (← lexEscape c)
    else lexRange c.toNat

/-- The fuel is the text's length: every item takes a character of it. -/
def lexItems (T : Tables) : Nat → Bool → Lexer (List Item)
  | 0, _ => failure
  | n + 1, first => do
    if !first && (← peek (· == ']')) then
      let _ ← item
      return []
    else
      let i ← lexItem T
      return i :: (← lexItems T n false)

def lexClass : Lexer Token := do
  let negated ← accept ['^']
  return .cls (← lexItems T (← get).length true) negated

def flagOf : Char → Option Flag
  | 'i' => some .foldCase
  | 'm' => some .multiLine
  | 's' => some .dotNL
  | 'U' => some .nonGreedy
  | _ => none

/-- A minus sign turns the flags behind it off, and must have some. -/
def readFlags : (negative seen : Bool) → List Char → Option (List (Flag × Bool))
  | negative, seen, [] => if negative && !seen then none else some []
  | negative, _, c :: t =>
    match flagOf c with
    | some f => (readFlags negative true t).map ((f, !negative) :: ·)
    | none => if negative then none else readFlags true false t

def lexFlags : Lexer Token := do
  let changes ← ofOption (readFlags false false (← lexWhile fun c => c == '-' || (flagOf c).isSome))
  let c ← item
  if c == ':' then return .openPlain changes
  else if c == ')' then return .flags changes
  else failure

def lexGroupName : Lexer Token := do
  let name ← lexUntil '>'
  if !name.isEmpty && name.all isNameChar then return .openGroup else failure

def lexGroup : Lexer Token := do
  if ← accept ['P', '<'] then lexGroupName
  else if ← accept ['<'] then lexGroupName
  else lexFlags

def lexNumber : Lexer Nat := do
  let digits ← lexWhile Char.isDigit
  if digits.isEmpty || digits.head? == some '0' && 1 < digits.length then failure
  else return digits.foldl (fun n c => n * 10 + digitOf c) 0

def lexBounds : Lexer (Nat × Option Nat) := do
  let min ← lexNumber
  if ← accept ['\x7d'] then return (min, some min)
  else if ← accept [',', '\x7d'] then return (min, none)
  else if ← accept [','] then
    let max ← lexNumber
    if ← accept ['\x7d'] then return (min, some max) else failure
  else failure

def maxRepeat : Nat := 1000

def lexLazy (min : Nat) (max : Option Nat) : Lexer Token := return .rep min max (← accept ['?'])

/-- Behind a brace that is no repetition nothing is taken: it stands for itself. -/
def lexBrace : Lexer Token := fun t =>
  match lexBounds t with
  | none => some (.lit '\x7b'.toNat, t)
  | some ((min, max), r) =>
    if maxRepeat < min || max.any fun m => maxRepeat < m || m < min then none else lexLazy min max r

def lexQuote : Lexer (List Nat × Bool)
  | [] => some (([], false), [])
  | [c] => some (([c.toNat], false), [])
  | '\\' :: 'E' :: t => some (([], true), t)
  | c :: d :: t => (lexQuote (d :: t)).map fun ((rs, closed), r) => ((c.toNat :: rs, closed), r)

def lexBackslash : Lexer Token := do
  let c ← item
  match c with
  | 'A' => return .assert .beginText
  | 'b' => return .assert .wordBoundary
  | 'B' => return .assert .noWordBoundary
  | 'C' => failure
  | 'z' => return .assert .endText
  | 'Q' =>
    let (rs, closed) ← lexQuote
    return .quote rs closed
  | 'p' => return .cls [← lexUnicode T false] false
  | 'P' => return .cls [← lexUnicode T true] false
  | c =>
    match perlClass c with
    | some i => return .cls [i] false
    | none => return .lit (← lexEscape c)

def lexOne : Lexer Token := do
  let c ← item
  match c with
  | '(' => if ← accept ['?'] then lexGroup else return .openGroup
  | '|' => return .bar
  | ')' => return .closeGroup
  | '^' => return .beginLine
  | '$' => return .endLine
  | '.' => return .dot
  | '[' => lexClass T
  | '*' => lexLazy 0 none
  | '+' => lexLazy 1 none
  | '?' => lexLazy 0 (some 1)
  | '\x7b' => lexBrace
  | '\\' => lexBackslash T
  | c => return .lit c.toNat

/-- The tokens of a text, of which the first characters belong to a token before. -/
def lexFrom (T : Tables) : Nat → List Char → Option (List Token)
  | _, [] => some []
  | skip + 1, _ :: t => lexFrom T skip t
  | 0, c :: t => (lexOne T (c :: t)).bind fun (tok, r) => (lexFrom T (t.length - r.length) t).map (tok :: ·)

def charsOf (p : Bytes) : Option (List Char) :=
  if utf8Valid p then some ((runes p).map Char.ofNat) else none

def lex (p : Bytes) : Option (List Token) := (charsOf p).bind (lexFrom T 0)

end PiiShield.Regex
