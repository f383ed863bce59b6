import PiiShield.Keys

/-! The quote-aware tokenizer: a cursor walks over a segment, and each step grows the
token under it or ends it at a boundary. -/

namespace PiiShield

def apostropheCloses (rest : Bytes) : Bool :=
  rest.isEmpty ||
    (let r := (decodeRune rest).1
     isSepRune r || [0x2C, 0x2E, 0x3B, 0x3A, 0x29, 0x5D, 0x7D].contains r)

/-- Whether an apostrophe before `rest` opens a quotation: a later one closes it. The
counter skips the rest of the runes just read. -/
def apostropheOpensFrom : Nat → Bytes → Bool
  | _, [] => false
  | k + 1, _ :: t => apostropheOpensFrom k t
  | 0, c :: t =>
    let w := (decodeRune (c :: t)).2
    if c == backslash then apostropheOpensFrom (decodeRune t).2 t
    else if c == squote && apostropheCloses t then true
    else apostropheOpensFrom (w - 1) t

def apostropheOpens (rest : Bytes) : Bool := apostropheOpensFrom 0 rest

def assignmentFollows (s : Bytes) : Bool :=
  2 ≤ s.length && firstIs s (fun c => isASCIILetter c || c == '_') &&
    firstIs ((s.drop 1).dropWhile fun c : UInt8 => isAlnumByte c || c == '_' || c == '.' || c == '-')
      (· == '=')

def isBareAssignment (tok : Bytes) : Bool :=
  tok.contains (chr '=') && !tok.contains (chr '?') && !contains tok (bs "://")

def chainBoundary (tok rest : Bytes) : Nat :=
  if hasPrefix rest [backslash] then
    if hasPrefix rest [backslash, 'n'] && assignmentFollows (rest.drop 2) then 2 else 0
  else if hasPrefix rest [newline] then if assignmentFollows (rest.drop 1) then 1 else 0
  else if hasPrefix rest (bs "&") then
    if !tok.isEmpty && assignmentFollows (rest.drop 1) && isBareAssignment tok then 1 else 0
  else 0

/-- The positions of a token tried one after the other; `tok` is what was passed. -/
def chainBoundaryIn (tok : Bytes) : Bytes → Bool
  | [] => false
  | c :: t => 0 < chainBoundary tok (c :: t) || chainBoundaryIn (tok ++ [c]) t

def hasChainBoundary (tok : Bytes) : Bool := chainBoundaryIn [] tok

/-- The state of the tokenizer: the token so far, what is left, the open quote, and
whether the token has bytes that are no UTF-8. -/
structure Cursor where
  tok : Bytes
  rest : Bytes
  inQuote : Bool
  quoteChar : Nat
  seenInvalid : Bool

inductive Boundary
  | sep (r : Nat)
  | marker
  | lineBreak
  | chain
  deriving DecidableEq

inductive Step
  /-- The token takes `w` more bytes. -/
  | grow (w : Nat) (inQuote : Bool) (quoteChar : Nat) (invalid : Bool)
  /-- The token ends, and `w` bytes are written as they are. -/
  | stop (b : Boundary) (w : Nat)

namespace Cursor

variable (c : Cursor)

/-- A step inside a quotation; `r` is the rune at the cursor, `w` its width. -/
def quotedStep (r : Nat) (w : Nat) : Step :=
  let rest := c.rest.drop w
  if r == 0x5C then
    let d := decodeRune rest
    if rest.isEmpty then .grow w true c.quoteChar false
    else .grow (w + d.2) true c.quoteChar (d == (runeError, 1))
  else
    .grow w (!(r == c.quoteChar && (r != 0x27 || apostropheCloses rest))) c.quoteChar false

def quotedDocument : Option Nat :=
  if firstIs (c.rest.drop 1) fun b => b == 0x7b || b == '[' then
    match jsonDocumentEnd c.rest 1 with
    | some stop => if firstIs (c.rest.drop stop) (· == squote) then some (stop + 1) else none
    | none => none
  else none

def markerLength : Option Nat :=
  if hasPrefix c.rest (bs "[HIDDEN") then (indexByte c.rest ']').map (· + 1) else none

def markerInURL (w : Nat) : Bool :=
  hasPrefix (c.rest.drop w) (bs "@") && hasSuffix c.tok (bs ":") && contains c.tok (bs "://")

def boundaryStep (r : Nat) (w : Nat) : Step :=
  if hasPrefix c.rest (bs "\\r\\n") then .stop .lineBreak 4
  else if 0 < chainBoundary c.tok c.rest then .stop .chain (chainBoundary c.tok c.rest)
  else if isSepRune r then .stop (.sep r) w
  else .grow w false c.quoteChar false

def plainStep (r : Nat) (w : Nat) : Step :=
  match (if r == 0x27 then c.quotedDocument else none) with
  | some len => .grow len false c.quoteChar false
  | none =>
    if r == 0x22 || r == 0x27 && apostropheOpens (c.rest.drop w) then .grow w true r false
    else
      match c.markerLength with
      | some len =>
        if c.markerInURL len then .grow len false c.quoteChar false else .stop .marker len
      | none => c.boundaryStep r w

def step : Step :=
  let (r, w) := decodeRune c.rest
  if r == runeError then .grow 1 c.inQuote c.quoteChar (w == 1)
  else if c.inQuote then c.quotedStep r w
  else c.plainStep r w

end Cursor

/-- What the tokenizer hands on: a token, or the text of a boundary. `glued` says that
the boundary follows a token with nothing between. -/
inductive Piece
  | token (raw : Bytes) (seenInvalid : Bool)
  | boundary (b : Boundary) (text : Bytes) (glued : Bool)
  deriving DecidableEq

def tokenPiece (tok : Bytes) (seenInvalid : Bool) : List Piece :=
  if tok.isEmpty then [] else [.token tok seenInvalid]

/-- The loop of `scanSegmentFrom`, with the quote state it returns. -/
def segmentPieces : Nat → Cursor → List Piece × Bool × Nat
  | 0, c => (tokenPiece (c.tok ++ c.rest) c.seenInvalid, c.inQuote, c.quoteChar)
  | fuel + 1, c =>
    if c.rest.isEmpty then (tokenPiece c.tok c.seenInvalid, c.inQuote, c.quoteChar)
    else
      match c.step with
      | .grow w inQuote quoteChar invalid =>
        segmentPieces fuel
          ⟨c.tok ++ c.rest.take w, c.rest.drop w, inQuote, quoteChar, c.seenInvalid || invalid⟩
      | .stop b w =>
        let r := segmentPieces fuel ⟨[], c.rest.drop w, false, c.quoteChar, false⟩
        (tokenPiece c.tok c.seenInvalid ++
          .boundary b (c.rest.take w) (!c.tok.isEmpty) :: r.1, r.2)

def tokenText (raw : Bytes) (seenInvalid : Bool) : Bytes :=
  if seenInvalid then toValidUTF8 raw else raw

/-- The bytes written for a boundary: a separator is written as a rune. -/
def Boundary.written (b : Boundary) (text : Bytes) : Bytes :=
  match b with
  | .sep r => encodeRune r
  | _ => text

end PiiShield
