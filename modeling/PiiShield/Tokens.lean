import PiiShield.JsonString
import PiiShield.Signatures

/-! Shapes of a token: quotes, base64, byte escapes, query strings, user agents. -/

namespace PiiShield

variable (s : Bytes)

def trimQuotes : Bytes :=
  if s.length < 2 then s
  else if isQuote (byteAt s 0) && lastByte s == byteAt s 0 then slice s 1 (s.length - 1)
  else s

def isBalancedQuoted : Bool :=
  2 ≤ s.length && isQuote (byteAt s 0) && lastByte s == byteAt s 0

def isBytesLiteral : Bool :=
  3 ≤ s.length && (byteAt s 0 == 'b' || byteAt s 0 == 'B') && isQuote (byteAt s 1) &&
    lastByte s == byteAt s 1

def isAllLetters (U : Unicode) (s : Bytes) : Bool := !s.isEmpty && (runes s).all U.isLetter

def isBase64Body : Bool :=
  !s.isEmpty && s.all fun c => isAlnumByte c || c == '+' || c == '/' || c == '-' || c == '_'

def isPaddedBase64Token : Bool :=
  let body := trimRight s (bs "=")
  2 ≤ body.length && s.length - body.length ≤ 2 && s.length - body.length != 0 && isBase64Body body

def minElidedPart : Nat := 8

def isElidedBase64 : Bool :=
  let body := trimRight s (bs "=")
  if !hasSuffix s (bs "=") || 2 < s.length - body.length then false
  else
    match cut body (bs "...") with
    | some (head, tail) =>
      minElidedPart ≤ head.length && minElidedPart ≤ tail.length && isBase64Body head &&
        isBase64Body tail
    | none => false

def isPaddedBase64Blob : Bool :=
  let body := trimRight s (bs "=")
  if s.length ≤ 64 || !hasSuffix s (bs "=") || containsAny s (bs "-_ \t\n") then false
  else s.length - body.length ≤ 2 && !body.contains (chr '=')

def byteEscapes : Nat → Bytes → Nat × Bytes
  | _, [] => (0, [])
  | k + 1, _ :: t => byteEscapes k t
  | 0, c :: t =>
    if c != backslash || t.isEmpty then
      let r := byteEscapes 0 t
      (r.1, c :: r.2)
    else if byteAt t 0 == 'x' && 3 ≤ t.length && isHexByte (byteAt t 1) && isHexByte (byteAt t 2) then
      let r := byteEscapes 3 t
      (r.1 + 1, (hexByteValue (byteAt t 1) <<< 4 ||| hexByteValue (byteAt t 2)) :: r.2)
    else
      let r := byteEscapes 1 t
      (r.1, byteAt t 0 :: r.2)

def minBinaryEscapes : Nat := 4

def isEscapedBinary : Bool :=
  let r := byteEscapes 0 s
  minBinaryEscapes ≤ r.1 && !utf8Valid r.2

def startsWithProductToken : Bool :=
  let rest := s.dropWhile fun c => isAlnumByte c || c == '.' || c == '_' || c == '-'
  rest.length < s.length &&
    match rest with
    | c :: d :: _ => c == '/' && (isASCIIDigit d || d == 'v')
    | _ => false

def isQuotedPhrase : Bool :=
  let inner := slice s 1 (s.length - 1)
  isBalancedQuoted s && inner.any isBlank && !inner.contains (byteAt s 0) &&
    !startsWithProductToken inner

def hasQueryShape (token : Bytes) : Bool :=
  match indexByte token '?' with
  | some q => (token.drop (q + 1)).contains (chr '=')
  | none => false

def isUserAgentProduct : Bool :=
  match indexByte s '/' with
  | none => false
  | some slash =>
    let nameByte (c : UInt8) : Bool := isAlnumByte c || c == '.' || c == '_' || c == '-'
    if slash < 1 || 40 < slash || !isASCIILetter (byteAt s 0) then false
    else if !(slice s 1 slash).all nameByte then false
    else
      let v := s.drop (slash + 1)
      let v := if firstIs v fun c => c == 'v' || c == 'V' then v.drop 1 else v
      !v.isEmpty && v.length ≤ 24 && isASCIIDigit (byteAt v 0) &&
        (v.drop 1).all fun c => nameByte c || c == '~' || c == '+'

/-- What `scanUserAgent` does with a header: a run it scans, a product it writes as is. -/
inductive AgentPiece
  | run (text : Bytes)
  | product (core : Bytes)
  deriving DecidableEq

def agentRun (run : Bytes) : List AgentPiece := if run.isEmpty then [] else [.run run]

/-- The loop of `scanUserAgent`, word by word; `run` is what no product has ended yet. -/
def agentPiecesFrom : Nat → Bytes → Nat → Bytes → List AgentPiece
  | 0, run, _, ua => agentRun (run ++ ua)
  | fuel + 1, run, paren, ua =>
    match ua with
    | [] => agentRun run
    | c :: t =>
      if isBlank c then agentPiecesFrom fuel (run ++ [c]) paren t
      else
        let word := ua.takeWhile (!isBlank ·)
        let lead := word.takeWhile fun b : UInt8 => b == '('
        let body := word.drop lead.length
        let core := body.rdropWhile fun b : UInt8 => b == ';' || b == ')' || b == ','
        let rest := ua.drop word.length
        let paren' := paren + countByte word '(' - countByte word ')'
        if isUserAgentProduct core ||
            0 < paren + lead.length && 0 < (indexByte core '@').getD 0 && isEmailAddress core then
          agentRun (run ++ lead) ++ .product core ::
            agentPiecesFrom fuel (body.drop core.length) paren' rest
        else agentPiecesFrom fuel (run ++ word) paren' rest

def agentPieces (ua : Bytes) : List AgentPiece := agentPiecesFrom ua.length [] 0 ua

def isRedacted (content : Bytes) : Bool := hasPrefix content (bs "[HIDDEN") && hasSuffix content (bs "]")

def jsonDocumentEndFrom : Int → Bool → Nat → Bytes → Option Nat
  | _, _, _, [] => none
  | depth, inStr, skip + 1, _ :: t => (jsonDocumentEndFrom depth inStr skip t).map (· + 1)
  | depth, inStr, 0, c :: t =>
    if inStr then
      if c == backslash then (jsonDocumentEndFrom depth true 1 t).map (· + 1)
      else (jsonDocumentEndFrom depth (c != dquote) 0 t).map (· + 1)
    else if c == dquote then (jsonDocumentEndFrom depth true 0 t).map (· + 1)
    else if c == 0x7b || c == '[' then (jsonDocumentEndFrom (depth + 1) false 0 t).map (· + 1)
    else if c == 0x7d || c == ']' then
      if depth - 1 == 0 then some 1 else (jsonDocumentEndFrom (depth - 1) false 0 t).map (· + 1)
    else (jsonDocumentEndFrom depth false 0 t).map (· + 1)

def jsonDocumentEnd (i : Nat) : Option Nat :=
  (jsonDocumentEndFrom 0 false 0 (s.drop i)).map (i + ·)

def escapedOrBacktickWrap (token : Bytes) : Option (Nat × Nat) :=
  let n := token.length
  if 5 ≤ n && byteAt token 0 == backslash && isQuote (byteAt token 1) &&
      byteAt token (n - 2) == backslash && byteAt token (n - 1) == byteAt token 1 &&
      !contains (slice token 2 (n - 2)) (token.take 2) then some (2, 2)
  else if 3 ≤ n && byteAt token 0 == backtick && byteAt token (n - 1) == backtick &&
      !(slice token 1 (n - 1)).contains backtick then some (1, 1)
  else none

def pythonLogLevels : List String :=
  ["DEBUG", "INFO", "WARNING", "WARN", "ERROR", "CRITICAL", "FATAL", "TRACE", "NOTICE"]

def pythonLogPrefixEnd (tok : Bytes) : Nat :=
  match indexByte tok ':' with
  | none => 0
  | some colon =>
    let rest := tok.drop (colon + 1)
    let name := rest.takeWhile fun c : UInt8 => isAlnumByte c || c == '_' || c == '.' || c == '-'
    if colon < 4 || 8 < colon || !pythonLogLevels.any fun l => bs l == tok.take colon then 0
    else if !firstIs rest fun c => isASCIILetter c || c == '_' then 0
    else if firstIs (rest.drop name.length) (· == ':') then colon + 1 + name.length + 1
    else 0

end PiiShield
