import PiiShield.Utf8

/-! JSON string literals: what `encoding/json` decodes one to and how its encoder
writes one with HTML escaping off. -/

namespace PiiShield

def hexByteValue (c : UInt8) : UInt8 :=
  if c ≤ '9' then c - '0' else if 'a' ≤ c then c - 'a' + 10 else c - 'A' + 10

def hex4 : Bytes → Option Nat
  | a :: b :: c :: d :: _ =>
    if isHexByte a && isHexByte b && isHexByte c && isHexByte d then
      some ((hexByteValue a).toNat * 4096 + (hexByteValue b).toNat * 256 +
        (hexByteValue c).toNat * 16 + (hexByteValue d).toNat)
    else none
  | _ => none

def unescape (c : UInt8) : Option UInt8 :=
  if c == dquote || c == backslash || c == '/' then some c
  else if c == 'b' then some 0x08
  else if c == 'f' then some 0x0C
  else if c == 'n' then some newline
  else if c == 'r' then some 0x0D
  else if c == 't' then some 0x09
  else none

/-- One step of decoding the inside of a literal: the bytes it writes and the number of
bytes it reads, or `none` where the literal is not valid JSON. A surrogate pair is one
rune, a lone surrogate and an invalid byte are U+FFFD. -/
def unquoteStep (s : Bytes) : Option (Bytes × Nat) :=
  match s with
  | [] => none
  | c :: t =>
    if c == backslash then
      match t with
      | [] => none
      | e :: t' =>
        if e == 'u' then
          (hex4 t').map fun r =>
            if 0xD800 ≤ r && r < 0xE000 then
              match t'.drop 4 with
              | b :: u :: t'' =>
                match (if b == backslash && u == 'u' then hex4 t'' else none) with
                | some r2 =>
                  if r < 0xDC00 && 0xDC00 ≤ r2 && r2 < 0xE000 then
                    (encodeRune ((r - 0xD800) * 1024 + (r2 - 0xDC00) + 0x10000), 12)
                  else (encodeRune runeError, 6)
                | none => (encodeRune runeError, 6)
              | _ => (encodeRune runeError, 6)
            else (encodeRune r, 6)
        else (unescape e).map fun d => ([d], 2)
    else if c == dquote || c < 0x20 then none
    else some (encodeRune (decodeRune (c :: t)).1, (decodeRune (c :: t)).2)

def unquoteFrom : Nat → Bytes → Option Bytes
  | _, [] => some []
  | 0, c :: t =>
    match unquoteStep (c :: t) with
    | some (o, w) => (unquoteFrom (w - 1) t).map (o ++ ·)
    | none => none
  | k + 1, _ :: t => unquoteFrom k t

/-- Go's `json.Unmarshal` of a literal into a string; `tok` starts and ends with a quote. -/
def jsonUnquote (tok : Bytes) : Option Bytes := unquoteFrom 0 (slice tok 1 (tok.length - 1))

def quoteRune (d : Nat × Nat) : Bytes :=
  let r := d.1
  if r == 0x22 || r == 0x5C then [backslash, .ofNat r]
  else if r == 0x08 then [backslash, 'b']
  else if r == 0x0C then [backslash, 'f']
  else if r == 0x0A then [backslash, 'n']
  else if r == 0x0D then [backslash, 'r']
  else if r == 0x09 then [backslash, 't']
  else if r < 0x20 then [backslash, 'u', '0', '0', hexDigit (r / 16), hexDigit (r % 16)]
  else if r == runeError && d.2 == 1 then bs "\\ufffd"
  else if r == 0x2028 || r == 0x2029 then bs "\\u202" ++ [hexDigit (r % 16)]
  else encodeRune r

def jsonQuote (s : Bytes) : Bytes := dquote :: (runesFrom 0 s).flatMap quoteRune ++ [dquote]

def escapedJSONString (tok : Bytes) : Option Bytes :=
  if tok.length < 4 || byteAt tok 0 != dquote || lastByte tok != dquote ||
      !contains tok [backslash, dquote] then none
  else jsonUnquote tok

end PiiShield
