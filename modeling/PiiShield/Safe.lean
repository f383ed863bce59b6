import PiiShield.Keys

/-! Tokens that look random and are known to be no secret. -/

namespace PiiShield

variable (token : Bytes)

def isSnakeCaseWords : Bool :=
  3 ≤ token.length && byteAt token 0 != '_' && lastByte token != '_' && token.contains (chr '_') &&
    (token.all fun c => isLowerASCII c || c == '_') && !contains token (bs "__")

def isPlainDecimal : Bool :=
  let sign (c : UInt8) : Bool := c == '+' || c == '-'
  let s := if 1 < token.length && sign (byteAt token 0) then token.drop 1 else token
  let point := s.dropWhile isASCIIDigit
  let frac := point.drop 1
  let exp := frac.dropWhile isASCIIDigit
  if point.length == s.length || !firstIs point (· == '.') || exp.length == frac.length then false
  else if exp.isEmpty then true
  else if !firstIs exp fun c => c == 'e' || c == 'E' then false
  else
    let digits := if firstIs (exp.drop 1) sign then exp.drop 2 else exp.drop 1
    !digits.isEmpty && digits.all isASCIIDigit

variable (U : Unicode)

def isTimestamp (token : Bytes) : Bool :=
  token.length == 10 && isDigits U token && (["17", "18", "19", "20"].any fun p => hasPrefix token (bs p)) ||
    10 ≤ token.length && isDigits U (slice token 0 4) && byteAt token 4 == '-' &&
      isDigits U (slice token 5 7) && byteAt token 7 == '-'

def isISO8601Zone (s : Bytes) : Bool :=
  match s with
  | [] => true
  | c :: zone =>
    if c == 'Z' || c == 'z' then zone.isEmpty
    else if c == '+' || c == '-' then
      if zone.length == 2 || zone.length == 4 then isDigits U zone
      else
        zone.length == 5 && isDigits U (slice zone 0 2) && byteAt zone 2 == ':' &&
          isDigits U (slice zone 3 5)
    else false

def isISO8601Timestamp (s : Bytes) : Bool :=
  let colonAt (i : Nat) (c : UInt8) : Bool := byteAt s i == c
  if s.length < 19 then false
  else if !isDigits U (slice s 0 4) || !colonAt 4 '-' || !isDigits U (slice s 5 7) || !colonAt 7 '-' ||
      !isDigits U (slice s 8 10) then false
  else if !colonAt 10 'T' && !colonAt 10 't' then false
  else if !isDigits U (slice s 11 13) || !colonAt 13 ':' || !isDigits U (slice s 14 16) ||
      !colonAt 16 ':' || !isDigits U (slice s 17 19) then false
  else
    let rest := s.drop 19
    if firstIs rest fun c => c == '.' || c == ',' then
      let frac := ((rest.drop 1).take 9).takeWhile isASCIIDigit
      !frac.isEmpty && isISO8601Zone U (rest.drop (1 + frac.length))
    else isISO8601Zone U rest

def isImage : Bool :=
  contains token (bs "docker.io") || contains token (bs "gcr.io") || contains token (bs "quay.io")

def isIPv6 : Bool :=
  2 ≤ countByte token ':' && (runes token).all fun r => isHexRune r || r == 0x3A

def randomPartMinLength : Nat := 32

def isRandomPart (part : Bytes) : Bool :=
  randomPartMinLength ≤ part.length && part.any isUpperASCII && part.any isLowerASCII &&
    part.any isASCIIDigit

def isFileName : Bool :=
  let ext := (token.reverse.takeWhile fun c : UInt8 => c != '.').reverse
  if token.length < 3 || 256 < token.length || hasPrefix token (bs "./") then false
  else if !token.contains (chr '.') then false
  else if !token.all fun c => isAlnumByte c || c == '_' || c == '-' || c == '.' || c == '/' then false
  else if (token.splitOnP fun c : UInt8 => c == '.' || c == '/').any isRandomPart then false
  else if contains token (bs "..") || hasPrefix token (bs "/") || contains token (bs "//") then false
  else if goIndex (lastIndexByte token '.') ≤ goIndex (lastIndexByte token '/') + 1 then false
  else !ext.isEmpty && ext.length ≤ 5 && isASCIILetter (byteAt ext 0) && ext.all isAlnumByte

def isPath (token : Bytes) : Bool :=
  if hasPrefix token (bs "/") then
    (token.drop 1).contains (chr '/') || looksLikeFieldName U (token.drop 1)
  else
    hasPrefix token (bs "./") || hasPrefix token (bs "../") ||
      3 ≤ token.length && U.isLetter (byteAt token 0).toNat && byteAt token 1 == ':' &&
        byteAt token 2 == backslash ||
      hasPrefix token [backslash, backslash] || 2 ≤ countByte token backslash

def isAbbrevHash (s : Bytes) : Bool := 7 ≤ s.length && s.length ≤ 40 && isHexStr s

def isGitHash : Bool := token.length == 40 && isHexStr token

def isGitHashRange : Bool :=
  match index (bs "..") token with
  | none => false
  | some i =>
    let rest := token.drop (i + 2)
    let rest := if hasPrefix rest (bs ".") then rest.drop 1 else rest
    7 ≤ i && isAbbrevHash (token.take i) && isAbbrevHash rest

def isMongoObjectID : Bool := token.length == 24 && isHexStr token

def base64Value (c : UInt8) : Option Nat :=
  if isUpperASCII c then some (c.toNat - 0x41)
  else if isLowerASCII c then some (c.toNat - 0x61 + 26)
  else if isASCIIDigit c then some (c.toNat - 0x30 + 52)
  else if c == '+' then some 62
  else if c == '/' then some 63
  else none

/-- Go's `base64.StdEncoding.DecodeString`, for a string without line breaks. -/
def base64Decode : Bytes → Option Bytes
  | [] => some []
  | a :: b :: c :: d :: t => do
    let x ← base64Value a
    let y ← base64Value b
    let first := UInt8.ofNat (x * 4 + y / 16)
    if c == '=' then (if d == '=' && t.isEmpty then some [first] else none)
    else
      let z ← base64Value c
      let second := UInt8.ofNat (y % 16 * 16 + z / 4)
      if d == '=' then (if t.isEmpty then some [first, second] else none)
      else
        let w ← base64Value d
        let rest ← base64Decode t
        some (first :: second :: UInt8.ofNat (z % 4 * 64 + w) :: rest)
  | _ => none

def sshKeyTypes : List String :=
  ["ssh-rsa", "ssh-dss", "ssh-ed25519", "ssh-ed448", "ecdsa-sha2-nistp256", "ecdsa-sha2-nistp384",
    "ecdsa-sha2-nistp521", "sk-ssh-ed25519@openssh.com", "sk-ecdsa-sha2-nistp256@openssh.com"]

def isSSHKeyBody : Bool :=
  if !hasPrefix token (bs "AAAA") || token.length ≤ 20 then false
  else if !token.all fun c => isAlnumByte c || c == '+' || c == '/' || c == '=' then false
  else
    let head := token.take 64
    match base64Decode (head.take (head.length / 4 * 4)) with
    | none => false
    | some raw =>
      let n := (raw.take 4).foldl (fun v b => v * 256 + b.toNat) 0
      8 ≤ raw.length && 7 ≤ n && n ≤ 40 && 4 + n ≤ raw.length && inWords sshKeyTypes (slice raw 4 (4 + n))

def isSSHKey : Bool := hasPrefix token (bs "ssh-") || isSSHKeyBody token

def isGeneratedUsername : Bool :=
  let rest := token.drop 5
  hasPrefix token (bs "user_") && 0 < rest.length && rest.length < 12 &&
    (runes rest).all fun r => isHexRune r || r == 0x5F

def isSafe (token : Bytes) : Bool :=
  contains token (bs "://") || isIPv6 token || isTimestamp U token || isImage token ||
    isPath U token || isFileName token || isGitHash token || isGitHashRange token ||
    isMongoObjectID token || isSSHKey token || isGeneratedUsername token || isPlainDecimal token ||
    isSnakeCaseWords token && matchSignature token == []

def gitDiffHeaderPrefixes : List String :=
  ["diff --git ", "diff --cc ", "diff --combined ", "--- a/", "+++ b/", "--- \"a/", "+++ \"b/",
    "--- /dev/null", "+++ /dev/null", "rename from ", "rename to ", "copy from ", "copy to ",
    "Binary files "]

def isGitDiffHeader (line : Bytes) : Bool := gitDiffHeaderPrefixes.any fun p => hasPrefix line (bs p)

/-- The expression `(?i)^[0-9a-f]{8}-[0-9a-f]{4}-[0-9a-f]{4}-[0-9a-f]{4}-[0-9a-f]{12}$` -/
def uuidRegex (s : Bytes) : Bool :=
  (List.splitOn (chr '-') s).map List.length == [8, 4, 4, 4, 12] &&
    s.all fun c => isHexByte c || c == '-'

end PiiShield
