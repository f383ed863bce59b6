import PiiShield.Unicode

/-! Secrets known by an issuer's format, and the shape of an e-mail address. -/

namespace PiiShield

def isDigits (U : Unicode) (s : Bytes) : Bool := (runes s).all U.isDigit

def isURLSafeByte (c : UInt8) : Bool := isAlnumByte c || c == '_' || c == '-'

variable (t : Bytes)

def awsKeyRe : Bool :=
  (hasPrefix t (bs "AKIA") || hasPrefix t (bs "ASIA")) && t.length == 20 &&
    (t.drop 4).all fun c => isASCIIDigit c || isUpperASCII c

def gcpKeyRe : Bool :=
  hasPrefix t (bs "AIza") && t.length == 39 && (t.drop 4).all isURLSafeByte

def githubTokenRe : Bool :=
  (["ghp_", "gho_", "ghu_", "ghs_", "ghr_"].any fun p => hasPrefix t (bs p)) &&
    40 ≤ t.length && t.length ≤ 259 && (t.drop 4).all isAlnumByte

def slackTokenRe : Bool :=
  (["xoxa-", "xoxb-", "xoxe-", "xoxp-", "xoxs-", "xoxr-"].any fun p => hasPrefix t (bs p)) &&
    15 ≤ t.length && (t.drop 5).all fun c => isAlnumByte c || c == '-'

/-- The expression `^(?:sk|rk)_(?:live|test)_[0-9A-Za-z]{16,}$` -/
def stripeKeyRe : Bool :=
  (["sk_live_", "sk_test_", "rk_live_", "rk_test_"].any fun p => hasPrefix t (bs p)) &&
    24 ≤ t.length && (t.drop 8).all isAlnumByte

/-- The expression `^eyJ[0-9A-Za-z_-]+\.[0-9A-Za-z_-]+\.[0-9A-Za-z_-]*$` -/
def jwtRe : Bool :=
  match List.splitOn (chr '.') t with
  | [header, payload, sig] =>
    hasPrefix header (bs "eyJ") && 4 ≤ header.length && header.all isURLSafeByte &&
      1 ≤ payload.length && payload.all isURLSafeByte && sig.all isURLSafeByte
  | _ => false

def telegramBotTokenRe : Bool :=
  match cut t (bs ":") with
  | some (id, secret) =>
    5 ≤ id.length && id.length ≤ 16 && id.all isASCIIDigit &&
      hasPrefix secret (bs "A") && secret.length == 35 && (secret.drop 1).all isURLSafeByte
  | none => false

/-- A rule: the label of its marker, the literal starts it is tried for, its expression. -/
structure SignatureRule where
  label : Bytes
  starts : List Bytes
  re : Bytes → Bool

def signatureRules : List SignatureRule :=
  [⟨bs "aws-key", ["AKIA", "ASIA"].map bs, awsKeyRe⟩,
    ⟨bs "gcp-key", ["AIza"].map bs, gcpKeyRe⟩,
    ⟨bs "github-token", ["ghp_", "gho_", "ghs_", "ghu_", "ghr_"].map bs, githubTokenRe⟩,
    ⟨bs "slack-token", ["xox"].map bs, slackTokenRe⟩,
    ⟨bs "stripe-key", ["sk_live_", "sk_test_", "rk_live_", "rk_test_"].map bs, stripeKeyRe⟩,
    ⟨bs "jwt", ["eyJ"].map bs, jwtRe⟩]

def minSignatureLength : Nat := 20

def minBearerCredentialLength : Nat := 16

def matchSignature (token : Bytes) : Bytes :=
  if token.length < minSignatureLength then []
  else
    match signatureRules.find? fun r => r.starts.any (hasPrefix token) && r.re token with
    | some r => r.label
    | none =>
      if firstIs token isASCIIDigit && telegramBotTokenRe token then bs "telegram-bot-token" else []

/-- The scan for five digits, a colon and an `A`; `digits` is the run just before. -/
def telegramShapeFrom (digits : Nat) : Bytes → Bool
  | [] => false
  | c :: t =>
    c == ':' && firstIs t (· == 'A') && 5 ≤ digits ||
      telegramShapeFrom (if isASCIIDigit c then digits + 1 else 0) t

def hasTelegramShape (s : Bytes) : Bool :=
  if s.length < minSignatureLength then false else telegramShapeFrom 0 s

def urlPathSignature (seg : Bytes) : Nat × Bytes :=
  if matchSignature seg != [] then (0, matchSignature seg)
  else if hasPrefix seg (bs "bot") && matchSignature (seg.drop 3) == bs "telegram-bot-token" then
    (3, bs "telegram-bot-token")
  else (0, [])

def hasPathSignature (s : Bytes) : Bool :=
  if s.length < minSignatureLength then false
  else (List.splitOn (chr '/') s).any fun seg => (urlPathSignature seg).2 != []

def isPrivateKeyMarker (line : Bytes) : Bool :=
  let s := trimSpace line
  let suffix := bs "PRIVATE KEY-----"
  let framed (start : Bytes) : Bool :=
    hasSuffix s suffix && start.length + suffix.length ≤ s.length &&
      (slice s start.length (s.length - suffix.length)).all fun c =>
        isUpperASCII c || isASCIIDigit c || c == ' '
  if hasPrefix s (bs "-----BEGIN ") then framed (bs "-----BEGIN ")
  else if hasPrefix s (bs "-----END ") then framed (bs "-----END ")
  else false

def isDomainLabel (label : Bytes) : Bool :=
  !label.isEmpty && label.length ≤ 63 && byteAt label 0 != '-' && lastByte label != '-' &&
    label.all fun c => isAlnumByte c || c == '-'

/-- The loop over the labels of a domain; `labels` counts those read. -/
def emailLabels : Nat → Nat → Bytes → Bool
  | 0, labels, _ => 2 ≤ labels
  | fuel + 1, labels, domain =>
    if domain.isEmpty then 2 ≤ labels
    else
      let (label, rest) := (cut domain (bs ".")).getD (domain, [])
      if !isDomainLabel label then false
      else if rest.isEmpty then
        2 ≤ label.length && label.all isASCIILetter && 2 ≤ labels + 1
      else emailLabels fuel (labels + 1) rest

def isEmailAddress (s : Bytes) : Bool :=
  match indexByte s '@' with
  | none => false
  | some at_ =>
    let localPart := s.take at_
    let domain := s.drop (at_ + 1)
    if at_ < 1 || 64 < at_ || domain.contains (chr '@') then false
    else if byteAt localPart 0 == '.' || lastByte localPart == '.' then false
    else
      (localPart.all fun c => isAlnumByte c || (bs "._%+-").contains c) &&
        emailLabels domain.length 0 domain

end PiiShield
