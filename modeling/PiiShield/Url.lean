import PiiShield.Safe

/-! Cuts inside a URL: the punctuation that closes around it, the password of its
authority, the segments and parameters that hold a secret. -/

namespace PiiShield

def isClosing (c : UInt8) : Bool := (bs ":,.;)]\x7d>").contains c

def indexWhitespace (s : Bytes) : Option Nat := s.findIdx? isBlank

def lastQuote (url : Bytes) : Int :=
  max (goIndex (lastIndexByte url dquote)) (goIndex (lastIndexByte url squote))

def urlClosingTail (url : Bytes) : Int :=
  let q := lastQuote url
  if q < goIndex (indexByte url '?') then url.length
  else if !(url.drop (q + 1).toNat).all isClosing then url.length
  else
    let backslashes := ((url.take q.toNat).reverse.takeWhile (· == backslash)).length
    if backslashes % 2 == 1 then q - 1 else q

/-- The `@` that ends the authority: the last one no path byte stands before. -/
def lastAt (s : Bytes) : Nat → Nat → Nat
  | 0, at_ => at_
  | fuel + 1, at_ =>
    match indexByte (s.drop (at_ + 1)) '@' with
    | none => at_
    | some next =>
      if containsAny (slice s (at_ + 1) (at_ + 1 + next)) (bs "/?# \t") then at_
      else lastAt s fuel (at_ + 1 + next)

def urlPassword (U : Unicode) (s : Bytes) : Option (Nat × Nat) :=
  match index (bs "://") s with
  | none => none
  | some i =>
    let auth := i + 3
    match indexByte (s.drop auth) '@' with
    | none => none
    | some rel =>
      let at_ := lastAt s s.length (auth + rel)
      match indexByte (slice s auth at_) ':' with
      | none => none
      | some colon =>
        let start := auth + colon + 1
        let pw := slice s start at_
        if containsAny (slice s auth (auth + colon)) (bs "/?#=& \t") ||
            containsAny (slice s auth at_) (bs " \t") then none
        else if start == at_ then none
        else
          match indexByte pw '/' with
          | some slash => if 0 < slash && isDigits U (pw.take slash) then none else some (start, at_)
          | none => some (start, at_)

def isHexString (s : Bytes) : Bool := !s.isEmpty && s.all isHexByte

def isSCPTarget (val : Bytes) : Bool :=
  val.isEmpty || byteAt val 0 == '/' || byteAt val 0 == '~' || val.contains (chr '/') ||
    hasSuffix val (bs ".git") || isFileName val || val.all isASCIIDigit

variable {Num : Type}

namespace ConfigState

variable (st : ConfigState Num)

def isSecretPathSegment (seg : Bytes) : Bool :=
  if seg.length < 20 || 128 < seg.length then false
  else if !seg.all fun c => isAlnumByte c || c == '-' || c == '_' then false
  else if !seg.any isASCIILetter || !seg.any isASCIIDigit then false
  else if isGitHash seg || isGitHashRange seg || isMongoObjectID seg ||
      seg.length == 36 && uuidRegex seg then false
  else if (seg.length == 64 || seg.length == 128) && isHexString seg then false
  else if isSnakeCaseWords seg then false
  else st.arith.lt st.config.entropyThreshold (st.calculateComplexity seg)

def hasSecretPathSegment (path : Bytes) : Bool :=
  if path.length < minSignatureLength then false
  else (List.splitOn (chr '/') path).any st.isSecretPathSegment

def urlParamMark (key val : Bytes) : Option Mark :=
  let U := st.unicode
  let hide (label : String) (strategy : Strategy) : Option Mark :=
    some ⟨val, st.entityLabel (bs label), strategy⟩
  if val.isEmpty || isRedacted val || st.isSafeRegexWhitelisted val then none
  else if isEmailAddress val then hide "email" .signature
  else if isPhoneValue val (isPhoneKey U key) then hide "phone" .signature
  else if isIDNumberValue val && isIDKey U key then hide "id-number" .signature
  else if isSessionNumberValue val && isSessionKey U key then hide "key" .signature
  else if isOTPValue val && isOTPKey U key then hide "key" .signature
  else if isDOBValue val && isDOBKey U key then hide "dob" .signature
  else if st.isSensitiveKey key then hide "key" .key
  else if st.arith.lt st.config.entropyThreshold (st.calculateComplexity val) then
    hide "url" .entropy
  else if st.isSessionTokenValue val && isSessionKey U key then hide "key" .signature
  else none

end ConfigState

end PiiShield
