import PiiShield.Numbers

/-! The keys that announce a number, and the search of a line for shaped numbers. -/

namespace PiiShield

def inWords (words : List String) (w : Bytes) : Bool := words.any fun l => bs l == w

def isKeyWordSep (c : UInt8) : Bool := c == '_' || c == '-' || c == '.'

def keyWordsFrom (word : Bytes) : Bytes → List Bytes
  | [] => if word.isEmpty then [] else [word]
  | c :: t =>
    if isKeyWordSep c then (if word.isEmpty then [] else [word]) ++ keyWordsFrom [] t
    else if !word.isEmpty && isUpperASCII c && isLowerASCII (lastByte word) then
      word :: keyWordsFrom [c] t
    else keyWordsFrom (word ++ [c]) t

def maxKeyWords : Nat := 8

def splitKeyWords (U : Unicode) (key : Bytes) : List Bytes :=
  if 64 < key.length then []
  else if maxKeyWords < (keyWordsFrom [] key).length then []
  else (keyWordsFrom [] key).map U.toLowerString

def isNumberSuffix (w : Bytes) : Bool := inWords ["number", "no", "num", "nr"] w

def phoneKeyWords : List String :=
  ["phone", "telephone", "tel", "mobile", "msisdn", "cell", "cellphone", "fax", "whatsapp",
    "phonenumber", "mobilephone"]

variable (parts : List Bytes)

def wordFromEnd (k : Nat) : Bytes := parts.reverse.getD k []

def isPhoneKeyWords : Bool :=
  let last := wordFromEnd parts 0
  let stripped := isNumberSuffix last && 2 ≤ parts.length
  if last == bs "id" && 2 ≤ parts.length && wordFromEnd parts 1 == bs "wa" then true
  else
    let last := if stripped then wordFromEnd parts 1 else last
    if last == bs "contact" then stripped else inWords phoneKeyWords last

def idDocumentWords : List String :=
  ["ssn", "passport", "cpf", "dni", "nin", "tin", "aadhaar", "zehut", "teudatzehut", "idnumber",
    "nationalid", "taxid", "socialsecurity", "passportnumber", "identitynumber", "mrn",
    "medicalrecordnumber"]

def idOwnerWords : List String :=
  ["national", "tax", "taxpayer", "citizen", "identity", "government", "gov", "state"]

def idRecordWords : List String :=
  ["order", "transaction", "tracking", "invoice", "request", "session", "ticket", "message",
    "product", "item", "batch", "job", "trace", "device", "payment"]

def isIDKeyWords : Bool :=
  let stripped := isNumberSuffix (wordFromEnd parts 0) && 2 ≤ parts.length
  let parts := if stripped then parts.dropLast else parts
  let last := wordFromEnd parts 0
  let prev := wordFromEnd parts 1
  if last == bs "id" then inWords idOwnerWords prev || stripped && !inWords idRecordWords prev
  else if last == bs "identity" then stripped
  else if last == bs "security" then prev == bs "social"
  else if last == bs "record" then stripped && prev == bs "medical"
  else inWords idDocumentWords last

def sessionKeyWords : List String :=
  ["cookie", "session", "sessionid", "sid", "jsessionid", "phpsessid", "sessid"]

def isSessionKeyWords : Bool :=
  if wordFromEnd parts 0 == bs "id" && 2 ≤ parts.length then wordFromEnd parts 1 == bs "session"
  else inWords sessionKeyWords (wordFromEnd parts 0)

def otpKeyWords : List String :=
  ["otp", "totp", "hotp", "passcode", "otpcode", "onetimecode", "mfacode", "smscode"]

def otpCodeWords : List String :=
  ["otp", "totp", "hotp", "mfa", "2fa", "tfa", "verification", "verify", "confirmation", "confirm",
    "reset", "recovery", "activation", "login", "signin", "auth", "security", "sms", "onetime",
    "pass"]

def isOTPKeyWords : Bool :=
  if wordFromEnd parts 0 != bs "code" then inWords otpKeyWords (wordFromEnd parts 0)
  else if parts.length < 2 then false
  else if wordFromEnd parts 1 == bs "time" then
    3 ≤ parts.length && wordFromEnd parts 2 == bs "one"
  else inWords otpCodeWords (wordFromEnd parts 1)

def dobKeyWords : List String := ["dob", "birthdate", "birthday", "dateofbirth", "born"]

def isDOBKeyWords : Bool :=
  if wordFromEnd parts 0 == bs "date" then 2 ≤ parts.length && wordFromEnd parts 1 == bs "birth"
  else if wordFromEnd parts 0 == bs "birth" then
    3 ≤ parts.length && wordFromEnd parts 1 == bs "of" && wordFromEnd parts 2 == bs "date"
  else inWords dobKeyWords (wordFromEnd parts 0)

section Keys

variable (U : Unicode)

def keyIs (words : List Bytes → Bool) (key : Bytes) : Bool :=
  let parts := splitKeyWords U key
  !parts.isEmpty && words parts

variable (key : Bytes)

def isPhoneKey : Bool := keyIs U isPhoneKeyWords key

def isIDKey : Bool := keyIs U isIDKeyWords key

def isOTPKey : Bool := keyIs U isOTPKeyWords key

def isDOBKey : Bool := keyIs U isDOBKeyWords key

def isSessionKey : Bool :=
  let k := trimRight key (bs "_-.")
  if k.isEmpty then false
  else if !(bs "end").contains (lastByte k ||| 0x20) then false
  else keyIs U isSessionKeyWords key

/-- A string from its first digit on that `matcher` reads to the end. -/
def wholeValue (matcher : Bytes → Nat → Nat) (val : Bytes) : Bool :=
  firstIs val isASCIIDigit && matcher val 0 == val.length

variable (val : Bytes)

def isIDNumberValue : Bool := wholeValue matchKeyedIDNumber val

def isSessionNumberValue : Bool := wholeValue matchSessionNumber val

def isOTPValue : Bool := wholeValue matchKeyedOTP val

def isDOBValue : Bool := wholeValue matchKeyedDate val

def dashedDigits : UInt8 → Bytes → Option Nat
  | _, [] => some 0
  | prev, c :: t =>
    if isASCIIDigit c then (dashedDigits c t).map (· + 1)
    else if (c == '-' || c == '.') && isASCIIDigit prev then dashedDigits c t
    else none

def isPhoneValue (keyed : Bool) : Bool :=
  if val.isEmpty || !isASCIIDigit (lastByte val) then false
  else if byteAt val 0 == '+' then matchInternationalPhone val 0 == val.length
  else if byteAt val 0 == '(' then matchNANPPhone val 0 == val.length
  else if !isASCIIDigit (byteAt val 0) then false
  else if matchNANPPhone val 0 == val.length then true
  else if !keyed then false
  else
    match dashedDigits 0 val with
    | some digits => minKeyedDigits ≤ digits && digits ≤ maxPhoneDigits
    | none => false

def phoneKeyBefore (line : Bytes) (i : Nat) : Bytes :=
  let dropOne (p : UInt8 → Bool) (s : Bytes) : Bytes := if firstIs s p then s.drop 1 else s
  let before := (line.take i).reverse
  let before := (dropOne isQuote (dropOne (· == '(') before)).dropWhile isSpaceByte
  if !firstIs before fun c => c == ':' || c == '=' then []
  else
    let key := dropOne isQuote ((before.drop 1).dropWhile isSpaceByte)
    (key.takeWhile fun c => isAlnumByte c || isKeyWordSep c).reverse

def matchKeyedNumber (line : Bytes) (i : Nat) : Nat × Bytes :=
  let key := phoneKeyBefore line i
  let words := splitKeyWords U key
  if key.isEmpty || words.isEmpty then (0, [])
  else if isPhoneKeyWords words then (matchKeyedPhone line i, bs "phone")
  else if isIDKeyWords words then (matchKeyedIDNumber line i, bs "id-number")
  else if isSessionKeyWords words then (matchSessionNumber line i, bs "key")
  else if isOTPKeyWords words then (matchKeyedOTP line i, bs "key")
  else if isDOBKeyWords words then (matchKeyedDate line i, bs "dob")
  else (0, [])

end Keys

def phoneGlue (c : UInt8) : Bool :=
  isASCIILetter c || isASCIIDigit c || c == '+' || c == '-' || c == '.' || c == '/' || c == '@' ||
    c == '_' || c == '%'

def phoneGluedAfter (line : Bytes) (stop : Nat) : Bool :=
  match line.drop stop with
  | [] => false
  | c :: t =>
    isASCIILetter c || isASCIIDigit c || c == '_' || c == '@' || c == '/' || c == '%' || c == '+' ||
      (c == '-' || c == '.') && firstIs t isASCIIDigit

def skipPhoneRun (line : Bytes) (i : Nat) : Nat :=
  if !isDigitAt line i then i + 1 else i + spanDigits line i

def insideURL (line : Bytes) : Nat → Bool
  | 0 => false
  | j + 1 =>
    let c := byteAt line j
    if isBlank c || isQuote c then false
    else if c == '?' then true
    else if c == ':' && hasPrefix (line.drop j) (bs "://") then true
    else insideURL line j

/-- The number that starts at `i`: where it ends (zero for none) and its label. -/
def matchShapedNumber (U : Unicode) (line : Bytes) (i : Nat) : Nat × Bytes :=
  let c := byteAt line i
  if c == '+' then (matchInternationalPhone line i, bs "phone")
  else if c == '(' || matchNANPPhone line i != 0 then (matchNANPPhone line i, bs "phone")
  else matchKeyedNumber U line i

def shapedNumbersFrom (U : Unicode) (line : Bytes) : Nat → Nat → List ShapedNumber
  | 0, _ => []
  | fuel + 1, i =>
    if line.length ≤ i then []
    else
      let c := byteAt line i
      if c != '+' && c != '(' && !isASCIIDigit c then shapedNumbersFrom U line fuel (i + 1)
      else if 0 < i && phoneGlue (byteAt line (i - 1)) then
        shapedNumbersFrom U line fuel (skipPhoneRun line i)
      else
        let (stop, label) := matchShapedNumber U line i
        if 0 < stop && !phoneGluedAfter line stop && !insideURL line i then
          ⟨⟨i, stop⟩, label⟩ :: shapedNumbersFrom U line fuel stop
        else shapedNumbersFrom U line fuel (skipPhoneRun line i)

def findShapedNumbers (U : Unicode) (line : Bytes) : List ShapedNumber :=
  if !line.any isASCIIDigit then [] else shapedNumbersFrom U line line.length 0

end PiiShield
