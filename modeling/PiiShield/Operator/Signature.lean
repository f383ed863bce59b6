import PiiShield.Operator.PolicyFile
import PiiShield.Safe

/-! The signature of a remote file: the keys a policy trusts, the set it expects and the
check of a statement that binds a file to its set and publication. -/

namespace PiiShield.Operator

structure TrustedKey where
  id : Bytes
  key : Bytes
  deriving DecidableEq

structure Verified where
  publication : Int64
  keyID : Bytes
  deriving DecidableEq

inductive SettingsProblem
  | keyPrefix (i : Nat)
  | keyFormat (i : Nat)
  | noKeys
  | url (fileURL : Bytes)
  | unknownSet (fileURL : Bytes)
  deriving DecidableEq

inductive SignatureProblem
  | invalidFile
  | untrusted (keyID : Bytes)
  | mismatch (keyID set : Bytes) (publication : Int64)
  | replayed (publication minPublication : Int64)
  deriving DecidableEq

/-- Go's `base64.StdEncoding.DecodeString`, which passes over line breaks. -/
def decodeBase64 (s : Bytes) : Option Bytes := base64Decode (s.filter fun c => c != 0x0d && c != newline)

def publicKeySize : Nat := 32

def signatureSize : Nat := 64

variable {Num : Type} (P : Platform Num)

def keyID (key : Bytes) : Bytes := hexEncode ((P.sha256 key).take 8)

/-- One key of the list, written `ed25519:` and the key in base64. -/
def parseTrustedKey (i : Nat) (s : Bytes) : Except SettingsProblem TrustedKey :=
  let s := trimSpace s
  if !hasPrefix s (bs "ed25519:") then .error (.keyPrefix i)
  else
    match decodeBase64 (s.drop (bs "ed25519:").length) with
    | some raw => if raw.length == publicKeySize then .ok ⟨keyID P raw, raw⟩ else .error (.keyFormat i)
    | none => .error (.keyFormat i)

def parseTrustedKeysFrom : Nat → List Bytes → Except SettingsProblem (List TrustedKey)
  | _, [] => .ok []
  | i, s :: ss => do
    let k ← parseTrustedKey P i s
    let ks ← parseTrustedKeysFrom (i + 1) ss
    return k :: ks

def parseTrustedKeys (keys : List Bytes) : Except SettingsProblem (List TrustedKey) := do
  let out ← parseTrustedKeysFrom P 0 keys
  if out.isEmpty then .error .noKeys else .ok out

def signatureURL (fileURL explicit : Bytes) : Except SettingsProblem Bytes :=
  if !explicit.isEmpty then .ok explicit
  else
    match P.parseURL fileURL with
    | none => .error (.url fileURL)
    | some u =>
      .ok (P.urlString
        { u with
          path := u.path ++ bs ".sig"
          rawPath := if u.rawPath.isEmpty then u.rawPath else u.rawPath ++ bs ".sig" })

def trimByte (s : Bytes) (c : UInt8) : Bytes := (s.dropWhile (· == c)).rdropWhile (· == c)

def expectedSet (fileURL explicit : Bytes) : Except SettingsProblem Bytes :=
  if !explicit.isEmpty then .ok explicit
  else
    match P.parseURL fileURL with
    | none => .error (.url fileURL)
    | some u =>
      match (List.splitOn (chr '/') (trimByte u.path '/')).reverse with
      | file :: set :: org :: version :: _ =>
        if version == bs "v1" && file == bs "policy.json" then .ok (org ++ bs "/" ++ set)
        else .error (.unknownSet fileURL)
      | _ => .error (.unknownSet fileURL)

def statement (set : Bytes) (publication revision : Int64) (body : Bytes) : Bytes :=
  bs "pii-shield-policy-signature-v1\n" ++ bs "set: " ++ set ++ bs "\n" ++
    bs "publication: " ++ formatInt publication ++ bs "\n" ++
    bs "revision: " ++ formatInt revision ++ bs "\n" ++
    bs "sha256: " ++ hexEncode (P.sha256 body) ++ bs "\n"

def isSigned (key : TrustedKey) (text signature : Bytes) : Bool :=
  match decodeBase64 signature with
  | some sig => sig.length == signatureSize && P.verify key.key text sig
  | none => false

def check (sigBody body set : Bytes) (keys : List TrustedKey) (minPublication : Int64) :
    Except SignatureProblem Verified :=
  match P.decodeSignature sigBody with
  | none => .error .invalidFile
  | some sf =>
    match keys.reverse.find? (·.id == sf.keyID) with
    | none => .error (.untrusted sf.keyID)
    | some key =>
      let text := statement P set sf.publication sf.revision body
      if !isSigned P key text sf.signature then .error (.mismatch sf.keyID set sf.publication)
      else if sf.publication < minPublication then .error (.replayed sf.publication minPublication)
      else .ok ⟨sf.publication, sf.keyID⟩

def trusted (keys : List TrustedKey) (id : Bytes) : Bool := !id.isEmpty && keys.any (·.id == id)

end PiiShield.Operator
