import PiiShield.Operator.Runs

/-! A platform that can be run: it reads a few files that set nothing, and a statement is signed if it is
on the publisher's list. -/

namespace PiiShield.Operator

def sampleDigest (b : Bytes) : Bytes := (b ++ List.replicate 32 0).take 32

def sampleKey : Bytes := bs "ed25519:AAAAAAAAAAAAAAAAAAAAAAAAAAAAAAAAAAAAAAAAAAA="

def sampleSignature : Bytes :=
  bs "AAAAAAAAAAAAAAAAAAAAAAAAAAAAAAAAAAAAAAAAAAAAAAAAAAAAAAAAAAAAAAAAAAAAAAAAAAAAAAAAAAAAAA=="

def emptyFile : Bytes := bs "\x7b\x7d"

def spacedFile : Bytes := bs "\x7b \x7d"

def sampleSignatureFile (publication : UInt8) : Bytes :=
  bs "\x7b\"publication\":" ++ [chr '0' + publication] ++
    bs ",\"revision\":1,\"keyId\":\"0000000000000000\",\"signature\":\"" ++ sampleSignature ++ bs "\"\x7d"

def samplePlatform (signed : List Bytes) : Platform Unit where
  unicode := .ascii
  parseURL u := some ⟨bs "https", u, [], []⟩
  urlString u := u.path
  decodeFile b :=
    if b == emptyFile || b == spacedFile then some ⟨⟨[], (), (), 0, [], [], [], [], none, none, none⟩, [], []⟩ else none
  decodeSignature b := (([1, 3, 5, 9] : List UInt8).find? (sampleSignatureFile · == b)).map
    fun n => ⟨[], .ofInt n.toNat, 1, [], bs "0000000000000000", sampleSignature⟩
  encode _ := some emptyFile
  compiles _ := true
  hasCertificate _ := true
  sha256 := sampleDigest
  verify _ text _ := signed.contains text
  zero := ()
  isZero _ := true
  isNegative _ := false
  shortest := id
  decodeFile_nil := rfl
  sha256_length b := by simp [sampleDigest]

def sampleStatement (set : Bytes) (publication : Int64) (body : Bytes) : Bytes :=
  statement (samplePlatform []) set publication 1 body

def samplePolicy (key set : Bytes) : PiiPolicy Unit :=
  { name := bs "policy"
    generation := 1
    rules := ⟨(), (), 0, [], [], [], []⟩
    remoteConfig := some
      ⟨bs "https://rules/policy.json", 300, none, none, false, some ⟨[key], bs "https://rules/policy.json.sig", set⟩⟩
    remoteStatus := none }

def sampleSettings (set : Bytes) : Settings :=
  ⟨[⟨bs "0000000000000000", List.replicate 32 0⟩], bs "https://rules/policy.json.sig", set⟩

def sampleServer (body : Bytes) (publication : UInt8) : Env where
  server src :=
    if src.url == bs "https://rules/policy.json" then .response 200 (some body) []
    else .response 200 (some (sampleSignatureFile publication)) []
  secret _ := none
  readable := true
  writable := true
  now := 0

def sampleOutage : Env := { sampleServer [] 0 with server := fun _ => .failed }

def filePlatform (files : List (Bytes × Document Unit)) : Platform Unit := { samplePlatform [] with
  encode doc := (files.find? (·.2 == doc)).map (·.1)
  decodeFile b := if b.isEmpty then none else (files.lookup b).map (⟨·, [], []⟩)
  decodeFile_nil := rfl }

end PiiShield.Operator
