import PiiShield.Rules.Races

/-! What a cluster makes of a publication the server stored: the signature was verified when
it was stored, and the operator reads it without trimming it. -/

namespace PiiShield.Rules

open Operator Transactions

variable {Num : Type} {P : Platform Num}

variable {keys : List TrustedKey}

theorem find_trusted {id key : Bytes} (hmem : ⟨id, key⟩ ∈ keys)
    (hother : ∀ t ∈ keys, t.id = id → t.key = key) : keys.reverse.find? (·.id == id) = some ⟨id, key⟩ := by
  cases hfind : keys.reverse.find? (·.id == id) with
  | none =>
    have hnone := List.find?_eq_none.mp hfind ⟨id, key⟩ (List.mem_reverse.mpr hmem)
    exact absurd (beq_self_eq_true id) hnone
  | some t =>
    have hid : t.id = id := by simpa using List.find?_some hfind
    have hkey := hother t (List.mem_reverse.mp (List.mem_of_find?_eq_some hfind)) hid
    rw [← hid, ← hkey]

theorem check_isOk_iff {body content set : Bytes} {min : Int64} {sf : SignatureFile}
    {key : TrustedKey} (hdecode : P.decodeSignature body = some sf)
    (hkey : keys.reverse.find? (·.id == sf.keyID) = some key) (hmin : min ≤ sf.publication) :
    (check P body content set keys min).isOk = true ↔
      isSigned P key (statement P set sf.publication sf.revision content) sf.signature = true := by
  have hnotless : ¬ sf.publication < min := Int64.not_lt.mpr hmin
  rw [check, hdecode]
  dsimp only
  rw [hkey]
  dsimp only
  by_cases hs : isSigned P key (statement P set sf.publication sf.revision content) sf.signature = true
  · rw [hs, Bool.not_true, if_neg Bool.false_ne_true, if_neg hnotless]
    simp [Except.toBool]
  rw [Bool.not_eq_true] at hs
  rw [hs, Bool.not_false, if_pos rfl]
  simp [Except.toBool]

theorem check_signatureFile_iff {path body : Bytes} {p : Publication} {v : Version} {key : Bytes}
    (hverify : verify P key (statementFor P path (.ofNat p.seq) (.ofNat v.revision) v.content) p.signature = true)
    (hid : keyID P key = p.keyID) {min : Int64}
    (hdecode : P.decodeSignature body = some (signatureFile P path p v))
    (hmem : ⟨keyID P key, key⟩ ∈ keys) (hother : ∀ t ∈ keys, t.id = keyID P key → t.key = key)
    (hmin : min ≤ .ofNat p.seq) :
    (check P body v.content path keys min).isOk = true ↔ unbroken p.signature = unbroken (trimSpace p.signature) := by
  have hfind : keys.reverse.find? (·.id == (signatureFile P path p v).keyID) = some ⟨keyID P key, key⟩ := by
    grind [signatureFile, find_trusted]
  let trusted : TrustedKey := ⟨keyID P key, key⟩
  have hverify : verify P trusted.key (statementFor P path (.ofNat p.seq) (.ofNat v.revision) v.content)
      p.signature = true := hverify
  rw [check_isOk_iff hdecode hfind hmin, ← isSigned_iff_of_verify P hverify, text_statementFor]
  rfl

/-- In every committed state each signed publication has its version and its key, and a cluster
that trusts the key accepts it exactly if trimming took nothing but line breaks from the signature. -/
theorem stored_signature_accepted_iff (pg : Bool) (requests : List Request) {d : Database} (hd : Sound P d)
    (actions : List Action) :
    let after := ((server P pg requests d).run (!pg) actions).db
    ∀ set s, after.sets set = some s → ∀ p ∈ s.publications, p.signature ≠ [] →
      ∃ v ∈ s.versions, v.revision = p.revision ∧ ∃ k ∈ after.keys, ∃ key,
        k.org = s.org ∧ k.keyID = p.keyID ∧ parsePublicKey k.publicKey = some key ∧
        ∀ body keys min, P.decodeSignature body = some (signatureFile P (after.path s) p v) →
          ⟨keyID P key, key⟩ ∈ keys → (∀ t ∈ keys, t.id = keyID P key → t.key = key) → min ≤ Int64.ofNat p.seq →
          ((check P body v.content (after.path s) keys min).isOk = true ↔
            unbroken p.signature = unbroken (trimSpace p.signature)) := by
  intro after set s hs p hp hsig
  have hsound : Sound P after := server_sound pg requests hd actions
  obtain ⟨v, hv, hrev, k, hk, key, horg, hid, hparse, hverify⟩ := hsound.signed set s hs p hp hsig
  have hkeyID : keyID P key = p.keyID := by
    obtain ⟨key', hparse', hid'⟩ := hsound.readable k hk
    cases hparse.symm.trans hparse'
    exact hid'.trans hid
  exact ⟨v, hv, hrev, k, hk, key, horg, hid, hparse, fun body keys min hdecode hmem hother hmin =>
    check_signatureFile_iff hverify hkeyID hdecode hmem hother hmin⟩

variable (signature : Bytes)

def sampleBody : Bytes :=
  bs "\x7b\"keyId\":\"0000000000000000\",\"publication\":1,\"revision\":1,\"set\":\"org/set\",\"sha256\":\"" ++
    hexEncode (sampleDigest contentOne) ++ bs "\",\"signature\":\"" ++ signature ++ bs "\"\x7d\n"

/-- A publisher of one version, and readers of the answer with a signature of theirs. -/
def readerPlatform : Platform Unit := { publisherPlatform with
  decodeSignature body :=
    if body == sampleBody signature then
      some ⟨bs "org/set", 1, 1, hexEncode (sampleDigest contentOne), bs "0000000000000000", signature⟩
    else none }

def publishAs : Request := .publish 1 [] ⟨1, 1, bs "0000000000000000", signature⟩

/-- A key is registered and a version published with a signature. -/
def signedRules : Database :=
  ((server (readerPlatform signature) true [addKeySample, publishAs signature] sampleRules).run (!true)
    (.advance 0 :: List.replicate 10 (.advance 1))).db

def trustedKeys : List TrustedKey := [⟨bs "0000000000000000", List.replicate 32 0⟩]

def samplePublication : Publication := ⟨1, 1, [], bs "0000000000000000", signature⟩

def sampleVersion : Version := ⟨1, contentOne, [], [], []⟩

theorem stored_signature_accepted :
    (signedRules sampleSignature).latestPublication 1 = some (samplePublication sampleSignature) ∧
      (check (readerPlatform sampleSignature) (sampleBody sampleSignature) contentOne (bs "org/set")
        trustedKeys 1).isOk = true := by
  have hset : (signedRules sampleSignature).sets 1 = some ⟨1, bs "set", some 1,
      [sampleVersion, ⟨2, contentTwo, [], [], []⟩], [samplePublication sampleSignature]⟩ := by decide +kernel
  have hkeys : (signedRules sampleSignature).keys = [⟨1, bs "0000000000000000", sampleKey, false⟩] := by
    decide +kernel
  have hsample : parsePublicKey sampleKey = some (List.replicate 32 0) := by decide +kernel
  refine ⟨by decide +kernel, ?_⟩
  have haccepted := stored_signature_accepted_iff (P := readerPlatform sampleSignature) true
    [addKeySample, publishAs sampleSignature] sampleRules_sound (.advance 0 :: List.replicate 10 (.advance 1))
  dsimp only at haccepted
  rw [← signedRules] at haccepted
  obtain ⟨v, hv, hrev, k, hk, key, -, -, hparse, hcheck⟩ :=
    haccepted 1 _ hset _ (List.mem_singleton_self _) (by decide +kernel)
  have hv : v = sampleVersion := by
    rcases List.mem_cons.mp hv with rfl | hv
    · rfl
    rw [List.mem_singleton.mp hv] at hrev
    cases hrev
  rw [hkeys, List.mem_singleton] at hk
  rw [hk] at hparse
  cases hsample.symm.trans hparse
  subst hv
  refine (hcheck (sampleBody sampleSignature) trustedKeys 1 ?_ ?_ ?_ ?_).mpr ?_ <;> decide +kernel

/-- A signature with a blank behind it is stored, and no cluster accepts it. -/
theorem stored_signature_rejected :
    let signature := sampleSignature ++ bs " "
    (signedRules signature).latestPublication 1 = some (samplePublication signature) ∧
      (readerPlatform signature).decodeSignature (sampleBody signature) =
        some (signatureFile (readerPlatform signature) (bs "org/set") (samplePublication signature) sampleVersion) ∧
      (check (readerPlatform signature) (sampleBody signature) contentOne (bs "org/set") trustedKeys 1).isOk =
        false := by
  decide +kernel

end PiiShield.Rules
