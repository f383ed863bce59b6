import PiiShield.Base64
import PiiShield.Operator.Signature

/-! What a publisher signs, on the side of the rule server. The statement is the operator's
own; the signature is trimmed here before it is decoded and there it is not. -/

namespace PiiShield.Rules

open Operator

structure Statement where
  set : Bytes
  publication : Int64
  revision : Int64
  sha256 : Bytes

def Statement.text (s : Statement) : Bytes :=
  bs "pii-shield-policy-signature-v1" ++ bs "\n" ++ bs "set: " ++ s.set ++ bs "\n" ++
    bs "publication: " ++ formatInt s.publication ++ bs "\n" ++
    bs "revision: " ++ formatInt s.revision ++ bs "\n" ++
    bs "sha256: " ++ s.sha256 ++ bs "\n"

variable {Num : Type} (P : Platform Num)

def statementFor (set : Bytes) (publication revision : Int64) (content : Bytes) : Statement :=
  ⟨set, publication, revision, hexEncode (P.sha256 content)⟩

theorem text_statementFor (set : Bytes) (publication revision : Int64) (content : Bytes) :
    (statementFor P set publication revision content).text = statement P set publication revision content := by
  have hheader : bs "pii-shield-policy-signature-v1" ++ bs "\n" = bs "pii-shield-policy-signature-v1\n" := by
    rfl
  rw [Statement.text, statement, hheader]
  rfl

def parsePublicKey (s : Bytes) : Option Bytes :=
  let s := trimSpace s
  if !hasPrefix s (bs "ed25519:") then none
  else (decodeBase64 (s.drop (bs "ed25519:").length)).bind fun raw =>
    if raw.length == publicKeySize then some raw else none

def formatPublicKey (key : Bytes) : Bytes := bs "ed25519:" ++ base64Encode key

def verify (key : Bytes) (st : Statement) (sigB64 : Bytes) : Bool :=
  match decodeBase64 (trimSpace sigB64) with
  | some sig => sig.length == signatureSize && P.verify key st.text sig
  | none => false

/-- A text without its line breaks, which base64 passes over. -/
def unbroken (s : Bytes) : Bytes := s.filter fun c => c != 0x0d && c != newline

theorem base64Encode_plain (s : Bytes) : (base64Encode s).all isBase64Byte = true :=
  all_isBase64Byte (base64Decode_base64Encode s)

theorem unbroken_eq_self {s : Bytes} (h : s.all isBase64Byte = true) : unbroken s = s := by
  rw [unbroken, List.filter_eq_self]
  intro c hc
  have hplain := (isBase64Byte_plain (List.all_eq_true.mp h c hc)).2
  rw [Bool.and_eq_true, bne_iff_ne, bne_iff_ne]
  constructor
  · rintro rfl
    cases hplain
  rintro rfl
  cases hplain

theorem decodeBase64_base64Encode (s : Bytes) : decodeBase64 (base64Encode s) = some s := by
  have h := unbroken_eq_self (base64Encode_plain s)
  rw [unbroken] at h
  rw [decodeBase64, h, base64Decode_base64Encode]

theorem parsePublicKey_formatPublicKey {key : Bytes} (h : key.length = publicKeySize) :
    parsePublicKey (formatPublicKey key) = some key := by
  have htrim : trimSpace (formatPublicKey key) = formatPublicKey key := by
    apply trimSpace_of_no_space
    intro x hx
    rcases List.mem_append.mp hx with hx | hx
    · have hall : ∀ x ∈ bs "ed25519:", isASCII x = true ∧ isSpaceRune x.toNat = false := by decide +kernel
      exact hall x hx
    exact isBase64Byte_plain (List.all_eq_true.mp (base64Encode_plain key) x hx)
  have hhead : hasPrefix (formatPublicKey key) (bs "ed25519:") = true := by
    rw [hasPrefix, List.isPrefixOf_iff_prefix]
    exact List.prefix_append _ _
  have hdrop : (formatPublicKey key).drop (bs "ed25519:").length = base64Encode key := List.drop_left
  simp_all [parsePublicKey, decodeBase64_base64Encode]

theorem length_of_parsePublicKey {s key : Bytes} (h : parsePublicKey s = some key) :
    key.length = publicKeySize := by
  rw [parsePublicKey] at h
  split at h
  · cases h
  obtain ⟨raw, -, h⟩ := Option.bind_eq_some_iff.mp h
  split at h
  · next hlen =>
    cases h
    simpa using hlen
  · cases h

theorem unbroken_append (a b : Bytes) : unbroken (a ++ b) = unbroken a ++ unbroken b := List.filter_append ..

theorem unbroken_trimSpace {s : Bytes} (h : (unbroken s).all isBase64Byte = true) :
    unbroken s = unbroken (trimSpace s) := by
  obtain ⟨a, b, hs, hab⟩ := trimSpace_split s
  have hnil (t : Bytes) (ht : ∀ x ∈ t, x ∈ a ++ b) (hsub : ∀ x ∈ unbroken t, x ∈ unbroken s) : unbroken t = [] := by
    rw [List.eq_nil_iff_forall_not_mem]
    intro x hx
    obtain ⟨hascii, hspace⟩ := isBase64Byte_plain (List.all_eq_true.mp h x (hsub x hx))
    have htrue := hab x (ht x (List.mem_filter.mp hx).1) hascii
    rw [hspace] at htrue
    cases htrue
  have hparts : unbroken s = unbroken a ++ unbroken (trimSpace s) ++ unbroken b := by
    conv_lhs => rw [hs, unbroken_append, unbroken_append]
  have ha : unbroken a = [] := hnil a (fun x hx => List.mem_append_left _ hx) fun x hx => by
    rw [hparts]
    simp [hx]
  have hb : unbroken b = [] := hnil b (fun x hx => List.mem_append_right _ hx) fun x hx => by
    rw [hparts]
    simp [hx]
  simp [hparts, ha, hb]

theorem isSigned_iff_of_verify {key : TrustedKey} {st : Statement} {sigB64 : Bytes}
    (h : verify P key.key st sigB64 = true) :
    isSigned P key st.text sigB64 = true ↔ unbroken sigB64 = unbroken (trimSpace sigB64) := by
  constructor
  · intro hs
    rw [isSigned] at hs
    cases hd : decodeBase64 sigB64 with
    | none =>
      rw [hd] at hs
      cases hs
    | some sig => exact unbroken_trimSpace (all_isBase64Byte hd)
  intro heq
  have hdecode : decodeBase64 sigB64 = decodeBase64 (trimSpace sigB64) := congrArg base64Decode heq
  rw [isSigned, hdecode]
  exact h

end PiiShield.Rules
