import PiiShield.LineReader
import PiiShield.Operator.Sample
import PiiShield.Rules.Signing
import Mathlib.Data.Set.Function

/-! What a signature that checked out says: the text that was signed can be read in one way, and
it names the set, the numbers and the file that the operator has before it. -/

namespace PiiShield.Rules

open Operator LineReader

theorem hexDigit_inj : ∀ m < 16, ∀ n < 16, hexDigit m = hexDigit n → m = n := by decide

theorem hexEncode_inj {a b : Bytes} (h : hexEncode a = hexEncode b) : a = b := by
  induction a generalizing b with
  | nil =>
    cases b with
    | nil => rfl
    | cons d b => cases h
  | cons c a ih =>
    cases b with
    | nil => cases h
    | cons d b =>
      simp only [hexEncode, List.flatMap_cons, hexDigits, List.cons_append, List.nil_append, List.cons.injEq] at h
      obtain ⟨hhigh, hlow, hrest⟩ := h
      have hc := c.toNat_lt
      have hd := d.toNat_lt
      have hdiv := hexDigit_inj _ (by omega) _ (by omega) hhigh
      have hmod := hexDigit_inj _ (by omega) _ (by omega) hlow
      have hcd : c = d := UInt8.toNat_inj.mp (by omega)
      rw [hcd, ih hrest]

theorem formatInt_inj {i j : Int64} (h : formatInt i = formatInt j) : i = j := by
  rw [← parseInt_formatInt i, h, parseInt_formatInt]

theorem newline_not_mem_formatInt (i : Int64) : newline ∉ formatInt i := by
  have hdigits (n : Nat) : newline ∉ formatNat n := fun h =>
    absurd (List.all_eq_true.mp (formatNat_spec n).2 _ h) (by decide)
  rw [formatInt]
  split
  · rw [List.mem_cons, not_or]
    exact ⟨by decide, hdigits _⟩
  exact hdigits _

theorem text_eq (s : Statement) : s.text = bs "pii-shield-policy-signature-v1\nset: " ++ (s.set ++ newline ::
    (bs "publication: " ++ (formatInt s.publication ++ newline ::
    (bs "revision: " ++ (formatInt s.revision ++ newline :: (bs "sha256: " ++ (s.sha256 ++ [newline]))))))) := by
  have hheader : bs "pii-shield-policy-signature-v1\nset: " =
      bs "pii-shield-policy-signature-v1" ++ bs "\n" ++ bs "set: " := by rfl
  have hbreak : bs "\n" = [newline] := by decide
  rw [Statement.text, hheader, hbreak]
  simp

theorem text_inj {s t : Statement} (hs : newline ∉ s.set) (ht : newline ∉ t.set) (h : s.text = t.text) : s = t := by
  rw [text_eq, text_eq, List.append_cancel_left_eq] at h
  obtain ⟨hset, h⟩ := (append_cons_inj hs ht).mp h
  rw [List.append_cancel_left_eq] at h
  obtain ⟨hpub, h⟩ := (append_cons_inj (newline_not_mem_formatInt _) (newline_not_mem_formatInt _)).mp h
  rw [List.append_cancel_left_eq] at h
  obtain ⟨hrev, h⟩ := (append_cons_inj (newline_not_mem_formatInt _) (newline_not_mem_formatInt _)).mp h
  rw [List.append_cancel_left_eq, List.append_cancel_right_eq] at h
  cases s
  cases t
  exact congr (congr (congr (congrArg Statement.mk hset) (formatInt_inj hpub)) (formatInt_inj hrev)) h

variable {Num : Type} (P : Platform Num)

/-- A file that checks out was signed by the holder of a listed key, for this set, with the numbers
of the signature file and for this content: the text that was signed can stand for nothing else.
No text verifies under a key that its holder has not signed, and of the contents there are no two
have one digest. -/
theorem check_only_what_was_signed {signed : (key text : Bytes) → Prop} {contents : Set Bytes}
    (unforgeable : ∀ key text sig, P.verify key text sig = true → signed key text)
    (collisionFree : Set.InjOn P.sha256 contents) {keys : List TrustedKey}
    (distinct : ∀ k ∈ keys, ∀ k' ∈ keys, k.id = k'.id → k = k') {sigBody body set : Bytes}
    (hset : newline ∉ set) (hbody : body ∈ contents) {minPublication : Int64} {v : Verified}
    (h : check P sigBody body set keys minPublication = .ok v) :
    (∃ sf, P.decodeSignature sigBody = some sf ∧ v = ⟨sf.publication, sf.keyID⟩ ∧ minPublication ≤ sf.publication ∧
      ∃ key ∈ keys, (∀ k ∈ keys, k.id = sf.keyID ↔ k = key) ∧
        signed key.key (Statement.text ⟨set, sf.publication, sf.revision, hexEncode (P.sha256 body)⟩) ∧
        ∀ set' publication revision, newline ∉ set' → ∀ content ∈ contents,
          (statementFor P set' publication revision content).text =
            Statement.text ⟨set, sf.publication, sf.revision, hexEncode (P.sha256 body)⟩ →
          set' = set ∧ publication = sf.publication ∧ revision = sf.revision ∧ content = body) ∧
    ∀ s t : Statement, newline ∉ s.set → newline ∉ t.set → s.text = t.text →
      s.set = t.set ∧ s.publication = t.publication ∧ s.revision = t.revision ∧ s.sha256 = t.sha256 := by
  obtain ⟨sf, key, sig, hsf, hkey, hid, hverify, hmin, hv⟩ := check_eq_ok h
  rw [← text_statementFor] at hverify
  refine ⟨⟨sf, hsf, hv, hmin, key, hkey, fun k hk => ⟨fun hkid => ?_, fun hk => hk ▸ hid⟩,
    unforgeable _ _ _ hverify, fun set' publication revision hset' content hcontent htext => ?_⟩,
    fun s t hs ht htext => ?_⟩
  · exact distinct k hk key hkey (hkid.trans hid.symm)
  · have heq := text_inj hset' hset htext
    simp only [statementFor, Statement.mk.injEq] at heq
    exact ⟨heq.1, heq.2.1, heq.2.2.1, collisionFree hcontent hbody (hexEncode_inj heq.2.2.2)⟩
  rw [text_inj hs ht htext]
  exact ⟨rfl, rfl, rfl, rfl⟩

def twoKeys : List TrustedKey :=
  [⟨bs "0000000000000000", List.replicate 32 0⟩, ⟨bs "0101010101010101", List.replicate 32 1⟩]

/-- Of two keys and two contents the file is of one. -/
theorem check_only_what_was_signed_sample :
    ∃ sf, (samplePlatform [sampleStatement (bs "org/a") 1 emptyFile]).decodeSignature (sampleSignatureFile 1) =
        some sf ∧ 1 ≤ sf.publication ∧
      ∃ key ∈ twoKeys, (∀ k ∈ twoKeys, k.id = sf.keyID ↔ k = key) ∧
        sampleStatement (bs "org/a") 1 emptyFile =
          Statement.text ⟨bs "org/a", sf.publication, sf.revision, hexEncode (sampleDigest emptyFile)⟩ := by
  let P := samplePlatform [sampleStatement (bs "org/a") 1 emptyFile]
  have hkeys : ∀ k ∈ twoKeys, ∀ k' ∈ twoKeys, k.id = k'.id → k = k' := by decide +kernel
  have hcheck : check P (sampleSignatureFile 1) emptyFile (bs "org/a") twoKeys 1 = .ok ⟨1, bs "0000000000000000"⟩ := by
    decide +kernel
  have hverify : ∀ key text sig : Bytes, P.verify key text sig = true →
      sampleStatement (bs "org/a") 1 emptyFile = text := by
    intro key text sig h
    exact (List.mem_singleton.mp (List.contains_iff_mem.mp h)).symm
  have hdigests : Set.InjOn P.sha256 {emptyFile, spacedFile} := by
    have hne : sampleDigest emptyFile ≠ sampleDigest spacedFile := by decide
    exact Set.injOn_pair.mpr fun h => absurd h hne
  obtain ⟨sf, hsf, -, hmin, key, hkey, hid, hsigned, -⟩ := (check_only_what_was_signed P hverify hdigests hkeys
    (by decide) (Set.mem_insert _ _) hcheck).1
  exact ⟨sf, hsf, hmin, key, hkey, hid, hsigned⟩

end PiiShield.Rules
