import PiiShield.Rules.CanonicalSize

/-! What a canonical file means to the scanner. It is read as the rule set it was made of is, as
long as the keys that differ for the map are not one field for the scanner. -/

namespace PiiShield.Rules

open Operator

variable {Num : Type} {readFloat : Bytes → Option Num}

variable {i : PolicyField} {m : Text × Json}

/-- What the configuration takes of a field. -/
def PolicyField.shown : (i : PolicyField) → i.Value Num → i.Value Num
  | .sensitiveKeys, s => Slice.shown (α := Bytes) s
  | .sensitiveKeyPatterns, s => Slice.shown (α := Bytes) s
  | .customRegexes, s => Slice.shown (α := Rule) s
  | .safeRegexes, s => Slice.shown (α := Rule) s
  | _, v => v

section Fields

variable {members : List (Text × Json)} {n : Int64}

theorem fieldOf_salt : (policyStruct readFloat).fieldOf (bs "salt") = some .salt := by
  have h : (policyStruct fun _ => some ()).fieldOf (bs "salt") = some .salt := by rfl
  exact h

theorem fieldOf_failPolicy : (policyStruct readFloat).fieldOf (bs "fail_policy") = some .failPolicy := by
  have h : (policyStruct fun _ => some ()).fieldOf (bs "fail_policy") = some .failPolicy := by rfl
  exact h

theorem fieldOf_revision : (policyStruct readFloat).fieldOf revisionKey.bytes = some .revision := by
  have h : (policyStruct fun _ => some ()).fieldOf revisionKey.bytes = some .revision := by rfl
  exact h

theorem named_filter_of_ne {key : Bytes} {j : PolicyField} (hkey : (policyStruct readFloat).fieldOf key = some j)
    (hij : i ≠ j) (ms : List (Text × Json)) :
    (policyStruct readFloat).named i (ms.filter fun m => m.1.bytes != key) = (policyStruct readFloat).named i ms := by
  rw [Struct.named, Struct.named, List.filter_filter]
  grind

theorem named_insert_of_ne (hi : i ≠ .revision) (v : Json) (ms : List (Text × Json)) :
    (policyStruct readFloat).named i (Assoc.insert revisionKey v ms) = (policyStruct readFloat).named i ms := by
  refine Assoc.filter_insert_of_neg (p := fun k => (policyStruct readFloat).fieldOf k.bytes == some i) ?_ v ms
  rw [fieldOf_revision, beq_eq_false_iff_ne]
  exact fun h => hi (Option.some.inj h).symm

theorem named_salt_canonicalMembers : (policyStruct readFloat).named .salt (canonicalMembers members n) =
      ((policyStruct readFloat).named .salt (rawMap members)).filter fun m => m.1.bytes != bs "salt" := by
  rw [canonicalMembers, named_insert_of_ne (i := .salt) (by decide),
    named_filter_of_ne (i := .salt) fieldOf_failPolicy (by decide), Struct.named_filter]

theorem named_failPolicy_canonicalMembers :
    (policyStruct readFloat).named .failPolicy (canonicalMembers members n) =
      ((policyStruct readFloat).named .failPolicy (rawMap members)).filter fun m => m.1.bytes != bs "fail_policy" := by
  rw [canonicalMembers, named_insert_of_ne (i := .failPolicy) (by decide), Struct.named_filter,
    named_filter_of_ne (i := .failPolicy) fieldOf_salt (by decide)]

theorem sorted_canonicalMembers (members : List (Text × Json)) (n : Int64) :
    Assoc.Sorted (canonicalMembers members n) :=
  Assoc.sorted_insert (((Assoc.sorted_ofMembers _).filter _).filter _) _ _

theorem mem_canonicalMembers : m ∈ canonicalMembers members n →
      m = (revisionKey, .str (revisionText n)) ∨ m ∈ rawMap members ∧ m.1 ≠ revisionKey := by
  intro h
  rcases (Assoc.mem_insert (((Assoc.sorted_ofMembers _).filter _).filter _)).mp h with h | ⟨h, hne⟩
  · exact .inl h
  exact .inr ⟨(List.mem_filter.mp (List.mem_filter.mp h).1).1, hne⟩

variable {zero : Num} {r r' : (i : PolicyField) → i.Value Num}

end Fields

theorem depth_canonicalMembers {content rest : Bytes} {members : List (Text × Json)}
    (hread : readValue maxNestingDepth content = some (.obj members, rest)) (n : Int64) :
    (Json.obj (canonicalMembers members n)).depth ≤ maxNestingDepth := by
  have hgeneric : (Json.obj (rawMap members)).depth ≤ 9999 + 1 := by
    rw [rawMap, ← Json.generic_obj]
    exact Json.depth_generic_le _ (depth_of_readValue hread)
  rw [Json.depth_obj_le] at hgeneric
  have hle : (Json.obj (canonicalMembers members n)).depth ≤ 9999 + 1 := by
    rw [Json.depth_obj_le]
    intro m hm
    rcases mem_canonicalMembers hm with rfl | ⟨hm, -⟩
    · exact Nat.zero_le _
    exact hgeneric m hm
  exact hle

theorem readDocument_eq_some {content : Bytes} {v : Json} (h : readDocument content = some v) :
    ∃ rest, readValue maxNestingDepth content = some (v, rest) := by
  obtain ⟨⟨v', rest⟩, hread, h⟩ := Option.bind_eq_some_iff.mp h
  dsimp only at h
  split at h
  · cases h
    exact ⟨rest, hread⟩
  · cases h

variable {P : Platform Num} {S : Sidecar P}

theorem parsePolicyJSON_eq_ok_iff {b revision : Bytes} {config : FileConfig Num} :
    parsePolicyJSON S b = .ok (config, revision) ↔
      ∃ f, P.decodeFile b = some f ∧ policyConfig S f.document = .ok config ∧ f.document.revision = revision := by
  rw [parsePolicyJSON]
  cases P.decodeFile b with
  | none => simp
  | some f => cases h : policyConfig S f.document <;> simp [h, Except.map]

def cardMembers : List (Text × Json) :=
  [(⟨bs "sensitive_keys", by rfl⟩, .arr [.str ⟨bs "card", by rfl⟩])]

theorem readDocument_cardRules : readDocument cardRules = some (.obj cardMembers) := by
  have hrules : cardRules = (Json.obj cardMembers).marshal := by rfl
  have hdepth : (Json.obj cardMembers).depth ≤ maxNestingDepth := by decide
  rw [hrules, readDocument_marshal hdepth]

end PiiShield.Rules
