import PiiShield.JsonValues
import PiiShield.Rules.CanonicalMeaning

/-! Canonical files are canonical: what is submitted counts only as the value it says, and a
canonical file submitted again comes back as it is. -/

namespace PiiShield.Rules

open Operator

/-- A text that the decoder reads as one value, with nothing more behind it. -/
def Decodes (content : Bytes) (v : Json) : Prop :=
  ∃ rest, readValue maxNestingDepth content = some (v, rest) ∧ hasMore rest = false

theorem decodes_marshal {v : Json} (hdepth : v.depth ≤ maxNestingDepth) : Decodes v.marshal v :=
  ⟨[], readValue_marshal_nil hdepth, rfl⟩

section Members

variable {members : List (Text × Json)} {n : Int64}

theorem generic_of_mem_rawMap {m : Text × Json} (h : m ∈ rawMap members) : m.2.generic = m.2 := by
  obtain ⟨x, -, rfl⟩ := List.mem_map.mp (Assoc.mem_of_mem_ofMembers h)
  exact x.2.generic_generic

theorem rawMap_canonicalMembers (members : List (Text × Json)) (n : Int64) :
    rawMap (canonicalMembers members n) = canonicalMembers members n := by
  have hvalues : ∀ m ∈ canonicalMembers members n, (m.1, m.2.generic) = m := by
    intro m hm
    rcases mem_canonicalMembers hm with rfl | ⟨hm, -⟩
    · rfl
    rw [generic_of_mem_rawMap hm]
  simp [rawMap, List.map_congr_left hvalues,
    Assoc.ofMembers_of_sorted (sorted_canonicalMembers members n)]

theorem not_setting_of_mem {m : Text × Json} (h : m ∈ canonicalMembers members n) :
    m.1.bytes ≠ bs "salt" ∧ m.1.bytes ≠ bs "fail_policy" := by
  rcases (Assoc.mem_insert (((Assoc.sorted_ofMembers _).filter _).filter _)).mp h with rfl | ⟨h, -⟩
  · have hrevision : revisionKey.bytes ≠ bs "salt" ∧ revisionKey.bytes ≠ bs "fail_policy" := by decide
    exact hrevision
  simp_all

theorem noSettings_canonicalMembers : NoSettings (canonicalMembers members n) := by
  intro m hm hkey
  rw [rawMap_canonicalMembers] at hm
  exact absurd hkey (not_or.mpr (not_setting_of_mem hm))

theorem canonicalMembers_canonicalMembers (members : List (Text × Json)) (n : Int64) :
    canonicalMembers (canonicalMembers members n) n = canonicalMembers members n := by
  have hsalt : (canonicalMembers members n).filter (fun m => m.1.bytes != bs "salt") = canonicalMembers members n :=
    List.filter_eq_self.mpr fun m hm => bne_iff_ne.mpr (not_setting_of_mem hm).1
  have hfail : (canonicalMembers members n).filter (fun m => m.1.bytes != bs "fail_policy") =
      canonicalMembers members n :=
    List.filter_eq_self.mpr fun m hm => bne_iff_ne.mpr (not_setting_of_mem hm).2
  have hrevision : (revisionKey, .str (revisionText n)) ∈ canonicalMembers members n :=
    (Assoc.mem_insert (((Assoc.sorted_ofMembers _).filter _).filter _)).mpr (.inl rfl)
  rw [canonicalMembers, rawMap_canonicalMembers, hsalt, hfail,
    Assoc.insert_of_mem (sorted_canonicalMembers members n) hrevision]

end Members

variable {Num : Type} {P : Platform Num} (S : Sidecar P)

def canonicalOf (v : Json) (n : Int64) : Except CanonicalProblem (CanonicalFile Num) :=
  match v.generic with
  | .obj raw => writeCanonical S raw n
  | .null => .error .notObject
  | _ => .error .invalidJSON

theorem canonical_of_decodes {content : Bytes} {v : Json} (h : Decodes content v) (hlen : content.length ≤ maxBytes)
    (n : Int64) : canonical S content n = canonicalOf S v n := by
  obtain ⟨rest, hread, hmore⟩ := h
  rw [canonical, if_neg (Nat.not_lt.mpr hlen), decodeMap, hread, canonicalOf]
  cases v with
  | obj members => simp [hmore, Json.generic_obj, rawMap]
  | null => simp [hmore, Json.generic, Json.fold]
  | bool b | num m | str s => simp [Json.generic, Json.fold]
  | arr items => simp [Json.generic_arr]

/-- Whoever submits the same rules gets the same answer, and the file that is served is its own
canonical form. -/
theorem canonical_is_canonical (n : Int64) :
    (∀ content content' v v', Decodes content v → Decodes content' v' → v.Same v' →
      content.length ≤ maxBytes → content'.length ≤ maxBytes → canonical S content n = canonical S content' n) ∧
    ∀ content file, canonical S content n = .ok file → file.content.length ≤ maxBytes →
      canonical S file.content n = .ok file := by
  constructor
  · intro content content' v v' h h' hsame hlen hlen'
    rw [canonical_of_decodes S h hlen, canonical_of_decodes S h' hlen', canonicalOf, canonicalOf, hsame.generic_eq]
  intro content file h hlen
  obtain ⟨-, members, rest, hread, hmore, -, hcontent, htag, hparse⟩ := canonical_eq_ok_iff.mp h
  have hread' : readValue maxNestingDepth file.content = some (.obj (canonicalMembers members n), []) := by
    rw [hcontent]
    exact readValue_marshal_nil (depth_canonicalMembers hread n)
  refine canonical_eq_ok_iff.mpr ⟨hlen, _, _, hread', rfl, noSettings_canonicalMembers, ?_, htag, hparse⟩
  rw [canonicalMembers_canonicalMembers]
  exact hcontent

theorem canonical_of_swapped_members :
    ∃ file, canonical (sampleSidecar jsonPlatform)
        (Json.obj ((revisionKey, .str (revisionText 7)) :: cardMembers)).marshal 1 = .ok file ∧
      canonical (sampleSidecar jsonPlatform)
        (Json.obj (cardMembers ++ [(revisionKey, .str (revisionText 7))])).marshal 1 = .ok file := by
  have hok : (canonical (sampleSidecar jsonPlatform)
      (Json.obj ((revisionKey, .str (revisionText 7)) :: cardMembers)).marshal 1).isOk = true := by decide +kernel
  obtain ⟨file, hfile⟩ := isOk_iff.mp hok
  have hsame : (Json.obj ((revisionKey, .str (revisionText 7)) :: cardMembers)).Same
      (.obj (cardMembers ++ [(revisionKey, .str (revisionText 7))])) := by
    refine .obj (by decide +kernel) rfl (.cons (.str _) (.cons (.arr (.cons (.str _) .nil)) .nil)) ?_
    exact (List.perm_append_comm : ([_] ++ cardMembers).Perm _)
  refine ⟨file, hfile, ((canonical_is_canonical _ 1).1 _ _ _ _ (decodes_marshal ?_) (decodes_marshal ?_) hsame
    ?_ ?_).symm.trans hfile⟩ <;> decide +kernel

end PiiShield.Rules
