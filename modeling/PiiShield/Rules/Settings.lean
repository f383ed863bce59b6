import PiiShield.Rules.CanonicalMeaning

/-! Which settings of the pod a canonical file carries. The server leaves out a key spelled
exactly, and the sidecar and the operator read any spelling of it. -/

namespace PiiShield.Rules

open Operator

theorem eq_nil_of_foldlM_decodeString {l : List (Text × Json)} {y : Bytes}
    (h : l.foldlM (fun x m => decodeString x m.2) [] = some y) :
    y = [] ↔ ∀ before m behind, l = before ++ m :: behind → isUnset m.2 = false →
      ∃ m' ∈ behind, ∃ s, m'.2 = .str s ∧ s.bytes = [] := by
  induction l using List.reverseRecOn generalizing y with
  | nil =>
    cases h
    simp
  | append_singleton l m ih =>
    rw [List.foldlM_append] at h
    obtain ⟨x, hx, hm⟩ := Option.bind_eq_some_iff.mp h
    have hlast : decodeString x m.2 = some y := by simpa using hm
    have hsplit (before behind : List (Text × Json)) (m' : Text × Json) :
        l ++ [m] = before ++ m' :: behind ↔
          (behind = [] ∧ before = l ∧ m' = m) ∨ ∃ t, behind = t ++ [m] ∧ l = before ++ m' :: t := by
      constructor
      · intro heq
        rcases List.eq_nil_or_concat behind with rfl | ⟨t, z, rfl⟩
        · obtain ⟨rfl, hz⟩ := List.append_inj' heq rfl
          exact .inl ⟨rfl, rfl, (List.singleton_inj.mp hz).symm⟩
        grind [List.append_assoc, List.append_inj']
      rintro (⟨rfl, rfl, rfl⟩ | ⟨t, rfl, rfl⟩)
      · rfl
      simp
    cases hv : m.2 with
    | str s =>
      rw [hv] at hlast
      cases hlast
      grind [isUnset]
    | null =>
      rw [hv] at hlast
      cases hlast
      rw [ih hx]
      constructor
      · intro hall before m' behind heq hset
        rcases (hsplit before behind m').mp heq with ⟨rfl, rfl, rfl⟩ | ⟨t, rfl, rfl⟩
        · rw [hv] at hset
          cases hset
        obtain ⟨m'', hm'', hempty⟩ := hall before m' t rfl hset
        exact ⟨m'', List.mem_append_left _ hm'', hempty⟩
      intro hall before m' t heq hset
      obtain ⟨m'', hm'', s, hs, hempty⟩ := hall before m' (t ++ [m]) (by simp [heq]) hset
      grind
    | bool b | num x | arr items | obj ms => rw [hv] at hlast; cases hlast

variable {Num : Type} {readFloat : Bytes → Option Num}

/-- The members of a rule set's map that spell a field in another way. -/
def respelled (readFloat : Bytes → Option Num) (i : PolicyField) (members : List (Text × Json)) :
    List (Text × Json) :=
  ((policyStruct readFloat).named i (rawMap members)).filter fun m => m.1.bytes != i.name

/-- Every other spelling that has a value has one with an empty value behind it. -/
def Overwritten (ms : List (Text × Json)) : Prop :=
  ∀ m ∈ ms, isUnset m.2 = false → ∃ m' ∈ ms, m.1 < m'.1 ∧ ∃ s, m'.2 = .str s ∧ s.bytes = []

theorem overwritten_iff {ms : List (Text × Json)} (hs : Assoc.Sorted ms) :
    Overwritten ms ↔ ∀ before m behind, ms = before ++ m :: behind → isUnset m.2 = false →
      ∃ m' ∈ behind, ∃ s, m'.2 = .str s ∧ s.bytes = [] := by
  constructor
  · rintro h before m behind rfl hset
    obtain ⟨m', hm', hlt, hempty⟩ := h m (by simp) hset
    have hsorted := List.pairwise_append.mp hs
    grind [List.mem_cons_self]
  intro h m hm hset
  obtain ⟨before, behind, rfl⟩ := List.append_of_mem hm
  obtain ⟨m', hm', hempty⟩ := h before m behind rfl hset
  have hlt := (List.pairwise_cons.mp (List.pairwise_append.mp hs).2.1).1 m' hm'
  exact ⟨m', by simp [hm'], hlt, hempty⟩

variable {P : Platform Num} {S : Sidecar P}

/-- A canonical file is read without a salt and a fail policy exactly if every other spelling of
their keys that has a value has one with an empty value behind it. -/
theorem served_unset_iff (hfile : P.decodeFile = unmarshalPolicy readFloat P.zero) {content rest : Bytes}
    {members : List (Text × Json)} (hvalue : readValue maxNestingDepth content = some (.obj members, rest))
    {n : Int64} {file : CanonicalFile Num} (hcanonical : canonical S content n = .ok file) :
    ∃ served, P.decodeFile file.content = some served ∧
      (served.salt = [] ∧ served.failPolicy = [] ↔
        Overwritten (respelled readFloat .salt members) ∧ Overwritten (respelled readFloat .failPolicy members)) := by
  obtain ⟨-, members', rest', hvalue', -, -, hcontent, -, revision, hparse⟩ := canonical_eq_ok_iff.mp hcanonical
  cases hvalue.symm.trans hvalue'
  obtain ⟨f, hf, -⟩ := parsePolicyJSON_eq_ok_iff.mp hparse
  refine ⟨f, hf, ?_⟩
  rw [hfile, unmarshalPolicy, hcontent, readDocument_marshal (depth_canonicalMembers hvalue n),
    Option.bind_some] at hf
  obtain ⟨r, hr, rfl⟩ := Option.map_eq_some_iff.mp hf
  have hread := (Struct.foldlM_set_iff _).mp hr
  have hsalt := hread .salt
  have hfail := hread .failPolicy
  rw [named_salt_canonicalMembers] at hsalt
  rw [named_failPolicy_canonicalMembers] at hfail
  have hsorted (i : PolicyField) : Assoc.Sorted (respelled readFloat i members) :=
    ((Assoc.sorted_ofMembers _).filter _).filter _
  rw [overwritten_iff (hsorted .salt), overwritten_iff (hsorted .failPolicy)]
  exact and_congr (eq_nil_of_foldlM_decodeString hsalt) (eq_nil_of_foldlM_decodeString hfail)

theorem served_unset_card :
    ∃ file served, canonical (sampleSidecar jsonPlatform) cardRules 1 = .ok file ∧
      jsonPlatform.decodeFile file.content = some served ∧ served.salt = [] ∧ served.failPolicy = [] := by
  have hok : (canonical (sampleSidecar jsonPlatform) cardRules 1).isOk = true := by decide +kernel
  obtain ⟨file, hcanonical⟩ := isOk_iff.mp hok
  obtain ⟨rest, hvalue⟩ := readDocument_eq_some readDocument_cardRules
  have hnone (i : PolicyField) (hi : i = .salt ∨ i = .failPolicy) :
      respelled (fun _ => some ()) i cardMembers = [] := by
    rcases hi with rfl | rfl <;> decide +kernel
  obtain ⟨served, hserved, hiff⟩ := served_unset_iff (S := sampleSidecar jsonPlatform) rfl hvalue hcanonical
  refine ⟨file, served, hcanonical, hserved, hiff.mpr ⟨?_, ?_⟩⟩
  · rw [hnone .salt (.inl rfl)]
    nofun
  rw [hnone .failPolicy (.inr rfl)]
  nofun

/-- A salt under a capital letter is served. -/
theorem served_salt :
    ((canonical (sampleSidecar jsonPlatform) (bs "\x7b\"Salt\":\"x\"\x7d") 1).toOption.bind fun file =>
      (jsonPlatform.decodeFile file.content).map (·.salt)) = some (bs "x") := by
  decide +kernel

end PiiShield.Rules
