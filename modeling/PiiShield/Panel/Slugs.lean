import PiiShield.CheckedReads
import PiiShield.LineReader
import PiiShield.Operator.PolicyFile
import PiiShield.Panel.Reached

/-! The slug of an organization that signs up, made from the local part of an address. -/

namespace PiiShield.Panel

open Transactions

variable {b base : Bytes}

def slugStep (b : Bytes) (r : Nat) : Bytes :=
  if 0x61 ≤ r && r ≤ 0x7A || 0x30 ≤ r && r ≤ 0x39 then b ++ [.ofNat r]
  else if !b.isEmpty && !hasSuffix b (bs "-") then b ++ [chr '-']
  else b

def slugFromEmail (email : Bytes) : Option Bytes := do
  let localPart ← sliceBetween email 0 (goIndex (indexByte email (chr '@')))
  let slug := trimRight ((runes localPart).foldl slugStep []) (bs "-")
  let slug ← if 40 < slug.length then (sliceBetween slug 0 40).map (trimRight · (bs "-")) else some slug
  return if slug.isEmpty then bs "org" else slug

/-- The slug of a later attempt, with the two bytes that were drawn. -/
def suffixedSlug (base : Bytes) (draw : UInt8 × UInt8) : Option Bytes := do
  let head ← sliceBetween base 0 (min base.length 58 : Nat)
  return head ++ bs "-" ++ Operator.hexEncode [draw.1, draw.2]

def suffixedSlugs (base : Bytes) : List (UInt8 × UInt8) → Option (List Bytes)
  | [] => some []
  | draw :: draws => do
    let slug ← suffixedSlug base draw
    return slug :: (← suffixedSlugs base draws)

/-- The source's `Signup` with what it draws for its later attempts. -/
def signupWith {Conf : Type} (K : Packages Conf) (email : Bytes) (t : Instant) (draws : List (UInt8 × UInt8)) :
    Option (Sql (Except StoreError (UserRow × OrgRow))) :=
  match normalizeEmail K.services email with
  | .error e => some (pure (.error e))
  | .ok email => do
    let base ← slugFromEmail email
    return signup K email t (base :: (← suffixedSlugs base draws))

structure SlugStart (b : Bytes) : Prop where
  bytes : ∀ c ∈ b, (isSlugByte c || c == chr '-') = true
  first : ∀ c, b.head? = some c → isSlugByte c = true

theorem SlugStart.of_isPrefix {a : Bytes} (h : SlugStart b) (hab : a <+: b) : SlugStart a where
  bytes c hc := h.bytes c (hab.subset hc)
  first c hc := by
    obtain ⟨rest, rfl⟩ := hab
    refine h.first c ?_
    rw [List.head?_append, hc]
    rfl

theorem SlugStart.append {a : Bytes} (h : SlugStart a) (hne : a ≠ [])
    (hb : ∀ c ∈ b, (isSlugByte c || c == chr '-') = true) : SlugStart (a ++ b) where
  bytes c hc := (List.mem_append.mp hc).elim (h.bytes c) (hb c)
  first c hc := by
    rw [List.head?_append_of_ne_nil a hne] at hc
    exact h.first c hc

theorem slugRe_iff (b : Bytes) : slugRe b = true ↔ b ≠ [] ∧ b.length ≤ 63 ∧ SlugStart b := by
  cases b with
  | nil => exact iff_of_false Bool.false_ne_true fun h => h.1 rfl
  | cons c t =>
    rw [slugRe, Bool.and_eq_true, Bool.and_eq_true, decide_eq_true_eq, List.all_eq_true, List.length_cons]
    constructor
    · rintro ⟨⟨hc, hlen⟩, ht⟩
      refine ⟨List.cons_ne_nil c t, by omega, ⟨fun x hx => ?_, fun x hx => ?_⟩⟩
      · grind
      · cases hx
        exact hc
    rintro ⟨-, hlen, hstart⟩
    exact ⟨⟨hstart.first c rfl, by omega⟩, fun x hx => hstart.bytes x (List.mem_cons_of_mem c hx)⟩

theorem slugStart_slugStep (h : SlugStart b) (r : Nat) : SlugStart (slugStep b r) := by
  rw [slugStep]
  split
  · next hr =>
    have hall : ∀ n < 0x7B, (0x61 ≤ n && n ≤ 0x7A || 0x30 ≤ n && n ≤ 0x39) = true → isSlugByte (.ofNat n) = true := by
      decide
    have hlt : r < 0x7B := by grind
    have hbyte := hall r hlt hr
    by_cases hb : b = []
    · subst hb
      refine ⟨fun c hc => ?_, fun c hc => ?_⟩
      · rw [List.mem_singleton.mp hc, hbyte, Bool.true_or]
      · cases hc
        exact hbyte
    refine h.append hb fun c hc => ?_
    simp [List.mem_singleton.mp hc, hbyte]
  split
  · next hb =>
    have hne : b ≠ [] := by
      rintro rfl
      cases hb
    refine h.append hne fun c hc => ?_
    rw [List.mem_singleton.mp hc]
    rfl
  exact h

theorem slugStart_foldl (rs : List Nat) (h : SlugStart b) : SlugStart (rs.foldl slugStep b) := by
  induction rs generalizing b with
  | nil => exact h
  | cons r rs ih => exact ih (slugStart_slugStep h r)

theorem getLast?_trimRight (b : Bytes) : (trimRight b (bs "-")).getLast? ≠ some (chr '-') := by
  intro hlast
  have hne : b.rdropWhile (bs "-").contains ≠ [] := by
    intro hnil
    rw [trimRight, hnil] at hlast
    cases hlast
  have hnot := List.rdropWhile_last_not (bs "-").contains b hne
  rw [trimRight, List.getLast?_eq_some_getLast hne] at hlast
  rw [Option.some.inj hlast] at hnot
  exact hnot rfl

/-- The base of the slugs: a slug of at most forty bytes that does not end in a dash. -/
structure SlugBase (b : Bytes) : Prop where
  start : SlugStart b
  ne_nil : b ≠ []
  length : b.length ≤ 40
  last : b.getLast? ≠ some (chr '-')

theorem trimRight_isPrefix (b : Bytes) : trimRight b (bs "-") <+: b := List.rdropWhile_prefix _ _

theorem slugFromEmail_eq {part domain : Bytes} (h : chr '@' ∉ part) :
    slugFromEmail (part ++ chr '@' :: domain) =
      let slug := trimRight ((runes part).foldl slugStep []) (bs "-")
      let slug := if 40 < slug.length then trimRight (slug.take 40) (bs "-") else slug
      some (if slug.isEmpty then bs "org" else slug) := by
  have hindex : indexByte (part ++ chr '@' :: domain) (chr '@') = some part.length := LineReader.idxOf?_line h
  have hpart : sliceBetween (part ++ chr '@' :: domain) 0 part.length = some part := by
    have hslice := sliceBetween_eq (s := part ++ chr '@' :: domain) (Nat.zero_le part.length) (by simp)
    rwa [slice, List.take_left, List.drop_zero] at hslice
  have hcut (slug : Bytes) (hlong : 40 < slug.length) : sliceBetween slug 0 40 = some (slug.take 40) :=
    sliceBetween_eq (i := 0) (j := 40) (Nat.zero_le 40) (by omega)
  grind [slugFromEmail, goIndex, Option.bind_eq_bind, trimRight, runes, slugStep]

theorem slugFromEmail_spec {email : Bytes} (h : chr '@' ∈ email) :
    ∃ base, slugFromEmail email = some base ∧ SlugBase base := by
  obtain ⟨part, domain, rfl, hpart⟩ := List.eq_append_cons_of_mem h
  have hstart : SlugStart (trimRight ((runes part).foldl slugStep []) (bs "-")) :=
    (slugStart_foldl (runes part) ⟨by simp, by simp⟩).of_isPrefix (trimRight_isPrefix _)
  have hlast := getLast?_trimRight ((runes part).foldl slugStep [])
  rw [slugFromEmail_eq hpart]
  generalize trimRight ((runes part).foldl slugStep []) (bs "-") = slug at hstart hlast
  have hcut : SlugStart (if 40 < slug.length then trimRight (slug.take 40) (bs "-") else slug) ∧
      (if 40 < slug.length then trimRight (slug.take 40) (bs "-") else slug).length ≤ 40 ∧
      (if 40 < slug.length then trimRight (slug.take 40) (bs "-") else slug).getLast? ≠ some (chr '-') := by
    split
    · have hcut := trimRight_isPrefix (slug.take 40)
      refine ⟨hstart.of_isPrefix (hcut.trans (List.take_prefix 40 slug)), ?_, getLast?_trimRight _⟩
      have hle := hcut.length_le
      rw [List.length_take] at hle
      omega
    · next hshort => exact ⟨hstart, Nat.not_lt.mp hshort, hlast⟩
  refine ⟨_, rfl, ?_⟩
  generalize (if 40 < slug.length then trimRight (slug.take 40) (bs "-") else slug) = cut at hcut
  by_cases hempty : cut = []
  · rw [hempty]
    exact ⟨((slugRe_iff _).mp rfl).2.2, by decide, by decide, by decide⟩
  rw [if_neg (by simpa using hempty)]
  exact ⟨hcut.1, hempty, hcut.2.1, hcut.2.2⟩

theorem SlugBase.slugRe (h : SlugBase base) : slugRe base = true :=
  (slugRe_iff base).mpr ⟨h.ne_nil, by have := h.length; omega, h.start⟩

theorem isSlugByte_of_mem_hexEncode {c : UInt8} (h : c ∈ Operator.hexEncode b) : isSlugByte c = true := by
  obtain ⟨x, -, hx⟩ := List.mem_flatMap.mp h
  have hall : ∀ x : UInt8, (hexDigits x).all isSlugByte = true := by
    refine forall_byte ?_
    decide +kernel
  exact List.all_eq_true.mp (hall x) c hx

theorem suffixedSlug_spec (h : SlugBase base) (draw : UInt8 × UInt8) :
    ∃ slug, suffixedSlug base draw = some slug ∧ slugRe slug = true := by
  have hhead : sliceBetween base 0 (min base.length 58 : Nat) = some base := by
    have hmin : min base.length 58 = base.length := Nat.min_eq_left (by have := h.length; omega)
    have hslice := sliceBetween_eq (s := base) (Nat.zero_le base.length) (Nat.le_refl _)
    rw [slice, List.take_length, List.drop_zero] at hslice
    rw [hmin]
    exact hslice
  refine ⟨base ++ bs "-" ++ Operator.hexEncode [draw.1, draw.2], by rw [suffixedSlug, hhead]; rfl, ?_⟩
  rw [slugRe_iff, List.append_assoc]
  refine ⟨by simp [h.ne_nil], ?_, h.start.append h.ne_nil fun c hc => ?_⟩
  · have hsuffix : (bs "-" ++ Operator.hexEncode [draw.1, draw.2]).length = 5 := rfl
    have := h.length
    rw [List.length_append, hsuffix]
    omega
  rcases List.mem_append.mp hc with hc | hc
  · rw [List.mem_singleton.mp hc]
    rfl
  simp [isSlugByte_of_mem_hexEncode hc]

theorem suffixedSlugs_spec (h : SlugBase base) (draws : List (UInt8 × UInt8)) :
    ∃ slugs, suffixedSlugs base draws = some slugs ∧ ∀ slug ∈ slugs, slugRe slug = true := by
  induction draws with
  | nil => exact ⟨[], rfl, by simp⟩
  | cons draw draws ih =>
    obtain ⟨slugs, hslugs, hall⟩ := ih
    obtain ⟨slug, hslug, hre⟩ := suffixedSlug_spec h draw
    simp_all [suffixedSlugs]

theorem mem_of_normalizeEmail {S : Services} {email normal : Bytes} (h : normalizeEmail S email = .ok normal) :
    chr '@' ∈ normal := by
  rw [normalizeEmail] at h
  grind

section Signup

variable {Conf : Type} {K : Packages Conf}

def SlugsSince (before d : Tables) : Prop := ∀ org ∈ d.orgs, org ∈ before.orgs ∨ checkSlug org.slug = .ok ()

theorem keeps_signup_slugs {slugs : List Bytes} (hslugs : ∀ slug ∈ slugs, slugRe slug = true) (before : Tables)
    (email : Bytes) (t : Instant) : (signup K email t slugs).Keeps (SlugsSince before) := by
  refine keeps_signup fun slug hmem => keeps_signupTx ?_ ?_
  · intro d i d' h hinsert org horg
    obtain ⟨-, -, rfl⟩ := insertRow_eq_ok hinsert
    rcases List.mem_append.mp horg with horg | horg
    · exact h org horg
    rw [List.mem_singleton.mp horg]
    exact .inr (if_pos (hslugs slug hmem))
  intro orgID d i d' h hinsert
  obtain ⟨-, -, rfl⟩ := insertRow_eq_ok hinsert
  exact h

/-- An address that is accepted gives slugs that pass the check in every attempt, whatever is
drawn, and the organization that is created has one of them. -/
theorem signup_slugs_valid {email normal : Bytes} (h : normalizeEmail K.services email = .ok normal) :
    (∃ base, slugFromEmail normal = some base ∧ slugRe base = true ∧ base.getLast? ≠ some (chr '-') ∧
      ∀ draw, ∃ slug, suffixedSlug base draw = some slug ∧ slugRe slug = true) ∧
    ∀ t draws, ∃ c, signupWith K email t draws = some c ∧ ∀ d, SlugsSince d (c.eval d).2 := by
  obtain ⟨base, hbase, hspec⟩ := slugFromEmail_spec (mem_of_normalizeEmail h)
  refine ⟨⟨base, hbase, hspec.slugRe, hspec.last, suffixedSlug_spec hspec⟩, fun t draws => ?_⟩
  obtain ⟨slugs, hslugs, hall⟩ := suffixedSlugs_spec hspec draws
  refine ⟨signup K normal t (base :: slugs), ?_, fun d => ?_⟩
  · rw [signupWith, h]
    simp only [hbase, hslugs, Option.bind_eq_bind, Option.bind_some]
    rfl
  exact keeps_signup_slugs (List.forall_mem_cons.mpr ⟨hspec.slugRe, hall⟩) d normal t d fun org horg => .inl horg

end Signup

theorem signup_slugs_valid_sample :
    slugFromEmail (bs "ann+logs@example.com") = some (bs "ann-logs") ∧
      (∃ base, slugFromEmail (bs "ann+logs@example.com") = some base ∧ slugRe base = true ∧
        base.getLast? ≠ some (chr '-') ∧ ∀ draw, ∃ slug, suffixedSlug base draw = some slug ∧ slugRe slug = true) ∧
      ∀ t draws, ∃ c, signupWith plainPackages (bs " Ann+Logs@Example.com") t draws = some c ∧
        ∀ d, SlugsSince d (c.eval d).2 := by
  have hnormal : normalizeEmail plainPackages.services (bs " Ann+Logs@Example.com") =
      .ok (bs "ann+logs@example.com") := by decide +kernel
  exact ⟨by decide +kernel, signup_slugs_valid hnormal⟩

end PiiShield.Panel
