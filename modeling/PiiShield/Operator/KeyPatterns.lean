import PiiShield.Operator.Expressions

/-! The combined expression of the sensitive key patterns against the patterns one by one. All of them
stand in one group, so that the flags one sets hold for those behind it. -/

namespace PiiShield.Operator

open Regex

section Flags

variable {T : Tables}

def flagsLeft (T : Tables) (f : Flags) (p : Bytes) : Flags := ((lex T p).bind (parseFlags T f)).elim f Prod.snd

/-- Under the flags that the patterns before it leave, every pattern reads as it does under `(?i)`. -/
def ReadAlike (T : Tables) : Flags → List Bytes → Prop
  | _, [] => True
  | f, p :: ps => parseWith T f p = parseWith T .fold p ∧ ReadAlike T (flagsLeft T f p) ps

theorem inTurn_cons (f : Flags) (p : Bytes) (ps : List Bytes) :
    inTurn T f (p :: ps) = (parseWith T f p).toList ++ inTurn T (flagsLeft T f p) ps := by
  have hparse : parseWith T f p = ((lex T p).bind (parseFlags T f)).map Prod.fst := by
    rw [parseWith, Option.map_bind]
    rfl
  rw [inTurn, hparse, flagsLeft]
  cases (lex T p).bind (parseFlags T f) <;> rfl

theorem ReadAlike.mem_inTurn {f : Flags} {ps : List Bytes} (h : ReadAlike T f ps) (e : Expr) :
    e ∈ inTurn T f ps ↔ ∃ p ∈ ps, e ∈ inTurn T .fold [p] := by
  induction ps generalizing f with
  | nil => simp [inTurn]
  | cons p ps ih =>
    have hown : ∀ q, inTurn T .fold [q] = (parseWith T .fold q).toList := by
      intro q
      rw [inTurn_cons, inTurn, List.append_nil]
    rw [inTurn_cons, h.1, List.mem_append, ih h.2]
    simp [hown]

end Flags

variable {Num : Type} {P : Platform Num} {S : Sidecar P} {T : Tables}

/-- A pattern on its own, as `compileSensitiveKeyPatterns` would take it. -/
def ownPattern (p : Bytes) : Bytes := bs "(?i)(" ++ p ++ bs ")"

theorem parse_of_compiles (hlaw : S.Matches T) {p : Bytes} (hp : P.compiles p = true) :
    ∃ e, Regex.parse T p = some e := by
  rw [← S.compile_isSome] at hp
  obtain ⟨r, hr⟩ := Option.isSome_iff_exists.mp hp
  obtain ⟨e, he, -⟩ := hlaw p r hr
  exact ⟨e, he⟩

theorem joined_matches (hlaw : S.Matches T) {patterns : List Bytes}
    (hall : ∀ p ∈ cleanedPatterns patterns, P.compiles p = true)
    (hclosed : ∀ p ∈ cleanedPatterns patterns, Closed T p) {re : Option Regexp}
    (hre : compileSensitiveKeyPatterns S patterns = some re) (key : Bytes) :
    re.any (·.matchString key) = true ↔ ∃ e ∈ inTurn T .fold (cleanedPatterns patterns), e.matchString key = true := by
  rw [compileSensitiveKeyPatterns] at hre
  split at hre
  · next hempty =>
    cases hre
    rw [List.isEmpty_iff.mp hempty]
    simp [inTurn]
  · next hne =>
    obtain ⟨r, hr, rfl⟩ := Option.map_eq_some_iff.mp hre
    obtain ⟨e, he, hmatch⟩ := hlaw _ r hr
    rw [Option.any_some, hmatch]
    exact parse_inTurn (fun p hp => parse_of_compiles hlaw (hall p hp)) hclosed (by simpa using hne) he key

theorem own_matches (hlaw : S.Matches T) {p : Bytes} (hp : P.compiles p = true)
    (hown : P.compiles (ownPattern p) = true) (hclosed : Closed T p) (key : Bytes) :
    (∃ r, S.compile (ownPattern p) = some r ∧ r.matchString key = true) ↔
      ∃ e ∈ inTurn T .fold [p], e.matchString key = true := by
  rw [← S.compile_isSome] at hown
  obtain ⟨r, hr⟩ := Option.isSome_iff_exists.mp hown
  obtain ⟨e, he, hmatch⟩ := hlaw _ r hr
  have hturn : e.matchString key = true ↔ ∃ e ∈ inTurn T .fold [p], e.matchString key = true := by
    refine parse_inTurn (fun q hq => ?_) (fun q hq => ?_) (by simp) ?_ key
    · exact List.mem_singleton.mp hq ▸ parse_of_compiles hlaw hp
    · exact List.mem_singleton.mp hq ▸ hclosed
    rw [List.intercalate_singleton]
    exact he
  rw [← hturn, hr]
  simp [hmatch]

/-- For patterns that do not end inside a quote and leave flags under which those behind them read as
they would on their own, the combined expression decides as the patterns do one by one. -/
theorem sensitive_key_patterns_agree (hlaw : S.Matches T) {patterns : List Bytes}
    (hall : ∀ p ∈ cleanedPatterns patterns, P.compiles p = true ∧ P.compiles (ownPattern p) = true)
    (hclosed : ∀ p ∈ cleanedPatterns patterns, Closed T p) (hflags : ReadAlike T .fold (cleanedPatterns patterns))
    {re : Option Regexp} (hre : compileSensitiveKeyPatterns S patterns = some re) (key : Bytes) :
    re.any (·.matchString key) = true ↔
      ∃ p ∈ cleanedPatterns patterns, ∃ r, S.compile (ownPattern p) = some r ∧ r.matchString key = true := by
  rw [joined_matches hlaw (fun p hp => (hall p hp).1) hclosed hre key]
  constructor
  · rintro ⟨e, he, hkey⟩
    obtain ⟨p, hp, he⟩ := (hflags.mem_inTurn e).mp he
    exact ⟨p, hp, (own_matches hlaw (hall p hp).1 (hall p hp).2 (hclosed p hp) key).mpr ⟨e, he, hkey⟩⟩
  rintro ⟨p, hp, hown⟩
  obtain ⟨e, he, hkey⟩ := (own_matches hlaw (hall p hp).1 (hall p hp).2 (hclosed p hp) key).mp hown
  exact ⟨e, (hflags.mem_inTurn e).mpr ⟨p, hp, he⟩, hkey⟩

/-- The first pattern leaves a flag that the second one does not read. -/
theorem two_key_patterns :
    ∃ re, compileSensitiveKeyPatterns (regexSidecar (samplePlatform [])) [bs " (?s)abc ", bs "", bs "DEF"] = some re ∧
      (re.any (·.matchString (bs "xdef")) = true ↔
        ∃ p ∈ cleanedPatterns [bs " (?s)abc ", bs "", bs "DEF"],
          ∃ r, (regexSidecar (samplePlatform [])).compile (ownPattern p) = some r ∧
            r.matchString (bs "xdef") = true) := by
  have hsome : (compileSensitiveKeyPatterns (regexSidecar (samplePlatform []))
      [bs " (?s)abc ", bs "", bs "DEF"]).isSome = true := by decide +kernel
  have hflags : ReadAlike asciiTables .fold (cleanedPatterns [bs " (?s)abc ", bs "", bs "DEF"]) := ⟨rfl, rfl, trivial⟩
  obtain ⟨re, hre⟩ := Option.isSome_iff_exists.mp hsome
  exact ⟨re, hre, sensitive_key_patterns_agree (regexSidecar_follows (samplePlatform [])).matches (by decide +kernel)
    (by decide +kernel) hflags hre (bs "xdef")⟩

/-- The first pattern counts the case again, and so does the one behind it. -/
theorem key_pattern_flags_leak :
    (∀ p ∈ [bs "(?-i)abc", bs "DEF"], (regexPlatform (samplePlatform [])).compiles p = true) ∧
      (compileSensitiveKeyPatterns (regexSidecar (samplePlatform [])) [bs "(?-i)abc", bs "DEF"]).map
        (·.any (·.matchString (bs "def"))) = some false ∧
      ((regexSidecar (samplePlatform [])).compile (ownPattern (bs "DEF"))).map (·.matchString (bs "def")) =
        some true := by
  decide +kernel

end PiiShield.Operator
