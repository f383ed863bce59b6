import PiiShield.Operator.Sidecar
import PiiShield.Operator.Sample
import PiiShield.Regex.Alternation

/-! The expressions of the sidecar as those of the `regexp` package, and a sidecar that compiles them
with the tables of ASCII. -/

namespace PiiShield.Operator

variable {Num : Type} {P : Platform Num}

/-- What compiles is an expression of the syntax and matches where it does. -/
def Sidecar.Matches (S : Sidecar P) (T : Regex.Tables) : Prop :=
  ∀ p r, S.compile p = some r → ∃ e, Regex.parse T p = some e ∧ r.matchString = e.matchString

/-- What compiles is an expression of the syntax and finds its groups too. -/
def Sidecar.Follows (S : Sidecar P) (T : Regex.Tables) : Prop :=
  ∀ p r, S.compile p = some r →
    ∃ e, Regex.parse T p = some e ∧ r = ⟨e.matchString, e.findStringSubmatchIndex⟩

theorem Sidecar.Follows.parse {S : Sidecar P} {T : Regex.Tables} (h : S.Follows T) {p : Bytes}
    (hp : P.compiles p = true) :
    ∃ e, Regex.parse T p = some e ∧ S.compile p = some ⟨e.matchString, e.findStringSubmatchIndex⟩ := by
  rw [← S.compile_isSome] at hp
  obtain ⟨r, hr⟩ := Option.isSome_iff_exists.mp hp
  obtain ⟨e, he, rfl⟩ := h p r hr
  exact ⟨e, he, hr⟩

theorem Sidecar.Follows.matches {S : Sidecar P} {T : Regex.Tables} (h : S.Follows T) : S.Matches T := by
  intro p r hr
  obtain ⟨e, he, rfl⟩ := h p r hr
  exact ⟨e, he, rfl⟩

def asciiTables : Regex.Tables where
  orbit r := if Regex.isUpperRune r then [r, r + 32] else if Regex.isLowerRune r then [r, r - 32] else [r]
  named _ := none

def regexPlatform (P : Platform Unit) : Platform Unit := { P with
  compiles p := (Regex.parse asciiTables p).isSome }

def regexSidecar (P : Platform Unit) : Sidecar (regexPlatform P) where
  arith :=
    { tenths _ := (), ofNat _ := (), add _ _ := (), sub _ _ := (), mul _ _ := (), div _ _ := (),
      log2 _ := (), sqrt _ := (), lt _ _ := false, le _ _ := false }
  compile p := (Regex.parse asciiTables p).map fun e => ⟨e.matchString, e.findStringSubmatchIndex⟩
  compile_isSome _ := Option.isSome_map

theorem regexSidecar_follows (P : Platform Unit) : (regexSidecar P).Follows asciiTables := by
  intro p r h
  obtain ⟨e, he, rfl⟩ := Option.map_eq_some_iff.mp h
  exact ⟨e, he, rfl⟩

end PiiShield.Operator
