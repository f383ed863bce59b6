import PiiShield.CheckedReads
import PiiShield.Sample

/-! The pair that carries the value of a named secret: where its key is cut by an offset of
another text. -/

namespace PiiShield

variable {Num : Type}

/-- The source's `isGenericValueKey` with every offset checked. -/
def checkedGenericValueKey (U : Unicode) (k : Bytes) : Option Bool := do
  let lk := U.toLowerString k
  if inWords ["value", "val", "values", "data"] lk then return true
  let i : Int := k.length - 5
  if i ≤ 0 then return false
  let last ← sliceFrom lk i
  if last != bs "value" then return false
  let c ← readAt k i
  if c == 'V' then return true
  let before ← readAt k (i - 1)
  return before == '_' || before == '-' || before == '.'

/-- Lowering takes no more bytes from the key than its last word has, or leaves a whole word. -/
def LowersInPlace (U : Unicode) (k : Bytes) : Prop :=
  inWords ["value", "val", "values", "data"] (U.toLowerString k) = true ∨
    k.length ≤ (U.toLowerString k).length + 5

theorem checkedGenericValueKey_eq (U : Unicode) (k : Bytes) :
    checkedGenericValueKey U k = isGenericValueKey U k := by
  rw [checkedGenericValueKey, isGenericValueKey]
  by_cases hword : inWords ["value", "val", "values", "data"] (U.toLowerString k) = true
  · simp [hword]
  by_cases hlen : k.length ≤ 5
  · have hi : (k.length : Int) - 5 ≤ 0 := by omega
    simp [hword, hlen, hi]
  obtain ⟨i, hi⟩ : ∃ i, k.length = i + 1 + 5 := ⟨k.length - 6, by omega⟩
  have hcast : (k.length : Int) - 5 = (i + 1 : Nat) := by omega
  have hpos : ¬ ((i + 1 : Nat) : Int) ≤ 0 := by omega
  have hbefore : ((i + 1 : Nat) : Int) - 1 = (i : Nat) := by omega
  have hsub : k.length - 5 = i + 1 := by omega
  simp only [hword, hlen, if_false, hcast, hpos, hbefore, hsub, Nat.add_sub_cancel,
    readAt_eq (show i + 1 < k.length by omega), readAt_eq (show i < k.length by omega)]
  by_cases hlow : (U.toLowerString k).length < i + 1
  · rw [sliceFrom_eq_none hlow, if_pos hlow]
    rfl
  rw [sliceFrom_eq (Nat.not_lt.mp hlow), if_neg hlow]
  grind

theorem isSome_isGenericValueKey (U : Unicode) (k : Bytes) :
    (isGenericValueKey U k).isSome = true ↔ LowersInPlace U k := by
  rw [isGenericValueKey, LowersInPlace]
  grind

theorem overrides_isSome_iff (st : ConfigState Num) (s : SegmentState) (trimmed : Bytes) :
    (st.overrides s trimmed).isSome = true ↔ s.nextValueIsSensitive = false ∨
      ∀ k, pairKey trimmed = some k → LowersInPlace st.unicode k := by
  grind [ConfigState.overrides, pairKey, isSome_isGenericValueKey]

/-- The reads of a generic key and of its lowered text are in range, and the token does not panic
at them, exactly under keys that lower in place. -/
theorem generic_key_in_range_iff (st : ConfigState Num) (token : Bytes) (s : SegmentState) (depth : Nat) :
    (∀ k, pairKey (trimSpace token) = some k →
      ((checkedGenericValueKey st.unicode k).isSome = true ↔ LowersInPlace st.unicode k)) ∧
    (st.processAndAppend token s depth ≠ .panic ↔
      (st.isSchemePair (trimSpace token)).isSome = true ∨ s.nextValueIsSensitive = false ∨
        ∀ k, pairKey (trimSpace token) = some k → LowersInPlace st.unicode k) := by
  refine ⟨fun k _ => by rw [checkedGenericValueKey_eq, isSome_isGenericValueKey], ?_⟩
  rw [ConfigState.processAndAppend]
  cases hscheme : st.isSchemePair (trimSpace token) with
  | some v => simp [Prog.write, Prog.bind]
  | none =>
    simp only [Option.isSome_none, Bool.false_eq_true, false_or]
    rw [← overrides_isSome_iff]
    cases hover : st.overrides s (trimSpace token) with
    | none => simp
    | some override =>
      cases htoken : st.tokenCall s token override depth with
      | none => simp [htoken, Prog.write, Prog.bind]
      | some t => simp [htoken, enter, Prog.bind]

/-- The tables with the one letter beyond ASCII whose lower case is an ASCII letter of a key: the
Kelvin sign. -/
def Unicode.kelvin : Unicode := { Unicode.ascii with toLower := fun r => if r == 0x212A then 0x6B else r }

def kelvinSign : Bytes := [0xE2, 0x84, 0xAA]

def ConfigState.kelvin : ConfigState Int :=
  { ConfigState.sample.withKeys [bs "password"] with unicode := .kelvin }

/-- `name=password` and then a key of three Kelvin signs: its nine bytes are three in lower case. -/
theorem generic_key_out_of_range :
    let key := kelvinSign ++ kelvinSign ++ kelvinSign
    pairKey (trimSpace (key ++ bs "=x")) = some key ∧
      checkedGenericValueKey .kelvin key = none ∧
      (ConfigState.kelvin.scanAndRedact newBaselineStats (bs "name=password " ++ key ++ bs "=x")).res =
        .error .panic := by
  have hrun : ∀ n, n = 7280 →
      (ConfigState.kelvin.machine.run n
        (.scanLine (bs "name=password " ++ (kelvinSign ++ kelvinSign ++ kelvinSign) ++ bs "=x") 0)
          newBaselineStats).res = .error .panic := by
    rintro n rfl
    decide +kernel
  exact ⟨by decide +kernel, by decide +kernel, hrun _ (by decide +kernel)⟩

end PiiShield
