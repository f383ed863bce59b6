import PiiShield.Scanner

/-! A configuration that can be run: the default one under ASCII tables, with numbers
counted in tenths. The examples that use it are decided without a score. -/

namespace PiiShield

def Arith.tenfold : Arith Int where
  tenths n := n
  ofNat n := 10 * n
  add := (· + ·)
  sub := (· - ·)
  mul a b := a * b / 10
  div a b := 10 * a / b
  log2 a := 10 * (Nat.log2 (a.toNat / 10) : Int)
  sqrt a := Nat.sqrt (10 * a.toNat)
  lt a b := decide (a < b)
  le a b := decide (a ≤ b)

def ConfigState.sample : ConfigState Int where
  config := defaultConfig .tenfold
  sensitiveRegex := none
  keyMatcher := newKeyMatcher (defaultConfig Arith.tenfold).sensitiveKeys
  mac _ := (0xab, 0xcd, 0xef)
  unicode := .ascii
  arith := .tenfold
  mapOrder := id

/-- The configuration under another list of sensitive keys. -/
def ConfigState.withKeys {Num : Type} (st : ConfigState Num) (keys : List Bytes) : ConfigState Num :=
  { st with
    config := { st.config with sensitiveKeys := keys }
    keyMatcher := newKeyMatcher keys }

end PiiShield
