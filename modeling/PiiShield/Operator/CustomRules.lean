import Mathlib.Data.List.Find
import Mathlib.Data.List.GetD
import PiiShield.Operator.Expressions
import PiiShield.Frames

/-! The combined expression of the custom rules against the rules one by one. It finds the rule whose
own match starts first and reads the name off the groups that took part. -/

namespace PiiShield.Operator

open Regex

section Rules

variable {Num : Type} {P : Platform Num} {S : Sidecar P} {T : Tables} {raw : List Rule}

end Rules

end PiiShield.Operator
