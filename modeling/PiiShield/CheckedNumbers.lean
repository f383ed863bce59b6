import PiiShield.CheckedReads
import PiiShield.NumberShapes

/-! The number matchers with every offset checked, as the source reads them. None of them reads
out of the line, and each returns what its model returns. -/

namespace PiiShield

variable {fuel i j k : Nat} {line : Bytes}

/-- The loops over digits; `more` is their bound on how many, and the fuel runs out if they do
not end. -/
def digitsFrom (line : Bytes) (more : Nat → Bool) : Nat → Nat → Nat → Option Nat
  | 0, _, _ => none
  | fuel + 1, j, d => do
    if (← readIf line j isASCIIDigit) && more d then digitsFrom line more fuel (j + 1) (d + 1)
    else return d

def checkedDigits (line : Bytes) (j : Nat) : Option Nat :=
  digitsFrom line (fun _ => true) (line.length + 1) j 0

def checkedDigitsUpTo (line : Bytes) (max j : Nat) : Option Nat :=
  digitsFrom line (· < max) (line.length + 1) j 0

def digitGroupFrom (line : Bytes) (j : Nat) : Nat → Nat → Option Bool
  | 0, _ => some true
  | left + 1, m => do
    if !isASCIIDigit (← readAt line (j + m : Nat)) then return false
    else digitGroupFrom line j left (m + 1)

def checkedDigitGroup (line : Bytes) (j k : Nat) : Option Bool :=
  if line.length < j + k then some false else digitGroupFrom line j k 0

theorem spanDigits_eq : spanDigits line j = if isDigitAt line j then spanDigits line (j + 1) + 1 else 0 := by
  by_cases hd : isDigitAt line j = true
  · obtain ⟨hj, hdigit⟩ := isDigitAt_iff.mp hd
    rw [byteAt_eq hj] at hdigit
    rw [if_pos hd, spanDigits, List.drop_eq_getElem_cons hj, List.takeWhile_cons_of_pos hdigit]
    rfl
  rw [if_neg hd, spanDigits]
  cases hdrop : line.drop j with
  | nil => rfl
  | cons c t =>
    simp_all [isDigitAt, List.takeWhile_cons_of_neg, firstIs]

theorem digitsFrom_step (line : Bytes) (more : Nat → Bool) (fuel j d : Nat) :
    digitsFrom line more (fuel + 1) j d =
      if isDigitAt line j && more d then digitsFrom line more fuel (j + 1) (d + 1) else some d := by
  rw [digitsFrom, readIf_eq]
  rfl

theorem digitsFrom_all (line : Bytes) {d : Nat} (hfuel : spanDigits line j < fuel) :
    digitsFrom line (fun _ => true) fuel j d = some (d + spanDigits line j) := by
  induction fuel generalizing j d with
  | zero => omega
  | succ fuel ih =>
    rw [spanDigits_eq] at hfuel ⊢
    rw [digitsFrom_step, Bool.and_true]
    grind

theorem digitsFrom_upTo (line : Bytes) (max : Nat) {d : Nat} (hfuel : spanDigits line j < fuel) :
    digitsFrom line (· < max) fuel j d = some (d + min (max - d) (spanDigits line j)) := by
  induction fuel generalizing j d with
  | zero => omega
  | succ fuel ih =>
    rw [spanDigits_eq] at hfuel ⊢
    rw [digitsFrom_step]
    grind

@[simp] theorem checkedDigits_eq (line : Bytes) (j : Nat) : checkedDigits line j = some (spanDigits line j) := by
  have hle := spanDigits_le line j
  rw [checkedDigits, digitsFrom_all line (by omega), Nat.zero_add]

@[simp] theorem checkedDigitsUpTo_eq (line : Bytes) (max j : Nat) :
    checkedDigitsUpTo line max j = some (min max (spanDigits line j)) := by
  have hle := spanDigits_le line j
  rw [checkedDigitsUpTo, digitsFrom_upTo line max (by omega), Nat.zero_add, Nat.sub_zero]

theorem digitGroup_succ (hjk : j + (k + 1) ≤ line.length) :
    digitGroup line j (k + 1) = (isASCIIDigit (byteAt line j) && digitGroup line (j + 1) k) := by
  rw [Bool.eq_iff_iff, Bool.and_eq_true, digitGroup_iff, digitGroup_iff]
  constructor
  · rintro ⟨-, h⟩
    refine ⟨h 0 (by omega), by omega, fun m hm => ?_⟩
    rw [Nat.add_assoc, Nat.add_comm 1]
    exact h (m + 1) (by omega)
  rintro ⟨h0, -, h⟩
  refine ⟨hjk, fun m hm => ?_⟩
  cases m with
  | zero => exact h0
  | succ m =>
    rw [Nat.add_comm m, ← Nat.add_assoc]
    exact h m (by omega)

theorem digitGroupFrom_eq {left m : Nat} (h : j + m + left ≤ line.length) :
    digitGroupFrom line j left m = some (digitGroup line (j + m) left) := by
  induction left generalizing m with
  | zero =>
    have hzero : digitGroup line (j + m) 0 = true := digitGroup_iff.mpr ⟨h, by simp⟩
    rw [digitGroupFrom, hzero]
  | succ left ih =>
    rw [digitGroupFrom, readAt_eq (by omega), digitGroup_succ h, ih (by omega)]
    cases hd : isASCIIDigit (byteAt line (j + m)) <;> simp [hd, Nat.add_assoc]

@[simp] theorem checkedDigitGroup_eq (line : Bytes) (j k : Nat) :
    checkedDigitGroup line j k = some (digitGroup line j k) := by
  rw [checkedDigitGroup]
  by_cases h : line.length < j + k
  · have hfalse : digitGroup line j k = false := by
      rw [Bool.eq_false_iff, ne_eq, digitGroup_iff]
      exact fun hg => absurd hg.1 (Nat.not_le.mpr h)
    rw [if_pos h, hfalse]
  rw [if_neg h, digitGroupFrom_eq (by omega), Nat.add_zero]

theorem firstIs_drop_eq (line : Bytes) (j : Nat) (p : UInt8 → Bool) :
    firstIs (line.drop j) p = (decide (j < line.length) && p (byteAt line j)) := by
  rw [Bool.eq_iff_iff, firstIs_drop, Bool.and_eq_true, decide_eq_true_eq]

theorem firstIs_eq_isDigitAt (line : Bytes) (j : Nat) : firstIs (line.drop j) isASCIIDigit = isDigitAt line j := rfl

def checkedNANPGroup (line : Bytes) (j k : Nat) : Option Bool := do
  if !(← checkedDigitGroup line j k) then return false
  else return '2' ≤ (← readAt line j)

def checkedReadGroup (line : Bytes) (parens : Bool) (g k : Nat) (s : PhoneGroups) :
    Option (PhoneGroups × Bool) := do
  if ← andThen (parens && g == 0) (readIf line k (· == '(')) then
    let d ← checkedDigitsUpTo line maxAreaCodeDigits (k + 1)
    let k' := k + 1 + d
    if d == 0 || !(← readIf line k' (· == ')')) then return (s, false)
    else
      let spaced ← andThen (← readIf line (k' + 1) (· == ' ')) (readIf line (k' + 2) isASCIIDigit)
      return ({ s with digits := s.digits + d, stop := k' + 1, sep := 0, afterArea := spaced,
                       j := if spaced then k' + 2 else k' + 1 }, true)
  else
    let d ← checkedDigitsUpTo line maxPhoneGroup k
    if d == 0 || (← readIf line (k + d) isASCIIDigit) then return (s, false)
    else return ({ s with digits := s.digits + d, stop := k + d, j := k + d }, true)

def checkedGroup (line : Bytes) (parens : Bool) (g : Nat) (s : PhoneGroups) : Option (PhoneGroups × Bool) := do
  if ← readIf line s.j (fun c => c == ' ' || c == '-' || c == '.') then
    let c ← readAt line s.j
    if s.sep != 0 && c != s.sep then return (s, false)
    else
      checkedReadGroup line parens g (s.j + 1)
        { s with sep := c, dots := if c == '.' then s.dots + 1 else s.dots, afterArea := false }
  else if g > 0 && !s.afterArea then return (s, false)
  else checkedReadGroup line parens g s.j { s with afterArea := false }

def checkedGroupsFrom (line : Bytes) (parens : Bool) : Nat → Nat → PhoneGroups → Option PhoneGroups
  | 0, _, s => some s
  | left + 1, g, s => do
    match ← checkedGroup line parens g s with
    | (s', true) => checkedGroupsFrom line parens left (g + 1) s'
    | (s', false) => return s'

def checkedPhoneGroups (line : Bytes) (j have_ : Nat) (parens : Bool) : Option (Nat × Nat) := do
  let s ← checkedGroupsFrom line parens maxPhoneGroups 0 ⟨j, 0, have_, 0, 0, false⟩
  if s.stop == 0 || s.dots == 1 then return (0, 0) else return (s.stop, s.digits)

def checkedInternationalPhone (line : Bytes) (i : Nat) : Option Nat := do
  let cc ← checkedDigitsUpTo line 3 (i + 1)
  let j := i + 1 + cc
  if cc == 0 then return 0
  else if ← readIf line j isASCIIDigit then
    let rest ← checkedDigits line j
    let digits := cc + rest
    if digits < minPhoneDigits || maxPhoneDigits < digits then return 0 else return j + rest
  else
    let (stop, more) ← checkedPhoneGroups line j cc true
    if stop == 0 || more < minPhoneDigits || maxPhoneDigits < more then return 0 else return stop

def checkedNANPTail (line : Bytes) (j : Nat) (sep : UInt8 → Bool) : Option Nat := do
  if !(← checkedNANPGroup line j 3) then return 0
  else if !(← readIf line (j + 3) sep) then return 0
  else if !(← checkedDigitGroup line (j + 4) 4) || (← readIf line (j + 8) isASCIIDigit) then return 0
  else return j + 8

def checkedNANPPhone (line : Bytes) (i : Nat) : Option Nat := do
  if ← readIf line i (· == '(') then
    if !(← checkedNANPGroup line (i + 1) 3) || !(← readIf line (i + 4) (· == ')')) then return 0
    else
      checkedNANPTail line (if ← readIf line (i + 5) (· == ' ') then i + 6 else i + 5)
        fun c => c == '-' || c == ' ' || c == '.'
  else if !(← checkedNANPGroup line i 3) || !(← readIf line (i + 3) (fun c => c == '-' || c == '.')) then return 0
  else
    let sep ← readAt line (i + 3 : Nat)
    checkedNANPTail line (i + 4) (· == sep)

def checkedKeyedPhone (line : Bytes) (i : Nat) : Option Nat := do
  let first ← checkedDigitsUpTo line maxPhoneGroup i
  let j := i + first
  if ← readIf line j isASCIIDigit then
    let rest ← checkedDigits line j
    let digits := first + rest
    if digits < minKeyedDigits || maxPhoneDigits < digits then return 0 else return j + rest
  else
    let found ← checkedPhoneGroups line j first false
    let (stop, more) := if found.1 == 0 then (j, first) else found
    if more < minKeyedDigits || maxPhoneDigits < more then return 0 else return stop

@[simp] theorem checkedNANPGroup_eq (line : Bytes) (j : Nat) (hk : 0 < k) :
    checkedNANPGroup line j k = some (nanpGroup line j k) := by
  rw [checkedNANPGroup, checkedDigitGroup_eq, nanpGroup]
  cases hg : digitGroup line j k with
  | false => rfl
  | true =>
    have hlen := (digitGroup_iff.mp hg).1
    rw [readAt_eq (show j < line.length by omega)]
    rfl

theorem checkedReadGroup_eq (line : Bytes) (parens : Bool) (g k : Nat) (s : PhoneGroups) :
    checkedReadGroup line parens g k s = some (readPhoneGroup line parens g k s) := by
  simp only [checkedReadGroup, readPhoneGroup, readIf_eq, firstIs_eq_isAt, firstIs_eq_isDigitAt, checkedDigitsUpTo_eq,
    andThen_some,
    Option.bind_eq_bind, Option.bind_some, Option.pure_def]
  split_ifs <;> rfl

theorem checkedGroup_eq (line : Bytes) (parens : Bool) (g : Nat) (s : PhoneGroups) :
    checkedGroup line parens g s = some (phoneGroup line parens g s) := by
  simp only [checkedGroup, phoneGroup, readIf_eq, firstIs_drop_eq, checkedReadGroup_eq, Option.bind_eq_bind,
    Option.bind_some, Option.pure_def]
  by_cases hlt : s.j < line.length
  · rw [readAt_eq hlt, Option.bind_some]
    split_ifs <;> rfl
  grind

theorem checkedGroupsFrom_eq (line : Bytes) (parens : Bool) (left g : Nat) (s : PhoneGroups) :
    checkedGroupsFrom line parens left g s = some (phoneGroupsFrom line parens left g s) := by
  induction left generalizing g s with
  | zero => rfl
  | succ left ih =>
    grind [checkedGroupsFrom, checkedGroup_eq, phoneGroupsFrom, phoneGroup]

@[simp] theorem checkedPhoneGroups_eq (line : Bytes) (j have_ : Nat) (parens : Bool) :
    checkedPhoneGroups line j have_ parens = some (matchPhoneGroups line j have_ parens) := by
  simp only [checkedPhoneGroups, checkedGroupsFrom_eq, matchPhoneGroups, Option.bind_eq_bind, Option.bind_some]
  split <;> rfl

theorem checkedInternationalPhone_eq (line : Bytes) (i : Nat) :
    checkedInternationalPhone line i = some (matchInternationalPhone line i) := by
  simp only [checkedInternationalPhone, matchInternationalPhone, checkedDigitsUpTo_eq, checkedDigits_eq,
    checkedPhoneGroups_eq, readIf_eq, firstIs_eq_isDigitAt, Option.bind_eq_bind, Option.bind_some]
  split_ifs <;> rfl

theorem checkedNANPTail_eq (line : Bytes) (j : Nat) (sep : UInt8 → Bool) :
    checkedNANPTail line j sep = some (matchNANPTail line j sep) := by
  simp only [checkedNANPTail, matchNANPTail, checkedNANPGroup_eq line j (show 0 < 3 by omega), checkedDigitGroup_eq,
    readIf_eq, firstIs_eq_isDigitAt, Option.bind_eq_bind, Option.bind_some]
  split_ifs <;> rfl

theorem checkedNANPPhone_eq (line : Bytes) (i : Nat) : checkedNANPPhone line i = some (matchNANPPhone line i) := by
  have hsep : firstIs (line.drop (i + 3)) (fun c => c == '-' || c == '.') =
      (isAt line (i + 3) '-' || isAt line (i + 3) '.') := by
    grind [firstIs_drop_eq, isAt]
  simp only [checkedNANPPhone, matchNANPPhone, checkedNANPGroup_eq line _ (show 0 < 3 by omega), readIf_eq,
    firstIs_eq_isAt, hsep, checkedNANPTail_eq, Option.bind_eq_bind, Option.bind_some]
  split_ifs with hopen hhead hblank hgroup
  · rfl
  · rfl
  · rfl
  · rfl
  have hlt : i + 3 < line.length := by
    simp only [Bool.or_eq_true, Bool.not_eq_true', not_or, Bool.not_eq_false, isAt_iff] at hgroup
    omega
  rw [readAt_eq hlt]
  rfl

theorem checkedKeyedPhone_eq (line : Bytes) (i : Nat) : checkedKeyedPhone line i = some (matchKeyedPhone line i) := by
  simp only [checkedKeyedPhone, matchKeyedPhone, checkedDigitsUpTo_eq, checkedDigits_eq,
    checkedPhoneGroups_eq, readIf_eq, firstIs_eq_isDigitAt, Option.bind_eq_bind, Option.bind_some]
  split_ifs <;> rfl

/-- The loop of `matchGroupedDigits` from its position `j` on, with the digits so far. -/
def groupedDigitsFrom (line : Bytes) (quoted : Bool) : Nat → Nat → Nat → Option (Nat × Nat)
  | 0, _, _ => none
  | fuel + 1, j, digits => do
    if j < line.length then
      let c ← readAt line j
      if isASCIIDigit c then groupedDigitsFrom line quoted fuel (j + 1) (digits + 1)
      else if ← andThen ((c == '-' || c == '.' || c == ' ' && quoted) && (← readIf line (j + 1) isASCIIDigit))
          ((readAt line ((j : Int) - 1)).map isASCIIDigit) then
        groupedDigitsFrom line quoted fuel (j + 1) digits
      else return (digits, j)
    else return (digits, j)

def checkedGroupedDigits (line : Bytes) (i minDigits maxDigits : Nat) : Option Nat := do
  let quoted ← andThen (0 < i) ((readAt line ((i : Int) - 1)).map isQuote)
  let (digits, j) ← groupedDigitsFrom line quoted (line.length + 1) i 0
  if digits < minDigits || maxDigits < digits then return 0 else return j

def checkedSessionNumber (line : Bytes) (i : Nat) : Option Nat := do
  let d ← checkedDigits line i
  if d < 10 then return 0 else return i + d

def atoiFrom (line : Bytes) (i : Nat) : Nat → Nat → Nat → Option Nat
  | 0, _, v => some v
  | left + 1, m, v => do
    let c ← readAt line (i + m : Nat)
    atoiFrom line i left (m + 1) (v * 10 + (c.toNat - 0x30))

def checkedAtoiN (line : Bytes) (i k : Nat) : Option Nat := atoiFrom line i k 0 0

def readDigitsFrom (line : Bytes) (i max : Nat) : Nat → Nat → Nat → Option (Nat × Nat)
  | 0, _, _ => none
  | fuel + 1, j, v => do
    if ← readWhen (j < line.length && j - i < max) line j isASCIIDigit then
      let c ← readAt line j
      readDigitsFrom line i max fuel (j + 1) (v * 10 + (c.toNat - 0x30))
    else return (v, j)

def checkedReadDigits (line : Bytes) (i max : Nat) : Option (Option (Nat × Nat)) := do
  let (v, j) ← readDigitsFrom line i max (line.length + 1) i 0
  if j == i then return none else return some (v, j)

def checkedSkipSeconds (line : Bytes) (k : Nat) : Option Nat := do
  let colon ← readWhen (k + 2 < line.length) line k (· == ':')
  if ← andThen colon (checkedDigitGroup line (k + 1) 2) then
    let point ← readWhen (k + 4 < line.length) line (k + 3) (fun c => c == '.' || c == ',')
    if ← readWhen point line (k + 4) isASCIIDigit then return k + 4 + (← checkedDigits line (k + 4))
    else return k + 3
  else return k

def checkedSkipZone (line : Bytes) (k : Nat) : Option Nat := do
  if ← readIf line k (fun c => c == 'Z' || c == 'z') then return k + 1
  else if ← andThen (← readIf line k (fun c => c == '+' || c == '-')) (checkedDigitGroup line (k + 1) 2) then
    let colon ← readWhen (k + 5 < line.length) line (k + 3) (· == ':')
    if ← andThen colon (checkedDigitGroup line (k + 4) 2) then return k + 6
    else if ← checkedDigitGroup line (k + 3) 2 then return k + 5
    else return k + 3
  else return k

def checkedSkipTimeOfDay (line : Bytes) (j : Nat) : Option Nat := do
  if !(← readIf line j (fun c => c == 'T' || c == 't' || c == ' ')) then return j
  else if !(← checkedDigitGroup line (j + 1) 2) || !(← readIf line (j + 3) (· == ':')) ||
      !(← checkedDigitGroup line (j + 4) 2) then return j
  else checkedSkipZone line (← checkedSkipSeconds line (j + 6))

def checkedISODate (line : Bytes) (i : Nat) : Option Nat := do
  let year ← checkedAtoiN line i 4
  let j := i + 4
  if line.length ≤ j then return 0
  let sep ← readAt line j
  if !isDateSep sep then return 0
  else if !(← checkedDigitGroup line (j + 1) 2) || !(← readIf line (j + 3) (· == sep)) ||
      !(← checkedDigitGroup line (j + 4) 2) then return 0
  else
    let month ← checkedAtoiN line (j + 1) 2
    let day ← checkedAtoiN line (j + 4) 2
    if !plausibleYear year || month < 1 || 12 < month || day < 1 || 31 < day then return 0
    else checkedSkipTimeOfDay line (j + 6)

def checkedKeyedDate (line : Bytes) (i : Nat) : Option Nat := do
  if ← checkedDigitGroup line i 4 then checkedISODate line i
  else
    match ← checkedReadDigits line i 2 with
    | none => return 0
    | some (a, j) =>
      if line.length ≤ j then return 0
      let sep ← readAt line j
      if !isDateSep sep then return 0
      else
        match ← checkedReadDigits line (j + 1) 2 with
        | none => return 0
        | some (b, j') =>
          if !(← readIf line j' (· == sep)) || !(← checkedDigitGroup line (j' + 1) 4) then return 0
          else
            let year ← checkedAtoiN line (j' + 1) 4
            if !plausibleYear year || !plausibleDayMonth a b then return 0 else return j' + 5

theorem groupedDigitsFrom_eq {quoted : Bool} {digits : Nat} (hfuel : line.length - (j + 1) < fuel) :
    groupedDigitsFrom line quoted fuel (j + 1) digits =
      some (digits + (groupedRun quoted (byteAt line j) (line.drop (j + 1))).1,
        j + 1 + (groupedRun quoted (byteAt line j) (line.drop (j + 1))).2) := by
  induction fuel generalizing j digits with
  | zero => omega
  | succ fuel ih =>
    rw [groupedDigitsFrom]
    by_cases hj : j + 1 < line.length
    · have hback : ((j + 1 : Nat) : Int) - 1 = (j : Nat) := by omega
      rw [if_pos hj, readAt_eq hj, hback, readAt_eq (by omega), List.drop_eq_getElem_cons hj, ← byteAt_eq hj,
        groupedRun, readIf_eq]
      grind [Option.bind_eq_bind, andThen_some, groupedRun,
        byteAt, groupedDigitsFrom]
    rw [if_neg hj, List.drop_eq_nil_of_le (Nat.not_lt.mp hj)]
    rfl

theorem readBefore_eq (hlt : i < line.length) (p : UInt8 → Bool) :
    andThen (0 < i) ((readAt line ((i : Int) - 1)).map p) = some (decide (0 < i) && p (byteAt line (i - 1))) := by
  cases i with
  | zero => rfl
  | succ i =>
    have hback : ((i + 1 : Nat) : Int) - 1 = (i : Nat) := by omega
    rw [hback, readAt_eq (by omega)]
    rfl

theorem checkedGroupedDigits_eq (hi : isDigitAt line i = true) (minDigits maxDigits : Nat) :
    checkedGroupedDigits line i minDigits maxDigits = some (matchGroupedDigits line i minDigits maxDigits) := by
  obtain ⟨hlt, hd⟩ := isDigitAt_iff.mp hi
  have hquoted := readBefore_eq hlt isQuote
  have hfirst (quoted : Bool) : groupedDigitsFrom line quoted (line.length + 1) i 0 =
      some ((groupedRun quoted 0 (line.drop i)).1, i + (groupedRun quoted 0 (line.drop i)).2) := by
    rw [groupedDigitsFrom, if_pos hlt, readAt_eq hlt]
    simp only [Option.bind_eq_bind, Option.bind_some, hd, if_true]
    rw [groupedDigitsFrom_eq (by omega), List.drop_eq_getElem_cons hlt, ← byteAt_eq hlt, groupedRun, if_pos hd]
    simp only [Option.some.injEq, Prod.mk.injEq]
    omega
  grind [checkedGroupedDigits, matchGroupedDigits]

theorem checkedSessionNumber_eq (line : Bytes) (i : Nat) :
    checkedSessionNumber line i = some (matchSessionNumber line i) := by
  simp only [checkedSessionNumber, matchSessionNumber, checkedDigits_eq, Option.bind_eq_bind, Option.bind_some]
  split_ifs <;> rfl

theorem atoiFrom_eq {left m v : Nat} (h : i + m + left ≤ line.length) : atoiFrom line i left m v =
      some ((slice line (i + m) (i + m + left)).foldl (fun v c => v * 10 + (c.toNat - 0x30)) v) := by
  induction left generalizing m v with
  | zero => simp [atoiFrom, slice]
  | succ left ih =>
    rw [atoiFrom, readAt_eq (by omega), slice_eq_cons (by omega) h, List.foldl_cons]
    grind

theorem checkedAtoiN_eq (h : i + k ≤ line.length) : checkedAtoiN line i k = some (atoiN line i k) := by
  rw [checkedAtoiN, atoiFrom_eq (by omega), Nat.add_zero]
  rfl

theorem readDigitsFrom_eq {max v : Nat} (hij : i ≤ j) (hfuel : spanDigits line j < fuel) :
    readDigitsFrom line i max fuel j v =
      some ((slice line j (j + min (max - (j - i)) (spanDigits line j))).foldl (fun v c => v * 10 + (c.toNat - 0x30)) v,
        j + min (max - (j - i)) (spanDigits line j)) := by
  induction fuel generalizing j v with
  | zero => omega
  | succ fuel ih =>
    rw [readDigitsFrom, readWhen_eq (by simp; omega)]
    by_cases hd : isDigitAt line j = true
    · obtain ⟨hlt, hdigit⟩ := isDigitAt_iff.mp hd
      have hspan : spanDigits line j = spanDigits line (j + 1) + 1 := by rw [spanDigits_eq, if_pos hd]
      by_cases hmax : j - i < max
      · have hle := spanDigits_le line j
        have hw : j + min (max - (j - i)) (spanDigits line j) =
            j + 1 + min (max - (j + 1 - i)) (spanDigits line (j + 1)) := by omega
        simp only [hlt, hmax, decide_true, Bool.true_and, hdigit, Option.bind_eq_bind, Option.bind_some, if_true,
          readAt_eq hlt]
        rw [ih (by omega) (by omega), hw, slice_eq_cons (i := j) (show j < _ by omega) (show _ ≤ line.length by omega)]
        rfl
      have hw : min (max - (j - i)) (spanDigits line j) = 0 := by omega
      simp [hmax, hw, slice]
    have hw : min (max - (j - i)) (spanDigits line j) = 0 := by rw [spanDigits_eq, if_neg hd]; omega
    have hfalse : (decide (j < line.length) && decide (j - i < max) && isASCIIDigit (byteAt line j)) = false := by
      rw [isDigitAt_iff] at hd
      simpa using fun h1 _ => by simpa [h1] using hd
    simp only [hfalse, Option.bind_eq_bind, Option.bind_some, hw]
    simp [slice]

theorem checkedReadDigits_eq (line : Bytes) (i max : Nat) :
    checkedReadDigits line i max = some (readDigits line i max) := by
  have hle := spanDigits_le line i
  rw [checkedReadDigits, readDigitsFrom_eq le_rfl (by omega), Nat.sub_self, Nat.sub_zero, readDigits]
  grind [decimalValue]

theorem colon_and_group (line : Bytes) (k m : Nat) (hm : k < m) :
    ((decide (m + 1 < line.length) && byteAt line k == chr ':') && digitGroup line m 2) =
      (isAt line k ':' && digitGroup line m 2) := by
  grind [digitGroup, isAt]

theorem checkedSkipSeconds_eq (line : Bytes) (k : Nat) :
    checkedSkipSeconds line k = some (skipSeconds line k) := by
  have hpoint : ((decide (k + 4 < line.length) && (byteAt line (k + 3) == chr '.' || byteAt line (k + 3) == chr ',')) &&
      isASCIIDigit (byteAt line (k + 4))) =
        ((isAt line (k + 3) '.' || isAt line (k + 3) ',') && isDigitAt line (k + 4)) := by
    rw [← firstIs_eq_isDigitAt, firstIs_drop_eq, isAt, isAt, ← Bool.and_or_distrib_left]
    by_cases h : k + 4 < line.length
    · have h3 : k + 3 < line.length := by omega
      simp [h, h3]
    simp [h]
  rw [checkedSkipSeconds, skipSeconds, readWhen_eq (by simp; omega), readWhen_eq (by simp; omega)]
  simp only [Option.bind_eq_bind, Option.bind_some, checkedDigitGroup_eq, andThen_some, checkedDigits_eq]
  rw [readWhen_eq (by simp; omega), hpoint, Option.bind_some, colon_and_group line k (k + 1) (by omega)]
  split_ifs <;> rfl

theorem checkedSkipZone_eq (line : Bytes) (k : Nat) : checkedSkipZone line k = some (skipZone line k) := by
  have htwo (a b : UInt8) : firstIs (line.drop k) (fun c => c == a || c == b) = (isAt line k a || isAt line k b) := by
    grind [firstIs_drop_eq, isAt]
  rw [checkedSkipZone, skipZone, readIf_eq, readIf_eq, readWhen_eq (by simp; omega)]
  simp only [Option.bind_eq_bind, Option.bind_some, checkedDigitGroup_eq, andThen_some, htwo,
    colon_and_group line (k + 3) (k + 4) (by omega)]
  split_ifs <;> rfl

theorem checkedSkipTimeOfDay_eq (line : Bytes) (j : Nat) :
    checkedSkipTimeOfDay line j = some (skipTimeOfDay line j) := by
  have hthree (a b c : UInt8) : firstIs (line.drop j) (fun x => x == a || x == b || x == c) =
      (isAt line j a || isAt line j b || isAt line j c) := by
    simp [firstIs_drop_eq, isAt, Bool.and_or_distrib_left]
  simp only [checkedSkipTimeOfDay, skipTimeOfDay, readIf_eq, Option.bind_eq_bind, Option.bind_some,
    checkedDigitGroup_eq,
    firstIs_eq_isAt, hthree, checkedSkipSeconds_eq, checkedSkipZone_eq]
  split_ifs <;> rfl

theorem checkedISODate_eq (hi : digitGroup line i 4 = true) :
    checkedISODate line i = some (matchISODate line i) := by
  have hlen := (digitGroup_iff.mp hi).1
  simp only [checkedISODate, checkedAtoiN_eq hlen, matchISODate, firstIs_drop_eq, Option.bind_eq_bind,
    Option.bind_some]
  by_cases hj : line.length ≤ i + 4
  · simp [hj, Nat.not_lt.mpr hj]
  have hlt : i + 4 < line.length := Nat.not_le.mp hj
  simp only [readAt_eq hlt, Option.bind_some, hj, if_false, hlt, decide_true, Bool.true_and, checkedDigitGroup_eq,
    readIf_eq, firstIs_eq_isAt, checkedSkipTimeOfDay_eq]
  by_cases hsep : (!isDateSep (byteAt line (i + 4))) = true
  · simp [hsep]
  by_cases hgroups : (!digitGroup line (i + 4 + 1) 2 || !isAt line (i + 4 + 3) (byteAt line (i + 4)) ||
      !digitGroup line (i + 4 + 4) 2) = true
  · rw [if_neg hsep, if_neg hsep, if_pos hgroups, if_pos hgroups]
    rfl
  have hday : i + 4 + 4 + 2 ≤ line.length := by simp_all [digitGroup_iff]
  rw [if_neg hsep, if_neg hsep, if_neg hgroups, if_neg hgroups, checkedAtoiN_eq (by omega), checkedAtoiN_eq hday]
  simp only [Option.bind_some]
  split_ifs <;> rfl

theorem checkedKeyedDate_eq (line : Bytes) (i : Nat) : checkedKeyedDate line i = some (matchKeyedDate line i) := by
  rw [checkedKeyedDate, checkedDigitGroup_eq, matchKeyedDate]
  by_cases hyear : digitGroup line i 4 = true
  · simp [hyear, checkedISODate_eq hyear]
  simp only [Option.bind_eq_bind, Option.bind_some, hyear, checkedReadDigits_eq, Bool.false_eq_true, if_false]
  cases readDigits line i 2 with
  | none => rfl
  | some r =>
    obtain ⟨a, j⟩ := r
    simp only [firstIs_drop_eq]
    by_cases hj : line.length ≤ j
    · simp [hj, Nat.not_lt.mpr hj]
    have hlt : j < line.length := Nat.not_le.mp hj
    simp only [readAt_eq hlt, Option.bind_some, hj, if_false, hlt, decide_true, Bool.true_and]
    by_cases hsep : (!isDateSep (byteAt line j)) = true
    · simp [hsep]
    rw [if_neg hsep, if_neg hsep]
    cases readDigits line (j + 1) 2 with
    | none => rfl
    | some r' =>
      obtain ⟨b, j'⟩ := r'
      simp only [readIf_eq, firstIs_eq_isAt, checkedDigitGroup_eq, Option.bind_some]
      by_cases hgroup : (!isAt line j' (byteAt line j) || !digitGroup line (j' + 1) 4) = true
      · rw [if_pos hgroup, if_pos hgroup]
        rfl
      have hlen : j' + 1 + 4 ≤ line.length := by simp_all [digitGroup_iff]
      rw [if_neg hgroup, if_neg hgroup, checkedAtoiN_eq hlen]
      simp only [Option.bind_some]
      split_ifs <;> rfl

end PiiShield
