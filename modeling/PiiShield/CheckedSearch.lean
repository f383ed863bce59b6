import PiiShield.CarveFacts
import PiiShield.CheckedNumbers

/-! The search for shaped numbers with every offset checked, and the keys it reads backwards. -/

namespace PiiShield

variable {fuel i k left start : Nat} {key line : Bytes} {p : UInt8 → Bool}

/-- The loop that moves `j` back over the bytes of a class. -/
def skipBack (line : Bytes) (p : UInt8 → Bool) : Nat → Int → Option Int
  | 0, _ => none
  | fuel + 1, j => do
    if ← readBack line j p then skipBack line p fuel (j - 1) else return j

def stepBack (line : Bytes) (p : UInt8 → Bool) (j : Int) : Option Int := do
  if ← readBack line j p then return j - 1 else return j

def checkedKeyBefore (line : Bytes) (i : Nat) : Option Bytes := do
  let j ← stepBack line (· == '(') ((i : Int) - 1)
  let j ← stepBack line isQuote j
  let j ← skipBack line isSpaceByte (line.length + 1) j
  if !(← readBack line j fun c => c == ':' || c == '=') then return []
  else
    let j ← skipBack line isSpaceByte (line.length + 1) (j - 1)
    let j ← stepBack line isQuote j
    let stop := j + 1
    let j ← skipBack line (fun c => isAlnumByte c || isKeyWordSep c) (line.length + 1) j
    sliceBetween line (j + 1) stop

/-- The loop of `splitKeyWords`: `start` is where the word under way starts. -/
def splitFrom (U : Unicode) (key : Bytes) : Nat → Nat → Nat → List Bytes → Option (List Bytes)
  | 0, _, _, _ => none
  | fuel + 1, i, start, parts => do
    if key.length < i then return parts
    let sep ← readIf key i isKeyWordSep
    let upper ← readWhen (i != key.length && start < i) key i isUpperASCII
    let camel ← andThen upper ((readAt key ((i : Int) - 1)).map isLowerASCII)
    if !(i == key.length || sep || camel) then splitFrom U key fuel (i + 1) start parts
    else
      let next := if sep then i + 1 else i
      if start < i then
        if parts.length == maxKeyWords then return []
        let word ← sliceBetween key start i
        splitFrom U key fuel (i + 1) next (parts ++ [U.toLowerString word])
      else splitFrom U key fuel (i + 1) next parts

variable (U : Unicode)

def checkedSplitKeyWords (key : Bytes) : Option (List Bytes) :=
  if 64 < key.length then some [] else splitFrom U key (key.length + 2) 0 0 []

variable (parts : List Bytes)

def readWord (k : Nat) : Option Bytes := parts.reverse[k]?

def checkedPhoneKeyWords : Option Bool := do
  let last ← readWord parts 0
  if ← andThen (last == bs "id" && 2 ≤ parts.length) ((readWord parts 1).map (· == bs "wa")) then return true
  else
    let stripped := isNumberSuffix last && 2 ≤ parts.length
    let last ← if stripped then readWord parts 1 else some last
    if last == bs "contact" then return stripped else return inWords phoneKeyWords last

def checkedIDKeyWords : Option Bool := do
  let stripped := isNumberSuffix (← readWord parts 0) && 2 ≤ parts.length
  let parts := if stripped then parts.dropLast else parts
  let last ← readWord parts 0
  let prev ← if 2 ≤ parts.length then readWord parts 1 else some []
  if last == bs "id" then return inWords idOwnerWords prev || stripped && !inWords idRecordWords prev
  else if last == bs "identity" then return stripped
  else if last == bs "security" then return prev == bs "social"
  else if last == bs "record" then return stripped && prev == bs "medical"
  else return inWords idDocumentWords last

def checkedSessionKeyWords : Option Bool := do
  let last ← readWord parts 0
  if last == bs "id" && 2 ≤ parts.length then return (← readWord parts 1) == bs "session"
  else return inWords sessionKeyWords last

def checkedOTPKeyWords : Option Bool := do
  let last ← readWord parts 0
  if last != bs "code" then return inWords otpKeyWords last
  else if parts.length < 2 then return false
  else
    let prev ← readWord parts 1
    if prev == bs "time" then andThen (3 ≤ parts.length) ((readWord parts 2).map (· == bs "one"))
    else return inWords otpCodeWords prev

def checkedDOBKeyWords : Option Bool := do
  let last ← readWord parts 0
  if last == bs "date" then andThen (2 ≤ parts.length) ((readWord parts 1).map (· == bs "birth"))
  else if last == bs "birth" then
    let of ← andThen (3 ≤ parts.length) ((readWord parts 1).map (· == bs "of"))
    andThen of ((readWord parts 2).map (· == bs "date"))
  else return inWords dobKeyWords last

def checkedKeyedNumber (line : Bytes) (i : Nat) : Option (Nat × Bytes) := do
  let key ← checkedKeyBefore line i
  if key.isEmpty then return (0, [])
  else
    let words ← checkedSplitKeyWords U key
    if words.isEmpty then return (0, [])
    else if ← checkedPhoneKeyWords words then return (← checkedKeyedPhone line i, bs "phone")
    else if ← checkedIDKeyWords words then return (← checkedGroupedDigits line i 6 15, bs "id-number")
    else if ← checkedSessionKeyWords words then return (← checkedSessionNumber line i, bs "key")
    else if ← checkedOTPKeyWords words then return (← checkedGroupedDigits line i 4 8, bs "key")
    else if ← checkedDOBKeyWords words then return (← checkedKeyedDate line i, bs "dob")
    else return (0, [])

def checkedGluedAfter (line : Bytes) (stop : Nat) : Option Bool := do
  if line.length ≤ stop then return false
  else
    let c ← readAt line stop
    if isASCIILetter c || isASCIIDigit c || c == '_' || c == '@' || c == '/' || c == '%' || c == '+' then return true
    else andThen (c == '-' || c == '.') (readIf line (stop + 1) isASCIIDigit)

def checkedSkipPhoneRun (line : Bytes) (i : Nat) : Option Nat := do
  if !isASCIIDigit (← readAt line i) then return i + 1 else return i + (← checkedDigits line i)

/-- The loop of `insideURL`, back from before position `j`. -/
def checkedInsideURL (line : Bytes) : Nat → Option Bool
  | 0 => some false
  | j + 1 => do
    let c ← readAt line j
    if isBlank c || isQuote c then return false
    else if c == '?' then return true
    else if ← andThen (c == ':') ((sliceFrom line j).map (hasPrefix · (bs "://"))) then return true
    else checkedInsideURL line j

def checkedShapedNumber (line : Bytes) (i : Nat) : Option (Nat × Bytes) := do
  let c ← readAt line i
  if c == '+' then return (← checkedInternationalPhone line i, bs "phone")
  else
    let stop ← checkedNANPPhone line i
    if c == '(' || stop != 0 then return (stop, bs "phone") else checkedKeyedNumber U line i

/-- The loop of `findShapedNumbers`; the fuel runs out if it does not end. -/
def checkedShapedNumbersFrom (U : Unicode) (line : Bytes) : Nat → Nat → Option (List ShapedNumber)
  | 0, _ => none
  | fuel + 1, i => do
    if line.length ≤ i then return []
    else
      let c ← readAt line i
      if c != '+' && c != '(' && !isASCIIDigit c then checkedShapedNumbersFrom U line fuel (i + 1)
      else if ← andThen (0 < i) ((readAt line ((i : Int) - 1)).map phoneGlue) then
        checkedShapedNumbersFrom U line fuel (← checkedSkipPhoneRun line i)
      else
        let (stop, label) ← checkedShapedNumber U line i
        let free ← andThen (0 < stop) ((checkedGluedAfter line stop).map (!·))
        if ← andThen free ((checkedInsideURL line i).map (!·)) then
          return ⟨⟨i, stop⟩, label⟩ :: (← checkedShapedNumbersFrom U line fuel stop)
        else checkedShapedNumbersFrom U line fuel (← checkedSkipPhoneRun line i)

def checkedFindShapedNumbers (line : Bytes) : Option (List ShapedNumber) :=
  if !line.any isASCIIDigit then some [] else checkedShapedNumbersFrom U line (line.length + 1) 0

/-- The loop of `mergeCarves`, with the positions in both lists. -/
def checkedMergeFrom (cards : List Range) (nums : List ShapedNumber) : Nat → Nat → Nat → Option (List Carve)
  | 0, _, _ => none
  | fuel + 1, i, j => do
    if !(i < cards.length || j < nums.length) then return []
    else if nums.length ≤ j then
      let c ← cards[i]?
      return ⟨c, []⟩ :: (← checkedMergeFrom cards nums fuel (i + 1) j)
    else if cards.length ≤ i then
      let n ← nums[j]?
      return ⟨n.toRange, n.label⟩ :: (← checkedMergeFrom cards nums fuel i (j + 1))
    else
      let n ← nums[j]?
      let c ← cards[i]?
      if n.stop ≤ c.start then return ⟨n.toRange, n.label⟩ :: (← checkedMergeFrom cards nums fuel i (j + 1))
      else if c.stop ≤ n.start then return ⟨c, []⟩ :: (← checkedMergeFrom cards nums fuel (i + 1) j)
      else checkedMergeFrom cards nums fuel (i + 1) j

def checkedMergeCarves (cards : List Range) (nums : List ShapedNumber) : Option (List Carve) :=
  checkedMergeFrom cards nums (cards.length + nums.length + 1) 0 0

theorem reverse_take_succ (hi : i < line.length) :
    (line.take (i + 1)).reverse = byteAt line i :: (line.take i).reverse := by
  rw [List.take_succ_eq_append_getElem hi, List.reverse_append, List.reverse_singleton, byteAt_eq hi]
  rfl

theorem skipBack_eq (hi : i ≤ line.length) (hfuel : i < fuel) :
    ∃ k ≤ i, skipBack line p fuel ((i : Int) - 1) = some ((k : Int) - 1) ∧
      (line.take i).reverse.dropWhile p = (line.take k).reverse := by
  induction fuel generalizing i with
  | zero => omega
  | succ fuel ih =>
    rw [skipBack, readBack_eq hi]
    cases i with
    | zero => exact ⟨0, le_rfl, rfl, rfl⟩
    | succ i =>
      rw [reverse_take_succ hi]
      by_cases hp : p (byteAt line i) = true
      · grind [firstIs, List.dropWhile_cons_of_pos]
      refine ⟨i + 1, le_rfl, ?_, ?_⟩
      · simp [firstIs, hp]
      rw [List.dropWhile_cons_of_neg hp, reverse_take_succ hi]

theorem stepBack_eq (hi : i ≤ line.length) : ∃ k ≤ i, stepBack line p ((i : Int) - 1) = some ((k : Int) - 1) ∧
      (if firstIs (line.take i).reverse p then (line.take i).reverse.drop 1 else (line.take i).reverse) =
        (line.take k).reverse := by
  rw [stepBack, readBack_eq hi]
  cases i with
  | zero => exact ⟨0, le_rfl, rfl, rfl⟩
  | succ i =>
    by_cases hp : firstIs (line.take (i + 1)).reverse p = true
    · refine ⟨i, by omega, ?_, ?_⟩
      · simp [hp]
      rw [if_pos hp, reverse_take_succ hi]
      rfl
    exact ⟨i + 1, le_rfl, by simp [hp], if_neg hp⟩

theorem reverse_takeWhile_eq_slice (hk : k ≤ i) (hi : i ≤ line.length)
    (h : (line.take i).reverse.dropWhile p = (line.take k).reverse) :
    ((line.take i).reverse.takeWhile p).reverse = slice line k i := by
  have hsplit := List.takeWhile_append_dropWhile (p := p) (l := (line.take i).reverse)
  rw [h] at hsplit
  have hrev := congrArg List.reverse hsplit
  rw [List.reverse_append, List.reverse_reverse, List.reverse_reverse] at hrev
  have hlen : (line.take k).length = k := List.length_take_of_le (by omega)
  conv_rhs => rw [slice, ← hrev]
  exact (List.drop_left' hlen).symm

theorem checkedKeyBefore_eq (hi : i ≤ line.length) :
    checkedKeyBefore line i = some (phoneKeyBefore line i) := by
  rw [checkedKeyBefore, phoneKeyBefore]
  obtain ⟨k₁, hk₁, hstep₁, hlist₁⟩ := stepBack_eq (p := (· == '(')) hi
  obtain ⟨k₂, hk₂, hstep₂, hlist₂⟩ := stepBack_eq (p := isQuote) (show k₁ ≤ line.length by omega)
  obtain ⟨k₃, hk₃, hstep₃, hlist₃⟩ :=
    skipBack_eq (p := isSpaceByte) (show k₂ ≤ line.length by omega) (show k₂ < line.length + 1 by omega)
  simp only [hstep₁, hlist₁, hstep₂, hlist₂, hstep₃, hlist₃, Option.bind_eq_bind, Option.bind_some]
  rw [readBack_eq (show k₃ ≤ line.length by omega), Option.bind_some]
  by_cases hsep : (!firstIs (line.take k₃).reverse fun c => c == ':' || c == '=') = true
  · rw [if_pos hsep, if_pos hsep]
    rfl
  rw [if_neg hsep, if_neg hsep]
  cases k₃ with
  | zero => exact absurd rfl hsep
  | succ k =>
    have hback : ((k + 1 : Nat) : Int) - 1 - 1 = (k : Int) - 1 := by omega
    have hdrop : (line.take (k + 1)).reverse.drop 1 = (line.take k).reverse := by
      rw [reverse_take_succ (by omega)]
      rfl
    obtain ⟨k₄, hk₄, hstep₄, hlist₄⟩ :=
      skipBack_eq (p := isSpaceByte) (show k ≤ line.length by omega) (show k < line.length + 1 by omega)
    obtain ⟨k₅, hk₅, hstep₅, hlist₅⟩ := stepBack_eq (p := isQuote) (show k₄ ≤ line.length by omega)
    obtain ⟨k₆, hk₆, hstep₆, hlist₆⟩ := skipBack_eq (p := fun c => isAlnumByte c || isKeyWordSep c)
      (show k₅ ≤ line.length by omega) (show k₅ < line.length + 1 by omega)
    simp only [hback, hdrop, hstep₄, hlist₄, hstep₅, hlist₅, hstep₆, Option.bind_some, Int.sub_add_cancel]
    rw [sliceBetween_eq hk₆ (by omega), reverse_takeWhile_eq_slice hk₆ (by omega) hlist₆]

def capWords (words : List Bytes) : List Bytes := if maxKeyWords < words.length then [] else words

def startsCamel (key : Bytes) (start i : Nat) : Bool :=
  !(slice key start i).isEmpty && isUpperASCII (byteAt key i) && isLowerASCII (lastByte (slice key start i))

theorem isEmpty_slice (hi : i ≤ key.length) : (slice key start i).isEmpty = !decide (start < i) := by
  rw [Bool.eq_iff_iff, List.isEmpty_iff_length_eq_zero, length_slice hi]
  simp
  omega

theorem readCamel (hi : i < key.length) :
    andThen (i != key.length && start < i && isUpperASCII (byteAt key i))
      ((readAt key ((i : Int) - 1)).map isLowerASCII) = some (startsCamel key start i) := by
  rw [startsCamel, isEmpty_slice hi.le, Bool.not_not]
  by_cases hlt : start < i
  · obtain ⟨j, rfl⟩ : ∃ j, i = j + 1 := ⟨i - 1, by omega⟩
    have hback : ((j + 1 : Nat) : Int) - 1 = (j : Nat) := by omega
    have hlast : lastByte (slice key start (j + 1)) = byteAt key j := by
      rw [slice_succ (by omega) (by omega), lastByte, List.getLastD_concat]
    have hne : (j + 1 != key.length) = true := by simpa using hi.ne
    rw [hback, readAt_eq (by omega), hlast, hne]
    simp [hlt]
  simp [hlt, andThen]

theorem push_word {U : Unicode} {parts rest : List Bytes} (hi : i ≤ key.length)
    (hstart : start ≤ i) (hparts : parts.length ≤ maxKeyWords) {go : List Bytes → Option (List Bytes)}
    (hgo : ∀ ps : List Bytes, ps.length ≤ maxKeyWords → go ps = some (capWords (ps ++ rest))) :
    (if start < i then
      if parts.length == maxKeyWords then some []
      else (sliceBetween key start i).bind fun word => go (parts ++ [U.toLowerString word])
    else go parts) =
      some (capWords (parts ++
        ((if (slice key start i).isEmpty then [] else [slice key start i]).map U.toLowerString ++ rest))) := by
  by_cases hlt : start < i
  · have hword : (slice key start i).isEmpty = false := by rw [isEmpty_slice hi, decide_eq_true hlt]; rfl
    rw [if_pos hlt, hword, sliceBetween_eq hstart hi]
    by_cases hfull : parts.length = maxKeyWords
    · simp only [hfull, beq_self_eq_true, if_true, capWords]
      rw [if_pos]
      simp [hfull]
    grind
  obtain rfl : start = i := by omega
  rw [if_neg hlt, slice_self, hgo _ hparts]
  rfl

theorem splitFrom_eq {parts : List Bytes} (hi : i ≤ key.length)
    (hstart : start ≤ i) (hfuel : key.length + 1 < fuel + i) (hparts : parts.length ≤ maxKeyWords) :
    splitFrom U key fuel i start parts =
      some (capWords (parts ++ (keyWordsFrom (slice key start i) (key.drop i)).map U.toLowerString)) := by
  induction fuel generalizing i start parts with
  | zero => omega
  | succ fuel ih =>
    rw [splitFrom, if_neg (Nat.not_lt.mpr hi)]
    by_cases hend : i = key.length
    · subst hend
      have hlast (ps : List Bytes) (hps : ps.length ≤ maxKeyWords) :
          splitFrom U key fuel (key.length + 1) key.length ps = some (capWords (ps ++ [])) := by
        obtain ⟨fuel, rfl⟩ : ∃ k, fuel = k + 1 := ⟨fuel - 1, by omega⟩
        rw [splitFrom, if_pos (Nat.lt_succ_self _), List.append_nil, capWords, if_neg (Nat.not_lt.mpr hps)]
        rfl
      have hnil : key.drop key.length = [] := List.drop_length
      have hpush := push_word (U := U) hi hstart hparts hlast
      rw [readIf_eq, hnil, readWhen_eq (by simp)]
      simp only [keyWordsFrom, List.append_nil] at hpush ⊢
      simpa [firstIs, andThen] using hpush
    have hlt : i < key.length := by omega
    have hdrop : key.drop i = byteAt key i :: key.drop (i + 1) := by
      rw [List.drop_eq_getElem_cons hlt, byteAt_eq hlt]
    have hle : i + 1 ≤ key.length := by omega
    have hnext (start' : Nat) (hstart' : start' ≤ i + 1) (ps : List Bytes) (hps : ps.length ≤ maxKeyWords) :=
      ih hle hstart' (by omega) hps
    rw [readIf_eq, readWhen_eq (fun _ => hlt), hdrop, keyWordsFrom]
    simp only [Option.bind_eq_bind, Option.bind_some, firstIs, List.head?_cons, Option.any_some, readCamel hlt]
    have hcondition : (!(slice key start i).isEmpty && isUpperASCII (byteAt key i) &&
        isLowerASCII (lastByte (slice key start i))) = startsCamel key start i := rfl
    rw [hcondition]
    by_cases hsep : isKeyWordSep (byteAt key i) = true
    · have hpush := push_word (U := U) hi hstart hparts (hnext (i + 1) le_rfl)
      rw [slice_self] at hpush
      simpa [hsep] using hpush
    have hone : slice key i (i + 1) = [byteAt key i] := by rw [slice_succ le_rfl hlt, slice_self]; rfl
    cases hcamel : startsCamel key start i with
    | true =>
      have hpush := push_word (U := U) hi hstart hparts (hnext i (Nat.le_succ i))
      simp_all
    | false =>
      grind [slice_succ]

theorem checkedSplitKeyWords_eq (key : Bytes) :
    checkedSplitKeyWords U key = some (splitKeyWords U key) := by
  rw [checkedSplitKeyWords, splitKeyWords]
  split
  · rfl
  rw [splitFrom_eq U (Nat.zero_le _) le_rfl (by omega) (by simp), slice_self, List.drop_zero, List.nil_append, capWords,
    List.length_map]

section WordReads

variable {parts : List Bytes}

theorem readWord_eq (hk : k < parts.length) : readWord parts k = some (wordFromEnd parts k) := by
  simp [readWord, wordFromEnd, List.getD_eq_getElem?_getD, hk]

theorem readWordIf {guard : Bool} (hk : guard = true → k < parts.length) (p : Bytes → Bool) :
    andThen guard ((readWord parts k).map p) = some (guard && p (wordFromEnd parts k)) := by
  cases guard with
  | false => rfl
  | true =>
    rw [readWord_eq (hk rfl)]
    rfl

variable (hne : parts ≠ [])
include hne

theorem checkedPhoneKeyWords_eq : checkedPhoneKeyWords parts = some (isPhoneKeyWords parts) := by
  have hpos : 0 < parts.length := List.length_pos_iff.mpr hne
  grind [checkedPhoneKeyWords, isPhoneKeyWords, readWord_eq, Option.bind_eq_bind,
    readWordIf, isNumberSuffix]

theorem checkedIDKeyWords_eq : checkedIDKeyWords parts = some (isIDKeyWords parts) := by
  have hpos : 0 < parts.length := List.length_pos_iff.mpr hne
  rw [checkedIDKeyWords, isIDKeyWords, readWord_eq hpos]
  simp only [Option.bind_eq_bind, Option.bind_some]
  generalize hstrip : (isNumberSuffix (wordFromEnd parts 0) && decide (2 ≤ parts.length)) = stripped
  have hleft : 0 < (if stripped then parts.dropLast else parts).length := by grind
  generalize (if stripped then parts.dropLast else parts) = left at hleft ⊢
  rw [readWord_eq hleft]
  simp only [Option.bind_some]
  by_cases hprev : 2 ≤ left.length
  · rw [if_pos hprev, readWord_eq (by omega)]
    simp only [Option.bind_some]
    split_ifs <;> rfl
  have hnone : wordFromEnd left 1 = [] := by
    rw [wordFromEnd, List.getD_eq_getElem?_getD, List.getElem?_eq_none (by simp; omega)]
    rfl
  rw [if_neg hprev, hnone]
  split_ifs <;> rfl

theorem checkedSessionKeyWords_eq : checkedSessionKeyWords parts = some (isSessionKeyWords parts) := by
  have hpos : 0 < parts.length := List.length_pos_iff.mpr hne
  rw [checkedSessionKeyWords, isSessionKeyWords, readWord_eq hpos]
  simp only [Option.bind_eq_bind, Option.bind_some]
  split
  · next h =>
    simp only [Bool.and_eq_true, decide_eq_true_eq] at h
    rw [readWord_eq (by omega)]
    rfl
  rfl

theorem checkedOTPKeyWords_eq : checkedOTPKeyWords parts = some (isOTPKeyWords parts) := by
  have hpos : 0 < parts.length := List.length_pos_iff.mpr hne
  grind [checkedOTPKeyWords, isOTPKeyWords, readWord_eq, readWordIf]

theorem checkedDOBKeyWords_eq : checkedDOBKeyWords parts = some (isDOBKeyWords parts) := by
  have hpos : 0 < parts.length := List.length_pos_iff.mpr hne
  grind [checkedDOBKeyWords, isDOBKeyWords, readWord_eq, readWordIf]

end WordReads

theorem checkedKeyedNumber_eq (hi : isDigitAt line i = true) :
    checkedKeyedNumber U line i = some (matchKeyedNumber U line i) := by
  have hlt := (isDigitAt_iff.mp hi).1
  rw [checkedKeyedNumber, checkedKeyBefore_eq hlt.le, matchKeyedNumber]
  simp only [Option.bind_eq_bind, Option.bind_some, checkedSplitKeyWords_eq]
  by_cases hkey : (phoneKeyBefore line i).isEmpty = true
  · simp [hkey]
  by_cases hwords : (splitKeyWords U (phoneKeyBefore line i)).isEmpty = true
  · simp [hkey, hwords]
  have hne : splitKeyWords U (phoneKeyBefore line i) ≠ [] := by simpa using hwords
  simp only [hkey, hwords, Bool.or_self, Bool.false_eq_true, if_false, checkedPhoneKeyWords_eq hne,
    checkedIDKeyWords_eq hne, checkedSessionKeyWords_eq hne, checkedOTPKeyWords_eq hne, checkedDOBKeyWords_eq hne,
    checkedKeyedPhone_eq, checkedGroupedDigits_eq hi, checkedSessionNumber_eq, checkedKeyedDate_eq, Option.bind_some]
  split_ifs <;> rfl

theorem checkedGluedAfter_eq (line : Bytes) (stop : Nat) :
    checkedGluedAfter line stop = some (phoneGluedAfter line stop) := by
  rw [checkedGluedAfter, phoneGluedAfter]
  by_cases hle : line.length ≤ stop
  · rw [if_pos hle, List.drop_eq_nil_of_le hle]
    rfl
  have hlt := Nat.not_le.mp hle
  rw [if_neg hle, readAt_eq hlt, List.drop_eq_getElem_cons hlt, ← byteAt_eq hlt, readIf_eq]
  simp only [Option.bind_eq_bind, Option.bind_some, andThen_some]
  grind

theorem checkedSkipPhoneRun_eq (hi : i < line.length) :
    checkedSkipPhoneRun line i = some (skipPhoneRun line i) := by
  rw [checkedSkipPhoneRun, skipPhoneRun, readAt_eq hi, isDigitAt, firstIs_drop_eq]
  simp only [Option.bind_eq_bind, Option.bind_some, hi, decide_true, Bool.true_and, checkedDigits_eq]
  split <;> rfl

theorem checkedInsideURL_eq (hi : i ≤ line.length) : checkedInsideURL line i = some (insideURL line i) := by
  induction i with
  | zero => rfl
  | succ j ih =>
    rw [checkedInsideURL, insideURL, readAt_eq hi, sliceFrom_eq (by omega), ih (by omega)]
    simp only [Option.bind_eq_bind, Option.bind_some, Option.map_some, andThen_some]
    split_ifs <;> rfl

theorem checkedShapedNumber_eq (hi : i < line.length)
    (hstart : isNumberStart (byteAt line i) = true) :
    checkedShapedNumber U line i = some (matchShapedNumber U line i) := by
  rw [checkedShapedNumber, matchShapedNumber, readAt_eq hi]
  simp only [Option.bind_eq_bind, Option.bind_some, checkedInternationalPhone_eq, checkedNANPPhone_eq]
  split_ifs with hplus hphone
  · rfl
  · rfl
  refine checkedKeyedNumber_eq U (isDigitAt_iff.mpr ⟨hi, ?_⟩)
  simp_all [isNumberStart]

theorem lt_skipPhoneRun (line : Bytes) (i : Nat) : i < skipPhoneRun line i := by
  grind [skipPhoneRun, isDigitAt, spanDigits_pos]

theorem checkedShapedNumbersFrom_eq (hleft : line.length - i ≤ left)
    (hfuel : line.length - i < fuel) :
    checkedShapedNumbersFrom U line fuel i = some (shapedNumbersFrom U line left i) := by
  induction fuel generalizing left i with
  | zero => omega
  | succ fuel ih =>
    by_cases hi : line.length ≤ i
    · cases left <;> simp [checkedShapedNumbersFrom, shapedNumbersFrom, hi]
    obtain ⟨left, rfl⟩ : ∃ k, left = k + 1 := ⟨left - 1, by omega⟩
    have hlt := Nat.not_le.mp hi
    have hskip := lt_skipPhoneRun line i
    rw [checkedShapedNumbersFrom, shapedNumbersFrom, if_neg hi, if_neg hi, readAt_eq hlt,
      readBefore_eq hlt phoneGlue,
      checkedSkipPhoneRun_eq hlt, checkedInsideURL_eq hlt.le]
    simp only [Option.bind_eq_bind, Option.bind_some, Option.map_some]
    by_cases hc : (byteAt line i != '+' && byteAt line i != '(' && !isASCIIDigit (byteAt line i)) = true
    · rw [if_pos hc, if_pos hc]
      exact ih (by omega) (by omega)
    rw [if_neg hc, if_neg hc]
    split
    · exact ih (by omega) (by omega)
    have hstart : isNumberStart (byteAt line i) = true := by
      simp only [isNumberStart]
      grind
    rw [checkedShapedNumber_eq U hlt hstart]
    rcases hm : matchShapedNumber U line i with ⟨stop, label⟩
    simp only [checkedGluedAfter_eq, Option.bind_some, Option.map_some, andThen_some]
    split
    · next hfound =>
      simp only [Bool.and_eq_true, decide_eq_true_eq] at hfound
      have hne : (matchShapedNumber U line i).1 ≠ 0 := by
        rw [hm]
        exact Nat.ne_of_gt hfound.1.1
      have hst := matchShapedNumber_stops hne
      rw [hm] at hst
      have hstop : i < stop := hst.lt
      grind
    exact ih (by omega) (by omega)

theorem checkedFindShapedNumbers_eq (line : Bytes) :
    checkedFindShapedNumbers U line = some (findShapedNumbers U line) := by
  grind [checkedFindShapedNumbers, findShapedNumbers, checkedShapedNumbersFrom_eq]

theorem mergeCarvesFrom_nums {nums : List ShapedNumber} (h : nums.length ≤ left) :
    mergeCarvesFrom left [] nums = nums.map fun n => ⟨n.toRange, n.label⟩ := by
  cases left with
  | zero =>
    obtain rfl := List.length_eq_zero_iff.mp (Nat.le_zero.mp h)
    rfl
  | succ left => simp [mergeCarvesFrom]

theorem mergeCarvesFrom_cards {cards : List Range} (h : cards.length ≤ left) :
    mergeCarvesFrom left cards [] = cards.map fun c => ⟨c, []⟩ := by
  cases left with
  | zero =>
    obtain rfl := List.length_eq_zero_iff.mp (Nat.le_zero.mp h)
    rfl
  | succ left => cases cards <;> simp [mergeCarvesFrom]

theorem checkedMergeFrom_eq {cards : List Range} {nums : List ShapedNumber} {j : Nat}
    (hleft : (cards.length - i) + (nums.length - j) ≤ left) (hfuel : (cards.length - i) + (nums.length - j) < fuel) :
    checkedMergeFrom cards nums fuel i j = some (mergeCarvesFrom left (cards.drop i) (nums.drop j)) := by
  induction fuel generalizing left i j with
  | zero => omega
  | succ fuel ih =>
    rw [checkedMergeFrom]
    by_cases hj : nums.length ≤ j
    · have hnums : nums.drop j = [] := List.drop_eq_nil_of_le hj
      by_cases hi : cards.length ≤ i
      · simp_all [List.drop_eq_nil_of_le, mergeCarvesFrom_nums]
      have hlt := Nat.not_le.mp hi
      rw [if_neg (by simp; omega), if_pos hj, List.getElem?_eq_getElem hlt, hnums,
        mergeCarvesFrom_cards (by simp; omega), List.drop_eq_getElem_cons hlt]
      simp only [Option.bind_eq_bind, Option.bind_some]
      have hrest : cards.length - (i + 1) + (nums.length - j) ≤ left := by omega
      rw [ih hrest (by omega), hnums, mergeCarvesFrom_cards (by simp; omega)]
      rfl
    have hlt := Nat.not_le.mp hj
    rw [if_neg (by simp; omega), if_neg hj, List.getElem?_eq_getElem hlt]
    by_cases hi : cards.length ≤ i
    · have hcards : cards.drop i = [] := List.drop_eq_nil_of_le hi
      rw [if_pos hi, hcards, mergeCarvesFrom_nums (by simp; omega), List.drop_eq_getElem_cons hlt]
      simp only [Option.bind_eq_bind, Option.bind_some]
      have hrest : cards.length - i + (nums.length - (j + 1)) ≤ left := by omega
      rw [ih hrest (by omega), hcards, mergeCarvesFrom_nums (by simp; omega)]
      rfl
    have hilt := Nat.not_le.mp hi
    obtain ⟨left, rfl⟩ : ∃ k, left = k + 1 := ⟨left - 1, by omega⟩
    rw [if_neg hi, List.getElem?_eq_getElem hilt, List.drop_eq_getElem_cons hlt, List.drop_eq_getElem_cons hilt,
      mergeCarvesFrom, ← List.drop_eq_getElem_cons hlt, ← List.drop_eq_getElem_cons hilt]
    grind

theorem checkedMergeCarves_eq (cards : List Range) (nums : List ShapedNumber) :
    checkedMergeCarves cards nums = some (mergeCarves cards nums) :=
  checkedMergeFrom_eq le_rfl (Nat.lt_succ_self _)

/-- The numbers of a line: every read on the way to them is in range and the search ends; they are not
empty, in the line, in order without a position twice, and each starts as a number that continues no
letter or digit. Merged with card ranges in order they are all kept, with the cards that overlap none
of them. -/
theorem shaped_numbers_well_formed (U : Unicode) (line : Bytes) :
    checkedFindShapedNumbers U line = some (findShapedNumbers U line) ∧
    (∀ n ∈ findShapedNumbers U line, n.start < n.stop ∧ n.stop ≤ line.length ∧
      isNumberStart (byteAt line n.start) = true ∧ (0 < n.start → isAlnumByte (byteAt line (n.start - 1)) = false)) ∧
    (findShapedNumbers U line).Pairwise (·.stop ≤ ·.start) ∧
    ∀ (cards : List Range) (nums : List ShapedNumber), InOrder cards nums →
      checkedMergeCarves cards nums = some (mergeCarves cards nums) ∧
      (mergeCarves cards nums).Pairwise (·.stop ≤ ·.start) ∧
      ∀ cv, cv ∈ mergeCarves cards nums ↔
        (∃ n ∈ nums, cv = ⟨n.toRange, n.label⟩) ∨
          ∃ c ∈ cards, cv = ⟨c, []⟩ ∧ ∀ n ∈ nums, ¬ c.Overlaps n.toRange := by
  refine ⟨checkedFindShapedNumbers_eq U line, fun n hn => ?_, ?_, fun cards nums h => ?_⟩
  · have hat := mem_findShapedNumbers hn
    refine ⟨hat.stops.lt, hat.stops.le, hat.first, fun hpos => ?_⟩
    have hglue := not_glued_of_mem hn hpos
    rw [phoneGlue] at hglue
    simp only [Bool.or_eq_false_iff] at hglue
    rw [isAlnumByte, hglue.1.1.1.1.1.1.1.1, hglue.1.1.1.1.1.1.1.2]
    rfl
  · exact (pairwise_findShapedNumbers U line).imp Nat.le_of_lt
  exact ⟨checkedMergeCarves_eq cards nums, pairwise_mergeCarvesFrom h le_rfl,
    fun cv => mem_mergeCarvesFrom h le_rfl⟩

/-- A phone and a card behind it. -/
theorem shaped_numbers_well_formed_phone :
    InOrder [⟨13, 29⟩] (findShapedNumbers .ascii (bs "415-234-5678 4111111111111111")) ∧
      (mergeCarves [⟨13, 29⟩] (findShapedNumbers .ascii (bs "415-234-5678 4111111111111111"))).Pairwise
        (·.stop ≤ ·.start) := by
  have h : InOrder [⟨13, 29⟩] (findShapedNumbers .ascii (bs "415-234-5678 4111111111111111")) :=
    ⟨by simp, by simp, by decide, by decide⟩
  exact ⟨h, ((shaped_numbers_well_formed .ascii (bs "415-234-5678 4111111111111111")).2.2.2 _ _ h).2.1⟩

end PiiShield
