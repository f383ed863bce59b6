import PiiShield.Safe
import PiiShield.Trimming

/-! Standard base64: what is encoded decodes to itself, and every byte of a text that decodes
is one of the alphabet or the padding. -/

namespace PiiShield

variable {c : UInt8} {n : Nat}

def base64Char (n : Nat) : UInt8 :=
  if n < 26 then .ofNat (0x41 + n)
  else if n < 52 then .ofNat (0x61 + (n - 26))
  else if n < 62 then .ofNat (0x30 + (n - 52))
  else if n = 62 then '+'
  else '/'

def base64Encode : Bytes → Bytes
  | a :: b :: c :: t =>
    base64Char (a.toNat / 4) :: base64Char (a.toNat % 4 * 16 + b.toNat / 16) ::
      base64Char (b.toNat % 16 * 4 + c.toNat / 64) :: base64Char (c.toNat % 64) :: base64Encode t
  | [a, b] =>
    [base64Char (a.toNat / 4), base64Char (a.toNat % 4 * 16 + b.toNat / 16), base64Char (b.toNat % 16 * 4), '=']
  | [a] => [base64Char (a.toNat / 4), base64Char (a.toNat % 4 * 16), '=', '=']
  | [] => []

theorem base64Value_base64Char (h : n < 64) : base64Value (base64Char n) = some n := by
  have hall : ∀ n < 64, base64Value (base64Char n) = some n := by decide
  exact hall n h

theorem base64Char_ne_pad (h : n < 64) : (base64Char n == chr '=') = false := by
  have hall : ∀ n < 64, (base64Char n == chr '=') = false := by decide
  exact hall n h

theorem ofNat_toNat_eq {x : UInt8} (h : n = x.toNat) : UInt8.ofNat n = x := by
  rw [h, UInt8.ofNat_toNat]

theorem base64Decode_base64Encode (s : Bytes) : base64Decode (base64Encode s) = some s := by
  match s with
  | [] => rfl
  | [a] =>
    have ha := a.toNat_lt
    rw [base64Encode, base64Decode, base64Value_base64Char (by omega), base64Value_base64Char (by omega)]
    simp only [Option.bind_eq_bind, Option.bind_some]
    rw [if_pos (by decide), if_pos (by decide), ofNat_toNat_eq (x := a) (by omega)]
  | [a, b] =>
    have ha := a.toNat_lt
    have hb := b.toNat_lt
    rw [base64Encode, base64Decode, base64Value_base64Char (by omega), base64Value_base64Char (by omega),
      base64Value_base64Char (by omega)]
    simp only [Option.bind_eq_bind, Option.bind_some]
    rw [base64Char_ne_pad (by omega), if_neg Bool.false_ne_true, if_pos (by decide), if_pos (by decide),
      ofNat_toNat_eq (x := a) (by omega), ofNat_toNat_eq (x := b) (by omega)]
  | a :: b :: c :: t =>
    have ha := a.toNat_lt
    have hb := b.toNat_lt
    have hc := c.toNat_lt
    rw [base64Encode, base64Decode, base64Value_base64Char (by omega), base64Value_base64Char (by omega),
      base64Value_base64Char (by omega), base64Value_base64Char (by omega), base64Decode_base64Encode t]
    simp only [Option.bind_eq_bind, Option.bind_some]
    rw [base64Char_ne_pad (by omega), if_neg Bool.false_ne_true, base64Char_ne_pad (by omega),
      if_neg Bool.false_ne_true, ofNat_toNat_eq (x := a) (by omega), ofNat_toNat_eq (x := b) (by omega),
      ofNat_toNat_eq (x := c) (by omega)]

def isBase64Byte (c : UInt8) : Bool := (base64Value c).isSome || c == '='

theorem isBase64Byte_of_value (h : base64Value c = some n) : isBase64Byte c = true := by
  simp [isBase64Byte, h]

theorem isBase64Byte_of_pad (h : (c == chr '=') = true) : isBase64Byte c = true := by
  rw [isBase64Byte, h, Bool.or_true]

theorem all_isBase64Byte {s r : Bytes} (h : base64Decode s = some r) : s.all isBase64Byte = true := by
  match s with
  | [] => rfl
  | [_] => cases h
  | [_, _] => cases h
  | [_, _, _] => cases h
  | a :: b :: c :: d :: t =>
    rw [base64Decode] at h
    simp only [Option.bind_eq_bind, Option.bind_eq_some_iff] at h
    obtain ⟨x, hx, y, hy, h⟩ := h
    have hab : isBase64Byte a = true ∧ isBase64Byte b = true :=
      ⟨isBase64Byte_of_value hx, isBase64Byte_of_value hy⟩
    by_cases hc : (c == chr '=') = true
    · rw [if_pos hc] at h
      by_cases hd : (d == chr '=' && t.isEmpty) = true
      · rw [Bool.and_eq_true, List.isEmpty_iff] at hd
        simp [hab, isBase64Byte_of_pad hc, isBase64Byte_of_pad hd.1, hd.2]
      rw [if_neg hd] at h
      cases h
    rw [if_neg hc, Option.bind_eq_some_iff] at h
    obtain ⟨z, hz, h⟩ := h
    by_cases hd : (d == chr '=') = true
    · simp_all [List.isEmpty_iff, isBase64Byte_of_value, isBase64Byte_of_pad]
    rw [if_neg hd, Option.bind_eq_some_iff] at h
    obtain ⟨w, hw, h⟩ := h
    rw [Option.bind_eq_some_iff] at h
    obtain ⟨rest, hrest, -⟩ := h
    simp [hab, isBase64Byte_of_value hz, isBase64Byte_of_value hw, all_isBase64Byte hrest]

theorem isBase64Byte_plain (h : isBase64Byte c = true) : isASCII c = true ∧ isSpaceRune c.toNat = false := by
  have hall : ∀ c : UInt8, isBase64Byte c = true → isASCII c = true ∧ isSpaceRune c.toNat = false := by
    refine forall_byte ?_
    decide +kernel
  exact hall c h

end PiiShield
