import PiiShield.Utf8

/-! Well-formed UTF-8 cuts at every character: decoding reads one whole encoding, and a
valid text splits into valid texts wherever the second part does not start inside one. -/

namespace PiiShield

variable {b b0 b1 : UInt8} {c s t : Bytes} {r : Nat}

/-- The bytes `c` are one encoding, of rune `r`, whatever follows. -/
structure Encodes (c : Bytes) (r : Nat) : Prop where
  lead : ∃ b t, c = b :: t ∧ isCont b = false ∧ t.all isCont
  decode : ∀ x, decodeRune (c ++ x) = (r, c.length)
  proper : (r, c.length) ≠ (runeError, 1)
  encode : encodeRune r = c

theorem encodeRune_two (h1 : 0x80 ≤ r) (h2 : r < 0x800) :
    encodeRune r = [UInt8.ofNat (0xC0 + r / 64), UInt8.ofNat (0x80 + r % 64)] := by
  grind [isScalar, encodeRune]

theorem encodeRune_three (h1 : 0x800 ≤ r) (h2 : r < 0x10000) (hs : isScalar r = true) : encodeRune r =
      [UInt8.ofNat (0xE0 + r / 4096), UInt8.ofNat (0x80 + r / 64 % 64),
        UInt8.ofNat (0x80 + r % 64)] := by
  have h : ¬ r < 0x80 := by omega
  simp [encodeRune, hs, h, h1.not_gt, h2]

theorem encodeRune_four (h1 : 0x10000 ≤ r) (hs : isScalar r = true) : encodeRune r =
      [UInt8.ofNat (0xF0 + r / 262144), UInt8.ofNat (0x80 + r / 4096 % 64),
        UInt8.ofNat (0x80 + r / 64 % 64), UInt8.ofNat (0x80 + r % 64)] := by
  grind [encodeRune]

theorem ofNat_eq {n : Nat} (h : n = b.toNat) : UInt8.ofNat n = b := by
  subst h
  simp

theorem le_toNat_le {l h : UInt8} (hb : (l ≤ b && b ≤ h) = true) : l.toNat ≤ b.toNat ∧ b.toNat ≤ h.toNat := by
  simpa [UInt8.le_iff_toNat_le] using hb

theorem isCont_iff : isCont b = true ↔ 0x80 ≤ b.toNat ∧ b.toNat ≤ 0xBF := by
  simp [isCont, UInt8.le_iff_toNat_le]

theorem secondOk_iff : secondOk b0 b1 = true ↔
    (if b0.toNat = 0xE0 then 0xA0 else if b0.toNat = 0xF0 then 0x90 else 0x80) ≤ b1.toNat ∧
      b1.toNat ≤ if b0.toNat = 0xED then 0x9F else if b0.toNat = 0xF4 then 0x8F else 0xBF := by
  have h (x : UInt8) : b0 = x ↔ b0.toNat = x.toNat := UInt8.toNat_inj.symm
  simp only [secondOk, Bool.and_eq_true, decide_eq_true_eq, UInt8.le_iff_toNat_le, beq_iff_eq, h]
  simp only [UInt8.reduceToNat]
  refine and_congr ?_ ?_ <;> split_ifs <;> simp

theorem isCont_of_secondOk (h : secondOk b0 b1 = true) : isCont b1 = true := by
  simp only [secondOk, Bool.and_eq_true, decide_eq_true_eq] at h
  simp only [isCont, Bool.and_eq_true, decide_eq_true_eq]
  grind

theorem not_isCont_of_isASCII (h : isASCII b = true) : isCont b = false := by
  simp only [isASCII, decide_eq_true_eq] at h
  simp only [isCont, Bool.and_eq_false_iff, decide_eq_false_iff_not]
  grind

theorem encodes_one (h : b < 0x80) : Encodes [b] b.toNat where
  lead := ⟨b, [], rfl, not_isCont_of_isASCII (by simpa [isASCII] using h), rfl⟩
  decode x := by simp [decodeRune, h]
  proper := by
    grind [UInt8.lt_iff_toNat_lt, runeError]
  encode := by
    have hb : b.toNat < 0x80 := by simpa [UInt8.lt_iff_toNat_lt] using h
    have hs : isScalar b.toNat = true := by simp [isScalar]; omega
    simp [encodeRune, hs, hb]

theorem encodes_two (h0 : (0xC2 ≤ b0 && b0 ≤ 0xDF) = true) (h1 : isCont b1 = true) :
    Encodes [b0, b1] ((b0.toNat - 0xC0) * 64 + (b1.toNat - 0x80)) where
  lead := ⟨b0, [b1], rfl, by simp [isCont] at *; grind, by simp [h1]⟩
  decode x := by
    have hlt : ¬ b0 < 0x80 := by simp at h0; grind
    simp [decodeRune, hlt, h0, h1]
  proper := by simp
  encode := by
    have hb : 0xC2 ≤ b0.toNat ∧ b0.toNat ≤ 0xDF := le_toNat_le h0
    have hc := isCont_iff.mp h1
    rw [encodeRune_two (by omega) (by omega), ofNat_eq (b := b0) (by omega),
      ofNat_eq (b := b1) (by omega)]

theorem encodes_three {b2 : UInt8} (h0 : (0xE0 ≤ b0 && b0 ≤ 0xEF) = true)
    (h1 : secondOk b0 b1 = true) (h2 : isCont b2 = true) :
    Encodes [b0, b1, b2]
      ((b0.toNat - 0xE0) * 4096 + (b1.toNat - 0x80) * 64 + (b2.toNat - 0x80)) where
  lead := ⟨b0, [b1, b2], rfl, by simp [isCont] at *; grind, by simp [isCont_of_secondOk h1, h2]⟩
  decode x := by
    have hlt : ¬ b0 < 0x80 := by simp at h0; grind
    have hne : (0xC2 ≤ b0 && b0 ≤ 0xDF) = false := by simp at h0 ⊢; grind
    simp [decodeRune, hlt, h0, h1, h2, hne]
  proper := by simp
  encode := by
    have hb : 0xE0 ≤ b0.toNat ∧ b0.toNat ≤ 0xEF := le_toNat_le h0
    have hs := secondOk_iff.mp h1
    have hc := isCont_iff.mp h2
    rw [encodeRune_three (by grind) (by grind) (by simp [isScalar]; grind), ofNat_eq (b := b0) (by grind),
      ofNat_eq (b := b1) (by grind), ofNat_eq (b := b2) (by grind)]

theorem encodes_four {b2 b3 : UInt8} (h0 : (0xF0 ≤ b0 && b0 ≤ 0xF4) = true)
    (h1 : secondOk b0 b1 = true) (h2 : isCont b2 = true) (h3 : isCont b3 = true) :
    Encodes [b0, b1, b2, b3]
      ((b0.toNat - 0xF0) * 262144 + (b1.toNat - 0x80) * 4096 + (b2.toNat - 0x80) * 64 +
        (b3.toNat - 0x80)) where
  lead :=
    ⟨b0, [b1, b2, b3], rfl, by simp [isCont] at *; grind, by simp [isCont_of_secondOk h1, h2, h3]⟩
  decode x := by
    have hlt : ¬ b0 < 0x80 := by simp at h0; grind
    have hne : (0xC2 ≤ b0 && b0 ≤ 0xDF) = false := by simp at h0 ⊢; grind
    have hne' : (0xE0 ≤ b0 && b0 ≤ 0xEF) = false := by simp at h0 ⊢; grind
    simp [decodeRune, hlt, h0, h1, h2, h3, hne, hne']
  proper := by simp
  encode := by
    have hb : 0xF0 ≤ b0.toNat ∧ b0.toNat ≤ 0xF4 := le_toNat_le h0
    have hs := secondOk_iff.mp h1
    have hc := isCont_iff.mp h2
    have hc' := isCont_iff.mp h3
    rw [encodeRune_four (by grind) (by simp [isScalar]; grind), ofNat_eq (b := b0) (by grind),
      ofNat_eq (b := b1) (by grind), ofNat_eq (b := b2) (by grind), ofNat_eq (b := b3) (by grind)]

theorem decodeRune_cons (b : UInt8) (t : Bytes) : decodeRune (b :: t) = (runeError, 1) ∨
      ∃ c rest r, b :: t = c ++ rest ∧ decodeRune (b :: t) = (r, c.length) ∧ Encodes c r := by
  have whole : ∀ {c rest r}, b :: t = c ++ rest → Encodes c r →
      ∃ c rest r, b :: t = c ++ rest ∧ decodeRune (b :: t) = (r, c.length) ∧ Encodes c r :=
    fun {c rest r} hs he => ⟨c, rest, r, hs, hs ▸ he.decode rest, he⟩
  by_cases h1 : b < 0x80
  · exact .inr (whole (c := [b]) rfl (encodes_one h1))
  by_cases h2 : (0xC2 ≤ b && b ≤ 0xDF) = true
  · match t with
    | [] => left; simp [decodeRune, h1]
    | b1 :: t =>
      by_cases hb : isCont b1 = true
      · exact .inr (whole (c := [b, b1]) rfl (encodes_two h2 hb))
      left; simp only [decodeRune, h1, h2, hb, if_false, if_true]; rfl
  by_cases h3 : (0xE0 ≤ b && b ≤ 0xEF) = true
  · match t with
    | [] => left; simp [decodeRune, h1]
    | [b1] => left; simp only [decodeRune, h1, h2, if_false]; simp
    | b1 :: b2 :: t =>
      by_cases hb : (secondOk b b1 && isCont b2) = true
      · rw [Bool.and_eq_true] at hb
        exact .inr (whole (c := [b, b1, b2]) rfl (encodes_three h3 hb.1 hb.2))
      left; simp only [decodeRune, h1, h2, h3, hb, if_false, if_true]; rfl
  by_cases h4 : (0xF0 ≤ b && b ≤ 0xF4) = true
  · match t with
    | [] => left; simp [decodeRune, h1]
    | [b1] => left; simp only [decodeRune, h1, h2, h3, if_false]; simp
    | [b1, b2] => left; simp only [decodeRune, h1, h2, h3, if_false]; simp
    | b1 :: b2 :: b3 :: t =>
      by_cases hb : (secondOk b b1 && isCont b2 && isCont b3) = true
      · simp only [Bool.and_eq_true] at hb
        exact .inr (whole (c := [b, b1, b2, b3]) rfl (encodes_four h4 hb.1.1 hb.1.2 hb.2))
      left; simp only [decodeRune, h1, h2, h3, h4, hb, if_false, if_true]; rfl
  left; simp only [decodeRune, h1, h2, h3, h4, if_false]; rfl

theorem decodeRune_width_pos (b : UInt8) (t : Bytes) : 1 ≤ (decodeRune (b :: t)).2 := by
  rcases decodeRune_cons b t with h | ⟨c, rest, r, -, h, he⟩
  · simp [h]
  obtain ⟨x, y, rfl, -⟩ := he.lead
  simp [h]

theorem decodeRune_width_le (s : Bytes) : (decodeRune s).2 ≤ s.length := by
  match s with
  | [] => simp [decodeRune]
  | b :: t =>
    rcases decodeRune_cons b t with h | ⟨c, rest, r, hs, h, -⟩
    · simp [h]
    rw [h, hs]
    simp

theorem runesFrom_skip (k : Nat) (s : Bytes) : runesFrom k s = runesFrom 0 (s.drop k) := by
  induction s generalizing k with
  | nil => cases k <;> simp [runesFrom]
  | cons b t ih =>
    cases k with
    | zero => rfl
    | succ k => simpa [runesFrom] using ih k

theorem runesFrom_cons (b : UInt8) (t : Bytes) : runesFrom 0 (b :: t) =
      decodeRune (b :: t) :: runesFrom 0 ((b :: t).drop (decodeRune (b :: t)).2) := by
  have hw := decodeRune_width_pos b t
  obtain ⟨w, hw'⟩ : ∃ w, (decodeRune (b :: t)).2 = w + 1 := ⟨_, (Nat.sub_add_cancel hw).symm⟩
  rw [runesFrom, runesFrom_skip, hw']
  rfl

@[simp] theorem utf8Valid_nil : utf8Valid [] = true := rfl

theorem Encodes.runesFrom_append (h : Encodes c r) (t : Bytes) :
    runesFrom 0 (c ++ t) = (r, c.length) :: runesFrom 0 t := by
  obtain ⟨b, c', rfl, -⟩ := h.lead
  have hd := h.decode t
  rw [List.cons_append] at hd ⊢
  rw [runesFrom_cons, hd]
  simp

theorem Encodes.utf8Valid_append (h : Encodes c r) (t : Bytes) : utf8Valid (c ++ t) = utf8Valid t := by
  have hne : ((r, c.length) != (runeError, 1)) = true := by simpa using h.proper
  simp [h.runesFrom_append, hne, utf8Valid]

theorem Encodes.valid (h : Encodes c r) : utf8Valid c = true := by
  simpa using h.utf8Valid_append []

theorem utf8Valid_cons (h : utf8Valid (b :: t) = true) :
    ∃ c rest r, b :: t = c ++ rest ∧ Encodes c r ∧ utf8Valid rest = true := by
  grind [decodeRune_cons, utf8Valid, runesFrom_cons]

theorem utf8Valid_induction {P : Bytes → Prop} (nil : P [])
    (append : ∀ c r t, Encodes c r → utf8Valid t = true → P t → P (c ++ t))
    (hs : utf8Valid s = true) : P s := by
  induction hn : s.length using Nat.strong_induction_on generalizing s with
  | _ n ih =>
    match s with
    | [] => exact nil
    | b :: t =>
      obtain ⟨c, rest, r, hbt, he, hv⟩ := utf8Valid_cons hs
      obtain ⟨x, y, rfl, -⟩ := he.lead
      rw [hbt] at hn ⊢
      refine append _ r rest he hv (ih rest.length ?_ hv rfl)
      rw [← hn]
      simp only [List.length_append, List.length_cons]
      omega

theorem utf8Valid_append {a b : Bytes} (ha : utf8Valid a = true) (hb : utf8Valid b = true) :
    utf8Valid (a ++ b) = true := by
  refine utf8Valid_induction (P := fun a => utf8Valid (a ++ b) = true) hb ?_ ha
  intro c r t he _ ih
  rwa [List.append_assoc, he.utf8Valid_append]

theorem utf8Valid_split {a b : Bytes} (h : utf8Valid (a ++ b) = true)
    (hb : ∀ x ∈ b.head?, isCont x = false) : utf8Valid a = true ∧ utf8Valid b = true := by
  induction hn : a.length using Nat.strong_induction_on generalizing a with
  | _ n ih =>
    match a with
    | [] => exact ⟨rfl, by simpa using h⟩
    | x :: a =>
      obtain ⟨c, rest, r, hs, he, hv⟩ := utf8Valid_cons (t := a ++ b) (by simpa using h)
      rw [← List.cons_append] at hs
      rcases List.append_eq_append_iff.mp hs with ⟨m, hc, hm⟩ | ⟨m, ha, hm⟩
      · -- The encoding would reach into `b`, whose first byte continues none.
        obtain ⟨y, c', rfl, -, hcont⟩ := he.lead
        match m with
        | [] =>
          simp only [List.append_nil] at hc
          simp only [List.nil_append] at hm
          rw [← hc, hm]
          exact ⟨he.valid, hv⟩
        | z :: m =>
          exfalso
          have hz : isCont z = true := by
            simp only [List.cons_append, List.cons.injEq] at hc
            have : z ∈ c' := by rw [hc.2]; simp
            exact List.all_eq_true.mp hcont z this
          have := hb z (by rw [hm]; simp)
          simp [this] at hz
      have hlt : m.length < n := by
        obtain ⟨y, c', rfl, -⟩ := he.lead
        rw [← hn, ha]
        simp only [List.length_append, List.length_cons]
        omega
      obtain ⟨hm1, hb1⟩ := ih m.length hlt (a := m) (by rw [← hm]; exact hv) rfl
      exact ⟨by rw [ha, he.utf8Valid_append]; exact hm1, hb1⟩

theorem utf8Valid_ascii_cons {c : UInt8} (hc : isASCII c = true) (t : Bytes) :
    utf8Valid (c :: t) = utf8Valid t :=
  (encodes_one (by simpa [isASCII] using hc)).utf8Valid_append t

theorem utf8Valid_append_ascii_cons {c : UInt8} (hc : isASCII c = true) (a b : Bytes) :
    utf8Valid (a ++ c :: b) = true ↔ utf8Valid a = true ∧ utf8Valid b = true := by
  constructor
  · intro h
    have hs := utf8Valid_split h (by simpa using not_isCont_of_isASCII hc)
    exact ⟨hs.1, by simpa [utf8Valid_ascii_cons hc] using hs.2⟩
  simp_all [utf8Valid_append, utf8Valid_ascii_cons]

theorem encodes_scalar (hs : isScalar r = true) : Encodes (encodeRune r) r := by
  have hr : r < 0xD800 ∨ 0xE000 ≤ r ∧ r ≤ 0x10FFFF := by simpa [isScalar] using hs
  have toNat {n : Nat} (hn : n < 256) : (UInt8.ofNat n).toNat = n := by simpa using hn
  have between {n l h : Nat} (hn : n < 256) (hl : l ≤ n) (hh : n ≤ h) (hh' : h < 256) :
      (UInt8.ofNat l ≤ UInt8.ofNat n && UInt8.ofNat n ≤ UInt8.ofNat h) = true := by
    simp only [Bool.and_eq_true, decide_eq_true_eq, UInt8.le_iff_toNat_le]
    rw [toNat hn, toNat (by omega), toNat hh']
    exact ⟨hl, hh⟩
  have cont (n : Nat) : isCont (UInt8.ofNat (0x80 + n % 64)) = true :=
    isCont_iff.mpr (by rw [toNat (by omega)]; omega)
  by_cases h1 : r < 0x80
  · grind [encodes_one, UInt8.ofNat, UInt8.lt_iff_toNat_lt, encodeRune]
  by_cases h2 : r < 0x800
  · have he := encodes_two (between (n := 0xC0 + r / 64) (l := 0xC2) (h := 0xDF)
      (by omega) (by omega) (by omega) (by omega)) (cont r)
    grind [encodeRune_two]
  by_cases h3 : r < 0x10000
  · have hsecond : secondOk (UInt8.ofNat (0xE0 + r / 4096)) (UInt8.ofNat (0x80 + r / 64 % 64)) = true := by
      refine secondOk_iff.mpr ?_
      rw [toNat (by omega), toNat (by omega)]
      constructor <;> split_ifs <;> omega
    have he := encodes_three (between (n := 0xE0 + r / 4096) (l := 0xE0) (h := 0xEF)
      (by omega) (by omega) (by omega) (by omega)) hsecond (cont r)
    rw [toNat (by omega), toNat (by omega), toNat (by omega)] at he
    rw [encodeRune_three (by omega) h3 hs]
    rwa [show (0xE0 + r / 4096 - 0xE0) * 4096 + (0x80 + r / 64 % 64 - 0x80) * 64 +
      (0x80 + r % 64 - 0x80) = r by omega] at he
  have hsecond : secondOk (UInt8.ofNat (0xF0 + r / 262144)) (UInt8.ofNat (0x80 + r / 4096 % 64)) = true := by
    refine secondOk_iff.mpr ?_
    rw [toNat (by omega), toNat (by omega)]
    constructor <;> split_ifs <;> omega
  have he := encodes_four (between (n := 0xF0 + r / 262144) (l := 0xF0) (h := 0xF4)
    (by omega) (by omega) (by omega) (by omega)) hsecond (cont (r / 64)) (cont r)
  rw [toNat (by omega), toNat (by omega), toNat (by omega), toNat (by omega)] at he
  rw [encodeRune_four (by omega) hs]
  rwa [show (0xF0 + r / 262144 - 0xF0) * 262144 + (0x80 + r / 4096 % 64 - 0x80) * 4096 +
    (0x80 + r / 64 % 64 - 0x80) * 64 + (0x80 + r % 64 - 0x80) = r by omega] at he

def writtenRune (r : Nat) : Nat := if isScalar r then r else runeError

theorem encodes_encodeRune (r : Nat) : Encodes (encodeRune r) (writtenRune r) := by
  by_cases hs : isScalar r = true
  · rw [writtenRune, if_pos hs]
    exact encodes_scalar hs
  have he : encodeRune r = encodeRune runeError := by
    rw [encodeRune, if_neg hs]
    rfl
  rw [writtenRune, if_neg hs, he]
  exact encodes_scalar rfl

@[simp] theorem utf8Valid_encodeRune (r : Nat) : utf8Valid (encodeRune r) = true :=
  (encodes_encodeRune r).valid

theorem decodeRune_of_isCont (hb : isCont b = true) (t : Bytes) : decodeRune (b :: t) = (runeError, 1) := by
  rcases decodeRune_cons b t with h | ⟨u, s, r, hs, h, hu⟩
  · exact h
  obtain ⟨x, y, rfl, hx, -⟩ := hu.lead
  rw [List.cons_append, List.cons.injEq] at hs
  rw [← hs.1, hb] at hx
  cases hx

theorem not_isASCII_of_decodeRune_eq (h : decodeRune (b :: t) = (runeError, 1)) : isASCII b = false := by
  by_contra hb
  have hlt : b < 0x80 := by simpa [isASCII] using hb
  have := (encodes_one hlt).decode t
  simp only [List.cons_append, List.nil_append] at this
  rw [this] at h
  exact (encodes_one hlt).proper h

theorem Encodes.toValidUTF8From_cons (h : Encodes c r) (bad : Bool) (ds : List (Nat × Nat)) :
    toValidUTF8From bad ((r, c.length) :: ds) = c ++ toValidUTF8From false ds := by
  have hp : ¬ (r == runeError && c.length == 1) = true := by
    have := h.proper
    simp only [ne_eq, Prod.mk.injEq, not_and] at this
    simpa using this
  rw [toValidUTF8From, if_neg hp, h.encode]

theorem toValidUTF8From_error (bad : Bool) (ds : List (Nat × Nat)) :
    toValidUTF8From bad ((runeError, 1) :: ds) =
      (if bad then [] else encodeRune runeError) ++ toValidUTF8From true ds := rfl

theorem toValidUTF8From_valid (hs : utf8Valid s = true) (bad : Bool) :
    toValidUTF8From bad (runesFrom 0 s) = s := by
  refine utf8Valid_induction (P := fun s => ∀ bad, toValidUTF8From bad (runesFrom 0 s) = s)
    (fun _ => rfl) ?_ hs bad
  intro c r t he _ ih bad
  rw [he.runesFrom_append, he.toValidUTF8From_cons, ih]

theorem toValidUTF8_of_valid (hs : utf8Valid s = true) : toValidUTF8 s = s :=
  toValidUTF8From_valid hs false

theorem utf8Valid_toValidUTF8From (bad : Bool) (ds : List (Nat × Nat)) : utf8Valid (toValidUTF8From bad ds) = true := by
  induction ds generalizing bad with
  | nil => rfl
  | cons d ds ih =>
    grind [toValidUTF8From, utf8Valid_append, utf8Valid_encodeRune, runeError]

theorem utf8Valid_toValidUTF8 (s : Bytes) : utf8Valid (toValidUTF8 s) = true := utf8Valid_toValidUTF8From false _

theorem filter_isASCII_eq_nil_of_isCont (h : t.all isCont = true) : t.filter isASCII = [] := by
  grind [List.filter_eq_nil_iff, not_isCont_of_isASCII]

theorem filter_isASCII_toValidUTF8From (bad : Bool) (s : Bytes) :
    (toValidUTF8From bad (runesFrom 0 s)).filter isASCII = s.filter isASCII := by
  induction hn : s.length using Nat.strong_induction_on generalizing s bad with
  | _ n ih =>
    match s with
    | [] => rfl
    | b :: t =>
      rcases decodeRune_cons b t with hd | ⟨c, rest, r, hs, hd, he⟩
      · have herr : (encodeRune runeError).filter isASCII = [] := by decide
        grind [runesFrom_cons, toValidUTF8From_error, not_isASCII_of_decodeRune_eq]
      rw [hs, he.runesFrom_append, he.toValidUTF8From_cons, List.filter_append, List.filter_append]
      obtain ⟨x, y, rfl, -⟩ := he.lead
      grind

theorem filter_isASCII_toValidUTF8 (s : Bytes) :
    (toValidUTF8 s).filter isASCII = s.filter isASCII := filter_isASCII_toValidUTF8From false s

end PiiShield
