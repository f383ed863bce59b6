import PiiShield.JsonFacts
import PiiShield.Pieces
import PiiShield.Scanner

/-! Which frames a frame of the scanner calls, and the measure every call lowers: a call
goes one level deeper, or it stays on its level with fewer ASCII characters or with a
function further in. -/

namespace PiiShield

open ConfigState

variable {Num : Type}

namespace Frame

def arg : Frame → Bytes
  | scanLine logLine _ => logLine
  | scanSegmentFrom segment .. => segment
  | processAndAppend token .. => token
  | processTokenLogic t => t.rawToken
  | processEqualPair rawToken .. => rawToken
  | processColonPair rawToken .. => rawToken
  | maskURLParameters url _ => url
  | scanUserAgent ua _ => ua

def depth : Frame → Nat
  | scanLine _ depth => depth
  | scanSegmentFrom _ depth .. => depth
  | processAndAppend _ _ depth => depth
  | processTokenLogic t => t.depth
  | processEqualPair _ _ _ depth => depth
  | processColonPair _ _ depth => depth
  | maskURLParameters _ depth => depth
  | scanUserAgent _ depth => depth

/-- The most ASCII characters a token of the frame has: the blanks in front of a segment
are in no token. -/
def ascii : Frame → Nat
  | scanSegmentFrom segment _ false _ => asciiCount (segment.dropWhile isBlank)
  | f => asciiCount f.arg

def layer : Frame → Nat
  | scanLine .. => 6
  | scanUserAgent .. => 6
  | scanSegmentFrom .. => 5
  | processAndAppend .. => 4
  | processTokenLogic .. => 3
  | maskURLParameters .. => 2
  | processEqualPair .. => 1
  | processColonPair .. => 1

def weight (f : Frame) : Nat := 8 * f.ascii + f.layer

def rank (f : Frame) : Nat := (34 - f.depth) * (8 * f.ascii + 8) + f.weight

def Within : Frame → Prop
  | processEqualPair _ _ _ depth => depth ≤ maxTokenRecursionDepth
  | processColonPair _ _ depth => depth ≤ maxTokenRecursionDepth
  | maskURLParameters _ depth => depth ≤ maxTokenRecursionDepth
  | f => f.depth ≤ maxTokenRecursionDepth + 1

def Nests : Frame → Prop
  | processTokenLogic t => t.depth ≤ maxTokenRecursionDepth
  | processEqualPair .. => True
  | processColonPair .. => True
  | _ => False

inductive Deeper (f : Frame) : Frame → Prop
  | line {u} (hu : Cut f.arg u) : Deeper f (.scanLine u (f.depth + 1))
  | segment {u} (hu : Cut f.arg u) : Deeper f (.scanSegment u (f.depth + 1))
  | agent {u} (hu : Cut f.arg u) : Deeper f (.scanUserAgent u (f.depth + 1))
  | token {t} (hu : Cut f.arg t.rawToken) (hd : t.depth = f.depth + 1) :
    Deeper f (.processTokenLogic t)

theorem Deeper.spec {f g : Frame} (h : Deeper f g) :
    g.depth = f.depth + 1 ∧ g.ascii ≤ asciiCount f.arg ∧ (g.depth ≤ 33 → g.Within) := by
  cases h with
  | line hu | agent hu => exact ⟨rfl, hu.ascii, id⟩
  | segment hu =>
    refine ⟨rfl, ?_, id⟩
    exact Nat.le_trans (asciiCount_le_of_sublist (List.dropWhile_sublist _)) hu.ascii
  | token hu hd => exact ⟨hd, hu.ascii, id⟩

theorem ascii_le (f : Frame) : f.ascii ≤ asciiCount f.arg := by
  unfold ascii
  split
  · exact asciiCount_le_of_sublist (List.dropWhile_sublist _)
  exact le_rfl

theorem Nests.spec {f : Frame} (h : f.Nests) (hf : f.Within) : f.depth ≤ 32 ∧ f.ascii = asciiCount f.arg := by
  cases f with
  | processTokenLogic t => exact ⟨h, rfl⟩
  | processEqualPair | processColonPair => exact ⟨hf, rfl⟩
  | _ => exact h.elim

theorem layer_lt (f : Frame) : f.layer < 8 := by
  cases f <;> simp [layer]

end Frame

inductive MaskCut (U : Unicode) (url : Bytes) : Bytes → Prop
  | password {i j} (h : urlPassword U url = some (i, j)) : MaskCut U url (url.drop j)
  | tail {n : Nat} (hp : urlPassword U url = none) (hq : url.contains (chr '?') = true)
      (hn : urlClosingTail url = n) (hlt : n < url.length) : MaskCut U url (url.take n)
  | blank {i} (hp : urlPassword U url = none) (hq : url.contains (chr '?') = true)
      (ht : ¬ urlClosingTail url < url.length) (hi : indexWhitespace url = some i) :
    MaskCut U url (url.take i)

theorem asciiCount_drop_lt {s : Bytes} {n i : Nat} (hi : i < n) (hn : i < s.length)
    (hc : isASCII (byteAt s i) = true) : asciiCount (s.drop n) < asciiCount s := by
  have hsub : asciiCount (s.drop n) ≤ asciiCount (s.drop (i + 1)) := by
    have : s.drop n = (s.drop (i + 1)).drop (n - (i + 1)) := by
      rw [List.drop_drop]
      congr 1
      omega
    rw [this]
    exact asciiCount_le_of_sublist (List.drop_sublist _ _)
  have := congrArg asciiCount (eq_take_cons_drop hn)
  rw [asciiCount_append, ← byteAt_eq hn, asciiCount_cons hc] at this
  omega

theorem asciiCount_take_lt {s : Bytes} {n : Nat} (hn : n < s.length)
    (hc : isASCII (byteAt s n) = true) : asciiCount (s.take n) < asciiCount s := by
  have := congrArg asciiCount (eq_take_cons_drop hn)
  rw [asciiCount_append, ← byteAt_eq hn, asciiCount_cons hc] at this
  omega

theorem MaskCut.asciiCount_lt {U : Unicode} {url u : Bytes} (h : MaskCut U url u) :
    asciiCount u < asciiCount url := by
  cases h with
  | @password i j h =>
    obtain ⟨hij, hj, -, hi, hc⟩ := urlPassword_spec h
    have ha : isASCII (byteAt url (i - 1)) = true := by
      rw [hc]
      decide
    exact asciiCount_drop_lt (by omega) (by omega) ha
  | @tail n hp hq hn hlt =>
    rcases urlClosingTail_spec url with h | ⟨m, h, hm, hc⟩ | ⟨h, -⟩
    · omega
    · obtain rfl : n = m := by omega
      exact asciiCount_take_lt hm (isASCII_of_isTailByte (byteAt_tail hm hc))
    omega
  | blank hp hq ht hi =>
    obtain ⟨hlt, hc⟩ := indexWhitespace_eq hi
    exact asciiCount_take_lt hlt (isASCII_of_isBlank hc)

theorem asciiCount_dropWhile_lt {url : Bytes} {i : Nat} (hi : indexWhitespace url = some i) :
    asciiCount ((url.drop i).dropWhile isBlank) < asciiCount url := by
  obtain ⟨hlt, hc⟩ := indexWhitespace_eq hi
  have hdrop := asciiCount_drop_lt (Nat.lt_succ_self i) hlt (isASCII_of_isBlank hc)
  rw [List.drop_eq_getElem_cons hlt, List.dropWhile_cons_of_pos (byteAt_eq hlt ▸ hc)]
  exact Nat.lt_of_le_of_lt (asciiCount_le_of_sublist (List.dropWhile_sublist _)) hdrop

def ConfigState.masksToken (st : ConfigState Num) (tok : Bytes) : Bool :=
  (urlPassword st.unicode tok).isSome || contains tok (bs "://") || hasQueryShape tok

inductive Calls (st : ConfigState Num) : Frame → Frame → Prop
  | segment {line d u q c} (hu : Cut line u) : Calls st (.scanLine line d) (.scanSegmentFrom u d q c)
  | append {seg d q c tok s} (h : asciiCount tok ≤ (Frame.scanSegmentFrom seg d q c).ascii) :
    Calls st (.scanSegmentFrom seg d q c) (.processAndAppend tok s d)
  | logic {s t} : Calls st (.processAndAppend t.rawToken s t.depth) (.processTokenLogic t)
  | equalPair {t} (hd : t.depth ≤ maxTokenRecursionDepth) :
    Calls st (.processTokenLogic t)
      (.processEqualPair t.rawToken t.forcedSensitive t.overrideSensitivity t.depth)
  | colonPair {t} (hd : t.depth ≤ maxTokenRecursionDepth) :
    Calls st (.processTokenLogic t) (.processColonPair t.rawToken t.overrideSensitivity t.depth)
  | mask {t} (hd : t.depth ≤ maxTokenRecursionDepth) (hm : st.masksToken t.rawToken = true) :
    Calls st (.processTokenLogic t) (.maskURLParameters t.rawToken t.depth)
  | maskCut {url d u} (hu : MaskCut st.unicode url u) :
    Calls st (.maskURLParameters url d) (.maskURLParameters u d)
  | maskRest {url d i} (hi : indexWhitespace url = some i) :
    Calls st (.maskURLParameters url d) (.scanSegment (url.drop i) d)
  | agentRun {ua d u} (hu : Cut ua u) : Calls st (.scanUserAgent ua d) (.scanSegment u d)
  | deeper {f g} (hf : f.Nests) (hg : f.Deeper g) : Calls st f g

namespace Calls

variable {st : ConfigState Num} {f g : Frame}

theorem spec (h : Calls st f g) (hf : f.Within) :
    g.Within ∧ (g.depth = f.depth + 1 ∧ g.depth ≤ 33 ∧ g.ascii ≤ f.ascii ∨
      g.depth = f.depth ∧ g.weight < f.weight) := by
  cases h with
  | @segment line d u q c hu =>
    refine ⟨hf, .inr ⟨rfl, ?_⟩⟩
    have h1 := (Frame.scanSegmentFrom u d q c).ascii_le
    have h2 := hu.ascii
    simp only [Frame.weight, Frame.layer, Frame.arg, Frame.ascii] at h1 ⊢
    omega
  | append h =>
    refine ⟨hf, .inr ⟨rfl, ?_⟩⟩
    simp only [Frame.weight, Frame.layer]
    simp only [Frame.ascii, Frame.arg] at h ⊢
    omega
  | logic =>
    refine ⟨hf, .inr ⟨rfl, ?_⟩⟩
    simp only [Frame.weight, Frame.layer, Frame.ascii, Frame.arg]
    omega
  | equalPair hd | colonPair hd | mask hd hm =>
    refine ⟨hd, .inr ⟨rfl, ?_⟩⟩
    simp only [Frame.weight, Frame.layer, Frame.ascii, Frame.arg]
    omega
  | maskCut hu =>
    refine ⟨hf, .inr ⟨rfl, ?_⟩⟩
    have := hu.asciiCount_lt
    simp only [Frame.weight, Frame.layer, Frame.ascii, Frame.arg]
    omega
  | maskRest hi =>
    refine ⟨Nat.le_succ_of_le hf, .inr ⟨rfl, ?_⟩⟩
    have := asciiCount_dropWhile_lt hi
    simp only [Frame.weight, Frame.layer, Frame.ascii, Frame.arg]
    omega
  | @agentRun ua d u hu =>
    refine ⟨hf, .inr ⟨rfl, ?_⟩⟩
    have h1 := (Frame.scanSegment u d).ascii_le
    have h2 := hu.ascii
    simp only [Frame.weight, Frame.layer, Frame.arg, Frame.ascii] at h1 ⊢
    omega
  | deeper hn hg =>
    obtain ⟨hdepth, hascii, hwithin⟩ := hg.spec
    obtain ⟨hle, ha⟩ := hn.spec hf
    exact ⟨hwithin (by omega), .inl ⟨hdepth, by omega, by omega⟩⟩

theorem within (h : Calls st f g) (hf : f.Within) : g.Within := (h.spec hf).1

theorem depth_le (h : Calls st f g) (hf : f.Within) : f.depth ≤ g.depth := by
  rcases (h.spec hf).2 with h | h <;> omega

theorem rank_lt (h : Calls st f g) (hf : f.Within) : g.rank < f.rank := by
  have hlayer := g.layer_lt
  have hlayer' := f.layer_lt
  unfold Frame.rank
  rcases (h.spec hf).2 with ⟨hd, h33, ha⟩ | ⟨hd, hw⟩
  · obtain ⟨k, hk⟩ : ∃ k, 34 - f.depth = k + 1 := ⟨33 - f.depth, by omega⟩
    have hk' : 34 - g.depth = k := by omega
    have hmul : k * (8 * g.ascii + 8) ≤ k * (8 * f.ascii + 8) := Nat.mul_le_mul_left k (by omega)
    rw [hk, hk', Nat.add_mul]
    simp only [Frame.weight]
    omega
  have ha : g.ascii ≤ f.ascii := by
    simp only [Frame.weight] at hw
    omega
  have hmul := Nat.mul_le_mul_left (34 - f.depth) (show 8 * g.ascii + 8 ≤ 8 * f.ascii + 8 by omega)
  rw [hd]
  omega

end Calls

end PiiShield
