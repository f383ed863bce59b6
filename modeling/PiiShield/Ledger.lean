import PiiShield.Prog

/-! Programs that account for a text. A ledger says which text each frame is called on;
a program accounts for a text when what it writes, hides and hands on, in order, is that
text, up to the departures the ledger names. -/

namespace PiiShield

variable {S : Sig} {α β : Type}

structure Ledger (S : Sig) where
  /-- The text a frame accounts for. -/
  text : S.Frame → Bytes
  /-- What a call can return. -/
  answers : (f : S.Frame) → S.Ret f → Prop
  /-- Which frames a frame calls. -/
  may : S.Frame → S.Frame → Prop
  /-- The well-formed texts. -/
  valid : Bytes → Prop
  /-- What a frame is called on in place of a text that is not well formed. -/
  repair : Bytes → Bytes
  /-- The bytes written around a mark. -/
  filler : UInt8 → Bool
  /-- The frame places mark `m` between `q` and `e` where its text has `u`. -/
  hides : S.Frame → S.Mark → (u q e : Bytes) → Prop
  /-- The frame writes `o` where its text has `u`; both are followed by `c`. -/
  replaces : S.Frame → (u o c : Bytes) → Prop
  /-- The frame panics. -/
  panics : S.Frame → Prop
  /-- The literal `u` encodes a text. -/
  encodes : (u x : Bytes) → Prop
  /-- A text written as a literal. -/
  quote : Bytes → Bytes

/-- Program `p` of frame `self` accounts for a text. The flag says that on every path
without a mark or a panic the text is departed from; `clean` is what the pieces may assume
to be well formed. -/
inductive Accounts (L : Ledger S) (self : S.Frame) (clean : Prop) (ok : α → Prop) :
    Bool → Prog S α → Bytes → Prop
  | pure {a} (ha : ok a) : Accounts L self clean ok false (.pure a) []
  | emit {d o k t} (ho : clean → L.valid o) (hk : Accounts L self clean ok d k t) :
    Accounts L self clean ok d (.emit o k) (o ++ t)
  | replace {d u o c k t} (hr : L.replaces self u o c) (hc : clean → L.valid c)
      (hk : Accounts L self clean ok d k t) :
    Accounts L self clean ok true (.emit o (.emit c k)) (u ++ (c ++ t))
  | mark {d d' m u k t} (hm : L.hides self m u [] []) (hk : Accounts L self clean ok d k t) :
    Accounts L self clean ok d' (.mark m k) (u ++ t)
  | hide {d d' m q e u k t} (hq : q.all L.filler) (he : e.all L.filler) (hm : L.hides self m u q e)
      (hk : Accounts L self clean ok d k t) :
    Accounts L self clean ok d' (.emit q (.mark m (.emit e k))) (u ++ t)
  | call {d f u t} {k : S.Ret f → Prog S α} (hf : L.may self f) (hv : clean → L.valid u)
      (hu : L.text f = u ∨ L.text f = L.repair u)
      (hk : ∀ r, L.answers f r → Accounts L self clean ok d (k r) t) :
    Accounts L self clean ok d (.call f k) (u ++ t)
  | capture {d f u t} {k : S.Ret f → Prog S α} (hf : L.may self f) (hu : L.encodes u (L.text f))
      (hv : clean → L.valid u)
      (hk : ∀ r, L.answers f r → Accounts L self clean ok d (k r) t) :
    Accounts L self clean ok d
      (.capture f fun r o => .emit (if o == L.text f then u else L.quote o) (k r)) (u ++ t)
  | get {d k t} (hk : ∀ s, Accounts L self clean ok d (k s) t) : Accounts L self clean ok d (.get k) t
  | set {d s k t} (hk : Accounts L self clean ok d k t) : Accounts L self clean ok d (.set s k) t
  | panic {d t} (hp : L.panics self) : Accounts L self clean ok d .panic t

namespace Accounts

variable {L : Ledger S} {self : S.Frame} {clean : Prop} {ok : α → Prop} {ok' : β → Prop}
  {d d' : Bool} {p : Prog S α} {k : α → Prog S β} {t t' : Bytes}

theorem bind (hp : Accounts L self clean ok d p t) (hk : ∀ a, ok a → Accounts L self clean ok' d' (k a) t') :
    Accounts L self clean ok' (d || d') (p >>= k) (t ++ t') := by
  show Accounts L self clean ok' (d || d') (p.bind k) (t ++ t')
  induction hp with
  | pure ha => exact hk _ ha
  | emit ho _ ih => rw [List.append_assoc]; exact .emit ho ih
  | replace hr hc _ ih => rw [List.append_assoc, List.append_assoc]; exact .replace hr hc ih
  | mark hm _ ih => rw [List.append_assoc]; exact .mark hm ih
  | hide hq he hm _ ih => rw [List.append_assoc]; exact .hide hq he hm ih
  | call hf hv hu _ ih => rw [List.append_assoc]; exact .call hf hv hu fun r hr => ih r hr
  | capture hf hu hv _ ih => rw [List.append_assoc]; exact .capture hf hu hv fun r hr => ih r hr
  | get _ ih => exact .get ih
  | set _ ih => exact .set ih
  | panic hp => exact .panic hp

theorem bind_clean (hp : Accounts L self clean ok false p t)
    (hk : ∀ a, ok a → Accounts L self clean ok' d' (k a) t') :
    Accounts L self clean ok' d' (p >>= k) (t ++ t') := by
  simpa using hp.bind hk

theorem write {o : Bytes} {k : Unit → Prog S β} (ho : clean → L.valid o)
    (hk : Accounts L self clean ok' d (k ()) t) :
    Accounts L self clean ok' d (Prog.write o >>= k) (o ++ t) := .emit ho hk

theorem write_only {o : Bytes} (ho : clean → L.valid o) :
    Accounts L self clean (fun _ : Unit => True) false (Prog.write o) o := by
  have h : Accounts L self clean (fun _ : Unit => True) false (.emit o (.pure ())) (o ++ []) :=
    .emit ho (.pure trivial)
  simpa [Prog.write] using h

theorem place_only {m : S.Mark} (hm : L.hides self m t [] []) :
    Accounts L self clean (fun _ : Unit => True) d (Prog.place m) t := by
  have h : Accounts L self clean (fun _ : Unit => True) d (.mark m (.pure ())) (t ++ []) :=
    .mark hm (.pure trivial)
  simpa [Prog.place] using h

theorem call_only {f : S.Frame} {u : Bytes} (hf : L.may self f) (hv : clean → L.valid u)
    (hu : L.text f = u ∨ L.text f = L.repair u) :
    Accounts L self clean (L.answers f) false (.call f .pure) u := by
  have h : Accounts L self clean (L.answers f) false (.call f .pure) (u ++ []) :=
    .call hf hv hu fun _ hr => .pure hr
  simpa using h

theorem attempt {f : S.Frame} {k : S.Ret f → Prog S α} {handled : Bool} (hf : L.may self f)
    (hv : clean → L.valid t) (hnil : L.valid []) (ht : L.text f = if handled then t else [])
    (hyes : handled = true → ∀ r, L.answers f r → Accounts L self clean ok d (k r) [])
    (hno : handled = false → ∀ r, L.answers f r → Accounts L self clean ok d (k r) t) :
    Accounts L self clean ok d (.call f k) t := by
  cases handled with
  | true =>
    have h : Accounts L self clean ok d (.call f k) (t ++ []) := .call hf hv (.inl ht) (hyes rfl)
    rwa [List.append_nil] at h
  | false => exact .call hf (fun _ => hnil) (.inl ht) (hno rfl)

theorem of_eq (hp : Accounts L self clean ok d p t) (h : t = t') : Accounts L self clean ok d p t' :=
  h ▸ hp

theorem weaken {ok₂ : α → Prop} (hp : Accounts L self clean ok d p t) (h : ∀ a, ok a → ok₂ a) :
    Accounts L self clean ok₂ d p t := by
  induction hp with
  | pure ha => exact .pure (h _ ha)
  | emit ho _ ih => exact .emit ho ih
  | replace hr hc _ ih => exact .replace hr hc ih
  | mark hm _ ih => exact .mark hm ih
  | hide hq he hm _ ih => exact .hide hq he hm ih
  | call hf hv hu _ ih => exact .call hf hv hu fun r hr => ih r hr
  | capture hf hu hv _ ih => exact .capture hf hu hv fun r hr => ih r hr
  | get _ ih => exact .get ih
  | set _ ih => exact .set ih
  | panic hp => exact .panic hp

end Accounts

end PiiShield
