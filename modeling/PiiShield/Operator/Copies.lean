import PiiShield.Operator.Reconcile

/-! What the copy of a remote file in a ConfigMap is known by: a copy that is rendered is
found again by the next reconcile, with its signer and publication. -/

namespace PiiShield.Operator

variable {Num : Type} {P : Platform Num}

variable {body : Bytes} {copy : Copy Num} {min : Int64} {v : Verified}

theorem parse_nil : parse P [] = .error .invalidJSON := by
  rw [parse, P.decodeFile_nil]

theorem keyID_ne_nil (key : Bytes) : keyID P key ≠ [] := by
  have hlen := P.sha256_length key
  match h : P.sha256 key with
  | [] => simp [h] at hlen
  | b :: t => simp [keyID, hexEncode, h, hexDigits]

theorem parseTrustedKey_spec {i : Nat} {s : Bytes} {k : TrustedKey} (h : parseTrustedKey P i s = .ok k) :
    k.id = keyID P k.key := by
  grind [parseTrustedKey]

theorem parseTrustedKeysFrom_spec {i : Nat} {ss : List Bytes} {ks : List TrustedKey}
    (h : parseTrustedKeysFrom P i ss = .ok ks) : ∀ k ∈ ks, k.id = keyID P k.key := by
  induction ss generalizing i ks with
  | nil =>
    cases h
    simp
  | cons s ss ih =>
    simp only [parseTrustedKeysFrom, bind, Except.bind] at h
    split at h
    · cases h
    · next k hk =>
      split at h
      · cases h
      · next ks' hks =>
        cases h
        simp only [List.mem_cons, forall_eq_or_imp]
        exact ⟨parseTrustedKey_spec hk, ih hks⟩

theorem id_of_mem_settings {url : Bytes} {sig : RemoteSignature} {s : Settings}
    (h : signatureSettings P url sig = .ok s) : ∀ k ∈ s.keys, k.id = keyID P k.key := by
  simp only [signatureSettings, bind, Except.bind] at h
  split at h
  · cases h
  · next keys hkeys =>
    split at h
    · cases h
    split at h
    · cases h
    · cases h
      simp only [parseTrustedKeys, bind, Except.bind] at hkeys
      grind [parseTrustedKeysFrom_spec]

def Signed (P : Platform Num) (k : TrustedKey) (set body : Bytes) (publication : Int64) : Prop :=
  ∃ revision sig, P.verify k.key (statement P set publication revision body) sig = true

theorem check_eq_ok {sigBody set : Bytes} {keys : List TrustedKey}
    (h : check P sigBody body set keys min = .ok v) :
    ∃ sf key sig, P.decodeSignature sigBody = some sf ∧ key ∈ keys ∧ key.id = sf.keyID ∧
      P.verify key.key (statement P set sf.publication sf.revision body) sig = true ∧
      min ≤ sf.publication ∧ v = ⟨sf.publication, sf.keyID⟩ := by
  rw [check] at h
  split at h
  · cases h
  · next sf hsf =>
    split at h
    · cases h
    · next key hkey =>
      dsimp only at h
      split at h
      · cases h
      · next hsigned =>
        split at h
        · cases h
        · next hmin =>
          cases h
          have hmem := List.mem_reverse.mp (List.mem_of_find?_eq_some hkey)
          have hid : key.id = sf.keyID := by simpa using List.find?_some hkey
          rw [Bool.not_eq_true', Bool.not_eq_false, isSigned] at hsigned
          grind

theorem check_spec {sigBody set : Bytes} {keys : List TrustedKey}
    (h : check P sigBody body set keys min = .ok v) :
    min ≤ v.publication ∧ ∃ k ∈ keys, k.id = v.keyID ∧ Signed P k set body v.publication := by
  obtain ⟨sf, key, sig, -, hkey, hid, hverify, hmin, rfl⟩ := check_eq_ok h
  exact ⟨hmin, key, hkey, hid, sf.revision, sig, hverify⟩

section Pull

variable {rc : RemoteConfig} {settings : Option Settings} {kept : Option (Copy Num)} {env : Env}

def minPublication (kept : Option (Copy Num)) : Int64 := (kept.map (·.verified.publication)).getD 0

/-- The file of a copy parses, and with signatures required its signature was checked. -/
structure Checked (P : Platform Num) (settings : Option Settings) (min : Int64) (copy : Copy Num) : Prop where
  parses : ∃ ignored, parse P copy.raw = .ok (copy.doc, ignored)
  signed : ∀ s, settings = some s →
    ∃ sigBody, check P sigBody copy.raw s.set s.keys min = .ok copy.verified
  unsigned : settings = none → copy.verified = noSigner

theorem checked_of_acceptFile {src : Source} {etag : Bytes}
    {ignored : List Bytes} (h : acceptFile P settings env src min body etag = .ok (copy, ignored)) :
    Checked P settings min copy := by
  unfold acceptFile at h
  cases hp : parse P body with
  | error p => simp [hp, Except.mapError, bind, Except.bind] at h
  | ok r =>
    cases settings with
    | none =>
      simp only [hp, Except.mapError, bind, Except.bind, pure, Except.pure, Except.ok.injEq,
        Prod.mk.injEq] at h
      obtain ⟨rfl, rfl⟩ := h
      exact ⟨⟨_, hp⟩, by simp, fun _ => rfl⟩
    | some s =>
      cases hf : fetchSignature P env.server src s.url with
      | error p => simp [hp, hf, Except.mapError, bind, Except.bind] at h
      | ok sigBody =>
        cases hc : check P sigBody body s.set s.keys min with
        | error p => simp [hp, hf, hc, Except.mapError, bind, Except.bind] at h
        | ok v =>
          simp only [hp, hf, hc, Except.mapError, bind, Except.bind, pure, Except.pure, Except.ok.injEq,
            Prod.mk.injEq] at h
          obtain ⟨rfl, rfl⟩ := h
          refine ⟨⟨_, hp⟩, fun s' hs => ⟨sigBody, ?_⟩, by simp⟩
          cases hs
          exact hc

theorem checked_of_pull {ignored : List Bytes}
    (h : pull P rc settings kept env = .ok (some (copy, ignored))) :
    Checked P settings (minPublication kept) copy := by
  unfold pull at h
  cases hs : pullSource rc env ((kept.map (·.etag)).getD []) with
  | error p => simp [hs, bind, Except.bind] at h
  | ok src =>
    cases hf : fetch P env.server src with
    | error p => simp [hs, hf, Except.mapError, bind, Except.bind] at h
    | ok pulled =>
      cases pulled with
      | notModified => simp [hs, hf, Except.mapError, bind, Except.bind, pure, Except.pure] at h
      | file body etag =>
        cases ha : acceptFile P settings env src (minPublication kept) body etag with
        | error p =>
          rw [minPublication] at ha
          simp [hs, hf, ha, Except.mapError, bind, Except.bind] at h
        | ok r =>
          have hchecked := checked_of_acceptFile ha
          simp_all [minPublication, Except.mapError, bind, Except.bind, pure, Except.pure]

theorem pullRemote_cases (P : Platform Num) (policy : PiiPolicy Num) (rc : RemoteConfig) (settings : Option Settings)
    (cm : Option ConfigMap) (env : Env) :
    ((pullRemote P policy rc settings cm env).accepted = true ∧
        ∃ copy ignored, pull P rc settings (lastGoodCopy P settings cm) env = .ok (some (copy, ignored)) ∧
          (pullRemote P policy rc settings cm env).copy = some copy) ∨
      ((pullRemote P policy rc settings cm env).accepted = false ∧
        (∀ r, pull P rc settings (lastGoodCopy P settings cm) env ≠ .ok (some r)) ∧
          (pullRemote P policy rc settings cm env).copy = lastGoodCopy P settings cm) := by
  unfold pullRemote
  simp only
  split
  · next p hp => exact .inr ⟨rfl, by simp [hp], rfl⟩
  · next copy ignored hp => exact .inl ⟨rfl, copy, ignored, hp, rfl⟩
  · next copy hp hkept => exact .inr ⟨rfl, by simp [hp], hkept.symm⟩
  · next hp hkept => exact .inr ⟨rfl, by simp [hp], rfl⟩

end Pull

section Record

variable {cm : Option ConfigMap}

def recorded (cm : Option ConfigMap) : Option Verified :=
  cm.bind fun c => c.remoteSignedBy.map fun id => ⟨parseInt (c.remotePublication.getD []), id⟩

def keptFile (cm : Option ConfigMap) : Option Bytes := cm.bind (·.remoteFile)

def Usable (P : Platform Num) (cm : Option ConfigMap) : Prop :=
  ∀ v, recorded cm = some v →
    v.keyID ≠ [] ∧ ∃ raw doc ignored, keptFile cm = some raw ∧ parse P raw = .ok (doc, ignored)

theorem lastGoodCopy_spec {settings : Option Settings} (h : lastGoodCopy P settings cm = some copy) :
    keptFile cm = some copy.raw ∧ (∃ ignored, parse P copy.raw = .ok (copy.doc, ignored)) ∧
      (settings = none → copy.verified = noSigner) ∧
      ∀ s, settings = some s → recorded cm = some copy.verified ∧ trusted s.keys copy.verified.keyID = true := by
  unfold lastGoodCopy at h
  split at h
  · cases h
  · next c =>
    split at h
    · cases h
    · next raw hraw =>
      split at h
      · cases h
      split at h
      · cases h
      · next doc ignored hparse =>
        simp only at h
        split at h
        · cases h
          exact ⟨hraw, ⟨ignored, hparse⟩, fun _ => rfl, by simp⟩
        · next s =>
          split at h
          · next ht =>
            cases h
            refine ⟨hraw, ⟨ignored, hparse⟩, by simp, fun s' hs => ?_⟩
            cases hs
            refine ⟨?_, ht⟩
            cases hsig : c.remoteSignedBy with
            | none => simp [trusted, hsig] at ht
            | some id => simp [recorded, hsig]
          · cases h

theorem lastGoodCopy_of_recorded {s : Settings} (hu : Usable P cm)
    (hr : recorded cm = some v) (ht : trusted s.keys v.keyID = true) :
    ∃ copy, lastGoodCopy P (some s) cm = some copy ∧ copy.verified = v := by
  obtain ⟨-, raw, doc, ignored, hraw, hparse⟩ := hu v hr
  match cm with
  | none => simp [recorded] at hr
  | some c =>
    simp only [recorded, Option.bind_some, Option.map_eq_some_iff] at hr
    obtain ⟨id, hid, rfl⟩ := hr
    have hraw : c.remoteFile = some raw := hraw
    have hne : raw.isEmpty = false := by
      cases raw with
      | nil => rw [parse_nil] at hparse; cases hparse
      | cons _ _ => rfl
    simp only [lastGoodCopy, hraw, hne, Bool.false_eq_true, if_false, hparse, hid, Option.getD_some, ht,
      if_true]
    exact ⟨_, rfl, rfl⟩

theorem recorded_render {policy : PiiPolicy Num} {copy : Option (Copy Num)} {c : ConfigMap}
    (h : renderConfigMap P policy copy = some c) :
    keptFile (some c) = copy.map (·.raw) ∧
      recorded (some c) = (copy.map (·.verified)).filter fun v => !v.keyID.isEmpty := by
  unfold renderConfigMap at h
  simp only [Option.map_eq_some_iff] at h
  obtain ⟨data, -, rfl⟩ := h
  cases copy with
  | none => exact ⟨rfl, rfl⟩
  | some copy =>
    refine ⟨rfl, ?_⟩
    cases hid : copy.verified.keyID.isEmpty with
    | true => simp [recorded, hid, Option.filter]
    | false => simp [recorded, hid, parseInt_formatInt, Option.filter]

end Record

end PiiShield.Operator
