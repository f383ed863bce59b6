import PiiShield.Operator.Record

/-! A pull that fails while the policy stays as it was. What the ConfigMap holds is read back as
the copy it was rendered from, so the same ConfigMap is rendered again. -/

namespace PiiShield.Operator

variable {Num : Type} {P : Platform Num}

variable {c : ConfigMap} {copy : Copy Num} {settings : Option Settings}

structure SameSpec (p q : PiiPolicy Num) : Prop where
  name : q.name = p.name
  generation : q.generation = p.generation
  rules : q.rules = p.rules
  remoteConfig : q.remoteConfig = p.remoteConfig

/-- The settings of a remote source: none without a signature, and with one they are valid. -/
def ValidSettings (P : Platform Num) (rc : RemoteConfig) (settings : Option Settings) : Prop :=
  match rc.signature with
  | none => settings = none
  | some sig => ∃ s, signatureSettings P rc.url sig = .ok s ∧ settings = some s

def Condition.status : Condition → Bool
  | .failed _ _ => false
  | .synced .. => true

theorem ValidSettings.requiredSettings {policy : PiiPolicy Num} {rc : RemoteConfig}
    (h : ValidSettings P rc settings) (hrc : policy.remoteConfig = some rc) :
    requiredSettings P policy = settings := by
  unfold ValidSettings at h
  unfold Operator.requiredSettings
  rw [hrc]
  cases hsig : rc.signature with
  | none =>
    simp only [hsig] at h ⊢
    exact h.symm
  | some sig =>
    simp only [hsig] at h ⊢
    obtain ⟨s, hs, rfl⟩ := h
    rw [hs]
    rfl

theorem ValidSettings.syncRemote {rc : RemoteConfig} (h : ValidSettings P rc settings)
    (policy : PiiPolicy Num) (cm : Option ConfigMap) (env : Env) :
    syncRemote P policy rc cm env = pullRemote P policy rc settings cm env := by
  grind [ValidSettings, Operator.syncRemote]

theorem etag_of_lastGoodCopy
    (h : lastGoodCopy P settings (some c) = some copy) : copy.etag = c.remoteETag.getD [] := by
  grind [lastGoodCopy]

theorem etag_of_render {policy : PiiPolicy Num}
    (h : renderConfigMap P policy (some copy) = some c) : c.remoteETag.getD [] = copy.etag := by
  grind [renderConfigMap, Option.map_eq_some_iff]

theorem lastGoodCopy_eq_merged {cm : Option ConfigMap} {i : Input Num}
    (hrender : renderConfigMap P i.policy (merged P cm i) = some c)
    (hcopy : lastGoodCopy P (requiredSettings P i.policy) (some c) = some copy) : merged P cm i = some copy := by
  obtain ⟨hfile, ⟨ignored, hparse⟩, hunsigned, hsigned⟩ := lastGoodCopy_spec hcopy
  obtain ⟨hraw, hrecorded⟩ := recorded_render hrender
  cases hmerged : merged P cm i with
  | none =>
    rw [hmerged] at hraw
    cases hraw.symm.trans hfile
  | some m =>
    rw [hmerged] at hrender hraw hrecorded
    have hrawEq : m.raw = copy.raw := Option.some.inj (hraw.symm.trans hfile)
    have hdoc : m.doc = copy.doc := by
      obtain ⟨ignored', hparse'⟩ := parse_of_merged hmerged
      rw [hrawEq, hparse] at hparse'
      exact (Prod.mk.inj (Except.ok.inj hparse')).1.symm
    have hetag : m.etag = copy.etag := by rw [etag_of_lastGoodCopy hcopy, etag_of_render hrender]
    have hverified : m.verified = copy.verified := by
      cases hs : requiredSettings P i.policy with
      | none => rw [hunsigned hs, noSigner_of_merged hs hmerged]
      | some s =>
        simp_all
    obtain ⟨doc, raw, etag, verified⟩ := m
    simp_all

section Failing

variable {i₀ i : Input Num} {cm₀ : Option ConfigMap}

theorem checkName_of_rendered (h : (reconcileInput P cm₀ i₀).rendered = none) : checkName i₀.policy.name = true := by
  grind [reconcileInput, reconcile, checkName]

theorem requiredSettings_eq (h : SameSpec i₀.policy i.policy) :
    requiredSettings P i.policy = requiredSettings P i₀.policy := by
  unfold requiredSettings
  rw [h.remoteConfig]

theorem renderConfigMap_eq (h : SameSpec i₀.policy i.policy) (copy : Option (Copy Num)) :
    renderConfigMap P i.policy copy = renderConfigMap P i₀.policy copy := by
  unfold renderConfigMap
  rw [h.rules, h.generation]

theorem writeConfigMap_again (hwrote : (reconcileInput P cm₀ i₀).rendered = none) (hspec : SameSpec i₀.policy i.policy)
    (hcopy : lastGoodCopy P (requiredSettings P i.policy) (reconcileInput P cm₀ i₀).configMap = some copy) :
    (writeConfigMap P i.policy (reconcileInput P cm₀ i₀).configMap i.env (some copy)).1 =
      (reconcileInput P cm₀ i₀).configMap := by
  grind [configMap_cases, requiredSettings_eq, writeConfigMap, renderConfigMap_eq,
    lastGoodCopy_eq_merged]

/-- A reconcile of an unchanged policy that finds a last good copy and whose pull fails leaves
the ConfigMap as it was and says so. -/
theorem failed_pull_keeps (hwrote : (reconcileInput P cm₀ i₀).rendered = none) (hspec : SameSpec i₀.policy i.policy)
    {rc : RemoteConfig} (hrc : i.policy.remoteConfig = some rc) {settings : Option Settings}
    (hvalid : ValidSettings P rc settings) (hread : i.env.readable = true) {copy : Copy Num}
    (hcopy : lastGoodCopy P settings (reconcileInput P cm₀ i₀).configMap = some copy) {problem : Problem}
    (hpull : pull P rc settings (some copy) i.env = .error problem) :
    (reconcileInput P (reconcileInput P cm₀ i₀).configMap i).configMap = (reconcileInput P cm₀ i₀).configMap ∧
    ∃ out, (reconcileInput P (reconcileInput P cm₀ i₀).configMap i).remote = some out ∧
      out.condition = .failed problem true ∧ out.condition.status = false := by
  have hname : checkName i.policy.name = true := by
    rw [hspec.name]
    exact checkName_of_rendered hwrote
  have hout : syncRemote P i.policy rc (reconcileInput P cm₀ i₀).configMap i.env =
      ⟨some copy, false, .failed problem true, i.policy.remoteStatus, retry rc.intervalSeconds⟩ := by
    rw [hvalid.syncRemote, pullRemote]
    simp only [hcopy, hpull]
    rfl
  rw [← hvalid.requiredSettings hrc] at hcopy
  have hwrite := writeConfigMap_again hwrote hspec hcopy
  generalize (reconcileInput P cm₀ i₀).configMap = cm at *
  have hreconcile : reconcileInput P cm i = ⟨some (syncRemote P i.policy rc cm i.env),
      (writeConfigMap P i.policy cm i.env (syncRemote P i.policy rc cm i.env).copy).1,
      (writeConfigMap P i.policy cm i.env (syncRemote P i.policy rc cm i.env).copy).2,
      (syncRemote P i.policy rc cm i.env).status⟩ := by
    simp [reconcileInput, reconcile, hname, hrc, hread]
  rw [hreconcile, hout]
  exact ⟨hwrite, _, rfl, rfl, rfl⟩

end Failing

theorem failed_pull_keeps_sample :
    (reconcileInput samplePublished (reconcileInput samplePublished none (sampleNew sampleKey)).configMap
      ⟨samplePolicy sampleKey (bs "acme/app"), sampleOutage⟩).configMap =
        (reconcileInput samplePublished none (sampleNew sampleKey)).configMap ∧
    keptFile (reconcileInput samplePublished none (sampleNew sampleKey)).configMap = some spacedFile := by
  have hwrote : (reconcileInput samplePublished none (sampleNew sampleKey)).rendered = none := by decide +kernel
  have hrequired : requiredSettings samplePublished (samplePolicy sampleKey (bs "acme/app")) =
      some (sampleSettings (bs "acme/app")) := by decide +kernel
  obtain ⟨rc, sig, hrc, hsig, hsettings⟩ := signatureSettings_of_required hrequired
  have hvalid : ValidSettings samplePublished rc (some (sampleSettings (bs "acme/app"))) := by
    rw [ValidSettings, hsig]
    exact ⟨_, hsettings, rfl⟩
  have hcopy : lastGoodCopy samplePublished (some (sampleSettings (bs "acme/app")))
      (reconcileInput samplePublished none (sampleNew sampleKey)).configMap =
        some ⟨⟨[], (), (), 0, [], [], [], [], none, none, none⟩, spacedFile, [], ⟨5, bs "0000000000000000"⟩⟩ := by
    decide +kernel
  have hpull : pull samplePublished rc (some (sampleSettings (bs "acme/app")))
      (some ⟨⟨[], (), (), 0, [], [], [], [], none, none, none⟩, spacedFile, [], ⟨5, bs "0000000000000000"⟩⟩)
      sampleOutage = .error (.fetch (.transport (bs "https://rules/policy.json"))) := by
    cases hrc
    rfl
  exact ⟨(failed_pull_keeps (i := ⟨samplePolicy sampleKey (bs "acme/app"), sampleOutage⟩) hwrote
    ⟨rfl, rfl, rfl, rfl⟩ hrc hvalid rfl hcopy hpull).1, by decide +kernel⟩

end PiiShield.Operator
