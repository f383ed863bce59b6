import PiiShield.Histories
import PiiShield.Operator.Sample

/-! The publications of the files a policy accepts grow as long as no reconcile drops what
the ConfigMap records of the last one. -/

namespace PiiShield.Operator

variable {Num : Type} {P : Platform Num}

/-- The reconcile does nothing; or it requires no signature and there is no record it could
drop; or it finds valid settings that trust the recorded signer and can write the ConfigMap. -/
inductive KeepsRecord (P : Platform Num) (cm : Option ConfigMap) (i : Input Num) : Prop
  | unnamed (hname : checkName i.policy.name = false)
  | unread (hrc : i.policy.remoteConfig.isSome = true) (hread : i.env.readable = false)
  | unsigned (hs : requiredSettings P i.policy = none)
    (hr : recorded cm = none ∨ i.env.writable = false)
  | kept (s : Settings) (hs : requiredSettings P i.policy = some s)
    (ht : ∀ v, recorded cm = some v → trusted s.keys v.keyID = true) (hwrite : i.env.writable = true)
    (hrender : ∀ copy, (renderConfigMap P i.policy copy).isSome = true)

section Steps

variable {cm : Option ConfigMap} {i : Input Num}

theorem acceptance_of_remote_none (h : (reconcileInput P cm i).remote = none) : acceptance P cm i = none := by
  unfold acceptance
  rw [h]
  split
  · next heq => cases heq
  rfl

theorem recorded_write (hwrite : i.env.writable = true)
    (hrender : ∀ copy, (renderConfigMap P i.policy copy).isSome = true) {copy : Copy Num}
    (hid : copy.verified.keyID ≠ []) :
    recorded (writeConfigMap P i.policy cm i.env (some copy)).1 = some copy.verified := by
  obtain ⟨c, hc⟩ := Option.isSome_iff_exists.mp (hrender (some copy))
  have hempty : copy.verified.keyID.isEmpty = false := by simpa using hid
  simp only [writeConfigMap, hc, hwrite, if_true]
  rw [(recorded_render hc).2]
  simp [Option.filter, hempty]

/-- The record a reconcile leaves is that of the file it accepts, which is no older than
the one before, or the one before. -/
structure RecordStep (P : Platform Num) (cm : Option ConfigMap) (i : Input Num) : Prop where
  accepted : ∀ set p, acceptance P cm i = some (set, p) → (∀ v, recorded cm = some v → v.publication ≤ p) ∧
    ∃ v, recorded (reconcileInput P cm i).configMap = some v ∧ v.publication = p
  kept : acceptance P cm i = none → ∀ v, recorded cm = some v →
    recorded (reconcileInput P cm i).configMap = some v

theorem recordStep_idle (h : checkName i.policy.name = false ∨
    i.policy.remoteConfig.isSome = true ∧ i.env.readable = false) : RecordStep P cm i := by
  obtain ⟨hcm, hremote⟩ := reconcile_idle P cm h
  have hnone := acceptance_of_remote_none hremote
  refine ⟨fun set p h => ?_, fun _ v hv => ?_⟩
  · rw [hnone] at h
    cases h
  rwa [hcm]

theorem recordStep_unsigned (hs : requiredSettings P i.policy = none)
    (hr : recorded cm = none ∨ i.env.writable = false) : RecordStep P cm i := by
  have haccept : acceptance P cm i = none := by simp [acceptance, hs]
  refine ⟨fun set p h => absurd (haccept.symm.trans h) (by simp), fun _ v hv => ?_⟩
  simp_all [configMap_of_unwritable]

theorem recordStep_pull {s : Settings} (hu : Usable P cm) (hs : requiredSettings P i.policy = some s)
    (ht : ∀ v, recorded cm = some v → trusted s.keys v.keyID = true) (hwrite : i.env.writable = true)
    (hrender : ∀ copy, (renderConfigMap P i.policy copy).isSome = true)
    (hname : checkName i.policy.name = true) (hread : i.env.readable = true) : RecordStep P cm i := by
  obtain ⟨rc, hrc, hremote, hcm, -⟩ := reconcile_required cm hs hname hread
  obtain ⟨_, _, -, -, hsettings⟩ := signatureSettings_of_required hs
  rcases pullRemote_cases P i.policy rc (some s) cm i.env with
    ⟨hacc, copy, ignored, hpull, hcopy⟩ | ⟨hacc, -, hcopy⟩
  · obtain ⟨sigBody, hcheck⟩ := (checked_of_pull hpull).signed s rfl
    obtain ⟨hmin, key, hkey, hid, -⟩ := check_spec hcheck
    have hne : copy.verified.keyID ≠ [] := by
      rw [← hid, id_of_mem_settings hsettings key hkey]
      exact keyID_ne_nil _
    have haccept : acceptance P cm i = some (s.set, copy.verified.publication) := by
      simp [acceptance, hs, hremote, hacc, hcopy]
    refine ⟨fun set p h => ?_, fun h => absurd (haccept.symm.trans h) (by simp)⟩
    rw [haccept, Option.some.injEq, Prod.mk.injEq] at h
    obtain ⟨-, rfl⟩ := h
    refine ⟨fun v hv => ?_, copy.verified, ?_, rfl⟩
    · obtain ⟨old, hold, rfl⟩ := lastGoodCopy_of_recorded hu hv (ht v hv)
      simpa [minPublication, hold] using hmin
    rw [hcm, hcopy]
    exact recorded_write hwrite hrender hne
  have haccept : acceptance P cm i = none := by simp [acceptance, hs, hremote, hacc]
  refine ⟨fun set p h => absurd (haccept.symm.trans h) (by simp), fun _ v hv => ?_⟩
  obtain ⟨old, hold, rfl⟩ := lastGoodCopy_of_recorded hu hv (ht v hv)
  rw [hcm, hcopy, hold]
  exact recorded_write hwrite hrender (hu _ hv).1

theorem recordStep_of_keepsRecord (hu : Usable P cm) (hk : KeepsRecord P cm i) : RecordStep P cm i := by
  cases hk with
  | unnamed hname => exact recordStep_idle (.inl hname)
  | unread hrc hread => exact recordStep_idle (.inr ⟨hrc, hread⟩)
  | unsigned hs hr => exact recordStep_unsigned hs hr
  | kept s hs ht hwrite hrender =>
    grind [checkName, recordStep_pull, signatureSettings_of_required, recordStep_idle]

def RecordedFrom (p : Int64) (cm : Option ConfigMap) : Prop := ∃ v, recorded cm = some v ∧ p ≤ v.publication

theorem recordedFrom_step {p : Int64} (hu : Usable P cm) (hk : KeepsRecord P cm i) (h : RecordedFrom p cm) :
    RecordedFrom p (reconcileInput P cm i).configMap := by
  obtain ⟨v, hv, hp⟩ := h
  obtain ⟨hsome, hnone⟩ := recordStep_of_keepsRecord hu hk
  cases ha : acceptance P cm i with
  | none => exact ⟨v, hnone ha v hv, hp⟩
  | some r =>
    obtain ⟨hle, v', hv', hpub⟩ := hsome r.1 r.2 ha
    exact ⟨v', hv', Int64.le_trans hp (hpub ▸ hle v hv)⟩

end Steps

def KeepsRecords (P : Platform Num) : List (Input Num) → Prop :=
  AtEvery fun before i => KeepsRecord P (configMapAfter P before) i

theorem recordedFrom_run {p : Int64} {before run : List (Input Num)} (hk : KeepsRecords P (before ++ run))
    (h : RecordedFrom p (configMapAfter P before)) : RecordedFrom p (configMapAfter P (before ++ run)) := by
  refine hk.keeps (I := fun r => RecordedFrom p (configMapAfter P r)) h fun r i hr hi => ?_
  rw [configMapAfter_concat]
  exact recordedFrom_step (usable_configMapAfter r) hi hr

/-- In a run whose reconciles all keep the record, a file accepted later has no lower
publication number. -/
theorem publication_le_of_keepsRecords {before between : List (Input Num)} {i j : Input Num}
    (hk : KeepsRecords P (before ++ [i] ++ between ++ [j])) {set : Bytes} {p q : Int64}
    (hi : acceptance P (configMapAfter P before) i = some (set, p))
    (hj : acceptance P (configMapAfter P (before ++ [i] ++ between)) j = some (set, q)) : p ≤ q := by
  obtain ⟨hrun, hkeepj⟩ := atEvery_concat.mp hk
  have hkeepi := hrun before i (List.prefix_append _ _)
  have hfirst : RecordedFrom p (configMapAfter P (before ++ [i])) := by
    obtain ⟨-, v, hv, hp⟩ :=
      (recordStep_of_keepsRecord (usable_configMapAfter before) hkeepi).accepted set p hi
    rw [configMapAfter_concat]
    exact ⟨v, hv, hp ▸ Int64.le_refl _⟩
  obtain ⟨v, hv, hp⟩ := recordedFrom_run hrun hfirst
  obtain ⟨hle, -⟩ := (recordStep_of_keepsRecord (usable_configMapAfter _) hkeepj).accepted set q hj
  exact Int64.le_trans hp (hle v hv)

def samplePublished : Platform Unit :=
  samplePlatform [sampleStatement (bs "acme/app") 3 emptyFile, sampleStatement (bs "acme/app") 5 spacedFile]

def sampleNew (key : Bytes) : Input Unit := ⟨samplePolicy key (bs "acme/app"), sampleServer spacedFile 5⟩

def sampleOld (key : Bytes) : Input Unit := ⟨samplePolicy key (bs "acme/app"), sampleServer emptyFile 3⟩

theorem sample_keepsRecords : KeepsRecords samplePublished [sampleOld sampleKey, sampleNew sampleKey] := by
  have hrender (policy : PiiPolicy Unit) (copy : Option (Copy Unit)) :
      (renderConfigMap samplePublished policy copy).isSome = true := by cases copy <;> rfl
  have hfirst : KeepsRecords samplePublished ([] ++ [sampleOld sampleKey]) := by
    refine atEvery_concat.mpr ⟨atEvery_nil, .kept (sampleSettings (bs "acme/app")) (by rfl) ?_ rfl
      (hrender _)⟩
    intro v hv
    cases hv
  refine atEvery_concat.mpr ⟨hfirst, .kept (sampleSettings (bs "acme/app")) (by rfl) ?_ rfl
    (hrender _)⟩
  intro v hv
  have hrec : recorded (configMapAfter samplePublished [sampleOld sampleKey]) =
      some ⟨3, bs "0000000000000000"⟩ := by decide +kernel
  cases hrec.symm.trans hv
  rfl

theorem publication_kept :
    KeepsRecords samplePublished [sampleOld sampleKey, sampleNew sampleKey] ∧ (3 : Int64) ≤ 5 :=
  ⟨sample_keepsRecords,
    @publication_le_of_keepsRecords _ samplePublished [] [] (sampleOld sampleKey) (sampleNew sampleKey)
      sample_keepsRecords (bs "acme/app") 3 5 (by decide +kernel) (by decide +kernel)⟩

/-- A file is accepted, then the key is mistyped, then it is fixed and the source answers
with the older file. -/
theorem publication_replayed :
    ¬ ∀ (before between : List (Input Unit)) (i j : Input Unit) (set : Bytes) (p q : Int64),
      acceptance samplePublished (configMapAfter samplePublished before) i = some (set, p) →
      acceptance samplePublished (configMapAfter samplePublished (before ++ [i] ++ between)) j = some (set, q) →
      p ≤ q := by
  intro h
  have hle := h [] [sampleNew (bs "ed25519:mistyped")] (sampleNew sampleKey) (sampleOld sampleKey)
    (bs "acme/app") 5 3 (by decide +kernel) (by decide +kernel)
  exact absurd hle (by decide)

end PiiShield.Operator
