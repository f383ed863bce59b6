import PiiShield.Operator.Copies

/-! Runs of the operator on one policy. A restart changes nothing, since all that is kept
is in the ConfigMap, and an edit of the policy is the policy the next reconcile finds. -/

namespace PiiShield.Operator

variable {Num : Type} (P : Platform Num)

/-- One reconcile of a run: the policy it finds and what it meets. -/
structure Input (Num : Type) where
  policy : PiiPolicy Num
  env : Env

/-- The signature settings of a policy that requires signatures, if they are valid. -/
def requiredSettings (policy : PiiPolicy Num) : Option Settings :=
  match policy.remoteConfig with
  | none => none
  | some rc =>
    match rc.signature with
    | none => none
    | some sig => (signatureSettings P rc.url sig).toOption

def reconcileInput (cm : Option ConfigMap) (i : Input Num) : Reconciled Num := reconcile P i.policy cm i.env

def configMapAfter (run : List (Input Num)) : Option ConfigMap :=
  run.foldl (fun cm i => (reconcileInput P cm i).configMap) none

/-- The copy of a remote file that a reconcile merges into the rules it renders. -/
def merged (cm : Option ConfigMap) (i : Input Num) : Option (Copy Num) :=
  (reconcileInput P cm i).remote.bind (·.copy)

/-- The set and the publication of the file that a reconcile accepts with signatures
required. -/
def acceptance (cm : Option ConfigMap) (i : Input Num) : Option (Bytes × Int64) :=
  match requiredSettings P i.policy, (reconcileInput P cm i).remote with
  | some s, some out =>
    if out.accepted then out.copy.map fun c => (s.set, c.verified.publication) else none
  | _, _ => none

variable {P}

theorem configMapAfter_concat (run : List (Input Num)) (i : Input Num) :
    configMapAfter P (run ++ [i]) = (reconcileInput P (configMapAfter P run) i).configMap := by
  simp [configMapAfter]

section Steps

variable {cm : Option ConfigMap} {i : Input Num}

theorem signatureSettings_of_required {policy : PiiPolicy Num} {s : Settings}
    (h : requiredSettings P policy = some s) :
    ∃ rc sig, policy.remoteConfig = some rc ∧ rc.signature = some sig ∧ signatureSettings P rc.url sig = .ok s := by
  unfold requiredSettings at h
  split at h
  · cases h
  · next rc hrc =>
    split at h
    · cases h
    · next sig hsig =>
      cases hs : signatureSettings P rc.url sig with
      | error p => simp [hs, Except.toOption] at h
      | ok s' =>
        simp_all [Except.toOption, Option.some.injEq]

theorem reconcile_required (cm : Option ConfigMap) {s : Settings} (hs : requiredSettings P i.policy = some s)
    (hname : checkName i.policy.name = true) (hread : i.env.readable = true) :
    ∃ rc, i.policy.remoteConfig = some rc ∧
      (reconcileInput P cm i).remote = some (pullRemote P i.policy rc (some s) cm i.env) ∧
      (reconcileInput P cm i).configMap =
        (writeConfigMap P i.policy cm i.env (pullRemote P i.policy rc (some s) cm i.env).copy).1 ∧
      (reconcileInput P cm i).rendered =
        (writeConfigMap P i.policy cm i.env (pullRemote P i.policy rc (some s) cm i.env).copy).2 := by
  obtain ⟨rc, sig, hrc, hsig, hok⟩ := signatureSettings_of_required hs
  simp_all [reconcileInput, reconcile, syncRemote]

theorem reconcile_idle (P : Platform Num) (cm : Option ConfigMap) (h : checkName i.policy.name = false ∨
    i.policy.remoteConfig.isSome = true ∧ i.env.readable = false) :
    (reconcileInput P cm i).configMap = cm ∧ (reconcileInput P cm i).remote = none := by
  grind [reconcileInput, reconcile]

theorem configMap_cases (cm : Option ConfigMap) (i : Input Num) :
    ((reconcileInput P cm i).rendered.isNone = false ∧ (reconcileInput P cm i).configMap = cm) ∨
      ((reconcileInput P cm i).rendered.isNone = true ∧
        ∃ c, renderConfigMap P i.policy (merged P cm i) = some c ∧
          (reconcileInput P cm i).configMap = some c) := by
  have write (copy : Option (Copy Num)) :
      ((writeConfigMap P i.policy cm i.env copy).2.isNone = false ∧
          (writeConfigMap P i.policy cm i.env copy).1 = cm) ∨
        ((writeConfigMap P i.policy cm i.env copy).2.isNone = true ∧
          ∃ c, renderConfigMap P i.policy copy = some c ∧
            (writeConfigMap P i.policy cm i.env copy).1 = some c) := by grind [writeConfigMap]
  grind [merged, reconcileInput, reconcile]

theorem configMap_of_unwritable (h : i.env.writable = false) : (reconcileInput P cm i).configMap = cm := by
  grind [writeConfigMap, reconcileInput, reconcile]

theorem remote_of_merged {copy : Copy Num} (h : merged P cm i = some copy) :
    ∃ rc, i.policy.remoteConfig = some rc ∧
      (reconcileInput P cm i).remote =
        some (pullRemote P i.policy rc (requiredSettings P i.policy) cm i.env) ∧
      (pullRemote P i.policy rc (requiredSettings P i.policy) cm i.env).copy = some copy := by
  unfold merged reconcileInput reconcile at h
  grind [reconcileInput, reconcile, syncRemote, requiredSettings, Except.toOption]

theorem parse_of_merged {copy : Copy Num} (h : merged P cm i = some copy) :
    ∃ ignored, parse P copy.raw = .ok (copy.doc, ignored) := by
  obtain ⟨rc, -, -, hcopy⟩ := remote_of_merged h
  rcases pullRemote_cases P i.policy rc (requiredSettings P i.policy) cm i.env with
    ⟨-, c, ignored, hp, hc⟩ | ⟨-, -, hc⟩
  · rw [hcopy, Option.some.injEq] at hc
    exact hc ▸ (checked_of_pull hp).parses
  exact (lastGoodCopy_spec (hc.symm.trans hcopy)).2.1

theorem noSigner_of_merged (hs : requiredSettings P i.policy = none) {copy : Copy Num}
    (hm : merged P cm i = some copy) : copy.verified = noSigner := by
  obtain ⟨rc, hrc, -, hcopy⟩ := remote_of_merged hm
  rw [hs] at hcopy
  rcases pullRemote_cases P i.policy rc none cm i.env with ⟨-, copy', ignored, hpull, hcopy'⟩ | ⟨-, -, hkept⟩
  · cases hcopy.symm.trans hcopy'
    exact (checked_of_pull hpull).unsigned rfl
  exact (lastGoodCopy_spec (hkept.symm.trans hcopy)).2.2.1 rfl

theorem copy_of_recorded {c : ConfigMap} (hc : renderConfigMap P i.policy (merged P cm i) = some c) {v : Verified}
    (hv : recorded (some c) = some v) :
    ∃ copy s, merged P cm i = some copy ∧ copy.verified = v ∧ requiredSettings P i.policy = some s := by
  rw [(recorded_render hc).2, Option.filter_eq_some_iff] at hv
  obtain ⟨hv, hne⟩ := hv
  obtain ⟨copy, hm, rfl⟩ := Option.map_eq_some_iff.mp hv
  cases hs : requiredSettings P i.policy with
  | none =>
    rw [noSigner_of_merged hs hm] at hne
    cases hne
  | some s => exact ⟨copy, s, hm, rfl, rfl⟩

theorem usable_step (hu : Usable P cm) (i : Input Num) : Usable P (reconcileInput P cm i).configMap := by
  rcases configMap_cases cm i with ⟨-, h⟩ | ⟨-, c, hr, h⟩
  · rwa [h]
  intro v hv
  obtain ⟨hfile, hrec⟩ := recorded_render hr
  rw [h] at hv ⊢
  rw [hrec, Option.filter_eq_some_iff] at hv
  obtain ⟨hv, hne⟩ := hv
  obtain ⟨copy, hcopy, rfl⟩ := Option.map_eq_some_iff.mp hv
  grind [parse_of_merged]

theorem usable_configMapAfter (run : List (Input Num)) : Usable P (configMapAfter P run) := by
  induction run using List.reverseRecOn with
  | nil => intro v hv; cases hv
  | append_singleton run i ih =>
    rw [configMapAfter_concat]
    exact usable_step ih i

end Steps

end PiiShield.Operator
