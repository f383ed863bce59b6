import PiiShield.Webhook.Injection
import PiiShield.Operator.Sample

/-! The webhook on a pod it has injected before, as on an update of the pod. It does not look
for its own sidecar: each time it admits a pod with a policy it adds another. -/

namespace PiiShield.Webhook

open Operator

variable {Num : Type} {M : PodMutator Num}

variable {p pod : Pod} {policy : Policy Num} {target : Bytes}

def sidecars (pod : Pod) : Nat := ((pod.initContainers ++ pod.containers).map (·.name)).count sidecarName

theorem map_name_modify {f : Container → Container} (hf : ∀ c, (f c).name = c.name) (l : List Container) (i : Nat) :
    (l.modify i f).map (·.name) = l.map (·.name) := by
  induction l generalizing i with
  | nil => simp
  | cons c l ih =>
    cases i with
    | zero => simp [hf]
    | succ i => simp [ih]

theorem name_addMount (mount : VolumeMount) (c : Container) : (addMount mount c).name = c.name := rfl

theorem name_wrapCommand (command : Bytes) (c : Container) : (wrapCommand command c).name = c.name := rfl

theorem sidecars_eq
    (hinit : (p.initContainers.map (·.name)).count sidecarName = (pod.initContainers.map (·.name)).count sidecarName)
    (hnames : p.containers.map (·.name) = pod.containers.map (·.name)) : sidecars p = sidecars pod := by
  rw [sidecars, sidecars, List.map_append, List.map_append, List.count_append, List.count_append, hinit, hnames]

theorem name_dropRuleEnvOf (c : Container) : (dropRuleEnvOf c).name = c.name := by
  rw [dropRuleEnvOf]
  split <;> rfl

theorem sidecars_dropRuleEnv (pod : Pod) : sidecars (dropRuleEnv pod) = sidecars pod := by
  have hname : (fun c => (dropRuleEnvOf c).name) = fun c : Container => c.name := funext name_dropRuleEnvOf
  simp [sidecars, dropRuleEnv, Function.comp_def, hname]

theorem sidecars_addSidecar (pod : Pod) {sidecar : Container} (h : sidecar.name = sidecarName) :
    sidecars (M.addSidecar pod sidecar) = sidecars pod + 1 := by
  grind [PodMutator.addSidecar, sidecars, List.count_singleton_self]

/-- What an injection leaves of a pod, and the sidecar it adds. -/
structure Injected (pod p : Pod) : Prop where
  labels : p.labels = pod.labels
  annotations : p.annotations = pod.annotations
  sidecars : sidecars p = sidecars pod + 1

theorem injected_addSidecar (hlabels : p.labels = pod.labels)
    (hannotations : p.annotations = pod.annotations) (hcount : sidecars p = sidecars pod) {sidecar : Container}
    (h : sidecar.name = sidecarName) : Injected pod (M.addSidecar p sidecar) := by
  refine ⟨?_, ?_, by rw [sidecars_addSidecar p h, hcount]⟩
  · rw [PodMutator.addSidecar]
    split <;> exact hlabels
  rw [PodMutator.addSidecar]
  split <;> exact hannotations

theorem Injected.dropRuleEnv (h : Injected pod p) : Injected pod (dropRuleEnv p) :=
  ⟨h.labels, h.annotations, by rw [sidecars_dropRuleEnv, h.sidecars]⟩

theorem injected_injectFileMode (h : M.injectFileMode pod policy target = .ok p) : Injected pod p := by
  rw [PodMutator.injectFileMode] at h
  split at h
  · cases h
  · cases h
    refine injected_addSidecar ?_ ?_ ?_ ?_
    · rfl
    · rfl
    · exact sidecars_eq rfl (map_name_modify (name_addMount _) pod.containers _)
    rfl

theorem injected_injectPipeMode (h : M.injectPipeMode pod policy target = .ok p) : Injected pod p := by
  rw [PodMutator.injectPipeMode] at h
  split at h
  · cases h
  split at h
  · cases h
  · cases h
    refine injected_addSidecar ?_ ?_ ?_ ?_
    · rfl
    · rfl
    · have hmkfifo : [mkfifo.name].count sidecarName = 0 := by decide
      refine sidecars_eq ?_ (map_name_modify (name_wrapCommand _) pod.containers _)
      change ((pod.initContainers ++ [mkfifo]).map (·.name)).count sidecarName = _
      rw [List.map_append, List.count_append]
      exact congrArg (_ + ·) hmkfifo
    rfl

theorem injected_injectEBPFMode (pod : Pod) (policy : Policy Num) : Injected pod (M.injectEBPFMode pod policy) := by
  rw [PodMutator.injectEBPFMode]
  exact injected_addSidecar (by rfl) (by rfl) (by rfl) (by rfl)

theorem injected_finish {q : Pod} {warnings : List Warning} {r : Except Failure Pod}
    (hr : ∀ p, r = .ok p → Injected pod p) (h : (M.finish policy warnings r).admitted q = some p) :
    Injected pod p := by
  cases r with
  | error problem => cases h
  | ok p' =>
    have hp' := hr p' rfl
    cases h
    split
    · exact hp'.dropRuleEnv
    exact hp'

theorem injected_inject {q : Pod}
    (h : (M.inject policy pod target).admitted q = some p) : Injected pod p := by
  rw [PodMutator.inject] at h
  cases hmode : policy.injectionMode with
  | unset | file =>
    rw [hmode] at h
    exact injected_finish (fun p hp => injected_injectFileMode hp) h
  | pipe =>
    rw [hmode] at h
    exact injected_finish (fun p hp => injected_injectPipeMode hp) h
  | ebpf =>
    grind [injected_finish, injected_injectEBPFMode]
  | other mode =>
    rw [hmode] at h
    cases h

theorem injected_handle {ns : Bytes} (hlabel : valueOf pod.labels (bs "pii-shield.io/inject") = bs "true")
    (hpolicy : M.getPolicy ns (policyNameOf pod) = some policy)
    (h : (M.handle ns pod).admitted pod = some p) : Injected pod p := by
  rw [PodMutator.handle, if_neg (not_not.mpr hlabel), hpolicy] at h
  dsimp only at h
  split at h
  · cases h
  split at h
  · cases h
  exact injected_inject h

theorem policyNameOf_eq (h : Injected pod p) : policyNameOf p = policyNameOf pod := by
  rw [policyNameOf, h.annotations, ← policyNameOf]

def resubmitted (M : PodMutator Num) (ns : Bytes) : Nat → Pod → Option Pod
  | 0, pod => some pod
  | n + 1, pod => ((M.handle ns pod).admitted pod).bind (resubmitted M ns n)

theorem sidecars_resubmitted {ns : Bytes} {n : Nat}
    (hlabel : valueOf pod.labels (bs "pii-shield.io/inject") = bs "true")
    (hpolicy : M.getPolicy ns (policyNameOf pod) = some policy) (h : resubmitted M ns n pod = some p) :
    sidecars p = sidecars pod + n := by
  induction n generalizing pod with
  | zero =>
    cases h
    rfl
  | succ n ih =>
    rw [resubmitted] at h
    cases hfirst : (M.handle ns pod).admitted pod with
    | none =>
      rw [hfirst] at h
      cases h
    | some q =>
      rw [hfirst] at h
      have hq := injected_handle hlabel hpolicy hfirst
      have hrest := ih (hq.labels ▸ hlabel) (policyNameOf_eq hq ▸ hpolicy) h
      rw [hrest, hq.sidecars]
      omega

/-- A pod that was admitted is admitted again as it is exactly if no policy was found for it,
so that nothing was injected at all. -/
theorem admitted_unchanged_iff {ns : Bytes} {pod p : Pod}
    (hlabel : valueOf pod.labels (bs "pii-shield.io/inject") = bs "true")
    (h : (M.handle ns pod).admitted pod = some p) :
    (M.handle ns p).admitted p = some p ↔ M.getPolicy ns (policyNameOf pod) = none := by
  cases hpolicy : M.getPolicy ns (policyNameOf pod) with
  | none =>
    rw [PodMutator.handle, if_neg (not_not.mpr hlabel), hpolicy] at h
    dsimp only at h
    split at h
    · cases h
    · next hstrict =>
      cases h
      rw [PodMutator.handle, if_neg (not_not.mpr hlabel), hpolicy]
      dsimp only
      rw [if_neg hstrict]
      simp [Response.admitted]
  | some policy =>
    have hp := injected_handle hlabel hpolicy h
    refine iff_of_false (fun hagain => ?_) (by simp)
    have hagain := injected_handle (hp.labels ▸ hlabel) (policyNameOf_eq hp ▸ hpolicy) hagain
    have hcount := hagain.sidecars
    omega

def sampleMutator (legacy : Bool) (policy : Option (Policy Unit)) : PodMutator Unit where
  platform := samplePlatform []
  forms := ⟨fun _ => [], fun _ => none, fun _ => none, fun _ => none⟩
  getenv _ := []
  legacySidecarMode := legacy
  strictMode := false
  getPolicy _ _ := policy
  policyFile _ _ := none

def modePolicy (mode : InjectionMode) : Policy Unit :=
  ⟨bs "default", bs "shop", ⟨(), (), 0, [], [], [], []⟩, [], [], none, mode, [], [], [], true, false⟩

def samplePod : Pod where
  labels := [(bs "pii-shield.io/inject", bs "true")]
  annotations := []
  volumes := []
  initContainers := []
  containers := [⟨bs "app", bs "app:1", [], [bs "serve"], [], [], [], [], none, [], none, none, []⟩]
  securityContext := none
  shareProcessNamespace := none
  rest := []

theorem sidecars_resubmitted_twice :
    ∃ p, resubmitted (sampleMutator false (some (modePolicy .file))) (bs "shop") 2 samplePod = some p ∧
      sidecars p = sidecars samplePod + 2 := by
  have hsome : (resubmitted (sampleMutator false (some (modePolicy .file))) (bs "shop") 2 samplePod).isSome = true := by
    decide +kernel
  obtain ⟨p, hp⟩ := Option.isSome_iff_exists.mp hsome
  exact ⟨p, hp, sidecars_resubmitted (by decide) rfl hp⟩

theorem admitted_unchanged_sample :
    ((sampleMutator false none).handle (bs "shop") samplePod).admitted samplePod = some samplePod ∧
    ∃ p, ((sampleMutator false (some (modePolicy .file))).handle (bs "shop") samplePod).admitted samplePod = some p ∧
      ((sampleMutator false (some (modePolicy .file))).handle (bs "shop") p).admitted p ≠ some p := by
  have hlabel : valueOf samplePod.labels (bs "pii-shield.io/inject") = bs "true" := by decide
  constructor
  · have hsame : ((sampleMutator false none).handle (bs "shop") samplePod).admitted samplePod = some samplePod := by
      decide
    exact (admitted_unchanged_iff hlabel hsame).mpr rfl
  have hsome : (((sampleMutator false (some (modePolicy .file))).handle (bs "shop") samplePod).admitted
      samplePod).isSome = true := by decide
  obtain ⟨p, hp⟩ := Option.isSome_iff_exists.mp hsome
  refine ⟨p, hp, fun hagain => ?_⟩
  cases (admitted_unchanged_iff hlabel hp).mp hagain

/-- Submitted again, the pod has two sidecars and the volumes twice; in the mode pipe the command
is wrapped again and lost; and a pod with the sidecar among its containers is denied. -/
theorem injected_again :
    (resubmitted (sampleMutator false (some (modePolicy .file))) (bs "shop") 2 samplePod).map
      (fun p => (sidecars p, p.volumes.map (·.name), p.containers.map fun c => c.volumeMounts.map (·.name))) =
        some (2, [bs "pii-shared", bs "pii-tmp", bs "pii-policy", bs "pii-shared", bs "pii-tmp", bs "pii-policy"],
          [[bs "pii-shared", bs "pii-shared"]]) ∧
    (resubmitted (sampleMutator false (some (modePolicy .pipe))) (bs "shop") 1 samplePod).map
      (fun p => p.containers.map (·.args)) = some [[bs "exec serve > /shared/log.pipe"]] ∧
    (resubmitted (sampleMutator false (some (modePolicy .pipe))) (bs "shop") 2 samplePod).map
      (fun p => (sidecars p, p.containers.map (·.args))) = some (2, [[bs "exec /bin/sh -c > /shared/log.pipe"]]) ∧
    (resubmitted (sampleMutator false (some (modePolicy .ebpf))) (bs "shop") 2 samplePod).map sidecars = some 2 ∧
    (resubmitted (sampleMutator true (some (modePolicy .file))) (bs "shop") 1 samplePod).map
      ((sampleMutator true (some (modePolicy .file))).handle (bs "shop")) = some (.denied .multipleContainers) := by
  decide +kernel

end PiiShield.Webhook
