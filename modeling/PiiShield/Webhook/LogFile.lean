import PiiShield.Webhook.Repetition

/-! The mode file on the log path of a policy: the directory the target shares and the file the
sidecar watches in it. -/

namespace PiiShield.Webhook

open Operator

variable {file target : Bytes} {i : Nat} {p pod : Pod}

/-- A path names a file of a directory: the two joined by one slash. The root ends in its own. -/
def Joins (path dir file : Bytes) : Prop :=
  path = dir ++ chr '/' :: file ∨ dir = bs "/" ∧ path = chr '/' :: file

theorem exists_lastSlash {path : Bytes} (h : chr '/' ∈ path) :
    ∃ dir file, path = dir ++ chr '/' :: file ∧ chr '/' ∉ file := by
  obtain ⟨file, dir, hrev, hfile⟩ := List.eq_append_cons_of_mem (List.mem_reverse.mpr h)
  grind [List.reverse_reverse]

theorem ne_slash_of_not_mem (hfile : chr '/' ∉ file) : ∀ c ∈ file.reverse, (c != chr '/') = true := by
  intro c hc
  rw [bne_iff_ne]
  rintro rfl
  exact hfile (List.mem_reverse.mp hc)

theorem beforeLastSlash_append (dir : Bytes) (hfile : chr '/' ∉ file) :
    beforeLastSlash (dir ++ chr '/' :: file) = dir := by
  have hrev : (dir ++ chr '/' :: file).reverse = file.reverse ++ chr '/' :: dir.reverse := by simp
  rw [beforeLastSlash, hrev, List.dropWhile_append_of_pos (ne_slash_of_not_mem hfile)]
  simp

theorem afterLastSlash_append (dir : Bytes) (hfile : chr '/' ∉ file) :
    afterLastSlash (dir ++ chr '/' :: file) = file := by
  have hrev : (dir ++ chr '/' :: file).reverse = file.reverse ++ chr '/' :: dir.reverse := by simp
  rw [afterLastSlash, hrev, List.takeWhile_append_of_pos (ne_slash_of_not_mem hfile)]
  simp

def watchedName (path : Bytes) : Bytes := if (afterLastSlash path).isEmpty then bs "log.txt" else afterLastSlash path

def isFilePath (path : Bytes) : Bool := firstIs path (· == chr '/') && path.getLast? != some (chr '/')

theorem getLast?_slash_append (dir file : Bytes) (hne : file ≠ []) :
    (dir ++ chr '/' :: file).getLast? = file.getLast? := by
  grind

theorem joins_mountPathBase_iff (path : Bytes) :
    firstIs (mountPathBase path) (· == chr '/') = true ∧ Joins path (mountPathBase path) (watchedName path) ↔
      isFilePath path = true := by
  by_cases hslash : chr '/' ∈ path
  · obtain ⟨dir, file, rfl, hfile⟩ := exists_lastSlash hslash
    have hbase : mountPathBase (dir ++ chr '/' :: file) = if dir.isEmpty then bs "/" else dir := by
      rw [mountPathBase, if_pos (by simp), beforeLastSlash_append dir hfile]
    have hwatched : watchedName (dir ++ chr '/' :: file) = if file.isEmpty then bs "log.txt" else file := by
      rw [watchedName, afterLastSlash_append dir hfile]
    rw [hbase, hwatched]
    by_cases hempty : file = []
    · subst hempty
      have hlast : (dir ++ [chr '/']).getLast? = some (chr '/') := List.getLast?_concat
      have hlog (dir' : Bytes) : (dir' ++ chr '/' :: bs "log.txt").getLast? = some (chr 't') := by
        rw [getLast?_slash_append dir' _ (by decide)]
        rfl
      refine iff_of_false ?_ (by simp [isFilePath])
      rintro ⟨-, hjoin | ⟨-, hjoin⟩⟩
      · grind
      have hclash := congrArg List.getLast? hjoin
      rw [hlast] at hclash
      exact absurd (hclash.trans (hlog [])) (by decide)
    have hlast : (dir ++ chr '/' :: file).getLast? ≠ some (chr '/') := by grind
    have hname : file.isEmpty = false := by simpa using hempty
    rw [hname, if_neg Bool.false_ne_true, isFilePath, Bool.and_eq_true, bne_iff_ne, and_iff_left hlast]
    cases dir with
    | nil => exact iff_of_true ⟨rfl, .inr ⟨rfl, rfl⟩⟩ rfl
    | cons c dir => exact and_iff_left (.inl rfl)
  have hbase : mountPathBase path = path := by
    rw [mountPathBase, if_neg (by simpa using hslash)]
  have hfirst : firstIs path (· == chr '/') = false := by
    cases path with
    | nil => rfl
    | cons c rest =>
      refine beq_eq_false_iff_ne.mpr ?_
      rintro rfl
      exact hslash List.mem_cons_self
  rw [hbase, isFilePath, hfirst]
  simp

theorem isFilePath_logPathOf {Num : Type} (policy : Policy Num) :
    isFilePath (logPathOf policy) = true ↔ policy.logPath = [] ∨ isFilePath policy.logPath = true := by
  rw [logPathOf]
  by_cases hempty : policy.logPath = []
  · rw [hempty]
    exact iff_of_true (by decide) (.inl rfl)
  rw [if_neg (by simpa using hempty)]
  exact (or_iff_right hempty).symm

variable {Num : Type} (M : PodMutator Num)

def PodMutator.lastInjected (pod : Pod) : Option Container :=
  if M.isLegacy then pod.containers.getLast? else pod.initContainers.getLast?

def targetOf (pod : Pod) : Option Nat :=
  PodMutator.getTargetContainerIndex pod (valueOf pod.annotations (bs "pii-shield.io/target-container"))

/-- A sidecar that watches the file a path names in the target, the shared volume being mounted
there at a directory. -/
def Watches (sidecar : Container) (path dir : Bytes) : Prop :=
  ⟨bs "pii-shared", bs "/shared", false⟩ ∈ sidecar.volumeMounts ∧
    ∃ file, sidecar.args = [bs "--watch-file", bs "/shared/" ++ file] ∧ Joins path dir file

structure Sharing (p : Pod) (policy : Policy Num) (i : Nat) : Prop where
  target : ∃ c, p.containers[i]? = some c ∧
    c.volumeMounts.getLast? = some ⟨bs "pii-shared", mountPathBase (logPathOf policy), false⟩
  sidecar : ∃ s, M.lastInjected p = some s ∧ ⟨bs "pii-shared", bs "/shared", false⟩ ∈ s.volumeMounts ∧
    s.args = [bs "--watch-file", sidecarTargetFile (logPathOf policy)]

variable {M} {policy : Policy Num}

theorem lt_of_getTargetContainerIndex
    (h : PodMutator.getTargetContainerIndex pod target = some i) : i < pod.containers.length := by
  rw [PodMutator.getTargetContainerIndex] at h
  split at h
  · next hone =>
    cases h
    rw [hone]
    exact Nat.zero_lt_one
  exact (List.findIdx?_eq_some_iff_findIdx_eq.mp h).1

theorem lastInjected_addSidecar (pod : Pod) (sidecar : Container) :
    M.lastInjected (M.addSidecar pod sidecar) =
      some (if M.isLegacy then sidecar else { sidecar with restartPolicy := some (bs "Always") }) := by
  grind [PodMutator.lastInjected, PodMutator.addSidecar, List.getLast?_concat]

theorem getElem?_addSidecar (hi : i < pod.containers.length) (sidecar : Container) :
    (M.addSidecar pod sidecar).containers[i]? = pod.containers[i]? := by
  grind [PodMutator.addSidecar, List.getElem?_append_left]

theorem sharing_injectFileMode (h : M.injectFileMode pod policy target = .ok p) :
    ∃ i, PodMutator.getTargetContainerIndex pod target = some i ∧ Sharing M p policy i := by
  rw [PodMutator.injectFileMode] at h
  cases htarget : PodMutator.getTargetContainerIndex pod target with
  | none =>
    rw [htarget] at h
    cases h
  | some i =>
    rw [htarget] at h
    cases h
    have hi := lt_of_getTargetContainerIndex htarget
    refine ⟨i, rfl, ?_, ?_⟩
    · simp [addMount, getElem?_addSidecar, addVolumes,
        PodMutator.withFSGroup, hi]
    refine ⟨_, lastInjected_addSidecar _ _, ?_⟩
    cases M.isLegacy with
    | true | false => exact ⟨List.mem_cons_self, rfl⟩

theorem volumeMounts_dropRuleEnvOf (c : Container) : (dropRuleEnvOf c).volumeMounts = c.volumeMounts := by
  rw [dropRuleEnvOf]
  split <;> rfl

theorem args_dropRuleEnvOf (c : Container) : (dropRuleEnvOf c).args = c.args := by
  rw [dropRuleEnvOf]
  split <;> rfl

theorem lastInjected_dropRuleEnv (pod : Pod) :
    M.lastInjected (dropRuleEnv pod) = (M.lastInjected pod).map dropRuleEnvOf := by
  rw [PodMutator.lastInjected, PodMutator.lastInjected]
  cases M.isLegacy with
  | true | false => exact List.getLast?_map

theorem Sharing.dropRuleEnv (h : Sharing M p policy i) : Sharing M (dropRuleEnv p) policy i := by
  obtain ⟨⟨c, hc, hmount⟩, s, hs, hshared, hargs⟩ := h
  refine ⟨⟨dropRuleEnvOf c, ?_, by rw [volumeMounts_dropRuleEnvOf, hmount]⟩, dropRuleEnvOf s, ?_,
    by rw [volumeMounts_dropRuleEnvOf]; exact hshared, by rw [args_dropRuleEnvOf, hargs]⟩
  · rw [Webhook.dropRuleEnv, List.getElem?_map, hc, Option.map_some]
  simp [lastInjected_dropRuleEnv, hs]

theorem sharing_finish {warnings warnings' : List Warning}
    (h : M.finish policy warnings (M.injectFileMode pod policy target) = .patched p warnings') :
    ∃ i, PodMutator.getTargetContainerIndex pod target = some i ∧ Sharing M p policy i := by
  cases hfile : M.injectFileMode pod policy target with
  | error problem =>
    rw [hfile] at h
    cases h
  | ok q =>
    rw [hfile] at h
    obtain ⟨i, hi, hsharing⟩ := sharing_injectFileMode hfile
    refine ⟨i, hi, ?_⟩
    cases h
    split
    · exact hsharing.dropRuleEnv
    exact hsharing

theorem sharing_handle {ns : Bytes} {warnings : List Warning}
    (hpolicy : M.getPolicy ns (policyNameOf pod) = some policy)
    (hmode : policy.injectionMode = .unset ∨ policy.injectionMode = .file)
    (h : M.handle ns pod = .patched p warnings) : ∃ i, targetOf pod = some i ∧ Sharing M p policy i := by
  rw [PodMutator.handle, hpolicy] at h
  split at h
  · cases h
  dsimp only at h
  split at h
  · cases h
  split at h
  · cases h
  rw [PodMutator.inject] at h
  rcases hmode with hmode | hmode
  · rw [hmode] at h
    exact sharing_finish h
  rw [hmode] at h
  exact sharing_finish h

/-- The sidecar watches the file the log path names in the target exactly if that path is the
default or one from the root that does not end in a slash. -/
theorem sidecar_watches_log_iff {ns : Bytes} {pod p : Pod} {warnings : List Warning}
    (hpolicy : M.getPolicy ns (policyNameOf pod) = some policy)
    (hmode : policy.injectionMode = .unset ∨ policy.injectionMode = .file)
    (h : M.handle ns pod = .patched p warnings) :
    (∃ i c mount sidecar, targetOf pod = some i ∧ p.containers[i]? = some c ∧ c.volumeMounts.getLast? = some mount ∧
      mount.name = bs "pii-shared" ∧ firstIs mount.mountPath (· == chr '/') = true ∧
      M.lastInjected p = some sidecar ∧ Watches sidecar (logPathOf policy) mount.mountPath) ↔
    policy.logPath = [] ∨ isFilePath policy.logPath = true := by
  obtain ⟨i, hi, ⟨c, hc, hmount⟩, s, hs, hshared, hargs⟩ := sharing_handle hpolicy hmode h
  rw [← isFilePath_logPathOf, ← joins_mountPathBase_iff]
  constructor
  · rintro ⟨i', c', mount, s', hi', hc', hmount', -, hfirst, hs', -, file, hargs', hjoin⟩
    rw [hi] at hi'
    cases hi'
    rw [hc] at hc'
    cases hc'
    rw [hmount] at hmount'
    cases hmount'
    rw [hs] at hs'
    cases hs'
    have hfile : watchedName (logPathOf policy) = file := by
      have hsame := (List.cons.inj (List.cons.inj (hargs.symm.trans hargs')).2).1
      exact List.append_cancel_left hsame
    rw [hfile]
    exact ⟨hfirst, hjoin⟩
  rintro ⟨hfirst, hjoin⟩
  exact ⟨i, c, _, s, hi, hc, hmount, rfl, hfirst, hs, hshared, watchedName (logPathOf policy), hargs, hjoin⟩

def loggingTo (path : Bytes) : Policy Unit := { modePolicy .file with logPath := path }

theorem sidecar_watches_log_sample :
    ∃ p warnings,
      (sampleMutator false (some (loggingTo (bs "/var/log/app.txt")))).handle (bs "shop") samplePod
        = .patched p warnings ∧
      ∃ i c mount sidecar, targetOf samplePod = some i ∧ p.containers[i]? = some c ∧
        c.volumeMounts.getLast? = some mount ∧ mount.name = bs "pii-shared" ∧
        firstIs mount.mountPath (· == chr '/') = true ∧
        (sampleMutator false (some (loggingTo (bs "/var/log/app.txt")))).lastInjected p = some sidecar ∧
        Watches sidecar (logPathOf (loggingTo (bs "/var/log/app.txt"))) mount.mountPath := by
  have hpatched : ∃ p warnings,
      (sampleMutator false (some (loggingTo (bs "/var/log/app.txt")))).handle (bs "shop") samplePod
        = .patched p warnings :=
    ⟨_, _, rfl⟩
  have hpolicy : (sampleMutator false (some (loggingTo (bs "/var/log/app.txt")))).getPolicy (bs "shop")
      (policyNameOf samplePod) = some (loggingTo (bs "/var/log/app.txt")) := rfl
  obtain ⟨p, warnings, h⟩ := hpatched
  exact ⟨p, warnings, h, (sidecar_watches_log_iff hpolicy (.inr rfl) h).mpr (.inr (by decide))⟩

/-- A log path without a slash: the volume is mounted at the name of the file. -/
theorem sidecar_misses_bare_name :
    ∃ p warnings,
      (sampleMutator false (some (loggingTo (bs "log.txt")))).handle (bs "shop") samplePod = .patched p warnings ∧
      p.containers.map (fun c => c.volumeMounts.map (·.mountPath)) = [[bs "log.txt"]] ∧
      p.initContainers.map (·.args) = [[bs "--watch-file", bs "/shared/log.txt"]] ∧
      ¬∃ i c mount sidecar, targetOf samplePod = some i ∧ p.containers[i]? = some c ∧
        c.volumeMounts.getLast? = some mount ∧ mount.name = bs "pii-shared" ∧
        firstIs mount.mountPath (· == chr '/') = true ∧
        (sampleMutator false (some (loggingTo (bs "log.txt")))).lastInjected p = some sidecar ∧
        Watches sidecar (logPathOf (loggingTo (bs "log.txt"))) mount.mountPath := by
  refine ⟨_, _, rfl, by decide +kernel, by decide +kernel, ?_⟩
  rintro ⟨i, c, mount, sidecar, hi, hc, hmount, -, hfirst, -⟩
  cases hi
  cases hc
  cases hmount
  exact absurd hfirst (by decide)

end PiiShield.Webhook
