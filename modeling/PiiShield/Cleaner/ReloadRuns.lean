import PiiShield.Cleaner.Reload
import PiiShield.Operator.Routes

/-! Runs of the policy reloader: what is published is always the environment over the latest file
that was accepted, and when a file that stays in place is applied. -/

namespace PiiShield.Cleaner

open Operator

variable {Num : Type} {P : Platform Num} {S : Sidecar P} {T : TextForms Num} {e : Environ}
  {run before : List Observation} {o : Observation} {s s' s₀ : Reloading Num}
  {f : Option (FileConfig Num × Bytes)}

variable {random : RandomSalt}

theorem loadPolicyFile_toOption (S : Sidecar P) (r : FileRead) :
    (loadPolicyFile S r).toOption = r.policy S := by
  cases r with
  | content b =>
    by_cases hb : b.length ≤ maxPolicyFileBytes
    · have htake : b.take (maxPolicyFileBytes + 1) = b := List.take_of_length_le (by omega)
      simp only [loadPolicyFile, FileRead.policy, htake, if_neg (not_lt.mpr hb), if_pos hb]
      cases parsePolicyJSON S b <;> rfl
    have hlen : (b.take (maxPolicyFileBytes + 1)).length = maxPolicyFileBytes + 1 := by
      rw [List.length_take]
      omega
    simp only [loadPolicyFile, FileRead.policy, hlen, if_pos (Nat.lt_succ_self _), if_neg hb]
    rfl
  | _ => rfl

theorem accepted_eq_none (h : o.stat = none ∨ o.stat = latestStat before) : accepted S before o = none :=
  if_pos h

theorem accepted_eq_load (h : ¬ (o.stat = none ∨ o.stat = latestStat before)) :
    accepted S before o = (loadPolicyFile S o.read).toOption := by
  rw [accepted, if_neg h, loadPolicyFile_toOption]

theorem latestStat_concat (run : List Observation) (o : Observation) :
    latestStat (run ++ [o]) = o.stat.or (latestStat run) := by
  simp [latestStat]

theorem IsLatest.pass (h : IsLatest S run f) (ho : accepted S run o = none) : IsLatest S (run ++ [o]) f := by
  cases f with
  | none => exact atEvery_concat.mpr ⟨h, ho⟩
  | some f =>
    obtain ⟨before, a, after, rfl, hacc, hlater⟩ := h
    refine ⟨before, a, after ++ [o], by simp, hacc, fun mid o' hmid => ?_⟩
    rcases List.prefix_concat_iff.mp hmid with heq | hmid
    · simp_all
    exact hlater mid o' hmid

theorem IsLatest.accept {g : FileConfig Num × Bytes} (ho : accepted S run o = some g) :
    IsLatest S (run ++ [o]) (some g) := by
  refine ⟨run, o, [], rfl, ho, fun mid o' hmid => ?_⟩
  have hlen := hmid.length_le
  simp at hlen

theorem overrideSalt_again {U : Unicode} {salt : Bytes}
    (h : overrideSalt U e random [] = some salt) (random' : RandomSalt) :
    overrideSalt U e random' salt = some salt := by
  rw [overrideSalt] at h ⊢
  split at h
  · simp_all
  · next hset =>
    rw [if_neg hset]
    cases h
    have hne : random.bytes.isEmpty = false := by
      cases hb : random.bytes with
      | nil =>
        have hlen := random.length_eq
        rw [hb] at hlen
        cases hlen
      | cons c t => rfl
    rw [hne]
    rfl

def published (S : Sidecar P) (T : TextForms Num) (e : Environ) (salt : Bytes)
    (f : Option (FileConfig Num × Bytes)) : Snapshot Num :=
  updateConfig S (environmentOver S T e (f.elim (defaultFileConfig S) Prod.fst) salt)

def revisionOf (f : Option (FileConfig Num × Bytes)) : Bytes := f.elim [] Prod.snd

/-- The reloader after some checks, with the salt it started with. -/
structure Follows (S : Sidecar P) (T : TextForms Num) (e : Environ) (salt : Bytes) (run : List Observation)
    (s : Reloading Num) : Prop where
  started : s.reloader.salt = salt
  kept : ∀ random, overrideSalt P.unicode e random salt = some salt
  seen : s.reloader.seen = latestStat run
  latest : ∃ f, IsLatest S run f ∧ s.active = published S T e salt f ∧ s.reloader.revision = revisionOf f

section Check

variable {fi : FileInfo}

theorem check_missing (h : o.stat = none) :
    check S T e o s = some ({ s with reloader := { s.reloader with missingLogged := true } }, false) := by
  simp only [check, h]

theorem check_same (h : o.stat = some fi) (hseen : s.reloader.seen = some fi) :
    check S T e o s = some ({ s with reloader := { s.reloader with missingLogged := false } }, false) := by
  simp only [check, h, if_pos hseen]

theorem check_rejected {p : LoadProblem} (h : o.stat = some fi) (hseen : ¬ s.reloader.seen = some fi)
    (hload : loadPolicyFile S o.read = .error p) :
    ∃ s', check S T e o s = some (s', false) ∧ s'.active = s.active ∧
      s'.reloader = { s.reloader with missingLogged := false, seen := some fi } ∧
      s'.metrics.configRevisionInfo = s.metrics.configRevisionInfo := by
  simp only [check, h, if_neg hseen, hload]
  exact ⟨_, rfl, rfl, rfl, rfl⟩

theorem check_accepted {cfg : FileConfig Num} {rev : Bytes} {c : SaltedConfig Num} (h : o.stat = some fi)
    (hseen : ¬ s.reloader.seen = some fi) (hload : loadPolicyFile S o.read = .ok (cfg, rev))
    (hc : applyEnv S T e o.random ⟨cfg, s.reloader.salt⟩ = some c) :
    ∃ s', check S T e o s = some (s', true) ∧ s'.active = updateConfig S c ∧
      s'.reloader = { s.reloader with missingLogged := false, seen := some fi, revision := rev } := by
  simp_all [check, Option.map_some]

end Check

section Steps

variable {salt : Bytes}

theorem Follows.keep (h : Follows S T e salt run s) (ho : accepted S run o = none) :
    ∃ s', check S T e o s = some (s', false) ∧ s'.active = s.active ∧
      s'.reloader.revision = s.reloader.revision ∧
      s'.metrics.configRevisionInfo = s.metrics.configRevisionInfo ∧ Follows S T e salt (run ++ [o]) s' := by
  obtain ⟨f, hlatest, hactive, hrevision⟩ := h.latest
  have hlatest' := hlatest.pass ho
  have hseen := latestStat_concat run o
  cases hstat : o.stat with
  | none =>
    rw [hstat, Option.none_or] at hseen
    refine ⟨_, check_missing hstat, rfl, rfl, rfl, h.started, h.kept, ?_, f, hlatest', hactive, hrevision⟩
    rw [hseen]
    exact h.seen
  | some fi =>
    rw [hstat, Option.some_or] at hseen
    by_cases hsame : s.reloader.seen = some fi
    · refine ⟨_, check_same hstat hsame, rfl, rfl, rfl, h.started, h.kept, ?_, f, hlatest', hactive, hrevision⟩
      rw [hseen]
      exact hsame
    have hnew : ¬ (o.stat = none ∨ o.stat = latestStat run) := by
      rw [hstat, ← h.seen]
      rintro (hnone | heq)
      · cases hnone
      exact hsame heq.symm
    rw [accepted_eq_load hnew] at ho
    cases hload : loadPolicyFile S o.read with
    | ok r =>
      rw [hload] at ho
      cases ho
    | error p =>
      obtain ⟨s', hcheck, hact, hrel, hinfo⟩ := check_rejected (T := T) (e := e) hstat hsame hload
      have hrev : s'.reloader.revision = s.reloader.revision := by
        rw [hrel]
      refine ⟨s', hcheck, hact, hrev, hinfo, ?_, h.kept, ?_, f, hlatest', hact.trans hactive, hrev.trans hrevision⟩
      · rw [hrel]
        exact h.started
      rw [hrel, hseen]

theorem Follows.accept {g : FileConfig Num × Bytes} (h : Follows S T e salt run s)
    (ho : accepted S run o = some g) :
    ∃ s', check S T e o s = some (s', true) ∧ s'.active = published S T e salt (some g) ∧
      Follows S T e salt (run ++ [o]) s' := by
  have hnew : ¬ (o.stat = none ∨ o.stat = latestStat run) := by
    intro hsame
    rw [accepted_eq_none hsame] at ho
    cases ho
  rw [not_or] at hnew
  obtain ⟨fi, hstat⟩ := Option.ne_none_iff_exists'.mp hnew.1
  have hsame : ¬ s.reloader.seen = some fi := by
    rw [h.seen, ← hstat]
    exact fun heq => hnew.2 heq.symm
  have hseen := latestStat_concat run o
  rw [hstat, Option.some_or] at hseen
  have hload : (loadPolicyFile S o.read).toOption = some g := by
    have hread : accepted S run o = (loadPolicyFile S o.read).toOption :=
      accepted_eq_load (by rw [not_or]; exact hnew)
    rw [← hread, ho]
  cases hl : loadPolicyFile S o.read with
  | error p =>
    rw [hl] at hload
    cases hload
  | ok r =>
    rw [hl] at hload
    cases hload
    have hsalt : applyEnv S T e o.random ⟨g.1, s.reloader.salt⟩ = some (environmentOver S T e g.1 salt) := by
      rw [applyEnv, h.started, h.kept]
      rfl
    obtain ⟨s', hcheck, hact, hrel⟩ := check_accepted hstat hsame hl hsalt
    refine ⟨s', hcheck, hact, ?_, h.kept, ?_, some g, IsLatest.accept ho, hact, ?_⟩
    · rw [hrel]
      exact h.started
    · rw [hrel, hseen]
    rw [hrel]
    rfl

theorem Follows.check (h : Follows S T e salt run s) (o : Observation) :
    ∃ s' new, check S T e o s = some (s', new) ∧ Follows S T e salt (run ++ [o]) s' := by
  cases ho : accepted S run o with
  | none =>
    obtain ⟨s', hs', _, _, _, hfollows⟩ := h.keep ho
    exact ⟨s', false, hs', hfollows⟩
  | some g =>
    obtain ⟨s', hs', _, hfollows⟩ := h.accept ho
    exact ⟨s', true, hs', hfollows⟩

theorem Follows.checks (h : Follows S T e salt before s) (run : List Observation) :
    ∃ s', checks S T e run s = some s' ∧ Follows S T e salt (before ++ run) s' := by
  induction run generalizing before s with
  | nil => exact ⟨s, rfl, by simpa using h⟩
  | cons o run ih =>
    obtain ⟨s', new, hs', hfollows⟩ := h.check o
    grind [Cleaner.checks]

end Steps

theorem follows_start {metricsEnabled : Bool} (h : newPolicyReloader S T e metricsEnabled random = some s₀) :
    Follows S T e s₀.reloader.salt [] s₀ := by
  obtain ⟨base, hbase, rfl⟩ := Option.map_eq_some_iff.mp h
  obtain ⟨salt, hsalt, rfl⟩ := Option.map_eq_some_iff.mp hbase
  exact ⟨rfl, overrideSalt_again hsalt, rfl, none, atEvery_nil, rfl, rfl⟩

theorem salt_start {metricsEnabled : Bool} (h : newPolicyReloader S T e metricsEnabled random = some s₀) :
    s₀.active.config.salt = s₀.reloader.salt := by
  obtain ⟨base, _, rfl⟩ := Option.map_eq_some_iff.mp h
  rfl

/-- After any run of checks what is published is the environment over the file that was accepted
last, or over the defaults, with the salt of the start, and a check that finds no file, cannot read
it or rejects it changes neither that nor the revision. -/
theorem reload_publishes_latest (S : Sidecar P) (T : TextForms Num) (e : Environ) (metricsEnabled : Bool)
    (random : RandomSalt) (s₀ : Reloading Num)
    (hstart : newPolicyReloader S T e metricsEnabled random = some s₀) (run : List Observation) :
    ∃ s, checks S T e run s₀ = some s ∧
      (∃ f, IsLatest S run f ∧ s.active = published S T e s₀.active.config.salt f ∧
        s.reloader.revision = revisionOf f) ∧
      s.active.config.salt = s₀.active.config.salt ∧
      ∀ o : Observation, o.stat = none ∨ o.read.policy S = none →
        ∃ s', check S T e o s = some (s', false) ∧ s'.active = s.active ∧
          s'.reloader.revision = s.reloader.revision ∧
          s'.metrics.configRevisionInfo = s.metrics.configRevisionInfo := by
  have hsalt := salt_start hstart
  obtain ⟨s, hs, hfollows⟩ := (follows_start hstart).checks run
  rw [List.nil_append] at hfollows
  obtain ⟨f, hlatest, hactive, hrevision⟩ := hfollows.latest
  refine ⟨s, hs, ⟨f, hlatest, ?_, hrevision⟩, ?_, ?_⟩
  · rw [hsalt]
    exact hactive
  · rw [hsalt, hactive]
    rfl
  intro o ho
  have hnone : accepted S run o = none := by
    rw [accepted]
    split
    · rfl
    · next hnew =>
      rw [not_or] at hnew
      exact ho.resolve_left hnew.1
  obtain ⟨s', hcheck, hact, hrev, hinfo, _⟩ := hfollows.keep hnone
  exact ⟨s', hcheck, hact, hrev, hinfo⟩

def saltedEnviron : Environ := ⟨fun _ => [], bs "0123456789abcdef", []⟩

def zeroSalt : RandomSalt := ⟨List.replicate 32 0, rfl⟩

def keyInfo : FileInfo := ⟨1, 55⟩

/-- A file that is missing at first. -/
theorem reload_publishes_late_file :
    ∃ s₀ s f, newPolicyReloader (sampleSidecar keyPlatform) sampleForms saltedEnviron true zeroSalt = some s₀ ∧
      checks (sampleSidecar keyPlatform) sampleForms saltedEnviron
        [⟨none, .openError, zeroSalt⟩, ⟨some keyInfo, .content keyFile, zeroSalt⟩] s₀ = some s ∧
      s.active = published (sampleSidecar keyPlatform) sampleForms saltedEnviron s₀.active.config.salt f := by
  have hstart : ∃ s₀, newPolicyReloader (sampleSidecar keyPlatform) sampleForms saltedEnviron true zeroSalt =
      some s₀ := ⟨_, rfl⟩
  obtain ⟨s₀, hs₀⟩ := hstart
  obtain ⟨s, hs, ⟨f, _, hactive, _⟩, _⟩ := reload_publishes_latest _ _ _ _ _ s₀ hs₀
    [⟨none, .openError, zeroSalt⟩, ⟨some keyInfo, .content keyFile, zeroSalt⟩]
  exact ⟨s₀, s, f, hs₀, hs, hactive⟩

end PiiShield.Cleaner
