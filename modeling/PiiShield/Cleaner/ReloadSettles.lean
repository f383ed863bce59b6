import PiiShield.Cleaner.ReloadRuns

/-! When a policy file that stays in place is applied. The reloader remembers what it last looked at,
so a load that fails is not repeated for the same modification time and size. -/

namespace PiiShield.Cleaner

open Operator

structure FileState where
  info : FileInfo
  content : Bytes
  deriving DecidableEq

inductive Fault
  | opening
  | reading
  | closing

/-- What is at the path at the `stat` and at the read of a check, and whether the read fails. -/
structure Sighting where
  atStat : Option FileState
  atRead : Option FileState
  fault : Option Fault
  random : RandomSalt

namespace Sighting

def read (g : Sighting) : FileRead :=
  match g.atRead, g.fault with
  | none, _ => .openError
  | some _, some .opening => .openError
  | some _, some .reading => .readError
  | some _, some .closing => .closeError
  | some f, none => .content f.content

def observation (g : Sighting) : Observation := ⟨g.atStat.map (·.info), g.read, g.random⟩

def states (g : Sighting) : List FileState := g.atStat.toList ++ g.atRead.toList

def Finds (file : FileState) (g : Sighting) : Prop := g.atStat = some file ∧ g.atRead = some file ∧ g.fault = none

end Sighting

/-- Contents that differ have different modification time or size. -/
def ToldApart (run : List Sighting) : Prop :=
  ∀ f ∈ run.flatMap Sighting.states, ∀ g ∈ run.flatMap Sighting.states, f.info = g.info → f = g

variable {Num : Type} {P : Platform Num} {S : Sidecar P} {T : TextForms Num} {e : Environ}
  {run before : List Observation} {o : Observation} {s s₀ : Reloading Num} {file : FileState}

section Latest

variable {f g : Option (FileConfig Num × Bytes)}

theorem isLatest_concat : IsLatest S (run ++ [o]) f ↔
      accepted S run o = f ∧ f ≠ none ∨ accepted S run o = none ∧ IsLatest S run f := by
  constructor
  · intro h
    cases f with
    | none =>
      obtain ⟨hrun, ho⟩ := atEvery_concat.mp h
      exact .inr ⟨ho, hrun⟩
    | some c =>
      obtain ⟨before, a, after, heq, hacc, hlater⟩ := h
      rcases List.eq_nil_or_concat after with rfl | ⟨after, b, rfl⟩
      · simp_all
      rw [List.concat_eq_append, ← List.cons_append, ← List.append_assoc] at heq
      obtain ⟨rfl, hlast⟩ := List.append_inj' heq rfl
      cases hlast
      refine .inr ⟨hlater after o (List.prefix_refl _), before, a, after, rfl, hacc, fun mid o' hmid => ?_⟩
      exact hlater mid o' (hmid.trans (List.prefix_append _ _))
  rintro (⟨ho, hf⟩ | ⟨ho, hrun⟩)
  · obtain ⟨c, rfl⟩ := Option.ne_none_iff_exists'.mp hf
    exact IsLatest.accept ho
  exact hrun.pass ho

theorem IsLatest.unique (hf : IsLatest S run f) (hg : IsLatest S run g) : f = g := by
  induction run using List.reverseRecOn with
  | nil =>
    have hnil : ∀ f : Option (FileConfig Num × Bytes), IsLatest S [] f → f = none := by
      intro f h
      cases f with
      | none => rfl
      | some c =>
        obtain ⟨before, a, after, heq, _⟩ := h
        simp at heq
    rw [hnil f hf, hnil g hg]
  | append_singleton run o ih =>
    rcases isLatest_concat.mp hf with ⟨hf, hne⟩ | ⟨hf, hrun⟩
    · rcases isLatest_concat.mp hg with ⟨hg, _⟩ | ⟨hg, _⟩
      · exact hf.symm.trans hg
      exact absurd (hf.symm.trans hg) hne
    rcases isLatest_concat.mp hg with ⟨hg, hne⟩ | ⟨_, hrun'⟩
    · exact absurd (hg.symm.trans hf) hne
    exact ih hrun hrun'

theorem IsLatest.unchanged {fi : FileInfo} {rest : List Observation} (h : IsLatest S run f)
    (hseen : latestStat run = some fi) (hrest : ∀ o ∈ rest, o.stat = some fi) : IsLatest S (run ++ rest) f := by
  induction rest generalizing run with
  | nil => simpa using h
  | cons o rest ih =>
    have ho := hrest o List.mem_cons_self
    have hskip : accepted S run o = none := accepted_eq_none (.inr (ho.trans hseen.symm))
    have hseen' : latestStat (run ++ [o]) = some fi := by
      simp [latestStat_concat, ho]
    have hnext := ih (h.pass hskip) hseen' fun b hb => hrest b (List.mem_cons_of_mem o hb)
    rwa [List.append_assoc, List.singleton_append] at hnext

end Latest

theorem Sighting.Finds.observation {g : Sighting} (h : g.Finds file) :
    g.observation.stat = some file.info ∧ g.observation.read = .content file.content := by
  obtain ⟨hstat, hread, hfault⟩ := h
  simp [Sighting.observation, Sighting.read, hstat, hread, hfault]

theorem isLatest_settled {c : FileConfig Num × Bytes} {f : Option (FileConfig Num × Bytes)} {rest : List Observation}
    (hbefore : IsLatest S before f) (hvalid : (FileRead.content file.content).policy S = some c) (hne : rest ≠ [])
    (hrest : ∀ o ∈ rest, o.stat = some file.info ∧ o.read = .content file.content) :
    IsLatest S (before ++ rest) (if latestStat before = some file.info then f else some c) := by
  have hstats : ∀ o ∈ rest, o.stat = some file.info := fun o ho => (hrest o ho).1
  split
  · next hseen => exact hbefore.unchanged hseen hstats
  · next hseen =>
    obtain ⟨o, rest, rfl⟩ := List.exists_cons_of_ne_nil hne
    obtain ⟨hstat, hread⟩ := hrest o List.mem_cons_self
    have haccept : accepted S before o = some c := by
      rw [accepted, if_neg, hread]
      · exact hvalid
      rw [hstat]
      rintro (hnone | heq)
      · cases hnone
      exact hseen heq.symm
    have hseen' : latestStat (before ++ [o]) = some file.info := by
      simp [latestStat_concat, hstat]
    have hlast := (IsLatest.accept haccept).unchanged hseen' fun b hb => hstats b (List.mem_cons_of_mem o hb)
    rwa [List.append_assoc, List.singleton_append] at hlast

/-- From the first check on that finds a valid file that stays in place, the environment over it is
published exactly if its time and size were not the last ones seen, or if the file accepted last
gives the same configuration. -/
theorem unchanged_file_applied_iff (S : Sidecar P) (T : TextForms Num) (e : Environ) (metricsEnabled : Bool)
    (random : RandomSalt) (s₀ : Reloading Num)
    (hstart : newPolicyReloader S T e metricsEnabled random = some s₀) (before stable : List Sighting)
    (file : FileState) (c : FileConfig Num × Bytes)
    (hvalid : (FileRead.content file.content).policy S = some c) (hne : stable ≠ [])
    (hstable : ∀ g ∈ stable, g.Finds file) :
    ∃ s, checks S T e ((before ++ stable).map Sighting.observation) s₀ = some s ∧
      (s.active = published S T e s₀.active.config.salt (some c) ↔
        latestStat (before.map Sighting.observation) ≠ some file.info ∨
          ∃ f, IsLatest S (before.map Sighting.observation) f ∧
            published S T e s₀.active.config.salt f = published S T e s₀.active.config.salt (some c)) := by
  have hsalt := salt_start hstart
  obtain ⟨s, hs, hfollows⟩ := (follows_start hstart).checks ((before ++ stable).map Sighting.observation)
  obtain ⟨_, _, hfollows₀⟩ := (follows_start hstart).checks (before.map Sighting.observation)
  rw [List.nil_append] at hfollows hfollows₀
  obtain ⟨f, hlatest, hactive, _⟩ := hfollows.latest
  obtain ⟨f₀, hlatest₀, _, _⟩ := hfollows₀.latest
  have hsettled : IsLatest S ((before ++ stable).map Sighting.observation)
      (if latestStat (before.map Sighting.observation) = some file.info then f₀ else some c) := by
    rw [List.map_append]
    refine isLatest_settled hlatest₀ hvalid (by simpa using hne) fun o ho => ?_
    obtain ⟨g, hg, rfl⟩ := List.mem_map.mp ho
    exact (hstable g hg).observation
  have hf := hlatest.unique hsettled
  refine ⟨s, hs, ?_⟩
  rw [hsalt, hactive, hf]
  split
  · next hseen =>
    constructor
    · intro h
      exact .inr ⟨f₀, hlatest₀, h⟩
    rintro (hother | ⟨f', hlatest', h⟩)
    · exact absurd hseen hother
    rwa [hlatest₀.unique hlatest']
  · next hseen => exact iff_of_true rfl (.inl hseen)

def keyState : FileState := ⟨keyInfo, keyFile⟩

def keyFound : Sighting := ⟨some keyState, some keyState, none, zeroSalt⟩

def keyUnopened : Sighting := { keyFound with fault := some .opening }

theorem exists_start : ∃ s₀, newPolicyReloader (sampleSidecar keyPlatform) sampleForms saltedEnviron true zeroSalt =
    some s₀ := ⟨_, rfl⟩

theorem exists_keyPolicy : ∃ c, (FileRead.content keyFile).policy (sampleSidecar keyPlatform) = some c := by
  have h : ((FileRead.content keyFile).policy (sampleSidecar keyPlatform)).isSome = true := by rfl
  exact Option.isSome_iff_exists.mp h

/-- A file found at the first check is applied. -/
theorem file_applied_at_once :
    ∃ s₀ s c, newPolicyReloader (sampleSidecar keyPlatform) sampleForms saltedEnviron true zeroSalt = some s₀ ∧
      (FileRead.content keyFile).policy (sampleSidecar keyPlatform) = some c ∧
      checks (sampleSidecar keyPlatform) sampleForms saltedEnviron [keyFound.observation] s₀ = some s ∧
      s.active = published (sampleSidecar keyPlatform) sampleForms saltedEnviron s₀.active.config.salt (some c) := by
  obtain ⟨s₀, hs₀⟩ := exists_start
  obtain ⟨c, hc⟩ := exists_keyPolicy
  have hfinds : ∀ g ∈ [keyFound], g.Finds keyState := by
    intro g hg
    cases List.mem_singleton.mp hg
    exact ⟨rfl, rfl, rfl⟩
  obtain ⟨s, hs, hiff⟩ := unchanged_file_applied_iff _ _ _ _ _ s₀ hs₀ [] [keyFound] keyState c hc nofun hfinds
  exact ⟨s₀, s, c, hs₀, hc, hs, hiff.mpr (.inl nofun)⟩

theorem keys_of_keyPolicy {c : FileConfig Unit × Bytes} {salt : Bytes}
    (hc : (FileRead.content keyFile).policy (sampleSidecar keyPlatform) = some c) :
    (published (sampleSidecar keyPlatform) sampleForms saltedEnviron salt (some c)).config.sensitiveKeys =
      [bs "card"] := by
  have hkeys : ((FileRead.content keyFile).policy (sampleSidecar keyPlatform)).map (·.1.sensitiveKeys) =
      some [bs "card"] := by
    rfl
  rw [hc, Option.map_some, Option.some.injEq] at hkeys
  exact hkeys

/-- The file is there from the first check on, but that check could not open it, and no later one
tries again. -/
theorem unopened_file_not_applied :
    ToldApart [keyUnopened, keyFound] ∧ keyFound.Finds keyState ∧
    ∃ s₀ s c, newPolicyReloader (sampleSidecar keyPlatform) sampleForms saltedEnviron true zeroSalt = some s₀ ∧
      (FileRead.content keyState.content).policy (sampleSidecar keyPlatform) = some c ∧
      checks (sampleSidecar keyPlatform) sampleForms saltedEnviron
        [keyUnopened.observation, keyFound.observation] s₀ = some s ∧
      s.active ≠
        published (sampleSidecar keyPlatform) sampleForms saltedEnviron s₀.active.config.salt (some c) := by
  have hapart : ToldApart [keyUnopened, keyFound] := by
    have hall : ∀ f ∈ [keyUnopened, keyFound].flatMap Sighting.states, f = keyState := by
      decide +kernel
    intro f hf g hg _
    rw [hall f hf, hall g hg]
  obtain ⟨s₀, hs₀⟩ := exists_start
  obtain ⟨c, hc⟩ := exists_keyPolicy
  obtain ⟨s, hs, _⟩ := (follows_start hs₀).checks [keyUnopened.observation, keyFound.observation]
  have hkeys : ((newPolicyReloader (sampleSidecar keyPlatform) sampleForms saltedEnviron true zeroSalt).bind
      (checks (sampleSidecar keyPlatform) sampleForms saltedEnviron
        [keyUnopened.observation, keyFound.observation])).map
      (·.active.config.sensitiveKeys == [bs "card"]) = some false := by
    decide +kernel
  rw [hs₀, Option.bind_some, hs, Option.map_some, Option.some.injEq, beq_eq_false_iff_ne] at hkeys
  refine ⟨hapart, ⟨rfl, rfl, rfl⟩, s₀, s, c, hs₀, hc, hs, fun hsame => hkeys ?_⟩
  rw [hsame, keys_of_keyPolicy hc]

end PiiShield.Cleaner
