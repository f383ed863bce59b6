import PiiShield.Assoc
import PiiShield.Panel.Receiving
import PiiShield.Stats.Growth

/-! Which reports the rule server accepts. -/

namespace PiiShield.Stats

open Panel

def validText (s : Bytes) : Bytes := (runes s).flatMap encodeRune

def decodedCounts {V : Type} (counts : List (Bytes × V)) : List (Bytes × V) :=
  Assoc.lasts ((counts.mergeSort fun a b => decide (a.1 ≤ b.1)).map fun e => (validText e.1, e.2))

def Report.decoded (r : Report) : ReportBody where
  schema := validText r.schema
  cluster := validText r.cluster
  policy := validText r.policy
  windowFrom := r.windowFrom
  windowTo := r.windowTo
  mode := validText r.mode
  podsReporting := r.podsReporting
  podsTotal := r.podsTotal
  revisions := decodedCounts (r.revisions.entries.map fun e => (e.1, (e.2 : Int)))
  remote := r.remote.map fun r => ⟨validText r.revision, r.publication.toInt, validText r.signedBy⟩
  lines := r.lines
  errors := r.errors
  redactions := decodedCounts r.redactions
  auditFindings := decodedCounts r.auditFindings

def FewCounts (t : Tally Bytes) : Prop :=
  (decodedCounts t.entries).length ≤ maxReportKeys ∧
    ∀ e ∈ decodedCounts t.entries, e.1.length ≤ maxKeyLen ∧ e.2 < 2 ^ 63

/-- A policy and the state its report is made of keep within the bounds of the server. -/
structure Fits (p : Policy) (st : PolicyState) : Prop where
  policy : (validText (p.ns ++ bs "/" ++ p.name)).length ≤ 253
  cluster : (validText p.clusterName).length ≤ maxKeyLen
  window : st.windowStart.nanos ≠ 0
  lines : st.acc.lines < 2 ^ 63
  errors : st.acc.errors < 2 ^ 63
  revisions : (decodedCounts st.revisions.entries).length ≤ maxReportKeys ∧
    ∀ e ∈ decodedCounts st.revisions.entries, e.1.length ≤ maxKeyLen
  redactions : FewCounts st.acc.redactions
  auditFindings : p.auditMode = true → FewCounts st.acc.auditFindings
  remote : ∀ r, p.remote = some r →
    (validText r.revision).length ≤ maxKeyLen ∧ (validText r.signedBy).length ≤ maxKeyLen

theorem decodedCounts_map {V W : Type} (f : V → W) (counts : List (Bytes × V)) :
    decodedCounts (counts.map fun e => (e.1, f e.2)) = (decodedCounts counts).map fun e => (e.1, f e.2) := by
  rw [decodedCounts, decodedCounts, ← Assoc.lasts_map,
    ← List.map_mergeSort (r := fun a b => decide (a.1 ≤ b.1)) fun _ _ _ _ => rfl]
  simp only [List.map_map]
  rfl

theorem int64Of_nonneg_iff (n : Nat) : 0 ≤ int64Of n ↔ n < 2 ^ 63 := by
  rw [int64Of]
  split <;> omega

theorem fewCounts_iff (t : Tally Bytes) :
    (decodedCounts (t.entries.map fun e => (e.1, int64Of e.2))).length ≤ maxReportKeys ∧
      fitKeys (decodedCounts (t.entries.map fun e => (e.1, int64Of e.2))) = true ↔ FewCounts t := by
  rw [decodedCounts_map, List.length_map, FewCounts]
  simp [fitKeys, int64Of_nonneg_iff]

theorem encodeRune_ne_nil (r : Nat) : encodeRune r ≠ [] := by
  rw [encodeRune]
  split_ifs <;> exact List.cons_ne_nil _ _

theorem validText_ne_nil {s : Bytes} (h : s ≠ []) : validText s ≠ [] := by
  obtain ⟨b, t, rfl⟩ := List.exists_cons_of_ne_nil h
  rw [validText, runes, runesFrom]
  simp [encodeRune_ne_nil]

theorem check_report_iff {p : Policy} {st : PolicyState} {now : Instant} (hpods : st.podsReporting ≤ st.podsTotal)
    (hclock : st.windowStart.nanos ≤ now.nanos) :
    (report p st now).decoded.check = .ok () ↔ Fits p st := by
  have hschema : validText (bs "pii-shield-stats-v1") = reportSchema := by rfl
  have hmode : validText (if p.auditMode = true then bs "audit" else bs "redact") = bs "redact" ∨
      validText (if p.auditMode = true then bs "audit" else bs "redact") = bs "audit" := by
    cases p.auditMode <;> decide
  have hnonempty : validText (p.ns ++ bs "/" ++ p.name) ≠ [] := by
    have hslash : bs "/" ≠ [] := by decide
    exact validText_ne_nil (List.append_ne_nil_of_left_ne_nil (List.append_ne_nil_of_right_ne_nil _ hslash) _)
  have hrevisions : (decodedCounts (st.revisions.entries.map fun e => (e.1, (e.2 : Int)))).length ≤ maxReportKeys ∧
      fitKeys (decodedCounts (st.revisions.entries.map fun e => (e.1, (e.2 : Int)))) = true ↔
        (decodedCounts st.revisions.entries).length ≤ maxReportKeys ∧
          ∀ e ∈ decodedCounts st.revisions.entries, e.1.length ≤ maxKeyLen := by
    rw [decodedCounts_map fun n : Nat => (n : Int)]
    simp [fitKeys]
  have hfindings : (report p st now).decoded.auditFindings.length ≤ maxReportKeys ∧
      fitKeys (report p st now).decoded.auditFindings = true ↔
        (p.auditMode = true → FewCounts st.acc.auditFindings) := by
    cases haudit : p.auditMode with
    | true => simpa [Report.decoded, report, haudit] using fewCounts_iff st.acc.auditFindings
    | false => simp [Report.decoded, report, haudit, decodedCounts, Assoc.lasts, fitKeys]
  rw [ReportBody.check_eq_ok_iff]
  constructor
  · rintro ⟨-, ⟨-, hpolicy, hcluster⟩, -, ⟨hwindow, -⟩, ⟨hlines, herrors, -⟩, ⟨hrevs, hreds, hfinds⟩,
      ⟨hredkeys, hfindkeys⟩, hrevkeys, hremote⟩
    constructor
    case policy => exact hpolicy
    case cluster => exact hcluster
    case window => exact hwindow
    case lines => exact (int64Of_nonneg_iff _).mp hlines
    case errors => exact (int64Of_nonneg_iff _).mp herrors
    case revisions => exact hrevisions.mp ⟨hrevs, hrevkeys⟩
    case redactions => exact (fewCounts_iff _).mp ⟨hreds, hredkeys⟩
    case auditFindings => exact hfindings.mp ⟨hfinds, hfindkeys⟩
    case remote =>
      intro r hr
      refine hremote ⟨validText r.revision, r.publication.toInt, validText r.signedBy⟩ ?_
      simp [Report.decoded, report, hr]
  intro h
  obtain ⟨hrevs, hrevkeys⟩ := hrevisions.mpr h.revisions
  obtain ⟨hreds, hredkeys⟩ := (fewCounts_iff _).mpr h.redactions
  obtain ⟨hfinds, hfindkeys⟩ := hfindings.mpr h.auditFindings
  refine ⟨hschema, ⟨hnonempty, h.policy, h.cluster⟩, hmode, ⟨h.window, hclock⟩,
    ⟨(int64Of_nonneg_iff _).mpr h.lines, (int64Of_nonneg_iff _).mpr h.errors, Int.natCast_nonneg _,
      Int.ofNat_le.mpr hpods⟩, ⟨hrevs, hreds, hfinds⟩, ⟨hredkeys, hfindkeys⟩, hrevkeys, ?_⟩
  intro r hr
  obtain ⟨r', hr', rfl⟩ := Option.map_eq_some_iff.mp hr
  exact h.remote r' hr'

section Runs

variable (parseFloat : Bytes → Option Nat)

def stateAtSend (st : Option PolicyState) (p : Policy) (e : PassEnv) : PolicyState :=
  match e.listPods with
  | .error _ => st.getD (freshState e.started)
  | .ok pods =>
    afterReading (st.getD (freshState e.started)) (policyPods p.name pods)
      (readPods (scraped parseFloat e.scrape) (st.getD (freshState e.started)) (policyPods p.name pods))

def Round.clock : Round → List Nat
  | .on _ e => [e.started.nanos, e.now.nanos]
  | _ => []

variable {parseFloat}

theorem report_of_run {st : Option PolicyState} {p : Policy} {e : PassEnv} {rep : Report}
    {result : Except StatsProblem Unit} (h : ((Round.on p e).run parseFloat st).2 = some (rep, result)) :
    rep = report p (stateAtSend parseFloat st p e) e.now ∧
      result = send p (stateAtSend parseFloat st p e) e ∧ ∃ pods, e.listPods = .ok pods := by
  simp only [Round.run, passPolicy] at h
  rw [stateAtSend]
  cases hlist : e.listPods with
  | error message =>
    rw [hlist] at h
    cases h
  | ok pods =>
    simp only [hlist] at h ⊢
    split at h
    · split at h
      · next problem hsend =>
        obtain ⟨rfl, rfl⟩ := Prod.mk.inj (Option.some.inj h)
        exact ⟨rfl, hsend.symm, pods, rfl⟩
      · next hsend =>
        obtain ⟨rfl, rfl⟩ := Prod.mk.inj (Option.some.inj h)
        exact ⟨rfl, hsend.symm, pods, rfl⟩
    · cases h

theorem length_alive_le (samples : Pod → Option Sample) (pods : List Pod) (r : Reading) :
    (pods.foldl (readPod samples) r).alive.length ≤ r.alive.length + pods.length := by
  induction pods generalizing r with
  | nil => exact Nat.le_refl _
  | cons pod pods ih =>
    have hone : (readPod samples r pod).alive.length ≤ r.alive.length + 1 := by
      rw [readPod]
      split
      · exact Nat.le_succ _
      dsimp only
      split
      · exact Nat.le_succ _
      simp
    grind

theorem patchStatus_windowStart (st : PolicyState) (status : StatsStatus) (patched : Bool) :
    (patchStatus st status patched).windowStart = st.windowStart := by
  rw [patchStatus]
  split <;> rfl

theorem passPolicy_windowStart (parseFloat : Bytes → Option Nat) (p : Policy) (st : PolicyState) (e : PassEnv) :
    (passPolicy parseFloat p st e).1.windowStart = e.now ∨
      (passPolicy parseFloat p st e).1.windowStart = st.windowStart := by
  rw [passPolicy]
  cases e.listPods with
  | error message => exact .inr (patchStatus_windowStart _ _ _)
  | ok pods =>
    dsimp only
    split
    · split
      · exact .inr (patchStatus_windowStart _ _ _)
      exact .inl (patchStatus_windowStart _ _ _)
    exact .inr (patchStatus_windowStart _ _ _)

theorem finalState_concat (st : Option PolicyState) (rounds : List Round) (r : Round) :
    finalState parseFloat st (rounds ++ [r]) = (r.run parseFloat (finalState parseFloat st rounds)).1 := by
  rw [finalState, List.foldl_append]
  rfl

theorem windowStart_mem {rounds : List Round} {st : PolicyState} (h : finalState parseFloat none rounds = some st) :
    st.windowStart.nanos ∈ rounds.flatMap Round.clock := by
  induction rounds using List.reverseRecOn generalizing st with
  | nil => cases h
  | append_singleton rounds r ih =>
    rw [finalState_concat] at h
    rw [List.flatMap_append, List.mem_append, List.flatMap_singleton]
    cases r with
    | unlisted => exact .inl (ih h)
    | off => cases h
    | on p e =>
      have hst : (passPolicy parseFloat p ((finalState parseFloat none rounds).getD (freshState e.started)) e).1 = st :=
        Option.some.inj h
      rw [← hst]
      rcases passPolicy_windowStart parseFloat p
        ((finalState parseFloat none rounds).getD (freshState e.started)) e with hw | hw
      · rw [hw]
        exact .inr (by simp [Round.clock])
      rw [hw]
      cases hst : finalState parseFloat none rounds with
      | none => exact .inr (by simp [Round.clock, freshState])
      | some st => exact .inl (ih hst)

/-- In every run with a clock that does not go back, a report is accepted exactly if the policy
and what the window gathered fit. -/
theorem report_accepted_iff {rounds : List Round} {p : Policy} {e : PassEnv} {rep : Report}
    {result : Except StatsProblem Unit}
    (hclock : ((rounds ++ [Round.on p e]).flatMap Round.clock).Pairwise (· ≤ ·))
    (hreport : ((Round.on p e).run parseFloat (finalState parseFloat none rounds)).2 = some (rep, result)) :
    rep.decoded.check = .ok () ↔ Fits p (stateAtSend parseFloat (finalState parseFloat none rounds) p e) := by
  obtain ⟨rfl, -, pods, hpods⟩ := report_of_run hreport
  rw [List.flatMap_append, List.flatMap_singleton] at hclock
  obtain ⟨-, hnow, hbefore⟩ := List.pairwise_append.mp hclock
  refine check_report_iff ?_ ?_
  · have hle := length_alive_le (scraped parseFloat e.scrape) (policyPods p.name pods)
      ⟨((finalState parseFloat none rounds).getD (freshState e.started)).pods,
        ((finalState parseFloat none rounds).getD (freshState e.started)).acc, [], .empty⟩
    rw [List.length_nil, Nat.zero_add] at hle
    rw [stateAtSend, hpods]
    exact hle
  have hstart : (stateAtSend parseFloat (finalState parseFloat none rounds) p e).windowStart =
      ((finalState parseFloat none rounds).getD (freshState e.started)).windowStart := by
    rw [stateAtSend]
    split <;> rfl
  rw [hstart]
  cases hst : finalState parseFloat none rounds with
  | none => exact (List.pairwise_cons.mp hnow).1 _ (List.mem_singleton_self _)
  | some st => exact hbefore _ (windowStart_mem hst) _ (by simp [Round.clock])

end Runs

def samplePassEnv : PassEnv where
  started := ⟨10 ^ 9, Instant.within_first⟩
  now := ⟨400 * 10 ^ 9, Instant.within_400⟩
  listPods := .ok [samplePod]
  scrape _ := some (bs "piishield_processing_duration_seconds_count 10")
  secretValue _ := none
  post _ _ := .ok ()
  patched := true

def laterPassEnv : PassEnv :=
  { samplePassEnv with
    started := samplePassEnv.now
    now := ⟨800 * 10 ^ 9, Instant.within_800⟩
    scrape := fun _ => some (bs "piishield_processing_duration_seconds_count 25") }

theorem report_accepted_sample :
    ∃ rep result,
      ((Round.on samplePolicy laterPassEnv).run wholeNumber
        (finalState wholeNumber none [.on samplePolicy samplePassEnv])).2 = some (rep, result) ∧
      rep.lines = 15 ∧ rep.decoded.check = .ok () := by
  have hsome : (((Round.on samplePolicy laterPassEnv).run wholeNumber
      (finalState wholeNumber none [.on samplePolicy samplePassEnv])).2.map (·.1.lines)) = some 15 := by
    decide +kernel
  obtain ⟨⟨rep, result⟩, hreport, hlines⟩ := Option.map_eq_some_iff.mp hsome
  have hclock : (([Round.on samplePolicy samplePassEnv] ++ [Round.on samplePolicy laterPassEnv]).flatMap
      Round.clock).Pairwise (· ≤ ·) := by
    decide +kernel
  refine ⟨rep, result, hreport, hlines, (report_accepted_iff hclock hreport).mpr ?_⟩
  constructor
  case policy => decide +kernel
  case cluster => decide +kernel
  case window => decide +kernel
  case lines => decide +kernel
  case errors => decide +kernel
  case revisions => decide +kernel
  case redactions => unfold FewCounts; decide +kernel
  case auditFindings => exact fun h => absurd h (by decide)
  case remote =>
    intro r hr
    cases hr

/-- A policy whose name just fits a ConfigMap's, in a namespace with the longest name. -/
def longPolicy : Policy := { samplePolicy with ns := List.replicate 63 'n', name := List.replicate 235 'a' }

/-- A policy whose remote file has a revision of 129 bytes. -/
def longRevision : Policy := { samplePolicy with remote := some ⟨List.replicate 129 '1', 0, []⟩ }

theorem reports_refused : Operator.checkName longPolicy.name = true ∧
    (((Round.on longPolicy samplePassEnv).run wholeNumber none).2.map fun r => r.1.decoded.check.isOk) = some false ∧
    (((Round.on longRevision samplePassEnv).run wholeNumber none).2.map fun r => r.1.decoded.check.isOk) =
      some false := by
  decide +kernel

end PiiShield.Stats
