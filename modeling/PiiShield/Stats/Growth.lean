import PiiShield.Stats.Reporter
import Mathlib.Algebra.BigOperators.Group.Finset.Piecewise
import Mathlib.Algebra.Order.BigOperators.Group.Finset
import Mathlib.Data.List.ReduceOption

/-! What the stats channel counts for one pod over a run of passes. A pod whose counters were
not read in a pass is forgotten, so what it counted until it is read again is missed. -/

namespace PiiShield.Stats

variable (parseFloat : Bytes → Option Nat)

variable {S : Finset Nat} {pods : List Pod} {rounds : List Round} {uid : Nat}

namespace Round

/-- The pods of a pass with what was read of each; none where the pods were not listed. -/
def listing : Round → Option (List Pod × (Pod → Option Sample))
  | .on p e =>
    match e.listPods with
    | .ok pods => some (policyPods p.name pods, scraped parseFloat e.scrape)
    | .error _ => none
  | _ => none

def observe (uid : Nat) (r : Round) : Option (Option Nat) :=
  (r.listing parseFloat).map fun l => ((l.1.find? (·.uid = uid)).bind l.2).map (·.lines)

end Round

def observations (uid : Nat) (rounds : List Round) : List (Option Nat) :=
  rounds.filterMap (Round.observe parseFloat uid)

def reads (uid : Nat) (rounds : List Round) : List Nat := (observations parseFloat uid rounds).reduceOption

variable (st : Option PolicyState)

def baselines : Nat → Option Sample := (st.map (·.pods)).getD fun _ => none

def setBase (samples : Pod → Option Sample) (base : Nat → Option Sample) (pod : Pod) : Nat → Option Sample :=
  match samples pod with
  | none => base
  | some s => fun uid => if uid = pod.uid then some s else base uid

def podGrowth (samples : Pod → Option Sample) (base : Nat → Option Sample) (pod : Pod) : Nat :=
  match samples pod, base pod.uid with
  | some s, some prev => grow prev.lines s.lines
  | _, _ => 0

def growthOf (samples : Pod → Option Sample) (uid : Nat) : (Nat → Option Sample) → List Pod → Nat
  | _, [] => 0
  | base, pod :: pods =>
    (if pod.uid = uid then podGrowth samples base pod else 0) + growthOf samples uid (setBase samples base pod) pods

def counted (uid : Nat) : Option PolicyState → List Round → Nat
  | _, [] => 0
  | st, r :: rounds =>
    (match r.listing parseFloat with
      | none => 0
      | some l => growthOf l.2 uid (baselines st) l.1) + counted uid (r.run parseFloat st).1 rounds

def finalState (rounds : List Round) : Option PolicyState :=
  rounds.foldl (fun st r => (r.run parseFloat st).1) st

def accLines : Nat := (st.map (·.acc.lines)).getD 0

def linesOf : Option (Report × Except StatsProblem Unit) → Int
  | some (r, .ok ()) => r.lines
  | _ => 0

def sentLines : Option PolicyState → List Round → Int
  | _, [] => 0
  | st, r :: rounds => linesOf (r.run parseFloat st).2 + sentLines (r.run parseFloat st).1 rounds

def measured : Option Nat → List (Option Nat) → Nat
  | _, [] => 0
  | _, none :: os => measured none os
  | none, some c :: os => measured (some c) os
  | some p, some c :: os => grow p c + measured (some c) os

/-- The growth of a counter, last read as `p`, from before reads that failed to the next that
succeeded; `gap` says that the reads since `p` failed. -/
def unseenFrom (p : Nat) (gap : Bool) : List (Option Nat) → Nat
  | [] => 0
  | none :: os => unseenFrom p true os
  | some c :: os => (if gap then c - p else 0) + unseenFrom c false os

def unseenGrowth : List (Option Nat) → Nat
  | [] => 0
  | none :: os => unseenGrowth os
  | some c :: os => unseenFrom c false os

theorem measured_add_unseenFrom {os : List (Option Nat)} {p : Nat} (gap : Bool)
    (h : (p :: os.reduceOption).Pairwise (· ≤ ·)) :
    measured (if gap then none else some p) os + unseenFrom p gap os + p = os.reduceOption.getLastD p := by
  induction os generalizing p gap with
  | nil => simp [measured, unseenFrom, List.reduceOption_nil]
  | cons o os ih =>
    cases o with
    | none =>
      rw [List.reduceOption_cons_of_none] at h ⊢
      have hrest := ih true h
      cases gap <;> simpa [measured, unseenFrom] using hrest
    | some c =>
      rw [List.reduceOption_cons_of_some] at h ⊢
      obtain ⟨hp, hc⟩ := List.pairwise_cons.mp h
      have hpc : p ≤ c := hp c List.mem_cons_self
      have hrest := ih false hc
      rw [if_neg Bool.false_ne_true] at hrest
      rw [List.getLastD_cons, ← hrest]
      cases gap with
      | true =>
        simp only [measured, unseenFrom, if_true]
        omega
      | false =>
        simp only [measured, unseenFrom, Bool.false_eq_true, if_false, grow, if_pos hpc]
        omega

theorem measured_add_unseenGrowth {os : List (Option Nat)} {first last : Nat}
    (h : os.reduceOption.Pairwise (· ≤ ·)) (hfirst : os.reduceOption.head? = some first)
    (hlast : os.reduceOption.getLast? = some last) :
    measured none os + unseenGrowth os + first = last := by
  induction os with
  | nil => cases hfirst
  | cons o os ih =>
    cases o with
    | none =>
      rw [List.reduceOption_cons_of_none] at h hfirst hlast
      exact ih h hfirst hlast
    | some c =>
      rw [List.reduceOption_cons_of_some] at h hfirst hlast
      cases hfirst
      have hsum := measured_add_unseenFrom false h
      rw [if_neg Bool.false_ne_true] at hsum
      grind [measured, unseenGrowth]

section Loop

variable {samples : Pod → Option Sample}

theorem readPod_pods (r : Reading) (pod : Pod) : (readPod samples r pod).pods = setBase samples r.pods pod := by
  rw [readPod, setBase]
  cases samples pod <;> rfl

theorem readPod_lines (r : Reading) (pod : Pod) :
    (readPod samples r pod).acc.lines = r.acc.lines + podGrowth samples r.pods pod := by
  rw [readPod, podGrowth]
  cases samples pod with
  | none => rfl
  | some s => cases r.pods pod.uid <;> rfl

theorem mem_alive_readPod {r : Reading} {pod : Pod} :
    uid ∈ (readPod samples r pod).alive ↔ uid ∈ r.alive ∨ uid = pod.uid ∧ (samples pod).isSome = true := by
  rw [readPod]
  grind

theorem readPods_lines (hS : ∀ pod ∈ pods, pod.uid ∈ S) (r : Reading) :
    (pods.foldl (readPod samples) r).acc.lines = r.acc.lines + ∑ uid ∈ S, growthOf samples uid r.pods pods := by
  induction pods generalizing r with
  | nil => simp [growthOf]
  | cons pod pods ih =>
    have hpod : pod.uid ∈ S := hS pod List.mem_cons_self
    rw [List.foldl_cons, ih (fun q hq => hS q (List.mem_cons_of_mem pod hq)), readPod_lines, readPod_pods]
    simp only [growthOf, Finset.sum_add_distrib, Finset.sum_ite_eq, if_pos hpod]
    omega

theorem others (samples : Pod → Option Sample) (h : ∀ pod ∈ pods, pod.uid ≠ uid) (r : Reading) :
    growthOf samples uid r.pods pods = 0 ∧ (pods.foldl (readPod samples) r).pods uid = r.pods uid ∧
      (uid ∈ (pods.foldl (readPod samples) r).alive ↔ uid ∈ r.alive) := by
  induction pods generalizing r with
  | nil => simp [growthOf]
  | cons pod pods ih =>
    have hpod : pod.uid ≠ uid := h pod List.mem_cons_self
    obtain ⟨hgrowth, hbase, halive⟩ := ih (fun q hq => h q (List.mem_cons_of_mem pod hq)) (readPod samples r pod)
    rw [readPod_pods] at hgrowth hbase
    rw [mem_alive_readPod] at halive
    have hkeep : setBase samples r.pods pod uid = r.pods uid := by
      rw [setBase]
      cases samples pod with
      | none => rfl
      | some s => exact if_neg hpod.symm
    rw [List.foldl_cons, growthOf, if_neg hpod, hgrowth, hbase, hkeep, halive]
    simp [hpod.symm]

theorem growthOf_append {before after : List Pod} (r : Reading) :
    growthOf samples uid r.pods (before ++ after) = growthOf samples uid r.pods before +
      growthOf samples uid (before.foldl (readPod samples) r).pods after := by
  induction before generalizing r with
  | nil => simp [growthOf]
  | cons pod before ih =>
    grind [readPod, readPod_pods, growthOf]

theorem listed_once (samples : Pod → Option Sample) {pod : Pod} (h : pods.filter (·.uid = uid) = [pod])
    (r : Reading) (hnot : uid ∉ r.alive) :
    growthOf samples uid r.pods pods = podGrowth samples r.pods pod ∧
      (if uid ∈ (pods.foldl (readPod samples) r).alive then (pods.foldl (readPod samples) r).pods uid else none) =
        samples pod := by
  obtain ⟨before, after, rfl, hbefore, hpod, hafter⟩ := List.filter_eq_cons_iff.mp h
  have huid : pod.uid = uid := by simpa using hpod
  have hb := others samples (fun q hq => by simpa using hbefore q hq) r
  have ha := others samples (fun q hq => by simpa using (List.filter_eq_nil_iff.mp hafter) q hq)
    (readPod samples (before.foldl (readPod samples) r) pod)
  rw [growthOf_append, hb.1, growthOf, if_pos huid, Nat.zero_add, ← readPod_pods, ha.1, Nat.add_zero,
    List.foldl_append, List.foldl_cons, ha.2.1, readPod_pods]
  constructor
  · rw [podGrowth, podGrowth, huid, hb.2.1]
  simp only [ha.2.2, mem_alive_readPod, hb.2.2, hnot, false_or, huid, true_and]
  rw [setBase]
  cases samples pod with
  | none => rfl
  | some s => simp [huid]

end Loop

section Passes

variable {parseFloat}

theorem patchStatus_pods (st : PolicyState) (status : StatsStatus) (patched : Bool) :
    (patchStatus st status patched).pods = st.pods := by
  rw [patchStatus]
  split <;> rfl

theorem patchStatus_acc (st : PolicyState) (status : StatsStatus) (patched : Bool) :
    (patchStatus st status patched).acc = st.acc := by
  rw [patchStatus]
  split <;> rfl

def reading (samples : Pod → Option Sample) (st : Option PolicyState) (pods : List Pod) : Reading :=
  pods.foldl (readPod samples) ⟨baselines st, (st.map (·.acc)).getD newTotals, [], .empty⟩

theorem readPods_getD (samples : Pod → Option Sample) (st : Option PolicyState) (pods : List Pod) (now : Instant) :
    readPods samples (st.getD (freshState now)) pods = reading samples st pods := by
  cases st <;> rfl

theorem int64Of_of_lt {n : Nat} (h : n < 2 ^ 63) : int64Of n = n := if_pos h

theorem int64Of_le (n : Nat) : int64Of n ≤ n := by
  rw [int64Of]
  split <;> omega

theorem Round.run_of_listing {r : Round} (st : Option PolicyState) {samples : Pod → Option Sample}
    (h : r.listing parseFloat = some (pods, samples)) :
    (∀ uid, baselines (r.run parseFloat st).1 uid =
      if uid ∈ (reading samples st pods).alive then (reading samples st pods).pods uid else none) ∧
    ((reading samples st pods).acc.lines < 2 ^ 63 → 0 ≤ linesOf (r.run parseFloat st).2 ∧
      linesOf (r.run parseFloat st).2 + accLines (r.run parseFloat st).1 =
        (reading samples st pods).acc.lines) ∧
    linesOf (r.run parseFloat st).2 + accLines (r.run parseFloat st).1 ≤ (reading samples st pods).acc.lines := by
  cases r with
  | unlisted => cases h
  | off => cases h
  | on p e =>
    rw [Round.listing] at h
    cases hlist : e.listPods with
    | error message =>
      rw [hlist] at h
      cases h
    | ok listed =>
      rw [hlist] at h
      cases h
      simp only [Round.run, passPolicy, hlist, readPods_getD]
      generalize reading (scraped parseFloat e.scrape) st (policyPods p.name listed) = read
      generalize hst : afterReading (st.getD (freshState e.started)) (policyPods p.name listed) read = st'
      have hpods : st'.pods = fun uid => if uid ∈ read.alive then read.pods uid else none := by rw [← hst, afterReading]
      have hacc : st'.acc = read.acc := by rw [← hst, afterReading]
      by_cases hdue : isDue p st' e.now = true
      · rw [if_pos hdue]
        cases send p st' e with
        | error problem => simp [baselines, accLines, linesOf, patchStatus_pods, patchStatus_acc, hpods, hacc]
        | ok _ =>
          refine ⟨by simp [baselines, patchStatus_pods, hpods], fun hsmall => ?_, ?_⟩
          · simp [accLines, linesOf, patchStatus_acc, hacc, report, newTotals, int64Of_of_lt hsmall]
          simpa [accLines, linesOf, patchStatus_acc, hacc, report, newTotals] using int64Of_le read.acc.lines
      rw [if_neg hdue]
      simp [baselines, accLines, linesOf, patchStatus_pods, patchStatus_acc, hpods, hacc]

theorem Round.run_of_no_listing {r : Round} (st : Option PolicyState) (h : r.listing parseFloat = none)
    (hon : r ≠ .off) : baselines (r.run parseFloat st).1 = baselines st ∧
      accLines (r.run parseFloat st).1 = accLines st ∧ linesOf (r.run parseFloat st).2 = 0 := by
  cases r with
  | unlisted => exact ⟨rfl, rfl, rfl⟩
  | off => exact absurd rfl hon
  | on p e =>
    rw [Round.listing] at h
    cases hlist : e.listPods with
    | ok listed =>
      rw [hlist] at h
      cases h
    | error message =>
      simp only [Round.run, passPolicy, hlist]
      cases st <;> simp [baselines, accLines, linesOf, patchStatus_pods, patchStatus_acc, freshState, newTotals]

end Passes

section Runs

variable {parseFloat}

theorem reading_lines (samples : Pod → Option Sample)
    (hS : ∀ pod ∈ pods, pod.uid ∈ S) (st : Option PolicyState) :
    (reading samples st pods).acc.lines = accLines st + ∑ uid ∈ S, growthOf samples uid (baselines st) pods := by
  rw [reading, readPods_lines hS]
  cases st <;> rfl

theorem sentLines_add_accLines (hon : ∀ r ∈ rounds, r ≠ .off)
    (hS : ∀ r ∈ rounds, ∀ l, r.listing parseFloat = some l → ∀ pod ∈ l.1, pod.uid ∈ S) (st : Option PolicyState)
    (hsmall : accLines st + ∑ uid ∈ S, counted parseFloat uid st rounds < 2 ^ 63) :
    sentLines parseFloat st rounds + accLines (finalState parseFloat st rounds) =
      (accLines st + ∑ uid ∈ S, counted parseFloat uid st rounds : Nat) := by
  induction rounds generalizing st with
  | nil => simp [sentLines, finalState, counted]
  | cons r rounds ih =>
    have hrest := ih (fun q hq => hon q (List.mem_cons_of_mem r hq))
      (fun q hq => hS q (List.mem_cons_of_mem r hq)) (r.run parseFloat st).1
    rw [sentLines, finalState, List.foldl_cons, ← finalState]
    cases hl : r.listing parseFloat with
    | none =>
      obtain ⟨-, hacc, hsent⟩ := Round.run_of_no_listing st hl (hon r List.mem_cons_self)
      simp only [counted, hl, Nat.zero_add] at hsmall ⊢
      rw [hacc] at hrest
      simp [hsent, hrest hsmall]
    | some l =>
      have hloop := reading_lines l.2 (hS r List.mem_cons_self l hl) st
      simp only [counted, hl, Finset.sum_add_distrib] at hsmall ⊢
      obtain ⟨hsent, hpass⟩ := (Round.run_of_listing st hl).2.1 (by omega)
      have hsum := hrest (by omega)
      omega

/-- The pod is listed once in every pass that lists pods, and its line counter never resets. -/
structure Steady (parseFloat : Bytes → Option Nat) (uid : Nat) (rounds : List Round) : Prop where
  listed : ∀ r ∈ rounds, ∀ l, r.listing parseFloat = some l → ∃ pod, l.1.filter (·.uid = uid) = [pod]
  growing : (reads parseFloat uid rounds).Pairwise (· ≤ ·)

theorem observations_cons (uid : Nat) (r : Round) (rounds : List Round) :
    observations parseFloat uid (r :: rounds) =
      (r.observe parseFloat uid).toList ++ observations parseFloat uid rounds := by
  rw [observations, List.filterMap_cons]
  cases r.observe parseFloat uid <;> rfl

theorem counted_eq_measured (hon : ∀ r ∈ rounds, r ≠ .off)
    (hlisted : ∀ r ∈ rounds, ∀ l, r.listing parseFloat = some l → ∃ pod, l.1.filter (·.uid = uid) = [pod])
    (st : Option PolicyState) : counted parseFloat uid st rounds =
      measured ((baselines st uid).map (·.lines)) (observations parseFloat uid rounds) := by
  induction rounds generalizing st with
  | nil => rfl
  | cons r rounds ih =>
    have hrest := ih (fun q hq => hon q (List.mem_cons_of_mem r hq))
      (fun q hq => hlisted q (List.mem_cons_of_mem r hq)) (r.run parseFloat st).1
    rw [counted, hrest, observations_cons, Round.observe]
    cases hl : r.listing parseFloat with
    | none =>
      rw [(Round.run_of_no_listing st hl (hon r List.mem_cons_self)).1, Nat.zero_add]
      rfl
    | some l =>
      obtain ⟨pod, hpod⟩ := hlisted r List.mem_cons_self l hl
      have hfind : l.1.find? (·.uid = uid) = some pod := by rw [← List.head?_filter, hpod]; rfl
      have huid : pod.uid = uid := by simpa using List.find?_some hfind
      obtain ⟨hgrowth, hbase⟩ := listed_once l.2 hpod
        ⟨baselines st, (st.map (·.acc)).getD newTotals, [], .empty⟩ List.not_mem_nil
      rw [(Round.run_of_listing st hl).1 uid]
      change growthOf l.2 uid (baselines st) l.1 = podGrowth l.2 (baselines st) pod at hgrowth
      change (if uid ∈ (reading l.2 st l.1).alive then (reading l.2 st l.1).pods uid else none) = l.2 pod at hbase
      simp only [hgrowth, hbase, hfind, Option.map_some, Option.bind_some, podGrowth, huid]
      cases l.2 pod with
      | none => simp [measured]
      | some s => cases baselines st uid <;> simp [measured]

theorem counted_add_unseenGrowth (hon : ∀ r ∈ rounds, r ≠ .off)
    (h : Steady parseFloat uid rounds) {first last : Nat} (hfirst : (reads parseFloat uid rounds).head? = some first)
    (hlast : (reads parseFloat uid rounds).getLast? = some last) :
    counted parseFloat uid none rounds + unseenGrowth (observations parseFloat uid rounds) + first = last := by
  rw [counted_eq_measured hon h.listed none]
  exact measured_add_unseenGrowth h.growing hfirst hlast

/-- Along a run with stats on throughout, the lines of all pods are in the reports sent and in
what is kept; and those of a steady pod are its growth from the first read to the last exactly
if its counter did not grow while reads of it failed. -/
theorem no_growth_lost_iff {rounds : List Round} (hon : ∀ r ∈ rounds, r ≠ .off) {S : Finset Nat}
    (hS : ∀ r ∈ rounds, ∀ l, r.listing parseFloat = some l → ∀ pod ∈ l.1, pod.uid ∈ S)
    (hsmall : ∑ uid ∈ S, counted parseFloat uid none rounds < 2 ^ 63) :
    sentLines parseFloat none rounds + accLines (finalState parseFloat none rounds) =
      (∑ uid ∈ S, counted parseFloat uid none rounds : Nat) ∧
    ∀ uid first last, Steady parseFloat uid rounds → (reads parseFloat uid rounds).head? = some first →
      (reads parseFloat uid rounds).getLast? = some last →
        (counted parseFloat uid none rounds = last - first ↔
          unseenGrowth (observations parseFloat uid rounds) = 0) := by
  have hnone : accLines none = 0 := rfl
  constructor
  · have hsum := sentLines_add_accLines hon hS none (by omega)
    rwa [hnone, Nat.zero_add] at hsum
  intro uid first last hsteady hfirst hlast
  have hadd := counted_add_unseenGrowth hon hsteady hfirst hlast
  omega

end Runs

def wholeNumber (s : Bytes) : Option Nat := if s.all isASCIIDigit then some (parseNat s) else none

def samplePod : Pod := ⟨7, bs "app", [], false, true, bs "10.0.0.7", [bs "pii-metrics"]⟩

def samplePolicy : Policy :=
  ⟨bs "shop", bs "default", false, bs "https://r/v1/o/s/report", 300, [], none, none, false, none⟩

/-- A pass, the first at zero and none with a report due, that reads the line counter or fails to. -/
def samplePass (lines : Option Bytes) : Round :=
  .on samplePolicy
    { started := ⟨0, Instant.within_zero⟩
      now := ⟨0, Instant.within_zero⟩
      listPods := .ok [samplePod]
      scrape := fun _ => lines.map (bs "piishield_processing_duration_seconds_count " ++ ·)
      secretValue := fun _ => none
      post := fun _ _ => .ok ()
      patched := true }

theorem listing_samplePass (lines : Option Bytes) :
    (samplePass lines).listing wholeNumber = some ([samplePod], scraped wholeNumber fun _ =>
      lines.map (bs "piishield_processing_duration_seconds_count " ++ ·)) := by
  have hpods : policyPods (bs "default") [samplePod] = [samplePod] := by decide +kernel
  rw [samplePass, Round.listing]
  exact congrArg (fun pods => some (pods, _)) hpods

def sampleRounds : List Round := [samplePass (some (bs "10")), .unlisted, samplePass (some (bs "15"))]

theorem no_growth_lost_sample : sentLines wholeNumber none sampleRounds +
    accLines (finalState wholeNumber none sampleRounds) = 5 ∧ counted wholeNumber 7 none sampleRounds = 15 - 10 := by
  have hon : ∀ r ∈ sampleRounds, r ≠ .off := by
    intro r hr
    rcases List.mem_cons.mp hr with rfl | hr
    · exact Round.noConfusion
    rcases List.mem_cons.mp hr with rfl | hr
    · exact Round.noConfusion
    rw [List.mem_singleton.mp hr]
    exact Round.noConfusion
  have hlisted : ∀ r ∈ sampleRounds, ∀ l, r.listing wholeNumber = some l → l.1 = [samplePod] := by
    intro r hr l hl
    rcases List.mem_cons.mp hr with rfl | hr
    · rw [listing_samplePass] at hl
      rw [← Option.some.inj hl]
    rcases List.mem_cons.mp hr with rfl | hr
    · cases hl
    rw [List.mem_singleton.mp hr, listing_samplePass] at hl
    rw [← Option.some.inj hl]
  have hreads : reads wholeNumber 7 sampleRounds = [10, 15] := by decide +kernel
  have hsteady : Steady wholeNumber 7 sampleRounds :=
    ⟨fun r hr l hl => ⟨samplePod, by rw [hlisted r hr l hl]; rfl⟩, by rw [hreads]; decide⟩
  have hcounted : ∑ uid ∈ {7}, counted wholeNumber uid none sampleRounds = 5 := by decide +kernel
  obtain ⟨hsum, hpod⟩ := no_growth_lost_iff hon (S := {7})
    (fun r hr l hl pod hpod => by
      rw [hlisted r hr l hl, List.mem_singleton] at hpod
      rw [hpod]
      exact Finset.mem_singleton_self 7) (by rw [hcounted]; decide)
  refine ⟨by rw [hsum, hcounted]; rfl, ?_⟩
  exact (hpod 7 10 15 hsteady (by rw [hreads]; rfl) (by rw [hreads]; rfl)).mpr (by decide +kernel)

theorem growth_lost_at_failed_read :
    observations wholeNumber 7 [samplePass (some (bs "10")), samplePass none, samplePass (some (bs "15"))] =
      [some 10, none, some 15] ∧
    counted wholeNumber 7 none [samplePass (some (bs "10")), samplePass none, samplePass (some (bs "15"))] = 0 := by
  decide +kernel

end PiiShield.Stats
