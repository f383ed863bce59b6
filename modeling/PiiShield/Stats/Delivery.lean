import PiiShield.Stats.Acceptance

/-! The stats channel and the rule server over a network that may lose a report or the answer
to it. What is counted once in the cluster is stored once if no answer to a stored report is
lost. -/

namespace PiiShield.Stats

open Panel Transactions

variable {d : Tables} {k key : Bytes × Bytes} {now : Instant} {pods : Finset Nat} {r : Round}

/-- What becomes of a report: it is lost, or the server handles it under a token of a set and
its answer arrives or not. -/
inductive Delivery
  | lost (message : Bytes)
  | delivered (setID tokenID : Nat) (now cutoff : Instant) (answered : Bool)

namespace Delivery

def Answered : Delivery → Prop
  | .lost _ => True
  | .delivered _ _ _ _ answered => answered = true

def handled (S : Services) (d : Tables) (rep : Report) : Delivery → Bool × Tables
  | .lost _ => (false, d)
  | .delivered setID tokenID now cutoff _ => (receiveReport S setID tokenID rep.decoded now cutoff).eval d

def answer (S : Services) (d : Tables) (rep : Report) : Delivery → Except Bytes Unit
  | .lost message => .error message
  | .delivered setID tokenID now cutoff answered =>
    if answered && ((delivered setID tokenID now cutoff answered).handled S d rep).1 then .ok () else .error []

end Delivery

def Round.Of (key : Bytes × Bytes) : Round → Prop
  | .on p _ => (p.ns, p.name) = key
  | _ => True

def Round.over (S : Services) (d : Tables) (delivery : Delivery) : Round → Round
  | .on p e => .on p { e with post := fun _ rep => delivery.answer S d rep }
  | r => r

def posted : Option (Report × Except StatsProblem Unit) → Option Report
  | some (rep, .ok ()) => some rep
  | some (rep, .error (.post _)) => some rep
  | _ => none

/-- A counter of a pod grows or starts again, the operator restarts, or it makes a pass over a
policy. -/
inductive Event
  | count (uid n : Nat)
  | reset (uid : Nat)
  | restart
  | round (key : Bytes × Bytes) (r : Round) (delivery : Delivery)

def Event.growth (pods : Finset Nat) : Event → Nat
  | .count uid n => if uid ∈ pods then n else 0
  | _ => 0

def Event.Answered (key : Bytes × Bytes) : Event → Prop
  | .round k _ delivery => k = key → delivery.Answered
  | _ => True

/-- The counters of the pods, the states of the policies, and the tables of the server with the
reports it ever stored. -/
structure World where
  counters : Nat → Nat
  reporters : Bytes × Bytes → Option PolicyState
  tables : Tables
  stored : List Report

def World.Fresh (w : World) : Prop := (∀ key, w.reporters key = none) ∧ w.stored = []

variable (parseFloat : Bytes → Option Nat) (S : Services)

def World.step (w : World) : Event → World
  | .count uid n => { w with counters := fun i => if i = uid then w.counters i + n else w.counters i }
  | .reset uid => { w with counters := fun i => if i = uid then 0 else w.counters i }
  | .restart => { w with reporters := fun _ => none }
  | .round key r delivery =>
    let pass := (r.over S w.tables delivery).run parseFloat (w.reporters key)
    let reporters := fun k => if k = key then pass.1 else w.reporters k
    match posted pass.2 with
    | none => { w with reporters := reporters }
    | some rep =>
      let handled := delivery.handled S w.tables rep
      { w with
        reporters := reporters
        tables := handled.2
        stored := if handled.1 then w.stored ++ [rep] else w.stored }

def World.run (w : World) (events : List Event) : World := events.foldl (World.step parseFloat S) w

/-- A pass is over the policy it is said to be, and what a pass over the policy of the key reads
of a pod, one of those given, is its counter. -/
def Event.Truthful (key : Bytes × Bytes) (pods : Finset Nat) (counters : Nat → Nat) : Event → Prop
  | .round k r _ => r.Of k ∧
      (k = key → ∀ l, r.listing parseFloat = some l → ∀ pod ∈ l.1, pod.uid ∈ pods ∧
        ∀ s, l.2 pod = some s → s.lines = counters pod.uid)
  | _ => True

def policyText (key : Bytes × Bytes) : Bytes := key.1 ++ bs "/" ++ key.2

def reportedLines (policy : Bytes) (reports : List Report) : Int :=
  ((reports.filter (·.policy = policy)).map (·.lines)).sum

def storedRows (d : Tables) : List (Bytes × Int) := d.reports.map fun r => (r.policy, r.lines)

def pending (base : Nat → Option Sample) (counters : Nat → Nat) (uid : Nat) : Nat :=
  ((base uid).map fun prev => grow prev.lines (counters uid)).getD 0

section Reading

variable {samples : Pod → Option Sample} {counters : Nat → Nat}

theorem grow_self (c : Nat) : grow c c = 0 := by simp [grow]

theorem grow_add_le (p c n : Nat) : grow p (c + n) ≤ grow p c + n := by
  rw [grow, grow]
  split <;> split <;> omega

theorem grow_zero_le (p c : Nat) : grow p 0 ≤ grow p c := by
  rw [grow]
  split <;> omega

theorem growthOf_le_pending {pods : List Pod}
    (htrue : ∀ pod ∈ pods, ∀ s, samples pod = some s → s.lines = counters pod.uid) (uid : Nat)
    (base : Nat → Option Sample) : growthOf samples uid base pods ≤ pending base counters uid := by
  induction pods generalizing base with
  | nil => exact Nat.zero_le _
  | cons pod pods ih =>
    have hrest := ih (fun q hq => htrue q (List.mem_cons_of_mem pod hq)) (setBase samples base pod)
    rw [growthOf]
    cases hs : samples pod with
    | none =>
      simp_all [setBase, podGrowth, ite_self]
    | some s =>
      by_cases huid : pod.uid = uid
      · have hzero : pending (setBase samples base pod) counters uid = 0 := by
          rw [pending, setBase, hs, ← huid, ← htrue pod List.mem_cons_self s hs]
          simp [grow_self]
        have hgrowth : podGrowth samples base pod = pending base counters uid := by
          rw [podGrowth, hs, pending, ← huid, ← htrue pod List.mem_cons_self s hs]
          cases base pod.uid <;> rfl
        rw [if_pos huid, hgrowth]
        omega
      simp_all [setBase, Ne.symm, pending]

theorem pending_readPods {pods : List Pod}
    (htrue : ∀ pod ∈ pods, ∀ s, samples pod = some s → s.lines = counters pod.uid) {r : Reading}
    (hr : ∀ uid ∈ r.alive, pending r.pods counters uid = 0) {uid : Nat}
    (halive : uid ∈ (pods.foldl (readPod samples) r).alive) :
    pending (pods.foldl (readPod samples) r).pods counters uid = 0 := by
  induction pods generalizing r with
  | nil => exact hr uid halive
  | cons pod pods ih =>
    refine ih (fun q hq => htrue q (List.mem_cons_of_mem pod hq)) (fun i hi => ?_) halive
    rw [mem_alive_readPod] at hi
    rw [pending, readPod_pods, setBase]
    cases hs : samples pod with
    | none =>
      rw [hs] at hi
      exact hr i (hi.resolve_right fun h => Bool.false_ne_true h.2)
    | some s =>
      by_cases huid : i = pod.uid
      · subst huid
        simp [← htrue pod List.mem_cons_self s hs, grow_self]
      simp only [if_neg huid]
      exact hr i (hi.resolve_right fun h => huid h.1)

end Reading

section Storing

variable {S}

theorem receiveReport_false {setID tokenID : Nat} {b : ReportBody} {cutoff : Instant}
    (h : ((receiveReport S setID tokenID b now cutoff).eval d).1 = false) :
    ((receiveReport S setID tokenID b now cutoff).eval d).2 = d := by
  rw [eval_receiveReport] at h ⊢
  by_cases hcheck : b.check.isOk = true
  · rw [if_pos hcheck] at h ⊢
    rcases eval_addReport S (b.row setID tokenID) now cutoff d with ⟨e, heval⟩ | ⟨id, heval⟩
    · rw [heval]
    rw [heval] at h
    cases h
  rw [if_neg hcheck]

theorem receiveReport_true {setID tokenID : Nat} {b : ReportBody} {cutoff : Instant}
    (h : ((receiveReport S setID tokenID b now cutoff).eval d).1 = true) :
    (storedRows ((receiveReport S setID tokenID b now cutoff).eval d).2).Sublist
      (storedRows d ++ [(b.policy, b.lines)]) := by
  rw [eval_receiveReport] at h ⊢
  by_cases hcheck : b.check.isOk = true
  · rw [if_pos hcheck] at h ⊢
    rcases eval_addReport S (b.row setID tokenID) now cutoff d with ⟨e, heval⟩ | ⟨id, heval⟩
    · rw [heval] at h
      cases h
    rw [heval]
    let row := { b.row setID tokenID with receivedAt := now.format, id := id }
    have hrows := (List.filter_sublist (l := d.reports ++ [row])
      (p := fun q => !(q.setID == setID && decide (q.receivedAt < cutoff.format)))).map fun r => (r.policy, r.lines)
    rwa [List.map_append] at hrows
  rw [if_neg hcheck] at h
  cases h

theorem Delivery.handled_false {delivery : Delivery} {rep : Report}
    (h : (delivery.handled S d rep).1 = false) : (delivery.handled S d rep).2 = d := by
  cases delivery with
  | lost message => rfl
  | delivered setID tokenID now cutoff answered => exact receiveReport_false h

theorem Delivery.handled_true {delivery : Delivery} {rep : Report} (h : (delivery.handled S d rep).1 = true) :
    (storedRows (delivery.handled S d rep).2).Sublist (storedRows d ++ [(rep.decoded.policy, rep.decoded.lines)]) := by
  cases delivery with
  | lost message => cases h
  | delivered setID tokenID now cutoff answered => exact receiveReport_true h

theorem Delivery.Answered.isOk_answer {delivery : Delivery} (h : delivery.Answered) (d : Tables) (rep : Report) :
    (delivery.answer S d rep).isOk = (delivery.handled S d rep).1 := by
  cases delivery with
  | lost message => rfl
  | delivered setID tokenID now cutoff answered =>
    cases h
    rw [Delivery.answer]
    cases ((Delivery.delivered setID tokenID now cutoff true).handled S d rep).1 <;> rfl

end Storing

section Passes

variable {parseFloat S}

theorem listing_over (r : Round) (d : Tables) (delivery : Delivery) :
    (r.over S d delivery).listing parseFloat = r.listing parseFloat := by
  cases r <;> rfl

theorem secretOf_error {e : PassEnv} {ref : Option Operator.SecretKeySelector}
    {problem : Operator.SecretKeySelector → StatsProblem} {q : StatsProblem}
    (h : secretOf e ref problem = .error q) : ∃ r, q = problem r := by
  cases ref with
  | none => cases h
  | some ref =>
    grind [secretOf]

theorem reportSource_ne_post {p : Policy} {e : PassEnv} {problem : StatsProblem}
    (h : reportSource p e = .error problem) (m : Bytes) : problem ≠ .post m := by
  rintro rfl
  rw [reportSource] at h
  cases hheader : secretOf e p.headerSecretRef .headerSecret with
  | error q =>
    rw [hheader] at h
    cases h
    obtain ⟨r, hr⟩ := secretOf_error hheader
    cases hr
  | ok header =>
    cases hca : secretOf e p.caBundleSecretRef .caBundleSecret with
    | error q =>
      rw [hheader, hca] at h
      cases h
      obtain ⟨r, hr⟩ := secretOf_error hca
      cases hr
    | ok ca =>
      rw [hheader, hca] at h
      cases h

theorem send_over (p : Policy) (st : PolicyState) (e : PassEnv) (post : Report → Except Bytes Unit) :
    (∃ problem, (∀ m, problem ≠ .post m) ∧
      send p st { e with post := fun _ rep => post rep } = .error problem) ∨
    send p st { e with post := fun _ rep => post rep } = (post (report p st e.now)).mapError .post := by
  rw [send]
  cases hsrc : reportSource p { e with post := fun _ rep => post rep } with
  | ok src => exact .inr rfl
  | error problem => exact .inl ⟨problem, reportSource_ne_post hsrc, rfl⟩

variable (parseFloat S) in
theorem posted_run (hof : r.Of key) (d : Tables) (delivery : Delivery) (st : Option PolicyState) :
    (posted ((r.over S d delivery).run parseFloat st).2 = none ∧
      linesOf ((r.over S d delivery).run parseFloat st).2 = 0) ∨
    ∃ rep, posted ((r.over S d delivery).run parseFloat st).2 = some rep ∧ rep.policy = policyText key ∧
      linesOf ((r.over S d delivery).run parseFloat st).2 =
        if (delivery.answer S d rep).isOk then rep.lines else 0 := by
  cases hsent : ((r.over S d delivery).run parseFloat st).2 with
  | none => exact .inl ⟨rfl, rfl⟩
  | some sent =>
    obtain ⟨rep, result⟩ := sent
    cases r with
    | unlisted | off => cases hsent
    | on p e =>
      obtain ⟨hrep, hresult, -⟩ := report_of_run hsent
      rcases send_over p (stateAtSend parseFloat st p { e with post := fun _ rep => delivery.answer S d rep })
        e (delivery.answer S d) with ⟨problem, hne, hsend⟩ | hsend
      · rw [hsend] at hresult
        subst hresult
        cases problem with
        | post m => exact absurd rfl (hne m)
        | listPods m | headerSecret ref | caBundleSecret ref => exact .inl ⟨rfl, rfl⟩
      rw [hsend, ← hrep] at hresult
      subst hresult
      refine .inr ⟨rep, ?_, ?_, ?_⟩
      · cases delivery.answer S d rep <;> rfl
      · rw [hrep, ← hof]
        rfl
      · cases delivery.answer S d rep <;> rfl

theorem run_pending {counters : Nat → Nat}
    (htrue : ∀ l, r.listing parseFloat = some l → ∀ pod ∈ l.1, pod.uid ∈ pods ∧
      ∀ s, l.2 pod = some s → s.lines = counters pod.uid) (st : Option PolicyState) :
    linesOf (r.run parseFloat st).2 + accLines (r.run parseFloat st).1 +
        (∑ uid ∈ pods, pending (baselines (r.run parseFloat st).1) counters uid : Nat) ≤
      accLines st + (∑ uid ∈ pods, pending (baselines st) counters uid : Nat) := by
  cases hl : r.listing parseFloat with
  | none =>
    by_cases hoff : r = .off
    · grind [pending, baselines, Finset.sum_eq_zero, accLines, Round.run, linesOf]
    simp [Round.run_of_no_listing, hl, hoff]
  | some l =>
    obtain ⟨hbase, -, hlines⟩ := Round.run_of_listing st hl
    have hsamples : ∀ pod ∈ l.1, ∀ s, l.2 pod = some s → s.lines = counters pod.uid :=
      fun pod hpod => (htrue l hl pod hpod).2
    have hread := reading_lines l.2 (fun pod hpod => (htrue l hl pod hpod).1) st
    have hgrown : ∑ uid ∈ pods, growthOf l.2 uid (baselines st) l.1 ≤ ∑ uid ∈ pods,
        pending (baselines st) counters uid :=
      Finset.sum_le_sum fun uid _ => growthOf_le_pending hsamples uid (baselines st)
    have hnone : ∑ uid ∈ pods, pending (baselines (r.run parseFloat st).1) counters uid = 0 := by
      refine Finset.sum_eq_zero fun uid _ => ?_
      rw [pending, hbase]
      by_cases halive : uid ∈ (reading l.2 st l.1).alive
      · rw [if_pos halive]
        exact pending_readPods hsamples (fun _ h => absurd h List.not_mem_nil) halive
      rw [if_neg halive]
      rfl
    omega

end Passes

section Runs

variable {parseFloat S}

theorem policyText_inj (hns : chr '/' ∉ key.1) (hname : chr '/' ∉ key.2)
    (h : policyText k = policyText key) : k = key := by
  rw [policyText, policyText, List.append_assoc, List.append_assoc] at h
  obtain ⟨hns, -, hname⟩ := (List.append_cons_inj_of_notMem hns hname).mp h.symm
  exact Prod.ext hns.symm hname.symm

theorem reportedLines_concat (policy : Bytes) (reports : List Report) (rep : Report) :
    reportedLines policy (reports ++ [rep]) =
      reportedLines policy reports + if rep.policy = policy then rep.lines else 0 := by
  grind [reportedLines]

def owed (key : Bytes × Bytes) (pods : Finset Nat) (w : World) : Int :=
  reportedLines (policyText key) w.stored + accLines (w.reporters key) +
    (∑ uid ∈ pods, pending (baselines (w.reporters key)) w.counters uid : Nat)

theorem owed_count (key : Bytes × Bytes) (pods : Finset Nat) (w : World) (uid n : Nat) :
    owed key pods (w.step parseFloat S (.count uid n)) ≤ owed key pods w + (Event.count uid n).growth pods := by
  have hpending : ∀ i, pending (baselines (w.reporters key))
      (fun i => if i = uid then w.counters i + n else w.counters i) i ≤
      pending (baselines (w.reporters key)) w.counters i + if i = uid then n else 0 := by
    intro i
    rw [pending, pending]
    cases baselines (w.reporters key) i with
    | none => exact Nat.zero_le _
    | some prev =>
      by_cases hi : i = uid
      · simpa [hi] using grow_add_le prev.lines (w.counters uid) n
      simp [hi]
  have hsum := Finset.sum_le_sum fun i (_ : i ∈ pods) => hpending i
  rw [Finset.sum_add_distrib, Finset.sum_ite_eq'] at hsum
  simp only [owed, World.step, Event.growth]
  omega

theorem owed_reset (key : Bytes × Bytes) (pods : Finset Nat) (w : World) (uid : Nat) :
    owed key pods (w.step parseFloat S (.reset uid)) ≤ owed key pods w := by
  have hpending : ∀ i, pending (baselines (w.reporters key)) (fun i => if i = uid then 0 else w.counters i) i ≤
      pending (baselines (w.reporters key)) w.counters i := by
    intro i
    rw [pending, pending]
    cases baselines (w.reporters key) i with
    | none => exact Nat.zero_le _
    | some prev =>
      grind [grow_zero_le]
  simp [Finset.sum_le_sum, owed, World.step, hpending]

theorem owed_restart (key : Bytes × Bytes) (pods : Finset Nat) (w : World) :
    owed key pods (w.step parseFloat S .restart) ≤ owed key pods w := by
  grind [accLines, pending, baselines, Finset.sum_eq_zero, owed, World.step]

theorem reportedLines_round (hns : chr '/' ∉ key.1) (hname : chr '/' ∉ key.2) {w : World} (hof : r.Of k)
    {delivery : Delivery} (hans : k = key → delivery.Answered) :
    reportedLines (policyText key) (w.step parseFloat S (.round k r delivery)).stored =
      reportedLines (policyText key) w.stored +
        if k = key then linesOf ((r.over S w.tables delivery).run parseFloat (w.reporters k)).2 else 0 := by
  rw [World.step]
  rcases posted_run parseFloat S hof w.tables delivery (w.reporters k) with
    ⟨hnone, hlines⟩ | ⟨rep, hrep, hpolicy, hlines⟩
  · simp only [hnone, hlines, ite_self, Int.add_zero]
  simp only [hrep, hlines]
  by_cases hk : k = key
  · rw [if_pos hk, (hans hk).isOk_answer]
    cases (delivery.handled S w.tables rep).1 with
    | false => simp
    | true =>
      rw [if_pos rfl, if_pos rfl, reportedLines_concat, hpolicy, hk, if_pos rfl]
  have hother : rep.policy ≠ policyText key := fun h => hk (policyText_inj hns hname (hpolicy ▸ h))
  rw [if_neg hk]
  cases (delivery.handled S w.tables rep).1 with
  | false => simp
  | true => rw [if_pos rfl, reportedLines_concat, if_neg hother]

variable (parseFloat S) in
theorem round_frame (w : World) (k : Bytes × Bytes) (r : Round) (delivery : Delivery) :
    (w.step parseFloat S (.round k r delivery)).counters = w.counters ∧
    (w.step parseFloat S (.round k r delivery)).reporters = fun i =>
      if i = k then ((r.over S w.tables delivery).run parseFloat (w.reporters k)).1 else w.reporters i := by
  grind [World.step, posted]

theorem owed_round (hns : chr '/' ∉ key.1) (hname : chr '/' ∉ key.2) {w : World} {delivery : Delivery}
    (htrue : (Event.round k r delivery).Truthful parseFloat key pods w.counters) (hans : k = key → delivery.Answered) :
    owed key pods (w.step parseFloat S (.round k r delivery)) ≤ owed key pods w := by
  obtain ⟨hcounters, hreporters⟩ := round_frame parseFloat S w k r delivery
  rw [owed, owed, reportedLines_round hns hname htrue.1 hans, hcounters, hreporters]
  by_cases hk : k = key
  · subst hk
    have hpass := run_pending (r := r.over S w.tables delivery)
      (fun l hl => htrue.2 rfl l (by rwa [listing_over] at hl)) (w.reporters k)
    simp only [if_true]
    omega
  simp [if_neg hk, if_neg (Ne.symm hk)]

theorem owed_step (hns : chr '/' ∉ key.1) (hname : chr '/' ∉ key.2)
    {w : World} {e : Event} (htrue : e.Truthful parseFloat key pods w.counters) (hans : e.Answered key) :
    owed key pods (w.step parseFloat S e) ≤ owed key pods w + e.growth pods := by
  cases e with
  | count uid n => exact owed_count key pods w uid n
  | reset uid => simpa [Event.growth] using owed_reset key pods w uid
  | restart => simpa [Event.growth] using owed_restart key pods w
  | round k r delivery => simpa [Event.growth] using owed_round hns hname htrue hans

variable (parseFloat S) in
theorem storedRows_step (w : World) (e : Event) :
    ∃ since, (w.step parseFloat S e).stored = w.stored ++ since ∧
      (storedRows (w.step parseFloat S e).tables).Sublist
        (storedRows w.tables ++ since.map fun rep => (rep.decoded.policy, rep.decoded.lines)) := by
  have hsame : (storedRows w.tables).Sublist (storedRows w.tables ++ ([] : List Report).map fun rep =>
      (rep.decoded.policy, rep.decoded.lines)) := by simp
  cases e with
  | count uid n | reset uid | restart => exact ⟨[], (List.append_nil _).symm, hsame⟩
  | round k r delivery =>
    rw [World.step]
    cases hposted : posted ((r.over S w.tables delivery).run parseFloat (w.reporters k)).2 with
    | none => exact ⟨[], (List.append_nil _).symm, hsame⟩
    | some rep =>
      cases hstored : (delivery.handled S w.tables rep).1 with
      | false =>
        simp_all [Delivery.handled_false, List.append_nil, symm]
      | true => exact ⟨[rep], by simp [hstored], Delivery.handled_true hstored⟩

variable (parseFloat S) in
theorem storedRows_run (w : World) (events : List Event) :
    ∃ since, (w.run parseFloat S events).stored = w.stored ++ since ∧
      (storedRows (w.run parseFloat S events).tables).Sublist
        (storedRows w.tables ++ since.map fun rep => (rep.decoded.policy, rep.decoded.lines)) := by
  induction events generalizing w with
  | nil => exact ⟨[], (List.append_nil _).symm, by simp [World.run]⟩
  | cons e events ih =>
    obtain ⟨first, hfirst, hstep⟩ := storedRows_step parseFloat S w e
    obtain ⟨rest, hrest, hrun⟩ := ih (w.step parseFloat S e)
    refine ⟨first ++ rest, ?_, ?_⟩
    · rw [← List.append_assoc, ← hfirst]
      exact hrest
    rw [List.map_append, ← List.append_assoc]
    exact hrun.trans (hstep.append_right _)

theorem run_concat_event (w : World) (events : List Event) (e : Event) :
    w.run parseFloat S (events ++ [e]) = (w.run parseFloat S events).step parseFloat S e := by
  rw [World.run, List.foldl_append]
  rfl

/-- From a fresh start, if no answer to a stored report of the policy is lost, the lines the
server ever stored for it are at most what the counters of its pods grew; and the rows it has
are of reports it stored, each at most once. -/
theorem no_line_counted_twice {w : World} (hw : w.Fresh) {key : Bytes × Bytes} (hns : chr '/' ∉ key.1)
    (hname : chr '/' ∉ key.2) {pods : Finset Nat} {events : List Event}
    (hrun : AtEvery (fun before e => e.Truthful parseFloat key pods (w.run parseFloat S before).counters ∧
      e.Answered key) events) :
    reportedLines (policyText key) (w.run parseFloat S events).stored ≤ (events.map (Event.growth pods)).sum ∧
    (storedRows (w.run parseFloat S events).tables).Sublist (storedRows w.tables ++
      (w.run parseFloat S events).stored.map fun rep => (rep.decoded.policy, rep.decoded.lines)) := by
  constructor
  · have hinv : owed key pods (w.run parseFloat S events) ≤ (events.map (Event.growth pods)).sum := by
      refine AtEvery.keeps (I := fun events => owed key pods (w.run parseFloat S events) ≤
        (events.map (Event.growth pods)).sum) (show AtEvery _ ([] ++ events) from hrun) ?_ ?_
      · have hnone : ∑ uid ∈ pods, pending (baselines none) w.counters uid = 0 := Finset.sum_eq_zero fun uid _ => rfl
        simp [World.run, owed, hw.1 key, hw.2, hnone, reportedLines, accLines]
      intro before e hbefore he
      have hstep := owed_step (S := S) hns hname he.1 he.2
      rw [run_concat_event, List.map_append, List.sum_append]
      simp only [List.map_cons, List.map_nil, List.sum_singleton]
      omega
    rw [owed] at hinv
    omega
  obtain ⟨since, hsince, hrows⟩ := storedRows_run parseFloat S w events
  rwa [hsince, hw.2, List.nil_append]

end Runs

def sampleTables : Tables :=
  { Tables.empty with
    sets := [⟨1, 1, bs "base", bs "Base", none, []⟩]
    tokens := [⟨1, 1, bs "cluster", bs "read", [], [], [], none, none, []⟩] }

def sampleWorld : World := ⟨fun _ => 0, fun _ => none, sampleTables, []⟩

def sampleRound (now : Instant) (lines : Bytes) (answered : Bool) : Event :=
  .round (bs "shop", bs "default")
    (.on samplePolicy
      { samplePassEnv with
        now := now
        scrape := fun _ => some (bs "piishield_processing_duration_seconds_count " ++ lines) })
    (.delivered 1 1 now ⟨0, Instant.within_zero⟩ answered)

/-- Five lines between the first pass and the second, whose report is answered or not, and a third. -/
def sampleEvents (answered : Bool) : List Event :=
  [sampleRound ⟨10 ^ 9, Instant.within_first⟩ (bs "0") true, .count 7 5,
    sampleRound ⟨400 * 10 ^ 9, Instant.within_400⟩ (bs "5") answered,
    sampleRound ⟨800 * 10 ^ 9, Instant.within_800⟩ (bs "5") true]

theorem truthful_sampleRound {text : Bytes} {answered : Bool} {n : Nat} {counters : Nat → Nat}
    (hread : ((scraped wholeNumber (fun _ => some (bs "piishield_processing_duration_seconds_count " ++ text))
      samplePod).map (·.lines)) = some n) (hcounter : counters 7 = n) :
    (sampleRound now text answered).Truthful wholeNumber (bs "shop", bs "default") {7} counters := by
  refine ⟨rfl, fun _ l hl pod hpod => ?_⟩
  have hpods : policyPods (bs "default") [samplePod] = [samplePod] := by decide +kernel
  have hl' : some (policyPods (bs "default") [samplePod], _) = some l := hl
  rw [hpods] at hl'
  rw [← Option.some.inj hl', List.mem_singleton] at hpod
  subst hpod
  refine ⟨Finset.mem_singleton_self 7, fun s hs => ?_⟩
  rw [← Option.some.inj hl'] at hs
  have hlines := (congrArg (Option.map (·.lines)) hs).symm.trans hread
  exact (Option.some.inj hlines).trans hcounter.symm

theorem no_line_counted_twice_sample :
    reportedLines (bs "shop/default") (sampleWorld.run wholeNumber .plain (sampleEvents true)).stored ≤ 5 ∧
    (sampleWorld.run wholeNumber .plain (sampleEvents true)).stored.length = 2 := by
  have hrun : AtEvery (fun before e => e.Truthful wholeNumber (bs "shop", bs "default") {7}
      (sampleWorld.run wholeNumber .plain before).counters ∧ e.Answered (bs "shop", bs "default"))
      (sampleEvents true) := by
    refine atEvery_concat.mpr ⟨atEvery_concat.mpr ⟨atEvery_concat.mpr
      ⟨atEvery_concat.mpr ⟨atEvery_nil, ?_⟩, ?_⟩, ?_⟩, ?_⟩
    · exact ⟨truthful_sampleRound (n := 0) (by decide +kernel) rfl, fun _ => rfl⟩
    · exact ⟨trivial, trivial⟩
    · exact ⟨truthful_sampleRound (n := 5) (by decide +kernel) (by decide +kernel), fun _ => rfl⟩
    exact ⟨truthful_sampleRound (n := 5) (by decide +kernel) (by decide +kernel), fun _ => rfl⟩
  have hsum : ((sampleEvents true).map (Event.growth {7})).sum = 5 := by decide +kernel
  refine ⟨?_, by decide +kernel⟩
  have hlines := (no_line_counted_twice ⟨fun _ => rfl, rfl⟩ (by decide) (by decide) hrun).1
  rwa [hsum] at hlines

theorem answer_lost :
    reportedLines (bs "shop/default") (sampleWorld.run wholeNumber .plain (sampleEvents false)).stored = 10 ∧
    storedRows (sampleWorld.run wholeNumber .plain (sampleEvents false)).tables =
      [(bs "shop/default", 5), (bs "shop/default", 5)] ∧
    ((sampleEvents false).map (Event.growth {7})).sum = 5 := by
  decide +kernel

end PiiShield.Stats
