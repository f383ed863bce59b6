import PiiShield.Histories
import PiiShield.Operator.Sample

/-! A remote file that is merged under required signatures was checked for the set the
policy expects, as long as no copy is kept across a change of that set. -/

namespace PiiShield.Operator

variable {Num : Type} {P : Platform Num}

/-- The ConfigMap, with the set that the reconcile which last wrote it expected. -/
def written (P : Platform Num) (run : List (Input Num)) : Option ConfigMap × Option Bytes :=
  run.foldl (fun w i =>
    let r := reconcileInput P w.1 i
    (r.configMap, if r.rendered.isNone then (requiredSettings P i.policy).map (·.set) else w.2)) (none, none)

def writtenSet (P : Platform Num) (run : List (Input Num)) : Option Bytes := (written P run).2

theorem written_fst (run : List (Input Num)) : (written P run).1 = configMapAfter P run := by
  induction run using List.reverseRecOn with
  | nil => rfl
  | append_singleton run i ih =>
    rw [configMapAfter_concat, ← ih]
    simp [written]

theorem writtenSet_concat (run : List (Input Num)) (i : Input Num) : writtenSet P (run ++ [i]) =
      if (reconcileInput P (configMapAfter P run) i).rendered.isNone then
        (requiredSettings P i.policy).map (·.set)
      else writtenSet P run := by
  rw [← written_fst]
  simp [writtenSet, written]

/-- A reconcile that finds a copy it trusts expects the set the copy was written for, or
its pull brings a new file. -/
def KeepsSet (P : Platform Num) (run : List (Input Num)) (i : Input Num) : Prop :=
  ∀ s copy, requiredSettings P i.policy = some s → lastGoodCopy P (some s) (configMapAfter P run) = some copy →
    writtenSet P run = some s.set ∨
      ∃ rc r, i.policy.remoteConfig = some rc ∧ pull P rc (some s) (some copy) i.env = .ok (some r)

def Accepted (P : Platform Num) (run : List (Input Num)) (s : Settings) (raw : Bytes) (v : Verified) : Prop :=
  ∃ before i out copy, before ++ [i] <+: run ∧ requiredSettings P i.policy = some s ∧
    (reconcileInput P (configMapAfter P before) i).remote = some out ∧ out.accepted = true ∧
    out.copy = some copy ∧ copy.raw = raw ∧ copy.verified = v ∧
    ∃ sigBody min, check P sigBody raw s.set s.keys min = .ok v

theorem Accepted.append {run : List (Input Num)} {s : Settings} {raw : Bytes} {v : Verified}
    (h : Accepted P run s raw v) (more : List (Input Num)) : Accepted P (run ++ more) s raw v := by
  obtain ⟨before, i, out, copy, hpre, h⟩ := h
  exact ⟨before, i, out, copy, hpre.trans (List.prefix_append _ _), h⟩

def RecordAccepted (P : Platform Num) (run : List (Input Num)) : Prop :=
  ∀ v, recorded (configMapAfter P run) = some v →
    ∃ raw s, keptFile (configMapAfter P run) = some raw ∧ writtenSet P run = some s.set ∧ Accepted P run s raw v

section Steps

variable {run : List (Input Num)} {i : Input Num}

theorem accepted_of_merged (hr : RecordAccepted P run) (hk : KeepsSet P run i) {s : Settings}
    (hs : requiredSettings P i.policy = some s) {copy : Copy Num}
    (hm : merged P (configMapAfter P run) i = some copy) :
    trusted s.keys copy.verified.keyID = true ∧
      ∃ t, t.set = s.set ∧ Accepted P (run ++ [i]) t copy.raw copy.verified := by
  obtain ⟨rc, hrc, hremote, hcopy⟩ := remote_of_merged hm
  obtain ⟨_, _, -, -, hsettings⟩ := signatureSettings_of_required hs
  rw [hs] at hremote hcopy
  rcases pullRemote_cases P i.policy rc (some s) (configMapAfter P run) i.env with
    ⟨hacc, copy', ignored, hpull, hcopy'⟩ | ⟨-, hnew, hkept⟩
  · rw [hcopy, Option.some.injEq] at hcopy'
    subst hcopy'
    obtain ⟨sigBody, hcheck⟩ := (checked_of_pull hpull).signed s rfl
    obtain ⟨-, key, hkey, hid, -⟩ := check_spec hcheck
    refine ⟨?_, s, rfl, run, i, _, copy, List.prefix_refl _, hs, hremote, hacc, hcopy, rfl, rfl, sigBody, _, hcheck⟩
    have hne : copy.verified.keyID ≠ [] := by
      rw [← hid, id_of_mem_settings hsettings key hkey]
      exact keyID_ne_nil _
    simp only [trusted, Bool.and_eq_true, Bool.not_eq_true', List.isEmpty_eq_false_iff, List.any_eq_true,
      beq_iff_eq]
    exact ⟨hne, key, hkey, hid⟩
  have hkept := hkept.symm.trans hcopy
  obtain ⟨hraw, -, -, hrec⟩ := lastGoodCopy_spec hkept
  obtain ⟨hrec, htrusted⟩ := hrec s rfl
  obtain ⟨raw, t, hfile, hset, haccepted⟩ := hr _ hrec
  cases hraw.symm.trans hfile
  refine ⟨htrusted, t, ?_, haccepted.append [i]⟩
  rcases hk s copy hs hkept with hwritten | ⟨rc', r, hrc', hpull⟩
  · exact Option.some.inj (hset.symm.trans hwritten)
  · cases hrc.symm.trans hrc'
    exact absurd (hkept ▸ hpull) (hnew r)

theorem recordAccepted_step (hr : RecordAccepted P run) (hk : KeepsSet P run i) :
    RecordAccepted P (run ++ [i]) := by
  intro v hv
  rw [configMapAfter_concat] at hv ⊢
  rw [writtenSet_concat]
  rcases configMap_cases (P := P) (configMapAfter P run) i with ⟨hrendered, hcm⟩ | ⟨hrendered, c, hc, hcm⟩
  · rw [hcm] at hv ⊢
    rw [hrendered]
    obtain ⟨raw, s, hfile, hset, haccepted⟩ := hr v hv
    exact ⟨raw, s, hfile, hset, haccepted.append [i]⟩
  rw [hcm] at hv ⊢
  rw [hrendered]
  obtain ⟨copy, s, hm, rfl, hs⟩ := copy_of_recorded hc hv
  obtain ⟨-, t, hset, haccepted⟩ := accepted_of_merged hr hk hs hm
  exact ⟨copy.raw, t, by rw [(recorded_render hc).1, hm]; rfl, by simp [hs, hset], haccepted⟩

theorem recordAccepted_run (h : AtEvery (KeepsSet P) run) : RecordAccepted P run := by
  rw [← List.nil_append run] at h ⊢
  exact h.keeps (fun v hv => by cases hv) fun _ _ => recordAccepted_step

end Steps

/-- No two keys that the policies of the run list share an id. -/
def DistinctIds (P : Platform Num) (run : List (Input Num)) : Prop :=
  ∀ i ∈ run, ∀ j ∈ run, ∀ s t, requiredSettings P i.policy = some s → requiredSettings P j.policy = some t →
    ∀ k ∈ s.keys, ∀ l ∈ t.keys, k.id = l.id → k = l

/-- A reconcile of the run accepted the file for the set with a key of the list. -/
def AcceptedWith (P : Platform Num) (run : List (Input Num)) (s : Settings) (copy : Copy Num) : Prop :=
  ∃ t, t.set = s.set ∧ Accepted P run t copy.raw copy.verified ∧
    ∃ key ∈ s.keys, key ∈ t.keys ∧ key.id = copy.verified.keyID ∧
      Signed P key s.set copy.raw copy.verified.publication

/-- In a run whose reconciles all keep the set, a document that is merged under required
signatures is that of a file checked for the set with a key of the list. -/
theorem merged_acceptedWith {run : List (Input Num)} {i : Input Num} (hk : AtEvery (KeepsSet P) (run ++ [i]))
    (hids : DistinctIds P (run ++ [i])) {s : Settings} (hs : requiredSettings P i.policy = some s)
    {copy : Copy Num} (hm : merged P (configMapAfter P run) i = some copy) :
    (∃ ignored, parse P copy.raw = .ok (copy.doc, ignored)) ∧ AcceptedWith P (run ++ [i]) s copy := by
  obtain ⟨hrun, hi⟩ := atEvery_concat.mp hk
  obtain ⟨htrusted, t, hset, haccepted⟩ := accepted_of_merged (recordAccepted_run hrun) hi hs hm
  refine ⟨parse_of_merged hm, t, hset, haccepted, ?_⟩
  obtain ⟨before, j, out, copy', hpre, ht, -, -, -, -, -, sigBody, min, hcheck⟩ := haccepted
  obtain ⟨-, key, hkey, hid, hsigned⟩ := check_spec hcheck
  simp only [trusted, Bool.and_eq_true, List.any_eq_true, beq_iff_eq] at htrusted
  obtain ⟨-, l, hl, hlid⟩ := htrusted
  have hj : j ∈ run ++ [i] := hpre.subset (by simp)
  obtain rfl := hids i (by simp) j hj s t hs ht l hl key hkey (hlid.trans hid.symm)
  exact ⟨l, hl, hkey, hid, hset ▸ hsigned⟩

def sampleSigned : Platform Unit := samplePlatform [sampleStatement (bs "org/a") 1 emptyFile]

def sampleServed (set : Bytes) : Input Unit := ⟨samplePolicy sampleKey set, sampleServer emptyFile 1⟩

def sampleDown (set : Bytes) : Input Unit := ⟨samplePolicy sampleKey set, sampleOutage⟩

def sampleCopy : Copy Unit :=
  ⟨⟨[], (), (), 0, [], [], [], [], none, none, none⟩, emptyFile, [], ⟨1, bs "0000000000000000"⟩⟩

theorem sampleSigned_settings {set : Bytes} (h : set = bs "org/a" ∨ set = bs "org/b") :
    requiredSettings sampleSigned (samplePolicy sampleKey set) = some (sampleSettings set) := by
  rcases h with rfl | rfl <;> rfl

/-- The copy of a set is merged while the source is down. -/
theorem merged_acceptedWith_outage :
    merged sampleSigned (configMapAfter sampleSigned [sampleServed (bs "org/a")]) (sampleDown (bs "org/a")) =
        some sampleCopy ∧
      AcceptedWith sampleSigned [sampleServed (bs "org/a"), sampleDown (bs "org/a")]
        (sampleSettings (bs "org/a")) sampleCopy := by
  have hsettings := sampleSigned_settings (.inl rfl)
  have hmerged : merged sampleSigned (configMapAfter sampleSigned [sampleServed (bs "org/a")])
      (sampleDown (bs "org/a")) = some sampleCopy := by decide +kernel
  have hfirst : AtEvery (KeepsSet sampleSigned) ([] ++ [sampleServed (bs "org/a")]) := by
    refine atEvery_concat.mpr ⟨atEvery_nil, fun s copy _ hkept => ?_⟩
    cases hkept
  have hkeeps : AtEvery (KeepsSet sampleSigned) ([sampleServed (bs "org/a")] ++ [sampleDown (bs "org/a")]) := by
    refine atEvery_concat.mpr ⟨hfirst, fun s copy hs _ => .inl ?_⟩
    cases hsettings.symm.trans hs
    decide +kernel
  have hids : DistinctIds sampleSigned ([sampleServed (bs "org/a")] ++ [sampleDown (bs "org/a")]) := by
    have hall (i : Input Unit) (hi : i ∈ [sampleServed (bs "org/a")] ++ [sampleDown (bs "org/a")]) :
        requiredSettings sampleSigned i.policy = some (sampleSettings (bs "org/a")) := by
      rcases List.mem_pair.mp hi with rfl | rfl <;> exact hsettings
    intro i hi j hj s t hs ht k hk l hl _
    cases (hall i hi).symm.trans hs
    cases (hall j hj).symm.trans ht
    rw [List.mem_singleton.mp hk, List.mem_singleton.mp hl]
  exact ⟨hmerged, (merged_acceptedWith hkeeps hids hsettings hmerged).2⟩

theorem sampleSigned_unsigned {key : TrustedKey} {body : Bytes} {publication : Int64} :
    ¬ Signed sampleSigned key (bs "org/b") body publication := by
  rintro ⟨revision, sig, h⟩
  have h : [sampleStatement (bs "org/a") 1 emptyFile].contains
      (statement sampleSigned (bs "org/b") publication revision body) = true := h
  rw [List.contains_iff_mem, List.mem_singleton] at h
  simp only [sampleStatement, statement, List.append_assoc, List.append_cancel_left_eq] at h
  exact absurd (List.append_inj h rfl).1 (by decide)

/-- The set is changed while the source is down, and the copy of the old set is merged. -/
theorem merged_for_other_set :
    ¬ ∀ (run : List (Input Unit)) (i : Input Unit) (s : Settings) (copy : Copy Unit),
      requiredSettings sampleSigned i.policy = some s →
      merged sampleSigned (configMapAfter sampleSigned run) i = some copy →
      AcceptedWith sampleSigned (run ++ [i]) s copy := by
  intro h
  obtain ⟨t, -, -, key, -, -, -, hsigned⟩ := h [sampleServed (bs "org/a")] (sampleDown (bs "org/b"))
    (sampleSettings (bs "org/b")) sampleCopy (sampleSigned_settings (.inr rfl)) (by decide +kernel)
  exact sampleSigned_unsigned hsigned

end PiiShield.Operator
