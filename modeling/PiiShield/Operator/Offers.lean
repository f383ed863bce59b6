import PiiShield.Operator.Provenance

/-! When a reconcile takes up a file that the source offers with a valid signature: the
record of an earlier file stands against it even if that file was one of another set. -/

namespace PiiShield.Operator

variable {Num : Type} {P : Platform Num}

def recordedFor (P : Platform Num) (run : List (Input Num)) : Option ConfigMap × Option Bytes :=
  run.foldl (fun w i =>
    let r := reconcileInput P w.1 i
    (r.configMap, if r.rendered.isNone then ((acceptance P w.1 i).map (·.1)).or w.2 else w.2)) (none, none)

def recordSet (P : Platform Num) (run : List (Input Num)) : Option Bytes := (recordedFor P run).2

theorem recordedFor_fst (run : List (Input Num)) : (recordedFor P run).1 = configMapAfter P run := by
  induction run using List.reverseRecOn with
  | nil => rfl
  | append_singleton run i ih =>
    rw [configMapAfter_concat, ← ih]
    simp [recordedFor]

theorem recordSet_concat (run : List (Input Num)) (i : Input Num) : recordSet P (run ++ [i]) =
      if (reconcileInput P (configMapAfter P run) i).rendered.isNone then
        ((acceptance P (configMapAfter P run) i).map (·.1)).or (recordSet P run)
      else recordSet P run := by
  rw [← recordedFor_fst]
  simp [recordSet, recordedFor]

/-- A reconcile of the run accepted the publication of the set. -/
def AcceptedBefore (P : Platform Num) (run : List (Input Num)) (set : Bytes) (p : Int64) : Prop :=
  ∃ before i, before ++ [i] <+: run ∧ acceptance P (configMapAfter P before) i = some (set, p)

theorem AcceptedBefore.append {run : List (Input Num)} {set : Bytes} {p : Int64}
    (h : AcceptedBefore P run set p) (more : List (Input Num)) : AcceptedBefore P (run ++ more) set p := by
  obtain ⟨before, i, hpre, h⟩ := h
  exact ⟨before, i, hpre.trans (List.prefix_append _ _), h⟩

theorem acceptedBefore_of_recorded (run : List (Input Num)) {v : Verified}
    (hv : recorded (configMapAfter P run) = some v) :
    ∃ set, recordSet P run = some set ∧ AcceptedBefore P run set v.publication := by
  induction run using List.reverseRecOn generalizing v with
  | nil => cases hv
  | append_singleton run i ih =>
    rw [configMapAfter_concat] at hv
    rw [recordSet_concat]
    rcases configMap_cases (P := P) (configMapAfter P run) i with ⟨hrendered, hcm⟩ | ⟨hrendered, c, hc, hcm⟩
    · rw [hcm] at hv
      obtain ⟨set, hset, hbefore⟩ := ih hv
      exact ⟨set, by rw [hrendered]; exact hset, hbefore.append [i]⟩
    rw [hcm] at hv
    obtain ⟨copy, s, hm, rfl, hs⟩ := copy_of_recorded hc hv
    obtain ⟨rc, -, hremote, hcopy⟩ := remote_of_merged hm
    rw [hs] at hremote hcopy
    rcases pullRemote_cases P i.policy rc (some s) (configMapAfter P run) i.env with
      ⟨hacc, -⟩ | ⟨hacc, -, hkept⟩
    · have haccept : acceptance P (configMapAfter P run) i = some (s.set, copy.verified.publication) := by
        simp [acceptance, hs, hremote, hacc, hcopy]
      refine ⟨s.set, by simp [hrendered, haccept], run, i, List.prefix_refl _, haccept⟩
    have haccept : acceptance P (configMapAfter P run) i = none := by simp [acceptance, hs, hremote, hacc]
    obtain ⟨-, -, -, hrec⟩ := lastGoodCopy_spec (hkept.symm.trans hcopy)
    obtain ⟨set, hset, hbefore⟩ := ih (hrec s rfl).1
    exact ⟨set, by simp [hrendered, haccept, hset], hbefore.append [i]⟩

/-- The source answers the pull of a reconcile with a file that parses and a signature of
it for the expected set by a key of the list; the Secrets can be read and the ConfigMap
can be read and written. -/
structure Offer (P : Platform Num) (cm : Option ConfigMap) (i : Input Num) (s : Settings)
    (body : Bytes) (sf : SignatureFile) (sigBody : Bytes) : Prop where
  required : requiredSettings P i.policy = some s
  readable : i.env.readable = true
  writable : i.env.writable = true
  answered : ∃ rc src etag sigETag, i.policy.remoteConfig = some rc ∧
    pullSource rc i.env (((lastGoodCopy P (some s) cm).map (·.etag)).getD []) = .ok src ∧
    checkURL P src.url src.allowInsecure = .ok () ∧ checkURL P s.url src.allowInsecure = .ok () ∧
    (src.caBundle.isEmpty || P.hasCertificate src.caBundle) = true ∧
    i.env.server src = .response 200 (some body) etag ∧
    i.env.server { src with url := s.url, etag := [] } = .response 200 (some sigBody) sigETag
  parses : ∃ doc ignored, parse P body = .ok (doc, ignored)
  decodes : P.decodeSignature sigBody = some sf
  signed : ∃ key ∈ s.keys, key.id = sf.keyID ∧
    isSigned P key (statement P s.set sf.publication sf.revision body) sf.signature = true

/-- The file is taken up: the condition says synced and the ConfigMap written merges what it says. -/
def Adopts (P : Platform Num) (cm : Option ConfigMap) (i : Input Num) (body : Bytes) : Prop :=
  ∃ out copy c, (reconcileInput P cm i).remote = some out ∧ out.condition.reason = .synced ∧
    out.copy = some copy ∧ copy.raw = body ∧ (∃ ignored, parse P body = .ok (copy.doc, ignored)) ∧
    (reconcileInput P cm i).rendered = none ∧
    renderConfigMap P i.policy (some copy) = some c ∧ (reconcileInput P cm i).configMap = some c

section Step

variable {cm : Option ConfigMap} {i : Input Num} {s : Settings} {body sigBody : Bytes} {sf : SignatureFile}

theorem fetch_of_answer {server : Source → Answer} {src : Source} {etag : Bytes}
    (hurl : checkURL P src.url src.allowInsecure = .ok ())
    (hca : (src.caBundle.isEmpty || P.hasCertificate src.caBundle) = true)
    (hans : server src = .response 200 (some body) etag) :
    fetch P server src =
      if maxBytes < body.length then .error (.tooLarge src.url) else .ok (.file body etag) := by
  have hca' : (!src.caBundle.isEmpty && !P.hasCertificate src.caBundle) = false := by
    rw [← Bool.not_or, hca]
    rfl
  simp [fetch, hurl, hca', hans, bind, Except.bind]

theorem check_of_signed (hids : ∀ k ∈ s.keys, ∀ l ∈ s.keys, k.id = l.id → k = l)
    (ho : Offer P cm i s body sf sigBody) (min : Int64) :
    check P sigBody body s.set s.keys min =
      if sf.publication < min then .error (.replayed sf.publication min)
      else .ok ⟨sf.publication, sf.keyID⟩ := by
  obtain ⟨key, hkey, hid, hsigned⟩ := ho.signed
  have hfind : s.keys.reverse.find? (·.id == sf.keyID) = some key := by
    cases hf : s.keys.reverse.find? (·.id == sf.keyID) with
    | none =>
      simp_all
    | some l =>
      grind
  simp [check, ho.decodes, hfind, hsigned]

theorem fetchSignature_of_answer {server : Source → Answer} {src : Source} {etag : Bytes}
    (hurl : checkURL P s.url src.allowInsecure = .ok ())
    (hca : (src.caBundle.isEmpty || P.hasCertificate src.caBundle) = true)
    (hans : server { src with url := s.url, etag := [] } = .response 200 (some sigBody) etag) :
    fetchSignature P server src s.url =
      if maxBytes < sigBody.length then .error (.tooLarge s.url) else .ok sigBody := by
  have h := @fetch_of_answer _ P sigBody server { src with url := s.url, etag := [] } etag hurl hca hans
  rw [fetchSignature, h]
  by_cases hlen : maxBytes < sigBody.length
  · simp [hlen, bind, Except.bind]
  simp [hlen, bind, Except.bind, pure, Except.pure]

def Reaches (kept : Option (Copy Num)) (body sigBody : Bytes) (publication : Int64) : Prop :=
  body.length ≤ maxBytes ∧ sigBody.length ≤ maxBytes ∧ minPublication kept ≤ publication

theorem pull_of_offer (hids : ∀ k ∈ s.keys, ∀ l ∈ s.keys, k.id = l.id → k = l)
    (ho : Offer P cm i s body sf sigBody) :
    ∃ rc, i.policy.remoteConfig = some rc ∧
      (Reaches (lastGoodCopy P (some s) cm) body sigBody sf.publication →
        ∃ copy ignored, pull P rc (some s) (lastGoodCopy P (some s) cm) i.env = .ok (some (copy, ignored)) ∧
          copy.raw = body ∧ parse P body = .ok (copy.doc, ignored)) ∧
      (¬ Reaches (lastGoodCopy P (some s) cm) body sigBody sf.publication →
        ∃ p, pull P rc (some s) (lastGoodCopy P (some s) cm) i.env = .error p) := by
  obtain ⟨rc, src, etag, sigETag, hrc, hsrc, hurl, hsig, hca, hans, hsigans⟩ := ho.answered
  obtain ⟨doc, ignored, hparse⟩ := ho.parses
  have hfetch := fetch_of_answer hurl hca hans
  have hfetchSig := fetchSignature_of_answer hsig hca hsigans
  have hcheck := check_of_signed hids ho (minPublication (lastGoodCopy P (some s) cm))
  have hpull : pull P rc (some s) (lastGoodCopy P (some s) cm) i.env =
      if maxBytes < body.length then .error (.fetch (.tooLarge src.url))
      else if maxBytes < sigBody.length then .error (.signatureMissing (.tooLarge s.url))
      else if sf.publication < minPublication (lastGoodCopy P (some s) cm) then
        .error (.signature (.replayed sf.publication (minPublication (lastGoodCopy P (some s) cm))))
      else .ok (some (⟨doc, body, etag, ⟨sf.publication, sf.keyID⟩⟩, ignored)) := by
    rw [minPublication] at hcheck ⊢
    simp only [pull, acceptFile, hsrc, hfetch, hfetchSig, bind, Except.bind]
    by_cases hbody : maxBytes < body.length
    · simp [hbody, Except.mapError]
    by_cases hsigBody : maxBytes < sigBody.length
    · simp [hbody, hsigBody, Except.mapError, hparse]
    by_cases hmin : sf.publication <
        ((lastGoodCopy P (some s) cm).map (·.verified.publication)).getD 0
    · simp [hbody, hsigBody, hmin, hparse, hcheck, Except.mapError]
    simp [hbody, hsigBody, hmin, hparse, hcheck, Except.mapError, pure, Except.pure]
  refine ⟨rc, hrc, fun h => ?_, fun h => ?_⟩
  · obtain ⟨hbody, hsigBody, hmin⟩ := h
    simp_all [if_neg]
  rw [hpull]
  by_cases hbody : maxBytes < body.length
  · exact ⟨_, if_pos hbody⟩
  rw [if_neg hbody]
  by_cases hsigBody : maxBytes < sigBody.length
  · exact ⟨_, if_pos hsigBody⟩
  have hmin : sf.publication < minPublication (lastGoodCopy P (some s) cm) := by
    by_contra hmin
    exact h ⟨by omega, by omega, Int64.not_lt.mp hmin⟩
  rw [if_neg hsigBody]
  exact ⟨_, if_pos hmin⟩

theorem Problem.reason_ne_synced (p : Problem) : p.reason ≠ .synced := by
  cases p with
  | settings p | headerSecret r | caBundleSecret r | signatureMissing p => simp [Problem.reason]
  | fetch p => cases p <;> simp [Problem.reason, FetchProblem.reason]
  | file p => cases p <;> simp [Problem.reason, FileProblem.reason]
  | signature p => cases p <;> simp [Problem.reason, SignatureProblem.reason]

theorem adopts_iff_reaches (hids : ∀ k ∈ s.keys, ∀ l ∈ s.keys, k.id = l.id → k = l)
    (hencode : ∀ doc, (P.encode doc).isSome = true) (ho : Offer P cm i s body sf sigBody) :
    Adopts P cm i body ↔
      checkName i.policy.name = true ∧ Reaches (lastGoodCopy P (some s) cm) body sigBody sf.publication := by
  obtain ⟨rc, hrc, hpull, hfail⟩ := pull_of_offer hids ho
  constructor
  · rintro ⟨out, copy, c, hout, hreason, -⟩
    have hname : checkName i.policy.name = true := by grind [reconcile_idle]
    refine ⟨hname, ?_⟩
    by_contra hreach
    obtain ⟨p, hp⟩ := hfail hreach
    obtain ⟨rc', hrc', hremote, -⟩ := reconcile_required cm ho.required hname ho.readable
    cases hrc.symm.trans hrc'
    have hcond : (pullRemote P i.policy rc (some s) cm i.env).condition =
        .failed p (lastGoodCopy P (some s) cm).isSome := by
      simp [pullRemote, hp]
    rw [hout, Option.some.injEq] at hremote
    rw [hremote, hcond] at hreason
    exact p.reason_ne_synced hreason
  rintro ⟨hname, hreach⟩
  obtain ⟨copy, ignored, hp, hraw, hdoc⟩ := hpull hreach
  obtain ⟨rc', hrc', hremote, hcm, hrendered⟩ := reconcile_required cm ho.required hname ho.readable
  cases hrc.symm.trans hrc'
  have huse : pullRemote P i.policy rc (some s) cm i.env = useCopy P rc (some s) i.env true copy ignored := by
    simp [pullRemote, hp]
  have hrender : ∃ c, renderConfigMap P i.policy (some copy) = some c := by
    obtain ⟨data, hdata⟩ := Option.isSome_iff_exists.mp (hencode (merge P copy.doc i.policy.rules i.policy.generation))
    simp [renderConfigMap, hdata]
  obtain ⟨c, hc⟩ := hrender
  rw [huse] at hremote hcm hrendered
  have hwrite : writeConfigMap P i.policy cm i.env (useCopy P rc (some s) i.env true copy ignored).copy =
      (some c, none) := by
    simp [writeConfigMap, useCopy, hc, ho.writable]
  rw [hwrite] at hcm hrendered
  exact ⟨_, copy, c, hremote, rfl, rfl, hraw, ⟨ignored, hdoc⟩, hrendered, hc, hcm⟩

end Step

/-- The record of a signer that is trusted does not stand against the publication: it is of
the set itself or not above it, and without such a record the publication is not negative. -/
def RecordAdmits (P : Platform Num) (run : List (Input Num)) (s : Settings) (publication : Int64) : Prop :=
  (∀ v, recorded (configMapAfter P run) = some v → trusted s.keys v.keyID = true →
      recordSet P run = some s.set ∨ v.publication ≤ publication) ∧
    ((∀ v, recorded (configMapAfter P run) = some v → trusted s.keys v.keyID = false) → 0 ≤ publication)

theorem recordAdmits_iff {run : List (Input Num)} {s : Settings} {publication : Int64}
    (hbest : ∀ p, AcceptedBefore P run s.set p → p ≤ publication) :
    RecordAdmits P run s publication ↔
      minPublication (lastGoodCopy P (some s) (configMapAfter P run)) ≤ publication := by
  cases hkept : lastGoodCopy P (some s) (configMapAfter P run) with
  | none =>
    have huntrusted : ∀ v, recorded (configMapAfter P run) = some v → trusted s.keys v.keyID = false := by
      intro v hv
      by_contra ht
      obtain ⟨copy, hcopy, -⟩ :=
        lastGoodCopy_of_recorded (usable_configMapAfter run) hv (by simpa using ht : trusted s.keys v.keyID = true)
      rw [hkept] at hcopy
      cases hcopy
    constructor
    · intro h
      exact h.2 huntrusted
    intro h
    refine ⟨fun v hv ht => ?_, fun _ => h⟩
    rw [huntrusted v hv] at ht
    cases ht
  | some copy =>
    obtain ⟨-, -, -, hrec⟩ := lastGoodCopy_spec hkept
    obtain ⟨hrec, htrusted⟩ := hrec s rfl
    constructor
    · intro h
      rcases h.1 _ hrec htrusted with hset | hle
      · obtain ⟨set, hset', hbefore⟩ := acceptedBefore_of_recorded run hrec
        cases hset.symm.trans hset'
        exact hbest _ hbefore
      exact hle
    intro h
    refine ⟨fun v hv _ => ?_, fun hno => ?_⟩
    · cases hrec.symm.trans hv
      exact .inr h
    rw [hno _ hrec] at htrusted
    cases htrusted

/-- An offer no older than what was accepted of its set is taken up exactly if the name of
the policy fits, the two files are within the limit, and no record of a file of another
set stands against it. -/
theorem offer_adopted_iff (run : List (Input Num)) {i : Input Num} {s : Settings} {body sigBody : Bytes}
    {sf : SignatureFile} (hids : ∀ k ∈ s.keys, ∀ l ∈ s.keys, k.id = l.id → k = l)
    (hencode : ∀ doc, (P.encode doc).isSome = true) (ho : Offer P (configMapAfter P run) i s body sf sigBody)
    (hbest : ∀ p, AcceptedBefore P run s.set p → p ≤ sf.publication) :
    Adopts P (configMapAfter P run) i body ↔
      checkName i.policy.name = true ∧ body.length ≤ maxBytes ∧ sigBody.length ≤ maxBytes ∧
        RecordAdmits P run s sf.publication := by
  rw [adopts_iff_reaches hids hencode ho, recordAdmits_iff hbest]
  exact Iff.rfl

def sampleSets : Platform Unit :=
  samplePlatform [sampleStatement (bs "org/a") 9 emptyFile, sampleStatement (bs "org/b") 1 spacedFile,
    sampleStatement (bs "org/b") 3 emptyFile]

def sampleA : Input Unit := ⟨samplePolicy sampleKey (bs "org/a"), sampleServer emptyFile 9⟩

def sampleB (body : Bytes) (publication : UInt8) : Input Unit :=
  ⟨samplePolicy sampleKey (bs "org/b"), sampleServer body publication⟩

theorem sampleB_offer (run : List (Input Unit)) {body : Bytes} {n : UInt8}
    (hfile : (body, n) = (spacedFile, 1) ∨ (body, n) = (emptyFile, 3)) (hetag :
    ((lastGoodCopy sampleSets (some (sampleSettings (bs "org/b"))) (configMapAfter sampleSets run)).map
      (·.etag)).getD [] = []) :
    Offer sampleSets (configMapAfter sampleSets run) (sampleB body n) (sampleSettings (bs "org/b")) body
      ⟨[], .ofInt n.toNat, 1, [], bs "0000000000000000", sampleSignature⟩ (sampleSignatureFile n) where
  required := by rfl
  readable := rfl
  writable := rfl
  answered := by
    refine ⟨⟨bs "https://rules/policy.json", 300, none, none, false,
        some ⟨[sampleKey], bs "https://rules/policy.json.sig", bs "org/b"⟩⟩,
      ⟨bs "https://rules/policy.json", [], [], false, []⟩, [], [], rfl, ?_, by rfl, by rfl, rfl, ?_, ?_⟩
    · rw [hetag]
      rfl
    · rfl
    rfl
  parses := by rcases hfile with h | h <;> cases h <;> exact ⟨_, _, by rfl⟩
  decodes := by rcases hfile with h | h <;> cases h <;> decide +kernel
  signed := by
    refine ⟨⟨bs "0000000000000000", List.replicate 32 0⟩, by decide, rfl, ?_⟩
    rcases hfile with h | h <;> cases h <;> rfl

theorem sampleSettings_ids (set : Bytes) :
    ∀ k ∈ (sampleSettings set).keys, ∀ l ∈ (sampleSettings set).keys, k.id = l.id → k = l := by
  intro k hk l hl _
  rw [List.mem_singleton.mp hk, List.mem_singleton.mp hl]

theorem acceptedBefore_singleton {i : Input Num} {set : Bytes} {p : Int64} :
    AcceptedBefore P [i] set p ↔ acceptance P none i = some (set, p) := by
  constructor
  · rintro ⟨before, j, hpre, h⟩
    rw [← List.nil_append [i]] at hpre
    rcases List.prefix_concat_iff.mp hpre with heq | hpre
    · obtain ⟨rfl, hi⟩ := List.append_inj' heq rfl
      cases hi
      exact h
    simp at hpre
  exact fun h => ⟨[], i, List.prefix_refl _, h⟩

/-- A file of a set follows an older one of the same set. -/
theorem offer_adopted_next :
    AcceptedBefore sampleSets [sampleB spacedFile 1] (bs "org/b") 1 ∧
      Adopts sampleSets (configMapAfter sampleSets [sampleB spacedFile 1]) (sampleB emptyFile 3) emptyFile := by
  have haccept : acceptance sampleSets none (sampleB spacedFile 1) = some (bs "org/b", 1) := by decide +kernel
  refine ⟨acceptedBefore_singleton.mpr haccept, (offer_adopted_iff _ (sampleSettings_ids _) (fun _ => rfl)
    (sampleB_offer _ (.inr rfl) (by decide +kernel)) fun p hp => ?_).mpr ⟨by decide +kernel, by decide, ?_, ?_⟩⟩
  · cases haccept.symm.trans (acceptedBefore_singleton.mp hp)
    decide
  · decide +kernel
  · exact ⟨fun v _ _ => .inl (by decide +kernel), fun _ => by decide⟩

/-- The number of a file of the old set stands against the first file of the new set. -/
theorem offer_refused :
    ¬ ∀ (run : List (Input Unit)) (i : Input Unit) (s : Settings) (body sigBody : Bytes) (sf : SignatureFile),
      Offer sampleSets (configMapAfter sampleSets run) i s body sf sigBody →
      (∀ p, AcceptedBefore sampleSets run s.set p → p ≤ sf.publication) →
      Adopts sampleSets (configMapAfter sampleSets run) i body := by
  intro h
  have hoffer := sampleB_offer [sampleA] (.inl rfl) (by decide +kernel)
  have hbest : ∀ p, AcceptedBefore sampleSets [sampleA] (bs "org/b") p → p ≤ 1 := by
    intro p hp
    have ha : acceptance sampleSets none sampleA = some (bs "org/a", 9) := by decide +kernel
    have hset := congrArg Prod.fst (Option.some.inj (ha.symm.trans (acceptedBefore_singleton.mp hp)))
    exact absurd hset (by decide : bs "org/a" ≠ bs "org/b")
  obtain ⟨hname, -, -, hmin⟩ := (adopts_iff_reaches (sampleSettings_ids _) (fun _ => rfl) hoffer).mp
    (h _ _ _ _ _ _ hoffer hbest)
  exact absurd hmin (by decide +kernel)

end PiiShield.Operator
