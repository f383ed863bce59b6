import PiiShield.Rules.Store
import Mathlib.Data.List.Basic

/-! The numbers of versions and publications under concurrency. Every commit of the store is
one of two operations on a single set, each of which takes the next number. -/

namespace PiiShield.Rules

open Transactions

/-- Revisions and publication numbers count from one without a gap, and the set serves its
last publication. -/
structure Numbered (s : RuleSet) : Prop where
  revisions : s.versions.map (·.revision) = List.range' 1 s.versions.length
  seqs : s.publications.map (·.seq) = List.range' 1 s.publications.length
  published : s.published = s.publications.getLast?.map (·.revision)
  known : ∀ p ∈ s.publications, ∃ v ∈ s.versions, v.revision = p.revision

def RuleSet.append (s : RuleSet) (v : Version) : RuleSet := { s with versions := s.versions ++ [v] }

def RuleSet.publish (s : RuleSet) (p : Publication) : RuleSet :=
  { s with published := some p.revision, publications := s.publications ++ [p] }

def Database.put (d : Database) (set : Nat) (s : RuleSet) : Database :=
  { d with sets := fun i => if i = set then some s else d.sets i }

theorem foldl_max_range' (m n : Nat) : (List.range' (m + 1) n).foldl max m = m + n := by
  induction n generalizing m with
  | zero => rfl
  | succ n ih =>
    rw [List.range'_succ, List.foldl_cons, Nat.max_eq_right (Nat.le_succ m), ih]
    omega

theorem Numbered.append {s : RuleSet} (h : Numbered s) {v : Version} (hv : v.revision = s.versions.length + 1) :
    Numbered (s.append v) where
  revisions := by
    rw [RuleSet.append, List.map_append, h.revisions, List.length_append, List.map_singleton, hv,
      List.length_singleton, List.range'_concat]
    simp [Nat.add_comm]
  seqs := h.seqs
  published := h.published
  known p hp := by
    obtain ⟨w, hw, hwp⟩ := h.known p hp
    exact ⟨w, List.mem_append_left _ hw, hwp⟩

theorem Numbered.publish {s : RuleSet} (h : Numbered s) {p : Publication}
    (hp : p.seq = s.publications.length + 1) {v : Version} (hv : v ∈ s.versions) (hrev : v.revision = p.revision) :
    Numbered (s.publish p) where
  revisions := h.revisions
  seqs := by
    rw [RuleSet.publish, List.map_append, h.seqs, List.length_append, List.map_singleton, hp,
      List.length_singleton, List.range'_concat]
    simp [Nat.add_comm]
  published := by simp [RuleSet.publish]
  known q hq := by
    rcases List.mem_append.mp hq with hq | hq
    · exact h.known q hq
    rw [List.mem_singleton.mp hq]
    exact ⟨v, hv, hrev⟩

section Reads

variable {d : Database} {set : Nat} {s : RuleSet}

theorem maxRevision_eq (hs : d.sets set = some s) (h : Numbered s) : d.maxRevision set = s.versions.length := by
  rw [Database.maxRevision, hs, Option.map_some, Option.getD_some, h.revisions, foldl_max_range' 0, Nat.zero_add]

theorem maxSeq_eq (hs : d.sets set = some s) (h : Numbered s) : d.maxSeq set = s.publications.length := by
  rw [Database.maxSeq, hs, Option.map_some, Option.getD_some, h.seqs, foldl_max_range' 0, Nat.zero_add]

theorem mem_of_version {revision : Int} {v : Version} (hs : d.sets set = some s)
    (h : d.version set revision = some v) : v ∈ s.versions ∧ (v.revision : Int) = revision := by
  rw [Database.version, hs, Option.bind_some] at h
  exact ⟨List.mem_of_find?_eq_some h, by simpa using List.find?_some h⟩

theorem exists_of_version {revision : Int} {v : Version} (h : d.version set revision = some v) :
    ∃ s, d.sets set = some s := by
  grind [Database.version, Option.bind_eq_some_iff]

theorem Numbered.revision_le (h : Numbered s) {v : Version} (hv : v ∈ s.versions) :
    v.revision ≤ s.versions.length := by
  have hmem : v.revision ∈ s.versions.map (·.revision) := List.mem_map_of_mem hv
  rw [h.revisions, List.mem_range'_1] at hmem
  omega

theorem version_next (hs : d.sets set = some s) (h : Numbered s) :
    d.version set ((s.versions.length + 1 : Nat) : Int) = none := by
  cases hv : d.version set ((s.versions.length + 1 : Nat) : Int) with
  | none => rfl
  | some v =>
    obtain ⟨hmem, hrev⟩ := mem_of_version hs hv
    have hle := h.revision_le hmem
    omega

theorem hasSeq_next (hs : d.sets set = some s) (h : Numbered s) :
    d.hasSeq set (s.publications.length + 1) = false := by
  rw [Database.hasSeq, hs, Option.any_some, List.any_eq_false]
  intro p hp heq
  have hmem : p.seq ∈ s.publications.map (·.seq) := List.mem_map_of_mem hp
  rw [h.seqs, List.mem_range'_1] at hmem
  have : p.seq = s.publications.length + 1 := by simpa using heq
  omega

theorem updateSet_eq (hs : d.sets set = some s) (f : RuleSet → RuleSet) : d.updateSet set f = d.put set (f s) := by
  simp_all [Database.updateSet, Database.put]

theorem put_sets_self (d : Database) (set : Nat) (s : RuleSet) : (d.put set s).sets set = some s := by
  simp [Database.put]

theorem put_sets_of_ne (d : Database) {set i : Nat} (h : i ≠ set) (s : RuleSet) :
    (d.put set s).sets i = d.sets i := by
  simp [Database.put, h]

theorem insertVersion_eq (hs : d.sets set = some s) (h : Numbered s) {v : Version}
    (hv : v.revision = s.versions.length + 1) : Database.insertVersion set v d = d.put set (s.append v) := by
  rw [Database.insertVersion, hv, version_next hs h, Option.isSome_none, if_neg Bool.false_ne_true,
    updateSet_eq hs]
  rfl

theorem insertPublication_eq (hs : d.sets set = some s) (h : Numbered s) {p : Publication}
    (hp : p.seq = s.publications.length + 1) :
    Database.insertPublication set p (Database.setPublished set p.revision d) = d.put set (s.publish p) := by
  rw [Database.setPublished, updateSet_eq hs]
  have hs' := put_sets_self d set { s with published := some p.revision }
  have hno : (d.put set { s with published := some p.revision }).hasSeq set p.seq = false := by
    rw [hp]
    have hnext := hasSeq_next hs h
    rw [Database.hasSeq, hs, Option.any_some] at hnext
    rw [Database.hasSeq, hs', Option.any_some]
    exact hnext
  simp_all [Database.insertPublication, updateSet_eq, Database.put, RuleSet.publish]

end Reads

section Commits

variable {E : Type}

def Appends (set : Nat) (author comment : Bytes) (canonical : Nat → Except E (Bytes × Bytes))
    (d d' : Database) : Prop :=
  ∃ s content etag, d.sets set = some s ∧ canonical (s.versions.length + 1) = .ok (content, etag) ∧
    d' = d.put set (s.append ⟨s.versions.length + 1, content, etag, author, comment⟩)

def Publishes (set : Nat) (req : PublishRequest E) (d d' : Database) : Prop :=
  ∃ s v, d.sets set = some s ∧ v ∈ s.versions ∧ (v.revision : Int) = req.revision ∧
    (req.seq = 0 ∨ req.seq = s.publications.length + 1) ∧
    req.check (s.publications.length + 1) v = .ok () ∧
    d' = d.put set
      (s.publish ⟨s.publications.length + 1, v.revision, req.author, req.keyID, req.signature⟩)

end Commits

/-- What the transactions of the store need: sets are numbered, and nobody else changes a set
that is locked. -/
structure Stores (X : Discipline Database Nat Fact) : Prop where
  numbered : ∀ d, X.inv d → ∀ set s, d.sets set = some s → Numbered s
  owned : ∀ set d d', X.owned set d d' → d'.sets set = d.sets set

section Store

variable {E A : Type} {X : Discipline Database Nat Fact} {pg : Bool} {guarantee : Database → Database → Prop}
  {relies : List Fact} {post : Except (StoreError E) Nat → Database → Prop} {set : Nat} {d : Database}

theorem Stores.same (hX : Stores X) {held : List Nat} (hheld : pg = false ∨ set ∈ held) {d' : Database}
    (h : Beside X (!pg) relies held d d') : d'.sets set = d.sets set := by
  rcases hheld with rfl | hheld
  · rw [h.serial rfl]
  exact hX.owned set d d' (h.owned set hheld)

theorem lockSet_ok {found : StoreTx E} (hd : X.inv d)
    (hfound : ∀ held d', Around X relies d d' → (pg = false ∨ set ∈ held) →
      found.Ok X (!pg) guarantee relies post held id d')
    (hmissing : ∀ d', Around X relies d d' → post (.error .notFound) d') :
    (lockSet pg set found).Ok X (!pg) guarantee relies post [] id d := by
  cases pg with
  | false => exact hfound [] d (.refl hd) (.inl rfl)
  | true =>
    intro d1 h1
    by_cases hrow : ((d1.sets set).isSome) = true
    · rw [if_pos (by exact hrow)]
      exact hfound [set] d1 h1.toAround (.inr (List.mem_singleton_self set))
    rw [if_neg (by exact hrow)]
    intro d2 h2
    exact hmissing d2 (h1.toAround.trans h2.toAround)

theorem rollback_ok {d' : Database} {held : List Nat} {w : Database → Database} {e : StoreError E}
    (hfail : ∀ e d1, Around X relies d d1 → post (.error e) d1) (h : Around X relies d d') :
    (Tx.rollback (.error e) : StoreTx E).Ok X (!pg) guarantee relies post held w d' :=
  fun d1 h1 => hfail e d1 (h.trans h1.toAround)

theorem createVersionTx_ok (hX : Stores X) (hd : X.inv d) {author comment : Bytes}
    {canonical : Nat → Except E (Bytes × Bytes)}
    (hcommit : ∀ held d1 d2 n, Around X relies d d1 → (pg = false ∨ set ∈ held) →
      Appends set author comment canonical d1 d2 → Commits X (!pg) guarantee held d1 d2 ∧ post (.ok n) d2)
    (hfail : ∀ e d1, Around X relies d d1 → post (.error e) d1) :
    (createVersionTx pg set author comment canonical).Ok X (!pg) guarantee relies post [] id d := by
  refine lockSet_ok hd (fun held d1 h1 hheld => Tx.ok_read fun d2 h2 => ?_) (hfail _)
  have h2' := h1.trans h2.toAround
  cases hs : d2.sets set with
  | none =>
    rw [Option.isNone_none, if_pos rfl]
    exact rollback_ok hfail h2'
  | some s =>
    rw [Option.isNone_some, if_neg Bool.false_ne_true]
    refine Tx.ok_read fun d3 h3 => ?_
    have h3' := h2'.trans h3.toAround
    have hs3 : d3.sets set = some s := (hX.same hheld h3).trans hs
    have hnum := hX.numbered d3 h3'.inv set s hs3
    rw [maxRevision_eq hs3 hnum, insertVersionTx]
    cases hcan : canonical (s.versions.length + 1) with
    | error e => exact rollback_ok hfail h3'
    | ok file =>
      refine Tx.ok_write fun d4 h4 => ?_
      have h4' := h3'.trans h4.toAround
      have hs4 : d4.sets set = some s := (hX.same hheld h4).trans hs3
      rw [if_neg (by rw [version_next hs4 hnum]; exact Bool.false_ne_true)]
      intro d5 h5
      have hs5 : d5.sets set = some s := (hX.same hheld h5).trans hs4
      refine hcommit held d5 _ _ (h4'.trans h5.toAround) hheld ⟨s, file.1, file.2, hs5, hcan, ?_⟩
      exact insertVersion_eq hs5 hnum rfl

theorem publishTx_ok (hX : Stores X) (hd : X.inv d) {req : PublishRequest E}
    (hcommit : ∀ held d1 d2 n, Around X relies d d1 → (pg = false ∨ set ∈ held) →
      Publishes set req d1 d2 → Commits X (!pg) guarantee held d1 d2 ∧ post (.ok n) d2)
    (hfail : ∀ e d1, Around X relies d d1 → post (.error e) d1) :
    (publishTx pg set req).Ok X (!pg) guarantee relies post [] id d := by
  refine lockSet_ok hd (fun held d1 h1 hheld => Tx.ok_read fun d2 h2 => ?_) (hfail _)
  have h2' := h1.trans h2.toAround
  cases hv : d2.version set req.revision with
  | none => exact rollback_ok hfail h2'
  | some v =>
    obtain ⟨s, hs⟩ := exists_of_version hv
    obtain ⟨hmem, hrev⟩ := mem_of_version hs hv
    refine Tx.ok_read fun d3 h3 => ?_
    have h3' := h2'.trans h3.toAround
    have hs3 : d3.sets set = some s := (hX.same hheld h3).trans hs
    have hnum := hX.numbered d3 h3'.inv set s hs3
    rw [maxSeq_eq hs3 hnum, insertPublicationTx]
    by_cases hseq : req.seq ≠ 0 ∧ req.seq ≠ ((s.publications.length + 1 : Nat) : Int)
    · rw [if_pos hseq]
      exact rollback_ok hfail h3'
    rw [if_neg hseq]
    cases hcheck : req.check (s.publications.length + 1) v with
    | error e => exact rollback_ok hfail h3'
    | ok _ =>
      refine Tx.ok_write fun d4 h4 d5 h5 => ?_
      have h5' := (h3'.trans h4.toAround).trans h5.toAround
      have hs5 : d5.sets set = some s := (hX.same hheld h5).trans ((hX.same hheld h4).trans hs3)
      dsimp only
      split
      · exact rollback_ok hfail h5'
      intro d6 h6
      have hs6 : d6.sets set = some s := (hX.same hheld h6).trans hs5
      refine hcommit held d6 _ _ (h5'.trans h6.toAround) hheld ⟨s, v, hs6, hmem, hrev, ?_, hcheck, ?_⟩
      · by_contra hne
        exact hseq (not_or.mp hne)
      exact insertPublication_eq hs6 hnum rfl

theorem retrying_induction {C : Type} {attempt : Option C → C} {Q : C → Prop} (hlast : Q (attempt none))
    (hnext : ∀ c, Q c → Q (attempt (some c))) (n : Nat) : Q (retrying attempt n) := by
  induction n with
  | zero => exact hlast
  | succ n ih => exact hnext _ ih

variable {answers : A → Database → Prop}

theorem retrying_ok (relies : List Fact) (hd : X.inv d) {attempt : Option (Code E A) → Code E A}
    (h : ∀ again, (∀ c ∈ again, ∀ d1, Around X relies d d1 → c.Ok X (!pg) guarantee answers d1) →
      ∀ d1, Around X relies d d1 → (attempt again).Ok X (!pg) guarantee answers d1) {retries : Nat} :
    (retrying attempt retries).Ok X (!pg) guarantee answers d :=
  retrying_induction (Q := fun c => ∀ d1, Around X relies d d1 → c.Ok X (!pg) guarantee answers d1)
    (h none (by simp)) (fun c hc => h (some c) (by simpa using hc)) retries d (.refl hd)

theorem createVersion_ok (hX : Stores X) (hd : X.inv d) {author comment : Bytes}
    {canonical : Nat → Except E (Bytes × Bytes)} {next : Except (StoreError E) Version → Code E A}
    (hcommit : ∀ held d1 d2, Around X [] d d1 → (pg = false ∨ set ∈ held) →
      Appends set author comment canonical d1 d2 → Commits X (!pg) guarantee held d1 d2)
    (hnext : ∀ r d1, Around X [] d d1 → (next r).Ok X (!pg) guarantee answers d1) :
    (createVersion pg set author comment canonical next).Ok X (!pg) guarantee answers d := by
  refine retrying_ok [] hd fun again hagain d1 h1 => ?_
  intro d2 h2
  have h2' := h1.trans h2
  refine createVersionTx_ok hX h2'.inv ?_ ?_
  · intro held d3 d4 n h3 hheld happ
    have hc := hcommit held d3 d4 (h2'.trans h3) hheld happ
    have h4' := (h2'.trans h3).trans ⟨hc.inv, hc.always, by simp⟩
    refine ⟨hc, Client.ok_read fun d5 h5 => ?_⟩
    have h5' := h4'.trans h5
    split
    · exact hnext _ d5 h5'
    exact hnext _ d5 h5'
  intro e d3 h3
  have h3' := h2'.trans h3
  cases e with
  | unique =>
    cases again with
    | none => exact hnext _ d3 h3'
    | some c => exact hagain c rfl d3 h3'
  | notFound | «exists» | stale | rejected e => exact hnext _ d3 h3'

theorem publish_ok (hX : Stores X) (hd : X.inv d) {req : PublishRequest E}
    {next : Except (StoreError E) Publication → Code E A}
    (hcommit : ∀ held d1 d2, Around X relies d d1 → (pg = false ∨ set ∈ held) →
      Publishes set req d1 d2 → Commits X (!pg) guarantee held d1 d2)
    (hnext : ∀ r d1, Around X [] d d1 → (next r).Ok X (!pg) guarantee answers d1) :
    (publish relies pg set req next).Ok X (!pg) guarantee answers d := by
  have hforget {a b : Database} (h : Around X relies a b) : Around X [] a b := ⟨h.inv, h.always, by simp⟩
  refine retrying_ok relies hd fun again hagain d1 h1 => ?_
  intro d2 h2
  have h2' := h1.trans h2
  refine publishTx_ok hX h2'.inv ?_ ?_
  · intro held d3 d4 n h3 hheld hpub
    have hc := hcommit held d3 d4 (h2'.trans h3) hheld hpub
    exact ⟨hc, hnext _ d4 ((hforget (h2'.trans h3)).trans ⟨hc.inv, hc.always, by simp⟩)⟩
  intro e d3 h3
  have h3' := h2'.trans h3
  have hplain := fun r => hnext r d3 (hforget h3')
  cases e with
  | stale =>
    dsimp only
    split
    · cases again with
      | none => exact hplain _
      | some c => exact hagain c rfl d3 h3'
    exact hplain _
  | notFound | «exists» | unique | rejected e => exact hplain _

end Store

section History

/-- No set comes or goes, its rows stay as they were inserted, and a new version is one that
was built for the set. -/
structure Extends (built : Nat → Version → Prop) (d d' : Database) : Prop where
  missing : ∀ set, d.sets set = none → d'.sets set = none
  kept : ∀ set s, d.sets set = some s → ∃ s', d'.sets set = some s' ∧ s'.org = s.org ∧ s'.slug = s.slug ∧
    s.versions <+: s'.versions ∧ s.publications <+: s'.publications ∧
    ∀ v ∈ s'.versions, v ∈ s.versions ∨ built set v
  orgSlug : d'.orgSlug = d.orgSlug

variable {built : Nat → Version → Prop} {d d' d'' : Database}

theorem Extends.refl (d : Database) : Extends built d d where
  missing _ h := h
  kept _ s h := ⟨s, h, rfl, rfl, List.prefix_refl _, List.prefix_refl _, fun _ hv => .inl hv⟩
  orgSlug := rfl

theorem Extends.trans (h : Extends built d d') (h' : Extends built d' d'') : Extends built d d'' where
  missing set hs := h'.missing set (h.missing set hs)
  kept set s hs := by
    obtain ⟨s', hs', horg, hslug, hversions, hpubs, hbuilt⟩ := h.kept set s hs
    obtain ⟨s'', hs'', horg', hslug', hversions', hpubs', hbuilt'⟩ := h'.kept set s' hs'
    grind
  orgSlug := h'.orgSlug.trans h.orgSlug

theorem extends_put {set : Nat} {s s' : RuleSet} (hs : d.sets set = some s) (horg : s'.org = s.org)
    (hslug : s'.slug = s.slug) (hversions : s.versions <+: s'.versions)
    (hpubs : s.publications <+: s'.publications) (hbuilt : ∀ v ∈ s'.versions, v ∈ s.versions ∨ built set v) :
    Extends built d (d.put set s') where
  missing i hi := by
    grind [put_sets_of_ne]
  kept i t ht := by
    grind [put_sets_self, List.prefix_refl, put_sets_of_ne]
  orgSlug := rfl

end History

section Calls

variable {E : Type}

inductive Call (E : Type)
  | createVersion (set : Nat) (author comment : Bytes) (canonical : Nat → Except E (Bytes × Bytes))
  | publish (set : Nat) (req : PublishRequest E)

inductive Reply (E : Type)
  | version (r : Except (StoreError E) Version)
  | publication (r : Except (StoreError E) Publication)

def Call.set : Call E → Nat
  | .createVersion set _ _ _ => set
  | .publish set _ => set

def Call.client (pg : Bool) : Call E → Code E (Reply E)
  | .createVersion set author comment canonical =>
    Rules.createVersion pg set author comment canonical fun r => .done (.version r)
  | .publish set req => Rules.publish [] pg set req fun r => .done (.publication r)

def Call.Makes : Call E → Database → Database → Prop
  | .createVersion set author comment canonical => Appends set author comment canonical
  | .publish set req => Publishes set req

def Call.Builds (set : Nat) (v : Version) : Call E → Prop
  | .createVersion set' author comment canonical =>
    set' = set ∧ canonical v.revision = .ok (v.content, v.etag) ∧ v.author = author ∧ v.comment = comment
  | .publish _ _ => False

def builtBy (calls : List (Call E)) (set : Nat) (v : Version) : Prop := ∃ call ∈ calls, call.Builds set v

/-- Any number of processes on one database, each with a call to make. -/
def processes (pg : Bool) (calls : List (Call E)) (d : Database) :
    System Database Nat Fact (Except (StoreError E) Nat) (Reply E) :=
  ⟨d, (calls.map (Call.client pg)).map .idle⟩

def Untouched (set : Nat) (d d' : Database) : Prop := d'.sets set = d.sets set

theorem Untouched.refl (set : Nat) (d : Database) : Untouched set d d := rfl

theorem Untouched.trans {set : Nat} {d d' d'' : Database} (h : Untouched set d d') (h' : Untouched set d' d'') :
    Untouched set d d'' := Eq.trans h' h

def numbering (calls : List (Call E)) : Discipline Database Nat Fact where
  inv d := ∀ set s, d.sets set = some s → Numbered s
  always := Extends (builtBy calls)
  always_refl := Extends.refl
  always_trans := Extends.trans
  owned := Untouched
  owned_refl := Untouched.refl
  owned_trans := Untouched.trans
  fact _ _ := True

theorem numbering_stores (calls : List (Call E)) : Stores (numbering calls) :=
  ⟨fun _ h => h, fun _ _ _ h => h⟩

variable {calls : List (Call E)} {d d' : Database}

theorem inv_put {set : Nat} {s : RuleSet} (h : ∀ set s, d.sets set = some s → Numbered s) (hs : Numbered s) :
    ∀ i t, (d.put set s).sets i = some t → Numbered t := by
  grind [put_sets_self, put_sets_of_ne]

theorem Call.commits_ok {call : Call E} (hcall : call ∈ calls) {guarantee : Database → Database → Prop}
    (hguarantee : ∀ d d', call.Makes d d' → guarantee d d') {pg : Bool} {held : List Nat}
    (hheld : pg = false ∨ call.set ∈ held) (hinv : ∀ set s, d.sets set = some s → Numbered s)
    (h : call.Makes d d') : Commits (numbering calls) (!pg) guarantee held d d' := by
  have hput {s : RuleSet} (heq : d' = d.put call.set s) : (!pg) = false → ∀ k, k ∉ held →
      (numbering calls).owned k d d' := by
    intro hpg k hk
    have hne : k ≠ call.set := by grind
    rw [heq]
    exact put_sets_of_ne d hne s
  cases call with
  | createVersion set author comment canonical =>
    have happ : Appends set author comment canonical d d' := h
    obtain ⟨s, content, etag, hs, hcan, heq⟩ := happ
    refine ⟨?_, ?_, hput heq, .inr (hguarantee d d' h)⟩
    · rw [heq]
      exact inv_put hinv ((hinv set s hs).append rfl)
    rw [heq]
    refine extends_put hs rfl rfl (List.prefix_append _ _) (List.prefix_refl _) ?_
    intro v hv
    rcases List.mem_append.mp hv with hv | hv
    · exact .inl hv
    rw [List.mem_singleton.mp hv]
    exact .inr ⟨_, hcall, rfl, hcan, rfl, rfl⟩
  | publish set req =>
    have hpub : Publishes set req d d' := h
    obtain ⟨s, v, hs, hv, -, -, -, heq⟩ := hpub
    refine ⟨?_, ?_, hput heq, .inr (hguarantee d d' h)⟩
    · rw [heq]
      exact inv_put hinv ((hinv set s hs).publish rfl hv rfl)
    rw [heq]
    exact extends_put hs rfl rfl (List.prefix_refl _) (List.prefix_append _ _) fun _ hv => .inl hv

theorem Call.client_ok {call : Call E} (hcall : call ∈ calls) {guarantee : Database → Database → Prop}
    (hguarantee : ∀ d d', call.Makes d d' → guarantee d d') (pg : Bool)
    (hinv : ∀ set s, d.sets set = some s → Numbered s) :
    (call.client pg).Ok (numbering calls) (!pg) guarantee (fun _ _ => True) d := by
  have hstores := numbering_stores calls
  have hcommit (held : List Nat) (d1 d2 : Database) (h1 : Around (numbering calls) [] d d1)
      (hheld : pg = false ∨ call.set ∈ held) (hc : call.Makes d1 d2) :
      Commits (numbering calls) (!pg) guarantee held d1 d2 := call.commits_ok hcall hguarantee hheld h1.inv hc
  cases call with
  | createVersion set author comment canonical =>
    exact createVersion_ok hstores hinv hcommit fun r d1 _ d2 _ => trivial
  | publish set req => exact publish_ok hstores hinv hcommit fun r d1 _ d2 _ => trivial

/-- The request does not get the number it asks for, or its check fails. -/
def Refuses (set : Nat) (req : PublishRequest E) (d : Database) : Prop :=
  ∀ s, d.sets set = some s → (req.seq ≠ 0 ∧ req.seq ≠ s.publications.length + 1) ∨
    ∀ v ∈ s.versions, (v.revision : Int) = req.revision → req.check (s.publications.length + 1) v ≠ .ok ()

theorem not_publishes_of_refuses {set : Nat} {req : PublishRequest E} (h : Refuses set req d) :
    ¬ Publishes set req d d' := by
  rintro ⟨s, v, hs, hv, hrev, hseq, hcheck, -⟩
  rcases h s hs with ⟨hzero, hne⟩ | hfails
  · rcases hseq with hseq | hseq
    · exact hzero hseq
    exact hne hseq
  exact hfails v hv hrev hcheck

/-- In every run of any calls, in every state that is committed: each set is numbered, rows
are as they were inserted and versions as they were built for their revision, and an action
changes nothing but by the one operation of its call. -/
theorem numbering_kept (pg : Bool) (calls : List (Call E)) {d : Database}
    (hd : ∀ set s, d.sets set = some s → Numbered s) (actions : List Action) :
    let after (actions : List Action) : Database := ((processes pg calls d).run (!pg) actions).db
    (∀ set s, (after actions).sets set = some s → Numbered s) ∧
      Extends (builtBy calls) d (after actions) ∧
      (∀ a, after (actions ++ [a]) = after actions ∨
        ∃ call, calls[a.actor]? = some call ∧ call.Makes (after actions) (after (actions ++ [a]))) ∧
      ∀ a set req, calls[a.actor]? = some (.publish set req) → Refuses set req (after actions) →
        after (actions ++ [a]) = after actions := by
  intro after
  let guarantee (p : Nat) (d d' : Database) : Prop := ∃ call, calls[p]? = some call ∧ call.Makes d d'
  have hstart : (processes pg calls d).Good (numbering calls) (!pg) guarantee (fun _ _ _ => True) := by
    refine System.good_of_idle hd fun p c hc => ?_
    rw [List.getElem?_map, Option.map_eq_some_iff] at hc
    obtain ⟨call, hcall, rfl⟩ := hc
    exact call.client_ok (List.mem_of_getElem? hcall) (fun _ _ h => ⟨call, hcall, h⟩) pg hd
  have hrespects (before : List Action) (a : Action) :
      ((processes pg calls d).run (!pg) before).Respects (numbering calls) (!pg) a :=
    System.respects_of_fact (fun _ _ => trivial) a
  have hall : AtEvery (fun before a => ((processes pg calls d).run (!pg) before).Respects (numbering calls) (!pg) a)
      actions := fun before a _ => hrespects before a
  obtain ⟨hgood, hextends⟩ := hstart.run hall
  have hstep (a : Action) : after (actions ++ [a]) = after actions ∨
      ∃ call, calls[a.actor]? = some call ∧ call.Makes (after actions) (after (actions ++ [a])) := by
    obtain ⟨-, -, hchange⟩ := hgood.step (hrespects actions a)
    rwa [← System.run_concat] at hchange
  refine ⟨hgood.inv, hextends, hstep, ?_⟩
  intro a set req hcall hrefuses
  rcases hstep a with heq | ⟨call, hcall', hmakes⟩
  · exact heq
  · cases hcall.symm.trans hcall'
    exact absurd hmakes (not_publishes_of_refuses hrefuses)

end Calls

def sampleStore : Database := ⟨fun _ => bs "org", fun i => if i = 1 then some ⟨1, bs "set", none, [], []⟩ else none, []⟩

def sampleCalls : List (Call Unit) :=
  [.createVersion 1 [] [] fun n => .ok ([.ofNat n], []),
    .publish 1 ⟨1, [], 0, [], [], fun _ _ => .ok ()⟩,
    .publish 1 ⟨1, [], 2, [], [], fun _ _ => .ok ()⟩]

theorem numbered_empty (org : Nat) (slug : Bytes) : Numbered ⟨org, slug, none, [], []⟩ :=
  ⟨rfl, rfl, rfl, by simp⟩

theorem sampleStore_numbered (set : Nat) (s : RuleSet) (hs : sampleStore.sets set = some s) : Numbered s := by
  have hsets : sampleStore.sets set = if set = 1 then some ⟨1, bs "set", none, [], []⟩ else none := rfl
  rw [hsets] at hs
  by_cases hi : set = 1
  · rw [if_pos hi] at hs
    cases hs
    exact numbered_empty _ _
  rw [if_neg hi] at hs
  cases hs

def sampleActions : List Action :=
  List.replicate 7 (.advance 0) ++ List.replicate 7 (.advance 1) ++ List.replicate 7 (.advance 2)

theorem sampleStore_run : ((processes true sampleCalls sampleStore).run false sampleActions).db.sets 1 =
    some ⟨1, bs "set", some 1, [⟨1, [1], [], [], []⟩], [⟨1, 1, [], [], []⟩, ⟨2, 1, [], [], []⟩]⟩ := by
  rfl

theorem numbering_kept_sample :
    Numbered ⟨1, bs "set", some 1, [⟨1, [1], [], [], []⟩], [⟨1, 1, [], [], []⟩, ⟨2, 1, [], [], []⟩]⟩ :=
  (numbering_kept true sampleCalls sampleStore_numbered sampleActions).1 1 _ sampleStore_run

end PiiShield.Rules
