import PiiShield.Panel.Integrity
import PiiShield.Rules.Server

/-! The tables behind the panel hold the database of rule sets, publications and keys: a statement on
them reads and writes of it what the statement there does, and so do the transactions that create a
version and publish one. -/

namespace PiiShield.Panel

open Transactions Restriction

def VersionRow.shown (v : VersionRow) : Rules.Version := ⟨v.revision, v.content, v.etag, v.author, v.comment⟩

def KeyRow.shown (k : KeyRow) : Rules.SigningKey := ⟨k.orgID, k.keyID, k.publicKey, k.revokedAt.isSome⟩

def PublicationRow.shown (p : PublicationRow) (revision : Nat) : Rules.Publication :=
  ⟨p.seq, revision, p.author, p.keyID, p.signature⟩

namespace Tables

variable (d : Tables)

def revisionOf (id : Nat) : Option Nat := (d.versions.find? (·.id == id)).map (·.revision)

/-- A row names a version by its id, the database by its revision. -/
def setRows (s : SetRow) : Rules.RuleSet where
  org := s.orgID
  slug := s.slug
  published := s.publishedVersionID.bind d.revisionOf
  versions := (d.versions.filter (·.setID == s.id)).map (·.shown)
  publications := (d.publications.filter (·.setID == s.id)).filterMap fun p => (d.revisionOf p.versionID).map p.shown

def ruleRows : Rules.Database where
  orgSlug id := ((d.orgs.find? (·.id == id)).map (·.slug)).getD []
  sets id := (d.sets.find? (·.id == id)).map d.setRows
  keys := d.keys.map (·.shown)

end Tables

variable {S : Services} {d d' : Tables} {setID : Nat} {s : SetRow} {v : VersionRow}

section InsertRow

variable {unique foreign : Tables → Bool} {ids : Tables → List Nat} {add : Nat → Tables → Tables}

theorem write_insertRow (h : foreign d = false) :
    Insert.write (Tables.insertRow S (fun d => Tables.violated (unique d) (foreign d)) ids add) d =
      if unique d then d else add (S.newID (ids d)) d := by
  rw [Insert.write, Tables.insertRow, h]
  cases unique d <;> rfl

theorem insertRow_cases (h : foreign d = false) {f : Insert}
    (hf : f = Tables.insertRow S (fun d => Tables.violated (unique d) (foreign d)) ids add) :
    (unique d = true ∧ f d = .error .unique) ∨ (unique d = false ∧ ∃ i, f d = .ok (i, f.write d)) := by
  rw [Insert.write, hf, Tables.insertRow, h]
  cases unique d with
  | true => exact .inl ⟨rfl, rfl⟩
  | false => exact .inr ⟨rfl, _, rfl⟩

end InsertRow

theorem insertKey_ruleRows {k : KeyRow} (horg : d.lacksOrg k.orgID = false) :
    ((Tables.insertKey S k).write d).ruleRows = d.ruleRows.addSigningKey k.shown := by
  have hhas : d.ruleRows.hasKey k.shown.org k.shown.keyID = d.hasKey k.orgID k.keyID := List.any_map
  rw [Tables.insertKey, write_insertRow horg, Rules.Database.addSigningKey, hhas]
  split
  · rfl
  exact congrArg (Rules.Database.mk _ _) List.map_append

theorem revokeKey_ruleRows {orgID : Nat} {id : Int} {keyID now : Bytes}
    (hid : ∀ k ∈ d.keys, Tables.isKey orgID id k = (k.orgID == orgID && k.keyID == keyID)) :
    (d.revokeKey orgID id now).ruleRows = d.ruleRows.revokeSigningKey orgID keyID := by
  refine congrArg (Rules.Database.mk _ _) ?_
  rw [Tables.revokeKey, Tables.ruleRows, List.map_map, List.map_map]
  refine List.map_congr_left fun k hk => ?_
  rw [Function.comp_apply, hid k hk]
  change _ = if (k.orgID == orgID && k.keyID == keyID) = true then { k.shown with revoked := true } else k.shown
  split
  · simp [KeyRow.shown]
  rfl

theorem ruleRows_eq_updateSet {f : Rules.RuleSet → Rules.RuleSet} (horgs : d'.orgs = d.orgs) (hkeys : d'.keys = d.keys)
    (hsets : ∀ id, (d'.sets.find? (·.id == id)).map d'.setRows =
      (d.sets.find? (·.id == id)).map fun s => if s.id = setID then f (d.setRows s) else d.setRows s) :
    d'.ruleRows = d.ruleRows.updateSet setID f := by
  rw [Tables.ruleRows, horgs, hkeys]
  refine congrArg (fun sets => Rules.Database.mk _ sets _) (funext fun id => (hsets id).trans ?_)
  cases hs : d.sets.find? (·.id == id) with
  | none => simp [Tables.ruleRows, hs]
  | some s =>
    obtain rfl : s.id = id := by simpa using List.find?_some hs
    simp only [Tables.ruleRows, hs, Option.map_some]
    split <;> rfl

theorem sets_ruleRows (hset : d.lacksSet setID = false) :
    ∃ s, s.id = setID ∧ d.ruleRows.sets setID = some (d.setRows s) := by
  cases hs : d.sets.find? (·.id == setID) with
  | none => grind [Tables.lacksSet]
  | some s => exact ⟨s, by simpa using List.find?_some hs, by simp [Tables.ruleRows, hs]⟩

theorem maxRevision_ruleRows (hset : d.lacksSet setID = false) :
    d.ruleRows.maxRevision setID + 1 = d.nextRevision setID := by
  obtain ⟨s, rfl, hs⟩ := sets_ruleRows hset
  simp only [Rules.Database.maxRevision, hs, Tables.setRows, Option.map_some, Option.getD_some, List.map_map]
  rfl

theorem lacks_publicationRow {p : PublicationRow} (hset : d.lacksSet p.setID = false) (hv : v ∈ d.versions)
    (hp : p.versionID = v.id) : (d.lacksSet p.setID || d.lacksVersion p.versionID) = false := by
  grind [Tables.lacksVersion]

theorem setRows_addPublication (p : PublicationRow) (s : SetRow) :
    (d.addPublication p).setRows s = { d.setRows s with
      publications := (d.setRows s).publications ++
        ([p].filter (·.setID == s.id)).filterMap fun q => (d.revisionOf q.versionID).map q.shown } := by
  rw [Tables.setRows, Tables.setRows, ← List.filterMap_append, ← List.filter_append]
  rfl

theorem isNone_sets_ruleRows : (d.ruleRows.sets setID).isNone = d.lacksSet setID := by
  rw [Tables.ruleRows, Option.isNone_map, Tables.lacksSet, ← Option.not_isSome, List.isSome_find?,
    List.not_any_eq_all_not]
  rfl

/-- The rows of the tables are those of the database, and both transactions committed or both failed. -/
structure Shown {E : Type} (r : Except StoreError Nat × Tables)
    (r' : Except (Rules.StoreError E) Nat × Rules.Database) : Prop where
  rows : r.2.ruleRows = r'.2
  isOk : r.1.isOk = r'.1.isOk

theorem eval_lockSet_ruleRows {E : Type} (pg : Bool) (found : Rules.StoreTx E) :
    (Rules.lockSet pg setID found).eval d.ruleRows d.ruleRows =
      if pg && d.lacksSet setID then (.error .notFound, d.ruleRows) else found.eval d.ruleRows d.ruleRows := by
  cases pg with
  | false => rfl
  | true =>
    rw [Rules.lockSet, if_pos rfl, Tx.eval, ← Option.not_isNone, isNone_sets_ruleRows, Bool.true_and]
    cases d.lacksSet setID <;> rfl

section Rows

variable (h : Linked d)

include h

theorem lacksSet_of_mem (hv : v ∈ d.versions) : d.lacksSet v.setID = false := by
  grind [Tables.lacksSet, h.versionSets v hv]

theorem version_ruleRows (setID : Nat) (revision : Int) :
    d.ruleRows.version setID revision = (d.version setID revision).map (·.shown) := by
  cases hset : d.lacksSet setID with
  | false =>
    obtain ⟨s, rfl, hs⟩ := sets_ruleRows hset
    simp only [Rules.Database.version, hs, Tables.version, Tables.setRows, Option.bind_some, List.find?_map,
      List.find?_filter]
    congr 2
    funext v
    simp [VersionRow.shown, Bool.beq_eq_decide_eq]
  | true =>
    -- Every version belongs to a set, so none is found under an id that no set has.
    have hnone : d.version setID revision = none := by
      by_contra hsome
      obtain ⟨v, hv⟩ := Option.ne_none_iff_exists'.mp hsome
      obtain ⟨hmem, rfl⟩ := mem_of_version hv
      rw [lacksSet_of_mem h hmem] at hset
      cases hset
    rw [hnone, Rules.Database.version, Option.isNone_iff_eq_none.mp (isNone_sets_ruleRows.trans hset)]
    rfl

theorem isSome_version_ruleRows (setID revision : Nat) :
    (d.ruleRows.version setID revision).isSome = d.hasRevision setID revision := by
  rw [version_ruleRows h, Option.isSome_map, Tables.version, List.isSome_find?]
  simp [Tables.hasRevision, Bool.beq_eq_decide_eq]

theorem revisionOf_of_mem (hv : v ∈ d.versions) : d.revisionOf v.id = some v.revision := by
  have hfind : d.versions.find? (·.id == v.id) = some v :=
    find?_eq_some_of_unique hv (beq_self_eq_true _) fun w hw hid =>
      List.inj_on_of_nodup_map h.versionIDs hw hv (beq_iff_eq.mp hid)
  rw [Tables.revisionOf, hfind]
  rfl

theorem seqs_setRows (s : SetRow) :
    (d.setRows s).publications.map (·.seq) = (d.publications.filter (·.setID == s.id)).map (·.seq) := by
  rw [Tables.setRows, List.map_filterMap, ← List.filterMap_eq_map]
  refine List.filterMap_congr fun p hp => ?_
  obtain ⟨v, hv, hid, -⟩ := h.publicationVersions p (List.mem_filter.mp hp).1
  rw [← hid, revisionOf_of_mem h hv]
  rfl

theorem maxSeq_ruleRows (hset : d.lacksSet setID = false) : d.ruleRows.maxSeq setID + 1 = d.nextSeq setID := by
  obtain ⟨s, rfl, hs⟩ := sets_ruleRows hset
  simp only [Rules.Database.maxSeq, hs, Option.map_some, Option.getD_some, seqs_setRows h, Tables.nextSeq]

theorem hasSeq_ruleRows (hset : d.lacksSet setID = false) (seq : Nat) :
    d.ruleRows.hasSeq setID seq = d.hasSeq setID seq := by
  obtain ⟨s, rfl, hs⟩ := sets_ruleRows hset
  have hseqs := congrArg (List.any · (· == seq)) (seqs_setRows h s)
  simp only [List.any_map, List.any_filter] at hseqs
  rw [Rules.Database.hasSeq, hs]
  exact hseqs

theorem setRows_addVersion (hs : s ∈ d.sets) (v : VersionRow) :
    (d.addVersion v).setRows s = { d.setRows s with
      versions := ((d.versions ++ [v]).filter (·.setID == s.id)).map (·.shown) } := by
  have hold (w : VersionRow) (hw : w ∈ d.versions) : (d.addVersion v).revisionOf w.id = d.revisionOf w.id := by
    have hfind : (d.versions.find? (·.id == w.id)).isSome = true :=
      List.find?_isSome.mpr ⟨w, hw, beq_self_eq_true _⟩
    rw [Tables.revisionOf, Tables.addVersion, List.find?_append, Option.or_of_isSome hfind]
    rfl
  rw [Tables.setRows, Tables.setRows]
  congr 1
  · refine Option.bind_congr fun i hi => ?_
    obtain ⟨w, hw, rfl, -⟩ := h.published s hs i hi
    exact hold w hw
  refine List.filterMap_congr fun p hp => ?_
  obtain ⟨w, hw, hid, -⟩ := h.publicationVersions p (List.mem_filter.mp hp).1
  rw [← hid, hold w hw]

theorem insertVersion_ruleRows (hset : d.lacksSet v.setID = false) :
    ((Tables.insertVersion S v).write d).ruleRows = d.ruleRows.insertVersion v.setID v.shown := by
  have hhas : (d.ruleRows.version v.setID v.shown.revision).isSome = d.hasRevision v.setID v.revision :=
    isSome_version_ruleRows h v.setID v.revision
  rw [Tables.insertVersion, write_insertRow hset, Rules.Database.insertVersion, hhas]
  split
  · rfl
  refine ruleRows_eq_updateSet rfl rfl fun id => Option.map_congr fun s hs => ?_
  rw [setRows_addVersion h (List.mem_of_find?_eq_some hs), List.filter_append, List.map_append]
  by_cases hid : s.id = v.setID
  · simp [hid, Tables.setRows, VersionRow.shown]
  · simp [hid, Ne.symm hid, Tables.setRows]

theorem setPublished_ruleRows (hv : v ∈ d.versions) :
    (d.setPublished setID v.id).ruleRows = d.ruleRows.setPublished setID v.revision := by
  refine ruleRows_eq_updateSet rfl rfl fun id => ?_
  have hrow : ((·.id == id) ∘ fun s : SetRow =>
      if s.id == setID then { s with publishedVersionID := some v.id } else s) = (·.id == id) := by grind
  rw [Tables.setPublished, List.find?_map, hrow, Option.map_map]
  refine Option.map_congr fun s _ => ?_
  rw [Function.comp_apply, ← revisionOf_of_mem h hv]
  by_cases hid : s.id = setID
  · rw [if_pos (beq_iff_eq.mpr hid), if_pos hid]
    rfl
  rw [if_neg (mt beq_iff_eq.mp hid), if_neg hid]
  rfl

theorem insertPublication_ruleRows {p : PublicationRow} (hset : d.lacksSet p.setID = false) (hv : v ∈ d.versions)
    (hp : p.versionID = v.id) :
    ((Tables.insertPublication S p).write d).ruleRows = d.ruleRows.insertPublication p.setID (p.shown v.revision) := by
  have hhas : d.ruleRows.hasSeq p.setID (p.shown v.revision).seq = d.hasSeq p.setID p.seq :=
    hasSeq_ruleRows h hset p.seq
  rw [Tables.insertPublication, write_insertRow (lacks_publicationRow hset hv hp),
    Rules.Database.insertPublication, hhas]
  split
  · rfl
  refine ruleRows_eq_updateSet rfl rfl fun id => Option.map_congr fun s _ => ?_
  have hrevision : d.revisionOf p.versionID = some v.revision := hp ▸ revisionOf_of_mem h hv
  rw [setRows_addPublication]
  by_cases hid : s.id = p.setID
  · simp [hid, hrevision, PublicationRow.shown]
  · simp [hid, Ne.symm hid]

theorem createVersionTx_ruleRows (pg : Bool) (setID : Nat) (req : VersionRequest) (t : Instant) :
    Shown ((createVersionTx S pg setID req t).eval d d)
      ((Rules.createVersionTx pg setID req.author req.comment req.canonical).eval d.ruleRows d.ruleRows) := by
  rw [eval_createVersionTx, Rules.createVersionTx, eval_lockSet_ruleRows, Tx.eval, id]
  cases hset : d.lacksSet setID with
  | true =>
    rw [isNone_sets_ruleRows, hset]
    cases pg <;> exact ⟨rfl, rfl⟩
  | false =>
    rw [isNone_sets_ruleRows, hset, Bool.and_false, if_neg (by simp), if_neg (by simp), if_neg (by simp), Tx.eval, id,
      maxRevision_ruleRows hset, Rules.insertVersionTx]
    cases req.canonical (d.nextRevision setID) with
    | error e => exact ⟨rfl, rfl⟩
    | ok file =>
      obtain ⟨content, etag⟩ := file
      let v := req.row setID (d.nextRevision setID) content etag t
      have hrows := insertVersion_ruleRows (S := S) (v := v) h hset
      have hsame := isSome_version_ruleRows h setID (d.nextRevision setID)
      dsimp only [Tx.eval]
      rcases insertRow_cases hset (f := Tables.insertVersion S v) rfl with ⟨htaken, hins⟩ | ⟨hfree, i, hins⟩
      · rw [hins, hsame.trans htaken]
        exact ⟨rfl, rfl⟩
      rw [hins, hsame.trans hfree]
      exact ⟨hrows, rfl⟩

theorem insertPublicationTx_ruleRows {E : Type} (hv : v ∈ d.versions) (req : PublishRequest) (seq : Nat) (t : Instant) :
    Shown ((insertPublicationTx S v.setID req v seq t).eval d d)
      ((.stmt (Rules.Database.setPublished v.setID v.revision) fun _ =>
        .stmt (Rules.Database.insertPublication v.setID
          ⟨seq, v.revision, req.author, req.keyID, req.signature⟩) fun d =>
        if d.hasSeq v.setID seq then .rollback (.error .stale) else .commit (.ok seq) : Rules.StoreTx E).eval
        d.ruleRows d.ruleRows) := by
  have hlinked := h.setPublished hv rfl
  have hset := lacksSet_of_mem hlinked hv
  let p := req.row v.setID seq v.id t
  have hrows := insertPublication_ruleRows (S := S) (p := p) hlinked hset hv rfl
  have hseq := hasSeq_ruleRows hlinked hset seq
  rw [setPublished_ruleRows h hv] at hrows hseq
  rw [eval_insertPublicationTx, Tx.eval, Tx.eval]
  rcases insertRow_cases (lacks_publicationRow (p := p) hset hv rfl) (f := Tables.insertPublication S p) rfl with
    ⟨htaken, hins⟩ | ⟨hfree, i, hins⟩
  · rw [hins, hseq.trans htaken]
    exact ⟨rfl, rfl⟩
  rw [hins, hseq.trans hfree]
  exact ⟨hrows, rfl⟩

theorem publishTx_ruleRows {E : Type} (pg : Bool) (setID : Nat) (req : PublishRequest) (t : Instant)
    {check : Nat → Rules.Version → Except E Unit}
    (hcheck : ∀ seq v, (req.check seq v).isOk = (check seq v.shown).isOk) :
    Shown ((publishTx S pg setID req t).eval d d)
      ((Rules.publishTx pg setID ⟨req.revision, req.author, req.seq, req.keyID, req.signature, check⟩).eval
        d.ruleRows d.ruleRows) := by
  rw [eval_publishTx, Rules.publishTx, eval_lockSet_ruleRows]
  split
  · exact ⟨rfl, rfl⟩
  rw [Tx.eval, id, version_ruleRows h]
  cases hv : d.version setID req.revision with
  | none => exact ⟨rfl, rfl⟩
  | some v =>
    obtain ⟨hmem, rfl⟩ := mem_of_version hv
    dsimp only [Option.map_some, Tx.eval, id]
    rw [maxSeq_ruleRows h (lacksSet_of_mem h hmem), Rules.insertPublicationTx]
    split
    · exact ⟨rfl, rfl⟩
    have hsame := hcheck (d.nextSeq v.setID) v
    dsimp only
    cases hc : req.check (d.nextSeq v.setID) v with
    | error e =>
      cases hc' : check (d.nextSeq v.setID) v.shown with
      | error e' => exact ⟨rfl, rfl⟩
      | ok _ =>
        rw [hc, hc'] at hsame
        cases hsame
    | ok _ =>
      cases hc' : check (d.nextSeq v.setID) v.shown with
      | error e' =>
        rw [hc, hc'] at hsame
        cases hsame
      | ok _ => exact insertPublicationTx_ruleRows h hmem req _ t

end Rows

end PiiShield.Panel
