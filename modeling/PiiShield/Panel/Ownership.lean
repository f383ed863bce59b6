import PiiShield.Panel.Reports
import PiiShield.Panel.Store
import PiiShield.Restriction

/-! The rows of an organization. A row belongs to it directly, or through its account, its rule
set or its token. What is read for an organization is read from its own rows. -/

namespace PiiShield.Panel

open Transactions Restriction

variable {d : Tables} {s : SetRow}

namespace Tables

def ownsUser (A : Nat) (d : Tables) (id : Nat) : Bool := d.users.any fun u => u.id == id && u.orgID == A

def ownsSet (A : Nat) (d : Tables) (id : Nat) : Bool := d.sets.any fun s => s.id == id && s.orgID == A

def ownsToken (A : Nat) (d : Tables) (id : Nat) : Bool := d.tokens.any fun t => t.id == id && d.ownsSet A t.setID

def rowsOf (A : Nat) (mine : Bool) (d : Tables) : Tables where
  orgs := d.orgs.filter fun o => (o.id == A) == mine
  users := d.users.filter fun u => (u.orgID == A) == mine
  logins := []
  sessions := d.sessions.filter fun s => d.ownsUser A s.userID == mine
  sets := d.sets.filter fun s => (s.orgID == A) == mine
  versions := d.versions.filter fun v => d.ownsSet A v.setID == mine
  publications := d.publications.filter fun p => d.ownsSet A p.setID == mine
  tokens := d.tokens.filter fun t => d.ownsSet A t.setID == mine
  keys := d.keys.filter fun k => (k.orgID == A) == mine
  events := d.events.filter fun e => (e.orgID == A) == mine
  reports := d.reports.filter fun r => d.ownsSet A r.setID == mine
  pulls := d.pulls.filter fun p => d.ownsToken A p.tokenID == mine

abbrev ownRows (A : Nat) (d : Tables) : Tables := d.rowsOf A true

abbrev otherRows (A : Nat) (d : Tables) : Tables := d.rowsOf A false

end Tables

/-- The keys of the schema, and what the statements keep beyond them: a set publishes a version
of its own, and so does a publication; a report came under a token of its set. -/
structure Linked (d : Tables) : Prop where
  orgSlugs : (d.orgs.map (·.slug)).Nodup
  userIDs : (d.users.map (·.id)).Nodup
  sessionHashes : (d.sessions.map (·.hash)).Nodup
  sessionUsers : ∀ s ∈ d.sessions, s.userID ∈ d.users.map (·.id)
  setIDs : (d.sets.map (·.id)).Nodup
  published : ∀ s ∈ d.sets, ∀ i, s.publishedVersionID = some i → ∃ v ∈ d.versions, v.id = i ∧ v.setID = s.id
  versionIDs : (d.versions.map (·.id)).Nodup
  versionSets : ∀ v ∈ d.versions, v.setID ∈ d.sets.map (·.id)
  publicationVersions : ∀ p ∈ d.publications, ∃ v ∈ d.versions, v.id = p.versionID ∧ v.setID = p.setID
  tokenIDs : (d.tokens.map (·.id)).Nodup
  tokenSets : ∀ t ∈ d.tokens, t.setID ∈ d.sets.map (·.id)
  reportTokens : ∀ r ∈ d.reports, ∃ t ∈ d.tokens, t.id = r.tokenID ∧ t.setID = r.setID
  pullTokens : ∀ p ∈ d.pulls, p.tokenID ∈ d.tokens.map (·.id)

theorem linked_empty : Linked .empty := by
  constructor <;> simp [Tables.empty]

section Links

variable {A : Nat} {d : Tables} {i : Nat}

theorem ownsSet_iff : d.ownsSet A i = true ↔ ∃ s ∈ d.sets, s.id = i ∧ s.orgID = A := by
  simp [Tables.ownsSet]

theorem ownsUser_iff : d.ownsUser A i = true ↔ ∃ u ∈ d.users, u.id = i ∧ u.orgID = A := by
  simp [Tables.ownsUser]

theorem ownsSet_of_mem (hs : s ∈ d.sets) (hA : s.orgID = A) : d.ownsSet A s.id = true :=
  ownsSet_iff.mpr ⟨s, hs, rfl, hA⟩

theorem Linked.orgID_eq (h : Linked d) (howns : d.ownsSet A i = true) (hs : s ∈ d.sets)
    (hi : s.id = i) : s.orgID = A := by
  obtain ⟨t, ht, hti, hA⟩ := ownsSet_iff.mp howns
  rw [eq_of_key h.setIDs hs ht (hi.trans hti.symm), hA]

theorem Linked.version_setID (h : Linked d) (hs : s ∈ d.sets)
    (hi : s.publishedVersionID = some i) {v : VersionRow} (hv : v ∈ d.versions) (hvi : v.id = i) :
    v.setID = s.id := by
  obtain ⟨w, hw, hwi, hset⟩ := h.published s hs i hi
  rw [eq_of_key h.versionIDs hv hw (hvi.trans hwi.symm), hset]

theorem Linked.publication_setID (h : Linked d) {p : PublicationRow} (hp : p ∈ d.publications) {v : VersionRow}
    (hv : v ∈ d.versions) (hvi : v.id = p.versionID) : v.setID = p.setID := by
  obtain ⟨w, hw, hwi, hset⟩ := h.publicationVersions p hp
  rw [eq_of_key h.versionIDs hv hw (hvi.trans hwi.symm), hset]

theorem Linked.report_setID (h : Linked d) {r : ReportRow} (hr : r ∈ d.reports) {t : TokenRow}
    (ht : t ∈ d.tokens) (hti : t.id = r.tokenID) : t.setID = r.setID := by
  obtain ⟨u, hu, hui, hset⟩ := h.reportTokens r hr
  rw [eq_of_key h.tokenIDs ht hu (hti.trans hui.symm), hset]

theorem Linked.publicationSets (h : Linked d) (p : PublicationRow) (hp : p ∈ d.publications) :
    p.setID ∈ d.sets.map (·.id) := by
  obtain ⟨v, hv, -, hset⟩ := h.publicationVersions p hp
  exact hset ▸ h.versionSets v hv

theorem Linked.reportSets (h : Linked d) (r : ReportRow) (hr : r ∈ d.reports) : r.setID ∈ d.sets.map (·.id) := by
  obtain ⟨t, ht, -, hset⟩ := h.reportTokens r hr
  exact hset ▸ h.tokenSets t ht

end Links

/-- A read that takes nothing but the rows of an organization, some of whose sets are given. -/
def Reads {α : Type} (A : Nat) (own : List Nat) (read : Tables → α) : Prop :=
  ∀ d : Tables, Linked d → (∀ i ∈ own, d.ownsSet A i = true) → read (d.ownRows A) = read d

section Reads

variable {A : Nat} {own : List Nat} {setID : Nat}

theorem Reads.map {α β : Type} {read : Tables → α} (h : Reads A own read) (f : α → β) :
    Reads A own fun d => f (read d) :=
  fun d hd howns => congrArg f (h d hd howns)

theorem ruleSet_ownRows (h : Linked d) (hs : s ∈ d.sets) (hA : s.orgID = A) :
    (d.ownRows A).ruleSet s = d.ruleSet s := by
  have howns := ownsSet_of_mem hs hA
  have hlatest : (d.ownRows A).versions.filter (·.setID == s.id) = d.versions.filter (·.setID == s.id) := by
    apply filter_restrict
    intro v _ hv
    rw [beq_iff_eq.mp hv, howns]
    rfl
  have hpublished : (s.publishedVersionID.bind fun id => (d.ownRows A).versions.find? (·.id == id)) =
      s.publishedVersionID.bind fun id => d.versions.find? (·.id == id) := by
    cases hi : s.publishedVersionID with
    | none => rfl
    | some i =>
      apply find?_restrict
      intro v hv hvi
      rw [h.version_setID hs hi hv (beq_iff_eq.mp hvi), howns]
      rfl
  simp [Tables.ruleSet, hlatest, hpublished]

theorem map_ruleSet_ownRows (h : Linked d) {q : SetRow → Bool} (hq : ∀ s ∈ d.sets, q s = true → s.orgID = A) :
    ((d.ownRows A).sets.find? q).map (d.ownRows A).ruleSet = (d.sets.find? q).map d.ruleSet := by
  have hfind : (d.ownRows A).sets.find? q = d.sets.find? q := by
    apply find?_restrict
    intro s hs hqs
    rw [hq s hs hqs, beq_self_eq_true]
    rfl
  rw [hfind]
  cases hs : d.sets.find? q with
  | none => rfl
  | some s =>
    grind [List.mem_of_find?_eq_some, ruleSet_ownRows]

theorem reads_setBySlug (slug : Bytes) : Reads A own (Tables.setBySlug A slug) := by
  intro d h _
  apply map_ruleSet_ownRows h
  intro s _ hs
  simp only [Bool.and_eq_true, beq_iff_eq] at hs
  exact hs.1

theorem reads_setByID (hset : setID ∈ own) : Reads A own (Tables.setByID setID) := by
  intro d h howns
  apply map_ruleSet_ownRows h
  intro s hs hi
  exact h.orgID_eq (howns setID hset) hs (beq_iff_eq.mp hi)

theorem reads_setsOf : Reads A own (Tables.setsOf A) := by
  intro d h _
  have hsets : (d.ownRows A).sets.filter (·.orgID == A) = d.sets.filter (·.orgID == A) := by
    apply filter_restrict
    intro s _ hs
    rw [hs]
    rfl
  simp_all [Tables.setsOf, ruleSet_ownRows]

theorem reads_usersOf : Reads A own (Tables.usersOf A) := by
  intro d _ _
  have husers : (d.ownRows A).users.filter (·.orgID == A) = d.users.filter (·.orgID == A) := by
    apply filter_restrict
    intro u _ hu
    rw [hu]
    rfl
  simp [Tables.usersOf, husers]

theorem reads_keysOf : Reads A own (Tables.keysOf A) := by
  intro d _ _
  have hkeys : (d.ownRows A).keys.filter (·.orgID == A) = d.keys.filter (·.orgID == A) := by
    apply filter_restrict
    intro k _ hk
    rw [hk]
    rfl
  simp [Tables.keysOf, hkeys]

theorem reads_activeKey (keyID : Bytes) : Reads A own (Tables.activeKey A keyID) := by
  intro d _ _
  apply find?_restrict
  intro k _ hk
  simp only [Bool.and_eq_true] at hk
  rw [hk.1.1]
  rfl

theorem reads_hasKeys : Reads A own (Tables.hasKeys A) := by
  intro d _ _
  have hcount : ((d.ownRows A).keys.countP fun k => k.orgID == A && k.revokedAt.isNone) =
      d.keys.countP fun k => k.orgID == A && k.revokedAt.isNone := by
    apply countP_restrict
    intro k _ hk
    simp only [Bool.and_eq_true] at hk
    rw [hk.1]
    rfl
  simp [Tables.hasKeys, hcount]

theorem reads_eventsOf (before : Int) (limit : Nat) : Reads A own (Tables.eventsOf A before limit) := by
  intro d _ _
  have hevents : ((d.ownRows A).events.filter fun e => e.orgID == A && decide ((e.id : Int) < before)) =
      d.events.filter fun e => e.orgID == A && decide ((e.id : Int) < before) := by
    apply filter_restrict
    intro e _ he
    simp only [Bool.and_eq_true] at he
    rw [he.1]
    rfl
  simp [Tables.eventsOf, hevents]

theorem versions_ownRows (howns : d.ownsSet A setID = true) :
    (d.ownRows A).versions.filter (·.setID == setID) = d.versions.filter (·.setID == setID) := by
  apply filter_restrict
  intro v _ hv
  rw [beq_iff_eq.mp hv, howns]
  rfl

theorem publications_ownRows (howns : d.ownsSet A setID = true) :
    (d.ownRows A).publications.filter (·.setID == setID) = d.publications.filter (·.setID == setID) := by
  apply filter_restrict
  intro p _ hp
  rw [beq_iff_eq.mp hp, howns]
  rfl

theorem reads_version (hset : setID ∈ own) (revision : Int) : Reads A own (Tables.version setID revision) := by
  intro d _ howns
  apply find?_restrict
  simp_all

theorem reads_versionsOf (hset : setID ∈ own) : Reads A own (Tables.versionsOf setID) := by
  intro d _ howns
  simp [Tables.versionsOf, versions_ownRows (howns setID hset)]

theorem reads_nextRevision (hset : setID ∈ own) : Reads A own (Tables.nextRevision setID) := by
  intro d _ howns
  simp [Tables.nextRevision, versions_ownRows (howns setID hset)]

theorem reads_nextSeq (hset : setID ∈ own) : Reads A own (Tables.nextSeq setID) := by
  intro d _ howns
  simp [Tables.nextSeq, publications_ownRows (howns setID hset)]

theorem reads_publicationsOf (hset : setID ∈ own) : Reads A own (Tables.publicationsOf setID) := by
  intro d h howns
  rw [Tables.publicationsOf, Tables.publicationsOf, publications_ownRows (howns setID hset)]
  apply List.filterMap_congr
  intro p hp
  obtain ⟨hmem, hpset⟩ := List.mem_filter.mp (List.mem_mergeSort.mp hp)
  have hfind : (d.ownRows A).versions.find? (·.id == p.versionID) = d.versions.find? (·.id == p.versionID) := by
    apply find?_restrict
    intro v hv hvi
    rw [h.publication_setID hmem hv (beq_iff_eq.mp hvi), beq_iff_eq.mp hpset, howns setID hset]
    rfl
  rw [hfind]

theorem reads_publishedVersion (hset : setID ∈ own) : Reads A own (Tables.publishedVersion setID) := by
  intro d h howns
  have hfind : (d.ownRows A).sets.find? (·.id == setID) = d.sets.find? (·.id == setID) := by
    apply find?_restrict
    intro s hs hi
    rw [h.orgID_eq (howns setID hset) hs (beq_iff_eq.mp hi), beq_self_eq_true]
    rfl
  rw [Tables.publishedVersion, Tables.publishedVersion, hfind]
  cases hs : d.sets.find? (·.id == setID) with
  | none => rfl
  | some s =>
    have hid : s.id = setID := by simpa using List.find?_some hs
    rw [Option.bind_some]
    cases hi : s.publishedVersionID with
    | none => rfl
    | some i =>
      apply find?_restrict
      intro v hv hvi
      rw [h.version_setID (List.mem_of_find?_eq_some hs) hi hv (beq_iff_eq.mp hvi), hid, howns setID hset]
      rfl

theorem reads_tokensOf (hset : setID ∈ own) : Reads A own (Tables.tokensOf setID) := by
  intro d _ howns
  have htokens : (d.ownRows A).tokens.filter (·.setID == setID) = d.tokens.filter (·.setID == setID) := by
    apply filter_restrict
    intro t _ ht
    rw [beq_iff_eq.mp ht, howns setID hset]
    rfl
  simp [Tables.tokensOf, htokens]

theorem reads_pullsOf (hset : setID ∈ own) (since : Bytes) : Reads A own (Tables.pullsOf setID since) := by
  intro d _ howns
  have htokens (i : Nat) : ((d.ownRows A).tokens.any fun t => t.id == i && t.setID == setID) =
      d.tokens.any fun t => t.id == i && t.setID == setID := by
    apply any_restrict
    intro t _ ht
    simp only [Bool.and_eq_true, beq_iff_eq] at ht
    rw [ht.2, howns setID hset]
    rfl
  have hpulls : ((d.ownRows A).pulls.filter fun p => decide (since ≤ p.day) &&
      d.tokens.any fun t => t.id == p.tokenID && t.setID == setID) =
        d.pulls.filter fun p => decide (since ≤ p.day) &&
          d.tokens.any fun t => t.id == p.tokenID && t.setID == setID := by
    apply filter_restrict
    intro p _ hp
    simp only [Bool.and_eq_true, List.any_eq_true, beq_iff_eq] at hp
    obtain ⟨t, ht, hti, htset⟩ := hp.2
    have hown : d.ownsToken A p.tokenID = true := by
      rw [Tables.ownsToken, List.any_eq_true]
      exact ⟨t, ht, by rw [hti, htset, howns setID hset, beq_self_eq_true, Bool.and_self]⟩
    rw [hown]
    rfl
  rw [Tables.pullsOf, Tables.pullsOf]
  simp only [htokens, hpulls]

theorem reads_reportsSince (hset : setID ∈ own) (since : Bytes) : Reads A own (Tables.reportsSince setID since) := by
  intro d h howns
  have hreports : ((d.ownRows A).reports.filter fun r => r.setID == setID && decide (since ≤ r.receivedAt)) =
      d.reports.filter fun r => r.setID == setID && decide (since ≤ r.receivedAt) := by
    apply filter_restrict
    intro r _ hr
    simp only [Bool.and_eq_true, beq_iff_eq] at hr
    rw [hr.1, howns setID hset]
    rfl
  rw [Tables.reportsSince, Tables.reportsSince, hreports]
  apply List.filterMap_congr
  intro r hr
  obtain ⟨hmem, hr⟩ := List.mem_filter.mp (List.mem_mergeSort.mp hr)
  simp only [Bool.and_eq_true, beq_iff_eq] at hr
  have hfind : (d.ownRows A).tokens.find? (·.id == r.tokenID) = d.tokens.find? (·.id == r.tokenID) := by
    apply find?_restrict
    intro t ht hti
    rw [h.report_setID hmem ht (beq_iff_eq.mp hti), hr.1, howns setID hset]
    rfl
  rw [hfind]

theorem reads_org : Reads A own fun d => d.orgs.find? (·.id == A) := by
  intro d _ _
  apply find?_restrict
  intro o _ ho
  rw [ho]
  rfl

theorem reads_lacksOrg : Reads A own (Tables.lacksOrg A) := by
  intro d _ _
  apply all_restrict
  simp_all

theorem reads_lacksSet (hset : setID ∈ own) : Reads A own (Tables.lacksSet setID) := by
  intro d h howns
  apply all_restrict
  intro s hs hi
  have hid : s.id = setID := by simpa using hi
  rw [h.orgID_eq (howns setID hset) hs hid, beq_self_eq_true]
  rfl

theorem reads_hasSlug (slug : Bytes) : Reads A own (Tables.hasSlug A slug) := by
  intro d _ _
  apply any_restrict
  intro s _ hs
  simp only [Bool.and_eq_true] at hs
  rw [hs.1]
  rfl

theorem reads_hasKey (keyID : Bytes) : Reads A own (Tables.hasKey A keyID) := by
  intro d _ _
  apply any_restrict
  intro k _ hk
  simp only [Bool.and_eq_true] at hk
  rw [hk.1]
  rfl

theorem reads_hasRevision (hset : setID ∈ own) (revision : Nat) : Reads A own (Tables.hasRevision setID revision) := by
  intro d _ howns
  apply any_restrict
  simp_all

theorem reads_hasSeq (hset : setID ∈ own) (seq : Nat) : Reads A own (Tables.hasSeq setID seq) := by
  intro d _ howns
  apply any_restrict
  simp_all

end Reads

end PiiShield.Panel
