import PiiShield.Panel.Ownership

/-! What an organization writes: each statement on rows of its own keeps the links between the
tables, leaves the rows of every other organization, and does to the organization's rows what
it does to all. -/

namespace PiiShield.Panel

open Transactions Restriction

variable {s : SetRow} {setID : Nat} {v : VersionRow}

namespace Tables

def addLogin (l : LoginRow) (d : Tables) : Tables := { d with logins := d.logins ++ [l] }

def dropSession (hash : Bytes) (d : Tables) : Tables := { d with sessions := d.sessions.filter (·.hash != hash) }

end Tables

namespace Linked

variable {d : Tables} (h : Linked d)

include h

theorem addUser {u : UserRow} (hu : u.id ∉ d.users.map (·.id)) : Linked (d.addUser u) :=
  { h with
    userIDs := nodup_concat h.userIDs hu
    sessionUsers := fun s hs => by
      rw [Tables.addUser, List.map_append]
      exact List.mem_append_left _ (h.sessionUsers s hs) }

theorem addLogin (l : LoginRow) : Linked (d.addLogin l) := { h with }

theorem addKey (k : KeyRow) : Linked (d.addKey k) := { h with }

theorem addEvent (e : EventRow) : Linked (d.addEvent e) := { h with }

theorem addSet (hs : s.id ∉ d.sets.map (·.id)) (hnone : s.publishedVersionID = none) : Linked (d.addSet s) :=
  { h with
    setIDs := nodup_concat h.setIDs hs
    published := fun t ht i hi => by
      rcases List.mem_append.mp ht with ht | ht
      · exact h.published t ht i hi
      rw [List.mem_singleton.mp ht, hnone] at hi
      cases hi
    versionSets := fun v hv => by
      rw [Tables.addSet, List.map_append]
      exact List.mem_append_left _ (h.versionSets v hv)
    tokenSets := fun t ht => by
      rw [Tables.addSet, List.map_append]
      exact List.mem_append_left _ (h.tokenSets t ht) }

theorem addVersion (hv : v.id ∉ d.versions.map (·.id)) (hset : v.setID ∈ d.sets.map (·.id)) :
    Linked (d.addVersion v) :=
  { h with
    published := fun s hs i hi => by
      obtain ⟨w, hw, heq⟩ := h.published s hs i hi
      exact ⟨w, List.mem_append_left _ hw, heq⟩
    versionIDs := nodup_concat h.versionIDs hv
    versionSets := fun w hw => by
      rcases List.mem_append.mp hw with hw | hw
      · exact h.versionSets w hw
      rw [List.mem_singleton.mp hw]
      exact hset
    publicationVersions := fun p hp => by
      obtain ⟨w, hw, heq⟩ := h.publicationVersions p hp
      exact ⟨w, List.mem_append_left _ hw, heq⟩ }

theorem addPublication {p : PublicationRow} (hv : ∃ v ∈ d.versions, v.id = p.versionID ∧ v.setID = p.setID) :
    Linked (d.addPublication p) :=
  { h with
    publicationVersions := fun q hq => by
      rcases List.mem_append.mp hq with hq | hq
      · exact h.publicationVersions q hq
      rw [List.mem_singleton.mp hq]
      exact hv }

theorem addToken {t : TokenRow} (ht : t.id ∉ d.tokens.map (·.id)) (hset : t.setID ∈ d.sets.map (·.id)) :
    Linked (d.addToken t) :=
  { h with
    tokenIDs := nodup_concat h.tokenIDs ht
    tokenSets := fun u hu => by
      rcases List.mem_append.mp hu with hu | hu
      · exact h.tokenSets u hu
      rw [List.mem_singleton.mp hu]
      exact hset
    reportTokens := fun r hr => by
      obtain ⟨u, hu, heq⟩ := h.reportTokens r hr
      exact ⟨u, List.mem_append_left _ hu, heq⟩
    pullTokens := fun p hp => by
      rw [Tables.addToken, List.map_append]
      exact List.mem_append_left _ (h.pullTokens p hp) }

theorem mapTokens {f : TokenRow → TokenRow} (hid : ∀ t, (f t).id = t.id) (hset : ∀ t, (f t).setID = t.setID) :
    Linked { d with tokens := d.tokens.map f } := by
  have hids : (d.tokens.map f).map (·.id) = d.tokens.map (·.id) := by
    rw [List.map_map]
    exact List.map_congr_left fun t _ => hid t
  exact { h with
    tokenIDs := hids ▸ h.tokenIDs
    tokenSets := fun t ht => by
      obtain ⟨u, hu, rfl⟩ := List.mem_map.mp ht
      rw [hset]
      exact h.tokenSets u hu
    reportTokens := fun r hr => by
      obtain ⟨u, hu, hui, hus⟩ := h.reportTokens r hr
      exact ⟨f u, List.mem_map_of_mem hu, (hid u).trans hui, (hset u).trans hus⟩
    pullTokens := fun p hp => by
      rw [hids]
      exact h.pullTokens p hp }

theorem revokeToken (setID : Nat) (id : Int) (now : Bytes) : Linked (d.revokeToken setID id now) := by
  apply h.mapTokens
  · intro t
    split <;> rfl
  intro t
  split <;> rfl

theorem revokeKey (orgID : Nat) (id : Int) (now : Bytes) : Linked (d.revokeKey orgID id now) := { h with }

theorem setPublished (hv : v ∈ d.versions) (hset : v.setID = setID) : Linked (d.setPublished setID v.id) := by
  have hids : (d.setPublished setID v.id).sets.map (·.id) = d.sets.map (·.id) := by
    rw [Tables.setPublished, List.map_map]
    apply List.map_congr_left
    intro s _
    rw [Function.comp_apply]
    split <;> rfl
  exact { h with
    setIDs := hids ▸ h.setIDs
    published := fun s hs i hi => by
      obtain ⟨t, ht, rfl⟩ := List.mem_map.mp hs
      by_cases hid : (t.id == setID) = true
      · rw [if_pos hid] at hi ⊢
        cases hi
        exact ⟨v, hv, rfl, hset.trans (beq_iff_eq.mp hid).symm⟩
      rw [if_neg hid] at hi ⊢
      exact h.published t ht i hi
    versionSets := fun w hw => hids ▸ h.versionSets w hw
    tokenSets := fun t ht => hids ▸ h.tokenSets t ht }

theorem filterSessions (q : SessionRow → Bool) : Linked { d with sessions := d.sessions.filter q } :=
  { h with
    sessionHashes := h.sessionHashes.sublist (List.filter_sublist.map _)
    sessionUsers := fun s hs => h.sessionUsers s (List.mem_filter.mp hs).1 }

theorem dropSession (hash : Bytes) : Linked (d.dropSession hash) := h.filterSessions _

end Linked

section Rows

variable {A : Nat} {d : Tables} (mine : Bool)

theorem rowsOf_addEvent {e : EventRow} (he : e.orgID = A) :
    (d.addEvent e).rowsOf A mine = if mine then (d.rowsOf A mine).addEvent e else d.rowsOf A mine := by
  change { d.rowsOf A mine with events := (d.events ++ [e]).filter fun e => (e.orgID == A) == mine } = _
  rw [filter_concat (fun e => e.orgID == A) d.events e (beq_iff_eq.mpr he)]
  cases mine <;> rfl

theorem rowsOf_addKey {k : KeyRow} (hk : k.orgID = A) :
    (d.addKey k).rowsOf A mine = if mine then (d.rowsOf A mine).addKey k else d.rowsOf A mine := by
  change { d.rowsOf A mine with keys := (d.keys ++ [k]).filter fun k => (k.orgID == A) == mine } = _
  rw [filter_concat (fun k => k.orgID == A) d.keys k (beq_iff_eq.mpr hk)]
  cases mine <;> rfl

theorem rowsOf_addVersion (hv : d.ownsSet A v.setID = true) :
    (d.addVersion v).rowsOf A mine = if mine then (d.rowsOf A mine).addVersion v else d.rowsOf A mine := by
  change { d.rowsOf A mine with versions := (d.versions ++ [v]).filter fun v => d.ownsSet A v.setID == mine } = _
  rw [filter_concat (fun v => d.ownsSet A v.setID) d.versions v hv]
  cases mine <;> rfl

theorem rowsOf_addPublication {p : PublicationRow} (hp : d.ownsSet A p.setID = true) :
    (d.addPublication p).rowsOf A mine = if mine then (d.rowsOf A mine).addPublication p else d.rowsOf A mine := by
  change { d.rowsOf A mine with
    publications := (d.publications ++ [p]).filter fun p => d.ownsSet A p.setID == mine } = _
  rw [filter_concat (fun p => d.ownsSet A p.setID) d.publications p hp]
  cases mine <;> rfl

theorem rowsOf_addToken (h : Linked d) {t : TokenRow} (hid : t.id ∉ d.tokens.map (·.id))
    (ht : d.ownsSet A t.setID = true) :
    (d.addToken t).rowsOf A mine = if mine then (d.rowsOf A mine).addToken t else d.rowsOf A mine := by
  have hpulls : (d.pulls.filter fun p => (d.addToken t).ownsToken A p.tokenID == mine) =
      d.pulls.filter fun p => d.ownsToken A p.tokenID == mine := by
    apply List.filter_congr
    intro p hp
    have hne : (t.id == p.tokenID) = false := beq_eq_false_iff_ne.mpr fun heq => hid (heq ▸ h.pullTokens p hp)
    have howns : (d.addToken t).ownsToken A p.tokenID = d.ownsToken A p.tokenID :=
      any_concat (by rw [hne, Bool.false_and])
    rw [howns]
  change { d.rowsOf A mine with
    tokens := (d.tokens ++ [t]).filter fun t => d.ownsSet A t.setID == mine
    pulls := d.pulls.filter fun p => (d.addToken t).ownsToken A p.tokenID == mine } = _
  rw [hpulls, filter_concat (fun t => d.ownsSet A t.setID) d.tokens t ht]
  cases mine <;> rfl

theorem rowsOf_addUser (h : Linked d) {u : UserRow} (hid : u.id ∉ d.users.map (·.id)) (hu : u.orgID = A) :
    (d.addUser u).rowsOf A mine = if mine then (d.rowsOf A mine).addUser u else d.rowsOf A mine := by
  have hsessions : (d.sessions.filter fun s => (d.addUser u).ownsUser A s.userID == mine) =
      d.sessions.filter fun s => d.ownsUser A s.userID == mine := by
    apply List.filter_congr
    intro s hs
    have hne : (u.id == s.userID) = false := beq_eq_false_iff_ne.mpr fun heq => hid (heq ▸ h.sessionUsers s hs)
    have howns : (d.addUser u).ownsUser A s.userID = d.ownsUser A s.userID :=
      any_concat (by rw [hne, Bool.false_and])
    rw [howns]
  change { d.rowsOf A mine with
    users := (d.users ++ [u]).filter fun u => (u.orgID == A) == mine
    sessions := d.sessions.filter fun s => (d.addUser u).ownsUser A s.userID == mine } = _
  rw [hsessions, filter_concat (fun u => u.orgID == A) d.users u (beq_iff_eq.mpr hu)]
  cases mine <;> rfl

theorem ownsSet_addSet {i : Nat} (hi : i ∈ d.sets.map (·.id)) (hid : s.id ∉ d.sets.map (·.id)) :
    (d.addSet s).ownsSet A i = d.ownsSet A i := by
  have hne : (s.id == i) = false := beq_eq_false_iff_ne.mpr fun heq => hid (heq ▸ hi)
  exact any_concat (by rw [hne, Bool.false_and])

theorem rowsOf_addSet (h : Linked d) (hid : s.id ∉ d.sets.map (·.id)) (hs : s.orgID = A) :
    (d.addSet s).rowsOf A mine = if mine then (d.rowsOf A mine).addSet s else d.rowsOf A mine := by
  have hversions : (d.versions.filter fun v => (d.addSet s).ownsSet A v.setID == mine) =
      d.versions.filter fun v => d.ownsSet A v.setID == mine :=
    List.filter_congr fun v hv => by rw [ownsSet_addSet (h.versionSets v hv) hid]
  have hpublications : (d.publications.filter fun p => (d.addSet s).ownsSet A p.setID == mine) =
      d.publications.filter fun p => d.ownsSet A p.setID == mine :=
    List.filter_congr fun p hp => by rw [ownsSet_addSet (h.publicationSets p hp) hid]
  have htokens : (d.tokens.filter fun t => (d.addSet s).ownsSet A t.setID == mine) =
      d.tokens.filter fun t => d.ownsSet A t.setID == mine :=
    List.filter_congr fun t ht => by rw [ownsSet_addSet (h.tokenSets t ht) hid]
  have hreports : (d.reports.filter fun r => (d.addSet s).ownsSet A r.setID == mine) =
      d.reports.filter fun r => d.ownsSet A r.setID == mine :=
    List.filter_congr fun r hr => by rw [ownsSet_addSet (h.reportSets r hr) hid]
  have hpulls : (d.pulls.filter fun p => (d.addSet s).ownsToken A p.tokenID == mine) =
      d.pulls.filter fun p => d.ownsToken A p.tokenID == mine := by
    have howns (i : Nat) : (d.addSet s).ownsToken A i = d.ownsToken A i := by
      rw [Tables.ownsToken, Tables.ownsToken]
      apply any_congr
      intro t ht
      rw [ownsSet_addSet (h.tokenSets t ht) hid]
    simp only [howns]
  change { d.rowsOf A mine with
    sets := (d.sets ++ [s]).filter fun s => (s.orgID == A) == mine
    versions := d.versions.filter fun v => (d.addSet s).ownsSet A v.setID == mine
    publications := d.publications.filter fun p => (d.addSet s).ownsSet A p.setID == mine
    tokens := d.tokens.filter fun t => (d.addSet s).ownsSet A t.setID == mine
    reports := d.reports.filter fun r => (d.addSet s).ownsSet A r.setID == mine
    pulls := d.pulls.filter fun p => (d.addSet s).ownsToken A p.tokenID == mine } = _
  rw [hversions, hpublications, htokens, hreports, hpulls,
    filter_concat (fun s => s.orgID == A) d.sets s (beq_iff_eq.mpr hs)]
  cases mine <;> rfl

theorem rowsOf_revokeToken (hset : d.ownsSet A setID = true) (id : Int) (now : Bytes) :
    (d.revokeToken setID id now).rowsOf A mine =
      if mine then (d.rowsOf A mine).revokeToken setID id now else d.rowsOf A mine := by
  let f (t : TokenRow) : TokenRow :=
    if Tables.isToken setID id t then { t with revokedAt := t.revokedAt.or (some now) } else t
  have hid (t : TokenRow) : (f t).id = t.id := by
    simp only [f]
    split <;> rfl
  have hsetID (t : TokenRow) : (f t).setID = t.setID := by
    simp only [f]
    split <;> rfl
  have howns (i : Nat) : (d.revokeToken setID id now).ownsToken A i = d.ownsToken A i := by
    change (d.tokens.map f).any _ = d.tokens.any _
    rw [List.any_map]
    apply any_congr
    intro t _
    rw [Function.comp_apply, hid, hsetID]
    rfl
  have hpulls : (d.pulls.filter fun p => (d.revokeToken setID id now).ownsToken A p.tokenID == mine) =
      d.pulls.filter fun p => d.ownsToken A p.tokenID == mine := by
    simp only [howns]
  change { d.rowsOf A mine with
    tokens := (d.tokens.map f).filter fun t => d.ownsSet A t.setID == mine
    pulls := d.pulls.filter fun p => (d.revokeToken setID id now).ownsToken A p.tokenID == mine } = _
  rw [hpulls]
  cases mine with
  | true =>
    rw [filter_map_comm fun t _ => by rw [hsetID]]
    rfl
  | false =>
    rw [filter_map_eq_self fun t _ => by rw [hsetID]]
    · rfl
    intro t _ ht
    simp only [f]
    split
    · simp_all [Tables.isToken, Bool.and_eq_true, beq_iff_eq]
    rfl

theorem rowsOf_revokeKey (id : Int) (now : Bytes) :
    (d.revokeKey A id now).rowsOf A mine = if mine then (d.rowsOf A mine).revokeKey A id now else d.rowsOf A mine := by
  let f (k : KeyRow) : KeyRow :=
    if Tables.isKey A id k then { k with revokedAt := k.revokedAt.or (some now) } else k
  have horg (k : KeyRow) : (f k).orgID = k.orgID := by
    simp only [f]
    split <;> rfl
  change { d.rowsOf A mine with keys := (d.keys.map f).filter fun k => (k.orgID == A) == mine } = _
  cases mine with
  | true =>
    rw [filter_map_comm fun k _ => by rw [horg]]
    rfl
  | false =>
    rw [filter_map_eq_self fun k _ => by rw [horg]]
    · rfl
    intro k _ hk
    simp only [f]
    simp_all [Tables.isKey]

theorem rowsOf_setPublished (h : Linked d) (hset : d.ownsSet A setID = true) (versionID : Nat) :
    (d.setPublished setID versionID).rowsOf A mine =
      if mine then (d.rowsOf A mine).setPublished setID versionID else d.rowsOf A mine := by
  let f (s : SetRow) : SetRow := if s.id == setID then { s with publishedVersionID := some versionID } else s
  have hid (s : SetRow) : (f s).id = s.id := by
    simp only [f]
    split <;> rfl
  have horg (s : SetRow) : (f s).orgID = s.orgID := by
    simp only [f]
    split <;> rfl
  have howns : (d.setPublished setID versionID).ownsSet A = d.ownsSet A := by
    funext i
    change (d.sets.map f).any _ = d.sets.any _
    rw [List.any_map]
    apply any_congr
    intro s _
    simp [hid, horg]
  have htokens : (d.setPublished setID versionID).ownsToken A = d.ownsToken A := by
    funext i
    rw [Tables.ownsToken, Tables.ownsToken, howns]
    rfl
  rw [Tables.rowsOf, howns, htokens]
  change { d.rowsOf A mine with sets := (d.sets.map f).filter fun s => (s.orgID == A) == mine } = _
  cases mine with
  | true =>
    rw [filter_map_comm fun s _ => by rw [horg]]
    rfl
  | false =>
    rw [filter_map_eq_self fun s _ => by rw [horg]]
    · rfl
    intro s hs hA
    simp only [f]
    split
    · next hrow =>
      rw [h.orgID_eq hset hs (beq_iff_eq.mp hrow), beq_self_eq_true] at hA
      cases hA
    rfl

theorem rowsOf_dropSession {hash : Bytes} (hown : ∀ s ∈ d.sessions, s.hash = hash → d.ownsUser A s.userID = true) :
    (d.dropSession hash).rowsOf A mine = if mine then (d.rowsOf A mine).dropSession hash else d.rowsOf A mine := by
  change { d.rowsOf A mine with
    sessions := (d.sessions.filter fun s : SessionRow => s.hash != hash).filter fun s =>
      d.ownsUser A s.userID == mine } = _
  cases mine with
  | true =>
    rw [List.filter_comm]
    rfl
  | false =>
    rw [filter_restrict]
    · rfl
    grind

end Rows

end PiiShield.Panel
