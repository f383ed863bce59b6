import PiiShield.Agreement
import PiiShield.Panel.Writes

/-! Two databases side by side that agree on the rows of one organization and on the values
that are taken. A statement for the organization runs alike on both, and the rows of other
organizations stay as they were on each. -/

namespace PiiShield.Panel

open Transactions Restriction

variable {P : Tables → Prop} {i setID : Nat}

/-- The id of a row is a new one, and depends on which ids there are. -/
structure Services.Numbers (S : Services) : Prop where
  fresh : ∀ ids, S.newID ids ∉ ids
  same : ∀ ids ids', SameMembers ids ids' → S.newID ids = S.newID ids'

structure Known (d e : Tables) : Prop where
  userIDs : SameMembers (d.users.map (·.id)) (e.users.map (·.id))
  emails : SameMembers (d.users.map (·.email)) (e.users.map (·.email))
  loginIDs : SameMembers (d.logins.map (·.id)) (e.logins.map (·.id))
  loginHashes : SameMembers (d.logins.map (·.hash)) (e.logins.map (·.hash))
  setIDs : SameMembers (d.sets.map (·.id)) (e.sets.map (·.id))
  versionIDs : SameMembers (d.versions.map (·.id)) (e.versions.map (·.id))
  publicationIDs : SameMembers (d.publications.map (·.id)) (e.publications.map (·.id))
  tokenIDs : SameMembers (d.tokens.map (·.id)) (e.tokens.map (·.id))
  tokenHashes : SameMembers (d.tokens.map (·.hash)) (e.tokens.map (·.hash))
  keyIDs : SameMembers (d.keys.map (·.id)) (e.keys.map (·.id))
  eventIDs : SameMembers (d.events.map (·.id)) (e.events.map (·.id))

namespace Known

variable {d e : Tables} (h : Known d e)

include h

theorem addUser (u : UserRow) : Known (d.addUser u) (e.addUser u) :=
  { h with userIDs := h.userIDs.concat u, emails := h.emails.concat u }

theorem addLogin (l : LoginRow) : Known (d.addLogin l) (e.addLogin l) :=
  { h with loginIDs := h.loginIDs.concat l, loginHashes := h.loginHashes.concat l }

theorem addSet (s : SetRow) : Known (d.addSet s) (e.addSet s) := { h with setIDs := h.setIDs.concat s }

theorem addVersion (v : VersionRow) : Known (d.addVersion v) (e.addVersion v) :=
  { h with versionIDs := h.versionIDs.concat v }

theorem addPublication (p : PublicationRow) : Known (d.addPublication p) (e.addPublication p) :=
  { h with publicationIDs := h.publicationIDs.concat p }

theorem addToken (t : TokenRow) : Known (d.addToken t) (e.addToken t) :=
  { h with tokenIDs := h.tokenIDs.concat t, tokenHashes := h.tokenHashes.concat t }

theorem addKey (k : KeyRow) : Known (d.addKey k) (e.addKey k) := { h with keyIDs := h.keyIDs.concat k }

theorem addEvent (v : EventRow) : Known (d.addEvent v) (e.addEvent v) := { h with eventIDs := h.eventIDs.concat v }

theorem revokeToken (setID : Nat) (id : Int) (now : Bytes) :
    Known (d.revokeToken setID id now) (e.revokeToken setID id now) := by
  have hids (d : Tables) : (d.revokeToken setID id now).tokens.map (·.id) = d.tokens.map (·.id) := by
    rw [Tables.revokeToken, List.map_map]
    apply List.map_congr_left
    intro t _
    rw [Function.comp_apply]
    split <;> rfl
  have hhashes (d : Tables) : (d.revokeToken setID id now).tokens.map (·.hash) = d.tokens.map (·.hash) := by
    rw [Tables.revokeToken, List.map_map]
    apply List.map_congr_left
    intro t _
    rw [Function.comp_apply]
    split <;> rfl
  exact { h with
    tokenIDs := by rw [hids, hids]; exact h.tokenIDs
    tokenHashes := by rw [hhashes, hhashes]; exact h.tokenHashes }

theorem revokeKey (orgID : Nat) (id : Int) (now : Bytes) :
    Known (d.revokeKey orgID id now) (e.revokeKey orgID id now) := by
  have hids (d : Tables) : (d.revokeKey orgID id now).keys.map (·.id) = d.keys.map (·.id) := by
    rw [Tables.revokeKey, List.map_map]
    apply List.map_congr_left
    intro k _
    rw [Function.comp_apply]
    split <;> rfl
  exact { h with keyIDs := by rw [hids, hids]; exact h.keyIDs }

theorem setPublished (setID versionID : Nat) :
    Known (d.setPublished setID versionID) (e.setPublished setID versionID) := by
  have hids (d : Tables) : (d.setPublished setID versionID).sets.map (·.id) = d.sets.map (·.id) := by
    rw [Tables.setPublished, List.map_map]
    apply List.map_congr_left
    intro s _
    rw [Function.comp_apply]
    split <;> rfl
  exact { h with setIDs := by rw [hids, hids]; exact h.setIDs }

theorem dropSession (hash : Bytes) : Known (d.dropSession hash) (e.dropSession hash) := { h with }

end Known

structure Local (A : Nat) (P : Tables → Prop) (w : Tables → Tables) : Prop where
  linked : ∀ d, Linked d → P d → Linked (w d)
  rows : ∃ w' : Tables → Tables, ∀ d, Linked d → P d → ∀ mine,
    (w d).rowsOf A mine = if mine then w' (d.rowsOf A mine) else d.rowsOf A mine
  sets : ∀ d i, d.ownsSet A i = true → (w d).ownsSet A i = true
  users : ∀ d i, d.ownsUser A i = true → (w d).ownsUser A i = true
  sessions : ∀ d, ∀ s ∈ (w d).sessions, s ∈ d.sessions
  known : ∀ d e, Known d e → Known (w d) (w e)

section Writes

variable {A : Nat}

theorem local_addEvent {e : EventRow} (he : e.orgID = A) : Local A P (Tables.addEvent e) where
  linked _ h _ := h.addEvent e
  rows := ⟨_, fun _ _ _ mine => rowsOf_addEvent mine he⟩
  sets _ _ h := h
  users _ _ h := h
  sessions _ _ h := h
  known _ _ h := h.addEvent e

theorem local_addKey {k : KeyRow} (hk : k.orgID = A) : Local A P (Tables.addKey k) where
  linked _ h _ := h.addKey k
  rows := ⟨_, fun _ _ _ mine => rowsOf_addKey mine hk⟩
  sets _ _ h := h
  users _ _ h := h
  sessions _ _ h := h
  known _ _ h := h.addKey k

theorem local_revokeKey (id : Int) (now : Bytes) : Local A P (Tables.revokeKey A id now) where
  linked _ h _ := h.revokeKey A id now
  rows := ⟨_, fun _ _ _ mine => rowsOf_revokeKey mine id now⟩
  sets _ _ h := h
  users _ _ h := h
  sessions _ _ h := h
  known _ _ h := h.revokeKey A id now

theorem local_addLogin (l : LoginRow) : Local A P (Tables.addLogin l) where
  linked _ h _ := h.addLogin l
  rows := ⟨id, fun _ _ _ mine => by cases mine <;> rfl⟩
  sets _ _ h := h
  users _ _ h := h
  sessions _ _ h := h
  known _ _ h := h.addLogin l

theorem local_addUser {u : UserRow} (hi : u.id = i) (hu : u.orgID = A) :
    Local A (fun d => i ∉ d.users.map (·.id)) (Tables.addUser u) where
  linked _ h hid := h.addUser (hi ▸ hid)
  rows := ⟨_, fun _ h hid mine => rowsOf_addUser mine h (hi ▸ hid) hu⟩
  sets _ _ h := h
  users d j h := by
    obtain ⟨v, hv, heq⟩ := ownsUser_iff.mp h
    exact ownsUser_iff.mpr ⟨v, List.mem_append_left _ hv, heq⟩
  sessions _ _ h := h
  known _ _ h := h.addUser u

theorem local_addSet {s : SetRow} (hi : s.id = i) (hs : s.orgID = A) (hnone : s.publishedVersionID = none) :
    Local A (fun d => i ∉ d.sets.map (·.id)) (Tables.addSet s) where
  linked _ h hid := h.addSet (hi ▸ hid) hnone
  rows := ⟨_, fun _ h hid mine => rowsOf_addSet mine h (hi ▸ hid) hs⟩
  sets d j h := by
    obtain ⟨t, ht, heq⟩ := ownsSet_iff.mp h
    exact ownsSet_iff.mpr ⟨t, List.mem_append_left _ ht, heq⟩
  users _ _ h := h
  sessions _ _ h := h
  known _ _ h := h.addSet s

theorem mem_setIDs_of_ownsSet {d : Tables} (h : d.ownsSet A i = true) : i ∈ d.sets.map (·.id) := by
  obtain ⟨s, hs, rfl, -⟩ := ownsSet_iff.mp h
  exact List.mem_map_of_mem hs

theorem local_addVersion {v : VersionRow} (hi : v.id = i) (hset : v.setID = setID) :
    Local A (fun d => i ∉ d.versions.map (·.id) ∧ d.ownsSet A setID = true) (Tables.addVersion v) where
  linked _ h hP := h.addVersion (hi ▸ hP.1) (hset ▸ mem_setIDs_of_ownsSet hP.2)
  rows := ⟨_, fun _ _ hP mine => rowsOf_addVersion mine (hset ▸ hP.2)⟩
  sets _ _ h := h
  users _ _ h := h
  sessions _ _ h := h
  known _ _ h := h.addVersion v

theorem local_addToken {t : TokenRow} (hi : t.id = i) (hset : t.setID = setID) :
    Local A (fun d => i ∉ d.tokens.map (·.id) ∧ d.ownsSet A setID = true) (Tables.addToken t) where
  linked _ h hP := h.addToken (hi ▸ hP.1) (hset ▸ mem_setIDs_of_ownsSet hP.2)
  rows := ⟨_, fun _ h hP mine => rowsOf_addToken mine h (hi ▸ hP.1) (hset ▸ hP.2)⟩
  sets _ _ h := h
  users _ _ h := h
  sessions _ _ h := h
  known _ _ h := h.addToken t

theorem local_revokeToken (setID : Nat) (id : Int) (now : Bytes) :
    Local A (fun d => d.ownsSet A setID = true) (Tables.revokeToken setID id now) where
  linked _ h _ := h.revokeToken setID id now
  rows := ⟨_, fun _ _ hset mine => rowsOf_revokeToken mine hset id now⟩
  sets _ _ h := h
  users _ _ h := h
  sessions _ _ h := h
  known _ _ h := h.revokeToken setID id now

theorem local_addPublication {p : PublicationRow} {versionID : Nat} (hset : p.setID = setID)
    (hversion : p.versionID = versionID) :
    Local A (fun d => d.ownsSet A setID = true ∧ ∃ v ∈ d.versions, v.id = versionID ∧ v.setID = setID)
      (Tables.addPublication p) where
  linked _ h hP := h.addPublication (hset ▸ hversion ▸ hP.2)
  rows := ⟨_, fun _ _ hP mine => rowsOf_addPublication mine (hset ▸ hP.1)⟩
  sets _ _ h := h
  users _ _ h := h
  sessions _ _ h := h
  known _ _ h := h.addPublication p

theorem local_setPublished (setID versionID : Nat) :
    Local A (fun d => d.ownsSet A setID = true ∧ ∃ v ∈ d.versions, v.id = versionID ∧ v.setID = setID)
      (Tables.setPublished setID versionID) where
  linked d h hP := by
    obtain ⟨-, v, hv, rfl, hset⟩ := hP
    exact h.setPublished hv hset
  rows := ⟨_, fun _ h hP mine => rowsOf_setPublished mine h hP.1 versionID⟩
  sets d i h := by
    obtain ⟨s, hs, hid, hA⟩ := ownsSet_iff.mp h
    refine ownsSet_iff.mpr ⟨_, List.mem_map_of_mem hs, ?_, ?_⟩
    · split
      · exact hid
      exact hid
    split
    · exact hA
    exact hA
  users _ _ h := h
  sessions _ _ h := h
  known _ _ h := h.setPublished setID versionID

theorem local_dropSession (hash : Bytes) :
    Local A (fun d => ∀ s ∈ d.sessions, s.hash = hash → d.ownsUser A s.userID = true) (Tables.dropSession hash) where
  linked _ h _ := h.dropSession hash
  rows := ⟨_, fun _ _ hP mine => rowsOf_dropSession mine hP⟩
  sets _ _ h := h
  users _ _ h := h
  sessions _ _ h := (List.mem_filter.mp h).1
  known _ _ h := h.dropSession hash

end Writes

/-- A database during a request of an organization under the session with the hash: `start` is
the one it began with, and `own` are sets of the organization that were looked up. -/
structure Held (A : Nat) (hash : Bytes) (own : List Nat) (start d : Tables) : Prop where
  linked : Linked d
  others : d.otherRows A = start.otherRows A
  owned : ∀ i ∈ own, d.ownsSet A i = true
  session : ∀ s ∈ d.sessions, s.hash = hash → d.ownsUser A s.userID = true

structure Twin (A : Nat) (hash : Bytes) (start start' : Tables) (own : List Nat) (d e : Tables) : Prop where
  left : Held A hash own start d
  right : Held A hash own start' e
  rows : d.ownRows A = e.ownRows A
  known : Known d e

section Twins

variable {A : Nat} {hash : Bytes} {start start' : Tables} {own : List Nat} {d e : Tables}

theorem Held.write {w : Tables → Tables} (hw : Local A P w) (h : Held A hash own start d)
    (hd : P d) : Held A hash own start (w d) where
  linked := hw.linked d h.linked hd
  others := by
    obtain ⟨w', hrows⟩ := hw.rows
    exact (hrows d h.linked hd false).trans h.others
  owned i hi := hw.sets d i (h.owned i hi)
  session s hs hhash := hw.users d _ (h.session s (hw.sessions d s hs) hhash)

theorem Twin.write {w : Tables → Tables} (hw : Local A P w)
    (h : Twin A hash start start' own d e) (hd : P d) (he : P e) : Twin A hash start start' own (w d) (w e) where
  left := h.left.write hw hd
  right := h.right.write hw he
  rows := by
    obtain ⟨w', hrows⟩ := hw.rows
    have hl := hrows d h.left.linked hd true
    have hr := hrows e h.right.linked he true
    exact hl.trans ((congrArg w' h.rows).trans hr.symm)
  known := hw.known d e h.known

theorem Twin.read_eq {α : Type} {read : Tables → α} (h : Twin A hash start start' own d e)
    (hread : Reads A own read) : read d = read e := by
  rw [← hread d h.left.linked h.left.owned, ← hread e h.right.linked h.right.owned, h.rows]

theorem Twin.narrow {own' : List Nat} (h : Twin A hash start start' own d e) (hsub : ∀ i ∈ own', i ∈ own) :
    Twin A hash start start' own' d e :=
  { h with
    left := { h.left with owned := fun i hi => h.left.owned i (hsub i hi) }
    right := { h.right with owned := fun i hi => h.right.owned i (hsub i hi) } }

end Twins

end PiiShield.Panel
