import Mathlib.Data.Finset.Lattice.Fold
import Mathlib.Order.Lattice.Nat
import PiiShield.Panel.Handlers
import PiiShield.Panel.StoreRuns

/-! A session sees and changes the rows of its own organization only. Every handler, run under
a session on two databases that agree on the organization, gives one answer. -/

namespace PiiShield.Panel

open Transactions Restriction

variable {d : Tables} {s : RuleSet}

/-- The organization of a path as a session of `A` sees it. -/
def Tables.visibleOrg (A : Nat) (slug : Bytes) (d : Tables) : Option OrgRow :=
  (d.orgs.find? (·.slug == slug)).filter (·.id == A)

theorem visibleOrg_eq_some_iff {A : Nat} {slug : Bytes} (h : (d.orgs.map (·.slug)).Nodup) {o : OrgRow} :
    d.visibleOrg A slug = some o ↔ o ∈ d.orgs ∧ o.slug = slug ∧ o.id = A := by
  rw [Tables.visibleOrg, Option.filter_eq_some_iff, beq_iff_eq]
  constructor
  · grind
  rintro ⟨hmem, hslug, hA⟩
  refine ⟨find?_eq_some_of_unique hmem (by rw [hslug, beq_self_eq_true]) fun y hy hyslug => ?_, hA⟩
  exact eq_of_key h hy hmem ((beq_iff_eq.mp hyslug).trans hslug.symm)

theorem reads_visibleOrg {A : Nat} {own : List Nat} (slug : Bytes) : Reads A own (Tables.visibleOrg A slug) := by
  intro d h _
  have hown : ((d.ownRows A).orgs.map (·.slug)).Nodup := h.orgSlugs.sublist (List.filter_sublist.map _)
  apply Option.ext
  intro o
  have hmem : o ∈ (d.ownRows A).orgs ↔ o ∈ d.orgs ∧ o.id = A := by
    simp [Tables.rowsOf]
  rw [visibleOrg_eq_some_iff hown, visibleOrg_eq_some_iff h.orgSlugs, hmem]
  tauto

section Handlers

variable {Conf : Type} {cfg : Settings} {K : Packages Conf} {r : Request} {user : UserRow} {org : OrgRow}
  {session : Bytes} {A : Nat} {hash : Bytes} {start start' : Tables} {own : List Nat}

theorem isolated_respond (status : Nat) (body : Payload Conf) :
    Isolated A hash start start' own (respond status body) := .pure _

theorem isolated_fail (status : Nat) (message : Bytes) :
    Isolated A hash start start' own (fail status message : Sql (Answer Conf)) := .pure _

theorem isolated_storeError (e : StoreError) :
    Isolated A hash start start' own (storeError e : Sql (Answer Conf)) := by
  cases e <;> exact .pure _

theorem isolated_decode {α : Type} (body : Body α) {next : α → Sql (Answer Conf)}
    (h : ∀ a, Isolated A hash start start' own (next a)) : Isolated A hash start start' own (decode body next) := by
  cases body with
  | ok a => exact h a
  | error problem => cases problem <;> exact .pure _

theorem isolated_withNumber (text message : Bytes) {next : Int → Sql (Answer Conf)}
    (h : ∀ n, Isolated A hash start start' own (next n)) :
    Isolated A hash start start' own (withNumber text message next) := by
  rw [withNumber]
  cases atoi text with
  | none => exact .pure _
  | some n => exact h n

theorem isolated_ite {α : Type} {p : Prop} [Decidable p] {c c' : Sql α}
    (hc : Isolated A hash start start' own c) (hc' : Isolated A hash start start' own c') :
    Isolated A hash start start' own (if p then c else c') := by
  by_cases h : p
  · rw [if_pos h]
    exact hc
  rw [if_neg h]
  exact hc'

theorem isolated_withCount (text : Bytes) (default bound : Nat) (message : Bytes) {next : Nat → Sql (Answer Conf)}
    (h : ∀ n, Isolated A hash start start' own (next n)) :
    Isolated A hash start start' own (withCount text default bound message next) :=
  isolated_ite (h default) (isolated_withNumber _ _ fun n => isolated_ite (isolated_fail _ _) (h n.toNat))

theorem eval_withOrg (horg : org.id = A) (slug : Bytes) (next : OrgRow → Sql (Answer Conf)) (d : Tables) :
    (withOrg (.member user org session) slug next).eval d =
      match d.visibleOrg A slug with
      | some o => (next o).eval d
      | none => (⟨404, .error (bs "not found")⟩, d) := by
  rw [withOrg, Client.eval_bind, getOrg, Client.eval_query, Tables.visibleOrg]
  cases d.orgs.find? (·.slug == slug) with
  | none => rfl
  | some o =>
    by_cases hA : o.id = A
    · simp [found, Principal.org, horg, hA, Option.filter]
    simp [found, Principal.org, horg, hA, Ne.symm hA, Option.filter, fail, respond]

theorem isolated_withOrg (horg : org.id = A) (slug : Bytes) {next : OrgRow → Sql (Answer Conf)}
    (h : ∀ o, o.id = A → Isolated A hash start start' own (next o)) :
    Isolated A hash start start' own (withOrg (.member user org session) slug next) := by
  intro d e hde
  have hsame := hde.read_eq (reads_visibleOrg slug)
  rw [eval_withOrg horg, eval_withOrg horg, hsame]
  cases ho : e.visibleOrg A slug with
  | none => exact ⟨rfl, hde⟩
  | some o => exact h o ((visibleOrg_eq_some_iff hde.right.linked.orgSlugs).mp ho).2.2 d e hde

theorem of_setBySlug {slug : Bytes} {set : RuleSet} (h : found (d.setBySlug A slug) = .ok set) :
    set.orgID = A ∧ d.ownsSet A set.id = true := by
  rw [Tables.setBySlug] at h
  cases hs : d.sets.find? fun s => s.orgID == A && s.slug == slug with
  | none =>
    rw [hs] at h
    cases h
  | some s =>
    have horg := List.find?_some hs
    rw [Bool.and_eq_true, beq_iff_eq] at horg
    rw [hs] at h
    cases h
    exact ⟨horg.1, ownsSet_of_mem (List.mem_of_find?_eq_some hs) horg.1⟩

theorem agrees_getSet (slug : Bytes) : (getSet A slug).Agrees (Twin A hash start start' own) fun r d e =>
      Twin A hash start start' own d e ∧ ∀ set, r = .ok set →
        set.orgID = A ∧ Twin A hash start start' (set.id :: own) d e := by
  intro d e h
  have hsame := h.read_eq (reads_setBySlug slug)
  rw [getSet, Client.eval_query, Client.eval_query, hsame]
  refine ⟨rfl, h, fun set hset => ?_⟩
  have he := of_setBySlug hset
  have hd : d.ownsSet A set.id = true := (of_setBySlug (hsame ▸ hset)).2
  refine ⟨he.1, { h with left := { h.left with owned := ?_ }, right := { h.right with owned := ?_ } }⟩
  · exact fun i hi => (List.mem_cons.mp hi).elim (fun h => h ▸ hd) (h.left.owned i)
  exact fun i hi => (List.mem_cons.mp hi).elim (fun h => h ▸ he.2) (h.right.owned i)

theorem isolated_withSet (horg : org.id = A) (slug set : Bytes) {next : RuleSet → Sql (Answer Conf)}
    (h : ∀ s, s.orgID = A → Isolated A hash start start' (s.id :: own) (next s)) :
    Isolated A hash start start' own (withSet (.member user org session) slug set next) := by
  refine isolated_withOrg horg slug fun o ho => ?_
  rw [ho]
  refine Client.Agrees.bind (agrees_getSet set) fun r => ?_
  cases r with
  | error e => exact (isolated_storeError e).mono (fun _ _ h => h.1) fun _ _ _ h => h
  | ok s =>
    intro d e hde
    obtain ⟨hA, htwin⟩ := hde.2 s rfl
    obtain ⟨hanswer, hafter⟩ := h s hA d e htwin
    exact ⟨hanswer, hafter.narrow fun i hi => List.mem_cons_of_mem _ hi⟩

variable (hS : K.services.Numbers)

section WithIDs

include hS

theorem isolated_audit {orgID : Nat} (horgID : orgID = A) (p : Principal) (action target : Bytes)
    (detail : List (Bytes × Detail)) : Isolated A hash start start' own (audit K r p orgID action target detail) :=
  (isolated_record hS horgID).bind fun _ => .pure _

theorem isolated_logout (horg : org.id = A) (hsession : K.services.hashToken session = hash) :
    Isolated A hash start start' own (logout K r (.member user org session)) := by
  have hafter : Isolated A hash start start' own (do
      audit K r (.member user org session) org.id (bs "signout") [] []
      respond 204 (.empty : Payload Conf)) :=
    (isolated_audit hS horg _ _ _ _).bind fun _ => isolated_respond _ _
  exact isolated_ite ((isolated_deleteSession hsession).bind fun _ => hafter) hafter

theorem isolated_sendLink (email : Bytes) : Isolated A hash start start' own (sendLink cfg K r email) := by
  refine isolated_ite (.pure _) ?_
  refine (isolated_createLogin hS _ _ _ _).bind fun r => ?_
  cases r <;> exact .pure _

theorem isolated_invite (horg : org.id = A) (slug : Bytes) (email : Body Bytes) :
    Isolated A hash start start' own (invite cfg K r (.member user org session) slug email) := by
  refine isolated_withOrg horg slug fun o ho => isolated_decode email fun email => ?_
  rw [ho]
  refine (isolated_createUser hS _ _ _).bind fun result => ?_
  cases result with
  | ok user =>
    refine (isolated_sendLink hS _).bind fun mailed => ?_
    exact (isolated_audit hS rfl _ _ _ _).bind fun _ => .pure _
  | error e => cases e <;> exact .pure _

theorem isolated_createSetHandler (horg : org.id = A) (slug : Bytes) (body : Body NameBody) :
    Isolated A hash start start' own (createSetHandler K r (.member user org session) slug body) := by
  refine isolated_withOrg horg slug fun o ho => isolated_decode body fun req => ?_
  rw [ho]
  refine (isolated_createSet hS _ _ _).bind fun result => ?_
  cases result with
  | error e => exact isolated_storeError e
  | ok set => exact (isolated_audit hS rfl _ _ _ _).bind fun _ => isolated_respond _ _

theorem isolated_createVersionHandler (horg : org.id = A) (slug set : Bytes) (body : Body VersionBody) :
    Isolated A hash start start' own (createVersionHandler cfg K r (.member user org session) slug set body) := by
  refine isolated_withSet horg slug set fun s hs => isolated_decode body fun req => ?_
  refine isolated_ite (isolated_fail _ _) ?_
  refine (isolated_createVersion hS List.mem_cons_self _ _ _).bind fun result => ?_
  cases result with
  | ok v => exact (isolated_audit hS hs _ _ _ _).bind fun _ => isolated_respond _ _
  | error e => cases e <;> exact .pure _

theorem isolated_refuse (hs : s.orgID = A) (p : Principal) (detail : List (Bytes × Detail))
    (reason message : Bytes) : Isolated A hash start start' own (refuse K r p s detail reason message) :=
  (isolated_audit hS hs _ _ _ _).bind fun _ => isolated_fail _ _

theorem isolated_publishWith (hs : s.orgID = A) (hown : s.id ∈ own) (p : Principal) (req : PublishBody)
    (check : Nat → VersionRow → Except StoreError Unit) :
    Isolated A hash start start' own (publishWith cfg K r p s req check) := by
  refine (isolated_publish hS hown _ _ _).bind fun result => ?_
  cases result with
  | ok pub =>
    refine (isolated_audit hS hs _ _ _ _).bind fun _ => ?_
    exact (Isolated.query ((reads_setByID hown).map found)).bind fun _ => isolated_respond _ _
  | error e =>
    cases e with
    | badSignature => exact isolated_refuse hS hs _ _ _ _
    | _ => exact .pure _

theorem isolated_publishSigned (hs : s.orgID = A) (hown : s.id ∈ own) (p : Principal) (slug : Bytes)
    (req : PublishBody) : Isolated A hash start start' own (publishSigned cfg K r p slug s req) := by
  rw [publishSigned, hs]
  refine (Isolated.query (reads_activeKey req.keyID)).bind fun key => ?_
  cases key with
  | none => exact isolated_refuse hS hs _ _ _ _
  | some k =>
    dsimp only
    cases K.parsePublicKey k.publicKey with
    | error message => exact .pure _
    | ok pk => exact isolated_publishWith hS hs hown _ _ _

theorem isolated_publishUnsigned (hs : s.orgID = A) (hown : s.id ∈ own) (p : Principal)
    (req : PublishBody) : Isolated A hash start start' own (publishUnsigned cfg K r p s req) := by
  rw [publishUnsigned, hs]
  refine (Isolated.query reads_hasKeys).bind fun has => ?_
  exact isolated_ite (isolated_refuse hS hs _ _ _ _) (isolated_publishWith hS hs hown _ _ _)

theorem isolated_publishHandler (horg : org.id = A) (slug set : Bytes) (body : Body PublishBody) :
    Isolated A hash start start' own (publishHandler cfg K r (.member user org session) slug set body) := by
  refine isolated_withSet horg slug set fun s hs => isolated_decode body fun req => ?_
  refine isolated_ite (isolated_fail _ _) (isolated_ite (isolated_fail _ _) (isolated_ite ?_ ?_))
  · exact isolated_publishSigned hS hs List.mem_cons_self _ _ _
  exact isolated_publishUnsigned hS hs List.mem_cons_self _ _

theorem isolated_addSigningKeyHandler (horg : org.id = A) (slug : Bytes) (body : Body KeyBody) :
    Isolated A hash start start' own (addSigningKeyHandler K r (.member user org session) slug body) := by
  refine isolated_withOrg horg slug fun o ho => isolated_decode body fun req => ?_
  rw [ho]
  refine isolated_ite (isolated_fail _ _) ?_
  cases K.parsePublicKey req.publicKey with
  | error message => exact isolated_fail _ _
  | ok pk =>
    refine (isolated_addSigningKey hS _ _ _ _ _).bind fun result => ?_
    cases result with
    | error e => exact isolated_storeError e
    | ok k => exact (isolated_audit hS rfl _ _ _ _).bind fun _ => isolated_respond _ _

theorem isolated_revokeSigningKeyHandler (horg : org.id = A) (slug id : Bytes) :
    Isolated A hash start start' own (revokeSigningKeyHandler K r (.member user org session) slug id) := by
  refine isolated_withOrg horg slug fun o ho => isolated_withNumber _ _ fun id => ?_
  rw [ho]
  refine (isolated_revokeSigningKey id _).bind fun result => ?_
  cases result with
  | error e => exact isolated_storeError e
  | ok _ => exact (isolated_audit hS rfl _ _ _ _).bind fun _ => isolated_respond _ _

theorem isolated_createTokenHandler (horg : org.id = A) (slug set : Bytes) (body : Body TokenBody) :
    Isolated A hash start start' own (createTokenHandler K r (.member user org session) slug set body) := by
  refine isolated_withSet horg slug set fun s hs => isolated_decode body fun req => ?_
  refine isolated_ite (isolated_fail _ _) ?_
  refine (isolated_createToken hS List.mem_cons_self _ _ _ _).bind fun result => ?_
  cases result with
  | ok tok => exact (isolated_audit hS hs _ _ _ _).bind fun _ => isolated_respond _ _
  | error e => cases e <;> exact .pure _

theorem isolated_revokeTokenHandler (horg : org.id = A) (slug set id : Bytes) :
    Isolated A hash start start' own (revokeTokenHandler K r (.member user org session) slug set id) := by
  refine isolated_withSet horg slug set fun s hs => isolated_withNumber _ _ fun id => ?_
  refine (isolated_revokeToken List.mem_cons_self id _).bind fun result => ?_
  cases result with
  | error e => exact isolated_storeError e
  | ok _ => exact (isolated_audit hS hs _ _ _ _).bind fun _ => isolated_respond _ _

end WithIDs

section Reading

variable (horg : org.id = A)

include horg

theorem isolated_listMembers (slug : Bytes) :
    Isolated A hash start start' own (listMembers (.member user org session) slug : Sql (Answer Conf)) :=
  isolated_withOrg horg slug fun _ ho => ho ▸ (Isolated.query reads_usersOf).bind fun _ => isolated_respond _ _

theorem isolated_listSets (slug : Bytes) :
    Isolated A hash start start' own (listSets (.member user org session) slug : Sql (Answer Conf)) :=
  isolated_withOrg horg slug fun _ ho => ho ▸ (Isolated.query reads_setsOf).bind fun _ => isolated_respond _ _

theorem isolated_listSigningKeys (slug : Bytes) :
    Isolated A hash start start' own (listSigningKeys (.member user org session) slug : Sql (Answer Conf)) :=
  isolated_withOrg horg slug fun _ ho => ho ▸ (Isolated.query reads_keysOf).bind fun _ => isolated_respond _ _

theorem isolated_listAudit (slug limit before : Bytes) :
    Isolated A hash start start' own (listAudit (.member user org session) slug limit before : Sql (Answer Conf)) := by
  refine isolated_withOrg horg slug fun o ho => ?_
  rw [ho]
  have hpage (limit : Nat) (before : Int) :
      Isolated A hash start start' own (listAuditPage A limit before : Sql (Answer Conf)) :=
    (Isolated.query (reads_eventsOf _ limit)).bind fun _ => isolated_respond _ _
  refine isolated_ite ?_ (isolated_withNumber _ _ fun n => isolated_ite (isolated_fail _ _) ?_)
  · exact isolated_ite (hpage _ _) (isolated_withNumber _ _ fun n => isolated_ite (isolated_fail _ _) (hpage _ _))
  exact isolated_ite (hpage _ _) (isolated_withNumber _ _ fun n => isolated_ite (isolated_fail _ _) (hpage _ _))

omit horg in
theorem isolated_tokensWithCounts {setID : Nat} (hset : setID ∈ own) :
    Isolated A hash start start' own (tokensWithCounts r setID) :=
  (Isolated.query (reads_tokensOf hset)).bind fun _ =>
    (Isolated.query (reads_pullsOf hset _)).bind fun _ => .pure _

variable (slug set : Bytes)

theorem isolated_getSetHandler :
    Isolated A hash start start' own (getSetHandler r (.member user org session) slug set : Sql (Answer Conf)) :=
  isolated_withSet horg slug set fun _ _ =>
    (Isolated.query (reads_versionsOf List.mem_cons_self)).bind fun _ =>
      (isolated_tokensWithCounts List.mem_cons_self).bind fun _ => isolated_respond _ _

theorem isolated_listVersions :
    Isolated A hash start start' own (listVersions (.member user org session) slug set : Sql (Answer Conf)) :=
  isolated_withSet horg slug set fun _ _ =>
    (Isolated.query (reads_versionsOf List.mem_cons_self)).bind fun _ => isolated_respond _ _

theorem isolated_getVersionHandler (slug set rev : Bytes) : Isolated A hash start start' own
      (getVersionHandler (.member user org session) slug set rev : Sql (Answer Conf)) := by
  refine isolated_withSet horg slug set fun s hs => isolated_withNumber _ _ fun n => ?_
  refine (Isolated.query ((reads_version List.mem_cons_self n).map found)).bind fun result => ?_
  grind [isolated_storeError, isolated_respond]

omit horg in
theorem isolated_withDraft (content : Bytes) {next : Document Conf → Sql (Answer Conf)}
    (h : ∀ doc, Isolated A hash start start' own (next doc)) :
    Isolated A hash start start' own (withDraft K content next) := by
  refine isolated_ite (isolated_fail _ _) ?_
  grind [isolated_fail]

theorem isolated_validate (content : Body Bytes) :
    Isolated A hash start start' own (validate K (.member user org session) slug set content) :=
  isolated_withSet horg slug set fun _ _ => isolated_decode content fun content =>
    isolated_withDraft content fun _ => isolated_respond _ _

theorem isolated_preview (body : Body PreviewBody) :
    Isolated A hash start start' own (preview K (.member user org session) slug set body) := by
  refine isolated_withSet horg slug set fun s hs => isolated_decode body fun req => ?_
  cases previewLines req with
  | error message => exact isolated_fail _ _
  | ok lines =>
    refine isolated_ite (isolated_withDraft _ fun _ => isolated_respond _ _) ?_
    refine (isolated_published List.mem_cons_self).bind fun result => ?_
    cases result with
    | ok v =>
      dsimp only
      cases K.parsePolicy v.content with
      | error message => exact .pure _
      | ok config => exact isolated_respond _ _
    | error e => cases e <;> exact .pure _

theorem isolated_statement (slug set revision : Bytes) :
    Isolated A hash start start' own (statement K (.member user org session) slug set revision) := by
  refine isolated_withSet horg slug set fun s hs => isolated_withNumber _ _ fun n => isolated_ite (isolated_fail _ _) ?_
  refine (Isolated.query ((reads_version List.mem_cons_self n).map found)).bind fun result => ?_
  cases result with
  | error e => exact isolated_storeError e
  | ok v => exact (Isolated.query (reads_nextSeq List.mem_cons_self)).bind fun _ => isolated_respond _ _

theorem isolated_publications :
    Isolated A hash start start' own (publications (.member user org session) slug set : Sql (Answer Conf)) :=
  isolated_withSet horg slug set fun _ _ =>
    (Isolated.query (reads_publicationsOf List.mem_cons_self)).bind fun _ => isolated_respond _ _

theorem isolated_listTokens :
    Isolated A hash start start' own (listTokens r (.member user org session) slug set : Sql (Answer Conf)) :=
  isolated_withSet horg slug set fun _ _ =>
    (isolated_tokensWithCounts List.mem_cons_self).bind fun _ => isolated_respond _ _

theorem isolated_listPulls (slug set days : Bytes) :
    Isolated A hash start start' own (listPulls r (.member user org session) slug set days : Sql (Answer Conf)) :=
  isolated_withSet horg slug set fun _ _ => isolated_withCount _ _ _ _ fun _ =>
    (Isolated.query (reads_pullsOf List.mem_cons_self _)).bind fun _ => isolated_respond _ _

theorem isolated_listClusters (slug set hours : Bytes) :
    Isolated A hash start start' own (listClusters r (.member user org session) slug set hours : Sql (Answer Conf)) :=
  isolated_withSet horg slug set fun _ _ => isolated_withCount _ _ _ _ fun _ =>
    (Isolated.query ((reads_reportsSince List.mem_cons_self _).map _)).bind fun _ =>
      (isolated_latestPublication List.mem_cons_self).bind fun _ => isolated_respond _ _

end Reading

theorem isolated_dispatch (hS : K.services.Numbers) (horg : org.id = A)
    (hsession : K.services.hashToken session = hash) (route : Route) :
    Isolated A hash start start' own (dispatch cfg K r (.member user org session) route) := by
  cases route with
  | logout => exact isolated_logout hS horg hsession
  | me | listOrgs => exact isolated_respond _ _
  | listMembers slug => exact isolated_listMembers horg slug
  | invite slug email => exact isolated_invite hS horg slug email
  | createOrg body => exact isolated_fail _ _
  | listSets slug => exact isolated_listSets horg slug
  | createSet slug body => exact isolated_createSetHandler hS horg slug body
  | getSet slug set => exact isolated_getSetHandler horg slug set
  | listVersions slug set => exact isolated_listVersions horg slug set
  | createVersion slug set body => exact isolated_createVersionHandler hS horg slug set body
  | getVersion slug set rev => exact isolated_getVersionHandler horg slug set rev
  | validate slug set content => exact isolated_validate horg slug set content
  | preview slug set body => exact isolated_preview horg slug set body
  | publish slug set body => exact isolated_publishHandler hS horg slug set body
  | statement slug set revision => exact isolated_statement horg slug set revision
  | listAudit slug limit before => exact isolated_listAudit horg slug limit before
  | listSigningKeys slug => exact isolated_listSigningKeys horg slug
  | addSigningKey slug body => exact isolated_addSigningKeyHandler hS horg slug body
  | revokeSigningKey slug id => exact isolated_revokeSigningKeyHandler hS horg slug id
  | publications slug set => exact isolated_publications horg slug set
  | listTokens slug set => exact isolated_listTokens horg slug set
  | listPulls slug set days => exact isolated_listPulls horg slug set days
  | listClusters slug set hours => exact isolated_listClusters horg slug set hours
  | createToken slug set body => exact isolated_createTokenHandler hS horg slug set body
  | revokeToken slug set id => exact isolated_revokeTokenHandler hS horg slug set id

end Handlers

section Sessions

def Tables.sessionOf (hash now : Bytes) (d : Tables) : Option Session :=
  (d.sessions.find? fun s => s.hash == hash && decide (now < s.expiresAt)).bind fun row =>
  (d.users.find? (·.id == row.userID)).bind fun u =>
  (d.orgs.find? (·.id == u.orgID)).map fun o => ⟨row.id, u, o, row.expiresAt⟩

theorem eval_getSession (S : Services) (value : Bytes) (now : Instant) (d : Tables) :
    (getSession S value now).eval d = (found (d.sessionOf (S.hashToken value) now.format), d) := by
  rw [getSession, Client.eval_bind, Client.eval_query, Tables.sessionOf]
  cases d.sessions.find? fun s => s.hash == S.hashToken value && decide (now.format < s.expiresAt) with
  | none => rfl
  | some row =>
    simp only [Client.eval_bind, getUserByID, Client.eval_query, Option.bind_some]
    cases d.users.find? (·.id == row.userID) with
    | none => rfl
    | some u =>
      simp only [Client.eval_bind, getOrgByID, Client.eval_query, Option.bind_some]
      cases d.orgs.find? (·.id == u.orgID) <;> rfl

theorem sessionOf_eq_some_iff {hash now : Bytes} {s : Session} : d.sessionOf hash now = some s ↔
      ∃ row, d.sessions.find? (fun s => s.hash == hash && decide (now < s.expiresAt)) = some row ∧
        d.users.find? (·.id == row.userID) = some s.user ∧ d.orgs.find? (·.id == s.user.orgID) = some s.org ∧
        row.id = s.id ∧ row.expiresAt = s.expiresAt := by
  obtain ⟨id, user, org, expiresAt⟩ := s
  simp [Tables.sessionOf, Option.bind_eq_some_iff]

variable {A : Nat} {hash now : Bytes} {d : Tables} {s : Session}

theorem Linked.ownsUser_of_hash (h : Linked d) {row : SessionRow} (hrow : row ∈ d.sessions)
    (howns : d.ownsUser A row.userID = true) {t : SessionRow} (ht : t ∈ d.sessions) (heq : t.hash = row.hash) :
    d.ownsUser A t.userID = true := by
  rw [eq_of_key h.sessionHashes ht hrow heq]
  exact howns

theorem Linked.user_orgID (h : Linked d) {i : Nat} (howns : d.ownsUser A i = true) {u : UserRow} (hu : u ∈ d.users)
    (hi : u.id = i) : u.orgID = A := by
  obtain ⟨v, hv, hvi, hA⟩ := ownsUser_iff.mp howns
  rw [eq_of_key h.userIDs hu hv (hi.trans hvi.symm), hA]

theorem find?_users_ownRows (h : Linked d) {i : Nat} (howns : d.ownsUser A i = true) :
    (d.ownRows A).users.find? (·.id == i) = d.users.find? (·.id == i) := by
  apply find?_restrict
  intro u hu hi
  rw [h.user_orgID howns hu (beq_iff_eq.mp hi), beq_self_eq_true]
  rfl

theorem find?_sessions_ownRows (h : Linked d) {row : SessionRow} (hrow : row ∈ d.sessions)
    (howns : d.ownsUser A row.userID = true) (hhash : row.hash = hash) :
    ((d.ownRows A).sessions.find? fun s => s.hash == hash && decide (now < s.expiresAt)) =
      d.sessions.find? fun s => s.hash == hash && decide (now < s.expiresAt) := by
  apply find?_restrict
  intro t ht hq
  rw [Bool.and_eq_true, beq_iff_eq] at hq
  rw [h.ownsUser_of_hash hrow howns ht (hq.1.trans hhash.symm)]
  rfl

theorem find?_orgs_ownRows : (d.ownRows A).orgs.find? (·.id == A) = d.orgs.find? (·.id == A) := by
  apply find?_restrict
  intro o _ ho
  rw [ho]
  rfl

theorem sessionOf_ownRows_iff (h : Linked d) :
    (d.ownRows A).sessionOf hash now = some s ↔ d.sessionOf hash now = some s ∧ s.org.id = A := by
  rw [sessionOf_eq_some_iff, sessionOf_eq_some_iff]
  constructor
  · rintro ⟨row, hrow, huser, horg, hid⟩
    obtain ⟨hmem, howns⟩ := List.mem_filter.mp (List.mem_of_find?_eq_some hrow)
    have hfound := List.find?_some hrow
    rw [beq_true] at howns
    rw [Bool.and_eq_true, beq_iff_eq] at hfound
    rw [find?_sessions_ownRows h hmem howns hfound.1] at hrow
    rw [find?_users_ownRows h howns] at huser
    have hA : s.user.orgID = A :=
      h.user_orgID howns (List.mem_of_find?_eq_some huser) (by simpa using List.find?_some huser)
    grind [find?_orgs_ownRows]
  rintro ⟨⟨row, hrow, huser, horg, hid⟩, hA⟩
  have horgID : s.user.orgID = A := by grind
  have howns : d.ownsUser A row.userID = true :=
    ownsUser_iff.mpr ⟨s.user, List.mem_of_find?_eq_some huser, by simpa using List.find?_some huser, horgID⟩
  have hfound := List.find?_some hrow
  rw [Bool.and_eq_true, beq_iff_eq] at hfound
  refine ⟨row, ?_, ?_, ?_, hid⟩
  · rw [find?_sessions_ownRows h (List.mem_of_find?_eq_some hrow) howns hfound.1, hrow]
  · rw [find?_users_ownRows h howns, huser]
  rw [horgID, find?_orgs_ownRows, ← horgID, horg]

theorem sessionOf_eq_of_ownRows {e : Tables} (hd : Linked d) (he : Linked e) (hrows : d.ownRows A = e.ownRows A)
    (hs : d.sessionOf hash now = some s) (hA : s.org.id = A) : e.sessionOf hash now = some s :=
  ((sessionOf_ownRows_iff he).mp (hrows ▸ (sessionOf_ownRows_iff hd).mpr ⟨hs, hA⟩)).1

theorem ownsUser_of_sessionOf (h : Linked d) (hs : d.sessionOf hash now = some s) (hA : s.org.id = A) :
    ∀ t ∈ d.sessions, t.hash = hash → d.ownsUser A t.userID = true := by
  obtain ⟨row, hrow, -⟩ := sessionOf_eq_some_iff.mp ((sessionOf_ownRows_iff h).mpr ⟨hs, hA⟩)
  obtain ⟨hmem, howns⟩ := List.mem_filter.mp (List.mem_of_find?_eq_some hrow)
  have hfound := List.find?_some hrow
  rw [Bool.and_eq_true, beq_iff_eq] at hfound
  rw [beq_true] at howns
  intro t ht heq
  exact h.ownsUser_of_hash hmem howns ht (heq.trans hfound.1.symm)

end Sessions

/-- A request that is decided by its cookie, and not by the admin token or an open server. -/
def Request.usesCookie (cfg : Settings) (r : Request) : Prop :=
  (r.bearer = none ∨ cfg.adminToken = []) ∧ ¬ (cfg.singleTenant = true ∧ cfg.adminToken = []) ∧ r.cookie ≠ []

section Requests

variable {Conf : Type} {cfg : Settings} {K : Packages Conf} {r : Request} {A : Nat}

theorem eval_authenticate (hcookie : r.usesCookie cfg) {s : Session}
    (hs : d.sessionOf (K.services.hashToken r.cookie) r.checkedAt.format = some s) :
    (authenticate cfg K r).eval d = (.ok (some (.member s.user s.org r.cookie)), d) := by
  obtain ⟨hbearer, hopen, hne⟩ := hcookie
  have hsession : (authenticateSession K r).eval d = (.ok (some (.member s.user s.org r.cookie)), d) := by
    rw [authenticateSession, if_neg (by simpa using hne), Client.eval_bind, eval_getSession, hs]
    rfl
  rw [authenticate]
  grind

/-- The session the request comes with is one of the organization. -/
def SignedIn (K : Packages Conf) (r : Request) (A : Nat) (d : Tables) : Prop :=
  ∃ s, ((getSession K.services r.cookie r.checkedAt).eval d).1 = .ok s ∧ s.org.id = A

theorem SignedIn.sessionOf (h : SignedIn K r A d) :
    ∃ s, d.sessionOf (K.services.hashToken r.cookie) r.checkedAt.format = some s ∧ s.org.id = A := by
  obtain ⟨s, hs, hA⟩ := h
  rw [eval_getSession] at hs
  cases hfound : d.sessionOf (K.services.hashToken r.cookie) r.checkedAt.format with
  | none =>
    rw [hfound] at hs
    cases hs
  | some t =>
    rw [hfound] at hs
    cases hs
    exact ⟨s, rfl, hA⟩

/-- A request under a session changes rows of the session's organization only, and two databases
with the same rows of it give the same answer. -/
theorem session_isolated (hS : K.services.Numbers) {d e : Tables} (hd : Linked d) (he : Linked e)
    (hrows : d.ownRows A = e.ownRows A) (hknown : Known d e) (hcookie : r.usesCookie cfg)
    (hsession : SignedIn K r A d) (route : Route) :
    ((manage cfg K r route).eval d).2.otherRows A = d.otherRows A ∧
      ((manage cfg K r route).eval d).1 = ((manage cfg K r route).eval e).1 := by
  obtain ⟨s, hs, hA⟩ := hsession.sessionOf
  have hse := sessionOf_eq_of_ownRows hd he hrows hs hA
  have htwin : Twin A (K.services.hashToken r.cookie) d e [] d e :=
    { left := ⟨hd, rfl, nofun, ownsUser_of_sessionOf hd hs hA⟩
      right := ⟨he, rfl, nofun, ownsUser_of_sessionOf he hse hA⟩
      rows := hrows
      known := hknown }
  rw [manage, Client.eval_bind, Client.eval_bind, eval_authenticate hcookie hs, eval_authenticate hcookie hse]
  dsimp only
  have hisolated : Isolated A (K.services.hashToken r.cookie) d e []
      (if refusal r route.safe (.member s.user s.org r.cookie) ≠ [] then
        fail 403 (refusal r route.safe (.member s.user s.org r.cookie))
      else dispatch cfg K r (.member s.user s.org r.cookie) route) :=
    isolated_ite (isolated_fail _ _) (isolated_dispatch hS hA rfl route)
  obtain ⟨hanswer, hafter⟩ := hisolated d e htwin
  exact ⟨hafter.left.others, hanswer⟩

end Requests

def Services.counting : Services := { Services.plain with newID := fun ids => ids.toFinset.sup id + 1 }

theorem numbers_counting : Services.counting.Numbers where
  fresh ids h := by
    have hle : ids.toFinset.sup id + 1 ≤ ids.toFinset.sup id := Finset.le_sup (f := id) (List.mem_toFinset.mpr h)
    omega
  same ids ids' h := by
    have heq : ids.toFinset = ids'.toFinset := by
      ext i
      simp [h i]
    exact congrArg (fun s : Finset Nat => s.sup id + 1) heq

def plainPackages : Packages Unit where
  services := .counting
  canonical content _ := .ok ⟨content, content, ()⟩
  parsePolicy _ := .ok ()
  isAdaptive _ := false
  scan _ l := l
  sha256 := id
  parsePublicKey := .ok
  formatPublicKey := id
  keyID := id
  verify _ _ _ := true
  marshal _ := []

def midnight : Instant := ⟨739616 * 86400 * 10 ^ 9, Instant.within_newYear⟩

def sampleRequest : Request where
  bearer := none
  cookie := bs "c"
  csrfProblem := []
  originProblem := []
  fromBrowser := false
  ip := []
  path := []
  checkedAt := midnight
  writtenAt := midnight
  auditedAt := midnight
  linkExpires := midnight
  daysAgo _ := []
  hoursAgo _ := midnight
  drawn := []
  mailed := true

def twoOrgs (name : Bytes) : Tables :=
  { Tables.empty with
    orgs := [⟨1, bs "a", [], []⟩, ⟨2, bs "b", [], []⟩]
    users := [⟨1, 1, bs "u@a.io", [], [], none⟩, ⟨2, 2, bs "u@b.io", [], [], none⟩]
    sessions := [⟨1, 1, bs "c", [], bs "9"⟩]
    sets := [⟨1, 1, bs "s", [], none, []⟩, ⟨2, 2, bs "s", name, none, []⟩] }

theorem linked_twoOrgs (name : Bytes) : Linked (twoOrgs name) := by
  constructor
  all_goals simp [twoOrgs, Tables.empty]
  decide

def closedServer : Settings := ⟨[], false, false, false, false⟩

theorem session_isolated_createSet :
    SignedIn plainPackages sampleRequest 1 (twoOrgs (bs "x")) ∧
      ((manage closedServer plainPackages sampleRequest (.createSet (bs "a") (.ok ⟨bs "t", []⟩))).eval
        (twoOrgs (bs "x"))).2.otherRows 1 = (twoOrgs (bs "x")).otherRows 1 ∧
      ((manage closedServer plainPackages sampleRequest (.createSet (bs "a") (.ok ⟨bs "t", []⟩))).eval
        (twoOrgs (bs "x"))).1 =
      ((manage closedServer plainPackages sampleRequest (.createSet (bs "a") (.ok ⟨bs "t", []⟩))).eval
        (twoOrgs (bs "y"))).1 := by
  have hsession : SignedIn plainPackages sampleRequest 1 (twoOrgs (bs "x")) := by
    refine ⟨_, rfl, ?_⟩
    decide
  refine ⟨hsession, session_isolated numbers_counting (linked_twoOrgs _) (linked_twoOrgs _) ?_ ?_ ?_ hsession _⟩
  · rfl
  · constructor <;> exact fun _ => Iff.rfl
  exact ⟨.inl rfl, by decide, by decide⟩

end PiiShield.Panel
