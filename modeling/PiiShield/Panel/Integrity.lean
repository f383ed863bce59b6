import PiiShield.Panel.Public
import PiiShield.Panel.StoreRuns

/-! The management requests keep the links between the tables. -/

namespace PiiShield.Panel

open Transactions Restriction

variable {createdAt : Bytes} {d d' : Tables} {i : Nat} {α : Type}

section Statements

variable {S : Services} (hS : S.Numbers)

theorem keeps_insert {f : Insert} (h : ∀ d i d', Linked d → f d = .ok (i, d') → Linked d') :
    (insert f).Keeps Linked := by
  intro d hd
  grind [insert, Client.eval_exec, Insert.write]

theorem keeps_insertAndGet {f : Insert} {get : Nat → Tables → Option α}
    (h : ∀ d i d', Linked d → f d = .ok (i, d') → Linked d') : (insertAndGet f get).Keeps Linked := by
  refine (keeps_insert h).bind fun r => ?_
  cases r with
  | error e => exact .pure
  | ok i => exact .query

theorem insertRow_eq_ok {problem : Tables → Option StoreError} {ids : Tables → List Nat} {add : Nat → Tables → Tables}
    (h : Tables.insertRow S problem ids add d = .ok (i, d')) :
    problem d = none ∧ i = S.newID (ids d) ∧ d' = add i d := by
  grind [Tables.insertRow]

theorem violated_eq_none {unique foreign : Bool} (h : Tables.violated unique foreign = none) :
    unique = false ∧ foreign = false := by
  cases unique <;> cases foreign <;> first | exact ⟨rfl, rfl⟩ | cases h

theorem mem_of_lacksSet (h : d.lacksSet i = false) : i ∈ d.sets.map (·.id) := by
  simp_all [Tables.lacksSet, List.all_eq_false]

theorem linked_insertOrg {slug name : Bytes} (h : Linked d)
    (hins : Tables.insertOrg S slug name createdAt d = .ok (i, d')) : Linked d' := by
  obtain ⟨hnone, -, rfl⟩ := insertRow_eq_ok hins
  have hslug := (violated_eq_none hnone).1
  refine { h with orgSlugs := nodup_concat h.orgSlugs fun hmem => ?_ }
  grind

include hS

theorem linked_insertUser {orgID : Nat} {email invitedBy : Bytes} (h : Linked d)
    (hins : Tables.insertUser S orgID email invitedBy createdAt d = .ok (i, d')) : Linked d' := by
  obtain ⟨-, rfl, rfl⟩ := insertRow_eq_ok hins
  exact h.addUser (hS.fresh _)

theorem linked_insertSet {orgID : Nat} {slug name : Bytes} (h : Linked d)
    (hins : Tables.insertSet S orgID slug name createdAt d = .ok (i, d')) : Linked d' := by
  obtain ⟨-, rfl, rfl⟩ := insertRow_eq_ok hins
  exact h.addSet (hS.fresh _) rfl

theorem linked_insertVersion {v : VersionRow} (h : Linked d)
    (hins : Tables.insertVersion S v d = .ok (i, d')) : Linked d' := by
  obtain ⟨hnone, rfl, rfl⟩ := insertRow_eq_ok hins
  exact h.addVersion (hS.fresh _) (mem_of_lacksSet (violated_eq_none hnone).2)

theorem linked_insertToken {t : TokenRow} (h : Linked d)
    (hins : Tables.insertToken S t d = .ok (i, d')) : Linked d' := by
  obtain ⟨hnone, rfl, rfl⟩ := insertRow_eq_ok hins
  exact h.addToken (hS.fresh _) (mem_of_lacksSet (violated_eq_none hnone).2)

omit hS

theorem linked_insertPublication {p : PublicationRow} (h : Linked d) {v : VersionRow}
    (hv : v ∈ d.versions) (hid : v.id = p.versionID) (hset : v.setID = p.setID)
    (hins : Tables.insertPublication S p d = .ok (i, d')) : Linked d' := by
  obtain ⟨-, -, rfl⟩ := insertRow_eq_ok hins
  exact h.addPublication ⟨v, hv, hid, hset⟩

theorem linked_insertKey {k : KeyRow} (h : Linked d)
    (hins : Tables.insertKey S k d = .ok (i, d')) : Linked d' := by
  obtain ⟨-, -, rfl⟩ := insertRow_eq_ok hins
  exact h.addKey _

theorem linked_insertEvent {e : EventRow} (h : Linked d)
    (hins : Tables.insertEvent S e d = .ok (i, d')) : Linked d' := by
  obtain ⟨-, -, rfl⟩ := insertRow_eq_ok hins
  exact h.addEvent _

end Statements

section StoreFunctions

variable {S : Services} (hS : S.Numbers)

theorem keeps_createOrg (slug name : Bytes) (t : Instant) : (createOrg S slug name t).Keeps Linked := by
  rw [createOrg]
  cases checkSlug slug with
  | error e => exact .pure
  | ok _ => exact (keeps_insertAndGet fun _ _ _ h => linked_insertOrg h).bind fun _ => .pure

theorem keeps_addSigningKey (orgID : Nat) (keyID name publicKey createdBy : Bytes) (t : Instant) :
    (addSigningKey S orgID keyID name publicKey createdBy t).Keeps Linked :=
  (keeps_insertAndGet fun _ _ _ h => linked_insertKey h).bind fun _ => .pure

theorem keeps_record (e : EventRow) : (record S e).Keeps Linked := keeps_insert fun _ _ _ h => linked_insertEvent h

theorem keeps_revokeToken (setID : Nat) (id : Int) (t : Instant) : (revokeToken setID id t).Keeps Linked :=
  (Client.Keeps.exec fun _ h => h.revokeToken _ _ _).bind fun _ => .pure

theorem keeps_revokeSigningKey (orgID : Nat) (id : Int) (t : Instant) : (revokeSigningKey orgID id t).Keeps Linked :=
  (Client.Keeps.exec fun _ h => h.revokeKey _ _ _).bind fun _ => .pure

theorem keeps_deleteSession (value : Bytes) : (deleteSession S value).Keeps Linked :=
  .exec fun _ h => h.dropSession _

theorem keeps_createLogin (email value : Bytes) (t expires : Instant) :
    (createLogin S email value t expires).Keeps Linked := by
  rw [createLogin]
  cases normalizeEmail S email with
  | error e => exact .pure
  | ok email =>
    refine Client.Keeps.bind (keeps_insert fun d i d' h hins => ?_) fun r => by cases r <;> exact .pure
    rw [insertLogin_eq] at hins
    obtain ⟨-, -, rfl⟩ := insertRow_eq_ok hins
    exact h.addLogin _

theorem keeps_retry {again : StoreError → Bool} {attempt : Sql (Except StoreError α)}
    (h : attempt.Keeps Linked) (retries : Nat) : (retry again attempt retries).Keeps Linked := by
  induction retries with
  | zero => exact h
  | succ retries ih =>
    refine h.bind fun r => ?_
    cases r with
    | ok a => exact .pure
    | error e =>
      by_cases hagain : again e = true
      · simp only [hagain, if_true]
        exact ih
      simp only [hagain]
      exact .pure

theorem linked_publishTx (pg : Bool) (setID : Nat) (req : PublishRequest) (t : Instant) :
    (Client.transaction (publishTx S pg setID req t) : Sql _).Keeps Linked := by
  intro d h
  rw [Client.eval_transaction, eval_publishTx]
  split
  · exact h
  · cases hv : d.version setID req.revision with
    | none => exact h
    | some v =>
      obtain ⟨hmem, hset⟩ := mem_of_version hv
      dsimp only
      split
      · exact h
      · cases req.check (d.nextSeq setID) v with
        | error e => exact h
        | ok _ =>
          dsimp only
          rw [eval_insertPublicationTx]
          cases hins : Tables.insertPublication S (req.row setID (d.nextSeq setID) v.id t)
              (d.setPublished setID v.id) with
          | error e => cases e <;> exact h
          | ok r => exact linked_insertPublication (h.setPublished hmem hset) hmem rfl hset hins

theorem keeps_publish (pg : Bool) (setID : Nat) (req : PublishRequest) (t : Instant) :
    (publish S pg setID req t).Keeps Linked := by
  apply keeps_retry
  refine (linked_publishTx pg setID req t).bind fun r => ?_
  cases r <;> exact .pure

include hS

theorem keeps_createUser (orgID : Nat) (email invitedBy : Bytes) (t : Instant) :
    (createUser S orgID email invitedBy t).Keeps Linked := by
  rw [createUser]
  cases normalizeEmail S email with
  | error e => exact .pure
  | ok email =>
    refine Client.Keeps.bind .query fun r => ?_
    cases r with
    | error e => exact .pure
    | ok _ => exact (keeps_insertAndGet fun _ _ _ h => linked_insertUser hS h).bind fun _ => .pure

theorem keeps_createSet (orgID : Nat) (slug name : Bytes) (t : Instant) :
    (createSet S orgID slug name t).Keeps Linked := by
  rw [createSet]
  cases checkSlug slug with
  | error e => exact .pure
  | ok _ => exact (keeps_insertAndGet fun _ _ _ h => linked_insertSet hS h).bind fun _ => .pure

theorem keeps_createVersion (pg : Bool) (setID : Nat) (req : VersionRequest) (t : Instant) :
    (createVersion S pg setID req t).Keeps Linked := by
  apply keeps_retry
  refine Client.Keeps.bind (fun d h => ?_) fun r => by cases r <;> first | exact .pure | exact .query
  grind [Client.eval_transaction, eval_createVersionTx, linked_insertVersion]

theorem keeps_createToken (setID : Nat) (name kind drawn : Bytes) (t : Instant) :
    (createToken S setID name kind drawn t).Keeps Linked := by
  rw [createToken]
  split
  · exact .pure
  refine Client.Keeps.bind .query fun r => ?_
  cases r with
  | error e => exact .pure
  | ok _ =>
    refine (keeps_insertAndGet fun _ _ _ h => linked_insertToken hS h).bind fun r => ?_
    cases r <;> exact .pure

end StoreFunctions

section Handlers

variable {Conf : Type} {cfg : Settings} {K : Packages Conf} {r : Request} {p : Principal}

theorem keeps_storeError (e : StoreError) : (storeError e : Sql (Answer Conf)).Keeps Linked := by
  cases e <;> exact .pure

theorem keeps_decode (body : Body α) {next : α → Sql (Answer Conf)} (h : ∀ a, (next a).Keeps Linked) :
    (decode body next).Keeps Linked := by
  cases body with
  | ok a => exact h a
  | error problem => cases problem <;> exact .pure

theorem keeps_withNumber (text message : Bytes) {next : Int → Sql (Answer Conf)} (h : ∀ n, (next n).Keeps Linked) :
    (withNumber text message next).Keeps Linked := by
  rw [withNumber]
  cases atoi text with
  | none => exact .pure
  | some n => exact h n

theorem keeps_withCount (text : Bytes) (default bound : Nat) (message : Bytes) {next : Nat → Sql (Answer Conf)}
    (h : ∀ n, (next n).Keeps Linked) : (withCount text default bound message next).Keeps Linked :=
  .ite (h default) (keeps_withNumber _ _ fun n => .ite .pure (h n.toNat))

theorem keeps_withOrg (slug : Bytes) {next : OrgRow → Sql (Answer Conf)} (h : ∀ o, (next o).Keeps Linked) :
    (withOrg p slug next).Keeps Linked := by
  exact Client.Keeps.bind_result .query keeps_storeError fun o => .ite .pure (h o)

theorem keeps_withSet (slug set : Bytes) {next : RuleSet → Sql (Answer Conf)} (h : ∀ s, (next s).Keeps Linked) :
    (withSet p slug set next).Keeps Linked := by
  exact keeps_withOrg slug fun o => Client.Keeps.bind_result .query keeps_storeError fun s => h s

theorem keeps_audit (orgID : Nat) (action target : Bytes) (detail : List (Bytes × Detail)) :
    (audit K r p orgID action target detail).Keeps Linked :=
  (keeps_record _).bind fun _ => .pure

theorem keeps_audited {orgID : Nat} {action target : Bytes} {detail : List (Bytes × Detail)} {a : Answer Conf} :
    (audit K r p orgID action target detail >>= fun _ => pure a).Keeps Linked :=
  (keeps_audit _ _ _ _).bind fun _ => .pure

theorem keeps_sendLink (email : Bytes) : (sendLink cfg K r email).Keeps Linked := by
  refine .ite .pure ((keeps_createLogin _ _ _ _).bind fun result => ?_)
  cases result <;> exact .pure

theorem keeps_publishWith (s : RuleSet) (req : PublishBody) (check : Nat → VersionRow → Except StoreError Unit) :
    (publishWith cfg K r p s req check).Keeps Linked := by
  refine (keeps_publish _ _ _ _).bind fun result => ?_
  cases result with
  | ok pub => exact (keeps_audit _ _ _ _).bind fun _ => Client.Keeps.bind .query fun _ => .pure
  | error e =>
    cases e with
    | badSignature => exact keeps_audited
    | _ => exact .pure

theorem keeps_publishHandler (slug set : Bytes) (body : Body PublishBody) :
    (publishHandler cfg K r p slug set body).Keeps Linked := by
  refine keeps_withSet slug set fun s => keeps_decode body fun req => ?_
  refine .ite .pure (.ite .pure (.ite ?_ ?_))
  · refine Client.Keeps.bind .query fun key => ?_
    cases key with
    | none => exact keeps_audited
    | some k =>
      dsimp only
      cases K.parsePublicKey k.publicKey with
      | error message => exact .pure
      | ok pk => exact keeps_publishWith _ _ _
  refine Client.Keeps.bind .query fun has => .ite ?_ (keeps_publishWith _ _ _)
  exact keeps_audited

theorem keeps_withDraft (content : Bytes) {next : Document Conf → Sql (Answer Conf)}
    (h : ∀ doc, (next doc).Keeps Linked) :
    (withDraft K content next).Keeps Linked := by
  refine .ite .pure ?_
  cases K.canonical content 0 with
  | error message => exact .pure
  | ok doc => exact h doc

theorem keeps_preview (slug set : Bytes) (body : Body PreviewBody) : (preview K p slug set body).Keeps Linked := by
  refine keeps_withSet slug set fun s => keeps_decode body fun req => ?_
  cases previewLines req with
  | error message => exact .pure
  | ok lines =>
    refine .ite (keeps_withDraft _ fun _ => .pure) (Client.Keeps.bind .query fun result => ?_)
    cases result with
    | ok v =>
      dsimp only
      cases K.parsePolicy v.content <;> exact .pure
    | error e => cases e <;> exact .pure

theorem keeps_listAudit (slug limit before : Bytes) :
    (listAudit p slug limit before : Sql (Answer Conf)).Keeps Linked := by
  refine keeps_withOrg slug fun o => ?_
  have hpage (limit : Nat) (before : Int) : (listAuditPage o.id limit before : Sql (Answer Conf)).Keeps Linked :=
    Client.Keeps.bind .query fun _ => .pure
  refine .ite ?_ (keeps_withNumber _ _ fun n => .ite .pure ?_)
  · exact .ite (hpage _ _) (keeps_withNumber _ _ fun n => .ite .pure (hpage _ _))
  exact .ite (hpage _ _) (keeps_withNumber _ _ fun n => .ite .pure (hpage _ _))

theorem keeps_tokensWithCounts (setID : Nat) : (tokensWithCounts r setID).Keeps Linked :=
  Client.Keeps.bind .query fun _ => Client.Keeps.bind .query fun _ => .pure

theorem keeps_logout : (logout K r p).Keeps Linked := by
  cases p with
  | admin | opened => exact .pure
  | member user org session =>
    have hafter : (do
        audit K r (.member user org session) org.id (bs "signout") [] []
        respond 204 (.empty : Payload Conf)).Keeps Linked := keeps_audited
    exact .ite ((keeps_deleteSession session).bind fun _ => hafter) hafter

theorem keeps_me : (me cfg p : Sql (Answer Conf)).Keeps Linked := by
  cases p with
  | admin | member user org session => exact .pure
  | opened => exact Client.Keeps.bind .query fun result => by cases result <;> exact .pure

theorem keeps_listOrgsHandler : (listOrgsHandler p : Sql (Answer Conf)).Keeps Linked := by
  cases p with
  | member user org session => exact .pure
  | admin | opened => exact Client.Keeps.bind .query fun _ => .pure

theorem keeps_createOrgHandler (body : Body NameBody) : (createOrgHandler K r p body).Keeps Linked := by
  cases p with
  | member user org session => exact .pure
  | _ =>
    exact keeps_decode body fun req => (keeps_createOrg _ _ _).bind_result keeps_storeError fun _ => keeps_audited

theorem keeps_dispatch (hS : K.services.Numbers) (route : Route) : (dispatch cfg K r p route).Keeps Linked := by
  cases route with
  | logout => exact keeps_logout
  | me => exact keeps_me
  | listMembers slug | listSets slug | listSigningKeys slug =>
    exact keeps_withOrg slug fun _ => Client.Keeps.bind .query fun _ => .pure
  | invite slug email =>
    refine keeps_withOrg slug fun o => keeps_decode email fun email => ?_
    refine (keeps_createUser hS _ _ _ _).bind fun result => ?_
    cases result with
    | ok user => exact (keeps_sendLink _).bind fun _ => keeps_audited
    | error e => cases e <;> exact .pure
  | listOrgs => exact keeps_listOrgsHandler
  | createOrg body => exact keeps_createOrgHandler body
  | createSet slug body =>
    exact keeps_withOrg slug fun o => keeps_decode body fun req =>
      (keeps_createSet hS _ _ _ _).bind_result keeps_storeError fun _ => keeps_audited
  | getSet slug set =>
    exact keeps_withSet slug set fun _ =>
      Client.Keeps.bind .query fun _ => (keeps_tokensWithCounts _).bind fun _ => .pure
  | listVersions slug set | publications slug set =>
    exact keeps_withSet slug set fun _ => Client.Keeps.bind .query fun _ => .pure
  | createVersion slug set body =>
    refine keeps_withSet slug set fun s => keeps_decode body fun req => .ite .pure ?_
    refine (keeps_createVersion hS _ _ _ _).bind fun result => ?_
    cases result with
    | ok v => exact keeps_audited
    | error e => cases e <;> exact .pure
  | getVersion slug set rev =>
    exact keeps_withSet slug set fun s => keeps_withNumber _ _ fun n =>
      Client.Keeps.bind_result .query keeps_storeError fun _ => .pure
  | validate slug set content =>
    exact keeps_withSet slug set fun _ => keeps_decode content fun content => keeps_withDraft content fun _ => .pure
  | preview slug set body => exact keeps_preview slug set body
  | publish slug set body => exact keeps_publishHandler slug set body
  | statement slug set revision =>
    refine keeps_withSet slug set fun s => keeps_withNumber _ _ fun n => .ite .pure ?_
    exact Client.Keeps.bind_result .query keeps_storeError fun _ => Client.Keeps.bind .query fun _ => .pure
  | listAudit slug limit before => exact keeps_listAudit slug limit before
  | addSigningKey slug body =>
    refine keeps_withOrg slug fun o => keeps_decode body fun req => .ite .pure ?_
    cases K.parsePublicKey req.publicKey with
    | error message => exact .pure
    | ok pk =>
      exact (keeps_addSigningKey _ _ _ _ _ _).bind_result keeps_storeError fun _ => keeps_audited
  | revokeSigningKey slug id =>
    exact keeps_withOrg slug fun o => keeps_withNumber _ _ fun n =>
      (keeps_revokeSigningKey _ _ _).bind_result keeps_storeError fun _ => keeps_audited
  | listTokens slug set => exact keeps_withSet slug set fun _ => (keeps_tokensWithCounts _).bind fun _ => .pure
  | listPulls slug set days =>
    exact keeps_withSet slug set fun _ => keeps_withCount _ _ _ _ fun _ => Client.Keeps.bind .query fun _ => .pure
  | listClusters slug set hours =>
    exact keeps_withSet slug set fun _ => keeps_withCount _ _ _ _ fun _ =>
      Client.Keeps.bind .query fun _ => Client.Keeps.bind .query fun _ => .pure
  | createToken slug set body =>
    refine keeps_withSet slug set fun s => keeps_decode body fun req => .ite .pure ?_
    refine (keeps_createToken hS _ _ _ _ _).bind fun result => ?_
    cases result with
    | ok tok => exact keeps_audited
    | error e => cases e <;> exact .pure
  | revokeToken slug set id =>
    exact keeps_withSet slug set fun s => keeps_withNumber _ _ fun n =>
      (keeps_revokeToken _ _ _).bind_result keeps_storeError fun _ => keeps_audited

theorem keeps_getSession (S : Services) (value : Bytes) (now : Instant) : (getSession S value now).Keeps Linked := by
  refine Client.Keeps.bind .query fun row => ?_
  cases row with
  | none => exact .pure
  | some s =>
    refine Client.Keeps.bind .query fun user => ?_
    cases user with
    | error e => exact .pure
    | ok u =>
      refine Client.Keeps.bind .query fun org => ?_
      cases org <;> exact .pure

theorem keeps_authenticateSession : (authenticateSession K r).Keeps Linked := by
  refine .ite .pure ((keeps_getSession _ _ _).bind fun result => ?_)
  cases result with
  | ok s => exact .pure
  | error e => cases e <;> exact .pure

theorem keeps_authenticate : (authenticate cfg K r).Keeps Linked := by
  rw [authenticate]
  cases r.bearer with
  | some value => exact .ite .pure (.ite .pure keeps_authenticateSession)
  | none => exact .ite .pure keeps_authenticateSession

theorem keeps_manage (hS : K.services.Numbers) (route : Route) : (manage cfg K r route).Keeps Linked := by
  refine keeps_authenticate.bind fun result => ?_
  cases result with
  | error e => exact .pure
  | ok p =>
    cases p with
    | none => exact .pure
    | some p => exact .ite .pure (keeps_dispatch hS route)

end Handlers

end PiiShield.Panel
