import PiiShield.Panel.Integrity
import PiiShield.Panel.Isolation

/-! The links between the tables hold in every database the rule server comes to. -/

namespace PiiShield.Panel

open Transactions Restriction

namespace Linked

variable {d : Tables} (h : Linked d)

include h

theorem touchToken (id : Nat) (ip now cutoff : Bytes) : Linked (d.touchToken id ip now cutoff) := by
  apply h.mapTokens
  · intro t
    split <;> rfl
  intro t
  split <;> rfl

theorem withPulls {pulls : List PullRow} (hp : ∀ p ∈ pulls, p.tokenID ∈ d.tokens.map (·.id)) :
    Linked { d with pulls := pulls } :=
  { h with pullTokens := hp }

theorem bumpPull (tokenID : Nat) (day : Bytes) (notModified : Nat) : Linked (d.bumpPull tokenID day notModified) := by
  apply h.withPulls
  intro p hp
  obtain ⟨q, hq, rfl⟩ := List.mem_map.mp hp
  have hid := h.pullTokens q hq
  split
  · exact hid
  exact hid

theorem insertPull (tokenID : Nat) (day : Bytes) (notModified : Nat) :
    Linked (d.insertPull tokenID day notModified) := by
  rw [Tables.insertPull]
  by_cases htoken : d.tokens.all (·.id != tokenID) = true
  · rw [if_pos htoken]
    exact h
  rw [if_neg htoken]
  split
  · exact h.bumpPull tokenID day notModified
  apply h.withPulls
  intro p hp
  rcases List.mem_append.mp hp with hp | hp
  · exact h.pullTokens p hp
  simp_all

theorem dropPulls (tokenID : Nat) (cutoff : Bytes) : Linked (d.dropPulls tokenID cutoff) :=
  h.withPulls fun p hp => h.pullTokens p (List.mem_filter.mp hp).1

theorem addReport {r : ReportRow} (ht : ∃ t ∈ d.tokens, t.id = r.tokenID ∧ t.setID = r.setID) :
    Linked { d with reports := d.reports ++ [r] } :=
  { h with
    reportTokens := fun q hq => by
      rcases List.mem_append.mp hq with hq | hq
      · exact h.reportTokens q hq
      rw [List.mem_singleton.mp hq]
      exact ht }

theorem dropReports (setID : Nat) (cutoff : Bytes) : Linked (d.dropReports setID cutoff) :=
  { h with reportTokens := fun r hr => h.reportTokens r (List.mem_filter.mp hr).1 }

theorem addSession {s : SessionRow} (hhash : s.hash ∉ d.sessions.map (·.hash)) (huser : s.userID ∈ d.users.map (·.id)) :
    Linked { d with sessions := d.sessions ++ [s] } :=
  { h with
    sessionHashes := nodup_concat h.sessionHashes hhash
    sessionUsers := fun t ht => by
      rcases List.mem_append.mp ht with ht | ht
      · exact h.sessionUsers t ht
      rw [List.mem_singleton.mp ht]
      exact huser }

theorem setLastLogin (userID : Nat) (now : Bytes) : Linked (d.setLastLogin userID now) := by
  have hids : (d.setLastLogin userID now).users.map (·.id) = d.users.map (·.id) := by
    rw [Tables.setLastLogin, List.map_map]
    apply List.map_congr_left
    intro u _
    rw [Function.comp_apply]
    split <;> rfl
  exact { h with
    userIDs := hids ▸ h.userIDs
    sessionUsers := fun s hs => hids ▸ h.sessionUsers s hs }

theorem insertSession {S : Services} {userID : Nat} {hash createdAt expiresAt : Bytes} {d' : Tables} {i : Nat}
    (hins : Tables.insertSession S userID hash createdAt expiresAt d = .ok (i, d')) : Linked d' := by
  rw [Tables.insertSession] at hins
  by_cases hhash : d.sessions.any (·.hash == hash) = true
  · rw [if_pos hhash] at hins
    cases hins
  by_cases huser : d.users.all (·.id != userID) = true
  · rw [if_neg hhash, if_pos huser] at hins
    cases hins
  rw [if_neg hhash, if_neg huser] at hins
  cases hins
  apply h.addSession
  · simp_all
  simp_all

end Linked

section SignIn

variable {Conf : Type} {cfg : Settings} {K : Packages Conf} {r : Request}

theorem keeps_createSession (userID : Nat) (value : Bytes) (t expires : Instant) :
    (createSession K.services userID value t expires).Keeps Linked := by
  refine Client.Keeps.bind (fun d h => ?_) fun result => by cases result <;> exact .pure
  rw [Client.eval_transaction, createSessionTx, insertTx, Tx.eval, Insert.result, Insert.write]
  cases hins : Tables.insertSession K.services userID (K.services.hashToken value) t.format expires.format d with
  | error e => exact h
  | ok row => exact { ((h.insertSession hins).setLastLogin userID t.format).filterSessions _ with }

theorem keeps_consumeLogin (value : Bytes) (now : Instant) : (consumeLogin K.services value now).Keeps Linked := by
  refine Client.Keeps.bind (.exec fun d h => { h with }) fun affected => ?_
  exact .ite (Client.Keeps.bind .query fun _ => .pure) (Client.Keeps.bind .query fun _ => .pure)

theorem keeps_signupTx {I : Tables → Prop} {slug email : Bytes} {t : Instant}
    (horg : ∀ d i d', I d → Tables.insertOrg K.services slug email t.format d = .ok (i, d') → I d')
    (huser : ∀ orgID d i d', I d → Tables.insertUser K.services orgID email [] t.format d = .ok (i, d') → I d') :
    (Client.transaction (signupTx K slug email t) : Sql _).Keeps I := by
  intro d h
  rw [Client.eval_transaction, signupTx, insertTx, Tx.eval, Insert.result, Insert.write]
  cases hinsert : Tables.insertOrg K.services slug email t.format d with
  | error e => exact h
  | ok org =>
    have hwithOrg := horg d org.1 org.2 h hinsert
    grind [Tx.eval, Insert.write]

theorem keeps_signup {I : Tables → Prop} {email : Bytes} {t : Instant} {slugs : List Bytes}
    (htx : ∀ slug ∈ slugs, (Client.transaction (signupTx K slug email t) : Sql _).Keeps I) :
    (signup K email t slugs).Keeps I := by
  induction slugs with
  | nil => exact .pure
  | cons slug slugs ih =>
    have hrest := ih fun s hs => htx s (List.mem_cons_of_mem slug hs)
    refine (htx slug List.mem_cons_self).bind fun result => ?_
    cases result with
    | error e => cases e <;> first | exact hrest | exact .pure
    | ok userID =>
      refine Client.Keeps.bind .query fun user => ?_
      cases user with
      | error e => exact .pure
      | ok u => exact Client.Keeps.bind .query fun org => by cases org <;> exact .pure

theorem linked_signup (hS : K.services.Numbers) (email : Bytes) (t : Instant) (slugs : List Bytes) :
    (signup K email t slugs).Keeps Linked :=
  keeps_signup fun _ _ => keeps_signupTx (fun _ _ _ => linked_insertOrg) fun _ _ _ _ => linked_insertUser hS

theorem keeps_getUserByEmail (email : Bytes) : (getUserByEmail K.services email).Keeps Linked := by
  rw [getUserByEmail]
  cases normalizeEmail K.services email with
  | error e => exact .pure
  | ok email => exact .query

theorem keeps_signIn (email : Bytes) (user : UserRow) (session : Bytes) (expires : Instant) :
    (signIn K r email user session expires).Keeps Linked := by
  refine (keeps_createSession _ _ _ _).bind fun result => ?_
  cases result with
  | error e => exact .pure
  | ok _ => exact Client.Keeps.bind ((keeps_record _).bind fun _ => .pure) fun _ => .pure

theorem keeps_verify (hS : K.services.Numbers) (allowed : Bool) (value session : Bytes) (slugs : List Bytes)
    (expires : Instant) : (verify cfg K r allowed value session slugs expires).Keeps Linked := by
  refine .ite .pure (.ite .pure (.ite .pure ((keeps_consumeLogin _ _).bind fun result => ?_)))
  cases result with
  | error e => cases e <;> exact .pure
  | ok email =>
    refine (keeps_getUserByEmail email).bind fun found => ?_
    cases found with
    | ok user => exact keeps_signIn _ _ _ _
    | error e =>
      cases e with
      | notFound =>
        refine .ite .pure ((linked_signup hS _ _ _).bind fun result => ?_)
        cases result with
        | error e => exact .pure
        | ok account => exact Client.Keeps.bind ((keeps_record _).bind fun _ => .pure) fun _ => keeps_signIn _ _ _ _
      | _ => exact .pure

theorem keeps_login (allowed : Bool) (email : Body Bytes) (allowedEmail : Bool) :
    (login cfg K r allowed email allowedEmail).Keeps Linked := by
  refine .ite .pure (.ite .pure (.ite .pure (keeps_decode email fun email => ?_)))
  cases normalizeEmail K.services email with
  | error e => exact .pure
  | ok email =>
    have hsend : (do
        if ← sendLink cfg K r email then respond 200 .sent
        else fail 502 (bs "the mail could not be sent; try again later") : Sql (Answer Conf)).Keeps Linked :=
      (keeps_sendLink email).bind fun _ => .ite .pure .pure
    refine .ite .pure ((keeps_getUserByEmail email).bind fun user => ?_)
    cases user with
    | ok u => exact hsend
    | error e =>
      cases e with
      | notFound =>
        cases cfg.signup with
        | false => exact .pure
        | true => exact hsend
      | _ => exact .pure

end SignIn

section Clusters

variable {Conf : Type} {K : Packages Conf} {v : Visit}

def Access.Stored (acc : Access) (d : Tables) : Prop :=
  Linked d ∧ ∃ t ∈ d.tokens, t.id = acc.token.id ∧ t.setID = acc.set.id

theorem setByID_id {d : Tables} {i : Nat} {s : RuleSet} (h : d.setByID i = some s) : s.id = i := by
  rw [Tables.setByID, Option.map_eq_some_iff] at h
  obtain ⟨row, hrow, rfl⟩ := h
  have hid := List.find?_some hrow
  exact beq_iff_eq.mp hid

theorem eval_authenticateToken (value : Bytes) (d : Tables) :
    ((authenticateToken K value).eval d).2 = d ∧ ∀ acc, ((authenticateToken K value).eval d).1 = .ok acc →
      acc.token ∈ d.tokens ∧ acc.token.setID = acc.set.id := by
  rw [authenticateToken, Client.eval_bind, Client.eval_query]
  cases htoken : d.tokens.find? (·.hash == K.services.hashToken value) with
  | none => exact ⟨rfl, fun _ h => by cases h⟩
  | some t =>
    dsimp only
    split
    · exact ⟨rfl, fun _ h => by cases h⟩
    rw [Client.eval_bind, getSetByID, Client.eval_query]
    cases hset : d.setByID t.setID with
    | none => exact ⟨rfl, fun _ h => by cases h⟩
    | some s =>
      dsimp only [found]
      rw [Client.eval_bind, getOrgByID, Client.eval_query]
      cases d.orgs.find? (·.id == s.orgID) with
      | none => exact ⟨rfl, fun _ h => by cases h⟩
      | some o =>
        refine ⟨rfl, fun acc hacc => ?_⟩
        cases hacc
        exact ⟨List.mem_of_find?_eq_some htoken, (setByID_id hset).symm⟩

theorem keeps_withAccess {kind : Bytes} {next : Access → Sql (Answer Conf)}
    (hnext : ∀ acc, (next acc).Keeps acc.Stored) :
    (withAccess K v kind next).Keeps Linked := by
  rw [withAccess]
  cases v.bearer with
  | none => exact .pure
  | some value =>
    intro d h
    obtain ⟨hsame, hstored⟩ := eval_authenticateToken (K := K) value d
    rw [Client.eval_bind, hsame]
    cases hacc : ((authenticateToken K value).eval d).1 with
    | error e =>
      cases e with
      | none => exact h
      | some e => cases e <;> exact h
    | ok acc =>
      obtain ⟨hmem, hset⟩ := hstored acc hacc
      have hlinked {c : Sql (Answer Conf)} (hc : c.Keeps acc.Stored) : Linked (c.eval d).2 :=
        (hc d ⟨h, acc.token, hmem, rfl, hset⟩).1
      apply hlinked
      exact .ite .pure (.ite .pure (.ite (.ite .pure .pure) (hnext acc)))

theorem keeps_touch (acc : Access) : (touch v acc).Keeps acc.Stored := by
  refine .exec fun d h => ⟨h.1.touchToken _ _ _ _, ?_⟩
  obtain ⟨t, ht, hid, hset⟩ := h.2
  refine ⟨_, List.mem_map_of_mem ht, ?_, ?_⟩
  · split
    · exact hid
    exact hid
  split
  · exact hset
  exact hset

theorem keeps_countPull (acc : Access) (tokenID : Nat) (notModified : Bool) (day cutoff : Bytes) :
    (countPull tokenID notModified day cutoff).Keeps acc.Stored := by
  refine Client.Keeps.bind (.exec fun d h => ⟨h.1.bumpPull _ _ _, h.2⟩) fun affected => .ite ?_ .pure
  refine Client.Keeps.bind (.exec fun d h => ⟨h.1.insertPull _ _ _, ?_⟩) fun known =>
    .ite (Client.Keeps.bind (.exec fun d h => ⟨h.1.dropPulls _ _, h.2⟩) fun _ => .pure) .pure
  rw [tokens_insertPull]
  exact h.2

theorem keeps_servePolicy : (servePolicy K v).Keeps Linked := by
  refine keeps_withAccess fun acc => (keeps_touch acc).bind fun _ => Client.Keeps.bind .query fun version => ?_
  cases version with
  | error e => cases e <;> exact .pure
  | ok version =>
    exact .ite ((keeps_countPull acc _ _ _ _).bind fun _ => .pure) ((keeps_countPull acc _ _ _ _).bind fun _ => .pure)

theorem keeps_serveSignature : (serveSignature K v).Keeps Linked := by
  refine keeps_withAccess fun acc => (keeps_touch acc).bind fun _ => Client.Keeps.bind .query fun pub => ?_
  cases pub with
  | error e => cases e <;> exact .pure
  | ok pub =>
    exact .ite .pure (Client.Keeps.bind .query fun version => by cases version <;> exact .pure)

theorem keeps_addReport (acc : Access) (b : ReportBody) (now cutoff : Instant) :
    (addReport K.services (b.row acc.set.id acc.token.id) now cutoff).Keeps acc.Stored := by
  intro d h
  rcases eval_addReport K.services (b.row acc.set.id acc.token.id) now cutoff d with ⟨e, heq⟩ | ⟨id, heq⟩
  · rw [heq]
    exact h
  rw [heq]
  exact ⟨(h.1.addReport h.2).dropReports _ _, h.2⟩

theorem keeps_takeReport (body : Body ReportBody) (now cutoff : Instant) :
    (takeReport K v body now cutoff).Keeps Linked := by
  refine keeps_withAccess fun acc => (keeps_touch acc).bind fun _ => ?_
  cases body with
  | error problem => cases problem <;> exact .pure
  | ok b =>
    rw [decode]
    cases b.check with
    | error e => exact .pure
    | ok _ => exact (keeps_addReport acc b now cutoff).bind fun result => by cases result <;> exact .pure

end Clusters

section Runs

variable {Conf : Type} {cfg : Settings} {K : Packages Conf}

theorem keeps_serve (hS : K.services.Numbers) (a : Arrival) : (serve cfg K a).Keeps Linked := by
  cases a with
  | manage r route => exact keeps_manage hS route
  | policy v => exact keeps_servePolicy
  | signature v => exact keeps_serveSignature
  | report v body now cutoff => exact keeps_takeReport body now cutoff
  | login r allowed email allowedEmail => exact keeps_login allowed email allowedEmail
  | verify r allowed value session slugs expires => exact keeps_verify hS allowed value session slugs expires

theorem linked_startServer (t : Instant) : Linked (startServer cfg K t) := by
  rw [startServer]
  by_cases h : cfg.singleTenant = true
  · rw [if_pos h]
    exact keeps_createOrg _ _ t _ linked_empty
  rw [if_neg h]
  exact linked_empty

theorem linked_afterRequests (hS : K.services.Numbers) (requests : List Arrival) {d : Tables} (h : Linked d) :
    Linked (afterRequests cfg K d requests) := by
  induction requests generalizing d with
  | nil => exact h
  | cons a requests ih => exact ih (keeps_serve hS a d h)

/-- Whatever requests a fresh server has served, every row of its tables has the rows it refers to. -/
theorem linked_reached (hS : K.services.Numbers) (t : Instant) (requests : List Arrival) :
    Linked (afterRequests cfg K (startServer cfg K t) requests) :=
  linked_afterRequests hS requests (linked_startServer t)

def openServer : Settings := ⟨[], true, false, true, false⟩

def nextMidnight : Instant := ⟨739617 * 86400 * 10 ^ 9, by decide⟩

/-- An invited member signs in, and a cluster pulls the rule set published meanwhile. -/
def openRequests : List Arrival :=
  let r := { sampleRequest with linkExpires := nextMidnight, drawn := bs "d" }
  [.manage r (.invite (bs "default") (.ok (bs "u@a.io"))),
    .verify r true (bs "d") (bs "c") [] nextMidnight,
    .manage r (.createSet (bs "default") (.ok ⟨bs "s", []⟩)),
    .manage r (.createVersion (bs "default") (bs "s") (.ok ⟨bs "x", [], []⟩)),
    .manage r (.publish (bs "default") (bs "s") (.ok ⟨1, [], 0, [], []⟩)),
    .manage r (.createToken (bs "default") (bs "s") (.ok ⟨bs "t", []⟩)),
    .policy ⟨some (bs "psr_d"), bs "default", bs "s", true, [], bs "1", [], bs "1", [], fun _ => false⟩]

def openTables : Tables :=
  afterRequests openServer plainPackages (startServer openServer plainPackages midnight) openRequests

theorem linked_reached_open : Linked openTables ∧ openTables.sessions.length = 1 ∧ openTables.versions.length = 1 ∧
    openTables.publications.length = 1 ∧ openTables.tokens.length = 1 ∧ openTables.pulls.length = 1 :=
  ⟨linked_reached numbers_counting midnight openRequests, by decide +kernel⟩

end Runs

end PiiShield.Panel
