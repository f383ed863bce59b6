import PiiShield.Panel.TwoRuns

/-! The functions of the store that are called for an organization, each run on two databases
side by side. -/

namespace PiiShield.Panel

open Transactions Restriction

variable {d e : Tables} {v : VersionRow}

section Evaluation

variable {S : Services} {d w : Tables}

theorem eval_insertTx (f : Insert) (next : Nat → StoreTx) : (insertTx f next).eval d w =
      match f w with
      | .ok (i, w') => (next i).eval d w'
      | .error e => (.error e, d) := by
  rw [insertTx, Tx.eval, Insert.result, Insert.write]
  cases f w <;> rfl

theorem any_eq_not_lacksSet (setID : Nat) : d.sets.any (·.id == setID) = !d.lacksSet setID := by
  rw [Tables.lacksSet, List.all_eq_not_any_not, Bool.not_not]
  simp only [bne, Bool.not_not]

theorem countP_eq_zero_iff_lacksSet (setID : Nat) : d.sets.countP (·.id == setID) = 0 ↔ d.lacksSet setID = true := by
  simp [Tables.lacksSet, List.countP_eq_zero]

theorem eval_lockSet (pg : Bool) (setID : Nat) (locked : StoreTx) : (lockSet pg setID locked).eval d d =
      if pg && d.lacksSet setID then (.error .notFound, d) else locked.eval d d := by
  cases pg with
  | false => rfl
  | true =>
    rw [lockSet, if_pos rfl, Tx.eval, any_eq_not_lacksSet, Bool.true_and]
    cases d.lacksSet setID <;> rfl

def VersionRequest.row (req : VersionRequest) (setID revision : Nat) (content etag : Bytes)
    (t : Instant) : VersionRow :=
  ⟨0, setID, revision, content, etag, req.author, req.comment, t.format⟩

theorem eval_createVersionTx (pg : Bool) (setID : Nat) (req : VersionRequest) (t : Instant) :
    (createVersionTx S pg setID req t).eval d d =
      if d.lacksSet setID then (.error .notFound, d)
      else
        match req.canonical (d.nextRevision setID) with
        | .error message => (.error (.rejected message), d)
        | .ok (content, etag) =>
          match Tables.insertVersion S (req.row setID (d.nextRevision setID) content etag t) d with
          | .ok (i, d') => (.ok i, d')
          | .error e => (.error e, d) := by
  rw [createVersionTx, eval_lockSet, Tx.eval]
  by_cases hset : d.lacksSet setID = true
  · rw [if_pos hset, if_pos ((countP_eq_zero_iff_lacksSet setID).mpr hset), Tx.eval, ite_self]
  rw [if_neg hset, if_neg (mt (countP_eq_zero_iff_lacksSet setID).mp hset), if_neg (by simp [hset]), Tx.eval, id]
  cases req.canonical (d.nextRevision setID) with
  | error message => rfl
  | ok file => exact eval_insertTx _ _

def PublishRequest.row (req : PublishRequest) (setID seq versionID : Nat) (t : Instant) : PublicationRow :=
  ⟨0, setID, seq, versionID, req.author, req.keyID, req.signature, t.format⟩

theorem eval_insertPublicationTx (setID : Nat) (req : PublishRequest) (v : VersionRow) (seq : Nat) (t : Instant) :
    (insertPublicationTx S setID req v seq t).eval d d =
      match Tables.insertPublication S (req.row setID seq v.id t) (d.setPublished setID v.id) with
      | .ok (_, d') => (.ok seq, d')
      | .error .unique => (.error .stale, d)
      | .error e => (.error e, d) := by
  rw [insertPublicationTx, Tx.eval, Tx.eval, Insert.result, Insert.write, PublishRequest.row]
  cases Tables.insertPublication S ⟨0, setID, seq, v.id, req.author, req.keyID, req.signature, t.format⟩
      (d.setPublished setID v.id) with
  | ok r => rfl
  | error e => cases e <;> rfl

theorem mem_of_version {setID : Nat} {revision : Int} (hv : d.version setID revision = some v) :
    v ∈ d.versions ∧ v.setID = setID := by
  have hfound := List.find?_some hv
  rw [Bool.and_eq_true, beq_iff_eq] at hfound
  exact ⟨List.mem_of_find?_eq_some hv, hfound.1⟩

theorem eval_publishTx (pg : Bool) (setID : Nat) (req : PublishRequest) (t : Instant) :
    (publishTx S pg setID req t).eval d d =
      if pg && d.lacksSet setID then (.error .notFound, d)
      else
        match d.version setID req.revision with
        | none => (.error .notFound, d)
        | some v =>
          if req.seq ≠ 0 ∧ req.seq ≠ d.nextSeq setID then (.error .stale, d)
          else
            match req.check (d.nextSeq setID) v with
            | .error e => (.error e, d)
            | .ok () => (insertPublicationTx S setID req v (d.nextSeq setID) t).eval d d := by
  rw [publishTx, eval_lockSet, Tx.eval, id]
  cases d.version setID req.revision with
  | none => rfl
  | some v =>
    simp only [Tx.eval, id]
    by_cases hstale : req.seq ≠ 0 ∧ req.seq ≠ d.nextSeq setID
    · rw [if_pos hstale, if_pos hstale, Tx.eval]
    rw [if_neg hstale, if_neg hstale]
    cases req.check (d.nextSeq setID) v <;> rfl

theorem insertLogin_eq (email hash createdAt expiresAt : Bytes) :
    Tables.insertLogin S email hash createdAt expiresAt =
      Tables.insertRow S (fun d => Tables.violated (d.logins.any (·.hash == hash)) false) (·.logins.map (·.id))
        fun id => Tables.addLogin ⟨id, email, hash, createdAt, expiresAt, none⟩ := by
  funext d
  rw [Tables.insertLogin, Tables.insertRow, Tables.violated]
  cases d.logins.any (·.hash == hash) <;> rfl

end Evaluation

def Isolated {α : Type} (A : Nat) (hash : Bytes) (start start' : Tables) (own : List Nat) (c : Sql α) : Prop :=
  c.Agrees (Twin A hash start start' own) fun _ => Twin A hash start start' own

section Isolated

variable {A : Nat} {hash : Bytes} {start start' : Tables} {own : List Nat} {α β : Type}

theorem Isolated.pure (a : α) : Isolated A hash start start' own (pure a : Sql α) := Client.Agrees.pure fun _ _ h => h

theorem Isolated.bind {c : Sql α} {f : α → Sql β} (hc : Isolated A hash start start' own c)
    (hf : ∀ a, Isolated A hash start start' own (f a)) : Isolated A hash start start' own (c >>= f) :=
  Client.Agrees.bind hc hf

theorem Isolated.query {read : Tables → α} (hread : Reads A own read) :
    Isolated A hash start start' own (Client.query read) :=
  Client.Agrees.query (fun _ _ h => h.read_eq hread) fun _ _ h => h

theorem Isolated.exec {write : Tables → Tables} {report : Tables → α} {P : Tables → Prop} (hwrite : Local A P write)
    (hP : ∀ s d, Held A hash own s d → P d) (hreport : Reads A own report) :
    Isolated A hash start start' own (Client.exec write report) :=
  Client.Agrees.exec (fun _ _ h => h.read_eq hreport) fun _ _ h => h.write hwrite (hP _ _ h.left) (hP _ _ h.right)

theorem Isolated.retry {again : StoreError → Bool} {attempt : Sql (Except StoreError α)}
    (h : Isolated A hash start start' own attempt) (retries : Nat) :
    Isolated A hash start start' own (retry again attempt retries) := by
  induction retries with
  | zero => exact h
  | succ retries ih =>
    refine h.bind fun r => ?_
    cases r with
    | ok a => exact .pure _
    | error e =>
      by_cases hagain : again e = true
      · simp only [hagain, if_true]
        exact ih
      simp only [hagain]
      exact .pure _

theorem isolated_getOrgByID : Isolated A hash start start' own (getOrgByID A) := by
  apply Isolated.query
  intro d h howns
  have horg : (d.ownRows A).orgs.find? (·.id == A) = d.orgs.find? (·.id == A) := reads_org d h howns
  dsimp only
  rw [horg]

/-- An insert of an organization; `P` is what its write needs. -/
structure Insertable (A : Nat) (hash : Bytes) (own : List Nat) (ids : Tables → List Nat)
    (add : Nat → Tables → Tables) (P : Nat → Tables → Prop) : Prop where
  writes : ∀ i, Local A (P i) (add i)
  holds : ∀ s d, Held A hash own s d → ∀ i, i ∉ ids d → P i d
  ids : ∀ d e, Known d e → SameMembers (ids d) (ids e)

variable {S : Services} (hS : S.Numbers) {problem : Tables → Option StoreError} {ids : Tables → List Nat}
  {add : Nat → Tables → Tables} {P : Nat → Tables → Prop}

include hS

theorem Twin.insertRow (h : Twin A hash start start' own d e) (hwrites : ∀ i, Local A (P i) (add i))
    (hids : SameMembers (ids d) (ids e)) (hproblem : problem d = problem e) (hd : ∀ i, i ∉ ids d → P i d)
    (he : ∀ i, i ∉ ids e → P i e) :
    (∃ err, Tables.insertRow S problem ids add d = .error err ∧ Tables.insertRow S problem ids add e = .error err) ∨
      ∃ i, Tables.insertRow S problem ids add d = .ok (i, add i d) ∧
        Tables.insertRow S problem ids add e = .ok (i, add i e) ∧
        i ∉ ids d ∧ i ∉ ids e ∧ Twin A hash start start' own (add i d) (add i e) := by
  have hsame := hS.same _ _ hids
  cases hnone : problem d with
  | some err =>
    refine .inl ⟨err, ?_, ?_⟩
    · rw [Tables.insertRow, hnone]
    rw [Tables.insertRow, ← hproblem, hnone]
  | none =>
    have hfresh := hS.fresh (ids d)
    have hfresh' : S.newID (ids d) ∉ ids e := hsame ▸ hS.fresh (ids e)
    refine .inr ⟨S.newID (ids d), ?_, ?_, hfresh, hfresh', ?_⟩
    · rw [Tables.insertRow, hnone]
    · rw [Tables.insertRow, ← hproblem, hnone, hsame]
    exact h.write (hwrites _) (hd _ hfresh) (he _ hfresh')

theorem isolated_insert (hinsert : Insertable A hash own ids add P)
    (hproblem : ∀ d e, Twin A hash start start' own d e → problem d = problem e) :
    Isolated A hash start start' own (insert (Tables.insertRow S problem ids add)) := by
  intro d e h
  rw [insert, Client.eval_exec, Client.eval_exec, Insert.result, Insert.result, Insert.write, Insert.write]
  rcases h.insertRow hS hinsert.writes (hinsert.ids d e h.known) (hproblem d e h) (hinsert.holds _ d h.left)
      (hinsert.holds _ e h.right) with ⟨err, hd, he⟩ | ⟨i, hd, he, -, -, hadd⟩
  · rw [hd, he]
    exact ⟨rfl, h⟩
  rw [hd, he]
  exact ⟨rfl, hadd⟩

theorem isolated_insertAndGet {get : Nat → Tables → Option α} (hinsert : Insertable A hash own ids add P)
    (hproblem : ∀ d e, Twin A hash start start' own d e → problem d = problem e)
    (hget : ∀ i d e, i ∉ ids d → i ∉ ids e → Twin A hash start start' own (add i d) (add i e) →
      get i (add i d) = get i (add i e)) :
    Isolated A hash start start' own (insertAndGet (Tables.insertRow S problem ids add) get) := by
  intro d e h
  rw [insertAndGet, Client.eval_bind, Client.eval_bind, insert, Client.eval_exec, Client.eval_exec, Insert.result,
    Insert.result, Insert.write, Insert.write]
  rcases h.insertRow hS hinsert.writes (hinsert.ids d e h.known) (hproblem d e h) (hinsert.holds _ d h.left)
      (hinsert.holds _ e h.right) with ⟨err, hd, he⟩ | ⟨i, hd, he, hid, hie, hadd⟩
  · rw [hd, he]
    exact ⟨rfl, h⟩
  rw [hd, he]
  exact ⟨congrArg found (hget i d e hid hie hadd), hadd⟩

theorem isolated_record {e : EventRow} (he : e.orgID = A) : Isolated A hash start start' own (record S e) := by
  apply isolated_insert hS (P := fun _ _ => True)
  · exact ⟨fun i => local_addEvent he, fun _ _ _ _ _ => trivial, fun _ _ h => h.eventIDs⟩
  intro d e' h
  rw [he, h.read_eq reads_lacksOrg]

theorem isolated_createLogin (email value : Bytes) (t expires : Instant) :
    Isolated A hash start start' own (createLogin S email value t expires) := by
  rw [createLogin]
  cases normalizeEmail S email with
  | error err => exact .pure _
  | ok email =>
    refine Isolated.bind ?_ fun r => by cases r <;> exact .pure _
    rw [insertLogin_eq]
    apply isolated_insert hS (P := fun _ _ => True)
    · exact ⟨fun i => local_addLogin _, fun _ _ _ _ _ => trivial, fun _ _ h => h.loginIDs⟩
    intro d e h
    rw [h.known.loginHashes.any_eq]

theorem isolated_createUser (email invitedBy : Bytes) (t : Instant) :
    Isolated A hash start start' own (createUser S A email invitedBy t) := by
  rw [createUser]
  cases normalizeEmail S email with
  | error err => exact .pure _
  | ok email =>
    refine isolated_getOrgByID.bind fun r => ?_
    · cases r with
      | error err => exact .pure _
      | ok org =>
        refine Isolated.bind ?_ fun r => .pure _
        apply isolated_insertAndGet hS (P := fun i d => i ∉ d.users.map (·.id))
        · exact ⟨fun i => local_addUser (by rfl) (by rfl), fun _ _ _ _ hi => hi, fun _ _ h => h.userIDs⟩
        · intro d e h
          rw [h.known.emails.any_eq, h.read_eq reads_lacksOrg]
        grind [Tables.addUser, find?_key]

theorem isolated_createSet (slug name : Bytes) (t : Instant) :
    Isolated A hash start start' own (createSet S A slug name t) := by
  rw [createSet]
  cases checkSlug slug with
  | error err => exact .pure _
  | ok _ =>
    refine Isolated.bind ?_ fun r => .pure _
    apply isolated_insertAndGet hS (P := fun i d => i ∉ d.sets.map (·.id))
    · exact ⟨fun i => local_addSet (by rfl) (by rfl) (by rfl), fun _ _ _ _ hi => hi, fun _ _ h => h.setIDs⟩
    · intro d e h
      rw [h.read_eq (reads_hasSlug slug), h.read_eq reads_lacksOrg]
    intro i d e _ _ h
    exact h.read_eq (reads_setBySlug slug)

theorem isolated_addSigningKey (keyID name publicKey createdBy : Bytes) (t : Instant) :
    Isolated A hash start start' own (addSigningKey S A keyID name publicKey createdBy t) := by
  refine Isolated.bind ?_ fun r => .pure _
  apply isolated_insertAndGet hS (P := fun _ _ => True)
  · exact ⟨fun i => local_addKey rfl, fun _ _ _ _ _ => trivial, fun _ _ h => h.keyIDs⟩
  · intro d e h
    rw [h.read_eq (reads_hasKey keyID), h.read_eq reads_lacksOrg]
  grind [Tables.keyByID, Tables.addKey, find?_key]

variable {setID : Nat} (hset : setID ∈ own)

include hset

theorem isolated_createToken (name kind drawn : Bytes) (t : Instant) :
    Isolated A hash start start' own (createToken S setID name kind drawn t) := by
  rw [createToken]
  split
  · exact .pure _
  refine Isolated.bind (.query ((reads_setByID hset).map found)) fun r => ?_
  cases r with
  | error err => exact .pure _
  | ok set =>
    refine Isolated.bind ?_ fun r => by cases r <;> exact .pure _
    apply isolated_insertAndGet hS (P := fun i d => i ∉ d.tokens.map (·.id) ∧ d.ownsSet A setID = true)
    · exact ⟨fun i => local_addToken (by rfl) (by rfl), fun _ _ h _ hi => ⟨hi, h.owned setID hset⟩,
        fun _ _ h => h.tokenIDs⟩
    · intro d e h
      rw [h.known.tokenHashes.any_eq, h.read_eq (reads_lacksSet hset)]
    intro i d e hd he _
    rw [Tables.tokenByID, Tables.tokenByID, Tables.addToken, Tables.addToken, find?_key hd rfl, find?_key he rfl]

omit hS hset in
theorem lacksSet_of_ownsSet (h : d.ownsSet A setID = true) : ¬ d.lacksSet setID = true := by
  obtain ⟨s, hs, hid, -⟩ := ownsSet_iff.mp h
  intro hlacks
  have hne := List.all_eq_true.mp hlacks s hs
  rw [hid] at hne
  simp at hne

theorem Twin.insertVersion (h : Twin A hash start start' own d e) (hv : v.setID = setID) :
    (∃ err, Tables.insertVersion S v d = .error err ∧ Tables.insertVersion S v e = .error err) ∨
      ∃ i, Tables.insertVersion S v d = .ok (i, d.addVersion { v with id := i }) ∧
        Tables.insertVersion S v e = .ok (i, e.addVersion { v with id := i }) ∧
        i ∉ d.versions.map (·.id) ∧ i ∉ e.versions.map (·.id) ∧
        Twin A hash start start' own (d.addVersion { v with id := i }) (e.addVersion { v with id := i }) := by
  have hwrites (i : Nat) : Local A (fun d => i ∉ d.versions.map (·.id) ∧ d.ownsSet A setID = true)
      (Tables.addVersion { v with id := i }) := local_addVersion rfl hv
  apply h.insertRow hS hwrites h.known.versionIDs
  · rw [hv, h.read_eq (reads_hasRevision hset _), h.read_eq (reads_lacksSet hset)]
  · exact fun i hi => ⟨hi, h.left.owned setID hset⟩
  exact fun i hi => ⟨hi, h.right.owned setID hset⟩

theorem agrees_createVersionTx (pg : Bool) (req : VersionRequest) (t : Instant) :
    (Client.transaction (createVersionTx S pg setID req t) : Sql _).Agrees (Twin A hash start start' own)
      fun r d e => Twin A hash start start' own d e ∧ ∀ i, r = .ok i → d.versionByID i = e.versionByID i := by
  intro d e h
  rw [Client.eval_transaction, Client.eval_transaction, eval_createVersionTx, eval_createVersionTx,
    if_neg (lacksSet_of_ownsSet (h.left.owned setID hset)), if_neg (lacksSet_of_ownsSet (h.right.owned setID hset)),
    h.read_eq (reads_nextRevision hset)]
  cases req.canonical (e.nextRevision setID) with
  | error message => exact ⟨rfl, h, nofun⟩
  | ok file =>
    obtain ⟨content, etag⟩ := file
    have hrow : (req.row setID (e.nextRevision setID) content etag t).setID = setID := rfl
    dsimp only
    rcases h.insertVersion hS hset hrow with ⟨err, hd, he⟩ | ⟨i, hd, he, hid, hie, hadd⟩
    · rw [hd, he]
      exact ⟨rfl, h, nofun⟩
    grind [Tables.versionByID, Tables.addVersion, find?_key]

theorem isolated_createVersion (pg : Bool) (req : VersionRequest) (t : Instant) :
    Isolated A hash start start' own (createVersion S pg setID req t) := by
  apply Isolated.retry
  refine Client.Agrees.bind (agrees_createVersionTx hS hset pg req t) fun r => ?_
  cases r with
  | error err => exact Client.Agrees.pure fun _ _ h => h.1
  | ok i => exact Client.Agrees.query (fun _ _ h => congrArg found (h.2 i rfl)) fun _ _ h => h.1

theorem Twin.insertPublication (h : Twin A hash start start' own d e) {p : PublicationRow}
    (hp : p.setID = setID) (hvid : v.id = p.versionID) (hvset : v.setID = setID)
    (hvd : v ∈ d.versions) (hve : v ∈ e.versions) :
    (∃ err, Tables.insertPublication S p d = .error err ∧ Tables.insertPublication S p e = .error err) ∨
      ∃ i, Tables.insertPublication S p d = .ok (i, d.addPublication { p with id := i }) ∧
        Tables.insertPublication S p e = .ok (i, e.addPublication { p with id := i }) ∧
        i ∉ d.publications.map (·.id) ∧ i ∉ e.publications.map (·.id) ∧
        Twin A hash start start' own (d.addPublication { p with id := i }) (e.addPublication { p with id := i }) := by
  have hversion (d : Tables) (hvd : v ∈ d.versions) : d.lacksVersion p.versionID = false := by
    grind [Tables.lacksVersion]
  have hwrites (i : Nat) : Local A (fun d => d.ownsSet A setID = true ∧
      ∃ v ∈ d.versions, v.id = p.versionID ∧ v.setID = setID) (Tables.addPublication { p with id := i }) :=
    local_addPublication hp rfl
  apply h.insertRow hS hwrites h.known.publicationIDs
  · rw [hp, h.read_eq (reads_hasSeq hset _), h.read_eq (reads_lacksSet hset), hversion d hvd, hversion e hve]
  · exact fun i _ => ⟨h.left.owned setID hset, v, hvd, hvid, hvset⟩
  exact fun i _ => ⟨h.right.owned setID hset, v, hve, hvid, hvset⟩

theorem Twin.insertPublicationTx (h : Twin A hash start start' own d e) (req : PublishRequest) (hvd : v ∈ d.versions)
    (hve : v ∈ e.versions) (hvset : v.setID = setID) (seq : Nat) (t : Instant) :
    ((insertPublicationTx S setID req v seq t).eval d d).1 = ((insertPublicationTx S setID req v seq t).eval e e).1 ∧
      Twin A hash start start' own ((insertPublicationTx S setID req v seq t).eval d d).2
        ((insertPublicationTx S setID req v seq t).eval e e).2 := by
  have hserved : Twin A hash start start' own (d.setPublished setID v.id) (e.setPublished setID v.id) :=
    h.write (local_setPublished setID v.id) ⟨h.left.owned setID hset, v, hvd, rfl, hvset⟩
      ⟨h.right.owned setID hset, v, hve, rfl, hvset⟩
  have hrow : (req.row setID seq v.id t).setID = setID := rfl
  have hvid : v.id = (req.row setID seq v.id t).versionID := rfl
  rw [eval_insertPublicationTx, eval_insertPublicationTx]
  rcases hserved.insertPublication hS hset hrow hvid hvset hvd hve with ⟨err, hd, he⟩ | ⟨i, hd, he, -, -, hadd⟩
  · rw [hd, he]
    cases err <;> exact ⟨rfl, h⟩
  rw [hd, he]
  exact ⟨rfl, hadd⟩

theorem isolated_publishTx (pg : Bool) (req : PublishRequest) (t : Instant) :
    Isolated A hash start start' own (Client.transaction (publishTx S pg setID req t)) := by
  intro d e h
  have hd := lacksSet_of_ownsSet (h.left.owned setID hset)
  have he := lacksSet_of_ownsSet (h.right.owned setID hset)
  have hversion := h.read_eq (reads_version hset req.revision)
  rw [Client.eval_transaction, Client.eval_transaction, eval_publishTx, eval_publishTx, if_neg (by simp [hd]),
    if_neg (by simp [he]), h.read_eq (reads_nextSeq hset), hversion]
  cases hv : e.version setID req.revision with
  | none => exact ⟨rfl, h⟩
  | some v =>
    obtain ⟨hmem, hvset⟩ := mem_of_version hv
    dsimp only
    by_cases hstale : req.seq ≠ 0 ∧ req.seq ≠ e.nextSeq setID
    · rw [if_pos hstale, if_pos hstale]
      exact ⟨rfl, h⟩
    rw [if_neg hstale, if_neg hstale]
    cases req.check (e.nextSeq setID) v with
    | error err => exact ⟨rfl, h⟩
    | ok _ =>
      exact h.insertPublicationTx hS hset req (mem_of_version (hversion.trans hv)).1 hmem hvset _ t

theorem isolated_publish (pg : Bool) (req : PublishRequest) (t : Instant) :
    Isolated A hash start start' own (publish S pg setID req t) := by
  apply Isolated.retry
  refine (isolated_publishTx hS hset pg req t).bind fun r => ?_
  cases r <;> exact .pure _

end Isolated

section Updates

variable {A : Nat} {hash : Bytes} {start start' : Tables} {own : List Nat} {setID : Nat}

theorem isolated_revokeToken (hset : setID ∈ own) (id : Int) (t : Instant) :
    Isolated A hash start start' own (revokeToken setID id t) := by
  refine Isolated.bind ?_ fun affected => .pure _
  refine .exec (local_revokeToken setID id t.format) (fun _ _ h => h.owned setID hset) ?_
  intro d _ howns
  apply countP_restrict
  simp_all [Tables.isToken]

theorem isolated_revokeSigningKey (id : Int) (t : Instant) :
    Isolated A hash start start' own (revokeSigningKey A id t) := by
  refine Isolated.bind ?_ fun affected => .pure _
  refine .exec (P := fun _ => True) (local_revokeKey id t.format) (fun _ _ _ => trivial) ?_
  intro d _ _
  apply countP_restrict
  intro k _ hk
  rw [Tables.isKey, Bool.and_eq_true] at hk
  rw [hk.2]
  rfl

theorem isolated_published (hset : setID ∈ own) : Isolated A hash start start' own (published setID) := by
  apply Isolated.query
  intro d h howns
  dsimp only
  rw [reads_publishedVersion hset d h howns]

theorem isolated_latestPublication (hset : setID ∈ own) :
    Isolated A hash start start' own (latestPublication setID) := by
  apply Isolated.query
  intro d h howns
  dsimp only
  rw [reads_publicationsOf hset d h howns]

theorem isolated_deleteSession {S : Services} {value : Bytes} (hvalue : S.hashToken value = hash) :
    Isolated A hash start start' own (deleteSession S value) := by
  rw [deleteSession, hvalue]
  exact .exec (local_dropSession hash) (fun _ _ h => h.session) fun _ _ _ => rfl

end Updates

end PiiShield.Panel
