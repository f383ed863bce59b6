import PiiShield.Rules.Numbering
import PiiShield.Rules.Server

/-! What the requests of the rule server keep in every committed state: sets are numbered,
registered keys can be read, and a signature that is stored was verified with a key of the
organization for exactly the publication it is stored with. -/

namespace PiiShield.Rules

open Operator Transactions

variable {Num : Type} (P : Platform Num)

variable {author : Bytes} {d d' : Database} {s s' : RuleSet}

def SignedBy (d : Database) (s : RuleSet) (p : Publication) (v : Version) : Prop :=
  ∃ k ∈ d.keys, ∃ key, k.org = s.org ∧ k.keyID = p.keyID ∧ parsePublicKey k.publicKey = some key ∧
    verify P key (statementFor P (d.path s) (.ofNat p.seq) (.ofNat v.revision) v.content) p.signature = true

structure Sound (d : Database) : Prop where
  numbered : ∀ set s, d.sets set = some s → Numbered s
  readable : ∀ k ∈ d.keys, ∃ key, parsePublicKey k.publicKey = some key ∧ keyID P key = k.keyID
  distinct : ∀ k ∈ d.keys, ∀ k' ∈ d.keys, k.org = k'.org → k.keyID = k'.keyID → k.publicKey = k'.publicKey
  signed : ∀ set s, d.sets set = some s → ∀ p ∈ s.publications, p.signature ≠ [] →
    ∃ v ∈ s.versions, v.revision = p.revision ∧ SignedBy P d s p v

/-- Rows stay, and a key stays registered even when it is revoked. -/
structure Grows (d d' : Database) : Prop extends Extends (fun _ _ => True) d d' where
  keys : ∀ k ∈ d.keys, ∃ k' ∈ d'.keys, k'.org = k.org ∧ k'.keyID = k.keyID ∧ k'.publicKey = k.publicKey

theorem Grows.refl (d : Database) : Grows d d := ⟨Extends.refl d, fun k hk => ⟨k, hk, rfl, rfl, rfl⟩⟩

theorem Grows.trans {d'' : Database} (h : Grows d d') (h' : Grows d' d'') : Grows d d'' where
  toExtends := h.toExtends.trans h'.toExtends
  keys k hk := by
    obtain ⟨k', hk', horg, hid, hpub⟩ := h.keys k hk
    obtain ⟨k'', hk'', horg', hid', hpub'⟩ := h'.keys k' hk'
    exact ⟨k'', hk'', horg'.trans horg, hid'.trans hid, hpub'.trans hpub⟩

/-- The discipline of the requests, over what the names of facts stand for. -/
def signing (fact : Fact → Database → Prop) : Discipline Database Nat Fact where
  inv := Sound P
  always := Grows
  always_refl := Grows.refl
  always_trans := Grows.trans
  owned := Untouched
  owned_refl := Untouched.refl
  owned_trans := Untouched.trans
  fact := fact

variable {P} {fact : Fact → Database → Prop}

theorem signing_stores : Stores (signing P fact) := ⟨fun _ h => h.numbered, fun _ _ _ h => h⟩

theorem Grows.path (h : Grows d d') (horg : s'.org = s.org)
    (hslug : s'.slug = s.slug) : d'.path s' = d.path s := by
  rw [Database.path, Database.path, h.orgSlug, horg, hslug]

theorem SignedBy.grows {p : Publication} {v : Version}
    (h : SignedBy P d s p v) (hd : Grows d d') (horg : s'.org = s.org) (hslug : s'.slug = s.slug) :
    SignedBy P d' s' p v := by
  obtain ⟨k, hk, key, hkorg, hid, hparse, hverify⟩ := h
  obtain ⟨k', hk', hkorg', hid', hpub'⟩ := hd.keys k hk
  refine ⟨k', hk', key, ?_, hid'.trans hid, ?_, ?_⟩
  · rw [hkorg', hkorg, horg]
  · rw [hpub', hparse]
  rw [hd.path horg hslug]
  exact hverify

section Writes

variable {d d' : Database} {set : Nat}

theorem Sound.put (h : Sound P d) (hs : d.sets set = some s) (hnum : Numbered s')
    (horg : s'.org = s.org) (hslug : s'.slug = s.slug) (hversions : s.versions <+: s'.versions)
    (hpubs : s.publications <+: s'.publications)
    (hnew : ∀ p ∈ s'.publications, p ∉ s.publications → p.signature ≠ [] →
      ∃ v ∈ s'.versions, v.revision = p.revision ∧ SignedBy P d s p v) :
    Sound P (d.put set s') ∧ Grows d (d.put set s') := by
  have hgrows : Grows d (d.put set s') :=
    ⟨extends_put hs horg hslug hversions hpubs fun _ _ => .inr trivial, fun k hk => ⟨k, hk, rfl, rfl, rfl⟩⟩
  refine ⟨⟨inv_put h.numbered hnum, h.readable, h.distinct, ?_⟩, hgrows⟩
  intro i t ht p hp hsig
  by_cases hi : i = set
  · subst hi
    rw [put_sets_self] at ht
    cases ht
    by_cases hold : p ∈ s.publications
    · obtain ⟨v, hv, hrev, hsigned⟩ := h.signed i s hs p hold hsig
      exact ⟨v, hversions.subset hv, hrev, hsigned.grows hgrows horg hslug⟩
    obtain ⟨v, hv, hrev, hsigned⟩ := hnew p hp hold hsig
    exact ⟨v, hv, hrev, hsigned.grows hgrows horg hslug⟩
  rw [put_sets_of_ne d hi] at ht
  obtain ⟨v, hv, hrev, hsigned⟩ := h.signed i t ht p hp hsig
  exact ⟨v, hv, hrev, hsigned.grows hgrows rfl rfl⟩

theorem Sound.appends (h : Sound P d) {comment : Bytes}
    {canonical : Nat → Except Rejection (Bytes × Bytes)} (ha : Appends set author comment canonical d d') :
    Sound P d' ∧ Grows d d' := by
  obtain ⟨s, content, etag, hs, -, rfl⟩ := ha
  exact h.put hs ((h.numbered set s hs).append rfl) rfl rfl (List.prefix_append _ _) (List.prefix_refl _)
    fun p hp hold => absurd hp hold

theorem Sound.publishes (h : Sound P d) {req : PublishRequest Rejection} (hp : Publishes set req d d')
    (hcheck : ∀ s v, d.sets set = some s → v ∈ s.versions → req.check (s.publications.length + 1) v = .ok () →
      req.signature ≠ [] →
        SignedBy P d s ⟨s.publications.length + 1, v.revision, req.author, req.keyID, req.signature⟩ v) :
    Sound P d' ∧ Grows d d' := by
  obtain ⟨s, v, hs, hv, -, -, hok, rfl⟩ := hp
  refine h.put hs ((h.numbered set s hs).publish rfl hv rfl) rfl rfl (List.prefix_refl _)
    (List.prefix_append _ _) ?_
  intro p hp hold hsig
  rcases List.mem_append.mp hp with hp | hp
  · exact absurd hp hold
  rw [List.mem_singleton.mp hp] at hsig ⊢
  exact ⟨v, hv, rfl, hcheck s v hs hv hok hsig⟩

theorem Sound.keys (h : Sound P d) {keys : List SigningKey}
    (hkeys : ∀ k ∈ d.keys, ∃ k' ∈ keys, k'.org = k.org ∧ k'.keyID = k.keyID ∧ k'.publicKey = k.publicKey)
    (hreadable : ∀ k ∈ keys, ∃ key, parsePublicKey k.publicKey = some key ∧ keyID P key = k.keyID)
    (hdistinct : ∀ k ∈ keys, ∀ k' ∈ keys, k.org = k'.org → k.keyID = k'.keyID → k.publicKey = k'.publicKey) :
    Sound P { d with keys := keys } ∧ Grows d { d with keys := keys } := by
  have hgrows : Grows d { d with keys := keys } :=
    ⟨⟨fun _ h => h, fun _ s hs => ⟨s, hs, rfl, rfl, List.prefix_refl _, List.prefix_refl _, fun _ hv => .inl hv⟩,
      rfl⟩, hkeys⟩
  refine ⟨⟨h.numbered, hreadable, hdistinct, ?_⟩, hgrows⟩
  intro i t ht p hp hsig
  obtain ⟨v, hv, hrev, hsigned⟩ := h.signed i t ht p hp hsig
  exact ⟨v, hv, hrev, hsigned.grows hgrows rfl rfl⟩

theorem Sound.addSigningKey (h : Sound P d) {key : Bytes} (hlen : key.length = publicKeySize) (org : Nat) :
    let k : SigningKey := ⟨org, keyID P key, formatPublicKey key, false⟩
    Sound P (Database.addSigningKey k d) ∧ Grows d (Database.addSigningKey k d) := by
  intro k
  rw [Database.addSigningKey]
  by_cases hhas : d.hasKey org (keyID P key) = true
  · rw [if_pos hhas]
    exact ⟨h, Grows.refl d⟩
  rw [if_neg hhas]
  have hother (k' : SigningKey) (hk' : k' ∈ d.keys) (horg : k'.org = org) (hid : k'.keyID = keyID P key) : False := by
    simp_all [Database.hasKey]
  refine h.keys (fun k' hk' => ⟨k', List.mem_append_left _ hk', rfl, rfl, rfl⟩) ?_ ?_
  · intro k' hk'
    rcases List.mem_append.mp hk' with hk' | hk'
    · exact h.readable k' hk'
    grind [parsePublicKey_formatPublicKey]
  intro k1 hk1 k2 hk2 horg hid
  rcases List.mem_append.mp hk1 with hk1 | hk1
  · rcases List.mem_append.mp hk2 with hk2 | hk2
    · exact h.distinct k1 hk1 k2 hk2 horg hid
    rw [List.mem_singleton.mp hk2] at horg hid
    exact (hother k1 hk1 horg hid).elim
  grind

theorem Sound.revokeSigningKey (h : Sound P d) (org : Nat) (id : Bytes) :
    Sound P (Database.revokeSigningKey org id d) ∧ Grows d (Database.revokeSigningKey org id d) := by
  let revoke (k : SigningKey) : SigningKey :=
    if k.org == org && k.keyID == id then { k with revoked := true } else k
  have hsame (k : SigningKey) : (revoke k).org = k.org ∧ (revoke k).keyID = k.keyID ∧
      (revoke k).publicKey = k.publicKey := by
    dsimp only [revoke]
    split <;> exact ⟨rfl, rfl, rfl⟩
  refine h.keys (fun k hk => ⟨revoke k, List.mem_map_of_mem hk, hsame k⟩) ?_ ?_
  · intro k' hk'
    obtain ⟨k, hk, rfl⟩ := List.mem_map.mp hk'
    have hread := h.readable k hk
    rw [← (hsame k).2.2, ← (hsame k).2.1] at hread
    exact hread
  intro k1 hk1 k2 hk2 horg hid
  obtain ⟨k, hk, rfl⟩ := List.mem_map.mp hk1
  obtain ⟨k', hk', rfl⟩ := List.mem_map.mp hk2
  have hpub := h.distinct k hk k' hk'
    ((hsame k).1.symm.trans (horg.trans (hsame k').1)) ((hsame k).2.1.symm.trans (hid.trans (hsame k').2.1))
  exact (hsame k).2.2.trans (hpub.trans (hsame k').2.2.symm)

end Writes

/-- What a request may commit besides keeping the state sound: a publication, by what its
handler looked up before. -/
structure Allows (fact : Fact → Database → Prop) (P : Platform Num) (guarantee : Database → Database → Prop) :
    Prop where
  appends : ∀ set author comment canonical d d', Appends (E := Rejection) set author comment canonical d d' →
    guarantee d d'
  keys : ∀ d keys, guarantee d { d with keys := keys }
  unsigned : ∀ set req s d d1 d2, Around (signing P fact) [.noKey s.org] d d1 →
    d.hasSigningKeys s.org = false → d1.sets set = some s → req.signature = [] →
    Publishes (E := Rejection) set req d1 d2 → guarantee d1 d2
  signed : ∀ set req s d d1 d2, Around (signing P fact) [.activeKey s.org req.keyID] d d1 →
    (d.activeSigningKey s.org req.keyID).isSome = true → d1.sets set = some s → req.signature ≠ [] →
    Publishes (E := Rejection) set req d1 d2 → guarantee d1 d2

section Handlers

variable {guarantee : Database → Database → Prop} {answers : Answer → Database → Prop} {pg : Bool}
  {d : Database} {set : Nat}

theorem signing_commits {held : List Nat} (h : Sound P d' ∧ Grows d d')
    (hheld : pg = false ∨ set ∈ held) (hframe : ∀ i, i ≠ set → d'.sets i = d.sets i) (hg : guarantee d d') :
    Commits (signing P fact) (!pg) guarantee held d d' := by
  refine ⟨h.1, h.2, fun hpg k hk => hframe k ?_, .inr hg⟩
  rintro rfl
  rcases hheld with rfl | hheld
  · cases hpg
  exact hk hheld

def Plain (answers : Answer → Database → Prop) : Prop := ∀ a d, (∀ body, a ≠ .signature body) → answers a d

theorem done_ok (hplain : Plain answers) {a : Answer} (ha : ∀ body, a ≠ .signature body) :
    (Client.done a : Handler).Ok (signing P fact) (!pg) guarantee answers d := fun d' _ => hplain a d' ha

theorem storeError_ok (hplain : Plain answers) (e : StoreError Rejection) :
    (storeError e).Ok (signing P fact) (!pg) guarantee answers d := by
  cases e <;> exact done_ok hplain nofun

theorem publishAnswer_ok (hplain : Plain answers) (r : Except (StoreError Rejection) Publication) :
    (publishAnswer r).Ok (signing P fact) (!pg) guarantee answers d := by
  unfold publishAnswer
  grind [done_ok, storeError_ok]

theorem publishes_frame {req : PublishRequest Rejection} (h : Publishes set req d d') {i : Nat}
    (hi : i ≠ set) : d'.sets i = d.sets i := by
  obtain ⟨s, v, -, -, -, -, -, rfl⟩ := h
  exact put_sets_of_ne d hi _

theorem appends_frame {comment : Bytes} {canonical : Nat → Except Rejection (Bytes × Bytes)}
    (h : Appends set author comment canonical d d') {i : Nat} (hi : i ≠ set) :
    d'.sets i = d.sets i := by
  obtain ⟨s, content, etag, -, -, rfl⟩ := h
  exact put_sets_of_ne d hi _

theorem Grows.sameSet {d1 : Database} (h : Grows d d1) {s1 : RuleSet} (hs : d.sets set = some s)
    (hs1 : d1.sets set = some s1) : s1.org = s.org ∧ d1.path s1 = d.path s := by
  obtain ⟨s', hs', horg, hslug, -⟩ := h.kept set s hs
  rw [hs1] at hs'
  cases hs'
  exact ⟨horg, h.path horg hslug⟩

theorem publishUnsigned_ok (hallows : Allows fact P guarantee) (hplain : Plain answers) (hs : d.sets set = some s)
    {body : PublishBody} (hsigned : body.signed = false) :
    (publishUnsigned pg set s author body).Ok (signing P fact) (!pg) guarantee answers d := by
  have hsig : body.signature = [] := by grind [PublishBody.signed]
  refine Client.ok_read fun d1 h1 => ?_
  by_cases hkeys : d1.hasSigningKeys s.org = true
  · rw [if_pos hkeys]
    exact done_ok hplain nofun
  rw [if_neg hkeys]
  refine publish_ok signing_stores h1.inv ?_ fun r d2 _ => publishAnswer_ok hplain r
  intro held d2 d3 h2 hheld hpub
  obtain ⟨s2, v, hs2, -⟩ := id hpub
  obtain ⟨horg, -⟩ := (h1.always.trans h2.always).sameSet hs hs2
  refine signing_commits (h2.inv.publishes hpub fun s v _ _ _ hne => absurd hsig hne) hheld
    (fun i hi => publishes_frame hpub hi) ?_
  refine hallows.unsigned set _ s2 d1 d2 d3 ?_ ?_ hs2 hsig hpub
  · rw [horg]
    exact h2
  rw [horg]
  simpa using hkeys

theorem publishSigned_ok (hallows : Allows fact P guarantee) (hplain : Plain answers) (hs : d.sets set = some s)
    {body : PublishBody} (hsig : body.signature ≠ []) :
    (publishSigned P pg set s (d.path s) author body).Ok (signing P fact) (!pg) guarantee answers d := by
  refine Client.ok_read fun d1 h1 => ?_
  cases hkey : d1.activeSigningKey s.org body.keyID with
  | none => exact done_ok hplain nofun
  | some k =>
    dsimp only
    cases hparse : parsePublicKey k.publicKey with
    | none => exact done_ok hplain nofun
    | some key =>
      refine publish_ok signing_stores h1.inv ?_ fun r d2 _ => publishAnswer_ok hplain r
      intro held d2 d3 h2 hheld hpub
      obtain ⟨s2, v, hs2, -⟩ := id hpub
      obtain ⟨horg, hpath⟩ := (h1.always.trans h2.always).sameSet hs hs2
      have hmem : k ∈ d1.keys := List.mem_of_find?_eq_some hkey
      have hfound : k.org = s.org ∧ k.keyID = body.keyID := by
        have := List.find?_some hkey
        simp only [Bool.and_eq_true, beq_iff_eq] at this
        exact this.1
      refine signing_commits (h2.inv.publishes hpub ?_) hheld (fun i hi => publishes_frame hpub hi) ?_
      · intro s' v' hs' hv' hcheck _
        rw [hs2] at hs'
        cases hs'
        obtain ⟨k', hk', horg', hid', hpub'⟩ := h2.always.keys k hmem
        refine ⟨k', hk', key, ?_, hid'.trans hfound.2, ?_, ?_⟩
        · rw [horg', hfound.1, horg]
        · rw [hpub', hparse]
        simp_all [signedRequest]
      refine hallows.signed set _ s2 d1 d2 d3 ?_ ?_ hs2 hsig hpub
      · rw [horg]
        exact h2
      rw [horg]
      exact Option.isSome_iff_exists.mpr ⟨k, hkey⟩

theorem publishHandler_ok (hallows : Allows fact P guarantee) (hplain : Plain answers)
    (author : Bytes) (body : PublishBody) :
    (publishHandler P pg set author body).Ok (signing P fact) (!pg) guarantee answers d := by
  refine Client.ok_read fun d1 h1 => ?_
  grind [done_ok, publishSigned_ok, publishUnsigned_ok]

theorem addSigningKeyHandler_ok (hallows : Allows fact P guarantee) (hplain : Plain answers) (org : Nat)
    (name publicKey : Bytes) :
    (addSigningKeyHandler P org name publicKey).Ok (signing P fact) (!pg) guarantee answers d := by
  rw [addSigningKeyHandler]
  split
  · exact done_ok hplain nofun
  split
  · exact done_ok hplain nofun
  · next key hparse =>
    intro d1 h1
    have hadd := h1.inv.addSigningKey (length_of_parsePublicKey hparse) org
    refine ⟨⟨hadd.1, hadd.2, ?_, ?_⟩, ?_⟩
    · intro _ k _
      rw [Database.addSigningKey]
      split <;> rfl
    · rw [Database.addSigningKey]
      split
      · exact .inl rfl
      exact .inr (hallows.keys _ _)
    grind [storeError_ok, done_ok]

theorem revokeSigningKeyHandler_ok (hallows : Allows fact P guarantee) (hplain : Plain answers) (org : Nat)
    (id : Bytes) : (revokeSigningKeyHandler org id).Ok (signing P fact) (!pg) guarantee answers d := by
  intro d1 h1
  have hrevoke := h1.inv.revokeSigningKey org id
  refine ⟨⟨hrevoke.1, hrevoke.2, fun _ k _ => rfl, .inr (hallows.keys _ _)⟩, ?_⟩
  dsimp only
  split
  · exact done_ok hplain nofun
  exact storeError_ok hplain _

theorem createVersionHandler_ok (hallows : Allows fact P guarantee) (hplain : Plain answers) (hd : Sound P d)
    (author comment : Bytes) (canonical : Nat → Except Rejection (Bytes × Bytes)) :
    (createVersionHandler pg set author comment canonical).Ok (signing P fact) (!pg) guarantee answers d := by
  refine createVersion_ok signing_stores hd ?_ ?_
  · intro held d1 d2 h1 hheld happ
    exact signing_commits (h1.inv.appends happ) hheld (fun i hi => appends_frame happ hi)
      (hallows.appends _ _ _ _ _ _ happ)
  grind [done_ok, storeError_ok]

/-- The two reads of a signature, and what may have happened between and around them. -/
structure Serving (fact : Fact → Database → Prop) (P : Platform Num) (set : Nat) (path : Bytes) (p : Publication)
    (v : Version) (d : Database) : Prop where
  reads : ∃ d0 s d1 d2, d0.sets set = some s ∧ path = d0.path s ∧ Around (signing P fact) [] d0 d1 ∧
    d1.latestPublication set = some p ∧ p.signature ≠ [] ∧
    Around (signing P fact) [.serves set p.revision] d1 d2 ∧ d2.publishedVersion set = some v ∧
    Around (signing P fact) [] d2 d

theorem serveSignatureHandler_ok (hplain : Plain answers)
    (hserve : ∀ path p v d, Serving fact P set path p v d → answers (.signature (signatureFile P path p v)) d) :
    (serveSignatureHandler P set).Ok (signing P fact) (!pg) guarantee answers d := by
  refine Client.ok_read fun d0 h0 => ?_
  cases hs : d0.sets set with
  | none => exact done_ok hplain nofun
  | some s =>
    refine Client.ok_read fun d1 h1 => ?_
    cases hp : d1.latestPublication set with
    | none => exact done_ok hplain nofun
    | some p =>
      dsimp only
      split
      · exact done_ok hplain nofun
      · next hsig =>
        refine Client.ok_read fun d2 h2 => ?_
        cases hv : d2.publishedVersion set with
        | none => exact done_ok hplain nofun
        | some v =>
          intro d3 h3
          exact hserve _ p v d3 ⟨d0, s, d1, d2, hs, rfl, h1, hp, by simpa using hsig, h2, hv, h3⟩

theorem Request.handler_ok (hallows : Allows fact P guarantee) (hplain : Plain answers) (hd : Sound P d)
    (request : Request)
    (hserve : ∀ set, request = .serveSignature set → ∀ path p v d, Serving fact P set path p v d →
      answers (.signature (signatureFile P path p v)) d) :
    (request.handler P pg).Ok (signing P fact) (!pg) guarantee answers d := by
  cases request with
  | createVersion set author comment canonical =>
    exact createVersionHandler_ok hallows hplain hd author comment canonical
  | publish set author body => exact publishHandler_ok hallows hplain author body
  | addSigningKey org name publicKey => exact addSigningKeyHandler_ok hallows hplain org name publicKey
  | revokeSigningKey org keyID => exact revokeSigningKeyHandler_ok hallows hplain org keyID
  | serveSignature set => exact serveSignatureHandler_ok hplain (hserve set rfl)

end Handlers

theorem server_good {guarantee : Database → Database → Prop} (hallows : Allows fact P guarantee)
    {answers : Nat → Answer → Database → Prop} (hplain : ∀ i, Plain (answers i)) (pg : Bool)
    {requests : List Request} (hd : Sound P d)
    (hserve : ∀ i set, requests[i]? = some (.serveSignature set) → ∀ path p v d, Serving fact P set path p v d →
      answers i (.signature (signatureFile P path p v)) d) :
    (server P pg requests d).Good (signing P fact) (!pg) (fun _ => guarantee) answers := by
  refine System.good_of_idle hd fun i c hc => ?_
  rw [List.getElem?_map, Option.map_eq_some_iff] at hc
  obtain ⟨request, hrequest, rfl⟩ := hc
  refine request.handler_ok hallows (hplain i) hd ?_
  rintro set rfl
  exact hserve i set hrequest

theorem allows_all (fact : Fact → Database → Prop) : Allows fact P fun _ _ => True :=
  ⟨fun _ _ _ _ _ _ _ => trivial, fun _ _ => trivial, fun _ _ _ _ _ _ _ _ _ _ _ => trivial,
    fun _ _ _ _ _ _ _ _ _ _ _ => trivial⟩

theorem server_sound (pg : Bool) (requests : List Request) (hd : Sound P d) (actions : List Action) :
    Sound P ((server P pg requests d).run (!pg) actions).db := by
  have hstart : (server P pg requests d).Good (signing P fun _ _ => True) (!pg) (fun _ _ _ => True)
      (fun _ _ _ => True) :=
    server_good (allows_all _) (fun _ _ _ _ => trivial) pg hd fun _ _ _ _ _ _ _ _ => trivial
  exact (hstart.run fun _ _ _ => System.respects_of_fact (fun _ _ => trivial) _).1.inv

end PiiShield.Rules
