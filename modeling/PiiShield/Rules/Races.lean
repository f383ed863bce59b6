import Mathlib.Data.List.Nodup
import PiiShield.Operator.Sample
import PiiShield.Rules.Publishing

/-! Requests that race. A publication is checked against the keys looked up before its
transaction, and a signature is answered from two reads; both are right as long as nobody
changes in between what was read. -/

namespace PiiShield.Rules

open Operator Transactions

variable {Num : Type} {P : Platform Num}

/-- What a publication goes by: the keys of its organization. -/
def keyFact : Fact → Database → Prop
  | .noKey org, d => d.hasSigningKeys org = false
  | .activeKey org id, d => (d.activeSigningKey org id).isSome = true
  | .serves _ _, _ => True

/-- A new publication is unsigned only if its organization has no active key, and signed only
with one that is active. -/
def Enforced (d d' : Database) : Prop :=
  ∀ set s s', d.sets set = some s → d'.sets set = some s' → ∀ p ∈ s'.publications, p ∉ s.publications →
    (p.signature = [] → d'.hasSigningKeys s.org = false) ∧
      (p.signature ≠ [] → (d'.activeSigningKey s.org p.keyID).isSome = true)

theorem enforced_of_same {d d' : Database}
    (h : ∀ set s s', d.sets set = some s → d'.sets set = some s' → s'.publications = s.publications) :
    Enforced d d' := by
  intro set s s' hs hs' p hp hnew
  rw [h set s s' hs hs'] at hp
  exact absurd hp hnew

theorem enforced_of_publishes {set : Nat} {req : PublishRequest Rejection} {s : RuleSet} {d d' : Database}
    (hs : d.sets set = some s) (h : Publishes set req d d')
    (hunsigned : req.signature = [] → d.hasSigningKeys s.org = false)
    (hsigned : req.signature ≠ [] → (d.activeSigningKey s.org req.keyID).isSome = true) : Enforced d d' := by
  obtain ⟨s1, v, hs1, -, -, -, -, rfl⟩ := h
  cases hs.symm.trans hs1
  intro i t t' ht ht' p hp hnew
  by_cases hi : i = set
  · subst hi
    rw [put_sets_self] at ht'
    cases ht'
    cases hs.symm.trans ht
    rcases List.mem_append.mp hp with hp | hp
    · exact absurd hp hnew
    rw [List.mem_singleton.mp hp]
    exact ⟨hunsigned, hsigned⟩
  rw [put_sets_of_ne d hi] at ht'
  cases ht.symm.trans ht'
  exact absurd hp hnew

theorem allows_enforced : Allows keyFact P Enforced where
  appends set author comment canonical d d' h := by
    obtain ⟨s, content, etag, hs, -, rfl⟩ := h
    refine enforced_of_same fun i t t' ht ht' => ?_
    by_cases hi : i = set
    · subst hi
      rw [put_sets_self] at ht'
      cases ht'
      cases hs.symm.trans ht
      rfl
    rw [put_sets_of_ne d hi] at ht'
    cases ht.symm.trans ht'
    rfl
  keys d keys := enforced_of_same fun i t t' ht ht' => by
    cases ht.symm.trans ht'
    rfl
  unsigned set req s d d1 d2 h hno hs hsig hpub :=
    enforced_of_publishes hs hpub (fun _ => h.facts _ (List.mem_singleton_self _) hno) fun hne => absurd hsig hne
  signed set req s d d1 d2 h hkey hs hsig hpub :=
    enforced_of_publishes hs hpub (fun hnil => absurd hnil hsig) fun _ => h.facts _ (List.mem_singleton_self _) hkey

/-- In a run where nobody changes the keys a publication in flight has looked up, signing is
enforced at every commit. -/
theorem signing_enforced (pg : Bool) (requests : List Request) {d : Database} (hd : Sound P d)
    {actions : List Action} {a : Action}
    (hrun : AtEvery (fun before a =>
      ((server P pg requests d).run (!pg) before).Respects (signing P keyFact) (!pg) a) (actions ++ [a])) :
    Enforced ((server P pg requests d).run (!pg) actions).db
      ((server P pg requests d).run (!pg) (actions ++ [a])).db := by
  have hstart : (server P pg requests d).Good (signing P keyFact) (!pg) (fun _ => Enforced) (fun _ _ _ => True) :=
    server_good allows_enforced (fun _ _ _ _ => trivial) pg hd fun _ _ _ _ _ _ _ _ => trivial
  obtain ⟨hbefore, hlast⟩ := atEvery_concat.mp hrun
  obtain ⟨hgood, -⟩ := hstart.run hbefore
  obtain ⟨-, -, hchange⟩ := hgood.step hlast
  rw [← System.run_concat] at hchange
  rcases hchange with heq | henforced
  · rw [heq]
    exact enforced_of_same fun i t t' ht ht' => by
      cases ht.symm.trans ht'
      rfl
  exact henforced

def contentOne : Bytes := bs "\x7b\"revision\":\"1\"\x7d"

def contentTwo : Bytes := bs "\x7b\"revision\":\"2\"\x7d"

def sampleRules : Database where
  orgSlug _ := bs "org"
  sets i := if i = 1 then some ⟨1, bs "set", none, [⟨1, contentOne, [], [], []⟩, ⟨2, contentTwo, [], [], []⟩], []⟩
    else none
  keys := []

theorem sampleRules_sound : Sound P sampleRules := by
  have hsets {set : Nat} {s : RuleSet} (hs : sampleRules.sets set = some s) :
      s = ⟨1, bs "set", none, [⟨1, contentOne, [], [], []⟩, ⟨2, contentTwo, [], [], []⟩], []⟩ := by
    rw [sampleRules] at hs
    dsimp only at hs
    split at hs
    · exact (Option.some.inj hs).symm
    · cases hs
  refine ⟨fun set s hs => ?_, nofun, nofun, fun set s hs p hp => ?_⟩
  · rw [hsets hs]
    exact ⟨rfl, rfl, rfl, by simp⟩
  rw [hsets hs] at hp
  cases hp

def publishUnsignedSample : Request := .publish 1 [] ⟨1, 0, [], []⟩

def addKeySample : Request := .addSigningKey 1 (bs "release") sampleKey

/-- An organization without keys publishes, and registers its first key behind that. -/
theorem signing_enforced_in_turn :
    let actions : List Action := List.replicate 9 (.advance 0) ++ [.advance 1]
    let after (n : Nat) : Database :=
      ((server (samplePlatform []) true [publishUnsignedSample, addKeySample] sampleRules).run false
        (actions.take n)).db
    (after 8).latestPublication 1 = none ∧ ((after 9).latestPublication 1).isSome = true ∧
      (after 9).hasSigningKeys 1 = false ∧ (after 10).hasSigningKeys 1 = true ∧
      Enforced (after 8) (after 9) ∧ Enforced (after 9) (after 10) := by
  refine ⟨by decide +kernel, by decide +kernel, by decide +kernel, by decide +kernel, ?_, ?_⟩
  · exact @signing_enforced _ _ true [publishUnsignedSample, addKeySample] _ sampleRules_sound
      (List.replicate 8 (.advance 0)) (.advance 0) (System.respects_of_quiet (by decide +kernel))
  · exact @signing_enforced _ _ true [publishUnsignedSample, addKeySample] _ sampleRules_sound
      (List.replicate 9 (.advance 0)) (.advance 1) (System.respects_of_quiet (by decide +kernel))

/-- The first key is registered while an unsigned publication is in flight. -/
theorem signing_not_enforced :
    let after (actions : List Action) : Database :=
      ((server (samplePlatform []) true [publishUnsignedSample, addKeySample] sampleRules).run false actions).db
    let actions := [.advance 0, .advance 0, .advance 1] ++ List.replicate 6 (.advance 0)
    ¬ Enforced (after actions) (after (actions ++ [.advance 0])) := by
  intro after actions h
  have hbefore : (after actions).sets 1 = sampleRules.sets 1 := by decide +kernel
  have hafter : (after (actions ++ [.advance 0])).sets 1 =
      some ⟨1, bs "set", some 1, [⟨1, contentOne, [], [], []⟩, ⟨2, contentTwo, [], [], []⟩], [⟨1, 1, [], [], []⟩]⟩ := by
    decide +kernel
  have hkeys : (after (actions ++ [.advance 0])).hasSigningKeys 1 = true := by decide +kernel
  have hno := (h 1 _ _ hbefore hafter _ (List.mem_singleton_self _) List.not_mem_nil).1 rfl
  rw [hkeys] at hno
  cases hno

def serveFact : Fact → Database → Prop
  | .serves set revision, d => ∃ s, d.sets set = some s ∧ s.published = some revision
  | _, _ => True

section Latest

variable {s : RuleSet} {d : Database} {set : Nat}

theorem Numbered.version_unique (h : Numbered s) {v w : Version} (hv : v ∈ s.versions) (hw : w ∈ s.versions)
    (heq : v.revision = w.revision) : v = w := by
  have hnodup : (s.versions.map (·.revision)).Nodup := by
    rw [h.revisions]
    exact List.nodup_range'
  exact List.inj_on_of_nodup_map hnodup hv hw heq

theorem Numbered.publication_unique (h : Numbered s) {p q : Publication} (hp : p ∈ s.publications)
    (hq : q ∈ s.publications) (heq : p.seq = q.seq) : p = q := by
  have hnodup : (s.publications.map (·.seq)).Nodup := by
    rw [h.seqs]
    exact List.nodup_range'
  exact List.inj_on_of_nodup_map hnodup hp hq heq

theorem published_of_latest (hs : d.sets set = some s) (h : Numbered s) {p : Publication}
    (hp : d.latestPublication set = some p) : p ∈ s.publications ∧ s.published = some p.revision := by
  rw [Database.latestPublication, hs, Option.bind_some, maxSeq_eq hs h] at hp
  have hmem : p ∈ s.publications := List.mem_of_find?_eq_some hp
  have hseq : p.seq = s.publications.length := by simpa using List.find?_some hp
  refine ⟨hmem, ?_⟩
  have hne : s.publications ≠ [] := List.ne_nil_of_mem hmem
  have hlast : (s.publications.getLast hne).seq = s.publications.length := by
    have hmap : (s.publications.map (·.seq)).getLast? = some (s.publications.getLast hne).seq := by
      rw [List.getLast?_map, List.getLast?_eq_some_getLast hne]
      rfl
    have hpos := List.length_pos_iff.mpr hne
    rw [h.seqs, List.getLast?_range'] at hmap
    simp only [hpos.ne', if_false, Option.some.injEq] at hmap
    omega
  have heq := h.publication_unique hmem (List.getLast_mem hne) (hseq.trans hlast.symm)
  rw [h.published, List.getLast?_eq_some_getLast hne, ← heq]
  rfl

end Latest

/-- The answer is of one publication of the set, and its signature verifies. -/
def Describes (P : Platform Num) (set : Nat) (body : SignatureFile) (d : Database) : Prop :=
  ∃ s p v, d.sets set = some s ∧ p ∈ s.publications ∧ v ∈ s.versions ∧ v.revision = p.revision ∧
    body = signatureFile P (d.path s) p v ∧ SignedBy P d s p v

theorem describes_of_serving {set : Nat} {path : Bytes} {p : Publication} {v : Version} {d : Database}
    (h : Serving serveFact P set path p v d) : Describes P set (signatureFile P path p v) d := by
  obtain ⟨d0, s, d1, d2, hs, rfl, h1, hp, hsig, h2, hv, h3⟩ := h.reads
  obtain ⟨s1, hs1, horg1, hslug1, -⟩ := h1.always.kept set s hs
  obtain ⟨hmem, hpublished⟩ := published_of_latest hs1 (h1.inv.numbered set s1 hs1) hp
  obtain ⟨s2, hs2, hpublished2⟩ := h2.facts _ (List.mem_singleton_self _) ⟨s1, hs1, hpublished⟩
  obtain ⟨s2', hs2', -, -, -, hpubs2, -⟩ := h2.always.kept set s1 hs1
  cases hs2.symm.trans hs2'
  obtain ⟨s3, hs3, horg3, hslug3, hversions3, hpubs3, -⟩ := h3.always.kept set s2 hs2
  have hversion : v ∈ s2.versions ∧ (v.revision : Int) = p.revision := by
    grind [Database.publishedVersion, mem_of_version]
  have hgrows := (h1.always.trans h2.always).trans h3.always
  have hp3 : p ∈ s3.publications := hpubs3.subset (hpubs2.subset hmem)
  have hv3 : v ∈ s3.versions := hversions3.subset hversion.1
  have hrev : v.revision = p.revision := by exact_mod_cast hversion.2
  obtain ⟨w, hw, hwrev, hsigned⟩ := h3.inv.signed set s3 hs3 p hp3 hsig
  cases (h3.inv.numbered set s3 hs3).version_unique hv3 hw (hrev.trans hwrev.symm)
  obtain ⟨-, hpath⟩ := hgrows.sameSet hs hs3
  exact ⟨s3, p, v, hs3, hp3, hv3, hrev, by rw [hpath], hsigned⟩

/-- In a run where nobody changes the version a set serves between the two reads of a
signature, an answer describes one publication. -/
theorem signature_describes (pg : Bool) (requests : List Request) {d : Database} (hd : Sound P d)
    {actions : List Action}
    (hrun : AtEvery (fun before a =>
      ((server P pg requests d).run (!pg) before).Respects (signing P serveFact) (!pg) a) actions)
    {i set : Nat} (hrequest : requests[i]? = some (.serveSignature set)) {body : SignatureFile}
    (hanswer : ((server P pg requests d).run (!pg) actions).answer i = some (.signature body)) :
    Describes P set body ((server P pg requests d).run (!pg) actions).db := by
  let answers (i : Nat) (a : Answer) (d : Database) : Prop :=
    ∀ set, requests[i]? = some (.serveSignature set) → ∀ body, a = .signature body → Describes P set body d
  have hstart : (server P pg requests d).Good (signing P serveFact) (!pg) (fun _ _ _ => True) answers := by
    have hplain (i : Nat) : Plain (answers i) := fun a d ha set _ body heq => absurd heq (ha body)
    refine server_good (allows_all _) hplain pg hd ?_
    intro i set hset path p v d hserving set' hset' body heq
    cases hset.symm.trans hset'
    cases heq
    exact describes_of_serving hserving
  obtain ⟨hgood, -⟩ := hstart.run hrun
  exact hgood.threads i _ (System.thread_of_answer hanswer) _ (.refl hgood.inv) set hrequest body rfl

def publisherPlatform : Platform Unit :=
  samplePlatform
    [statement (samplePlatform []) (bs "org/set") 1 1 contentOne,
      statement (samplePlatform []) (bs "org/set") 2 2 contentTwo]

def publishSample (n : Nat) : Request := .publish 1 [] ⟨n, n, bs "0000000000000000", sampleSignature⟩

def publishedRules : Database :=
  ((server publisherPlatform true [addKeySample, publishSample 1] sampleRules).run false
    (.advance 0 :: List.replicate 10 (.advance 1))).db

theorem publishedRules_sound : Sound publisherPlatform publishedRules :=
  server_sound true [addKeySample, publishSample 1] sampleRules_sound _

/-- The second version is published while a signature is asked for, before it is read. -/
theorem signature_describes_second :
    let s := (server publisherPlatform true [.serveSignature 1, publishSample 2] publishedRules).run false
      (.advance 0 :: List.replicate 10 (.advance 1) ++ [.advance 0, .advance 0])
    ∃ body, s.answer 0 = some (.signature body) ∧ body.publication = 2 ∧ Describes publisherPlatform 1 body s.db := by
  intro s
  have hanswer : s.answer 0 = some (.signature (signatureFile publisherPlatform (bs "org/set")
      ⟨2, 2, [], bs "0000000000000000", sampleSignature⟩ ⟨2, contentTwo, [], [], []⟩)) := by decide +kernel
  exact ⟨_, hanswer, rfl, signature_describes true [.serveSignature 1, publishSample 2] publishedRules_sound
    (System.respects_of_quiet (by decide +kernel)) rfl hanswer⟩

/-- The second version is published between the two reads of a signature. -/
theorem signature_mixed :
    let s := (server publisherPlatform true [.serveSignature 1, publishSample 2] publishedRules).run false
      ([.advance 0, .advance 0] ++ List.replicate 10 (.advance 1) ++ [.advance 0])
    ∃ body, s.answer 0 = some (.signature body) ∧ ¬ Describes publisherPlatform 1 body s.db := by
  intro s
  have hanswer : s.answer 0 = some (.signature (signatureFile publisherPlatform (bs "org/set")
      ⟨1, 1, [], bs "0000000000000000", sampleSignature⟩ ⟨2, contentTwo, [], [], []⟩)) := by decide +kernel
  have hset : s.db.sets 1 = some ⟨1, bs "set", some 2, [⟨1, contentOne, [], [], []⟩, ⟨2, contentTwo, [], [], []⟩],
      [⟨1, 1, [], bs "0000000000000000", sampleSignature⟩, ⟨2, 2, [], bs "0000000000000000", sampleSignature⟩]⟩ := by
    decide +kernel
  refine ⟨_, hanswer, ?_⟩
  rintro ⟨t, p, v, ht, hp, -, hrev, hbody, -⟩
  cases hset.symm.trans ht
  have hpublication : (1 : Int64) = .ofNat p.seq := congrArg SignatureFile.publication hbody
  have hrevision : (2 : Int64) = .ofNat v.revision := congrArg SignatureFile.revision hbody
  rw [hrev] at hrevision
  rcases List.mem_cons.mp hp with rfl | hp
  · exact absurd hrevision (by decide)
  rw [List.mem_singleton.mp hp] at hpublication
  exact absurd hpublication (by decide)

end PiiShield.Rules
