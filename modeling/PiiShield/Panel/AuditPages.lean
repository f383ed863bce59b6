import PiiShield.Paging
import PiiShield.Panel.Handlers

/-! Reading the log of an organization page by page, while anyone records events. -/

namespace PiiShield.Panel

open Transactions Paging

/-- The ids the database gives to events: each its own, counted from one, in 64 bits. -/
structure EventIDs (d : Tables) : Prop where
  nodup : (d.events.map (·.id)).Nodup
  range : ∀ e ∈ d.events, 0 < e.id ∧ e.id < 2 ^ 63

/-- Calls of `Record`, each of which may be given any id that is free. -/
inductive Recorded (d : Tables) : Tables → Prop
  | refl : Recorded d d
  | record {d' : Tables} (h : Recorded d d') (S : Services) (e : EventRow)
      (hfresh : S.newID (d'.events.map (·.id)) ∉ d'.events.map (·.id))
      (hrange : 0 < S.newID (d'.events.map (·.id)) ∧ S.newID (d'.events.map (·.id)) < 2 ^ 63) :
      Recorded d ((record S e).eval d').2

def pageSize (limit : Bytes) : Option Nat :=
  if limit.isEmpty then some 100
  else (atoi limit).bind fun n => if n ≤ 0 then none else some (min n.toNat maxAuditPage)

def cursor (before : Bytes) : Option Int :=
  if before.isEmpty then some 0 else (atoi before).bind fun n => if n ≤ 0 then none else some n

/-- A client that asks for the log of an organization and then for every next page: the database after
the last request, the next page and the pages so far. -/
inductive Browses (Conf : Type) (p : Principal) (slug limit : Bytes) (start : Tables) :
    Tables → Option Nat → List (List EventRow) → Prop
  | first {d : Tables} {page : List EventRow} {after : Option Nat}
      (h : (listAudit p slug limit [] : Sql (Answer Conf)).Among Recorded start ⟨200, .events page after⟩ d) :
      Browses Conf p slug limit start d after [page]
  | more {d d' : Tables} {n : Nat} {page : List EventRow} {after : Option Nat} {pages : List (List EventRow)}
      (h : Browses Conf p slug limit start d (some n) pages)
      (hpage : (listAudit p slug limit (formatNat n) : Sql (Answer Conf)).Among Recorded d
        ⟨200, .events page after⟩ d') :
      Browses Conf p slug limit start d' after (pages ++ [page])

section Recording

variable {d d' : Tables}

theorem eval_record (S : Services) (e : EventRow) (d : Tables) : ((record S e).eval d).2 = d ∨
      ((record S e).eval d).2 = d.addEvent { e with id := S.newID (d.events.map (·.id)) } := by
  have heval : ((record S e).eval d).2 = (Tables.insertEvent S e).write d := rfl
  rw [heval, Insert.write, Tables.insertEvent, Tables.insertRow]
  grind

theorem Recorded.keeps {I : Tables → Prop} (h : Recorded d d') (h0 : I d)
    (hadd : ∀ d' (e : EventRow), e.id ∉ d'.events.map (·.id) → 0 < e.id ∧ e.id < 2 ^ 63 → I d' → I (d'.addEvent e)) :
    I d' := by
  induction h with
  | refl => exact h0
  | @record d' h S e hfresh hrange ih =>
    rcases eval_record S e d' with heq | heq
    · rwa [heq]
    rw [heq]
    exact hadd d' _ hfresh hrange ih

theorem Recorded.orgs (h : Recorded d d') : d'.orgs = d.orgs :=
  h.keeps (I := (·.orgs = d.orgs)) rfl fun _ _ _ _ => id

theorem Recorded.events (h : Recorded d d') : d.events ⊆ d'.events :=
  h.keeps (I := (d.events ⊆ ·.events)) (List.Subset.refl _) fun _ _ _ _ ih _ hx => List.mem_append_left _ (ih hx)

theorem EventIDs.recorded (hids : EventIDs d) (h : Recorded d d') : EventIDs d' := by
  refine h.keeps hids fun d' e hfresh hrange ih => ⟨?_, fun x hx => ?_⟩
  · rw [Tables.addEvent, List.map_append, List.nodup_append]
    refine ⟨ih.nodup, List.nodup_singleton _, fun id hid id' hid' => ?_⟩
    rw [List.mem_singleton.mp hid']
    exact ne_of_mem_of_not_mem hid hfresh
  rcases List.mem_append.mp hx with hx | hx
  · exact ih.range x hx
  rw [List.mem_singleton.mp hx]
  exact hrange

theorem Recorded.trans {d'' : Tables} (h : Recorded d d') (h' : Recorded d' d'') : Recorded d d'' := by
  induction h' with
  | refl => exact h
  | record _ S e hfresh hrange ih => exact ih.record S e hfresh hrange

end Recording

def logOf (orgID : Nat) (d : Tables) : List EventRow := d.events.filter (·.orgID == orgID)

theorem eventsOf_eq_newest (orgID : Nat) (before : Int) (limit : Nat) (d : Tables) :
    d.eventsOf orgID before limit = newest (·.id) before limit (logOf orgID d) := by
  rw [Tables.eventsOf, newest, sortedBelow, logOf, List.filter_filter]
  simp only [Bool.and_comm]

section Answers

variable {Conf : Type} {p : Principal} {slug limit before : Bytes} {d d' : Tables}

theorem listAudit_eq : (listAudit p slug limit before : Sql (Answer Conf)) = withOrg p slug fun org =>
    match pageSize limit with
    | none => fail 400 (bs "limit must be a positive number")
    | some size =>
      match cursor before with
      | none => fail 400 (bs "before must be a positive event id")
      | some below => listAuditPage org.id size below := by
  rw [listAudit]
  congr 1
  funext org
  have hbefore (size : Nat) : (if before.isEmpty then listAuditPage org.id size 0
      else withNumber before (bs "before must be a positive event id") fun n =>
        if n ≤ 0 then fail 400 (bs "before must be a positive event id")
        else listAuditPage org.id size n : Sql (Answer Conf)) =
      match cursor before with
      | none => fail 400 (bs "before must be a positive event id")
      | some below => listAuditPage org.id size below := by grind [cursor, withNumber, atoi]
  grind [pageSize, withNumber, atoi]

/-- A request that the server answers with a page: the organization, the size of the page and what it
stays below. -/
structure Asks (p : Principal) (slug limit before : Bytes) (d : Tables) (org : OrgRow) (size : Nat) (below : Int) :
    Prop where
  found : d.orgs.find? (·.slug == slug) = some org
  visible : p.org.any (·.id != org.id) = false
  size : pageSize limit = some size
  below : cursor before = some below

theorem Asks.recorded {org : OrgRow} {size : Nat} {below : Int} (h : Asks p slug limit before d org size below)
    (hrec : Recorded d d') : Asks p slug limit before d' org size below :=
  { h with found := hrec.orgs ▸ h.found }

def topID : Int := 2 ^ 63 - 1

theorem among_listAuditPage {orgID size : Nat} {below : Int} {a : Answer Conf} :
    (listAuditPage orgID size below : Sql (Answer Conf)).Among Recorded d a d' ↔ Recorded d d' ∧
      a = ⟨200, .events (newest (·.id) (if below ≤ 0 then topID else below) size (logOf orgID d'))
        (next (·.id) size (newest (·.id) (if below ≤ 0 then topID else below) size (logOf orgID d')))⟩ := by
  have hpage : (listAuditPage orgID size below : Sql (Answer Conf)) =
      Client.query (Tables.eventsOf orgID (if below ≤ 0 then topID else below) size) >>= fun page =>
        pure ⟨200, .events page (next (·.id) size page)⟩ := rfl
  simp [Client.among_query_bind, Client.among_pure, eventsOf_eq_newest, hpage]

def onOrg (p : Principal) (next : OrgRow → Sql (Answer Conf)) : Option OrgRow → Sql (Answer Conf)
  | none => storeError .notFound
  | some org => if p.org.any (·.id != org.id) then fail 404 (bs "not found") else next org

theorem among_withOrg {next : OrgRow → Sql (Answer Conf)} {a : Answer Conf} :
    (withOrg p slug next).Among Recorded d a d' ↔
      ∃ e, Recorded d e ∧ (onOrg p next (d.orgs.find? (·.slug == slug))).Among Recorded e a d' := by
  have hdef : withOrg p slug next = Client.query (fun d => d.orgs.find? (·.slug == slug)) >>= onOrg p next := by
    refine congrArg (Client.stmt [] id) (funext fun d => ?_)
    cases h : d.orgs.find? (·.slug == slug) <;> simp only [h] <;> rfl
  rw [hdef, Client.among_query_bind]
  refine exists_congr fun e => and_congr_right fun h => ?_
  rw [h.orgs]

theorem among_fail {status : Nat} {message : Bytes} {a : Answer Conf} :
    (fail status message : Sql (Answer Conf)).Among Recorded d a d' ↔ a = ⟨status, .error message⟩ ∧ d' = d :=
  Client.among_pure

theorem Asks.answer {org : OrgRow} {size : Nat} {below : Int} {a : Answer Conf}
    (hasks : Asks p slug limit before d org size below) :
    (listAudit p slug limit before : Sql (Answer Conf)).Among Recorded d a d' ↔ Recorded d d' ∧
      a = ⟨200, .events (newest (·.id) (if below ≤ 0 then topID else below) size (logOf org.id d'))
        (next (·.id) size (newest (·.id) (if below ≤ 0 then topID else below) size (logOf org.id d')))⟩ := by
  rw [listAudit_eq, among_withOrg]
  simp only [hasks.found, onOrg, hasks.visible, hasks.size, hasks.below, Bool.false_eq_true, if_false,
    among_listAuditPage]
  constructor
  · rintro ⟨e, h, h', ha⟩
    exact ⟨h.trans h', ha⟩
  rintro ⟨h, ha⟩
  exact ⟨d, .refl, h, ha⟩

theorem asks_of_page {page : List EventRow} {after : Option Nat}
    (h : (listAudit p slug limit before : Sql (Answer Conf)).Among Recorded d ⟨200, .events page after⟩ d') :
    ∃ org size below, Asks p slug limit before d org size below := by
  rw [listAudit_eq, among_withOrg] at h
  obtain ⟨e, -, h⟩ := h
  cases hfind : d.orgs.find? (·.slug == slug) with
  | none =>
    rw [hfind] at h
    cases (among_fail.mp h).1
  | some org =>
    rw [hfind, onOrg] at h
    by_cases hvisible : p.org.any (·.id != org.id) = true
    · rw [if_pos hvisible] at h
      cases (among_fail.mp h).1
    rw [if_neg hvisible] at h
    cases hsize : pageSize limit with
    | none =>
      rw [hsize] at h
      cases (among_fail.mp h).1
    | some size =>
      cases hbelow : cursor before with
      | none =>
        rw [hsize, hbelow] at h
        cases (among_fail.mp h).1
      | some below => exact ⟨org, size, below, hfind, Bool.eq_false_iff.mpr hvisible, hsize, hbelow⟩

end Answers

section Browsing

variable {Conf : Type} {p : Principal} {slug limit : Bytes} {start d : Tables} {after : Option Nat}
  {pages : List (List EventRow)}

theorem pageSize_pos {size : Nat} (h : pageSize limit = some size) : 0 < size := by
  rw [pageSize] at h
  split at h
  · cases h
    decide
  obtain ⟨n, -, h⟩ := Option.bind_eq_some_iff.mp h
  split at h
  · cases h
  · cases h
    rw [maxAuditPage]
    omega

theorem cursor_formatNat {n : Nat} (hpos : 0 < n) (hlt : n < 2 ^ 63) : cursor (formatNat n) = some (n : Int) := by
  have hne : ¬ (formatNat n).isEmpty = true := by simpa using (formatNat_spec n).1
  rw [cursor, if_neg hne, atoi_formatNat hlt, Option.bind_some, if_neg (by omega)]

theorem Asks.continued {org : OrgRow} {size n : Nat} {below : Int} (h : Asks p slug limit [] start org size below)
    (hrec : Recorded start d) (hpos : 0 < n) (hlt : n < 2 ^ 63) : Asks p slug limit (formatNat n) d org size n :=
  { h.recorded hrec with below := cursor_formatNat hpos hlt }

theorem EventIDs.grows (h : EventIDs d) {d' : Tables} (hrec : Recorded d d') (orgID : Nat) :
    Grows (·.id) (logOf orgID d) (logOf orgID d') where
  subset _ he := List.mem_filter.mpr ⟨hrec.events (List.mem_filter.mp he).1, (List.mem_filter.mp he).2⟩
  nodup := (h.recorded hrec).nodup.sublist (List.filter_sublist.map _)

theorem range_of_follows {org : OrgRow} {size n : Nat} (hids : EventIDs d) (hsize : 0 < size)
    (h : Follows (·.id) topID size (logOf org.id start) (logOf org.id d) (some n) pages) : 0 < n ∧ n < 2 ^ 63 := by
  have hread := h.read hsize
  obtain ⟨e, he, rfl⟩ := (hread.reached n rfl).1
  exact hids.range e (List.mem_filter.mp (hread.rows e he).1).1

theorem Browses.follows (h : Browses Conf p slug limit start d after pages) (hids : EventIDs start) :
    Recorded start d ∧ ∃ org size, Asks p slug limit [] start org size 0 ∧
      Follows (·.id) topID size (logOf org.id start) (logOf org.id d) after pages := by
  induction h with
  | @first d page after h =>
    obtain ⟨org, size, below, hasks⟩ := asks_of_page h
    obtain rfl : below = 0 := (Option.some.inj hasks.below).symm
    obtain ⟨hrec, hanswer⟩ := hasks.answer.mp h
    cases hanswer
    exact ⟨hrec, org, size, hasks, .first (hids.grows hrec org.id)⟩
  | @more d d' n page after pages h hpage ih =>
    obtain ⟨hrec, org, size, hasks, hfollows⟩ := ih
    obtain ⟨hpos, hlt⟩ := range_of_follows (hids.recorded hrec) (pageSize_pos hasks.size) hfollows
    have hnext := hasks.continued hrec hpos hlt
    obtain ⟨hrec', hanswer⟩ := hnext.answer.mp hpage
    rw [if_neg (by omega)] at hanswer
    cases hanswer
    exact ⟨hrec.trans hrec', org, size, hasks, hfollows.more ((hids.recorded hrec).grows hrec' org.id)⟩

/-- A client that follows the pages gets the events of the organization and no others, the newest first
and none twice, and is never refused a page. It comes to the end, and has then seen every event that
was there at the start exactly if none of them has the greatest id of all. -/
theorem audit_pages_complete_iff (h : Browses Conf p slug limit start d after pages) (hids : EventIDs start) :
    ∃ org, start.orgs.find? (·.slug == slug) = some org ∧
      (pages.flatten.Pairwise fun e f => f.id < e.id) ∧
      (∀ e ∈ pages.flatten, e ∈ d.events ∧ e.orgID = org.id) ∧
      pages.length ≤ (pages.flatten.head?.map (·.id)).getD 0 + 1 ∧
      (∀ n, after = some n → ∀ a d',
        (listAudit p slug limit (formatNat n) : Sql (Answer Conf)).Among Recorded d a d' →
          ∃ page after', a = ⟨200, .events page after'⟩) ∧
      (after = none → ((∀ e ∈ start.events, e.orgID = org.id → pages.flatten.count e = 1) ↔
        ∀ e ∈ start.events, e.orgID = org.id → e.id ≠ 2 ^ 63 - 1)) := by
  obtain ⟨hrec, org, size, hasks, hfollows⟩ := h.follows hids
  have hread := hfollows.read (pageSize_pos hasks.size)
  have hevents : ∀ e ∈ pages.flatten, e ∈ d.events ∧ e.orgID = org.id := fun e he => by
    obtain ⟨hmem, horg⟩ := List.mem_filter.mp (hread.rows e he).1
    exact ⟨hmem, beq_iff_eq.mp horg⟩
  have hids' := hids.recorded hrec
  have hnodup : pages.flatten.Nodup := hread.descending.imp fun hlt heq => by
    rw [heq] at hlt
    exact Nat.lt_irrefl _ hlt
  refine ⟨org, hasks.found, hread.descending, hevents, ?_, ?_, ?_⟩
  · have hlen := length_le_of_descending hread.descending fun e he => (hids'.range e (hevents e he).1).1
    exact hread.pages_le.trans (Nat.add_le_add_right hlen 1)
  · rintro n rfl a d' hanswer
    obtain ⟨hpos, hlt⟩ := range_of_follows hids' (pageSize_pos hasks.size) hfollows
    exact ⟨_, _, ((hasks.continued hrec hpos hlt).answer.mp hanswer).2⟩
  rintro rfl
  constructor
  · intro hall e he horg htop
    have hmem := List.count_pos_iff.mp (Nat.lt_of_lt_of_eq Nat.zero_lt_one (hall e he horg).symm)
    have hlt := (hread.rows e hmem).2
    rw [topID, htop] at hlt
    omega
  intro hnone e he horg
  refine List.count_eq_one_of_mem hnodup (hread.covers e ?_ ?_ fun n hn => by cases hn)
  · exact List.mem_filter.mpr ⟨he, beq_iff_eq.mpr horg⟩
  have := hnone e he horg
  have := (hids.range e he).2
  rw [topID]
  omega

end Browsing

def signin (id : Nat) : EventRow := ⟨id, 1, [], bs "admin token", bs "signin", [], [], []⟩

def signins (ids : List Nat) : Tables :=
  { Tables.empty with
    orgs := [⟨1, bs "acme", bs "Acme", []⟩]
    events := ids.map signin }

theorem answer_signins {ids ids' : List Nat} {limit before : Bytes} {page : List EventRow} {after : Option Nat}
    (size : Nat) (below : Int) (hsize : pageSize limit = some size) (hbelow : cursor before = some below)
    (hrec : Recorded (signins ids) (signins ids'))
    (hpage : newest (·.id) (if below ≤ 0 then topID else below) size (logOf 1 (signins ids')) = page)
    (hafter : next (·.id) size page = after) :
    (listAudit .admin (bs "acme") limit before : Sql (Answer Unit)).Among Recorded (signins ids)
      ⟨200, .events page after⟩ (signins ids') := by
  have hasks : Asks .admin (bs "acme") limit before (signins ids) ⟨1, bs "acme", bs "Acme", []⟩ size below :=
    ⟨rfl, rfl, hsize, hbelow⟩
  exact hasks.answer.mpr ⟨hrec, by rw [hpage, hafter]⟩

/-- Two events on pages of one, and a third that is recorded behind the first page. -/
theorem audit_pages_complete_sample :
    Browses Unit .admin (bs "acme") (bs "1") (signins [3, 7]) (signins [3, 7, 9]) none [[signin 7], [signin 3], []] ∧
      ∃ org, (signins [3, 7]).orgs.find? (·.slug == bs "acme") = some org ∧
        ∀ e ∈ (signins [3, 7]).events, e.orgID = org.id →
          [[signin 7], [signin 3], []].flatten.count e = 1 := by
  have hids : EventIDs (signins [3, 7]) := ⟨by decide, by decide⟩
  have hrecord : Recorded (signins [3, 7]) (signins [3, 7, 9]) :=
    .record .refl { Services.plain with newID := fun _ => 9 } (signin 0) (by decide) (by decide)
  have hfirst : Browses Unit .admin (bs "acme") (bs "1") (signins [3, 7]) (signins [3, 7]) (some 7) [[signin 7]] := by
    refine .first (answer_signins 1 0 rfl rfl .refl ?_ rfl)
    simp [newest, sortedBelow, logOf, signins, signin, topID, List.mergeSort, List.MergeSort.Internal.splitInTwo]
  have hsecond : Browses Unit .admin (bs "acme") (bs "1") (signins [3, 7]) (signins [3, 7, 9]) (some 3)
      [[signin 7], [signin 3]] := by
    refine hfirst.more (answer_signins 1 7 rfl rfl hrecord ?_ rfl)
    simp [newest, sortedBelow, logOf, signins, signin]
  have hbrowses : Browses Unit .admin (bs "acme") (bs "1") (signins [3, 7]) (signins [3, 7, 9]) none
      [[signin 7], [signin 3], []] := by
    refine hsecond.more (answer_signins 1 3 rfl rfl .refl ?_ rfl)
    simp [newest, sortedBelow, logOf, signins, signin]
  obtain ⟨org, hfind, -, -, -, -, hall⟩ := audit_pages_complete_iff hbrowses hids
  exact ⟨hbrowses, org, hfind, (hall rfl).mpr fun e he _ => by decide +revert⟩

/-- The event with the greatest id is on no page. -/
theorem audit_page_without_last_id :
    Browses Unit .admin (bs "acme") [] (signins [2 ^ 63 - 1]) (signins [2 ^ 63 - 1]) none [[]] ∧
      EventIDs (signins [2 ^ 63 - 1]) ∧
      ∃ e ∈ (signins [2 ^ 63 - 1]).events, e.orgID = 1 ∧ ([[]] : List (List EventRow)).flatten.count e = 0 :=
  ⟨.first (answer_signins 100 0 rfl rfl .refl (by simp [newest, sortedBelow, logOf, signins, signin, topID]) rfl),
    ⟨List.nodup_singleton _, by decide⟩, _, List.mem_singleton_self _, rfl, rfl⟩

end PiiShield.Panel
