import PiiShield.Holdings
import PiiShield.Panel.Accounts

/-! Magic links sign in once, however the statements of the requests interleave. What is
counted are the unused rows of a link and the requests that took one. -/

namespace PiiShield.Panel

open Transactions

inductive Call
  | createLogin (email value : Bytes) (t expires : Instant)
  | consumeLogin (value : Bytes) (now : Instant)
  | createSession (userID : Nat) (value : Bytes) (t expires : Instant)

variable (S : Services)

def Call.code : Call → Sql (Except StoreError Bytes)
  | .createLogin email value t expires => Panel.createLogin S email value t expires
  | .consumeLogin value now => Panel.consumeLogin S value now
  | .createSession userID value t expires => Panel.createSession S userID value t expires

/-- Any number of calls at once, on any number of processes over one database. -/
def connections (calls : List Call) (d : Tables) :
    System Tables Nat Empty (Except StoreError Nat) (Except StoreError Bytes) :=
  ⟨d, (calls.map (Call.code S)).map .idle⟩

variable (value : Bytes)

def Call.issues : Call → Bool
  | .createLogin _ v _ _ => S.hashToken v == S.hashToken value
  | _ => false

/-- How often the value was handed out as a link: before, or by one of the calls. -/
def handedOut (d : Tables) (calls : List Call) (value : Bytes) : Nat :=
  d.logins.countP (·.hash == S.hashToken value) + calls.countP (Call.issues S value)

def refused : Except StoreError Bytes → Bool
  | .error .expired => true
  | .error .notFound => true
  | _ => false

def Call.brings (call : Call) : Nat := if call.issues S value then 1 else 0

def Call.took : Call → Except StoreError Bytes → Nat
  | .consumeLogin v _, a => if S.hashToken v = S.hashToken value ∧ refused a = false then 1 else 0
  | _, _ => 0

namespace Tables

def unused (hash : Bytes) (d : Tables) : Nat := d.logins.countP fun l => l.hash == hash && l.usedAt.isNone

theorem unused_useLogin (hash now : Bytes) (d : Tables) :
    (d.useLogin hash now).unused hash + d.logins.countP (usable hash now) = d.unused hash := by
  simp only [unused, useLogin, List.countP_map]
  induction d.logins with
  | nil => rfl
  | cons l ls ih =>
    rw [List.countP_cons, List.countP_cons, List.countP_cons]
    have hl : (if ((fun l : LoginRow => l.hash == hash && l.usedAt.isNone) ∘ fun l =>
          if usable hash now l = true then { l with usedAt := some now } else l) l then 1 else 0) +
        (if usable hash now l = true then 1 else 0) =
          if (l.hash == hash && l.usedAt.isNone) = true then 1 else 0 := by
      by_cases hu : usable hash now l = true
      · simp_all [usable, Bool.and_eq_true]
      simp [hu]
    omega

theorem unused_useLogin_le (hash hash' now : Bytes) (d : Tables) :
    (d.useLogin hash' now).unused hash ≤ d.unused hash := by
  simp only [unused, useLogin, List.countP_map]
  refine List.countP_mono_left fun l _ h => ?_
  by_cases hu : usable hash' now l = true
  · simp [hu] at h
  simpa [hu] using h

theorem unused_insertLogin_le {S : Services} (email hash hash' createdAt expiresAt : Bytes) (d : Tables) :
    ((insertLogin S email hash' createdAt expiresAt).write d).unused hash ≤
      d.unused hash + if hash' = hash then 1 else 0 := by
  rw [Insert.write, insertLogin]
  by_cases hex : (d.logins.any (·.hash == hash')) = true
  · simp [hex]
  rw [if_neg hex]
  by_cases hh : hash' = hash <;> simp [unused, hh]

theorem unused_sweepLogins_le (hash now : Bytes) (d : Tables) :
    (d.sweepLogins now).unused hash ≤ d.unused hash :=
  List.filter_sublist.countP_le

end Tables

variable {S}

theorem holds_createLogin {email v : Bytes} {t expires : Instant} :
    (createLogin S email v t expires).Holds (Tables.unused (S.hashToken value))
      ((Call.createLogin email v t expires).took S value) ((Call.createLogin email v t expires).brings S value) := by
  rw [createLogin]
  cases normalizeEmail S email with
  | error e => exact Nat.zero_le _
  | ok email =>
    refine Client.holds_exec fun d => ⟨0, ?_, ?_⟩
    · simp [Tables.unused_insertLogin_le, Call.brings, Call.issues]
    · cases (Tables.insertLogin S email (S.hashToken v) t.format expires.format).result d <;>
        exact Nat.zero_le _

theorem took_consumeLogin_le_one {value v : Bytes} {now : Instant} (a : Except StoreError Bytes) :
    (Call.consumeLogin v now).took S value a ≤ 1 := by
  rw [Call.took]
  split <;> decide

theorem holds_consumeLogin {v : Bytes} {now : Instant} :
    (consumeLogin S v now).Holds (Tables.unused (S.hashToken value)) ((Call.consumeLogin v now).took S value)
      ((Call.consumeLogin v now).brings S value) := by
  refine Client.holds_exec fun d => ?_
  by_cases hv : S.hashToken v = S.hashToken value
  · -- a call that used the row holds it from here on
    have huse := Tables.unused_useLogin (S.hashToken v) now.format d
    by_cases hone : d.logins.countP (Tables.usable (S.hashToken v) now.format) = 1
    · rw [if_pos hone]
      refine ⟨1, by rw [← hv]; omega, Client.holds_query fun d' => ?_⟩
      exact took_consumeLogin_le_one _
    rw [if_neg hone]
    refine ⟨0, by rw [← hv]; omega, Client.holds_query fun d' => ?_⟩
    change (Call.consumeLogin v now).took S value _ ≤ 0
    split <;> simp [Call.took, refused]
  have hle := Tables.unused_useLogin_le (S.hashToken value) (S.hashToken v) now.format d
  have hnone (a : Except StoreError Bytes) : (Call.consumeLogin v now).took S value a ≤ 0 := by
    simp [Call.took, hv]
  refine ⟨0, by omega, ?_⟩
  split
  · exact Client.holds_query fun d' => hnone _
  exact Client.holds_query fun d' => hnone _

theorem holds_insertTx {stock : Tables → Nat} {post : Except StoreError Nat → Nat → Prop} {f : Insert}
    {next : Nat → StoreTx} {n : Nat} (herror : ∀ e, post (.error e) n)
    (hnext : ∀ id, (next id).Holds stock post f.write n) : (insertTx f next).Holds stock post id n := by
  intro d
  dsimp only [id_eq]
  cases f.result d with
  | error e => exact herror e
  | ok id => exact hnext id

theorem logins_insertSession (userID : Nat) (hash createdAt expiresAt : Bytes) (d : Tables) :
    ((Tables.insertSession S userID hash createdAt expiresAt).write d).logins = d.logins := by
  rw [Insert.write, Tables.insertSession]
  split_ifs <;> rfl

theorem holds_createSession {userID : Nat} {v : Bytes} {t expires : Instant} :
    (createSession S userID v t expires).Holds (Tables.unused (S.hashToken value))
      ((Call.createSession userID v t expires).took S value)
      ((Call.createSession userID v t expires).brings S value) := by
  refine Client.holds_transaction (holds_insertTx (fun e => Nat.zero_le _) fun id _ _ _ d => ⟨0, ?_, Nat.zero_le _⟩)
  grind [Tables.unused_sweepLogins_le, Tables.sweepSessions, Tables.setLastLogin, Tables.unused,
    logins_insertSession]

theorem Call.holds (call : Call) :
    (call.code S).Holds (Tables.unused (S.hashToken value)) (call.took S value) (call.brings S value) := by
  cases call with
  | createLogin => exact holds_createLogin value
  | consumeLogin => exact holds_consumeLogin value
  | createSession => exact holds_createSession value

theorem sum_brings (calls : List Call) :
    ∑ p ∈ Finset.range calls.length, (calls[p]?.map (Call.brings S value)).getD 0 =
      calls.countP (Call.issues S value) := by
  induction calls with
  | nil => rfl
  | cons call calls ih =>
    rw [List.length_cons, Finset.sum_range_succ', List.countP_cons, ← ih]
    rfl

theorem Tables.unused_le_countP (hash : Bytes) (d : Tables) :
    d.unused hash ≤ d.logins.countP (·.hash == hash) :=
  List.countP_mono_left fun _ _ h => (Bool.and_eq_true _ _ ▸ h).1

theorem connections_holds (calls : List Call) (d : Tables) :
    (connections S calls d).Holds (Tables.unused (S.hashToken value))
      (fun p a => (calls[p]?.map fun call => call.took S value a).getD 0) (handedOut S d calls value) := by
  refine ⟨fun p => (calls[p]?.map (Call.brings S value)).getD 0, fun p t ht => ?_, ?_⟩
  · simp only [connections, List.getElem?_map, Option.map_eq_some_iff] at ht
    obtain ⟨_, ⟨call, hcall, rfl⟩, rfl⟩ := ht
    simp only [hcall]
    exact call.holds value
  have hle := d.unused_le_countP (S.hashToken value)
  simp_all [sum_brings, connections, handedOut]

/-- A link that was handed out once gives its address to one request at most; every other
request with it that gets through is told that the link is used or not there. -/
theorem link_signs_in_once (pg : Bool) (calls : List Call) (d : Tables) (value : Bytes)
    (hissued : handedOut S d calls value ≤ 1) (actions : List Action) {p q : Nat} (hpq : p ≠ q)
    {now now' : Instant} (hp : calls[p]? = some (.consumeLogin value now))
    (hq : calls[q]? = some (.consumeLogin value now')) {email : Bytes}
    (hemail : ((connections S calls d).run (!pg) actions).answer p = some (.ok email))
    {a : Except StoreError Bytes} (ha : ((connections S calls d).run (!pg) actions).answer q = some a) :
    a = .error .expired ∨ a = .error .notFound := by
  have hle := ((connections_holds value calls d).run actions).worth_add_le hpq hemail ha
  simp only [hp, hq, Option.map_some, Option.getD_some, Call.took, true_and] at hle
  have hfirst : refused (.ok email) = false := rfl
  have hrefused : refused a = true := by
    by_contra hnot
    rw [if_pos hfirst, if_pos (Bool.eq_false_iff.mpr hnot)] at hle
    omega
  match a with
  | .error .expired => exact .inl rfl
  | .error .notFound => exact .inr rfl

def firstSecond : Instant := ⟨0, Instant.within_zero⟩

def secondSecond : Instant := ⟨10 ^ 9, Instant.within_first⟩

def openLink : Tables :=
  { Tables.empty with logins := [⟨1, bs "a@o.io", bs "link", [], secondSecond.format, none⟩] }

def twoClicks : System Tables Nat Empty (Except StoreError Nat) (Except StoreError Bytes) :=
  (connections .plain [.consumeLogin (bs "link") firstSecond, .consumeLogin (bs "link") firstSecond] openLink).run
    false [.advance 0, .advance 1, .advance 1, .advance 0]

theorem link_signs_in_once_clicks : twoClicks.answer 0 = some (.ok (bs "a@o.io")) ∧
    ∃ a, twoClicks.answer 1 = some a ∧ (a = .error .expired ∨ a = .error .notFound) := by
  have hfirst : twoClicks.answer 0 = some (.ok (bs "a@o.io")) := by rfl
  have hsecond : twoClicks.answer 1 = some (.error .expired) := by rfl
  have hissued : handedOut .plain openLink
      [.consumeLogin (bs "link") firstSecond, .consumeLogin (bs "link") firstSecond] (bs "link") ≤ 1 := by
    decide +kernel
  exact ⟨hfirst, _, hsecond, link_signs_in_once true _ openLink (bs "link") hissued _ (by decide : (0 : Nat) ≠ 1)
    rfl rfl hfirst hsecond⟩

end PiiShield.Panel
