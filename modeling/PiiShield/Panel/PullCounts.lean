import PiiShield.Dues
import PiiShield.Panel.Public

/-! Pulls that are counted by statements of their own, while others count and drop rows too. -/

namespace PiiShield.Panel

open Transactions

def Tables.pullOn (tokenID : Nat) (day : Bytes) (d : Tables) : Option PullRow :=
  d.pulls.find? fun p => p.tokenID == tokenID && p.day == day

/-- A column of the row of a token for a day; zero without a row. -/
def Tables.counted (column : PullRow → Nat) (tokenID : Nat) (day : Bytes) (d : Tables) : Nat :=
  (d.pullOn tokenID day).elim 0 column

theorem pullOn_bumpPull (tokenID tokenID' : Nat) (day day' : Bytes) (n : Nat) (d : Tables) :
    (d.bumpPull tokenID day n).pullOn tokenID' day' =
      (d.pullOn tokenID' day').map fun p => if tokenID = tokenID' ∧ day = day' then p.add n else p := by
  have hkey (p : PullRow) : ((if p.tokenID == tokenID && p.day == day then p.add n else p).tokenID == tokenID' &&
      (if p.tokenID == tokenID && p.day == day then p.add n else p).day == day') =
        (p.tokenID == tokenID' && p.day == day') := by
    split <;> rfl
  rw [Tables.pullOn, Tables.bumpPull, List.find?_map, Tables.pullOn]
  simp only [Function.comp_def, hkey]
  refine Option.map_congr fun p hp => ?_
  grind

theorem affected_eq_zero_iff (tokenID : Nat) (day : Bytes) (d : Tables) :
    (d.pulls.countP fun p => p.tokenID == tokenID && p.day == day) = 0 ↔ d.pullOn tokenID day = none := by
  rw [List.countP_eq_zero, Tables.pullOn, List.find?_eq_none]

theorem bumpPull_of_none {tokenID : Nat} {day : Bytes} {d : Tables} (hnone : d.pullOn tokenID day = none) (n : Nat) :
    d.bumpPull tokenID day n = d := by
  rw [Tables.pullOn, List.find?_eq_none] at hnone
  have hsame : (d.pulls.map fun p => if p.tokenID == tokenID && p.day == day then p.add n else p) = d.pulls := by
    conv_rhs => rw [← List.map_id d.pulls]
    exact List.map_congr_left fun p hp => if_neg (hnone p hp)
  rw [Tables.bumpPull, hsame]

theorem all_ne_of_any {d : Tables} {tokenID : Nat} (hknown : d.tokens.any (·.id == tokenID) = true) :
    d.tokens.all (·.id != tokenID) = false := by
  rw [← Bool.not_eq_true', List.not_all_eq_any_not]
  simpa using hknown

theorem insertPull_of_unknown {d : Tables} {tokenID : Nat} (hunknown : d.tokens.any (·.id == tokenID) = false)
    (day : Bytes) (n : Nat) : d.insertPull tokenID day n = d := by
  simp_all [List.all_eq_not_any_not, Tables.insertPull]

theorem pullOn_insertPull_of_none {tokenID : Nat} {day : Bytes} {d : Tables} (hnone : d.pullOn tokenID day = none)
    (hknown : d.tokens.any (·.id == tokenID) = true) (tokenID' : Nat) (day' : Bytes) (n : Nat) :
    (d.insertPull tokenID day n).pullOn tokenID' day' =
      (d.pullOn tokenID' day').or (if tokenID = tokenID' ∧ day = day' then some ⟨tokenID, day, 1, n⟩ else none) := by
  simp_all [all_ne_of_any, Tables.pullOn, List.find?_eq_none, Tables.insertPull, if_neg]

theorem pullOn_dropPulls (tokenID tokenID' : Nat) (cutoff day' : Bytes) (d : Tables) :
    (d.dropPulls tokenID cutoff).pullOn tokenID' day' =
      if tokenID = tokenID' ∧ day' < cutoff then none else d.pullOn tokenID' day' := by
  rw [Tables.dropPulls, Tables.pullOn, List.find?_filter, Tables.pullOn]
  grind

section Column

structure Adds (column : PullRow → Nat) (weight : Bool → Nat) : Prop where
  add : ∀ p notModified, column (PullRow.add notModified.toNat p) = column p + weight notModified
  first : ∀ tokenID day notModified, column ⟨tokenID, day, 1, Bool.toNat notModified⟩ = weight notModified

theorem adds_pulls : Adds (·.pulls) fun _ => 1 := ⟨fun _ _ => rfl, fun _ _ _ => rfl⟩

theorem adds_notModified : Adds (·.notModified) Bool.toNat := ⟨fun _ _ => rfl, fun _ _ _ => rfl⟩

variable {column : PullRow → Nat} {weight : Bool → Nat} (h : Adds column weight)
include h

theorem counted_bumpPull {tokenID tokenID' : Nat} {day day' : Bytes} {d : Tables} {p : PullRow}
    (hp : d.pullOn tokenID day = some p) (notModified : Bool) :
    (d.bumpPull tokenID day notModified.toNat).counted column tokenID' day' =
      d.counted column tokenID' day' + if tokenID = tokenID' ∧ day = day' then weight notModified else 0 := by
  rw [Tables.counted, pullOn_bumpPull, Tables.counted]
  by_cases hkey : tokenID = tokenID' ∧ day = day'
  · obtain ⟨rfl, rfl⟩ := hkey
    simp [hp, h.add]
  simp [hkey]

theorem counted_insertPull {tokenID : Nat} {d : Tables} (hknown : d.tokens.any (·.id == tokenID) = true)
    (tokenID' : Nat) (day day' : Bytes) (notModified : Bool) :
    (d.insertPull tokenID day notModified.toNat).counted column tokenID' day' =
      d.counted column tokenID' day' + if tokenID = tokenID' ∧ day = day' then weight notModified else 0 := by
  cases hrow : d.pullOn tokenID day with
  | none =>
    rw [Tables.counted, pullOn_insertPull_of_none hrow hknown, Tables.counted]
    by_cases hkey : tokenID = tokenID' ∧ day = day'
    · obtain ⟨rfl, rfl⟩ := hkey
      simp [hrow, h.first]
    simp [hkey]
  | some p =>
    have hall : d.tokens.all (·.id != tokenID) = false := all_ne_of_any hknown
    have hp := List.find?_some hrow
    have hany : (d.pulls.any fun p => p.tokenID == tokenID && p.day == day) = true :=
      List.any_eq_true.mpr ⟨p, List.mem_of_find?_eq_some hrow, hp⟩
    rw [Tables.insertPull, hall, hany, if_neg Bool.false_ne_true, if_pos rfl]
    exact counted_bumpPull h hrow notModified

omit h in
theorem counted_dropPulls_le (tokenID tokenID' : Nat) (cutoff day' : Bytes) (d : Tables) :
    (d.dropPulls tokenID cutoff).counted column tokenID' day' ≤ d.counted column tokenID' day' := by
  rw [Tables.counted, pullOn_dropPulls]
  split
  · exact Nat.zero_le _
  exact Nat.le_refl _

theorem owes_countPull {tokenID tokenID' : Nat} {day day' cutoff : Bytes} {lossless : Prop} (notModified : Bool)
    (hkept : lossless → tokenID = tokenID' → ¬day' < cutoff) :
    (countPull tokenID notModified day cutoff).Owes (Tables.counted column tokenID' day') lossless (· = .ok ())
      (if tokenID = tokenID' ∧ day = day' then weight notModified else 0) := by
  refine Client.owes_exec_bind.mpr fun d => ?_
  cases hrow : d.pullOn tokenID day with
  | some p =>
    have haffected : ¬(d.pulls.countP fun p => p.tokenID == tokenID && p.day == day) = 0 := by
      rw [affected_eq_zero_iff, hrow]
      exact Option.some_ne_none p
    refine ⟨0, ?_, ?_⟩
    · rw [counted_bumpPull h hrow, Nat.add_zero]
      exact .refl _ _
    rw [if_neg haffected]
    exact Client.owes_pure.mpr fun _ => rfl
  | none =>
    refine ⟨if tokenID = tokenID' ∧ day = day' then weight notModified else 0, ?_, ?_⟩
    · rw [bumpPull_of_none hrow]
      exact .refl _ _
    rw [if_pos ((affected_eq_zero_iff tokenID day d).mpr hrow)]
    refine Client.owes_exec_bind.mpr fun e => ?_
    cases hknown : e.tokens.any (·.id == tokenID) with
    | false =>
      refine ⟨if tokenID = tokenID' ∧ day = day' then weight notModified else 0, ?_,
        Client.owes_pure.mpr fun hok => by cases hok⟩
      rw [insertPull_of_unknown hknown]
      exact .refl _ _
    | true =>
      refine ⟨0, ?_, ?_⟩
      · rw [counted_insertPull h hknown, Nat.add_zero]
        exact .refl _ _
      rw [if_pos rfl]
      refine Client.owes_exec_bind.mpr fun f => ⟨0, ?_, Client.owes_pure.mpr fun _ => rfl⟩
      refine ⟨counted_dropPulls_le _ _ _ _ f, fun he => ?_⟩
      rw [Tables.counted, pullOn_dropPulls, if_neg fun hdrop => hkept he hdrop.1 hdrop.2, Tables.counted]

end Column

theorem eval_countPull_of_none {tokenID : Nat} {day : Bytes} {d : Tables} (hnone : d.pullOn tokenID day = none)
    (hknown : d.tokens.any (·.id == tokenID) = true) (notModified : Bool) (cutoff : Bytes) :
    (countPull tokenID notModified day cutoff).eval d =
      (.ok (), (d.insertPull tokenID day notModified.toNat).dropPulls tokenID cutoff) := by
  have haffected := (affected_eq_zero_iff tokenID day d).mpr hnone
  simp [countPull, haffected, bumpPull_of_none hnone, hknown]

theorem eval_countPull_of_some {tokenID : Nat} {day : Bytes} {d : Tables} {p : PullRow}
    (hsome : d.pullOn tokenID day = some p) (notModified : Bool) (cutoff : Bytes) :
    (countPull tokenID notModified day cutoff).eval d = (.ok (), d.bumpPull tokenID day notModified.toNat) := by
  have haffected : ¬(d.pulls.countP fun p => p.tokenID == tokenID && p.day == day) = 0 := by
    rw [affected_eq_zero_iff, hsome]
    exact Option.some_ne_none p
  simp [countPull, haffected]

theorem eval_countPull_ok {tokenID : Nat} {d : Tables} (hknown : d.tokens.any (·.id == tokenID) = true)
    (notModified : Bool) (day cutoff : Bytes) :
    ((countPull tokenID notModified day cutoff).eval d).2.tokens = d.tokens ∧
      ((countPull tokenID notModified day cutoff).eval d).1 = .ok () := by
  cases hrow : d.pullOn tokenID day with
  | none =>
    rw [eval_countPull_of_none hrow hknown]
    exact ⟨tokens_insertPull tokenID day _ d, rfl⟩
  | some p =>
    rw [eval_countPull_of_some hrow]
    exact ⟨rfl, rfl⟩

def dayNanos : Nat := 24 * 3600 * 10 ^ 9

def pullRetention : Nat := 90 * dayNanos

def unixEpoch : Nat := 719162 * dayNanos

def clockDay (nanos : Nat) : Nat := (unixEpoch + nanos) / dayNanos

def oldestDay (nanos : Nat) : Nat := (unixEpoch + nanos - pullRetention) / dayNanos

/-- A call of `CountPull`, with the clock when it takes its day and when it drops old ones, in
nanoseconds since 1970. -/
structure Pull where
  tokenID : Nat
  notModified : Bool
  countedAt : Nat
  droppedAt : Nat

namespace Pull

def day (c : Pull) : Nat := clockDay c.countedAt

def oldest (c : Pull) : Nat := oldestDay c.droppedAt

def client (c : Pull) : Sql (Except StoreError Unit) :=
  countPull c.tokenID c.notModified (dayText c.day) (dayText c.oldest)

end Pull

def counting (d : Tables) (calls : List Pull) :
    System Tables Nat Empty (Except StoreError Nat) (Except StoreError Unit) :=
  ⟨d, calls.map fun c => .idle c.client⟩

variable (calls : List Pull)

def madeOn (tokenID day : Nat) : List Pull :=
  calls.filter fun c => c.tokenID == tokenID && c.day == day

def Pull.due (weight : Bool → Nat) (tokenID day : Nat) (c : Pull) : Nat :=
  if c.tokenID = tokenID ∧ c.day = day then weight c.notModified else 0

theorem sum_due (weight : Bool → Nat) (calls : List Pull) (tokenID day : Nat) :
    (calls.map (Pull.due weight tokenID day)).sum =
      ((madeOn calls tokenID day).map fun c => weight c.notModified).sum := by
  induction calls with
  | nil => rfl
  | cons c calls ih =>
    rw [madeOn] at ih
    rw [madeOn, List.map_cons, List.sum_cons, ih, Pull.due, List.filter_cons]
    grind

theorem sum_range_getElem? {α : Type} (f : α → Nat) (l : List α) :
    ∑ p ∈ Finset.range l.length, l[p]?.elim 0 f = (l.map f).sum := by
  induction l with
  | nil => rfl
  | cons a l ih =>
    rw [List.length_cons, Finset.sum_range_succ', List.map_cons, List.sum_cons, ← ih, Nat.add_comm]
    rfl

section Counting

variable {column : PullRow → Nat} {weight : Bool → Nat} (h : Adds column weight) {calls : List Pull}
  {tokenID day : Nat} {lossless : Prop}
  (hkept : lossless → ∀ c ∈ calls, c.tokenID = tokenID → ¬dayText day < dayText c.oldest)
include h hkept

theorem owes_client {c : Pull} (hc : c ∈ calls) :
    c.client.Owes (Tables.counted column tokenID (dayText day)) lossless (· = .ok ()) (c.due weight tokenID day) := by
  have hsame : c.day = day ↔ dayText c.day = dayText day := ⟨congrArg dayText, dayText_inj⟩
  simp only [Pull.due, hsame]
  exact owes_countPull h c.notModified fun he => hkept he c hc

theorem owing_counting (d : Tables) :
    (counting d calls).Owing (Tables.counted column tokenID (dayText day)) lossless (· = .ok ())
      fun p => calls[p]?.elim 0 (Pull.due weight tokenID day) := by
  intro p t ht
  rw [counting, List.getElem?_map, Option.map_eq_some_iff] at ht
  obtain ⟨c, hc, rfl⟩ := ht
  simp only [hc, Option.elim_some]
  exact owes_client h hkept (List.mem_of_getElem? hc)

theorem balanced_counting {d : Tables} (serial : Bool) (actions : List Action)
    (hgood : ∀ p < calls.length, ((counting d calls).run serial actions).answer p = some (.ok ())) :
    Balanced lossless (((counting d calls).run serial actions).db.counted column tokenID (dayText day))
      (d.counted column tokenID (dayText day) +
        ((madeOn calls tokenID day).map fun c => weight c.notModified).sum) := by
  have hlen : (counting d calls).threads.length = calls.length := List.length_map _
  have hpaid := (owing_counting h hkept d).paid serial actions fun p hp => ⟨_, hgood p (hlen ▸ hp), rfl⟩
  rw [hlen, sum_range_getElem?, sum_due] at hpaid
  exact hpaid

end Counting

/-- The pulls of a token on a day, and those of them that brought nothing new. -/
def Tables.countsOn (tokenID day : Nat) (d : Tables) : Nat × Nat :=
  (d.counted (·.pulls) tokenID (dayText day), d.counted (·.notModified) tokenID (dayText day))

def madeCounts (tokenID day : Nat) : Nat × Nat :=
  ((madeOn calls tokenID day).length, (madeOn calls tokenID day).countP (·.notModified))

theorem sum_map_toNat :
    (calls.map fun c => c.notModified.toNat).sum = calls.countP (·.notModified) := by
  induction calls with
  | nil => rfl
  | cons c calls ih =>
    grind

theorem counted_of_new {d : Tables} (hnew : d.pulls = []) (column : PullRow → Nat) (tokenID : Nat) (day : Bytes) :
    d.counted column tokenID day = 0 := by
  rw [Tables.counted, Tables.pullOn, hnew]
  rfl

def TextsInOrder (now : Nat) : Prop :=
  ∀ a ∈ calls, ∀ b ∈ calls, a.tokenID = b.tokenID → oldestDay now ≤ a.day → ¬dayText a.day < dayText b.oldest

theorem countsOn_of_textsInOrder {d : Tables} {calls : List Pull} {now : Nat} (hnew : d.pulls = [])
    (horder : TextsInOrder calls now) {serial : Bool} {actions : List Action}
    (hgood : ∀ p < calls.length, ((counting d calls).run serial actions).answer p = some (.ok ()))
    {tokenID day : Nat} (hday : oldestDay now ≤ day) :
    ((counting d calls).run serial actions).db.countsOn tokenID day = madeCounts calls tokenID day := by
  have hkept : madeOn calls tokenID day ≠ [] → ∀ c ∈ calls, c.tokenID = tokenID → ¬dayText day < dayText c.oldest := by
    intro hmade c hc hid
    obtain ⟨a, ha⟩ := List.exists_mem_of_ne_nil _ hmade
    rw [madeOn, List.mem_filter, Bool.and_eq_true, beq_iff_eq, beq_iff_eq] at ha
    obtain ⟨ha, haid, rfl⟩ := ha
    exact horder a ha c hc (haid.trans hid.symm) hday
  have hall {column : PullRow → Nat} {weight : Bool → Nat} (h : Adds column weight) :
      ((counting d calls).run serial actions).db.counted column tokenID (dayText day) =
        ((madeOn calls tokenID day).map fun c => weight c.notModified).sum := by
    have hbal := balanced_counting h hkept serial actions hgood
    rw [counted_of_new hnew, Nat.zero_add] at hbal
    by_cases hmade : madeOn calls tokenID day = []
    · have hle := hbal.1
      rw [hmade] at hle ⊢
      exact Nat.le_zero.mp hle
    exact hbal.2 hmade
  rw [Tables.countsOn, hall adds_pulls, hall adds_notModified, madeCounts, sum_map_toNat]
  simp

abbrev Counting := System Tables Nat Empty (Except StoreError Nat) (Except StoreError Unit)

section Lost

variable {d : Tables} {calls : List Pull} {tokenID day : Nat}

/-- Between calls: each connection has its call before it or behind it, and owes to the row of
a token for a day what is still to be counted. -/
structure Ready (d : Tables) (calls : List Pull) (tokenID day : Nat) (s : Counting) (dues : Nat → Nat) : Prop where
  tokens : s.db.tokens = d.tokens
  length : s.threads.length = calls.length
  threads : ∀ t ∈ s.threads, System.Finishes (fun e : Tables => e.tokens = d.tokens) (· = .ok ()) t
  owing : s.Owing (Tables.counted (·.pulls) tokenID (dayText day)) False (· = .ok ()) dues

theorem ready_counting (hknown : ∀ c ∈ calls, d.tokens.any (·.id == c.tokenID) = true) (tokenID day : Nat) :
    Ready d calls tokenID day (counting d calls) fun p => calls[p]?.elim 0 (Pull.due (fun _ => 1) tokenID day) where
  tokens := rfl
  length := List.length_map _
  threads t ht := by
    obtain ⟨c, hc, rfl⟩ := List.mem_map.mp ht
    refine ⟨_, rfl, fun e he => ?_⟩
    obtain ⟨htokens, hok⟩ := eval_countPull_ok (he ▸ hknown c hc) c.notModified (dayText c.day) (dayText c.oldest)
    exact ⟨htokens.trans he, hok⟩
  owing := owing_counting adds_pulls (fun h => h.elim) d

theorem Ready.next {s : Counting} {dues : Nat → Nat} (h : Ready d calls tokenID day s dues) {p : Nat}
    {c : Sql (Except StoreError Unit)} (hp : s.threads[p]? = some (.idle c)) :
    ∃ actions, Ready d calls tokenID day (s.run false actions) (Function.update dues p 0) ∧
      (s.run false actions).db = (c.eval s.db).2 ∧
      ∀ q, q ≠ p → (s.run false actions).threads[q]? = s.threads[q]? := by
  obtain ⟨db, threads⟩ := s
  obtain ⟨actions, hrun⟩ := System.run_alone_of_get (d := db) false (fun u hu => (h.threads u hu).isBusy) hp
  obtain ⟨c', hc', hfinish⟩ := h.threads _ (List.mem_of_getElem? hp)
  cases hc'
  obtain ⟨htokens, hok⟩ := hfinish db h.tokens
  refine ⟨actions, ?_, by rw [hrun], fun q hq => by rw [hrun]; exact List.getElem?_set_ne (Ne.symm hq)⟩
  rw [hrun]
  refine ⟨htokens, by rw [List.length_set]; exact h.length, fun t ht => ?_, h.owing.set fun _ => rfl⟩
  rcases List.mem_or_eq_of_mem_set ht with ht | rfl
  · exact h.threads t ht
  exact ⟨_, rfl, fun e he => ⟨he, hok⟩⟩

theorem Ready.lost {before : List Action} {dues : Nat → Nat}
    (h : Ready d calls tokenID day ((counting d calls).run false before) dues)
    (hnone : ((counting d calls).run false before).db.pullOn tokenID (dayText day) = none)
    (hdues : ∑ p ∈ Finset.range calls.length, dues p < (madeOn calls tokenID day).length) :
    ∃ actions, (∀ p < calls.length, ((counting d calls).run false actions).answer p = some (.ok ())) ∧
      ((counting d calls).run false actions).db.counted (·.pulls) tokenID (dayText day) <
        (madeOn calls tokenID day).length := by
  obtain ⟨actions, hdone⟩ := System.exists_finish false h.tokens h.threads
  have hzero : ((counting d calls).run false before).db.counted (·.pulls) tokenID (dayText day) = 0 := by
    simp [Tables.counted, hnone]
  have hpaid := (h.owing.paid false actions hdone).1
  rw [h.length] at hdone
  rw [h.length, hzero, Nat.zero_add, ← System.run_append] at hpaid
  grind [Nat.lt_of_le_of_lt, System.run_append]

end Lost

theorem pullOn_eval_of_before {tokenID : Nat} {day day' cutoff : Bytes} {d : Tables}
    (hnone : d.pullOn tokenID day = none) (hknown : d.tokens.any (·.id == tokenID) = true) (notModified : Bool)
    (hbefore : day' < cutoff) :
    ((countPull tokenID notModified day cutoff).eval d).2.pullOn tokenID day' = none := by
  rw [eval_countPull_of_none hnone hknown, pullOn_dropPulls, if_pos ⟨rfl, hbefore⟩]

theorem pullOn_eval_of_ne {tokenID : Nat} {day day' : Bytes} {d : Tables} (hnew : d.pulls = [])
    (hknown : d.tokens.any (·.id == tokenID) = true) (notModified : Bool) (cutoff : Bytes) (hne : day ≠ day') :
    ((countPull tokenID notModified day cutoff).eval d).2.pullOn tokenID day' = none := by
  have hnone (day : Bytes) : d.pullOn tokenID day = none := by
    rw [Tables.pullOn, hnew]
    rfl
  simp [pullOn_insertPull_of_none, eval_countPull_of_none, pullOn_dropPulls, hnone, hknown, hne]

theorem exists_lost {d : Tables} {calls : List Pull} (hnew : d.pulls = [])
    (hknown : ∀ c ∈ calls, d.tokens.any (·.id == c.tokenID) = true) {a b : Pull} (ha : a ∈ calls) (hb : b ∈ calls)
    (hid : a.tokenID = b.tokenID) (hbefore : dayText a.day < dayText b.oldest) :
    ∃ actions, (∀ p < calls.length, ((counting d calls).run false actions).answer p = some (.ok ())) ∧
      ((counting d calls).run false actions).db.counted (·.pulls) a.tokenID (dayText a.day) <
        (madeOn calls a.tokenID a.day).length := by
  have hready := ready_counting hknown a.tokenID a.day
  have htotal : ∑ p ∈ Finset.range calls.length, calls[p]?.elim 0 (Pull.due (fun _ => 1) a.tokenID a.day) =
      (madeOn calls a.tokenID a.day).length := by
    rw [sum_range_getElem?, sum_due]
    simp
  have hget {c : Pull} {p : Nat} (hc : calls[p]? = some c) :
      (counting d calls).threads[p]? = some (.idle c.client) := by
    rw [counting, List.getElem?_map, hc]
    rfl
  have hdue {c : Pull} {p : Nat} (hc : calls[p]? = some c) (hkey : c.tokenID = a.tokenID ∧ c.day = a.day) :
      calls[p]?.elim 0 (Pull.due (fun _ => 1) a.tokenID a.day) = 1 := by
    simp [hc, Pull.due, if_pos hkey]
  obtain ⟨i, hi⟩ := List.mem_iff_getElem?.mp ha
  obtain ⟨j, hj⟩ := List.mem_iff_getElem?.mp hb
  obtain ⟨hjlt, -⟩ := List.getElem?_eq_some_iff.mp hj
  obtain ⟨hilt, -⟩ := List.getElem?_eq_some_iff.mp hi
  have hnone (day : Bytes) : d.pullOn b.tokenID day = none := by
    rw [Tables.pullOn, hnew]
    rfl
  by_cases hday : b.day = a.day
  · obtain ⟨before, hnext, hdb, -⟩ := hready.next (hget hj)
    have hlost := pullOn_eval_of_before (hnone (dayText b.day)) (hknown b hb) b.notModified hbefore
    have hsum := System.sum_update (fun p => calls[p]?.elim 0 (Pull.due (fun _ => 1) a.tokenID a.day)) 0 hjlt
    rw [hdue hj ⟨hid.symm, hday⟩] at hsum
    refine hnext.lost ?_ (by omega)
    rw [hdb, hid]
    exact hlost
  have hne : j ≠ i := by
    rintro rfl
    rw [hi] at hj
    cases hj
    exact hday rfl
  obtain ⟨first, hnext, hdb, hrest⟩ := hready.next (hget hi)
  obtain ⟨second, hnext', hdb', -⟩ := hnext.next ((hrest j hne).trans (hget hj))
  rw [← System.run_append] at hnext' hdb'
  have hnone' : (a.client.eval d).2.pullOn b.tokenID (dayText b.day) = none := by
    rw [← hid]
    exact pullOn_eval_of_ne hnew (hknown a ha) a.notModified _ fun h => hday (dayText_inj h).symm
  have hknown' : (a.client.eval d).2.tokens.any (·.id == b.tokenID) = true := by
    rw [Pull.client, (eval_countPull_ok (hknown a ha) _ _ _).1]
    exact hknown b hb
  have hlost := pullOn_eval_of_before hnone' hknown' b.notModified hbefore
  have hsum := System.sum_update (fun p => calls[p]?.elim 0 (Pull.due (fun _ => 1) a.tokenID a.day)) 0 hilt
  have hsum' := System.sum_update (Function.update
    (fun p => calls[p]?.elim 0 (Pull.due (fun _ => 1) a.tokenID a.day)) i 0) 0 hjlt
  rw [hdue hi ⟨rfl, rfl⟩] at hsum
  refine hnext'.lost ?_ (by omega)
  rw [hdb', hdb, hid]
  exact hlost

theorem textsInOrder_of_before {calls : List Pull} {now : Nat} (hnow : clockDay now < 3652059)
    (hcalls : ∀ c ∈ calls, c.countedAt ≤ now ∧ c.droppedAt ≤ now) : TextsInOrder calls now := by
  intro a ha b hb _ hkept hbefore
  have hday : a.day ≤ clockDay now := Nat.div_le_div_right (Nat.add_le_add_left (hcalls a ha).1 _)
  have holdest : b.oldest ≤ oldestDay now :=
    Nat.div_le_div_right (Nat.sub_le_sub_right (Nat.add_le_add_left (hcalls b hb).2 _) _)
  have hlt := (dayText_lt_dayText_iff (by omega) (by omega)).mp hbefore
  omega

/-- Every interleaving counts each pull of a kept day once, just in case no call sweeps the day of
another call of its token. -/
theorem pulls_counted_iff {d : Tables} {calls : List Pull} (hnew : d.pulls = [])
    (hknown : ∀ c ∈ calls, d.tokens.any (·.id == c.tokenID) = true) (now : Nat) :
    (∀ serial actions, (∀ p < calls.length, ((counting d calls).run serial actions).answer p = some (.ok ())) →
      ∀ tokenID day, oldestDay now ≤ day →
        ((counting d calls).run serial actions).db.countsOn tokenID day = madeCounts calls tokenID day) ↔
    ∀ a ∈ calls, ∀ b ∈ calls, a.tokenID = b.tokenID → oldestDay now ≤ a.day →
      ¬dayText a.day < dayText b.oldest := by
  constructor
  · intro hall a ha b hb hid hkept hbefore
    obtain ⟨actions, hdone, hlt⟩ := exists_lost hnew hknown ha hb hid hbefore
    have hcounts := congrArg Prod.fst (hall false actions hdone a.tokenID a.day hkept)
    exact absurd hcounts (Nat.ne_of_lt hlt)
  intro horder serial actions hdone tokenID day hday
  exact countsOn_of_textsInOrder hnew horder hdone hday

def oneToken : Tables :=
  { Tables.empty with tokens := [⟨1, 1, bs "prod", kindPull, [], [], [], none, none, []⟩] }

def aroundMidnight : List Pull :=
  let midnight := 20455 * dayNanos
  [⟨1, false, midnight - 2, midnight - 1⟩, ⟨1, true, midnight - 1, midnight + 1⟩, ⟨1, true, midnight, midnight + 1⟩]

theorem pulls_counted_around_midnight :
    madeCounts aroundMidnight 1 (719162 + 20454) = (2, 1) ∧
      ∀ serial actions,
        (∀ p < aroundMidnight.length,
          ((counting oneToken aroundMidnight).run serial actions).answer p = some (.ok ())) →
          ∀ tokenID day, oldestDay (20456 * dayNanos) ≤ day →
            ((counting oneToken aroundMidnight).run serial actions).db.countsOn tokenID day =
              madeCounts aroundMidnight tokenID day := by
  have hnew : oneToken.pulls = [] := rfl
  have hknown : ∀ c ∈ aroundMidnight, oneToken.tokens.any (·.id == c.tokenID) = true := by decide +kernel
  refine ⟨by decide +kernel, (pulls_counted_iff hnew hknown _).mpr ?_⟩
  exact textsInOrder_of_before (by decide +kernel) (by decide +kernel)

def lateCall : Pull := ⟨1, false, 2932897 * dayNanos, 2932897 * dayNanos⟩

theorem pull_of_year_10000_lost :
    ¬∀ serial actions, (∀ p < 1, ((counting oneToken [lateCall]).run serial actions).answer p = some (.ok ())) →
      ∀ tokenID day, oldestDay lateCall.droppedAt ≤ day →
        ((counting oneToken [lateCall]).run serial actions).db.countsOn tokenID day =
          madeCounts [lateCall] tokenID day := by
  intro h
  have hanswer : ((counting oneToken [lateCall]).run false [.advance 0, .advance 0, .advance 0]).answer 0 =
      some (.ok ()) := by decide +kernel
  have hcounts := h false [.advance 0, .advance 0, .advance 0]
    (fun p hp => by rw [Nat.lt_one_iff.mp hp]; exact hanswer) 1 lateCall.day (by decide +kernel)
  revert hcounts
  decide +kernel

end PiiShield.Panel
