import PiiShield.Bytes
import PiiShield.Durations
import PiiShield.TokenBucket
import Mathlib.Data.List.AList

/-! The limiter of the rule server: a token bucket for every key, with buckets dropped that were idle.
Nothing is seen of the dropping as long as the idle time is no product that wraps around. -/

namespace PiiShield.Panel

open TokenBucket

structure Bucket where
  lim : TokenBucket.State
  seen : Int

structure KeyedLimiter where
  every : Int
  burst : Int
  buckets : AList fun _ : Bytes => Bucket

def newKeyedLimiter (every burst : Int) : KeyedLimiter := ⟨every, burst, ∅⟩

def maxBuckets : Nat := 10000

namespace KeyedLimiter

def isIdle (k : KeyedLimiter) (now : Int) (b : Bucket) : Bool := durationMul k.every k.burst < timeSub now b.seen

def prune (k : KeyedLimiter) (now : Int) : KeyedLimiter :=
  { k with
    buckets :=
      { entries := k.buckets.entries.filter fun e => !k.isIdle now e.2
        nodupKeys := k.buckets.nodupKeys.sublist List.filter_sublist } }

def charge (k : KeyedLimiter) (key : Bytes) (b : Bucket) (now : Int) : KeyedLimiter × Bool :=
  let r := take k.every k.burst b.lim now
  ({ k with buckets := k.buckets.insert key ⟨r.1, now⟩ }, r.2)

def makeRoom (prune : KeyedLimiter → Int → KeyedLimiter) (k : KeyedLimiter) (now : Int) : KeyedLimiter :=
  if maxBuckets ≤ k.buckets.entries.length then prune k now else k

/-- The source's `allow`, given what is done about too many buckets. -/
def allowWith (prune : KeyedLimiter → Int → KeyedLimiter) (k : KeyedLimiter) (key : Bytes) (now : Int) :
    KeyedLimiter × Bool :=
  match k.buckets.lookup key with
  | some b => k.charge key b now
  | none =>
    let k := makeRoom prune k now
    k.charge key ⟨full k.burst now, now⟩ now

def allow : KeyedLimiter → Bytes → Int → KeyedLimiter × Bool := allowWith prune

def allowKept : KeyedLimiter → Bytes → Int → KeyedLimiter × Bool := allowWith fun k _ => k

end KeyedLimiter

/-- The answers to calls with their keys and times, and the limiter after them. -/
def answers (allow : KeyedLimiter → Bytes → Int → KeyedLimiter × Bool) :
    KeyedLimiter → List (Bytes × Int) → KeyedLimiter × List Bool
  | k, [] => (k, [])
  | k, c :: calls =>
    let r := allow k c.1 c.2
    let s := answers allow r.1 calls
    (s.1, r.2 :: s.2)

def InOrder (calls : List (Bytes × Int)) : Prop := calls.Pairwise fun c c' => c.2 ≤ c'.2

namespace KeyedLimiter

variable {k k' : KeyedLimiter} {key key' : Bytes} {now t : Int}

theorem lookup_prune (k : KeyedLimiter) (now : Int) (key : Bytes) :
    (k.prune now).buckets.lookup key = (k.buckets.lookup key).filter fun b => !k.isIdle now b := by
  ext b
  have hprune : b ∈ (k.prune now).buckets.lookup key ↔ ⟨key, b⟩ ∈ (k.prune now).buckets.entries :=
    AList.mem_lookup_iff
  have hbefore : b ∈ k.buckets.lookup key ↔ ⟨key, b⟩ ∈ k.buckets.entries := AList.mem_lookup_iff
  rw [Option.filter_eq_some_iff, ← Option.mem_def, ← Option.mem_def, hprune, hbefore, prune, List.mem_filter]

theorem lookup_charge (k : KeyedLimiter) (key : Bytes) (b : Bucket) (now : Int) :
    (k.charge key b now).1.buckets.lookup key = some ⟨(take k.every k.burst b.lim now).1, now⟩ :=
  AList.lookup_insert _

theorem lookup_charge_ne (b : Bucket) (h : key' ≠ key) :
    (k.charge key b now).1.buckets.lookup key' = k.buckets.lookup key' :=
  AList.lookup_insert_ne h

def Exact (k : KeyedLimiter) : Prop :=
  k.every * k.burst ≤ maxDuration ∨ durationMul k.every k.burst = maxDuration

/-- A limiter that dropped buckets beside one that did not: those it lacks are full. -/
structure Covers (t : Int) (k k' : KeyedLimiter) : Prop where
  every : k'.every = k.every
  burst : k'.burst = k.burst
  holds : ∀ key b, k.buckets.lookup key = some b → Holds k.burst t b.lim ∧ b.seen = b.lim.last
  kept : ∀ key b, k.buckets.lookup key = some b → k'.buckets.lookup key = some b
  dropped : ∀ key, k.buckets.lookup key = none →
    ∀ b, k'.buckets.lookup key = some b → level k.every k.burst b.lim t = k.burst

theorem covers_new (every burst t : Int) : Covers t (newKeyedLimiter every burst) (newKeyedLimiter every burst) where
  every := rfl
  burst := rfl
  holds _ _ h := by cases h
  kept _ _ h := h
  dropped _ _ _ h := by cases h

theorem Covers.later (h : Covers t k k') (hevery : 0 < k.every) (hle : t ≤ now) : Covers now k k' where
  every := h.every
  burst := h.burst
  holds key b hb := ⟨(h.holds key b hb).1.mono hle, (h.holds key b hb).2⟩
  kept := h.kept
  dropped key hkey b hb := level_eq_size_later hevery (h.dropped key hkey b hb) hle

theorem level_of_isIdle (hexact : k.Exact) (hevery : 0 < k.every) (hburst : 0 ≤ k.burst) {b : Bucket}
    (hb : Holds k.burst now b.lim) (hseen : b.seen = b.lim.last) (hidle : k.isIdle now b = true) :
    level k.every k.burst b.lim now = k.burst := by
  have hlt : durationMul k.every k.burst < timeSub now b.seen := of_decide_eq_true hidle
  rcases hexact with hexact | hexact
  · refine level_eq_size hevery hb.nonneg ?_
    have hsub : timeSub now b.seen ≤ now - b.seen := timeSub_le_sub (hseen ▸ hb.last_le)
    rw [durationMul_eq (mul_nonneg hevery.le hburst) hexact, hseen] at hlt
    rw [hseen] at hsub
    omega
  exact absurd (timeSub_le now b.seen) (by omega)

theorem Covers.pruned (h : Covers now k k') (hexact : k.Exact) (hevery : 0 < k.every) (hburst : 0 ≤ k.burst) :
    Covers now (k.prune now) k' where
  every := h.every
  burst := h.burst
  holds key b hb := by
    rw [lookup_prune, Option.filter_eq_some_iff] at hb
    exact h.holds key b hb.1
  kept key b hb := by
    rw [lookup_prune, Option.filter_eq_some_iff] at hb
    exact h.kept key b hb.1
  dropped key hkey b hb := by
    rw [lookup_prune, Option.filter_eq_none_iff] at hkey
    cases hk : k.buckets.lookup key with
    | none => exact h.dropped key hk b hb
    | some b' =>
      cases (h.kept key b' hk).symm.trans hb
      obtain ⟨hholds, hseen⟩ := h.holds key b hk
      exact level_of_isIdle hexact hevery hburst hholds hseen (by simpa using hkey b hk)

theorem Covers.charged (h : Covers now k k') (hevery : 0 < k.every) {b b' : Bucket} (hb : Holds k.burst now b.lim)
    (hlevel : level k.every k.burst b.lim now = level k.every k.burst b'.lim now) :
    (k.charge key b now).2 = (k'.charge key b' now).2 ∧
      Covers now (k.charge key b now).1 (k'.charge key b' now).1 := by
  have htake : take k'.every k'.burst b'.lim now = take k.every k.burst b.lim now := by
    rw [h.every, h.burst]
    exact (take_eq_of_level_eq hlevel).symm
  refine ⟨(congrArg Prod.snd htake).symm, h.every, h.burst, fun key' c hc => ?_, fun key' c hc => ?_,
    fun key' hnone c hc => ?_⟩
  · by_cases hne : key' = key
    · subst hne
      rw [lookup_charge] at hc
      cases hc
      exact ⟨holds_take hevery hb, last_take.symm⟩
    rw [lookup_charge_ne b hne] at hc
    exact h.holds key' c hc
  · by_cases hne : key' = key
    · subst hne
      rw [lookup_charge] at hc ⊢
      rw [htake]
      exact hc
    rw [lookup_charge_ne b hne] at hc
    rw [lookup_charge_ne b' hne]
    exact h.kept key' c hc
  by_cases hne : key' = key
  · subst hne
    rw [lookup_charge] at hnone
    cases hnone
  rw [lookup_charge_ne b hne] at hnone
  rw [lookup_charge_ne b' hne] at hc
  exact h.dropped key' hnone c hc

theorem allowWith_of_some {prune : KeyedLimiter → Int → KeyedLimiter} {b : Bucket}
    (h : k.buckets.lookup key = some b) : allowWith prune k key now = k.charge key b now := by
  rw [allowWith, h]

theorem allowWith_of_none {prune : KeyedLimiter → Int → KeyedLimiter} (h : k.buckets.lookup key = none) :
    allowWith prune k key now =
      (makeRoom prune k now).charge key ⟨full (makeRoom prune k now).burst now, now⟩ now := by
  rw [allowWith, h]

theorem allowKept_of_none (h : k.buckets.lookup key = none) :
    allowKept k key now = k.charge key ⟨full k.burst now, now⟩ now := by
  rw [allowKept, allowWith_of_none h, makeRoom, ite_self]

def Steady (prune : KeyedLimiter → Int → KeyedLimiter) : Prop :=
  ∀ k now, (prune k now).every = k.every ∧ (prune k now).burst = k.burst

theorem prune_steady : Steady prune := fun _ _ => ⟨rfl, rfl⟩

theorem makeRoom_rate {prune : KeyedLimiter → Int → KeyedLimiter} (h : Steady prune) (k : KeyedLimiter) (now : Int) :
    (makeRoom prune k now).every = k.every ∧ (makeRoom prune k now).burst = k.burst := by
  rw [makeRoom]
  split
  · exact h k now
  exact ⟨rfl, rfl⟩

theorem allowWith_rate {prune : KeyedLimiter → Int → KeyedLimiter} (h : Steady prune) (k : KeyedLimiter)
    (key : Bytes) (now : Int) :
    (allowWith prune k key now).1.every = k.every ∧ (allowWith prune k key now).1.burst = k.burst := by
  cases hk : k.buckets.lookup key with
  | some b =>
    rw [allowWith_of_some hk]
    exact ⟨rfl, rfl⟩
  | none =>
    rw [allowWith_of_none hk]
    exact makeRoom_rate h k now

theorem answers_rate {prune : KeyedLimiter → Int → KeyedLimiter} (h : Steady prune) (k : KeyedLimiter)
    (calls : List (Bytes × Int)) :
    (answers (allowWith prune) k calls).1.every = k.every ∧ (answers (allowWith prune) k calls).1.burst = k.burst := by
  induction calls generalizing k with
  | nil => exact ⟨rfl, rfl⟩
  | cons c calls ih =>
    obtain ⟨hevery, hburst⟩ := ih (allowWith prune k c.1 c.2).1
    obtain ⟨hevery', hburst'⟩ := allowWith_rate h k c.1 c.2
    exact ⟨hevery.trans hevery', hburst.trans hburst'⟩

theorem lookup_makeRoom (h : k.buckets.lookup key = none) : (makeRoom prune k now).buckets.lookup key = none := by
  rw [makeRoom]
  split
  · rw [lookup_prune, h]
    rfl
  exact h

theorem Covers.roomy (h : Covers now k k') (hexact : k.Exact) (hevery : 0 < k.every) (hburst : 0 ≤ k.burst) :
    Covers now (makeRoom prune k now) k' := by
  rw [makeRoom]
  split
  · exact h.pruned hexact hevery hburst
  exact h

theorem Covers.allowed (h : Covers t k k') (hexact : k.Exact) (hevery : 0 < k.every) (hburst : 0 ≤ k.burst)
    (hle : t ≤ now) (key : Bytes) :
    (k.allow key now).2 = (k'.allowKept key now).2 ∧ Covers now (k.allow key now).1 (k'.allowKept key now).1 := by
  have hnow := h.later hevery hle
  cases hk : k.buckets.lookup key with
  | some b =>
    rw [allow, allowKept, allowWith_of_some hk, allowWith_of_some (h.kept key b hk)]
    exact hnow.charged hevery (hnow.holds key b hk).1 rfl
  | none =>
    have hroom := hnow.roomy hexact hevery hburst
    obtain ⟨hsame, hsame'⟩ := makeRoom_rate prune_steady k now
    have hevery' : 0 < (makeRoom prune k now).every := hsame ▸ hevery
    have hfull : Holds (makeRoom prune k now).burst now (full (makeRoom prune k now).burst now) :=
      holds_full (hsame' ▸ hburst) now
    rw [allow, allowWith_of_none hk]
    cases hk' : k'.buckets.lookup key with
    | none =>
      rw [allowKept_of_none hk', hroom.burst]
      exact hroom.charged hevery' hfull rfl
    | some b' =>
      rw [allowKept, allowWith_of_some hk']
      refine hroom.charged hevery' hfull ?_
      rw [level_full, hroom.dropped key (lookup_makeRoom hk) b' hk']

theorem Covers.same_answers {calls : List (Bytes × Int)} (h : Covers t k k') (hexact : k.Exact) (hevery : 0 < k.every)
    (hburst : 0 ≤ k.burst) (hle : ∀ c ∈ calls, t ≤ c.2) (horder : InOrder calls) :
    (answers allow k calls).2 = (answers allowKept k' calls).2 := by
  induction calls generalizing k k' t with
  | nil => rfl
  | cons c calls ih =>
    obtain ⟨hfirst, hrest⟩ := List.pairwise_cons.mp horder
    obtain ⟨hanswer, hcovers⟩ := h.allowed hexact hevery hburst (hle c List.mem_cons_self) c.1
    obtain ⟨hsame, hsame'⟩ := allowWith_rate prune_steady k c.1 c.2
    have hexact' : (k.allow c.1 c.2).1.Exact := by
      rw [Exact, allow, hsame, hsame']
      exact hexact
    simp [answers, hanswer, ih hcovers hexact' (hsame ▸ hevery) (hsame' ▸ hburst) hfirst hrest]

section Repeated

variable {prune : KeyedLimiter → Int → KeyedLimiter} {calls : List (Bytes × Int)}

theorem answers_append (allow : KeyedLimiter → Bytes → Int → KeyedLimiter × Bool) (k : KeyedLimiter)
    (calls calls' : List (Bytes × Int)) :
    answers allow k (calls ++ calls') =
      ((answers allow (answers allow k calls).1 calls').1,
        (answers allow k calls).2 ++ (answers allow (answers allow k calls).1 calls').2) := by
  induction calls generalizing k with
  | nil => rfl
  | cons c calls ih => rw [List.cons_append, answers, ih, answers, List.cons_append]

theorem length_answers (allow : KeyedLimiter → Bytes → Int → KeyedLimiter × Bool) (k : KeyedLimiter)
    (calls : List (Bytes × Int)) : (answers allow k calls).2.length = calls.length := by
  induction calls generalizing k with
  | nil => rfl
  | cons c calls ih => rw [answers, List.length_cons, ih, List.length_cons]

theorem answers_replicate (prune : KeyedLimiter → Int → KeyedLimiter) (now : Int) {b : Bucket}
    (h : k.buckets.lookup key = some b) (n : Nat) :
    (answers (allowWith prune) k (.replicate n (key, now))).2 = (takes k.every k.burst now n b.lim).2 ∧
      ∃ b', (answers (allowWith prune) k (.replicate n (key, now))).1.buckets.lookup key = some b' ∧
        b'.lim = (takes k.every k.burst now n b.lim).1 := by
  induction n generalizing k b with
  | zero => exact ⟨rfl, b, h, rfl⟩
  | succ n ih =>
    have hnext := ih (k.lookup_charge key b now)
    rw [List.replicate_succ, answers, allowWith_of_some h, takes]
    exact ⟨congrArg _ hnext.1, hnext.2⟩

theorem answers_replicate_new (hprune : Steady prune) (now : Int) (hnone : k.buckets.lookup key = none) {n : Nat}
    (hn : 0 < n) :
    (answers (allowWith prune) k (.replicate n (key, now))).2 =
        (takes k.every k.burst now n (full k.burst now)).2 ∧
      ∃ b', (answers (allowWith prune) k (.replicate n (key, now))).1.buckets.lookup key = some b' ∧
        b'.lim = (takes k.every k.burst now n (full k.burst now)).1 := by
  obtain ⟨n, rfl⟩ : ∃ m, n = m + 1 := ⟨n - 1, by omega⟩
  have hnext := answers_replicate prune now
    (lookup_charge (makeRoom prune k now) key ⟨full (makeRoom prune k now).burst now, now⟩ now) n
  obtain ⟨hevery, hburst⟩ := makeRoom_rate hprune k now
  rw [List.replicate_succ, answers, allowWith_of_none hnone, takes, ← hevery, ← hburst]
  exact ⟨congrArg _ hnext.1, hnext.2⟩

theorem lookup_answers_kept (hne : ∀ c ∈ calls, c.1 ≠ key) :
    (answers allowKept k calls).1.buckets.lookup key = k.buckets.lookup key := by
  induction calls generalizing k with
  | nil => rfl
  | cons c calls ih =>
    obtain ⟨hc, hcalls⟩ := List.forall_mem_cons.mp hne
    have hstep : ∃ b, allowKept k c.1 c.2 = k.charge c.1 b c.2 := by
      cases hk : k.buckets.lookup c.1 with
      | some b => exact ⟨b, allowWith_of_some hk⟩
      | none => exact ⟨_, allowKept_of_none hk⟩
    grind [answers, lookup_charge_ne]

end Repeated

section Wrapped

/-- A limiter that was asked about some keys at the beginning of time. -/
structure Flooded (every burst : Int) (keys : List Bytes) (k : KeyedLimiter) : Prop where
  every : k.every = every
  burst : k.burst = burst
  keys : k.buckets.keys.Perm keys
  seen : ∀ key b, k.buckets.lookup key = some b → b.seen = 0

variable {every burst : Int} {keys : List Bytes}

theorem flooded_new (every burst : Int) : Flooded every burst [] (newKeyedLimiter every burst) :=
  ⟨rfl, rfl, .refl _, fun _ _ h => by cases h⟩

theorem Flooded.length (h : Flooded every burst keys k) : k.buckets.entries.length = keys.length := by
  rw [← h.keys.length_eq, AList.keys, List.keys, List.length_map]

theorem Flooded.lookup_eq_none (h : Flooded every burst keys k) (hkey : key ∉ keys) : k.buckets.lookup key = none :=
  AList.lookup_eq_none.mpr fun hmem => hkey (h.keys.subset (AList.mem_keys.mp hmem))

theorem Flooded.nodup (h : Flooded every burst keys k) : keys.Nodup := h.keys.nodup_iff.mp k.buckets.keys_nodup

theorem Flooded.charged {keys' : List Bytes} (h : Flooded every burst keys k) (b : Bucket) (hnodup : keys'.Nodup)
    (hkeys : ∀ key', key' ∈ keys' ↔ key' = key ∨ key' ∈ keys) : Flooded every burst keys' (k.charge key b 0).1 where
  every := h.every
  burst := h.burst
  keys := by
    refine (List.perm_ext_iff_of_nodup (AList.keys_nodup _) hnodup).mpr fun key' => ?_
    rw [← AList.mem_keys, charge, AList.mem_insert, hkeys, AList.mem_keys, h.keys.mem_iff]
  seen key' c hc := by
    by_cases hne : key' = key
    · subst hne
      rw [lookup_charge] at hc
      cases hc
      rfl
    rw [lookup_charge_ne b hne] at hc
    exact h.seen key' c hc

theorem Flooded.again (h : Flooded every burst keys k) (hkey : key ∈ keys) :
    Flooded every burst keys (k.allow key 0).1 := by
  have hmem : key ∈ k.buckets := AList.mem_keys.mpr (h.keys.symm.subset hkey)
  obtain ⟨b, hb⟩ := Option.isSome_iff_exists.mp (AList.lookup_isSome.mpr hmem)
  rw [allow, allowWith_of_some hb]
  refine h.charged b h.nodup fun key' => ⟨.inr, fun hkey' => ?_⟩
  rcases hkey' with rfl | hkey'
  · exact hkey
  exact hkey'

theorem Flooded.next (h : Flooded every burst keys k) (hkey : key ∉ keys) (hlen : keys.length < maxBuckets) :
    Flooded every burst (key :: keys) (k.allow key 0).1 := by
  have hroom : makeRoom prune k 0 = k := if_neg (by rw [h.length]; omega)
  rw [allow, allowWith_of_none (h.lookup_eq_none hkey), hroom]
  exact h.charged _ (List.nodup_cons.mpr ⟨hkey, h.nodup⟩) fun key' => List.mem_cons

theorem Flooded.replicate (h : Flooded every burst keys k) (hkey : key ∈ keys) (n : Nat) :
    Flooded every burst keys (answers allow k (.replicate n (key, 0))).1 := by
  induction n generalizing k with
  | zero => exact h
  | succ n ih => exact ih (h.again hkey)

theorem Flooded.others {others : List Bytes} (h : Flooded every burst keys k) (hnodup : (others ++ keys).Nodup)
    (hlen : others.length + keys.length ≤ maxBuckets) :
    Flooded every burst (others.reverse ++ keys) (answers allow k (others.map fun key => (key, 0))).1 := by
  induction others generalizing k keys with
  | nil => exact h
  | cons key others ih =>
    rw [List.cons_append, List.nodup_cons, List.mem_append, not_or] at hnodup
    have hperm : (others ++ key :: keys).Perm (key :: (others ++ keys)) := List.perm_middle
    have hnext := h.next hnodup.1.2 (by rw [List.length_cons] at hlen; omega)
    have := ih hnext (hperm.nodup_iff.mpr (List.nodup_cons.mpr ⟨by simpa using hnodup.1, hnodup.2⟩))
      (by rw [List.length_cons] at hlen ⊢; omega)
    rw [List.reverse_cons, List.append_assoc]
    exact this

theorem Flooded.lookup_after_drop (h : Flooded every burst keys k) (hlen : maxBuckets ≤ keys.length)
    (hidle : durationMul every burst < timeSub now 0) (hnew : key ∉ keys) (hne : key' ≠ key) :
    (k.allow key now).1.buckets.lookup key' = none := by
  have hroom : makeRoom prune k now = k.prune now := if_pos (by rw [h.length]; exact hlen)
  rw [allow, allowWith_of_none (h.lookup_eq_none hnew), hroom, lookup_charge_ne _ hne, lookup_prune,
    Option.filter_eq_none_iff]
  intro b hb
  have hisIdle : k.isIdle now b = true := by
    rw [isIdle, h.every, h.burst, h.seen key' b hb]
    exact decide_eq_true hidle
  rw [hisIdle]
  decide

def floodKey (i : Nat) : Bytes := .replicate i 0

theorem floodKey_inj {i j : Nat} (h : floodKey i = floodKey j) : i = j := by
  simpa [floodKey] using congrArg List.length h

def otherKeys : List Bytes := (List.range 9999).map fun i => floodKey (i + 1)

def filling (others : List Bytes) (n : Nat) : List (Bytes × Int) :=
  .replicate n (floodKey 0, 0) ++ others.map fun key => (key, 0)

def returning (n : Nat) (later : Int) : List (Bytes × Int) :=
  filling otherKeys n ++ (floodKey 10000, later) :: .replicate n (floodKey 0, later)

theorem mem_otherKeys {key : Bytes} (h : key ∈ otherKeys) : ∃ i, 0 < i ∧ i < 10000 ∧ key = floodKey i := by
  obtain ⟨i, hi, rfl⟩ := List.mem_map.mp h
  exact ⟨i + 1, by omega, by have := List.mem_range.mp hi; omega, rfl⟩

theorem otherKeys_ne {key : Bytes} (h : key ∈ otherKeys) : key ≠ floodKey 0 ∧ key ≠ floodKey 10000 := by
  grind [mem_otherKeys, floodKey_inj]

theorem nodup_otherKeys : (otherKeys ++ [floodKey 0]).Nodup := by
  rw [List.nodup_append]
  refine ⟨(List.nodup_range).map fun i j h => ?_, List.nodup_singleton _, fun key hkey key' hkey' => ?_⟩
  · have := floodKey_inj h
    omega
  rw [List.mem_singleton.mp hkey']
  exact (otherKeys_ne hkey).1

theorem inOrder_returning (n : Nat) {later : Int} (h : 0 ≤ later) : InOrder (returning n later) := by
  have htime : ∀ c ∈ filling otherKeys n, c.2 = 0 := by
    intro c hc
    rcases List.mem_append.mp hc with hc | hc
    · rw [List.eq_of_mem_replicate hc]
    obtain ⟨key, -, rfl⟩ := List.mem_map.mp hc
    rfl
  have hlater : ∀ c ∈ (floodKey 10000, later) :: List.replicate n (floodKey 0, later), c.2 = later := by simp_all
  refine List.pairwise_append.mpr ⟨?_, ?_, fun c hc c' hc' => ?_⟩
  · grind [List.pairwise_of_forall_mem_list]
  · simp_all
  rw [htime c hc, hlater c' hc']
  exact h

variable {n : Nat}

theorem flooded_filling (every burst : Int) (hn : 0 < n) {others : List Bytes} (hnodup : (others ++ [floodKey 0]).Nodup)
    (hlen : others.length + 1 ≤ maxBuckets) :
    Flooded every burst (others.reverse ++ [floodKey 0])
      (answers allow (newKeyedLimiter every burst) (filling others n)).1 := by
  obtain ⟨n, rfl⟩ : ∃ m, n = m + 1 := ⟨n - 1, by omega⟩
  have hfirst : Flooded every burst [floodKey 0] ((newKeyedLimiter every burst).allow (floodKey 0) 0).1 :=
    (flooded_new every burst).next List.not_mem_nil (by decide)
  have hothers := (hfirst.replicate List.mem_cons_self n).others hnodup hlen
  rw [filling, answers_append, List.replicate_succ, answers]
  exact hothers

def toldAgain (allow : KeyedLimiter → Bytes → Int → KeyedLimiter × Bool) (k : KeyedLimiter) (n : Nat) (later : Int) :
    List Bool :=
  (answers allow (allow (answers allow k (filling otherKeys n)).1 (floodKey 10000) later).1
    (.replicate n (floodKey 0, later))).2

theorem answers_returning (allow : KeyedLimiter → Bytes → Int → KeyedLimiter × Bool) (k : KeyedLimiter) (n : Nat)
    (later : Int) :
    (answers allow k (returning n later)).2 = (answers allow k (filling otherKeys n)).2 ++
      (allow (answers allow k (filling otherKeys n)).1 (floodKey 10000) later).2 :: toldAgain allow k n later := by
  rw [returning, answers_append]
  rfl

theorem toldAgain_allow {later : Int} (hevery : 0 < every) (hn : 0 < n)
    (hidle : durationMul every n < timeSub later 0) :
    ∀ a ∈ toldAgain allow (newKeyedLimiter every n) n later, a = true := by
  have hlength : otherKeys.length = 9999 := by simp [otherKeys]
  have hflooded := flooded_filling every n hn nodup_otherKeys (by rw [hlength]; decide)
  have hnew : floodKey 10000 ∉ otherKeys.reverse ++ [floodKey 0] := by
    rw [List.mem_append, List.mem_reverse, List.mem_singleton, not_or]
    exact ⟨fun h => (otherKeys_ne h).2 rfl, fun h => by have := floodKey_inj h; omega⟩
  have hlen : maxBuckets ≤ (otherKeys.reverse ++ [floodKey 0]).length := by
    rw [List.length_append, List.length_reverse, hlength]
    decide
  have hne : floodKey 0 ≠ floodKey 10000 := fun h => by have := floodKey_inj h; omega
  have hdropped := hflooded.lookup_after_drop hlen hidle hnew hne
  rw [toldAgain]
  generalize (answers allow (newKeyedLimiter every n) (filling otherKeys n)).1 = k at *
  obtain ⟨hrate, hrate'⟩ := allowWith_rate prune_steady k (floodKey 10000) later
  rw [hflooded.every] at hrate
  rw [hflooded.burst] at hrate'
  have hanswers := (answers_replicate_new prune_steady later hdropped hn).1
  rw [← allow] at hrate hrate' hanswers
  rw [hanswers, hrate, hrate', takes_all_iff hevery (holds_full (Int.natCast_nonneg n) later), level_full]
  exact le_of_eq (Int.cast_natCast n).symm

theorem keep_steady : Steady fun k _ => k := fun _ _ => ⟨rfl, rfl⟩

theorem lookup_filled (hevery : 0 < every) (hn : 0 < n) (later : Int) {others : List Bytes}
    (hothers : ∀ key ∈ others, key ≠ floodKey 0) {k : KeyedLimiter}
    (hk : (answers allowKept (newKeyedLimiter every n) (filling others n)).1 = k) :
    ∃ b, (k.allowKept (floodKey 10000) later).1.buckets.lookup (floodKey 0) = some b ∧
      Holds n 0 b.lim ∧ level every n b.lim 0 = 0 := by
  have hnone : (newKeyedLimiter every n).buckets.lookup (floodKey 0) = none := rfl
  obtain ⟨b, hb, hlim⟩ := (answers_replicate_new keep_steady 0 hnone hn).2
  have hfull := holds_full (Int.natCast_nonneg n) 0
  have hlevel : level every n (full n 0) 0 = n := level_full.trans (Int.cast_natCast n)
  have hne : ∀ c ∈ (others.map fun key => (key, (0 : Int))) ++ [(floodKey 10000, later)], c.1 ≠ floodKey 0 := by
    grind [floodKey_inj]
  have hkept := (lookup_answers_kept hne).trans hb
  rw [filling, answers_append] at hk
  rw [answers_append, ← allowKept, hk] at hkept
  refine ⟨b, hkept, ?_, ?_⟩
  · rw [hlim]
    exact holds_takes hevery n hfull
  rw [hlim]
  exact (level_takes hevery hfull hlevel.ge).trans (by rw [hlevel, sub_self])

theorem toldAgain_allowKept {later : Int} (hevery : 0 < every) (hn : 0 < n) (hlater : 0 ≤ later)
    (hshort : later < every * n) :
    ¬ ∀ a ∈ toldAgain allowKept (newKeyedLimiter every n) n later, a = true := by
  obtain ⟨hrate, hrate'⟩ := answers_rate keep_steady (newKeyedLimiter every n) (filling otherKeys n)
  rw [← allowKept] at hrate hrate'
  rw [toldAgain]
  generalize hk : (answers allowKept (newKeyedLimiter every n) (filling otherKeys n)).1 = k at *
  obtain ⟨b, hb, hholds, hlevel⟩ := lookup_filled hevery hn later (fun key hkey => (otherKeys_ne hkey).1) hk
  obtain ⟨hevery', hburst'⟩ := allowWith_rate keep_steady k (floodKey 10000) later
  rw [← allowKept] at hevery' hburst'
  have hanswers := (answers_replicate (fun k _ => k) later hb n).1
  rw [← allowKept, hevery', hburst', hrate, hrate'] at hanswers
  rw [hanswers]
  intro hall
  have hneeded : (n : ℚ) ≤ level every n b.lim later := (takes_all_iff hevery (hholds.mono hlater)).mp hall
  have hgained : level every n b.lim later ≤ _ := level_le_add hevery hlater
  rw [hlevel, zero_add, sub_zero] at hgained
  have hless : (later : ℚ) / every < n := by
    rw [div_lt_iff₀ (Int.cast_pos.mpr hevery), mul_comm]
    exact_mod_cast hshort
  linarith

theorem answers_returning_ne {later : Int} (hevery : 0 < every) (hn : 0 < n) (hlater : 0 ≤ later)
    (hidle : durationMul every n < timeSub later 0) (hshort : later < every * n) :
    (answers allow (newKeyedLimiter every n) (returning n later)).2 ≠
      (answers allowKept (newKeyedLimiter every n) (returning n later)).2 := by
  intro h
  rw [answers_returning, answers_returning] at h
  have hlength := (length_answers allow (newKeyedLimiter every n) (filling otherKeys n)).trans
    (length_answers allowKept (newKeyedLimiter every n) (filling otherKeys n)).symm
  grind [List.cons.inj, List.append_inj, toldAgain_allowKept, toldAgain_allow]

end Wrapped

end KeyedLimiter

open KeyedLimiter

/-- The dropping of idle buckets is never seen exactly if the idle time is the product it is meant to
be, or wraps around to the longest duration. -/
theorem dropping_unseen_iff {every burst : Int} (hevery : 0 < every) (hburst : 1 ≤ burst) :
    (∀ calls, InOrder calls → (answers allow (newKeyedLimiter every burst) calls).2 =
      (answers allowKept (newKeyedLimiter every burst) calls).2) ↔
    every * burst ≤ maxDuration ∨ durationMul every burst = maxDuration := by
  constructor
  · intro h
    by_contra hcon
    obtain ⟨hlong, hwrapped⟩ := not_or.mp hcon
    obtain ⟨n, rfl⟩ := Int.eq_ofNat_of_zero_le (by omega : 0 ≤ burst)
    have hle := durationMul_le every n
    have hlater : 0 ≤ max 0 (durationMul every n + 1) := le_max_left _ _
    have hfits : max 0 (durationMul every n + 1) ≤ maxDuration := max_le (by decide) (by omega)
    refine answers_returning_ne hevery (by omega) hlater ?_ (by omega)
      (h (returning n (max 0 (durationMul every n + 1))) (inOrder_returning n hlater))
    rw [timeSub_eq hlater (by omega)]
    omega
  intro hexact calls horder
  cases calls with
  | nil => rfl
  | cons c calls =>
    exact (covers_new every burst c.2).same_answers hexact hevery (show 0 ≤ burst by omega)
      (List.forall_mem_cons.mpr ⟨le_refl _, (List.pairwise_cons.mp horder).1⟩) horder

/-- Ten thousand buckets, all of them idle for a second too long when one more key comes. -/
theorem dropping_unseen_minutely :
    durationMul (60 * 10 ^ 9) 5 < timeSub (301 * 10 ^ 9) 0 ∧
    (answers allow (newKeyedLimiter (60 * 10 ^ 9) 5) (returning 5 (301 * 10 ^ 9))).2 =
      (answers allowKept (newKeyedLimiter (60 * 10 ^ 9) 5) (returning 5 (301 * 10 ^ 9))).2 :=
  ⟨by decide, (dropping_unseen_iff (by decide) (by decide)).mpr (.inl (by decide)) _ (inOrder_returning 5 (by decide))⟩

/-- Two intervals of 2 ^ 62 nanoseconds wrap around to a negative idle time. -/
theorem dropping_seen_when_wrapped :
    InOrder (returning 2 0) ∧ (answers allow (newKeyedLimiter (2 ^ 62) 2) (returning 2 0)).2 ≠
      (answers allowKept (newKeyedLimiter (2 ^ 62) 2) (returning 2 0)).2 :=
  ⟨inOrder_returning 2 (le_refl 0), answers_returning_ne (by decide) (by decide) (le_refl 0) (by decide) (by decide)⟩

end PiiShield.Panel
