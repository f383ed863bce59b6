import PiiShield.Panel.Accounts
import PiiShield.Panel.Reports

/-! When the statements that compare times as texts do what a comparison of the times would. -/

namespace PiiShield.Panel

open Transactions

variable {d : Tables} {value : Bytes}

theorem isOk_createSessionTx {S : Services} {userID : Nat} {t expires : Instant}
    (h : ((createSessionTx S userID value t expires).eval d d).1.isOk = true) :
    ∃ id new, (createSessionTx S userID value t expires).eval d d =
      (.ok id, Tables.sweepLogins t.format (Tables.sweepSessions t.format (Tables.setLastLogin userID t.format
        { d with sessions := d.sessions ++ [new] }))) := by
  rw [createSessionTx, insertTx, Tx.eval] at h ⊢
  rw [Insert.result, Insert.write, Tables.insertSession] at h ⊢
  split_ifs at h ⊢
  · cases h
  · cases h
  exact ⟨_, _, rfl⟩

/-- Every statement treats a row stored with the time `stored` at the moment `t` as the times
have it. For the reports `t` is the cutoff. -/
structure OnTime (S : Services) (t stored : Instant) : Prop where
  comparison : t.format < stored.format ↔ t.nanos < stored.nanos
  link : ∀ d value row, d.logins.filter (·.hash == S.hashToken value) = [row] → row.usedAt = none →
    row.expiresAt = stored.format →
      (((consumeLogin S value t).eval d).1 = .ok row.email ↔ t.nanos < stored.nanos)
  session : ∀ d value row u o, d.sessions.filter (·.hash == S.hashToken value) = [row] →
    d.users.find? (·.id == row.userID) = some u → d.orgs.find? (·.id == u.orgID) = some o →
    row.expiresAt = stored.format →
      (((getSession S value t).eval d).1.isOk = true ↔ t.nanos < stored.nanos)
  sweptLinks : ∀ d userID value expires, ((createSession S userID value t expires).eval d).1.isOk = true →
    ∀ row ∈ d.logins, row.expiresAt = stored.format →
      (row ∈ ((createSession S userID value t expires).eval d).2.logins ↔ t.nanos < stored.nanos)
  sweptSessions : ∀ d userID value expires, ((createSession S userID value t expires).eval d).1.isOk = true →
    ∀ row ∈ d.sessions, row.expiresAt = stored.format →
      (row ∈ ((createSession S userID value t expires).eval d).2.sessions ↔ t.nanos < stored.nanos)
  summed : ∀ (d : Tables), ∀ row ∈ d.reports, ∀ token, d.tokens.find? (·.id == row.tokenID) = some token →
    row.receivedAt = stored.format →
      ((row, token.name) ∈ d.reportsSince row.setID t.format ↔ t.nanos ≤ stored.nanos)
  keptReports : ∀ d r now, ((addReport S r now t).eval d).1.isOk = true →
    ∀ row ∈ d.reports, row.setID = r.setID → row.receivedAt = stored.format →
      (row ∈ ((addReport S r now t).eval d).2.reports ↔ t.nanos ≤ stored.nanos)

section Statements

variable {S : Services} {t stored : Instant}

theorem consumeLogin_ok_iff {row : LoginRow}
    (hrow : d.logins.filter (·.hash == S.hashToken value) = [row]) (hused : row.usedAt = none) :
    ((consumeLogin S value t).eval d).1 = .ok row.email ↔ t.format < row.expiresAt := by
  have hhash (l : LoginRow) : (if Tables.usable (S.hashToken value) t.format l
      then { l with usedAt := some t.format } else l).hash = l.hash := by split <;> rfl
  have hmem : row ∈ d.logins.filter (·.hash == S.hashToken value) := by rw [hrow]; exact List.mem_singleton_self row
  have hcount : d.logins.countP (Tables.usable (S.hashToken value) t.format) =
      if t.format < row.expiresAt then 1 else 0 := by
    have husable : Tables.usable (S.hashToken value) t.format = fun l =>
        (l.usedAt.isNone && decide (t.format < l.expiresAt)) && (l.hash == S.hashToken value) := by
      funext l
      rw [Tables.usable, Bool.and_assoc, Bool.and_comm]
    rw [husable, ← List.countP_filter, hrow]
    by_cases hlt : t.format < row.expiresAt <;> simp [hused, hlt]
  by_cases hlt : t.format < row.expiresAt
  · have hfind : (d.logins.map fun l => if Tables.usable (S.hashToken value) t.format l
        then { l with usedAt := some t.format } else l).find? (·.hash == S.hashToken value) =
          some { row with usedAt := some t.format } := by
      rw [List.find?_map, ← List.head?_filter]
      have hsame : ((·.hash == S.hashToken value) ∘ fun l => if Tables.usable (S.hashToken value) t.format l
          then { l with usedAt := some t.format } else l) = fun l : LoginRow => l.hash == S.hashToken value := by
        funext l
        exact congrArg (· == S.hashToken value) (hhash l)
      rw [hsame, hrow]
      simp [Tables.usable, (beq_iff_eq.mp (List.mem_filter.mp hmem).2), hused, hlt]
    simp [consumeLogin, hcount, hlt, Tables.useLogin, hfind]
  simp [consumeLogin, hcount, hlt]

theorem getSession_isOk_iff {row : SessionRow} {u : UserRow} {o : OrgRow}
    (hrow : d.sessions.filter (·.hash == S.hashToken value) = [row])
    (hu : d.users.find? (·.id == row.userID) = some u) (ho : d.orgs.find? (·.id == u.orgID) = some o) :
    ((getSession S value t).eval d).1.isOk = true ↔ t.format < row.expiresAt := by
  have hfind : (d.sessions.find? fun s => s.hash == S.hashToken value && decide (t.format < s.expiresAt)) =
      if t.format < row.expiresAt then some row else none := by
    have hsplit : [row].find? (fun s => decide (t.format < s.expiresAt)) = d.sessions.find? fun s =>
        s.hash == S.hashToken value && decide (t.format < s.expiresAt) := by grind
    by_cases hlt : t.format < row.expiresAt <;> simpa [hlt] using hsplit.symm
  by_cases hlt : t.format < row.expiresAt
  · simp [getSession, hfind, hlt, getUserByID, getOrgByID, hu, ho]
    rfl
  simp [getSession, hfind, hlt]
  rfl

theorem sweep_iff {userID : Nat} {expires : Instant}
    (hok : ((createSession S userID value t expires).eval d).1.isOk = true) :
    (∀ row ∈ d.logins, row ∈ ((createSession S userID value t expires).eval d).2.logins ↔
      t.format < row.expiresAt) ∧
    ∀ row ∈ d.sessions, row ∈ ((createSession S userID value t expires).eval d).2.sessions ↔
      t.format < row.expiresAt := by
  have htx : ((createSessionTx S userID value t expires).eval d d).1.isOk = true := by
    cases h : ((createSessionTx S userID value t expires).eval d d).1 with
    | ok id => rfl
    | error e =>
      simp only [createSession, Client.eval_bind, Client.eval_transaction, h] at hok
      cases hok
  obtain ⟨id, new, heval⟩ := isOk_createSessionTx htx
  simp_all [createSession, createSessionTx, Client.eval_bind, Client.eval_transaction,
    Tables.sweepLogins, Tables.sweepSessions, Tables.setLastLogin]

theorem mem_reportsSince_iff {row : ReportRow} (hrow : row ∈ d.reports) {token : TokenRow}
    (htoken : d.tokens.find? (·.id == row.tokenID) = some token) :
    (row, token.name) ∈ d.reportsSince row.setID t.format ↔ ¬ row.receivedAt < t.format := by
  simp_all [Tables.reportsSince, List.mem_filterMap, List.mem_mergeSort, List.mem_filter,
    Option.map_eq_some_iff, Prod.mk.injEq, Bool.and_eq_true]

theorem mem_addReport_iff {r row : ReportRow} {now : Instant}
    (hok : ((addReport S r now t).eval d).1.isOk = true) (hrow : row ∈ d.reports) (hset : row.setID = r.setID) :
    row ∈ ((addReport S r now t).eval d).2.reports ↔ ¬ row.receivedAt < t.format := by
  rcases eval_addReport S r now t d with ⟨e, heq⟩ | ⟨id, heq⟩
  · rw [heq] at hok
    cases hok
  grind [Tables.dropReports]

end Statements

/-- Times of different seconds are treated as they are. So are two of the same second, unless
the digits of one fraction, without trailing zeros, begin those of the other. -/
theorem onTime_iff (S : Services) (t stored : Instant) : OnTime S t stored ↔ ¬ t.Clash stored := by
  constructor
  · intro h
    exact (Instant.format_agrees_iff t stored).mp h.comparison
  intro h
  have hlt := (Instant.format_agrees_iff t stored).mpr h
  have hge : ¬ stored.format < t.format ↔ t.nanos ≤ stored.nanos := by
    rw [(Instant.format_agrees_iff stored t).mpr (mt Instant.Clash.symm h), not_lt]
  constructor
  case comparison => exact hlt
  case link =>
    intro d value row hrow hused hstored
    rw [consumeLogin_ok_iff hrow hused, hstored, hlt]
  case session =>
    intro d value row u o hrow hu ho hstored
    rw [getSession_isOk_iff hrow hu ho, hstored, hlt]
  case sweptLinks =>
    intro d userID value expires hok row hrow hstored
    rw [(sweep_iff hok).1 row hrow, hstored, hlt]
  case sweptSessions =>
    intro d userID value expires hok row hrow hstored
    rw [(sweep_iff hok).2 row hrow, hstored, hlt]
  case summed =>
    intro d row hrow token htoken hstored
    rw [mem_reportsSince_iff hrow htoken, hstored, hge]
  case keptReports =>
    intro d r now hok row hrow hset hstored
    rw [mem_addReport_iff hok hrow hset, hstored, hge]

/-- Midnight of the first day of 2026, and half a second later. -/
def newYear : Instant := ⟨739616 * 86400 * 10 ^ 9, Instant.within_newYear⟩

def afterNewYear : Instant := ⟨739616 * 86400 * 10 ^ 9 + 5 * 10 ^ 8, by decide⟩

def yearEnd : Tables :=
  { Tables.empty with
    orgs := [⟨1, bs "o", bs "o", []⟩]
    users := [⟨1, 1, bs "a@o.io", [], [], none⟩]
    logins := [⟨1, bs "a@o.io", bs "link", [], newYear.format, none⟩]
    sessions := [⟨1, 1, bs "cookie", [], newYear.format⟩] }

theorem late_link_and_session : newYear.nanos < afterNewYear.nanos ∧
    ((consumeLogin .plain (bs "link") afterNewYear).eval yearEnd).1.toOption = some (bs "a@o.io") ∧
    ((getSession .plain (bs "cookie") afterNewYear).eval yearEnd).1.isOk = true ∧
    (((createSession .plain 1 (bs "v") afterNewYear afterNewYear).eval yearEnd).2.logins).length = 1 := by
  decide +kernel

end PiiShield.Panel
