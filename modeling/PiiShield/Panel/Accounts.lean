import PiiShield.Panel.Tables

/-! Accounts of the panel: magic links and sessions. -/

namespace PiiShield.Panel

open Transactions

namespace Tables

variable (S : Services)

def insertLogin (email hash createdAt expiresAt : Bytes) : Insert := fun d =>
  if d.logins.any (·.hash == hash) then .error .unique
  else
    let id := S.newID (d.logins.map (·.id))
    .ok (id, { d with logins := d.logins ++ [⟨id, email, hash, createdAt, expiresAt, none⟩] })

def insertSession (userID : Nat) (hash createdAt expiresAt : Bytes) : Insert := fun d =>
  if d.sessions.any (·.hash == hash) then .error .unique
  else if d.users.all (·.id != userID) then .error .foreignKey
  else
    let id := S.newID (d.sessions.map (·.id))
    .ok (id, { d with sessions := d.sessions ++ [⟨id, userID, hash, createdAt, expiresAt⟩] })

def usable (hash now : Bytes) (l : LoginRow) : Bool :=
  l.hash == hash && l.usedAt.isNone && decide (now < l.expiresAt)

def useLogin (hash now : Bytes) (d : Tables) : Tables :=
  { d with logins := d.logins.map fun l => if usable hash now l then { l with usedAt := some now } else l }

def setLastLogin (userID : Nat) (now : Bytes) (d : Tables) : Tables :=
  { d with users := d.users.map fun u => if u.id == userID then { u with lastLogin := some now } else u }

def sweepSessions (now : Bytes) (d : Tables) : Tables :=
  { d with sessions := d.sessions.filter fun s => !decide (s.expiresAt ≤ now) }

def sweepLogins (now : Bytes) (d : Tables) : Tables :=
  { d with logins := d.logins.filter fun l => !decide (l.expiresAt ≤ now) }

end Tables

variable (S : Services)

def normalizeEmail (email : Bytes) : Except StoreError Bytes :=
  let email := S.unicode.toLowerString (trimSpace email)
  if email.isEmpty || email.length > 254 then .error .invalidEmail
  else
    match S.parseAddress email with
    | none => .error .invalidEmail
    | some (name, address) =>
      if address != email || !name.isEmpty || !email.contains (chr '@') then .error .invalidEmail
      else .ok email

def createLogin (email value : Bytes) (t expires : Instant) : Sql (Except StoreError Bytes) :=
  match normalizeEmail S email with
  | .error e => pure (.error e)
  | .ok email => do
    match ← insert (Tables.insertLogin S email (S.hashToken value) t.format expires.format) with
    | .error e => pure (.error e)
    | .ok _ => pure (.ok value)

def consumeLogin (value : Bytes) (now : Instant) : Sql (Except StoreError Bytes) := do
  let affected ← Client.exec (Tables.useLogin (S.hashToken value) now.format)
    fun d => d.logins.countP (Tables.usable (S.hashToken value) now.format)
  if affected = 1 then
    let row ← Client.query fun d => d.logins.find? (·.hash == S.hashToken value)
    pure (match row with
      | some l => .ok l.email
      | none => .error .noRows)
  else
    let found ← Client.query fun d => d.logins.countP (·.hash == S.hashToken value)
    pure (.error (if found = 0 then .notFound else .expired))

def createSessionTx (userID : Nat) (value : Bytes) (t expires : Instant) : StoreTx :=
  insertTx (Tables.insertSession S userID (S.hashToken value) t.format expires.format) fun id =>
  .stmt (Tables.setLastLogin userID t.format) fun _ =>
  .stmt (Tables.sweepSessions t.format) fun _ =>
  .stmt (Tables.sweepLogins t.format) fun _ =>
  .commit (.ok id)

def createSession (userID : Nat) (value : Bytes) (t expires : Instant) : Sql (Except StoreError Bytes) := do
  match ← Client.transaction (createSessionTx S userID value t expires) with
  | .error e => pure (.error e)
  | .ok _ => pure (.ok value)

def getUserByID (id : Nat) : Sql (Except StoreError UserRow) :=
  Client.query fun d =>
  match d.users.find? (·.id == id) with
  | some u => .ok u
  | none => .error .notFound

def getOrgByID (id : Nat) : Sql (Except StoreError OrgRow) :=
  Client.query fun d =>
  match d.orgs.find? (·.id == id) with
  | some o => .ok o
  | none => .error .notFound

structure Session where
  id : Nat
  user : UserRow
  org : OrgRow
  expiresAt : Bytes

def getSession (value : Bytes) (now : Instant) : Sql (Except StoreError Session) := do
  let row ← Client.query fun d =>
    d.sessions.find? fun s => s.hash == S.hashToken value && decide (now.format < s.expiresAt)
  match row with
  | none => pure (.error .notFound)
  | some s =>
    match ← getUserByID s.userID with
    | .error e => pure (.error e)
    | .ok u =>
      match ← getOrgByID u.orgID with
      | .error e => pure (.error e)
      | .ok o => pure (.ok ⟨s.id, u, o, s.expiresAt⟩)

def deleteSession (value : Bytes) : Sql Unit :=
  Client.exec (fun d => { d with sessions := d.sessions.filter (·.hash != S.hashToken value) }) fun _ => ()

end PiiShield.Panel
