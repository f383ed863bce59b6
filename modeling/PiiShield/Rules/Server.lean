import PiiShield.Rules.Signing
import PiiShield.Rules.Store

/-! The requests of the rule server that publish, register keys and serve signatures. Who may
make them, what is logged and the rows these write are left out. -/

namespace PiiShield.Rules

open Operator Transactions

inductive Rejection
  | badSignature
  | policy
  deriving DecidableEq

/-- The answers by their status; the body of a signature is given. -/
inductive Answer
  | created
  | published (p : Publication)
  | revoked
  | signature (body : SignatureFile)
  | badRequest
  | notFound
  | conflict
  | unprocessable
  | internal
  deriving DecidableEq

structure PublishBody where
  revision : Int
  publication : Int
  keyID : Bytes
  signature : Bytes

abbrev Handler := Code Rejection Answer

namespace Database

variable (d : Database)

def hasSigningKeys (org : Nat) : Bool := d.keys.any fun k => k.org == org && !k.revoked

def activeSigningKey (org : Nat) (keyID : Bytes) : Option SigningKey :=
  d.keys.find? fun k => k.org == org && k.keyID == keyID && !k.revoked

def hasKey (org : Nat) (keyID : Bytes) : Bool := d.keys.any fun k => k.org == org && k.keyID == keyID

def addSigningKey (k : SigningKey) (d : Database) : Database :=
  if d.hasKey k.org k.keyID then d else { d with keys := d.keys ++ [k] }

def revokeSigningKey (org : Nat) (keyID : Bytes) (d : Database) : Database :=
  { d with keys := d.keys.map fun k => if k.org == org && k.keyID == keyID then { k with revoked := true } else k }

def path (s : RuleSet) : Bytes := d.orgSlug s.org ++ bs "/" ++ s.slug

end Database

variable {Num : Type} (P : Platform Num)

def storeError : StoreError Rejection → Handler
  | .notFound => .done .notFound
  | .exists => .done .conflict
  | _ => .done .internal

def publishAnswer : Except (StoreError Rejection) Publication → Handler
  | .ok p => .done (.published p)
  | .error (.rejected .badSignature) => .done .unprocessable
  | .error .stale => .done .conflict
  | .error e => storeError e

def signedRequest (path key author : Bytes) (body : PublishBody) : PublishRequest Rejection where
  revision := body.revision
  author := author
  seq := body.publication
  keyID := body.keyID
  signature := body.signature
  check seq v :=
    if verify P key (statementFor P path (.ofNat seq) (.ofNat v.revision) v.content) body.signature then .ok ()
    else .error .badSignature

def unsignedRequest (author : Bytes) (body : PublishBody) : PublishRequest Rejection where
  revision := body.revision
  author := author
  seq := body.publication
  keyID := body.keyID
  signature := body.signature
  check _ _ := .ok ()

def PublishBody.signed (body : PublishBody) : Bool := !body.signature.isEmpty || !body.keyID.isEmpty

variable (pg : Bool)

def publishSigned (set : Nat) (s : RuleSet) (path author : Bytes) (body : PublishBody) : Handler :=
  .stmt [] id fun d =>
  match d.activeSigningKey s.org body.keyID with
  | none => .done .unprocessable
  | some k =>
    match parsePublicKey k.publicKey with
    | none => .done .internal
    | some key =>
      publish [.activeKey s.org body.keyID] pg set (signedRequest P path key author body) publishAnswer

def publishUnsigned (set : Nat) (s : RuleSet) (author : Bytes) (body : PublishBody) : Handler :=
  .stmt [] id fun d =>
  if d.hasSigningKeys s.org then .done .unprocessable
  else publish [.noKey s.org] pg set (unsignedRequest author body) publishAnswer

def publishHandler (set : Nat) (author : Bytes) (body : PublishBody) : Handler :=
  .stmt [] id fun d =>
  match d.sets set with
  | none => .done .notFound
  | some s =>
    if body.revision ≤ 0 then .done .badRequest
    else if body.signed && (body.signature.isEmpty || body.keyID.isEmpty || body.publication ≤ 0) then
      .done .badRequest
    else if body.signed then publishSigned P pg set s (d.path s) author body
    else publishUnsigned pg set s author body

def addSigningKeyHandler (org : Nat) (name publicKey : Bytes) : Handler :=
  if name.isEmpty then .done .badRequest
  else
    match parsePublicKey publicKey with
    | none => .done .badRequest
    | some key =>
      .stmt [] (Database.addSigningKey ⟨org, keyID P key, formatPublicKey key, false⟩) fun d =>
      if d.hasKey org (keyID P key) then storeError .exists else .done .created

/-- The handler `revokeSigningKey`, with the key named by its id. -/
def revokeSigningKeyHandler (org : Nat) (keyID : Bytes) : Handler :=
  .stmt [] (Database.revokeSigningKey org keyID) fun d =>
  if d.hasKey org keyID then .done .revoked else storeError .notFound

/-- The body of a signature for a publication and the content that is served. -/
def signatureFile (path : Bytes) (p : Publication) (v : Version) : SignatureFile :=
  let st := statementFor P path (.ofNat p.seq) (.ofNat v.revision) v.content
  ⟨st.set, st.publication, st.revision, st.sha256, p.keyID, p.signature⟩

/-- The handler `serveSignature`: the publication and the content are read one after the other. -/
def serveSignatureHandler (set : Nat) : Handler :=
  .stmt [] id fun d =>
  match d.sets set with
  | none => .done .notFound
  | some s =>
    .stmt [] id fun d1 =>
    match d1.latestPublication set with
    | none => .done .notFound
    | some p =>
      if p.signature.isEmpty then .done .notFound
      else
        .stmt [.serves set p.revision] id fun d2 =>
        match d2.publishedVersion set with
        | none => .done .internal
        | some v => .done (.signature (signatureFile P (d.path s) p v))

def createVersionHandler (set : Nat) (author comment : Bytes)
    (canonical : Nat → Except Rejection (Bytes × Bytes)) : Handler :=
  createVersion pg set author comment canonical fun
    | .ok _ => .done .created
    | .error (.rejected .policy) => .done .unprocessable
    | .error e => storeError e

inductive Request
  | createVersion (set : Nat) (author comment : Bytes) (canonical : Nat → Except Rejection (Bytes × Bytes))
  | publish (set : Nat) (author : Bytes) (body : PublishBody)
  | addSigningKey (org : Nat) (name publicKey : Bytes)
  | revokeSigningKey (org : Nat) (keyID : Bytes)
  | serveSignature (set : Nat)

def Request.handler : Request → Handler
  | .createVersion set author comment canonical => createVersionHandler pg set author comment canonical
  | .publish set author body => publishHandler P pg set author body
  | .addSigningKey org name publicKey => addSigningKeyHandler P org name publicKey
  | .revokeSigningKey org keyID => revokeSigningKeyHandler org keyID
  | .serveSignature set => serveSignatureHandler P set

/-- Any number of requests at once, on any number of processes over one database. -/
def server (requests : List Request) (d : Database) :
    System Database Nat Fact (Except (StoreError Rejection) Nat) Answer :=
  ⟨d, (requests.map (Request.handler P pg)).map .idle⟩

end PiiShield.Rules
