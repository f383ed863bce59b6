import PiiShield.Operator.Fetch

/-! A reconcile of the operator: it pulls the remote file of a policy, keeps the last good
copy in the ConfigMap with what is known of it, and renders the rules. -/

namespace PiiShield.Operator

structure SecretKeySelector where
  name : Bytes
  key : Bytes
  deriving DecidableEq

structure RemoteSignature where
  publicKeys : List Bytes
  url : Bytes
  set : Bytes

structure RemoteConfig where
  url : Bytes
  intervalSeconds : Int
  headerSecretRef : Option SecretKeySelector
  caBundleSecretRef : Option SecretKeySelector
  allowInsecure : Bool
  signature : Option RemoteSignature

/-- What the status of a policy says about its remote file. -/
structure RemoteStatus where
  lastSyncTime : Int
  etag : Bytes
  revision : Bytes
  hash : Bytes
  publication : Int64
  signedBy : Bytes
  deriving DecidableEq

/-- A policy; its other settings go to the pods and not into the file. -/
structure PiiPolicy (Num : Type) where
  name : Bytes
  generation : Int64
  rules : PolicyRules Num
  remoteConfig : Option RemoteConfig
  remoteStatus : Option RemoteStatus

/-- The ConfigMap of a policy. The remote file and its annotations are missing where the
last rendering had none. -/
structure ConfigMap where
  policyFile : Bytes
  hash : Bytes
  remoteFile : Option Bytes
  remoteHash : Option Bytes
  remoteETag : Option Bytes
  remoteSignedBy : Option Bytes
  remotePublication : Option Bytes
  deriving DecidableEq

inductive Problem
  | settings (p : SettingsProblem)
  | headerSecret (ref : SecretKeySelector)
  | caBundleSecret (ref : SecretKeySelector)
  | fetch (p : FetchProblem)
  | file (p : FileProblem)
  | signatureMissing (p : FetchProblem)
  | signature (p : SignatureProblem)
  deriving DecidableEq

inductive Reason
  | synced
  | secretNotFound
  | insecureURL
  | fetchFailed
  | tooLarge
  | signatureConfig
  | signatureMissing
  | signatureInvalid
  | signatureUntrusted
  | signatureReplayed
  | invalidJSON
  | invalidRegex
  | invalidValue
  deriving DecidableEq

def FetchProblem.reason : FetchProblem → Reason
  | .insecure _ | .scheme _ => .insecureURL
  | .tooLarge _ => .tooLarge
  | _ => .fetchFailed

def FileProblem.reason : FileProblem → Reason
  | .invalidJSON => .invalidJSON
  | .keyPattern _ | .emptyPattern _ _ | .rulePattern _ _ _ => .invalidRegex
  | _ => .invalidValue

def SignatureProblem.reason : SignatureProblem → Reason
  | .invalidFile | .mismatch _ _ _ => .signatureInvalid
  | .untrusted _ => .signatureUntrusted
  | .replayed _ _ => .signatureReplayed

def Problem.reason : Problem → Reason
  | .settings _ => .signatureConfig
  | .headerSecret _ | .caBundleSecret _ => .secretNotFound
  | .fetch p => p.reason
  | .file p => p.reason
  | .signatureMissing _ => .signatureMissing
  | .signature p => p.reason

/-- What the condition `RemoteSynced` says: why nothing new was accepted and whether a last
good copy is kept, or which file is in use. -/
inductive Condition
  | failed (p : Problem) (keeping : Bool)
  | synced (notModified : Bool) (revision hash : Bytes) (signed : Option Verified) (ignored : List Bytes)
      (allowInsecure : Bool)

def Condition.reason : Condition → Reason
  | .failed p _ => p.reason
  | .synced .. => .synced

/-- A remote file in use: its document, the file as fetched, its ETag and who signed it. -/
structure Copy (Num : Type) where
  doc : Document Num
  raw : Bytes
  etag : Bytes
  verified : Verified
  deriving DecidableEq

/-- What one pull leaves for the reconcile; `accepted` says that the copy is a file that
came with this pull. -/
structure RemoteOutcome (Num : Type) where
  copy : Option (Copy Num)
  accepted : Bool
  condition : Condition
  status : Option RemoteStatus
  requeue : Int

/-- What a reconcile meets: what the source answers, the Secrets that can be read, whether
the ConfigMap can be read and written, and the time. -/
structure Env where
  server : Source → Answer
  secret : SecretKeySelector → Option Bytes
  readable : Bool
  writable : Bool
  now : Int

/-- The settings of a required signature: the trusted keys, where the signature is, and the
set the statement must name. -/
structure Settings where
  keys : List TrustedKey
  url : Bytes
  set : Bytes
  deriving DecidableEq

variable {Num : Type} (P : Platform Num)

def signatureSettings (fileURL : Bytes) (sig : RemoteSignature) : Except SettingsProblem Settings := do
  let keys ← parseTrustedKeys P sig.publicKeys
  let url ← signatureURL P fileURL sig.url
  let set ← expectedSet P fileURL sig.set
  return ⟨keys, url, set⟩

def noSigner : Verified := ⟨0, []⟩

/-- The last good copy. With signatures required, only one that a key of the list signed
counts. -/
def lastGoodCopy (settings : Option Settings) (lastGood : Option ConfigMap) : Option (Copy Num) :=
  match lastGood with
  | none => none
  | some cm =>
    match cm.remoteFile with
    | none => none
    | some s =>
      if s.isEmpty then none
      else
        match parse P s with
        | .error _ => none
        | .ok (doc, _) =>
          let signedBy := cm.remoteSignedBy.getD []
          let etag := cm.remoteETag.getD []
          match settings with
          | none => some ⟨doc, s, etag, noSigner⟩
          | some set =>
            if trusted set.keys signedBy then
              some ⟨doc, s, etag, ⟨parseInt (cm.remotePublication.getD []), signedBy⟩⟩
            else none

def Env.secretValue (env : Env) (ref : SecretKeySelector) : Option Bytes :=
  (env.secret ref).filter (!·.isEmpty)

def pullSource (rc : RemoteConfig) (env : Env) (etag : Bytes) : Except Problem Source := do
  let authorization ← match rc.headerSecretRef with
    | none => pure []
    | some ref =>
      match env.secretValue ref with
      | none => .error (.headerSecret ref)
      | some v => pure (trimSpace v)
  let caBundle ← match rc.caBundleSecretRef with
    | none => pure []
    | some ref =>
      match env.secretValue ref with
      | none => .error (.caBundleSecret ref)
      | some v => pure v
  return ⟨rc.url, authorization, caBundle, rc.allowInsecure, etag⟩

def acceptFile (settings : Option Settings) (env : Env) (src : Source) (minPublication : Int64)
    (body etag : Bytes) : Except Problem (Copy Num × List Bytes) := do
  let (doc, ignored) ← (parse P body).mapError .file
  match settings with
  | none => return (⟨doc, body, etag, noSigner⟩, ignored)
  | some s =>
    let sigBody ← (fetchSignature P env.server src s.url).mapError .signatureMissing
    let verified ← (check P sigBody body s.set s.keys minPublication).mapError .signature
    return (⟨doc, body, etag, verified⟩, ignored)

/-- What a pull brings, given the copy kept from before: a new file that is accepted, with
the keys ignored in it, or `none` for one that is not modified. -/
def pull (rc : RemoteConfig) (settings : Option Settings) (kept : Option (Copy Num)) (env : Env) :
    Except Problem (Option (Copy Num × List Bytes)) := do
  let src ← pullSource rc env ((kept.map (·.etag)).getD [])
  match ← (fetch P env.server src).mapError .fetch with
  | .notModified => return none
  | .file body etag =>
    let minPublication := (kept.map (·.verified.publication)).getD 0
    return some (← acceptFile P settings env src minPublication body etag)

def useCopy (rc : RemoteConfig) (settings : Option Settings) (env : Env) (accepted : Bool) (copy : Copy Num)
    (ignored : List Bytes) : RemoteOutcome Num :=
  let hash := hash P copy.raw
  { copy := some copy
    accepted := accepted
    condition := .synced (!accepted) copy.doc.revision hash (settings.map fun _ => copy.verified) ignored
      rc.allowInsecure
    status := some
      ⟨env.now, copy.etag, copy.doc.revision, hash, copy.verified.publication, copy.verified.keyID⟩
    requeue := interval rc.intervalSeconds }

variable (policy : PiiPolicy Num)

/-- The part of `syncRemote` after the signature settings. A failed pull and a 304 use the
last good copy again. -/
def pullRemote (rc : RemoteConfig) (settings : Option Settings)
    (lastGood : Option ConfigMap) (env : Env) : RemoteOutcome Num :=
  let kept := lastGoodCopy P settings lastGood
  let failed (p : Problem) : RemoteOutcome Num :=
    ⟨kept, false, .failed p kept.isSome, policy.remoteStatus, retry rc.intervalSeconds⟩
  match pull P rc settings kept env, kept with
  | .error p, _ => failed p
  | .ok (some (copy, ignored)), _ => useCopy P rc settings env true copy ignored
  | .ok none, some copy => useCopy P rc settings env false copy []
  -- A 304 needs an ETag, which only a kept copy has.
  | .ok none, none => failed (.fetch (.unaskedNotModified rc.url))

def syncRemote (rc : RemoteConfig) (lastGood : Option ConfigMap) (env : Env) :
    RemoteOutcome Num :=
  match rc.signature with
  | none => pullRemote P policy rc none lastGood env
  | some sig =>
    match signatureSettings P rc.url sig with
    | .error p => ⟨none, false, .failed (.settings p) false, none, retry rc.intervalSeconds⟩
    | .ok settings => pullRemote P policy rc (some settings) lastGood env

def renderConfigMap (copy : Option (Copy Num)) : Option ConfigMap :=
  let doc := match copy with
    | none => localDocument P policy.rules policy.generation
    | some c => merge P c.doc policy.rules policy.generation
  (P.encode doc).map fun data =>
    match copy with
    | none => ⟨data, hash P data, none, none, none, none, none⟩
    | some c =>
      { policyFile := data
        hash := hash P data
        remoteFile := some c.raw
        remoteHash := some (hash P c.raw)
        remoteETag := if c.etag.isEmpty then none else some c.etag
        remoteSignedBy := if c.verified.keyID.isEmpty then none else some c.verified.keyID
        remotePublication :=
          if c.verified.keyID.isEmpty then none else some (formatInt c.verified.publication) }

inductive RenderProblem
  | name
  | read
  | encode
  | write
  deriving DecidableEq

/-- What a reconcile leaves: the outcome of its pull if there was one, the ConfigMap, what
kept it from being written, and the status of the remote file. -/
structure Reconciled (Num : Type) where
  remote : Option (RemoteOutcome Num)
  configMap : Option ConfigMap
  rendered : Option RenderProblem
  remoteStatus : Option RemoteStatus

def writeConfigMap (prev : Option ConfigMap) (env : Env) (copy : Option (Copy Num)) :
    Option ConfigMap × Option RenderProblem :=
  match renderConfigMap P policy copy with
  | none => (prev, some .encode)
  | some cm => if env.writable then (some cm, none) else (prev, some .write)

def reconcile (prev : Option ConfigMap) (env : Env) : Reconciled Num :=
  if !checkName policy.name then ⟨none, prev, some .name, policy.remoteStatus⟩
  else
    match policy.remoteConfig with
    | none =>
      let w := writeConfigMap P policy prev env none
      ⟨none, w.1, w.2, none⟩
    | some rc =>
      if !env.readable then ⟨none, prev, some .read, policy.remoteStatus⟩
      else
        let out := syncRemote P policy rc prev env
        let w := writeConfigMap P policy prev env out.copy
        ⟨some out, w.1, w.2, out.status⟩

end PiiShield.Operator
