import PiiShield.Operator.Signature

/-! One pull from the source of a policy: a conditional GET with a size limit. What the
source answers to a request is an input of the pull. -/

namespace PiiShield.Operator

structure Source where
  url : Bytes
  authorization : Bytes
  caBundle : Bytes
  allowInsecure : Bool
  etag : Bytes
  deriving DecidableEq

/-- What comes back on a request: an error of the transport, or a response whose body may
break off. -/
inductive Answer
  | failed
  | response (status : Nat) (body : Option Bytes) (etag : Bytes)

inductive Pulled
  | notModified
  | file (body etag : Bytes)

inductive FetchProblem
  | badURL (url : Bytes)
  | insecure (url : Bytes)
  | scheme (url : Bytes)
  | noCertificate
  | transport (url : Bytes)
  | unaskedNotModified (url : Bytes)
  | status (url : Bytes) (code : Nat)
  | broken (url : Bytes)
  | tooLarge (url : Bytes)
  deriving DecidableEq

def maxBytes : Nat := 256 * 1024

variable {Num : Type} (P : Platform Num)

def checkURL (raw : Bytes) (allowInsecure : Bool) : Except FetchProblem Unit :=
  match P.parseURL raw with
  | none => .error (.badURL raw)
  | some u =>
    let scheme := P.unicode.toLowerString u.scheme
    if scheme == bs "https" then .ok ()
    else if scheme == bs "http" then if allowInsecure then .ok () else .error (.insecure raw)
    else .error (.scheme raw)

def fetch (server : Source → Answer) (src : Source) : Except FetchProblem Pulled := do
  checkURL P src.url src.allowInsecure
  if !src.caBundle.isEmpty && !P.hasCertificate src.caBundle then .error .noCertificate
  match server src with
  | .failed => .error (.transport src.url)
  | .response status body etag =>
    if status == 304 then
      if src.etag.isEmpty then .error (.unaskedNotModified src.url) else .ok .notModified
    else if status != 200 then .error (.status src.url status)
    else
      match body with
      | none => .error (.broken src.url)
      | some body => if maxBytes < body.length then .error (.tooLarge src.url) else .ok (.file body etag)

def fetchSignature (server : Source → Answer) (src : Source) (sigURL : Bytes) :
    Except FetchProblem Bytes := do
  match ← fetch P server { src with url := sigURL, etag := [] } with
  | .file body _ => return body
  | .notModified => return []

def interval (seconds : Int) : Int := if seconds ≤ 0 then 300 else if seconds < 30 then 30 else seconds

def retry (seconds : Int) : Int := if interval seconds < 60 then interval seconds else 60

end PiiShield.Operator
