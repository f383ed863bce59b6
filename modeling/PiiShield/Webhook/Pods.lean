import PiiShield.Operator.Environment
import PiiShield.Operator.Reconcile

/-! Pods and policies as far as the webhook reads and writes them. What it passes on unread is
kept as the text it has in JSON. -/

namespace PiiShield.Webhook

open Operator

structure EnvVar where
  name : Bytes
  value : Bytes
  secretKeyRef : Option SecretKeySelector
  deriving DecidableEq

structure VolumeMount where
  name : Bytes
  mountPath : Bytes
  readOnly : Bool
  deriving DecidableEq

structure ContainerPort where
  name : Bytes
  containerPort : Nat
  protocol : Bytes
  deriving DecidableEq

structure SecurityContext where
  runAsUser : Option Int
  runAsNonRoot : Option Bool
  readOnlyRootFilesystem : Option Bool
  allowPrivilegeEscalation : Option Bool
  capabilitiesDrop : List Bytes
  capabilitiesAdd : List Bytes
  seccompProfile : Option Bytes
  rest : Bytes
  deriving DecidableEq

structure Probe where
  path : Bytes
  port : Bytes
  periodSeconds : Nat
  failureThreshold : Nat
  rest : Bytes
  deriving DecidableEq

structure Container where
  name : Bytes
  image : Bytes
  imagePullPolicy : Bytes
  command : List Bytes
  args : List Bytes
  env : List EnvVar
  ports : List ContainerPort
  volumeMounts : List VolumeMount
  securityContext : Option SecurityContext
  resources : Bytes
  restartPolicy : Option Bytes
  startupProbe : Option Probe
  rest : Bytes
  deriving DecidableEq

inductive VolumeSource
  | emptyDir
  | configMap (name : Bytes) (optional : Bool)
  | other (source : Bytes)
  deriving DecidableEq

structure Volume where
  name : Bytes
  source : VolumeSource
  deriving DecidableEq

structure PodSecurityContext where
  fsGroup : Option Int
  rest : Bytes
  deriving DecidableEq

structure Pod where
  labels : List (Bytes × Bytes)
  annotations : List (Bytes × Bytes)
  volumes : List Volume
  initContainers : List Container
  containers : List Container
  securityContext : Option PodSecurityContext
  shareProcessNamespace : Option Bool
  rest : Bytes
  deriving DecidableEq

def valueOf (entries : List (Bytes × Bytes)) (name : Bytes) : Bytes := (entries.lookup name).getD []

inductive InjectionMode
  | unset
  | file
  | pipe
  | ebpf
  | other (name : Bytes)
  deriving DecidableEq

structure Policy (Num : Type) where
  name : Bytes
  ns : Bytes
  rules : PolicyRules Num
  failPolicy : Bytes
  salt : Bytes
  saltSecretKeyRef : Option SecretKeySelector
  injectionMode : InjectionMode
  logPath : Bytes
  originalCommand : Bytes
  resources : Bytes
  auditMode : Bool
  stats : Bool

/-- The variables of the operator's own environment that the webhook reads. -/
inductive OperatorVariable
  | strictMode
  | agentFSGroup
  | agentImage
  | ebpfAgentImage
  | agentSaltSecretName
  | agentSaltSecretKey
  | legacySidecarMode
  deriving DecidableEq

/-- The webhook, what it finds in the cluster, and the packages it calls. The policy file of a
policy is that in its ConfigMap, if there is one. -/
structure PodMutator (Num : Type) where
  platform : Platform Num
  forms : TextForms Num
  getenv : OperatorVariable → Bytes
  legacySidecarMode : Bool
  strictMode : Bool
  getPolicy : (ns name : Bytes) → Option (Policy Num)
  policyFile : (ns configMap : Bytes) → Option Bytes

end PiiShield.Webhook
