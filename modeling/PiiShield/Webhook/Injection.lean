import PiiShield.Webhook.Pods

/-! The webhook on a pod: the sidecar it builds, the three ways to inject it, and its answers. -/

namespace PiiShield.Webhook

open Operator

def sidecarName : Bytes := bs "pii-shield-sidecar"

def auditMetricsPort : Nat := 9090

def auditMetricsPortName : Bytes := bs "pii-metrics"

def envVar (name value : Bytes) : EnvVar := ⟨name, value, none⟩

def auditStatsInterval : EnvVar := envVar (bs "PII_STATS_LOG_INTERVAL") (bs "1h")

def metricsEnv : List EnvVar :=
  [envVar (bs "PII_METRICS_ENABLED") (bs "true"), envVar (bs "PII_METRICS_PORT") (formatNat auditMetricsPort)]

def auditEnv : List EnvVar := metricsEnv ++ [auditStatsInterval]

def metricsPort : ContainerPort := ⟨auditMetricsPortName, auditMetricsPort, bs "TCP"⟩

def variableName : Variable → Bytes
  | .entropyThreshold => bs "PII_ENTROPY_THRESHOLD"
  | .confidenceThreshold => bs "PII_CONFIDENCE_THRESHOLD"
  | .minSecretLength => bs "PII_MIN_SECRET_LENGTH"
  | .disableBigramCheck => bs "PII_DISABLE_BIGRAM_CHECK"
  | .bigramDefaultScore => bs "PII_BIGRAM_DEFAULT_SCORE"
  | .entityTypeLabels => bs "PII_ENTITY_TYPE_LABELS"
  | .adaptiveThreshold => bs "PII_ADAPTIVE_THRESHOLD"
  | .adaptiveSamples => bs "PII_ADAPTIVE_SAMPLES"
  | .sensitiveKeys => bs "PII_SENSITIVE_KEYS"
  | .sensitiveKeyPatterns => bs "PII_SENSITIVE_KEY_PATTERNS"
  | .customRegexList => bs "PII_CUSTOM_REGEX_LIST"
  | .safeRegexList => bs "PII_SAFE_REGEX_LIST"

def ruleEnvNames : List Bytes :=
  [Variable.confidenceThreshold, .entropyThreshold, .minSecretLength, .sensitiveKeys, .sensitiveKeyPatterns,
    .customRegexList, .safeRegexList].map variableName

inductive Failure
  | unknownMode (mode : Bytes)
  | targetNotFound (target : Bytes)
  | noCommand
  deriving DecidableEq

inductive Denial
  | policyNotFound (policy ns : Bytes)
  | multipleContainers
  | ebpfWithoutAudit (policy : Bytes)
  deriving DecidableEq

inductive Warning
  | notInjected (policy ns : Bytes)
  | pipeExperimental
  | ebpfObserves (policy : Bytes)
  | auditMode (policy : Bytes)
  deriving DecidableEq

inductive Response
  | errored (status : Nat) (problem : Failure)
  | denied (reason : Denial)
  | allowed (warnings : List Warning)
  | patched (pod : Pod) (warnings : List Warning)
  deriving DecidableEq

def Response.admitted (pod : Pod) : Response → Option Pod
  | .allowed _ => some pod
  | .patched p _ => some p
  | _ => none

variable {Num : Type} (M : PodMutator Num)

namespace PodMutator

def lowered (name : OperatorVariable) : Bytes := M.platform.unicode.toLowerString (M.getenv name)

def isStrict : Bool :=
  if M.lowered .strictMode = bs "true" then true
  else if M.lowered .strictMode = bs "false" then false
  else M.strictMode

def isLegacy : Bool := M.lowered .legacySidecarMode = bs "true" || M.legacySidecarMode

def getenvOr (name : OperatorVariable) (default : Bytes) : Bytes :=
  if (M.getenv name).isEmpty then default else M.getenv name

def getTargetContainerIndex (pod : Pod) (target : Bytes) : Option Nat :=
  if pod.containers.length = 1 then some 0 else pod.containers.findIdx? (·.name == target)

variable (policy : Policy Num)

def saltEnv : List EnvVar :=
  match policy.saltSecretKeyRef with
  | some ref => [⟨bs "PII_SALT", [], some ref⟩]
  | none =>
    if !policy.salt.isEmpty then [envVar (bs "PII_SALT") policy.salt]
    else if (M.getenv .agentSaltSecretName).isEmpty then []
    else [⟨bs "PII_SALT", [], some ⟨M.getenv .agentSaltSecretName, M.getenvOr .agentSaltSecretKey (bs "salt")⟩⟩]

def scannerEnv : List EnvVar :=
  M.saltEnv policy ++
  (if policy.failPolicy.isEmpty then [] else [envVar (bs "PII_FAIL_POLICY") policy.failPolicy]) ++
  (if policy.auditMode then [envVar (bs "PII_MODE") (bs "audit")] else []) ++
  (Operator.scannerEnv M.platform M.forms policy.rules).map fun e => envVar (variableName e.1) e.2

def buildSidecar (input : Bytes) (policy : Policy Num) (sidecarTargetFile : Bytes) : Container where
  name := sidecarName
  image := M.getenvOr .agentImage (bs "pii-shield-agent:enterprise")
  imagePullPolicy := bs "IfNotPresent"
  command := [bs "/pii-shield"]
  args := [bs "--watch-file", sidecarTargetFile]
  env := M.scannerEnv policy ++
    (if policy.auditMode then auditEnv else if policy.stats then metricsEnv else []) ++
    [envVar (bs "PII_CONFIG_FILE") (bs "/etc/pii-shield/policy.json")]
  ports := if policy.auditMode || policy.stats then [metricsPort] else []
  volumeMounts := [⟨input, bs "/shared", false⟩, ⟨bs "pii-tmp", bs "/tmp", false⟩,
    ⟨bs "pii-policy", bs "/etc/pii-shield", true⟩]
  securityContext := some ⟨none, some true, some true, some false, [bs "ALL"], [], some (bs "RuntimeDefault"), []⟩
  resources := policy.resources
  restartPolicy := none
  startupProbe := none
  rest := []

def ebpfAgent : Container where
  name := sidecarName
  image := M.getenvOr .ebpfAgentImage (bs "ghcr.io/pii-shield/pii-shield-ebpf:latest")
  imagePullPolicy := bs "IfNotPresent"
  command := [bs "/pii-shield-ebpf"]
  args := [bs "--listen", bs ":" ++ formatNat auditMetricsPort]
  env := M.scannerEnv policy ++ [auditStatsInterval]
  ports := [metricsPort]
  volumeMounts := []
  securityContext := some ⟨some 0, some false, some true, some false, [bs "ALL"],
    [bs "BPF", bs "PERFMON", bs "SYS_RESOURCE"], some (bs "RuntimeDefault"), []⟩
  resources := policy.resources
  restartPolicy := none
  startupProbe := some ⟨bs "/healthz", auditMetricsPortName, 1, 30, []⟩
  rest := []

def addSidecar (pod : Pod) (sidecar : Container) : Pod :=
  if M.isLegacy then { pod with containers := pod.containers ++ [sidecar] }
  else { pod with initContainers := pod.initContainers ++ [{ sidecar with restartPolicy := some (bs "Always") }] }

def withFSGroup (pod : Pod) : Pod :=
  let context := pod.securityContext.getD ⟨none, []⟩
  let fsGroup := context.fsGroup.getD ((atoi (M.getenvOr .agentFSGroup (bs "65532"))).getD 65532)
  { pod with securityContext := some { context with fsGroup := some fsGroup } }

end PodMutator

variable (policy : Policy Num)

def policyVolume : Volume :=
  ⟨bs "pii-policy", .configMap (configMapName policy.name) true⟩

def addVolumes (input : Bytes) (policy : Policy Num) (pod : Pod) : Pod :=
  { pod with volumes := pod.volumes ++ [⟨input, .emptyDir⟩, ⟨bs "pii-tmp", .emptyDir⟩, policyVolume policy] }

def beforeLastSlash (path : Bytes) : Bytes := (path.reverse.dropWhile (· != chr '/')).tail.reverse

def afterLastSlash (path : Bytes) : Bytes := (path.reverse.takeWhile (· != chr '/')).reverse

def logPathOf : Bytes :=
  if policy.logPath.isEmpty then bs "/app/logs/log.txt" else policy.logPath

def mountPathBase (logPath : Bytes) : Bytes :=
  if logPath.contains (chr '/') then
    if (beforeLastSlash logPath).isEmpty then bs "/" else beforeLastSlash logPath
  else logPath

def sidecarTargetFile (logPath : Bytes) : Bytes :=
  bs "/shared/" ++ if (afterLastSlash logPath).isEmpty then bs "log.txt" else afterLastSlash logPath

def addMount (mount : VolumeMount) (c : Container) : Container := { c with volumeMounts := c.volumeMounts ++ [mount] }

def mkfifo : Container where
  name := bs "pii-mkfifo"
  image := bs "alpine:3.20"
  imagePullPolicy := []
  command := [bs "/bin/sh", bs "-c"]
  args := [bs "mkfifo /shared/log.pipe && chmod 666 /shared/log.pipe"]
  env := []
  ports := []
  volumeMounts := [⟨bs "pii-pipe-dir", bs "/shared", false⟩]
  securityContext := none
  resources := []
  restartPolicy := none
  startupProbe := none
  rest := []

def originalCommand (c : Container) : Option Bytes :=
  if !policy.originalCommand.isEmpty then some policy.originalCommand
  else if c.command.isEmpty then none
  else some ([chr ' '].intercalate c.command)

def wrapCommand (command : Bytes) (c : Container) : Container :=
  addMount ⟨bs "pii-pipe-dir", bs "/shared", false⟩
    { c with command := [bs "/bin/sh", bs "-c"], args := [bs "exec " ++ command ++ bs " > /shared/log.pipe"] }

namespace PodMutator

def injectFileMode (pod : Pod) (policy : Policy Num) (target : Bytes) : Except Failure Pod :=
  match getTargetContainerIndex pod target with
  | none => .error (.targetNotFound target)
  | some i =>
    let pod := addVolumes (bs "pii-shared") policy (M.withFSGroup pod)
    let pod := { pod with
      containers := pod.containers.modify i
        (addMount ⟨bs "pii-shared", mountPathBase (logPathOf policy), false⟩) }
    .ok (M.addSidecar pod (M.buildSidecar (bs "pii-shared") policy (sidecarTargetFile (logPathOf policy))))

def injectPipeMode (pod : Pod) (policy : Policy Num) (target : Bytes) : Except Failure Pod :=
  match getTargetContainerIndex pod target with
  | none => .error (.targetNotFound target)
  | some i =>
    match pod.containers[i]?.bind (originalCommand policy) with
    | none => .error .noCommand
    | some command =>
      let pod := addVolumes (bs "pii-pipe-dir") policy (M.withFSGroup pod)
      let pod := { pod with
        initContainers := pod.initContainers ++ [mkfifo]
        containers := pod.containers.modify i (wrapCommand command) }
      .ok (M.addSidecar pod (M.buildSidecar (bs "pii-pipe-dir") policy (bs "/shared/log.pipe")))

def injectEBPFMode (pod : Pod) (policy : Policy Num) : Pod :=
  M.addSidecar { pod with shareProcessNamespace := some true } (M.ebpfAgent policy)

def policyFileRendered (policy : Policy Num) : Bool :=
  (M.policyFile policy.ns (configMapName policy.name)).any (!·.isEmpty)

end PodMutator

def dropRuleEnvOf (c : Container) : Container :=
  if c.name = sidecarName then { c with env := c.env.filter fun e => !ruleEnvNames.contains e.name } else c

def dropRuleEnv (pod : Pod) : Pod :=
  { pod with
    initContainers := pod.initContainers.map dropRuleEnvOf
    containers := pod.containers.map dropRuleEnvOf }

def policyNameOf (pod : Pod) : Bytes :=
  let name := valueOf pod.annotations (bs "pii-shield.io/policy")
  if name.isEmpty then bs "default" else name

namespace PodMutator

def finish (policy : Policy Num) (warnings : List Warning) : Except Failure Pod → Response
  | .error problem => .errored 500 problem
  | .ok pod =>
    .patched (if policy.injectionMode ≠ .ebpf ∧ M.policyFileRendered policy then dropRuleEnv pod else pod) warnings

def inject (policy : Policy Num) (pod : Pod) (target : Bytes) : Response :=
  let audit := if policy.auditMode then [.auditMode (policyNameOf pod)] else []
  match policy.injectionMode with
  | .unset => M.finish policy audit (M.injectFileMode pod policy target)
  | .file => M.finish policy audit (M.injectFileMode pod policy target)
  | .pipe => M.finish policy (.pipeExperimental :: audit) (M.injectPipeMode pod policy target)
  | .ebpf => M.finish policy [.ebpfObserves (policyNameOf pod)] (.ok (M.injectEBPFMode pod policy))
  | .other mode => .errored 400 (.unknownMode mode)

def handle (ns : Bytes) (pod : Pod) : Response :=
  if valueOf pod.labels (bs "pii-shield.io/inject") ≠ bs "true" then .allowed []
  else
    match M.getPolicy ns (policyNameOf pod) with
    | none =>
      if M.isStrict then .denied (.policyNotFound (policyNameOf pod) ns)
      else .allowed [.notInjected (policyNameOf pod) ns]
    | some policy =>
      let target := valueOf pod.annotations (bs "pii-shield.io/target-container")
      if 1 < pod.containers.length ∧ target = [] then .denied .multipleContainers
      else if policy.injectionMode = .ebpf ∧ policy.auditMode = false then
        .denied (.ebpfWithoutAudit (policyNameOf pod))
      else M.inject policy pod target

end PodMutator

end PiiShield.Webhook
