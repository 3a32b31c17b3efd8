import Mathlib.Algebra.Group.Nat.Defs
import Buzz.Lib.KeyMap
import Mathlib.Data.List.Infix

/-!
# Pods of agents

An agent runs in a pod, with its environment in a Secret. Both have names and labels from the key of
the agent. What is read of a pod is decoded and verified: a pod without the marker of this provider,
or with the annotation of another agent, is none of ours.

Maps are lists of pairs. Durations and times are in nanoseconds. Of the objects that are written, only
what is read again is modelled. The fingerprint of an intent is that of the libraries for JSON and for
hashes, a parameter here.
-/

namespace Buzz.Kubernetes

/-! ### Objects -/

structure ObjectMeta where
  name : Option String
  namespaceName : Option String
  uid : Option String
  resourceVersion : Option String
  labels : Option (List (String × String))
  annotations : Option (List (String × String))
  creationTimestamp : Option Int
  deletionTimestamp : Option Int

structure SecretEnvSource where
  name : String
  optional : Option Bool

structure EnvFromSource where
  secretRef : Option SecretEnvSource

structure Container where
  name : String
  image : Option String
  envFrom : Option (List EnvFromSource)

structure PodSpec where
  containers : List Container

structure ContainerStateTerminated where
  exitCode : Int
  reason : Option String

structure ContainerStateWaiting where
  reason : Option String
  message : Option String

structure ContainerState where
  running : Bool
  terminated : Option ContainerStateTerminated
  waiting : Option ContainerStateWaiting

structure ContainerStatus where
  name : String
  state : Option ContainerState

structure PodCondition where
  type : String
  status : String
  reason : Option String
  message : Option String

structure PodStatus where
  phase : Option String
  containerStatuses : Option (List ContainerStatus)
  conditions : Option (List PodCondition)

structure Pod where
  metadata : ObjectMeta
  spec : Option PodSpec
  status : Option PodStatus

structure Secret where
  metadata : ObjectMeta
  stringData : Option (List (String × String))
  immutable : Option Bool

/-! ### Names -/

def managedBy : String := "buzz-backend-kubernetes"

def labelManagedBy : String := "app.kubernetes.io/managed-by"

def labelBindingVersion : String := "buzz.block.xyz/binding-version"

def bindingVersion : String := "1"

def labelAgentPubkey : String := "buzz.block.xyz/agent-pubkey"

def annotationPubkeyFull : String := "buzz.block.xyz/agent-pubkey-full"

def annotationCreateIntent : String := "buzz.block.xyz/create-intent"

def annotationImage : String := "buzz.block.xyz/image"

/-- An agent: its public key in hexadecimal. -/
structure AgentIdentity where
  pubkeyHex : String
  length_eq : pubkeyHex.toList.length = 64
  deriving DecidableEq

namespace AgentIdentity

variable (a : AgentIdentity)

def labelPubkey : String := String.ofList (a.pubkeyHex.toList.take 32)

def podName : String := "buzz-agent-" ++ String.ofList (a.pubkeyHex.toList.take 12)

def secretName (generation : String) : String := a.podName ++ "-" ++ generation

def selector : String :=
  labelAgentPubkey ++ "=" ++ a.labelPubkey ++ "," ++ labelManagedBy ++ "=" ++ managedBy

def labels : List (String × String) :=
  [(labelAgentPubkey, a.labelPubkey), (labelManagedBy, managedBy),
    (labelBindingVersion, bindingVersion)]

end AgentIdentity

/-- `new_generation`, of a number: eight hexadecimal digits. -/
def newGeneration (n : UInt32) : String :=
  String.ofList ((List.range 8).reverse.map fun k => Nat.digitChar (n.toNat / 16 ^ k % 16))

/-! ### What is created -/

structure Resources where
  cpuRequest : String
  memoryRequest : String
  cpuLimit : String
  memoryLimit : String

structure ProviderConfig where
  namespaceName : String
  image : String
  resources : Resources
  serviceAccount : Option String

/-- What the fingerprint of a deploy is taken of. -/
structure IntentTemplate where
  templateVersion : Nat
  namespaceName : String
  image : String
  resources : Resources
  serviceAccount : Option String
  restartPolicy : String
  terminationGracePeriodSeconds : Int
  envKeys : List String
  envFromSecret : String
  workspaceMountPath : String
  runAsUser : Int
  runAsGroup : Int

def intentTemplate (cfg : ProviderConfig) (envKeys : List String) : IntentTemplate where
  templateVersion := 1
  namespaceName := cfg.namespaceName
  image := cfg.image
  resources := cfg.resources
  serviceAccount := cfg.serviceAccount
  restartPolicy := "Never"
  terminationGracePeriodSeconds := 60
  envKeys := envKeys.mergeSort fun k l => decide (k ≤ l)
  envFromSecret := "<per-attempt-secret>"
  workspaceMountPath := "/home/agent"
  runAsUser := 10001
  runAsGroup := 10001

def containerName : String := "agent"

def startNonceKey : String := "BUZZ_MANAGED_AGENT_START_NONCE"

/-- `insert`, into an environment. -/
def insertEnv (key value : String) (env : List (String × String)) : List (String × String) :=
  upsertKey Prod.fst key (fun _ => (key, value)) (key, value) env

def buildSecret (a : AgentIdentity) (namespaceName generation : String)
    (env : List (String × String)) : Secret where
  metadata :=
    { name := some (a.secretName generation)
      namespaceName := some namespaceName
      uid := none
      resourceVersion := none
      labels := some a.labels
      annotations := some [(annotationPubkeyFull, a.pubkeyHex)]
      creationTimestamp := none
      deletionTimestamp := none }
  stringData := some env
  immutable := some true

def buildPod (a : AgentIdentity) (cfg : ProviderConfig) (generation fingerprint : String) :
    Pod where
  metadata :=
    { name := some a.podName
      namespaceName := some cfg.namespaceName
      uid := none
      resourceVersion := none
      labels := some a.labels
      annotations := some [(annotationPubkeyFull, a.pubkeyHex),
        (annotationCreateIntent, fingerprint), (annotationImage, cfg.image)]
      creationTimestamp := none
      deletionTimestamp := none }
  spec := some ⟨[⟨containerName, some cfg.image,
    some [⟨some ⟨a.secretName generation, some false⟩⟩]⟩]⟩
  status := none

/-! ### What is read -/

inductive PullFailure where
  | unauthorized
  | manifestUnknown
  | archMismatch
  deriving DecidableEq

/-- How far a pod has started. -/
inductive Startup where
  | started
  | terminated
  | neverStartedRecoverable
  | neverStartedProvablyBroken
  | neverStartedPullFailing (failure : PullFailure)
  deriving DecidableEq

/-- What a pod shows, or the secret to look up first. -/
inductive StartupObservation where
  | resolved (startup : Startup)
  | configErrorPendingSecretCheck (secretName : String)
  deriving DecidableEq

/-- The incarnation and the version of a pod. -/
structure Fence where
  uid : String
  resourceVersion : String
  deriving DecidableEq

/-- A pod that is the agent's own. -/
structure VerifiedPod where
  name : String
  fence : Fence
  deletionMarked : Bool
  startup : Startup
  recordedIntent : Option String

def hasMarker (labels : Option (List (String × String))) : Bool :=
  labels.any fun labels => labels.lookup labelManagedBy == some managedBy &&
    labels.lookup labelBindingVersion == some bindingVersion

def annotationMatches (annotations : Option (List (String × String))) (a : AgentIdentity) : Bool :=
  (annotations.bind fun annotations => annotations.lookup annotationPubkeyFull) == some a.pubkeyHex

def secretIsOurs (secret : Secret) (a : AgentIdentity) : Bool :=
  hasMarker secret.metadata.labels && annotationMatches secret.metadata.annotations a

def referencedSecret (pod : Pod) : Option String :=
  pod.spec.bind fun spec =>
    (spec.containers.flatMap fun c => c.envFrom.getD []).findSome? fun source =>
      source.secretRef.map SecretEnvSource.name

/-- `contains`. -/
def hasText (text needle : String) : Bool := decide (needle.toList <:+: text.toList)

def classifyPullFailure (message : String) : Option PullFailure :=
  let m := String.ofList (message.toList.map Char.toLower)
  if hasText m "401" || hasText m "unauthorized" || hasText m "403" || hasText m "denied" ||
      hasText m "authentication required" then some .unauthorized
  else if hasText m "manifest unknown" || hasText m "not found" || hasText m "manifest_unknown" ||
      hasText m "repository does not exist" then some .manifestUnknown
  else if hasText m "no match for platform" || hasText m "no matching manifest" then
    some .archMismatch
  else none

/-- The state of the container of the agent. -/
def containerState (pod : Pod) : Option ContainerState :=
  (pod.status.bind fun status => status.containerStatuses.bind fun statuses =>
    statuses.find? fun c => c.name == containerName).bind ContainerStatus.state

/-- The startup of a container that waits. -/
def decodeWaiting (pod : Pod) (waiting : ContainerStateWaiting) : StartupObservation :=
  let reason := waiting.reason.getD ""
  if reason = "InvalidImageName" then .resolved .neverStartedProvablyBroken
  else if reason = "ErrImagePull" ∨ reason = "ImagePullBackOff" then
    match classifyPullFailure (waiting.message.getD "") with
    | some failure => .resolved (.neverStartedPullFailing failure)
    | none => .resolved .neverStartedRecoverable
  else if reason = "CreateContainerConfigError" then
    match referencedSecret pod with
    | some secretName => .configErrorPendingSecretCheck secretName
    | none => .resolved .neverStartedRecoverable
  else .resolved .neverStartedRecoverable

/-- The startup of a pod whose container has no state. -/
def decodePhase (pod : Pod) : StartupObservation :=
  let phase := pod.status.bind PodStatus.phase
  if phase = some "Succeeded" ∨ phase = some "Failed" then .resolved .terminated
  else .resolved .neverStartedRecoverable

def decodeStartup (pod : Pod) : StartupObservation :=
  match containerState pod with
  | some state =>
    if state.running then .resolved .started
    else if state.terminated.isSome then .resolved .terminated
    else
      match state.waiting with
      | some waiting => decodeWaiting pod waiting
      | none => decodePhase pod
  | none => decodePhase pod

def pullFailureMessage (failure : PullFailure) (image : String) : String :=
  let registry := String.ofList (image.toList.takeWhile (· != '/'))
  match failure with
  | .unauthorized =>
    s!"the cluster is not authorized to pull {image} from {registry}. This pull retries " ++
      "indefinitely and will not succeed on its own: grant the cluster's nodes access to that registry."
  | .manifestUnknown =>
    s!"{registry} has no image at {image}. Check the digest and repository."
  | .archMismatch =>
    s!"{image} has no variant for the architecture of the nodes it was scheduled on."

/-- What a container says about itself. -/
def containerCondition (state : ContainerState) : Option String :=
  match state.waiting.bind ContainerStateWaiting.reason with
  | some reason => some s!"the container is waiting, reason {reason}"
  | none => state.terminated.map fun terminated =>
    match terminated.reason with
    | some reason => s!"the container exited with code {terminated.exitCode} ({reason})"
    | none => s!"the container exited with code {terminated.exitCode}"

def falseCondition (c : PodCondition) : String :=
  let detail := ": ".intercalate ([c.reason.getD "", c.message.getD ""].filter fun s => !s.isEmpty)
  if detail.isEmpty then s!"pod condition {c.type} is false"
  else s!"pod condition {c.type} is false: {detail}"

def condition (pod : Pod) : Option String :=
  pod.status.bind fun status =>
    (((containerState pod).bind containerCondition).orElse fun _ =>
      (status.conditions.bind fun cs => cs.find? fun c => c.status == "False").map
        falseCondition).orElse fun _ => status.phase.map fun p => s!"the pod is {p}"

def verify (pod : Pod) (a : AgentIdentity) (startup : Startup) : Option VerifiedPod :=
  if !hasMarker pod.metadata.labels then none
  else if !annotationMatches pod.metadata.annotations a then none
  else do
    let name ← pod.metadata.name
    let uid ← pod.metadata.uid
    let resourceVersion ← pod.metadata.resourceVersion
    some {
      name
      fence := ⟨uid, resourceVersion⟩
      deletionMarked := pod.metadata.deletionTimestamp.isSome
      startup
      recordedIntent := pod.metadata.annotations.bind fun annotations =>
        annotations.lookup annotationCreateIntent }

theorem verify_startup (pod : Pod) (a : AgentIdentity) (startup : Startup) :
    verify pod a startup = (verify pod a .started).map fun v => { v with startup } := by
  rw [verify, verify]
  split
  · rfl
  · split
    · rfl
    · cases pod.metadata.name <;> cases pod.metadata.uid <;>
        cases pod.metadata.resourceVersion <;> rfl

/-! ### What is to be done -/

/-- What a deploy does next. -/
inductive Action where
  | create
  | delete (name : String) (fence : Fence)
  | awaitDisappearance (name : String)
  | noOp (agentId : String)
  | observe (name : String)
  | report (name : String) (failure : PullFailure)

def classify (observed : Option VerifiedPod) (desired : String) : Action :=
  match observed with
  | none => .create
  | some pod =>
    if pod.deletionMarked then .awaitDisappearance pod.name
    else
      match pod.startup with
      | .started => .noOp pod.name
      | .terminated => .delete pod.name pod.fence
      | .neverStartedProvablyBroken => .delete pod.name pod.fence
      | .neverStartedPullFailing failure => .report pod.name failure
      | .neverStartedRecoverable =>
        if pod.recordedIntent = some desired then .observe pod.name
        else .delete pod.name pod.fence

/-- **A deploy succeeds** with a pod that has started and is not marked. -/
theorem classify_eq_noOp_iff {observed : Option VerifiedPod} {desired agentId : String} :
    classify observed desired = .noOp agentId ↔ ∃ pod, observed = some pod ∧
      pod.deletionMarked = false ∧ pod.startup = .started ∧ pod.name = agentId := by
  cases observed with
  | none => simp [classify]
  | some pod =>
    obtain ⟨name, fence, deletionMarked, startup, recordedIntent⟩ := pod
    cases deletionMarked <;> cases startup <;> simp [classify]
    split <;> simp

/-- A deploy creates where there is no pod of the agent. -/
theorem classify_eq_create_iff {observed : Option VerifiedPod} {desired : String} :
    classify observed desired = .create ↔ observed = none := by
  cases observed with
  | none => simp [classify]
  | some pod =>
    obtain ⟨name, fence, deletionMarked, startup, recordedIntent⟩ := pod
    cases deletionMarked <;> cases startup <;> simp [classify]
    split <;> simp

/-! ### What is collected -/

def operationDeadlineSecs : Nat := 600

def orphanSecretMinAgeSecs : Nat := 2 * operationDeadlineSecs

/-- What garbage collection deletes. -/
structure GcPlan where
  pods : List String
  secrets : List String

/-- One turn of the sweep for orphans. -/
def sweepOrphan (a : AgentIdentity) (protectedNames : List String) (now : Int)
    (planned : List String) (secret : Secret) : List String :=
  if !secretIsOurs secret a then planned
  else
    match secret.metadata.name with
    | none => planned
    | some name =>
      if protectedNames.contains name || planned.contains name then planned
      else
        match secret.metadata.creationTimestamp with
        | none => planned
        | some created =>
          if (orphanSecretMinAgeSecs : Int) ≤ (now - created).tdiv 1000000000 then planned ++ [name]
          else planned

def plan (a : AgentIdentity) (pods : List Pod) (secrets : List Secret) (terminated : Pod → Bool)
    (now : Option Int) : GcPlan :=
  let ours := pods.filter fun pod => (verify pod a .started).isSome
  let doomedPods := ours.filter terminated
  let doomedNames := doomedPods.filterMap fun pod => pod.metadata.name
  let protectedNames := (ours.filter fun pod =>
    !doomedNames.contains (pod.metadata.name.getD "")).filterMap referencedSecret
  let doomedSecrets := doomedPods.filterMap referencedSecret
  { pods := doomedNames
    secrets := match now with
      | none => doomedSecrets
      | some now => secrets.foldl (sweepOrphan a protectedNames now) doomedSecrets }

end Buzz.Kubernetes
