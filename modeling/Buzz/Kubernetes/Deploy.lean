import Buzz.Kubernetes.Pods
import Buzz.Lib.Pasts

/-!
# Deploys

A deploy brings an agent up in a cluster: it collects what is left of earlier ones, and goes on reading
the pod of the agent and doing what is to be done about it, until the pod runs or time is up. If
another deploy has created the pod first, it waits for that one.

Calls to the cluster may fail, and between two of them anything may happen. A read says which part of
the deploy it is from, which is of no effect. A loop stops after a number of turns with `unfinished`
where the deploy would go on. What is logged is left out.
-/

namespace Buzz.Kubernetes

open Program

/-! ### Calls to the cluster -/

inductive CreateOutcome where
  | created
  | alreadyExists

inductive DeleteOutcome where
  | accepted
  | notFound
  | preconditionFailed

/-- Who reads a pod, and whether it has created one. -/
inductive Reader where
  | deploying (createdThisCall : Bool)
  | adopting
  | other

/-- A call to the cluster, to the clock, or to the source of random numbers. -/
inductive Statement where
  | ensureNamespace (namespaceName : String)
  | listPods (selector : String)
  | listSecrets (selector : String)
  | secretExists (name : String)
  | createSecret (secret : Secret)
  | createPod (pod : Pod)
  | deletePod (name : String) (fence : Fence)
  | deleteSecret (name : String)
  | getPod (reader : Reader) (name : String)
  | sleep (duration : Nat)
  | elapsed
  | random

abbrev Reply : Statement → Type
  | .ensureNamespace _ => Except String Unit
  | .listPods _ => Except String (List Pod × Option Int)
  | .listSecrets _ => Except String (List Secret)
  | .secretExists _ => Except String Bool
  | .createSecret _ => Except String Unit
  | .createPod _ => Except String CreateOutcome
  | .deletePod _ _ => Except String DeleteOutcome
  | .deleteSecret _ => Except String Unit
  | .getPod _ _ => Except String (Option Pod)
  | .sleep _ => Unit
  | .elapsed => Nat
  | .random => UInt32

/-- Why a deploy ends without a pod. -/
inductive Stop where
  | error (text : String)
  | unfinished
  deriving DecidableEq

def pollInterval : Nat := 2 * 1000000000

def deadline : Nat := operationDeadlineSecs * 1000000000

/-! ### The substrate -/

namespace Substrate

abbrev ensureNamespace (namespaceName : String) : Program Reply (Except String Unit) :=
  call (Statement.ensureNamespace namespaceName)

abbrev listPods (selector : String) : Program Reply (Except String (List Pod × Option Int)) :=
  call (Statement.listPods selector)

abbrev listSecrets (selector : String) : Program Reply (Except String (List Secret)) :=
  call (Statement.listSecrets selector)

abbrev secretExists (name : String) : Program Reply (Except String Bool) :=
  call (Statement.secretExists name)

abbrev createSecret (secret : Secret) : Program Reply (Except String Unit) :=
  call (Statement.createSecret secret)

abbrev createPod (pod : Pod) : Program Reply (Except String CreateOutcome) :=
  call (Statement.createPod pod)

abbrev deletePod (name : String) (fence : Fence) : Program Reply (Except String DeleteOutcome) :=
  call (Statement.deletePod name fence)

abbrev deleteSecret (name : String) : Program Reply (Except String Unit) :=
  call (Statement.deleteSecret name)

abbrev getPod (reader : Reader) (name : String) : Program Reply (Except String (Option Pod)) :=
  call (Statement.getPod reader name)

abbrev sleep (duration : Nat) : Program Reply Unit := call (Statement.sleep duration)

abbrev elapsed : Program Reply Nat := call Statement.elapsed

end Substrate

abbrev random : Program Reply UInt32 := call Statement.random

/-! ### Observing a pod -/

def settle (pod : Pod) : Program Reply (Except String Startup) :=
  match decodeStartup pod with
  | .resolved startup => .answer (.ok startup)
  | .configErrorPendingSecretCheck secretName =>
    (Substrate.secretExists secretName).attempt fun found =>
      .answer (.ok (if found then .neverStartedRecoverable else .neverStartedProvablyBroken))

def observePod (reader : Reader) (a : AgentIdentity) :
    Program Reply (Except String (Option VerifiedPod)) :=
  (Substrate.getPod reader a.podName).attempt fun
    | none => .answer (.ok none)
    | some pod => (settle pod).attempt fun startup => .answer (.ok (verify pod a startup))

def latestCondition (a : AgentIdentity) : Program Reply String :=
  (Substrate.getPod .other a.podName).bind fun
    | .ok (some pod) => .answer ((condition pod).getD "no condition reported by the cluster")
    | .ok none => .answer "the pod no longer exists"
    | .error e => .answer s!"the pod's condition could not be read: {e}"

/-- The error, with the latest condition. -/
def failWithCondition {τ : Type} (a : AgentIdentity) (text : String → String) :
    Program Reply (Except Stop τ) :=
  (latestCondition a).bind fun condition => .answer (.error (.error (text condition)))

/-- The next turn of a loop, after a while. -/
def sleepAndGoOn {α τ : Type} (a : α) : Program Reply (Except Stop (α ⊕ τ)) :=
  (Substrate.sleep pollInterval).bind fun _ => .answer (.ok (.inl a))

/-! ### Collecting what is left -/

/-- The names of pods that have terminated. -/
def terminatedNames : List Pod → Program Reply (Except String (List String))
  | [] => .answer (.ok [])
  | pod :: pods => (settle pod).attempt fun startup => (terminatedNames pods).attempt fun names =>
    .answer (.ok (if startup = .terminated then pod.metadata.name.toList ++ names else names))

/-- A pod of the plan is read again, and deleted. -/
def collectPod (name : String) : Program Reply (Except String Unit) :=
  (Substrate.getPod .other name).attempt fun
    | none => .answer (.ok ())
    | some pod =>
      match pod.metadata.uid, pod.metadata.resourceVersion with
      | some uid, some resourceVersion => (settle pod).attempt fun startup =>
        if startup ≠ .terminated then .answer (.ok ())
        else (Substrate.deletePod name ⟨uid, resourceVersion⟩).bind fun _ => .answer (.ok ())
      | _, _ => .answer (.ok ())

def collectPods : List String → Program Reply (Except String Unit)
  | [] => .answer (.ok ())
  | name :: names => (collectPod name).attempt fun _ => collectPods names

def collectSecrets : List String → Program Reply (Except String Unit)
  | [] => .answer (.ok ())
  | name :: names => (Substrate.deleteSecret name).bind fun _ => collectSecrets names

def tryPreflightGc (a : AgentIdentity) : Program Reply (Except String Unit) :=
  (Substrate.listPods a.selector).attempt fun (pods, serverNow) =>
  (Substrate.listSecrets a.selector).attempt fun secrets =>
  (terminatedNames pods).attempt fun terminated =>
  let gcPlan := plan a pods secrets
    (fun pod => pod.metadata.name.any terminated.contains) serverNow
  (collectPods gcPlan.pods).attempt fun _ => collectSecrets gcPlan.secrets

def preflightGc (a : AgentIdentity) : Program Reply Unit :=
  (tryPreflightGc a).bind fun _ => .answer ()

/-! ### Waiting and adopting -/

/-- A turn of the loop of `await_disappearance`. -/
def awaitTurn (name : String) : Program Reply (Except Stop (Unit ⊕ Unit)) :=
  Substrate.elapsed.bind fun elapsed =>
  if elapsed < deadline then
    ((Substrate.getPod .other name).mapError Stop.error).attempt fun
      | none => .answer (.ok (.inr ()))
      | some _ => sleepAndGoOn ()
  else
    .answer (.error (.error
      s!"timed out after {operationDeadlineSecs}s waiting for {name} to finish terminating"))

def awaitDisappearance (turns : Nat) (name : String) : Program Reply (Except Stop Unit) :=
  loop .unfinished (fun _ => awaitTurn name) turns ()

def secretIsReferenced (a : AgentIdentity) (secret : String) : Program Reply (Except String Bool) :=
  (Substrate.listPods a.selector).attempt fun (pods, _) =>
    .answer (.ok ((pods.filterMap referencedSecret).any fun name => name == secret))

def dropOwnSecret (a : AgentIdentity) (secret : String) : Program Reply Unit :=
  (secretIsReferenced a secret).bind fun
    | .ok false => (Substrate.deleteSecret secret).bind fun _ => .answer ()
    | .ok true => .answer ()
    | .error _ => .answer ()

def verifyWinner (a : AgentIdentity) (ownSecret : String) : Program Reply (Except Stop Unit) :=
  ((Substrate.getPod .other a.podName).mapError Stop.error).attempt fun
    | none => .answer (.ok ())
    | some pod => ((settle pod).mapError Stop.error).attempt fun startup =>
      if (verify pod a startup).isNone then
        (dropOwnSecret a ownSecret).bind fun _ => .answer (.error (.error
          (s!"a pod named {a.podName} already exists in this namespace but is not managed by " ++
            "this provider for this agent (it lacks the management marker or carries a different " ++
            "agent identity). Remove it, or deploy this agent to a different namespace.")))
      else .answer (.ok ())

/-- A turn of the loop of `adopt_winner`. -/
def adoptTurn (a : AgentIdentity) : Program Reply (Except Stop (Unit ⊕ String)) :=
  Substrate.elapsed.bind fun elapsed =>
  if deadline ≤ elapsed then
    failWithCondition a fun condition =>
      s!"startup not confirmed within {operationDeadlineSecs}s for {a.podName} (another deploy of " ++
        s!"this agent created it): {condition}"
  else
    ((observePod .adopting a).mapError Stop.error).attempt fun
      | none => sleepAndGoOn ()
      | some pod =>
        if pod.startup = .started then .answer (.ok (.inr pod.name))
        else if pod.deletionMarked then
          .answer (.error (.error
            (s!"{a.podName} was created by another deploy of this agent and is already being " ++
              "deleted; try again")))
        else if pod.startup = .terminated ∨ pod.startup = .neverStartedProvablyBroken then
          failWithCondition a fun condition =>
            s!"{a.podName} was created by another deploy of this agent and did not start: " ++
              condition
        else sleepAndGoOn ()

def adoptWinner (turns : Nat) (a : AgentIdentity) (ownSecret : String) :
    Program Reply (Except Stop String) :=
  (verifyWinner a ownSecret).attempt fun _ =>
  (dropOwnSecret a ownSecret).bind fun _ =>
  loop .unfinished (fun _ => adoptTurn a) turns ()

/-! ### The deploy -/

structure DeployRequest where
  identity : AgentIdentity
  cfg : ProviderConfig
  env : List (String × String)

/-- `Action::Create`. -/
def create (turns : Nat) (r : DeployRequest) (desired : String) :
    Program Reply (Except Stop (Bool ⊕ String)) :=
  random.bind fun n =>
  let generation := newGeneration n
  let secretName := r.identity.secretName generation
  let env := insertEnv startNonceKey generation r.env
  let secret := buildSecret r.identity r.cfg.namespaceName generation env
  ((Substrate.createSecret secret).mapError Stop.error).attempt fun _ =>
  let pod := buildPod r.identity r.cfg generation desired
  ((Substrate.createPod pod).mapError Stop.error).attempt fun
    | .created => sleepAndGoOn true
    | .alreadyExists =>
      (adoptWinner turns r.identity secretName).attempt fun name => .answer (.ok (.inr name))

/-- `Action::Delete`. -/
def replace (turns : Nat) (r : DeployRequest) (createdThisCall : Bool) (name : String)
    (fence : Fence) : Program Reply (Except Stop (Bool ⊕ String)) :=
  if createdThisCall then
    failWithCondition r.identity fun condition =>
      s!"{name} was created by this deploy and did not stay running: {condition}. Not retrying in " ++
        "this call — an immediate exit recurs until its cause is fixed. Check the agent's " ++
        "configuration and press Start to try again."
  else
    ((Substrate.deletePod name fence).mapError Stop.error).attempt fun
      | .preconditionFailed => sleepAndGoOn createdThisCall
      | _ => (awaitDisappearance turns name).attempt fun _ => .answer (.ok (.inl createdThisCall))

/-- What is to be done about a pod. -/
def act (turns : Nat) (r : DeployRequest) (desired : String) (createdThisCall : Bool) :
    Action → Program Reply (Except Stop (Bool ⊕ String))
  | .noOp agentId => .answer (.ok (.inr agentId))
  | .observe _ => sleepAndGoOn createdThisCall
  | .report name failure =>
    .answer (.error (.error s!"{name} did not start: {pullFailureMessage failure r.cfg.image}"))
  | .awaitDisappearance name =>
    (awaitDisappearance turns name).attempt fun _ => .answer (.ok (.inl createdThisCall))
  | .delete name fence => replace turns r createdThisCall name fence
  | .create => create turns r desired

/-- A turn of the loop of `deploy`. -/
def deployTurn (turns : Nat) (r : DeployRequest) (desired : String) (createdThisCall : Bool) :
    Program Reply (Except Stop (Bool ⊕ String)) :=
  Substrate.elapsed.bind fun elapsed =>
  if deadline ≤ elapsed then
    failWithCondition r.identity fun condition =>
      s!"startup not confirmed within {operationDeadlineSecs}s for {r.identity.podName}: {condition}"
  else
    ((observePod (.deploying createdThisCall) r.identity).mapError Stop.error).attempt
      fun observed => act turns r desired createdThisCall (classify observed desired)

def deploy (fingerprint : IntentTemplate → String) (turns : Nat) (r : DeployRequest) :
    Program Reply (Except Stop String) :=
  ((Substrate.ensureNamespace r.cfg.namespaceName).mapError Stop.error).attempt fun _ =>
  (preflightGc r.identity).bind fun _ =>
  let desired := fingerprint (intentTemplate r.cfg (r.env.map Prod.fst))
  loop .unfinished (deployTurn turns r desired) turns false

/-! ### A cluster -/

/-- The objects that match the selector of an agent, and the clock. -/
structure Cluster where
  pods : List Pod
  secrets : List Secret
  clock : Nat
  number : UInt32
  error : Option String

namespace Cluster

variable (s : Cluster)

def attempt {γ : Type} (r : Cluster × γ) : Cluster × Except String γ :=
  match s.error with
  | none => (r.1, .ok r.2)
  | some e => (s, .error e)

def pod (name : String) : Option Pod := s.pods.find? fun pod => pod.metadata.name == some name

/-- A pod is created, if there is none of its name. -/
def createPod (pod : Pod) : Cluster × CreateOutcome :=
  if s.pods.any fun p => p.metadata.name == pod.metadata.name then (s, .alreadyExists)
  else
    ({ s with
      pods := s.pods ++ [{ pod with
        metadata := { pod.metadata with
          uid := some (newGeneration s.number)
          resourceVersion := some "1" } }]
      number := s.number + 1 }, .created)

/-- A pod that has not changed is marked for deletion. -/
def deletePod (name : String) (fence : Fence) : Cluster × DeleteOutcome :=
  match s.pod name with
  | none => (s, .notFound)
  | some pod =>
    if pod.metadata.uid = some fence.uid ∧
        pod.metadata.resourceVersion = some fence.resourceVersion then
      ({ s with
        pods := s.pods.map fun p =>
          if p.metadata.name = some name then
            { p with metadata := { p.metadata with deletionTimestamp := some s.clock } }
          else p }, .accepted)
    else (s, .preconditionFailed)

def hasSecret (name : String) : Bool := s.secrets.any fun secret => secret.metadata.name == some name

end Cluster

def exec : (i : Statement) → Cluster → Cluster × Reply i
  | .ensureNamespace _, s => s.attempt (s, ())
  | .listPods _, s => s.attempt (s, (s.pods, none))
  | .listSecrets _, s => s.attempt (s, s.secrets)
  | .secretExists name, s => s.attempt (s, s.hasSecret name)
  | .createSecret secret, s => s.attempt ({ s with secrets := s.secrets ++ [secret] }, ())
  | .createPod pod, s => s.attempt (s.createPod pod)
  | .deletePod name fence, s => s.attempt (s.deletePod name fence)
  | .deleteSecret name, s => s.attempt
    ({ s with secrets := s.secrets.filter fun secret => secret.metadata.name != some name }, ())
  | .getPod _ name, s => s.attempt (s, s.pod name)
  | .sleep duration, s => ({ s with clock := s.clock + duration }, ())
  | .elapsed, s => (s, s.clock)
  | .random, s => ({ s with number := s.number + 1 }, s.number)

inductive Outside where
  | setPods (pods : List Pod)
  | setSecrets (secrets : List Secret)
  | pass (duration : Nat)
  | setError (error : Option String)

def outside : Outside → Cluster → Cluster
  | .setPods pods, s => { s with pods }
  | .setSecrets secrets, s => { s with secrets }
  | .pass duration, s => { s with clock := s.clock + duration }
  | .setError error, s => { s with error }

def semantics : Semantics Reply Cluster Outside := ⟨exec, outside⟩

end Buzz.Kubernetes
