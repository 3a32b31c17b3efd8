import Buzz.Lib.StateMachine
import Buzz.Workflow.Schedule
import Mathlib.Logic.Function.Basic

/-!
# The scheduler loop

Any number of pods, each with its own memory and clock, and the tables they share. A tick reads the
clock, loads the workflows, and goes through them one by one: it resolves the instant, claims it in
the database, creates the run, and links the claim to it. Between any two of these the other pods
take their steps, and a pod may restart, which empties its memory.

A statement that fails may have taken effect when it is the claim; a run whose insertion fails is
not there. What the database holds of workflows, whether an anchor can be read, and whether the
owner is still allowed, are up to the environment.
-/

namespace Buzz.Workflow

inductive TriggerDef where
  | schedule (cron interval : Option String)
  | other
  deriving DecidableEq

/-- What the scheduler reads of a `WorkflowDef`. -/
structure WorkflowDef where
  enabled : Bool
  trigger : TriggerDef
  deriving DecidableEq

/-- A row of `list_all_enabled_workflows`. -/
structure WorkflowRecord where
  key : Key
  channelId : Option Uuid
  definition : Option WorkflowDef
  deriving DecidableEq

inductive TriggerType where
  | cron
  | interval
  deriving DecidableEq

/-- A row of `scheduled_workflow_fires`. -/
structure Fire where
  key : Key
  scheduledFor : DateTime
  workflowRunId : Option Uuid

/-- A row of `workflow_runs`, with the instant it was created for. -/
structure Run where
  id : Uuid
  key : Key
  scheduledFor : DateTime
  /-- The tick's reading of the clock, which the run carries as its timestamp. -/
  timestamp : DateTime

/-- `claim_scheduled_workflow_fire`, for a workflow that exists: the rows, and whether this call
inserted one. -/
def claimScheduledWorkflowFire (fires : List Fire) (key : Key) (scheduledFor : DateTime) :
    List Fire × Bool :=
  if fires.any fun f => f.key == key && f.scheduledFor == scheduledFor then (fires, false)
  else (⟨key, scheduledFor, none⟩ :: fires, true)

/-- `latest_scheduled_workflow_fire`: the greatest instant claimed. -/
def latestScheduledWorkflowFire (key : Key) : List Fire → Option DateTime
  | [] => none
  | f :: fires =>
    let rest := latestScheduledWorkflowFire key fires
    if f.key = key then
      match rest with
      | none => some f.scheduledFor
      | some t => some (if t.nanos ≤ f.scheduledFor.nanos then f.scheduledFor else t)
    else rest

def attachScheduledWorkflowRun (fires : List Fire) (key : Key) (scheduledFor : DateTime)
    (runId : Uuid) : List Fire :=
  fires.map fun f =>
    if f.key = key ∧ f.scheduledFor = scheduledFor ∧ f.workflowRunId = none then
      { f with workflowRunId := some runId }
    else f

/-- The instant that a tick at `now` fires a workflow for, if any, and the anchors afterwards;
`latest` answers the read of the durable anchor, `none` when it fails. -/
def resolve (lib : CronLib) (lastFired : LastFired) (latest : Option (Option DateTime))
    (now : DateTime) (w : WorkflowRecord) : LastFired × Option (DateTime × TriggerType) :=
  match w.definition, w.channelId with
  | some ⟨true, .schedule (some expr) none⟩, some _ =>
    (lastFired, (cronFireInstant lib expr now 60).map fun instant => (instant, .cron))
  | some ⟨true, .schedule none (some dur)⟩, some _ =>
    let last := (lastFired w.key).or latest.join
    match intervalPrefilterShouldFire lastFired w.key dur last now with
    | (true, lastFired) =>
      (lastFired, (intervalFireInstant dur now).map fun instant => (instant, .interval))
    | (false, lastFired) => (lastFired, none)
  | _, _ => (lastFired, none)

/-- A tick: its reading of the clock, the workflows it loaded, and those it has not looked at. -/
structure Scan where
  now : DateTime
  workflows : List WorkflowRecord
  rest : List WorkflowRecord
  deriving DecidableEq

/-- A fire that is due. -/
structure Due where
  key : Key
  scheduledFor : DateTime
  trigger : TriggerType
  deriving DecidableEq

/-- The await points of a pod. -/
inductive Phase where
  | sleeping
  | scanning (scan : Scan)
  | due (scan : Scan) (due : Due)
  | claimed (scan : Scan) (due : Due)
  | created (scan : Scan) (due : Due) (runId : Uuid)
  deriving DecidableEq

/-- What a pod has in memory. -/
structure Pod where
  lastFired : LastFired
  phase : Phase

def Pod.start : Pod := ⟨fun _ => none, .sleeping⟩

/-- The pods and the tables they share. -/
structure World where
  pods : Nat → Pod
  fires : List Fire
  runs : List Run

/-- The answer to a claim, as the pod sees it. -/
inductive ClaimAnswer where
  | answered (present : Bool)
  | failed (inserted : Bool)

/-- A step of a pod. -/
inductive Action where
  /-- A tick: the reading of the clock, and the workflows, or `none` when loading fails. -/
  | tick (pod : Nat) (now : DateTime) (loaded : Option (List WorkflowRecord))
  /-- The pod looks at the next workflow; `readable` if the durable anchor can be read. -/
  | resolve (pod : Nat) (readable : Bool)
  | finish (pod : Nat)
  | claim (pod : Nat) (authorized : Bool) (answer : ClaimAnswer)
  | create (pod : Nat) (runId : Option Uuid)
  /-- The pod links the claim to the run, or fails to, and sets the anchor. -/
  | attach (pod : Nat) (attached : Bool)
  | restart (pod : Nat)

def Action.pod : Action → Nat
  | .tick pod _ _ | .resolve pod _ | .finish pod | .claim pod _ _ | .create pod _ | .attach pod _
  | .restart pod => pod

namespace World

variable (w : World)

def setPod (pod : Nat) (p : Pod) : World := { w with pods := Function.update w.pods pod p }

/-- The pod sets the anchor of an interval workflow, and goes on to the next workflow. -/
def advance (pod : Nat) (scan : Scan) (due : Due) : World :=
  let p := w.pods pod
  w.setPod pod
    { lastFired := match due.trigger with
        | .interval => p.lastFired.insert due.key scan.now
        | .cron => p.lastFired
      phase := .scanning scan }

/-- The pod skips to the next workflow. -/
def skip (pod : Nat) (scan : Scan) : World :=
  w.setPod pod { w.pods pod with phase := .scanning scan }

def claim (pod : Nat) (scan : Scan) (due : Due) : ClaimAnswer → World
  | .answered true =>
    match claimScheduledWorkflowFire w.fires due.key due.scheduledFor with
    | (fires, true) =>
      { w with fires := fires }.setPod pod { w.pods pod with phase := .claimed scan due }
    | (_, false) => w.advance pod scan due
  | .answered false => w.advance pod scan due
  | .failed true =>
    { w with fires := (claimScheduledWorkflowFire w.fires due.key due.scheduledFor).1 }.skip pod scan
  | .failed false => w.skip pod scan

def create (pod : Nat) (scan : Scan) (due : Due) : Option Uuid → World
  | some runId =>
    { w with runs := ⟨runId, due.key, due.scheduledFor, scan.now⟩ :: w.runs }.setPod pod
      { w.pods pod with phase := .created scan due runId }
  | none => w.skip pod scan

def step (lib : CronLib) : Action → Option World
  | .tick pod now loaded =>
    match (w.pods pod).phase, loaded with
    | .sleeping, some workflows => some (w.skip pod ⟨now, workflows, workflows⟩)
    | .sleeping, none => some w
    | _, _ => none
  | .resolve pod readable =>
    match (w.pods pod).phase with
    | .scanning ⟨now, workflows, next :: rest⟩ =>
      let latest := if readable then some (latestScheduledWorkflowFire next.key w.fires) else none
      match resolve lib (w.pods pod).lastFired latest now next with
      | (lastFired, some (instant, trigger)) =>
        some (w.setPod pod ⟨lastFired, .due ⟨now, workflows, rest⟩ ⟨next.key, instant, trigger⟩⟩)
      | (lastFired, none) => some (w.setPod pod ⟨lastFired, .scanning ⟨now, workflows, rest⟩⟩)
    | _ => none
  | .finish pod =>
    match (w.pods pod).phase with
    | .scanning ⟨_, workflows, []⟩ =>
      some (w.setPod pod
        { lastFired := fun key =>
            if key ∈ workflows.map WorkflowRecord.key then (w.pods pod).lastFired key else none
          phase := .sleeping })
    | _ => none
  | .claim pod authorized answer =>
    match (w.pods pod).phase with
    | .due scan due =>
      if authorized then some (w.claim pod scan due answer) else some (w.skip pod scan)
    | _ => none
  | .create pod runId =>
    match (w.pods pod).phase with
    | .claimed scan due => some (w.create pod scan due runId)
    | _ => none
  | .attach pod attached =>
    match (w.pods pod).phase with
    | .created scan due runId =>
      let fires := if attached then
        attachScheduledWorkflowRun w.fires due.key due.scheduledFor runId else w.fires
      some ({ w with fires := fires }.advance pod scan due)
    | _ => none
  | .restart pod => some (w.setPod pod Pod.start)

end World

/-- The scheduler: pods that have just started, and empty tables. -/
def scheduler (lib : CronLib) : StateMachine World Action where
  Init w := w = ⟨fun _ => Pod.start, [], []⟩
  step w := w.step lib

end Buzz.Workflow
