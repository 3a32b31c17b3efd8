import Buzz.Db.Push.Wake
import Mathlib.Logic.Function.Basic

/-!
# The push delivery workers

`run_delivery_worker`: claim a batch of due wakes of one community, then deliver them one after
another. A delivery revalidates the claim, checks that the lease author is a member of the event's
channel, revalidates again, calls the gateway and finishes the claim. Every statement may fail, in
which case it has no effect, and a worker may stop anywhere.

A worker takes the wakes of its batch in the order in which Postgres returned them, which may be
any. Its clock need not agree with the database.
-/

namespace Buzz.Push

def claimSecs : Int := 30

def maxAttempts : Nat := 8

def claimLimit : Nat := 16

/-- `Utc::now() + TimeDelta::seconds(secs)`, which panics when it is out of range. -/
def afterSecs (utcNow secs : Int) : Option Int :=
  if seconds minUtcSecs ≤ utcNow + seconds secs ∧
      utcNow + seconds secs < seconds (maxUtcSecs + 1) then
    some (utcNow + seconds secs)
  else none

/-! ### The gateway's result -/

inductive DeliveryResponse where
  | accepted
  | invalidEndpoint (generation : Int) (invalidAt : Option Int)
  | retry (retryAfterSeconds : Option Int)
  deriving DecidableEq

/-- What the call of the gateway comes to. -/
inductive GatewayResult where
  /-- There is no delivery URL, or the request could not be signed: nothing is sent. -/
  | unsent
  /-- The gateway answered; `none` is a body that is not a `DeliveryResponse`. -/
  | answer (status : Nat) (body : Option DeliveryResponse)
  /-- The head of an answer came, and its body broke off or took too long. -/
  | cutOff (status : Nat)
  /-- The call timed out, or there was no connection. -/
  | unreachable
  /-- The call broke off in another way. -/
  | broken
  deriving DecidableEq

/-- An `UPDATE` of a delivery. -/
inductive Statement where
  | complete
  | retry (nextAttemptAt : Int)
  | fail
  | disableEndpoint (generation : Int)
  deriving DecidableEq

/-- `retry_or_fail`; `none` when the time of the next attempt is out of range. -/
def retryOrFail (wake : ClaimedWake) (utcNow delay : Int) : Option (List Statement) :=
  if wake.attempt ≥ maxAttempts then some [.fail]
  else
    (afterSecs utcNow ((delay * 2 ^ min (wake.attempt - 1) 6).bmod (2 ^ 64))).map fun t =>
      [.retry t]

/-- The delay that a `503` asks for. -/
def retryDelay : Option DeliveryResponse → Int
  | some (.retry (some secs)) => if secs > 0 then secs else 2
  | _ => 2

/-- What `deliver_one` does with an answer; the body is `none` unless it is read as a response. -/
def answered (wake : ClaimedWake) (utcNow : Int) (status : Nat) (body : Option DeliveryResponse) :
    Option (List Statement) :=
  if 200 ≤ status ∧ status < 300 then
    match body with
    | some .accepted => some [.complete]
    | _ => some [.fail]
  else if status = 410 then
    match body with
    | some (.invalidEndpoint generation _) =>
      if generation = wake.leaseGeneration then some [.disableEndpoint generation, .fail]
      else some [.fail]
    | _ => some [.fail]
  else if status = 503 then retryOrFail wake utcNow (retryDelay body)
  else if status = 429 then retryOrFail wake utcNow 2
  -- A timed-out terminal attempt burns the request id; its replay is answered like this.
  else if status = 404 ∧ wake.attempt > 1 then some [.complete]
  else some [.fail]

/-- What `deliver_one` does after the gateway call; `none` when it panics. -/
def disposition (wake : ClaimedWake) (utcNow : Int) : GatewayResult → Option (List Statement)
  | .unsent => some []
  | .answer status body => answered wake utcNow status body
  | .cutOff status => answered wake utcNow status none
  | .unreachable => retryOrFail wake utcNow 2
  | .broken => some [.fail]

/-! ### Workers -/

/-- The await points of a worker. -/
inductive Phase where
  | idle
  | revalidate (wake : ClaimedWake)
  | membership (wake : ClaimedWake) (channel : Uuid)
  | revalidateAgain (wake : ClaimedWake)
  | send (wake : ClaimedWake)
  | finish (wake : ClaimedWake) (todo : List Statement)
  deriving DecidableEq

/-- The wakes that a worker has claimed, and where it stands. -/
structure Worker where
  batch : List ClaimedWake
  phase : Phase

def Worker.stopped : Worker := ⟨[], .idle⟩

/-- The delivery goes on with these statements. -/
def Phase.todo (wake : ClaimedWake) : List Statement → Phase
  | [] => .idle
  | s :: todo => .finish wake (s :: todo)

/-- A step of a worker. -/
inductive WorkerAction where
  /-- Claim a batch, with the worker's clock and the rows that are locked by others. -/
  | claim (community : CommunityId) (claimId : Uuid) (utcNow : Int) (skipped : List Uuid)
  | begin (wake : ClaimedWake)
  | query
  | queryFails (utcNow : Int)
  | gateway (wake : ClaimedWake) (result : GatewayResult) (utcNow : Int)
  | update
  | updateFails
  | stop

/-- What others do to the tables. -/
inductive Environment where
  | tick (now : Int)
  | replaceLease (row : LeaseRow)
  | insertEvent (row : SourceEvent)
  | deleteEvent (community : CommunityId) (id : EventId)
  | members (rows : List (CommunityId × Uuid × PublicKey))
  | enqueue (row : WakeRow)
  | prune (community : CommunityId) (before : Int) (queued : List EventId)

/-- A step of a worker, or of others. -/
inductive DeliveryAction where
  | worker (i : Nat) (a : WorkerAction)
  | environment (e : Environment)

/-- The tables with the workers. -/
structure DeliveryWorld where
  now : Int
  tables : WakeTables
  workers : Nat → Worker
  drawn : List Uuid

def DeliveryWorld.set (w : DeliveryWorld) (i : Nat) (u : Worker) : DeliveryWorld :=
  { w with workers := Function.update w.workers i u }

def DeliveryWorld.proceed (w : DeliveryWorld) (i : Nat) (phase : Phase) : DeliveryWorld :=
  w.set i ⟨(w.workers i).batch, phase⟩

def DeliveryWorld.revalidated (w : DeliveryWorld) (wake : ClaimedWake)
    (next : ClaimedWake → Phase) : Phase :=
  match revalidateWakeForSend w.tables w.now wake.key wake.claimId with
  | some current => next current
  | none => .finish wake [.fail]

/-- The phase after the first revalidation. -/
def checkMembership (wake : ClaimedWake) : Phase :=
  match wake.channelId with
  | some channel => .membership wake channel
  | none => .revalidateAgain wake

/-- The phase after a query, when one is next. -/
def DeliveryWorld.answered (w : DeliveryWorld) : Phase → Option Phase
  | .revalidate wake => some (w.revalidated wake checkMembership)
  | .membership wake channel =>
    some (if w.tables.isMember wake.community channel wake.author then .revalidateAgain wake
      else .finish wake [.fail])
  | .revalidateAgain wake => some (w.revalidated wake .send)
  | _ => none

/-- The tables after a statement of a delivery. -/
def Statement.apply (wake : ClaimedWake) : Statement → WakeTables → WakeTables
  | .complete => completeWake wake.key wake.claimId
  | .retry nextAttemptAt => retryWake wake.key wake.claimId nextAttemptAt
  | .fail => failWake wake.key wake.claimId
  | .disableEndpoint generation =>
    disableEndpointGeneration ⟨wake.community, wake.author, wake.installationId⟩ generation

def DeliveryWorld.workerStep (w : DeliveryWorld) (i : Nat) : WorkerAction → Option DeliveryWorld
  | .claim community claimId utcNow skipped =>
    if (w.workers i).phase = .idle ∧ (w.workers i).batch = [] ∧ !w.drawn.contains claimId then
      let claimed := claimDueWakes community claimLimit claimId (utcNow + seconds claimSecs) w.now
        skipped w.tables
      some { w with
        tables := claimed.1
        workers := Function.update w.workers i ⟨claimed.2, .idle⟩
        drawn := claimId :: w.drawn }
    else none
  | .begin wake =>
    if (w.workers i).phase = .idle ∧ (w.workers i).batch.contains wake then
      some (w.set i ⟨(w.workers i).batch.erase wake, .revalidate wake⟩)
    else none
  | .query => (w.answered (w.workers i).phase).map (w.proceed i)
  | .queryFails utcNow =>
    match (w.workers i).phase with
    | .revalidate _ => some (w.proceed i .idle)
    | .membership wake _ =>
      match afterSecs utcNow 2 with
      | some t => some (w.proceed i (.finish wake [.retry t]))
      | none => some (w.set i .stopped)
    | .revalidateAgain _ => some (w.proceed i .idle)
    | _ => none
  | .gateway wake result utcNow =>
    if (w.workers i).phase = .send wake then
      match disposition wake utcNow result with
      | some todo => some (w.proceed i (.todo wake todo))
      | none => some (w.set i .stopped)
    else none
  | .update =>
    match (w.workers i).phase with
    | .finish wake (s :: todo) =>
      some ({ w with tables := s.apply wake w.tables }.proceed i (.todo wake todo))
    | _ => none
  | .updateFails =>
    match (w.workers i).phase with
    | .finish wake (_ :: todo) => some (w.proceed i (.todo wake todo))
    | _ => none
  | .stop => some (w.set i .stopped)

def WakeRow.fresh (r : WakeRow) : Bool :=
  r.state == .pending && r.attempts == 0 && r.leaseUntil.isNone && r.claimId.isNone

/-- The tables after a step of somebody else. -/
def Environment.apply (now : Int) (t : WakeTables) : Environment → Option WakeTables
  | .tick _ => some t
  | .replaceLease row =>
    if row.check ∧ (t.lease row.address).all fun l => decide (l.generation < row.generation) then
      some { t with leases := row :: t.leases.filter fun l => l.address != row.address }
    else none
  | .insertEvent row => some { t with events := row :: t.events }
  | .deleteEvent community id =>
    some { t with
      events := t.events.map fun e =>
        if e.community == community && e.id == id && e.deletedAt.isNone then
          { e with deletedAt := some now }
        else e }
  | .members rows => some { t with members := rows }
  | .enqueue row =>
    if row.fresh ∧ t.outbox.all fun r => r.key != row.key && !(r.community == row.community &&
        r.endpointHash == row.endpointHash && r.eventId == row.eventId) then
      some { t with outbox := row :: t.outbox }
    else none
  | .prune community before queued => some (pruneWakeOutbox community before now queued t)

/-- The clock after a step of somebody else. -/
def Environment.clock (now : Int) : Environment → Option Int
  | .tick later => if now ≤ later then some later else none
  | _ => some now

structure DeliveryWorld.Initial (w : DeliveryWorld) : Prop where
  keys : (w.tables.outbox.map WakeRow.key).Nodup
  stopped : ∀ i, w.workers i = .stopped
  drawn : ∀ k r c, w.tables.wake k = some r → r.claimId = some c → c ∈ w.drawn

/-- Workers, lease replacements, deletions, membership changes and time, in any interleaving. -/
def delivery : StateMachine DeliveryWorld DeliveryAction where
  Init := DeliveryWorld.Initial
  step w
    | .worker i a => w.workerStep i a
    | .environment e =>
      (e.clock w.now).bind fun now => (e.apply w.now w.tables).map fun tables =>
        { w with
          now := now
          tables := tables }

end Buzz.Push
