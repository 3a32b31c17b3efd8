import Buzz.Core.Basic
import Buzz.Lib.KeyMap
import Mathlib.Data.Finset.Basic
import Mathlib.Data.List.Sort

/-!
# The event queue of the ACP harness

Per-channel queues of events with per-channel in-flight tracking. A flush picks the channel with the
oldest pending event and drains up to fifty of its events into one batch; the channel is then in
flight until the batch is completed, handed back, or its deadline passes. Three side stores hold
events that are not in a queue: batches of cancelled turns, events withheld while a native steer is
in flight, and the batches that were handed out, which the queue does not keep.

Clock readings are arguments, in nanoseconds. So is the random part of the retry delay. Where the
source takes the first match while iterating a hash map, the choice is an argument, and the function
is defined on the choices that some iteration order makes.
-/

namespace Buzz.Acp

/-- Maximum events queued per channel. -/
def maxPendingPerChannel : Nat := 500

/-- Maximum events drained into a single batch. -/
def maxBatchEvents : Nat := 50

/-- Maximum retry attempts before a batch is dead-lettered. -/
def maxRetries : Nat := 10

def baseRetryDelaySecs : Nat := 5

/-- Cap on the retry delay in seconds. -/
def maxRetryDelaySecs : Nat := 300

/-- Buffer added to the maximal turn duration to derive the in-flight deadline, in seconds. -/
def inFlightDeadlineBufferSecs : Nat := 100

def defaultInFlightDeadlineSecs : Nat := 7300

/-- Seconds as nanoseconds. -/
def fromSecs (n : Nat) : Nat := n * 1000000000

/-- An event of a batch. -/
structure BatchEvent where
  event : Event
  promptTag : String
  receivedAt : Nat
  deriving DecidableEq

/-- An event of a channel's queue. -/
structure QueuedEvent where
  channelId : Uuid
  event : Event
  receivedAt : Nat
  promptTag : String
  deriving DecidableEq

/-- A queued event, as it goes into a batch. -/
def QueuedEvent.toBatchEvent (qe : QueuedEvent) : BatchEvent :=
  ⟨qe.event, qe.promptTag, qe.receivedAt⟩

/-- A batch event, as it goes back into the queue of a channel. -/
def BatchEvent.toQueuedEvent (channelId : Uuid) (be : BatchEvent) : QueuedEvent :=
  ⟨channelId, be.event, be.receivedAt, be.promptTag⟩

/-- Why a batch was cancelled. -/
inductive CancelReason where
  | interrupt
  | steer
  deriving DecidableEq

/-- What happens to events for a channel in flight. -/
inductive DedupMode where
  | drop
  | queue
  deriving DecidableEq

/-- A batch of events to prompt the agent with. -/
structure FlushBatch where
  channelId : Uuid
  events : List BatchEvent
  cancelledEvents : List BatchEvent
  cancelReason : Option CancelReason
  deriving DecidableEq

/-- The queues, the batches in flight, retries and cancelled batches, by channel. -/
structure EventQueue where
  queues : AList fun _ : Uuid => List QueuedEvent
  inFlightChannels : Finset Uuid
  inFlightDeadlines : AList fun _ : Uuid => Nat
  inFlightBatchSizes : AList fun _ : Uuid => Nat
  retryAfter : AList fun _ : Uuid => Nat
  retryCounts : AList fun _ : Uuid => Nat
  dedupMode : DedupMode
  cancelledBatches : AList fun _ : Uuid => List BatchEvent
  cancelReasons : AList fun _ : Uuid => CancelReason
  withheldNativeSteer : AList fun _ : Uuid => List QueuedEvent
  inFlightDeadline : Nat

namespace EventQueue

/-- `EventQueue::new`. -/
def new (dedupMode : DedupMode) : EventQueue :=
  ⟨∅, ∅, ∅, ∅, ∅, ∅, dedupMode, ∅, ∅, ∅, fromSecs defaultInFlightDeadlineSecs⟩

variable (q : EventQueue)

/-- Extend an existing in-flight deadline; it never moves backward. -/
def extendInFlightDeadline (channelId : Uuid) (maxTurnSecs now : Nat) : EventQueue :=
  match q.inFlightDeadlines.lookup channelId with
  | none => q
  | some current =>
    let extended := now + fromSecs (maxTurnSecs + inFlightDeadlineBufferSecs)
    if current < extended then
      { q with inFlightDeadlines := q.inFlightDeadlines.insert channelId extended }
    else q

/-- Push an event into the queue of its channel; `false` if it was dropped. -/
def push (event : QueuedEvent) : EventQueue × Bool :=
  if q.dedupMode = .drop ∧ event.channelId ∈ q.inFlightChannels then (q, false)
  else
    let queue := listAt q.queues event.channelId
    -- the depth cap drops the oldest event to make room
    let queue := if maxPendingPerChannel ≤ queue.length then queue.tail else queue
    ({ q with queues := q.queues.insert event.channelId (queue ++ [event]) }, true)

/-! ### Expiry of in-flight entries -/

/-- Put events at the front of a channel's queue, and trim the back to the cap. -/
def pushFront (channelId : Uuid) (events : List QueuedEvent) : EventQueue :=
  { q with
    queues := q.queues.insert channelId
      ((events ++ listAt q.queues channelId).take maxPendingPerChannel) }

/-- `recover_withheld_for_expired_channel`. -/
def recoverWithheld (channelId : Uuid) : EventQueue :=
  match q.withheldNativeSteer.lookup channelId with
  | none => q
  | some entries =>
    { q with withheldNativeSteer := q.withheldNativeSteer.erase channelId }.pushFront channelId
      entries

/-- Release one in-flight entry that missed `mark_complete`. -/
def expireOne (id : Uuid) : EventQueue :=
  { q with
    inFlightBatchSizes := q.inFlightBatchSizes.erase id
    inFlightChannels := q.inFlightChannels.erase id
    inFlightDeadlines := q.inFlightDeadlines.erase id }.recoverWithheld id

/-- The in-flight entries whose deadline has passed. -/
def expiredChannels (now : Nat) : List Uuid :=
  (q.inFlightDeadlines.entries.filter fun e => e.2 ≤ now).map Sigma.fst

/-- The expiry block of `flush_next` and `has_flushable_work`. -/
def expire (now : Nat) : EventQueue := (q.expiredChannels now).foldl expireOne q

/-! ### Flushing -/

/-- Is a channel with this queue ready to be flushed? -/
def isReady (now : Nat) (id : Uuid) (queue : List QueuedEvent) : Bool :=
  !queue.isEmpty && decide (id ∉ q.inFlightChannels) &&
    (q.retryAfter.lookup id).all fun t => decide (t ≤ now)

def readyChannels (now : Nat) : List Uuid :=
  (q.queues.entries.filter fun e => q.isReady now e.1 e.2).map Sigma.fst

/-- When the head event of a channel with a queue was received. -/
def headReceivedAt (id : Uuid) : Nat :=
  ((listAt q.queues id).head?.map QueuedEvent.receivedAt).getD 0

/-- The ready channels whose head event is oldest. -/
def oldestReady (now : Nat) : List Uuid :=
  (q.readyChannels now).filter fun c =>
    (q.readyChannels now).all fun d => decide (q.headReceivedAt c ≤ q.headReceivedAt d)

/-- The channels with cancelled events and nothing in flight. -/
def waitingCancelled : List Uuid := q.cancelledBatches.keys.filter fun id => id ∉ q.inFlightChannels

def markInFlight (id : Uuid) (now size : Nat) : EventQueue :=
  { q with
    inFlightChannels := insert id q.inFlightChannels
    inFlightDeadlines := q.inFlightDeadlines.insert id (now + q.inFlightDeadline)
    inFlightBatchSizes := q.inFlightBatchSizes.insert id size }

/-- Dispatch the cancelled events of a channel unchanged. -/
def flushCancelled (now : Nat) (id : Uuid) : EventQueue × FlushBatch :=
  let cancelled := listAt q.cancelledBatches id
  ({ q with
      cancelledBatches := q.cancelledBatches.erase id
      cancelReasons := q.cancelReasons.erase id }.markInFlight id now cancelled.length,
    ⟨id, cancelled, [], q.cancelReasons.lookup id⟩)

/-- Sort by `created_at`, keeping the order of events of the same second. -/
def sortByCreatedAt (events : List BatchEvent) : List BatchEvent :=
  events.insertionSort fun a b => a.event.createdAt ≤ b.event.createdAt

/-- Drain the queue of a channel into a batch, and merge its cancelled events. -/
def flushQueued (now : Nat) (channelId : Uuid) : EventQueue × FlushBatch :=
  let queue := listAt q.queues channelId
  let events := sortByCreatedAt ((queue.take maxBatchEvents).map QueuedEvent.toBatchEvent)
  let rest := queue.drop maxBatchEvents
  let cancelledEvents := listAt q.cancelledBatches channelId
  ({ q with
      queues := if rest = [] then q.queues.erase channelId else q.queues.insert channelId rest
      cancelledBatches := q.cancelledBatches.erase channelId
      cancelReasons := q.cancelReasons.erase channelId }.markInFlight channelId now events.length,
    ⟨channelId, events, cancelledEvents,
      if cancelledEvents = [] then none else q.cancelReasons.lookup channelId⟩)

/-- Flush the next batch. The choice is the channel that the iteration comes upon first, among those
with the oldest head event, or among those with cancelled events if no queue is ready. -/
def flushNext (now : Nat) (choice : Uuid) : Option (EventQueue × Option FlushBatch) :=
  let q := q.expire now
  if q.readyChannels now = [] then
    if q.waitingCancelled = [] then some (q, none)
    else if choice ∈ q.waitingCancelled then
      some ((q.flushCancelled now choice).1, some (q.flushCancelled now choice).2)
    else none
  else if choice ∈ q.oldestReady now then
    some ((q.flushQueued now choice).1, some (q.flushQueued now choice).2)
  else none

/-- Is there anything to flush? Also expires stuck in-flight entries. -/
def hasFlushableWork (now : Nat) : EventQueue × Bool :=
  let q := q.expire now
  (q, !(q.readyChannels now).isEmpty || !q.waitingCancelled.isEmpty)

/-! ### Completion and hand-back -/

/-- Mark the prompt of a channel as complete. An active throttle keeps the retry count. -/
def markComplete (channelId : Uuid) (now : Nat) : EventQueue :=
  let q := { q with
    inFlightChannels := q.inFlightChannels.erase channelId
    inFlightDeadlines := q.inFlightDeadlines.erase channelId
    inFlightBatchSizes := q.inFlightBatchSizes.erase channelId }
  match q.retryAfter.lookup channelId with
  | some deadline =>
    if now < deadline then q
    else { q with
      retryAfter := q.retryAfter.erase channelId
      retryCounts := q.retryCounts.erase channelId }
  | none => { q with retryCounts := q.retryCounts.erase channelId }

/-- The attempt that handing back a batch of this channel would be. -/
def nextAttempt (channelId : Uuid) : Nat := (q.retryCounts.lookup channelId).getD 0 + 1

/-- The backoff before jitter, in seconds. -/
def cappedRetrySecs (attempt : Nat) : Nat :=
  Nat.min (baseRetryDelaySecs * (1 <<< Nat.min (attempt - 1) 6)) maxRetryDelaySecs

/-- Is this a backoff with its jitter of twenty percent either way? -/
def isRetryDelay (attempt delay : Nat) : Bool :=
  decide (8 * fromSecs (cappedRetrySecs attempt) ≤ 10 * delay) &&
    decide (10 * delay ≤ 12 * fromSecs (cappedRetrySecs attempt))

/-- Requeue a batch that failed, with a delay; after too many attempts give it back instead. -/
def requeue (batch : FlushBatch) (now delay : Nat) : EventQueue × Option FlushBatch :=
  let attempt := q.nextAttempt batch.channelId
  if maxRetries < attempt then
    ({ q with
        retryCounts := q.retryCounts.erase batch.channelId
        retryAfter := q.retryAfter.erase batch.channelId }, some batch)
  else
    let q := { q with retryCounts := q.retryCounts.insert batch.channelId attempt }
    let q := q.pushFront batch.channelId
      (batch.events.map fun be => be.toQueuedEvent batch.channelId)
    ({ q with retryAfter := q.retryAfter.insert batch.channelId (now + delay) }, none)

/-- Requeue a batch for which no agent was available. -/
def requeuePreserveTimestamps (batch : FlushBatch) : EventQueue :=
  q.pushFront batch.channelId (batch.events.map fun be => be.toQueuedEvent batch.channelId)

/-- Store the events of a cancelled batch for the next one. -/
def requeueAsCancelled (batch : FlushBatch) (reason : CancelReason) : EventQueue :=
  { q with
    cancelledBatches := q.cancelledBatches.insert batch.channelId
      (listAt q.cancelledBatches batch.channelId ++ batch.cancelledEvents ++ batch.events)
    cancelReasons := q.cancelReasons.insert batch.channelId reason }

/-! ### Draining and native steers -/

/-- Does an event have this id in hexadecimal? -/
def hasId (eventId : String) (qe : QueuedEvent) : Bool := toHex qe.event.id == eventId

/-- Put a list back under a key, or drop the key with an empty list. -/
def putBack {α : Type} (m : AList fun _ : Uuid => List α) (channelId : Uuid) (l : List α) :
    AList fun _ : Uuid => List α :=
  if l = [] then m.erase channelId else m.insert channelId l

theorem listAt_putBack {α : Type} (m : AList fun _ : Uuid => List α) (channelId : Uuid) (l : List α)
    (other : Uuid) :
    listAt (putBack m channelId l) other = if other = channelId then l else listAt m other := by
  rw [putBack]
  by_cases hother : other = channelId
  · subst hother
    split
    · next hnil => rw [if_pos rfl, hnil, listAt_erase_self]
    · rw [if_pos rfl, listAt_insert_self]
  · rw [if_neg hother]
    split
    · exact listAt_erase_of_ne m hother
    · exact listAt_insert_of_ne m hother l

/-- Drop all queued events of a channel, reporting their ids. -/
def drainChannel (channelId : Uuid) : EventQueue × List String :=
  ({ q with
      queues := q.queues.erase channelId
      retryAfter := q.retryAfter.erase channelId
      retryCounts := q.retryCounts.erase channelId
      cancelledBatches := q.cancelledBatches.erase channelId
      cancelReasons := q.cancelReasons.erase channelId
      withheldNativeSteer := q.withheldNativeSteer.erase channelId },
    (listAt q.queues channelId).map fun qe => toHex qe.event.id)

/-- Move a queued event into the side table while a native steer is in flight. -/
def markNativeSteerPending (channelId : Uuid) (eventId : String) : EventQueue × Bool :=
  match (listAt q.queues channelId).find? (hasId eventId) with
  | none => (q, false)
  | some qe =>
    ({ q with
        queues := putBack q.queues channelId
          ((listAt q.queues channelId).eraseP (hasId eventId))
        withheldNativeSteer := q.withheldNativeSteer.insert channelId
          (listAt q.withheldNativeSteer channelId ++ [qe]) }, true)

/-- Release a withheld event to the front of its queue. -/
def releaseNativeSteer (channelId : Uuid) (eventId : String) : EventQueue :=
  match (listAt q.withheldNativeSteer channelId).find? (hasId eventId) with
  | none => q
  | some qe =>
    { q with
      withheldNativeSteer := putBack q.withheldNativeSteer channelId
        ((listAt q.withheldNativeSteer channelId).eraseP (hasId eventId)) }.pushFront channelId [qe]

/-- Drop an event from the side table and from the queue. -/
def removeEvent (channelId : Uuid) (eventId : String) : EventQueue :=
  let kept (m : AList fun _ : Uuid => List QueuedEvent) :=
    putBack m channelId ((listAt m channelId).filter fun qe => !hasId eventId qe)
  { q with withheldNativeSteer := kept q.withheldNativeSteer, queues := kept q.queues }

/-- Drop throttles that have passed, and retry counts of idle channels. -/
def compactExpiredState (now : Nat) : EventQueue :=
  let retryAfter := ((q.retryAfter.entries.filter fun e => now < e.2)).toAList
  let isBusy (ch : Uuid) : Bool :=
    decide (ch ∈ retryAfter) || !(listAt q.queues ch).isEmpty || decide (ch ∈ q.inFlightChannels)
  { q with
    retryAfter := retryAfter
    retryCounts := (q.retryCounts.entries.filter fun e => isBusy e.1).toAList }

/-! ### What completion does to the throttle -/

theorem lookup_retryAfter_markComplete (channelId : Uuid) (now : Nat) (other : Uuid) :
    (q.markComplete channelId now).retryAfter.lookup other =
      if other = channelId then (q.retryAfter.lookup channelId).filter fun t => decide (now < t)
      else q.retryAfter.lookup other := by
  rw [markComplete]
  by_cases hother : other = channelId
  · subst hother
    cases hlookup : q.retryAfter.lookup other with
    | none => simp [hlookup]
    | some deadline =>
      by_cases hactive : now < deadline <;> simp [hactive, hlookup, Option.filter]
  · cases hlookup : q.retryAfter.lookup channelId with
    | none => simp [hother]
    | some deadline =>
      by_cases hactive : now < deadline <;> simp [hactive, hother, AList.lookup_erase_ne hother]

theorem lookup_retryCounts_markComplete (channelId : Uuid) (now : Nat) (other : Uuid) :
    (q.markComplete channelId now).retryCounts.lookup other =
      if other = channelId ∧ ¬ (q.retryAfter.lookup channelId).any fun t => decide (now < t) then none
      else q.retryCounts.lookup other := by
  rw [markComplete]
  by_cases hother : other = channelId
  · subst hother
    cases hlookup : q.retryAfter.lookup other with
    | none => simp
    | some deadline => by_cases hactive : now < deadline <;> simp [hactive]
  · cases hlookup : q.retryAfter.lookup channelId with
    | none => simp [hother, AList.lookup_erase_ne hother]
    | some deadline =>
      by_cases hactive : now < deadline <;> simp [hactive, hother, AList.lookup_erase_ne hother]

end EventQueue

end Buzz.Acp
