import Buzz.Acp.Queue
import Buzz.Lib.StateMachine

/-!
# A ledger for the event queue

Where every accepted event is. The queue itself holds pending, withheld and cancelled events; the
batches that were flushed are with their callers. A batch whose channel was completed, or expired,
before it was handed back is *closed*: its events have left, although its holder may still hand it
back later. The other ways out are the per-channel cap, draining, removal, and dead-lettering. The
ledger records each of them when it happens, from the state before.
-/

namespace Buzz.Acp

/-- An event with the channel it was accepted for. -/
abbrev Item := Uuid × BatchEvent

/-- The items of a batch: its events and its cancelled events. -/
def FlushBatch.items (b : FlushBatch) : List Item :=
  placed id b.channelId b.events ++ placed id b.channelId b.cancelledEvents

namespace EventQueue

variable (q : EventQueue)

def queued : List Item := contents QueuedEvent.toBatchEvent q.queues

def withheld : List Item := contents QueuedEvent.toBatchEvent q.withheldNativeSteer

def cancelled : List Item := contents id q.cancelledBatches

def stored : List Item := q.queued ++ q.withheld ++ q.cancelled

/-! ### What the cap drops -/

def pushOverflow (event : QueuedEvent) : List Item :=
  if q.dedupMode = .drop ∧ event.channelId ∈ q.inFlightChannels then []
  else if maxPendingPerChannel ≤ (listAt q.queues event.channelId).length then
    placed QueuedEvent.toBatchEvent event.channelId ((listAt q.queues event.channelId).take 1)
  else []

/-- What pushing to the front drops. -/
def frontOverflow (channelId : Uuid) (events : List QueuedEvent) : List Item :=
  placed QueuedEvent.toBatchEvent channelId
    ((events ++ listAt q.queues channelId).drop maxPendingPerChannel)

/-- What the recovery of withheld events drops. -/
def recoverOverflow (channelId : Uuid) : List Item :=
  match q.withheldNativeSteer.lookup channelId with
  | none => []
  | some entries => q.frontOverflow channelId entries

/-- What expiring several channels drops. -/
def expireAllOverflow : EventQueue → List Uuid → List Item
  | _, [] => []
  | q, id :: ids => q.recoverOverflow id ++ expireAllOverflow (q.expireOne id) ids

def expireOverflow (now : Nat) : List Item := q.expireAllOverflow (q.expiredChannels now)

/-- What the release of a withheld event drops. -/
def releaseOverflow (channelId : Uuid) (eventId : String) : List Item :=
  match (listAt q.withheldNativeSteer channelId).find? (hasId eventId) with
  | none => []
  | some qe => q.frontOverflow channelId [qe]

/-- What handing back a batch drops. -/
def handBackOverflow (batch : FlushBatch) : List Item :=
  q.frontOverflow batch.channelId (batch.events.map fun be => be.toQueuedEvent batch.channelId)

/-! ### Deliberate removal -/

def drained (channelId : Uuid) : List Item :=
  placed QueuedEvent.toBatchEvent channelId (listAt q.queues channelId) ++
    placed QueuedEvent.toBatchEvent channelId (listAt q.withheldNativeSteer channelId) ++
    placed id channelId (listAt q.cancelledBatches channelId)

def removed (channelId : Uuid) (eventId : String) : List Item :=
  placed QueuedEvent.toBatchEvent channelId
      ((listAt q.queues channelId).filter (hasId eventId)) ++
    placed QueuedEvent.toBatchEvent channelId
      ((listAt q.withheldNativeSteer channelId).filter (hasId eventId))

end EventQueue

/-! ### The ledger -/

/-- The ways in which an event leaves the queue. -/
inductive Exit where
  | overflow
  | drained
  | removed
  | deadLettered

/-- The queue, and where the items are that it does not hold. -/
structure Ledger where
  queue : EventQueue
  accepted : List Item
  outstanding : List FlushBatch
  /-- Batches whose channel was completed or expired, and that were not handed back. -/
  closed : List FlushBatch
  exits : List (Exit × Item)

namespace Ledger

def leave (s : Ledger) (reason : Exit) (items : List Item) : Ledger :=
  { s with exits := s.exits ++ items.map fun x => (reason, x) }

/-- Close the outstanding batches of some channels. -/
def close (s : Ledger) (channels : List Uuid) : Ledger :=
  { s with
    outstanding := s.outstanding.filter fun b => !channels.contains b.channelId
    closed := s.closed ++ s.outstanding.filter fun b => channels.contains b.channelId }

/-- Was this batch flushed and not handed back? -/
def holds (s : Ledger) (b : FlushBatch) : Prop := b ∈ s.outstanding ∨ b ∈ s.closed

instance (s : Ledger) (b : FlushBatch) : Decidable (s.holds b) :=
  inferInstanceAs (Decidable (_ ∨ _))

/-- Take a batch out of those not handed back. -/
def takeBack (s : Ledger) (b : FlushBatch) : Ledger :=
  if b ∈ s.outstanding then { s with outstanding := s.outstanding.erase b }
  else { s with closed := s.closed.erase b }

end Ledger

/-- An operation on the queue, with its clock readings. -/
inductive Action where
  | push (event : QueuedEvent)
  | flushNext (now : Nat) (choice : Uuid)
  | markComplete (channelId : Uuid) (now : Nat)
  | requeue (batch : FlushBatch) (now delay : Nat)
  | requeuePreserveTimestamps (batch : FlushBatch)
  | requeueAsCancelled (batch : FlushBatch) (reason : CancelReason)
  | markNativeSteerPending (channelId : Uuid) (eventId : String)
  | releaseNativeSteer (channelId : Uuid) (eventId : String)
  | removeEvent (channelId : Uuid) (eventId : String)
  | drainChannel (channelId : Uuid)
  | hasFlushableWork (now : Nat)
  | compactExpiredState (now : Nat)
  | extendInFlightDeadline (channelId : Uuid) (maxTurnSecs now : Nat)

/-- One operation. A batch can be handed back only if it was flushed and not yet handed back. -/
def step (s : Ledger) : Action → Option Ledger
  | .push event =>
    let (q, accepted) := s.queue.push event
    some { s.leave .overflow (s.queue.pushOverflow event) with
      queue := q
      accepted := if accepted then (event.channelId, event.toBatchEvent) :: s.accepted
        else s.accepted }
  | .flushNext now choice =>
    (s.queue.flushNext now choice).map fun r =>
      let s' := (s.close (s.queue.expiredChannels now)).leave .overflow (s.queue.expireOverflow now)
      { s' with queue := r.1, outstanding := r.2.toList ++ s'.outstanding }
  | .markComplete channelId now =>
    some { s.close [channelId] with queue := s.queue.markComplete channelId now }
  | .requeue batch now delay =>
    if s.holds batch ∧ EventQueue.isRetryDelay (s.queue.nextAttempt batch.channelId) delay = true then
      match s.queue.requeue batch now delay with
      | (q, none) =>
        some { (s.takeBack batch).leave .overflow (s.queue.handBackOverflow batch) with queue := q }
      | (q, some dead) => some { (s.takeBack batch).leave .deadLettered dead.items with queue := q }
    else none
  | .requeuePreserveTimestamps batch =>
    if s.holds batch then
      some { (s.takeBack batch).leave .overflow (s.queue.handBackOverflow batch) with
        queue := s.queue.requeuePreserveTimestamps batch }
    else none
  | .requeueAsCancelled batch reason =>
    if s.holds batch then
      some { s.takeBack batch with queue := s.queue.requeueAsCancelled batch reason }
    else none
  | .markNativeSteerPending channelId eventId =>
    some { s with queue := (s.queue.markNativeSteerPending channelId eventId).1 }
  | .releaseNativeSteer channelId eventId =>
    some { s.leave .overflow (s.queue.releaseOverflow channelId eventId) with
      queue := s.queue.releaseNativeSteer channelId eventId }
  | .removeEvent channelId eventId =>
    some { s.leave .removed (s.queue.removed channelId eventId) with
      queue := s.queue.removeEvent channelId eventId }
  | .drainChannel channelId =>
    some { s.leave .drained (s.queue.drained channelId) with
      queue := (s.queue.drainChannel channelId).1 }
  | .hasFlushableWork now =>
    some { (s.close (s.queue.expiredChannels now)).leave .overflow (s.queue.expireOverflow now) with
      queue := (s.queue.hasFlushableWork now).1 }
  | .compactExpiredState now => some { s with queue := s.queue.compactExpiredState now }
  | .extendInFlightDeadline channelId maxTurnSecs now =>
    some { s with queue := s.queue.extendInFlightDeadline channelId maxTurnSecs now }

/-- The queue under all operations, from an empty queue of either mode and with any deadline. -/
def ledger : StateMachine Ledger Action where
  Init s := (∃ mode deadline, s.queue = { EventQueue.new mode with inFlightDeadline := deadline }) ∧
    s.accepted = [] ∧ s.outstanding = [] ∧ s.closed = [] ∧ s.exits = []
  step := step

namespace Ledger

/-- All places where an accepted item can be. -/
def places (s : Ledger) : List Item :=
  s.queue.queued ++ s.queue.withheld ++ s.queue.cancelled ++ s.outstanding.flatMap FlushBatch.items ++
    s.closed.flatMap FlushBatch.items ++ s.exits.map Prod.snd

/-- Every accepted item is in exactly one place: pending, withheld, cancelled, in a batch that was
not handed back, or on record as having left. -/
def Conserved (s : Ledger) : Prop := s.accepted.Perm s.places

end Ledger

end Buzz.Acp
