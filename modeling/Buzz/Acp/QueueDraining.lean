import Buzz.Acp.QueueConservation

/-!
# What draining a channel reports

`drain_channel` empties three stores of a channel and reports the ids of the events in one of them,
the queue. Its caller clears the reactions of the events by these ids, so what was withheld for a
native steer, or stored from a cancelled turn, goes without. Everything else about draining is
right: the other channels keep what they have, and what was removed does not come back.

A batch that is with its caller is not the queue's to drain. It may be handed back afterwards, so
the copies that a later flush returns are bounded by those that were out and those pushed since.
-/

namespace Buzz.Acp

open List Option

def pushes (as : List Action) : List Item :=
  as.filterMap fun
    | .push event => some (event.channelId, event.toBatchEvent)
    | _ => none

/-- The id of an item's event, in hexadecimal. -/
def Item.eventId (x : Item) : String := toHex x.2.event.id

/-- What the queue holds of one channel. -/
structure ChannelState where
  queue : Option (List QueuedEvent)
  inFlight : Prop
  deadline : Option Nat
  batchSize : Option Nat
  retryAfter : Option Nat
  retryCount : Option Nat
  cancelled : Option (List BatchEvent)
  cancelReason : Option CancelReason
  withheld : Option (List QueuedEvent)

namespace EventQueue

variable (q : EventQueue)

/-- What the queue keeps for a channel. -/
def channelState (id : Uuid) : ChannelState where
  queue := q.queues.lookup id
  inFlight := id ∈ q.inFlightChannels
  deadline := q.inFlightDeadlines.lookup id
  batchSize := q.inFlightBatchSizes.lookup id
  retryAfter := q.retryAfter.lookup id
  retryCount := q.retryCounts.lookup id
  cancelled := q.cancelledBatches.lookup id
  cancelReason := q.cancelReasons.lookup id
  withheld := q.withheldNativeSteer.lookup id

/-- What draining a channel takes out of the stores, counted with repetitions. -/
def takenOut (id : Uuid) : List Item := q.stored.diff (q.drainChannel id).1.stored

theorem channelState_drainChannel {id other : Uuid} (h : other ≠ id) :
    (q.drainChannel id).1.channelState other = q.channelState other := by
  simp only [channelState, drainChannel, AList.lookup_erase_ne h]

theorem takenOut_perm (id : Uuid) : (q.takenOut id).Perm (q.drained id) := by
  refine perm_iff_count.mpr fun x => ?_
  have hbalance := q.count_drainChannel x id
  rw [takenOut, count_diff]
  omega

theorem notMem_contents_erase {α : Type} (f : α → BatchEvent) (m : AList fun _ : Uuid => List α)
    (id : Uuid) (be : BatchEvent) : (id, be) ∉ contents f (m.erase id) := by
  intro hmem
  obtain ⟨⟨id', l⟩, hentry, hplaced⟩ := mem_flatMap.mp hmem
  obtain ⟨a, -, heq⟩ := mem_map.mp hplaced
  obtain ⟨rfl, -⟩ := Prod.mk.inj heq
  have hlookup := AList.mem_lookup_iff.mpr hentry
  rw [AList.lookup_erase] at hlookup
  nomatch hlookup

theorem count_stored_drainChannel (channelId : Uuid) (be : BatchEvent) :
    (q.drainChannel channelId).1.stored.count (channelId, be) = 0 := by
  have hqueues := notMem_contents_erase QueuedEvent.toBatchEvent q.queues channelId be
  have hwithheld := notMem_contents_erase QueuedEvent.toBatchEvent q.withheldNativeSteer channelId be
  have hcancelled := notMem_contents_erase id q.cancelledBatches channelId be
  rw [count_stored]
  simp only [drainChannel]
  rw [count_eq_zero.mpr hqueues, count_eq_zero.mpr hwithheld,
    count_eq_zero.mpr hcancelled]

theorem length_takenOut (id : Uuid) : (q.takenOut id).length =
    (listAt q.queues id).length + (listAt q.withheldNativeSteer id).length +
      (listAt q.cancelledBatches id).length := by
  rw [(q.takenOut_perm id).length_eq]
  simp only [drained, placed, length_append, length_map]

end EventQueue

/-! ### Copies of an item -/

namespace Ledger

/-- The copies of an item that the queue holds or a caller has. -/
def live (s : Ledger) (x : Item) : Nat := s.queue.stored.count x + s.countOut x

end Ledger

theorem step_records {s s' : Ledger} {a : Action} (hs : step s a = some s') (x : Item) :
    s.exits <+: s'.exits ∧ s'.accepted.count x ≤ s.accepted.count x + (pushes [a]).count x := by
  cases a with
  | push event =>
    obtain rfl : { s.leave .overflow (s.queue.pushOverflow event) with
      queue := (s.queue.push event).1
      accepted := if (s.queue.push event).2 then
        (event.channelId, event.toBatchEvent) :: s.accepted else s.accepted } = s' :=
      some.inj hs
    refine ⟨prefix_append _ _, ?_⟩
    have hpushes : pushes [.push event] = [(event.channelId, event.toBatchEvent)] := rfl
    dsimp only
    rw [hpushes]
    split
    · rw [count_cons, count_singleton]
    · omega
  | flushNext now choice =>
    obtain ⟨r, hr, rfl⟩ := map_eq_some_iff.mp hs
    exact ⟨prefix_append _ _, Nat.le_add_right _ _⟩
  | requeue batch now delay =>
    obtain ⟨-, hs⟩ := ite_none_right_eq_some.mp hs
    split at hs
    · cases hs
      simp [Ledger.leave]
    · cases hs
      simp [Ledger.leave]
  | requeuePreserveTimestamps batch =>
    obtain ⟨-, hs⟩ := ite_none_right_eq_some.mp hs
    cases hs
    simp [Ledger.leave]
  | requeueAsCancelled batch reason =>
    obtain ⟨-, hs⟩ := ite_none_right_eq_some.mp hs
    cases hs
    simp
  | releaseNativeSteer channelId eventId | removeEvent channelId eventId
  | drainChannel channelId | hasFlushableWork now =>
    cases hs
    exact ⟨prefix_append _ _, Nat.le_add_right _ _⟩
  | markComplete channelId now | markNativeSteerPending channelId eventId
  | compactExpiredState now | extendInFlightDeadline channelId maxTurnSecs now =>
    cases hs
    exact ⟨prefix_refl _, Nat.le_add_right _ _⟩

theorem count_events_le (b : FlushBatch) (x : Item) :
    (placed id b.channelId b.events).count x ≤ b.items.count x := by
  rw [FlushBatch.items, count_append]
  exact Nat.le_add_right _ _

/-- **One operation** adds no copy but the one it pushes. Where it hands a batch back whole, this is
the balance of the ledger; the two paths that forget cancelled events lose copies. -/
theorem live_step {s s' : Ledger} {a : Action} (hs : step s a = some s') (x : Item) :
    s'.live x ≤ s.live x + (pushes [a]).count x := by
  simp only [Ledger.live]
  by_cases hwhole : HandsBackWhole s a
  · have hbalance := step_balance hwhole hs x
    obtain ⟨hexits, haccepted⟩ := step_records hs x
    have hcount := (hexits.sublist.map Prod.snd).count_le x
    simp only [Ledger.count_places] at hbalance
    omega
  · cases a with
    | requeue batch now delay =>
      obtain ⟨⟨hholds, -⟩, hs⟩ := ite_none_right_eq_some.mp hs
      have hback := s.countOut_takeBack x hholds
      have hevents := count_events_le batch x
      cases hrequeue : s.queue.requeue batch now delay with
      | mk q result =>
        rw [hrequeue] at hs
        cases result with
        | none =>
          cases hs
          have hq := s.queue.count_requeue x hrequeue
          simp only [Ledger.countOut, Ledger.leave] at hback ⊢
          omega
        | some dead =>
          exact absurd (Or.inr (s.queue.requeue_deadLetter hrequeue).2.2) hwhole
    | requeuePreserveTimestamps batch =>
      obtain ⟨hholds, hs⟩ := ite_none_right_eq_some.mp hs
      cases hs
      have hback := s.countOut_takeBack x hholds
      have hevents := count_events_le batch x
      have hq := s.queue.count_requeuePreserveTimestamps x batch
      simp only [Ledger.countOut, Ledger.leave] at hback ⊢
      omega
    | _ => exact absurd trivial hwhole

/-- **A run** adds no copies but those it pushes. -/
theorem live_run {s s' : Ledger} {as : List Action} (hr : ledger.run s as = some s') (x : Item) :
    s'.live x ≤ s.live x + (pushes as).count x := by
  induction as generalizing s with
  | nil =>
    cases hr
    exact Nat.le_add_right _ _
  | cons a as ih =>
    obtain ⟨s₁, hs, hr⟩ := ledger.run_cons_eq_some.mp hr
    have hone := live_step hs x
    have hrest := ih hr
    have hsplit : pushes (a :: as) = pushes [a] ++ pushes as := by
      simp [pushes, ← filterMap_append]
    rw [hsplit, count_append]
    omega

/-! ### Draining -/

/-- **Draining a channel reports everything.** The ids that it returns are those of the events it
takes out. The copies of such an event that a later flush returns were with a caller at the time, or
are pushed afterwards. The other channels keep their state. -/
structure DrainsFully (s : Ledger) (id : Uuid) : Prop where
  /-- Every event that is taken out is reported, and no other one. -/
  reports : (s.queue.drainChannel id).2.Perm ((s.queue.takenOut id).map Item.eventId)
  gone : ∀ x ∈ s.queue.takenOut id, ∀ as s', ledger.run s (.drainChannel id :: as) = some s' →
    ∀ now choice q' b, s'.queue.flushNext now choice = some (q', some b) →
      b.items.count x ≤ s.countOut x + (pushes as).count x
  others : ∀ other, other ≠ id →
    (s.queue.drainChannel id).1.channelState other = s.queue.channelState other

theorem fst_of_mem_takenOut {q : EventQueue} {id : Uuid} {x : Item} (h : x ∈ q.takenOut id) :
    x.1 = id := by
  have hdrained := (q.takenOut_perm id).subset h
  simp only [EventQueue.drained, placed, List.mem_append, List.mem_map] at hdrained
  rcases hdrained with (⟨_, -, rfl⟩ | ⟨_, -, rfl⟩) | ⟨_, -, rfl⟩
  · rfl
  · rfl
  · rfl

theorem count_items_le_of_drained {s s' : Ledger} {id : Uuid} {x : Item} (hx : x.1 = id)
    {as : List Action} (hr : ledger.run s (.drainChannel id :: as) = some s') {now : Nat}
    {choice : Uuid} {q' : EventQueue} {b : FlushBatch}
    (hf : s'.queue.flushNext now choice = some (q', some b)) :
    b.items.count x ≤ s.countOut x + (pushes as).count x := by
  obtain ⟨s₁, hs, hr⟩ := ledger.run_cons_eq_some.mp hr
  obtain rfl : { s.leave .drained (s.queue.drained id) with
    queue := (s.queue.drainChannel id).1 } = s₁ := some.inj hs
  have hrun := live_run hr x
  have hflush := s'.queue.count_flushNext x hf
  have hempty : (s.queue.drainChannel id).1.stored.count x = 0 := by
    obtain ⟨id', be⟩ := x
    subst hx
    exact s.queue.count_stored_drainChannel id' be
  simp only [Ledger.live, Ledger.countOut, Ledger.leave, hempty, toList_some,
    flatMap_cons, flatMap_nil, append_nil] at hrun hflush ⊢
  omega

theorem stores_eq_nil_of_reports {q : EventQueue} {id : Uuid}
    (h : (q.drainChannel id).2.Perm ((q.takenOut id).map Item.eventId)) :
    listAt q.withheldNativeSteer id = [] ∧ listAt q.cancelledBatches id = [] := by
  have hlength := h.length_eq
  rw [length_map, q.length_takenOut, EventQueue.drainChannel, length_map] at hlength
  exact ⟨eq_nil_of_length_eq_zero (by omega), eq_nil_of_length_eq_zero (by omega)⟩

/-- **Draining reports everything exactly when nothing of the channel is withheld for a native steer
or stored from a cancelled turn.** -/
theorem drainsFully_iff (s : Ledger) (id : Uuid) : DrainsFully s id ↔
    listAt s.queue.withheldNativeSteer id = [] ∧ listAt s.queue.cancelledBatches id = [] := by
  constructor
  · intro h
    exact stores_eq_nil_of_reports h.reports
  · rintro ⟨hwithheld, hcancelled⟩
    refine ⟨?_, ?_, fun other hother => s.queue.channelState_drainChannel hother⟩
    · have hdrained : s.queue.drained id =
          placed QueuedEvent.toBatchEvent id (listAt s.queue.queues id) := by
        simp [EventQueue.drained, hwithheld, hcancelled, placed_nil]
      refine List.Perm.trans ?_ ((s.queue.takenOut_perm id).map Item.eventId).symm
      rw [hdrained, placed, List.map_map]
      exact List.Perm.refl _
    · intro x hx as s' hr now choice q' b hf
      exact count_items_le_of_drained (fst_of_mem_takenOut hx) hr hf

/-- A turn is cancelled, and the agent is removed from the channel before the next one. -/
def cancelRun : List Action :=
  [.push ((plainBatchEvent 1).toQueuedEvent 7), .flushNext 10 7,
    .requeueAsCancelled cancelledBatch .interrupt, .markComplete 7 11]

/-- The event of the cancelled turn is dropped and not reported. -/
theorem not_drainsFully : ¬ ∀ s, ledger.Reachable s → ∀ id, DrainsFully s id := by
  intro hall
  have hrun : (ledger.run emptyLedger cancelRun).any (fun s =>
      !(listAt s.queue.cancelledBatches 7).isEmpty) = true := by decide +kernel
  obtain ⟨s, hs, hcheck⟩ := (any_eq_true _ _).mp hrun
  have hreports := (hall s ⟨_, _, emptyLedger_init, hs⟩ 7).reports
  rw [(stores_eq_nil_of_reports hreports).2] at hcheck
  exact Bool.false_ne_true hcheck

end Buzz.Acp
