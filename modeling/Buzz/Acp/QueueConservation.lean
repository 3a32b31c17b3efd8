import Buzz.Acp.QueueLedger

/-!
# The event queue loses and duplicates no event

Each operation is one equation on counts: what the queue holds afterwards, together with what the
operation gave away or dropped, is what it held before together with what it was given. Two
operations fail the equation. `requeue` and `requeue_preserve_timestamps` put back the events of a
batch and forget its cancelled events, while `requeue_as_cancelled` puts back both.
-/

namespace Buzz.Acp

open List Option

namespace EventQueue

variable (q : EventQueue) (x : Item)

theorem count_stored : q.stored.count x =
    (contents QueuedEvent.toBatchEvent q.queues).count x +
      (contents QueuedEvent.toBatchEvent q.withheldNativeSteer).count x +
      (contents id q.cancelledBatches).count x := by
  rw [stored, count_append, count_append]
  rfl

theorem count_contents_putBack {α : Type} (f : α → BatchEvent) (m : AList fun _ : Uuid => List α)
    (channelId : Uuid) (l : List α) :
    (contents f (putBack m channelId l)).count x + (placed f channelId (listAt m channelId)).count x =
      (contents f m).count x + (placed f channelId l).count x := by
  rw [putBack]
  split
  · next hnil =>
    subst hnil
    have := count_contents_erase f m channelId x
    rw [placed_nil, count_nil]
    omega
  · exact count_contents_insert f m channelId l x

theorem count_eraseP {α : Type} (f : α → BatchEvent) (p : α → Bool) (channelId : Uuid)
    {l : List α} {a : α} (h : l.find? p = some a) :
    (placed f channelId (l.eraseP p)).count x + (placed f channelId [a]).count x =
      (placed f channelId l).count x := by
  induction l with
  | nil => nomatch h
  | cons b l ih =>
    by_cases hb : p b = true
    · rw [find?_cons_of_pos hb] at h
      cases h
      rw [eraseP_cons_of_pos hb, ← count_append, ← placed_append]
      simp only [placed_append, placed_cons, placed_nil, count_append, count_cons,
        count_nil]
      omega
    · rw [find?_cons_of_neg hb] at h
      rw [eraseP_cons_of_neg hb]
      have := ih h
      simp only [placed_cons, count_cons] at this ⊢
      omega

theorem count_filter_add {α : Type} (f : α → BatchEvent) (p : α → Bool) (channelId : Uuid)
    (l : List α) :
    (placed f channelId (l.filter fun a => !p a)).count x +
      (placed f channelId (l.filter p)).count x = (placed f channelId l).count x := by
  induction l with
  | nil => rfl
  | cons a l ih =>
    cases hp : p a <;> simp only [filter_cons, hp, Bool.not_true, Bool.not_false, if_true,
      Bool.false_eq_true, if_false, placed_cons, count_cons] <;> omega

/-! ### One equation for each operation -/

theorem count_pushFront (channelId : Uuid) (events : List QueuedEvent) :
    (q.pushFront channelId events).stored.count x + (q.frontOverflow channelId events).count x =
      q.stored.count x + (placed QueuedEvent.toBatchEvent channelId events).count x := by
  have hinsert := count_contents_insert QueuedEvent.toBatchEvent q.queues channelId
    ((events ++ listAt q.queues channelId).take maxPendingPerChannel) x
  have hsplit : (placed QueuedEvent.toBatchEvent channelId
      ((events ++ listAt q.queues channelId).take maxPendingPerChannel)).count x +
        (q.frontOverflow channelId events).count x =
      (placed QueuedEvent.toBatchEvent channelId events).count x +
        (placed QueuedEvent.toBatchEvent channelId (listAt q.queues channelId)).count x := by
    rw [frontOverflow, ← count_append, ← placed_append, take_append_drop, placed_append,
      count_append]
  simp only [count_stored, pushFront]
  omega

theorem count_recoverWithheld (channelId : Uuid) :
    (q.recoverWithheld channelId).stored.count x + (q.recoverOverflow channelId).count x =
      q.stored.count x := by
  rw [recoverWithheld, recoverOverflow]
  cases hlookup : q.withheldNativeSteer.lookup channelId with
  | none => rfl
  | some entries =>
    have hfront := count_pushFront
      { q with withheldNativeSteer := q.withheldNativeSteer.erase channelId } x channelId entries
    have herase := count_contents_erase QueuedEvent.toBatchEvent q.withheldNativeSteer channelId x
    rw [listAt_of_lookup_eq_some hlookup] at herase
    simp only [count_stored, frontOverflow, pushFront] at hfront herase ⊢
    omega

theorem count_expireOne (id : Uuid) :
    (q.expireOne id).stored.count x + (q.recoverOverflow id).count x = q.stored.count x :=
  count_recoverWithheld { q with
    inFlightBatchSizes := q.inFlightBatchSizes.erase id
    inFlightChannels := q.inFlightChannels.erase id
    inFlightDeadlines := q.inFlightDeadlines.erase id } x id

theorem count_expireAll (ids : List Uuid) :
    (ids.foldl expireOne q).stored.count x + (q.expireAllOverflow ids).count x =
      q.stored.count x := by
  induction ids generalizing q with
  | nil => rfl
  | cons id ids ih =>
    have hone := count_expireOne q x id
    have hrest := ih (q.expireOne id)
    rw [foldl_cons, expireAllOverflow, count_append]
    omega

theorem count_expire (now : Nat) :
    (q.expire now).stored.count x + (q.expireOverflow now).count x = q.stored.count x :=
  count_expireAll q x _

theorem count_push (event : QueuedEvent) :
    (q.push event).1.stored.count x + (q.pushOverflow event).count x = q.stored.count x +
      (if (q.push event).2 then [(event.channelId, event.toBatchEvent)] else []).count x := by
  rw [push, pushOverflow]
  by_cases hdrop : q.dedupMode = .drop ∧ event.channelId ∈ q.inFlightChannels
  · simp [hdrop, count_nil]
  · simp only [if_neg hdrop, if_true]
    have hinsert := fun l => count_contents_insert QueuedEvent.toBatchEvent q.queues event.channelId
      l x
    have hone : ∀ l : List QueuedEvent,
        (placed QueuedEvent.toBatchEvent event.channelId (l ++ [event])).count x =
          (placed QueuedEvent.toBatchEvent event.channelId l).count x +
            [(event.channelId, event.toBatchEvent)].count x := by
      intro l
      rw [placed_append, count_append]
      rfl
    simp only [count_stored]
    by_cases hcap : maxPendingPerChannel ≤ (listAt q.queues event.channelId).length
    · simp only [if_pos hcap]
      have htail : (placed QueuedEvent.toBatchEvent event.channelId
          ((listAt q.queues event.channelId).take 1)).count x +
            (placed QueuedEvent.toBatchEvent event.channelId
              (listAt q.queues event.channelId).tail).count x =
          (placed QueuedEvent.toBatchEvent event.channelId
            (listAt q.queues event.channelId)).count x := by
        simp [← count_append, ← placed_append, ← drop_one]
      have := hinsert ((listAt q.queues event.channelId).tail ++ [event])
      rw [hone] at this
      omega
    · simp only [if_neg hcap, count_nil]
      have := hinsert (listAt q.queues event.channelId ++ [event])
      rw [hone] at this
      omega

theorem count_sortByCreatedAt (channelId : Uuid) (events : List BatchEvent) :
    (placed id channelId (sortByCreatedAt events)).count x =
      (placed id channelId events).count x :=
  ((perm_insertionSort _ events).map _).count_eq x

theorem count_flushCancelled (now : Nat) (channelId : Uuid) :
    (q.flushCancelled now channelId).1.stored.count x +
      (q.flushCancelled now channelId).2.items.count x = q.stored.count x := by
  have herase := count_contents_erase id q.cancelledBatches channelId x
  simp only [count_stored, flushCancelled, markInFlight, FlushBatch.items, placed_nil,
    append_nil]
  omega

theorem count_flushQueued (now : Nat) (channelId : Uuid) :
    (q.flushQueued now channelId).1.stored.count x +
      (q.flushQueued now channelId).2.items.count x = q.stored.count x := by
  have hcancelled := count_contents_erase id q.cancelledBatches channelId x
  have hqueue := count_contents_putBack x QueuedEvent.toBatchEvent q.queues channelId
    ((listAt q.queues channelId).drop maxBatchEvents)
  have hevents : (placed id channelId (sortByCreatedAt
      (((listAt q.queues channelId).take maxBatchEvents).map QueuedEvent.toBatchEvent))).count x =
        (placed QueuedEvent.toBatchEvent channelId
          ((listAt q.queues channelId).take maxBatchEvents)).count x := by
    rw [count_sortByCreatedAt, placed_map]
    rfl
  have hsplit : (placed QueuedEvent.toBatchEvent channelId
      ((listAt q.queues channelId).take maxBatchEvents)).count x +
        (placed QueuedEvent.toBatchEvent channelId
          ((listAt q.queues channelId).drop maxBatchEvents)).count x =
      (placed QueuedEvent.toBatchEvent channelId (listAt q.queues channelId)).count x := by
    simp [← count_append, ← placed_append]
  rw [putBack] at hqueue
  simp only [count_stored, flushQueued, markInFlight, FlushBatch.items, count_append]
  omega

variable {q' : EventQueue}

theorem count_flushNext {batch : Option FlushBatch} {now : Nat} {choice : Uuid}
    (h : q.flushNext now choice = some (q', batch)) :
    q'.stored.count x + (batch.toList.flatMap FlushBatch.items).count x +
      (q.expireOverflow now).count x = q.stored.count x := by
  have hexpire := count_expire q x now
  rw [flushNext] at h
  split at h
  · split at h
    · cases h
      simpa using hexpire
    · obtain ⟨-, h⟩ := ite_none_right_eq_some.mp h
      cases h
      have := count_flushCancelled (q.expire now) x now choice
      simp only [toList_some, flatMap_cons, flatMap_nil, append_nil]
      omega
  · obtain ⟨-, h⟩ := ite_none_right_eq_some.mp h
    cases h
    have := count_flushQueued (q.expire now) x now choice
    simp only [toList_some, flatMap_cons, flatMap_nil, append_nil]
    omega

theorem count_markComplete (channelId : Uuid) (now : Nat) :
    (q.markComplete channelId now).stored.count x = q.stored.count x := by
  simp only [count_stored, markComplete]
  split
  · split <;> rfl
  · rfl

theorem count_requeuePreserveTimestamps (batch : FlushBatch) :
    (q.requeuePreserveTimestamps batch).stored.count x + (q.handBackOverflow batch).count x =
      q.stored.count x + (placed id batch.channelId batch.events).count x := by
  have hfront := count_pushFront q x batch.channelId
    (batch.events.map fun be => be.toQueuedEvent batch.channelId)
  rw [placed_map] at hfront
  exact hfront

theorem count_requeue {batch : FlushBatch} {now delay : Nat}
    (h : q.requeue batch now delay = (q', none)) :
    q'.stored.count x + (q.handBackOverflow batch).count x =
      q.stored.count x + (placed id batch.channelId batch.events).count x := by
  rw [requeue] at h
  split at h
  · nomatch (Prod.ext_iff.mp h).2
  · obtain rfl := (Prod.ext_iff.mp h).1
    exact count_requeuePreserveTimestamps q x batch

theorem requeue_deadLetter {batch dead : FlushBatch} {now delay : Nat}
    (h : q.requeue batch now delay = (q', some dead)) :
    dead = batch ∧ q'.stored = q.stored ∧ maxRetries < q.nextAttempt batch.channelId := by
  rw [requeue] at h
  split at h
  · next hmax =>
    obtain ⟨hq, hd⟩ := Prod.ext_iff.mp h
    obtain rfl := hq
    exact ⟨(some.inj hd).symm, rfl, hmax⟩
  · nomatch (Prod.ext_iff.mp h).2

theorem count_requeueAsCancelled (batch : FlushBatch) (reason : CancelReason) :
    (q.requeueAsCancelled batch reason).stored.count x =
      q.stored.count x + batch.items.count x := by
  have hinsert := count_contents_insert id q.cancelledBatches batch.channelId
    (listAt q.cancelledBatches batch.channelId ++ batch.cancelledEvents ++ batch.events) x
  simp only [placed_append, count_append] at hinsert
  simp only [count_stored, requeueAsCancelled, FlushBatch.items, count_append]
  omega

theorem count_drainChannel (channelId : Uuid) :
    (q.drainChannel channelId).1.stored.count x + (q.drained channelId).count x =
      q.stored.count x := by
  have hqueue := count_contents_erase QueuedEvent.toBatchEvent q.queues channelId x
  have hwithheld := count_contents_erase QueuedEvent.toBatchEvent q.withheldNativeSteer channelId x
  have hcancelled := count_contents_erase id q.cancelledBatches channelId x
  simp only [count_stored, drainChannel, drained, count_append]
  omega

theorem count_markNativeSteerPending (channelId : Uuid) (eventId : String) :
    (q.markNativeSteerPending channelId eventId).1.stored.count x = q.stored.count x := by
  rw [markNativeSteerPending]
  cases hfind : (listAt q.queues channelId).find? (hasId eventId) with
  | none => rfl
  | some qe =>
    have hqueue := count_contents_putBack x QueuedEvent.toBatchEvent q.queues channelId
      ((listAt q.queues channelId).eraseP (hasId eventId))
    have hsplit := count_eraseP x QueuedEvent.toBatchEvent (hasId eventId) channelId hfind
    have hwithheld := count_contents_insert QueuedEvent.toBatchEvent q.withheldNativeSteer channelId
      (listAt q.withheldNativeSteer channelId ++ [qe]) x
    rw [placed_append, count_append] at hwithheld
    simp only [count_stored]
    omega

theorem count_releaseNativeSteer (channelId : Uuid) (eventId : String) :
    (q.releaseNativeSteer channelId eventId).stored.count x +
      (q.releaseOverflow channelId eventId).count x = q.stored.count x := by
  rw [releaseNativeSteer, releaseOverflow]
  cases hfind : (listAt q.withheldNativeSteer channelId).find? (hasId eventId) with
  | none => rfl
  | some qe =>
    have hfront := count_pushFront { q with
      withheldNativeSteer := putBack q.withheldNativeSteer channelId
        ((listAt q.withheldNativeSteer channelId).eraseP (hasId eventId)) } x channelId [qe]
    have hwithheld := count_contents_putBack x QueuedEvent.toBatchEvent q.withheldNativeSteer
      channelId ((listAt q.withheldNativeSteer channelId).eraseP (hasId eventId))
    have hsplit := count_eraseP x QueuedEvent.toBatchEvent (hasId eventId) channelId hfind
    simp only [count_stored, frontOverflow, pushFront] at hfront ⊢
    omega

theorem count_removeEvent (channelId : Uuid) (eventId : String) :
    (q.removeEvent channelId eventId).stored.count x + (q.removed channelId eventId).count x =
      q.stored.count x := by
  have hqueue := count_contents_putBack x QueuedEvent.toBatchEvent q.queues channelId
    ((listAt q.queues channelId).filter fun qe => !hasId eventId qe)
  have hwithheld := count_contents_putBack x QueuedEvent.toBatchEvent q.withheldNativeSteer
    channelId ((listAt q.withheldNativeSteer channelId).filter fun qe => !hasId eventId qe)
  have hqueued := count_filter_add x QueuedEvent.toBatchEvent (hasId eventId) channelId
    (listAt q.queues channelId)
  have hheld := count_filter_add x QueuedEvent.toBatchEvent (hasId eventId) channelId
    (listAt q.withheldNativeSteer channelId)
  simp only [count_stored, removeEvent, removed, count_append]
  omega

theorem stored_extendInFlightDeadline (channelId : Uuid) (maxTurnSecs now : Nat) :
    (q.extendInFlightDeadline channelId maxTurnSecs now).stored = q.stored := by
  rw [extendInFlightDeadline]
  split
  · rfl
  · dsimp only
    split <;> rfl

end EventQueue

/-! ### The ledger -/

namespace Ledger

variable (s : Ledger) (x : Item)

/-- Occurrences in the batches that were not handed back. -/
def countOut : Nat :=
  (s.outstanding.flatMap FlushBatch.items).count x + (s.closed.flatMap FlushBatch.items).count x

theorem count_places : s.places.count x =
    s.queue.stored.count x + s.countOut x + (s.exits.map Prod.snd).count x := by
  simp only [places, countOut, EventQueue.stored, count_append]
  omega

theorem count_leave (reason : Exit) (items : List Item) :
    ((s.leave reason items).exits.map Prod.snd).count x =
      (s.exits.map Prod.snd).count x + items.count x := by
  simp only [leave, List.map_append, List.map_map, List.count_append]
  congr 2
  exact List.map_id items

theorem count_filter_not_add_filter (bs : List FlushBatch) (p : FlushBatch → Bool) :
    ((bs.filter fun b => !p b).flatMap FlushBatch.items).count x +
      ((bs.filter p).flatMap FlushBatch.items).count x =
        (bs.flatMap FlushBatch.items).count x := by
  induction bs with
  | nil => rfl
  | cons b bs ih =>
    cases hb : p b <;>
      simp only [filter_cons, hb, Bool.not_true, Bool.not_false, if_true,
        Bool.false_eq_true, if_false, flatMap_cons, count_append] <;> omega

theorem countOut_close (channels : List Uuid) : (s.close channels).countOut x = s.countOut x := by
  have hsplit := count_filter_not_add_filter x s.outstanding fun b =>
    channels.contains b.channelId
  simp only [countOut, close, flatMap_append, count_append]
  omega

theorem count_erase_add {bs : List FlushBatch} {b : FlushBatch} (h : b ∈ bs) :
    ((bs.erase b).flatMap FlushBatch.items).count x + b.items.count x =
      (bs.flatMap FlushBatch.items).count x := by
  have hperm := ((perm_cons_erase h).flatMap_right FlushBatch.items).count_eq x
  rw [flatMap_cons, count_append] at hperm
  omega

theorem countOut_takeBack {b : FlushBatch} (h : s.holds b) :
    (s.takeBack b).countOut x + b.items.count x = s.countOut x := by
  rw [takeBack]
  split
  · next hmem =>
    have := count_erase_add x hmem
    simp only [countOut]
    omega
  · next hmem =>
    have := count_erase_add x (h.resolve_left hmem)
    simp only [countOut]
    omega

@[simp] theorem exits_takeBack (b : FlushBatch) : (s.takeBack b).exits = s.exits := by
  rw [takeBack]
  split <;> rfl

@[simp] theorem accepted_takeBack (b : FlushBatch) : (s.takeBack b).accepted = s.accepted := by
  rw [takeBack]
  split <;> rfl

end Ledger

/-- Does the operation hand back a batch on a path that restores all of it? The two requeue paths
restore the events only; a dead-lettered batch is not restored at all. -/
def HandsBackWhole (s : Ledger) : Action → Prop
  | .requeue batch _ _ =>
    batch.cancelledEvents = [] ∨ maxRetries < s.queue.nextAttempt batch.channelId
  | .requeuePreserveTimestamps batch => batch.cancelledEvents = []
  | _ => True

instance (s : Ledger) (a : Action) : Decidable (HandsBackWhole s a) := by
  cases a <;> simp only [HandsBackWhole] <;> infer_instance

variable {b : FlushBatch}

theorem items_of_cancelledEvents_eq_nil (h : b.cancelledEvents = []) :
    b.items = placed id b.channelId b.events := by
  simp [FlushBatch.items, h, placed_nil]

variable {s : Ledger} {a : Action}

/-- **One operation is balanced**: what it accepts is what the places gain. -/
theorem step_balance {s' : Ledger} (hwhole : HandsBackWhole s a) (hs : step s a = some s')
    (x : Item) :
    s'.accepted.count x + s.places.count x = s.accepted.count x + s'.places.count x := by
  simp only [Ledger.count_places]
  cases a with
  | push event =>
    obtain rfl : { s.leave .overflow (s.queue.pushOverflow event) with
      queue := (s.queue.push event).1
      accepted := if (s.queue.push event).2 then
        (event.channelId, event.toBatchEvent) :: s.accepted else s.accepted } = s' :=
      some.inj hs
    have hpush := s.queue.count_push x event
    have hleave := s.count_leave x .overflow (s.queue.pushOverflow event)
    simp only [Ledger.countOut, Ledger.leave] at hleave ⊢
    split at hpush
    · next hacc =>
      simp only [if_pos hacc, count_cons, count_nil] at hpush ⊢
      omega
    · next hacc =>
      simp only [if_neg hacc, count_nil] at hpush ⊢
      omega
  | flushNext now choice =>
    obtain ⟨r, hr, rfl⟩ := map_eq_some_iff.mp hs
    have hflush := s.queue.count_flushNext x hr
    have hclose := s.countOut_close x (s.queue.expiredChannels now)
    have hleave := (s.close (s.queue.expiredChannels now)).count_leave x .overflow
      (s.queue.expireOverflow now)
    simp only [Ledger.countOut, Ledger.leave, Ledger.close, flatMap_append,
      count_append] at hclose hleave ⊢
    omega
  | markComplete channelId now =>
    cases hs
    have hmark := s.queue.count_markComplete x channelId now
    have hclose := s.countOut_close x [channelId]
    simp only [Ledger.countOut, Ledger.close] at hclose ⊢
    omega
  | requeue batch now delay =>
    obtain ⟨⟨hholds, -⟩, hs⟩ := ite_none_right_eq_some.mp hs
    have hback := s.countOut_takeBack x hholds
    cases hrequeue : s.queue.requeue batch now delay with
    | mk q result =>
      rw [hrequeue] at hs
      cases result with
      | none =>
        cases hs
        have hwhole : batch.cancelledEvents = [] := by
          refine hwhole.resolve_right fun hmax => ?_
          simp only [EventQueue.requeue, if_pos hmax] at hrequeue
          nomatch (Prod.ext_iff.mp hrequeue).2
        have hq := s.queue.count_requeue x hrequeue
        have hleave := (s.takeBack batch).count_leave x .overflow
          (s.queue.handBackOverflow batch)
        rw [items_of_cancelledEvents_eq_nil hwhole] at hback
        simp only [Ledger.countOut, Ledger.leave, Ledger.exits_takeBack,
          Ledger.accepted_takeBack] at hback hleave ⊢
        omega
      | some dead =>
        cases hs
        obtain ⟨rfl, hq, -⟩ := s.queue.requeue_deadLetter hrequeue
        have hleave := (s.takeBack dead).count_leave x .deadLettered dead.items
        simp only [Ledger.countOut, Ledger.leave, Ledger.exits_takeBack, Ledger.accepted_takeBack,
          hq] at hback hleave ⊢
        omega
  | requeuePreserveTimestamps batch =>
    obtain ⟨hholds, hs⟩ := ite_none_right_eq_some.mp hs
    cases hs
    have hback := s.countOut_takeBack x hholds
    have hq := s.queue.count_requeuePreserveTimestamps x batch
    have hleave := (s.takeBack batch).count_leave x .overflow (s.queue.handBackOverflow batch)
    rw [items_of_cancelledEvents_eq_nil hwhole] at hback
    simp only [Ledger.countOut, Ledger.leave, Ledger.exits_takeBack,
      Ledger.accepted_takeBack] at hback hleave ⊢
    omega
  | requeueAsCancelled batch reason =>
    obtain ⟨hholds, hs⟩ := ite_none_right_eq_some.mp hs
    cases hs
    have hback := s.countOut_takeBack x hholds
    have hq := s.queue.count_requeueAsCancelled x batch reason
    simp only [Ledger.countOut, Ledger.exits_takeBack, Ledger.accepted_takeBack] at hback ⊢
    omega
  | markNativeSteerPending channelId eventId =>
    cases hs
    have hq := s.queue.count_markNativeSteerPending x channelId eventId
    simp only [Ledger.countOut]
    omega
  | releaseNativeSteer channelId eventId =>
    cases hs
    have hq := s.queue.count_releaseNativeSteer x channelId eventId
    have hleave := s.count_leave x .overflow (s.queue.releaseOverflow channelId eventId)
    simp only [Ledger.countOut, Ledger.leave] at hleave ⊢
    omega
  | removeEvent channelId eventId =>
    cases hs
    have hq := s.queue.count_removeEvent x channelId eventId
    have hleave := s.count_leave x .removed (s.queue.removed channelId eventId)
    simp only [Ledger.countOut, Ledger.leave] at hleave ⊢
    omega
  | drainChannel channelId =>
    cases hs
    have hq := s.queue.count_drainChannel x channelId
    have hleave := s.count_leave x .drained (s.queue.drained channelId)
    simp only [Ledger.countOut, Ledger.leave] at hleave ⊢
    omega
  | hasFlushableWork now =>
    cases hs
    have hexpire := s.queue.count_expire x now
    have hclose := s.countOut_close x (s.queue.expiredChannels now)
    have hleave := (s.close (s.queue.expiredChannels now)).count_leave x .overflow
      (s.queue.expireOverflow now)
    simp only [Ledger.countOut, Ledger.leave, Ledger.close, EventQueue.hasFlushableWork]
      at hclose hleave ⊢
    omega
  | compactExpiredState now =>
    cases hs
    rfl
  | extendInFlightDeadline channelId maxTurnSecs now =>
    cases hs
    simp only [Ledger.countOut, s.queue.stored_extendInFlightDeadline channelId maxTurnSecs now]

/-! ### Runs -/

theorem conserved_init (h : ledger.Init s) : s.Conserved := by
  obtain ⟨⟨mode, deadline, hq⟩, hacc, hout, hclosed, hexits⟩ := h
  rw [Ledger.Conserved, Ledger.places, hq, hacc, hout, hclosed, hexits]
  exact List.Perm.nil

theorem conserved_step {s' : Ledger} (h : s.Conserved) (hwhole : HandsBackWhole s a)
    (hs : step s a = some s') : s'.Conserved := by
  refine perm_iff_count.mpr fun x => ?_
  have hbalance := step_balance hwhole hs x
  have hcount := perm_iff_count.mp h x
  omega

/-- The batch that an operation hands back. -/
def handedBack : Action → Option FlushBatch
  | .requeue batch _ _ => some batch
  | .requeuePreserveTimestamps batch => some batch
  | .requeueAsCancelled batch _ => some batch
  | _ => none

/-- Does the operation dead-letter its batch? -/
def DeadLetters (s : Ledger) : Action → Prop
  | .requeue batch _ _ => maxRetries < s.queue.nextAttempt batch.channelId
  | _ => False

theorem handBackOverflow_eq_nil {q : EventQueue}
    (h : b.events.length + (listAt q.queues b.channelId).length ≤ maxPendingPerChannel) :
    q.handBackOverflow b = [] := by
  rw [EventQueue.handBackOverflow, EventQueue.frontOverflow, drop_eq_nil_of_le, placed_nil]
  rwa [length_append, length_map]

theorem stored_of_handedBack {s' : Ledger} (hwhole : HandsBackWhole s a) (hs : step s a = some s')
    (hb : handedBack a = some b) (hdead : ¬ DeadLetters s a)
    (hcap : b.events.length + (listAt s.queue.queues b.channelId).length ≤ maxPendingPerChannel) :
    s'.queue.stored.Perm (s.queue.stored ++ b.items) := by
  have hover := handBackOverflow_eq_nil hcap
  refine perm_iff_count.mpr fun x => ?_
  rw [count_append]
  cases a with
  | requeue batch now delay =>
    obtain rfl := some.inj hb
    have hitems := items_of_cancelledEvents_eq_nil (hwhole.resolve_right hdead)
    obtain ⟨-, hs⟩ := ite_none_right_eq_some.mp hs
    cases hrequeue : s.queue.requeue batch now delay with
    | mk q result =>
      rw [hrequeue] at hs
      cases result with
      | none =>
        cases hs
        have hq := s.queue.count_requeue x hrequeue
        rw [hover, count_nil] at hq
        rwa [hitems]
      | some dead => exact absurd (s.queue.requeue_deadLetter hrequeue).2.2 hdead
  | requeuePreserveTimestamps batch =>
    obtain rfl := some.inj hb
    obtain ⟨-, hs⟩ := ite_none_right_eq_some.mp hs
    cases hs
    have hq := s.queue.count_requeuePreserveTimestamps x batch
    rw [hover, count_nil] at hq
    rwa [items_of_cancelledEvents_eq_nil hwhole]
  | requeueAsCancelled batch reason =>
    obtain rfl := some.inj hb
    obtain ⟨-, hs⟩ := ite_none_right_eq_some.mp hs
    cases hs
    exact s.queue.count_requeueAsCancelled x batch reason
  | _ => nomatch hb

/-- **Nothing is lost or duplicated** in a run that never hands back cancelled events through
`requeue` or `requeue_preserve_timestamps`: every accepted event is in exactly one place, and a batch
handed back below the cap is in the queue again, with its events and its cancelled events. -/
theorem conserved_of_handsBackWhole {s : Ledger} (h : (ledger.guard HandsBackWhole).Reachable s) :
    s.Conserved ∧ ∀ a s' b, HandsBackWhole s a → step s a = some s' → handedBack a = some b →
      ¬ DeadLetters s a →
      b.events.length + (listAt s.queue.queues b.channelId).length ≤ maxPendingPerChannel →
        s'.queue.stored.Perm (s.queue.stored ++ b.items) := by
  constructor
  · exact StateMachine.reachable_guard (I := Ledger.Conserved) (fun _ => conserved_init)
      (fun _ _ _ hI hG hs => conserved_step hI hG hs) h
  · exact fun _ _ _ hwhole hs hb hdead hcap => stored_of_handedBack hwhole hs hb hdead hcap

/-! ### A run that loses an event -/

def plainEvent (n : Nat) : Event := ⟨BitVec.ofNat 256 n, 0, UInt64.ofNat n, 1, []⟩

/-- It, received for the channel `7`. -/
def plainBatchEvent (n : Nat) : BatchEvent := ⟨plainEvent n, "mention", n⟩

def cancelledBatch : FlushBatch := ⟨7, [plainBatchEvent 1], [], none⟩

/-- The batch that merges it with a new event. -/
def mergedBatch : FlushBatch := ⟨7, [plainBatchEvent 2], [plainBatchEvent 1], some .steer⟩

/-- A turn is cancelled, and its event is merged into the batch of the next one. -/
def mergeRun : List Action :=
  [.push ((plainBatchEvent 1).toQueuedEvent 7), .flushNext 10 7,
    .requeueAsCancelled cancelledBatch .steer, .markComplete 7 11,
    .push ((plainBatchEvent 2).toQueuedEvent 7), .flushNext 12 7]

def emptyLedger : Ledger := ⟨EventQueue.new .queue, [], [], [], []⟩

theorem emptyLedger_init : ledger.Init emptyLedger := ⟨⟨.queue, _, rfl⟩, rfl, rfl, rfl, rfl⟩

theorem conserved_mergeRun : ∃ s, (ledger.guard HandsBackWhole).run emptyLedger mergeRun = some s ∧
    s.outstanding = [mergedBatch] ∧ s.Conserved := by
  have hrun : ((ledger.guard HandsBackWhole).run emptyLedger mergeRun).any
      (fun s => decide (s.outstanding = [mergedBatch])) = true := by decide +kernel
  obtain ⟨s, hs, hcheck⟩ := (any_eq_true _ _).mp hrun
  have hreach : (ledger.guard HandsBackWhole).Reachable s := ⟨_, _, emptyLedger_init, hs⟩
  exact ⟨s, hs, of_decide_eq_true hcheck, (conserved_of_handsBackWhole hreach).1⟩

/-- No agent is free for the merged batch, and it goes back without its cancelled event. -/
theorem not_conserved_handBackMerged : ¬ ∀ s, ledger.Reachable s → s.Conserved := by
  intro hall
  have hrun : (ledger.run emptyLedger
      (mergeRun ++ [.requeuePreserveTimestamps mergedBatch, .markComplete 7 13])).any
        (fun s => !decide (s.accepted.Perm s.places)) = true := by decide +kernel
  obtain ⟨s, hs, hcheck⟩ := (any_eq_true _ _).mp hrun
  have hlost : ¬ s.accepted.Perm s.places := by
    simpa only [Bool.not_eq_true', decide_eq_false_iff_not] using hcheck
  exact hlost (hall s ⟨_, _, emptyLedger_init, hs⟩)

end Buzz.Acp
