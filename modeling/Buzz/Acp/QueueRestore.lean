import Buzz.Acp.QueueScheduling

/-!
# A dispatch that finds no agent

`dispatch_pending` flushes a batch before it claims an agent. When none is free it hands the batch
back and completes the channel. The flush has sorted the batch by `created_at`, so what goes back to
the front of the queue is the drained prefix in that order, and the head of the queue, which decides
fairness, may be another event. A batch from the cancelled store goes into the queue, where it was
not.
-/

namespace Buzz.Acp

open List Option

namespace EventQueue

variable {q : EventQueue}

/-! ### What expiry changes -/

variable {now : Nat}

theorem expire_eq_self (h : ∀ id, ∀ t ∈ q.inFlightDeadlines.lookup id, now < t) :
    q.expire now = q := by
  have hnone : q.expiredChannels now = [] := by
    refine eq_nil_iff_forall_not_mem.mpr fun id hid => ?_
    obtain ⟨t, hlookup, ht⟩ := mem_expiredChannels.mp hid
    have := h id t hlookup
    omega
  rw [expire, hnone]
  rfl

/-- What the expiry block puts back into the queue of a channel. -/
def recovered (q : EventQueue) (now : Nat) (id : Uuid) : List QueuedEvent :=
  if id ∈ q.expiredChannels now then listAt q.withheldNativeSteer id else []

theorem listAt_withheld_expireOne (i id : Uuid) :
    listAt (q.expireOne i).withheldNativeSteer id =
      if id = i then [] else listAt q.withheldNativeSteer id := by
  rw [expireOne, recoverWithheld]
  cases hlookup : q.withheldNativeSteer.lookup i with
  | none =>
    by_cases hid : id = i
    · subst hid
      simp [listAt_of_lookup_eq_none hlookup]
    · simp [hid]
  | some entries =>
    by_cases hid : id = i
    · subst hid
      simp [pushFront]
    · simp [pushFront, hid, listAt_erase_of_ne]

theorem listAt_queues_expireOne (h : q.Sound) (i id : Uuid) :
    listAt (q.expireOne i).queues id =
      if id = i then (listAt q.withheldNativeSteer i ++ listAt q.queues i).take maxPendingPerChannel
      else listAt q.queues id := by
  rw [expireOne, recoverWithheld]
  cases hlookup : q.withheldNativeSteer.lookup i with
  | none =>
    by_cases hid : id = i
    · subst hid
      rw [if_pos rfl, listAt_of_lookup_eq_none hlookup, nil_append,
        take_of_length_le (h.length_le id)]
    · rw [if_neg hid]
  | some entries =>
    by_cases hid : id = i
    · subst hid
      simp [pushFront, listAt_of_lookup_eq_some hlookup]
    · simp [pushFront, hid, listAt_insert_of_ne]

theorem listAt_queues_foldl (h : q.Sound) (ids : List Uuid) (id : Uuid) :
    listAt (ids.foldl expireOne q).queues id =
      if id ∈ ids then
        (listAt q.withheldNativeSteer id ++ listAt q.queues id).take maxPendingPerChannel
      else listAt q.queues id := by
  induction ids generalizing q with
  | nil => simp
  | cons i ids ih =>
    rw [foldl_cons, ih (h.expireOne i), listAt_queues_expireOne h,
      listAt_withheld_expireOne]
    by_cases hid : id = i
    · subst hid
      simp [take_take]
    · simp [hid]

/-- **The expiry block** puts the recovered events in front and trims the back. -/
theorem listAt_queues_expire (h : q.Sound) (now : Nat) (id : Uuid) :
    listAt (q.expire now).queues id =
      (q.recovered now id ++ listAt q.queues id).take maxPendingPerChannel := by
  rw [expire, listAt_queues_foldl h, recovered]
  split
  · rfl
  · rw [nil_append, take_of_length_le (h.length_le id)]

/-! ### The drained prefix, sorted and put back -/

variable {id : Uuid}

theorem map_toQueuedEvent {l : List QueuedEvent} (h : ∀ qe ∈ l, qe.channelId = id) :
    (l.map QueuedEvent.toBatchEvent).map (fun be => be.toQueuedEvent id) = l := by
  rw [List.map_map]
  refine (List.map_congr_left ?_).trans (List.map_id l)
  intro qe hqe
  rw [← h qe hqe]
  rfl

theorem map_toBatchEvent (id : Uuid) (l : List BatchEvent) :
    (l.map fun be => be.toQueuedEvent id).map QueuedEvent.toBatchEvent = l := by
  rw [List.map_map]
  exact List.map_id l

@[simp] theorem length_sortByCreatedAt (l : List BatchEvent) :
    (sortByCreatedAt l).length = l.length :=
  (perm_insertionSort _ l).length_eq

theorem sortByCreatedAt_eq_iff {l : List BatchEvent} :
    sortByCreatedAt l = l ↔ l.Pairwise fun a b => a.event.createdAt ≤ b.event.createdAt := by
  constructor
  · intro h
    rw [← h]
    have : Std.Total fun a b : BatchEvent => a.event.createdAt ≤ b.event.createdAt :=
      ⟨fun a b => UInt64.le_total a.event.createdAt b.event.createdAt⟩
    have : IsTrans BatchEvent fun a b => a.event.createdAt ≤ b.event.createdAt :=
      ⟨fun _ _ _ => UInt64.le_trans⟩
    exact pairwise_insertionSort _ l
  · exact List.Pairwise.insertionSort_eq

theorem sortByCreatedAt_sortByCreatedAt (l : List BatchEvent) :
    sortByCreatedAt (sortByCreatedAt l) = sortByCreatedAt l := by
  have : Std.Total fun a b : BatchEvent => a.event.createdAt ≤ b.event.createdAt :=
    ⟨fun a b => UInt64.le_total a.event.createdAt b.event.createdAt⟩
  have : IsTrans BatchEvent fun a b => a.event.createdAt ≤ b.event.createdAt :=
    ⟨fun _ _ _ => UInt64.le_trans⟩
  exact sortByCreatedAt_eq_iff.mpr (pairwise_insertionSort _ l)

/-- The events of a drained batch as they go back to the front of the queue. -/
def comesBack (id : Uuid) (queue : List QueuedEvent) : List QueuedEvent :=
  (sortByCreatedAt ((queue.take maxBatchEvents).map QueuedEvent.toBatchEvent)).map
    fun be => be.toQueuedEvent id

@[simp] theorem length_comesBack (id : Uuid) (queue : List QueuedEvent) :
    (comesBack id queue).length = min maxBatchEvents queue.length := by
  simp [comesBack]

theorem length_comesBack_append (id : Uuid) (queue : List QueuedEvent) :
    (comesBack id queue ++ queue.drop maxBatchEvents).length = queue.length := by
  rw [length_append, length_comesBack, length_drop]
  omega

theorem comesBack_append_eq_iff {queue : List QueuedEvent}
    (hown : ∀ qe ∈ queue, qe.channelId = id) :
    comesBack id queue ++ queue.drop maxBatchEvents = queue ↔
      (queue.take maxBatchEvents).Pairwise fun a b => a.event.createdAt ≤ b.event.createdAt := by
  have hsorted : ((queue.take maxBatchEvents).map QueuedEvent.toBatchEvent).Pairwise
      (fun a b => a.event.createdAt ≤ b.event.createdAt) ↔
        (queue.take maxBatchEvents).Pairwise fun a b => a.event.createdAt ≤ b.event.createdAt :=
    pairwise_map
  rw [← hsorted, ← sortByCreatedAt_eq_iff]
  constructor
  · intro heq
    have happ : comesBack id queue ++ queue.drop maxBatchEvents =
        queue.take maxBatchEvents ++ queue.drop maxBatchEvents := by
      rw [heq, take_append_drop]
    have hfront := congrArg (map QueuedEvent.toBatchEvent) (append_inj_left' happ rfl)
    rwa [comesBack, map_toBatchEvent] at hfront
  · intro heq
    rw [comesBack, heq, map_toQueuedEvent fun qe hqe => hown qe (mem_of_mem_take hqe),
      take_append_drop]

/-! ### Returning a batch -/

/-- What `dispatch_pending` does with a flushed batch when no agent is free. -/
def returnUnclaimed (q : EventQueue) (b : FlushBatch) (now : Nat) : EventQueue :=
  (q.requeuePreserveTimestamps b).markComplete b.channelId now

section Return

variable (q : EventQueue) (b : FlushBatch) (now : Nat)

@[simp] theorem queues_returnUnclaimed :
    (q.returnUnclaimed b now).queues = (q.requeuePreserveTimestamps b).queues := by
  rw [returnUnclaimed, markComplete]
  split
  · split <;> rfl
  · rfl

@[simp] theorem inFlightChannels_returnUnclaimed :
    (q.returnUnclaimed b now).inFlightChannels = q.inFlightChannels.erase b.channelId := by
  rw [returnUnclaimed, markComplete]
  split
  · split <;> rfl
  · rfl

@[simp] theorem inFlightDeadlines_returnUnclaimed :
    (q.returnUnclaimed b now).inFlightDeadlines = q.inFlightDeadlines.erase b.channelId := by
  rw [returnUnclaimed, markComplete]
  split
  · split <;> rfl
  · rfl

@[simp] theorem cancelledBatches_returnUnclaimed :
    (q.returnUnclaimed b now).cancelledBatches = q.cancelledBatches := by
  rw [returnUnclaimed, markComplete]
  split
  · split <;> rfl
  · rfl

theorem passed_returnUnclaimed (other : Uuid) :
    (∀ t ∈ (q.returnUnclaimed b now).retryAfter.lookup other, t ≤ now) ↔
      ∀ t ∈ q.retryAfter.lookup other, t ≤ now := by
  rw [returnUnclaimed, lookup_retryAfter_markComplete]
  by_cases hother : other = b.channelId
  · subst hother
    rw [if_pos rfl]
    show (∀ t ∈ (q.retryAfter.lookup b.channelId).filter _, t ≤ now) ↔ _
    cases q.retryAfter.lookup b.channelId with
    | none => simp
    | some deadline =>
      by_cases hactive : now < deadline
      · simp [hactive]
      · simp only [hactive, decide_false, Option.filter, Bool.false_eq_true, if_false]
        simpa using hactive
  · rw [if_neg hother]
    rfl

end Return

/-- The dispatch cannot be seen: the queue of the channel is what it was, every channel has its
place in the fairness order, and a flush at the same instant can pick the channel again. A tie with
the head of another channel is broken by the iteration order, as at the first flush. -/
structure Invisible (q q' : EventQueue) (now : Nat) (id : Uuid) : Prop where
  queue : listAt q'.queues id = listAt q.queues id
  ready : ∀ other, q'.Ready now other ↔ (q.expire now).Ready now other
  head : ∀ other, q'.headReceivedAt other = (q.expire now).headReceivedAt other
  again : ∃ q₂ b, q'.flushNext now id = some (q₂, some b) ∧ b.channelId = id

/-- The recovered events push equal ones out of a full queue. -/
structure Replaced (q : EventQueue) (now : Nat) (id : Uuid) : Prop where
  /-- In `created_at` order, the first events are those of the queue. -/
  first : sortByCreatedAt ((listAt (q.expire now).queues id |>.take maxBatchEvents).map
      QueuedEvent.toBatchEvent) =
    (listAt q.queues id |>.take maxBatchEvents).map QueuedEvent.toBatchEvent
  rest : (listAt (q.expire now).queues id).drop maxBatchEvents =
    (listAt q.queues id).drop maxBatchEvents
  head : q.headReceivedAt id = (q.expire now).headReceivedAt id

/-- The batch that a flush drains is in `created_at` order already: the channel has queued events and
no throttle, its first events are sorted, and the flush recovers no withheld events into its queue,
or only such as make no difference. -/
structure Restorable (q : EventQueue) (now : Nat) (id : Uuid) : Prop where
  ready : (q.expire now).Ready now id
  sorted : ((listAt q.queues id).take maxBatchEvents).Pairwise
    fun a b => a.event.createdAt ≤ b.event.createdAt
  recovered : q.recovered now id = [] ∨ q.Replaced now id

theorem lt_of_mem_expire {t : Nat} (h : t ∈ (q.expire now).inFlightDeadlines.lookup id) :
    now < t := by
  rw [expire, lookup_foldl_expireOne] at h
  split at h
  · cases h
  · next hnot =>
    by_contra hlt
    exact hnot (mem_expiredChannels.mpr ⟨t, h, by omega⟩)

variable {x : EventQueue}

theorem expire_returned {b : FlushBatch} {size : Nat}
    (h : ∀ id, ∀ t ∈ x.inFlightDeadlines.lookup id, now < t) :
    ((x.markInFlight b.channelId now size).returnUnclaimed b now).expire now =
      (x.markInFlight b.channelId now size).returnUnclaimed b now := by
  refine expire_eq_self fun id t ht => ?_
  rw [inFlightDeadlines_returnUnclaimed] at ht
  by_cases hid : id = b.channelId
  · subst hid
    rw [AList.lookup_erase] at ht
    nomatch ht
  · rw [AList.lookup_erase_ne hid, markInFlight, AList.lookup_insert_ne hid] at ht
    exact h id t ht

theorem flushNext_of_mem_oldestReady (hexpired : x.expire now = x) (hold : id ∈ x.oldestReady now) :
    ∃ x' b, x.flushNext now id = some (x', some b) ∧ b.channelId = id := by
  have hsome : x.readyChannels now ≠ [] := ne_nil_of_mem (mem_filter.mp hold).1
  refine ⟨(x.flushQueued now id).1, (x.flushQueued now id).2, ?_, rfl⟩
  simp only [flushNext, hexpired, if_neg hsome, if_pos hold]

theorem expire_returned_flushQueued (now : Nat) (id : Uuid) :
    (((q.expire now).flushQueued now id).1.returnUnclaimed
      ((q.expire now).flushQueued now id).2 now).expire now =
        ((q.expire now).flushQueued now id).1.returnUnclaimed
          ((q.expire now).flushQueued now id).2 now :=
  expire_returned (b := ((q.expire now).flushQueued now id).2)
    (x := { q.expire now with
      queues := putBack (q.expire now).queues id
        ((listAt (q.expire now).queues id).drop maxBatchEvents)
      cancelledBatches := (q.expire now).cancelledBatches.erase id
      cancelReasons := (q.expire now).cancelReasons.erase id })
    fun _ _ ht => lt_of_mem_expire (q := q) ht

theorem expire_returned_flushCancelled (now : Nat) (id : Uuid) :
    (((q.expire now).flushCancelled now id).1.returnUnclaimed
      ((q.expire now).flushCancelled now id).2 now).expire now =
        ((q.expire now).flushCancelled now id).1.returnUnclaimed
          ((q.expire now).flushCancelled now id).2 now :=
  expire_returned (b := ((q.expire now).flushCancelled now id).2)
    (x := { q.expire now with
      cancelledBatches := (q.expire now).cancelledBatches.erase id
      cancelReasons := (q.expire now).cancelReasons.erase id })
    fun _ _ ht => lt_of_mem_expire (q := q) ht

theorem listAt_queues_returned (x : EventQueue) (now : Nat) (id other : Uuid) :
    listAt ((x.flushQueued now id).1.returnUnclaimed (x.flushQueued now id).2 now).queues other =
      if other = id then
        (comesBack id (listAt x.queues id) ++
          (listAt x.queues id).drop maxBatchEvents).take maxPendingPerChannel
      else listAt x.queues other := by
  have hrest : listAt (x.flushQueued now id).1.queues other =
      if other = id then (listAt x.queues id).drop maxBatchEvents else listAt x.queues other := by
    exact listAt_putBack x.queues id _ other
  rw [queues_returnUnclaimed, requeuePreserveTimestamps, pushFront]
  by_cases hother : other = id
  · subst hother
    rw [if_pos rfl] at hrest ⊢
    rw [← hrest]
    exact listAt_insert_self _ _ _
  · rw [if_neg hother] at hrest ⊢
    rw [← hrest]
    exact listAt_insert_of_ne _ hother _

theorem ready_returned (hready : x.Ready now id) (other : Uuid) :
    ((x.flushQueued now id).1.returnUnclaimed (x.flushQueued now id).2 now).Ready now other ↔
      x.Ready now other := by
  have hpassed := passed_returnUnclaimed (x.flushQueued now id).1 (x.flushQueued now id).2 now other
  have hflight : other ∉ ((x.flushQueued now id).1.returnUnclaimed
      (x.flushQueued now id).2 now).inFlightChannels ↔ other ∉ x.inFlightChannels := by
    rw [inFlightChannels_returnUnclaimed]
    by_cases hother : other = id
    · subst hother
      simpa [flushQueued] using hready.2.1
    · simp [flushQueued, markInFlight, hother]
  rw [Ready, Ready, hpassed, hflight, listAt_queues_returned]
  refine and_congr_left fun _ => ?_
  by_cases hother : other = id
  · subst hother
    obtain ⟨qe, rest, hqueue⟩ := exists_cons_of_ne_nil hready.1
    rw [if_pos rfl, ← length_pos_iff_ne_nil, ← length_pos_iff_ne_nil, length_take,
      length_comesBack_append, hqueue]
    simp [maxPendingPerChannel]
  · rw [if_neg hother]

theorem comesBack_eq_take_iff {x y : List QueuedEvent} (hown : ∀ qe ∈ y, qe.channelId = id) :
    comesBack id x = y.take maxBatchEvents ↔
      sortByCreatedAt ((x.take maxBatchEvents).map QueuedEvent.toBatchEvent) =
        (y.take maxBatchEvents).map QueuedEvent.toBatchEvent := by
  constructor
  · intro heq
    rw [← heq, comesBack, map_toBatchEvent]
  · intro heq
    rw [comesBack, heq, map_toQueuedEvent fun qe hqe => hown qe (mem_of_mem_take hqe)]

theorem Restorable.comesBack_append (hr : q.Restorable now id) (h : q.Sound) :
    comesBack id (listAt (q.expire now).queues id) ++
        (listAt (q.expire now).queues id).drop maxBatchEvents = listAt q.queues id ∧
      q.headReceivedAt id = (q.expire now).headReceivedAt id := by
  have hown : ∀ qe ∈ listAt q.queues id, qe.channelId = id := fun qe hqe => h.own hqe
  rcases hr.recovered with hnone | hreplaced
  · have hsame : listAt (q.expire now).queues id = listAt q.queues id := by
      rw [listAt_queues_expire h, hnone, nil_append,
        take_of_length_le (h.length_le id)]
    refine ⟨?_, by rw [headReceivedAt, headReceivedAt, hsame]⟩
    rw [hsame]
    exact (comesBack_append_eq_iff hown).mpr hr.sorted
  · refine ⟨?_, hreplaced.head⟩
    simp [(comesBack_eq_take_iff hown).mpr hreplaced.first, hreplaced.rest]

theorem restorable_of_comesBack (h : q.Sound) (hready : (q.expire now).Ready now id)
    (hback : comesBack id (listAt (q.expire now).queues id) ++
      (listAt (q.expire now).queues id).drop maxBatchEvents = listAt q.queues id)
    (hhead : q.headReceivedAt id = (q.expire now).headReceivedAt id) : q.Restorable now id := by
  have hown : ∀ qe ∈ listAt q.queues id, qe.channelId = id := fun qe hqe => h.own hqe
  -- both lists are as long as the queue, so they split at the same place
  have hlength : (listAt (q.expire now).queues id).length = (listAt q.queues id).length := by
    rw [← hback, length_comesBack_append]
  obtain ⟨hfront, hrest⟩ := append_inj
    (hback.trans (take_append_drop maxBatchEvents (listAt q.queues id)).symm)
    (by rw [length_comesBack, length_take, hlength])
  have hfirst := (comesBack_eq_take_iff hown).mp hfront
  have hsorted : ((listAt q.queues id).take maxBatchEvents).Pairwise
      fun a b => a.event.createdAt ≤ b.event.createdAt := by
    have : sortByCreatedAt (((listAt q.queues id).take maxBatchEvents).map
        QueuedEvent.toBatchEvent) =
          ((listAt q.queues id).take maxBatchEvents).map QueuedEvent.toBatchEvent := by
      rw [← hfirst]
      exact sortByCreatedAt_sortByCreatedAt _
    have hpairwise := sortByCreatedAt_eq_iff.mp this
    rwa [pairwise_map] at hpairwise
  exact ⟨hready, hsorted, Or.inr ⟨hfirst, hrest, hhead⟩⟩

/-- A batch from the cancelled store cannot be returned unseen: no queue was ready, so the channel
would have to be throttled, and then the next flush does not pick it. -/
theorem not_invisible_flushCancelled (hnone : (q.expire now).readyChannels now = []) :
    ¬ Invisible q (((q.expire now).flushCancelled now id).1.returnUnclaimed
      ((q.expire now).flushCancelled now id).2 now) now id := by
  intro hinv
  obtain ⟨q₂, b, hf, hb⟩ := hinv.again
  rcases flushNext_cases hf with ⟨-, hno, -⟩ | ⟨-, -, -, hwaiting⟩ | ⟨-, -, hold⟩
  · nomatch hno
  · -- the cancelled events are in the queue now
    rw [expire_returned_flushCancelled] at hwaiting
    obtain ⟨hkey, -⟩ := mem_filter.mp hwaiting
    rw [cancelledBatches_returnUnclaimed] at hkey
    exact (AList.mem_erase.mp (AList.mem_keys.mpr hkey)).1 rfl
  · rw [expire_returned_flushCancelled] at hold
    have hready := mem_readyChannels.mpr ((hinv.ready id).mp (mem_oldestReady.mp hold).1)
    rw [hnone] at hready
    nomatch hready

theorem flushNext_returned (hold : id ∈ (q.expire now).oldestReady now)
    (hhead : ∀ other,
      (((q.expire now).flushQueued now id).1.returnUnclaimed ((q.expire now).flushQueued now id).2
        now).headReceivedAt other = (q.expire now).headReceivedAt other) :
    ∃ q₂ b, (((q.expire now).flushQueued now id).1.returnUnclaimed
      ((q.expire now).flushQueued now id).2 now).flushNext now id = some (q₂, some b) ∧
        b.channelId = id := by
  obtain ⟨hready, hleast⟩ := mem_oldestReady.mp hold
  refine flushNext_of_mem_oldestReady (expire_returned_flushQueued now id) ?_
  refine mem_oldestReady.mpr ⟨(ready_returned hready id).mpr hready, fun other hother => ?_⟩
  rw [hhead, hhead]
  exact hleast other ((ready_returned hready other).mp hother)

theorem invisible_flushQueued_iff (h : q.Sound) (hold : id ∈ (q.expire now).oldestReady now) :
    Invisible q (((q.expire now).flushQueued now id).1.returnUnclaimed
      ((q.expire now).flushQueued now id).2 now) now id ↔ q.Restorable now id := by
  have hready := (mem_oldestReady.mp hold).1
  have hlength : (comesBack id (listAt (q.expire now).queues id) ++
      (listAt (q.expire now).queues id).drop maxBatchEvents).length ≤ maxPendingPerChannel := by
    rw [length_comesBack_append]
    exact (h.expire now).length_le id
  have hqueue := listAt_queues_returned (q.expire now) now id id
  rw [if_pos rfl, take_of_length_le hlength] at hqueue
  constructor
  · intro hinv
    refine restorable_of_comesBack h hready (hqueue.symm.trans hinv.queue) ?_
    rw [← hinv.head id, headReceivedAt, headReceivedAt, hinv.queue]
  · intro hr
    obtain ⟨hback, hsame⟩ := hr.comesBack_append h
    have hhead (other : Uuid) : (((q.expire now).flushQueued now id).1.returnUnclaimed
        ((q.expire now).flushQueued now id).2 now).headReceivedAt other =
          (q.expire now).headReceivedAt other := by
      by_cases hother : other = id
      · subst hother
        rw [← hsame, headReceivedAt, headReceivedAt, hqueue, hback]
      · rw [headReceivedAt, headReceivedAt, listAt_queues_returned, if_neg hother]
    exact
      { queue := hqueue.trans hback
        ready := ready_returned hready
        head := hhead
        again := flushNext_returned hold hhead }

end EventQueue

/-- **A dispatch that finds no agent** cannot be seen exactly when the batch was drained in
`created_at` order from the queue of a ready channel. -/
theorem restored_iff {s : Issuing} (h : scheduler.Reachable s) {now : Nat} {choice : Uuid}
    {q' : EventQueue} {b : FlushBatch} (hf : s.queue.flushNext now choice = some (q', some b)) :
    EventQueue.Invisible s.queue (q'.returnUnclaimed b now) now b.channelId ↔
      s.queue.Restorable now b.channelId := by
  have hsound := (sound_of_reachable h).1
  rcases EventQueue.flushNext_cases hf with
    ⟨-, hno, -⟩ | ⟨rfl, hb, hnone, -⟩ | ⟨rfl, hb, hold⟩
  · nomatch hno
  · obtain rfl := some.inj hb
    refine iff_of_false (EventQueue.not_invisible_flushCancelled hnone) fun hr => ?_
    have := EventQueue.mem_readyChannels.mpr hr.ready
    rw [hnone] at this
    nomatch this
  · obtain rfl := some.inj hb
    exact EventQueue.invisible_flushQueued_iff hsound hold

/-! ### Newest first, and in order -/

/-- An event of the `n`th second that was received at another instant. -/
def lateBatchEvent (n receivedAt : Nat) : BatchEvent := ⟨plainEvent n, "mention", receivedAt⟩

/-- The relay replays two events of a channel newest first; another channel gets one in between. -/
def newestFirstRun : List Action :=
  [.push ((lateBatchEvent 2 1).toQueuedEvent 7), .push ((lateBatchEvent 5 2).toQueuedEvent 8),
    .push ((lateBatchEvent 1 3).toQueuedEvent 7)]

/-- The same events, the first channel's oldest first. -/
def oldestFirstRun : List Action :=
  [.push ((lateBatchEvent 1 1).toQueuedEvent 7), .push ((lateBatchEvent 5 2).toQueuedEvent 8),
    .push ((lateBatchEvent 2 3).toQueuedEvent 7)]

/-- The events of a channel change places, the other channel goes first now, and the next flush
cannot pick the channel again. -/
theorem not_restored_newestFirst :
    ∃ s q' b, scheduler.Reachable s ∧ s.queue.flushNext 10 7 = some (q', some b) ∧
      b.cancelledEvents = [] ∧
      listAt (q'.returnUnclaimed b 10).queues 7 ≠ listAt s.queue.queues 7 ∧
      (q'.returnUnclaimed b 10).headReceivedAt 7 ≠ s.queue.headReceivedAt 7 ∧
      (q'.returnUnclaimed b 10).flushNext 10 7 = none := by
  have hrun : (scheduler.run ⟨EventQueue.new .queue, []⟩ newestFirstRun).any (fun s =>
      (s.queue.flushNext 10 7).any fun r => r.2.any fun b =>
        decide (b.cancelledEvents = []) &&
        decide (listAt (r.1.returnUnclaimed b 10).queues 7 ≠ listAt s.queue.queues 7) &&
        decide ((r.1.returnUnclaimed b 10).headReceivedAt 7 ≠ s.queue.headReceivedAt 7) &&
        ((r.1.returnUnclaimed b 10).flushNext 10 7).isNone) = true := by decide +kernel
  obtain ⟨s, hs, hcheck⟩ := (any_eq_true _ _).mp hrun
  obtain ⟨⟨q', r⟩, hflush, hcheck⟩ := (any_eq_true _ _).mp hcheck
  obtain ⟨b, hb, hcheck⟩ := (any_eq_true _ _).mp hcheck
  simp only [Bool.and_eq_true, decide_eq_true_eq, isNone_iff_eq_none] at hcheck
  obtain ⟨⟨⟨hcancelled, hqueue⟩, hhead⟩, hagain⟩ := hcheck
  obtain rfl : r = some b := hb
  exact ⟨s, q', b, ⟨_, _, ⟨⟨.queue, _, rfl⟩, rfl⟩, hs⟩, hflush, hcancelled, hqueue, hhead, hagain⟩

theorem restored_iff_oldestFirst :
    ∃ s q' b, scheduler.run ⟨EventQueue.new .queue, []⟩ oldestFirstRun = some s ∧
      s.queue.flushNext 10 7 = some (q', some b) ∧ b.cancelledEvents = [] ∧
      EventQueue.Invisible s.queue (q'.returnUnclaimed b 10) 10 b.channelId := by
  have hrun : (scheduler.run ⟨EventQueue.new .queue, []⟩ oldestFirstRun).any (fun s =>
      (s.queue.flushNext 10 7).any fun r => r.2.any fun b =>
        decide (b.channelId = 7) && decide (b.cancelledEvents = []) &&
        decide (7 ∈ (s.queue.expire 10).readyChannels 10) &&
        decide (((listAt s.queue.queues 7).take maxBatchEvents).Pairwise
          fun a b => a.event.createdAt ≤ b.event.createdAt) &&
        decide (s.queue.recovered 10 7 = [])) = true := by decide +kernel
  obtain ⟨s, hs, hcheck⟩ := (any_eq_true _ _).mp hrun
  obtain ⟨⟨q', r⟩, hflush, hcheck⟩ := (any_eq_true _ _).mp hcheck
  obtain ⟨b, hb, hcheck⟩ := (any_eq_true _ _).mp hcheck
  simp only [Bool.and_eq_true, decide_eq_true_eq] at hcheck
  obtain ⟨⟨⟨⟨hid, hcancelled⟩, hready⟩, hsorted⟩, hrecovered⟩ := hcheck
  obtain rfl : r = some b := hb
  refine ⟨s, q', b, hs, hflush, hcancelled, ?_⟩
  refine (restored_iff (s := s) ⟨_, _, ⟨⟨.queue, _, rfl⟩, rfl⟩, hs⟩ hflush).mpr ?_
  rw [hid]
  exact ⟨EventQueue.mem_readyChannels.mp hready, hsorted, Or.inl hrecovered⟩

end Buzz.Acp
