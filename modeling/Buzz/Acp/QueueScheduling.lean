import Buzz.Acp.QueueConservation
import Mathlib.Data.List.MinMax

/-!
# What the event queue schedules

The three in-flight maps have the same keys, no stored queue is empty or over the cap, and the two
scheduling predicates, which are separate code, agree. All of it is one invariant of the queue
together with the batches that it has given out: a batch is not empty, so handing it back, once or
several times, leaves no empty queue behind.
-/

namespace Buzz.Acp

open List

/-- A queue as it may be stored: not empty, within the cap, and of its own channel. -/
def Stocked (id : Uuid) (queue : List QueuedEvent) : Prop :=
  queue ≠ [] ∧ queue.length ≤ maxPendingPerChannel ∧ ∀ qe ∈ queue, qe.channelId = id

/-- Withheld events as they may be stored. -/
def Withheld (id : Uuid) (entries : List QueuedEvent) : Prop :=
  entries ≠ [] ∧ ∀ qe ∈ entries, qe.channelId = id

namespace EventQueue

variable (q : EventQueue)

/-- May this channel be flushed: has it queued events, no batch in flight and no throttle? -/
def Ready (now : Nat) (id : Uuid) : Prop :=
  listAt q.queues id ≠ [] ∧ id ∉ q.inFlightChannels ∧ ∀ t ∈ q.retryAfter.lookup id, t ≤ now

/-- What the queue maintains: the in-flight maps have the same keys, and every stored queue is
stocked. -/
structure Scheduled : Prop where
  deadlines : ∀ id, id ∈ q.inFlightDeadlines ↔ id ∈ q.inFlightChannels
  sizes : ∀ id, id ∈ q.inFlightBatchSizes ↔ id ∈ q.inFlightChannels
  queues : EachList Stocked q.queues

/-- The invariant, with what it needs of the side stores. -/
structure Sound : Prop extends Scheduled q where
  withheld : EachList Withheld q.withheldNativeSteer
  cancelled : EachList (fun _ events => events ≠ []) q.cancelledBatches

/-! ### Stored queues -/

variable {id : Uuid} {l : List QueuedEvent}

theorem putBack_each {P : Uuid → List QueuedEvent → Prop}
    {m : AList fun _ : Uuid => List QueuedEvent} (h : EachList P m) (hl : l ≠ [] → P id l) :
    EachList P (putBack m id l) := by
  rw [putBack]
  split
  · exact h.erase id
  · next hne => exact h.insert (hl hne)

theorem Stocked.sublist {l' : List QueuedEvent} (h : l ≠ [] → Stocked id l) (hsub : l'.Sublist l)
    (hne : l' ≠ []) : Stocked id l' := by
  have hl : l ≠ [] := by
    rintro rfl
    exact hne (sublist_nil.mp hsub)
  obtain ⟨-, hlen, hown⟩ := h hl
  exact ⟨hne, hsub.length_le.trans hlen, fun qe hqe => hown qe (hsub.subset hqe)⟩

theorem Withheld.sublist {l' : List QueuedEvent} (h : l ≠ [] → Withheld id l)
    (hsub : l'.Sublist l) (hne : l' ≠ []) : Withheld id l' := by
  have hl : l ≠ [] := by
    rintro rfl
    exact hne (sublist_nil.mp hsub)
  exact ⟨hne, fun qe hqe => (h hl).2 qe (hsub.subset hqe)⟩

variable {q}

theorem Sound.own (h : q.Sound) {qe : QueuedEvent} (hqe : qe ∈ listAt q.queues id) :
    qe.channelId = id :=
  (h.queues.at (ne_nil_of_mem hqe)).2.2 qe hqe

theorem Sound.length_le (h : q.Sound) (id : Uuid) :
    (listAt q.queues id).length ≤ maxPendingPerChannel := by
  by_cases hne : listAt q.queues id = []
  · rw [hne]
    exact Nat.zero_le _
  · exact (h.queues.at hne).2.1

/-! ### One operation -/

theorem sound_new (mode : DedupMode) (deadline : Nat) :
    ({ new mode with inFlightDeadline := deadline }).Sound where
  deadlines id := by simp [new, AList.mem_keys, AList.keys_empty]
  sizes id := by simp [new, AList.mem_keys, AList.keys_empty]
  queues := eachList_empty _
  withheld := eachList_empty _
  cancelled := eachList_empty _

theorem Sound.push (h : q.Sound) (event : QueuedEvent) : (q.push event).1.Sound := by
  rw [EventQueue.push]
  split
  · exact h
  · refine { h with queues := h.queues.insert ⟨by simp, ?_, ?_⟩ }
    · have hlen := h.length_le event.channelId
      rw [length_append, length_singleton]
      split
      · rw [length_tail]
        unfold maxPendingPerChannel at *
        omega
      · omega
    · intro qe hqe
      rcases mem_append.mp hqe with hold | hnew
      · refine h.own ?_
        split at hold
        · exact mem_of_mem_tail hold
        · exact hold
      · rw [mem_singleton.mp hnew]

theorem Sound.pushFront (h : q.Sound) {events : List QueuedEvent} (hne : events ≠ [])
    (hown : ∀ qe ∈ events, qe.channelId = id) : (q.pushFront id events).Sound := by
  refine { h with queues := h.queues.insert ⟨?_, ?_, ?_⟩ }
  · obtain ⟨qe, rest, rfl⟩ := exists_cons_of_ne_nil hne
    simp [maxPendingPerChannel]
  · exact length_take_le _ _
  · intro qe hqe
    rcases mem_append.mp (mem_of_mem_take hqe) with hnew | hold
    · exact hown qe hnew
    · exact h.own hold

theorem Sound.recoverWithheld (h : q.Sound) (id : Uuid) : (q.recoverWithheld id).Sound := by
  rw [EventQueue.recoverWithheld]
  cases hlookup : q.withheldNativeSteer.lookup id with
  | none => exact h
  | some entries =>
    obtain ⟨hne, hown⟩ := h.withheld id entries hlookup
    have hcleared : ({ q with withheldNativeSteer := q.withheldNativeSteer.erase id }).Sound :=
      { h with withheld := h.withheld.erase id }
    exact hcleared.pushFront hne hown

theorem Sound.leave (h : q.Sound) (id : Uuid) :
    ({ q with
      inFlightBatchSizes := q.inFlightBatchSizes.erase id
      inFlightChannels := q.inFlightChannels.erase id
      inFlightDeadlines := q.inFlightDeadlines.erase id }).Sound :=
  { h with
    deadlines := by
      intro id'
      simp only [AList.mem_erase, Finset.mem_erase, h.deadlines]
    sizes := by
      intro id'
      simp only [AList.mem_erase, Finset.mem_erase, h.sizes] }

theorem Sound.expireOne (h : q.Sound) (id : Uuid) : (q.expireOne id).Sound :=
  (h.leave id).recoverWithheld id

theorem Sound.expire (h : q.Sound) (now : Nat) : (q.expire now).Sound := by
  rw [EventQueue.expire]
  generalize q.expiredChannels now = ids
  induction ids generalizing q with
  | nil => exact h
  | cons id ids ih => exact ih (h.expireOne id)

theorem Sound.markInFlight (h : q.Sound) (id : Uuid) (now size : Nat) :
    (q.markInFlight id now size).Sound :=
  { h with
    deadlines := by
      intro id'
      simp only [EventQueue.markInFlight, AList.mem_insert, Finset.mem_insert, h.deadlines]
    sizes := by
      intro id'
      simp only [EventQueue.markInFlight, AList.mem_insert, Finset.mem_insert, h.sizes] }

theorem Sound.flushCancelled (h : q.Sound) (now : Nat) (id : Uuid) :
    (q.flushCancelled now id).1.Sound := by
  have hcleared : ({ q with
      cancelledBatches := q.cancelledBatches.erase id
      cancelReasons := q.cancelReasons.erase id }).Sound :=
    { h with cancelled := h.cancelled.erase id }
  exact hcleared.markInFlight id now _

theorem Sound.flushQueued (h : q.Sound) (now : Nat) (id : Uuid) :
    (q.flushQueued now id).1.Sound := by
  have hcleared : ({ q with
      queues := putBack q.queues id ((listAt q.queues id).drop maxBatchEvents)
      cancelledBatches := q.cancelledBatches.erase id
      cancelReasons := q.cancelReasons.erase id }).Sound :=
    { h with
      queues := putBack_each h.queues fun hne =>
        Stocked.sublist (h.queues.at) (drop_sublist _ _) hne
      cancelled := h.cancelled.erase id }
  exact hcleared.markInFlight id now _

variable {q' : EventQueue} {r : Option FlushBatch} {now : Nat} {choice : Uuid}

theorem flushNext_cases (hf : q.flushNext now choice = some (q', r)) :
    (q' = q.expire now ∧ r = none ∧ (q.expire now).readyChannels now = [] ∧
        (q.expire now).waitingCancelled = []) ∨
      (q' = ((q.expire now).flushCancelled now choice).1 ∧
        r = some ((q.expire now).flushCancelled now choice).2 ∧
        (q.expire now).readyChannels now = [] ∧ choice ∈ (q.expire now).waitingCancelled) ∨
      (q' = ((q.expire now).flushQueued now choice).1 ∧
        r = some ((q.expire now).flushQueued now choice).2 ∧
        choice ∈ (q.expire now).oldestReady now) := by
  rw [flushNext] at hf
  split at hf
  · next hready =>
    split at hf
    · next hwaiting =>
      cases hf
      exact Or.inl ⟨rfl, rfl, hready, hwaiting⟩
    · obtain ⟨hmem, hf⟩ := Option.ite_none_right_eq_some.mp hf
      cases hf
      exact Or.inr (Or.inl ⟨rfl, rfl, hready, hmem⟩)
  · obtain ⟨hmem, hf⟩ := Option.ite_none_right_eq_some.mp hf
    cases hf
    exact Or.inr (Or.inr ⟨rfl, rfl, hmem⟩)

theorem Sound.flushNext (h : q.Sound) (hf : q.flushNext now choice = some (q', r)) : q'.Sound := by
  rcases flushNext_cases hf with ⟨rfl, -⟩ | ⟨rfl, -⟩ | ⟨rfl, -⟩
  · exact h.expire now
  · exact (h.expire now).flushCancelled now choice
  · exact (h.expire now).flushQueued now choice

theorem Sound.markComplete (h : q.Sound) (id : Uuid) (now : Nat) :
    (q.markComplete id now).Sound := by
  have hleft := h.leave id
  rw [EventQueue.markComplete]
  split
  · split
    · exact hleft
    · exact { hleft with }
  · exact { hleft with }

variable {batch : FlushBatch}

theorem Sound.requeuePreserveTimestamps (h : q.Sound) (hne : batch.events ≠ []) :
    (q.requeuePreserveTimestamps batch).Sound := by
  refine h.pushFront (by simpa using hne) ?_
  intro qe hqe
  obtain ⟨be, -, rfl⟩ := mem_map.mp hqe
  rfl

theorem Sound.requeue (h : q.Sound) (hne : batch.events ≠ []) (now delay : Nat) :
    (q.requeue batch now delay).1.Sound := by
  rw [EventQueue.requeue]
  split
  · exact { h with }
  · exact { h.requeuePreserveTimestamps hne with }

theorem Sound.requeueAsCancelled (h : q.Sound) (hne : batch.events ≠ []) (reason : CancelReason) :
    (q.requeueAsCancelled batch reason).Sound :=
  { h with cancelled := h.cancelled.insert (append_ne_nil_of_right_ne_nil _ hne) }

theorem Sound.drainChannel (h : q.Sound) (id : Uuid) : (q.drainChannel id).1.Sound :=
  { h with
    queues := h.queues.erase id
    withheld := h.withheld.erase id
    cancelled := h.cancelled.erase id }

theorem Sound.markNativeSteerPending (h : q.Sound) (id : Uuid) (eventId : String) :
    (q.markNativeSteerPending id eventId).1.Sound := by
  rw [EventQueue.markNativeSteerPending]
  cases hfind : (listAt q.queues id).find? (hasId eventId) with
  | none => exact h
  | some qe =>
    have hmem := mem_of_find?_eq_some hfind
    refine { h with
      queues := putBack_each h.queues fun hne =>
        Stocked.sublist (h.queues.at) eraseP_sublist hne
      withheld := h.withheld.insert ⟨by simp, ?_⟩ }
    intro qe' hqe'
    rcases mem_append.mp hqe' with hold | hnew
    · exact (h.withheld.at (ne_nil_of_mem hold)).2 qe' hold
    · rw [mem_singleton.mp hnew]
      exact h.own hmem

theorem Sound.releaseNativeSteer (h : q.Sound) (id : Uuid) (eventId : String) :
    (q.releaseNativeSteer id eventId).Sound := by
  rw [EventQueue.releaseNativeSteer]
  cases hfind : (listAt q.withheldNativeSteer id).find? (hasId eventId) with
  | none => exact h
  | some qe =>
    have hmem := mem_of_find?_eq_some hfind
    have hown := (h.withheld.at (ne_nil_of_mem hmem)).2 qe hmem
    have hkept : ({ q with
        withheldNativeSteer := putBack q.withheldNativeSteer id
          ((listAt q.withheldNativeSteer id).eraseP (hasId eventId)) }).Sound :=
      { h with
        withheld := putBack_each h.withheld fun hne =>
          Withheld.sublist (h.withheld.at) eraseP_sublist hne }
    refine hkept.pushFront (cons_ne_nil qe []) ?_
    intro qe' hqe'
    rw [mem_singleton.mp hqe', hown]

theorem Sound.removeEvent (h : q.Sound) (id : Uuid) (eventId : String) :
    (q.removeEvent id eventId).Sound :=
  { h with
    queues := putBack_each h.queues fun hne =>
      Stocked.sublist (h.queues.at) filter_sublist hne
    withheld := putBack_each h.withheld fun hne =>
      Withheld.sublist (h.withheld.at) filter_sublist hne }

theorem Sound.extendInFlightDeadline (h : q.Sound) (id : Uuid) (maxTurnSecs now : Nat) :
    (q.extendInFlightDeadline id maxTurnSecs now).Sound := by
  rw [EventQueue.extendInFlightDeadline]
  cases hlookup : q.inFlightDeadlines.lookup id with
  | none => exact h
  | some current =>
    dsimp only
    split
    · refine { h with deadlines := ?_ }
      intro id'
      rw [AList.mem_insert, ← h.deadlines]
      constructor
      · rintro (rfl | hmem)
        · exact AList.lookup_isSome.mp (by rw [hlookup]; rfl)
        · exact hmem
      · exact Or.inr
    · exact h

/-! ### What a flush picks -/

theorem mem_readyChannels : id ∈ q.readyChannels now ↔ q.Ready now id := by
  have hlookup (queue : List QueuedEvent) :
      (⟨id, queue⟩ : Sigma fun _ : Uuid => List QueuedEvent) ∈ q.queues.entries ↔
        q.queues.lookup id = some queue := AList.mem_lookup_iff.symm
  simp only [readyChannels, mem_map, mem_filter, isReady, Bool.and_eq_true,
    Bool.not_eq_true', decide_eq_true_eq, Option.all_eq_true]
  constructor
  · rintro ⟨⟨id', queue⟩, ⟨hmem, ⟨hne, hflight⟩, hthrottle⟩, rfl⟩
    refine ⟨?_, hflight, ?_⟩
    · rw [listAt_of_lookup_eq_some (AList.mem_lookup_iff.mpr hmem)]
      simpa using hne
    · intro t ht
      exact hthrottle t ht
  · rintro ⟨hne, hflight, hthrottle⟩
    cases hqueue : q.queues.lookup id with
    | none => exact absurd (listAt_of_lookup_eq_none hqueue) hne
    | some queue =>
      rw [listAt_of_lookup_eq_some hqueue] at hne
      exact ⟨⟨id, queue⟩, ⟨(hlookup queue).mpr hqueue, ⟨by simpa using hne, hflight⟩,
        fun t ht => hthrottle t ht⟩, rfl⟩

theorem mem_oldestReady : id ∈ q.oldestReady now ↔
    q.Ready now id ∧ ∀ other, q.Ready now other → q.headReceivedAt id ≤ q.headReceivedAt other := by
  simp [oldestReady, mem_readyChannels]

variable {b : FlushBatch}

theorem Sound.events_ne_nil_of_flushNext (h : q.Sound)
    (hf : q.flushNext now choice = some (q', some b)) : b.channelId = choice ∧ b.events ≠ [] := by
  rcases flushNext_cases hf with ⟨-, hnone, -⟩ | ⟨-, hb, -, hwaiting⟩ | ⟨-, hb, hold⟩
  · nomatch hnone
  · cases hb
    refine ⟨rfl, ?_⟩
    obtain ⟨hkey, -⟩ := mem_filter.mp hwaiting
    obtain ⟨events, hlookup⟩ := Option.isSome_iff_exists.mp
      (AList.lookup_isSome.mpr (AList.mem_keys.mpr hkey))
    show listAt (q.expire now).cancelledBatches choice ≠ []
    rw [listAt_of_lookup_eq_some hlookup]
    exact (h.expire now).cancelled choice events hlookup
  · cases hb
    refine ⟨rfl, ?_⟩
    have hne := (mem_oldestReady.mp hold).1.1
    obtain ⟨qe, rest, hqueue⟩ := exists_cons_of_ne_nil hne
    intro hnil
    have hperm := (perm_insertionSort (fun a b : BatchEvent =>
      a.event.createdAt ≤ b.event.createdAt)
      (((listAt (q.expire now).queues choice).take maxBatchEvents).map
        QueuedEvent.toBatchEvent)).length_eq
    have hsorted : sortByCreatedAt (((listAt (q.expire now).queues choice).take maxBatchEvents).map
      QueuedEvent.toBatchEvent) = [] := hnil
    rw [← sortByCreatedAt, hsorted, hqueue] at hperm
    simp [maxBatchEvents] at hperm

theorem channelId_of_flushNext (hf : q.flushNext now choice = some (q', some b)) :
    b.channelId = choice := by
  rcases flushNext_cases hf with ⟨-, hnone, -⟩ | ⟨-, hb, -⟩ | ⟨-, hb, -⟩
  · nomatch hnone
  · cases hb
    rfl
  · cases hb
    rfl

theorem flushNext_notMem (hf : q.flushNext now choice = some (q', some b)) :
    b.channelId ∉ (q.expire now).inFlightChannels := by
  rcases flushNext_cases hf with ⟨-, hnone, -⟩ | ⟨-, hb, -, hwaiting⟩ | ⟨-, hb, hold⟩
  · nomatch hnone
  · cases hb
    exact of_decide_eq_true (mem_filter.mp hwaiting).2
  · cases hb
    exact (mem_oldestReady.mp hold).1.2.1

/-- When a channel with queued events is ready, a flush takes one whose head is oldest. -/
theorem flushNext_oldest (hf : q.flushNext now choice = some (q', some b)) {other : Uuid}
    (hother : (q.expire now).Ready now other) :
    (q.expire now).Ready now b.channelId ∧
      (q.expire now).headReceivedAt b.channelId ≤ (q.expire now).headReceivedAt other := by
  have hnone : (q.expire now).readyChannels now ≠ [] :=
    ne_nil_of_mem (mem_readyChannels.mpr hother)
  rcases flushNext_cases hf with ⟨-, -, hready, -⟩ | ⟨-, -, hready, -⟩ | ⟨-, hb, hold⟩
  · exact absurd hready hnone
  · exact absurd hready hnone
  · cases hb
    obtain ⟨hready, hleast⟩ := mem_oldestReady.mp hold
    exact ⟨hready, hleast other hother⟩

/-! ### The two predicates agree -/

theorem exists_oldestReady (h : q.readyChannels now ≠ []) : ∃ id, id ∈ q.oldestReady now := by
  cases hmin : (q.readyChannels now).argmin q.headReceivedAt with
  | none => exact absurd (argmin_eq_none.mp hmin) h
  | some id =>
    refine ⟨id, mem_oldestReady.mpr ⟨mem_readyChannels.mp (argmin_mem hmin), ?_⟩⟩
    intro other hother
    exact le_of_mem_argmin (mem_readyChannels.mpr hother) hmin

theorem exists_flushNext (now : Nat) : ∃ choice r, q.flushNext now choice = some r := by
  by_cases hready : (q.expire now).readyChannels now = []
  · by_cases hwaiting : (q.expire now).waitingCancelled = []
    · exact ⟨0, _, by simp only [flushNext, if_pos hready, if_pos hwaiting]; rfl⟩
    · obtain ⟨id, hid⟩ := exists_mem_of_ne_nil _ hwaiting
      exact ⟨id, _, by simp only [flushNext, if_pos hready, if_neg hwaiting, if_pos hid]; rfl⟩
  · obtain ⟨id, hid⟩ := exists_oldestReady hready
    exact ⟨id, _, by simp only [flushNext, if_neg hready, if_pos hid]; rfl⟩

theorem flushNext_isSome_iff {r : EventQueue × Option FlushBatch}
    (hf : q.flushNext now choice = some r) :
    (q.hasFlushableWork now).2 = true ↔ r.2.isSome = true := by
  obtain ⟨q', r⟩ := r
  simp only [hasFlushableWork, Bool.or_eq_true, Bool.not_eq_true', isEmpty_eq_false_iff]
  rcases flushNext_cases hf with
    ⟨-, rfl, hready, hwaiting⟩ | ⟨-, rfl, -, hwaiting⟩ | ⟨-, rfl, hold⟩
  · simp [hready, hwaiting]
  · simp [ne_nil_of_mem hwaiting]
  · simp [ne_nil_of_mem (mem_filter.mp hold).1]

theorem mem_expiredChannels :
    id ∈ q.expiredChannels now ↔ ∃ t ∈ q.inFlightDeadlines.lookup id, t ≤ now := by
  simp only [expiredChannels, mem_map, mem_filter, decide_eq_true_eq]
  constructor
  · rintro ⟨⟨id', t⟩, ⟨hmem, ht⟩, rfl⟩
    exact ⟨t, AList.mem_lookup_iff.mpr hmem, ht⟩
  · rintro ⟨t, hlookup, ht⟩
    exact ⟨⟨id, t⟩, ⟨AList.mem_lookup_iff.mp hlookup, ht⟩, rfl⟩

@[simp] theorem inFlightDeadlines_expireOne (id : Uuid) :
    (q.expireOne id).inFlightDeadlines = q.inFlightDeadlines.erase id := by
  rw [expireOne, recoverWithheld]
  split <;> rfl

theorem lookup_foldl_expireOne (ids : List Uuid) (id : Uuid) :
    (ids.foldl expireOne q).inFlightDeadlines.lookup id =
      if id ∈ ids then none else q.inFlightDeadlines.lookup id := by
  induction ids generalizing q with
  | nil => simp
  | cons i ids ih =>
    rw [foldl_cons, ih, inFlightDeadlines_expireOne]
    by_cases hi : id = i
    · subst hi
      simp
    · simp [hi, AList.lookup_erase_ne hi]

theorem expire_expire (now : Nat) : (q.expire now).expire now = q.expire now := by
  have hnone : (q.expire now).expiredChannels now = [] := by
    refine eq_nil_iff_forall_not_mem.mpr fun id hid => ?_
    obtain ⟨t, hlookup, ht⟩ := mem_expiredChannels.mp hid
    rw [expire, lookup_foldl_expireOne] at hlookup
    split at hlookup
    · nomatch hlookup
    · next hnot => exact hnot (mem_expiredChannels.mpr ⟨t, hlookup, ht⟩)
  rw [expire, hnone]
  rfl

theorem flushNext_hasFlushableWork (now : Nat) (choice : Uuid) :
    (q.hasFlushableWork now).1.flushNext now choice = q.flushNext now choice := by
  simp only [flushNext, hasFlushableWork, expire_expire]

end EventQueue

/-! ### All operations -/

/-- The queue, with every batch it has given out. A holder may hand a batch back more than once. -/
structure Issuing where
  queue : EventQueue
  issued : List FlushBatch

/-- Is this a batch that was given out? Its holder may have set the reason of the cancellation. -/
def Issuing.Gave (s : Issuing) (b : FlushBatch) : Prop :=
  ∃ b' ∈ s.issued, b = { b' with cancelReason := b.cancelReason }

instance (s : Issuing) (b : FlushBatch) : Decidable (s.Gave b) :=
  inferInstanceAs (Decidable (∃ b' ∈ s.issued, _))

/-- One operation of the queue, at any clock reading. -/
def operate (s : Issuing) : Action → Option Issuing
  | .push event => some { s with queue := (s.queue.push event).1 }
  | .flushNext now choice =>
    (s.queue.flushNext now choice).map fun r => ⟨r.1, r.2.toList ++ s.issued⟩
  | .markComplete id now => some { s with queue := s.queue.markComplete id now }
  | .requeue batch now delay =>
    if s.Gave batch then some { s with queue := (s.queue.requeue batch now delay).1 } else none
  | .requeuePreserveTimestamps batch =>
    if s.Gave batch then some { s with queue := s.queue.requeuePreserveTimestamps batch } else none
  | .requeueAsCancelled batch reason =>
    if s.Gave batch then some { s with queue := s.queue.requeueAsCancelled batch reason } else none
  | .markNativeSteerPending id eventId =>
    some { s with queue := (s.queue.markNativeSteerPending id eventId).1 }
  | .releaseNativeSteer id eventId =>
    some { s with queue := s.queue.releaseNativeSteer id eventId }
  | .removeEvent id eventId => some { s with queue := s.queue.removeEvent id eventId }
  | .drainChannel id => some { s with queue := (s.queue.drainChannel id).1 }
  | .hasFlushableWork now => some { s with queue := (s.queue.hasFlushableWork now).1 }
  | .compactExpiredState now => some { s with queue := s.queue.compactExpiredState now }
  | .extendInFlightDeadline id maxTurnSecs now =>
    some { s with queue := s.queue.extendInFlightDeadline id maxTurnSecs now }

/-- The queue under all operations, from an empty queue of either mode and with any deadline. -/
def scheduler : StateMachine Issuing Action where
  Init s := (∃ mode deadline, s.queue = { EventQueue.new mode with inFlightDeadline := deadline }) ∧
    s.issued = []
  step := operate

/-- The queue is sound, and no batch that was given out is empty. -/
def Issuing.Sound (s : Issuing) : Prop := s.queue.Sound ∧ ∀ b ∈ s.issued, b.events ≠ []

variable {s : Issuing}

theorem Issuing.Sound.events_ne_nil (h : s.Sound) {b : FlushBatch} (hb : s.Gave b) :
    b.events ≠ [] := by
  obtain ⟨b', hb', heq⟩ := hb
  rw [heq]
  exact h.2 b' hb'

/-- **One operation** keeps the queue sound. -/
theorem Issuing.Sound.operate {s' : Issuing} {a : Action} (h : s.Sound)
    (hs : operate s a = some s') : s'.Sound := by
  cases a with
  | flushNext now choice =>
    obtain ⟨⟨q', r⟩, hf, rfl⟩ := Option.map_eq_some_iff.mp hs
    refine ⟨h.1.flushNext hf, ?_⟩
    intro b hb
    rcases mem_append.mp hb with hnew | hold
    · rw [Option.mem_toList] at hnew
      obtain rfl := Option.mem_def.mp hnew
      exact (h.1.events_ne_nil_of_flushNext hf).2
    · exact h.2 b hold
  | requeue batch now delay =>
    obtain ⟨hgave, hs⟩ := Option.ite_none_right_eq_some.mp hs
    cases hs
    exact ⟨h.1.requeue (h.events_ne_nil hgave) now delay, h.2⟩
  | requeuePreserveTimestamps batch =>
    obtain ⟨hgave, hs⟩ := Option.ite_none_right_eq_some.mp hs
    cases hs
    exact ⟨h.1.requeuePreserveTimestamps (h.events_ne_nil hgave), h.2⟩
  | requeueAsCancelled batch reason =>
    obtain ⟨hgave, hs⟩ := Option.ite_none_right_eq_some.mp hs
    cases hs
    exact ⟨h.1.requeueAsCancelled (h.events_ne_nil hgave) reason, h.2⟩
  | push event =>
    cases hs
    exact ⟨h.1.push event, h.2⟩
  | markComplete id now =>
    cases hs
    exact ⟨h.1.markComplete id now, h.2⟩
  | markNativeSteerPending id eventId =>
    cases hs
    exact ⟨h.1.markNativeSteerPending id eventId, h.2⟩
  | releaseNativeSteer id eventId =>
    cases hs
    exact ⟨h.1.releaseNativeSteer id eventId, h.2⟩
  | removeEvent id eventId =>
    cases hs
    exact ⟨h.1.removeEvent id eventId, h.2⟩
  | drainChannel id =>
    cases hs
    exact ⟨h.1.drainChannel id, h.2⟩
  | hasFlushableWork now =>
    cases hs
    exact ⟨h.1.expire now, h.2⟩
  | compactExpiredState now =>
    cases hs
    exact ⟨{ h.1 with }, h.2⟩
  | extendInFlightDeadline id maxTurnSecs now =>
    cases hs
    exact ⟨h.1.extendInFlightDeadline id maxTurnSecs now, h.2⟩

theorem sound_of_reachable (h : scheduler.Reachable s) : s.Sound := by
  refine h.invariant (I := Issuing.Sound) ?_ fun s a s' _ hI hs => hI.operate hs
  rintro s ⟨⟨mode, deadline, hq⟩, hissued⟩
  refine ⟨?_, ?_⟩
  · rw [hq]
    exact EventQueue.sound_new mode deadline
  · intro b hb
    rw [hissued] at hb
    nomatch hb

/-- **The scheduling invariant.** After any operations at any clock readings, the in-flight maps
agree and every stored queue is stocked; a flush takes no channel in flight, and of the ready
channels with queued events one whose head is oldest; and, at one instant, there is flushable work
exactly when a flush finds a batch, whether or not it was asked first. -/
theorem scheduling_invariant {s : Issuing} (h : scheduler.Reachable s) :
    s.queue.Scheduled ∧
      (∀ now choice q' b, s.queue.flushNext now choice = some (q', some b) →
        b.channelId ∉ (s.queue.expire now).inFlightChannels ∧
          ∀ other, (s.queue.expire now).Ready now other →
            (s.queue.expire now).Ready now b.channelId ∧
              (s.queue.expire now).headReceivedAt b.channelId ≤
                (s.queue.expire now).headReceivedAt other) ∧
      ∀ now, (∃ choice r, s.queue.flushNext now choice = some r) ∧
        ∀ choice r, (s.queue.flushNext now choice = some r ∨
            (s.queue.hasFlushableWork now).1.flushNext now choice = some r) →
          ((s.queue.hasFlushableWork now).2 = true ↔ r.2.isSome = true) := by
  refine ⟨(sound_of_reachable h).1.toScheduled, ?_, ?_⟩
  · intro now choice q' b hf
    exact ⟨EventQueue.flushNext_notMem hf, fun other hother => EventQueue.flushNext_oldest hf hother⟩
  · intro now
    refine ⟨EventQueue.exists_flushNext now, ?_⟩
    intro choice r hf
    rw [EventQueue.flushNext_hasFlushableWork, or_self] at hf
    exact EventQueue.flushNext_isSome_iff hf

/-! ### A run in which a channel expires -/

/-- When the in-flight entry of a batch that was flushed at `10` expires. -/
def expiryInstant : Nat := 10 + fromSecs defaultInFlightDeadlineSecs

/-- A batch is stored as cancelled and its channel is never completed, while a second event waits. -/
def expiryRun : List Action :=
  [.push ((plainBatchEvent 1).toQueuedEvent 7), .flushNext 10 7,
    .requeueAsCancelled cancelledBatch .steer, .push ((plainBatchEvent 2).toQueuedEvent 7)]

theorem scheduling_invariant_expiryRun :
    ∃ s, scheduler.run ⟨EventQueue.new .queue, []⟩ expiryRun = some s ∧ s.queue.Scheduled ∧
      (s.queue.hasFlushableWork expiryInstant).2 = true ∧
        ∃ r, s.queue.flushNext expiryInstant 7 = some r ∧ r.2.isSome = true := by
  have hrun : (scheduler.run ⟨EventQueue.new .queue, []⟩ expiryRun).any (fun s =>
      (s.queue.hasFlushableWork expiryInstant).2 &&
        (s.queue.flushNext expiryInstant 7).isSome) = true := by decide +kernel
  obtain ⟨s, hs, hcheck⟩ := (Option.any_eq_true _ _).mp hrun
  obtain ⟨hwork, hflush⟩ := (Bool.and_eq_true _ _).mp hcheck
  obtain ⟨r, hr⟩ := Option.isSome_iff_exists.mp hflush
  obtain ⟨hscheduled, -, hagree⟩ :=
    scheduling_invariant (s := s) ⟨_, _, ⟨⟨.queue, _, rfl⟩, rfl⟩, hs⟩
  exact ⟨s, hs, hscheduled, hwork, r, hr,
    ((hagree expiryInstant).2 7 r (Or.inl hr)).mp hwork⟩

end Buzz.Acp
