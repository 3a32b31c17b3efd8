import Buzz.Acp.QueueRestore

/-!
# Poison batches

A failed attempt hands its batch back with a backoff and then completes the channel. The retry count
has no reset of its own: completing a channel drops the count unless a backoff is still running, and
compaction drops the count of a channel that looks idle. Both are right about a channel that works.
They are wrong about a channel that is between two attempts when its next batch finds no agent, since
that dispatch completes the channel after the backoff has passed.
-/

namespace Buzz.Acp

open Option

namespace EventQueue

variable {q : EventQueue}

/-! ### What changes a retry count -/

@[simp] theorem retryCounts_expireOne (id : Uuid) : (q.expireOne id).retryCounts = q.retryCounts := by
  rw [expireOne, recoverWithheld]
  split <;> rfl

@[simp] theorem retryCounts_expire (now : Nat) : (q.expire now).retryCounts = q.retryCounts := by
  rw [expire]
  generalize q.expiredChannels now = ids
  induction ids generalizing q with
  | nil => rfl
  | cons id ids ih => rw [List.foldl_cons, ih, retryCounts_expireOne]

theorem retryCounts_flushNext {q' : EventQueue} {r : Option FlushBatch} {now : Nat} {choice : Uuid}
    (hf : q.flushNext now choice = some (q', r)) : q'.retryCounts = q.retryCounts := by
  rcases flushNext_cases hf with ⟨rfl, -⟩ | ⟨rfl, -⟩ | ⟨rfl, -⟩
  · exact retryCounts_expire now
  · exact retryCounts_expire now
  · exact retryCounts_expire now

theorem retryCounts_push (event : QueuedEvent) : (q.push event).1.retryCounts = q.retryCounts := by
  rw [push]
  split <;> rfl

/-- Is this channel throttled, queued or in flight? -/
def Busy (q : EventQueue) (now : Nat) (id : Uuid) : Prop :=
  (∃ t ∈ q.retryAfter.lookup id, now < t) ∨ listAt q.queues id ≠ [] ∨ id ∈ q.inFlightChannels

instance (q : EventQueue) (now : Nat) (id : Uuid) : Decidable (q.Busy now id) :=
  inferInstanceAs (Decidable (_ ∨ _ ∨ _))

variable {id : Uuid}

theorem lookup_retryCounts_compact {now : Nat} (h : q.Busy now id) :
    (q.compactExpiredState now).retryCounts.lookup id = q.retryCounts.lookup id := by
  have hthrottle : id ∈ (q.retryAfter.entries.filter fun e => decide (now < e.2)).toAList ↔
      ∃ t ∈ q.retryAfter.lookup id, now < t := by
    rw [← AList.lookup_isSome, lookup_filter, isSome_iff_exists]
    simp [filter_eq_some_iff]
  have hbusy : (decide (id ∈ (q.retryAfter.entries.filter fun e => decide (now < e.2)).toAList) ||
      !(listAt q.queues id).isEmpty || decide (id ∈ q.inFlightChannels)) = true := by
    rcases h with hactive | hqueue | hflight
    · simp [hthrottle.mpr hactive]
    · simp [List.isEmpty_eq_false_iff.mpr hqueue]
    · simp [hflight]
  refine (lookup_filter _ _ id).trans ?_
  cases q.retryCounts.lookup id with
  | none => rfl
  | some count => exact filter_some_pos hbusy

theorem lookup_retryCounts_requeue_of_ne {b : FlushBatch} (h : id ≠ b.channelId) (now delay : Nat) :
    (q.requeue b now delay).1.retryCounts.lookup id = q.retryCounts.lookup id := by
  rw [requeue]
  split
  · exact AList.lookup_erase_ne h
  · exact AList.lookup_insert_ne h

theorem lookup_retryCounts_markComplete_of_ne {other : Uuid} (h : other ≠ id) (now : Nat) :
    (q.markComplete id now).retryCounts.lookup other = q.retryCounts.lookup other := by
  rw [lookup_retryCounts_markComplete, if_neg fun hand => h hand.1]

end EventQueue

/-! ### Runs in which the attempts of a channel fail -/

/-- A step of a run in which the attempts of one channel fail. -/
inductive Traffic where
  /-- Any operation of the queue but a hand-back of a batch of the channel. `mark_complete` of the
  channel is the completion of a turn that succeeded. -/
  | operation (a : Action)
  /-- A failed attempt of the channel: `requeue` and directly after it `mark_complete`. -/
  | failure (batch : FlushBatch) (now delay later : Nat)
  | unclaimed (now choice later : Nat)

/-- Does an operation hand a batch of this channel back? -/
def Action.handsBack (id : Uuid) : Action → Bool
  | .requeue batch _ _ => decide (batch.channelId = id)
  | .requeuePreserveTimestamps batch => decide (batch.channelId = id)
  | .requeueAsCancelled batch _ => decide (batch.channelId = id)
  | _ => false

/-- Is an operation one that resets the retry count of this channel by design: a successful
completion or a drain? -/
def Action.resets (id : Uuid) : Action → Bool
  | .markComplete channelId _ => decide (channelId = id)
  | .drainChannel channelId => decide (channelId = id)
  | _ => false

/-- The queue, with the number of failed attempts of a channel since its last success, drain or dead
letter. -/
structure Attempts where
  issuing : Issuing
  failed : Nat

def Attempts.count (s : Attempts) (id : Uuid) : Nat :=
  (s.issuing.queue.retryCounts.lookup id).getD 0

/-- One step, for the channel `id`. -/
def traffic (id : Uuid) (s : Attempts) : Traffic → Option Attempts
  | .operation a =>
    if a.handsBack id then none
    else (operate s.issuing a).map fun issuing => ⟨issuing, if a.resets id then 0 else s.failed⟩
  | .failure batch now delay later =>
    let (queue, dead) := s.issuing.queue.requeue batch now delay
    -- the channel is completed while the backoff of a requeued batch is running
    if s.issuing.Gave batch ∧ batch.channelId = id ∧ now ≤ later ∧
        (dead = none → later < now + delay) then
      some ⟨{ s.issuing with queue := queue.markComplete id later },
        if dead = none then s.failed + 1 else 0⟩
    else none
  | .unclaimed now choice later =>
    match s.issuing.queue.flushNext now choice with
    | some (queue, some batch) =>
      if now ≤ later then
        some { s with issuing := { s.issuing with queue := queue.returnUnclaimed batch later } }
      else none
    | _ => none

/-- The runs in which the attempts of a channel fail. -/
def retrying (id : Uuid) : StateMachine Attempts Traffic where
  Init s := scheduler.Init s.issuing ∧ s.failed = 0
  step := traffic id

/-- When an operation compacts the queue. -/
def Action.compacts : Action → Option Nat
  | .compactExpiredState now => some now
  | _ => none

/-- The steps that leave the channel alone between two attempts: no dispatch of the channel finds no
agent while it has a retry count, and compaction does not find it idle with one. -/
def Steady (id : Uuid) (s : Attempts) : Traffic → Prop
  | .operation a => ∀ now ∈ a.compacts, id ∈ s.issuing.queue.retryCounts → s.issuing.queue.Busy now id
  | .failure _ _ _ _ => True
  | .unclaimed _ choice _ => choice = id → id ∉ s.issuing.queue.retryCounts

instance (id : Uuid) (s : Attempts) : ∀ a, Decidable (Steady id s a)
  | .operation a => inferInstanceAs (Decidable (∀ now ∈ a.compacts, _))
  | .failure _ _ _ _ => inferInstanceAs (Decidable True)
  | .unclaimed _ choice _ => inferInstanceAs (Decidable (choice = id → _))

/-- The retry count covers the failed attempts, and stays within the cap. -/
structure Attempts.Counted (id : Uuid) (s : Attempts) : Prop where
  covers : s.failed ≤ s.count id
  capped : s.count id ≤ maxRetries

variable {id : Uuid}

theorem lookup_eq_none_of_notMem {q : EventQueue} (h : id ∉ q.retryCounts) :
    q.retryCounts.lookup id = none := AList.lookup_eq_none.mpr h

variable {a : Action}

theorem lookup_retryCounts_operate {s s' : Issuing} (hs : operate s a = some s')
    (hhand : a.handsBack id = false) (hresets : a.resets id = false)
    (hcompacts : ∀ now ∈ a.compacts, id ∈ s.queue.retryCounts → s.queue.Busy now id) :
    s'.queue.retryCounts.lookup id = s.queue.retryCounts.lookup id := by
  cases a with
  | push event =>
    cases hs
    rw [EventQueue.retryCounts_push]
  | flushNext now choice =>
    obtain ⟨⟨q', r⟩, hf, rfl⟩ := map_eq_some_iff.mp hs
    rw [EventQueue.retryCounts_flushNext hf]
  | markComplete channelId now =>
    cases hs
    exact EventQueue.lookup_retryCounts_markComplete_of_ne (Ne.symm (of_decide_eq_false hresets)) now
  | requeue batch now delay =>
    obtain ⟨-, hs⟩ := ite_none_right_eq_some.mp hs
    cases hs
    exact EventQueue.lookup_retryCounts_requeue_of_ne (Ne.symm (of_decide_eq_false hhand)) now delay
  | requeuePreserveTimestamps batch | requeueAsCancelled batch reason =>
    obtain ⟨-, hs⟩ := ite_none_right_eq_some.mp hs
    cases hs
    rfl
  | markNativeSteerPending channelId eventId =>
    cases hs
    rw [EventQueue.markNativeSteerPending]
    split <;> rfl
  | releaseNativeSteer channelId eventId =>
    cases hs
    rw [EventQueue.releaseNativeSteer]
    split <;> rfl
  | removeEvent channelId eventId =>
    cases hs
    rfl
  | drainChannel channelId =>
    cases hs
    exact AList.lookup_erase_ne (Ne.symm (of_decide_eq_false hresets))
  | hasFlushableWork now =>
    cases hs
    exact congrArg (AList.lookup id) (EventQueue.retryCounts_expire now)
  | compactExpiredState now =>
    cases hs
    by_cases hcount : id ∈ s.queue.retryCounts
    · exact EventQueue.lookup_retryCounts_compact (hcompacts now rfl hcount)
    · -- there is nothing to drop
      refine (lookup_filter _ _ id).trans ?_
      rw [lookup_eq_none_of_notMem hcount]
      rfl
  | extendInFlightDeadline channelId maxTurnSecs now =>
    cases hs
    rw [EventQueue.extendInFlightDeadline]
    split
    · rfl
    · dsimp only
      split <;> rfl

theorem lookup_retryCounts_resets {s s' : Issuing} (hs : operate s a = some s')
    (hresets : a.resets id = true) :
    s'.queue.retryCounts.lookup id = none ∨
      s'.queue.retryCounts.lookup id = s.queue.retryCounts.lookup id := by
  cases a with
  | markComplete channelId now =>
    cases hs
    rw [EventQueue.lookup_retryCounts_markComplete]
    split
    · exact Or.inl rfl
    · exact Or.inr rfl
  | drainChannel channelId =>
    cases hs
    obtain rfl := of_decide_eq_true hresets
    exact Or.inl (AList.lookup_erase channelId s.queue.retryCounts)
  | _ => nomatch hresets

/-- **A failed attempt** that is requeued counts, since its backoff is still running when the channel
is completed. -/
theorem lookup_retryCounts_failure (q : EventQueue) (b : FlushBatch) (now delay later : Nat) :
    (∃ q', q.requeue b now delay = (q', none) ∧ q.nextAttempt b.channelId ≤ maxRetries ∧
        (later < now + delay → (q'.markComplete b.channelId later).retryCounts.lookup b.channelId =
          some (q.nextAttempt b.channelId))) ∨
      (∃ q', q.requeue b now delay = (q', some b) ∧ maxRetries < q.nextAttempt b.channelId ∧
        (q'.markComplete b.channelId later).retryCounts.lookup b.channelId = none) := by
  by_cases hcap : maxRetries < q.nextAttempt b.channelId
  · refine Or.inr ⟨_, by rw [EventQueue.requeue]; exact if_pos hcap, hcap, ?_⟩
    rw [EventQueue.lookup_retryCounts_markComplete]
    split
    · rfl
    · exact AList.lookup_erase b.channelId q.retryCounts
  · refine Or.inl ⟨_, by rw [EventQueue.requeue]; exact if_neg hcap, Nat.le_of_not_lt hcap, ?_⟩
    intro hlater
    rw [EventQueue.lookup_retryCounts_markComplete]
    simp [EventQueue.pushFront, hlater]

theorem lookup_retryCounts_returnUnclaimed {q : EventQueue} {b : FlushBatch}
    (h : b.channelId = id → id ∉ q.retryCounts) (now : Nat) :
    (q.returnUnclaimed b now).retryCounts.lookup id = q.retryCounts.lookup id := by
  rw [EventQueue.returnUnclaimed, EventQueue.lookup_retryCounts_markComplete]
  split
  · next hand => exact (lookup_eq_none_of_notMem (h hand.1.symm)).symm
  · rfl

theorem Attempts.Counted.operation {s : Attempts} (h : s.Counted id) {issuing : Issuing}
    (hs : operate s.issuing a = some issuing) (hhand : a.handsBack id = false)
    (hsteady : Steady id s (.operation a)) :
    Attempts.Counted id ⟨issuing, if a.resets id then 0 else s.failed⟩ := by
  have hcovers := h.covers
  have hcapped := h.capped
  rw [Attempts.count] at hcovers hcapped
  cases hresets : a.resets id with
  | false =>
    have hsame := lookup_retryCounts_operate hs hhand hresets hsteady
    refine ⟨?_, ?_⟩
    · simpa [Attempts.count, hsame] using hcovers
    · simpa [Attempts.count, hsame] using hcapped
  | true =>
    refine ⟨Nat.zero_le _, ?_⟩
    show (issuing.queue.retryCounts.lookup id).getD 0 ≤ maxRetries
    rcases lookup_retryCounts_resets hs hresets with hnone | hsame
    · rw [hnone]
      exact Nat.zero_le _
    · rwa [hsame]

theorem Attempts.Counted.failure {s s' : Attempts} (h : s.Counted id) {b : FlushBatch}
    {now delay later : Nat} (hs : traffic id s (.failure b now delay later) = some s') :
    s'.Counted id := by
  have hcovers := h.covers
  rw [Attempts.count] at hcovers
  rw [traffic] at hs
  rcases lookup_retryCounts_failure s.issuing.queue b now delay later with
    ⟨q', hrequeue, hcap, hcount⟩ | ⟨q', hrequeue, -, hcount⟩
  · rw [hrequeue] at hs
    obtain ⟨⟨-, hid, -, hlater⟩, hs⟩ := ite_none_right_eq_some.mp hs
    cases hs
    subst hid
    have hafter := hcount (hlater rfl)
    rw [EventQueue.nextAttempt] at hafter hcap
    refine ⟨?_, ?_⟩
    · simp only [Attempts.count, hafter, if_pos, getD_some]
      omega
    · simpa only [Attempts.count, hafter, getD_some] using hcap
  · rw [hrequeue] at hs
    obtain ⟨⟨-, hid, -, -⟩, hs⟩ := ite_none_right_eq_some.mp hs
    cases hs
    subst hid
    refine ⟨Nat.zero_le _, ?_⟩
    simp [Attempts.count, hcount]

/-- **One step.** A steady step loses no failure. -/
theorem Attempts.Counted.traffic {s s' : Attempts} {a : Traffic} (h : s.Counted id)
    (hsteady : Steady id s a) (hs : traffic id s a = some s') : s'.Counted id := by
  cases a with
  | operation a =>
    obtain ⟨hhand, hs⟩ := ite_none_left_eq_some.mp hs
    obtain ⟨issuing, hissuing, rfl⟩ := map_eq_some_iff.mp hs
    exact h.operation hissuing (Bool.eq_false_iff.mpr hhand) hsteady
  | failure batch now delay later => exact h.failure hs
  | unclaimed now choice later =>
    have hcovers := h.covers
    have hcapped := h.capped
    rw [Attempts.count] at hcovers hcapped
    rw [Acp.traffic] at hs
    split at hs
    · next queue batch hf =>
      obtain ⟨-, hs⟩ := ite_none_right_eq_some.mp hs
      cases hs
      have hcounts := EventQueue.retryCounts_flushNext hf
      have hnone : batch.channelId = id → id ∉ queue.retryCounts := by
        intro hid
        rw [hcounts]
        exact hsteady ((EventQueue.channelId_of_flushNext hf).symm.trans hid)
      have hsame := lookup_retryCounts_returnUnclaimed hnone later
      rw [hcounts] at hsame
      exact ⟨by simpa [Attempts.count, hsame] using hcovers,
        by simpa [Attempts.count, hsame] using hcapped⟩
    · nomatch hs

/-- **Poison batches are dead-lettered.** In every run in which the attempts of a channel fail and
all steps are steady, the retry count covers the failed attempts, so at most as many attempts as there
are retries have failed, and the next failure after them is the last. -/
theorem deadLettered_of_steady {id : Uuid} {s : Attempts}
    (h : ((retrying id).guard (Steady id)).Reachable s) :
    s.failed ≤ s.count id ∧ s.failed ≤ maxRetries ∧
      ∀ batch now delay, batch.channelId = id → s.failed = maxRetries →
        (s.issuing.queue.requeue batch now delay).2 = some batch := by
  have hcounted : s.Counted id := by
    refine StateMachine.reachable_guard (I := Attempts.Counted id) ?_ ?_ h
    · rintro s ⟨⟨⟨mode, deadline, hq⟩, -⟩, hfailed⟩
      refine ⟨hfailed.le.trans (Nat.zero_le _), ?_⟩
      rw [Attempts.count, hq]
      exact Nat.zero_le _
    · intro s a s' hI hsteady hs
      exact hI.traffic hsteady hs
  refine ⟨hcounted.covers, hcounted.covers.trans hcounted.capped, ?_⟩
  intro batch now delay hid hfailed
  have hcovers := hcounted.covers
  rw [Attempts.count] at hcovers
  rcases lookup_retryCounts_failure s.issuing.queue batch now delay now with
    ⟨q', -, hcap, -⟩ | ⟨q', hrequeue, -, -⟩
  · rw [EventQueue.nextAttempt, hid] at hcap
    omega
  · rw [hrequeue]

/-! ### With and without a free agent -/

def poisonBatch : FlushBatch := ⟨7, [plainBatchEvent 1], [], none⟩

/-- An empty queue, before any attempt. -/
def noAttempts : Attempts := ⟨⟨EventQueue.new .queue, []⟩, 0⟩

/-- The attempt that begins at this second fails in the next one. -/
def failingAttempt (second : Nat) : List Traffic :=
  [.operation (.flushNext (fromSecs second) 7),
    .failure poisonBatch (fromSecs (second + 1)) (fromSecs 5) (fromSecs (second + 1))]

/-- Eleven attempts fail, and before each one a dispatch finds no agent. -/
def unclaimedRun : List Traffic :=
  .operation (.push ((plainBatchEvent 1).toQueuedEvent 7)) ::
    (List.range 11).flatMap fun i =>
      .unclaimed (fromSecs (100 * i)) 7 (fromSecs (100 * i)) :: failingAttempt (100 * i + 1)

/-- Two attempts fail, and an agent is free for both. -/
def claimedRun : List Traffic :=
  .operation (.push ((plainBatchEvent 1).toQueuedEvent 7)) ::
    (failingAttempt 100 ++ failingAttempt 200)

/-- Eleven attempts have failed, none of them was dead-lettered, and the count stands at one. -/
theorem not_deadLettered_unclaimed :
    ∃ s, (retrying 7).Reachable s ∧ s.failed = maxRetries + 1 ∧ s.count 7 = 1 ∧
      (s.issuing.queue.requeue poisonBatch (fromSecs 2000) (fromSecs 5)).2 = none := by
  have hrun : ((retrying 7).run noAttempts unclaimedRun).any (fun s =>
      decide (s.failed = maxRetries + 1) && decide (s.count 7 = 1) &&
        (s.issuing.queue.requeue poisonBatch (fromSecs 2000) (fromSecs 5)).2.isNone) = true := by
    decide +kernel
  obtain ⟨s, hs, hcheck⟩ := (any_eq_true _ _).mp hrun
  simp only [Bool.and_eq_true, decide_eq_true_eq, isNone_iff_eq_none] at hcheck
  obtain ⟨⟨hfailed, hcount⟩, hnone⟩ := hcheck
  exact ⟨s, ⟨noAttempts, _, ⟨⟨⟨.queue, _, rfl⟩, rfl⟩, rfl⟩, hs⟩, hfailed, hcount, hnone⟩

theorem deadLettered_of_steady_claimed :
    ∃ s, ((retrying 7).guard (Steady 7)).run noAttempts claimedRun = some s ∧ s.failed = 2 ∧
      2 ≤ s.count 7 := by
  have hrun : (((retrying 7).guard (Steady 7)).run noAttempts claimedRun).any (fun s =>
      decide (s.failed = 2)) = true := by decide +kernel
  obtain ⟨s, hs, hcheck⟩ := (any_eq_true _ _).mp hrun
  have hfailed := of_decide_eq_true hcheck
  have hreachable : ((retrying 7).guard (Steady 7)).Reachable s :=
    ⟨noAttempts, _, ⟨⟨⟨.queue, _, rfl⟩, rfl⟩, rfl⟩, hs⟩
  have hcounted := deadLettered_of_steady hreachable
  refine ⟨s, hs, hfailed, ?_⟩
  rw [← hfailed]
  exact hcounted.1

end Buzz.Acp
