import Buzz.Db.Push.Lease
import Mathlib.Data.List.Sort

/-!
# The wake outbox

`push_wake_outbox` and the statements on it. A worker claims due wakes under a fresh claim id with a
deadline; everything it does to a wake later names that claim id. Each statement runs on its own and
is atomic.

In SQL a comparison with `NULL` is not true, so a wake without a deadline has neither passed it nor
still has it.
-/

namespace Buzz.Push

/-- How far a wake has come. -/
inductive WakeState where
  | pending
  | sending
  | delivered
  | failed
  deriving DecidableEq

/-- A row of `push_wake_outbox`. -/
structure WakeRow where
  community : CommunityId
  /-- The id of the durable job, which is the request id at the gateway. -/
  id : Uuid
  author : PublicKey
  installationId : String
  leaseGeneration : Int
  endpointHash : BitVec 256
  eventId : EventId
  wakeClass : String
  expiresAt : Int
  state : WakeState
  attempts : Nat
  nextAttemptAt : Int
  leaseUntil : Option Int
  claimId : Option Uuid
  createdAt : Int

/-- The primary key of `push_wake_outbox`. -/
def WakeRow.key (r : WakeRow) : CommunityId × Uuid := (r.community, r.id)

/-- The address of the lease that a wake is for. -/
def WakeRow.address (r : WakeRow) : Address := ⟨r.community, r.author, r.installationId⟩

/-- A row of `events`, with its channel. -/
structure SourceEvent extends EventRow where
  channelId : Option Uuid

/-- The tables that the matcher and the worker read. -/
structure WakeTables where
  leases : List LeaseRow
  events : List SourceEvent
  /-- The members of channels that are not deleted: the community, the channel and the member. -/
  members : List (CommunityId × Uuid × PublicKey)
  outbox : List WakeRow

/-- A wake as the worker has claimed it. -/
structure ClaimedWake where
  community : CommunityId
  id : Uuid
  claimId : Uuid
  eventId : EventId
  channelId : Option Uuid
  author : PublicKey
  installationId : String
  leaseGeneration : Int
  /-- Opaque endpoint capability for the gateway, which an active lease has. -/
  endpointGrant : Option String
  wakeClass : String
  expiresAt : Int
  attempt : Nat
  deriving DecidableEq

def ClaimedWake.key (x : ClaimedWake) : CommunityId × Uuid := (x.community, x.id)

/-- `row_to_claimed_wake`, of a row under a claim joined with its lease and its event. -/
def ClaimedWake.of (claimId : Uuid) (r : WakeRow) (l : LeaseRow) (e : SourceEvent) : ClaimedWake where
  community := r.community
  id := r.id
  claimId := claimId
  eventId := r.eventId
  channelId := e.channelId
  author := r.author
  installationId := r.installationId
  leaseGeneration := r.leaseGeneration
  endpointGrant := l.endpointGrant
  wakeClass := r.wakeClass
  expiresAt := r.expiresAt
  attempt := r.attempts

/-! ### The joins -/

def WakeTables.lease (t : WakeTables) (a : Address) : Option LeaseRow :=
  lookupKey LeaseRow.address t.leases a

def WakeTables.wake (t : WakeTables) (k : CommunityId × Uuid) : Option WakeRow :=
  lookupKey WakeRow.key t.outbox k

/-- The lease of a wake, while it is the same one and in force. -/
def WakeTables.leaseOf (t : WakeTables) (now : Int) (r : WakeRow) : Option LeaseRow :=
  (t.lease r.address).filter fun l =>
    l.generation == r.leaseGeneration && l.endpointHash == some r.endpointHash && l.eligible now

def WakeTables.eventOf (t : WakeTables) (r : WakeRow) : Option SourceEvent :=
  t.events.find? fun e => e.community == r.community && e.id == r.eventId && e.deletedAt.isNone

/-- The lease and the event of a wake that may be sent. -/
def WakeTables.deliverable (t : WakeTables) (now : Int) (r : WakeRow) :
    Option (LeaseRow × SourceEvent) :=
  if r.expiresAt > epoch now then
    (t.leaseOf now r).bind fun l => (t.eventOf r).map fun e => (l, e)
  else none

def WakeTables.isMember (t : WakeTables) (community : CommunityId) (channel : Uuid)
    (pubkey : PublicKey) : Bool :=
  t.members.any fun m => m == (community, channel, pubkey)

/-! ### Statements -/

/-- The deadline of the claim has passed. -/
def WakeRow.lapsed (now : Int) (r : WakeRow) : Bool :=
  r.leaseUntil.any fun deadline => decide (deadline < now)

def WakeRow.held (now : Int) (r : WakeRow) : Bool :=
  r.leaseUntil.any fun deadline => decide (deadline ≥ now)

def WakeRow.due (now : Int) (r : WakeRow) : Bool :=
  decide (r.nextAttemptAt ≤ now) &&
    (r.state == .pending || r.state == .sending && r.lapsed now)

/-- `ORDER BY next_attempt_at, created_at, id`. -/
def WakeRow.before (r s : WakeRow) : Bool :=
  decide (r.nextAttemptAt < s.nextAttemptAt) || r.nextAttemptAt == s.nextAttemptAt &&
    (decide (r.createdAt < s.createdAt) || r.createdAt == s.createdAt && decide (r.id ≤ s.id))

/-- The candidates of a claim. Rows that another statement has locked are skipped. -/
def WakeTables.candidates (t : WakeTables) (community : CommunityId) (limit : Nat) (now : Int)
    (skipped : List Uuid) : List WakeRow :=
  ((t.outbox.filter fun r => r.community == community && r.due now && !skipped.contains r.id &&
    (t.deliverable now r).isSome).insertionSort fun r s => r.before s = true).take limit

def WakeRow.claim (claimId : Uuid) (leaseUntil : Int) (r : WakeRow) : WakeRow :=
  { r with
    state := .sending
    claimId := some claimId
    leaseUntil := some leaseUntil
    attempts := r.attempts + 1 }

/-- `claim_due_wakes`: the tables after it, and the jobs that were claimed. -/
def claimDueWakes (community : CommunityId) (limit : Nat) (claimId : Uuid) (leaseUntil now : Int)
    (skipped : List Uuid) (t : WakeTables) : WakeTables × List ClaimedWake :=
  let candidates := t.candidates community limit now skipped
  ({ t with
      outbox := t.outbox.map fun r =>
        if candidates.any fun c => c.key == r.key then r.claim claimId leaseUntil else r },
    candidates.filterMap fun r =>
      (t.deliverable now r).map fun p => .of claimId (r.claim claimId leaseUntil) p.1 p.2)

/-- `revalidate_wake_for_send`, begun at `now`; nothing is `Suppressed`. -/
def revalidateWakeForSend (t : WakeTables) (now : Int) (k : CommunityId × Uuid)
    (claimId : Uuid) : Option ClaimedWake :=
  (t.wake k).bind fun r =>
    if r.claimId == some claimId && r.state == .sending && r.held now then
      (t.deliverable now r).map fun p => .of claimId r p.1 p.2
    else none

def WakeTables.finish (k : CommunityId × Uuid) (claimId : Uuid) (f : WakeRow → WakeRow)
    (t : WakeTables) : WakeTables :=
  { t with
    outbox := t.outbox.map fun r =>
      if r.key == k && r.claimId == some claimId && r.state == .sending then f r else r }

def completeWake (k : CommunityId × Uuid) (claimId : Uuid) : WakeTables → WakeTables :=
  WakeTables.finish k claimId fun r =>
    { r with
      state := .delivered
      claimId := none
      leaseUntil := none }

def retryWake (k : CommunityId × Uuid) (claimId : Uuid) (nextAttemptAt : Int) :
    WakeTables → WakeTables :=
  WakeTables.finish k claimId fun r =>
    { r with
      state := .pending
      nextAttemptAt := nextAttemptAt
      claimId := none
      leaseUntil := none }

def failWake (k : CommunityId × Uuid) (claimId : Uuid) : WakeTables → WakeTables :=
  WakeTables.finish k claimId fun r =>
    { r with
      state := .failed
      claimId := none
      leaseUntil := none }

def disableEndpointGeneration (a : Address) (generation : Int) (t : WakeTables) : WakeTables :=
  { t with
    leases := t.leases.map fun l =>
      if l.address == a && l.generation == generation && l.active && l.endpointEnabled then
        { l with endpointEnabled := false }
      else l }

/-- `prune_wake_outbox`, with the events that are in the match queue. -/
def pruneWakeOutbox (community : CommunityId) (before now : Int) (queued : List EventId)
    (t : WakeTables) : WakeTables :=
  { t with
    outbox := t.outbox.filter fun r =>
      !(r.community == community && decide (r.createdAt < before) &&
        (r.state == .delivered || r.state == .failed || decide (r.expiresAt ≤ epoch now)) &&
        !queued.contains r.eventId) }

/-! ### Rows under their keys -/

variable {t : WakeTables} {k j : CommunityId × Uuid} {c : Uuid}

variable {f : WakeRow → WakeRow}

theorem wake_finish (hf : ∀ r, (f r).key = r.key) :
    (t.finish k c f).wake j = (t.wake j).map fun r =>
      if r.key == k && r.claimId == some c && r.state == .sending then f r else r := by
  refine lookupKey_map (fun r => ?_) _ _
  split
  · exact hf r
  · rfl

theorem wake_finish_cases (hf : ∀ r, (f r).key = r.key) {r' : WakeRow}
    (h : (t.finish k c f).wake j = some r') :
    t.wake j = some r' ∨
      ∃ r, t.wake j = some r ∧ r' = f r ∧ j = k ∧ r.claimId = some c ∧ r.state = .sending := by
  rw [wake_finish hf, Option.map_eq_some_iff] at h
  obtain ⟨r, hr, rfl⟩ := h
  have hkey : r.key = j := (mem_of_lookupKey hr).2
  split
  · next hcond =>
    simp only [Bool.and_eq_true, beq_iff_eq] at hcond
    obtain ⟨⟨hk, hclaim⟩, hstate⟩ := hcond
    exact .inr ⟨r, hr, rfl, hkey.symm.trans hk, hclaim, hstate⟩
  · exact .inl hr

/-- A finishing statement leaves a row alone that its claim is not on. -/
theorem wake_finish_of_ne (hf : ∀ r, (f r).key = r.key)
    (hne : ∀ r, t.wake k = some r → r.claimId ≠ some c) : (t.finish k c f).wake j = t.wake j := by
  rw [wake_finish hf]
  cases hj : t.wake j with
  | none => rfl
  | some r =>
    have hkey : r.key = j := (mem_of_lookupKey hj).2
    refine congrArg some (if_neg fun hcond => ?_)
    simp only [Bool.and_eq_true, beq_iff_eq] at hcond
    obtain ⟨⟨hk, hclaim⟩, -⟩ := hcond
    exact hne r ((hkey.symm.trans hk) ▸ hj) hclaim

theorem mem_candidates {community : CommunityId} {limit : Nat} {now : Int} {skipped : List Uuid}
    {r : WakeRow} (h : r ∈ t.candidates community limit now skipped) :
    r ∈ t.outbox ∧ (t.deliverable now r).isSome := by
  have hr := (List.mem_insertionSort _).mp (List.mem_of_mem_take h)
  rw [List.mem_filter, Bool.and_eq_true] at hr
  exact ⟨hr.1, hr.2.2⟩

section Claim

variable {community : CommunityId} {limit : Nat} {leaseUntil now : Int} {skipped : List Uuid}

theorem wake_claimDueWakes :
    (claimDueWakes community limit c leaseUntil now skipped t).1.wake j =
      (t.wake j).map fun r =>
        if (t.candidates community limit now skipped).any fun s => s.key == r.key then
          r.claim c leaseUntil
        else r := by
  refine lookupKey_map (fun r => ?_) _ _
  split
  · rfl
  · rfl

theorem wake_claim {r' : WakeRow}
    (h : (claimDueWakes community limit c leaseUntil now skipped t).1.wake j = some r') :
    t.wake j = some r' ∨ ∃ r, t.wake j = some r ∧ r' = r.claim c leaseUntil := by
  rw [wake_claimDueWakes, Option.map_eq_some_iff] at h
  obtain ⟨r, hr, rfl⟩ := h
  split
  · exact .inr ⟨r, hr, rfl⟩
  · exact .inl hr

theorem claimed_of_mem (hkeys : (t.outbox.map WakeRow.key).Nodup) {x : ClaimedWake}
    (h : x ∈ (claimDueWakes community limit c leaseUntil now skipped t).2) :
    ∃ r l e, t.deliverable now r = some (l, e) ∧ x = .of c (r.claim c leaseUntil) l e ∧
      (claimDueWakes community limit c leaseUntil now skipped t).1.wake r.key =
        some (r.claim c leaseUntil) := by
  obtain ⟨r, hr, hx⟩ := List.mem_filterMap.mp h
  obtain ⟨⟨l, e⟩, hjoin, rfl⟩ := Option.map_eq_some_iff.mp hx
  refine ⟨r, l, e, hjoin, rfl, ?_⟩
  have hrow : t.wake r.key = some r :=
    (lookupKey_eq_some_iff hkeys).mpr ⟨(mem_candidates hr).1, rfl⟩
  rw [wake_claimDueWakes, hrow]
  refine congrArg some (if_pos ?_)
  exact List.any_eq_true.mpr ⟨r, hr, beq_self_eq_true _⟩

end Claim

end Buzz.Push
