import Buzz.Db.Push.Lease

/-!
# The push gate

An event of a push-eligible kind gets a job in `push_match_queue` when its insert commits, unless its
community has no lease to match. The trigger of the insert reads `push_leases` under a shared lock of
the community, an activation changes it under the exclusive one and queues recent events itself.

Every statement sees what is committed when it starts, so the trigger's `EXISTS` is a statement of
its own. Two inserts of one event are not kept apart here; the primary key would make one wait.
-/

namespace Buzz.Push

open List

variable (P : Platform) (maxActiveLeases : Nat)

/-! ### Transactions -/

/-- What `replace_lease` reads after a replacement that did not apply. -/
def replaceRejected (e : LeaseEvent) : PushTxn :=
  .read (fun t => t.lease e.address) fun current =>
    match current with
    | none => .rollback (.error .rowNotFound)
    | some current =>
      .commit (.replaced (if !winsEvent e.version current then .staleEvent else .staleGeneration))

/-- The upsert of `replace_lease` applies: there is no row, or the event wins both orders. -/
def replaces (e : LeaseEvent) (t : Tables) : Bool :=
  match t.lease e.address with
  | none => true
  | some current =>
    winsEvent e.version current && decide (e.version.generation > current.generation)

/-- The upsert of `replace_lease`, and what follows it. -/
def replaceUnderLock (e : LeaseEvent) (now : Int) : PushTxn :=
  .lock ⟨.lease e.address, .exclusive⟩ <|
  if !e.row.check then .rollback (.error .constraint)
  else
    .read (fun t => (replaces e t, upsertViolation e.row t)) fun seen =>
    match seen with
    | (false, _) => replaceRejected e
    | (true, some _) => .rollback (.error .constraint)
    | (true, none) =>
      .write (fun _ => ()) (fun _ => Tables.upsertLease e.row) <|
      if e.active.isSome then
        backfillPushMatchJobs e.address.community now (.commit (.replaced .accepted))
      else .commit (.replaced .accepted)

/-- `replace_lease`, begun at `now`. -/
def replaceLease (e : LeaseEvent) (now : Int) : PushTxn :=
  if e.active.isSome then acquirePushGateLock P e.address.community (replaceUnderLock e now)
  else replaceUnderLock e now

/-- The community has a lease to match. -/
def anyEligible (community : CommunityId) (now : Int) (t : Tables) : Bool :=
  t.leases.any fun r => r.address.community == community && r.eligible now

/-- The trigger `enqueue_push_match_job`. -/
def enqueuePushMatchJob (row : EventRow) (now : Int) (next : PushTxn) : PushTxn :=
  if pushKinds.contains row.kind then
    .lock ⟨gateLock P row.community, .shared⟩ <|
    .read (anyEligible row.community now) fun found =>
    if found then .write (fun _ => [(row.community, row.id)]) Tables.enqueue next else next
  else next

/-- The insert of an event with its trigger, in a transaction begun at `now`. -/
def insertEvent (row : EventRow) (now : Int) : PushTxn :=
  .read (fun t => t.events.any fun r => r.key == row.key) fun conflict =>
  if conflict then .commit (.inserted false)
  else
    .write (fun _ => ()) (fun _ => Tables.insertEvent row) <|
    enqueuePushMatchJob P row now (.commit (.inserted true))

/-! ### Sessions -/

/-- The writers of the match queue. -/
inductive GateRequest where
  | acceptLease (e : LeaseEvent) (now : Int)
  | replaceLease (e : LeaseEvent) (now : Int)
  | insertEvent (row : EventRow) (now : Int)
  deriving DecidableEq

def transaction : GateRequest → PushTxn
  | .acceptLease e now => acceptLeaseEvent P maxActiveLeases e now
  | .replaceLease e now => replaceLease P e now
  | .insertEvent row now => insertEvent P row now

abbrev GateWorld := World Tables GateRequest LockKey Reply

/-- Activations, revocations and inserts, in any interleaving. -/
def gate : StateMachine GateWorld (SessionAction GateRequest) :=
  sessions (transaction P maxActiveLeases) fun t => t.queue.Nodup

/-- The request activates this lease, at this start of its transaction. -/
def GateRequest.Activates (e : LeaseEvent) (now : Int) : GateRequest → Prop
  | .acceptLease e' now' => e' = e ∧ now' = now ∧ e.active.isSome = true
  | .replaceLease e' now' => e' = e ∧ now' = now ∧ e.active.isSome = true
  | .insertEvent _ _ => False

/-- The answer of an activation that is accepted. -/
def Reply.IsAccepted (r : Reply) : Prop := r = .lease .accepted ∨ r = .replaced .accepted

/-! ### The queue -/

variable {keys : List (CommunityId × EventId)}

theorem mem_enqueue {t : Tables} {k : CommunityId × EventId} :
    k ∈ (t.enqueue keys).queue ↔ k ∈ t.queue ∨ k ∈ keys := by
  rw [Tables.enqueue]
  induction keys generalizing t with
  | nil => simp
  | cons a keys ih =>
    have hstep := ih (t := { t with queue := if t.queue.contains a then t.queue else a :: t.queue })
    rw [foldl_cons, hstep, mem_cons]
    split
    · next ha =>
      have ha : a ∈ t.queue := contains_iff_mem.mp ha
      constructor
      · rintro (hk | hk)
        · exact .inl hk
        · exact .inr (.inr hk)
      · rintro (hk | rfl | hk)
        · exact .inl hk
        · exact .inl ha
        · exact .inr hk
    · rw [mem_cons]
      constructor
      · rintro ((rfl | hk) | hk)
        · exact .inr (.inl rfl)
        · exact .inl hk
        · exact .inr (.inr hk)
      · rintro (hk | rfl | hk)
        · exact .inl (.inr hk)
        · exact .inl (.inl rfl)
        · exact .inr hk

theorem nodup_enqueue {t : Tables} (h : t.queue.Nodup) : (t.enqueue keys).queue.Nodup := by
  rw [Tables.enqueue]
  induction keys generalizing t with
  | nil => exact h
  | cons a keys ih =>
    refine ih (t := { t with queue := if t.queue.contains a then t.queue else a :: t.queue }) ?_
    split
    · exact h
    · next ha => exact nodup_cons.mpr ⟨fun hmem => ha (contains_iff_mem.mpr hmem), h⟩

/-! ### What the transactions write -/

def EventRow.isPushKind (v : EventRow) : Bool := pushKinds.contains v.kind

/-- What the writes of a request may do. -/
structure WritesOf (request : GateRequest) (g : Tables → Tables) : Prop where
  /-- Only an activation adds active leases, and only to its community. -/
  lease : ∀ t, ∀ r ∈ (g t).leases, r.active = true → r ∈ t.leases ∨
    ∃ e now, request.Activates e now ∧ r.address.community = e.address.community
  event : ∀ t, ∀ v ∈ (g t).events, v.isPushKind = true → v ∈ t.events ∨
    ∃ now, request = .insertEvent v now
  keeps : ∀ t, ∀ v ∈ t.events, v.isPushKind = true → v ∈ (g t).events
  nodup : ∀ t, t.queue.Nodup → (g t).queue.Nodup
  queued : ∀ t, t.queue ⊆ (g t).queue

namespace WritesOf

variable {P maxActiveLeases} {request : GateRequest}

theorem id : WritesOf request id :=
  ⟨fun _ _ hr _ => .inl hr, fun _ _ hv _ => .inl hv, fun _ _ hv _ => hv, fun _ h => h,
    fun _ => List.Subset.refl _⟩

variable {g : Tables → Tables}

theorem comp {f : Tables → Tables} (hf : WritesOf request f) (hg : WritesOf request g) :
    WritesOf request (f ∘ g) where
  lease t r hr hactive := by
    obtain hr | hadds := hf.lease (g t) r hr hactive
    · exact hg.lease t r hr hactive
    · exact .inr hadds
  event t v hv hkind := by
    obtain hv | hadds := hf.event (g t) v hv hkind
    · exact hg.event t v hv hkind
    · exact .inr hadds
  keeps t v hv hkind := hf.keeps (g t) v (hg.keeps t v hv hkind) hkind
  nodup t ht := hf.nodup (g t) (hg.nodup t ht)
  queued t := List.Subset.trans (hg.queued t) (hf.queued (g t))

theorem of_events (hleases : ∀ t, (g t).leases = t.leases) (hqueue : ∀ t, (g t).queue = t.queue)
    (hevent : ∀ t, ∀ v ∈ (g t).events, v.isPushKind = true →
      v ∈ t.events ∨ ∃ now, request = .insertEvent v now)
    (hkeeps : ∀ t, ∀ v ∈ t.events, v.isPushKind = true → v ∈ (g t).events) :
    WritesOf request g := by
  refine ⟨fun t r hr _ => .inl ?_, hevent, hkeeps, fun t ht => ?_, fun t => ?_⟩
  · rwa [hleases] at hr
  · rwa [hqueue]
  · rw [hqueue]
    exact List.Subset.refl _

theorem of_leases (hevents : ∀ t, (g t).events = t.events) (hqueue : ∀ t, (g t).queue = t.queue)
    (hlease : ∀ t, ∀ r ∈ (g t).leases, r.active = true →
      r ∈ t.leases ∨ ∃ e now, request.Activates e now ∧ r.address.community = e.address.community) :
    WritesOf request g := by
  refine ⟨hlease, fun t v hv _ => .inl ?_, fun t v hv _ => ?_, fun t ht => ?_, fun t => ?_⟩
  · rwa [hevents] at hv
  · rwa [hevents]
  · rwa [hqueue]
  · rw [hqueue]
    exact List.Subset.refl _

theorem deactivate (keys : List Address) : WritesOf request (Tables.deactivate keys) := by
  refine of_leases (fun _ => rfl) (fun _ => rfl) fun t r hr hactive => .inl ?_
  obtain ⟨u, hu, rfl⟩ := mem_map.mp hr
  split at hactive
  · nomatch hactive
  · next hkeep => rwa [if_neg hkeep]

theorem deleteEvents (a : Address) (now : Int) (keys : List (CommunityId × Int × EventId)) :
    WritesOf request (Tables.deleteEvents a now keys) := by
  -- A source event is a lease event, which is of no push-eligible kind.
  have hsource : ∀ v : EventRow, v.isPushKind = true → v.isSource a = false := by
    intro v hkind
    refine Bool.eq_false_iff.mpr fun hsource => ?_
    simp only [EventRow.isSource, Bool.and_eq_true, beq_iff_eq] at hsource
    rw [EventRow.isPushKind, hsource.1.1.1.2] at hkind
    exact absurd hkind (by decide)
  refine of_events (fun _ => rfl) (fun _ => rfl) (fun t v hv hkind => .inl ?_)
    fun t v hv hkind => ?_
  · obtain ⟨u, hu, rfl⟩ := mem_map.mp hv
    split at hkind
    · next hmark =>
      have hkind' : u.isPushKind = true := hkind
      rw [hsource u hkind', Bool.and_false] at hmark
      nomatch hmark
    · next hkeep => rwa [if_neg hkeep]
  · refine mem_map.mpr ⟨v, hv, if_neg ?_⟩
    simp [hsource v hkind]

theorem insertLeaseEvent (e : LeaseEvent) (createdAt now : Int) :
    WritesOf request (Tables.insertEvent (e.eventRow createdAt now)) := by
  refine of_events (fun _ => rfl) (fun _ => rfl) (fun t v hv hkind => .inl ?_)
    fun t v hv _ => mem_cons_of_mem _ hv
  obtain rfl | hv := mem_cons.mp hv
  · exact absurd hkind (by simp [EventRow.isPushKind, LeaseEvent.eventRow, pushKinds, kindPushLease])
  · exact hv

theorem insertEvent (row : EventRow) (now : Int) :
    WritesOf (.insertEvent row now) (Tables.insertEvent row) := by
  refine of_events (fun _ => rfl) (fun _ => rfl) (fun t v hv _ => ?_)
    fun t v hv _ => mem_cons_of_mem _ hv
  obtain rfl | hv := mem_cons.mp hv
  · exact .inr ⟨now, rfl⟩
  · exact .inl hv

variable {e : LeaseEvent} {now : Int}

theorem upsertLease (h : e.active.isSome = true → request.Activates e now) :
    WritesOf request (Tables.upsertLease e.row) := by
  refine of_leases (fun _ => rfl) (fun _ => rfl) fun t r hr hactive => ?_
  obtain rfl | hr := mem_cons.mp hr
  · exact .inr ⟨e, now, h hactive, rfl⟩
  · exact .inl (mem_filter.mp hr).1

theorem enqueue (keys : List (CommunityId × EventId)) : WritesOf request (Tables.enqueue keys) where
  lease _ _ hr _ := .inl hr
  event _ _ hv _ := .inl hv
  keeps _ _ hv _ := hv
  nodup _ ht := nodup_enqueue ht
  queued _ _ hk := mem_enqueue.mpr (.inl hk)

theorem backfill {community : CommunityId} {next : PushTxn}
    (hnext : next.AllWrites (WritesOf request)) :
    (backfillPushMatchJobs community now next).AllWrites (WritesOf request) :=
  Txn.allWrites_write enqueue hnext

theorem writeLease (h : e.active.isSome = true → request.Activates e now) :
    (Push.writeLease P e now).AllWrites (WritesOf request) := by
  refine Txn.allWrites_write (deleteEvents e.address now) ?_
  split
  · trivial
  refine Txn.allWrites_read id fun taken => ?_
  split
  · trivial
  refine Txn.allWrites_write (fun _ => insertLeaseEvent e _ now)
    (Txn.allWrites_lock (Txn.allWrites_read id fun violation => ?_))
  cases violation with
  | some outcome => trivial
  | none =>
    refine Txn.allWrites_write (fun _ => upsertLease h) ?_
    split
    · exact backfill trivial
    · trivial

theorem acceptOrdered (h : e.active.isSome = true → request.Activates e now)
    (current : Option LeaseRow) :
    (Push.acceptOrdered P maxActiveLeases e now current).AllWrites (WritesOf request) := by
  rw [Push.acceptOrdered]
  split
  · trivial
  refine Txn.allWrites_read id fun violates => ?_
  split
  · trivial
  refine Txn.allWrites_write deactivate (Txn.allWrites_read id fun block => ?_)
  cases block with
  | some outcome => trivial
  | none => exact writeLease h

theorem acceptUnderLock (h : e.active.isSome = true → request.Activates e now) :
    (Push.acceptUnderLock P maxActiveLeases e now).AllWrites (WritesOf request) := by
  refine Txn.allWrites_read id fun bound => ?_
  cases bound with
  | some row => trivial
  | none =>
    refine Txn.allWrites_read id fun found => ?_
    split
    · exact Txn.allWrites_lock (Txn.allWrites_read id (acceptOrdered h))
    · exact acceptOrdered h none

theorem replaceUnderLock (h : e.active.isSome = true → request.Activates e now) :
    (Push.replaceUnderLock e now).AllWrites (WritesOf request) := by
  show Txn.AllWrites _ (ite _ _ _)
  split
  · trivial
  refine Txn.allWrites_read id fun seen => ?_
  obtain ⟨applies, violation⟩ := seen
  cases applies with
  | false =>
    refine Txn.allWrites_read id fun current => ?_
    cases current with
    | none | some current => trivial
  | true =>
    cases violation with
    | some outcome => trivial
    | none =>
      refine Txn.allWrites_write (fun _ => upsertLease h) ?_
      split
      · exact backfill trivial
      · trivial

theorem transaction (request : GateRequest) :
    (Push.transaction P maxActiveLeases request).AllWrites (WritesOf request) := by
  cases request with
  | acceptLease e now =>
    show Txn.AllWrites _ (ite _ _ _)
    split
    · next hactive => exact acceptUnderLock fun _ => ⟨rfl, rfl, hactive⟩
    · next hactive => exact acceptUnderLock fun h => absurd h hactive
  | replaceLease e now =>
    show Txn.AllWrites _ (ite _ _ _)
    split
    · next hactive => exact replaceUnderLock fun _ => ⟨rfl, rfl, hactive⟩
    · next hactive => exact replaceUnderLock fun h => absurd h hactive
  | insertEvent row now =>
    rw [Push.transaction, Push.insertEvent]
    refine Txn.allWrites_read id fun conflict => ?_
    split
    · trivial
    refine Txn.allWrites_write (fun _ => insertEvent row now) ?_
    show Txn.AllWrites _ (ite _ _ _)
    split
    · refine Txn.allWrites_lock (Txn.allWrites_read id fun found => ?_)
      split
      · exact Txn.allWrites_write enqueue trivial
      · trivial
    · trivial

end WritesOf

end Buzz.Push
