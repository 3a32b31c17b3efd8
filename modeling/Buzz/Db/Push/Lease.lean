import Buzz.Core.Basic
import Buzz.Lib.Json
import Buzz.Lib.KeyMap
import Buzz.Lib.Transaction

/-!
# Push leases

The tables behind push notifications, as far as the acceptance of leases and the gate of the match
queue touch them, and the transactions that write them: `accept_lease_event`, `replace_lease`, and
the insert of an event with its trigger.

A row is locked by `SELECT … FOR UPDATE` when it is there, and by an upsert in any case. The locks
that other statements take on rows lie under the advisory locks and are left out. `now()` is the
start of the transaction.
-/

namespace Buzz.Push

/-! ### Tables -/

/-- The primary key of `push_leases`. -/
structure Address where
  community : CommunityId
  author : PublicKey
  installationId : String
  deriving DecidableEq

/-- A row of `push_leases`. -/
structure LeaseRow where
  address : Address
  sourceEventId : EventId
  sourceCreatedAt : Int
  generation : Int
  active : Bool
  endpointEnabled : Bool
  appProfile : Option String
  /-- SHA-256 of the platform endpoint. -/
  endpointHash : Option (BitVec 256)
  endpointGrant : Option String
  maxClass : Option String
  subscriptions : Option Json
  /-- When the lease expires, in Unix seconds. -/
  expiresAt : Int
  deriving DecidableEq

/-- The `CHECK` constraints of `push_leases`. -/
def LeaseRow.check (r : LeaseRow) : Bool :=
  decide (1 ≤ r.address.installationId.utf8ByteSize ∧ r.address.installationId.utf8ByteSize ≤ 64) &&
    decide (0 < r.generation) &&
    r.maxClass.all (fun c => ["silent", "default", "time_sensitive", "urgent"].contains c) &&
    (r.active && r.appProfile.isSome && r.endpointHash.isSome && r.endpointGrant.isSome &&
        r.maxClass.isSome && r.subscriptions.isSome ||
      !r.active && r.appProfile.isNone && r.endpointHash.isNone && r.endpointGrant.isNone &&
        r.maxClass.isNone && r.subscriptions.isNone)

/-- A row of `events`. -/
structure EventRow where
  community : CommunityId
  id : EventId
  pubkey : PublicKey
  createdAt : Int
  kind : Nat
  dTag : Option String
  receivedAt : Int
  deletedAt : Option Int
  deriving DecidableEq

/-- The primary key of `events`. -/
def EventRow.key (r : EventRow) : CommunityId × Int × EventId := (r.community, r.createdAt, r.id)

/-- The tables of leases, events and of the match queue. -/
structure Tables where
  leases : List LeaseRow
  events : List EventRow
  queue : List (CommunityId × EventId)

inductive LockKey where
  | advisory (n : Int)
  | lease (address : Address)
  deriving DecidableEq

structure Platform where
  /-- The first eight bytes of SHA-256, as a little-endian `i64`. -/
  sha256 : List UInt8 → Int
  hashtext : String → Int
  /-- `DateTime::from_timestamp`, for a timestamp that Postgres can store, in microseconds. -/
  fromTimestamp : Int → Option Int

inductive DbError where
  /-- An integrity constraint was violated, outside the statements that map it to an outcome. -/
  | constraint
  | invalidTimestamp (seconds : Int)
  | rowNotFound
  deriving DecidableEq

/-- `kind:30350`, a push lease. -/
def kindPushLease : Nat := 30350

def pushKinds : List Nat := [7, 9, 1059, 40007, 46010]

def pushGateBackfillSecs : Int := 120

/-- `EXTRACT(EPOCH FROM now())::bigint`. The cast rounds. -/
def epoch (now : Int) : Int := (now + 500000) / 1000000

/-! ### Requests -/

/-- Common signed-event ordering fields for a lease replacement. -/
structure LeaseVersion where
  /-- Signed `kind:30350` event id. -/
  sourceEventId : EventId
  sourceCreatedAt : Int
  generation : Int
  expiresAt : Int
  deriving DecidableEq

/-- Effective fields for an active APNs lease. -/
structure ActiveLease where
  appProfile : String
  /-- SHA-256 of the platform endpoint. -/
  endpointHash : BitVec 256
  endpointGrant : String
  maxClass : String
  subscriptions : Json
  deriving DecidableEq

/-- A signed lease event, decoded, with the address it is for. -/
structure LeaseEvent where
  address : Address
  version : LeaseVersion
  active : Option ActiveLease
  deriving DecidableEq

/-- The row that a lease event is written as. -/
def LeaseEvent.row (e : LeaseEvent) : LeaseRow where
  address := e.address
  sourceEventId := e.version.sourceEventId
  sourceCreatedAt := e.version.sourceCreatedAt
  generation := e.version.generation
  active := e.active.isSome
  endpointEnabled := true
  appProfile := e.active.map ActiveLease.appProfile
  endpointHash := e.active.map ActiveLease.endpointHash
  endpointGrant := e.active.map ActiveLease.endpointGrant
  maxClass := e.active.map ActiveLease.maxClass
  subscriptions := e.active.map ActiveLease.subscriptions
  expiresAt := e.version.expiresAt

/-- Result of atomically accepting a signed push lease and its effective state. -/
inductive AcceptLeaseOutcome where
  | accepted
  | staleEvent
  /-- The incoming generation did not exceed the durable watermark. -/
  | staleGeneration
  | endpointAlreadyLeased
  /-- The author already has the configured maximum active leases. -/
  | leaseQuotaExceeded
  /-- The source event id is already bound to another lease address. -/
  | sourceEventCollision
  /-- A validated lease still violated a database integrity constraint. -/
  | constraintViolation
  deriving DecidableEq

inductive ReplaceLeaseOutcome where
  | accepted
  /-- The signed event did not win the ordering of addressable events. -/
  | staleEvent
  | staleGeneration
  deriving DecidableEq

inductive Reply where
  | error (e : DbError)
  | lease (outcome : AcceptLeaseOutcome)
  | replaced (outcome : ReplaceLeaseOutcome)
  | inserted (wasInserted : Bool)
  deriving DecidableEq

abbrev PushTxn := Txn Tables LockKey Reply

/-! ### Statements -/

def Tables.lease (t : Tables) (address : Address) : Option LeaseRow :=
  lookupKey LeaseRow.address t.leases address

/-- The row of `push_leases` with this source event. -/
def Tables.leaseOfSource (t : Tables) (community : CommunityId) (source : EventId) :
    Option LeaseRow :=
  t.leases.find? fun r => r.address.community == community && r.sourceEventId == source

def Tables.leasesOf (t : Tables) (a : Address) : List LeaseRow :=
  t.leases.filter fun r => r.address.community == a.community && r.address.author == a.author

/-- Insert or replace the row of an address. -/
def Tables.upsertLease (row : LeaseRow) (t : Tables) : Tables :=
  { t with leases := row :: t.leases.filter fun r => r.address != row.address }

def EventRow.isSource (a : Address) (r : EventRow) : Bool :=
  r.community == a.community && r.kind == kindPushLease && r.pubkey == a.author &&
    r.dTag == some a.installationId && r.deletedAt.isNone

/-- Queue events that are not queued yet. -/
def Tables.enqueue (keys : List (CommunityId × EventId)) (t : Tables) : Tables :=
  { t with queue := keys.foldl (fun queue k => if queue.contains k then queue else k :: queue) t.queue }

/-- Add a row to `events`. -/
def Tables.insertEvent (row : EventRow) (t : Tables) : Tables :=
  { t with events := row :: t.events }

/-- Mark the live source events of an address with these keys as deleted. -/
def Tables.deleteEvents (a : Address) (now : Int) (keys : List (CommunityId × Int × EventId))
    (t : Tables) : Tables :=
  { t with
    events := t.events.map fun r =>
      if keys.contains r.key && r.isSource a then { r with deletedAt := some now } else r }

def LeaseRow.deactivate (r : LeaseRow) : LeaseRow :=
  { r with active := false, endpointEnabled := false }

/-- Clean up the leases of these addresses. -/
def Tables.deactivate (addresses : List Address) (t : Tables) : Tables :=
  { t with
    leases := t.leases.map fun r => if addresses.contains r.address then r.deactivate else r }

/-- The NIP-01 order of addressable events: later, or as late with the lower id. -/
def winsEvent (v : LeaseVersion) (current : LeaseRow) : Bool :=
  decide (v.sourceCreatedAt > current.sourceCreatedAt) ||
    (v.sourceCreatedAt == current.sourceCreatedAt &&
      decide (v.sourceEventId < current.sourceEventId))

/-- A row of the author whose lease has run out but is active. -/
def LeaseRow.lapsed (now : Int) (r : LeaseRow) : Bool :=
  r.active && decide (r.expiresAt ≤ epoch now)

/-- The lease makes its community eligible for wakes. -/
def LeaseRow.eligible (now : Int) (r : LeaseRow) : Bool :=
  r.active && r.endpointEnabled && decide (r.expiresAt > epoch now)

def LeaseRow.sameEndpoint (r s : LeaseRow) : Bool :=
  s.appProfile == r.appProfile && s.endpointHash == r.endpointHash

/-- `SELECT … FOR UPDATE` of the row of an address. A row that is not there is not locked. -/
def selectForUpdate (a : Address) (next : Option LeaseRow → PushTxn) : PushTxn :=
  .read (fun t => (t.lease a).isSome) fun found =>
    if found then .lock ⟨.lease a, .exclusive⟩ (.read (fun t => t.lease a) next) else next none

/-! ### Locks -/

def uuidBytes (u : Uuid) : List UInt8 := bytesBE 16 u.toNat

def keyBytes (k : PublicKey) : List UInt8 := bytesBE 32 k.toNat

variable (P : Platform)

def addressLock (a : Address) : LockKey :=
  .advisory (P.sha256 (uuidBytes a.community ++ keyBytes a.author ++
    a.installationId.toUTF8.toList))

def authorLock (a : Address) : LockKey :=
  .advisory (P.sha256 (uuidBytes a.community ++ keyBytes a.author))

def gateLock (community : CommunityId) : LockKey :=
  .advisory (P.hashtext ("buzz_push_gate:" ++ community.toHyphenated))

def acquirePushGateLock (community : CommunityId) (next : PushTxn) : PushTxn :=
  .lock ⟨gateLock P community, .exclusive⟩ next

/-! ### Transactions -/

/-- The events that `backfill_push_match_jobs` selects. -/
def backfillKeys (community : CommunityId) (now : Int) (t : Tables) :
    List (CommunityId × EventId) :=
  (t.events.filter fun r => r.community == community && pushKinds.contains r.kind &&
    r.deletedAt.isNone && decide (r.receivedAt > now - seconds pushGateBackfillSecs)).map
      fun r => (r.community, r.id)

def backfillPushMatchJobs (community : CommunityId) (now : Int) (next : PushTxn) : PushTxn :=
  .write (backfillKeys community now) Tables.enqueue next

/-- The order checks of an acceptance. -/
def stale (v : LeaseVersion) (current : Option LeaseRow) : Option AcceptLeaseOutcome :=
  match current with
  | none => none
  | some current =>
    if !winsEvent v current then some .staleEvent
    else if v.generation ≤ current.generation then some .staleGeneration
    else none

/-- The author's active leases at other installations. -/
def otherActive (a : Address) (t : Tables) : List LeaseRow :=
  (t.leasesOf a).filter fun r => r.active && r.address.installationId != a.installationId

/-- The quota and endpoint checks. -/
def blocked (maxActiveLeases : Nat) (e : LeaseEvent) (t : Tables) : Option AcceptLeaseOutcome :=
  match e.active with
  | none => none
  | some _ =>
    if maxActiveLeases ≤ (otherActive e.address t).length then some .leaseQuotaExceeded
    else if (otherActive e.address t).any (LeaseRow.sameEndpoint e.row) then
      some .endpointAlreadyLeased
    else none

/-- What `constraint_acceptance_outcome` makes of the violations of the final upsert. -/
def upsertViolation (row : LeaseRow) (t : Tables) : Option AcceptLeaseOutcome :=
  let others := t.leases.filter fun r => r.address != row.address &&
    r.address.community == row.address.community
  if !row.check then some .constraintViolation
  else if others.any (fun r => r.sourceEventId == row.sourceEventId) then
    some .sourceEventCollision
  else if row.active && others.any (fun r =>
      r.active && r.address.author == row.address.author && row.sameEndpoint r) then
    some .endpointAlreadyLeased
  else none

/-- The row that a lease event gets in `events`. -/
def LeaseEvent.eventRow (e : LeaseEvent) (createdAt now : Int) : EventRow where
  community := e.address.community
  id := e.version.sourceEventId
  pubkey := e.address.author
  createdAt := createdAt
  kind := kindPushLease
  dTag := some e.address.installationId
  receivedAt := now
  deletedAt := none

/-- The part of `accept_lease_event` that writes. -/
def writeLease (e : LeaseEvent) (now : Int) : PushTxn :=
  .write (fun t => (t.events.filter (EventRow.isSource e.address)).map EventRow.key)
    (Tables.deleteEvents e.address now) <|
  match P.fromTimestamp e.version.sourceCreatedAt with
  | none => .rollback (.error (.invalidTimestamp e.version.sourceCreatedAt))
  | some createdAt =>
    .read (fun t => t.events.any (fun r => r.key == (e.eventRow createdAt now).key)) fun taken =>
    if taken then .rollback (.lease .constraintViolation)
    else
      .write (fun _ => ()) (fun _ => Tables.insertEvent (e.eventRow createdAt now)) <|
      .lock ⟨.lease e.address, .exclusive⟩ <|
      .read (upsertViolation e.row) fun violation =>
      match violation with
      | some outcome => .rollback (.lease outcome)
      | none =>
        .write (fun _ => ()) (fun _ => Tables.upsertLease e.row) <|
        if e.active.isSome then
          backfillPushMatchJobs e.address.community now (.commit (.lease .accepted))
        else .commit (.lease .accepted)

/-- The part of `accept_lease_event` after the row of the address is read. -/
def acceptOrdered (maxActiveLeases : Nat) (e : LeaseEvent) (now : Int)
    (current : Option LeaseRow) : PushTxn :=
  match stale e.version current with
  | some outcome => .rollback (.lease outcome)
  | none =>
    -- The clean-up of lapsed leases: a row that breaks a constraint fails the statement.
    .read (fun t => ((t.leasesOf e.address).filter (LeaseRow.lapsed now)).any (fun r =>
      !r.deactivate.check)) fun violates =>
    if violates then .rollback (.error .constraint)
    else
      .write (fun t => ((t.leasesOf e.address).filter (LeaseRow.lapsed now)).map LeaseRow.address)
        Tables.deactivate <|
      .read (blocked maxActiveLeases e) fun block =>
      match block with
      | some outcome => .rollback (.lease outcome)
      | none => writeLease P e now

/-- The part of `accept_lease_event` after its locks. -/
def acceptUnderLock (maxActiveLeases : Nat) (e : LeaseEvent) (now : Int) : PushTxn :=
  .read (fun t => t.leaseOfSource e.address.community e.version.sourceEventId) fun bound =>
  match bound with
  | some row =>
    .rollback (.lease (if row.address.author ≠ e.address.author ∨
      row.address.installationId ≠ e.address.installationId then .sourceEventCollision
      else .staleEvent))
  | none => selectForUpdate e.address (acceptOrdered P maxActiveLeases e now)

/-- `accept_lease_event`, begun at `now`. -/
def acceptLeaseEvent (maxActiveLeases : Nat) (e : LeaseEvent) (now : Int) : PushTxn :=
  .lock ⟨addressLock P e.address, .exclusive⟩ <|
  .lock ⟨authorLock P e.address, .exclusive⟩ <|
  if e.active.isSome then
    acquirePushGateLock P e.address.community (acceptUnderLock P maxActiveLeases e now)
  else acceptUnderLock P maxActiveLeases e now

end Buzz.Push
