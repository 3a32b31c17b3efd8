import Buzz.Relay.Freshness
import Buzz.Relay.IdentityArchive.Handler
import Buzz.Workflow.Schedule

/-!
# Querying events

An event is a row of `events`, with columns that ingest computes from it, and the rows of
`event_mentions` that name it. A query is a conjunction of conditions on the columns. `LIMIT` and
`OFFSET` are left out: a page is all that the conditions select, in the order of the statement.
-/

namespace Buzz.Pushdown

open IdentityArchive (isHex64 toAsciiLowercase)
open Freshness (ingestTimestampDrift outOfRange maxTimestampDriftSecs)
open Workflow (DateTime)

/-! ### Events -/

/-- A tag with everything that it carries. It is never empty. -/
structure RawTag where
  name : String
  values : List String

def RawTag.asSlice (t : RawTag) : List String := t.name :: t.values

/-- The second entry, if the tag has this name. -/
def RawTag.valueOf (name : String) (t : RawTag) : Option String :=
  if t.name == name then t.values.head? else none

structure RawEvent where
  id : EventId
  pubkey : PublicKey
  createdAt : Timestamp
  kind : Kind
  tags : List RawTag

def RawEvent.toEvent (e : RawEvent) : Event :=
  ⟨e.id, e.pubkey, e.createdAt, e.kind, e.tags.map fun t => ⟨t.name, t.values.head?⟩⟩

def isParameterizedReplaceable (kind : Kind) : Bool := 30000 ≤ kind && kind ≤ 39999

/-- `extract_d_tag`: the value of the first `d` tag that has one. -/
def extractDTag (e : RawEvent) : Option String :=
  if isParameterizedReplaceable e.kind then
    some ((e.tags.findSome? (RawTag.valueOf "d")).getD "")
  else none

/-- The keys that `insert_mentions` finds in an event. -/
def mentionedKeys (e : RawEvent) : List String :=
  ((e.tags.filterMap (RawTag.valueOf "p")).filter isHex64).map toAsciiLowercase

/-! ### Rows -/

/-- A row of `events`, with the rows of `event_mentions` that name it. -/
structure Row where
  event : RawEvent
  communityId : CommunityId
  channelId : Option Uuid
  createdAt : DateTime
  dTag : Option String
  deletedAt : Option Int
  mentions : List String

def Row.stored (r : Row) : StoredEvent := ⟨r.event.toEvent, r.channelId⟩

/-- The two ways in which events are stored. -/
inductive StorePath where
  | event
  | command

def storeRow (path : StorePath) (communityId : CommunityId) (e : RawEvent)
    (channelId : Option Uuid) : Option Row :=
  (DateTime.fromTimestamp e.createdAt.toInt64.toInt).map fun createdAt =>
    ⟨e, communityId, channelId, createdAt, extractDTag e, none,
      match path with
      | .event => mentionedKeys e
      | .command => []⟩

/-- A live row, as ingest has written it. The clock that the event was compared with is not in the
first quarter of an hour of the epoch. -/
structure Stored (path : StorePath) (r : Row) : Prop where
  fresh : ∃ clock : DateTime, 900 < clock.timestamp ∧
    ingestTimestampDrift r.event.createdAt (Int64.ofInt clock.timestamp) = .ok ()
  columns : storeRow path r.communityId r.event r.channelId = some r

variable {path : StorePath} {r : Row}

theorem Stored.column_eq (h : Stored path r) :
    DateTime.fromTimestamp r.event.createdAt.toInt64.toInt = some r.createdAt ∧
      r.dTag = extractDTag r.event ∧ r.deletedAt = none ∧
      (path = .event → r.mentions = mentionedKeys r.event) := by
  obtain ⟨createdAt, hcreated, hrow⟩ := Option.map_eq_some_iff.mp h.columns
  rw [← hrow]
  refine ⟨hcreated, rfl, rfl, ?_⟩
  rintro rfl
  rfl

theorem Stored.nanos_eq (h : Stored path r) :
    r.createdAt.nanos = r.event.createdAt.toInt64.toInt * 1000000000 :=
  DateTime.nanos_of_ofNanos? h.column_eq.1

theorem toInt_toInt64 (x : UInt64) : x.toInt64.toInt = (x.toNat : ℤ).bmod (2 ^ 64) :=
  BitVec.toInt_eq_toNat_bmod x.toBitVec

theorem toInt_toInt64_of_lt {x : UInt64} (h : x.toNat < 2 ^ 63) : x.toInt64.toInt = x.toNat := by
  rw [toInt_toInt64, Int.bmod_eq_of_le (by omega) (by omega)]

theorem toInt_timestamp {clock : DateTime} (h : 900 < clock.timestamp) :
    (Int64.ofInt clock.timestamp).toInt = clock.timestamp ∧ clock.timestamp < 2 ^ 60 := by
  have hrange := clock.inRange.2
  simp only [Workflow.maxNanos] at hrange
  have hlt : clock.timestamp < 2 ^ 60 := by
    rw [DateTime.timestamp]
    omega
  exact ⟨Int64.toInt_ofInt_of_le (by omega) (by omega), hlt⟩

/-- **The time of a stored event is a signed word.** One that ingest takes for fresh because its
distance from the clock has no absolute value is not in the range of the database. -/
theorem Stored.toNat_createdAt_lt (h : Stored path r) : r.event.createdAt.toNat < 2 ^ 63 := by
  obtain ⟨clock, hlate, hfresh⟩ := h.fresh
  obtain ⟨hclock, hearly⟩ := toInt_timestamp hlate
  have hwindow : outOfRange maxTimestampDriftSecs r.event.createdAt (Int64.ofInt clock.timestamp) =
      false := by
    by_contra hout
    rw [ingestTimestampDrift, if_pos (Bool.not_eq_false _ ▸ hout)] at hfresh
    cases hfresh
  rw [Freshness.outOfRange_eq_false_iff (by decide) (by rw [hclock]; exact hlate)
    (by rw [hclock]; change _ + 900 < _; omega), hclock] at hwindow
  obtain hnear | hwrapped := hwindow
  · change |_| ≤ 900 at hnear
    rw [abs_le] at hnear
    omega
  · have hrange := r.createdAt.inRange.1
    rw [h.nanos_eq, toInt_toInt64, hwrapped, Int.bmod_def] at hrange
    simp only [Workflow.minNanos] at hrange
    split at hrange
    · omega
    · omega

theorem Stored.nanos_createdAt (h : Stored path r) :
    r.createdAt.nanos = r.event.createdAt.toNat * 1000000000 := by
  rw [h.nanos_eq, toInt_toInt64_of_lt h.toNat_createdAt_lt]

/-! ### Queries -/

def sharedGatedKinds : List Kind := [30175, 30178]

structure EventQuery where
  communityId : CommunityId
  channelId : Option Uuid
  kinds : Option (List Int)
  pubkey : Option PublicKey
  since : Option DateTime
  untilTime : Option DateTime
  pTagHex : Option String
  dTag : Option String
  dTags : Option (List String)
  beforeId : Option EventId
  globalOnly : Bool
  authors : Option (List PublicKey)
  ids : Option (List EventId)
  eTags : Option (List String)
  channelIds : Option (List Uuid)
  sharedGatedReader : Option PublicKey

def EventQuery.forCommunity (communityId : CommunityId) : EventQuery :=
  ⟨communityId, none, none, none, none, none, none, none, none, none, false, none, none, none, none,
    none⟩

/-- The tags contain `[[a, b]]`, by JSONB containment: the order of the entries does not matter, nor
do entries next to them. -/
def containsPair (tags : List RawTag) (a b : String) : Bool :=
  tags.any fun t => t.asSlice.contains a && t.asSlice.contains b

namespace EventQuery

variable (q : EventQuery) (r : Row)

/-- `community_id`, and `deleted_at IS NULL`. -/
def communityClause : Bool := r.communityId == q.communityId && r.deletedAt.isNone

/-- The join with `event_mentions`. -/
def mentionClause : Bool := q.pTagHex.all fun p => r.mentions.contains (toAsciiLowercase p)

/-- `channel_id`. -/
def channelClause : Bool :=
  match q.channelId with
  | some channelId => r.channelId == some channelId
  | none => !q.globalOnly || r.channelId.isNone

/-- `channel_id IS NULL OR channel_id IN (…)`. -/
def channelsClause : Bool :=
  q.channelIds.all fun channelIds => r.channelId.all channelIds.contains

/-- `kind IN (…)`. -/
def kindClause : Bool := q.kinds.all fun kinds => kinds.contains r.event.kind.toNat

/-- `pubkey =` and `pubkey IN (…)`. -/
def authorClause : Bool :=
  (q.pubkey.all fun pubkey => r.event.pubkey == pubkey) &&
    q.authors.all fun authors => authors.contains r.event.pubkey

/-- `id IN (…)`. -/
def idClause : Bool := q.ids.all fun ids => ids.contains r.event.id

/-- `tags @> …`. -/
def eTagClause : Bool := q.eTags.all fun eTags => eTags.any fun v => containsPair r.event.tags "e" v

/-- `created_at`. -/
def timeClause : Bool :=
  (q.since.all fun since => decide (since.nanos ≤ r.createdAt.nanos)) &&
    q.untilTime.all fun untilTime =>
      match q.beforeId with
      | some beforeId =>
        decide (r.createdAt.nanos < untilTime.nanos) ||
          (r.createdAt == untilTime && decide (beforeId < r.event.id))
      | none => decide (r.createdAt.nanos ≤ untilTime.nanos)

/-- `d_tag =` and `d_tag IN (…)`. -/
def dTagClause : Bool :=
  match q.dTag with
  | some d => r.dTag == some d
  | none => q.dTags.all fun ds => ds.isEmpty || r.dTag.any ds.contains

/-- The visibility of shared kinds. -/
def sharedClause : Bool :=
  q.sharedGatedReader.all fun reader =>
    !sharedGatedKinds.contains r.event.kind || r.event.pubkey == reader ||
      containsPair r.event.tags "shared" "true"

/-- The `WHERE` clause of `query_events_on`. -/
def whereClause : Bool :=
  q.communityClause r && q.mentionClause r && q.channelClause r && q.channelsClause r &&
    q.kindClause r && q.authorClause r && q.idClause r && q.eTagClause r && q.timeClause r &&
    q.dTagClause r && q.sharedClause r

/-- `ORDER BY created_at DESC, id ASC`. -/
def precedes (a b : Row) : Bool :=
  decide (b.createdAt.nanos < a.createdAt.nanos) ||
    (a.createdAt == b.createdAt && decide (a.event.id ≤ b.event.id))

/-- A list of the query is there and is empty. -/
def matchesNothing : Bool :=
  q.kinds == some [] || q.authors == some [] || q.ids == some [] || q.eTags == some []

def queryEventsOn (rows : List Row) : Except String (List Row) :=
  if q.beforeId.isSome && q.untilTime.isNone then .error "before_id requires until to be set"
  else if q.globalOnly && q.channelId.isSome then
    .error "global_only and channel_id are mutually exclusive"
  else if q.matchesNothing then .ok []
  else .ok ((rows.filter q.whereClause).mergeSort precedes)

end EventQuery

end Buzz.Pushdown
