import Buzz.Core.Basic
import Buzz.Lib.Keyset

/-!
# Events and their threads

The tables of the events and of what is known about their places in threads, and how a row becomes an
event again. The library that reads the event is not modelled; it is `fromValue`, which has no result
where it finds the row damaged.
-/

namespace Buzz.Thread

abbrev Bytes := List UInt8

/-- A row of `events`. -/
structure EventRow where
  communityId : CommunityId
  id : Bytes
  pubkey : Bytes
  createdAt : Int
  kind : Int
  tags : List (List String)
  content : String
  sig : Bytes
  channelId : Option Uuid
  deletedAt : Option Int

/-- A row of `thread_metadata`. -/
structure ThreadMetadata where
  communityId : CommunityId
  eventCreatedAt : Int
  eventId : Bytes
  channelId : Uuid
  parentEventId : Option Bytes
  rootEventId : Option Bytes
  depth : Int
  replyCount : Int
  descendantCount : Int
  lastReplyAt : Option Int
  broadcast : Bool

/-- The primary key of `events`. -/
def EventRow.primaryKey (e : EventRow) : CommunityId × Int × Bytes := (e.communityId, e.createdAt, e.id)

/-- The primary key of `thread_metadata`. -/
def ThreadMetadata.primaryKey (m : ThreadMetadata) : CommunityId × Int × Bytes :=
  (m.communityId, m.eventCreatedAt, m.eventId)

/-- The tables. Kinds are written from 16 bits, and the instants of events from their seconds. -/
structure Tables where
  events : List EventRow
  threadMetadata : List ThreadMetadata
  events_unique : (events.map EventRow.primaryKey).Nodup
  metadata_unique : (threadMetadata.map ThreadMetadata.primaryKey).Nodup
  kind_range : ∀ e ∈ events, 0 ≤ e.kind ∧ e.kind < 65536
  created_range : ∀ e ∈ events, seconds minTimestamptzSecs ≤ e.createdAt
  metadata_seconds : ∀ m ∈ threadMetadata, ∃ secs,
    minTimestamptzSecs ≤ secs ∧ secs ≤ maxUtcSecs ∧ m.eventCreatedAt = seconds secs
  metadata_ids : ∀ m ∈ threadMetadata, m.eventId.length = 32

/-- `DbError`, and the errors of the database itself. -/
inductive DbError where
  | invalidData (message : String)
  /-- An instant that is bound to the query is out of the range of the database. -/
  | timestampOutOfRange
  | negativeLimit

/-- The order of byte strings is the one of the numbers in them. -/
def bytesKey (bytes : Bytes) : List ℕ := bytes.map UInt8.toNat

theorem bytesKey_injective : Function.Injective bytesKey :=
  List.map_injective_iff.mpr fun _ _ h => UInt8.toNat_inj.mp h

/-- A stored event, in the terms of its JSON. -/
structure EventJson where
  id : String
  pubkey : String
  createdAt : Int
  kind : Int
  tags : List (List String)
  content : String
  sig : String

def EventRow.toJson (row : EventRow) : EventJson where
  id := hexEncode row.id
  pubkey := hexEncode row.pubkey
  createdAt := row.createdAt / 1000000
  kind := row.kind
  tags := row.tags
  content := row.content
  sig := hexEncode row.sig

variable (fromValue : EventJson → Option Event)

def rowToStoredEvent (row : EventRow) : Except DbError (Option StoredEvent) :=
  if 0 ≤ row.kind ∧ row.kind < 65536 then
    .ok ((fromValue row.toJson).map fun event => ⟨event, row.channelId⟩)
  else .error (.invalidData ("kind out of u16 range: " ++ toString row.kind))

theorem rowToStoredEvent_eq {t : Tables} {e : EventRow} (he : e ∈ t.events) :
    rowToStoredEvent fromValue e =
      .ok ((fromValue e.toJson).map fun event => ⟨event, e.channelId⟩) :=
  if_pos (t.kind_range e he)

/-- An instant is bound to a query. -/
def bindTimestamp (ts : Int) : Except DbError Unit :=
  if seconds minTimestamptzSecs ≤ ts then .ok () else .error .timestampOutOfRange

/-! ### A reader, and a message -/

/-- An event, read from an object that is not damaged. -/
def readEvent (json : EventJson) : Option Event :=
  (hexDecode json.id).bind fun id => (hexDecode json.pubkey).map fun pubkey =>
    ⟨BitVec.ofNat 256 (ofBytesBE id), BitVec.ofNat 256 (ofBytesBE pubkey),
      UInt64.ofInt json.createdAt, UInt16.ofInt json.kind,
      json.tags.map fun tag => ⟨tag.headD "", tag[1]?⟩⟩

theorem isSome_readEvent (row : EventRow) : (readEvent row.toJson).isSome = true := by
  simp [readEvent, EventRow.toJson, hexDecode_hexEncode]

def message (id : UInt8) : EventRow where
  communityId := 1
  id := List.replicate 32 id
  pubkey := List.replicate 32 7
  createdAt := seconds 1780000000
  kind := 9
  tags := []
  content := ""
  sig := List.replicate 64 0
  channelId := some 2
  deletedAt := none

end Buzz.Thread
