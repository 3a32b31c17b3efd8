import Buzz.Lib.Hex

/-!
# Shared identifiers and events

The relay names communities, channels, connections and epochs by UUIDs. Nothing in the programs
modelled here looks inside one, apart from hashing its sixteen bytes, so a UUID is its 128 bits.

Wall-clock instants (`DateTime<Utc>`, `TIMESTAMPTZ`) are integers: microseconds since the Unix
epoch, the resolution Postgres keeps. `DateTime<Utc>` and `timestamptz` hold different ranges of
them: the upper end of the first lies below that of the second one, the lower ends are the other way
round.

A Nostr event is what the relay reads of it. Tags are what the code sees of them through the two
accessors it uses, `kind().to_string()` and `content()`: the first entry of the tag and the second
one.
-/

/-! ## Identifiers and instants -/

namespace Buzz

/-- The bytes of a value of `w` bits, in lower-case hexadecimal. -/
def toHex {w : Nat} (x : BitVec w) : String := hexEncode (bytesBE (w / 8) x.toNat)

abbrev Uuid := BitVec 128

instance : LawfulBEq Uuid := inferInstance

/-- `Uuid::to_string`: lower-case hexadecimal digits in groups of 8, 4, 4, 4 and 12. -/
def Uuid.toHyphenated (u : Uuid) : String :=
  let hex := (toHex u).toList
  String.ofList (hex.take 8 ++ '-' :: (hex.drop 8).take 4 ++ '-' :: (hex.drop 12).take 4 ++
    '-' :: (hex.drop 16).take 4 ++ '-' :: hex.drop 20)

/-- The server-resolved community key carried on every scoped path. -/
abbrev CommunityId := Uuid

/-- A span of whole seconds, in microseconds. -/
def seconds (n : Int) : Int := n * 1000000

theorem bind_ok_iff {ε α β : Type} {x : Except ε α} {f : α → Except ε β} {b : β} :
    x.bind f = .ok b ↔ ∃ a, x = .ok a ∧ f a = .ok b := by
  cases x with
  | error e | ok a => simp [Except.bind]

theorem bind_eq_ok_iff {ε α β : Type} {x : Except ε α} {f : α → Except ε β} {b : β} :
    (x >>= f) = .ok b ↔ ∃ a, x = .ok a ∧ f a = .ok b :=
  bind_ok_iff

theorem mapError_ok_iff {ε ε' α : Type} {x : Except ε α} {f : ε → ε'} {a : α} :
    x.mapError f = .ok a ↔ x = .ok a := by
  cases x <;> simp [Except.mapError]

/-! ### The ranges of timestamps -/

/-- The latest instant of `DateTime<Utc>`, in seconds. -/
def maxUtcSecs : Int := 8210266876799

/-- The earliest instant of `DateTime<Utc>`, in seconds. -/
def minUtcSecs : Int := -8334601228800

/-- The earliest instant of `timestamptz`, in seconds. -/
def minTimestamptzSecs : Int := -210866803200

/-- `DateTime::from_timestamp` has a result. -/
def isUtcSecs (ts : Int) : Bool := decide (minUtcSecs ≤ ts) && decide (ts ≤ maxUtcSecs)

def i64Max : Int := 9223372036854775807

end Buzz

/-! ## Events -/

namespace Buzz

abbrev Kind := UInt16

/-- The 32 bytes of an event id. -/
abbrev EventId := BitVec 256

/-- The 32 bytes of an x-only public key. -/
abbrev PublicKey := BitVec 256

/-- Seconds since the Unix epoch. -/
abbrev Timestamp := UInt64

structure Tag where
  kind : String
  content : Option String
  deriving DecidableEq

/-- A Nostr event. -/
structure Event where
  id : EventId
  pubkey : PublicKey
  createdAt : Timestamp
  kind : Kind
  tags : List Tag
  deriving DecidableEq

/-- A Nostr event with the channel scope the relay gave it. -/
structure StoredEvent where
  event : Event
  channelId : Option Uuid
  deriving DecidableEq

/-- Does the event have a tag of this kind and content? -/
def StoredEvent.hasTag (ev : StoredEvent) (kind value : String) : Bool :=
  ((ev.event.tags.filter fun t => t.kind == kind).filterMap Tag.content).any fun v => v == value

theorem StoredEvent.hasTag_iff {ev : StoredEvent} {kind value : String} :
    ev.hasTag kind value = true ↔
      ∃ t ∈ ev.event.tags, t.kind = kind ∧ t.content = some value := by
  simp only [StoredEvent.hasTag, List.any_eq_true, List.mem_filterMap, List.mem_filter, beq_iff_eq]
  constructor
  · rintro ⟨v, ⟨t, ⟨ht, hk⟩, hc⟩, rfl⟩
    exact ⟨t, ht, hk, hc⟩
  · rintro ⟨t, ht, hk, hc⟩
    exact ⟨value, ⟨t, ⟨ht, hk⟩, hc⟩, rfl⟩

end Buzz
