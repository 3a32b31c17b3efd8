import Buzz.Core.Basic
import Buzz.Lib.Json
import Mathlib.Data.List.Sort

/-!
# Audit entries and their hash

An entry of the audit log, as it is in memory and as it is stored, and the bytes that its hash is
taken of. What the platform supplies is a parameter: the digest, the text of a timestamp, what
Postgres gives back for a document that it was given, and the hash that turns a name into a lock.

Timestamps are nanoseconds since the Unix epoch, the resolution of the clock.
-/

namespace Buzz.Audit

abbrev Bytes := List UInt8

structure Platform where
  sha256 : Bytes → Vector UInt8 32
  rfc3339 : Int → String
  jsonb : Json → Json
  hashtext : String → Int

/-- The 32 bytes hashed in place of `prev_hash` for a community's first entry. -/
def genesisHash : Bytes := List.replicate 32 0

/-! ### Actions -/

inductive AuditAction where
  | eventCreated
  | eventDeleted
  | channelCreated
  | channelUpdated
  | channelDeleted
  | memberAdded
  | memberRemoved
  | authSuccess
  | authFailure
  | rateLimitExceeded
  | mediaUploaded
  deriving DecidableEq

def AuditAction.asStr : AuditAction → String
  | .eventCreated => "event_created"
  | .eventDeleted => "event_deleted"
  | .channelCreated => "channel_created"
  | .channelUpdated => "channel_updated"
  | .channelDeleted => "channel_deleted"
  | .memberAdded => "member_added"
  | .memberRemoved => "member_removed"
  | .authSuccess => "auth_success"
  | .authFailure => "auth_failure"
  | .rateLimitExceeded => "rate_limit_exceeded"
  | .mediaUploaded => "media_uploaded"

def AuditAction.all : List AuditAction :=
  [.eventCreated, .eventDeleted, .channelCreated, .channelUpdated, .channelDeleted, .memberAdded,
    .memberRemoved, .authSuccess, .authFailure, .rateLimitExceeded, .mediaUploaded]

def AuditAction.fromStr (s : String) : Option AuditAction :=
  AuditAction.all.find? fun a => a.asStr == s

theorem AuditAction.fromStr_asStr (a : AuditAction) : AuditAction.fromStr a.asStr = some a := by
  cases a <;> decide

/-! ### Entries -/

structure NewAuditEntry where
  communityId : CommunityId
  action : AuditAction
  actorPubkey : Option Bytes
  objectId : Option String
  detail : Json
  deriving DecidableEq

/-- An entry of the chain. -/
structure AuditEntry where
  communityId : CommunityId
  seq : Int
  hash : Bytes
  prevHash : Option Bytes
  action : AuditAction
  actorPubkey : Option Bytes
  objectId : Option String
  detail : Json
  createdAt : Int

/-- A row of `audit_log`, as it is read back. -/
structure AuditRow where
  communityId : CommunityId
  seq : Int
  hash : Bytes
  prevHash : Option Bytes
  action : String
  actorPubkey : Option Bytes
  objectId : Option String
  detail : Json
  createdAt : Int
  deriving DecidableEq

inductive AuditError where
  | chainViolation (seq : Int)
  | hashMismatch (seq : Int)
  | unknownAction
  deriving DecidableEq

/-! ### The hash -/

/-- Drop what is finer than a microsecond. -/
def toStoragePrecision (createdAt : Int) : Int := createdAt - createdAt % 1000

/-- A field that may be absent: a presence tag, and the bytes. -/
def taggedBytes : Option Bytes → Bytes
  | none => [0]
  | some bytes => 1 :: bytes

mutual

/-- Sort the members of every object by their keys. -/
def canonicalize : Json → Json
  | .arr xs => .arr (canonicalizeElems xs)
  | .obj members =>
    .obj ((canonicalizeMembers members).insertionSort fun m n => m.1.toList ≤ n.1.toList)
  | .null => .null
  | .bool b => .bool b
  | .num n => .num n
  | .str s => .str s

def canonicalizeElems : List Json → List Json
  | [] => []
  | x :: xs => canonicalize x :: canonicalizeElems xs

def canonicalizeMembers : List (String × Json) → List (String × Json)
  | [] => []
  | (k, v) :: members => (k, canonicalize v) :: canonicalizeMembers members

end

def canonicalJson (value : Json) : String := String.ofList (canonicalize value).render

/-- The `n` bytes of a number, the most significant one first. -/
def beBytes : Nat → Nat → Bytes
  | 0, _ => []
  | n + 1, x => beBytes n (x / 256) ++ [UInt8.ofNat (x % 256)]

variable (P : Platform)

/-- The bytes that `compute_hash` feeds to the digest. -/
def hashInput (entry : AuditEntry) : Bytes :=
  beBytes 16 entry.communityId.toNat ++ beBytes 8 (BitVec.ofInt 64 entry.seq).toNat ++
    utf8 (P.rfc3339 (toStoragePrecision entry.createdAt)) ++ utf8 entry.action.asStr ++
    taggedBytes entry.actorPubkey ++ taggedBytes (entry.objectId.map utf8) ++
    utf8 (canonicalJson entry.detail) ++ entry.prevHash.getD genesisHash

def computeHash (entry : AuditEntry) : Bytes := (P.sha256 (hashInput P entry)).toList

/-! ### Rows -/

/-- What a `TIMESTAMPTZ` column gives back: whole microseconds. -/
def timestamptz (t : Int) : Int := t - t % 1000

def storeRow (entry : AuditEntry) : AuditRow where
  communityId := entry.communityId
  seq := entry.seq
  hash := entry.hash
  prevHash := entry.prevHash
  action := entry.action.asStr
  actorPubkey := entry.actorPubkey
  objectId := entry.objectId
  detail := P.jsonb entry.detail
  createdAt := timestamptz entry.createdAt

def rowToAuditEntry (row : AuditRow) : Except AuditError AuditEntry :=
  match AuditAction.fromStr row.action with
  | none => .error .unknownAction
  | some action =>
    .ok ⟨row.communityId, row.seq, row.hash, row.prevHash, action, row.actorPubkey, row.objectId,
      row.detail, row.createdAt⟩

/-- A document that is hashed alike before it is stored and after. -/
def StoredUnchanged (detail : Json) : Prop := canonicalJson (P.jsonb detail) = canonicalJson detail

instance (detail : Json) : Decidable (StoredUnchanged P detail) :=
  inferInstanceAs (Decidable (_ = _))

variable {P}

theorem toStoragePrecision_idem (t : Int) :
    toStoragePrecision (toStoragePrecision t) = toStoragePrecision t := by
  unfold toStoragePrecision
  omega

theorem computeHash_storeRow {entry : AuditEntry} (h : StoredUnchanged P entry.detail) :
    ∃ read, rowToAuditEntry (storeRow P entry) = .ok read ∧ read.hash = entry.hash ∧
      read.prevHash = entry.prevHash ∧ computeHash P read = computeHash P entry := by
  have hread : rowToAuditEntry (storeRow P entry) =
      .ok { entry with detail := P.jsonb entry.detail, createdAt := timestamptz entry.createdAt } := by
    rw [rowToAuditEntry, storeRow, AuditAction.fromStr_asStr]
  refine ⟨_, hread, rfl, rfl, ?_⟩
  unfold computeHash hashInput
  rw [h, show toStoragePrecision (timestamptz entry.createdAt) = toStoragePrecision entry.createdAt
    from toStoragePrecision_idem _]

end Buzz.Audit
