import Buzz.Db.Channel.Members
import Buzz.Lib.Sorting
import Mathlib.Data.Finset.Card
import Mathlib.Data.List.Lex

/-!
# Direct messages

A DM is a channel whose row carries a hash of its participants. `open_dm` looks the hash up outside
of any transaction, and creates the channel in a transaction of its own that looks once more. What
a transaction has written is nobody else's to see before the commit, but an index entry of a row
that is not committed yet makes the insertion of an equal one wait.

A call is cut where another one can come in between: before each of its statements.
-/

namespace Buzz.Dm

open Channel (Pubkey MemberRole ChannelType ChannelVisibility ChannelKey)

/-- Bytes are ordered as numbers, and so byte slices lexicographically. -/
scoped instance instLinearOrderByte : LinearOrder UInt8 where
  le_refl := UInt8.le_refl
  le_trans _ _ _ := UInt8.le_trans
  le_antisymm _ _ := UInt8.le_antisymm
  le_total := UInt8.le_total
  lt_iff_le_not_ge _ _ := Std.lt_iff_le_and_not_ge
  toDecidableLE := inferInstance
  toDecidableEq := inferInstance
  toDecidableLT := inferInstance

variable {Digest : Type} [DecidableEq Digest]

/-! ### The tables -/

/-- A row of `channels`. -/
structure ChannelRow (Digest : Type) where
  community : CommunityId
  id : Uuid
  name : String
  channelType : ChannelType
  visibility : ChannelVisibility
  createdBy : Pubkey
  participantHash : Option Digest
  deletedAt : Option Int
  deriving DecidableEq

def ChannelRow.key (r : ChannelRow Digest) : ChannelKey := (r.community, r.id)

/-- `channel_type = 'dm' AND deleted_at IS NULL`. -/
def ChannelRow.Live (r : ChannelRow Digest) : Prop := r.channelType = .dm ∧ r.deletedAt = none

instance (r : ChannelRow Digest) : Decidable r.Live := inferInstanceAs (Decidable (_ ∧ _))

/-- Two rows that cannot both be in the table: by the primary key, or by `idx_channels_dm_hash`. -/
def ChannelRow.Conflicts (r s : ChannelRow Digest) : Prop :=
  r.key = s.key ∨
    (r.community = s.community ∧ r.participantHash = s.participantHash ∧ r.participantHash ≠ none)

instance (r s : ChannelRow Digest) : Decidable (r.Conflicts s) :=
  inferInstanceAs (Decidable (_ ∨ _))

/-- A row of `channel_members`. -/
structure MemberRow where
  community : CommunityId
  channelId : Uuid
  pubkey : Pubkey
  role : MemberRole
  invitedBy : Option Pubkey
  removedAt : Option Int
  removedBy : Option Pubkey
  hiddenAt : Option Int
  deriving DecidableEq

def MemberRow.key (m : MemberRow) : ChannelKey × Pubkey := ((m.community, m.channelId), m.pubkey)

/-- `DO UPDATE SET`, of the row that is there, by the one that was to be inserted. -/
def MemberRow.rejoin (excluded old : MemberRow) : MemberRow :=
  { old with removedAt := none, removedBy := none, role := excluded.role }

/-- `INSERT … ON CONFLICT (community_id, channel_id, pubkey) DO UPDATE`. -/
def insertMember (members : List MemberRow) (m : MemberRow) : List MemberRow :=
  if members.any fun old => old.key = m.key then
    members.map fun old => if old.key = m.key then m.rejoin old else old
  else members ++ [m]

/-- The tables of channels and members. -/
structure Db (Digest : Type) where
  channels : List (ChannelRow Digest)
  members : List MemberRow

namespace Db

variable (db : Db Digest)

def Active (k : ChannelKey) (pubkey : Pubkey) : Prop :=
  ∃ m ∈ db.members, m.key = (k, pubkey) ∧ m.removedAt = none

def Hidden (k : ChannelKey) (pubkey : Pubkey) : Prop :=
  ∃ m ∈ db.members, m.key = (k, pubkey) ∧ m.removedAt = none ∧ m.hiddenAt ≠ none

/-- `find_dm_by_participants`. At most one row has the hash. -/
def findDmByParticipants (community : CommunityId) (hash : Digest) : Option (ChannelRow Digest) :=
  db.channels.find? fun r => r.community = community ∧ r.participantHash = some hash ∧ r.Live

/-- `UPDATE channel_members SET hidden_at`, of an active member: the rows, and how many they are. -/
def setHidden (k : ChannelKey) (pubkey : Pubkey) (hiddenAt : Option Int) : Db Digest × Nat :=
  let hits (m : MemberRow) : Bool := m.key = (k, pubkey) ∧ m.removedAt = none
  ({ db with members := db.members.map fun m => if hits m then { m with hiddenAt } else m },
    db.members.countP hits)

def unhideDm (community : CommunityId) (channelId : Uuid) (pubkey : Pubkey) : Db Digest :=
  (db.setHidden (community, channelId) pubkey none).1

end Db

/-- `DbError`, and the error of the database on a duplicate key. -/
inductive DbError where
  | invalidData (text : String)
  | notFound (text : String)
  | uniqueViolation
  deriving DecidableEq

def hideDm (db : Db Digest) (community : CommunityId) (channelId : Uuid) (pubkey : Pubkey)
    (now : Int) : Db Digest × Except DbError Unit :=
  let (db, rowsAffected) := db.setHidden (community, channelId) pubkey (some now)
  if rowsAffected = 0 then
    (db, .error (.notFound ("no active membership for channel " ++ channelId.toHyphenated)))
  else (db, .ok ())

/-! ### What is asked for -/

/-- The arguments of `open_dm`. Its callers have decoded the public keys. -/
structure Request where
  community : CommunityId
  pubkeys : List Pubkey
  createdBy : Pubkey
  /-- Public keys have 32 bytes. -/
  length_eq : ∀ pk ∈ createdBy :: pubkeys, pk.length = 32
  deriving DecidableEq

namespace Request

variable (q : Request)

/-- The caller is added if it is not there. -/
def all : List Pubkey := if q.createdBy ∈ q.pubkeys then q.pubkeys else q.pubkeys ++ [q.createdBy]

def participants : Finset Pubkey := (q.createdBy :: q.pubkeys).toFinset

/-- The sizes of participant sets that a DM can have. -/
def InRange : Prop := 2 ≤ q.participants.card ∧ q.participants.card ≤ 9

instance : Decidable q.InRange := inferInstanceAs (Decidable (_ ∧ _))

end Request

/-- What is hashed: the public keys, sorted and without repetitions. -/
def hashed (pubkeys : List Pubkey) : List UInt8 := (sortDedup pubkeys).flatten

section Call

variable (sha256 : List UInt8 → Digest)

def computeParticipantHash (pubkeys : List Pubkey) : Digest := sha256 (hashed pubkeys)

/-- What `create_dm` checks first. -/
def checkParticipants (participants : List Pubkey) : Except DbError Unit :=
  if participants.length < 2 then .error (.invalidData "DM requires at least 2 participants")
  else if 9 < participants.length then
    .error (.invalidData "DM supports at most 9 participants")
  else match participants.find? fun pk => pk.length ≠ 32 with
    | some pk => .error (.invalidData ("pubkey must be 32 bytes, got " ++ toString pk.length))
    | none => .ok ()

/-- The name of a DM, by the number of participants. -/
def dmName (n : Nat) : String := if n = 2 then "DM" else "Group DM (" ++ toString n ++ ")"

/-- The row that `create_dm` inserts. -/
def Request.newRow (q : Request) (id : Uuid) : ChannelRow Digest where
  community := q.community
  id := id
  name := dmName q.all.length
  channelType := .dm
  visibility := .private_
  createdBy := q.createdBy
  participantHash := some (computeParticipantHash sha256 q.all)
  deletedAt := none

/-- The rows of members that `create_dm` inserts. -/
def Request.newMember (q : Request) (id : Uuid) (pubkey : Pubkey) : MemberRow where
  community := q.community
  channelId := id
  pubkey := pubkey
  role := .member
  invitedBy := some q.createdBy
  removedAt := none
  removedBy := none
  hiddenAt := none

/-! ### Statements -/

/-- Where a call stands: the statement that comes next, and the rows of its transaction. -/
inductive Phase (Digest : Type) where
  | find
  | unhide (existing : ChannelRow Digest)
  | check
  | commitExisting (existing : ChannelRow Digest)
  | insert
  /-- `create_dm`: `INSERT INTO channel_members`, of the next participant. -/
  | addMembers (row : ChannelRow Digest) (added : List MemberRow) (rest : List Pubkey)
  | reselect (row : ChannelRow Digest) (added : List MemberRow)
  | commit (row : ChannelRow Digest) (added : List MemberRow)
  deriving DecidableEq

/-- The row that a transaction has inserted and not committed. -/
def Phase.pending : Phase Digest → Option (ChannelRow Digest)
  | .addMembers row _ _ => some row
  | .reselect row _ => some row
  | .commit row _ => some row
  | _ => none

/-- What `open_dm` returns. -/
abbrev Result (Digest : Type) := Except DbError (ChannelRow Digest × Bool)

/-- How a statement ends: with the next phase, or with the result. -/
inductive Next (Digest : Type) where
  | goOn (phase : Phase Digest)
  | done (result : Result Digest)

/-- The phase after the members that have been inserted. -/
def Phase.afterMembers (row : ChannelRow Digest) (added : List MemberRow) :
    List Pubkey → Phase Digest
  | [] => .reselect row added
  | pk :: rest => .addMembers row added (pk :: rest)

/-- The next statement of a call, and what is computed up to the one after it. `id` is what
`Uuid::new_v4` has drawn. The insertion of a row waits for the transactions that have inserted a
row which conflicts with it. -/
def Phase.advance (db : Db Digest) (others : List (ChannelRow Digest)) (q : Request) (id : Uuid) :
    Phase Digest → Option (Db Digest × Next Digest)
  | .find =>
    match db.findDmByParticipants q.community (computeParticipantHash sha256 q.all) with
    | some existing => some (db, .goOn (.unhide existing))
    | none =>
      match checkParticipants q.all with
      | .error e => some (db, .done (.error e))
      | .ok () => some (db, .goOn .check)
  | .unhide existing =>
    some (db.unhideDm q.community existing.id q.createdBy, .done (.ok (existing, false)))
  | .check =>
    match db.findDmByParticipants q.community (computeParticipantHash sha256 q.all) with
    | some existing => some (db, .goOn (.commitExisting existing))
    | none => some (db, .goOn .insert)
  | .commitExisting existing => some (db, .done (.ok (existing, true)))
  | .insert =>
    if others.any fun r => r.Conflicts (q.newRow sha256 id) then none
    else if db.channels.any fun r => r.Conflicts (q.newRow sha256 id) then
      some (db, .done (.error .uniqueViolation))
    else some (db, .goOn (.afterMembers (q.newRow sha256 id) [] q.all))
  | .addMembers row added rest =>
    match rest with
    | [] => some (db, .goOn (.reselect row added))
    | pk :: rest =>
      some (db, .goOn (.afterMembers row (insertMember added (q.newMember row.id pk)) rest))
  | .reselect row added => some (db, .goOn (.commit row added))
  | .commit row added =>
    some (⟨db.channels ++ [row], added.foldl insertMember db.members⟩, .done (.ok (row, true)))

end Call

/-! ### Calls that run concurrently -/

/-- A call of `open_dm`. -/
structure Call (Digest : Type) where
  id : Nat
  request : Request
  phase : Phase Digest

/-- A call that has returned. -/
structure Returned (Digest : Type) where
  id : Nat
  request : Request
  result : Result Digest
  deriving DecidableEq

/-- The tables, and the calls in flight and returned. -/
structure Dms (Digest : Type) where
  db : Db Digest
  calls : List (Call Digest)
  returned : List (Returned Digest)
  begun : List Nat

/-- A step of a call, or of the user who hides a conversation. -/
inductive Action where
  | start (id : Nat) (request : Request)
  | advance (id : Nat) (uuid : Uuid)
  | hide (community : CommunityId) (channelId : Uuid) (pubkey : Pubkey) (now : Int)

namespace Dms

variable (sha256 : List UInt8 → Digest) (x : Dms Digest)

def others (id : Nat) : List (Call Digest) := x.calls.filter fun c => c.id ≠ id

def proceed (c : Call Digest) : Db Digest × Next Digest → Dms Digest
  | (db, .goOn phase) => { x with db, calls := { c with phase } :: x.others c.id }
  | (db, .done result) =>
    { x with db, calls := x.others c.id, returned := ⟨c.id, c.request, result⟩ :: x.returned }

/-- One action. The size of the list is checked before anything is read. -/
def step : Action → Option (Dms Digest)
  | .start id q =>
    if id ∈ x.begun then none
    else if 9 < q.all.length then
      some { x with
        returned := ⟨id, q, .error (.invalidData "DM supports at most 9 participants")⟩ ::
          x.returned
        begun := id :: x.begun }
    else some { x with calls := ⟨id, q, .find⟩ :: x.calls, begun := id :: x.begun }
  | .advance id uuid =>
    match lookupKey Call.id x.calls id with
    | none => none
    | some c =>
      (c.phase.advance sha256 x.db ((x.others id).filterMap fun o => o.phase.pending) c.request
        uuid).map (x.proceed c)
  | .hide community channelId pubkey now =>
    some { x with db := (hideDm x.db community channelId pubkey now).1 }

end Dms

/-- The tables hold DMs that have the hash and the members of a set of two to nine participants. -/
structure Sound (sha256 : List UInt8 → Digest) (db : Db Digest) : Prop where
  unique : ∀ r ∈ db.channels, ∀ s ∈ db.channels, r.Conflicts s → r = s
  foreign : ∀ m ∈ db.members, ∃ r ∈ db.channels, r.key = m.key.1
  live : ∀ r ∈ db.channels, r.Live → ∃ pubkeys : List Pubkey,
    (∀ pk ∈ pubkeys, pk.length = 32) ∧
    2 ≤ pubkeys.toFinset.card ∧ pubkeys.toFinset.card ≤ 9 ∧
    r.participantHash = some (computeParticipantHash sha256 pubkeys) ∧
    ∀ pk, db.Active r.key pk ↔ pk ∈ pubkeys

/-- Calls of `open_dm` and `hide_dm` that run concurrently. -/
def dms (sha256 : List UInt8 → Digest) : StateMachine (Dms Digest) Action where
  Init x := Sound sha256 x.db ∧ x.calls = [] ∧ x.returned = [] ∧ x.begun = []
  step := Dms.step sha256

end Buzz.Dm
