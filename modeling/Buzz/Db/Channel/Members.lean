import Buzz.Core.Basic
import Buzz.Core.Text
import Buzz.Lib.KeyMap
import Buzz.Lib.Transaction

/-!
# Channels and their members

The transactions that create channels and change their members, statement by statement. Removed
members keep their rows. Changes of members take an advisory lock of the channel; creations do not
take it, and conflict on the primary key of the channel.

The columns `role` and `visibility` are Postgres enumerations, so they hold no other values. The
locks that Postgres takes on single rows of members are left out: they would only take interleavings
away.
-/

namespace Buzz.Channel

/-! ### The tables -/

abbrev Pubkey := List UInt8

/-- The role of a member. -/
inductive MemberRole where
  | owner
  | admin
  | member
  | guest
  | bot
  deriving DecidableEq

/-- `is_elevated`: roles that only existing owners/admins may grant. -/
def MemberRole.isElevated : MemberRole → Bool
  | owner => true
  | admin => true
  | _ => false

inductive ChannelVisibility where
  | open_
  | private_
  deriving DecidableEq

inductive ChannelType where
  | stream
  | forum
  | dm
  | workflow
  deriving DecidableEq

/-- The primary key of `channels`. -/
abbrev ChannelKey := CommunityId × Uuid

/-- A row of `channels`. -/
structure ChannelRow where
  community : CommunityId
  id : Uuid
  name : String
  channelType : ChannelType
  visibility : ChannelVisibility
  description : Option String
  createdBy : Pubkey
  ttlSeconds : Option Int
  deletedAt : Option Int

def ChannelRow.key (r : ChannelRow) : ChannelKey := (r.community, r.id)

/-- A row of `channel_members`. -/
structure MemberRow where
  community : CommunityId
  channelId : Uuid
  pubkey : Pubkey
  role : MemberRole
  joinedAt : Int
  invitedBy : Option Pubkey
  removedAt : Option Int
  removedBy : Option Pubkey

def MemberRow.key (r : MemberRow) : ChannelKey × Pubkey := ((r.community, r.channelId), r.pubkey)

/-- `DO UPDATE SET`, of the row that is there, by the one that was to be inserted. -/
def MemberRow.rejoin (excluded old : MemberRow) : MemberRow :=
  { old with removedAt := none, removedBy := none, role := excluded.role }

/-- A row of `users`. -/
structure UserRow where
  community : CommunityId
  pubkey : Pubkey
  agentOwnerPubkey : Option Pubkey

/-- The tables of channels, members and users. -/
structure ChannelDb where
  channels : List ChannelRow
  members : List MemberRow
  users : List UserRow

namespace ChannelDb

variable (db : ChannelDb)

/-- A channel that is not deleted. -/
def getChannel (k : ChannelKey) : Option ChannelRow :=
  (lookupKey ChannelRow.key db.channels k).filter fun r => r.deletedAt.isNone

def getActiveRole (k : ChannelKey) (pubkey : Pubkey) : Option MemberRole :=
  ((lookupKey MemberRow.key db.members (k, pubkey)).filter fun r => r.removedAt.isNone).map
    MemberRow.role

/-- The row is an active owner of the channel. -/
def isOwnerOf (k : ChannelKey) (r : MemberRow) : Bool :=
  (r.community, r.channelId) == k && r.role == .owner && r.removedAt.isNone

/-- `SELECT COUNT(*)` of the active owners. -/
def ownerCount (k : ChannelKey) : Nat := db.members.countP (isOwnerOf k)

def isAgentOwner (community : CommunityId) (target actor : Pubkey) : Bool :=
  (db.users.find? fun u => u.community == community && u.pubkey == target &&
    u.agentOwnerPubkey.isSome).any fun u => u.agentOwnerPubkey == some actor

/-- `INSERT INTO channels`. -/
def insertChannel (r : ChannelRow) : ChannelDb := { db with channels := db.channels ++ [r] }

/-- `INSERT INTO channel_members ... ON CONFLICT DO UPDATE`. -/
def upsertMember (r : MemberRow) : ChannelDb :=
  { db with
    members := upsertKey MemberRow.key r.key r.rejoin r db.members }

/-- `UPDATE channel_members SET removed_at = NOW(), removed_by = ...`, of an active member. -/
def setRemoved (k : ChannelKey) (pubkey actor : Pubkey) (now : Int) : ChannelDb :=
  { db with
    members := db.members.map fun r =>
      if r.key = (k, pubkey) ∧ r.removedAt = none then
        { r with removedAt := some now, removedBy := some actor }
      else r }

end ChannelDb

/-! ### Answers -/

inductive SqlxError where
  | uniqueViolation
  | rowNotFound

inductive DbError where
  | sqlx (e : SqlxError)
  | channelNotFound (id : Uuid)
  | memberNotFound (channelId : Uuid)
  | accessDenied (reason : String)
  | invalidData (reason : String)

inductive Reply where
  | channel (record : ChannelRow) (wasCreated : Bool)
  | member (record : MemberRow)
  | done
  | error (e : DbError)

inductive LockKey where
  | membership (k : ChannelKey)
  | channel (k : ChannelKey)
  deriving DecidableEq

abbrev ChannelTxn := Txn ChannelDb LockKey Reply

/-- Return an error, which rolls the transaction back. -/
def fails (e : DbError) : ChannelTxn := .rollback (.error e)

def invalidPubkey (pubkey : Pubkey) : DbError :=
  .invalidData ("pubkey must be 32 bytes, got " ++ toString pubkey.length)

/-! ### Creations -/

def canonicalChannelName (name : String) : String :=
  String.ofList
    (((name.toList.dropWhile fun c => c == '#' || isWhitespace c).reverse.dropWhile
      isWhitespace).reverse)

/-- What `create_channel` and `create_channel_with_id` are called with. -/
structure CreateChannel where
  community : CommunityId
  id : Uuid
  name : String
  channelType : ChannelType
  visibility : ChannelVisibility
  description : Option String
  createdBy : Pubkey
  ttlSeconds : Option Int
  now : Int

namespace CreateChannel

variable (q : CreateChannel)

def key : ChannelKey := (q.community, q.id)

def row : ChannelRow where
  community := q.community
  id := q.id
  name := canonicalChannelName q.name
  channelType := q.channelType
  visibility := q.visibility
  description := q.description
  createdBy := q.createdBy
  ttlSeconds := q.ttlSeconds
  deletedAt := none

def ownerRow : MemberRow where
  community := q.community
  channelId := q.id
  pubkey := q.createdBy
  role := .owner
  joinedAt := q.now
  invitedBy := some q.createdBy
  removedAt := none
  removedBy := none

/-- `INSERT INTO channels`, which waits for other transactions that insert the same key. -/
def insert (conflict ok : ChannelTxn) : ChannelTxn :=
  .lock ⟨.channel q.key, .exclusive⟩ <|
    .read (fun db => (lookupKey ChannelRow.key db.channels q.key).isSome) fun exists_ =>
      if exists_ then conflict else .write (fun _ => ()) (fun _ db => db.insertChannel q.row) ok

def insertOwner (next : ChannelTxn) : ChannelTxn :=
  .write (fun _ => ()) (fun _ db => db.upsertMember q.ownerRow) next

def record (wasCreated : Bool) : ChannelTxn :=
  .read (fun db => lookupKey ChannelRow.key db.channels q.key) fun
    | none => fails (.sqlx .rowNotFound)
    | some r => .commit (.channel r wasCreated)

end CreateChannel

/-- `create_channel`, with the identifier that it draws. -/
def createChannel (q : CreateChannel) : ChannelTxn :=
  if q.createdBy.length ≠ 32 then fails (invalidPubkey q.createdBy)
  else if (trim (canonicalChannelName q.name)).isEmpty then
    fails (.invalidData "channel name is required")
  else q.insert (fails (.sqlx .uniqueViolation)) (q.insertOwner (q.record true))

def createChannelWithId (q : CreateChannel) : ChannelTxn :=
  if q.createdBy.length ≠ 32 then fails (invalidPubkey q.createdBy)
  else if q.id = 0 then
    fails (.invalidData "channel_id must not be nil (reserved for global fan-out)")
  else if (trim (canonicalChannelName q.name)).isEmpty then
    fails (.invalidData "channel name is required")
  else q.insert (q.record false) (q.insertOwner (q.record true))

/-! ### Changes of members -/

def acquireChannelMembershipLock (k : ChannelKey) (next : ChannelTxn) : ChannelTxn :=
  .lock ⟨.membership k, .exclusive⟩ next

def getActiveRoleTx (k : ChannelKey) (pubkey : Pubkey) (next : Option MemberRole → ChannelTxn) :
    ChannelTxn :=
  .read (fun db => db.getActiveRole k pubkey) next

/-- `get_active_role_tx` of somebody who may not be named. -/
def getActiveRoleOf (k : ChannelKey) (pubkey : Option Pubkey)
    (next : Option MemberRole → ChannelTxn) : ChannelTxn :=
  match pubkey with
  | some pubkey => getActiveRoleTx k pubkey next
  | none => next none

/-- Go on when the channel has another owner. -/
def unlessLastOwner (k : ChannelKey) (reason : String) (next : ChannelTxn) : ChannelTxn :=
  .read (fun db => db.ownerCount k) fun count =>
    if count ≤ 1 then fails (.accessDenied reason) else next

/-- What `add_member` is called with. -/
structure AddMember where
  community : CommunityId
  channelId : Uuid
  pubkey : Pubkey
  role : MemberRole
  invitedBy : Option Pubkey
  now : Int

namespace AddMember

variable (q : AddMember)

def key : ChannelKey := (q.community, q.channelId)

/-- The member's row, when it is new. -/
def row : MemberRow where
  community := q.community
  channelId := q.channelId
  pubkey := q.pubkey
  role := q.role
  joinedAt := q.now
  invitedBy := q.invitedBy
  removedAt := none
  removedBy := none

/-- `effective_role`: may the role be granted? It is never changed. -/
def effectiveRole (channel : ChannelRow) (next : ChannelTxn) : ChannelTxn :=
  if channel.visibility = .private_ then
    match q.invitedBy with
    | none => fails (.accessDenied "private channel requires an invite")
    | some inviter =>
      -- Bootstrap: channel creator may add themselves as the first member.
      if inviter = q.pubkey ∧ inviter = channel.createdBy then next
      else
        getActiveRoleTx q.key inviter fun
          | none => fails (.accessDenied "inviter is not an active member")
          | some inviterRole =>
            -- Any member can invite others, but only owners/admins may grant elevated roles.
            if q.role.isElevated && !inviterRole.isElevated then
              fails (.accessDenied "only owners/admins may grant elevated roles")
            else next
  else if q.role.isElevated then
    getActiveRoleOf q.key q.invitedBy fun
      | some .owner => next
      | some .admin => next
      | _ => fails (.accessDenied "only owners/admins may grant elevated roles")
  else next

/-- Changing an active member's role is privileged in both directions. -/
def guardChange (next : ChannelTxn) : ChannelTxn :=
  getActiveRoleTx q.key q.pubkey fun currentRole =>
    match currentRole.filter fun r => r != q.role with
    | none => next
    | some currentRole =>
      getActiveRoleOf q.key q.invitedBy fun actorRole =>
        if actorRole.any MemberRole.isElevated then
          if currentRole = .owner ∧ q.role ≠ .owner then
            unlessLastOwner q.key "cannot demote the last owner — transfer ownership first" next
          else next
        else fails (.accessDenied "only owners/admins may change an active member's role")

def upsert : ChannelTxn :=
  .write (fun _ => ()) (fun _ db => db.upsertMember q.row) <|
    .read (fun db => lookupKey MemberRow.key db.members (q.key, q.pubkey)) fun
      | none => fails (.sqlx .rowNotFound)
      | some r => .commit (.member r)

end AddMember

def addMember (q : AddMember) : ChannelTxn :=
  if q.pubkey.length ≠ 32 then fails (invalidPubkey q.pubkey)
  else
    acquireChannelMembershipLock q.key <|
      .read (fun db => db.getChannel q.key) fun
        | none => fails (.channelNotFound q.channelId)
        | some channel => q.effectiveRole channel (q.guardChange q.upsert)

/-- What `remove_member` is called with. -/
structure RemoveMember where
  community : CommunityId
  channelId : Uuid
  pubkey : Pubkey
  actor : Pubkey
  now : Int

namespace RemoveMember

variable (q : RemoveMember)

def key : ChannelKey := (q.community, q.channelId)

/-- May the actor remove other members? -/
def authorize (actorIsAgentOwner : Bool) (next : ChannelTxn) : ChannelTxn :=
  if q.pubkey = q.actor then next
  else
    getActiveRoleTx q.key q.actor fun
      | none => fails (.accessDenied "actor is not an active member")
      | some actorRole =>
        if !actorRole.isElevated && !actorIsAgentOwner then
          fails (.accessDenied "only owners/admins or the agent's owner may remove other members")
        else next

def guardOwner (next : ChannelTxn) : ChannelTxn :=
  getActiveRoleTx q.key q.pubkey fun targetRole =>
    if targetRole = some .owner then
      unlessLastOwner q.key "cannot remove the last owner — transfer ownership first" next
    else next

/-- The `UPDATE`, which must affect a row. -/
def update : ChannelTxn :=
  .query (fun _ db => db.setRemoved q.key q.pubkey q.actor q.now) fun view =>
    if (view.getActiveRole q.key q.pubkey).isNone then fails (.memberNotFound q.channelId)
    else .commit .done

def locked (actorIsAgentOwner : Bool) : ChannelTxn :=
  acquireChannelMembershipLock q.key <| q.authorize actorIsAgentOwner (q.guardOwner q.update)

end RemoveMember

/-- `remove_member`. Whether the actor owns the agent is read before the transaction begins. -/
def removeMember (q : RemoveMember) : ChannelTxn :=
  if q.pubkey = q.actor then q.locked false
  else .read (fun db => db.isAgentOwner q.community q.pubkey q.actor) q.locked

/-! ### Calls -/

/-- A call of the database layer. -/
inductive Call where
  | createChannel (q : CreateChannel)
  | createChannelWithId (q : CreateChannel)
  | addMember (q : AddMember)
  | removeMember (q : RemoveMember)

def Call.program : Call → ChannelTxn
  | .createChannel q => Channel.createChannel q
  | .createChannelWithId q => Channel.createChannelWithId q
  | .addMember q => Channel.addMember q
  | .removeMember q => Channel.removeMember q

end Buzz.Channel
