import Buzz.Lib.KeyMap
import Buzz.Lib.Transaction
import Buzz.Workflow.Schedule

/-!
# Storing reactions

A reaction is a row, one for each author, emoji and target, and the event that the author signed.
One transaction writes both. A row that was taken back is put up again by the next reaction.

The index of mentions, which is written after the commit and whose failures are only logged, is left
out. So are the counters of threads: a reaction has no thread metadata.
-/

namespace Buzz.Reaction

open Workflow (DateTime)

/-! ### Events and rows -/

def kindReaction : Kind := 7

structure ReactionEvent extends Event where
  content : String
  isReaction : kind = kindReaction

/-- A row of `events`. -/
structure EventRow where
  community : CommunityId
  id : EventId
  pubkey : PublicKey
  createdAt : DateTime
  kind : Kind
  tags : List Tag
  content : String
  channelId : Option Uuid
  deletedAt : Option Int
  deriving DecidableEq

/-- `PRIMARY KEY (community_id, created_at, id)`. -/
def EventRow.key (r : EventRow) : CommunityId × DateTime × EventId :=
  (r.community, r.createdAt, r.id)

/-- A row of `reactions`. -/
structure ReactionRow where
  community : CommunityId
  eventCreatedAt : DateTime
  eventId : EventId
  pubkey : PublicKey
  emoji : String
  createdAt : Int
  removedAt : Option Int
  reactionEventId : Option EventId

/-- `PRIMARY KEY (community_id, event_created_at, event_id, pubkey, emoji)`. -/
def ReactionRow.key (r : ReactionRow) : CommunityId × DateTime × EventId × PublicKey × String :=
  (r.community, r.eventCreatedAt, r.eventId, r.pubkey, r.emoji)

structure Tables where
  events : List EventRow
  reactions : List ReactionRow

/-- `DbError`, as far as it occurs here. -/
inductive DbError where
  | sqlx (error : String)
  | authEventRejected
  | ephemeralEventRejected (kind : Kind)
  | invalidTimestamp (secs : Int64)

def DbError.toString : DbError → String
  | .sqlx error => "database error: " ++ error
  | .authEventRejected => "AUTH events (kind 22242) must not be stored"
  | .ephemeralEventRejected kind =>
    "ephemeral events (kind " ++ ToString.toString kind.toNat ++ ") must not be stored"
  | .invalidTimestamp secs => "invalid timestamp: " ++ ToString.toString secs

/-! ### Reading -/

/-- `ORDER BY created_at DESC LIMIT 1`. -/
def newest : List EventRow → Option EventRow
  | [] => none
  | r :: rs =>
    match newest rs with
    | none => some r
    | some s => if r.createdAt.nanos < s.createdAt.nanos then some s else some r

/-- The row of an event that is not deleted. -/
def Tables.liveEvent (t : Tables) (community : CommunityId) (id : EventId) : Option EventRow :=
  newest (t.events.filter fun r => r.community == community && r.id == id && r.deletedAt.isNone)

/-- `get_event_by_id`. Reading the event back from its row is the library's. -/
def getEventById (fromValue : EventRow → Option Event) (t : Tables) (community : CommunityId)
    (id : EventId) : Option StoredEvent :=
  match t.liveEvent community id with
  | some row => (fromValue row).map fun event => ⟨event, row.channelId⟩
  | none => none

/-! ### The transaction -/

inductive ReactionEventInsertOutcome where
  | targetMissing
  | duplicate
  | inserted (storedEvent : ReactionEvent × Option Uuid) (wasInserted : Bool)

/-- What `ADD_REACTION_SQL` does to a table. -/
inductive AddReaction where
  | added
  | active
  | violates
  deriving DecidableEq

/-- `idx_reactions_source_event`: a reaction's source event id is unique within a community. -/
def sourceTaken (reactions : List ReactionRow) (r : ReactionRow) : Bool :=
  reactions.any fun s =>
    s.community == r.community && s.reactionEventId == r.reactionEventId && s.key != r.key

/-- Which case of `ADD_REACTION_SQL` applies. -/
def addReaction (reactions : List ReactionRow) (r : ReactionRow) : AddReaction :=
  match lookupKey ReactionRow.key reactions r.key with
  | some old =>
    if old.removedAt.isNone then .active
    else if sourceTaken reactions r then .violates else .added
  | none => if sourceTaken reactions r then .violates else .added

/-- The row of a reaction, added or put up again. -/
def Tables.putReaction (r : ReactionRow) (t : Tables) : Tables :=
  { t with
    reactions :=
      upsertKey ReactionRow.key r.key
        (fun old =>
          { old with
            createdAt := r.createdAt
            removedAt := none
            reactionEventId := r.reactionEventId.or old.reactionEventId }) r t.reactions }

def kindAuth : Kind := 22242

def isEphemeral (kind : Kind) : Bool := 20000 ≤ kind && kind ≤ 29999

/-- The checks of `insert_event_with_thread_metadata_tx`: the row that it inserts. -/
def rowOf (community : CommunityId) (event : ReactionEvent) (channelId : Option Uuid) :
    Except DbError EventRow :=
  if event.kind = kindAuth then .error .authEventRejected
  else if isEphemeral event.kind then .error (.ephemeralEventRejected event.kind)
  else
    match DateTime.fromTimestamp event.createdAt.toInt64.toInt with
    | none => .error (.invalidTimestamp event.createdAt.toInt64)
    | some createdAt =>
      .ok ⟨community, event.id, event.pubkey, createdAt, event.kind, event.tags, event.content,
        channelId, none⟩

/-- The event is in the table, deleted or not. -/
def Tables.hasEvent (t : Tables) (row : EventRow) : Bool :=
  (lookupKey EventRow.key t.events row.key).isSome

/-- `INSERT INTO events … ON CONFLICT DO NOTHING`. -/
def Tables.insertEvent (row : EventRow) (t : Tables) : Tables :=
  if t.hasEvent row then t else { t with events := t.events ++ [row] }

abbrev ReactionTxn := Txn Tables Unit (Except DbError ReactionEventInsertOutcome)

/-- `insert_event_with_thread_metadata_tx` and the commit. -/
def storeEvent (community : CommunityId) (event : ReactionEvent) (channelId : Option Uuid) :
    ReactionTxn :=
  match rowOf community event channelId with
  | .error e => .rollback (.error e)
  | .ok row =>
    .query (fun _ => Tables.insertEvent row) fun view =>
      .commit (.ok (.inserted (event, channelId) !view.hasEvent row))

/-- The row of a reaction. `now` is `NOW()`. -/
def reactionRow (now : Int) (community : CommunityId) (event : ReactionEvent) (target : EventRow)
    (actor : PublicKey) (emoji : String) : ReactionRow :=
  ⟨community, target.createdAt, target.id, actor, emoji, now, none, some event.id⟩

def insertReactionEventWithThreadMetadata (now : Int) (community : CommunityId)
    (event : ReactionEvent) (channelId : Option Uuid) (target : EventId) (actor : PublicKey)
    (emoji : String) : ReactionTxn :=
  .read (fun t => t.liveEvent community target) fun found =>
    match found with
    | none => .rollback (.ok .targetMissing)
    | some row =>
      let r := reactionRow now community event row actor emoji
      .query (fun _ => Tables.putReaction r) fun view =>
        match addReaction view.reactions r with
        | .active => .rollback (.ok .duplicate)
        | .violates => .rollback (.error (.sqlx "duplicate key value violates unique constraint"))
        | .added => storeEvent community event channelId

/-! ### What it does -/

variable {now : Int} {community : CommunityId} {event : ReactionEvent} {channelId : Option Uuid}
  {target : EventId} {actor : PublicKey} {emoji : String} {t : Tables}

/-- The target is there, the reaction is not, and the time of the event is one. -/
def Commits (now : Int) (community : CommunityId) (event : ReactionEvent) (target : EventId)
    (actor : PublicKey) (emoji : String) (t : Tables) : Prop :=
  (DateTime.fromTimestamp event.createdAt.toInt64.toInt).isSome = true ∧
    ∃ row, t.liveEvent community target = some row ∧
      addReaction t.reactions (reactionRow now community event row actor emoji) = .added

@[simp] theorem hasEvent_putReaction (r : ReactionRow) (row : EventRow) (t : Tables) :
    (t.putReaction r).hasEvent row = t.hasEvent row := rfl

theorem rowOf_eq (community : CommunityId) (event : ReactionEvent) (channelId : Option Uuid) :
    rowOf community event channelId =
      match DateTime.fromTimestamp event.createdAt.toInt64.toInt with
      | none => .error (.invalidTimestamp event.createdAt.toInt64)
      | some createdAt =>
        .ok ⟨community, event.id, event.pubkey, createdAt, event.kind, event.tags, event.content,
          channelId, none⟩ := by
  have hauth : event.kind ≠ kindAuth := by
    rw [event.isReaction]
    decide
  have hephemeral : ¬isEphemeral event.kind = true := by
    rw [event.isReaction]
    decide
  rw [rowOf, if_neg hauth, if_neg hephemeral]

/-- **A transaction that commits** has put up the reaction and inserted the event, unless the event
was there. -/
theorem exec_of_commits (channelId : Option Uuid)
    (h : Commits now community event target actor emoji t) :
    ∃ r row, rowOf community event channelId = .ok row ∧
      (insertReactionEventWithThreadMetadata now community event channelId target actor emoji).exec t =
        ((t.putReaction r).insertEvent row, true,
          .ok (.inserted (event, channelId) !t.hasEvent row)) := by
  obtain ⟨hstamp, row, hlive, hadd⟩ := h
  obtain ⟨createdAt, hcreated⟩ := Option.isSome_iff_exists.mp hstamp
  have hrow := rowOf_eq community event channelId
  rw [hcreated] at hrow
  refine ⟨reactionRow now community event row actor emoji, _, hrow, ?_⟩
  rw [insertReactionEventWithThreadMetadata, Txn.exec_read, hlive]
  simp only [Txn.exec, hadd, storeEvent, hrow, hasEvent_putReaction]

theorem effect_of_answer {p : ReactionTxn} {result : Except DbError ReactionEventInsertOutcome}
    (h : p.answer t = (false, result)) : p.effect t = t := by
  have hrolledBack : (p.exec t).2.1 = false := congrArg Prod.fst h
  simp [Txn.effect, hrolledBack]

/-- A transaction that does not commit rolls back, and says why. -/
theorem answer_of_not_commits (channelId : Option Uuid)
    (h : ¬Commits now community event target actor emoji t) :
    ∃ result, (result = .ok .targetMissing ∨ result = .ok .duplicate ∨ ∃ e, result = .error e) ∧
      (insertReactionEventWithThreadMetadata now community event channelId target actor emoji).answer
        t = (false, result) := by
  rw [insertReactionEventWithThreadMetadata, Txn.answer, Txn.exec_read]
  cases hlive : t.liveEvent community target with
  | none => exact ⟨_, .inl rfl, rfl⟩
  | some row =>
    simp only [Txn.exec]
    cases hadd : addReaction t.reactions (reactionRow now community event row actor emoji) with
    | active => exact ⟨_, .inr (.inl rfl), rfl⟩
    | violates => exact ⟨_, .inr (.inr ⟨_, rfl⟩), rfl⟩
    | added =>
      cases hcreated : DateTime.fromTimestamp event.createdAt.toInt64.toInt with
      | none =>
        have hrow := rowOf_eq community event channelId
        rw [hcreated] at hrow
        simp only [storeEvent, hrow, Txn.exec]
        exact ⟨_, .inr (.inr ⟨_, rfl⟩), rfl⟩
      | some createdAt =>
        exact absurd ⟨Option.isSome_iff_exists.mpr ⟨createdAt, hcreated⟩, row, hlive, hadd⟩ h

end Buzz.Reaction
