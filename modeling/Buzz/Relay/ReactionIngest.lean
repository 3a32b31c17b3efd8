import Buzz.Db.Reaction
import Buzz.Relay.Evm.Attested
import Buzz.Relay.IdentityArchive.Handler

/-!
# Taking reactions in

A reaction belongs to the channel of the event that it reacts to. The relay looks the target up,
checks the author against that channel, stores the reaction and hands it to dispatch.

What is modelled is the way of a kind:7 event that has passed the checks of every event: from the
derivation of its channel to the answer. Other requests run in between, so the tables at the lookup
need not be those at the insertion.
-/

namespace Buzz.Reaction

open Evm (IngestError)
open IdentityArchive (isHex64)

/-! ### Requests and answers -/

/-- Who submits, and for which channels. -/
structure IngestAuth where
  pubkey : PublicKey
  channelIds : Option (List Uuid)

structure IngestResult where
  eventId : String
  accepted : Bool
  message : String

/-- What the gates read of a row of `channels`. -/
structure ChannelRecord where
  visibility : String
  archivedAt : Option Int

inductive Verdict where
  | allow
  | deny

/-- `TraceAction`, as far as it is emitted here. -/
inductive TraceAction where
  | authCheck (channel : Uuid) (claimedCommunity : Option Uuid) (verdict : Verdict)
  | writeInsert (msgId : String) (channel : Uuid) (claimedCommunity : Option Uuid)
  | writeDuplicate (msgId : String) (channel : Uuid) (claimedCommunity : Option Uuid)

/-- A call of `dispatch_persistent_event`. -/
structure Dispatch where
  storedEvent : ReactionEvent × Option Uuid
  kind : Kind
  actorPubkeyHex : String

inductive Ending where
  | returned (result : Except IngestError IngestResult)
  | panicked (message : String)

/-- What a run of the handler leaves behind. -/
structure Run where
  tables : Tables
  trace : List TraceAction
  dispatched : List Dispatch
  ending : Ending

/-- What the rest of the relay answers during a request. -/
structure Surroundings where
  relayPubkey : PublicKey
  parseStr : String → Option Uuid
  fromValue : EventRow → Option Event
  /-- The tables when the target is looked up, or the failure of the lookup. -/
  atLookup : Except DbError Tables
  isMember : Uuid → PublicKey → Except String Bool
  channelRow : Uuid → Option ChannelRecord
  channelAgain : Uuid → Option ChannelRecord
  verifyImeta : List Tag → Except String Unit
  now : Int
  /-- The failure of a statement of the transaction, or of its commit. -/
  fault : Option DbError

/-! ### Targets -/

def hex32 (s : String) : Option (BitVec 256) :=
  (hexDecode s).bind fun bytes =>
    if bytes.length = 32 then some (BitVec.ofNat 256 (ofBytesBE bytes)) else none

/-- The event that an `e` tag names. -/
def eTarget (tag : Tag) : Option String :=
  if tag.kind == "e" then tag.content.filter isHex64 else none

/-- The last `e` tag that names an event. -/
def targetHex (event : Event) : Option String := event.tags.reverse.findSome? eTarget

inductive ReactionChannelResult where
  | channel (id : Uuid)
  | noChannel
  | notFound
  | noTarget
  | dbError (error : String)

variable (w : Surroundings) (community : CommunityId) (auth : IngestAuth) (event : ReactionEvent)

def deriveReactionChannel : ReactionChannelResult :=
  match (targetHex event.toEvent).bind hex32 with
  | none => .noTarget
  | some id =>
    match w.atLookup with
    | .error e => .dbError e.toString
    | .ok t =>
      match getEventById w.fromValue t community id with
      | some target =>
        match target.channelId with
        | some channelId => .channel channelId
        | none => .noChannel
      | none => .notFound

def reactionChannel : Except IngestError (Option Uuid) :=
  match deriveReactionChannel w community event with
  | .channel channelId => .ok (some channelId)
  | .noChannel => .ok none
  | .notFound => .error (.rejected "invalid: reaction target event not found")
  | .noTarget => .error (.rejected "invalid: reaction must reference a target event via e tag")
  | .dbError e => .error (.internal ("error: internal error looking up reaction target: " ++ e))

/-! ### Gates -/

/-- The kinds of `is_global_only_kind`. -/
def globalOnlyKinds : List Kind :=
  [0, 1, 3, 30023, 30315, 30078, 10000, 10001, 10002, 10003, 30000, 30003, 30030, 10030, 30174,
    30300, 10100, 30175, 30176, 30177, 30178, 30617, 30618, 1617, 1618, 1619, 1621, 1630, 1631, 1632,
    1633, 30621, 9040, 9041, 9042, 9043, 9044, 9030, 9031, 9032, 9033, 28936, 9035, 9036, 44200,
    30350]

def isGlobalOnlyKind (kind : Kind) : Bool := globalOnlyKinds.contains kind

/-- The kinds of `requires_h_channel_scope`. -/
def channelScopedKinds : List Kind :=
  [9, 40002, 40003, 40004, 40005, 40006, 40007, 40008, 40100, 45001, 45002, 45003, 9000, 9001, 9002,
    9005, 9008, 9022, 48100, 48101, 48102, 48103, 48106]

def requiresHChannelScope (kind : Kind) : Bool := channelScopedKinds.contains kind

/-- The kind's say in the channel. -/
def scopedChannel (channelId : Option Uuid) : Except IngestError (Option Uuid) :=
  let channelId := if isGlobalOnlyKind event.kind then none else channelId
  if requiresHChannelScope event.kind && channelId.isNone then
    .error (.rejected "invalid: channel-scoped events must include an h tag")
  else .ok channelId

/-- `check_token_channel_access`, and the refusal of global events. -/
def checkToken : Option Uuid → Except IngestError Unit
  | some channelId =>
    if auth.channelIds.all fun allowed => allowed.contains channelId then .ok ()
    else .error (.authFailed "restricted: token does not have access to this channel")
  | none =>
    if auth.channelIds.isSome then
      .error (.authFailed "restricted: channel-scoped tokens cannot publish global events")
    else .ok ()

def checkChannelMembership (channelId : Uuid) : Except String Unit :=
  match w.isMember channelId auth.pubkey with
  | .ok true => .ok ()
  | .error e => .error ("error: database error: " ++ e)
  | .ok false =>
    let isOpen : Bool := match w.channelRow channelId with
      | some row => row.visibility == "open"
      | none => (w.channelAgain channelId).any fun row => row.visibility == "open"
    if isOpen then .ok () else .error "restricted: not a channel member"

def claimedCommunityFromEvent (event : Event) : Option Uuid :=
  match event.tags.find? fun tag => tag.kind == "h" with
  | some tag => tag.content.bind w.parseStr
  | none => none

/-- The gate of the members, which every channel has for reactions, and what it emits. -/
def checkMembership : Option Uuid → List TraceAction × Except IngestError Unit
  | none => ([], .ok ())
  | some channelId =>
    let authResult := checkChannelMembership w auth channelId
    ([.authCheck channelId (claimedCommunityFromEvent w event.toEvent)
        (if authResult.isOk then .allow else .deny)], authResult.mapError .rejected)

def checkArchived (channelId : Option Uuid) : Except IngestError Unit :=
  if ((channelId.bind w.channelRow).bind ChannelRecord.archivedAt).isSome then
    .error (.rejected "invalid: channel is archived")
  else .ok ()

/-- The check of the `imeta` tags. -/
def checkImeta : Except IngestError Unit :=
  let imetaTags := event.tags.filter fun tag => tag.kind == "imeta"
  if imetaTags.isEmpty then .ok ()
  else (w.verifyImeta imetaTags).mapError fun e => .rejected ("invalid: " ++ e)

/-! ### The reaction -/

/-- `effective_message_author`: of what the relay itself signed, the one it names. -/
def effectiveMessageAuthor (event : Event) : PublicKey :=
  if event.pubkey = w.relayPubkey then
    let actor := event.tags.findSome? fun tag => if tag.kind == "actor" then tag.content else none
    let mentioned := event.tags.findSome? fun tag =>
      if tag.kind == "p" then tag.content.bind hex32 else none
    ((actor.bind hex32).or mentioned).getD event.pubkey
  else event.pubkey

def maxReactionEmojiChars : Nat := 64

/-- The emoji; the empty one is a plus. -/
def reactionEmoji : String := if event.content.isEmpty then "+" else event.content

/-- What the transaction is given: the target, the author and the emoji. -/
def readReaction : Except IngestError (EventId × PublicKey × String) :=
  match targetHex event.toEvent with
  | none => .error (.rejected "invalid: reaction must reference a target event via e tag")
  | some hex =>
    match hex32 hex with
    | none => .error (.rejected "invalid: malformed reaction target id")
    | some target =>
      let emoji := reactionEmoji event
      if emoji.length > maxReactionEmojiChars then
        .error (.rejected ("invalid: reaction emoji exceeds " ++ toString maxReactionEmojiChars ++
          " characters (got " ++ toString emoji.length ++ ")"))
      else .ok (target, effectiveMessageAuthor w event.toEvent, emoji)

/-- The gates behind the one of the members. -/
def prepare (channelId : Option Uuid) : Except IngestError (EventId × PublicKey × String) := do
  checkArchived w channelId
  checkImeta w event
  readReaction w event

def openChannel : Except IngestError (Option Uuid) := do
  let derived ← reactionChannel w community event
  let channelId ← scopedChannel event derived
  checkToken auth channelId
  return channelId

def stop (t : Tables) (trace : List TraceAction) (e : IngestError) : Run :=
  ⟨t, trace, [], .returned (.error e)⟩

/-- `msg_id_label`: the first eight bytes. -/
def msgIdLabel (id : EventId) : String := String.ofList ((toHex id).toList.take 16)

def writeAction (channelId : Uuid) (wasInserted : Bool) : TraceAction :=
  let claimed := claimedCommunityFromEvent w event.toEvent
  if wasInserted then .writeInsert (msgIdLabel event.id) channelId claimed
  else .writeDuplicate (msgIdLabel event.id) channelId claimed

/-- From the outcome of the transaction to the end. -/
def finish (channelId : Option Uuid) (trace : List TraceAction) (t : Tables) :
    Except DbError ReactionEventInsertOutcome → Run
  | .error e => stop t trace (.internal ("error: " ++ e.toString))
  | .ok .targetMissing => stop t trace (.rejected "invalid: reaction target event not found")
  | .ok .duplicate =>
    ⟨t, trace, [],
      .returned (.ok ⟨toHex event.id, false, "duplicate: reaction already exists"⟩)⟩
  | .ok (.inserted storedEvent wasInserted) =>
    match channelId with
    -- `channel_id.expect("reaction path has channel")`
    | none => ⟨t, trace, [], .panicked "reaction path has channel"⟩
    | some channelId =>
      ⟨t, trace ++ [writeAction w event channelId wasInserted],
        [⟨storedEvent, event.kind, toHex auth.pubkey⟩],
        .returned (.ok ⟨toHex event.id, true, ""⟩)⟩

/-- The insertion and what follows it. A transaction that fails is rolled back. -/
def insertAndFinish (channelId : Option Uuid) (trace : List TraceAction)
    (reaction : EventId × PublicKey × String) (t : Tables) : Run :=
  match w.fault with
  | some e => finish w auth event channelId trace t (.error e)
  | none =>
    let p := insertReactionEventWithThreadMetadata w.now community event channelId reaction.1
      reaction.2.1 reaction.2.2
    finish w auth event channelId trace (p.effect t) (p.answer t).2

/-- The reaction path of `ingest_event_inner`. -/
def ingestReaction (t : Tables) : Run :=
  match openChannel w community auth event with
  | .error e => stop t [] e
  | .ok channelId =>
    let gate := checkMembership w auth event channelId
    match gate.2 with
    | .error e => stop t gate.1 e
    | .ok () =>
      match prepare w event channelId with
      | .error e => stop t gate.1 e
      | .ok reaction => insertAndFinish w community auth event channelId gate.1 reaction t

/-! ### Completion -/

/-- The request is rejected and writes nothing, or its answer is an acceptance or names a duplicate,
and an event that was inserted went to dispatch once. -/
def Completes (event : ReactionEvent) (start : Tables) (r : Run) : Prop :=
  (∃ e, r.ending = .returned (.error e) ∧ r.tables = start ∧ r.dispatched = []) ∨
    ∃ result, r.ending = .returned (.ok result) ∧
      (result.accepted = true ∨
        result.message = "duplicate: reaction already exists" ∧ r.tables = start) ∧
      (r.tables.events ≠ start.events → ∃ d, d.storedEvent.1 = event ∧ r.dispatched = [d])

/-- A reaction to a live event without a channel that nothing stops on its way to the commit. -/
structure Strands (t : Tables) : Prop where
  /-- The event that is named last was in the tables at the lookup, and has no channel. -/
  target : ∃ hex id before stored, targetHex event.toEvent = some hex ∧ hex32 hex = some id ∧
    w.atLookup = .ok before ∧ getEventById w.fromValue before community id = some stored ∧
      stored.channelId = none ∧
        -- It still is in them, and nobody has reacted so.
        Commits w.now community event id (effectiveMessageAuthor w event.toEvent)
          (reactionEmoji event) t
  token : auth.channelIds = none
  imeta : checkImeta w event = .ok ()
  emoji : (reactionEmoji event).length ≤ maxReactionEmojiChars
  fault : w.fault = none

variable {w community auth event} {channelId : Option Uuid} {trace : List TraceAction} {t : Tables}
  {reaction : EventId × PublicKey × String}

theorem completes_stop (e : IngestError) : Completes event t (stop t trace e) :=
  .inl ⟨e, rfl, rfl, rfl⟩

theorem scopedChannel_eq (channelId : Option Uuid) :
    scopedChannel event channelId = .ok channelId := by
  have hglobal : isGlobalOnlyKind event.kind = false := by
    rw [event.isReaction]
    decide
  have hscoped : requiresHChannelScope event.kind = false := by
    rw [event.isReaction]
    decide
  simp [scopedChannel, hglobal, hscoped]

theorem reactionChannel_eq_none_iff : reactionChannel w community event = .ok none ↔
    deriveReactionChannel w community event = .noChannel := by
  rw [reactionChannel]
  split
  · next channelId h => simp [h]
  · next h => simp [h]
  · next h => simp [h]
  · next h => simp [h]
  · next e h => simp [h]

theorem deriveReactionChannel_eq_noChannel_iff :
    deriveReactionChannel w community event = .noChannel ↔
      ∃ hex id before stored, targetHex event.toEvent = some hex ∧ hex32 hex = some id ∧
        w.atLookup = .ok before ∧ getEventById w.fromValue before community id = some stored ∧
        stored.channelId = none := by
  constructor
  · intro h
    unfold deriveReactionChannel at h
    split at h
    · cases h
    · next id hid =>
      obtain ⟨hex, hhex, hid⟩ := Option.bind_eq_some_iff.mp hid
      split at h
      · cases h
      · next before hbefore =>
        split at h
        · next stored hstored =>
          split at h
          · cases h
          · next hchannel => exact ⟨hex, id, before, stored, hhex, hid, hbefore, hstored, hchannel⟩
        · cases h
  · rintro ⟨hex, id, before, stored, hhex, hid, hbefore, hstored, hchannel⟩
    simp [deriveReactionChannel, hhex, hid, hbefore, hstored, hchannel]

theorem openChannel_eq_none_iff : openChannel w community auth event = .ok none ↔
    deriveReactionChannel w community event = .noChannel ∧ auth.channelIds = none := by
  have htoken : checkToken auth none = .ok () ↔ auth.channelIds = none := by
    rw [checkToken]
    split
    · next h => simpa using Option.isSome_iff_ne_none.mp h
    · next h => simpa using h
  rw [openChannel, bind_eq_ok_iff, ← reactionChannel_eq_none_iff, ← htoken]
  constructor
  · rintro ⟨derived, hderived, h⟩
    rw [scopedChannel_eq, bind_eq_ok_iff] at h
    obtain ⟨channelId, hchannel, h⟩ := h
    obtain ⟨_, hcheck, hreturn⟩ := bind_eq_ok_iff.mp h
    cases hchannel
    cases hreturn
    exact ⟨hderived, hcheck⟩
  · rintro ⟨hderived, hcheck⟩
    refine ⟨none, hderived, ?_⟩
    rw [scopedChannel_eq, bind_eq_ok_iff]
    exact ⟨none, rfl, bind_eq_ok_iff.mpr ⟨(), hcheck, rfl⟩⟩

theorem readReaction_eq_ok_iff : readReaction w event = .ok reaction ↔
    ∃ hex id, targetHex event.toEvent = some hex ∧ hex32 hex = some id ∧
      (reactionEmoji event).length ≤ maxReactionEmojiChars ∧
      reaction = (id, effectiveMessageAuthor w event.toEvent, reactionEmoji event) := by
  rw [readReaction]
  split
  · next h => simp [h]
  · next hex hhex =>
    split
    · next h => simp [hhex, h]
    · next id hid =>
      dsimp only
      split
      · next h => simp [hhex, Nat.not_le.mpr h]
      · next h => simp [hhex, hid, Nat.not_lt.mp h, eq_comm]

theorem prepare_none_iff : prepare w event none = .ok reaction ↔
    checkImeta w event = .ok () ∧ readReaction w event = .ok reaction := by
  have harchived : checkArchived w none = .ok () := rfl
  rw [prepare, bind_eq_ok_iff]
  constructor
  · rintro ⟨_, -, h⟩
    obtain ⟨_, himeta, hread⟩ := bind_eq_ok_iff.mp h
    exact ⟨himeta, hread⟩
  · rintro ⟨himeta, hread⟩
    exact ⟨(), harchived, bind_eq_ok_iff.mpr ⟨(), himeta, hread⟩⟩

/-! ### The end of a reaction -/

theorem completes_finish {result : Except DbError ReactionEventInsertOutcome}
    (h : result = .ok .targetMissing ∨ result = .ok .duplicate ∨ ∃ e, result = .error e) :
    Completes event t (finish w auth event channelId trace t result) := by
  obtain rfl | rfl | ⟨e, rfl⟩ := h
  · exact completes_stop _
  · exact .inr ⟨_, rfl, .inr ⟨rfl, rfl⟩, fun hne => absurd rfl hne⟩
  · exact completes_stop _

theorem insertAndFinish_none (hfault : w.fault = none)
    (hcommits : Commits w.now community event reaction.1 reaction.2.1 reaction.2.2 t) :
    ∃ r row, insertAndFinish w community auth event none trace reaction t =
      ⟨(t.putReaction r).insertEvent row, trace, [], .panicked "reaction path has channel"⟩ := by
  obtain ⟨r, row, -, hexec⟩ := exec_of_commits none hcommits
  refine ⟨r, row, ?_⟩
  simp [insertAndFinish, hfault, Txn.effect, Txn.answer, hexec, finish]

theorem completes_insertAndFinish (h : ¬(channelId = none ∧ w.fault = none ∧
      Commits w.now community event reaction.1 reaction.2.1 reaction.2.2 t)) :
    Completes event t (insertAndFinish w community auth event channelId trace reaction t) := by
  unfold insertAndFinish
  cases hfault : w.fault with
  | some e => exact completes_finish (.inr (.inr ⟨e, rfl⟩))
  | none =>
    dsimp only
    by_cases hcommits : Commits w.now community event reaction.1 reaction.2.1 reaction.2.2 t
    · obtain ⟨r, row, -, hexec⟩ := exec_of_commits channelId hcommits
      rw [Txn.effect, Txn.answer, hexec, if_pos rfl]
      cases channelId with
      | none => exact absurd ⟨rfl, hfault, hcommits⟩ h
      | some channel => exact .inr ⟨_, rfl, .inl rfl, fun _ => ⟨_, rfl, rfl⟩⟩
    · obtain ⟨result, hresult, hanswer⟩ := answer_of_not_commits channelId hcommits
      rw [effect_of_answer hanswer, hanswer]
      exact completes_finish hresult

/-! ### Which reactions complete -/

theorem strands_iff : Strands w community auth event t ↔
    ∃ reaction, openChannel w community auth event = .ok none ∧
      prepare w event none = .ok reaction ∧ w.fault = none ∧
      Commits w.now community event reaction.1 reaction.2.1 reaction.2.2 t := by
  simp only [openChannel_eq_none_iff, deriveReactionChannel_eq_noChannel_iff, prepare_none_iff,
    readReaction_eq_ok_iff]
  constructor
  · rintro ⟨⟨hex, id, before, stored, hhex, hid, hbefore, hstored, hchannel, hcommits⟩, htoken,
      himeta, hemoji, hfault⟩
    exact ⟨(id, effectiveMessageAuthor w event.toEvent, reactionEmoji event),
      ⟨⟨hex, id, before, stored, hhex, hid, hbefore, hstored, hchannel⟩, htoken⟩,
      ⟨himeta, hex, id, hhex, hid, hemoji, rfl⟩, hfault, hcommits⟩
  · rintro ⟨reaction, ⟨⟨hex, id, before, stored, hhex, hid, hbefore, hstored, hchannel⟩, htoken⟩,
      ⟨himeta, hex', id', hhex', hid', hemoji, rfl⟩, hfault, hcommits⟩
    obtain rfl : hex = hex' := Option.some.inj (hhex.symm.trans hhex')
    obtain rfl : id = id' := Option.some.inj (hid.symm.trans hid')
    exact ⟨⟨hex, id, before, stored, hhex, hid, hbefore, hstored, hchannel, hcommits⟩, htoken,
      himeta, hemoji, hfault⟩

theorem ingestReaction_of_strands (h : Strands w community auth event t) :
    ∃ r row, ingestReaction w community auth event t =
      ⟨(t.putReaction r).insertEvent row, [], [], .panicked "reaction path has channel"⟩ := by
  obtain ⟨reaction, hopen, hprepare, hfault, hcommits⟩ := strands_iff.mp h
  have hrun : ingestReaction w community auth event t =
      insertAndFinish w community auth event none [] reaction t := by
    simp only [ingestReaction, hopen, checkMembership, hprepare]
  rw [hrun]
  exact insertAndFinish_none hfault hcommits

theorem not_completes_of_strands (h : Strands w community auth event t) :
    ¬Completes event t (ingestReaction w community auth event t) := by
  obtain ⟨r, row, hrun⟩ := ingestReaction_of_strands h
  rw [hrun]
  rintro (⟨e, hending, -⟩ | ⟨result, hending, -⟩)
  · cases hending
  · cases hending

theorem completes_of_not_strands (h : ¬Strands w community auth event t) :
    Completes event t (ingestReaction w community auth event t) := by
  rw [strands_iff] at h
  unfold ingestReaction
  cases hopen : openChannel w community auth event with
  | error e => exact completes_stop e
  | ok channelId =>
    dsimp only
    cases hgate : (checkMembership w auth event channelId).2 with
    | error e => exact completes_stop e
    | ok _ =>
      dsimp only
      cases hprepare : prepare w event channelId with
      | error e => exact completes_stop e
      | ok reaction =>
        refine completes_insertAndFinish ?_
        rintro ⟨rfl, hfault, hcommits⟩
        exact h ⟨reaction, hopen, hprepare, hfault, hcommits⟩

/-- **Which reactions complete.** All but those to an event without a channel, of an unrestricted
token, that pass every check and are stored. -/
theorem completes_iff (w : Surroundings) (community : CommunityId) (auth : IngestAuth)
    (event : ReactionEvent) (t : Tables) :
    Completes event t (ingestReaction w community auth event t) ↔
      ¬Strands w community auth event t :=
  ⟨fun h hstrands => not_completes_of_strands hstrands h, completes_of_not_strands⟩

/-! ### A reaction to a note -/

/-- A text note, which belongs to no channel. -/
def textNote : EventRow := ⟨0, 0, 1, ⟨0, by decide⟩, 1, [], "gm", none, none⟩

def noteTables : Tables := ⟨[textNote], []⟩

def noteReaction : ReactionEvent where
  id := 2
  pubkey := 3
  createdAt := 0
  kind := kindReaction
  tags := [⟨"e", some "0000000000000000000000000000000000000000000000000000000000000000"⟩]
  content := ""
  isReaction := rfl

def calmSurroundings : Surroundings where
  relayPubkey := 4
  parseStr _ := none
  fromValue row := some ⟨row.id, row.pubkey, 0, row.kind, row.tags⟩
  atLookup := .ok noteTables
  isMember _ _ := .ok false
  channelRow _ := none
  channelAgain _ := none
  verifyImeta _ := .ok ()
  now := 0
  fault := none

theorem strands_noteReaction : Strands calmSurroundings 0 ⟨3, none⟩ noteReaction noteTables where
  target := by
    refine ⟨_, 0, noteTables, ⟨⟨0, 1, 0, 1, []⟩, none⟩, rfl, by decide, rfl, by decide, rfl, ?_⟩
    exact ⟨by decide, textNote, by decide, by decide⟩
  token := rfl
  imeta := by decide
  emoji := by decide
  fault := rfl

/-- The reaction to a note does not complete. -/
theorem noteReaction_stranded :
    ¬Completes noteReaction noteTables
      (ingestReaction calmSurroundings 0 ⟨3, none⟩ noteReaction noteTables) :=
  not_completes_of_strands strands_noteReaction

end Buzz.Reaction
