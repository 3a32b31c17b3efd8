import Mathlib.Data.List.Lex
import Mathlib.Data.Prod.Lex
import Buzz.Db.Thread.Table

/-!
# Replies of a thread

A thread is read from its first reply to its last one, a page at a time. The cursor of the next page
is made from the last reply of the page before: its second as eight bytes, and its event id.
-/

namespace Buzz.Thread

open List
open Keyset

/-! ### Cursors -/

/-- `i64::to_be_bytes`. -/
def i64ToBytes (n : Int) : Bytes := bytesBE 8 (n % 2 ^ 64).toNat

/-- `i64::from_be_bytes`. -/
def i64OfBytes (bytes : Bytes) : Int := (ofBytesBE bytes : Int).bmod (2 ^ 64)

/-- The bytes behind the seconds of a cursor. -/
def cursorId (bytes : Bytes) : Option Bytes := if bytes.length > 8 then some (bytes.drop 8) else none

/-- A cursor, decoded: an instant, and an event id if there is one. -/
def decodeCursor : Option Bytes → Option (Int × Option Bytes)
  | none => none
  | some bytes =>
    if 8 ≤ bytes.length ∧ isUtcSecs (i64OfBytes (bytes.take 8)) then
      some (seconds (i64OfBytes (bytes.take 8)), cursorId bytes)
    else none

/-! ### The page -/

structure ThreadReply where
  eventId : Bytes
  parentEventId : Option Bytes
  rootEventId : Option Bytes
  channelId : Uuid
  pubkey : Bytes
  tags : List (List String)
  content : String
  storedEvent : StoredEvent
  depth : Int
  createdAt : Int
  broadcast : Bool

/-- A row of the query: metadata, and the event that it is about. -/
abbrev ReplyDbRow := ThreadMetadata × EventRow

/-- `JOIN events`. -/
def joinedReplies (t : Tables) : List ReplyDbRow :=
  t.threadMetadata.flatMap fun m =>
    (t.events.filter fun e => e.primaryKey = m.primaryKey).map fun e => (m, e)

/-- `as i32`. -/
def asI32 (n : UInt32) : Int := if n.toNat < 2147483648 then n.toNat else n.toNat - 4294967296

/-- The row is a live reply of the thread. -/
def isReply (communityId : CommunityId) (root : Bytes) (row : ReplyDbRow) : Bool :=
  row.1.communityId == communityId && row.1.rootEventId == some root && row.2.deletedAt.isNone

/-- `tm.depth <= …`. -/
def depthMatches (depthLimit : Option UInt32) (m : ThreadMetadata) : Bool :=
  match depthLimit with
  | none => true
  | some limit => m.depth ≤ asI32 limit

def replyBehind (key : Option (Int × Option Bytes)) (m : ThreadMetadata) : Bool :=
  match key with
  | none => true
  | some (ts, none) => ts < m.eventCreatedAt
  | some (ts, some id) =>
    ts < m.eventCreatedAt || (m.eventCreatedAt == ts && decide (bytesKey id < bytesKey m.eventId))

/-- `ORDER BY tm.event_created_at ASC, tm.event_id ASC`. -/
def replyPrecedes (a b : ReplyDbRow) : Bool :=
  a.1.eventCreatedAt < b.1.eventCreatedAt ||
    (a.1.eventCreatedAt == b.1.eventCreatedAt &&
      decide (bytesKey a.1.eventId ≤ bytesKey b.1.eventId))

/-- The rows of the query, without its limit. -/
def repliesQuery (t : Tables) (communityId : CommunityId) (root : Bytes)
    (depthLimit : Option UInt32) (key : Option (Int × Option Bytes)) : List ReplyDbRow :=
  ((joinedReplies t).filter fun row => isReply communityId root row &&
    depthMatches depthLimit row.1 && replyBehind key row.1).mergeSort replyPrecedes

def replyOf (row : ReplyDbRow) (event : StoredEvent) : ThreadReply where
  eventId := row.1.eventId
  parentEventId := row.1.parentEventId
  rootEventId := row.1.rootEventId
  channelId := row.1.channelId
  pubkey := row.2.pubkey
  tags := row.2.tags
  content := row.2.content
  storedEvent := event
  depth := row.1.depth
  createdAt := row.1.eventCreatedAt
  broadcast := row.1.broadcast

variable (fromValue : EventJson → Option Event)

/-- The replies of the rows, but for those that are damaged. -/
def threadReplies : List ReplyDbRow → Except DbError (List ThreadReply)
  | [] => .ok []
  | row :: rest => do
    let stored ← rowToStoredEvent fromValue row.2
    let replies ← threadReplies rest
    match stored with
    | none => .ok replies
    | some event => .ok (replyOf row event :: replies)

def getThreadRepliesOn (t : Tables) (communityId : CommunityId) (root : Bytes)
    (depthLimit : Option UInt32) (limit : UInt32) (cursor : Option Bytes) :
    Except DbError (List ThreadReply) := do
  let key := decodeCursor cursor
  if let some (ts, _) := key then bindTimestamp ts
  if asI32 limit < 0 then .error .negativeLimit
  threadReplies fromValue
    ((repliesQuery t communityId root depthLimit key).take (asI32 limit).toNat)

def threadCursor (reply : ThreadReply) : Bytes :=
  i64ToBytes (reply.createdAt / 1000000) ++ reply.eventId

/-! ### What the pages are to do -/

/-- The live replies of the thread, down to the depth that is asked for. -/
def liveReplies (t : Tables) (communityId : CommunityId) (root : Bytes)
    (depthLimit : Option UInt32) : List ReplyDbRow :=
  (joinedReplies t).filter fun row => isReply communityId root row &&
    depthLimit.all fun limit => decide (row.1.depth ≤ limit.toNat)

/-- The calls, one after another, each with the cursor behind the last reply of the page before. They
end with an empty page. -/
inductive ReplyWalk (t : Tables) (communityId : CommunityId) (root : Bytes)
    (depthLimit : Option UInt32) (limit : UInt32) : Option Bytes → List (List ThreadReply) → Prop where
  | done {cursor : Option Bytes}
      (hpage : getThreadRepliesOn fromValue t communityId root depthLimit limit cursor = .ok []) :
      ReplyWalk t communityId root depthLimit limit cursor []
  | next {cursor : Option Bytes} {page : List ThreadReply} {last : ThreadReply}
      {pages : List (List ThreadReply)}
      (hpage : getThreadRepliesOn fromValue t communityId root depthLimit limit cursor = .ok page)
      (hlast : page.getLast? = some last)
      (hpages : ReplyWalk t communityId root depthLimit limit (some (threadCursor last)) pages) :
      ReplyWalk t communityId root depthLimit limit cursor (page :: pages)

def Shows (row : ReplyDbRow) (reply : ThreadReply) : Prop :=
  ∃ event, fromValue row.2.toJson = some event ∧ reply = replyOf row ⟨event, row.2.channelId⟩

/-- The calls return every live reply exactly once, in order, and then an empty page. -/
def Tiles (t : Tables) (communityId : CommunityId) (root : Bytes) (depthLimit : Option UInt32)
    (limit : UInt32) : Prop :=
  ∃ pages, ReplyWalk fromValue t communityId root depthLimit limit none pages ∧
    List.Forall₂ (Shows fromValue)
      ((liveReplies t communityId root depthLimit).mergeSort replyPrecedes) pages.flatten

/-- The reply is strictly behind the position that the bytes of a cursor name. They name one if there
are enough of them for the seconds. -/
def StrictlyBehind (bytes : Bytes) (reply : ThreadReply) : Prop :=
  8 ≤ bytes.length ∧ (seconds (i64OfBytes (bytes.take 8)) < reply.createdAt ∨
    reply.createdAt = seconds (i64OfBytes (bytes.take 8)) ∧
      ∃ id ∈ cursorId bytes, bytesKey id < bytesKey reply.eventId)

/-- The page of a cursor has replies behind it only, and a cursor that is not decoded does not start
again with the first page. -/
def OnlyBehind (t : Tables) (communityId : CommunityId) (root : Bytes) (depthLimit : Option UInt32)
    (limit : UInt32) (bytes : Bytes) : Prop :=
  ∀ page, getThreadRepliesOn fromValue t communityId root depthLimit limit (some bytes) = .ok page →
    (∀ reply ∈ page, StrictlyBehind bytes reply) ∧
      (decodeCursor (some bytes) = none →
        getThreadRepliesOn fromValue t communityId root depthLimit limit none = .ok page → page = [])

/-! ### Seconds as bytes -/

theorem length_i64ToBytes (n : Int) : (i64ToBytes n).length = 8 := by
  rw [i64ToBytes, length_bytesBE]

theorem i64OfBytes_i64ToBytes {n : Int} (hlow : -2 ^ 63 ≤ n) (hhigh : n < 2 ^ 63) :
    i64OfBytes (i64ToBytes n) = n := by
  have hnonneg : 0 ≤ n % 2 ^ 64 := Int.emod_nonneg n (by omega)
  have hlt : n % 2 ^ 64 < 2 ^ 64 := Int.emod_lt_of_pos n (by omega)
  unfold i64OfBytes i64ToBytes
  rw [ofBytesBE_bytesBE, Nat.mod_eq_of_lt (by omega), Int.toNat_of_nonneg hnonneg, Int.bmod_def]
  split <;> omega

/-! ### The rows that are read for a page -/

/-- The place of a row in the order of the thread. -/
def replyKey (row : ReplyDbRow) : ℤ ×ₗ List ℕ := toLex (row.1.eventCreatedAt, bytesKey row.1.eventId)

/-- The rows of the thread, as the query selects them. -/
def threadRows (t : Tables) (communityId : CommunityId) (root : Bytes)
    (depthLimit : Option UInt32) : List ReplyDbRow :=
  (joinedReplies t).filter fun row => isReply communityId root row && depthMatches depthLimit row.1

variable {fromValue} {t : Tables} {communityId : CommunityId} {root : Bytes}
  {depthLimit : Option UInt32} {limit : UInt32} {cursor : Option Bytes} {row : ReplyDbRow}

theorem replyPrecedes_eq : replyPrecedes = fun a b => decide (replyKey a ≤ replyKey b) := by
  funext a b
  rw [Bool.eq_iff_iff, decide_eq_true_eq, replyKey, replyKey, Prod.Lex.toLex_le_toLex]
  simp [replyPrecedes]

theorem replyBehind_eq {ts : Int} {id : Bytes} : replyBehind (some (ts, some id)) row.1 =
    decide (toLex (ts, bytesKey id) < replyKey row) := by
  rw [Bool.eq_iff_iff, decide_eq_true_eq, replyKey, Prod.Lex.toLex_lt_toLex]
  simp [replyBehind, @eq_comm _ ts]

theorem mem_joinedReplies : row ∈ joinedReplies t ↔
    row.1 ∈ t.threadMetadata ∧ row.2 ∈ t.events ∧ row.2.primaryKey = row.1.primaryKey := by
  obtain ⟨m, e⟩ := row
  simp only [joinedReplies, mem_flatMap, mem_map, mem_filter, decide_eq_true_eq,
    Prod.mk.injEq]
  constructor
  · rintro ⟨m', hm, e', ⟨he, hkey⟩, rfl, rfl⟩
    exact ⟨hm, he, hkey⟩
  · rintro ⟨hm, he, hkey⟩
    exact ⟨m, hm, e, ⟨he, hkey⟩, rfl, rfl⟩

theorem joinedReplies_pairwise :
    (joinedReplies t).Pairwise fun a b => a.1.primaryKey ≠ b.1.primaryKey := by
  have hevents : t.events.Pairwise fun a b => a.primaryKey ≠ b.primaryKey :=
    pairwise_map.mp t.events_unique
  have hmetadata : t.threadMetadata.Pairwise fun a b => a.primaryKey ≠ b.primaryKey :=
    pairwise_map.mp t.metadata_unique
  rw [joinedReplies, pairwise_flatMap]
  refine ⟨fun m _ => ?_, hmetadata.imp fun hne a ha b hb => ?_⟩
  · rw [pairwise_map, pairwise_filter]
    refine hevents.imp fun hne ha hb => absurd ?_ hne
    exact (of_decide_eq_true ha).trans (of_decide_eq_true hb).symm
  · obtain ⟨_, _, rfl⟩ := mem_map.mp ha
    obtain ⟨_, _, rfl⟩ := mem_map.mp hb
    exact hne

theorem isReply_of_mem_threadRows (hrow : row ∈ threadRows t communityId root depthLimit) :
    row ∈ joinedReplies t ∧ isReply communityId root row = true ∧
      depthMatches depthLimit row.1 = true := by
  rw [threadRows, mem_filter, Bool.and_eq_true] at hrow
  exact hrow

theorem replyKey_nodup : ((threadRows t communityId root depthLimit).map replyKey).Nodup := by
  rw [List.Nodup, pairwise_map, threadRows, pairwise_filter]
  refine joinedReplies_pairwise.imp fun hne ha hb heq => hne ?_
  simp only [isReply, Bool.and_eq_true, beq_iff_eq] at ha hb
  have hplace := Prod.ext_iff.mp (toLex_inj.mp heq)
  exact Prod.ext (ha.1.1.1.trans hb.1.1.1.symm)
    (Prod.ext hplace.1 (bytesKey_injective hplace.2))

theorem repliesQuery_eq {key : Option (Int × Option Bytes)} :
    repliesQuery t communityId root depthLimit key =
      orderBy replyKey ((threadRows t communityId root depthLimit).filter fun row =>
        replyBehind key row.1) := by
  rw [repliesQuery, orderBy, replyPrecedes_eq, threadRows, filter_filter]
  refine congrArg (fun rows => mergeSort rows _) (filter_congr fun row _ => ?_)
  rw [Bool.and_comm]

theorem repliesQuery_none : repliesQuery t communityId root depthLimit none =
    orderBy replyKey (threadRows t communityId root depthLimit) := by
  rw [repliesQuery_eq]
  exact congrArg _ (filter_eq_self.mpr fun _ _ => rfl)

theorem mem_repliesQuery {key : Option (Int × Option Bytes)} :
    row ∈ repliesQuery t communityId root depthLimit key ↔
      row ∈ threadRows t communityId root depthLimit ∧ replyBehind key row.1 = true := by
  simp [repliesQuery_eq, mem_orderBy]

theorem repliesQuery_of_append {before rest : List ReplyDbRow}
    (hrows : orderBy replyKey (threadRows t communityId root depthLimit) = before ++ row :: rest) :
    repliesQuery t communityId root depthLimit (some (row.1.eventCreatedAt, some row.1.eventId)) =
      rest := by
  have hbehind : ((threadRows t communityId root depthLimit).filter fun r =>
      replyBehind (some (row.1.eventCreatedAt, some row.1.eventId)) r.1) =
        behind replyKey (some (replyKey row)) (threadRows t communityId root depthLimit) :=
    filter_congr fun r _ => replyBehind_eq
  rw [repliesQuery_eq, hbehind]
  exact orderBy_behind_of_append replyKey_nodup hrows

/-! ### The answer -/

def repliesOf (fromValue : EventJson → Option Event) (rows : List ReplyDbRow) : List ThreadReply :=
  rows.filterMap fun row =>
    (fromValue row.2.toJson).map fun event => replyOf row ⟨event, row.2.channelId⟩

theorem threadReplies_eq (fromValue : EventJson → Option Event) {rows : List ReplyDbRow}
    (hrows : ∀ row ∈ rows, row.2 ∈ t.events) :
    threadReplies fromValue rows = .ok (repliesOf fromValue rows) := by
  induction rows with
  | nil => rfl
  | cons row rest ih =>
    rw [threadReplies, rowToStoredEvent_eq fromValue (hrows row (mem_cons_self ..)),
      ih fun row hrow => hrows row (mem_cons_of_mem _ hrow), repliesOf, repliesOf,
      filterMap_cons]
    cases fromValue row.2.toJson with
    | none => rfl
    | some event => rfl

theorem mem_repliesOf {rows : List ReplyDbRow} {reply : ThreadReply} :
    reply ∈ repliesOf fromValue rows ↔ ∃ row ∈ rows, Shows fromValue row reply := by
  simp [repliesOf, Shows, @eq_comm _ reply]

/-- **A page.** The database refuses a limit that is negative as a signed word, and an instant of
before its time. -/
theorem getThreadRepliesOn_eq :
    getThreadRepliesOn fromValue t communityId root depthLimit limit cursor =
      if ∀ key ∈ decodeCursor cursor, seconds minTimestamptzSecs ≤ key.1 then
        if asI32 limit < 0 then .error .negativeLimit
        else .ok (repliesOf fromValue
          ((repliesQuery t communityId root depthLimit (decodeCursor cursor)).take
            (asI32 limit).toNat))
      else .error .timestampOutOfRange := by
  have hrows : threadReplies fromValue ((repliesQuery t communityId root depthLimit
      (decodeCursor cursor)).take (asI32 limit).toNat) = .ok _ :=
    threadReplies_eq fromValue fun row hrow => (mem_joinedReplies.mp (isReply_of_mem_threadRows
      (mem_repliesQuery.mp (mem_of_mem_take hrow)).1).1).2.1
  unfold getThreadRepliesOn
  cases hkey : decodeCursor cursor with
  | none =>
    rw [hkey] at hrows
    rw [if_pos fun _ h => absurd h (by simp)]
    by_cases hneg : asI32 limit < 0
    · simp only [if_pos hneg]
      rfl
    · simp only [if_neg hneg, hrows]
  | some key =>
    rw [hkey] at hrows
    by_cases hbound : seconds minTimestamptzSecs ≤ key.1
    · rw [if_pos fun _ h => Option.some.inj h ▸ hbound]
      by_cases hneg : asI32 limit < 0
      · simp only [bindTimestamp, if_pos hbound, if_pos hneg]
        rfl
      · simp only [bindTimestamp, if_pos hbound, if_neg hneg, hrows]
        rfl
    · rw [if_neg fun h => hbound (h key rfl)]
      simp only [bindTimestamp, if_neg hbound]
      rfl

/-! ### The cursor behind a reply -/

theorem decodeCursor_threadCursor {reply : ThreadReply} (hrow : row ∈ joinedReplies t)
    (hshows : Shows fromValue row reply) :
    decodeCursor (some (threadCursor reply)) = some (row.1.eventCreatedAt, some row.1.eventId) := by
  obtain ⟨event, -, rfl⟩ := hshows
  have hmetadata := (mem_joinedReplies.mp hrow).1
  obtain ⟨secs, hlow, hhigh, hsecs⟩ := t.metadata_seconds _ hmetadata
  have hid := t.metadata_ids _ hmetadata
  rw [minTimestamptzSecs] at hlow
  rw [maxUtcSecs] at hhigh
  have hdiv : (replyOf row ⟨event, row.2.channelId⟩).createdAt / 1000000 = secs := by
    show row.1.eventCreatedAt / 1000000 = secs
    simp [hsecs, seconds]
  have hcursor : threadCursor (replyOf row ⟨event, row.2.channelId⟩) =
      i64ToBytes secs ++ row.1.eventId := by
    rw [threadCursor, hdiv]
    rfl
  have hlength := length_i64ToBytes secs
  have htake : (i64ToBytes secs ++ row.1.eventId).take 8 = i64ToBytes secs := take_left' hlength
  have hdrop : (i64ToBytes secs ++ row.1.eventId).drop 8 = row.1.eventId := drop_left' hlength
  have hdecoded : i64OfBytes (i64ToBytes secs) = secs := i64OfBytes_i64ToBytes (by omega) (by omega)
  have hutc : isUtcSecs secs = true := by
    rw [isUtcSecs, minUtcSecs, maxUtcSecs, Bool.and_eq_true, decide_eq_true_eq, decide_eq_true_eq]
    omega
  rw [hcursor, decodeCursor, htake, hdecoded, if_pos ⟨by simp [hlength], hutc⟩, cursorId, if_pos
    (by rw [length_append, hlength, hid]; omega), hdrop, hsecs]

/-! ### When the pages tile the thread -/

/-- The thread can be read: the limit is not negative as a signed word, no reply is left out because
the depth is, and no event is damaged. -/
structure Readable (fromValue : EventJson → Option Event) (t : Tables) (communityId : CommunityId)
    (root : Bytes) (depthLimit : Option UInt32) (limit : UInt32) : Prop where
  limit_lt : limit.toNat < 2 ^ 31
  depth : ∀ row ∈ liveReplies t communityId root depthLimit, depthMatches depthLimit row.1 = true
  events : ∀ row ∈ liveReplies t communityId root depthLimit, (fromValue row.2.toJson).isSome = true

theorem asI32_eq {n : UInt32} (h : n.toNat < 2 ^ 31) : asI32 n = n.toNat := if_pos h

theorem asI32_le (n : UInt32) : asI32 n ≤ n.toNat := by
  unfold asI32
  split <;> omega

theorem asI32_nonneg_iff {n : UInt32} : ¬asI32 n < 0 ↔ n.toNat < 2 ^ 31 := by
  have hn : n.toNat < 2 ^ 32 := n.toNat_lt
  unfold asI32
  split <;> omega

theorem mem_liveReplies_of_mem_threadRows (hrow : row ∈ threadRows t communityId root depthLimit) :
    row ∈ liveReplies t communityId root depthLimit := by
  obtain ⟨hjoined, hreply, hdepth⟩ := isReply_of_mem_threadRows hrow
  rw [liveReplies, mem_filter, hreply, Bool.true_and]
  refine ⟨hjoined, ?_⟩
  cases depthLimit with
  | none => rfl
  | some limit =>
    rw [Option.all_some, decide_eq_true_eq]
    exact (of_decide_eq_true hdepth).trans (asI32_le limit)

theorem threadRows_eq (hdepth : ∀ row ∈ liveReplies t communityId root depthLimit,
    depthMatches depthLimit row.1 = true) :
    threadRows t communityId root depthLimit = liveReplies t communityId root depthLimit := by
  refine filter_congr fun row hrow => ?_
  rw [Bool.eq_iff_iff]
  constructor
  · intro h
    exact (mem_filter.mp (mem_liveReplies_of_mem_threadRows (mem_filter.mpr ⟨hrow, h⟩))).2
  · intro h
    rw [Bool.and_eq_true] at h ⊢
    exact ⟨h.1, hdepth row (mem_filter.mpr ⟨hrow, by rw [Bool.and_eq_true]; exact h⟩)⟩

theorem forall₂_repliesOf {rows : List ReplyDbRow}
    (hrows : ∀ row ∈ rows, (fromValue row.2.toJson).isSome = true) :
    List.Forall₂ (Shows fromValue) rows (repliesOf fromValue rows) := by
  induction rows with
  | nil => exact .nil
  | cons row rest ih =>
    obtain ⟨event, hevent⟩ := Option.isSome_iff_exists.mp (hrows row (mem_cons_self ..))
    rw [repliesOf, filterMap_cons, hevent]
    exact .cons ⟨event, hevent, rfl⟩ (ih fun row hrow => hrows row (mem_cons_of_mem _ hrow))

theorem getThreadRepliesOn_of_rest {rest : List ReplyDbRow}
    (hreadable : Readable fromValue t communityId root depthLimit limit)
    (hbound : ∀ key ∈ decodeCursor cursor, seconds minTimestamptzSecs ≤ key.1)
    (hrest : repliesQuery t communityId root depthLimit (decodeCursor cursor) = rest) :
    getThreadRepliesOn fromValue t communityId root depthLimit limit cursor =
      .ok (repliesOf fromValue (rest.take limit.toNat)) := by
  rw [getThreadRepliesOn_eq, if_pos hbound, if_neg (asI32_nonneg_iff.mpr hreadable.limit_lt), hrest,
    asI32_eq hreadable.limit_lt, Int.toNat_natCast]

theorem replyWalk_of_append (hlimit : 0 < limit.toNat)
    (hreadable : Readable fromValue t communityId root depthLimit limit) (n : ℕ)
    {before rest : List ReplyDbRow} (hn : rest.length ≤ n)
    (hrows : orderBy replyKey (threadRows t communityId root depthLimit) = before ++ rest)
    (hbound : ∀ key ∈ decodeCursor cursor, seconds minTimestamptzSecs ≤ key.1)
    (hrest : repliesQuery t communityId root depthLimit (decodeCursor cursor) = rest) :
    ∃ pages, ReplyWalk fromValue t communityId root depthLimit limit cursor pages ∧
      List.Forall₂ (Shows fromValue) rest pages.flatten := by
  induction n generalizing before rest cursor with
  | zero =>
    obtain rfl : rest = [] := eq_nil_of_length_eq_zero (by omega)
    refine ⟨[], .done ?_, .nil⟩
    rw [getThreadRepliesOn_of_rest hreadable hbound hrest, take_nil]
    rfl
  | succ n ih =>
    by_cases hempty : rest = []
    · subst hempty
      exact ih (Nat.zero_le n) hrows hbound hrest
    · -- The next page starts behind the reply of the last row of this one.
      obtain ⟨init, last, hinit, hsplit⟩ := exists_take_eq_concat hlimit hempty
      have hrows' : orderBy replyKey (threadRows t communityId root depthLimit) =
          (before ++ init) ++ last :: rest.drop limit.toNat := by
        simp [hrows, ← hsplit]
      have hlive : ∀ row ∈ rest, row ∈ threadRows t communityId root depthLimit := by
        intro row hrow
        refine mem_orderBy.mp (?_ : row ∈ orderBy replyKey _)
        rw [hrows]
        exact mem_append_right _ hrow
      have hlastRow : last ∈ threadRows t communityId root depthLimit :=
        hlive last (by rw [hsplit]; exact mem_append_right _ (mem_cons_self ..))
      have hshown : List.Forall₂ (Shows fromValue) (rest.take limit.toNat)
          (repliesOf fromValue (rest.take limit.toNat)) :=
        forall₂_repliesOf fun row hrow => hreadable.events row
          (mem_liveReplies_of_mem_threadRows (hlive row (mem_of_mem_take hrow)))
      obtain ⟨reply, hreply, hlast⟩ : ∃ reply, Shows fromValue last reply ∧
          (repliesOf fromValue (rest.take limit.toNat)).getLast? = some reply := by
        obtain ⟨event, hevent⟩ := Option.isSome_iff_exists.mp
          (hreadable.events last (mem_liveReplies_of_mem_threadRows hlastRow))
        refine ⟨_, ⟨event, hevent, rfl⟩, ?_⟩
        rw [hinit, repliesOf, filterMap_append, filterMap_cons, hevent]
        exact getLast?_concat ..
      have hdecoded := decodeCursor_threadCursor (isReply_of_mem_threadRows hlastRow).1 hreply
      obtain ⟨pages, hpages, hflat⟩ := @ih (some (threadCursor reply)) (before ++ init ++ [last])
        (rest.drop limit.toNat) (by rw [length_drop]; omega)
        (by rw [hrows', append_assoc _ [last]]; rfl)
        (by
          intro key hkey
          obtain ⟨secs, hlow, -, hsecs⟩ := t.metadata_seconds _
            (mem_joinedReplies.mp (isReply_of_mem_threadRows hlastRow).1).1
          rw [hdecoded] at hkey
          rw [← Option.some.inj hkey, hsecs, seconds, seconds]
          omega)
        (by rw [hdecoded]; exact repliesQuery_of_append hrows')
      refine ⟨_, .next (getThreadRepliesOn_of_rest hreadable hbound hrest) hlast hpages, ?_⟩
      have hjoin := rel_append hshown hflat
      simp only [take_append_drop] at hjoin
      rwa [flatten_cons]

theorem eq_of_primaryKey {row' : ReplyDbRow} (hrow : row ∈ joinedReplies t)
    (hrow' : row' ∈ joinedReplies t) (hkey : row.1.primaryKey = row'.1.primaryKey) : row = row' := by
  have hnodup : ((joinedReplies t).map fun row => row.1.primaryKey).Nodup :=
    pairwise_map.mpr joinedReplies_pairwise
  exact inj_on_of_nodup_map hnodup hrow hrow' hkey

theorem exists_of_mem_forall₂ {rows : List ReplyDbRow} {replies : List ThreadReply}
    (h : List.Forall₂ (Shows fromValue) rows replies) (hrow : row ∈ rows) :
    ∃ reply ∈ replies, Shows fromValue row reply := by
  induction h with
  | nil => nomatch hrow
  | @cons first reply rows replies hfirst _ ih =>
    rcases mem_cons.mp hrow with rfl | hrow
    · exact ⟨reply, mem_cons_self .., hfirst⟩
    · obtain ⟨reply, hreply, hshows⟩ := ih hrow
      exact ⟨reply, mem_cons_of_mem _ hreply, hshows⟩

theorem mem_page {page : List ThreadReply} {reply : ThreadReply}
    (hpage : getThreadRepliesOn fromValue t communityId root depthLimit limit cursor = .ok page)
    (hreply : reply ∈ page) : ∃ row ∈ threadRows t communityId root depthLimit,
      replyBehind (decodeCursor cursor) row.1 = true ∧ Shows fromValue row reply := by
  rw [getThreadRepliesOn_eq] at hpage
  split at hpage
  · split at hpage
    · exact absurd hpage (by simp)
    · cases hpage
      obtain ⟨row, hrow, hshows⟩ := mem_repliesOf.mp hreply
      obtain ⟨hthread, hbehind⟩ := mem_repliesQuery.mp (mem_of_mem_take hrow)
      exact ⟨row, hthread, hbehind, hshows⟩
  · exact absurd hpage (by simp)

theorem ReplyWalk.shows {pages : List (List ThreadReply)}
    (h : ReplyWalk fromValue t communityId root depthLimit limit cursor pages) :
    ∀ reply ∈ pages.flatten, ∃ row ∈ threadRows t communityId root depthLimit,
      Shows fromValue row reply := by
  induction h with
  | done => exact nofun
  | next hpage _ _ ih =>
    intro reply hreply
    rw [flatten_cons, mem_append] at hreply
    rcases hreply with hreply | hreply
    · obtain ⟨row, hrow, -, hshows⟩ := mem_page hpage hreply
      exact ⟨row, hrow, hshows⟩
    · exact ih reply hreply

theorem limit_lt_of_ok {page : List ThreadReply}
    (hpage : getThreadRepliesOn fromValue t communityId root depthLimit limit cursor = .ok page) :
    limit.toNat < 2 ^ 31 := by
  rw [getThreadRepliesOn_eq] at hpage
  split at hpage
  · split at hpage
    · exact absurd hpage (by simp)
    · next hneg => exact asI32_nonneg_iff.mp hneg
  · exact absurd hpage (by simp)

theorem Tiles.readable (h : Tiles fromValue t communityId root depthLimit limit) :
    Readable fromValue t communityId root depthLimit limit := by
  obtain ⟨pages, hwalk, hshows⟩ := h
  have hshown : ∀ row ∈ liveReplies t communityId root depthLimit,
      ∃ reply ∈ pages.flatten, Shows fromValue row reply := by
    intro row hrow
    exact exists_of_mem_forall₂ hshows ((mergeSort_perm _ _).mem_iff.mpr hrow)
  refine ⟨?_, fun row hrow => ?_, fun row hrow => ?_⟩
  · cases hwalk with
    | done hpage | next hpage => exact limit_lt_of_ok hpage
  · obtain ⟨reply, hreply, _, -, rfl⟩ := hshown row hrow
    obtain ⟨row', hrow', _, -, heq⟩ := hwalk.shows _ hreply
    obtain ⟨hjoined', hreply', hdepth'⟩ := isReply_of_mem_threadRows hrow'
    rw [liveReplies, mem_filter, Bool.and_eq_true] at hrow
    obtain ⟨hjoined, hlive, -⟩ := hrow
    simp only [isReply, Bool.and_eq_true, beq_iff_eq] at hlive hreply'
    -- The row that the reply was made from has the key of this one.
    have hcreated : row.1.eventCreatedAt = row'.1.eventCreatedAt := congrArg ThreadReply.createdAt heq
    have hid : row.1.eventId = row'.1.eventId := congrArg ThreadReply.eventId heq
    have hkey : row.1.primaryKey = row'.1.primaryKey :=
      Prod.ext (hlive.1.1.trans hreply'.1.1.symm) (Prod.ext hcreated hid)
    rwa [eq_of_primaryKey hjoined hjoined' hkey]
  · obtain ⟨_, _, event, hevent, -⟩ := hshown row hrow
    rw [hevent]
    rfl

theorem Readable.tiles (hlimit : 0 < limit.toNat)
    (h : Readable fromValue t communityId root depthLimit limit) :
    Tiles fromValue t communityId root depthLimit limit := by
  have hquery : repliesQuery t communityId root depthLimit (decodeCursor none) =
      orderBy replyKey (threadRows t communityId root depthLimit) := repliesQuery_none
  have hsort : (liveReplies t communityId root depthLimit).mergeSort replyPrecedes =
      orderBy replyKey (threadRows t communityId root depthLimit) := by
    rw [orderBy, replyPrecedes_eq, threadRows_eq h.depth]
  rw [Tiles, hsort]
  exact replyWalk_of_append hlimit h _ le_rfl (nil_append _).symm
    (fun _ hkey => absurd hkey (by simp [decodeCursor])) hquery

theorem first_page_ne_nil (hlimit : 0 < limit.toNat)
    (h : Readable fromValue t communityId root depthLimit limit)
    (hlive : liveReplies t communityId root depthLimit ≠ []) :
    getThreadRepliesOn fromValue t communityId root depthLimit limit none ≠ .ok [] := by
  intro hempty
  obtain ⟨pages, hwalk, hshows⟩ := h.tiles hlimit
  cases hwalk with
  | done =>
    have hnil := forall₂_nil_right_iff.mp hshows
    rw [← length_eq_zero_iff, length_mergeSort, length_eq_zero_iff] at hnil
    exact hlive hnil
  | next hpage hlast =>
    rw [Except.ok.inj (hpage.symm.trans hempty)] at hlast
    exact absurd hlast (by simp)

theorem not_onlyBehind (hlimit : 0 < limit.toNat)
    (h : Readable fromValue t communityId root depthLimit limit)
    (hlive : liveReplies t communityId root depthLimit ≠ []) {bytes : Bytes}
    (hnone : decodeCursor (some bytes) = none) :
    ¬OnlyBehind fromValue t communityId root depthLimit limit bytes := by
  intro honly
  have hsame : getThreadRepliesOn fromValue t communityId root depthLimit limit (some bytes) =
      getThreadRepliesOn fromValue t communityId root depthLimit limit none := by
    rw [getThreadRepliesOn_eq, getThreadRepliesOn_eq, hnone]
    rfl
  obtain ⟨page, hpage⟩ : ∃ page,
      getThreadRepliesOn fromValue t communityId root depthLimit limit none = .ok page :=
    ⟨_, getThreadRepliesOn_of_rest h (fun _ hkey => absurd hkey (by simp [decodeCursor])) rfl⟩
  have hempty := (honly page (hsame.trans hpage)).2 hnone hpage
  exact first_page_ne_nil hlimit h hlive (hempty ▸ hpage)

theorem strictlyBehind_of_replyBehind {ts : Int} {id : Option Bytes} {m : ThreadMetadata}
    (h : replyBehind (some (ts, id)) m = true) : ts < m.eventCreatedAt ∨
      m.eventCreatedAt = ts ∧ ∃ i ∈ id, bytesKey i < bytesKey m.eventId := by
  cases id with
  | none => exact .inl (of_decide_eq_true h)
  | some id =>
    simp only [replyBehind, Bool.or_eq_true, Bool.and_eq_true, decide_eq_true_eq, beq_iff_eq] at h
    exact h.imp_right fun h => ⟨h.1, id, rfl, h.2⟩

/-- **Which threads are tiled, and which cursors are kept to.** -/
theorem replies_tile_iff (fromValue : EventJson → Option Event) (t : Tables)
    (communityId : CommunityId) (root : Bytes) (depthLimit : Option UInt32) (limit : UInt32)
    (bytes : Bytes) (hlimit : 0 < limit.toNat) :
    Tiles fromValue t communityId root depthLimit limit ∧
        OnlyBehind fromValue t communityId root depthLimit limit bytes ↔
      Readable fromValue t communityId root depthLimit limit ∧
        (liveReplies t communityId root depthLimit = [] ∨
          8 ≤ bytes.length ∧ isUtcSecs (i64OfBytes (bytes.take 8)) = true) := by
  constructor
  · rintro ⟨htiles, honly⟩
    refine ⟨htiles.readable, ?_⟩
    by_contra hnot
    rw [not_or] at hnot
    exact not_onlyBehind hlimit htiles.readable hnot.1 (if_neg hnot.2) honly
  · rintro ⟨hreadable, hcursor⟩
    refine ⟨hreadable.tiles hlimit, fun page hpage => ⟨fun reply hreply => ?_, fun hnone hfirst => ?_⟩⟩
    · obtain ⟨row, hrow, hbehind, _, -, rfl⟩ := mem_page hpage hreply
      rcases hcursor with hempty | ⟨hlength, hutc⟩
      · rw [← threadRows_eq hreadable.depth] at hempty
        rw [hempty] at hrow
        nomatch hrow
      · have hdecoded : decodeCursor (some bytes) =
            some (seconds (i64OfBytes (bytes.take 8)), cursorId bytes) := if_pos ⟨hlength, hutc⟩
        rw [hdecoded] at hbehind
        exact ⟨hlength, strictlyBehind_of_replyBehind hbehind⟩
    · rcases hcursor with hempty | hcursor
      · by_contra hne
        obtain ⟨reply, hreply⟩ := exists_mem_of_ne_nil page hne
        obtain ⟨row, hrow, -⟩ := mem_page hpage hreply
        rw [threadRows_eq hreadable.depth, hempty] at hrow
        nomatch hrow
      · rw [decodeCursor, if_pos hcursor] at hnone
        exact absurd hnone (by simp)

/-- A reply to the message of the identifier nine. -/
def replyTo (id : UInt8) : ThreadMetadata :=
  ⟨1, seconds 1780000000, replicate 32 id, 2, some (replicate 32 9),
    some (replicate 32 9), 1, 0, 0, none, false⟩

/-- A thread of five replies, all of one second. -/
def fiveReplies : Tables where
  events := [1, 2, 3, 4, 5].map message
  threadMetadata := [4, 2, 5, 1, 3].map replyTo
  events_unique := by decide
  metadata_unique := by decide
  kind_range := by simp [message]
  created_range := by decide
  metadata_seconds := by
    intro m hm
    obtain ⟨id, -, rfl⟩ := mem_map.mp hm
    exact ⟨1780000000, by decide, by decide, rfl⟩
  metadata_ids := by decide

theorem readable_fiveReplies :
    Readable readEvent fiveReplies 1 (replicate 32 9) (some 3) 2 where
  limit_lt := by decide
  depth := by decide
  events row _ := isSome_readEvent row.2

/-- The thread is tiled by three pages, and the cursor behind the third reply is kept to. -/
theorem replies_tile_fiveReplies :
    (liveReplies fiveReplies 1 (replicate 32 9) (some 3)).length = 5 ∧
    Tiles readEvent fiveReplies 1 (replicate 32 9) (some 3) 2 ∧
      OnlyBehind readEvent fiveReplies 1 (replicate 32 9) (some 3) 2
        (i64ToBytes 1780000000 ++ replicate 32 3) :=
  ⟨by decide +kernel, (replies_tile_iff readEvent fiveReplies 1 (replicate 32 9) (some 3) 2
    (i64ToBytes 1780000000 ++ replicate 32 3) (by decide)).mpr
    ⟨readable_fiveReplies, .inr (by decide)⟩⟩

/-- The cursor of the last second of 64 bits is not decoded: the first page comes again. -/
theorem last_second_restarts :
    ¬OnlyBehind readEvent fiveReplies 1 (replicate 32 9) (some 3) 2
      (i64ToBytes 9223372036854775807) :=
  not_onlyBehind (by decide) readable_fiveReplies (by decide +kernel) (by decide)

end Buzz.Thread
