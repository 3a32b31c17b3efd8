import Mathlib.Data.List.Lex
import Mathlib.Data.Prod.Lex
import Buzz.Db.Thread.Table

/-!
# Channel windows

A channel is read from its newest row to its oldest one, a page at a time. A page carries a cursor
when there are rows behind it, which is found out by reading one row more than the page has room for.
-/

namespace Buzz.Thread

open List Option
open Keyset

/-! ### The page -/

/-- What is shown of a thread under its root. -/
structure ThreadSummary where
  replyCount : Int
  descendantCount : Int
  lastReplyAt : Option Int
  participants : List Bytes

structure ChannelWindowRow where
  storedEvent : StoredEvent
  threadSummary : Option ThreadSummary

/-- The place of a row in a channel. -/
abbrev Cursor := Int × Bytes

/-- A page of a channel. -/
structure ChannelWindow where
  rows : List ChannelWindowRow
  hasMore : Bool
  nextCursor : Option Cursor

/-- A row of the query: an event, and its metadata if there is any. -/
abbrev WindowDbRow := EventRow × Option ThreadMetadata

/-- `LEFT JOIN thread_metadata`. -/
def Tables.metadataOf (t : Tables) (e : EventRow) : Option ThreadMetadata :=
  t.threadMetadata.find? fun m => m.primaryKey = e.primaryKey

/-- The row is shown at the top level of the channel. -/
def topLevel : Option ThreadMetadata → Bool
  | none => true
  | some m => m.depth == 0 || (m.depth == 1 && m.broadcast)

/-- `kind IN (…)`. -/
def kindMatches (kindFilter : Option (List ℕ)) (e : EventRow) : Bool :=
  match kindFilter with
  | none => true
  | some kinds => kinds.isEmpty || kinds.any fun k => (k : Int) == e.kind

/-- The conditions on a row that do not depend on the page. -/
def windowMatches (communityId : CommunityId) (channelId : Uuid) (kindFilter : Option (List ℕ))
    (row : WindowDbRow) : Bool :=
  row.1.communityId == communityId && row.1.channelId == some channelId && row.1.deletedAt.isNone &&
    topLevel row.2 && kindMatches kindFilter row.1

def behindCursor (cursor : Option Cursor) (e : EventRow) : Bool :=
  match cursor with
  | none => true
  | some (ts, id) =>
    e.createdAt < ts || (e.createdAt == ts && decide (bytesKey id < bytesKey e.id))

/-- `ORDER BY e.created_at DESC, e.id ASC`. -/
def precedes (a b : WindowDbRow) : Bool :=
  b.1.createdAt < a.1.createdAt ||
    (a.1.createdAt == b.1.createdAt && decide (bytesKey a.1.id ≤ bytesKey b.1.id))

/-- The rows of the query, without its limit. -/
def windowQuery (t : Tables) (communityId : CommunityId) (channelId : Uuid) (cursor : Option Cursor)
    (kindFilter : Option (List ℕ)) : List WindowDbRow :=
  ((t.events.map fun e => (e, t.metadataOf e)).filter fun row =>
    windowMatches communityId channelId kindFilter row && behindCursor cursor row.1).mergeSort precedes

/-- Who has replied in a thread, at most ten of them, the latest first. -/
def participantsOf (t : Tables) (communityId : CommunityId) (root : Bytes) : List Bytes :=
  let replies := t.threadMetadata.flatMap fun m =>
    if m.communityId = communityId ∧ m.rootEventId = some root then
      t.events.filter fun e => e.primaryKey = m.primaryKey ∧ e.deletedAt.isNone
    else []
  let lastSeen (pubkey : Bytes) : Int :=
    ((replies.filter fun e => e.pubkey = pubkey).map EventRow.createdAt).max?.getD 0
  ((replies.map EventRow.pubkey).dedup.mergeSort fun a b =>
    decide (lastSeen b ≤ lastSeen a)).take 10

/-- The participants are filled in. Those of a thread are taken from the map by the first row that has
its id. -/
def fillParticipants (participants : Bytes → List Bytes) :
    List Bytes → List ChannelWindowRow → List ChannelWindowRow
  | _, [] => []
  | taken, row :: rest =>
    match row.threadSummary with
    | none => row :: fillParticipants participants taken rest
    | some summary =>
      let id := bytesBE 32 row.storedEvent.event.id.toNat
      let filled := if id ∈ taken then summary
        else { summary with participants := participants id }
      { row with threadSummary := some filled } ::
        fillParticipants participants (id :: taken) rest

/-- The summary of a thread, from the metadata of the event that it starts with. -/
def threadSummaryOf : Option ThreadMetadata → Option ThreadSummary
  | none => none
  | some m =>
    if m.replyCount > 0 then some ⟨m.replyCount, m.descendantCount, m.lastReplyAt, []⟩ else none

variable (fromValue : EventJson → Option Event)

/-- The rows of a page, but for those that are damaged. -/
def windowRows : List WindowDbRow → Except DbError (List ChannelWindowRow)
  | [] => .ok []
  | row :: rest => do
    let stored ← rowToStoredEvent fromValue row.1
    let rows ← windowRows rest
    match stored with
    | none => .ok rows
    | some event => .ok (⟨event, threadSummaryOf row.2⟩ :: rows)

def getChannelWindowOn (t : Tables) (communityId : CommunityId) (channelId : Uuid) (limit : ℕ)
    (cursor : Option Cursor) (kindFilter : Option (List ℕ)) : Except DbError ChannelWindow := do
  if let some (ts, _) := cursor then bindTimestamp ts
  let fetched := (windowQuery t communityId channelId cursor kindFilter).take (limit + 1)
  let hasMore := decide (fetched.length > limit)
  let dbRows := fetched.take limit
  let nextCursor := if hasMore then
      dbRows.getLast?.map fun row => (row.1.createdAt, row.1.id)
    else none
  let rows ← windowRows fromValue dbRows
  .ok ⟨fillParticipants (participantsOf t communityId) [] rows, hasMore, nextCursor⟩

/-! ### The rows that are read for a page -/

/-- The place of a row in the order of the channel. -/
def rowKey (row : WindowDbRow) : ℤᵒᵈ ×ₗ List ℕ :=
  toLex (OrderDual.toDual row.1.createdAt, bytesKey row.1.id)

def cursorKey (cursor : Cursor) : ℤᵒᵈ ×ₗ List ℕ :=
  toLex (OrderDual.toDual cursor.1, bytesKey cursor.2)

/-- The rows of the channel: live, at the top level, and of the kinds that are asked for. -/
def channelRows (t : Tables) (communityId : CommunityId) (channelId : Uuid)
    (kindFilter : Option (List ℕ)) : List WindowDbRow :=
  (t.events.map fun e => (e, t.metadataOf e)).filter (windowMatches communityId channelId kindFilter)

/-- The rows that are kept for a page. -/
def pageRows (t : Tables) (communityId : CommunityId) (channelId : Uuid) (limit : ℕ)
    (cursor : Option Cursor) (kindFilter : Option (List ℕ)) : List WindowDbRow :=
  (windowQuery t communityId channelId cursor kindFilter).take limit

variable {t : Tables} {communityId : CommunityId} {channelId : Uuid} {limit : ℕ}
  {cursor : Option Cursor} {kindFilter : Option (List ℕ)}

theorem precedes_iff {a b : WindowDbRow} : precedes a b = true ↔ rowKey a ≤ rowKey b := by
  rw [rowKey, rowKey, Prod.Lex.toLex_le_toLex, OrderDual.toDual_lt_toDual, OrderDual.toDual_inj]
  simp [precedes]

theorem behindCursor_eq {row : WindowDbRow} : behindCursor cursor row.1 =
    (cursor.map cursorKey).all fun c => decide (c < rowKey row) := by
  cases cursor with
  | none => rfl
  | some c =>
    have hlt : cursorKey c < rowKey row ↔ row.1.createdAt < c.1 ∨
        row.1.createdAt = c.1 ∧ bytesKey c.2 < bytesKey row.1.id := by
      rw [rowKey, cursorKey, Prod.Lex.toLex_lt_toLex, OrderDual.toDual_lt_toDual,
        OrderDual.toDual_inj, @eq_comm _ c.1]
    rw [map_some, all_some, Bool.eq_iff_iff, decide_eq_true_eq, hlt]
    simp only [behindCursor, Bool.or_eq_true, Bool.and_eq_true, decide_eq_true_eq, beq_iff_eq]

theorem rowKey_nodup : ((channelRows t communityId channelId kindFilter).map rowKey).Nodup := by
  have hevents : t.events.Pairwise fun a b => a.primaryKey ≠ b.primaryKey :=
    pairwise_map.mp t.events_unique
  rw [List.Nodup, pairwise_map, channelRows, pairwise_filter, pairwise_map]
  refine hevents.imp fun hne ha hb heq => hne ?_
  simp only [windowMatches, Bool.and_eq_true, beq_iff_eq] at ha hb
  have hplace := Prod.ext_iff.mp (toLex_inj.mp heq)
  exact Prod.ext (ha.1.1.1.1.trans hb.1.1.1.1.symm) (Prod.ext (OrderDual.toDual_inj.mp hplace.1)
    (bytesKey_injective hplace.2))

theorem windowQuery_eq : windowQuery t communityId channelId cursor kindFilter =
    orderBy rowKey (behind rowKey (cursor.map cursorKey)
      (channelRows t communityId channelId kindFilter)) := by
  have hprecedes : precedes = fun a b => decide (rowKey a ≤ rowKey b) := by
    funext a b
    rw [Bool.eq_iff_iff, precedes_iff, decide_eq_true_eq]
  rw [windowQuery, orderBy, hprecedes, behind, channelRows, List.filter_filter]
  refine congrArg (fun rows => List.mergeSort rows _) (List.filter_congr fun row _ => ?_)
  rw [behindCursor_eq, Bool.and_comm]

theorem mem_windowQuery {row : WindowDbRow} :
    row ∈ windowQuery t communityId channelId cursor kindFilter ↔
      row ∈ channelRows t communityId channelId kindFilter ∧ behindCursor cursor row.1 = true := by
  simp [windowQuery_eq, mem_orderBy, behind, behindCursor_eq]

theorem windowQuery_of_append {before rest : List WindowDbRow} {last : WindowDbRow}
    (hrows : orderBy rowKey (channelRows t communityId channelId kindFilter) =
      before ++ last :: rest) :
    windowQuery t communityId channelId (some (last.1.createdAt, last.1.id)) kindFilter = rest := by
  rw [windowQuery_eq]
  exact orderBy_behind_of_append rowKey_nodup hrows

/-! ### The answer -/

/-- A row of the answer, unless the event is damaged. -/
def windowRowOf (row : WindowDbRow) : Option ChannelWindowRow :=
  (fromValue row.1.toJson).map fun event => ⟨⟨event, row.1.channelId⟩, threadSummaryOf row.2⟩

theorem windowRows_eq {rows : List WindowDbRow} (hrows : ∀ row ∈ rows, row.1 ∈ t.events) :
    windowRows fromValue rows = .ok (rows.filterMap (windowRowOf fromValue)) := by
  induction rows with
  | nil => rfl
  | cons row rest ih =>
    rw [windowRows, rowToStoredEvent_eq fromValue (hrows row (mem_cons_self ..)),
      ih fun row hrow => hrows row (mem_cons_of_mem _ hrow), filterMap_cons, windowRowOf]
    cases fromValue row.1.toJson with
    | none => rfl
    | some event => rfl

theorem mem_events_of_mem_channelRows {row : WindowDbRow}
    (hrow : row ∈ channelRows t communityId channelId kindFilter) : row.1 ∈ t.events := by
  rw [channelRows, List.mem_filter, List.mem_map] at hrow
  obtain ⟨⟨e, he, rfl⟩, -⟩ := hrow
  exact he

theorem mem_pageRows {row : WindowDbRow}
    (hrow : row ∈ pageRows t communityId channelId limit cursor kindFilter) :
    row ∈ channelRows t communityId channelId kindFilter ∧ behindCursor cursor row.1 = true :=
  mem_windowQuery.mp (mem_of_mem_take hrow)

/-- The answer for the rows of a query. -/
def windowOf (t : Tables) (communityId : CommunityId) (limit : ℕ) (rows : List WindowDbRow) :
    ChannelWindow where
  rows := fillParticipants (participantsOf t communityId) []
    ((rows.take limit).filterMap (windowRowOf fromValue))
  hasMore := decide (limit < rows.length)
  nextCursor := if limit < rows.length then
      (rows.take limit).getLast?.map fun row => (row.1.createdAt, row.1.id)
    else none

/-- **A page.** The database refuses a cursor of before its time; nothing else goes wrong. -/
theorem getChannelWindowOn_eq : getChannelWindowOn fromValue t communityId channelId limit cursor
      kindFilter =
    if ∀ c ∈ cursor, seconds minTimestamptzSecs ≤ c.1 then
      .ok (windowOf fromValue t communityId limit
        (windowQuery t communityId channelId cursor kindFilter))
    else .error .timestampOutOfRange := by
  have hpage : ∀ rows : List WindowDbRow, (rows.take (limit + 1)).take limit = rows.take limit := by
    intro rows
    rw [take_take, Nat.min_eq_left (Nat.le_succ limit)]
  have hlength : ∀ rows : List WindowDbRow,
      (rows.take (limit + 1)).length > limit ↔ limit < rows.length := by
    intro rows
    rw [length_take]
    omega
  have hrows : windowRows fromValue
      ((windowQuery t communityId channelId cursor kindFilter).take limit) =
      .ok _ := windowRows_eq fromValue fun row hrow =>
    mem_events_of_mem_channelRows (mem_pageRows hrow).1
  cases cursor with
  | none =>
    rw [if_pos nofun]
    simp only [getChannelWindowOn, hpage, hlength, hrows, decide_eq_true_eq]
    rfl
  | some c =>
    by_cases hbound : seconds minTimestamptzSecs ≤ c.1
    · rw [if_pos fun _ h => some.inj h ▸ hbound]
      simp only [getChannelWindowOn, bindTimestamp, if_pos hbound, hpage, hlength, hrows,
        decide_eq_true_eq]
      rfl
    · rw [if_neg fun h => hbound (h c rfl)]
      simp only [getChannelWindowOn, bindTimestamp, if_neg hbound]
      rfl

/-! ### The walk through the channel -/

/-- The pages from a cursor on, each with the rows that were kept for it. The next page starts at the
cursor of the one before; the last page is the one without more. -/
inductive Walk (t : Tables) (communityId : CommunityId) (channelId : Uuid) (limit : ℕ)
    (kindFilter : Option (List ℕ)) :
    Option Cursor → List (List WindowDbRow × ChannelWindow) → Prop where
  | last {cursor : Option Cursor} {window : ChannelWindow}
      (hwindow : getChannelWindowOn fromValue t communityId channelId limit cursor kindFilter =
        .ok window)
      (hmore : window.hasMore = false) :
      Walk t communityId channelId limit kindFilter cursor
        [(pageRows t communityId channelId limit cursor kindFilter, window)]
  | next {cursor : Option Cursor} {window : ChannelWindow} {c : Cursor}
      {pages : List (List WindowDbRow × ChannelWindow)}
      (hwindow : getChannelWindowOn fromValue t communityId channelId limit cursor kindFilter =
        .ok window)
      (hmore : window.hasMore = true) (hcursor : window.nextCursor = some c)
      (hpages : Walk t communityId channelId limit kindFilter (some c) pages) :
      Walk t communityId channelId limit kindFilter cursor
        ((pageRows t communityId channelId limit cursor kindFilter, window) :: pages)

variable {fromValue} {pages pages' : List (List WindowDbRow × ChannelWindow)}

theorem Walk.unique (h : Walk fromValue t communityId channelId limit kindFilter cursor pages)
    (h' : Walk fromValue t communityId channelId limit kindFilter cursor pages') : pages = pages' := by
  induction h generalizing pages' with
  | last hwindow hmore =>
    cases h' with
    | last hwindow' =>
      rw [Except.ok.inj (hwindow.symm.trans hwindow')]
    | next hwindow' hmore' =>
      rw [Except.ok.inj (hwindow'.symm.trans hwindow), hmore] at hmore'
      nomatch hmore'
  | next hwindow hmore hcursor hpages ih =>
    cases h' with
    | last hwindow' hmore' =>
      rw [Except.ok.inj (hwindow'.symm.trans hwindow), hmore] at hmore'
      exact absurd hmore'.symm Bool.false_ne_true
    | next hwindow' hmore' hcursor' hpages' =>
      obtain rfl := Except.ok.inj (hwindow.symm.trans hwindow')
      obtain rfl := some.inj (hcursor.symm.trans hcursor')
      rw [ih hpages']

theorem getChannelWindowOn_of_rest {rest : List WindowDbRow}
    (hbound : ∀ c ∈ cursor, seconds minTimestamptzSecs ≤ c.1)
    (hrest : windowQuery t communityId channelId cursor kindFilter = rest) :
    getChannelWindowOn fromValue t communityId channelId limit cursor kindFilter =
      .ok (windowOf fromValue t communityId limit rest) := by
  rw [getChannelWindowOn_eq, if_pos hbound, hrest]

theorem walk_of_append (hlimit : 0 < limit) (n : ℕ) {before rest : List WindowDbRow}
    (hn : rest.length ≤ n)
    (hrows : orderBy rowKey (channelRows t communityId channelId kindFilter) = before ++ rest)
    (hbound : ∀ c ∈ cursor, seconds minTimestamptzSecs ≤ c.1)
    (hrest : windowQuery t communityId channelId cursor kindFilter = rest) :
    ∃ pages, Walk fromValue t communityId channelId limit kindFilter cursor pages ∧
      pages.flatMap Prod.fst = rest := by
  induction n generalizing before rest cursor with
  | zero =>
    refine ⟨_, .last (getChannelWindowOn_of_rest hbound hrest) (decide_eq_false (by omega)), ?_⟩
    rw [flatMap_singleton, pageRows, hrest, take_of_length_le (by omega)]
  | succ n ih =>
    by_cases hmore : limit < rest.length
    · -- The next page starts behind the last row of this one.
      obtain ⟨init, last, hinit, hsplit⟩ :=
        exists_take_eq_concat hlimit (ne_nil_of_length_pos (Nat.zero_lt_of_lt hmore))
      have hrows' : orderBy rowKey (channelRows t communityId channelId kindFilter) =
          (before ++ init) ++ last :: rest.drop limit := by
        rw [hrows, append_assoc, ← hsplit]
      have hlast : last ∈ orderBy rowKey (channelRows t communityId channelId kindFilter) := by
        rw [hrows']
        exact mem_append_right _ (mem_cons_self ..)
      obtain ⟨pages, hpages, hflat⟩ := @ih (some (last.1.createdAt, last.1.id))
        (before ++ init ++ [last]) (rest.drop limit) (by rw [length_drop]; omega)
        (by rw [hrows', append_assoc _ [last]]; rfl)
        (fun c hc => some.inj hc ▸
          t.created_range _ (mem_events_of_mem_channelRows (mem_orderBy.mp hlast)))
        (windowQuery_of_append hrows')
      refine ⟨_, .next (getChannelWindowOn_of_rest hbound hrest) (decide_eq_true hmore) ?_ hpages, ?_⟩
      · rw [windowOf, if_pos hmore, hinit, getLast?_append]
        rfl
      · rw [flatMap_cons, hflat, pageRows, hrest, take_append_drop]
    · refine ⟨_, .last (getChannelWindowOn_of_rest hbound hrest) (decide_eq_false hmore), ?_⟩
      rw [flatMap_singleton, pageRows, hrest, take_of_length_le (by omega)]

theorem map_storedEvent_fillParticipants (participants : Bytes → List Bytes) (taken : List Bytes)
    (rows : List ChannelWindowRow) :
    (fillParticipants participants taken rows).map ChannelWindowRow.storedEvent =
      rows.map ChannelWindowRow.storedEvent := by
  induction rows generalizing taken with
  | nil => rfl
  | cons row rest ih =>
    rw [fillParticipants]
    split
    · simp [ih]
    · simp [ih]

/-- The event of a row, unless it is damaged. -/
def storedEventOf (fromValue : EventJson → Option Event) (row : WindowDbRow) : Option StoredEvent :=
  (fromValue row.1.toJson).map fun event => ⟨event, row.1.channelId⟩

theorem map_storedEvent_windowOf {rest : List WindowDbRow} :
    (windowOf fromValue t communityId limit rest).rows.map ChannelWindowRow.storedEvent =
      (rest.take limit).filterMap (storedEventOf fromValue) := by
  rw [windowOf, map_storedEvent_fillParticipants, List.map_filterMap]
  refine List.filterMap_congr fun row _ => ?_
  rw [windowRowOf, storedEventOf, Option.map_map]
  rfl

/-- What a page says about the rows behind it. -/
structure PageFacts (fromValue : EventJson → Option Event) (rows page : List WindowDbRow)
    (cursor : Option Cursor) (window : ChannelWindow) : Prop where
  /-- The page shows the events that were kept, but for the damaged ones. -/
  shown : window.rows.map ChannelWindowRow.storedEvent = page.filterMap (storedEventOf fromValue)
  /-- There is more exactly if there is a row behind the cursor that is not on the page. -/
  more_iff : window.hasMore = true ↔ ∃ row ∈ rows, behindCursor cursor row.1 = true ∧ row ∉ page
  /-- With more, the next cursor is the place of a row of the page, behind the cursor. -/
  progress : window.hasMore = true → ∃ row ∈ page, behindCursor cursor row.1 = true ∧
    window.nextCursor = some (row.1.createdAt, row.1.id)

theorem nodup_windowQuery : (windowQuery t communityId channelId cursor kindFilter).Nodup := by
  rw [windowQuery_eq, (orderBy_perm _).nodup_iff]
  exact rowKey_nodup.of_map _ |>.filter _

theorem pageFacts (hlimit : 0 < limit) {window : ChannelWindow}
    (hwindow : getChannelWindowOn fromValue t communityId channelId limit cursor kindFilter =
      .ok window) :
    PageFacts fromValue (channelRows t communityId channelId kindFilter)
      (pageRows t communityId channelId limit cursor kindFilter) cursor window := by
  rw [getChannelWindowOn_eq] at hwindow
  split at hwindow
  · cases hwindow
    refine ⟨map_storedEvent_windowOf, ?_, fun hmore => ?_⟩
    · simp [windowOf, ← exists_notMem_take_iff nodup_windowQuery, mem_windowQuery, and_assoc,
        pageRows]
    · have hlt := of_decide_eq_true hmore
      obtain ⟨init, last, hinit, -⟩ :=
        exists_take_eq_concat hlimit (ne_nil_of_length_pos (Nat.zero_lt_of_lt hlt))
      have hlast : last ∈ pageRows t communityId channelId limit cursor kindFilter := by
        rw [pageRows, hinit]
        exact mem_append_right _ (mem_singleton_self last)
      refine ⟨last, hlast, (mem_pageRows hlast).2, ?_⟩
      rw [windowOf, if_pos hlt, hinit, getLast?_append]
      rfl
  · exact absurd hwindow (by simp)

/-- **Channel windows tile the channel.** -/
theorem window_tiles (fromValue : EventJson → Option Event) (t : Tables) (communityId : CommunityId)
    (channelId : Uuid) (limit : ℕ) (kindFilter : Option (List ℕ)) (hlimit : 0 < limit) :
    (∃ pages, Walk fromValue t communityId channelId limit kindFilter none pages ∧
      (∀ pages', Walk fromValue t communityId channelId limit kindFilter none pages' →
        pages' = pages) ∧
      (pages.flatMap Prod.fst).Perm (channelRows t communityId channelId kindFilter) ∧
      (pages.flatMap Prod.fst).Nodup ∧
      (pages.flatMap Prod.fst).Pairwise fun a b => precedes a b = true) ∧
    ∀ cursor window,
      getChannelWindowOn fromValue t communityId channelId limit cursor kindFilter = .ok window →
        PageFacts fromValue (channelRows t communityId channelId kindFilter)
          (pageRows t communityId channelId limit cursor kindFilter) cursor window := by
  refine ⟨?_, fun cursor window => pageFacts hlimit⟩
  have hquery : windowQuery t communityId channelId none kindFilter =
      orderBy rowKey (channelRows t communityId channelId kindFilter) := by
    simp [windowQuery_eq, behind_none]
  obtain ⟨pages, hpages, hflat⟩ : ∃ pages,
      Walk fromValue t communityId channelId limit kindFilter none pages ∧ pages.flatMap Prod.fst = _ :=
    walk_of_append hlimit _ le_rfl (nil_append _).symm (fun _ h => absurd h (by simp)) hquery
  refine ⟨pages, hpages, fun pages' hpages' => hpages'.unique hpages, ?_⟩
  rw [hflat]
  refine ⟨orderBy_perm _, hquery ▸ nodup_windowQuery, (orderBy_sorted _).imp ?_⟩
  intro a b hle
  exact precedes_iff.mpr hle

def twoMessages : Tables where
  events := [message 1, message 2]
  threadMetadata := []
  events_unique := by decide
  metadata_unique := nodup_nil
  kind_range := by decide
  created_range := by decide
  metadata_seconds := forall_mem_nil _
  metadata_ids := forall_mem_nil _

/-- Pages of one row visit both of them. -/
theorem window_tiles_twoMessages : ∃ pages, Walk readEvent twoMessages 1 2 1 none none pages ∧
    (pages.flatMap Prod.fst).length = 2 := by
  obtain ⟨⟨pages, hpages, -, hperm, -⟩, -⟩ :=
    window_tiles readEvent twoMessages 1 2 1 none (by decide)
  exact ⟨pages, hpages, hperm.length_eq.trans (by decide)⟩

end Buzz.Thread
