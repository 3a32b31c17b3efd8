import Buzz.Core.Filter
import Buzz.Db.EventQuery
import Buzz.Lib.OrderedSet

/-!
# Pushing filters down

Stored events are delivered filter by filter. The filter is turned into a query, as far as columns
tell what it asks for, and what the query selects is matched once more against the filter itself.
The query is not to lose what would match.

It is scoped to a channel when the filter names one, or when the whole subscription does. Then it
selects what is stored in that channel, whatever `h` tags an event carries.
-/

namespace Buzz.Pushdown

open List Option
open IdentityArchive (isHex64 toAsciiLowercase)
open Workflow (DateTime)
open EventQuery (whereClause queryEventsOn)

/-! ### Tag names -/

/-- `SingleLetterTag::lowercase(Alphabet::H)`. -/
def hTag : SingleLetterTag := ⟨'h', by decide⟩

/-- `SingleLetterTag::lowercase(Alphabet::E)`. -/
def eTag : SingleLetterTag := ⟨'e', by decide⟩

/-- `SingleLetterTag::lowercase(Alphabet::D)`. -/
def dTagKey : SingleLetterTag := ⟨'d', by decide⟩

/-! ### Channels -/

section Query

variable (parse : String → Option Uuid)

/-- The loop over the values of an `h` tag: the channel found so far, and whether the filter names
one. Nothing, when two channels differ. -/
def scanValues : Option Uuid × Bool → List String → Option (Option Uuid × Bool)
  | found, [] => some found
  | found, v :: vs =>
    match parse v with
    | none => scanValues found vs
    | some id =>
      if found.1.any fun existing => existing != id then none else scanValues (some id, true) vs

def scanTags : Option Uuid × Bool → List (Sigma fun _ : SingleLetterTag => List String) →
    Option (Option Uuid × Bool)
  | found, [] => some found
  | found, tag :: tags =>
    if tag.1.toString == "h" then
      match scanValues parse found tag.2 with
      | none => none
      | some found => scanTags found tags
    else scanTags found tags

def scanFilters : Option Uuid → List Filter → Option Uuid
  | found, [] => found
  | found, f :: fs =>
    match scanTags parse (found, false) f.genericTags.entries with
    | some (found, true) => scanFilters found fs
    | _ => none

def extractChannelIdFromFilters (filters : List Filter) : Option Uuid :=
  scanFilters parse none filters

/-- The channel that the query of a filter is scoped to: its only `h` value, or that of the whole
subscription. -/
def perFilterChannel (filters : List Filter) (f : Filter) : Option Uuid :=
  ((f.genericTags.lookup hTag).bind fun vs =>
    match vs with
    | [v] => parse v
    | _ => none).or (extractChannelIdFromFilters parse filters)

/-! ### Queries -/

def single {α : Type} : List α → Option α
  | [a] => some a
  | _ => none

/-- The values of a list that has more than one. -/
def several {α : Type} : List α → Option (List α)
  | a :: b :: l => some (a :: b :: l)
  | _ => none

/-- The values of a list that has any. -/
def nonempty {α : Type} : List α → Option (List α)
  | [] => none
  | a :: l => some (a :: l)

/-- `DateTime::from_timestamp(s.as_secs() as i64, 0)`. -/
def pushTime (s : Timestamp) : Option DateTime := DateTime.fromTimestamp s.toInt64.toInt

/-- The filter has kinds, and all of them have a `d_tag` column. -/
def filterIsNip33Only (f : Filter) : Bool :=
  f.kinds.any fun kinds => !kinds.isEmpty && kinds.all isParameterizedReplaceable

/-- The `#d` values that are pushed down. -/
def pushedDTags (f : Filter) : Option (List String) :=
  if filterIsNip33Only f then f.genericTags.lookup dTagKey else none

def filterToQueryParams (f : Filter) (channelId : Option Uuid) (community : CommunityId) :
    EventQuery :=
  { EventQuery.forCommunity community with
    channelId := channelId
    kinds := f.kinds.map fun kinds => kinds.map fun k => (k.toNat : Int)
    pubkey := f.authors.bind single
    authors := f.authors.bind several
    since := f.since.bind pushTime
    untilTime := f.untilTime.bind pushTime
    ids := f.ids.bind nonempty
    eTags := (f.genericTags.lookup eTag).bind nonempty
    pTagHex := (f.genericTags.lookup pTag).bind single
    dTag := (pushedDTags f).bind single
    dTags := (pushedDTags f).bind several }

def applyAccessScopeToQuery (q : EventQuery) (channelId : Option Uuid)
    (accessibleChannels : List Uuid) : EventQuery :=
  if channelId.isNone then { q with channelIds := some accessibleChannels } else q

def filterCanMatchSharedGatedKinds (f : Filter) : Bool :=
  f.kinds.all fun kinds => kinds.any sharedGatedKinds.contains

/-- The query of a filter of a subscription. -/
def reqQuery (filters : List Filter) (f : Filter) (accessibleChannels : List Uuid)
    (reader : PublicKey) (community : CommunityId) : EventQuery :=
  let channelId := perFilterChannel parse filters f
  let q := applyAccessScopeToQuery (filterToQueryParams f channelId community) channelId
    accessibleChannels
  if filterCanMatchSharedGatedKinds f then { q with sharedGatedReader := some reader } else q

end Query

/-! ### Readers -/

def authorOnlyKinds : List Kind := [30300, 30350]

/-- `KIND_DM_VISIBILITY` and `KIND_AGENT_TURN_METRIC`. -/
def resultGatedKinds : List Kind := [30622, 44200]

def isAuthorOnlyEvent (e : RawEvent) (reader : PublicKey) : Bool :=
  authorOnlyKinds.contains e.kind && e.pubkey != reader

/-- The loop of `event_is_shared`: how many tags share the event. Nothing, for another shape. -/
def countShared : Nat → List RawTag → Option Nat
  | count, [] => some count
  | count, t :: ts =>
    if t.name == "shared" then
      match t.values with
      | [v] => if v != "true" then none else countShared (count + 1) ts
      | _ => none
    else countShared count ts

def eventIsShared (e : RawEvent) : Bool := countShared 0 e.tags == some 1

def isUnsharedGatedEvent (e : RawEvent) (reader : PublicKey) : Bool :=
  sharedGatedKinds.contains e.kind && e.pubkey != reader && !eventIsShared e

def readerAuthorizedForEvent (e : RawEvent) (readerPubkeyHex : String) : Bool :=
  !resultGatedKinds.contains e.kind ||
    e.tags.any fun t => t.name == "p" && t.values.head? == some readerPubkeyHex

def eventVisibleToReader (e : RawEvent) (reader : PublicKey) : Bool :=
  !isAuthorOnlyEvent e reader && !isUnsharedGatedEvent e reader &&
    readerAuthorizedForEvent e (toHex reader)

/-- The reader may see the row: it has no channel or an accessible one, and its event is visible. -/
def mayRead (accessibleChannels : List Uuid) (reader : PublicKey) (r : Row) : Bool :=
  (r.channelId.all accessibleChannels.contains) &&
    eventVisibleToReader r.event reader

/-! ### Delivery -/

section Delivery

variable (parse : String → Option Uuid) (filters : List Filter) (accessibleChannels : List Uuid)
  (reader : PublicKey) (community : CommunityId) (rows : List Row)

/-- What the queries select, each row with the filter that it was selected for. A query that fails
ends the delivery. -/
def candidates : List Filter → List (Filter × Row)
  | [] => []
  | f :: fs =>
    match queryEventsOn (reqQuery parse filters f accessibleChannels reader community) rows with
    | .error _ => []
    | .ok found => found.map (Prod.mk f) ++ candidates fs

/-- A selected row is sent when it matches the filter and the reader may see it. -/
def acceptCandidate (c : Filter × Row) : Bool :=
  filtersMatch [c.1] c.2.stored && mayRead accessibleChannels reader c.2

/-- The stored events that a subscription is sent. -/
def historicalDelivery : List (Filter × Row) :=
  sendOnce (acceptCandidate accessibleChannels reader) (fun c => c.2.event.id) []
    (candidates parse filters accessibleChannels reader community rows filters)

end Delivery

/-! ### What the conditions say of a match -/

/-- What a filter asks for is something that the columns of the row can tell. -/
structure Answerable (path : StorePath) (f : Filter) (r : Row) : Prop where
  /-- The latest time is a signed word, unless the database has no such time at all. -/
  untilTime : ∀ u ∈ f.untilTime, u.toNat < 2 ^ 63 ∨ pushTime u = none
  /-- A `#d` that is pushed down asks for the first one of the event. -/
  dTag : ∀ ds ∈ pushedDTags f, ∃ d ∈ ds, extractDTag r.event = some d
  /-- An only `#p` is a key, and the event was stored with its mentions. -/
  pTag : ∀ p, f.genericTags.lookup pTag = some [p] → isHex64 p = true ∧ path = .event

section Clauses

variable {parse : String → Option Uuid} {filters : List Filter} {f : Filter}
  {accessibleChannels : List Uuid} {reader : PublicKey} {community : CommunityId}
  {path : StorePath} {r : Row}

theorem reqQuery_eq : reqQuery parse filters f accessibleChannels reader community =
    { filterToQueryParams f (perFilterChannel parse filters f) community with
      channelIds :=
        if (perFilterChannel parse filters f).isNone then some accessibleChannels else none
      sharedGatedReader := if filterCanMatchSharedGatedKinds f then some reader else none } := by
  unfold reqQuery applyAccessScopeToQuery
  dsimp only
  split
  · split
    · rfl
    · rfl
  · split
    · rfl
    · rfl

theorem channelClause_iff :
    (reqQuery parse filters f accessibleChannels reader community).channelClause r = true ↔
      ∀ c ∈ perFilterChannel parse filters f, r.channelId = some c := by
  rw [reqQuery_eq]
  cases hscope : perFilterChannel parse filters f with
  | none => simp [EventQuery.channelClause, filterToQueryParams, EventQuery.forCommunity]
  | some c => simp [EventQuery.channelClause, filterToQueryParams]

theorem communityClause_of_stored (hstored : Stored path r) :
    (reqQuery parse filters f accessibleChannels reader r.communityId).communityClause r =
      true := by
  rw [reqQuery_eq]
  simp [EventQuery.communityClause, filterToQueryParams, EventQuery.forCommunity,
    hstored.column_eq.2.2.1]

theorem channelsClause_of_mayRead (hread : mayRead accessibleChannels reader r = true) :
    (reqQuery parse filters f accessibleChannels reader community).channelsClause r = true := by
  rw [mayRead, Bool.and_eq_true] at hread
  rw [reqQuery_eq, EventQuery.channelsClause]
  split
  · exact hread.1
  · rfl

theorem kindClause_of_match (hmatch : filterMatchOne f r.stored = true) :
    (reqQuery parse filters f accessibleChannels reader community).kindClause r = true := by
  have hkinds := (fields_of_filterMatchOne hmatch).1
  rw [reqQuery_eq]
  simp only [EventQuery.kindClause, filterToQueryParams, Option.all_eq_true,
    Option.map_eq_some_iff, List.contains_iff_mem]
  rintro _ ⟨kinds, hmem, rfl⟩
  exact List.mem_map.mpr ⟨r.event.kind, hkinds kinds hmem, rfl⟩

theorem mem_single {α : Type} {l : List α} {a : α} (h : a ∈ single l) : l = [a] := by
  unfold single at h
  split at h
  · cases h
    rfl
  · cases h

theorem mem_several {α : Type} {l m : List α} (h : m ∈ several l) : m = l := by
  unfold several at h
  split at h
  · cases h
    rfl
  · cases h

theorem mem_nonempty {α : Type} {l m : List α} (h : m ∈ nonempty l) : m = l := by
  unfold nonempty at h
  split at h
  · cases h
  · cases h
    rfl

theorem authorClause_of_match (hmatch : filterMatchOne f r.stored = true) :
    (reqQuery parse filters f accessibleChannels reader community).authorClause r = true := by
  have hauthors := (fields_of_filterMatchOne hmatch).2.1
  rw [reqQuery_eq]
  simp only [EventQuery.authorClause, filterToQueryParams, Bool.and_eq_true, Option.all_eq_true,
    Option.bind_eq_some_iff, List.contains_iff_mem, beq_iff_eq]
  constructor
  · rintro a ⟨authors, hmem, hsingle⟩
    have hin := hauthors authors hmem
    rw [mem_single hsingle] at hin
    exact List.mem_singleton.mp hin
  · rintro _ ⟨authors, hmem, hseveral⟩
    rw [mem_several hseveral]
    exact hauthors authors hmem

theorem idClause_of_match (hmatch : filterMatchOne f r.stored = true) :
    (reqQuery parse filters f accessibleChannels reader community).idClause r = true := by
  have hids := (fields_of_filterMatchOne hmatch).2.2.2.2
  rw [reqQuery_eq]
  simp only [EventQuery.idClause, filterToQueryParams, Option.all_eq_true,
    Option.bind_eq_some_iff, List.contains_iff_mem]
  rintro _ ⟨ids, hmem, hnonempty⟩
  rw [mem_nonempty hnonempty]
  exact hids ids hmem

theorem hasTag_stored_iff {name v : String} : r.stored.hasTag name v = true ↔
    ∃ t ∈ r.event.tags, t.name = name ∧ t.values.head? = some v := by
  rw [StoredEvent.hasTag_iff]
  simp [Row.stored, RawEvent.toEvent]

theorem eTagClause_of_match (hmatch : filterMatchOne f r.stored = true) :
    (reqQuery parse filters f accessibleChannels reader community).eTagClause r = true := by
  rw [reqQuery_eq]
  simp only [EventQuery.eTagClause, filterToQueryParams, Option.all_eq_true,
    Option.bind_eq_some_iff, List.any_eq_true]
  rintro _ ⟨values, hkey, hnonempty⟩
  rw [mem_nonempty hnonempty]
  obtain ⟨v, hv, htag⟩ := hasTag_of_filterMatchOne hmatch hkey (by decide)
  obtain ⟨t, ht, hname, hvalue⟩ := hasTag_stored_iff.mp htag
  obtain ⟨rest, hvalues⟩ := head?_eq_some_iff.mp hvalue
  refine ⟨v, hv, any_eq_true.mpr ⟨t, ht, ?_⟩⟩
  rw [RawTag.asSlice, hname, hvalues]
  simp [eTag, SingleLetterTag.toString]

theorem mentionClause_of_match (hstored : Stored path r) (hasked : Answerable path f r)
    (hmatch : filterMatchOne f r.stored = true) :
    (reqQuery parse filters f accessibleChannels reader community).mentionClause r = true := by
  rw [reqQuery_eq]
  simp only [EventQuery.mentionClause, filterToQueryParams, Option.all_eq_true,
    Option.bind_eq_some_iff, List.contains_iff_mem]
  rintro p ⟨values, hkey, hsingle⟩
  rw [mem_single hsingle] at hkey
  obtain ⟨hhex, hpath⟩ := hasked.pTag p hkey
  obtain ⟨v, hv, htag⟩ := hasTag_of_filterMatchOne hmatch hkey (by decide)
  rw [mem_singleton.mp hv] at htag
  obtain ⟨t, ht, hname, hvalue⟩ := hasTag_stored_iff.mp htag
  rw [hstored.column_eq.2.2.2 hpath]
  refine mem_map_of_mem (mem_filter.mpr ⟨mem_filterMap.mpr ⟨t, ht, ?_⟩, hhex⟩)
  have hletter : pTag.toString = "p" := by decide
  rw [RawTag.valueOf, hname, hletter, if_pos (beq_self_eq_true _), hvalue]

theorem nanos_pushTime {s : Timestamp} {t : DateTime} (hs : s.toNat < 2 ^ 63)
    (h : pushTime s = some t) : t.nanos = s.toNat * 1000000000 := by
  rw [← toInt_toInt64_of_lt hs]
  exact DateTime.nanos_of_ofNanos? h

theorem timeClause_of_match (hstored : Stored path r) (hasked : Answerable path f r)
    (hmatch : filterMatchOne f r.stored = true) :
    (reqQuery parse filters f accessibleChannels reader community).timeClause r = true := by
  obtain ⟨-, -, hsince, huntil, -⟩ := fields_of_filterMatchOne hmatch
  have hcreated := hstored.toNat_createdAt_lt
  rw [reqQuery_eq]
  simp only [EventQuery.timeClause, filterToQueryParams, EventQuery.forCommunity, Bool.and_eq_true,
    Option.all_eq_true, Option.bind_eq_some_iff, decide_eq_true_eq, hstored.nanos_createdAt]
  constructor
  · rintro t ⟨since, hmem, hpush⟩
    have hle : since.toNat ≤ r.event.createdAt.toNat := hsince since hmem
    rw [nanos_pushTime (by omega) hpush]
    omega
  · rintro t ⟨untilTime, hmem, hpush⟩
    have hle : r.event.createdAt.toNat ≤ untilTime.toNat := huntil untilTime hmem
    obtain hlt | hnone := hasked.untilTime untilTime hmem
    · rw [nanos_pushTime hlt hpush]
      omega
    · cases hnone.symm.trans hpush

theorem dTagClause_of_answerable (hstored : Stored path r) (hasked : Answerable path f r) :
    (reqQuery parse filters f accessibleChannels reader community).dTagClause r = true := by
  rw [reqQuery_eq]
  simp only [EventQuery.dTagClause, filterToQueryParams, hstored.column_eq.2.1]
  cases hpushed : pushedDTags f with
  | none => rfl
  | some ds =>
    obtain ⟨d, hd, hcolumn⟩ := hasked.dTag ds hpushed
    rw [hcolumn]
    rcases ds with _ | ⟨d', _ | ⟨d'', ds⟩⟩
    · cases hd
    · simpa [single] using (mem_singleton.mp hd)
    · simpa [single, several] using mem_cons.mp hd

theorem exists_shared {ts : List RawTag} {n m : Nat} (h : countShared n ts = some m) (hlt : n < m) :
    ∃ t ∈ ts, t.asSlice = ["shared", "true"] := by
  induction ts generalizing n with
  | nil =>
    cases h
    exact absurd hlt (Nat.lt_irrefl _)
  | cons t ts ih =>
    rw [countShared] at h
    split at h
    · next hname =>
      split at h
      · next v hvalues =>
        split at h
        · cases h
        · next htrue =>
          refine ⟨t, mem_cons_self .., ?_⟩
          rw [RawTag.asSlice, beq_iff_eq.mp hname, hvalues]
          simpa using htrue
      · cases h
    · obtain ⟨s, hs, hshared⟩ := ih h hlt
      exact ⟨s, mem_cons_of_mem _ hs, hshared⟩

theorem sharedClause_of_mayRead (hread : mayRead accessibleChannels reader r = true) :
    (reqQuery parse filters f accessibleChannels reader community).sharedClause r = true := by
  simp only [mayRead, eventVisibleToReader, isUnsharedGatedEvent, Bool.and_eq_true] at hread
  obtain ⟨-, ⟨-, hgate⟩, -⟩ := hread
  rw [reqQuery_eq, EventQuery.sharedClause]
  dsimp only
  split
  · rw [all_some]
    by_cases hkind : r.event.kind ∈ sharedGatedKinds
    · by_cases hauthor : r.event.pubkey = reader
      · simp [hauthor]
      · have hshared : eventIsShared r.event = true := by simpa [hkind, hauthor] using hgate
        obtain ⟨t, ht, hslice⟩ := exists_shared (beq_iff_eq.mp hshared) Nat.zero_lt_one
        have hpair : containsPair r.event.tags "shared" "true" = true :=
          any_eq_true.mpr ⟨t, ht, by rw [hslice]; decide⟩
        rw [hpair, Bool.or_true]
    · simp [hkind]
  · rfl

/-- **A match is selected exactly if it is stored in the channel that the query is scoped to.** -/
theorem whereClause_reqQuery_iff (hstored : Stored path r) (hasked : Answerable path f r)
    (hmatch : filterMatchOne f r.stored = true)
    (hread : mayRead accessibleChannels reader r = true) :
    (reqQuery parse filters f accessibleChannels reader r.communityId).whereClause r = true ↔
      ∀ c ∈ perFilterChannel parse filters f, r.channelId = some c := by
  simpa [whereClause, communityClause_of_stored hstored,
    mentionClause_of_match hstored hasked hmatch, channelsClause_of_mayRead hread,
    kindClause_of_match hmatch, authorClause_of_match hmatch, idClause_of_match hmatch,
    eTagClause_of_match hmatch, timeClause_of_match hstored hasked hmatch,
    dTagClause_of_answerable hstored hasked, sharedClause_of_mayRead hread] using channelClause_iff

/-! ### What is delivered -/

theorem matchesNothing_of_match (hmatch : filterMatchOne f r.stored = true) :
    (reqQuery parse filters f accessibleChannels reader community).matchesNothing = false := by
  have hkinds : (f.kinds.map fun kinds => kinds.map fun k => (k.toNat : Int)) ≠ some [] := by
    intro hnone
    obtain ⟨kinds, hmem, hempty⟩ := map_eq_some_iff.mp hnone
    have hin := (fields_of_filterMatchOne hmatch).1 kinds hmem
    rw [map_eq_nil_iff.mp hempty] at hin
    exact not_mem_nil hin
  have hnone : ∀ {α : Type} (o : Option (List α)) (g : List α → Option (List α)),
      (∀ l, g l ≠ some []) → o.bind g ≠ some [] := by
    intro α o g hg hsome
    obtain ⟨l, -, hl⟩ := bind_eq_some_iff.mp hsome
    exact hg l hl
  have hseveral : ∀ {α : Type} (l : List α), several l ≠ some [] := by
    intro α l h
    have hl := mem_several h
    subst hl
    cases h
  have hnonempty : ∀ {α : Type} (l : List α), nonempty l ≠ some [] := by
    intro α l h
    have hl := mem_nonempty h
    subst hl
    cases h
  rw [reqQuery_eq]
  simp only [EventQuery.matchesNothing, filterToQueryParams, Bool.or_eq_false_iff,
    beq_eq_false_iff_ne]
  exact ⟨⟨⟨hkinds, hnone _ _ hseveral⟩, hnone _ _ hnonempty⟩, hnone _ _ hnonempty⟩

theorem queryEventsOn_reqQuery (rows : List Row) :
    queryEventsOn (reqQuery parse filters f accessibleChannels reader community) rows =
      .ok (if (reqQuery parse filters f accessibleChannels reader community).matchesNothing then []
        else (rows.filter
          (reqQuery parse filters f accessibleChannels reader community).whereClause).mergeSort
            EventQuery.precedes) := by
  have hplain : (reqQuery parse filters f accessibleChannels reader community).beforeId = none ∧
      (reqQuery parse filters f accessibleChannels reader community).globalOnly = false := by
    rw [reqQuery_eq]
    exact ⟨rfl, rfl⟩
  rw [queryEventsOn, hplain.1, hplain.2]
  simp only [isSome_none, Bool.false_and, Bool.false_eq_true, if_false]
  split
  · rfl
  · rfl

theorem mem_candidates {rows : List Row} {fs : List Filter} {c : Filter × Row} :
    c ∈ candidates parse filters accessibleChannels reader community rows fs ↔
      c.1 ∈ fs ∧ c.2 ∈ rows ∧
        (reqQuery parse filters c.1 accessibleChannels reader community).matchesNothing = false ∧
        (reqQuery parse filters c.1 accessibleChannels reader community).whereClause c.2 =
          true := by
  induction fs with
  | nil => simp [candidates]
  | cons f fs ih =>
    rw [candidates, queryEventsOn_reqQuery]
    rw [mem_append, ih, mem_cons, or_and_right]
    refine or_congr_left ?_
    obtain ⟨g, r⟩ := c
    constructor
    · intro h
      obtain ⟨s, hs, heq⟩ := mem_map.mp h
      cases heq
      split at hs
      · nomatch hs
      · next hnothing =>
        obtain ⟨hrow, hwhere⟩ := mem_filter.mp (mem_mergeSort.mp hs)
        exact ⟨rfl, hrow, Bool.eq_false_iff.mpr hnothing, hwhere⟩
    · rintro ⟨rfl, hrow, hnothing, hwhere⟩
      refine mem_map_of_mem ?_
      rw [hnothing, if_neg Bool.false_ne_true]
      exact mem_mergeSort.mpr (mem_filter.mpr ⟨hrow, hwhere⟩)

/-- **What is delivered.** An event is sent when some filter matches it, the reader may see it and
the query of that filter selects it. -/
theorem mem_historicalDelivery_iff {rows : List Row} {id : EventId} :
    id ∈ (historicalDelivery parse filters accessibleChannels reader community rows).map
        (fun c => c.2.event.id) ↔
      ∃ f ∈ filters, ∃ r ∈ rows, r.event.id = id ∧ filterMatchOne f r.stored = true ∧
        mayRead accessibleChannels reader r = true ∧
        (reqQuery parse filters f accessibleChannels reader community).whereClause r = true := by
  rw [historicalDelivery, mem_keys_sendOnce]
  simp only [mem_candidates, acceptCandidate, Bool.and_eq_true, filtersMatch_iff,
    mem_singleton, exists_eq_left]
  constructor
  · rintro ⟨-, ⟨f, r⟩, ⟨hf, hr, -, hwhere⟩, ⟨hmatch, hread⟩, hid⟩
    exact ⟨f, hf, r, hr, hid, hmatch, hread, hwhere⟩
  · rintro ⟨f, hf, r, hr, hid, hmatch, hread, hwhere⟩
    exact ⟨not_mem_nil, ⟨f, r⟩, ⟨hf, hr, matchesNothing_of_match hmatch, hwhere⟩,
      ⟨hmatch, hread⟩, hid⟩

variable (parse) in
/-- **Pushing filters down loses no match.** What a filter matches and the reader may see is
selected by the query exactly if it is stored in the channel that the query is scoped to, if there
is one. Then it is delivered. -/
theorem pushdown_keeps_matches {rows : List Row} (hf : f ∈ filters) (hr : r ∈ rows)
    (hstored : Stored path r) (hasked : Answerable path f r)
    (hmatch : filtersMatch [f] r.stored = true)
    (hread : mayRead accessibleChannels reader r = true) :
    ((reqQuery parse filters f accessibleChannels reader r.communityId).whereClause r = true ↔
        ∀ c ∈ perFilterChannel parse filters f, r.channelId = some c) ∧
      ((∀ c ∈ perFilterChannel parse filters f, r.channelId = some c) →
        r.event.id ∈ (historicalDelivery parse filters accessibleChannels reader r.communityId
          rows).map fun c => c.2.event.id) := by
  obtain ⟨g, hg, hone⟩ := filtersMatch_iff.mp hmatch
  rw [mem_singleton.mp hg] at hone
  have hselected :
      (reqQuery parse filters f accessibleChannels reader r.communityId).whereClause r = true ↔
        ∀ c ∈ perFilterChannel parse filters f, r.channelId = some c :=
    whereClause_reqQuery_iff hstored hasked hone hread
  refine ⟨hselected, fun hscope => ?_⟩
  exact mem_historicalDelivery_iff.mpr ⟨f, hf, r, hr, rfl, hone, hread, hselected.mpr hscope⟩

end Clauses

/-! ### A message and a note -/

def roomText : String := "00000000-0000-0000-0000-000000000005"

def bobHex : String := "bbbbbbbbbbbbbbbbbbbbbbbbbbbbbbbbbbbbbbbbbbbbbbbbbbbbbbbbbbbbbbbb"

def parseRoom (s : String) : Option Uuid := if s = roomText then some 5 else none

def sampleTime : DateTime := ⟨1780000000000000000, by decide⟩

/-- A message in the channel that mentions somebody. -/
def roomMessage : Row where
  event := ⟨1, 2, 1780000000, 9, [⟨"h", [roomText]⟩, ⟨"p", [bobHex]⟩]⟩
  communityId := 0
  channelId := some 5
  createdAt := sampleTime
  dTag := none
  deletedAt := none
  mentions := [bobHex]

/-- What asks for the messages of the channel that mention him. -/
def roomFilter : Filter :=
  { Filter.new with
    kinds := some [9]
    since := some 1700000000
    untilTime := some 1790000000
    genericTags := (AList.insert pTag [bobHex] ∅).insert hTag [roomText] }

/-- A text note with an `h` tag, which does not make it the channel's. -/
def strayNote : Row where
  event := ⟨3, 2, 1780000000, 1, [⟨"h", [roomText]⟩]⟩
  communityId := 0
  channelId := none
  createdAt := sampleTime
  dTag := none
  deletedAt := none
  mentions := []

/-- What asks for everything with the tag. -/
def strayFilter : Filter := { Filter.new with genericTags := AList.insert hTag [roomText] ∅ }

theorem stored_roomMessage : Stored .event roomMessage where
  fresh := ⟨sampleTime, by decide, by decide⟩
  columns := rfl

theorem stored_strayNote : Stored .event strayNote where
  fresh := ⟨sampleTime, by decide, by decide⟩
  columns := rfl

theorem answerable_roomMessage : Answerable .event roomFilter roomMessage where
  untilTime := by
    intro u hu
    cases hu
    exact Or.inl (by decide)
  dTag := by decide
  pTag := by
    intro p hkey
    have hlookup : roomFilter.genericTags.lookup pTag = some [bobHex] := by decide
    cases hlookup.symm.trans hkey
    exact ⟨by decide, rfl⟩

/-- The message is selected and delivered. -/
theorem pushdown_keeps_roomMessage :
    (reqQuery parseRoom [roomFilter] roomFilter [5] 7 roomMessage.communityId).whereClause
        roomMessage = true ∧
      roomMessage.event.id ∈ (historicalDelivery parseRoom [roomFilter] [5] 7
        roomMessage.communityId [roomMessage]).map fun c => c.2.event.id := by
  have hlookup : roomFilter.genericTags.lookup hTag = some [roomText] := by decide
  have hscope : ∀ c ∈ perFilterChannel parseRoom [roomFilter] roomFilter,
      roomMessage.channelId = some c := by
    intro c hc
    rw [perFilterChannel, hlookup, bind_some] at hc
    dsimp only at hc
    rw [parseRoom, if_pos rfl, some_or] at hc
    exact hc
  have hf : roomFilter ∈ [roomFilter] := mem_singleton.mpr rfl
  have hr : roomMessage ∈ [roomMessage] := mem_singleton.mpr rfl
  have hmatch : filtersMatch [roomFilter] roomMessage.stored = true := by decide
  have hread : mayRead [5] 7 roomMessage = true := by decide
  have hkept := pushdown_keeps_matches parseRoom hf hr stored_roomMessage answerable_roomMessage
    hmatch hread
  exact ⟨hkept.1.mpr hscope, hkept.2 hscope⟩

/-- The note matches and may be read, but it is not selected. -/
theorem strayNote_not_selected :
    Stored .event strayNote ∧ filtersMatch [strayFilter] strayNote.stored = true ∧
      mayRead [5] 7 strayNote = true ∧
      (reqQuery parseRoom [strayFilter] strayFilter [5] 7 strayNote.communityId).whereClause
        strayNote = false :=
  ⟨stored_strayNote, by decide, by decide, by decide⟩

end Buzz.Pushdown
