import Buzz.Core.Filter
import Buzz.Lib.InvertedIndex

/-!
# The subscription registry

Active subscriptions by connection and subscription id, and five indexes for targeted fan-out. A
subscription with a channel is indexed by channel and kind, or by channel alone when one of its
filters names no kinds. A global subscription is indexed by kind and `#p` recipient when every
filter is constrained that way, else by kind, else it is a wildcard. A subscription whose filters
all have an empty list of kinds is indexed nowhere: it can match nothing.

Removal recomputes the index keys from the filters that were registered.
-/

namespace Buzz.Subscription

abbrev ConnId := Uuid

/-- The client-supplied string from a REQ message. -/
abbrev SubId := String

/-- A subscription: its filters, its community and its optional channel scope. -/
structure SubEntry where
  filters : List Filter
  communityId : CommunityId
  /-- The channel it is scoped to; `none` for a global subscription. -/
  channelId : Option Uuid
  deriving DecidableEq

abbrev SubRef := ConnId × SubId

structure IndexKey where
  channelId : Uuid
  kind : Kind
  deriving DecidableEq

/-- A community, a kind and a `#p` recipient. -/
structure GlobalPKindIndexKey where
  communityId : CommunityId
  kind : Kind
  p : String
  deriving DecidableEq

/-- The routing scope of a removed subscription. -/
structure RemovedSubscription where
  communityId : CommunityId
  channelId : Option Uuid

abbrev ConnSubs := AList fun _ : SubId => SubEntry

/-- The subscriptions and their indexes. -/
structure SubscriptionRegistry where
  subs : AList fun _ : ConnId => ConnSubs
  channelKindIndex : Multimap (CommunityId × IndexKey) SubRef
  channelWildcardIndex : Multimap (CommunityId × Uuid) SubRef
  globalKindIndex : Multimap (CommunityId × Kind) SubRef
  globalPKindIndex : Multimap GlobalPKindIndexKey SubRef
  globalWildcardIndex : Multimap CommunityId SubRef

def SubscriptionRegistry.new : SubscriptionRegistry := ⟨∅, ∅, ∅, ∅, ∅, ∅⟩

/-! ### Index keys of a filter list -/

/-- One round of the loop in `extract_kinds_from_filters`. -/
def extractKindsStep (kinds : OrderedSet Kind) (f : Filter) : Option (OrderedSet Kind) :=
  f.kinds.map kinds.insertAll

/-- The union of all kinds, or `none` if any filter lacks a list of kinds. -/
def extractKindsFromFilters (filters : List Filter) : Option (OrderedSet Kind) :=
  filters.foldlM extractKindsStep ∅

/-- One round of the loop in `extract_global_p_kind_index_keys`. -/
def extractGlobalPKindStep (communityId : CommunityId) (keys : OrderedSet GlobalPKindIndexKey)
    (filter : Filter) : Option (OrderedSet GlobalPKindIndexKey) :=
  filter.kinds.bind fun kinds =>
    if kinds = [] then some keys
    else (filter.genericTags.lookup pTag).bind fun pValues =>
      if pValues = [] then none
      else some (keys.insertAll
        (kinds.flatMap fun kind => pValues.map fun p => ⟨communityId, kind, p⟩))

/-- The keys of a filter list that is constrained by kind and `#p` throughout. -/
def extractGlobalPKindIndexKeys (communityId : CommunityId) (filters : List Filter) :
    Option (OrderedSet GlobalPKindIndexKey) :=
  filters.foldlM (extractGlobalPKindStep communityId) ∅

/-- The `p` tag values of an event, each once. -/
def eventPTagValues (event : StoredEvent) : OrderedSet String :=
  (∅ : OrderedSet String).insertAll
    ((event.event.tags.filter fun tag => tag.kind == "p").filterMap Tag.content)

namespace SubscriptionRegistry

variable (reg : SubscriptionRegistry)

/-! ### Removal -/

def entry (r : SubRef) : Option SubEntry := (reg.subs.lookup r.1).bind fun cs => cs.lookup r.2

/-- `remove_from_index`: drop a subscription from the lists its filters had put it on. -/
def removeFromIndex (r : SubRef) (e : SubEntry) : SubscriptionRegistry :=
  match e.channelId with
  | some chId =>
    match extractKindsFromFilters e.filters with
    | none => { reg with
        channelWildcardIndex := reg.channelWildcardIndex.discard (e.communityId, chId) r }
    | some kinds => { reg with
        channelKindIndex := reg.channelKindIndex.discardAll
          (kinds.items.map fun kind => (e.communityId, ⟨chId, kind⟩)) r }
  | none =>
    match extractGlobalPKindIndexKeys e.communityId e.filters with
    | some keys => { reg with globalPKindIndex := reg.globalPKindIndex.discardAll keys.items r }
    | none =>
      match extractKindsFromFilters e.filters with
      | none => { reg with
          globalWildcardIndex := reg.globalWildcardIndex.discard e.communityId r }
      | some kinds => { reg with
          globalKindIndex := reg.globalKindIndex.discardAll
            (kinds.items.map fun kind => (e.communityId, kind)) r }

/-- Remove a single subscription and clean up its index entries. -/
def removeSubscription (connId : ConnId) (subId : SubId) :
    SubscriptionRegistry × Option RemovedSubscription :=
  match reg.subs.lookup connId with
  | none => (reg, none)
  | some connSubs =>
    match connSubs.lookup subId with
    | none => (reg, none)
    | some e =>
      ({ reg with subs := reg.subs.insert connId (connSubs.erase subId) }.removeFromIndex
        (connId, subId) e, some ⟨e.communityId, e.channelId⟩)

/-- The subscriptions of a connection, in some order. -/
def connEntries (connId : ConnId) : List (Sigma fun _ : SubId => SubEntry) :=
  ((reg.subs.lookup connId).map AList.entries).getD []

/-- Remove all subscriptions of a connection. The order is that in which the connection's hash map
is iterated. -/
def removeConnection (connId : ConnId) (order : List (Sigma fun _ : SubId => SubEntry)) :
    SubscriptionRegistry × List RemovedSubscription :=
  match reg.subs.lookup connId with
  | none => (reg, [])
  | some _ =>
    (order.foldl (fun reg e => reg.removeFromIndex (connId, e.1) e.2)
        { reg with subs := reg.subs.erase connId },
      order.map fun e => ⟨e.2.communityId, e.2.channelId⟩)

/-- Remove the listed subscriptions of a connection, reporting those that were there. -/
def removeEach (connId : ConnId) :
    SubscriptionRegistry → List SubId → SubscriptionRegistry × List (SubId × RemovedSubscription)
  | reg, [] => (reg, [])
  | reg, subId :: subIds =>
    let (reg', removed) := reg.removeSubscription connId subId
    let (reg'', rest) := removeEach connId reg' subIds
    (reg'', (removed.map fun r => (subId, r)).toList ++ rest)

/-- Remove all subscriptions of a connection that are scoped to a channel in one community. -/
def removeChannelSubscriptionsScoped (communityId : CommunityId) (connId : ConnId)
    (channelId : Uuid) (order : List (Sigma fun _ : SubId => SubEntry)) :
    SubscriptionRegistry × List (SubId × RemovedSubscription) :=
  removeEach connId reg ((order.filter fun e =>
    e.2.communityId == communityId && e.2.channelId == some channelId).map Sigma.fst)

/-! ### Registration -/

/-- Put a subscription on the lists that its filters call for. -/
def addToIndex (r : SubRef) (e : SubEntry) : SubscriptionRegistry :=
  match e.channelId with
  | some chId =>
    match extractKindsFromFilters e.filters with
    | none => { reg with
        channelWildcardIndex := reg.channelWildcardIndex.push (e.communityId, chId) r }
    | some kinds => { reg with
        channelKindIndex := reg.channelKindIndex.pushAll
          (kinds.items.map fun kind => (e.communityId, ⟨chId, kind⟩)) r }
  | none =>
    match extractGlobalPKindIndexKeys e.communityId e.filters with
    | some keys => { reg with globalPKindIndex := reg.globalPKindIndex.pushAll keys.items r }
    | none =>
      match extractKindsFromFilters e.filters with
      | none => { reg with
          globalWildcardIndex := reg.globalWildcardIndex.push e.communityId r }
      | some kinds => { reg with
          globalKindIndex := reg.globalKindIndex.pushAll
            (kinds.items.map fun kind => (e.communityId, kind)) r }

/-- Register a subscription, replacing one with the same id on the connection. -/
def registerScoped (communityId : CommunityId) (connId : ConnId) (subId : SubId)
    (filters : List Filter) (channelId : Option Uuid) :
    SubscriptionRegistry × Option RemovedSubscription :=
  let (reg', removed) := reg.removeSubscription connId subId
  let connSubs := (reg'.subs.lookup connId).getD ∅
  let e : SubEntry := ⟨filters, communityId, channelId⟩
  ({ reg' with subs := reg'.subs.insert connId (connSubs.insert subId e) }.addToIndex
    (connId, subId) e, removed)

/-! ### Fan-out -/

/-- The check of `push_match` against the authoritative entry. -/
def accepts (communityId : CommunityId) (event : StoredEvent) (r : SubRef) : Bool :=
  match reg.entry r with
  | none => false
  | some e => e.communityId == communityId && e.channelId == event.channelId &&
      filtersMatch e.filters event

/-- All subscriptions whose filters match the event in one community: each candidate of the lists
that the event selects is checked, and reported once. -/
def fanOutScoped (communityId : CommunityId) (event : StoredEvent) : List SubRef :=
  let pushMatches := scan (reg.accepts communityId event)
  match event.channelId with
  | some channelId =>
    let results := pushMatches ∅
      (reg.channelKindIndex.get (communityId, ⟨channelId, event.event.kind⟩))
    (pushMatches results (reg.channelWildcardIndex.get (communityId, channelId))).items
  | none =>
    let results := (eventPTagValues event).items.foldl (fun results p =>
      pushMatches results (reg.globalPKindIndex.get ⟨communityId, event.event.kind, p⟩)) ∅
    let results := pushMatches results (reg.globalKindIndex.get (communityId, event.event.kind))
    (pushMatches results (reg.globalWildcardIndex.get communityId)).items

end SubscriptionRegistry

end Buzz.Subscription
