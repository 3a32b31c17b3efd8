import Buzz.Lib.StateMachine
import Buzz.Relay.Subscription
import Mathlib.Data.List.Perm.Basic

/-!
# The subscription indexes are exact

The five indexes together are one inverted index over `Slot`, the sum of their key types, and
`placement` says under which slots an entry belongs. Registering and removing both go by
`placement`, so the lists stay exact for the current entries whatever sequence of calls led to them.

The iteration order of a connection's hash map is an argument of the two calls that iterate it, and
may be any permutation of the connection's entries.
-/

namespace Buzz.Subscription

open Function

/-! ### One index over the sum of the keys -/

/-- A list of the index. -/
inductive Slot where
  | channelKind (key : CommunityId × IndexKey)
  | channelWildcard (key : CommunityId × Uuid)
  | globalKind (key : CommunityId × Kind)
  | globalPKind (key : GlobalPKindIndexKey)
  | globalWildcard (key : CommunityId)

def SubscriptionRegistry.list (reg : SubscriptionRegistry) : Slot → List SubRef
  | .channelKind key => reg.channelKindIndex.get key
  | .channelWildcard key => reg.channelWildcardIndex.get key
  | .globalKind key => reg.globalKindIndex.get key
  | .globalPKind key => reg.globalPKindIndex.get key
  | .globalWildcard key => reg.globalWildcardIndex.get key

/-- The slots that the filters and the scope of an entry call for. -/
def placement (e : SubEntry) : List Slot :=
  match e.channelId with
  | some chId =>
    match extractKindsFromFilters e.filters with
    | none => [.channelWildcard (e.communityId, chId)]
    | some kinds => kinds.items.map fun kind => .channelKind (e.communityId, ⟨chId, kind⟩)
  | none =>
    match extractGlobalPKindIndexKeys e.communityId e.filters with
    | some keys => keys.items.map .globalPKind
    | none =>
      match extractKindsFromFilters e.filters with
      | none => [.globalWildcard e.communityId]
      | some kinds => kinds.items.map fun kind => .globalKind (e.communityId, kind)

namespace SubscriptionRegistry

variable {reg : SubscriptionRegistry} {e : SubEntry} {slot : Slot}

theorem mem_list_addToIndex {r r' : SubRef} : r' ∈ (reg.addToIndex r e).list slot ↔
      r' ∈ reg.list slot ∨ slot ∈ placement e ∧ r' = r := by
  -- one index changes, by the keys that `placement` lists; the four others stay
  cases hc : e.channelId with
  | some chId =>
    cases hk : extractKindsFromFilters e.filters with
    | none => cases slot <;> simp [addToIndex, placement, hc, hk, list, Multimap.mem_get_push]
    | some kinds => cases slot <;> simp [addToIndex, placement, hc, hk, list, Multimap.mem_get_pushAll]
  | none =>
    cases hp : extractGlobalPKindIndexKeys e.communityId e.filters with
    | some keys => cases slot <;> simp [addToIndex, placement, hc, hp, list, Multimap.mem_get_pushAll]
    | none =>
      cases hk : extractKindsFromFilters e.filters with
      | none => cases slot <;> simp [addToIndex, placement, hc, hp, hk, list, Multimap.mem_get_push]
      | some kinds =>
        cases slot <;> simp [addToIndex, placement, hc, hp, hk, list, Multimap.mem_get_pushAll]

theorem mem_list_removeFromIndex {r r' : SubRef} : r' ∈ (reg.removeFromIndex r e).list slot ↔
      r' ∈ reg.list slot ∧ ¬ (slot ∈ placement e ∧ r' = r) := by
  cases hc : e.channelId with
  | some chId =>
    cases hk : extractKindsFromFilters e.filters with
    | none => cases slot <;> simp [removeFromIndex, placement, hc, hk, list, Multimap.mem_get_discard]
    | some kinds =>
      cases slot <;> simp [removeFromIndex, placement, hc, hk, list, Multimap.mem_get_discardAll]
  | none =>
    cases hp : extractGlobalPKindIndexKeys e.communityId e.filters with
    | some keys =>
      cases slot <;> simp [removeFromIndex, placement, hc, hp, list, Multimap.mem_get_discardAll]
    | none =>
      cases hk : extractKindsFromFilters e.filters with
      | none =>
        cases slot <;> simp [removeFromIndex, placement, hc, hp, hk, list, Multimap.mem_get_discard]
      | some kinds =>
        cases slot <;> simp [removeFromIndex, placement, hc, hp, hk, list, Multimap.mem_get_discardAll]

@[simp] theorem subs_addToIndex (reg : SubscriptionRegistry) (r : SubRef) (e : SubEntry) :
    (reg.addToIndex r e).subs = reg.subs := by
  rw [addToIndex]
  repeat' split
  all_goals rfl

@[simp] theorem subs_removeFromIndex (reg : SubscriptionRegistry) (r : SubRef) (e : SubEntry) :
    (reg.removeFromIndex r e).subs = reg.subs := by
  rw [removeFromIndex]
  repeat' split
  all_goals rfl

@[simp] theorem entry_addToIndex (reg : SubscriptionRegistry) (r : SubRef) (e : SubEntry) :
    (reg.addToIndex r e).entry = reg.entry := by
  funext r'
  simp [entry]

@[simp] theorem entry_removeFromIndex (reg : SubscriptionRegistry) (r : SubRef) (e : SubEntry) :
    (reg.removeFromIndex r e).entry = reg.entry := by
  funext r'
  simp [entry]

/-! ### What an operation does to the entries

The indexes aside, the registry is a partial map from subscriptions to entries, and each operation
updates it as its name says. -/

/-- Every list holds the current entries placed under it, and nothing else. -/
def IndexesExact (reg : SubscriptionRegistry) : Prop := Exact reg.list reg.entry placement

variable {connId : ConnId}

theorem removeSubscription_of_none {subId : SubId} (h : reg.entry (connId, subId) = none) :
    (reg.removeSubscription connId subId).1 = reg := by
  rw [removeSubscription]
  cases hconn : reg.subs.lookup connId with
  | none => rfl
  | some connSubs =>
    have hsub : connSubs.lookup subId = none := by simpa [entry, hconn] using h
    simp only [hsub]

theorem removeSubscription_of_some {subId : SubId} (h : reg.entry (connId, subId) = some e) :
    ∃ connSubs, reg.subs.lookup connId = some connSubs ∧
      (reg.removeSubscription connId subId).1 =
        { reg with subs := reg.subs.insert connId (connSubs.erase subId) }.removeFromIndex
          (connId, subId) e := by
  cases hconn : reg.subs.lookup connId with
  | none => simp [entry, hconn] at h
  | some connSubs =>
    have hsub : connSubs.lookup subId = some e := by simpa [entry, hconn] using h
    exact ⟨connSubs, rfl, by simp only [removeSubscription, hconn, hsub]⟩

/-- `remove_subscription` removes the entry and nothing else. -/
theorem entry_removeSubscription (reg : SubscriptionRegistry) (connId : ConnId) (subId : SubId) :
    (reg.removeSubscription connId subId).1.entry =
      update reg.entry (connId, subId) none := by
  cases h : reg.entry (connId, subId) with
  | none => rw [removeSubscription_of_none h, ← h, update_eq_self]
  | some e =>
    obtain ⟨connSubs, hconn, hreg⟩ := removeSubscription_of_some h
    rw [hreg, entry_removeFromIndex]
    funext ⟨c, i⟩
    by_cases hc : c = connId
    · subst hc
      by_cases hi : i = subId
      · subst hi
        simp [entry]
      · simp [entry, hconn, AList.lookup_erase_ne hi, hi]
    · simp [entry, AList.lookup_insert_ne hc, hc]

theorem IndexesExact.removeSubscription (h : reg.IndexesExact) (connId : ConnId) (subId : SubId) :
    (reg.removeSubscription connId subId).1.IndexesExact := by
  cases he : reg.entry (connId, subId) with
  | none =>
    rwa [removeSubscription_of_none he]
  | some e =>
    obtain ⟨connSubs, -, hreg⟩ := removeSubscription_of_some he
    rw [IndexesExact, entry_removeSubscription, hreg]
    exact Exact.remove h he fun slot r' => mem_list_removeFromIndex

/-- `register_scoped` replaces the entry and nothing else. -/
theorem entry_registerScoped (reg : SubscriptionRegistry) (communityId : CommunityId)
    (connId : ConnId) (subId : SubId) (filters : List Filter) (channelId : Option Uuid) :
    (reg.registerScoped communityId connId subId filters channelId).1.entry =
      update reg.entry (connId, subId) (some ⟨filters, communityId, channelId⟩) := by
  have hrem := entry_removeSubscription reg connId subId
  rw [registerScoped]
  funext ⟨c, i⟩
  by_cases hc : c = connId
  · subst hc
    by_cases hi : i = subId
    · subst hi
      simp [entry]
    · have hrest := congrFun hrem (c, i)
      rw [update_of_ne (by simp [hi])] at hrest ⊢
      rw [← hrest]
      cases hconn : (reg.removeSubscription c subId).1.subs.lookup c <;>
        simp [entry, hconn, AList.lookup_insert_ne hi, -AList.insert_empty]
  · have hrest := congrFun hrem (c, i)
    rw [update_of_ne (by simp [hc])] at hrest ⊢
    rw [← hrest]
    simp [entry, AList.lookup_insert_ne hc]

theorem IndexesExact.registerScoped (h : reg.IndexesExact) (communityId : CommunityId)
    (connId : ConnId) (subId : SubId) (filters : List Filter) (channelId : Option Uuid) :
    (reg.registerScoped communityId connId subId filters channelId).1.IndexesExact := by
  have hrem := h.removeSubscription connId subId
  have hentry := entry_removeSubscription reg connId subId
  have hnone : (reg.removeSubscription connId subId).1.entry (connId, subId) = none := by
    simp [hentry]
  have hlist : ∀ slot r',
      r' ∈ (reg.registerScoped communityId connId subId filters channelId).1.list slot ↔
        r' ∈ (reg.removeSubscription connId subId).1.list slot ∨
          slot ∈ placement ⟨filters, communityId, channelId⟩ ∧ r' = (connId, subId) :=
    fun slot r' => mem_list_addToIndex
  have hins := Exact.insert hrem hnone hlist
  rw [hentry, update_idem] at hins
  rwa [IndexesExact, entry_registerScoped]

theorem mem_connEntries {e : Sigma fun _ : SubId => SubEntry} :
    e ∈ reg.connEntries connId ↔ reg.entry (connId, e.1) = some e.2 := by
  cases hconn : reg.subs.lookup connId with
  | none => simp [connEntries, entry, hconn]
  | some connSubs =>
    simpa [connEntries, entry, hconn] using AList.mem_lookup_iff.symm

theorem entry_foldl_removeFromIndex (reg : SubscriptionRegistry) (connId : ConnId)
    (order : List (Sigma fun _ : SubId => SubEntry)) :
    (order.foldl (fun reg e => reg.removeFromIndex (connId, e.1) e.2) reg).entry = reg.entry := by
  induction order generalizing reg with
  | nil => rfl
  | cons e order ih => rw [List.foldl_cons, ih, entry_removeFromIndex]

/-- `remove_connection` removes the entries of the connection and nothing else. -/
theorem entry_removeConnection (reg : SubscriptionRegistry) (connId : ConnId)
    (order : List (Sigma fun _ : SubId => SubEntry)) (r : SubRef) :
    (reg.removeConnection connId order).1.entry r =
      if r.1 = connId then none else reg.entry r := by
  obtain ⟨c, i⟩ := r
  rw [removeConnection]
  by_cases hc : c = connId
  · subst hc
    cases hconn : reg.subs.lookup c with
    | none => simp [entry, hconn]
    | some connSubs =>
      simp only [entry_foldl_removeFromIndex]
      simp [entry]
  · cases hconn : reg.subs.lookup connId with
    | none => simp [hc]
    | some connSubs =>
      simp only [entry_foldl_removeFromIndex]
      simp [entry, AList.lookup_erase_ne hc, hc]

variable {order : List (Sigma fun _ : SubId => SubEntry)}

theorem mem_list_foldl_removeFromIndex {r' : SubRef} :
    r' ∈ (order.foldl (fun reg e => reg.removeFromIndex (connId, e.1) e.2) reg).list slot ↔
      r' ∈ reg.list slot ∧ ∀ e ∈ order, ¬ (slot ∈ placement e.2 ∧ r' = (connId, e.1)) := by
  induction order generalizing reg with
  | nil => simp
  | cons e order ih =>
    simp [ih, mem_list_removeFromIndex, and_assoc]

theorem IndexesExact.removeConnection (h : reg.IndexesExact)
    (horder : order.Perm (reg.connEntries connId)) :
    (reg.removeConnection connId order).1.IndexesExact := by
  rintro slot ⟨c, i⟩
  simp only [entry_removeConnection]
  cases hconn : reg.subs.lookup connId with
  | none =>
    rw [show (reg.removeConnection connId order).1 = reg by
      rw [SubscriptionRegistry.removeConnection, hconn], h slot (c, i)]
    by_cases hc : c = connId
    · subst hc
      have hnone : reg.entry (c, i) = none := by simp [entry, hconn]
      rw [if_pos rfl, hnone]
    · rw [if_neg hc]
  | some connSubs =>
    rw [show (reg.removeConnection connId order).1 =
        order.foldl (fun reg e => reg.removeFromIndex (connId, e.1) e.2)
          { reg with subs := reg.subs.erase connId } by
      rw [SubscriptionRegistry.removeConnection, hconn], mem_list_foldl_removeFromIndex]
    constructor
    · rintro ⟨hlist, hnot⟩
      obtain ⟨e, he, hplace⟩ := (h slot (c, i)).mp hlist
      have hc : c ≠ connId := by
        rintro rfl
        exact hnot ⟨i, e⟩ (horder.mem_iff.mpr (mem_connEntries.mpr he)) ⟨hplace, rfl⟩
      exact ⟨e, by rw [if_neg hc]; exact he, hplace⟩
    · rintro ⟨e, he, hplace⟩
      by_cases hc : c = connId
      · rw [if_pos hc] at he
        nomatch he
      · rw [if_neg hc] at he
        exact ⟨(h slot (c, i)).mpr ⟨e, he, hplace⟩, fun e' _ hbad => hc (congrArg Prod.fst hbad.2)⟩

theorem IndexesExact.removeEach (h : reg.IndexesExact) (connId : ConnId) (subIds : List SubId) :
    (reg.removeEach connId subIds).1.IndexesExact := by
  induction subIds generalizing reg with
  | nil => exact h
  | cons subId subIds ih => exact ih (h.removeSubscription connId subId)

end SubscriptionRegistry

/-! ### Runs -/

open SubscriptionRegistry

/-- A call that changes the registry. The order lists a connection's subscriptions as the call's
iteration over the hash map meets them. -/
inductive Action where
  | registerScoped (communityId : CommunityId) (connId : ConnId) (subId : SubId)
      (filters : List Filter) (channelId : Option Uuid)
  | removeSubscription (connId : ConnId) (subId : SubId)
  | removeConnection (connId : ConnId) (order : List (Sigma fun _ : SubId => SubEntry))
  | removeChannelSubscriptionsScoped (communityId : CommunityId) (connId : ConnId)
      (channelId : Uuid) (order : List (Sigma fun _ : SubId => SubEntry))

def step (reg : SubscriptionRegistry) : Action → Option SubscriptionRegistry
  | .registerScoped communityId connId subId filters channelId =>
    some (reg.registerScoped communityId connId subId filters channelId).1
  | .removeSubscription connId subId => some (reg.removeSubscription connId subId).1
  | .removeConnection connId order =>
    if order.Perm (reg.connEntries connId) then some (reg.removeConnection connId order).1 else none
  | .removeChannelSubscriptionsScoped communityId connId channelId order =>
    if order.Perm (reg.connEntries connId) then
      some (reg.removeChannelSubscriptionsScoped communityId connId channelId order).1
    else none

/-- The calls on a registry, starting from the empty one. -/
def calls : StateMachine SubscriptionRegistry Action where
  Init reg := reg = SubscriptionRegistry.new
  step := step

theorem indexesExact_new : SubscriptionRegistry.new.IndexesExact := by
  intro slot r
  cases slot <;> simp [SubscriptionRegistry.new, SubscriptionRegistry.list, entry]

theorem SubscriptionRegistry.IndexesExact.step {reg reg' : SubscriptionRegistry} {a : Action}
    (h : reg.IndexesExact)
    (hs : step reg a = some reg') : reg'.IndexesExact := by
  cases a with
  | registerScoped communityId connId subId filters channelId =>
    cases hs
    exact h.registerScoped communityId connId subId filters channelId
  | removeSubscription connId subId =>
    cases hs
    exact h.removeSubscription connId subId
  | removeConnection connId order =>
    obtain ⟨horder, hreg⟩ := Option.ite_none_right_eq_some.mp hs
    cases hreg
    exact h.removeConnection horder
  | removeChannelSubscriptionsScoped communityId connId channelId order =>
    obtain ⟨-, hreg⟩ := Option.ite_none_right_eq_some.mp hs
    cases hreg
    exact h.removeEach connId _

/-- **The indexes stay exact**, whatever calls are made. -/
theorem exact_of_reachable {reg : SubscriptionRegistry} (h : calls.Reachable reg) :
    reg.IndexesExact := by
  refine h.invariant (I := fun reg => reg.IndexesExact) ?_ fun s a s' _ hI hs => hI.step hs
  rintro _ rfl
  exact indexesExact_new

end Buzz.Subscription
