import Buzz.Relay.SubscriptionExact

/-!
# Indexed fan-out is the plain scan

Fan-out looks at two lists for a channel event, and at one list for each `#p` recipient and two more
for a global event. That is enough: an event that the filters of an entry match selects one of the
slots the entry was placed under, whichever index that is in. A filter list without a wildcard
filter names the kind of every event it matches, and one constrained by `#p` throughout names one of
its recipients.
-/

namespace Buzz.Subscription

open List

/-! ### The keys of a filter list -/

variable {filters : List Filter} {kinds : OrderedSet Kind}

theorem extractKinds_foldlM {acc : OrderedSet Kind}
    (h : filters.foldlM extractKindsStep acc = some kinds) (kind : Kind) :
    kind ∈ kinds ↔
      kind ∈ acc ∨ ∃ f ∈ filters, ∃ ks, f.kinds = some ks ∧ kind ∈ ks := by
  induction filters generalizing acc with
  | nil =>
    obtain rfl : acc = kinds := by simpa using h
    simp
  | cons f fs ih =>
    rw [foldlM_cons] at h
    obtain ⟨acc', hstep, hrest⟩ := Option.bind_eq_some_iff.mp h
    obtain ⟨ks, hks, rfl⟩ := Option.map_eq_some_iff.mp hstep
    rw [ih hrest, OrderedSet.mem_insertAll]
    simp [hks, or_assoc]

theorem extractKinds_foldlM_isSome {acc : OrderedSet Kind}
    (h : filters.foldlM extractKindsStep acc = some kinds) : ∀ f ∈ filters, f.kinds ≠ none := by
  induction filters generalizing acc with
  | nil => simp
  | cons f fs ih =>
    rw [foldlM_cons] at h
    obtain ⟨acc', hstep, hrest⟩ := Option.bind_eq_some_iff.mp h
    obtain ⟨ks, hks, -⟩ := Option.map_eq_some_iff.mp hstep
    refine forall_mem_cons.mpr ⟨?_, ih hrest⟩
    rw [hks]
    exact Option.some_ne_none ks

/-- The extracted kinds are those that some filter lists. -/
theorem mem_extractKindsFromFilters (h : extractKindsFromFilters filters = some kinds)
    (kind : Kind) : kind ∈ kinds ↔ ∃ f ∈ filters, ∃ ks, f.kinds = some ks ∧ kind ∈ ks := by
  rw [extractKinds_foldlM h]
  simp

variable {event : StoredEvent}

theorem kind_mem_of_filtersMatch (h : extractKindsFromFilters filters = some kinds)
    (hmatch : filtersMatch filters event = true) : event.event.kind ∈ kinds := by
  obtain ⟨f, hf, hmatch⟩ := filtersMatch_iff.mp hmatch
  obtain ⟨ks, hks⟩ := Option.ne_none_iff_exists'.mp (extractKinds_foldlM_isSome h f hf)
  exact (mem_extractKindsFromFilters h _).mpr ⟨f, hf, ks, hks, kind_mem_of_filterMatchOne hmatch hks⟩

variable {communityId : CommunityId}

theorem extractGlobalPKindStep_eq_some {acc acc' : OrderedSet GlobalPKindIndexKey} {f : Filter}
    (h : extractGlobalPKindStep communityId acc f = some acc') :
    (f.kinds = some [] ∧ acc' = acc) ∨
      ∃ ks values, f.kinds = some ks ∧ f.genericTags.lookup pTag = some values ∧
        ∀ key, key ∈ acc' ↔ key ∈ acc ∨
          key.communityId = communityId ∧ key.kind ∈ ks ∧ key.p ∈ values := by
  obtain ⟨ks, hks, h⟩ := Option.bind_eq_some_iff.mp h
  by_cases hnil : ks = []
  · rw [if_pos hnil] at h
    exact Or.inl ⟨hnil ▸ hks, (Option.some.inj h).symm⟩
  · rw [if_neg hnil] at h
    obtain ⟨values, hvalues, h⟩ := Option.bind_eq_some_iff.mp h
    by_cases hempty : values = []
    · rw [if_pos hempty] at h
      nomatch h
    · rw [if_neg hempty] at h
      refine Or.inr ⟨ks, values, hks, hvalues, fun key => ?_⟩
      rw [← Option.some.inj h, OrderedSet.mem_insertAll]
      refine or_congr_right ?_
      simp only [mem_flatMap, mem_map]
      constructor
      · rintro ⟨kind, hkind, p, hp, rfl⟩
        exact ⟨rfl, hkind, hp⟩
      · rintro ⟨rfl, hkind, hp⟩
        exact ⟨key.kind, hkind, key.p, hp, rfl⟩

variable {keys : OrderedSet GlobalPKindIndexKey}

theorem extractGlobalPKind_foldlM {acc : OrderedSet GlobalPKindIndexKey}
    (h : filters.foldlM (extractGlobalPKindStep communityId) acc = some keys) :
    (∀ key ∈ acc, key ∈ keys) ∧
      ∀ f ∈ filters, f.kinds = some [] ∨ ∃ ks values, f.kinds = some ks ∧
        f.genericTags.lookup pTag = some values ∧
          ∀ kind ∈ ks, ∀ p ∈ values, (⟨communityId, kind, p⟩ : GlobalPKindIndexKey) ∈ keys := by
  induction filters generalizing acc with
  | nil =>
    obtain rfl : acc = keys := by simpa using h
    simp
  | cons f fs ih =>
    rw [foldlM_cons] at h
    obtain ⟨acc', hstep, hrest⟩ := Option.bind_eq_some_iff.mp h
    obtain ⟨hacc, hfs⟩ := ih hrest
    rcases extractGlobalPKindStep_eq_some hstep with ⟨hnil, rfl⟩ | ⟨ks, values, hks, hvalues, hmem⟩
    · exact ⟨hacc, forall_mem_cons.mpr ⟨Or.inl hnil, hfs⟩⟩
    · refine ⟨fun key hkey => hacc key ((hmem key).mpr (Or.inl hkey)),
        forall_mem_cons.mpr ⟨Or.inr ⟨ks, values, hks, hvalues, ?_⟩, hfs⟩⟩
      exact fun kind hkind p hp => hacc _ ((hmem _).mpr (Or.inr ⟨rfl, hkind, hp⟩))

theorem mem_eventPTagValues {v : String} :
    v ∈ eventPTagValues event ↔ event.hasTag "p" v = true := by
  simp [eventPTagValues, OrderedSet.mem_insertAll, StoredEvent.hasTag_iff, OrderedSet.notMem_empty,
    false_or, and_assoc]

theorem exists_p_of_filtersMatch (h : extractGlobalPKindIndexKeys communityId filters = some keys)
    (hmatch : filtersMatch filters event = true) :
    ∃ p ∈ eventPTagValues event,
      (⟨communityId, event.event.kind, p⟩ : GlobalPKindIndexKey) ∈ keys := by
  obtain ⟨f, hf, hmatch⟩ := filtersMatch_iff.mp hmatch
  rcases (extractGlobalPKind_foldlM h).2 f hf with hnil | ⟨ks, values, hks, hvalues, hkeys⟩
  · nomatch (kind_mem_of_filterMatchOne hmatch hnil)
  · obtain ⟨p, hp, htag⟩ := hasTag_of_filterMatchOne hmatch hvalues (by decide)
    exact ⟨p, mem_eventPTagValues.mpr htag, hkeys _ (kind_mem_of_filterMatchOne hmatch hks) p hp⟩

/-! ### Fan-out -/

/-- The slots that an event selects, in the order in which fan-out looks at them. -/
def lookups (communityId : CommunityId) (event : StoredEvent) : List Slot :=
  match event.channelId with
  | some channelId =>
    [.channelKind (communityId, ⟨channelId, event.event.kind⟩),
      .channelWildcard (communityId, channelId)]
  | none =>
    ((eventPTagValues event).items.map fun p =>
        .globalPKind ⟨communityId, event.event.kind, p⟩) ++
      [.globalKind (communityId, event.event.kind), .globalWildcard communityId]

/-- **A match is always found.** Filters that match an event place their entry under a slot that
the event selects. -/
theorem exists_lookup_of_filtersMatch {e : SubEntry} (hscope : e.channelId = event.channelId)
    (hmatch : filtersMatch e.filters event = true) :
    ∃ slot ∈ lookups e.communityId event, slot ∈ placement e := by
  rw [lookups, ← hscope]
  cases hc : e.channelId with
  | some chId =>
    cases hk : extractKindsFromFilters e.filters with
    | none => exact ⟨.channelWildcard (e.communityId, chId), by simp, by simp [placement, hc, hk]⟩
    | some kinds =>
      have hkind := kind_mem_of_filtersMatch hk hmatch
      exact ⟨.channelKind (e.communityId, ⟨chId, event.event.kind⟩), by simp,
        by simpa [placement, hc, hk] using hkind⟩
  | none =>
    cases hp : extractGlobalPKindIndexKeys e.communityId e.filters with
    | some keys =>
      obtain ⟨p, hp', hkey⟩ := exists_p_of_filtersMatch hp hmatch
      exact ⟨.globalPKind ⟨e.communityId, event.event.kind, p⟩, by simpa using hp',
        by simpa [placement, hc, hp] using hkey⟩
    | none =>
      cases hk : extractKindsFromFilters e.filters with
      | none => exact ⟨.globalWildcard e.communityId, by simp, by simp [placement, hc, hp, hk]⟩
      | some kinds =>
        have hkind := kind_mem_of_filtersMatch hk hmatch
        exact ⟨.globalKind (e.communityId, event.event.kind), by simp,
          by simpa [placement, hc, hp, hk] using hkind⟩

namespace SubscriptionRegistry

theorem fanOutScoped_eq_scan (reg : SubscriptionRegistry) (communityId : CommunityId)
    (event : StoredEvent) : reg.fanOutScoped communityId event =
      (scan (reg.accepts communityId event) ∅
        ((lookups communityId event).flatMap reg.list)).items := by
  rw [fanOutScoped, lookups]
  cases event.channelId with
  | some channelId => simp [scan_append, list]
  | none =>
    have hfold : ∀ (ps : List String) (s : OrderedSet SubRef),
        scan (reg.accepts communityId event) s ((ps.map fun p => Slot.globalPKind
          ⟨communityId, event.event.kind, p⟩).flatMap reg.list) =
        ps.foldl (fun results p => scan (reg.accepts communityId event) results
          (reg.globalPKindIndex.get ⟨communityId, event.event.kind, p⟩)) s := by
      intro ps
      induction ps with
      | nil => exact fun _ => rfl
      | cons p ps ih =>
        intro s
        rw [map_cons, flatMap_cons, scan_append, ih]
        rfl
    simp [scan_append, hfold, list]

theorem accepts_iff {reg : SubscriptionRegistry} {communityId : CommunityId} {event : StoredEvent}
    {r : SubRef} : reg.accepts communityId event r = true ↔ ∃ e, reg.entry r = some e ∧
      e.communityId = communityId ∧ e.channelId = event.channelId ∧
        filtersMatch e.filters event = true := by
  rw [accepts]
  cases reg.entry r with
  | none => simp
  | some e => simp [and_assoc]

end SubscriptionRegistry

/-- **Indexed fan-out is the plain scan.** After any sequence of calls, fan-out reports each
subscription at most once, and exactly those whose current entry has the community and the channel
scope of the event and filters that match it; and every pair on an index list is a live subscription
that its current entry places there. -/
theorem fanOutScoped_exact {reg : SubscriptionRegistry} (h : calls.Reachable reg) :
    (∀ communityId event, (reg.fanOutScoped communityId event).Nodup ∧
      ∀ r, r ∈ reg.fanOutScoped communityId event ↔ ∃ e, reg.entry r = some e ∧
        e.communityId = communityId ∧ e.channelId = event.channelId ∧
          filtersMatch e.filters event = true) ∧
    ∀ slot r, r ∈ reg.list slot → ∃ e, reg.entry r = some e ∧ slot ∈ placement e := by
  have hexact := exact_of_reachable h
  refine ⟨fun communityId event => ⟨?_, fun r => ?_⟩, fun slot r => (hexact slot r).mp⟩
  · rw [SubscriptionRegistry.fanOutScoped_eq_scan]
    exact OrderedSet.nodup _
  · rw [SubscriptionRegistry.fanOutScoped_eq_scan, OrderedSet.mem_items, hexact.mem_scan_iff,
      SubscriptionRegistry.accepts_iff]
    intro r hr
    obtain ⟨e, he, rfl, hscope, hmatch⟩ := SubscriptionRegistry.accepts_iff.mp hr
    exact ⟨e, he, exists_lookup_of_filtersMatch hscope hmatch⟩

/-- A subscription placed by kind and recipient is replaced by one placed by kind, and another one
is removed. -/
def replaceRun : List Action :=
  let byRecipient : Filter := { Filter.new with
    kinds := some [1], genericTags := AList.singleton pTag ["alice"] }
  [.registerScoped 1 10 "a" [byRecipient, { byRecipient with kinds := some [7] }] none,
    .registerScoped 1 10 "b" [Filter.new] (some 5),
    .registerScoped 1 10 "a" [byRecipient, { Filter.new with kinds := some [1, 2] }] none,
    .removeSubscription 10 "b"]

def noteEvent : StoredEvent := ⟨⟨0, 0, 0, 1, []⟩, none⟩

theorem fanOutScoped_exact_replaceRun : ∃ reg, calls.run SubscriptionRegistry.new replaceRun =
    some reg ∧ (10, "a") ∈ reg.fanOutScoped 1 noteEvent ∧ ∀ slot, (10, "b") ∉ reg.list slot := by
  have hrun : (calls.run SubscriptionRegistry.new replaceRun).any (fun reg =>
      reg.accepts 1 noteEvent (10, "a") && (reg.entry (10, "b")).isNone) = true := by
    decide +kernel
  obtain ⟨reg, hreg, hcheck⟩ := (Option.any_eq_true _ _).mp hrun
  obtain ⟨ha, hb⟩ := Bool.and_eq_true_iff.mp hcheck
  have hreach : calls.Reachable reg := ⟨_, _, rfl, hreg⟩
  have hexact := fanOutScoped_exact hreach
  refine ⟨reg, hreg, ((hexact.1 1 noteEvent).2 _).mpr ?_, fun slot hmem => ?_⟩
  · exact SubscriptionRegistry.accepts_iff.mp ha
  · obtain ⟨e, he, -⟩ := hexact.2 slot _ hmem
    rw [he] at hb
    nomatch hb

end Buzz.Subscription
