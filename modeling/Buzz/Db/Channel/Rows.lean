import Buzz.Db.Channel.Steps

/-!
# The rows of a channel

What calls that run alone keep: the keys of members are distinct, members have a channel, and a
channel that exists has an active owner.
-/

namespace Buzz.Channel

open List

/-! ### The rows of a channel -/

namespace ChannelDb

variable (db : ChannelDb) (k : ChannelKey)

/-- The rows of `channel_members` of a channel. -/
def membersOf : List MemberRow := db.members.filter fun r => (r.community, r.channelId) == k

variable {db k}

theorem lookup_membersOf (pubkey : Pubkey) :
    lookupKey MemberRow.key (db.membersOf k) (k, pubkey) =
      lookupKey MemberRow.key db.members (k, pubkey) := by
  rw [lookupKey, lookupKey, membersOf, find?_filter]
  refine congrFun (congrArg find? (funext fun r => ?_)) _
  by_cases hr : r.key = (k, pubkey)
  · have hk : (r.community, r.channelId) = k := congrArg Prod.fst hr
    simp [hr, hk]
  · simp [hr]

theorem ownerCount_eq_membersOf : db.ownerCount k = (db.membersOf k).countP (isOwnerOf k) := by
  rw [ownerCount, membersOf, countP_filter]
  refine congrFun (congrArg countP (funext fun r => ?_)) _
  by_cases hk : (r.community, r.channelId) = k
  · simp [isOwnerOf, hk]
  · simp [isOwnerOf, hk]

theorem filter_map_other {f : MemberRow → MemberRow} (l : List MemberRow)
    (hchannel : ∀ r, ((f r).community, (f r).channelId) = (r.community, r.channelId))
    (hother : ∀ r, (r.community, r.channelId) = k → f r = r) :
    (l.map f).filter (fun r => (r.community, r.channelId) == k) =
      l.filter fun r => (r.community, r.channelId) == k := by
  induction l with
  | nil => rfl
  | cons r l ih =>
    rw [map_cons, filter_cons, filter_cons, ih, hchannel]
    by_cases hr : (r.community, r.channelId) = k
    · rw [hother r hr]
    · rw [if_neg (by simpa using hr), if_neg (by simpa using hr)]

theorem membersOf_upsertMember {r : MemberRow} (hne : (r.community, r.channelId) ≠ k) :
    (db.upsertMember r).membersOf k = db.membersOf k := by
  rw [membersOf, membersOf, upsertMember, upsertKey]
  split
  · refine filter_map_other db.members (fun s => ?_) fun s hs => if_neg fun hkey => ?_
    · split <;> rfl
    · exact hne ((congrArg Prod.fst hkey).symm.trans hs)
  · simp [beq_false_of_ne hne]

theorem membersOf_setRemoved {k' : ChannelKey} {pubkey actor : Pubkey} {now : Int} (hne : k' ≠ k) :
    (db.setRemoved k' pubkey actor now).membersOf k = db.membersOf k := by
  refine filter_map_other db.members (fun s => ?_) fun s hs => if_neg fun hkey => ?_
  · split <;> rfl
  · exact hne ((congrArg Prod.fst hkey.1).symm.trans hs)

end ChannelDb

/-! ### Tables that calls keep -/

/-- The primary keys of members are distinct, and their channels exist. -/
structure Keyed (db : ChannelDb) : Prop where
  nodup : (db.members.map MemberRow.key).Nodup
  channel : ∀ r ∈ db.members,
    (lookupKey ChannelRow.key db.channels (r.community, r.channelId)).isSome = true

/-- The channel has an active owner, if it exists. -/
def Owned (k : ChannelKey) (db : ChannelDb) : Prop :=
  (lookupKey ChannelRow.key db.channels k).isSome = true → 0 < db.ownerCount k

variable {db db' : ChannelDb} {k : ChannelKey} {c : Call}

variable {r : MemberRow}

theorem key_rejoin : ∀ s : MemberRow, s.key = r.key → (r.rejoin s).key = r.key :=
  fun _ hs => hs

theorem mem_upsertMember {s : MemberRow} (h : s ∈ (db.upsertMember r).members) :
    s ∈ db.members ∨ (s.community, s.channelId) = (r.community, r.channelId) := by
  obtain ⟨hkey, -⟩ | ⟨-, hmem⟩ := mem_upsertKey key_rejoin rfl h
  · exact .inr (congrArg Prod.fst hkey)
  · exact .inl hmem

theorem Keyed.upsertMember (h : Keyed db)
    (hchannel : (lookupKey ChannelRow.key db.channels (r.community, r.channelId)).isSome = true) :
    Keyed (db.upsertMember r) where
  nodup := nodup_upsertKey key_rejoin rfl h.nodup
  channel s hs := by
    obtain hmem | hsame := mem_upsertMember hs
    · exact h.channel s hmem
    · rwa [hsame]

theorem Keyed.setRemoved {pubkey actor : Pubkey} {now : Int} (h : Keyed db) :
    Keyed (db.setRemoved k pubkey actor now) where
  nodup := by
    have hkeys : (db.setRemoved k pubkey actor now).members.map MemberRow.key =
        db.members.map MemberRow.key := by
      rw [ChannelDb.setRemoved, map_map]
      refine map_congr_left fun r _ => ?_
      rw [Function.comp_apply]
      split <;> rfl
    rw [hkeys]
    exact h.nodup
  channel s hs := by
    obtain ⟨r, hr, rfl⟩ := mem_map.mp hs
    have hsome := h.channel r hr
    split <;> exact hsome

theorem lookup_insertChannel (db : ChannelDb) (k : ChannelKey) (r : ChannelRow) :
    lookupKey ChannelRow.key (db.insertChannel r).channels k =
      (lookupKey ChannelRow.key db.channels k).or (if r.key = k then some r else none) := by
  rw [ChannelDb.insertChannel, lookupKey, lookupKey, find?_append, find?_singleton]
  by_cases hr : r.key = k
  · simp [hr]
  · simp [hr]

theorem Keyed.insertChannel {r : ChannelRow} (h : Keyed db) : Keyed (db.insertChannel r) where
  nodup := h.nodup
  channel s hs := by
    rw [lookup_insertChannel]
    cases hlookup : lookupKey ChannelRow.key db.channels (s.community, s.channelId) with
    | none =>
      have hsome := h.channel s hs
      rw [hlookup] at hsome
      nomatch hsome
    | some c => rfl

theorem Keyed.membersOf_eq_nil (h : Keyed db)
    (hnone : lookupKey ChannelRow.key db.channels k = none) : db.membersOf k = [] := by
  refine filter_eq_nil_iff.mpr fun r hr hk => ?_
  have hsome := h.channel r hr
  rw [beq_iff_eq.mp hk, hnone] at hsome
  nomatch hsome

/-- **Calls keep the keys.** -/
theorem Keyed.change (h : Keyed db) (hc : Change db c db') : Keyed db' := by
  have hcreated : ∀ q : CreateChannel, q.Creates db → Keyed (q.created db) := by
    intro q hq
    refine h.insertChannel.upsertMember ?_
    show (lookupKey ChannelRow.key (db.insertChannel q.row).channels q.key).isSome = true
    rw [lookup_insertChannel, show lookupKey ChannelRow.key db.channels q.key = none from hq]
    exact congrArg Option.isSome (if_pos rfl)
  cases hc with
  | create q hq | createWithId q hq => exact hcreated q hq
  | add q hq =>
    obtain ⟨⟨channel, hchannel, -⟩, -⟩ := hq
    obtain ⟨hlookup, -⟩ := Option.filter_eq_some_iff.mp hchannel
    exact h.upsertMember (congrArg Option.isSome hlookup)
  | remove q hq => exact h.setRemoved

/-! ### Calls that run alone -/

theorem ownerCount_pos_iff :
    0 < db.ownerCount k ↔ ∃ r ∈ db.members, ChannelDb.isOwnerOf k r = true :=
  countP_pos_iff

theorem isOwnerOf_iff : ChannelDb.isOwnerOf k r = true ↔
    (r.community, r.channelId) = k ∧ r.role = .owner ∧ r.removedAt = none := by
  simp [ChannelDb.isOwnerOf, and_assoc]

theorem getActiveRole_of_mem (h : Keyed db) (hr : r ∈ db.members) {pubkey : Pubkey}
    (hkey : r.key = (k, pubkey)) (hactive : r.removedAt = none) :
    db.getActiveRole k pubkey = some r.role := by
  rw [ChannelDb.getActiveRole, (lookupKey_eq_some_iff h.nodup).mpr ⟨hr, hkey⟩, Option.filter_some,
    if_pos (by rw [hactive]; rfl)]
  rfl

theorem exists_other_owner (h : Keyed db) (hcount : 2 ≤ db.ownerCount k) (pubkey : Pubkey) :
    ∃ r ∈ db.members, ChannelDb.isOwnerOf k r = true ∧ r.key ≠ (k, pubkey) := by
  by_contra hnone
  have hall : ∀ r ∈ db.members.filter (ChannelDb.isOwnerOf k), r.key = (k, pubkey) := by
    intro r hr
    obtain ⟨hmem, howner⟩ := mem_filter.mp hr
    by_contra hne
    exact hnone ⟨r, hmem, howner, hne⟩
  have hnodup : ((db.members.filter (ChannelDb.isOwnerOf k)).map MemberRow.key).Nodup :=
    h.nodup.sublist (filter_sublist.map _)
  rw [map_congr_left hall, map_const', nodup_replicate] at hnodup
  rw [ChannelDb.ownerCount, countP_eq_length_filter] at hcount
  omega

theorem mem_upsertMember_of_ne (h : Keyed db) {s : MemberRow} (hs : s ∈ db.members)
    (hne : s.key ≠ r.key) : s ∈ (db.upsertMember r).members := by
  have hlookup : lookupKey MemberRow.key (db.upsertMember r).members s.key = some s := by
    rw [ChannelDb.upsertMember, lookupKey_upsertKey_of_ne key_rejoin rfl h.nodup hne]
    exact (lookupKey_eq_some_iff h.nodup).mpr ⟨hs, rfl⟩
  exact (mem_of_lookupKey hlookup).1

theorem exists_upsertMember (h : Keyed db) (r : MemberRow) : ∃ s ∈ (db.upsertMember r).members,
    s.key = r.key ∧ s.role = r.role ∧ (s.removedAt = none ∨ s.removedAt = r.removedAt) := by
  have hlookup := lookupKey_upsertKey_self (key_rejoin (r := r)) rfl h.nodup
  refine ⟨_, (mem_of_lookupKey hlookup).1, (mem_of_lookupKey hlookup).2, ?_⟩
  cases lookupKey MemberRow.key db.members r.key with
  | none => exact ⟨rfl, .inr rfl⟩
  | some old => exact ⟨rfl, .inl rfl⟩

theorem Owned.upsertMember_owner (h : Keyed db) (hrole : r.role = .owner)
    (hactive : r.removedAt = none) (hk : (r.community, r.channelId) = k) :
    0 < (db.upsertMember r).ownerCount k := by
  obtain ⟨s, hs, hkey, hsrole, hsactive⟩ := exists_upsertMember h r
  refine ownerCount_pos_iff.mpr ⟨s, hs, isOwnerOf_iff.mpr ⟨?_, hsrole.trans hrole, ?_⟩⟩
  · exact (congrArg Prod.fst hkey).trans hk
  · rw [hactive] at hsactive
    exact hsactive.elim id id

theorem exists_owner_of_ne (h : Keyed db) (hown : 0 < db.ownerCount k) (pubkey : Pubkey)
    (hlast : db.getActiveRole k pubkey = some .owner → 2 ≤ db.ownerCount k) :
    ∃ r ∈ db.members, ChannelDb.isOwnerOf k r = true ∧ r.key ≠ (k, pubkey) := by
  obtain ⟨r, hr, howner⟩ := ownerCount_pos_iff.mp hown
  by_cases hkey : r.key = (k, pubkey)
  · obtain ⟨-, hrole, hactive⟩ := isOwnerOf_iff.mp howner
    refine exists_other_owner h (hlast ?_) pubkey
    rw [getActiveRole_of_mem h hr hkey hactive, hrole]
  · exact ⟨r, hr, howner, hkey⟩

theorem Owned.congr (h : Owned k db) (hmembers : db'.membersOf k = db.membersOf k)
    (hchannel : (lookupKey ChannelRow.key db'.channels k).isSome = true →
      (lookupKey ChannelRow.key db.channels k).isSome = true) : Owned k db' := by
  intro hsome
  rw [ChannelDb.ownerCount_eq_membersOf, hmembers, ← ChannelDb.ownerCount_eq_membersOf]
  exact h (hchannel hsome)

theorem Owned.created (h : Owned k db) (hkeyed : Keyed db) {q : CreateChannel} :
    Owned k (q.created db) := by
  by_cases hk : q.key = k
  · exact fun _ => Owned.upsertMember_owner hkeyed.insertChannel rfl rfl hk
  · refine h.congr (ChannelDb.membersOf_upsertMember hk) fun hsome => ?_
    have hlookup := lookup_insertChannel db k q.row
    rw [if_neg (show q.row.key ≠ k from hk), Option.or_none] at hlookup
    rwa [← hlookup]

/-- **Calls that run alone leave an owner.** -/
theorem Owned.change (h : Owned k db) (hkeyed : Keyed db) (hc : Change db c db') :
    Owned k db' := by
  cases hc with
  | create q hq | createWithId q hq => exact h.created hkeyed
  | add q hq =>
    by_cases hk : q.key = k
    · subst hk
      by_cases hrole : q.role = .owner
      · exact fun _ => Owned.upsertMember_owner hkeyed hrole rfl rfl
      · intro hsome
        obtain ⟨r, hr, howner, hne⟩ := exists_owner_of_ne hkeyed (h hsome) q.pubkey fun hactive =>
          (hq.2 _ hactive (Ne.symm hrole)).2 rfl
        exact ownerCount_pos_iff.mpr ⟨r, mem_upsertMember_of_ne hkeyed hr hne, howner⟩
    · exact h.congr (ChannelDb.membersOf_upsertMember hk) id
  | remove q hq =>
    by_cases hk : q.key = k
    · subst hk
      intro hsome
      obtain ⟨r, hr, howner, hne⟩ := exists_owner_of_ne hkeyed (h hsome) q.pubkey hq.2
      exact ownerCount_pos_iff.mpr
        ⟨r, mem_map.mpr ⟨r, hr, if_neg fun hkey => hne hkey.1⟩, howner⟩
    · exact h.congr (ChannelDb.membersOf_setRemoved hk) id

end Buzz.Channel
