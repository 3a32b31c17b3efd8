import Buzz.Relay.Audio.Room

/-!
# Index safety of audio rooms

The indices of the peers and the free ones together are the *ledger* of a room. A call permutes the
ledger, or adds one index to it that was not there, so an index is never owned twice. The allocator
stops below 255, but a caller may bring 255 in, and a released 255 comes out of the allocator.
-/

namespace Buzz.Audio

open List Option

namespace Room

def ids (r : Room) : List Uuid := r.peers.map AudioPeer.peerId

def indices (r : Room) : List Nat := r.peers.map AudioPeer.peerIndex

/-- The indices of the peers, then the free ones. -/
def ledger (r : Room) : List Nat := r.indices ++ r.guard.free

/-- When `add_peer_at_index` does not admit a peer. -/
def Refuses (r : Room) (requestedVersion : Nat) (peerIndex : UInt8) : Prop :=
  r.guard.ended = true ∨ maxPeersPerRoom ≤ r.peers.length ∨ peerIndex.toNat ∈ r.indices ∨
    (r.guard.mismatch requestedVersion).isSome = true

instance (r : Room) (requestedVersion : Nat) (peerIndex : UInt8) :
    Decidable (r.Refuses requestedVersion peerIndex) :=
  inferInstanceAs (Decidable (_ ∨ _))

/-- A call is rejected: it returns an error, or finds no peer. -/
def Rejects (r : Room) : Call → Prop
  | .addPeer peerId pubkey requestedVersion =>
    ∃ error, (r.addPeer peerId pubkey requestedVersion).2 = .error error
  | .addPeerAtIndex peerId pubkey requestedVersion peerIndex =>
    ∃ error, (r.addPeerAtIndex peerId pubkey requestedVersion peerIndex).2 = .error error
  | .removePeer peerId => peerId ∉ r.ids
  | .removePeerAndCheckEnded peerId => (r.removePeerAndCheckEnded peerId).2 = none
  | .markEnded => False
  | .clearEnded => False

end Room

/-- The call does not bring the index 255 into the room. -/
def Call.InRange (r : Room) : Call → Prop
  | .addPeerAtIndex _ _ requestedVersion peerIndex =>
    peerIndex = 255 → r.Refuses requestedVersion peerIndex
  | _ => True

instance (r : Room) (c : Call) : Decidable (c.InRange r) :=
  match c with
  | .addPeerAtIndex .. => inferInstanceAs (Decidable (_ → _))
  | .addPeer .. | .removePeer _ | .removePeerAndCheckEnded _ | .markEnded | .clearEnded =>
    isTrue trivial

variable {r r' : Room}

/-! ### The allocator -/

variable {g : Guard} {idx : Nat}

theorem alloc_eq_some {g' : Guard} (h : g.alloc = some (idx, g')) :
    g.free = idx :: g'.free ∧ g'.nextFresh = g.nextFresh ∨
      g.free = [] ∧ g'.free = [] ∧ idx = g.nextFresh ∧ g.nextFresh ≠ 255 ∧
        g'.nextFresh = g.nextFresh + 1 := by
  rw [Guard.alloc] at h
  split at h
  · next i free hfree =>
    obtain ⟨rfl, rfl⟩ := Prod.mk.inj (some.inj h)
    exact .inl ⟨hfree, rfl⟩
  · next hfree =>
    split at h
    · nomatch h
    · next hne =>
      obtain ⟨rfl, rfl⟩ := Prod.mk.inj (some.inj h)
      exact .inr ⟨hfree, hfree, rfl, hne, rfl⟩

/-! ### The calls -/

theorem erase_ledger (hids : r.ids.Nodup) {peer : AudioPeer} (hpeer : peer ∈ r.peers) :
    (r.erase peer).ledger.Perm r.ledger := by
  have hperm := (perm_cons_filter_key hids hpeer).map AudioPeer.peerIndex
  show List.Perm ((r.peers.filter fun p => p.peerId != peer.peerId).map AudioPeer.peerIndex ++
    peer.peerIndex :: r.guard.free) (r.peers.map AudioPeer.peerIndex ++ r.guard.free)
  exact perm_middle.trans (hperm.symm.append_right r.guard.free)

theorem erase_sublist (peer : AudioPeer) : (r.erase peer).ids.Sublist r.ids :=
  filter_sublist.map AudioPeer.peerId

theorem addPeer_cases (peerId : Uuid) (pubkey : String) (requestedVersion : Nat) :
    (∃ error, r.addPeer peerId pubkey requestedVersion = (r, .error error)) ∨
      ∃ idx g, r.guard.alloc = some (idx, g) ∧
        r.addPeer peerId pubkey requestedVersion =
          (r.insert (g.pin requestedVersion) ⟨peerId, pubkey, idx⟩, .ok idx) := by
  rw [Room.addPeer]
  split
  · exact .inl ⟨_, rfl⟩
  split
  · exact .inl ⟨_, rfl⟩
  split
  · exact .inl ⟨_, rfl⟩
  split
  · exact .inl ⟨_, rfl⟩
  · next idx g halloc => exact .inr ⟨idx, g, halloc, rfl⟩

theorem addPeerAtIndex_cases (peerId : Uuid) (pubkey : String) (requestedVersion : Nat)
    (peerIndex : UInt8) :
    r.Refuses requestedVersion peerIndex ∧
        (∃ error, r.addPeerAtIndex peerId pubkey requestedVersion peerIndex = (r, .error error)) ∨
      ¬ r.Refuses requestedVersion peerIndex ∧
        r.addPeerAtIndex peerId pubkey requestedVersion peerIndex =
          (r.insert ((r.guard.pin requestedVersion).take peerIndex.toNat)
            ⟨peerId, pubkey, peerIndex.toNat⟩, .ok ()) := by
  have hany : (r.peers.any fun p => p.peerIndex == peerIndex.toNat) = true ↔
      peerIndex.toNat ∈ r.indices := by
    simp [Room.indices]
  rw [Room.addPeerAtIndex, Room.Refuses]
  split
  · next hended => exact .inl ⟨.inl hended, _, rfl⟩
  · next hended =>
    split
    · next hfull => exact .inl ⟨.inr (or_assoc.mp (.inl (hfull.imp_right hany.mp))), _, rfl⟩
    · next hfull =>
      split
      · next error hver =>
        exact .inl ⟨.inr (.inr (.inr (by rw [hver]; rfl))), _, rfl⟩
      · next hver =>
        refine .inr ⟨?_, rfl⟩
        rw [hver]
        rintro (h | h | h | h)
        · exact hended h
        · exact hfull (.inl h)
        · exact hfull (.inr (hany.mpr h))
        · nomatch h

theorem removePeer_cases (peerId : Uuid) :
    peerId ∉ r.ids ∧ r.removePeer peerId = r ∨
      ∃ peer ∈ r.peers, peer.peerId = peerId ∧ r.removePeer peerId = r.erase peer := by
  rw [Room.removePeer]
  split
  · next peer hfind =>
    obtain ⟨hmem, hid⟩ := mem_of_lookupKey hfind
    exact .inr ⟨peer, hmem, hid, rfl⟩
  · next hfind =>
    refine .inl ⟨fun hmem => ?_, rfl⟩
    obtain ⟨p, hp, hid⟩ := mem_map.mp hmem
    exact lookupKey_eq_none_iff.mp hfind p hp hid

theorem removePeerAndCheckEnded_cases (peerId : Uuid) :
    r.removePeerAndCheckEnded peerId = (r, none) ∨
      ∃ peer ∈ r.peers, ∃ ended result,
        r.removePeerAndCheckEnded peerId =
          ({ r.erase peer with guard := { (r.erase peer).guard with ended := ended } },
            some result) := by
  rw [Room.removePeerAndCheckEnded]
  split
  · next peer hfind =>
    refine .inr ⟨peer, (mem_of_lookupKey hfind).1, ?_⟩
    dsimp only
    split
    · exact ⟨true, (peer.peerIndex, true), rfl⟩
    · exact ⟨(r.erase peer).guard.ended, (peer.peerIndex, false), rfl⟩
  · exact .inl rfl

/-! ### One call -/

variable {c : Call}

/-- The three things that a call can do to the ledger: it permutes it, it adds the counter, or it
adds the index of the caller in the place of a free one. -/
theorem step_ledger (hids : r.ids.Nodup) (h : r.step c = some r') :
    r'.ledger.Perm r.ledger ∧ r'.guard.nextFresh = r.guard.nextFresh ∨
      r'.ledger.Perm (r.guard.nextFresh :: r.ledger) ∧ r.guard.nextFresh ≠ 255 ∧
        r'.guard.nextFresh = r.guard.nextFresh + 1 ∨
      ∃ peerId pubkey requestedVersion peerIndex,
        c = .addPeerAtIndex peerId pubkey requestedVersion peerIndex ∧
        ¬ r.Refuses requestedVersion peerIndex ∧
        r'.ledger = peerIndex.toNat :: r.indices ++ r.guard.free.filter (· != peerIndex.toNat) ∧
        r'.guard.nextFresh = ((r.guard.pin requestedVersion).take peerIndex.toNat).nextFresh := by
  cases c with
  | addPeer peerId pubkey requestedVersion =>
    obtain rfl := some.inj (ite_none_left_eq_some.mp h).2
    obtain ⟨error, heq⟩ | ⟨idx, g, halloc, heq⟩ :=
      addPeer_cases (r := r) peerId pubkey requestedVersion
    · rw [heq]
      exact .inl ⟨.refl _, rfl⟩
    · rw [heq]
      obtain ⟨hfree, hnext⟩ | ⟨hfree, hfree', rfl, hne, hnext⟩ := alloc_eq_some halloc
      · refine .inl ⟨?_, hnext⟩
        show List.Perm (idx :: r.indices ++ g.free) (r.indices ++ r.guard.free)
        rw [hfree]
        exact perm_middle.symm
      · refine .inr (.inl ⟨?_, hne, hnext⟩)
        show List.Perm (r.guard.nextFresh :: r.indices ++ g.free)
          (r.guard.nextFresh :: (r.indices ++ r.guard.free))
        rw [hfree, hfree']
        exact .refl _
  | addPeerAtIndex peerId pubkey requestedVersion peerIndex =>
    obtain rfl := some.inj (ite_none_left_eq_some.mp h).2
    obtain ⟨-, error, heq⟩ | ⟨hadmits, heq⟩ :=
      addPeerAtIndex_cases (r := r) peerId pubkey requestedVersion peerIndex
    · rw [heq]
      exact .inl ⟨.refl _, rfl⟩
    · rw [heq]
      exact .inr (.inr ⟨peerId, pubkey, requestedVersion, peerIndex, rfl, hadmits, rfl, rfl⟩)
  | removePeer peerId =>
    cases h
    obtain ⟨-, heq⟩ | ⟨peer, hpeer, -, heq⟩ := removePeer_cases (r := r) peerId
    · rw [heq]
      exact .inl ⟨.refl _, rfl⟩
    · rw [heq]
      exact .inl ⟨erase_ledger hids hpeer, rfl⟩
  | removePeerAndCheckEnded peerId =>
    cases h
    obtain heq | ⟨peer, hpeer, ended, result, heq⟩ :=
      removePeerAndCheckEnded_cases (r := r) peerId
    · rw [heq]
      exact .inl ⟨.refl _, rfl⟩
    · rw [heq]
      exact .inl ⟨erase_ledger hids hpeer, rfl⟩
  | markEnded | clearEnded =>
    cases h
    exact .inl ⟨.refl _, rfl⟩

theorem step_of_rejects (hrejects : r.Rejects c) (h : r.step c = some r') : r' = r := by
  cases c with
  | addPeer peerId pubkey requestedVersion =>
    obtain rfl := some.inj (ite_none_left_eq_some.mp h).2
    obtain ⟨error, herr⟩ := hrejects
    obtain ⟨_, heq⟩ | ⟨idx, g, -, heq⟩ := addPeer_cases (r := r) peerId pubkey requestedVersion
    · rw [heq]
    · rw [heq] at herr
      nomatch herr
  | addPeerAtIndex peerId pubkey requestedVersion peerIndex =>
    obtain rfl := some.inj (ite_none_left_eq_some.mp h).2
    obtain ⟨error, herr⟩ := hrejects
    obtain ⟨-, _, heq⟩ | ⟨-, heq⟩ :=
      addPeerAtIndex_cases (r := r) peerId pubkey requestedVersion peerIndex
    · rw [heq]
    · rw [heq] at herr
      nomatch herr
  | removePeer peerId =>
    cases h
    obtain ⟨-, heq⟩ | ⟨peer, hpeer, rfl, -⟩ := removePeer_cases (r := r) peerId
    · exact heq
    · exact absurd (mem_map_of_mem hpeer) hrejects
  | removePeerAndCheckEnded peerId =>
    cases h
    obtain heq | ⟨peer, -, ended, result, heq⟩ :=
      removePeerAndCheckEnded_cases (r := r) peerId
    · rw [heq]
    · replace hrejects : (r.removePeerAndCheckEnded peerId).2 = none := hrejects
      rw [heq] at hrejects
      nomatch hrejects
  | markEnded | clearEnded => exact hrejects.elim

theorem notMem_ids_of_any {peerId : Uuid} (h : ¬r.peers.any (fun p => p.peerId == peerId) = true) :
    peerId ∉ r.ids := by
  intro hmem
  obtain ⟨p, hp, heq⟩ := mem_map.mp hmem
  exact h (any_eq_true.mpr ⟨p, hp, beq_iff_eq.mpr heq⟩)

theorem step_ids (h : r.step c = some r') :
    r'.ids.Sublist r.ids ∨ ∃ peerId, peerId ∉ r.ids ∧ r'.ids = peerId :: r.ids := by
  cases c with
  | addPeer peerId pubkey requestedVersion =>
    obtain ⟨hfresh, h⟩ := ite_none_left_eq_some.mp h
    cases h
    obtain ⟨error, heq⟩ | ⟨idx, g, -, heq⟩ := addPeer_cases (r := r) peerId pubkey requestedVersion
    · rw [heq]
      exact .inl (.refl _)
    · rw [heq]
      exact .inr ⟨peerId, notMem_ids_of_any hfresh, rfl⟩
  | addPeerAtIndex peerId pubkey requestedVersion peerIndex =>
    obtain ⟨hfresh, h⟩ := ite_none_left_eq_some.mp h
    cases h
    obtain ⟨-, error, heq⟩ | ⟨-, heq⟩ :=
      addPeerAtIndex_cases (r := r) peerId pubkey requestedVersion peerIndex
    · rw [heq]
      exact .inl (.refl _)
    · rw [heq]
      exact .inr ⟨peerId, notMem_ids_of_any hfresh, rfl⟩
  | removePeer peerId =>
    cases h
    obtain ⟨-, heq⟩ | ⟨peer, -, -, heq⟩ := removePeer_cases (r := r) peerId
    · rw [heq]
      exact .inl (.refl _)
    · rw [heq]
      exact .inl (erase_sublist peer)
  | removePeerAndCheckEnded peerId =>
    cases h
    obtain heq | ⟨peer, -, ended, result, heq⟩ :=
      removePeerAndCheckEnded_cases (r := r) peerId
    · rw [heq]
      exact .inl (.refl _)
    · rw [heq]
      exact .inl (erase_sublist peer)
  | markEnded | clearEnded =>
    cases h
    exact .inl (.refl _)

/-! ### Every run -/

/-- The invariant of a room: no id and no index is there twice, and the counter is above every
index but 255. -/
structure Room.Inv (r : Room) : Prop where
  ids : r.ids.Nodup
  ledger : r.ledger.Nodup
  counter : r.guard.nextFresh ≤ 255
  /-- An index below 255 was counted. -/
  below : ∀ i ∈ r.ledger, i < r.guard.nextFresh ∨ i = 255 ∧ r.guard.nextFresh = 255

theorem inv_new : Room.new.Inv :=
  ⟨.nil, .nil, Nat.zero_le 255, nofun⟩

theorem take_nextFresh (hidx : idx ≤ 255) (hcounter : g.nextFresh ≤ 255) :
    g.nextFresh ≤ (g.take idx).nextFresh ∧ (g.take idx).nextFresh ≤ 255 ∧
      (idx < (g.take idx).nextFresh ∨ idx = 255 ∧ (g.take idx).nextFresh = 255) := by
  show g.nextFresh ≤ (if g.nextFresh ≤ idx then Nat.min (idx + 1) 255 else g.nextFresh) ∧
    (if g.nextFresh ≤ idx then Nat.min (idx + 1) 255 else g.nextFresh) ≤ 255 ∧
      (idx < (if g.nextFresh ≤ idx then Nat.min (idx + 1) 255 else g.nextFresh) ∨
        idx = 255 ∧ (if g.nextFresh ≤ idx then Nat.min (idx + 1) 255 else g.nextFresh) = 255)
  have hmin : Nat.min (idx + 1) 255 = min (idx + 1) 255 := rfl
  rw [hmin]
  split <;> omega

theorem ledger_taken (hledger : r.ledger.Nodup) (hidx : idx ∉ r.indices) :
    (idx :: r.indices ++ r.guard.free.filter (· != idx)).Nodup := by
  refine nodup_cons.mpr ⟨?_, ?_⟩
  · show idx ∉ r.indices ++ r.guard.free.filter (· != idx)
    rw [mem_append, mem_filter]
    rintro (h | ⟨-, h⟩)
    · exact hidx h
    · exact bne_iff_ne.mp h rfl
  · exact hledger.sublist (filter_sublist.append_left r.indices)

theorem inv_step (hI : r.Inv) (h : r.step c = some r') : r'.Inv := by
  have hids : r'.ids.Nodup := by
    obtain hsub | ⟨peerId, hfresh, heq⟩ := step_ids h
    · exact hI.ids.sublist hsub
    · rw [heq]
      exact nodup_cons.mpr ⟨hfresh, hI.ids⟩
  obtain ⟨hperm, hnext⟩ | ⟨hperm, hne, hnext⟩ | ⟨_, _, version, idx, -, hadmits, hledger, hnext⟩ :=
    step_ledger hI.ids h
  · refine ⟨hids, hperm.nodup_iff.mpr hI.ledger, hnext ▸ hI.counter, fun i hi => ?_⟩
    rw [hnext]
    exact hI.below i (hperm.mem_iff.mp hi)
  · have hnot : r.guard.nextFresh ∉ r.ledger := by
      intro hmem
      obtain hlt | ⟨-, heq⟩ := hI.below _ hmem
      · exact absurd hlt (Nat.lt_irrefl _)
      · exact hne heq
    have hcounter := hI.counter
    refine ⟨hids, hperm.nodup_iff.mpr (nodup_cons.mpr ⟨hnot, hI.ledger⟩), by omega, ?_⟩
    intro i hi
    obtain rfl | hi := mem_cons.mp (hperm.mem_iff.mp hi)
    · omega
    · have := hI.below i hi
      omega
  · have hidx : idx.toNat ≤ 255 := Nat.le_of_lt_succ idx.toNat_lt
    obtain ⟨hle, hcounter, hself⟩ :=
      take_nextFresh (g := r.guard.pin version) hidx hI.counter
    have hout : idx.toNat ∉ r.indices := fun hmem => hadmits (.inr (.inr (.inl hmem)))
    refine ⟨hids, hledger ▸ ledger_taken hI.ledger hout, hnext ▸ hcounter, ?_⟩
    intro i hi
    rw [hnext]
    rw [hledger] at hi
    obtain rfl | hi := mem_cons.mp hi
    · exact hself
    · have hmem : i ∈ r.ledger := (filter_sublist.append_left r.indices).subset hi
      have hnext' : (r.guard.pin version).nextFresh = r.guard.nextFresh := rfl
      have := hI.below i hmem
      omega

theorem alloc_notMem (hI : r.Inv) (h : r.guard.alloc = some (idx, g)) : idx ∉ r.indices := by
  intro hmem
  obtain ⟨hfree, -⟩ | ⟨-, -, rfl, hne, -⟩ := alloc_eq_some h
  · have hapart := (nodup_append.mp hI.ledger).2.2 idx hmem idx
    exact hapart (hfree ▸ mem_cons_self) rfl
  · obtain hlt | ⟨-, heq⟩ := hI.below _ (mem_append_left _ hmem)
    · exact absurd hlt (Nat.lt_irrefl _)
    · exact hne heq

/-! ### The range -/

theorem alloc_le (hI : r.Inv) (hrange : ∀ i ∈ r.ledger, i ≤ 254)
    (h : r.guard.alloc = some (idx, g)) : idx ≤ 254 := by
  obtain ⟨hfree, -⟩ | ⟨-, -, rfl, hne, -⟩ := alloc_eq_some h
  · exact hrange idx (mem_append_right _ (hfree ▸ mem_cons_self))
  · have := hI.counter
    omega

theorem range_step (hI : r.Inv) (hrange : ∀ i ∈ r.ledger, i ≤ 254) (hc : c.InRange r)
    (h : r.step c = some r') : ∀ i ∈ r'.ledger, i ≤ 254 := by
  intro i hi
  obtain ⟨hperm, -⟩ | ⟨hperm, hne, -⟩ | ⟨_, _, version, idx, rfl, hadmits, hledger, -⟩ :=
    step_ledger hI.ids h
  · exact hrange i (hperm.mem_iff.mp hi)
  · obtain rfl | hi := mem_cons.mp (hperm.mem_iff.mp hi)
    · have := hI.counter
      omega
    · exact hrange i hi
  · rw [hledger] at hi
    obtain rfl | hi := mem_cons.mp hi
    · have hne : idx ≠ 255 := fun heq => hadmits (hc heq)
      have hlt : idx.toNat < 256 := idx.toNat_lt
      have hne' : idx.toNat ≠ 255 := fun heq => hne (UInt8.toNat_inj.mp heq)
      omega
    · exact hrange i ((filter_sublist.append_left r.indices).subset hi)

/-- What is promised about the indices of a room. -/
structure Room.IndexSafe (r : Room) : Prop where
  active : r.indices.Nodup
  free : r.guard.free.Nodup
  disjoint : List.Disjoint r.indices r.guard.free
  alloc : ∀ idx g, r.guard.alloc = some (idx, g) → idx ∉ r.indices
  allocRange : ∀ idx g, r.guard.alloc = some (idx, g) → idx ≤ 254
  range : ∀ idx ∈ r.ledger, idx ≤ 254
  rejected : ∀ c r', r.Rejects c → r.step c = some r' → r' = r

/-- **Indices are safe** in every run in which no admission brings 255. -/
theorem index_safety (h : (audioRoom.guard fun r c => c.InRange r).Reachable r) :
    r.IndexSafe := by
  obtain ⟨hI, hrange⟩ : r.Inv ∧ ∀ i ∈ r.ledger, i ≤ 254 := by
    refine StateMachine.reachable_guard (I := fun r => r.Inv ∧ ∀ i ∈ r.ledger, i ≤ 254) ?_ ?_ h
    · rintro s rfl
      exact ⟨inv_new, nofun⟩
    · rintro s c s' ⟨hI, hrange⟩ hc hs
      exact ⟨inv_step hI hs, range_step hI hrange hc hs⟩
  obtain ⟨hactive, hfree, hapart⟩ := nodup_append.mp hI.ledger
  exact {
    active := hactive
    free := hfree
    disjoint := fun i hi hi' => hapart i hi i hi' rfl
    alloc := fun idx g halloc => alloc_notMem hI halloc
    allocRange := fun idx g halloc => alloc_le hI hrange halloc
    range := hrange
    rejected := fun c r' hrejects hs => step_of_rejects hrejects hs }

/-- Peers come by the allocator and at a given index, one of them leaves, and its index is used
again. -/
def reusedCalls : List Call :=
  [.addPeer 1 "alice" 2, .addPeerAtIndex 2 "bob" 2 7, .addPeer 3 "carol" 2, .removePeer 2,
    .addPeer 4 "dave" 2, .removePeerAndCheckEnded 1]

def reusedRoom : Room where
  peers := [⟨4, "dave", 7⟩, ⟨3, "carol", 8⟩]
  guard := ⟨9, [0], false, some 2, 6⟩
  roster :=
    [⟨1, some ⟨"alice", 0⟩, none⟩, ⟨2, some ⟨"bob", 7⟩, none⟩, ⟨3, some ⟨"carol", 8⟩, none⟩,
      ⟨4, none, some ⟨"bob", 7⟩⟩, ⟨5, some ⟨"dave", 7⟩, none⟩, ⟨6, none, some ⟨"alice", 0⟩⟩]

theorem index_safety_reused : reusedRoom.IndexSafe :=
  index_safety ⟨Room.new, reusedCalls, rfl, by decide +kernel⟩

/-- A peer is admitted at 255 and leaves. -/
def outOfRangeCalls : List Call := [.addPeerAtIndex 1 "alice" 2 255, .removePeer 1]

/-- The allocator returns 255 then. -/
theorem not_indexSafe_outOfRange : ¬ ∀ r, audioRoom.Reachable r → r.IndexSafe := by
  intro h
  have hrun : ((audioRoom.run Room.new outOfRangeCalls).any fun r =>
      r.guard.alloc.any fun a => a.1 == 255) = true := by decide +kernel
  obtain ⟨r, hr, halloc⟩ := (any_eq_true _ _).mp hrun
  obtain ⟨⟨idx, g⟩, halloc, hidx⟩ := (any_eq_true _ _).mp halloc
  have hle : idx ≤ 254 := (h r ⟨Room.new, outOfRangeCalls, rfl, hr⟩).allocRange idx g halloc
  obtain rfl : idx = 255 := beq_iff_eq.mp hidx
  omega

end Buzz.Audio
