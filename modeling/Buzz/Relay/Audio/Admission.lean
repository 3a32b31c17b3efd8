import Buzz.Relay.Audio.IndexSafety

/-!
# Who is admitted to a room

A join is refused because the room has ended, because it is full, or because of its version, in this
order. A room is full at the cap of its peers. Below the cap it is full, too, when no index is left:
the counter goes past the indices that a caller has chosen, so a high one uses up the ones below it.
Where all peers came by the allocator an index is left below the cap.
-/

namespace Buzz.Audio

def Guard.HasIndex (g : Guard) : Prop := g.free ≠ [] ∨ g.nextFresh ≠ 255

instance (g : Guard) : Decidable g.HasIndex := inferInstanceAs (Decidable (_ ∨ _))

/-- The room has no other version than the requested one. -/
def Guard.Accepts (g : Guard) (requestedVersion : Nat) : Prop :=
  ∀ pinned, g.pinnedVersion = some pinned → pinned = requestedVersion

/-- The call does not choose an index. -/
def Call.Local : Call → Prop
  | .addPeerAtIndex .. => False
  | _ => True

instance (c : Call) : Decidable c.Local :=
  match c with
  | .addPeerAtIndex .. => isFalse id
  | .addPeer .. | .removePeer _ | .removePeerAndCheckEnded _ | .markEnded | .clearEnded =>
    isTrue trivial

/-- The verdicts of `add_peer`. -/
structure Room.Precedence (r : Room) (peerId : Uuid) (pubkey : String) (requestedVersion : Nat) :
    Prop where
  ended : r.guard.ended = true → r.addPeer peerId pubkey requestedVersion = (r, .error .ended)
  full : r.guard.ended = false → maxPeersPerRoom ≤ r.peers.length →
    r.addPeer peerId pubkey requestedVersion = (r, .error .full)
  mismatch : r.guard.ended = false → r.peers.length < maxPeersPerRoom → r.guard.HasIndex →
    ∀ pinned, r.guard.pinnedVersion = some pinned → pinned ≠ requestedVersion →
      r.addPeer peerId pubkey requestedVersion =
        (r, .error (.versionMismatch pinned requestedVersion))
  admitted : r.guard.ended = false → r.peers.length < maxPeersPerRoom → r.guard.HasIndex →
    r.guard.Accepts requestedVersion → ∃ r' idx,
      r.addPeer peerId pubkey requestedVersion = (r', .ok idx) ∧
        r'.peers = ⟨peerId, pubkey, idx⟩ :: r.peers ∧
        r'.guard.pinnedVersion = some requestedVersion
  exhausted : r.guard.ended = false → r.peers.length < maxPeersPerRoom → ¬ r.guard.HasIndex →
    r.guard.Accepts requestedVersion →
      r.addPeer peerId pubkey requestedVersion = (r, .error .full)
  below : r.peers.length < maxPeersPerRoom →
    (r.addPeer peerId pubkey requestedVersion).2 = .error .full → ¬ r.guard.HasIndex

variable {r r' : Room}

/-! ### Versions and indices -/

variable {g : Guard} {requestedVersion : Nat}

theorem mismatch_eq_none (h : g.Accepts requestedVersion) : g.mismatch requestedVersion = none := by
  rw [Guard.mismatch]
  cases hpinned : g.pinnedVersion with
  | none => rfl
  | some pinned => simp [h pinned hpinned]

theorem mismatch_eq_some {pinned : Nat} (hpinned : g.pinnedVersion = some pinned)
    (hne : pinned ≠ requestedVersion) :
    g.mismatch requestedVersion = some (.versionMismatch pinned requestedVersion) := by
  simp [Guard.mismatch, hpinned, hne]

theorem mismatch_ne_full {error : AdmissionError} (h : g.mismatch requestedVersion = some error) :
    error ≠ .full := by
  obtain ⟨pinned, -, hsome⟩ := Option.bind_eq_some_iff.mp h
  obtain ⟨-, hsome⟩ := Option.ite_none_left_eq_some.mp hsome
  cases hsome
  exact nofun

theorem alloc_eq_none_iff : g.alloc = none ↔ ¬ g.HasIndex := by
  rw [Guard.alloc, Guard.HasIndex]
  split
  · next idx free hfree => simp [hfree]
  · next hfree => simp [hfree]

theorem alloc_pinnedVersion {g' : Guard} {idx : Nat} (h : g.alloc = some (idx, g')) :
    g'.pinnedVersion = g.pinnedVersion := by
  rw [Guard.alloc] at h
  split at h
  · cases h
    rfl
  · obtain ⟨-, hsome⟩ := Option.ite_none_left_eq_some.mp h
    cases hsome
    rfl

theorem pin_pinnedVersion (h : g.Accepts requestedVersion) :
    (g.pin requestedVersion).pinnedVersion = some requestedVersion := by
  rw [Guard.pin]
  cases hpinned : g.pinnedVersion with
  | none => rfl
  | some pinned => simp [h pinned hpinned]

theorem precedence (r : Room) (peerId : Uuid) (pubkey : String) (requestedVersion : Nat) :
    r.Precedence peerId pubkey requestedVersion where
  ended h := by rw [Room.addPeer, if_pos h]
  full hended hfull := by
    rw [Room.addPeer, if_neg (by simp [hended]), if_pos hfull]
  mismatch hended hfull _ pinned hpinned hne := by
    rw [Room.addPeer, if_neg (by simp [hended]), if_neg (Nat.not_le.mpr hfull),
      mismatch_eq_some hpinned hne]
  admitted hended hfull hindex haccepts := by
    obtain ⟨⟨idx, g⟩, halloc⟩ : ∃ a, r.guard.alloc = some a := by
      refine Option.ne_none_iff_exists'.mp fun hnone => ?_
      exact alloc_eq_none_iff.mp hnone hindex
    have haccepts' : g.Accepts requestedVersion := by
      rwa [Guard.Accepts, alloc_pinnedVersion halloc]
    refine ⟨r.insert (g.pin requestedVersion) ⟨peerId, pubkey, idx⟩, idx, ?_, rfl,
      pin_pinnedVersion haccepts'⟩
    rw [Room.addPeer, if_neg (by simp [hended]), if_neg (Nat.not_le.mpr hfull),
      mismatch_eq_none haccepts]
    simp only [halloc]
  exhausted hended hfull hindex haccepts := by
    rw [Room.addPeer, if_neg (by simp [hended]), if_neg (Nat.not_le.mpr hfull),
      mismatch_eq_none haccepts]
    simp only [alloc_eq_none_iff.mpr hindex]
  below hfull h := by
    rw [Room.addPeer] at h
    split at h
    · cases h
    rw [if_neg (Nat.not_le.mpr hfull)] at h
    split at h
    · next error hmismatch =>
      cases h
      exact absurd rfl (mismatch_ne_full hmismatch)
    split at h
    · next halloc => exact alloc_eq_none_iff.mp halloc
    · cases h

/-! ### Rooms without chosen indices -/

/-- All indices that were counted are those of peers, or free. -/
def Room.Dense (r : Room) : Prop := r.ledger.length = r.guard.nextFresh

theorem dense_step (hids : r.ids.Nodup) (hdense : r.Dense) {c : Call} (hlocal : c.Local)
    (h : r.step c = some r') : r'.Dense := by
  rw [Room.Dense] at hdense ⊢
  obtain ⟨hperm, hnext⟩ | ⟨hperm, -, hnext⟩ | ⟨_, _, _, _, rfl, -⟩ := step_ledger hids h
  · rw [hperm.length_eq, hnext, hdense]
  · simp [hperm.length_eq, hnext, hdense]
  · cases hlocal

theorem hasIndex_of_local (h : (audioRoom.guard fun _ c => c.Local).Reachable r)
    (hfull : r.peers.length < maxPeersPerRoom) : r.guard.HasIndex := by
  have hinv : r.Inv ∧ r.Dense := by
    refine StateMachine.Reachable.invariant (I := fun r => r.Inv ∧ r.Dense) ?_ ?_ h
    · rintro s rfl
      exact ⟨inv_new, rfl⟩
    · rintro s c s' - ⟨hinv, hdense⟩ hs
      obtain ⟨hlocal, hstep⟩ := StateMachine.guard_step.mp hs
      exact ⟨inv_step hinv hstep, dense_step hinv.ids hdense hlocal hstep⟩
  rw [Guard.HasIndex, or_iff_not_and_not]
  rintro ⟨hfree, hnext⟩
  have hlength : r.peers.length + r.guard.free.length = r.guard.nextFresh := by
    rw [← hinv.2, Room.ledger, List.length_append, Room.indices, List.length_map]
  rw [not_not.mp hfree, not_not.mp hnext, List.length_nil] at hlength
  have hcap : maxPeersPerRoom = 25 := rfl
  omega

/-! ### Main result -/

/-- **Admission.** The verdicts of `add_peer` on every room. After calls that choose no index one is
left below the cap, so that such a room is full at its cap only. -/
theorem admission_precedence :
    (∀ (r : Room) (peerId : Uuid) (pubkey : String) (requestedVersion : Nat),
      r.Precedence peerId pubkey requestedVersion) ∧
    ∀ r, (audioRoom.guard fun _ c => c.Local).Reachable r →
      r.peers.length < maxPeersPerRoom → r.guard.HasIndex :=
  ⟨precedence, fun _ h hfull => hasIndex_of_local h hfull⟩

def highCalls : List Call := [.addPeerAtIndex 1 "alice" 2 254]

/-- The room is full then, with one peer and the version that is asked for. -/
theorem not_precedence_exhausted : ∃ r, audioRoom.run Room.new highCalls = some r ∧
    r.guard.ended = false ∧ r.peers.length = 1 ∧ r.guard.pinnedVersion = some 2 ∧
      (r.addPeer 2 "bob" 2).2 = .error .full := by
  have hrun : ((audioRoom.run Room.new highCalls).any fun r =>
      decide (r.guard.ended = false ∧ r.peers.length = 1 ∧ r.guard.pinnedVersion = some 2 ∧
        (r.addPeer 2 "bob" 2).2 = .error .full)) = true := by decide +kernel
  obtain ⟨r, hr, hall⟩ := (Option.any_eq_true _ _).mp hrun
  exact ⟨r, hr, of_decide_eq_true hall⟩

end Buzz.Audio
