import Buzz.Core.Basic
import Buzz.Lib.KeyMap
import Buzz.Lib.StateMachine

/-!
# Audio rooms

The peers of a room and the allocator of their indices, behind one lock: every call below is one
step. An index comes from the free list, from a counter, or from the caller. The ids of peers are
random, so a new one is that of no peer in the room. The top of the free list is its head.
-/

namespace Buzz.Audio

def maxPeersPerRoom : Nat := 25

structure RosterPeer where
  pubkey : String
  peerIndex : Nat
  deriving DecidableEq

/-- A change of the roster. -/
structure RosterDelta where
  revision : Nat
  joined : Option RosterPeer
  left : Option RosterPeer
  deriving DecidableEq

/-- Why a peer is not let in. -/
inductive AdmissionError where
  | ended
  | full
  | versionMismatch (pinned requested : Nat)
  deriving DecidableEq

/-- A peer in a room. -/
structure AudioPeer where
  peerId : Uuid
  pubkey : String
  peerIndex : Nat
  deriving DecidableEq

/-- `AdmissionGuard`. -/
structure Guard where
  nextFresh : Nat
  free : List Nat
  ended : Bool
  pinnedVersion : Option Nat
  rosterRevision : Nat
  deriving DecidableEq

namespace Guard

def new : Guard := ⟨0, [], false, none, 0⟩

/-- `alloc`: the index, and the guard afterwards. -/
def alloc (g : Guard) : Option (Nat × Guard) :=
  match g.free with
  | idx :: free => some (idx, { g with free := free })
  | [] =>
    if g.nextFresh = 255 then none
    else some (g.nextFresh, { g with nextFresh := g.nextFresh + 1 })

def release (g : Guard) (idx : Nat) : Guard := { g with free := idx :: g.free }

/-- An index is taken by the caller: it is not free any more, and the counter is above it. -/
def take (g : Guard) (idx : Nat) : Guard :=
  { g with
    free := g.free.filter fun i => i != idx
    nextFresh := if g.nextFresh ≤ idx then Nat.min (idx + 1) 255 else g.nextFresh }

/-- `get_or_insert`. -/
def pin (g : Guard) (version : Nat) : Guard :=
  { g with pinnedVersion := some (g.pinnedVersion.getD version) }

def bump (g : Guard) : Guard :=
  { g with rosterRevision := (g.rosterRevision + 1) % 18446744073709551616 }

def mismatch (g : Guard) (requested : Nat) : Option AdmissionError :=
  g.pinnedVersion.bind fun pinned =>
    if pinned = requested then none else some (.versionMismatch pinned requested)

end Guard

/-- A room, its seats and the log of its roster. -/
structure Room where
  peers : List AudioPeer
  guard : Guard
  roster : List RosterDelta
  deriving DecidableEq

namespace Room

variable (r : Room)

def new : Room := ⟨[], .new, []⟩

/-- The peer is inserted, and its join published. -/
def insert (g : Guard) (peer : AudioPeer) : Room where
  peers := peer :: r.peers
  guard := g.bump
  roster := r.roster ++ [⟨g.bump.rosterRevision, some ⟨peer.pubkey, peer.peerIndex⟩, none⟩]

/-- The peer is removed, its index released, and its leave published. -/
def erase (peer : AudioPeer) : Room where
  peers := r.peers.filter fun p => p.peerId != peer.peerId
  guard := (r.guard.release peer.peerIndex).bump
  roster := r.roster ++
    [⟨(r.guard.release peer.peerIndex).bump.rosterRevision, none,
      some ⟨peer.pubkey, peer.peerIndex⟩⟩]

/-- `add_peer`, with a fresh id: the room, and the index. -/
def addPeer (peerId : Uuid) (pubkey : String) (requestedVersion : Nat) :
    Room × Except AdmissionError Nat :=
  if r.guard.ended then (r, .error .ended)
  else if maxPeersPerRoom ≤ r.peers.length then (r, .error .full)
  else
    match r.guard.mismatch requestedVersion with
    | some error => (r, .error error)
    | none =>
      match r.guard.alloc with
      | none => (r, .error .full)
      | some (peerIndex, g) =>
        (r.insert (g.pin requestedVersion) ⟨peerId, pubkey, peerIndex⟩, .ok peerIndex)

/-- `add_peer_at_index`, with a fresh id. -/
def addPeerAtIndex (peerId : Uuid) (pubkey : String) (requestedVersion : Nat) (peerIndex : UInt8) :
    Room × Except AdmissionError Unit :=
  if r.guard.ended then (r, .error .ended)
  else if maxPeersPerRoom ≤ r.peers.length ∨
      r.peers.any fun p => p.peerIndex == peerIndex.toNat then (r, .error .full)
  else
    match r.guard.mismatch requestedVersion with
    | some error => (r, .error error)
    | none =>
      (r.insert ((r.guard.pin requestedVersion).take peerIndex.toNat)
        ⟨peerId, pubkey, peerIndex.toNat⟩, .ok ())

def removePeer (peerId : Uuid) : Room :=
  match lookupKey AudioPeer.peerId r.peers peerId with
  | some peer => r.erase peer
  | none => r

/-- `remove_peer_and_check_ended`: the index, and whether the room ends now. -/
def removePeerAndCheckEnded (peerId : Uuid) : Room × Option (Nat × Bool) :=
  match lookupKey AudioPeer.peerId r.peers peerId with
  | some peer =>
    let r' := r.erase peer
    if !r'.guard.ended && r'.peers.isEmpty then
      ({ r' with guard := { r'.guard with ended := true } }, some (peer.peerIndex, true))
    else (r', some (peer.peerIndex, false))
  | none => (r, none)

/-- `mark_ended`: whether the room is empty. -/
def markEnded : Room × Bool :=
  ({ r with guard := { r.guard with ended := true } }, r.peers.isEmpty)

def clearEnded : Room := { r with guard := { r.guard with ended := false } }

end Room

inductive Call where
  | addPeer (peerId : Uuid) (pubkey : String) (requestedVersion : Nat)
  | addPeerAtIndex (peerId : Uuid) (pubkey : String) (requestedVersion : Nat) (peerIndex : UInt8)
  | removePeer (peerId : Uuid)
  | removePeerAndCheckEnded (peerId : Uuid)
  | markEnded
  | clearEnded

/-- The room after a call. A new id is that of no peer. -/
def Room.step (r : Room) : Call → Option Room
  | .addPeer peerId pubkey requestedVersion =>
    if r.peers.any fun p => p.peerId == peerId then none
    else some (r.addPeer peerId pubkey requestedVersion).1
  | .addPeerAtIndex peerId pubkey requestedVersion peerIndex =>
    if r.peers.any fun p => p.peerId == peerId then none
    else some (r.addPeerAtIndex peerId pubkey requestedVersion peerIndex).1
  | .removePeer peerId => some (r.removePeer peerId)
  | .removePeerAndCheckEnded peerId => some (r.removePeerAndCheckEnded peerId).1
  | .markEnded => some r.markEnded.1
  | .clearEnded => some r.clearEnded

def audioRoom : StateMachine Room Call where
  Init r := r = Room.new
  step := Room.step

end Buzz.Audio
