import Buzz.Lib.Snapshots
import Buzz.Relay.Audio.IndexSafety
import Mathlib.Data.List.Sort
import Mathlib.Data.Multiset.AddSub

/-!
# The roster on other pods

The owner of a room sends its roster to the pods of remote clients. The handler of a client's stream
subscribes to the changes, takes a snapshot of the roster after that, and then passes on one change
after the other. The channel of the changes keeps the last 64; who is further behind skips to the
oldest one that is left, and is sent another snapshot. The pod asks for one when it finds a gap.

Joins and leaves hold the lock of the room, and so does a snapshot, but nothing holds it in between:
any calls may come between the subscription, the snapshot, and the frames. A stream delivers its
frames in order.
-/

namespace Buzz.Audio

open List Option

/-! ### The changes -/

def revisionBound : Nat := 18446744073709551616

/-- The capacity of the channel of changes. -/
def rosterCapacity : Nat := 64

def AudioPeer.rosterPeer (p : AudioPeer) : RosterPeer := ⟨p.pubkey, p.peerIndex⟩

/-- A change, applied to the roster of a pod. -/
def applyDelta (peers : List RosterPeer) (d : RosterDelta) : List RosterPeer :=
  match d.joined, d.left with
  | some peer, _ => peer :: peers
  | none, some peer => peers.erase peer
  | none, none => peers

def RosterDelta.act (peers : Multiset RosterPeer) (d : RosterDelta) : Multiset RosterPeer :=
  match d.joined, d.left with
  | some peer, _ => peer ::ₘ peers
  | none, some peer => peers.erase peer
  | none, none => peers

/-- The roster after the first changes. -/
def rosterAt (roster : List RosterDelta) (n : Nat) : Multiset RosterPeer :=
  stateAt RosterDelta.act 0 roster n

/-- A list of peers is that of a set. -/
def Lists (peers : List RosterPeer) (s : Multiset RosterPeer) : Prop := (peers : Multiset _) = s

theorem lists_applyDelta (peers : List RosterPeer) (s : Multiset RosterPeer) (d : RosterDelta)
    (h : Lists peers s) : Lists (applyDelta peers d) (RosterDelta.act s d) := by
  obtain rfl : (peers : Multiset _) = s := h
  rw [Lists, applyDelta, RosterDelta.act]
  split
  · rfl
  · exact (Multiset.coe_erase _ _).symm
  · rfl

def Room.rosterPeers (r : Room) : Multiset RosterPeer := (r.peers.map AudioPeer.rosterPeer : List _)

/-- The changes that a room has published. -/
structure Room.Published (r : Room) : Prop where
  roster : r.rosterPeers = rosterAt r.roster r.roster.length
  revision : r.guard.rosterRevision = r.roster.length % revisionBound
  numbered : ∀ k d, r.roster[k]? = some d → d.revision = (k + 1) % revisionBound
  nodup : ∀ n ≤ r.roster.length, (rosterAt r.roster n).Nodup

/-- What a call does to the roster. -/
inductive RosterStep (r r' : Room) : Prop where
  | keep (peers : r'.peers = r.peers) (roster : r'.roster = r.roster)
      (revision : r'.guard.rosterRevision = r.guard.rosterRevision)
  | join (peer : AudioPeer) (peers : r'.peers = peer :: r.peers)
      (roster : r'.roster = r.roster ++ [⟨r'.guard.rosterRevision, some peer.rosterPeer, none⟩])
      (revision : r'.guard.rosterRevision = (r.guard.rosterRevision + 1) % revisionBound)
  | leave (peer : AudioPeer) (mem : peer ∈ r.peers)
      (peers : r'.peers = r.peers.filter fun p => p.peerId != peer.peerId)
      (roster : r'.roster = r.roster ++ [⟨r'.guard.rosterRevision, none, some peer.rosterPeer⟩])
      (revision : r'.guard.rosterRevision = (r.guard.rosterRevision + 1) % revisionBound)

variable {r r' : Room}

theorem alloc_rosterRevision {g g' : Guard} {idx : Nat} (h : g.alloc = some (idx, g')) :
    g'.rosterRevision = g.rosterRevision := by
  rw [Guard.alloc] at h
  split at h
  · cases h
    rfl
  · obtain ⟨-, hsome⟩ := ite_none_left_eq_some.mp h
    cases hsome
    rfl

theorem rosterStep_insert {g : Guard} (hg : g.rosterRevision = r.guard.rosterRevision)
    (peer : AudioPeer) : RosterStep r (r.insert g peer) :=
  .join peer rfl rfl (congrArg (fun n => (n + 1) % revisionBound) hg)

theorem rosterStep_of_step {c : Call} (h : r.step c = some r') : RosterStep r r' := by
  cases c with
  | addPeer peerId pubkey requestedVersion =>
    obtain rfl := some.inj (ite_none_left_eq_some.mp h).2
    obtain ⟨error, heq⟩ | ⟨idx, g, halloc, heq⟩ :=
      addPeer_cases (r := r) peerId pubkey requestedVersion
    · rw [heq]
      exact .keep rfl rfl rfl
    · rw [heq]
      have hrevision := alloc_rosterRevision halloc
      exact rosterStep_insert (r := r) (g := g.pin requestedVersion) hrevision
        ⟨peerId, pubkey, idx⟩
  | addPeerAtIndex peerId pubkey requestedVersion peerIndex =>
    obtain rfl := some.inj (ite_none_left_eq_some.mp h).2
    obtain ⟨-, error, heq⟩ | ⟨-, heq⟩ :=
      addPeerAtIndex_cases (r := r) peerId pubkey requestedVersion peerIndex
    · rw [heq]
      exact .keep rfl rfl rfl
    · rw [heq]
      exact rosterStep_insert (r := r)
        (g := (r.guard.pin requestedVersion).take peerIndex.toNat) rfl
        ⟨peerId, pubkey, peerIndex.toNat⟩
  | removePeer peerId =>
    cases h
    obtain ⟨-, heq⟩ | ⟨peer, hpeer, -, heq⟩ := removePeer_cases (r := r) peerId
    · rw [heq]
      exact .keep rfl rfl rfl
    · rw [heq]
      exact .leave peer hpeer rfl rfl rfl
  | removePeerAndCheckEnded peerId =>
    cases h
    obtain heq | ⟨peer, hpeer, ended, result, heq⟩ :=
      removePeerAndCheckEnded_cases (r := r) peerId
    · rw [heq]
      exact .keep rfl rfl rfl
    · rw [heq]
      exact .leave peer hpeer rfl rfl rfl
  | markEnded | clearEnded =>
    cases h
    exact .keep rfl rfl rfl

theorem nodup_rosterPeers (h : r.Inv) : r.rosterPeers.Nodup := by
  have hindices : (r.peers.map AudioPeer.peerIndex).Nodup := (List.nodup_append.mp h.ledger).1
  refine Multiset.coe_nodup.mpr (List.Nodup.of_map RosterPeer.peerIndex ?_)
  rwa [List.map_map]

theorem published_new : Room.new.Published where
  roster := rfl
  revision := rfl
  numbered k d h := by cases h
  nodup n _ := by
    have hnil : rosterAt Room.new.roster n = 0 := by
      simp [rosterAt, stateAt, Room.new]
    rw [hnil]
    exact Multiset.nodup_zero

theorem published_concat (h : r.Published) (hinv : r'.Inv) {d : RosterDelta}
    (hroster : r'.roster = r.roster ++ [d])
    (hpeers : r'.rosterPeers = RosterDelta.act r.rosterPeers d)
    (hrevision : r'.guard.rosterRevision = (r.guard.rosterRevision + 1) % revisionBound)
    (hd : d.revision = r'.guard.rosterRevision) : r'.Published := by
  have hlength : r'.roster.length = r.roster.length + 1 := by
    simp [hroster]
  have hnumber : r'.guard.rosterRevision = (r.roster.length + 1) % revisionBound := by
    simp [hrevision, h.revision]
  have hfinal : r'.rosterPeers = rosterAt r'.roster r'.roster.length := by
    rw [hpeers, h.roster, hroster, rosterAt, rosterAt, stateAt_concat]
  refine ⟨hfinal, hlength ▸ hnumber, fun k e hk => ?_, fun n hn => ?_⟩
  · rw [hroster] at hk
    rcases Nat.lt_or_ge k r.roster.length with hlt | hge
    · rw [getElem?_append_left hlt] at hk
      exact h.numbered k e hk
    · have hbound := (List.getElem?_eq_some_iff.mp hk).1
      rw [length_append, length_singleton] at hbound
      obtain rfl : k = r.roster.length := by omega
      rw [getElem?_concat_length] at hk
      cases hk
      exact hd.trans hnumber
  · rcases Nat.lt_or_eq_of_le hn with hlt | rfl
    · rw [hroster, rosterAt, stateAt_append _ _ (by omega)]
      exact h.nodup n (by omega)
    · rw [← hfinal]
      exact nodup_rosterPeers hinv

/-- **The changes that are published add up to the roster of the room.** -/
theorem published_of_step (hinv : r.Inv) (h : r.Published) {c : Call} (hs : r.step c = some r') :
    (∃ more, r'.roster = r.roster ++ more) ∧ r'.Published := by
  have hinv' := inv_step hinv hs
  cases rosterStep_of_step hs with
  | keep peers roster revision =>
    refine ⟨⟨[], by rw [roster, append_nil]⟩, ?_⟩
    refine ⟨?_, by rw [revision, roster]; exact h.revision, by rw [roster]; exact h.numbered,
      by rw [roster]; exact h.nodup⟩
    rw [Room.rosterPeers, peers, roster]
    exact h.roster
  | join peer peers roster revision =>
    refine ⟨⟨_, roster⟩, published_concat h hinv' roster ?_ revision rfl⟩
    rw [Room.rosterPeers, peers]
    rfl
  | leave peer mem peers roster revision =>
    refine ⟨⟨_, roster⟩, published_concat h hinv' roster ?_ revision rfl⟩
    have hperm := (perm_cons_filter_key hinv.ids mem).map AudioPeer.rosterPeer
    have hpeers : r.rosterPeers = peer.rosterPeer ::ₘ r'.rosterPeers := by
      rw [Room.rosterPeers, Room.rosterPeers, peers]
      exact Multiset.coe_eq_coe.mpr hperm
    rw [hpeers]
    exact (Multiset.erase_cons_head _ _).symm

/-! ### The stream of a pod -/

def Room.rosterSnapshot (r : Room) : Copy (List RosterPeer) where
  revision := r.guard.rosterRevision
  content := (r.peers.map AudioPeer.rosterPeer).insertionSort fun a b => a.peerIndex ≤ b.peerIndex

def Room.snapshotFrame (r : Room) : StreamFrame (List RosterPeer) RosterDelta :=
  .snapshot r.roster.length r.rosterSnapshot.revision r.rosterSnapshot.content

/-- `read_owner_control`: the roster after a frame, and whether a resync is requested. The first
snapshot comes with the reply to the registration. -/
def readOwnerControl (replica : Option (Copy (List RosterPeer)))
    (f : StreamFrame (List RosterPeer) RosterDelta) : Option (Copy (List RosterPeer)) × Bool :=
  receive applyDelta revisionBound replica f

inductive Phase where
  | idle
  | subscribed
  | live
  | lagged
  deriving DecidableEq

/-- A room, a stream on it and the copy at its other end. -/
structure Feed where
  room : Room
  phase : Phase
  position : Nat
  stream : List (StreamFrame (List RosterPeer) RosterDelta)
  resyncs : Nat
  replica : Option (Copy (List RosterPeer))
  received : List (StreamFrame (List RosterPeer) RosterDelta)

/-- A step of the room or of the feed. -/
inductive FeedAction where
  /-- A peer, this one or another one, joins or leaves, or the room ends. -/
  | call (c : Call)
  | subscribe
  | register
  | receive
  | catchUp
  | resync
  | deliver

namespace Feed

variable (s : Feed)

/-- The handler sends a frame, and waits for the next event. -/
def send (f : StreamFrame (List RosterPeer) RosterDelta) : Feed :=
  { s with stream := s.stream ++ [f], phase := .live }

/-- One step of a room and a control stream. -/
def step : FeedAction → Option Feed
  | .call c => (s.room.step c).map fun room => { s with room := room }
  | .subscribe =>
    if s.phase = .idle then
      some { s with phase := .subscribed, position := s.room.roster.length }
    else none
  | .register => if s.phase = .subscribed then some (s.send s.room.snapshotFrame) else none
  | .receive =>
    if s.phase = .live then
      if s.position + rosterCapacity < s.room.roster.length then
        some { s with phase := .lagged, position := s.room.roster.length - rosterCapacity }
      else
        s.room.roster[s.position]?.map fun d =>
          { s.send (.delta s.position d.revision d) with position := s.position + 1 }
    else none
  | .catchUp => if s.phase = .lagged then some (s.send s.room.snapshotFrame) else none
  | .resync =>
    if s.phase = .live ∧ 0 < s.resyncs then
      some { s.send s.room.snapshotFrame with resyncs := s.resyncs - 1 }
    else none
  | .deliver =>
    match s.stream with
    | f :: stream =>
      some
        { s with
          stream := stream
          received := s.received ++ [f]
          replica := (readOwnerControl s.replica f).1
          resyncs := if (readOwnerControl s.replica f).2 then s.resyncs + 1 else s.resyncs }
    | [] => none

/-- A new room, and a control stream without a registration. -/
def new : Feed := ⟨.new, .idle, 0, [], 0, none, []⟩

end Feed

/-- A room and a control stream, over all interleavings. -/
def rosterFeed : StateMachine Feed FeedAction where
  Init s := s = Feed.new
  step := Feed.step

/-! ### The roster of the pod -/

namespace Feed

/-- The frames of a control stream fit the changes of the room up to a position. -/
def FollowsTo (s : Feed) (m : Nat) : Prop :=
  Follows RosterDelta.act 0 Lists revisionBound rosterCapacity s.room.roster s.replica s.received
    s.stream m

/-- The invariant of a feed. -/
structure Inv (s : Feed) : Prop where
  room : s.room.Inv
  published : s.room.Published
  position : s.position ≤ s.room.roster.length
  quiet : s.phase = .idle ∨ s.phase = .subscribed → s.stream = [] ∧ s.replica = none
  opened : ¬(s.phase = .idle ∨ s.phase = .subscribed) → s.replica = none → s.stream ≠ []
  follows : ∃ m ≤ s.room.roster.length, (s.phase = .live → s.position ≤ m) ∧ s.FollowsTo m
  /-- There is no request for a resync while the revisions do not wrap around. -/
  resyncs : s.room.roster.length < revisionBound → s.resyncs = 0

end Feed

theorem isCopy_rosterSnapshot (h : r.Published) :
    IsCopy RosterDelta.act 0 Lists revisionBound r.roster r.rosterSnapshot r.roster.length where
  within := Nat.le_refl _
  revision := h.revision
  content := (Multiset.coe_eq_coe.mpr (perm_insertionSort _ _)).trans h.roster

theorem fits_snapshotFrame (h : r.Published) {m : Nat} (hm : m ≤ r.roster.length) :
    r.snapshotFrame.Fits RosterDelta.act 0 Lists revisionBound rosterCapacity r.roster m :=
  ⟨hm, isCopy_rosterSnapshot h⟩

variable {s s' : Feed}

theorem Feed.Inv.sendSnapshot (h : s.Inv) : (s.send s.room.snapshotFrame).Inv := by
  obtain ⟨m, hm, -, hfollows⟩ := h.follows
  have hlive : ¬((s.send s.room.snapshotFrame).phase = .idle ∨
      (s.send s.room.snapshotFrame).phase = .subscribed) := by rintro (h | h) <;> cases h
  refine ⟨h.room, h.published, h.position, fun hquiet => absurd hquiet hlive,
    fun _ _ => concat_ne_nil _ _, ⟨s.room.roster.length, Nat.le_refl _, fun _ => h.position, ?_⟩,
    h.resyncs⟩
  exact hfollows.send (fits_snapshotFrame h.published hm) fun _ _ => trivial

theorem Feed.Inv.call (h : s.Inv) {c : Call} {room : Room} (hs : s.room.step c = some room) :
    Feed.Inv { s with room := room } := by
  obtain ⟨m, hm, hlive, hfollows⟩ := h.follows
  obtain ⟨⟨more, hmore⟩, hpublished⟩ := published_of_step h.room h.published hs
  have hlength : s.room.roster.length ≤ room.roster.length := by
    rw [hmore, length_append]
    exact Nat.le_add_right _ _
  refine ⟨inv_step h.room hs, hpublished, h.position.trans hlength, h.quiet, h.opened,
    ⟨m, hm.trans hlength, hlive, ?_⟩, fun hbound => h.resyncs (hlength.trans_lt hbound)⟩
  rw [Feed.FollowsTo, hmore]
  exact Follows.append hfollows more

theorem Feed.Inv.sendDelta (h : s.Inv) (hphase : s.phase = .live) {d : RosterDelta}
    (hd : s.room.roster[s.position]? = some d)
    (hlag : s.room.roster.length ≤ s.position + rosterCapacity) :
    Feed.Inv { s.send (.delta s.position d.revision d) with position := s.position + 1 } := by
  obtain ⟨m, hm, hlive, hfollows⟩ := h.follows
  have hlt := (List.getElem?_eq_some_iff.mp hd).1
  have hfits : (StreamFrame.delta s.position d.revision d).Fits RosterDelta.act 0 Lists revisionBound
      rosterCapacity s.room.roster m :=
    ⟨hd, h.published.numbered _ _ hd, hlive hphase, hm.trans hlag⟩
  refine ⟨h.room, h.published, hlt, fun hquiet => ?_, fun _ _ => concat_ne_nil _ _,
    ⟨_, hfits.advance_le hm, fun _ => Nat.le_max_right _ _, hfollows.send hfits fun hnone hnil => ?_⟩,
    h.resyncs⟩
  · rcases hquiet with hquiet | hquiet <;> cases hquiet
  · refine absurd hnil (h.opened ?_ hnone)
    rw [hphase]
    rintro (hidle | hidle) <;> cases hidle

theorem Feed.Inv.deliver (h : s.Inv) {f : StreamFrame (List RosterPeer) RosterDelta}
    {stream : List (StreamFrame (List RosterPeer) RosterDelta)} (hstream : s.stream = f :: stream) :
    Feed.Inv
      { s with
        stream := stream
        received := s.received ++ [f]
        replica := (readOwnerControl s.replica f).1
        resyncs := if (readOwnerControl s.replica f).2 then s.resyncs + 1 else s.resyncs } := by
  obtain ⟨m, hm, hlive, hfollows⟩ := h.follows
  rw [Feed.FollowsTo, hstream] at hfollows
  have hdelivered := hfollows.deliver lists_applyDelta (by decide : rosterCapacity < revisionBound)
  refine ⟨h.room, h.published, h.position, fun hquiet => ?_, fun _ hnone => ?_,
    ⟨m, hm, hlive, hdelivered⟩, fun hbound => ?_⟩
  · exact absurd (hstream.symm.trans (h.quiet hquiet).1) (cons_ne_nil _ _)
  · have hreceived := (hdelivered.first hnone).1
    exact absurd hreceived (concat_ne_nil _ _)
  · rw [readOwnerControl, hfollows.not_gap hbound]
    exact h.resyncs hbound

theorem Feed.inv_new : Feed.new.Inv where
  room := Buzz.Audio.inv_new
  published := published_new
  position := Nat.le_refl _
  quiet _ := ⟨rfl, rfl⟩
  opened h := absurd (.inl rfl) h
  follows := ⟨0, Nat.le_refl _, fun _ => Nat.le_refl _, follows_new⟩
  resyncs _ := rfl

theorem Feed.inv_step (h : s.Inv) {a : FeedAction} (hs : s.step a = some s') : s'.Inv := by
  cases a with
  | call c =>
    obtain ⟨room, hroom, rfl⟩ := map_eq_some_iff.mp hs
    exact h.call hroom
  | subscribe =>
    obtain ⟨hphase, hs⟩ := ite_none_right_eq_some.mp hs
    cases hs
    obtain ⟨m, hm, -, hfollows⟩ := h.follows
    exact ⟨h.room, h.published, Nat.le_refl _, fun _ => h.quiet (.inl hphase),
      fun hopen => absurd (.inr rfl) hopen, ⟨m, hm, nofun, hfollows⟩, h.resyncs⟩
  | register | catchUp =>
    obtain ⟨-, hs⟩ := ite_none_right_eq_some.mp hs
    cases hs
    exact h.sendSnapshot
  | receive =>
    obtain ⟨hphase, hs⟩ := ite_none_right_eq_some.mp hs
    split at hs
    · cases hs
      obtain ⟨m, hm, -, hfollows⟩ := h.follows
      have hopened : ¬(s.phase = .idle ∨ s.phase = .subscribed) := by
        rw [hphase]
        rintro (hidle | hidle) <;> cases hidle
      have hlagged : ¬(Phase.lagged = .idle ∨ Phase.lagged = .subscribed) := by decide
      exact ⟨h.room, h.published, Nat.sub_le _ _, fun hquiet => absurd hquiet hlagged,
        fun _ => h.opened hopened, ⟨m, hm, nofun, hfollows⟩, h.resyncs⟩
    · next hlag =>
      obtain ⟨d, hd, rfl⟩ := map_eq_some_iff.mp hs
      exact h.sendDelta hphase hd (Nat.not_lt.mp hlag)
  | resync =>
    obtain ⟨-, hs⟩ := ite_none_right_eq_some.mp hs
    cases hs
    have hsent := h.sendSnapshot
    refine ⟨hsent.room, hsent.published, hsent.position, hsent.quiet, hsent.opened, hsent.follows,
      fun hbound => ?_⟩
    rw [Feed.send, h.resyncs hbound]
  | deliver =>
    rw [Feed.step] at hs
    split at hs
    · next f stream hstream =>
      cases hs
      exact h.deliver hstream
    · cases hs

theorem Feed.inv_of_reachable (h : rosterFeed.Reachable s) : s.Inv := by
  refine StateMachine.Reachable.invariant (I := Feed.Inv) ?_
    (fun s a s' _ hI hs => Feed.inv_step hI hs) h
  rintro s rfl
  exact Feed.inv_new

/-- **A pod has the roster after the changes it has received.** The changes that are published add
up to the roster of the room. The roster of the pod is the one after the newest change that a frame
has brought it, with every change before, and no peer is in it twice. When nothing is under way, it
is that of the room. -/
theorem roster_replicated (h : rosterFeed.Reachable s) :
    s.room.rosterPeers = rosterAt s.room.roster s.room.roster.length ∧
      ∀ c, s.replica = some c →
        ((∃ f ∈ s.received, f.reach = positionAfter s.received) ∧
          ∀ f ∈ s.received, f.reach ≤ positionAfter s.received) ∧
        positionAfter s.received ≤ s.room.roster.length ∧
        c.revision = positionAfter s.received % revisionBound ∧
        (c.content : Multiset RosterPeer) = rosterAt s.room.roster (positionAfter s.received) ∧
        c.content.Nodup ∧
        (s.phase = .live → s.stream = [] → s.position = s.room.roster.length →
          (c.content : Multiset RosterPeer) = s.room.rosterPeers) := by
  have hinv := Feed.inv_of_reachable h
  refine ⟨hinv.published.roster, fun c hc => ?_⟩
  obtain ⟨m, hm, hlive, hfollows⟩ := hinv.follows
  obtain ⟨hreceived, hcopy⟩ := hfollows.copy c hc
  have hcontent : (c.content : Multiset RosterPeer) =
    rosterAt s.room.roster (positionAfter s.received) := hcopy.content
  refine ⟨⟨exists_reach_eq_positionAfter hreceived, hfollows.behind⟩, hcopy.within,
    hcopy.revision, hcontent, ?_, fun hphase hstream hposition => ?_⟩
  · have hnodup := hinv.published.nodup _ hcopy.within
    rw [← hcontent] at hnodup
    exact Multiset.coe_nodup.mp hnodup
  · -- the copy is where the receiver is
    have hend := hfollows.fits
    rw [hstream] at hend
    have hle := hlive hphase
    obtain rfl : positionAfter s.received = m := hend
    rw [hcontent, hinv.published.roster, Nat.le_antisymm hm (hposition ▸ hle)]

/-- A peer joins before the subscription, one between it and the snapshot, and one after that; the
pod takes three frames. -/
def threeJoins : List FeedAction :=
  [.call (.addPeer 1 "a" 2), .subscribe, .call (.addPeer 2 "b" 2), .register,
    .call (.addPeer 3 "c" 2), .receive, .receive, .deliver, .deliver, .deliver]

/-- The pod has the three peers. -/
theorem roster_replicated_threeJoins :
    ∃ s, rosterFeed.run Feed.new threeJoins = some s ∧
      s.replica = some ⟨3, [⟨"c", 2⟩, ⟨"a", 0⟩, ⟨"b", 1⟩]⟩ ∧
      (([⟨"c", 2⟩, ⟨"a", 0⟩, ⟨"b", 1⟩] : List RosterPeer) : Multiset RosterPeer) =
        rosterAt s.room.roster (positionAfter s.received) := by
  obtain ⟨s, hs⟩ : ∃ s, rosterFeed.run Feed.new threeJoins = some s :=
    isSome_iff_exists.mp (by decide)
  have hreplica : (rosterFeed.run Feed.new threeJoins).bind Feed.replica =
      some ⟨3, [⟨"c", 2⟩, ⟨"a", 0⟩, ⟨"b", 1⟩]⟩ := by decide
  rw [hs, bind_some] at hreplica
  exact ⟨s, hs, hreplica, ((roster_replicated ⟨_, _, rfl, hs⟩).2 _ hreplica).2.2.2.1⟩

end Buzz.Audio
