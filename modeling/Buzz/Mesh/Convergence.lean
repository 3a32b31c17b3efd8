import Buzz.Mesh.Membership
import Mathlib.Logic.Function.Basic

/-!
# Gossip converges

Any number of runtimes. A runtime starts once, with an id of its own. It changes its own record, takes
ready records from the registry, sends digests, answers them, and takes over the records of deltas,
one by one. Every message that was sent stays in the network and may be received at any time, by
anybody, any number of times, so messages are delayed, duplicated, reordered and lost.

A relay attests a runtime when the runtime starts, and signatures are not forged: a ready record
that a runtime admits is that of a runtime that has started.

Records of peers move to higher versions only. Nobody has a version of a runtime's record that the
runtime has not produced itself. So the own record of a runtime is the newest one, and an exchange
between two runtimes leaves the newer of their records at every key, on both sides.
-/

/-! ## Runtimes that gossip -/

namespace Buzz.Mesh

open Tunnel (RuntimeId)

/-- The nodes, and every message sent. -/
structure World where
  nodes : RuntimeId → Option MeshMembership
  sent : List GossipMessage

/-- A step of a node. -/
inductive Action where
  | start (id : RuntimeId) (endpointAddrs : List String) (protoVersion : Nat)
      (capabilities : List String) (expectedRelayPubkey : Option String) (nowMillis : Nat)
  | update (id : RuntimeId) (update : LocalUpdate) (nowMillis : Nat)
  | drain (id : RuntimeId) (nowMillis : Nat)
  | ready (id : RuntimeId) (record : ReadyRecord) (nowMillis : Nat)
  | digest (id : RuntimeId)
  | answer (id : RuntimeId) (message : Nat)
  | receive (id : RuntimeId) (message record : Nat)

namespace World

variable (w : World)

/-- The table of a runtime changes. -/
def setNode (id : RuntimeId) (m : MeshMembership) : World :=
  { w with nodes := Function.update w.nodes id (some m) }

def send (message : GossipMessage) : World := { w with sent := w.sent ++ [message] }

def step (verify : VerifyAttestation) : Action → Option World
  | .start id endpointAddrs protoVersion capabilities expectedRelayPubkey nowMillis =>
    match w.nodes id with
    | none =>
      let localRecord :=
        { GossipRecord.new id endpointAddrs protoVersion nowMillis with capabilities := capabilities }
      some (w.setNode id (MeshMembership.new localRecord expectedRelayPubkey))
    | some _ => none
  | .update id update nowMillis =>
    (w.nodes id).map fun m => w.setNode id (m.updateLocal update nowMillis)
  | .drain id nowMillis => (w.nodes id).map fun m => w.setNode id (m.beginDrain nowMillis)
  | .ready id record nowMillis =>
    (w.nodes id).bind fun m =>
      if m.admits verify record → (w.nodes record.runtimeId).isSome then
        some (w.setNode id (m.applyReadyRecord verify nowMillis record))
      else none
  | .digest id => (w.nodes id).map fun m => w.send m.digest
  | .answer id message =>
    (w.nodes id).bind fun m =>
      ((w.sent[message]?).bind GossipMessage.entries?).map fun entries => w.send (m.deltaFor entries)
  | .receive id message record =>
    (w.nodes id).bind fun m =>
      (((w.sent[message]?).bind GossipMessage.records?).bind fun records => records[record]?).map
        fun r => w.setNode id (m.applyGossipRecord r).1

end World

/-- The mesh, when no runtime has started. -/
def mesh (verify : VerifyAttestation) : StateMachine World Action where
  Init w := w = ⟨fun _ => none, []⟩
  step w := w.step verify

end Buzz.Mesh

/-! ## Convergence -/

namespace Buzz.Mesh

open Tunnel (RuntimeId)

/-- Runtimes stay, their own versions do not fall, and records of peers stay or become newer. -/
def Grows (w w' : World) : Prop :=
  ∀ id m, w.nodes id = some m → ∃ m', w'.nodes id = some m' ∧
    m.localRecord.version ≤ m'.localRecord.version ∧
    ∀ peer r, peer ≠ id → m.peerRecord peer = some r →
      ∃ r', m'.peerRecord peer = some r' ∧ (r' = r ∨ r.version < r'.version)

/-- The runtime of the record has reached this version of it. -/
def Produced (w : World) (r : GossipRecord) : Prop :=
  ∃ m, w.nodes r.runtimeId = some m ∧ r.version ≤ m.localRecord.version

/-- The invariant of the mesh: every record was produced by its node. -/
structure Inv (w : World) : Prop where
  ids : ∀ id m, w.nodes id = some m → m.localRuntimeId = id
  started : ∀ id m, w.nodes id = some m → 1 ≤ m.localRecord.version
  known : ∀ id m, w.nodes id = some m → ∀ r ∈ m.records, Produced w r
  sent : ∀ message ∈ w.sent, ∀ records, message.records? = some records →
    ∀ r ∈ records, Produced w r

/-! ### Growth -/

theorem Grows.refl (w : World) : Grows w w :=
  fun _ m hm => ⟨m, hm, Nat.le_refl _, fun _ r _ hr => ⟨r, hr, .inl rfl⟩⟩

theorem Grows.trans {w₁ w₂ w₃ : World} (h : Grows w₁ w₂) (h' : Grows w₂ w₃) : Grows w₁ w₃ := by
  intro id m hm
  obtain ⟨m₂, hm₂, hown, hpeers⟩ := h id m hm
  obtain ⟨m₃, hm₃, hown', hpeers'⟩ := h' id m₂ hm₂
  refine ⟨m₃, hm₃, hown.trans hown', fun peer r hne hr => ?_⟩
  obtain ⟨r₂, hr₂, hnewer⟩ := hpeers peer r hne hr
  obtain ⟨r₃, hr₃, hnewer'⟩ := hpeers' peer r₂ hne hr₂
  refine ⟨r₃, hr₃, ?_⟩
  obtain rfl | hlt := hnewer
  · exact hnewer'
  · obtain rfl | hlt' := hnewer'
    · exact .inr hlt
    · exact .inr (hlt.trans hlt')

variable {w : World} {r : GossipRecord}

theorem Grows.produced {w' : World} (h : Grows w w') (hr : Produced w r) : Produced w' r := by
  obtain ⟨m, hm, hle⟩ := hr
  obtain ⟨m', hm', hown, -⟩ := h _ m hm
  exact ⟨m', hm', hle.trans hown⟩

variable {id : RuntimeId} {m : MeshMembership}

theorem World.nodes_setNode {other : RuntimeId} :
    (w.setNode id m).nodes other = if other = id then some m else w.nodes other :=
  Function.update_apply ..

theorem grows_setNode {m' : MeshMembership} (hm : w.nodes id = some m)
    (hown : m.localRecord.version ≤ m'.localRecord.version)
    (hpeers : ∀ peer r, peer ≠ id → m.peerRecord peer = some r →
      ∃ r', m'.peerRecord peer = some r' ∧ (r' = r ∨ r.version < r'.version)) :
    Grows w (w.setNode id m') := by
  intro other n hn
  by_cases heq : other = id
  · subst heq
    obtain rfl := Option.some.inj (hm.symm.trans hn)
    exact ⟨m', World.nodes_setNode.trans (if_pos rfl), hown, hpeers⟩
  · refine ⟨n, World.nodes_setNode.trans ((if_neg heq).trans hn), Nat.le_refl _, ?_⟩
    exact fun peer r _ hr => ⟨r, hr, .inl rfl⟩

theorem peerRecord_applyGossipRecord (m : MeshMembership) (record : GossipRecord)
    (peer : RuntimeId) (r : GossipRecord) (hr : m.peerRecord peer = some r) :
    ∃ r', (m.applyGossipRecord record).1.peerRecord peer = some r' ∧
      (r' = r ∨ r.version < r'.version) := by
  obtain ⟨hsame, -⟩ | ⟨-, hnewer, -, hpeer⟩ := m.applyGossipRecord_cases record
  · rw [hsame]
    exact ⟨r, hr, .inl rfl⟩
  · rw [hpeer]
    split
    · next heq => exact ⟨record, rfl, .inr (hnewer r (heq ▸ hr))⟩
    · exact ⟨r, hr, .inl rfl⟩

theorem localRecord_applyGossipRecord (m : MeshMembership) (record : GossipRecord) :
    (m.applyGossipRecord record).1.localRecord = m.localRecord := by
  obtain ⟨hsame, -⟩ | ⟨-, -, hown, -⟩ := m.applyGossipRecord_cases record
  · rw [hsame]
  · exact hown

theorem applyReadyRecord_cases (m : MeshMembership) (verify : VerifyAttestation) (nowMillis : Nat)
    (ready : ReadyRecord) :
    (m.applyReadyRecord verify nowMillis ready).localRecord = m.localRecord ∧
        (m.applyReadyRecord verify nowMillis ready).peers = m.peers ∨
      m.admits verify ready = true ∧
        m.applyReadyRecord verify nowMillis ready =
          (m.applyGossipRecord (ready.seed nowMillis)).1 := by
  unfold MeshMembership.applyReadyRecord
  split
  · exact .inl ⟨rfl, rfl⟩
  split
  · exact .inl ⟨rfl, rfl⟩
  · next hpubkey =>
    split
    · next hverify =>
      refine .inr ⟨(Bool.and_eq_true _ _).mpr ⟨?_, hverify⟩, rfl⟩
      exact beq_iff_eq.mpr (not_not.mp hpubkey)
    · exact .inl ⟨rfl, rfl⟩

variable {verify : VerifyAttestation}

theorem grows_step {w' : World} {a : Action} (hs : w.step verify a = some w') : Grows w w' := by
  cases a with
  | start id endpointAddrs protoVersion capabilities expectedRelayPubkey nowMillis =>
    dsimp only [World.step] at hs
    split at hs
    · next hnone =>
      cases hs
      intro other n hn
      have hne : other ≠ id := by
        rintro rfl
        nomatch hnone.symm.trans hn
      refine ⟨n, World.nodes_setNode.trans ((if_neg hne).trans hn), Nat.le_refl _, ?_⟩
      exact fun peer r _ hr => ⟨r, hr, .inl rfl⟩
    · nomatch hs
  | update id update nowMillis | drain id nowMillis =>
    obtain ⟨m, hm, rfl⟩ := Option.map_eq_some_iff.mp hs
    exact grows_setNode hm (le_bumpVersion _) fun _ r _ hr => ⟨r, hr, .inl rfl⟩
  | ready id record nowMillis =>
    obtain ⟨m, hm, hs⟩ := Option.bind_eq_some_iff.mp hs
    obtain ⟨-, hs⟩ := Option.ite_none_right_eq_some.mp hs
    cases hs
    obtain ⟨hown, hpeers⟩ | ⟨-, heq⟩ := applyReadyRecord_cases m verify nowMillis record
    · refine grows_setNode hm (by rw [hown]) fun peer r _ hr => ⟨r, ?_, .inl rfl⟩
      rwa [MeshMembership.peerRecord, hpeers]
    · rw [heq]
      refine grows_setNode hm (by rw [localRecord_applyGossipRecord]) fun peer r' _ hr => ?_
      exact peerRecord_applyGossipRecord m (record.seed nowMillis) peer r' hr
  | digest id =>
    obtain ⟨m, -, rfl⟩ := Option.map_eq_some_iff.mp hs
    exact Grows.refl w
  | answer id message =>
    obtain ⟨m, -, hs⟩ := Option.bind_eq_some_iff.mp hs
    obtain ⟨entries, -, rfl⟩ := Option.map_eq_some_iff.mp hs
    exact Grows.refl w
  | receive id message record =>
    obtain ⟨m, hm, hs⟩ := Option.bind_eq_some_iff.mp hs
    obtain ⟨r, -, rfl⟩ := Option.map_eq_some_iff.mp hs
    refine grows_setNode hm (by rw [localRecord_applyGossipRecord]) fun peer r' _ hr => ?_
    exact peerRecord_applyGossipRecord m r peer r' hr

/-! ### Never ahead -/

theorem peerRecord_of_mem {p : PeerState} (hp : p ∈ m.peers) :
    m.peerRecord p.runtimeId = some p.record := by
  rw [MeshMembership.peerRecord, (lookupKey_eq_some_iff m.distinct).mpr ⟨hp, rfl⟩]
  rfl

theorem mem_records_of_peerRecord (h : m.peerRecord id = some r) :
    r ∈ m.records ∧ r.runtimeId = id := by
  obtain ⟨p, hp, rfl⟩ := Option.map_eq_some_iff.mp h
  obtain ⟨hmem, hid⟩ := mem_of_lookupKey hp
  exact ⟨List.mem_append_left _ (List.mem_map.mpr ⟨p, hmem, rfl⟩), hid⟩

theorem Inv.setNode (h : Inv w) (hgrows : Grows w (w.setNode id m)) (hid : m.localRuntimeId = id)
    (hversion : 1 ≤ m.localRecord.version)
    (hpeers : ∀ peer r, m.peerRecord peer = some r → Produced w r) : Inv (w.setNode id m) where
  ids other n hn := by
    rw [World.nodes_setNode] at hn
    split at hn
    · next heq =>
      cases hn
      exact hid.trans heq.symm
    · exact h.ids other n hn
  started other n hn := by
    rw [World.nodes_setNode] at hn
    split at hn
    · exact Option.some.inj hn ▸ hversion
    · exact h.started other n hn
  known other n hn r hr := by
    rw [World.nodes_setNode] at hn
    split at hn
    · cases hn
      obtain hr | hr := List.mem_append.mp hr
      · obtain ⟨p, hp, rfl⟩ := List.mem_map.mp hr
        exact hgrows.produced (hpeers _ _ (peerRecord_of_mem hp))
      · obtain rfl := List.mem_singleton.mp hr
        exact ⟨m, World.nodes_setNode.trans (if_pos hid), Nat.le_refl _⟩
    · exact hgrows.produced (h.known other n hn r hr)
  sent message hmessage records hrecords r hr :=
    hgrows.produced (h.sent message hmessage records hrecords r hr)

theorem Inv.send (h : Inv w) {message : GossipMessage}
    (hrecords : ∀ records, message.records? = some records → ∀ r ∈ records, Produced w r) :
    Inv (w.send message) where
  __ := h
  sent other hother := by
    obtain hother | hother := List.mem_append.mp hother
    · exact h.sent other hother
    · obtain rfl := List.mem_singleton.mp hother
      exact hrecords

theorem Inv.applyGossipRecord (h : Inv w) (hm : w.nodes id = some m) {record : GossipRecord}
    (hrecord : Produced w record) : Inv (w.setNode id (m.applyGossipRecord record).1) := by
  have hown := localRecord_applyGossipRecord m record
  refine h.setNode (grows_setNode hm (by rw [hown]) fun peer r _ hr => ?_) ?_ ?_ fun peer r hr => ?_
  · exact peerRecord_applyGossipRecord m record peer r hr
  · rw [MeshMembership.localRuntimeId, hown]
    exact h.ids id m hm
  · rw [hown]
    exact h.started id m hm
  · obtain ⟨hsame, -⟩ | ⟨-, -, -, hpeer⟩ := m.applyGossipRecord_cases record
    · rw [hsame] at hr
      exact h.known id m hm r (mem_records_of_peerRecord hr).1
    · rw [hpeer] at hr
      split at hr
      · exact Option.some.inj hr ▸ hrecord
      · exact h.known id m hm r (mem_records_of_peerRecord hr).1

theorem Inv.step {w' : World} (h : Inv w) {a : Action} (hs : w.step verify a = some w') :
    Inv w' := by
  have hgrows := grows_step hs
  cases a with
  | start id endpointAddrs protoVersion capabilities expectedRelayPubkey nowMillis =>
    dsimp only [World.step] at hs
    split at hs
    · cases hs
      exact h.setNode hgrows rfl (Nat.le_refl 1) fun _ _ hr => by cases hr
    · cases hs
  | update id update nowMillis | drain id nowMillis =>
    obtain ⟨m, hm, rfl⟩ := Option.map_eq_some_iff.mp hs
    have hversion := (h.started id m hm).trans (le_bumpVersion _)
    refine h.setNode hgrows (h.ids id m hm) hversion fun peer r hr => ?_
    exact h.known id m hm r (mem_records_of_peerRecord (m := m) hr).1
  | ready id record nowMillis =>
    obtain ⟨m, hm, hs⟩ := Option.bind_eq_some_iff.mp hs
    obtain ⟨hattested, hs⟩ := Option.ite_none_right_eq_some.mp hs
    cases hs
    obtain ⟨hown, hpeers⟩ | ⟨hadmits, heq⟩ := applyReadyRecord_cases m verify nowMillis record
    · refine h.setNode hgrows ?_ ?_ fun peer r hr => ?_
      · rw [MeshMembership.localRuntimeId, hown]
        exact h.ids id m hm
      · rw [hown]
        exact h.started id m hm
      · rw [MeshMembership.peerRecord, hpeers] at hr
        exact h.known id m hm r (mem_records_of_peerRecord (m := m) hr).1
    · obtain ⟨n, hn⟩ := Option.isSome_iff_exists.mp (hattested hadmits)
      rw [heq]
      exact h.applyGossipRecord hm ⟨n, hn, h.started _ n hn⟩
  | digest id =>
    obtain ⟨m, -, rfl⟩ := Option.map_eq_some_iff.mp hs
    exact h.send fun _ h => by cases h
  | answer id message =>
    obtain ⟨m, hm, hs⟩ := Option.bind_eq_some_iff.mp hs
    obtain ⟨entries, -, rfl⟩ := Option.map_eq_some_iff.mp hs
    exact h.send fun records hrecords r hr => h.known id m hm r (mem_deltaOf hrecords hr)
  | receive id message record =>
    obtain ⟨m, hm, hs⟩ := Option.bind_eq_some_iff.mp hs
    obtain ⟨r, hr, rfl⟩ := Option.map_eq_some_iff.mp hs
    obtain ⟨records, hrecords, hr⟩ := Option.bind_eq_some_iff.mp hr
    obtain ⟨delta, hdelta, hrecords⟩ := Option.bind_eq_some_iff.mp hrecords
    exact h.applyGossipRecord hm (h.sent delta (List.mem_of_getElem? hdelta) records hrecords r
      (List.mem_of_getElem? hr))

theorem Inv.init (h : (mesh verify).Init w) : Inv w := by
  obtain rfl := h
  exact
    { ids := nofun
      started := nofun
      known := nofun
      sent := nofun }

theorem inv_of_reachable (h : (mesh verify).Reachable w) : Inv w :=
  h.invariant (fun _ hw => Inv.init hw) fun _ _ _ _ hinv hs => hinv.step hs

theorem Inv.version_le (h : Inv w) {other : RuntimeId} {n : MeshMembership}
    (hm : w.nodes id = some m) (hn : w.nodes other = some n) : n.version id ≤ m.version id := by
  have hid := h.ids id m hm
  rw [← hid, m.version_local, hid, MeshMembership.version, versionOf]
  cases hr : recordOf n.records id with
  | none => exact bot_le
  | some r =>
    obtain ⟨hmem, hrid⟩ := mem_of_lookupKey hr
    obtain ⟨m', hm', hle⟩ := h.known other n hn r hmem
    rw [hrid, hm] at hm'
    exact Option.some.inj hm' ▸ WithBot.coe_le_coe.mpr hle

def sides (m n : MeshMembership) : Bool → MeshMembership
  | true => m
  | false => n

/-- **Gossip.** Along every run, a record of a peer stays or moves to a higher version. In every
state, a record of a peer has a version that the peer has reached itself. An exchange of digests and
deltas between two runtimes that nobody else talks to, with its steps in any order, leaves the newer
version at every runtime on both sides. -/
theorem gossip_converges (verify : VerifyAttestation) :
    (∀ w as w', (mesh verify).run w as = some w' → Grows w w') ∧
    (∀ w, (mesh verify).Reachable w → ∀ id m, w.nodes id = some m → ∀ r ∈ m.records,
      ∃ owner, w.nodes r.runtimeId = some owner ∧ r.version ≤ owner.localRecord.version) ∧
    ∀ w, (mesh verify).Reachable w → ∀ id other m n, w.nodes id = some m → w.nodes other = some n →
      ∀ x, (exchange membershipReplica (sides m n)).Reachable x → x.Complete →
        ∀ side peer, (x side).state.version peer = max (m.version peer) (n.version peer) := by
  refine ⟨fun w as w' hr => ?_, fun w h => (inv_of_reachable h).known,
    fun w h id other m n hm hn x hx hcomplete side peer => ?_⟩
  · exact StateMachine.run_le (R := Grows) Grows.refl (fun _ _ _ => Grows.trans)
      (fun _ _ _ hs => grows_step hs) hr
  · have hinv := inv_of_reachable h
    have howned : Exchange.Owned membershipReplica (sides m n) := by
      rintro (_ | _) k rfl
      · have hid := hinv.ids other n hn
        exact hid.symm ▸ hinv.version_le hn hm
      · have hid := hinv.ids id m hm
        exact hid.symm ▸ hinv.version_le hm hn
    have hmax := version_of_complete howned hx hcomplete side peer
    cases side with
    | false => exact hmax.trans (max_comm _ _)
    | true => exact hmax

/-- A runtime whose id is one byte, repeated. -/
def byteId (b : UInt8) : RuntimeId := ⟨List.replicate 32 b, List.length_replicate⟩

/-- A ready record of the runtime, attested by the relay `r`. -/
def readyOf (b : UInt8) : ReadyRecord :=
  ⟨byteId b, (byteId b).toHex, "r", "s", ["10.0.0.1:7001"], 1, []⟩

/-- Two runtimes start, one of them updates itself, and they learn of each other. -/
def meetActions : List Action :=
  [.start (byteId 1) ["10.0.0.1:7001"] 1 [] (some "r") 0, .start (byteId 2) [] 1 [] (some "r") 0,
    .ready (byteId 2) (readyOf 1) 5, .update (byteId 1) ⟨none, none, none, none⟩ 10,
    .digest (byteId 2), .answer (byteId 1) 0, .update (byteId 1) ⟨none, none, some true, none⟩ 20]

/-- Both digests are sent before the first answer, and the records are applied in turns. -/
def exchangeActions : List ExchangeAction :=
  [.ask true, .ask false, .answer true, .answer false, .apply false, .apply true]

theorem gossip_converges_meet : ∃ w m n x, (mesh fun _ _ _ => true).run ⟨fun _ => none, []⟩
    meetActions = some w ∧ w.nodes (byteId 1) = some m ∧ w.nodes (byteId 2) = some n ∧
    (exchange membershipReplica (sides m n)).run (fun side => ⟨sides m n side, none, none⟩)
      exchangeActions = some x ∧
    ∀ side peer, (x side).state.version peer = max (m.version peer) (n.version peer) := by
  have hany : ((mesh fun _ _ _ => true).run ⟨fun _ => none, []⟩ meetActions).any (fun w =>
      (w.nodes (byteId 1)).any fun m => (w.nodes (byteId 2)).any fun n =>
        ((exchange membershipReplica (sides m n)).run (fun side => ⟨sides m n side, none, none⟩)
          exchangeActions).any fun x =>
            decide ((x true).inbox = some []) && decide ((x false).inbox = some [])) = true := by
    decide +kernel
  obtain ⟨w, hrun, hw⟩ := (Option.any_eq_true _ _).mp hany
  obtain ⟨m, hm, hw⟩ := (Option.any_eq_true _ _).mp hw
  obtain ⟨n, hn, hw⟩ := (Option.any_eq_true _ _).mp hw
  obtain ⟨x, hx, hcomplete⟩ := (Option.any_eq_true _ _).mp hw
  obtain ⟨htrue, hfalse⟩ := (Bool.and_eq_true _ _).mp hcomplete
  have hall : x.Complete := by
    rintro (_ | _)
    · exact of_decide_eq_true hfalse
    · exact of_decide_eq_true htrue
  exact ⟨w, m, n, x, hrun, hm, hn, hx, (gossip_converges _).2.2 w ⟨_, _, rfl, hrun⟩ _ _ m n hm hn
    x ⟨_, _, rfl, hx⟩ hall⟩

end Buzz.Mesh
