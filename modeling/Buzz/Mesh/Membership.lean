import Buzz.Mesh.Gossip

/-!
# The membership table

The record of the local runtime, and a table of the other runtimes it knows. The table is fed with
gossip and with attested records from the ready registry, and never has an entry for the local
runtime. The signature scheme of the attestations is a parameter.
-/

namespace Buzz.Mesh

open List
open Tunnel (RuntimeId)

/-- `PhiAccrual`, without the estimate made of it. -/
structure PhiAccrual where
  samples : List Nat
  lastHeartbeat : Option Nat
  maxSamples : Nat

def PhiAccrual.default : PhiAccrual := ⟨[], none, 100⟩

def PhiAccrual.observe (phi : PhiAccrual) (heartbeat : Nat) : PhiAccrual :=
  let samples :=
    match phi.lastHeartbeat with
    | some prev =>
      if prev < heartbeat then
        let samples := phi.samples ++ [heartbeat - prev]
        if phi.maxSamples < samples.length then samples.tail else samples
      else phi.samples
    | none => phi.samples
  { phi with samples := samples, lastHeartbeat := some heartbeat }

inductive ConnectionState where
  | disconnected
  | connecting
  | connected
  | suspect

/-- What a node knows of a peer. -/
structure PeerState where
  record : GossipRecord
  phi : PhiAccrual
  connectionState : ConnectionState

def PeerState.runtimeId (p : PeerState) : RuntimeId := p.record.runtimeId

/-- The entry of a runtime that is new. -/
def PeerState.first (record : GossipRecord) : PeerState :=
  ⟨record, PhiAccrual.default.observe record.heartbeatMillis, .connected⟩

/-- The entry of a runtime with a newer record. -/
def PeerState.take (record : GossipRecord) (p : PeerState) : PeerState :=
  ⟨record, p.phi.observe record.heartbeatMillis, .connected⟩

theorem PeerState.runtimeId_first (record : GossipRecord) :
    (PeerState.first record).runtimeId = record.runtimeId := rfl

theorem PeerState.runtimeId_take (record : GossipRecord) (p : PeerState) :
    (PeerState.take record p).runtimeId = record.runtimeId := rfl

/-- What a node publishes when it is ready. -/
structure ReadyRecord where
  runtimeId : RuntimeId
  runtimePubkey : String
  relayPubkey : String
  relaySig : String
  endpointAddrs : List String
  protoVersion : Nat
  capabilities : List String

/-- `verify_attestation` on a runtime, a relay key and a signature. -/
abbrev VerifyAttestation := RuntimeId → String → String → Bool

def ReadyRecord.verifyAttestation (verify : VerifyAttestation) (ready : ReadyRecord) : Bool :=
  ready.runtimePubkey == ready.runtimeId.toHex &&
    verify ready.runtimeId ready.relayPubkey ready.relaySig

/-- The record that a ready record stands for: a first one, with the time at which it was read. -/
def ReadyRecord.seed (ready : ReadyRecord) (nowMillis : Nat) : GossipRecord :=
  { GossipRecord.new ready.runtimeId ready.endpointAddrs ready.protoVersion nowMillis with
    capabilities := ready.capabilities }

/-- A node's view of the mesh. -/
structure MeshMembership where
  localRecord : GossipRecord
  peers : List PeerState
  isDraining : Bool
  foreignRelayRejections : Nat
  expectedRelayPubkey : Option String
  distinct : (peers.map PeerState.runtimeId).Nodup
  notLocal : ∀ p ∈ peers, p.runtimeId ≠ localRecord.runtimeId

namespace MeshMembership

variable (m : MeshMembership)

def localRuntimeId : RuntimeId := m.localRecord.runtimeId

/-- `new`, and `with_expected_relay_pubkey`. -/
def new (localRecord : GossipRecord) (expectedRelayPubkey : Option String) : MeshMembership :=
  ⟨localRecord, [], false, 0, expectedRelayPubkey, nodup_nil, nofun⟩

/-- `apply_gossip_record`: the table, and whether the record was taken over. -/
def applyGossipRecord (record : GossipRecord) : MeshMembership × Bool :=
  if hlocal : record.runtimeId = m.localRecord.runtimeId then (m, false)
  else if (lookupKey PeerState.runtimeId m.peers record.runtimeId).any fun p =>
      decide (record.version ≤ p.record.version) then (m, false)
  else
    ({ m with
      peers := upsertKey PeerState.runtimeId record.runtimeId (PeerState.take record)
        (PeerState.first record) m.peers
      distinct := nodup_upsertKey (fun p _ => PeerState.runtimeId_take record p)
        (PeerState.runtimeId_first record) m.distinct
      notLocal := fun p hp => by
        obtain ⟨hid, -⟩ | ⟨-, hmem⟩ := mem_upsertKey
          (fun p _ => PeerState.runtimeId_take record p) (PeerState.runtimeId_first record) hp
        · exact hid ▸ hlocal
        · exact m.notLocal p hmem }, true)

/-- A ready record is attested by the relay that the runtime belongs to. -/
def admits (verify : VerifyAttestation) (ready : ReadyRecord) : Bool :=
  m.expectedRelayPubkey == some ready.relayPubkey && ready.verifyAttestation verify

/-- One record of `apply_ready_records`. -/
def applyReadyRecord (verify : VerifyAttestation) (nowMillis : Nat) (ready : ReadyRecord) :
    MeshMembership :=
  if ready.runtimeId = m.localRecord.runtimeId then m
  else if m.expectedRelayPubkey ≠ some ready.relayPubkey then
    { m with foreignRelayRejections := m.foreignRelayRejections + 1 }
  else if ready.verifyAttestation verify then
    (m.applyGossipRecord
      { GossipRecord.new ready.runtimeId ready.endpointAddrs ready.protoVersion nowMillis with
        capabilities := ready.capabilities }).1
  else m

def updateLocal (update : LocalUpdate) (nowMillis : Nat) : MeshMembership :=
  { m with localRecord := update.apply nowMillis m.localRecord }

def beginDrain (nowMillis : Nat) : MeshMembership :=
  { m.updateLocal ⟨none, none, some true, none⟩ nowMillis with isDraining := true }

def records : List GossipRecord := m.peers.map PeerState.record ++ [m.localRecord]

def digest : GossipMessage := digestOf m.records

def deltaFor (entries : List GossipDigestEntry) : GossipMessage := deltaOf m.records entries

end MeshMembership

/-! ### Records of the table -/

namespace MeshMembership

variable (m : MeshMembership)

theorem distinctIds_records : DistinctIds m.records := by
  unfold DistinctIds records
  rw [map_append, map_map]
  refine nodup_append.mpr ⟨m.distinct, nodup_singleton _, fun a ha b hb => ?_⟩
  obtain ⟨p, hp, rfl⟩ := mem_map.mp ha
  obtain rfl := mem_singleton.mp hb
  exact m.notLocal p hp

def peerRecord (id : RuntimeId) : Option GossipRecord :=
  (lookupKey PeerState.runtimeId m.peers id).map PeerState.record

theorem recordOf_local : recordOf m.records m.localRuntimeId = some m.localRecord :=
  (lookupKey_eq_some_iff m.distinctIds_records).mpr
    ⟨mem_append_right _ mem_cons_self, rfl⟩

variable {id : RuntimeId}

theorem recordOf_peer (hid : id ≠ m.localRuntimeId) : recordOf m.records id = m.peerRecord id := by
  refine Option.ext fun r => ?_
  rw [recordOf, lookupKey_eq_some_iff m.distinctIds_records, peerRecord, Option.map_eq_some_iff]
  simp only [lookupKey_eq_some_iff m.distinct]
  constructor
  · rintro ⟨hr, rfl⟩
    obtain hr | hr := mem_append.mp hr
    · obtain ⟨p, hp, rfl⟩ := mem_map.mp hr
      exact ⟨p, ⟨hp, rfl⟩, rfl⟩
    · obtain rfl := mem_singleton.mp hr
      exact absurd rfl hid
  · rintro ⟨p, ⟨hp, rfl⟩, rfl⟩
    exact ⟨mem_append_left _ (mem_map.mpr ⟨p, hp, rfl⟩), rfl⟩

variable {m}

theorem applyGossipRecord_cases (m : MeshMembership) (record : GossipRecord) :
    (m.applyGossipRecord record).1 = m ∧ (record.runtimeId = m.localRuntimeId ∨
        ∃ r, m.peerRecord record.runtimeId = some r ∧ record.version ≤ r.version) ∨
      record.runtimeId ≠ m.localRuntimeId ∧
      (∀ r, m.peerRecord record.runtimeId = some r → r.version < record.version) ∧
      (m.applyGossipRecord record).1.localRecord = m.localRecord ∧
      ∀ id, (m.applyGossipRecord record).1.peerRecord id =
        if id = record.runtimeId then some record else m.peerRecord id := by
  unfold applyGossipRecord
  split
  · next hlocal => exact .inl ⟨rfl, .inl hlocal⟩
  · next hlocal =>
    split
    · next hany =>
      obtain ⟨p, hp, hle⟩ := (Option.any_eq_true _ _).mp hany
      exact .inl ⟨rfl, .inr ⟨p.record, by rw [peerRecord, hp]; rfl, of_decide_eq_true hle⟩⟩
    · next hany =>
      refine .inr ⟨hlocal, fun r hr => ?_, rfl, fun id => ?_⟩
      · obtain ⟨p, hp, rfl⟩ := Option.map_eq_some_iff.mp hr
        refine Nat.lt_of_not_le fun hle => hany ?_
        exact (Option.any_eq_true _ _).mpr ⟨p, hp, decide_eq_true hle⟩
      · unfold peerRecord
        split
        · next heq =>
          rw [heq, lookupKey_upsertKey_self (fun p _ => PeerState.runtimeId_take record p)
            (PeerState.runtimeId_first record) m.distinct]
          cases lookupKey PeerState.runtimeId m.peers record.runtimeId with
          | none => rfl
          | some _ => rfl
        · next hne =>
          rw [lookupKey_upsertKey_of_ne (fun p _ => PeerState.runtimeId_take record p)
            (PeerState.runtimeId_first record) m.distinct hne]

/-- The version of the record of a runtime. -/
def version (m : MeshMembership) (id : RuntimeId) : WithBot ℕ := versionOf m.records id

theorem version_local (m : MeshMembership) :
    m.version m.localRuntimeId = WithBot.some m.localRecord.version := by
  rw [version, versionOf, recordOf_local, rankOf]

theorem version_peer {m : MeshMembership} (hid : id ≠ m.localRuntimeId) :
    m.version id = rankOf (m.peerRecord id) := by
  rw [version, versionOf, recordOf_peer m hid]

variable {record : GossipRecord}

theorem version_applyGossipRecord_self {m : MeshMembership}
    (hid : record.runtimeId ≠ m.localRuntimeId) :
    (m.applyGossipRecord record).1.version record.runtimeId =
      max (m.version record.runtimeId) (WithBot.some record.version) := by
  obtain ⟨hsame, hlocal | ⟨r, hr, hle⟩⟩ | ⟨-, hnewer, hown, hpeer⟩ := applyGossipRecord_cases m record
  · exact absurd hlocal hid
  · rw [hsame, version_peer hid, hr]
    exact (max_eq_left (WithBot.coe_le_coe.mpr hle)).symm
  · have hid' : record.runtimeId ≠ (m.applyGossipRecord record).1.localRuntimeId := by
      rwa [localRuntimeId, hown]
    rw [version_peer hid', hpeer, if_pos rfl, version_peer hid]
    cases hold : m.peerRecord record.runtimeId with
    | none => exact (max_eq_right bot_le).symm
    | some r => exact (max_eq_right (WithBot.coe_le_coe.mpr (hnewer r hold).le)).symm

theorem version_applyGossipRecord_of_ne {m : MeshMembership} (hne : id ≠ record.runtimeId) :
    (m.applyGossipRecord record).1.version id = m.version id := by
  obtain ⟨hsame, -⟩ | ⟨-, -, hown, hpeer⟩ := applyGossipRecord_cases m record
  · rw [hsame]
  · have hsame : (m.applyGossipRecord record).1.localRuntimeId = m.localRuntimeId := by
      rw [localRuntimeId, hown, localRuntimeId]
    by_cases hid : id = m.localRuntimeId
    · rw [hid, version_local]
      refine (congrArg _ hsame.symm).trans ((version_local _).trans ?_)
      rw [hown]
    · rw [version_peer hid, version_peer (hsame ▸ hid), hpeer, if_neg hne]

end MeshMembership

def membershipReplica : Replica MeshMembership GossipRecord RuntimeId GossipMessage where
  version := MeshMembership.version
  Owns m id := id = m.localRuntimeId
  key := GossipRecord.runtimeId
  rank := GossipRecord.version
  digest := MeshMembership.digest
  delta m digest := ((digest.entries?.map m.deltaFor).bind GossipMessage.records?).getD []
  apply m record := (m.applyGossipRecord record).1
  version_of_mem_delta m digest r hr := by
    cases hentries : digest.entries? with
    | none =>
      rw [hentries] at hr
      nomatch hr
    | some entries =>
      rw [hentries] at hr
      exact versionOf_eq_some m.distinctIds_records (mem_deltaOf rfl hr)
  mem_delta m t k n hn hlt := mem_deltaOf_digestOf t.distinctIds_records hn hlt rfl rfl
  apply_of_owns m record howns := by
    have hlocal : record.runtimeId = m.localRecord.runtimeId := howns
    rw [MeshMembership.applyGossipRecord, dif_pos hlocal]
  version_apply_self _ _ howns := MeshMembership.version_applyGossipRecord_self howns
  version_apply_of_ne _ _ _ hne := MeshMembership.version_applyGossipRecord_of_ne hne
  owns_apply m record id := by
    obtain ⟨hsame, -⟩ | ⟨-, -, hown, -⟩ := m.applyGossipRecord_cases record
    · rw [hsame]
    · rw [MeshMembership.localRuntimeId, hown, MeshMembership.localRuntimeId]

end Buzz.Mesh
