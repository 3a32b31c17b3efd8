import Buzz.Lib.AntiEntropy
import Buzz.Lib.KeyMap
import Buzz.Relay.Tunnel.Directory
import Mathlib.Data.List.Sort

/-!
# Gossip records and messages

A runtime has a record of itself, with a version that only it increases. The records that a runtime
knows are summarised in a digest, and a digest is answered with the records it lacks or is behind on.

A hash map that is keyed by the id of its records is a list of records with distinct ids; the order
of the list stands for the order of the map, and does not matter.
-/

namespace Buzz.Mesh

open Tunnel (RuntimeId)

def gossipPayloadVersion : Nat := 1

def u64Max : Nat := 18446744073709551615

/-- `GossipRecord`; the load is kept as the bits of its float. -/
structure GossipRecord where
  runtimeId : RuntimeId
  endpointAddrs : List String
  protoVersion : Nat
  load : UInt32
  draining : Bool
  capabilities : List String
  version : Nat
  heartbeatMillis : Nat
  deriving DecidableEq

/-- `GossipRecord::new`, at a reading of the clock. -/
def GossipRecord.new (runtimeId : RuntimeId) (endpointAddrs : List String) (protoVersion : Nat)
    (nowMillis : Nat) : GossipRecord :=
  { runtimeId, endpointAddrs, protoVersion, load := 0, draining := false, capabilities := [],
    version := 1, heartbeatMillis := nowMillis }

/-- The version that a node knows of another. -/
structure GossipDigestEntry where
  runtimeId : RuntimeId
  version : Nat

/-- What two runtimes exchange. -/
inductive GossipMessage where
  | digest (version : Nat) (entries : List GossipDigestEntry)
  | delta (version : Nat) (records : List GossipRecord)

/-- `saturating_add(1)`, of a version up to `u64Max`. -/
def bumpVersion (version : Nat) : Nat := if version < u64Max then version + 1 else version

theorem le_bumpVersion (version : Nat) : version ≤ bumpVersion version := by
  unfold bumpVersion
  split
  · exact Nat.le_succ _
  · exact Nat.le_refl _

/-- What an update of the own record changes. -/
structure LocalUpdate where
  endpointAddrs : Option (List String)
  load : Option UInt32
  draining : Option Bool
  capabilities : Option (List String)

/-- `update_local`, on the record: the update, the next version, and the time. -/
def LocalUpdate.apply (update : LocalUpdate) (nowMillis : Nat) (r : GossipRecord) : GossipRecord :=
  { r with
    endpointAddrs := update.endpointAddrs.getD r.endpointAddrs
    load := update.load.getD r.load
    draining := update.draining.getD r.draining
    capabilities := update.capabilities.getD r.capabilities
    version := bumpVersion r.version
    heartbeatMillis := nowMillis }

/-- `sort_by_key`, by the id in hexadecimal. -/
def sortByHex {α : Type} (id : α → RuntimeId) (l : List α) : List α :=
  l.insertionSort fun a b => ¬ (id b).toHex < (id a).toHex

/-- The digest of a list of records. -/
def digestOf (records : List GossipRecord) : GossipMessage :=
  .digest gossipPayloadVersion
    (sortByHex GossipDigestEntry.runtimeId (records.map fun r => ⟨r.runtimeId, r.version⟩))

/-- `remote_versions.get`: the last entry for an id. -/
def remoteVersion (entries : List GossipDigestEntry) (id : RuntimeId) : Option Nat :=
  (entries.reverse.find? fun e => e.runtimeId == id).map GossipDigestEntry.version

/-- The records that a digest lacks or is behind on. -/
def deltaOf (records : List GossipRecord) (entries : List GossipDigestEntry) : GossipMessage :=
  .delta gossipPayloadVersion (sortByHex GossipRecord.runtimeId (records.filter fun r =>
    (remoteVersion entries r.runtimeId).all fun remote => decide (remote < r.version)))

/-- The entries of a message, if `decode_message` accepts it as a digest. -/
def GossipMessage.entries? : GossipMessage → Option (List GossipDigestEntry)
  | .digest version entries => if version = gossipPayloadVersion then some entries else none
  | .delta _ _ => none

/-- The records of a message, if `decode_message` accepts it as a delta. -/
def GossipMessage.records? : GossipMessage → Option (List GossipRecord)
  | .digest _ _ => none
  | .delta version records => if version = gossipPayloadVersion then some records else none

/-! ### Records by id -/

def recordOf (records : List GossipRecord) (id : RuntimeId) : Option GossipRecord :=
  lookupKey GossipRecord.runtimeId records id

/-- The version of a record, if there is one. -/
def rankOf : Option GossipRecord → WithBot ℕ
  | some r => WithBot.some r.version
  | none => ⊥

/-- The version of the record of an id. -/
def versionOf (records : List GossipRecord) (id : RuntimeId) : WithBot ℕ :=
  rankOf (recordOf records id)

def DistinctIds (records : List GossipRecord) : Prop := (records.map GossipRecord.runtimeId).Nodup

variable {records : List GossipRecord} {r : GossipRecord}

theorem versionOf_eq_some (h : DistinctIds records) (hr : r ∈ records) :
    versionOf records r.runtimeId = WithBot.some r.version := by
  rw [versionOf, recordOf, (lookupKey_eq_some_iff h).mpr ⟨hr, rfl⟩, rankOf]

variable {id : RuntimeId}

theorem mem_of_versionOf {n : ℕ} (h : versionOf records id = WithBot.some n) :
    ∃ r ∈ records, r.runtimeId = id ∧ r.version = n := by
  unfold versionOf rankOf at h
  split at h
  · next r hr =>
    exact ⟨r, (mem_of_lookupKey hr).1, (mem_of_lookupKey hr).2, WithBot.coe_inj.mp h⟩
  · exact absurd h WithBot.bot_ne_coe

/-! ### Digests and deltas -/

theorem mem_sortByHex {α : Type} {id : α → RuntimeId} {l : List α} {a : α} :
    a ∈ sortByHex id l ↔ a ∈ l := (List.perm_insertionSort _ _).mem_iff

variable {entries : List GossipDigestEntry}

/-- The records of a delta are among those it was made from. -/
theorem mem_deltaOf {delta : List GossipRecord}
    (h : (deltaOf records entries).records? = some delta) (hr : r ∈ delta) : r ∈ records := by
  cases h
  exact (List.mem_filter.mp (mem_sortByHex.mp hr)).1

theorem remoteVersion_digestOf (hdistinct : DistinctIds records)
    (h : (digestOf records).entries? = some entries) {remote : Nat}
    (hremote : remoteVersion entries id = some remote) :
    versionOf records id = WithBot.some remote := by
  cases h
  obtain ⟨e, he, rfl⟩ := Option.map_eq_some_iff.mp hremote
  obtain rfl := beq_iff_eq.mp (List.find?_some (p := fun e : GossipDigestEntry => e.runtimeId == id) he)
  have hmem := mem_sortByHex.mp (List.mem_reverse.mp (List.mem_of_find?_eq_some he))
  obtain ⟨r, hr, rfl⟩ := List.mem_map.mp hmem
  exact versionOf_eq_some hdistinct hr

/-- The delta for a digest has every record that is newer. -/
theorem mem_deltaOf_digestOf {others : List GossipRecord} (hothers : DistinctIds others) {n : ℕ}
    (hn : versionOf records id = WithBot.some n) (hlt : versionOf others id < WithBot.some n)
    (hentries : (digestOf others).entries? = some entries) {delta : List GossipRecord}
    (hdelta : (deltaOf records entries).records? = some delta) :
    ∃ r ∈ delta, r.runtimeId = id ∧ r.version = n := by
  obtain ⟨r, hr, rfl, rfl⟩ := mem_of_versionOf hn
  cases hdelta
  refine ⟨r, mem_sortByHex.mpr (List.mem_filter.mpr ⟨hr, ?_⟩), rfl, rfl⟩
  cases hremote : remoteVersion entries r.runtimeId with
  | none => rfl
  | some remote =>
    rw [remoteVersion_digestOf hothers hentries hremote] at hlt
    exact decide_eq_true (WithBot.coe_lt_coe.mp hlt)

end Buzz.Mesh
