import Buzz.PushGateway.Authority

/-!
# The reference store

`MemoryAuthorityStore`, which the repository calls the executable reference of the authority store.
Its hash maps are maps here too. An operation holds the lock of the whole state, so it is a function
from the state to the next one and the answer.
-/

namespace Buzz.PushGateway

open Function

/-- `MemoryState`. -/
structure Memory where
  challenges : Uuid → Option Challenge
  installations : Uuid → Option Installation
  tokenOwners : AppProfile × Fingerprint → Option Uuid
  delegations : DelegationKey → Option Delegation
  delegationIds : Uuid → Option DelegationKey
  deliveryAuthReplays : PublicKey × EventId → Option Int
  deliveryRequestReplays : PublicKey × Uuid → Option Int
  /-- When the window of a quota began, and what was admitted in it. -/
  endpointQuotas : Fingerprint → Option (Int × Int)

def Memory.empty : Memory where
  challenges _ := none
  installations _ := none
  tokenOwners _ := none
  delegations _ := none
  delegationIds _ := none
  deliveryAuthReplays _ := none
  deliveryRequestReplays _ := none
  endpointQuotas _ := none

def i64Min : Int := -9223372036854775808

/-- `i64::saturating_sub`. -/
def saturatingSub (a b : Int) : Int := max i64Min (min i64Max (a - b))

namespace Memory

/-- `Err(AuthorityError::Rejected)`. -/
def rejects (m : Memory) : Memory × Reply := (m, .error .rejected)

/-- `put_challenge`. A challenge with the same id is replaced before the call is rejected. -/
def putChallenge (challenge : Challenge) (m : Memory) : Memory × Reply :=
  ({ m with challenges := update m.challenges challenge.id (some challenge) },
    if (m.challenges challenge.id).isSome then .error .rejected else .ok)

/-- `consume_challenge`. The challenge is gone, whatever comes of the call. -/
def consumeChallenge (id : Uuid) (value : BitVec 256) (now : Int) (m : Memory) : Memory × Reply :=
  match m.challenges id with
  | none => m.rejects
  | some challenge =>
    ({ m with challenges := update m.challenges id none },
      if challenge.value != value || decide (challenge.expiresAt < now) then .error .rejected
      else .ok)

def installationOf (n : NewInstallation) : Installation := { n with revoked := false }

def createInstallation (n : NewInstallation) (m : Memory) : Memory × Reply :=
  if (m.installations n.id).isSome || (m.tokenOwners (n.profile, n.tokenFingerprint)).isSome then
    m.rejects
  else
    ({ m with
        tokenOwners := update m.tokenOwners (n.profile, n.tokenFingerprint) (some n.id)
        installations := update m.installations n.id (some (installationOf n)) }, .ok)

def installation (id : Uuid) (now : Int) (m : Memory) : Memory × Reply :=
  match (m.installations id).filter fun i => !i.revoked && decide (i.expiresAt ≥ now) with
  | none => m.rejects
  | some i => (m, .installation i)

def advanceAssertionCounter (id : Uuid) (previous next : UInt32) (m : Memory) : Memory × Reply :=
  if next ≤ previous then m.rejects
  else
    match m.installations id with
    | none => m.rejects
    | some i =>
      if i.revoked || i.assertionCounter != previous then m.rejects
      else
        ({ m with
            installations :=
              update m.installations id (some { i with assertionCounter := next }) },
          .ok)

/-- `upsert_delegation`. The id of a delegation that is replaced stays. -/
def upsertDelegation (d : Delegation) (m : Memory) : Memory × Reply :=
  match m.installations d.installationId with
  | none => m.rejects
  | some i =>
    if i.revoked || i.endpointEpoch != d.endpointEpoch || decide (d.generation < 1) ||
        decide (d.notBefore ≥ d.expiresAt) || decide (d.expiresAt > i.expiresAt) then
      m.rejects
    else if ((m.delegations d.key).any fun old => decide (d.generation ≤ old.generation)) ||
        (m.delegationIds d.id).isSome then
      m.rejects
    else
      ({ m with
          delegationIds := update m.delegationIds d.id (some d.key)
          delegations := update m.delegations d.key (some d) }, .ok)

def rotateEndpoint (id : Uuid) (expected new : Int) (ciphertext : List UInt8)
    (fingerprint : Fingerprint) (m : Memory) : Memory × Reply :=
  if !followsEpoch expected new then m.rejects
  else
    match m.installations id with
    | none => m.rejects
    | some i =>
      if i.revoked || i.endpointEpoch != expected then m.rejects
      else if (m.tokenOwners (i.profile, fingerprint)).any fun owner => owner != id then m.rejects
      else
        ({ m with
            tokenOwners := update
              (update m.tokenOwners (i.profile, i.tokenFingerprint) none)
              (i.profile, fingerprint) (some id)
            installations := update m.installations id
              (some { i with
                endpointEpoch := new
                tokenCiphertext := ciphertext
                tokenFingerprint := fingerprint }) }, .ok)

def revokeDelegation (id : Uuid) (relay : PublicKey) (generation : Int) (m : Memory) :
    Memory × Reply :=
  match m.delegations (id, relay) with
  | none => m.rejects
  | some old =>
    if generation ≤ old.generation then m.rejects
    else
      ({ m with
          delegations := update m.delegations (id, relay)
            (some { old with
              generation := generation
              revoked := true }) }, .ok)

def revokeInstallation (id : Uuid) (expected new : Int) (m : Memory) : Memory × Reply :=
  if !followsEpoch expected new then m.rejects
  else
    match m.installations id with
    | none => m.rejects
    | some i =>
      if i.revoked || i.endpointEpoch != expected then m.rejects
      else
        ({ m with
            installations := update m.installations id
              (some { i with
                endpointEpoch := new
                revoked := true }) }, .ok)

/-- The grant is for this delegation of this installation, and both are in force. -/
def authorizes (g : DeliveryCall) (d : Delegation) (i : Installation) : Bool :=
  !(d.revoked || i.revoked || d.id != g.delegationId || d.relayPubkey != g.relayPubkey ||
    d.endpointEpoch != g.endpointEpoch || d.generation != g.generation ||
    i.endpointEpoch != g.endpointEpoch || decide (g.now < d.notBefore) ||
    decide (g.now > d.expiresAt) || decide (g.now > i.expiresAt) ||
    decide (g.requestExpiresAt < g.now) || decide (g.requestExpiresAt > d.expiresAt))

def permit (g : DeliveryCall) (d : Delegation) (i : Installation) : DeliveryPermit where
  authority :=
    { delegationId := g.delegationId
      installationId := i.id
      relayPubkey := g.relayPubkey
      profile := i.profile
      tokenCiphertext := i.tokenCiphertext
      endpointEpoch := g.endpointEpoch
      generation := g.generation
      expiresAt := d.expiresAt }
  relayPubkey := g.relayPubkey
  requestId := g.requestId

/-- The window of a quota, and what was admitted in it, before this delivery. -/
def quota (g : DeliveryCall) (row : Option (Int × Int)) : Int × Int :=
  let q := row.getD (g.now, 0)
  if saturatingSub g.now q.1 ≥ g.quotaWindowSeconds then (g.now, 0) else q

/-- The part of `authorize_delivery` after the authority is checked. -/
def reserve (g : DeliveryCall) (d : Delegation) (i : Installation) (m : Memory) :
    Memory × Reply :=
  if (m.deliveryAuthReplays (g.relayPubkey, g.eventId)).isSome ||
      (m.deliveryRequestReplays (g.relayPubkey, g.requestId)).isSome then
    m.rejects
  else
    let q := quota g (m.endpointQuotas i.tokenFingerprint)
    if q.2 ≥ g.quotaMaxDeliveries then
      ({ m with endpointQuotas := update m.endpointQuotas i.tokenFingerprint (some q) },
        .error .rejected)
    else
      ({ m with
          endpointQuotas :=
            update m.endpointQuotas i.tokenFingerprint (some (q.1, q.2 + 1))
          deliveryAuthReplays := update m.deliveryAuthReplays (g.relayPubkey, g.eventId)
            (some g.requestExpiresAt)
          deliveryRequestReplays := update m.deliveryRequestReplays
            (g.relayPubkey, g.requestId) (some g.requestExpiresAt) }, .permit (permit g d i))

def authorizeDelivery (g : DeliveryCall) (m : Memory) : Memory × Reply :=
  match (m.delegationIds g.delegationId).bind m.delegations with
  | none => m.rejects
  | some d =>
    match m.installations d.installationId with
    | none => m.rejects
    | some i => if authorizes g d i then reserve g d i m else m.rejects

def finishDelivery (permit : DeliveryPermit) (disposition : DeliveryDisposition) (m : Memory) :
    Memory × Reply :=
  match disposition with
  | .terminal => (m, .ok)
  | .retryable =>
    ({ m with
        deliveryRequestReplays := update m.deliveryRequestReplays
          (permit.relayPubkey, permit.requestId) none }, .ok)

/-- `reap_expired`. Installations and delegations stay. -/
def reapExpired (now : Int) (m : Memory) : Memory × Reply :=
  ({ m with
      challenges := fun id => (m.challenges id).filter fun c => decide (c.expiresAt ≥ now)
      deliveryAuthReplays := fun k => (m.deliveryAuthReplays k).filter fun e => decide (e ≥ now)
      deliveryRequestReplays := fun k =>
        (m.deliveryRequestReplays k).filter fun e => decide (e ≥ now)
      endpointQuotas := fun k =>
        (m.endpointQuotas k).filter fun q => decide (saturatingSub now q.1 < 86400) }, .ok)

def call (m : Memory) : Operation → Memory × Reply
  | .putChallenge c => m.putChallenge c
  | .consumeChallenge id value now => m.consumeChallenge id value now
  | .createInstallation n => m.createInstallation n
  | .installation id now => m.installation id now
  | .advanceAssertionCounter id previous next => m.advanceAssertionCounter id previous next
  | .upsertDelegation d => m.upsertDelegation d
  | .rotateEndpoint id expected new ciphertext fingerprint =>
    m.rotateEndpoint id expected new ciphertext fingerprint
  | .revokeDelegation id relay generation => m.revokeDelegation id relay generation
  | .revokeInstallation id expected new => m.revokeInstallation id expected new
  | .authorizeDelivery g => m.authorizeDelivery g
  | .finishDelivery p disposition => m.finishDelivery p disposition
  | .reapExpired now _ => m.reapExpired now

end Memory

end Buzz.PushGateway
