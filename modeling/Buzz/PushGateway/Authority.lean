import Buzz.Core.Basic
import Buzz.Lib.RowLocks
import Mathlib.Logic.Function.Basic

/-!
# The authority store of the push gateway

The tables of `PostgresAuthorityStore` and its operations, as transactions. A table is a map from its
key to its rows; the unique indexes that the statements rely on are maps of their own, and so is the
list of relays that an installation's delegations are for, which the foreign key looks at.

An `UPDATE` or `DELETE` locks the row under its key and checks its condition under the lock; an
`INSERT` locks its unique keys. Relay keys and event ids are the 32 bytes that the handlers pass in
hexadecimal. `clock` is `now()`, in microseconds.
-/

namespace Buzz.PushGateway

open Function

/-! ### Values -/

inductive AppProfile where
  | buzzIosProduction
  | buzzIosSandbox
  deriving DecidableEq

/-- A SHA-256 fingerprint of an APNs token. -/
abbrev Fingerprint := BitVec 256

structure Challenge where
  id : Uuid
  value : BitVec 256
  /-- When it expires, in Unix seconds. -/
  expiresAt : Int

/-- What is known of an installation when it enrols. -/
structure NewInstallation where
  id : Uuid
  appAttestKeyId : List UInt8
  appAttestPublicKey : List UInt8
  assertionCounter : UInt32
  profile : AppProfile
  tokenCiphertext : List UInt8
  tokenFingerprint : Fingerprint
  endpointEpoch : Int
  /-- When the installation expires, in Unix seconds. -/
  expiresAt : Int
  deriving DecidableEq

structure Installation extends NewInstallation where
  revoked : Bool
  deriving DecidableEq

/-- A delegation of an installation to a relay. -/
structure Delegation where
  id : Uuid
  installationId : Uuid
  relayPubkey : PublicKey
  endpointEpoch : Int
  generation : Int
  /-- From when on it holds, in Unix seconds. -/
  notBefore : Int
  /-- Until when it holds, in Unix seconds. -/
  expiresAt : Int
  revoked : Bool

/-- What a relay may deliver to. -/
structure DeliveryAuthority where
  delegationId : Uuid
  installationId : Uuid
  relayPubkey : PublicKey
  profile : AppProfile
  tokenCiphertext : List UInt8
  endpointEpoch : Int
  generation : Int
  expiresAt : Int
  deriving DecidableEq

structure DeliveryPermit where
  authority : DeliveryAuthority
  relayPubkey : PublicKey
  requestId : Uuid
  deriving DecidableEq

inductive DeliveryDisposition where
  | terminal
  | retryable
  deriving DecidableEq

inductive AuthorityError where
  | rejected
  | unavailable
  deriving DecidableEq

/-- The arguments of `authorize_delivery`. -/
structure DeliveryCall where
  delegationId : Uuid
  relayPubkey : PublicKey
  endpointEpoch : Int
  generation : Int
  eventId : EventId
  requestId : Uuid
  /-- When the request expires, in Unix seconds. -/
  requestExpiresAt : Int
  quotaWindowSeconds : Int
  quotaMaxDeliveries : Int
  now : Int

/-! ### Tables -/

/-- A row of `push_gateway_challenges`. -/
structure ChallengeRow where
  challengeHash : BitVec 256
  /-- When it expires, in Unix seconds. -/
  expiresAt : Int

/-- A row of `push_gateway_installations`. -/
structure InstallationRow where
  appAttestKeyId : List UInt8
  appAttestPublicKey : List UInt8
  assertionCounter : UInt32
  appProfile : AppProfile
  tokenCiphertext : List UInt8
  tokenFingerprint : Fingerprint
  endpointEpoch : Int
  /-- When the installation expires, in Unix seconds. -/
  expiresAt : Int
  /-- When it was revoked, in microseconds. -/
  revokedAt : Option Int

/-- A row of `push_gateway_delegations`. -/
structure DelegationRow where
  id : Uuid
  endpointEpoch : Int
  generation : Int
  /-- From when on it holds, in Unix seconds. -/
  notBefore : Int
  /-- Until when it holds, in Unix seconds. -/
  expiresAt : Int
  /-- When it was revoked, in microseconds. -/
  revokedAt : Option Int

/-- A row of `push_gateway_endpoint_quotas`. -/
structure QuotaRow where
  /-- When the window began, in Unix seconds. -/
  windowStartedAt : Int
  admitted : Int
  /-- When the row was written, in microseconds. -/
  updatedAt : Int

/-- The unique key of a delegation: the installation and the relay. -/
abbrev DelegationKey := Uuid × PublicKey

structure Tables where
  challenges : Uuid → Option ChallengeRow
  installations : Uuid → Option InstallationRow
  attestKeys : List UInt8 → Option Uuid
  tokens : AppProfile × Fingerprint → Option Uuid
  /-- `push_gateway_delegations`, by `(installation_id, relay_pubkey)`. -/
  delegations : DelegationKey → Option DelegationRow
  delegationIds : Uuid → Option DelegationKey
  relays : Uuid → List PublicKey
  quotas : Fingerprint → Option QuotaRow
  /-- `push_gateway_delivery_auth_replays`: when the fence expires. -/
  authReplays : PublicKey × EventId → Option Int
  /-- `push_gateway_delivery_request_replays`: when the fence expires. -/
  requestReplays : PublicKey × Uuid → Option Int

def Tables.empty : Tables where
  challenges _ := none
  installations _ := none
  attestKeys _ := none
  tokens _ := none
  delegations _ := none
  delegationIds _ := none
  relays _ := []
  quotas _ := none
  authReplays _ := none
  requestReplays _ := none

inductive LockKey where
  | challenge (id : Uuid)
  | installation (id : Uuid)
  | attestKey (key : List UInt8)
  | token (key : AppProfile × Fingerprint)
  | delegation (key : DelegationKey)
  | delegationId (id : Uuid)
  | quota (fingerprint : Fingerprint)
  | authReplay (key : PublicKey × EventId)
  | requestReplay (key : PublicKey × Uuid)
  deriving DecidableEq

inductive Reply where
  | ok
  | installation (i : Installation)
  | permit (p : DeliveryPermit)
  | error (e : AuthorityError)
  deriving DecidableEq

abbrev AuthorityTxn := Txn Tables LockKey Reply

/-- A transaction that ends with this error. -/
def fails (e : AuthorityError) : AuthorityTxn := .rollback (.error e)

def locking (k : LockKey) (next : AuthorityTxn) : AuthorityTxn := .lock ⟨k, .exclusive⟩ next

/-- An `UPDATE`, `INSERT` or `DELETE` of locked rows. -/
def writing (change : Tables → Tables) (next : AuthorityTxn) : AuthorityTxn :=
  .write (fun _ => ()) (fun _ => change) next

def storable (ts : Int) : Bool := decide (minTimestamptzSecs ≤ ts)

/-! ### Challenges and installations -/

def Tables.setChallenge (id : Uuid) (row : Option ChallengeRow) (t : Tables) : Tables :=
  { t with challenges := update t.challenges id row }

variable (sha256 : BitVec 256 → BitVec 256)

def putChallenge (c : Challenge) : AuthorityTxn :=
  if !isUtcSecs c.expiresAt then fails .rejected
  else
    locking (.challenge c.id) <|
    .read (fun t => t.challenges c.id) fun row =>
    if row.isSome || !storable c.expiresAt then fails .unavailable
    else
      writing (Tables.setChallenge c.id (some ⟨sha256 c.value, c.expiresAt⟩)) <| .commit .ok

def consumeChallenge (id : Uuid) (value : BitVec 256) (now : Int) : AuthorityTxn :=
  if !isUtcSecs now then fails .rejected
  else if !storable now then fails .unavailable
  else
    locking (.challenge id) <|
    .read (fun t => t.challenges id) fun row =>
    if row.any fun c => c.challengeHash == sha256 value && decide (c.expiresAt ≥ now) then
      writing (Tables.setChallenge id none) <| .commit .ok
    else fails .rejected

/-- The `CHECK` constraints of `push_gateway_installations`. -/
def NewInstallation.check (n : NewInstallation) : Bool :=
  decide (1 ≤ n.appAttestKeyId.length ∧ n.appAttestKeyId.length ≤ 128) &&
    decide (33 ≤ n.appAttestPublicKey.length ∧ n.appAttestPublicKey.length ≤ 256) &&
    decide (1 ≤ n.tokenCiphertext.length ∧ n.tokenCiphertext.length ≤ 2048) &&
    decide (0 < n.endpointEpoch) && storable n.expiresAt

def NewInstallation.row (n : NewInstallation) : InstallationRow where
  appAttestKeyId := n.appAttestKeyId
  appAttestPublicKey := n.appAttestPublicKey
  assertionCounter := n.assertionCounter
  appProfile := n.profile
  tokenCiphertext := n.tokenCiphertext
  tokenFingerprint := n.tokenFingerprint
  endpointEpoch := n.endpointEpoch
  expiresAt := n.expiresAt
  revokedAt := none

def Tables.insertInstallation (n : NewInstallation) (t : Tables) : Tables :=
  { t with
    installations := update t.installations n.id (some n.row)
    attestKeys := update t.attestKeys n.appAttestKeyId (some n.id)
    tokens := update t.tokens (n.profile, n.tokenFingerprint) (some n.id) }

def createInstallation (n : NewInstallation) : AuthorityTxn :=
  if !isUtcSecs n.expiresAt then fails .rejected
  else if !n.check then fails .unavailable
  else
    locking (.installation n.id) <|
    locking (.attestKey n.appAttestKeyId) <|
    locking (.token (n.profile, n.tokenFingerprint)) <|
    .read (fun t => (t.installations n.id).isSome || (t.attestKeys n.appAttestKeyId).isSome ||
      (t.tokens (n.profile, n.tokenFingerprint)).isSome) fun conflict =>
    if conflict then fails .rejected else writing (Tables.insertInstallation n) <| .commit .ok

def InstallationRow.installation (id : Uuid) (i : InstallationRow) : Installation where
  id := id
  appAttestKeyId := i.appAttestKeyId
  appAttestPublicKey := i.appAttestPublicKey
  assertionCounter := i.assertionCounter
  profile := i.appProfile
  tokenCiphertext := i.tokenCiphertext
  tokenFingerprint := i.tokenFingerprint
  endpointEpoch := i.endpointEpoch
  expiresAt := i.expiresAt
  revoked := false

def installation (id : Uuid) (now : Int) : AuthorityTxn :=
  if !isUtcSecs now then fails .rejected
  else if !storable now then fails .unavailable
  else
    .read (fun t => t.installations id) fun row =>
    match row with
    | some i =>
      if i.revokedAt.isNone && decide (i.expiresAt ≥ now) then
        .rollback (.installation (i.installation id))
      else fails .rejected
    | none => fails .rejected

/-- An `UPDATE` of an installation's row. -/
def Tables.modifyInstallation (id : Uuid) (f : InstallationRow → InstallationRow) (t : Tables) :
    Tables :=
  { t with installations := update t.installations id ((t.installations id).map f) }

/-- The update of an installation's row, where its condition holds. -/
def updateInstallation (id : Uuid) (condition : InstallationRow → Bool)
    (next : InstallationRow → AuthorityTxn) : AuthorityTxn :=
  locking (.installation id) <|
  .read (fun t => t.installations id) fun row =>
  match row with
  | some i => if condition i then next i else fails .rejected
  | none => fails .rejected

def advanceAssertionCounter (id : Uuid) (previous next : UInt32) : AuthorityTxn :=
  if next ≤ previous then fails .rejected
  else
    updateInstallation id (fun i => i.assertionCounter == previous && i.revokedAt.isNone) fun _ =>
    writing (Tables.modifyInstallation id fun i => { i with assertionCounter := next }) <|
    .commit .ok

/-- The epochs follow each other, in `i64`. -/
def followsEpoch (expected new : Int) : Bool := expected != i64Max && new == expected + 1

def InstallationRow.rotate (new : Int) (ciphertext : List UInt8) (fingerprint : Fingerprint)
    (i : InstallationRow) : InstallationRow :=
  { i with
    endpointEpoch := new
    tokenCiphertext := ciphertext
    tokenFingerprint := fingerprint }

def InstallationRow.revoke (clock new : Int) (i : InstallationRow) : InstallationRow :=
  { i with
    endpointEpoch := new
    revokedAt := some clock }

/-- Move an installation to another token in the unique index. -/
def Tables.moveToken (id : Uuid) (profile : AppProfile) (old new : Fingerprint) (t : Tables) :
    Tables :=
  { t with
    tokens := update (update t.tokens (profile, old) none) (profile, new)
      (some id) }

def rotateEndpoint (id : Uuid) (expected new : Int) (ciphertext : List UInt8)
    (fingerprint : Fingerprint) : AuthorityTxn :=
  if !followsEpoch expected new then fails .rejected
  else
    updateInstallation id (fun i => i.endpointEpoch == expected && i.revokedAt.isNone) fun i =>
    if !decide (1 ≤ ciphertext.length ∧ ciphertext.length ≤ 2048 ∧ 0 < new) then
      fails .unavailable
    else
      locking (.token (i.appProfile, i.tokenFingerprint)) <|
      locking (.token (i.appProfile, fingerprint)) <|
      .read (fun t => t.tokens (i.appProfile, fingerprint)) fun owner =>
      if owner.any fun o => o != id then fails .unavailable
      else
        writing (Tables.moveToken id i.appProfile i.tokenFingerprint fingerprint ∘
          Tables.modifyInstallation id (InstallationRow.rotate new ciphertext fingerprint)) <|
        .commit .ok

def revokeInstallation (clock : Int) (id : Uuid) (expected new : Int) : AuthorityTxn :=
  if !followsEpoch expected new then fails .rejected
  else
    updateInstallation id (fun i => i.endpointEpoch == expected && i.revokedAt.isNone) fun _ =>
    if !decide (0 < new) then fails .unavailable
    else
      writing (Tables.modifyInstallation id (InstallationRow.revoke clock new)) <| .commit .ok

/-! ### Delegations -/

def Delegation.key (d : Delegation) : DelegationKey := (d.installationId, d.relayPubkey)

def Delegation.row (d : Delegation) : DelegationRow where
  id := d.id
  endpointEpoch := d.endpointEpoch
  generation := d.generation
  notBefore := d.notBefore
  expiresAt := d.expiresAt
  revokedAt := none

/-- The `CHECK` constraints of `push_gateway_delegations`. -/
def Delegation.check (d : Delegation) : Bool :=
  decide (0 < d.endpointEpoch) && decide (0 < d.generation) &&
    decide (d.notBefore < d.expiresAt) && storable d.notBefore && storable d.expiresAt

/-- Add a delegation, or replace the one with this id. -/
def Tables.putDelegation (d : Delegation) (old : Option Uuid) (t : Tables) : Tables :=
  { t with
    delegations := update t.delegations d.key (some d.row)
    delegationIds := update
      (old.elim t.delegationIds fun id => update t.delegationIds id none)
      d.id (some d.key)
    relays := update t.relays d.installationId
      (d.relayPubkey :: (t.relays d.installationId).filter fun r => r != d.relayPubkey) }

/-- The write of `upsert_delegation`, when no other row has the id. -/
def writeDelegation (d : Delegation) (old : Option Uuid) : AuthorityTxn :=
  locking (.delegationId d.id) <|
  .read (fun t => t.delegationIds d.id) fun taken =>
  if taken.any fun k => k != d.key then fails .unavailable
  else writing (Tables.putDelegation d old) <| .commit .ok

def upsertDelegation (d : Delegation) : AuthorityTxn :=
  locking (.installation d.installationId) <|
  .read (fun t => t.installations d.installationId) fun row =>
  match row with
  | none => fails .rejected
  | some i =>
    if i.revokedAt.isSome || i.endpointEpoch != d.endpointEpoch || !isUtcSecs d.expiresAt ||
        decide (d.expiresAt > i.expiresAt) || !isUtcSecs d.notBefore then
      fails .rejected
    else if !d.check then fails .unavailable
    else
      locking (.delegation d.key) <|
      .read (fun t => t.delegations d.key) fun old =>
      match old with
      | none => writeDelegation d none
      | some old =>
        if d.generation > old.generation then
          locking (.delegationId old.id) <| writeDelegation d (some old.id)
        else fails .rejected

def DelegationRow.revoke (clock generation : Int) (d : DelegationRow) : DelegationRow :=
  { d with
    generation := generation
    revokedAt := some clock }

/-- An `UPDATE` of a delegation's row. -/
def Tables.modifyDelegation (k : DelegationKey) (f : DelegationRow → DelegationRow) (t : Tables) :
    Tables :=
  { t with delegations := update t.delegations k ((t.delegations k).map f) }

def revokeDelegation (clock : Int) (id : Uuid) (relay : PublicKey) (generation : Int) :
    AuthorityTxn :=
  locking (.delegation (id, relay)) <|
  .read (fun t => t.delegations (id, relay)) fun row =>
  match row with
  | none => fails .rejected
  | some d =>
    if d.generation < generation then
      writing (Tables.modifyDelegation (id, relay) (DelegationRow.revoke clock generation)) <|
      .commit .ok
    else fails .rejected

/-! ### Deliveries -/

/-- The delegation is the one that the grant names, and in force. -/
def DelegationRow.authorizes (g : DeliveryCall) (d : DelegationRow) : Bool :=
  d.id == g.delegationId && d.endpointEpoch == g.endpointEpoch && d.generation == g.generation &&
    d.revokedAt.isNone && decide (d.notBefore ≤ g.now) && decide (d.expiresAt ≥ g.now)

/-- The installation is at the grant's epoch, and in force. -/
def InstallationRow.authorizes (g : DeliveryCall) (i : InstallationRow) : Bool :=
  i.revokedAt.isNone && i.endpointEpoch == g.endpointEpoch && decide (i.expiresAt ≥ g.now)

def permit (g : DeliveryCall) (installationId : Uuid) (i : InstallationRow) (d : DelegationRow) :
    DeliveryPermit where
  authority :=
    { delegationId := g.delegationId
      installationId := installationId
      relayPubkey := g.relayPubkey
      profile := i.appProfile
      tokenCiphertext := i.tokenCiphertext
      endpointEpoch := g.endpointEpoch
      generation := g.generation
      expiresAt := d.expiresAt }
  relayPubkey := g.relayPubkey
  requestId := g.requestId

/-- The quota row after an admission; `none` when the quota is used up. -/
def admitted (clock : Int) (g : DeliveryCall) : Option QuotaRow → Option QuotaRow
  | none => some ⟨g.now, 1, clock⟩
  | some q =>
    if q.windowStartedAt ≤ g.now - g.quotaWindowSeconds then some ⟨g.now, 1, clock⟩
    else if q.admitted < g.quotaMaxDeliveries then
      some ⟨q.windowStartedAt, q.admitted + 1, clock⟩
    else none

def Tables.setQuota (fingerprint : Fingerprint) (row : Option QuotaRow) (t : Tables) : Tables :=
  { t with quotas := update t.quotas fingerprint row }

/-- Put up or take down the fence of a NIP-98 event. -/
def Tables.setAuthReplay (k : PublicKey × EventId) (row : Option Int) (t : Tables) : Tables :=
  { t with authReplays := update t.authReplays k row }

/-- Put up or take down the fence of a request. -/
def Tables.setRequestReplay (k : PublicKey × Uuid) (row : Option Int) (t : Tables) : Tables :=
  { t with requestReplays := update t.requestReplays k row }

/-- The part of `authorize_delivery` after the authority is read. -/
def reserve (clock : Int) (g : DeliveryCall) (installationId : Uuid) (i : InstallationRow)
    (d : DelegationRow) : AuthorityTxn :=
  if g.requestExpiresAt < g.now || decide (g.requestExpiresAt > d.expiresAt) then fails .rejected
  else if g.quotaWindowSeconds < 1 || decide (g.quotaMaxDeliveries < 1) then fails .unavailable
  else
    locking (.quota i.tokenFingerprint) <|
    .read (fun t => admitted clock g (t.quotas i.tokenFingerprint)) fun quota =>
    match quota with
    | none => fails .rejected
    | some quota =>
      writing (Tables.setQuota i.tokenFingerprint (some quota)) <|
      locking (.authReplay (g.relayPubkey, g.eventId)) <|
      .read (fun t => (t.authReplays (g.relayPubkey, g.eventId)).isSome) fun taken =>
      if taken then fails .rejected
      else
        writing (Tables.setAuthReplay (g.relayPubkey, g.eventId) (some g.requestExpiresAt)) <|
        locking (.requestReplay (g.relayPubkey, g.requestId)) <|
        .read (fun t => (t.requestReplays (g.relayPubkey, g.requestId)).isSome) fun taken =>
        if taken then fails .rejected
        else
          writing (Tables.setRequestReplay (g.relayPubkey, g.requestId)
            (some g.requestExpiresAt)) <|
          .commit (.permit (permit g installationId i d))

/-- The delegation that the second `SELECT` of `authorize_delivery` finds. -/
def Tables.candidate (g : DeliveryCall) (t : Tables) : Option DelegationKey :=
  (t.delegationIds g.delegationId).filter fun k =>
    k.2 == g.relayPubkey && (t.delegations k).any (DelegationRow.authorizes g)

/-- The part of `authorize_delivery` after the installation is found. -/
def authorizeOn (clock : Int) (g : DeliveryCall) (installationId : Uuid) : AuthorityTxn :=
  updateInstallation installationId (InstallationRow.authorizes g) fun i =>
  .read (Tables.candidate g) fun found =>
  match found with
  | none => fails .rejected
  | some k =>
    locking (.delegation k) <|
    .read (fun t => t.delegations k) fun row =>
    match row with
    | none => fails .rejected
    | some d => if d.authorizes g then reserve clock g k.1 i d else fails .rejected

def authorizeDelivery (clock : Int) (g : DeliveryCall) : AuthorityTxn :=
  if !isUtcSecs g.now then fails .rejected
  else if !storable g.now then fails .unavailable
  else
    .read (fun t => (t.delegationIds g.delegationId).map Prod.fst) fun found =>
    match found with
    | none => fails .rejected
    | some installationId => authorizeOn clock g installationId

def finishDelivery (p : DeliveryPermit) : DeliveryDisposition → AuthorityTxn
  | .terminal => .commit .ok
  | .retryable =>
    locking (.requestReplay (p.relayPubkey, p.requestId)) <|
    writing (Tables.setRequestReplay (p.relayPubkey, p.requestId) none) <| .commit .ok

/-! ### Reaping -/

def daySecs : Int := 86400

/-- What the statements of `reap_expired` find in their snapshots. -/
structure Found where
  challenges : List Uuid
  /-- Expired fences of NIP-98 events. -/
  authReplays : List (PublicKey × EventId)
  requestReplays : List (PublicKey × Uuid)
  quotas : List Fingerprint
  parents : List Uuid
  delegations : List DelegationKey
  installations : List Uuid

/-- A row that was revoked more than a day before `now`, or expired. -/
def reapable (now expiresAt : Int) (revokedAt : Option Int) : Bool :=
  decide (expiresAt < now) || revokedAt.any fun r => decide (r < seconds (now - daySecs))

def Tables.deleteDelegation (k : DelegationKey) (id : Uuid) (t : Tables) : Tables :=
  { t with
    delegations := update t.delegations k none
    delegationIds := update t.delegationIds id none
    relays := update t.relays k.1 ((t.relays k.1).filter fun r => r != k.2) }

def Tables.deleteInstallation (id : Uuid) (i : InstallationRow) (t : Tables) : Tables :=
  { t with
    installations := update t.installations id none
    attestKeys := update t.attestKeys i.appAttestKeyId none
    tokens := update t.tokens (i.appProfile, i.tokenFingerprint) none }

variable (now : Int)

def reapChallenge (id : Uuid) (next : AuthorityTxn) : AuthorityTxn :=
  locking (.challenge id) <|
  .read (fun t => (t.challenges id).any fun c => decide (c.expiresAt < now)) fun expired =>
  if expired then writing (Tables.setChallenge id none) next else next

/-- Delete an expired fence of a NIP-98 event. -/
def reapAuthReplay (k : PublicKey × EventId) (next : AuthorityTxn) : AuthorityTxn :=
  locking (.authReplay k) <|
  .read (fun t => (t.authReplays k).any fun e => decide (e < now)) fun expired =>
  if expired then writing (Tables.setAuthReplay k none) next else next

/-- Delete an expired fence of a request. -/
def reapRequestReplay (k : PublicKey × Uuid) (next : AuthorityTxn) : AuthorityTxn :=
  locking (.requestReplay k) <|
  .read (fun t => (t.requestReplays k).any fun e => decide (e < now)) fun expired =>
  if expired then writing (Tables.setRequestReplay k none) next else next

def reapQuota (k : Fingerprint) (next : AuthorityTxn) : AuthorityTxn :=
  locking (.quota k) <|
  .read (fun t => (t.quotas k).any fun q => decide (q.updatedAt < seconds (now - daySecs)))
    fun old =>
  if old then writing (Tables.setQuota k none) next else next

/-- Delete a delegation that has expired or was revoked, or whose installation goes. -/
def reapDelegation (parents : List Uuid) (k : DelegationKey) (next : AuthorityTxn) :
    AuthorityTxn :=
  locking (.delegation k) <|
  .read (fun t => t.delegations k) fun row =>
  match row with
  | none => next
  | some d =>
    if reapable now d.expiresAt d.revokedAt || parents.contains k.1 then
      locking (.delegationId d.id) <| writing (Tables.deleteDelegation k d.id) next
    else next

/-- Delete an installation that has expired or was revoked. The foreign key refuses when it has
delegations. -/
def reapInstallation (id : Uuid) (next : AuthorityTxn) : AuthorityTxn :=
  locking (.installation id) <|
  .read (fun t => t.installations id) fun row =>
  match row with
  | none => next
  | some i =>
    if reapable now i.expiresAt i.revokedAt then
      locking (.attestKey i.appAttestKeyId) <|
      locking (.token (i.appProfile, i.tokenFingerprint)) <|
      .read (fun t => (t.relays id).isEmpty) fun childless =>
      if childless then writing (Tables.deleteInstallation id i) next else fails .unavailable
    else next

def reapExpired (found : Found) : AuthorityTxn :=
  if !isUtcSecs now then fails .rejected
  else if !storable now then fails .unavailable
  else
    found.challenges.foldr (reapChallenge now) <|
    found.authReplays.foldr (reapAuthReplay now) <|
    found.requestReplays.foldr (reapRequestReplay now) <|
    found.quotas.foldr (reapQuota now) <|
    found.delegations.foldr (reapDelegation now found.parents) <|
    found.installations.foldr (reapInstallation now) (.commit .ok)

/-! ### Calls -/

/-- The calls of the store's interface. -/
inductive Operation where
  | putChallenge (c : Challenge)
  | consumeChallenge (id : Uuid) (value : BitVec 256) (now : Int)
  | createInstallation (n : NewInstallation)
  | installation (id : Uuid) (now : Int)
  | advanceAssertionCounter (id : Uuid) (previous next : UInt32)
  | upsertDelegation (d : Delegation)
  | rotateEndpoint (id : Uuid) (expected new : Int) (ciphertext : List UInt8)
      (fingerprint : Fingerprint)
  | revokeDelegation (id : Uuid) (relay : PublicKey) (generation : Int)
  | revokeInstallation (id : Uuid) (expected new : Int)
  | authorizeDelivery (g : DeliveryCall)
  | finishDelivery (p : DeliveryPermit) (disposition : DeliveryDisposition)
  | reapExpired (now : Int) (found : Found)

structure Call where
  operation : Operation
  /-- `now()` in its transaction, in microseconds. -/
  clock : Int

def Call.txn (c : Call) : AuthorityTxn :=
  match c.operation with
  | .putChallenge challenge => putChallenge sha256 challenge
  | .consumeChallenge id value now => consumeChallenge sha256 id value now
  | .createInstallation n => createInstallation n
  | .installation id now => installation id now
  | .advanceAssertionCounter id previous next => advanceAssertionCounter id previous next
  | .upsertDelegation d => upsertDelegation d
  | .rotateEndpoint id expected new ciphertext fingerprint =>
    rotateEndpoint id expected new ciphertext fingerprint
  | .revokeDelegation id relay generation => revokeDelegation c.clock id relay generation
  | .revokeInstallation id expected new => revokeInstallation c.clock id expected new
  | .authorizeDelivery g => authorizeDelivery c.clock g
  | .finishDelivery p disposition => finishDelivery p disposition
  | .reapExpired now found => reapExpired now found

end Buzz.PushGateway
