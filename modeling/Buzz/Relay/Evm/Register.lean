import Buzz.Lib.Programs
import Buzz.Relay.Evm.Attested
import Buzz.Relay.Evm.Host

/-!
# Registering and revoking accounts

Over HTTP a key is bound to an account and becomes a member, or gives up both. Every statement is
atomic on its own: there are no transactions.

A request that comes in carries the times at which its checks read the clock. What its body parses
to is serde's, the signatures of Nostr events are their library's.
-/

namespace Buzz.Evm

open Function
open EvmAuth

/-! ### The store -/

/-- A row of `relay_members`. -/
structure Member where
  role : String
  addedBy : Option String
  deriving DecidableEq

/-- The tables, and the keys in Redis. Keys are in hexadecimal. -/
structure Store where
  hosts : String → Option CommunityId
  members : CommunityId → String → Option Member
  identities : CommunityId → String → Option EvmIdentity
  nip05 : CommunityId → String → Option String
  nonces : String → Bool
  rate : String → Nat
  clock : Int

inductive Statement where
  | resolveHost (host : String)
  | incrRate (npub : String)
  | expireRate (npub : String)
  | isRevoked (community : CommunityId) (npub : String)
  | takeNonce (nonce : String)
  | claimMembership (community : CommunityId) (npub role : String)
  | upsertIdentity (community : CommunityId) (npub : String) (address : EvmAddress)
      (attestation : Option Json)
  | setUserNip05 (community : CommunityId) (npub handle : String)
  | setNonce (nonce : String)
  | getIdentity (community : CommunityId) (npub : String)
  | revokeIdentity (community : CommunityId) (npub revokedBy : String) (reason : Option String)
  | deleteMember (community : CommunityId) (npub : String)
  | memberExists (community : CommunityId) (npub : String)

abbrev Reply : Statement → Type
  | .resolveHost _ => Option CommunityId
  | .incrRate _ => Nat
  | .expireRate _ => Unit
  | .isRevoked _ _ => Option Bool
  | .takeNonce _ => Bool
  | .claimMembership _ _ _ => Bool
  | .upsertIdentity _ _ _ _ => Unit
  | .setUserNip05 _ _ _ => Unit
  | .setNonce _ => Bool
  | .getIdentity _ _ => Option EvmIdentity
  | .revokeIdentity _ _ _ _ => Bool
  | .deleteMember _ _ => Bool
  | .memberExists _ _ => Bool

namespace Store

variable (s : Store)

def setMember (community : CommunityId) (npub : String) (row : Option Member) : Store :=
  { s with
    members := update s.members community
      (update (s.members community) npub row) }

def setIdentity (community : CommunityId) (npub : String) (row : EvmIdentity) : Store :=
  { s with
    identities := update s.identities community
      (update (s.identities community) npub (some row)) }

/-- `INSERT … ON CONFLICT DO NOTHING`. -/
def claimMembership (community : CommunityId) (npub role : String) : Store × Bool :=
  match s.members community npub with
  | some _ => (s, false)
  | none => (s.setMember community npub (some ⟨role, some "evm_siwe"⟩), true)

/-- `INSERT … ON CONFLICT DO UPDATE`: the columns of a revocation stay. -/
def upsertIdentity (community : CommunityId) (npub : String) (address : EvmAddress)
    (attestation : Option Json) : Store :=
  match s.identities community npub with
  | some row =>
    s.setIdentity community npub { row with evmAddress := address, attestation := attestation }
  | none => s.setIdentity community npub ⟨address, attestation, none, none, none⟩

/-- `UPDATE … WHERE revoked_at IS NULL`. -/
def revokeIdentity (community : CommunityId) (npub revokedBy : String) (reason : Option String) :
    Store × Bool :=
  match s.identities community npub with
  | none => (s, false)
  | some row =>
    if row.revokedAt.isSome then (s, false)
    else
      (s.setIdentity community npub
        { row with
          revokedAt := some s.clock
          revokedBy := some revokedBy
          revokedReason := reason.or row.revokedReason }, true)

/-- `DELETE … WHERE role <> 'owner'`. -/
def deleteMember (community : CommunityId) (npub : String) : Store × Bool :=
  match s.members community npub with
  | none => (s, false)
  | some row => if row.role = "owner" then (s, false) else (s.setMember community npub none, true)

/-- `set_user_nip05`, with an alias that is not empty. -/
def setUserNip05 (community : CommunityId) (npub handle : String) : Store :=
  { s with
    nip05 := update s.nip05 community
      (update (s.nip05 community) npub (if handle.isEmpty then none else some handle)) }

def setNonce (nonce : String) (there : Bool) : Store :=
  { s with nonces := update s.nonces nonce there }

def setRate (npub : String) (count : Nat) : Store :=
  { s with rate := update s.rate npub count }

end Store

def exec : (i : Statement) → Store → Store × Reply i
  | .resolveHost host, s => (s, s.hosts host)
  | .incrRate npub, s => (s.setRate npub (s.rate npub + 1), s.rate npub + 1)
  | .expireRate _, s => (s, ())
  | .isRevoked community npub, s => (s, (s.identities community npub).map (·.isRevoked))
  | .takeNonce nonce, s => (s.setNonce nonce false, s.nonces nonce)
  | .claimMembership community npub role, s => s.claimMembership community npub role
  | .upsertIdentity community npub address attestation, s =>
    (s.upsertIdentity community npub address attestation, ())
  | .setUserNip05 community npub handle, s => (s.setUserNip05 community npub handle, ())
  | .setNonce nonce, s => if s.nonces nonce then (s, false) else (s.setNonce nonce true, true)
  | .getIdentity community npub, s => (s, s.identities community npub)
  | .revokeIdentity community npub revokedBy reason, s =>
    s.revokeIdentity community npub revokedBy reason
  | .deleteMember community npub, s => s.deleteMember community npub
  | .memberExists community npub, s => (s, (s.members community npub).isSome)

inductive Outside where
  | expireNonce (nonce : String)
  | expireRate (npub : String)
  | tick (now : Int)

/-- What happens from outside, to the store. -/
def outside : Outside → Store → Store
  | .expireNonce nonce, s => s.setNonce nonce false
  | .expireRate npub, s => s.setRate npub 0
  | .tick now, s => { s with clock := now }

def semantics : Semantics Reply Store Outside := ⟨exec, outside⟩

/-! ### Requests -/

structure NostrEvent where
  id : String
  pubkey : Vector UInt8 32
  createdAt : Nat
  kind : Nat
  tags : List (List String)
  content : String
  sig : String

structure SiweRegisterRequest where
  message : String
  signature : String
  nostrProof : NostrEvent
  attestation : Option Json
  nip05Handle : Option String

structure Registration where
  rawHost : String
  body : Except String SiweRegisterRequest
  proofNow : Int
  siweNow : Int
  attestationNow : Int

structure Revocation where
  rawHost : String
  body : Except String NostrEvent
  proofNow : Int

/-- A request to the endpoints. -/
inductive Request where
  | issueNonce (nonce : String)
  | register (arrival : Registration)
  | revoke (arrival : Revocation)

/-- The answer to a request. -/
inductive Response where
  | refused (e : ApiError)
  | nonce (nonce : String)
  | registered (inserted : Bool) (community : CommunityId) (host npub : String)
      (address : EvmAddress)
  | revoked (community : CommunityId) (npub : String) (address : EvmAddress)

structure Relay (Sig VerifyingKey : Type) where
  config : Option EvmAuthConfig
  platform : Platform Sig VerifyingKey
  verifyEvent : NostrEvent → Except String Unit
  fromValue : Json → Except String AttestationEnvelope
  toLowercase : String → String

variable {Sig VerifyingKey : Type} (R : Relay Sig VerifyingKey)

def nostrProofKind : Nat := 27235

def nostrProofMaxAgeSecs : Nat := 600

def nostrProofUri : String := "/auth/siwe/register"

def revokeProofUri : String := "/auth/siwe/revoke"

def rateMaxAttempts : Nat := 10

def internalError : ApiError := ⟨500, "internal server error"⟩

def absDiff (m n : Nat) : Nat := (m - n) + (n - m)

def verifyNostrProof (event : NostrEvent) (uri : String) (now : Int) : Except String EvmAddress :=
  if event.kind ≠ nostrProofKind then .error ("expected kind " ++ toString nostrProofKind)
  else
    match R.verifyEvent event with
    | .error e => .error ("bad event signature: " ++ e)
    | .ok _ =>
      if now < 0 then .error "second time provided was later than self"
      else if absDiff now.toNat event.createdAt > nostrProofMaxAgeSecs then
        .error "stale created_at"
      else if ¬["u", uri] ∈ event.tags then
        .error ("missing [\"u\", \"" ++ uri ++ "\"] tag")
      else (EvmAddress.parse (trim event.content)).mapError EvmAuthError.text

def validatorOf (config : EvmAuthConfig) : Except ApiError (Option EvmAddress) :=
  match config.erc6492Validator with
  | none => .ok none
  | some validator =>
    match EvmAddress.parse validator with
    | .ok address => .ok (some address)
    | .error e => .error ⟨500, "bad BUZZ_EVM_ERC6492_VALIDATOR: " ++ e.text⟩

/-- The message is verified, by the verifier that is configured. -/
def verifyMessage (host : String) (body : SiweRegisterRequest) (now : Int) :
    Except ApiError SiweMessage :=
  match R.config with
  | none => .error ⟨404, "evm_auth_disabled"⟩
  | some config =>
    let requirements : SiweRequirements := ⟨hostDomain R.toLowercase host, config.chainId⟩
    match config.rpcUrl with
    | some _ =>
      (validatorOf config).bind fun validator =>
        (verifySiweSmart R.platform body.message body.signature requirements now validator).mapError
          fun e => ⟨403, "siwe: " ++ e.text⟩
    | none =>
      (verify R.platform body.message body.signature requirements now).mapError
        fun e => ⟨403, "siwe: " ++ e.text⟩

/-- The checks before the first look at the binding. -/
def checkProofs (host : String) (body : SiweRegisterRequest) (arrival : Registration) :
    Except ApiError SiweMessage :=
  ((verifyNostrProof R body.nostrProof nostrProofUri arrival.proofNow).mapError
    fun e => ⟨403, "nostr_proof: " ++ e⟩).bind fun proofAddress =>
  (verifyMessage R host body arrival.siweNow).bind fun siwe =>
  if proofAddress ≠ siwe.address then
    .error ⟨403, "address mismatch between nostr_proof and siwe message"⟩
  else if ¬"nostr:" ++ hexEncode body.nostrProof.pubkey.toList ∈ siwe.resources then
    .error ⟨403, "siwe message missing `Resources: - nostr:<npub>` binding"⟩
  else .ok siwe

def claimedHandle (host : String) (body : SiweRegisterRequest) : Except ApiError (Option String) :=
  match body.nip05Handle with
  | none => .ok none
  | some raw =>
    if (trim raw).isEmpty then .ok none
    else
      match canonicalizeNip05 R.toLowercase raw host with
      | .ok canonical => .ok (some canonical)
      | .error e => .error ⟨400, "bad nip05_handle: " ++ e⟩

/-- The checks after the look at the binding: the attestation, and the alias. -/
def checkExtras (host : String) (body : SiweRegisterRequest) (arrival : Registration)
    (siwe : SiweMessage) : Except ApiError (Option String) :=
  (checkAttestation R.platform R.fromValue body.attestation
    (hexEncode body.nostrProof.pubkey.toList) siwe.address arrival.attestationNow).bind fun _ =>
  claimedHandle R host body

/-! ### Programs -/

abbrev Handler := Program Reply Response

def orRefuse {γ : Type} (check : Except ApiError γ) (next : γ → Handler) : Handler :=
  match check with
  | .error e => .answer (.refused e)
  | .ok value => next value

def issueNonce (nonce : String) : Handler :=
  .perform (.setNonce nonce) fun stored =>
    .answer (if stored then .nonce nonce else .refused internalError)

/-- The alias is bound, and the request answered. -/
def bindHandle (community : CommunityId) (npubHex : String) (handle : Option String)
    (response : Response) : Handler :=
  match handle with
  | none => .answer response
  | some handle => .perform (.setUserNip05 community npubHex handle) fun _ => .answer response

def provision (community : CommunityId) (host : String) (body : SiweRegisterRequest)
    (siwe : SiweMessage) (handle : Option String) : Handler :=
  let npubHex := hexEncode body.nostrProof.pubkey.toList
  .perform (.claimMembership community npubHex "member") fun wasInserted =>
  .perform (.upsertIdentity community npubHex siwe.address body.attestation) fun _ =>
  bindHandle community npubHex handle (.registered wasInserted community host npubHex siwe.address)

def consumeNonce (siwe : SiweMessage) (next : Handler) : Handler :=
  .perform (.takeNonce siwe.nonce) fun existed =>
    if existed then next else .answer (.refused ⟨403, "nonce_invalid"⟩)

/-- The registration, once its proofs are checked. -/
def registerProven (community : CommunityId) (host : String) (body : SiweRegisterRequest)
    (arrival : Registration) (siwe : SiweMessage) : Handler :=
  .perform (.isRevoked community (hexEncode body.nostrProof.pubkey.toList)) fun revoked =>
    if revoked = some true then .answer (.refused ⟨403, "evm_identity_revoked"⟩)
    else
      orRefuse (checkExtras R host body arrival siwe) fun handle =>
        consumeNonce siwe (provision community host body siwe handle)

def rateLimited (npubHex : String) (next : Bool → Handler) : Handler :=
  .perform (.incrRate npubHex) fun count =>
    if count = 1 then .perform (.expireRate npubHex) fun _ => next (decide (rateMaxAttempts < count))
    else next (decide (rateMaxAttempts < count))

def bindCommunity (rawHost : String) (next : CommunityId → String → Handler) : Handler :=
  let host := normalizeHost rawHost
  if host.isEmpty then .answer (.refused ⟨404, "unknown_host"⟩)
  else
    .perform (.resolveHost host) fun found =>
      match found with
      | none => .answer (.refused ⟨404, "unknown_host"⟩)
      | some community => next community host

def parseBody {γ : Type} (what : String) (body : Except String γ) : Except ApiError γ :=
  body.mapError fun e => ⟨400, "invalid " ++ what ++ " JSON: " ++ e⟩

def register (arrival : Registration) : Handler :=
  bindCommunity arrival.rawHost fun community host =>
  orRefuse (parseBody "register" arrival.body) fun body =>
  rateLimited (hexEncode body.nostrProof.pubkey.toList) fun limited =>
    if limited then .answer (.refused ⟨429, "too many registration attempts, slow down"⟩)
    else
      orRefuse (checkProofs R host body arrival) fun siwe =>
        registerProven R community host body arrival siwe

/-- The program of a registration whose message is known. -/
def registerChecked (host : String) (body : SiweRegisterRequest) (arrival : Registration)
    (siwe : SiweMessage) : Handler :=
  .perform (.resolveHost host) fun found =>
    match found with
    | none => .answer (.refused ⟨404, "unknown_host"⟩)
    | some community =>
      rateLimited (hexEncode body.nostrProof.pubkey.toList) fun limited =>
        if limited then .answer (.refused ⟨429, "too many registration attempts, slow down"⟩)
        else registerProven R community host body arrival siwe

inductive RemoveResult where
  | removed
  | notFound
  | isOwner

def removeRelayMember (community : CommunityId) (npubHex : String) (next : RemoveResult → Handler) :
    Handler :=
  .perform (.deleteMember community npubHex) fun deleted =>
    if deleted then next .removed
    else
      .perform (.memberExists community npubHex) fun found =>
        next (if found then .isOwner else .notFound)

/-- The binding is revoked, and the membership removed; that of an owner is kept. -/
def revokeBinding (community : CommunityId) (npubHex : String) (address : EvmAddress) : Handler :=
  .perform (.revokeIdentity community npubHex npubHex none) fun _ =>
  removeRelayMember community npubHex fun _ => .answer (.revoked community npubHex address)

def checkBound (binding : Option EvmIdentity) (proofAddress : EvmAddress) :
    Except ApiError EvmAddress :=
  match binding with
  | none => .error ⟨404, "evm_identity_not_found"⟩
  | some binding =>
    if binding.isRevoked then .error ⟨409, "evm_identity_already_revoked"⟩
    else
      match EvmAddress.parse (hexEncode binding.evmAddress.bytes.toList) with
      | .error _ => .error internalError
      | .ok boundAddress =>
        if boundAddress ≠ proofAddress then
          .error ⟨403, "address mismatch between nostr_proof and bound evm identity"⟩
        else .ok boundAddress

def revoke (arrival : Revocation) : Handler :=
  bindCommunity arrival.rawHost fun community _ =>
  orRefuse (parseBody "revoke" arrival.body) fun proof =>
  orRefuse ((verifyNostrProof R proof revokeProofUri arrival.proofNow).mapError
    fun e => ⟨403, "nostr_proof: " ++ e⟩) fun proofAddress =>
  let npubHex := hexEncode proof.pubkey.toList
  .perform (.getIdentity community npubHex) fun binding =>
    orRefuse (checkBound binding proofAddress) fun boundAddress =>
      revokeBinding community npubHex boundAddress

def handler : Request → Handler
  | .issueNonce nonce => issueNonce nonce
  | .register arrival => register R arrival
  | .revoke arrival => revoke R arrival

/-- Concurrent requests, over any tables, with no nonce issued yet. -/
def evm : StateMachine (Execution Reply Store Request Response) (ProgramAction Request Outside) :=
  programs semantics (handler R) fun s => ∀ nonce, s.nonces nonce = false

/-! ### Registrations that pass their checks -/

variable {R} {host : String} {body : SiweRegisterRequest} {siwe : SiweMessage}

theorem verifyMessage_eq_ok {config : EvmAuthConfig} {now : Int} (hconfig : R.config = some config)
    (hurl : config.rpcUrl = none) (hparse : SiweMessage.parse R.platform body.message = .ok siwe)
    (hrequired : siwe.checkRequirements ⟨hostDomain R.toLowercase host, config.chainId⟩ = .ok ())
    (hsigned : recoverSiweSigner R.platform body.message body.signature = .ok siwe.address)
    (hwindow : siwe.validateWindow now = .ok ()) : verifyMessage R host body now = .ok siwe := by
  rw [verifyMessage, hconfig]
  dsimp only
  rw [hurl]
  rw [verify, hparse, Except.bind, hrequired, Except.bind, hsigned, Except.bind,
    if_neg (not_not_intro rfl), hwindow]
  rfl

theorem checkProofs_eq_ok {arrival : Registration}
    (hproof : verifyNostrProof R body.nostrProof nostrProofUri arrival.proofNow = .ok siwe.address)
    (hmessage : verifyMessage R host body arrival.siweNow = .ok siwe)
    (hresource : "nostr:" ++ hexEncode body.nostrProof.pubkey.toList ∈ siwe.resources) :
    checkProofs R host body arrival = .ok siwe := by
  rw [checkProofs, hproof, Except.mapError, Except.bind, hmessage, Except.bind,
    if_neg (not_not_intro rfl), if_neg (not_not_intro hresource)]

theorem register_eq_registerChecked {arrival : Registration} (hbody : arrival.body = .ok body)
    (hhost : normalizeHost arrival.rawHost = host) (hnonempty : host.isEmpty = false)
    (hchecked : checkProofs R host body arrival = .ok siwe) :
    register R arrival = registerChecked R host body arrival siwe := by
  rw [register, bindCommunity, hhost, hnonempty, hbody, parseBody]
  simp only [Except.mapError, orRefuse, hchecked, Bool.false_eq_true, if_false]
  refine congrArg (Program.perform _) (funext fun found => ?_)
  cases found with
  | none => rfl
  | some community => rfl

end Buzz.Evm
