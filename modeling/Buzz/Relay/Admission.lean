import Buzz.Sdk.NipOa

/-!
# Admission of agents

A pubkey that is not a member of a closed relay is admitted through its owner, when an `auth` tag
proves that the owner has authorised it and the owner is a member. On a WebSocket the tag is in the
AUTH event, and the bans of the agent and of its owner are looked up first; in an HTTP request it is
in a header, and the gate looks up no bans.

Lookups in the database may fail, each with its text.
-/

namespace Buzz.Admission

open Function
open NipOa

/-! ### The relay -/

structure Config where
  requireRelayMembership : Bool
  allowNipOaAuth : Bool
  pubkeyAllowlistEnabled : Bool

/-- The tables that admission reads. -/
structure RelayDb where
  relayMembers : CommunityId → String → Bool
  banned : CommunityId → Key → Bool
  allowed : CommunityId → Key → Bool
  users : CommunityId → Key → Option (Option Key)

inductive Query where
  | isRelayMember (pubkey : String)
  | restrictionState (pubkey : Key)
  | isPubkeyAllowed (pubkey : Key)
  | ensureUser (pubkey : Key)
  | setAgentOwner (agent : Key)
  | isAgentOwner (agent : Key)

structure AuthEvent where
  pubkey : Key
  createdAt : Nat
  tags : List (List String)

/-- The relay, its libraries and its database. -/
structure Relay (Sig Digest : Type) where
  config : Config
  crypto : Crypto Sig Digest
  /-- `verify_auth_event`, for the URL of the tenant: is the event valid for the challenge? -/
  verifyAuthEvent : AuthEvent → String → Bool
  db : RelayDb
  fault : Query → Option String

variable {Sig Digest : Type} (R : Relay Sig Digest) (community : CommunityId)

def Relay.query {α : Type} (q : Query) (result : α) : Except String α :=
  match R.fault q with
  | some e => .error e
  | none => .ok result

/-! ### The membership gate -/

/-- How a key is let in. -/
inductive MembershipDecision where
  | openRelay
  | member
  | viaOwner (owner : Key)
  | denied

/-- `is_relay_member`, with what its failure is reported as. -/
def Relay.isRelayMember (pubkey : Key) (report : String) : Except String Bool :=
  let hex := Pairing.hexOfBytes32 pubkey
  (R.query (.isRelayMember hex) (R.db.relayMembers community hex)).mapError fun e => report ++ e

def checkRelayMembership (pubkey : Key) (authTagHeader : Option String) :
    Except String MembershipDecision :=
  if !R.config.requireRelayMembership then .ok .openRelay
  else
    (R.isRelayMember community pubkey "relay membership check failed: ").bind fun isMember =>
    if isMember then .ok .member
    else
      match if R.config.allowNipOaAuth then authTagHeader else none with
      | none => .ok .denied
      | some tagJson =>
        match verifyAuthTag R.crypto tagJson pubkey with
        | .error _ => .ok .denied
        | .ok owner =>
          (R.isRelayMember community owner "relay membership check (owner) failed: ").bind
            fun ownerIsMember => .ok (if ownerIsMember then .viaOwner owner else .denied)

/-- An HTTP refusal: its status, and its body. -/
inductive Refusal where
  | relayMembershipRequired
  | internalServerError

def enforceRelayMembership (pubkey : Key) (authTagHeader : Option String) :
    Except Refusal (Option Key) :=
  match checkRelayMembership R community pubkey authTagHeader with
  | .ok .openRelay => .ok none
  | .ok .member => .ok none
  | .ok (.viaOwner owner) => .ok (some owner)
  | .ok .denied => .error .relayMembershipRequired
  | .error _ => .error .internalServerError

def extractNipOaOwner (pubkey : Key) (authTagHeader : Option String) : Option Key :=
  authTagHeader.bind fun tagJson => (verifyAuthTag R.crypto tagJson pubkey).toOption

/-! ### The owner of an agent is recorded -/

def RelayDb.ensureUser (db : RelayDb) (pubkey : Key) : RelayDb :=
  { db with
    users := update db.users community
      (update (db.users community) pubkey
        (some ((db.users community pubkey).getD none))) }

/-- `set_agent_owner`, of an agent that is a user and has no owner. -/
def RelayDb.setAgentOwner (db : RelayDb) (agent owner : Key) : RelayDb :=
  { db with
    users := update db.users community
      (update (db.users community) agent (some (some owner))) }

/-- `materialize_nip_oa_owner`: the tables afterwards, and whether the relationship is there. -/
def materializeNipOaOwner (agent owner : Key) : RelayDb × Bool :=
  match R.fault (.ensureUser agent) with
  | some _ => (R.db, false)
  | none =>
    let db := R.db.ensureUser community agent
    match R.fault (.ensureUser owner) with
    | some _ => (db, false)
    | none =>
      let db := db.ensureUser community owner
      match R.fault (.setAgentOwner agent) with
      | some _ => (db, false)
      | none =>
        match db.users community agent with
        | none => (db, false)
        | some none => (db.setAgentOwner community agent owner, true)
        | some (some other) =>
          (db, (R.fault (.isAgentOwner agent)).isNone && other == owner)

/-! ### The AUTH handler -/

/-- `AuthContext`, of a connection. -/
structure AuthContext where
  pubkey : Key
  agentOwnerPubkey : Option Key

inductive AuthState where
  | pending (challenge : String)
  | authenticated (context : AuthContext)
  | failed

/-- What handling an AUTH event comes to. -/
structure Handled where
  state : AuthState
  ok : Bool × String
  closed : Bool
  db : RelayDb

/-- The connection has failed to authenticate. -/
def fails (reason : String) (closed : Bool) : Handled := ⟨.failed, (false, reason), closed, R.db⟩

/-- The connection is authenticated, and the owner, if there is one, recorded. -/
def authenticates (pubkey : Key) (owner : Option Key) : Handled :=
  match owner with
  | none => ⟨.authenticated ⟨pubkey, none⟩, (true, ""), false, R.db⟩
  | some owner =>
    let materialized := materializeNipOaOwner R community pubkey owner
    ⟨.authenticated ⟨pubkey, if materialized.2 then some owner else none⟩, (true, ""), false,
      materialized.1⟩

def admits (pubkey : Key) (authTagJson : Option String) : Handled :=
  if R.config.pubkeyAllowlistEnabled &&
      !((R.query (.isPubkeyAllowed pubkey) (R.db.allowed community pubkey)).toOption.getD false) then
    fails R "auth-required: verification failed" false
  else
    match enforceRelayMembership R community pubkey authTagJson with
    | .error _ => fails R "restricted: not a relay member" false
    | .ok owner =>
      authenticates R community pubkey (owner.or
        (if !R.config.requireRelayMembership && authTagJson.isSome then
          extractNipOaOwner R pubkey authTagJson
        else none))

variable {R community} {pubkey owner : Key} {tag : Option String}

variable {json : String}

variable {challenge : String} {event : AuthEvent}

/-- How a key comes in. -/
inductive Entry where
  | auth (challenge : String) (event : AuthEvent)
  /-- With an HTTP request that is signed at this time, and its header. -/
  | http (pubkey : Key) (createdAt : Nat) (header : Option String)

def Entry.agent : Entry → Key
  | .auth _ event => event.pubkey
  | .http pubkey _ _ => pubkey

def Entry.createdAt : Entry → Nat
  | .auth _ event => event.createdAt
  | .http _ createdAt _ => createdAt

/-- The request carries the tag. Of an AUTH event, it is the only `auth` tag. -/
def Presents (R : Relay Sig Digest) : Entry → AuthTag → Prop
  | .auth _ event, t => (event.tags.filter fun t => t.head? == some "auth") =
      [["auth", t.ownerHex, t.conditions, t.sigHex]]
  | .http _ _ header, t => ∃ json, header = some json ∧ R.crypto.fromStr json = some t.toJson

def IsLowerHexString (s : String) : Prop := ∀ c ∈ s.toList, isLowerHex c = true

instance (s : String) : Decidable (IsLowerHexString s) :=
  inferInstanceAs (Decidable (∀ c ∈ s.toList, isLowerHex c = true))

/-- The time of the request meets the conditions. -/
def Timely (t : AuthTag) (createdAt : Nat) : Prop :=
  ∃ clauses, IsConditions clauses t.conditions ∧ ∀ c ∈ clauses, c.Met createdAt

/-- What an auth tag must meet beyond its signature. -/
structure Meets (R : Relay Sig Digest) (community : CommunityId) (entry : Entry) (owner : Key)
    (t : AuthTag) : Prop where
  lowerOwner : IsLowerHexString t.ownerHex
  lowerSig : IsLowerHexString t.sigHex
  timely : Timely t entry.createdAt
  notBanned : ∀ pubkey createdAt header, entry = .http pubkey createdAt header →
    R.db.banned community owner = false

theorem Presents.unique {entry : Entry} {t t' : AuthTag} (h : Presents R entry t)
    (h' : Presents R entry t') : t = t' := by
  obtain ⟨ownerHex, conditions, sigHex⟩ := t
  obtain ⟨ownerHex', conditions', sigHex'⟩ := t'
  cases entry with
  | auth challenge event =>
    have heq := (show _ = _ from h).symm.trans (show _ = _ from h')
    simpa using heq
  | http pubkey createdAt header =>
    obtain ⟨json, rfl, hjson⟩ := h
    obtain ⟨json', hsame, hjson'⟩ := h'
    cases hsame
    have heq := hjson.symm.trans hjson'
    simpa [AuthTag.toJson] using heq

def ownerKey : Key := Vector.replicate 32 1

def agentKey : Key := Vector.replicate 32 2

/-- The text that the owner has signed: the agent may act before time 10. -/
def signedText : String := buildPreimage agentKey "created_at<10"

/-- The libraries of the relay below. The JSON it reads is compact. -/
noncomputable def exampleCrypto : Crypto String String where
  fromStr := partialInv fun v => String.ofList (Json.render v)
  fromHex := Pairing.bytes32FromHex
  xonly _ := true
  sigFromStr := some
  sha256 := id
  verifySchnorr sig digest key := sig == "0a" && digest == signedText && key == ownerKey

end Buzz.Admission
