import Buzz.Core.Basic
import Buzz.Core.Text
import Buzz.Lib.Numerals

/-!
# The session directory

Ownership of a tunnel session is a lease in Redis, fenced by a generation. One session has two keys:
the lease, a string `owner|generation|profile` that expires, and the generation counter, which never
does. Four Lua scripts read and write them; each is atomic. The functions of `SessionDirectory` run
one script and read its reply.

The state below is the two keys of one session together with the clock of Redis. Redis stores the
counter as an integer, but a script sees it as a Lua number and prints it with `tostring`, so the
generation in the lease string is the decimal counter only below `10 ^ 14`.
-/

namespace Buzz.Tunnel

structure RuntimeId where
  bytes : List UInt8
  length_eq : bytes.length = 32
  deriving DecidableEq

def RuntimeId.toHex (r : RuntimeId) : String := hexEncode r.bytes

inductive Profile where
  | reliableStream
  | realtimeMedia
  | huddleControl
  deriving DecidableEq

def Profile.asWireStr : Profile → String
  | .reliableStream => "reliable-stream"
  | .realtimeMedia => "realtime-media"
  | .huddleControl => "huddle-control"

def profileFromWire (value : String) : Option Profile :=
  if value = "reliable-stream" then some .reliableStream
  else if value = "realtime-media" then some .realtimeMedia
  else if value = "huddle-control" then some .huddleControl
  else none

/-- Active session ownership, as read from Redis. -/
structure SessionLease where
  communityId : CommunityId
  sessionId : Uuid
  ownerRuntimeId : RuntimeId
  generation : Nat
  profile : Profile

/-- The fence carried by every session-bearing frame. -/
structure FencedHeader where
  sessionId : Uuid
  generation : Nat
  ownerRuntimeId : RuntimeId
  deriving DecidableEq

def SessionLease.fencedHeader (l : SessionLease) : FencedHeader :=
  ⟨l.sessionId, l.generation, l.ownerRuntimeId⟩

inductive DirectoryError where
  | redis (message : String)
  | malformedLease (communityId : CommunityId) (sessionId : Uuid) (value : String)
  | malformedGeneration (communityId : CommunityId) (sessionId : Uuid) (value : String)
  | unexpectedScriptStatus (status : String)
  | invalidLeaseTtl
  /-- `expect` on a missing value: a panic, which is no value of the source's type. -/
  | expectFailed (message : String)
  deriving DecidableEq

inductive AcquireResult where
  | acquired (lease : SessionLease)
  | exists (lease : SessionLease)

inductive RenewResult where
  | renewed (lease : SessionLease)
  | lost (current : Option SessionLease) (knownGeneration : Option Nat)

inductive ReleaseResult where
  | released (lease : SessionLease)
  | notOwner (current : Option SessionLease) (knownGeneration : Option Nat)

inductive MeshError where
  | staleGeneration (sessionId : Uuid) (frameGeneration knownGeneration : Nat)
  | noActiveLease (sessionId : Uuid) (frameGeneration knownGeneration : Nat)
      (frameOwnerRuntimeId : RuntimeId)
  | futureGeneration (sessionId : Uuid) (frameGeneration knownGeneration : Nat)
  | ownerMismatch (sessionId : Uuid) (generation : Nat)
      (frameOwnerRuntimeId currentOwnerRuntimeId : RuntimeId)
  | transport (error : DirectoryError)
  deriving DecidableEq

/-! ### Redis -/

/-- The two keys of a session, and the clock of Redis in milliseconds. -/
structure Redis where
  leaseKey : Option (String × Nat)
  generationKey : Option Nat
  now : Nat

/-- `GET` of the lease key: a key whose time has passed is absent. -/
def Redis.getLease (r : Redis) : Option String :=
  r.leaseKey.bind fun v => if r.now ≤ v.2 then some v.1 else none

/-- `GET` of the generation key. -/
def Redis.getGeneration (r : Redis) : Option String := r.generationKey.map Nat.repr

/-- `INCR` of the generation key. -/
def Redis.incrGeneration (r : Redis) : Except String Nat :=
  if r.generationKey.getD 0 + 1 < 2 ^ 63 then .ok (r.generationKey.getD 0 + 1)
  else .error "ERR increment or decrement would overflow"

/-- The expiry for a TTL argument that went through `tonumber`: Redis rejects a number that Lua
prints with an exponent (`%.17g`), and a time beyond its range. -/
def Redis.expiryAt (r : Redis) (ttlMs : Nat) : Except String Nat :=
  if luaNumber ttlMs < 10 ^ 17 ∧ r.now + luaNumber ttlMs < 2 ^ 63 then .ok (r.now + luaNumber ttlMs)
  else .error "ERR value is not an integer or out of range"

/-- `string.match(value, '^([^|]+)|([^|]+)|([^|]+)$')`. -/
def matchLease (value : String) : Option (String × String × String) :=
  match value.toList.splitOn '|' with
  | [owner, generation, profile] =>
    if owner = [] ∨ generation = [] ∨ profile = [] then none
    else some (String.ofList owner, String.ofList generation, String.ofList profile)
  | _ => none

/-- `ACQUIRE_SCRIPT`. A script that fails half-way is not rolled back. -/
def acquireScript (owner profile : String) (ttlMs : Nat) (r : Redis) :
    Redis × Except String (String × String × String) :=
  match r.getLease with
  | some current => (r, .ok ("exists", current, r.getGeneration.getD ""))
  | none =>
    match r.incrGeneration with
    | .error e => (r, .error e)
    | .ok generation =>
      let r := { r with generationKey := some generation }
      let value := owner ++ "|" ++ luaToString generation ++ "|" ++ profile
      match r.expiryAt ttlMs with
      | .error e => (r, .error e)
      | .ok expiry =>
        ({ r with leaseKey := some (value, expiry) },
          .ok ("acquired", value, luaToString generation))

/-- The branch that `RENEW_SCRIPT` and `RELEASE_SCRIPT` share: is the live lease the caller's? -/
def isCurrent (current owner generation : String) : Bool :=
  match matchLease current with
  | some (currentOwner, currentGeneration, _) =>
    currentOwner == owner && currentGeneration == generation
  | none => false

/-- The generation that a script reports beside a lease value. -/
def Redis.knownGeneration (r : Redis) (current : String) : String :=
  r.getGeneration.getD (((matchLease current).map fun m => m.2.1).getD "")

def renewScript (owner generation : String) (ttlMs : Nat) (r : Redis) :
    Redis × Except String (String × String × String) :=
  match r.getLease with
  | none => (r, .ok ("missing", "", r.getGeneration.getD ""))
  | some current =>
    if isCurrent current owner generation then
      match r.expiryAt ttlMs with
      | .error e => (r, .error e)
      | .ok expiry =>
        ({ r with leaseKey := some (current, expiry) },
          .ok ("renewed", current, r.knownGeneration current))
    else (r, .ok ("lost", current, r.knownGeneration current))

def releaseScript (owner generation : String) (r : Redis) : Redis × (String × String × String) :=
  match r.getLease with
  | none => (r, ("missing", "", r.getGeneration.getD ""))
  | some current =>
    if isCurrent current owner generation then
      ({ r with leaseKey := none }, ("released", current, r.knownGeneration current))
    else (r, ("lost", current, r.knownGeneration current))

def validateScript (r : Redis) : String × String := (r.getLease.getD "", r.getGeneration.getD "")

/-! ### Reading replies -/

section

variable (communityId : CommunityId) (sessionId : Uuid)

/-- `hex::decode` into a runtime id. -/
def runtimeIdFromHex (s : String) : Option RuntimeId :=
  (hexDecode s).bind fun bs => if h : bs.length = 32 then some ⟨bs, h⟩ else none

def parseLease (value : String) : Except DirectoryError SessionLease :=
  let malformed : Except DirectoryError SessionLease :=
    .error (.malformedLease communityId sessionId value)
  match value.toList.splitOn '|' with
  | [ownerHex, generation, profile] =>
    match parseU64 (String.ofList generation) with
    | none => malformed
    | some generation =>
      if generation = 0 then malformed
      else
        match profileFromWire (String.ofList profile) with
        | none => malformed
        | some profile =>
          match runtimeIdFromHex (String.ofList ownerHex) with
          | none => malformed
          | some owner => .ok ⟨communityId, sessionId, owner, generation, profile⟩
  | _ => malformed

def parseOptionalLease (value : String) : Except DirectoryError (Option SessionLease) :=
  if value = "" then .ok none else (parseLease communityId sessionId value).map some

def parseOptionalGeneration (value : String) : Except DirectoryError (Option Nat) :=
  if value = "" then .ok none
  else
    match parseU64 value with
    | none => .error (.malformedGeneration communityId sessionId value)
    | some generation =>
      if generation = 0 then .error (.malformedGeneration communityId sessionId value)
      else .ok (some generation)

/-! ### The directory -/

def ttlMs (leaseTtl : Nat) : Except DirectoryError Nat :=
  if leaseTtl < 2 ^ 63 ∧ 0 < leaseTtl then .ok leaseTtl else .error .invalidLeaseTtl

/-- Attempt to create or take over the session lease. -/
def acquire (ownerRuntimeId : RuntimeId) (profile : Profile) (leaseTtl : Nat) (r : Redis) :
    Redis × Except DirectoryError AcquireResult :=
  match ttlMs leaseTtl with
  | .error e => (r, .error e)
  | .ok ttl =>
    let (r', reply) := acquireScript ownerRuntimeId.toHex profile.asWireStr ttl r
    (r', match reply with
      | .error e => .error (.redis e)
      | .ok (status, value, _) =>
        match parseLease communityId sessionId value with
        | .error e => .error e
        | .ok lease =>
          if status = "acquired" then .ok (.acquired lease)
          else if status = "exists" then .ok (.exists lease)
          else .error (.unexpectedScriptStatus status))

def lookup (r : Redis) : Except DirectoryError (Option SessionLease) :=
  match r.getLease with
  | none => .ok none
  | some value => (parseLease communityId sessionId value).map some

end

/-- Renew a lease if the live lease is exactly the caller's. -/
def renew (lease : SessionLease) (leaseTtl : Nat) (r : Redis) :
    Redis × Except DirectoryError RenewResult :=
  match ttlMs leaseTtl with
  | .error e => (r, .error e)
  | .ok ttl =>
    let (r', reply) := renewScript lease.ownerRuntimeId.toHex (Nat.repr lease.generation) ttl r
    (r', match reply with
      | .error e => .error (.redis e)
      | .ok (status, value, known) =>
        match parseOptionalLease lease.communityId lease.sessionId value with
        | .error e => .error e
        | .ok current =>
          if status = "renewed" then
            match current with
            | some lease => .ok (.renewed lease)
            | none => .error (.expectFailed "renewed returns lease")
          else if status = "missing" ∨ status = "lost" then
            (parseOptionalGeneration lease.communityId lease.sessionId known).map
              fun generation => .lost current generation
          else .error (.unexpectedScriptStatus status))

/-- Release a lease if the live lease is exactly the caller's. -/
def release (lease : SessionLease) (r : Redis) : Redis × Except DirectoryError ReleaseResult :=
  let (r', status, value, known) :=
    releaseScript lease.ownerRuntimeId.toHex (Nat.repr lease.generation) r
  (r', match parseOptionalLease lease.communityId lease.sessionId value with
    | .error e => .error e
    | .ok current =>
      if status = "released" then
        match current with
        | some lease => .ok (.released lease)
        | none => .error (.expectFailed "released returns lease")
      else if status = "missing" ∨ status = "lost" then
        (parseOptionalGeneration lease.communityId lease.sessionId known).map
          fun generation => .notOwner current generation
      else .error (.unexpectedScriptStatus status))

/-- The checks of `validate_fenced_header`, once both keys are read. -/
def checkFence (fenced : FencedHeader) (current : Option SessionLease) (knownFromCounter : Nat) :
    Except MeshError Unit :=
  let known := max ((current.map SessionLease.generation).getD knownFromCounter) knownFromCounter
  if 0 < known ∧ fenced.generation < known then
    .error (.staleGeneration fenced.sessionId fenced.generation known)
  else
    match current with
    | none => .error (.noActiveLease fenced.sessionId fenced.generation known fenced.ownerRuntimeId)
    | some current =>
      if fenced.generation ≠ current.generation then
        .error (.futureGeneration fenced.sessionId fenced.generation current.generation)
      else if fenced.ownerRuntimeId ≠ current.ownerRuntimeId then
        .error (.ownerMismatch fenced.sessionId fenced.generation fenced.ownerRuntimeId
          current.ownerRuntimeId)
      else .ok ()

/-- Validate the fence of a session-bearing frame. -/
def validateFencedHeader (communityId : CommunityId) (fenced : FencedHeader) (r : Redis) :
    Except MeshError Unit :=
  let (leaseValue, knownGeneration) := validateScript r
  match parseOptionalGeneration communityId fenced.sessionId knownGeneration with
  | .error e => .error (.transport e)
  | .ok knownFromCounter =>
    match parseOptionalLease communityId fenced.sessionId leaseValue with
    | .error e => .error (.transport e)
    | .ok current => checkFence fenced current (knownFromCounter.getD 0)

end Buzz.Tunnel
