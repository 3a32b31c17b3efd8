import Buzz.Lib.Programs
import Buzz.Sdk.NipOa

/-!
# Requests to archive an identity

A request of kind 9035 archives an identity in a community, one of kind 9036 takes it back. The
handler looks for consent (the identity's own, that of an administrator, or that of the owner of an
agent), changes one row, and if the row has changed the relay signs a delta and a snapshot. The
request has been verified before; it is stored afterwards.

Every statement is atomic on its own and may fail, in which case it may have been executed. Integers
of 64 bits wrap around, as they do in a release build.

Keys, JSON, signatures and hashes are those of their libraries, parameters here.
-/

namespace Buzz.IdentityArchive

open Function
open NipOa

/-! ### The store -/

structure NostrEvent where
  id : Pairing.Bytes32
  pubkey : Key
  createdAt : UInt64
  kind : UInt16
  tags : List (List String)
  content : String

/-- A row of `archived_identities`. Keys and ids are in hexadecimal. -/
structure ArchivedIdentity where
  pubkey : String
  consentPath : String
  actor : String
  reason : Option String
  replacedBy : Option String
  requestEventId : String
  archivedAt : Int

/-- A row of `events`. -/
structure EventRow where
  event : NostrEvent
  channelId : Option Uuid
  deleted : Bool

/-- What becomes of statements while the database does not work. -/
structure Fault where
  error : String
  executed : Bool

structure Store where
  clock : UInt64
  dbClock : Int
  members : CommunityId → String → Option String
  events : CommunityId → List EventRow
  archived : CommunityId → List ArchivedIdentity
  /-- The events of the relay that were stored, the last one first. -/
  emitted : List (CommunityId × NostrEvent)
  fault : Option Fault

inductive Statement where
  | now
  | getRelayMember (community : CommunityId) (pubkey : String)
  | queryProfile (community : CommunityId) (author : Key)
  | archive (community : CommunityId) (pubkey consentPath actor : String)
      (reason replacedBy : Option String) (requestEventId : String)
  | unarchive (community : CommunityId) (pubkey : String)
  | listArchived (community : CommunityId)
  | insertEvent (community : CommunityId) (event : NostrEvent)
  | replaceAddressableEvent (community : CommunityId) (event : NostrEvent)

abbrev Reply : Statement → Type
  | .now => UInt64
  | .getRelayMember _ _ => Except String (Option String)
  | .queryProfile _ _ => Except String (Option NostrEvent)
  | .archive _ _ _ _ _ _ _ => Except String Bool
  | .unarchive _ _ => Except String Bool
  | .listArchived _ => Except String (List ArchivedIdentity)
  | .insertEvent _ _ => Except String Bool
  | .replaceAddressableEvent _ _ => Except String Bool

def kindProfile : UInt16 := 0

def kindIaArchiveRequest : UInt16 := 9035

def kindIaUnarchiveRequest : UInt16 := 9036

def kindIaArchived : UInt16 := 8002

def kindIaUnarchived : UInt16 := 8003

def kindIaArchivedList : UInt16 := 13535

/-- `ORDER BY created_at DESC, id ASC`. -/
def NostrEvent.precedes (a b : NostrEvent) : Bool :=
  decide (b.createdAt < a.createdAt) ||
    (a.createdAt == b.createdAt && decide (a.id.toList ≤ b.id.toList))

/-- The row is live, in no channel, and its event is of this kind and author. -/
def EventRow.isLive (kind : UInt16) (author : Key) (row : EventRow) : Bool :=
  !row.deleted && row.channelId.isNone && row.event.kind == kind && row.event.pubkey == author

namespace Store

variable (s : Store)

/-- The first live event of this kind and author. -/
def newest (community : CommunityId) (kind : UInt16) (author : Key) : Option NostrEvent :=
  ((((s.events community).filter (·.isLive kind author)).map EventRow.event).mergeSort
    NostrEvent.precedes).head?

def isArchived (community : CommunityId) (pubkey : String) : Bool :=
  (s.archived community).any fun row => row.pubkey == pubkey

/-- The rows of archived identities are written. -/
def setArchived (community : CommunityId) (rows : List ArchivedIdentity) : Store :=
  { s with archived := update s.archived community rows }

/-- The rows of events are written, and an event of the relay is among them. -/
def emit (community : CommunityId) (rows : List EventRow) (event : NostrEvent) : Store :=
  { s with
    events := update s.events community (⟨event, none, false⟩ :: rows)
    emitted := (community, event) :: s.emitted }

/-- `INSERT … ON CONFLICT DO NOTHING`. -/
def archive (community : CommunityId) (pubkey consentPath actor : String)
    (reason replacedBy : Option String) (requestEventId : String) : Store × Bool :=
  if s.isArchived community pubkey then (s, false)
  else
    (s.setArchived community (s.archived community ++
      [⟨pubkey, consentPath, actor, reason, replacedBy, requestEventId, s.dbClock⟩]), true)

/-- `DELETE`. -/
def unarchive (community : CommunityId) (pubkey : String) : Store × Bool :=
  if s.isArchived community pubkey then
    (s.setArchived community ((s.archived community).filter fun row => row.pubkey != pubkey), true)
  else (s, false)

/-- Is there a row with the id of the event? -/
def hasEvent (community : CommunityId) (event : NostrEvent) : Bool :=
  (s.events community).any fun row => row.event.id == event.id

/-- `INSERT … ON CONFLICT DO NOTHING`, of an event. -/
def insertEvent (community : CommunityId) (event : NostrEvent) : Store × Bool :=
  if s.hasEvent community event then (s, false)
  else (s.emit community (s.events community) event, true)

/-- `replace_addressable_event`, of an event in no channel. -/
def replaceAddressableEvent (community : CommunityId) (event : NostrEvent) : Store × Bool :=
  let dominated := match s.newest community event.kind event.pubkey with
    | some existing => existing.precedes event
    | none => false
  if dominated || s.hasEvent community event then (s, false)
  else
    (s.emit community ((s.events community).map fun row =>
      if row.isLive event.kind event.pubkey then { row with deleted := true } else row) event, true)

/-- A statement, unless the database does not work. -/
def attempt {γ : Type} (s : Store) (r : Store × γ) : Store × Except String γ :=
  match s.fault with
  | none => (r.1, .ok r.2)
  | some f => (if f.executed then r.1 else s, .error f.error)

end Store

def exec : (i : Statement) → Store → Store × Reply i
  | .now, s => (s, s.clock)
  | .getRelayMember community pubkey, s => s.attempt (s, s.members community pubkey)
  | .queryProfile community author, s => s.attempt (s, s.newest community kindProfile author)
  | .archive community pubkey consentPath actor reason replacedBy requestEventId, s =>
    s.attempt (s.archive community pubkey consentPath actor reason replacedBy requestEventId)
  | .unarchive community pubkey, s => s.attempt (s.unarchive community pubkey)
  | .listArchived community, s =>
    s.attempt (s, (s.archived community).mergeSort fun a b => a.archivedAt ≤ b.archivedAt)
  | .insertEvent community event, s => s.attempt (s.insertEvent community event)
  | .replaceAddressableEvent community event, s =>
    s.attempt (s.replaceAddressableEvent community event)

inductive Outside where
  | clock (now : UInt64)
  | dbClock (now : Int)
  | setRole (community : CommunityId) (pubkey : String) (role : Option String)
  | setEvents (community : CommunityId) (rows : List EventRow)
  | setFault (fault : Option Fault)

/-- What happens from outside, to the store. -/
def outside : Outside → Store → Store
  | .clock now, s => { s with clock := now }
  | .dbClock now, s => { s with dbClock := now }
  | .setRole community pubkey role, s =>
    { s with
      members := update s.members community
        (update (s.members community) pubkey role) }
  | .setEvents community rows, s => { s with events := update s.events community rows }
  | .setFault fault, s => { s with fault := fault }

def semantics : Semantics Reply Store Outside := ⟨exec, outside⟩

/-! ### Tags -/

def toAsciiLowercase (s : String) : String := String.ofList (s.toList.map Char.toLower)

/-- `val.len() != 64 || !val.chars().all(|c| c.is_ascii_hexdigit())` fails. -/
def isHex64 (val : String) : Bool := val.utf8ByteSize == 64 && val.toList.all isAsciiHexdigit

def enforceFreshness (event : NostrEvent) (clock : UInt64) : Except String Unit :=
  let eventTs := event.createdAt.toInt64
  let now := clock.toInt64
  if (eventTs - now).abs > 120 then
    .error ("event timestamp out of range: created_at=" ++ toString eventTs.toInt ++ ", now=" ++
      toString now.toInt ++ ", delta=" ++ toString (eventTs - now).toInt ++ "s (max ±120s)")
  else .ok ()

def requireSingleProtectedTag (event : NostrEvent) : Except String Unit :=
  let count := (event.tags.filter fun tag => tag.head? == some "-").length
  if count ≠ 1 then
    .error ("request must include exactly one NIP-70 protected event tag [\"-\"] (got " ++
      toString count ++ ")")
  else .ok ()

/-- The loop of `extract_single_p_tag_hex`. -/
def findPTag : Option String → List (List String) → Option String
  | found, [] => found
  | found, tag :: tags =>
    if tag.head? ≠ some "p" then findPTag found tags
    else
      match tag[1]? with
      | none => none
      | some val =>
        if !isHex64 val then none
        else if found.isSome then none
        else findPTag (some val) tags

def extractSinglePTagHex (event : NostrEvent) : Option String := findPTag none event.tags

def extractTagValue (event : NostrEvent) (name : String) : Option String :=
  event.tags.findSome? fun tag => if tag.head? = some name then tag[1]? else none

/-- The loop of `extract_optional_replaced_by`. -/
def findReplacedBy (targetHex : String) :
    Option String → List (List String) → Except String (Option String)
  | found, [] => .ok found
  | found, tag :: tags =>
    if tag.head? ≠ some "replaced-by" then findReplacedBy targetHex found tags
    else
      match tag[1]? with
      | none => .error "invalid replaced-by tag"
      | some val =>
        if !isHex64 val || toAsciiLowercase val != val then .error "invalid replaced-by pubkey"
        else if val = targetHex then .error "replaced-by must differ from target"
        else if found.isSome then .error "multiple replaced-by tags"
        else findReplacedBy targetHex (some val) tags

def extractOptionalReplacedBy (event : NostrEvent) (targetHex : String) :
    Except String (Option String) :=
  findReplacedBy targetHex none event.tags

/-- The loop of `extract_single_auth_tag_json`. -/
def findAuthTag : Option (List String) → List (List String) → Except String (Option (List String))
  | found, [] => .ok found
  | found, tag :: tags =>
    if tag.head? ≠ some "auth" then findAuthTag found tags
    else if tag.length ≠ 4 then .error "auth tag must have exactly four elements"
    else if found.isSome then .error "multiple auth tags"
    else findAuthTag (some tag) tags

/-- `serde_json::to_string`, of a list of texts. -/
def jsonText (parts : List String) : String := String.ofList (Json.arr (parts.map .str)).render

def extractSingleAuthTagJson (event : NostrEvent) : Except String String :=
  (findAuthTag none event.tags).bind fun
    | none => .error "missing auth tag"
    | some parts => .ok (jsonText parts)

/-! ### Consent -/

/-- The relay: its libraries, with the texts of their errors, and its key. -/
structure Relay (Sig Digest : Type) where
  crypto : Crypto Sig Digest
  keyError : String → String
  jsonError : String → String
  sdkError : InvalidInput → String
  relayPubkey : Key
  eventId : Key → UInt64 → UInt16 → List (List String) → String → Pairing.Bytes32

variable {Sig Digest : Type} (R : Relay Sig Digest)

/-- `PublicKey::from_hex`, of the target. -/
def Relay.targetKey (targetHex : String) : Except String Key :=
  match R.crypto.fromHex targetHex with
  | none => .error ("invalid target pubkey: " ++ R.keyError targetHex)
  | some key => .ok key

def verifyAuthTagOwner (authTagJson targetHex : String) : Except String String :=
  (R.targetKey targetHex).bind fun targetPubkey =>
  ((verifyAuthTag R.crypto authTagJson targetPubkey).map Pairing.hexOfBytes32).mapError R.sdkError

/-- `serde_json::from_str`, of a list of texts. -/
def Relay.parseStrings (json : String) : Option (List String) :=
  match R.crypto.fromStr json with
  | some (.arr xs) => xs.mapM fun
    | .str s => some s
    | _ => none
  | _ => none

/-- A clause is checked against the time of the request. -/
def enforceClause (createdAt : UInt64) (clause : String) : Except String Unit :=
  match stripPrefix clause "created_at<" with
  | some bound =>
    match parseU64 bound with
    | none => .error ("invalid created_at< bound: " ++ bound)
    | some n =>
      if createdAt.toNat ≥ n then
        .error ("request auth time bound not satisfied: created_at " ++ toString createdAt.toNat ++
          " >= " ++ toString n)
      else .ok ()
  | none =>
    match stripPrefix clause "created_at>" with
    | some bound =>
      match parseU64 bound with
      | none => .error ("invalid created_at> bound: " ++ bound)
      | some n =>
        if createdAt.toNat ≤ n then
          .error ("request auth time bound not satisfied: created_at " ++
            toString createdAt.toNat ++ " <= " ++ toString n)
        else .ok ()
    | none => .ok ()

def enforceClauses (createdAt : UInt64) : List String → Except String Unit
  | [] => .ok ()
  | clause :: clauses =>
    (enforceClause createdAt clause).bind fun _ => enforceClauses createdAt clauses

def enforceRequestAuthTimeBounds (authTagJson : String) (createdAt : UInt64) : Except String Unit :=
  match R.parseStrings authTagJson with
  | none => .error ("invalid auth tag json: " ++ R.jsonError authTagJson)
  | some parts =>
    match parts[2]? with
    | none => .error "auth tag missing conditions"
    | some conditions =>
      enforceClauses createdAt
        (((conditions.toList.splitOn '&').map String.ofList).filter fun clause => !clause.isEmpty)

/-- What `verify_owner_consent` asks of the request. -/
def checkRequestAuth (event : NostrEvent) (targetHex actorHex : String) : Except String Unit :=
  (extractSingleAuthTagJson event).bind fun requestAuth =>
  ((verifyAuthTagOwner R requestAuth targetHex).mapError
    fun e => "invalid request auth tag: " ++ e).bind fun requestOwner =>
  if requestOwner ≠ actorHex then .error "request auth owner must equal request signer"
  else enforceRequestAuthTimeBounds R requestAuth event.createdAt

/-- What `verify_owner_consent` asks of the profile. -/
def checkProfileAuth (profile : NostrEvent) (targetHex actorHex : String) : Except String Unit :=
  if Pairing.hexOfBytes32 profile.pubkey ≠ targetHex then
    .error "live kind:0 author did not match target"
  else
    (extractSingleAuthTagJson profile).bind fun liveAuth =>
    ((verifyAuthTagOwner R liveAuth targetHex).mapError
      fun e => "invalid live kind:0 auth tag: " ++ e).bind fun liveOwner =>
    if liveOwner ≠ actorHex then .error "live kind:0 no longer attests to request signer" else .ok ()

abbrev Handler := Program Reply (Except String Unit)

def orReject {γ : Type} (check : Except String γ) (next : γ → Handler) : Handler :=
  match check with
  | .error e => .answer (.error e)
  | .ok value => next value

/-- `map_err`, of an error of the database. -/
def databaseError {γ : Type} (reply : Except String γ) : Except String γ :=
  reply.mapError fun e => "database error: " ++ e

def verifyOwnerConsent (community : CommunityId) (event : NostrEvent) (targetHex actorHex : String)
    (next : Handler) : Handler :=
  orReject (checkRequestAuth R event targetHex actorHex) fun _ =>
  orReject (R.targetKey targetHex) fun targetPubkey =>
  .perform (.queryProfile community targetPubkey) fun reply =>
    orReject (databaseError reply) fun
      | none => .answer (.error "target has no live kind:0 profile")
      | some profile => orReject (checkProfileAuth R profile targetHex actorHex) fun _ => next

/-- Whose consent a request has. -/
inductive ConsentPath where
  | selfSigned
  | owner
  | admin

def ConsentPath.asStr : ConsentPath → String
  | .selfSigned => "self"
  | .owner => "owner"
  | .admin => "admin"

def determineConsentPath (community : CommunityId) (event : NostrEvent)
    (targetHex actorHex : String) (next : ConsentPath → Handler) : Handler :=
  if actorHex = targetHex then next .selfSigned
  else
    .perform (.getRelayMember community actorHex) fun reply =>
      orReject (databaseError reply) fun actorMember =>
        let actorRole := actorMember.getD ""
        if actorRole = "owner" ∨ actorRole = "admin" then next .admin
        else verifyOwnerConsent R community event targetHex actorHex (next .owner)

/-! ### The handler -/

structure Request where
  community : CommunityId
  event : NostrEvent

def Relay.sign (kind : UInt16) (tags : List (List String)) (content : String) (now : UInt64) :
    NostrEvent :=
  ⟨R.eventId R.relayPubkey now kind tags content, R.relayPubkey, now, kind, tags, content⟩

/-- The tags of `publish_nipia_delta`. -/
def deltaTags (targetHex consentPath actorHex requestEventId : String)
    (reason replacedBy : Option String) : List (List String) :=
  [["-"], ["p", targetHex], ["consent", consentPath, actorHex], ["e", requestEventId]] ++
    (reason.toList.map fun reason => ["reason", reason]) ++
    replacedBy.toList.map fun replacedBy => ["replaced-by", replacedBy]

/-- `publish_nipia_delta`; an error is a warning in the log. -/
def publishNipiaDelta (community : CommunityId) (kind : UInt16) (tags : List (List String))
    (content : String) (next : Handler) : Handler :=
  .perform .now fun now =>
  .perform (.insertEvent community (R.sign kind tags content now)) fun _ => next

/-- `publish_nipia_archival_list`; an error is a warning in the log. -/
def publishNipiaArchivalList (community : CommunityId) (next : Handler) : Handler :=
  .perform (.listArchived community) fun
    | .error _ => next
    | .ok archived =>
      .perform .now fun now =>
      .perform (.replaceAddressableEvent community (R.sign kindIaArchivedList
        (["-"] :: archived.map fun identity => ["p", identity.pubkey]) "" now)) fun _ => next

/-- What is done once the row was written. -/
def publish (r : Request) (kind : UInt16) (tags : List (List String))
    (reply : Except String Bool) : Handler :=
  orReject (databaseError reply) fun changed =>
    if !changed then .answer (.ok ())
    else
      publishNipiaDelta R r.community kind tags r.event.content
        (publishNipiaArchivalList R r.community (.answer (.ok ())))

/-- What is done once consent is found. -/
def applyRequest (r : Request) (targetHex : String) (replacedBy : Option String)
    (consentPath : ConsentPath) : Handler :=
  let actorHex := Pairing.hexOfBytes32 r.event.pubkey
  let reason := extractTagValue r.event "reason"
  let requestEventId := Pairing.hexOfBytes32 r.event.id
  if r.event.kind = kindIaArchiveRequest then
    .perform (.archive r.community targetHex consentPath.asStr actorHex reason replacedBy
      requestEventId) fun reply =>
      publish R r kindIaArchived
        (deltaTags targetHex consentPath.asStr actorHex requestEventId reason replacedBy) reply
  else
    .perform (.unarchive r.community targetHex) fun reply =>
      publish R r kindIaUnarchived
        (deltaTags targetHex consentPath.asStr actorHex requestEventId reason none) reply

/-- `handle_identity_archive_event`, once the clock is read. -/
def handleFresh (r : Request) : Handler :=
  orReject (requireSingleProtectedTag r.event) fun _ =>
  orReject ((extractSinglePTagHex r.event).elim (.error "missing or invalid p tag") .ok) fun p =>
  let targetHex := toAsciiLowercase p
  orReject (extractOptionalReplacedBy r.event targetHex) fun replacedBy =>
  if r.event.kind = kindIaUnarchiveRequest ∧ replacedBy.isSome then
    .answer (.error "replaced-by is not valid on unarchive requests")
  else
    determineConsentPath R r.community r.event targetHex (Pairing.hexOfBytes32 r.event.pubkey)
      fun consentPath => applyRequest R r targetHex replacedBy consentPath

def handleIdentityArchiveEvent (r : Request) : Handler :=
  if r.event.kind ≠ kindIaArchiveRequest ∧ r.event.kind ≠ kindIaUnarchiveRequest then
    .answer (.error ("unexpected identity archive kind: " ++ toString r.event.kind.toNat))
  else
    .perform .now fun now =>
      orReject (enforceFreshness r.event now) fun _ => handleFresh R r

def identityArchive : StateMachine (Execution Reply Store Request (Except String Unit))
    (ProgramAction Request Outside) :=
  programs semantics (handleIdentityArchiveEvent R) fun _ => True

end Buzz.IdentityArchive
