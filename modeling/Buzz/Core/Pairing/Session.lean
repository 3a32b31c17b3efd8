import Buzz.Core.Basic
import Buzz.Core.Pairing.Crypto
import Mathlib.Data.Finset.Basic

/-!
# Pairing sessions

The protocol state of one side of a device pairing. Handlers consume events, builders produce them,
and nothing else happens inside: a handler returns the session afterwards together with its result,
since some failures change the session. The ephemeral keypair of a session is represented by its
public key. Clock readings, event ids, nonces and timestamps are arguments.
-/

namespace Buzz.Pairing

/-- Default session timeout: 120 seconds, in nanoseconds. -/
def defaultTimeout : Nat := 120 * 1000000000

/-- The event kind of pairing messages. -/
def pairingKind : UInt16 := 24134

/-- The side of a device. -/
inductive Role where
  | source
  | target
  deriving DecidableEq

/-- How far a pairing has come. -/
inductive SessionState where
  | waiting
  /-- The code is displayed (source), the offer was sent (target). -/
  | confirming
  | awaitingConfirmation
  | transferring
  | payloadExchanged
  | completed
  | aborted
  deriving DecidableEq

/-- The `Debug` form of a role. -/
def Role.debug : Role → String
  | .source => "Source"
  | .target => "Target"

/-- The `Debug` form of a state. -/
def SessionState.debug : SessionState → String
  | .waiting => "Waiting"
  | .confirming => "Confirming"
  | .awaitingConfirmation => "AwaitingConfirmation"
  | .transferring => "Transferring"
  | .payloadExchanged => "PayloadExchanged"
  | .completed => "Completed"
  | .aborted => "Aborted"

/-- Completed and aborted sessions are final. -/
def SessionState.isTerminal (st : SessionState) : Bool := st == .completed || st == .aborted

inductive PairingError where
  | invalidQr (message : String)
  | invalidSessionId
  | sasMismatch
  | transcriptMismatch
  | unexpectedMessage (expected got : String)
  | sessionExpired
  /-- NIP-44 encryption or decryption failed. -/
  | nip44
  | json
  | invalidPubkey (message : String)
  | signingError (message : String)

def PairingMessage.name : PairingMessage → String
  | .offer .. => "offer"
  | .sasConfirm .. => "sas-confirm"
  | .payload .. => "payload"
  | .complete .. => "complete"
  | .abort .. => "abort"

def unexpected (expected : String) (got : PairingMessage) : PairingError :=
  .unexpectedMessage expected got.name

/-- A pairing event, its content sealed or not. -/
structure PairingEvent (Key : Type) where
  id : Nat
  pubkey : Key
  createdAt : Nat
  kind : UInt16
  tags : List (List String)
  content : Content Key
  /-- `event.verify()`: the id is the hash of the event, and the author signed it. -/
  verifies : Bool
  deriving DecidableEq

/-- What the QR code carries. -/
structure QrPayload (Key : Type) where
  version : Nat
  sourcePubkey : Key
  sessionSecret : Bytes32
  relays : List String

/-- The state of one side of a pairing. -/
structure PairingSession (Key : Type) where
  role : Role
  state : SessionState
  keys : Key
  sessionSecret : Bytes32
  relayUrls : List String
  peerPubkey : Option Key
  sessionId : Bytes32
  sasCode : Option Nat
  sasInput : Option Bytes32
  processedIds : Finset Nat
  createdAt : Nat
  timeout : Nat

/-- What the environment supplies to a built event. -/
structure Fresh where
  id : Nat
  nonce : Nat
  createdAt : Nat
  signError : Option String

namespace PairingSession

variable {Key : Type} [DecidableEq Key] (C : Crypto Key) (s : PairingSession Key)

/-! ### Checks -/

def checkExpired (now : Nat) : Except PairingError Unit :=
  if s.timeout < now - s.createdAt then .error .sessionExpired else .ok ()

def expectState (expected : SessionState) : Except PairingError Unit :=
  if s.state ≠ expected then
    .error (.unexpectedMessage ("state " ++ expected.debug) ("state " ++ s.state.debug))
  else .ok ()

def expectRole (expected : Role) : Except PairingError Unit :=
  if s.role ≠ expected then
    .error (.unexpectedMessage ("role " ++ expected.debug) ("role " ++ s.role.debug))
  else .ok ()

/-- `validate_event_basics`: signature, duplicate, kind, and a `p` tag that names us. -/
def validateEventBasics (event : PairingEvent Key) : Except PairingError Unit :=
  if !event.verifies then .error (.invalidPubkey "event verification failed")
  else if event.id ∈ s.processedIds then
    .error (.unexpectedMessage "new event" "duplicate event id")
  else if event.kind ≠ pairingKind then
    .error (.unexpectedMessage ("kind " ++ Nat.repr pairingKind.toNat)
      ("kind " ++ Nat.repr event.kind.toNat))
  else if !event.tags.any (fun t => t.head? == some "p" && t[1]? == some (C.toHex s.keys)) then
    .error (.invalidPubkey "event p-tag does not match our ephemeral pubkey")
  else .ok ()

def validateEventFromPeer (event : PairingEvent Key) : Except PairingError Unit := do
  s.validateEventBasics C event
  match s.peerPubkey with
  | some expected =>
    if event.pubkey ≠ expected then
      .error (.invalidPubkey ("event from " ++ C.toHex event.pubkey ++ " but expected " ++
        C.toHex expected))
    else .ok ()
  | none => .ok ()

def decryptMessage (event : PairingEvent Key) : Except PairingError PairingMessage :=
  let contentLen := event.content.length
  if contentLen < 132 ∨ 87472 < contentLen then
    .error (.unexpectedMessage "NIP-44 content (132–87472 chars)" (Nat.repr contentLen ++ " chars"))
  else
    match decrypt C s.keys event.pubkey event.content with
    | none => .error .nip44
    | some decrypted =>
      if 65535 < decrypted.length then
        .error (.unexpectedMessage "plaintext ≤ 65535 bytes" (Nat.repr decrypted.length ++ " bytes"))
      else
        match decrypted.parsed with
        | none => .error .json
        | some message => .ok message

/-- The checks every handler but `handle_abort` makes, in their order, and the decrypted message. -/
def receive (st : SessionState) (r : Role) (validate : Except PairingError Unit)
    (event : PairingEvent Key) (now : Nat) : Except PairingError PairingMessage := do
  s.checkExpired now
  s.expectState st
  s.expectRole r
  validate
  s.decryptMessage C event

/-- The checks every builder makes. -/
def ready (st : SessionState) (r : Role) (now : Nat) : Except PairingError Unit := do
  s.checkExpired now
  s.expectState st
  s.expectRole r

def recordEvent (event : PairingEvent Key) : PairingSession Key :=
  { s with processedIds := insert event.id s.processedIds }

/-- `build_event`: encrypt a message to the peer and sign it. -/
def buildEvent (message : PairingMessage) (fresh : Fresh) :
    Except PairingError (PairingEvent Key) :=
  match s.peerPubkey with
  | none => .error (.invalidPubkey "no peer pubkey set")
  | some peer =>
    match encrypt C s.keys peer fresh.nonce message.plaintext, fresh.signError with
    | none, _ => .error .nip44
    | some _, some e => .error (.signingError e)
    | some content, none =>
      .ok ⟨fresh.id, s.keys, fresh.createdAt, pairingKind, [["p", C.toHex peer]], content, true⟩

/-! ### The source -/

/-- `new_source`, from a generated key and secret. -/
def newSource (keys : Key) (sessionSecret : Bytes32) (relayUrl : String) (now : Nat) :
    PairingSession Key × QrPayload Key :=
  (⟨.source, .waiting, keys, sessionSecret, [relayUrl], none, deriveSessionId C sessionSecret, none,
    none, ∅, now, defaultTimeout⟩, ⟨1, keys, sessionSecret, [relayUrl]⟩)

/-- Lock to a peer, and derive the code to display from the ECDH secret. -/
def lockToPeer (peer : Key) (ecdh : Bytes32) : PairingSession Key :=
  let sas := deriveSas C ecdh s.sessionSecret
  { s with
    peerPubkey := some peer
    sasCode := some sas.1
    sasInput := some sas.2
    state := .confirming }

def handleOffer (event : PairingEvent Key) (now : Nat) :
    PairingSession Key × Except PairingError String :=
  match s.receive C .waiting .source (s.validateEventBasics C event) event now with
  | .error e => (s, .error e)
  | .ok (.offer sessionIdHex version) =>
    if version ≠ 1 then
      (s, .error (.unexpectedMessage "version 1" ("version " ++ Nat.repr version)))
    else if bytes32FromHex sessionIdHex ≠ some s.sessionId then (s, .error .invalidSessionId)
    else
      match C.generateSharedKey s.keys event.pubkey with
      -- the peer is set before the ECDH secret is computed
      | .error e => ({ s with peerPubkey := some event.pubkey }, .error (.signingError e))
      | .ok ecdh =>
        ((s.lockToPeer C event.pubkey ecdh).recordEvent event,
          .ok (formatSas (deriveSas C ecdh s.sessionSecret).1))
  | .ok other => (s, .error (unexpected "offer" other))

/-- Build a message and move to the next state. -/
def send (next : SessionState) (message : PairingMessage) (fresh : Fresh) :
    PairingSession Key × Except PairingError (PairingEvent Key) :=
  match s.buildEvent C message fresh with
  | .error e => (s, .error e)
  | .ok event => ({ s with state := next }, .ok event)

/-- `confirm_sas`: the source's user confirmed that the codes match. -/
def confirmSas (fresh : Fresh) (now : Nat) :
    PairingSession Key × Except PairingError (PairingEvent Key) :=
  match s.ready .confirming .source now with
  | .error e => (s, .error e)
  | .ok () =>
    match s.sasInput, s.peerPubkey with
    | none, _ => (s, .error .sasMismatch)
    | some _, none => (s, .error (.invalidPubkey "no peer"))
    | some sasInput, some peer =>
      let transcriptHash := deriveTranscriptHash C s.sessionId (C.toBytes s.keys) (C.toBytes peer)
        sasInput s.sessionSecret
      s.send C .transferring (.sasConfirm (hexOfBytes32 transcriptHash)) fresh

def sendPayload (payloadType : PayloadType) (payload : String) (fresh : Fresh) (now : Nat) :
    PairingSession Key × Except PairingError (PairingEvent Key) :=
  match s.ready .transferring .source now with
  | .error e => (s, .error e)
  | .ok () => s.send C .payloadExchanged (.payload payloadType payload) fresh

def handleComplete (event : PairingEvent Key) (now : Nat) :
    PairingSession Key × Except PairingError Unit :=
  match s.receive C .payloadExchanged .source (s.validateEventFromPeer C event) event now with
  | .error e => (s, .error e)
  | .ok (.complete true) => ({ s with state := .completed }.recordEvent event, .ok ())
  | .ok (.complete false) =>
    ({ s with state := .aborted },
      .error (.unexpectedMessage "complete(success=true)" "complete(success=false)"))
  | .ok other => (s, .error (unexpected "complete" other))

/-! ### The target -/

/-- `new_target`, from a generated key and a scanned QR code: the session and its offer. -/
def newTarget (keys : Key) (qr : QrPayload Key) (fresh : Fresh) (now : Nat) :
    Except PairingError (PairingSession Key × PairingEvent Key) := do
  let sessionId := deriveSessionId C qr.sessionSecret
  let ecdh ← (C.generateSharedKey keys qr.sourcePubkey).mapError .signingError
  let sas := deriveSas C ecdh qr.sessionSecret
  let session : PairingSession Key :=
    ⟨.target, .waiting, keys, qr.sessionSecret, qr.relays, some qr.sourcePubkey, sessionId,
      some sas.1, some sas.2, ∅, now, defaultTimeout⟩
  (session.buildEvent C (.offer (hexOfBytes32 sessionId) 1) fresh).map fun event =>
    ({ session with state := .confirming }, event)

def handleSasConfirm (event : PairingEvent Key) (now : Nat) :
    PairingSession Key × Except PairingError String :=
  match s.receive C .confirming .target (s.validateEventFromPeer C event) event now with
  | .error e => (s, .error e)
  | .ok (.sasConfirm receivedHash) =>
    match s.sasInput, s.peerPubkey with
    | none, _ => (s, .error .sasMismatch)
    | some _, none => (s, .error (.invalidPubkey "no peer"))
    | some sasInput, some peer =>
      let expectedHash := deriveTranscriptHash C s.sessionId (C.toBytes peer) (C.toBytes s.keys)
        sasInput s.sessionSecret
      if bytes32FromHex receivedHash ≠ some expectedHash then
        ({ s with state := .aborted }, .error .transcriptMismatch)
      else
        ({ s with state := .awaitingConfirmation }.recordEvent event,
          match s.sasCode with
          | none => .error .sasMismatch
          | some code => .ok (formatSas code))
  | .ok other => (s, .error (unexpected "sas-confirm" other))

/-- `confirm_target_sas`: the target's user confirmed that the codes match. -/
def confirmTargetSas (now : Nat) : PairingSession Key × Except PairingError Unit :=
  match s.ready .awaitingConfirmation .target now with
  | .error e => (s, .error e)
  | .ok () => ({ s with state := .transferring }, .ok ())

def handlePayload (event : PairingEvent Key) (now : Nat) :
    PairingSession Key × Except PairingError (PayloadType × String) :=
  match s.receive C .transferring .target (s.validateEventFromPeer C event) event now with
  | .error e => (s, .error e)
  | .ok (.payload payloadType payload) =>
    ({ s with state := .payloadExchanged }.recordEvent event, .ok (payloadType, payload))
  | .ok other => (s, .error (unexpected "payload" other))

def sendComplete (fresh : Fresh) (now : Nat) :
    PairingSession Key × Except PairingError (PairingEvent Key) :=
  match s.ready .payloadExchanged .target now with
  | .error e => (s, .error e)
  | .ok () => s.send C .completed (.complete true) fresh

/-! ### Both sides -/

/-- `abort`: tells the peer, if there is one. -/
def abort (reason : AbortReason) (fresh : Fresh) :
    PairingSession Key × Except PairingError (Option (PairingEvent Key)) :=
  if s.state.isTerminal then
    (s, .error (.unexpectedMessage "non-terminal state" ("state " ++ s.state.debug)))
  else if s.peerPubkey = none then ({ s with state := .aborted }, .ok none)
  else
    let (s', result) := s.send C .aborted (.abort reason) fresh
    (s', result.map some)

def handleAbort (event : PairingEvent Key) : PairingSession Key × Except PairingError AbortReason :=
  if s.state.isTerminal then
    (s, .error (.unexpectedMessage "non-terminal state" ("state " ++ s.state.debug)))
  else if s.peerPubkey = none then
    (s, .error (.invalidPubkey "cannot accept abort before peer is known"))
  else
    match (do s.validateEventFromPeer C event; s.decryptMessage C event) with
    | .error e => (s, .error e)
    | .ok (.abort reason) => ({ s with state := .aborted }.recordEvent event, .ok reason)
    | .ok other => (s, .error (unexpected "abort" other))

end PairingSession

end Buzz.Pairing
