import Buzz.Lib.StateMachine
import Buzz.Core.Pairing.Transition
import Mathlib.Logic.Function.Basic

/-!
# Pairing over a hostile relay

One source shows a QR code, and any number of devices scan it. Everything they send to each other
passes through a relay that the adversary runs: it may drop, replay and reorder, deliver any event to
any handler of any device at any time, and inject events of its own. What it cannot do is sign for a
device, open or produce a ciphertext of a conversation that no key of its own takes part in, or name
the session id, which it does not know: it was not shown the QR code. Should a device ever encrypt
anything to one of its keys, it is assumed to know everything.
-/

namespace Buzz.Pairing

/-- The parties: the source, the devices that scanned its code, and strangers. -/
inductive Agent where
  | source
  | target (n : Nat)
  | adversary (n : Nat)
  deriving DecidableEq

def Agent.isAdversary : Agent → Bool
  | .adversary _ => true
  | _ => false

/-- Does a key of the adversary take part in the conversation? -/
def conversationLeaks : Sym2 Agent → Bool :=
  Sym2.lift ⟨fun a b => a.isAdversary || b.isAdversary, fun _ _ => Bool.or_comm _ _⟩

def Content.leaks : Content Agent → Bool
  | .sealed conversation _ _ => conversationLeaks conversation
  | .raw _ => false

/-- Does the plaintext offer this session? -/
def Plaintext.offers (sessionId : Bytes32) (plaintext : Plaintext) : Bool :=
  match plaintext.parsed with
  | some (.offer sessionIdHex _) => bytes32FromHex sessionIdHex == some sessionId
  | _ => false

/-- The sessions, the events on the relay, and the calls that succeeded so far. -/
structure World where
  sessions : Agent → Option (PairingSession Agent)
  network : List (PairingEvent Agent)
  log : List (Mark Agent)

/-- A step of a party, or of the relay. -/
inductive Action where
  | newTarget (n : Nat) (fresh : Fresh) (now : Nat)
  | call (who : Agent) (c : Call) (fresh : Fresh) (now : Nat)
  | deliver (who : Agent) (handler : Handler) (event : PairingEvent Agent) (now : Nat)
  /-- A device authenticates to the relay, with a challenge of the relay's choice. -/
  | authenticate (who : Agent) (challenge relayUrl : String) (fresh : Fresh)
  | inject (event : PairingEvent Agent)

def authKind : UInt16 := 22242

/-- `sign_event` of an `EventBuilder::auth`. -/
def authEvent (keys : Agent) (challenge relayUrl : String) (fresh : Fresh) : PairingEvent Agent :=
  ⟨fresh.id, keys, fresh.createdAt, authKind, [["challenge", challenge], ["relay", relayUrl]], .raw 0,
    true⟩

/-- The payload that `qr_uri` encodes. -/
def PairingSession.qrPayload {Key : Type} (s : PairingSession Key) : QrPayload Key :=
  ⟨1, s.keys, s.sessionSecret, s.relayUrls⟩

namespace World

variable (sessionId : Bytes32) (w : World)

/-- Has a device encrypted anything to the adversary? -/
def leaked : Bool :=
  w.network.any fun event =>
    event.verifies && !event.pubkey.isAdversary && event.content.leaks

/-- Can the adversary write this content? It copies one, or writes no ciphertext, or encrypts with a
key of its own what does not name the session. -/
def writable : Content Agent → Bool
  | .raw _ => true
  | content@(.sealed conversation _ plaintext) =>
    w.network.any (fun event => event.content == content) ||
      (conversationLeaks conversation && (!plaintext.offers sessionId || w.leaked))

/-- Can the adversary send this event? A signature that verifies is one of its own keys'. -/
def injectable (event : PairingEvent Agent) : Bool :=
  (!event.verifies || event.pubkey.isAdversary) && w.writable sessionId event.content

/-- Update a session, and add what it says and records. -/
def update (who : Agent) (s : PairingSession Agent) (said : Option (PairingEvent Agent))
    (mark : Option (Mark Agent)) : World :=
  ⟨Function.update w.sessions who (some s), said.toList ++ w.network, mark.toList ++ w.log⟩

variable {w}

variable {s : PairingSession Agent} {said : Option (PairingEvent Agent)}
  {mark : Option (Mark Agent)}

theorem sessions_update_self {who : Agent} :
    (w.update who s said mark).sessions who = some s := Function.update_self ..

theorem sessions_update_of_ne {who other : Agent} (h : other ≠ who) :
    (w.update who s said mark).sessions other = w.sessions other := Function.update_of_ne h ..

end World

variable (C : Crypto Agent)

/-- The world after an action. The session secret is the source's. -/
def World.step (sessionSecret : Bytes32) (w : World) : Action → Option World
  | .newTarget n fresh now =>
    match w.sessions .source, w.sessions (.target n) with
    | some source, none =>
      match PairingSession.newTarget C (.target n) source.qrPayload fresh now with
      | .error _ => none
      | .ok (session, offer) => some (w.update (.target n) session (some offer) none)
    | _, _ => none
  | .call who c fresh now =>
    (w.sessions who).map fun s =>
      let (s', said, mark) := s.call C c fresh now
      w.update who s' said mark
  | .deliver who handler event now =>
    if event ∈ w.network then
      (w.sessions who).map fun s =>
        let (s', mark) := s.handle C handler event now
        w.update who s' none mark
    else none
  | .authenticate who challenge relayUrl fresh =>
    (w.sessions who).map fun s =>
      { w with network := authEvent s.keys challenge relayUrl fresh :: w.network }
  | .inject event =>
    if w.injectable (deriveSessionId C sessionSecret) event then
      some { w with network := event :: w.network }
    else none

/-- The pairing protocol, for a source with this session secret. -/
def protocol (sessionSecret : Bytes32) : StateMachine World Action where
  Init w := ∃ relayUrl now, w =
    ⟨Function.update (fun _ => none) .source
      (some (PairingSession.newSource C .source sessionSecret relayUrl now).1), [], []⟩
  step := World.step C sessionSecret

end Buzz.Pairing
