import Buzz.Lib.StateMachine
import Buzz.PairRelay.Relay
import Mathlib.Logic.Function.Basic

/-!
# Connections of the pair relay

Any number of connections, each handling one frame after the other. Handling an event takes several
steps: validation, reservation, delivery, and the release of the id when delivery failed. Between two
of them other connections take theirs and time passes. A handler does not wait between these steps,
so a connection does not close in the middle of them.

## The clocks

The freshness of an event is checked against the wall clock, the age of an id is measured with a
monotonic clock. Nothing relates them: the wall clock may be set forward and back, so an event is
validated with any reading, and a handler may take any time between its steps.
-/

namespace Buzz.PairRelay

/-- The session cap: accepted events for each connection. -/
def maxEventsPerConn : Nat := 6

/-- The longest name of a subscription. -/
def subIdMax : Nat := 64

/-- The window of the frame rates: ten seconds. -/
def rateWindow : Nat := 10 * 1000000000

def rateMsgMax : Nat := 20

def rateEventMax : Nat := 10

/-- A window in which events are counted. -/
structure RateWindow where
  count : Nat
  windowStart : Nat

/-- `tick`: count a frame. -/
def RateWindow.tick (window : RateWindow) (now : Nat) : RateWindow :=
  if rateWindow ≤ now - window.windowStart then ⟨1, now⟩
  else { window with count := window.count + 1 }

/-- The await points of a handler. -/
inductive Phase where
  | idle
  /-- The event is valid and verified, by this reading of the wall clock. -/
  | checked (ev : Json) (id pValue : Bytes32) (wall : Nat)
  | reserved (id pValue : Bytes32)
  | releasing (id : Bytes32)
  deriving DecidableEq

/-- The state of a connection. -/
structure Conn where
  msgRate : RateWindow
  eventRate : RateWindow
  subId : Option String
  eventsAttempted : Nat
  phase : Phase

def Conn.new (now : Nat) : Conn := ⟨⟨0, now⟩, ⟨0, now⟩, none, 0, .idle⟩

/-- A reservation that was not released. -/
structure Grant where
  id : Bytes32
  connId : Nat
  reservedAt : Nat
  ev : Json
  /-- The reading of the wall clock that the event was validated with. -/
  wall : Nat

/-- An event that was written to a subscriber. -/
structure Written where
  id : Bytes32
  pValue : Bytes32
  sub : Sub
  writtenAt : Nat

/-- The relay, its connections, and what happened so far. -/
structure World where
  now : Nat
  relay : Relay
  nextConnId : Nat
  conns : Nat → Option Conn
  grants : List Grant
  written : List Written
  hashed : List String

/-- A step of a connection, a handler or the sweep. -/
inductive Action where
  | connect
  | frame (conn : Nat)
  /-- `REQ` for a key; `sent` is the answer of `try_send` to the `EOSE`. -/
  | req (conn : Nat) (subId : String) (pValue : Bytes32) (sent : Bool)
  | close (conn : Nat) (subId : String)
  | event (conn : Nat) (ev : Json) (wall : Nat)
  | reserve (conn : Nat)
  /-- The handler delivers the event; `sent` is the answer of `try_send`. -/
  | deliver (conn : Nat) (sent : Bool)
  | unreserve (conn : Nat)
  | disconnect (conn : Nat)
  | tick (elapsed : Nat)

/-- A reading of the wall clock in whole seconds. -/
def wallSecs (wall : Nat) : Int := (wall / 1000000000 : Nat)

namespace World

variable (w : World)

def setConn (conn : Nat) (c : Option Conn) : World :=
  { w with conns := Function.update w.conns conn c }

/-- The connection's task ends: its subscription is removed. -/
def drop (conn : Nat) : World :=
  { w with relay := w.relay.removeSub conn }.setConn conn none

/-- A connection that waits for a frame counts one: the connection afterwards, or `none` when the
rate is exceeded and it closes. -/
def tickFrame (c : Conn) : Option Conn :=
  let msgRate := c.msgRate.tick w.now
  if rateMsgMax < msgRate.count then none else some { c with msgRate := msgRate }

end World

variable (P : Platform)

/-- Handle a `REQ`, on a connection that may send frames. -/
def handleReq (w : World) (conn : Nat) (c : Conn) (subId : String) (pValue : Bytes32)
    (sent : Bool) : World :=
  if subIdMax < subId.utf8ByteSize ∨ c.subId.isSome then w.setConn conn (some c)
  else if w.relay.subs.any fun s => s.pValue == pValue then w.setConn conn (some c)
  else if !sent then w.drop conn
  else
    { w with relay := w.relay.addSub ⟨conn, subId, pValue⟩ }.setConn conn
      (some { c with subId := some subId })

/-- Handle an `EVENT` up to the reservation, on a connection that may send frames. -/
def handleEvent (w : World) (conn : Nat) (c : Conn) (ev : Json) (wall : Nat) : World :=
  let c := { c with eventRate := c.eventRate.tick w.now }
  if rateEventMax < c.eventRate.count ∨ maxEventsPerConn ≤ c.eventsAttempted then
    w.setConn conn (some c)
  else
    match validateEvent ev (wallSecs wall), commitmentText ev, verifyEventSig P ev with
    | .ok (_, id, pValue), .ok text, .ok () =>
      { w with hashed := text :: w.hashed }.setConn conn
        (some { c with
          eventsAttempted := c.eventsAttempted + 1
          phase := .checked ev id pValue wall })
    | _, _, _ => w.setConn conn (some c)

/-- The handler reserves the id of the event it has checked. -/
def handleReserve (w : World) (conn : Nat) (c : Conn) (ev : Json) (id pValue : Bytes32)
    (wall : Nat) : World :=
  match w.relay.reserveId id w.now with
  | (relay, .ok false) =>
    { w with
      relay := relay
      grants := Grant.mk id conn w.now ev wall :: w.grants }.setConn conn
      (some { c with phase := .reserved id pValue })
  | (relay, _) => { w with relay := relay }.setConn conn (some { c with phase := .idle })

/-- The handler delivers the event whose id it has reserved. -/
def handleDeliver (w : World) (conn : Nat) (c : Conn) (id pValue : Bytes32) (sent : Bool) : World :=
  match w.relay.deliverSingle pValue sent w.now with
  | (relay, .ok (some sub)) =>
    { w with
      relay := relay
      written := Written.mk id pValue sub w.now :: w.written }.setConn conn
      (some { c with phase := .idle })
  | (relay, _) => { w with relay := relay }.setConn conn (some { c with phase := .releasing id })

def handleUnreserve (w : World) (conn : Nat) (c : Conn) (id : Bytes32) : World :=
  { w with
    relay := w.relay.unreserveId id
    grants := w.grants.filter fun g => g.id != id }.setConn conn (some { c with phase := .idle })

/-- Handle a frame on a connection that waits for one. -/
def onFrame (w : World) (conn : Nat) (handle : Conn → World) : Option World :=
  match w.conns conn with
  | some c =>
    if c.phase = .idle then
      match w.tickFrame c with
      | some c' => some (handle c')
      | none => some (w.drop conn)
    else none
  | none => none

def World.step (w : World) : Action → Option World
  | .connect =>
    some ({ w with nextConnId := w.nextConnId + 1 }.setConn w.nextConnId (some (Conn.new w.now)))
  | .frame conn => onFrame w conn fun c => w.setConn conn (some c)
  | .req conn subId pValue sent => onFrame w conn fun c => handleReq w conn c subId pValue sent
  | .close conn subId => onFrame w conn fun c =>
    if c.subId = some subId then
      { w with relay := w.relay.removeSub conn }.setConn conn (some { c with subId := none })
    else w.setConn conn (some c)
  | .event conn ev wall => onFrame w conn fun c => handleEvent P w conn c ev wall
  | .reserve conn =>
    (w.conns conn).bind fun c =>
      match c.phase with
      | .checked ev id pValue wall => some (handleReserve w conn c ev id pValue wall)
      | _ => none
  | .deliver conn sent =>
    (w.conns conn).bind fun c =>
      match c.phase with
      | .reserved id pValue => some (handleDeliver w conn c id pValue sent)
      | _ => none
  | .unreserve conn =>
    (w.conns conn).bind fun c =>
      match c.phase with
      | .releasing id => some (handleUnreserve w conn c id)
      | _ => none
  | .disconnect conn =>
    (w.conns conn).bind fun c => if c.phase = .idle then some (w.drop conn) else none
  | .tick elapsed => some { w with now := w.now + elapsed }

def pairRelay : StateMachine World Action where
  Init w := ∃ now, w = ⟨now, ⟨[], [], []⟩, 0, fun _ => none, [], [], []⟩
  step := World.step P

/-- No event is fresh by two readings of the wall clock, in nanoseconds, that are this far apart. -/
def freshSpan : Nat := 241 * 1000000000

/-- The wall clock keeps pace: when a handler reserves an id, the reading that it validated with is
not close to one that a reservation was made with which is older than its entry in the dedup table
may be. -/
def World.paced (w : World) : Action → Bool
  | .reserve conn =>
    match (w.conns conn).map Conn.phase with
    | some (.checked _ _ _ wall) => w.grants.all fun g =>
      decide (w.now - g.reservedAt < entryTtl) || decide (g.wall + freshSpan ≤ wall) ||
        decide (wall + freshSpan ≤ g.wall)
    | _ => true
  | _ => true

/-- The pair relay, while the wall clock keeps pace with the monotonic one. -/
def pacedRelay : StateMachine World Action :=
  (pairRelay P).guard fun w a => w.paced a = true

end Buzz.PairRelay
