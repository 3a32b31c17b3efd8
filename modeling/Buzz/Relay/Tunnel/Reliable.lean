import Buzz.Relay.Tunnel.Fencing
import Buzz.Relay.Tunnel.Wire

/-!
# Reliable tunnel streams

A reliable stream is a mesh stream pinned to one fence. `recv_validated` takes the next mesh frame,
checks it locally, and then asks the directory; leases change hands while it waits for the answer,
so it is two functions here. The stream is borrowed meanwhile: nothing is sent, and no other frame
is taken. A caller may drop the call while it waits, and the frame is lost with it.

The mesh stream itself is the list of what it yields: any frame, its end, or an error.

A reliable frame has no length field. The payload of a data frame runs to the end of the bytes, and
a goodbye has one byte after the community. So the bytes that are accepted are told apart by their
length and by at most three of them. The source reads bytes by index and by range, and either panics
when the bytes are too few. The decoder is stated once more with accesses that fail, and it never
does.
-/

/-! ## Streams and their ends -/

namespace Buzz.Tunnel

def maxReliablePayloadBytes : Nat := 1024 * 1024

inductive StreamRole where
  | control
  | session (fenced : FencedHeader) (profile : Profile)

structure StreamHello where
  sender : RuntimeId
  role : StreamRole

inductive MeshStreamFrame where
  | hello (hello : StreamHello)
  | data (fenced : FencedHeader) (payload : List UInt8)
  | goodbye (fenced : FencedHeader) (reason : GoodbyeReason)
  | gossip (payload : List UInt8)

/-- `ReliableFrame`: what the session gets. -/
inductive ReliableFrame where
  | data (payload : List UInt8)
  | goodbye (reason : GoodbyeReason)

/-- What the session gets of a frame. -/
def ReliableWireFrame.reliable : ReliableWireFrame → ReliableFrame
  | .data _ payload => .data payload
  | .goodbye _ reason => .goodbye reason

/-- `ReliableMeshStream`, without the mesh stream. -/
structure ReliableMeshStream where
  fenced : FencedHeader
  communityId : Option CommunityId

/-- A mesh data frame whose fence and payload were taken apart. -/
structure FencedFrame where
  fenced : FencedHeader
  frame : ReliableWireFrame

/-- How a stream takes the frames of one call: all of them, or so many and then it fails. -/
abbrev Writes := Option (Nat × String)

/-- Frames are written one after the other, as long as the stream takes them. -/
def sendFrames (writes : Writes) (frames : List MeshStreamFrame) :
    List MeshStreamFrame × Except ReliableStreamError Unit :=
  match writes with
  | none => (frames, .ok ())
  | some (n, message) =>
    if n < frames.length then (frames.take n, .error (.transport message)) else (frames, .ok ())

namespace ReliableMeshStream

variable (t : ReliableMeshStream)

def ensureOutboundCommunity (communityId : CommunityId) :
    Except ReliableStreamError ReliableMeshStream :=
  match t.communityId with
  | some expected =>
    if expected ≠ communityId then .error (.communityMismatch expected communityId) else .ok t
  | none => .ok { t with communityId := some communityId }

def meshFrame (frame : ReliableWireFrame) : MeshStreamFrame := .data t.fenced frame.encode

/-- `send_bytes`: the stream, the frames that were written, and the result. -/
def sendBytes (communityId : CommunityId) (bytes : List UInt8) (writes : Writes) :
    ReliableMeshStream × List MeshStreamFrame × Except ReliableStreamError Unit :=
  match t.ensureOutboundCommunity communityId with
  | .error e => (t, [], .error e)
  | .ok t' =>
    (t', sendFrames writes ((chunks maxReliablePayloadBytes bytes).map fun chunk =>
      t'.meshFrame (.data communityId chunk)))

def sendGoodbye (communityId : CommunityId) (reason : GoodbyeReason) (writes : Writes) :
    ReliableMeshStream × List MeshStreamFrame × Except ReliableStreamError Unit :=
  match t.ensureOutboundCommunity communityId with
  | .error e => (t, [], .error e)
  | .ok t' => (t', sendFrames writes [t'.meshFrame (.goodbye communityId reason)])

/-- `validate_frame_fence`, up to the call of the directory. -/
def checkFrameFence (communityId : CommunityId) (fenced : FencedHeader) :
    Except ReliableStreamError Unit :=
  if fenced ≠ t.fenced then .error (.frameFenceMismatch t.fenced fenced)
  else
    match t.communityId with
    | some expected =>
      if expected ≠ communityId then .error (.communityMismatch expected communityId) else .ok ()
    | none => .ok ()

/-- `recv_validated`, up to the call of the directory. -/
def recvStart (frame : MeshStreamFrame) : Except ReliableStreamError FencedFrame :=
  match frame with
  | .data fenced payload => do
    let frame ← ReliableWireFrame.decode payload
    t.checkFrameFence frame.communityId fenced
    return ⟨fenced, frame⟩
  | .goodbye .. => .error (.unexpectedFrame "goodbye")
  | .hello _ => .error (.unexpectedFrame "hello")
  | .gossip _ => .error (.unexpectedFrame "gossip")

/-- `recv_validated`, from the call of the directory on. -/
def recvFinish (p : FencedFrame) (redis : Redis) :
    ReliableMeshStream × Except ReliableStreamError ReliableFrame :=
  match validateFencedHeader p.frame.communityId p.fenced redis with
  | .error e => (t, .error (.mesh e))
  | .ok () =>
    (if t.communityId.isNone then { t with communityId := some p.frame.communityId } else t,
      .ok p.frame.reliable)

end ReliableMeshStream

/-! ### One end of a tunnel -/

/-- One end of a tunnel. -/
structure TunnelState where
  stream : ReliableMeshStream
  /-- The frame of a `recv_validated` that waits for the directory. -/
  pending : Option FencedFrame
  /-- The frames that were handed to the session, with their fences, the first one first. -/
  delivered : List FencedFrame
  /-- The errors that `recv_validated` returned, the first one first. -/
  errors : List ReliableStreamError
  /-- The frames that were written to the mesh stream, the first one first. -/
  sent : List MeshStreamFrame
  /-- The session of the tunnel, in the directory of each community. -/
  directory : CommunityId → DirectoryState

/-- A step of a tunnel's end, or of the directory. -/
inductive TunnelAction where
  /-- `recv_validated` is called, and the mesh stream yields a frame, its end, or an error. -/
  | recv (next : Except String (Option MeshStreamFrame))
  | validate
  | drop
  | sendBytes (communityId : CommunityId) (bytes : List UInt8) (writes : Writes)
  | sendGoodbye (communityId : CommunityId) (reason : GoodbyeReason) (writes : Writes)
  | directory (communityId : CommunityId) (action : Action)

namespace TunnelState

variable (s : TunnelState)

/-- The state after the stream was written to. -/
def afterSend (r : ReliableMeshStream × List MeshStreamFrame × Except ReliableStreamError Unit) :
    TunnelState :=
  { s with stream := r.1, sent := s.sent ++ r.2.1 }

/-- The state after `recv_validated` took the next frame. -/
def afterRecv (next : Except String (Option MeshStreamFrame)) : TunnelState :=
  match next with
  | .error message => { s with errors := s.errors ++ [.transport message] }
  | .ok none => s
  | .ok (some frame) =>
    match s.stream.recvStart frame with
    | .error e => { s with errors := s.errors ++ [e] }
    | .ok p => { s with pending := some p }

/-- The state after the directory answered. -/
def afterValidate (p : FencedFrame) : TunnelState :=
  match s.stream.recvFinish p (s.directory p.frame.communityId).redis with
  | (t, .ok _) => { s with stream := t, pending := none, delivered := s.delivered ++ [p] }
  | (t, .error e) => { s with stream := t, pending := none, errors := s.errors ++ [e] }

def step : TunnelAction → Option TunnelState
  | .recv next => if s.pending = none then some (s.afterRecv next) else none
  | .validate => s.pending.map s.afterValidate
  | .drop => if s.pending = none then none else some { s with pending := none }
  | .sendBytes communityId bytes writes =>
    if s.pending = none then some (s.afterSend (s.stream.sendBytes communityId bytes writes))
    else none
  | .sendGoodbye communityId reason writes =>
    if s.pending = none then some (s.afterSend (s.stream.sendGoodbye communityId reason writes))
    else none
  | .directory communityId action =>
    (Tunnel.step communityId s.stream.fenced.sessionId (s.directory communityId) action).map
      fun d => { s with directory := Function.update s.directory communityId d }

end TunnelState

/-- One end of a tunnel that is pinned to a fence, from any directory that was used properly. -/
def tunnel (fenced : FencedHeader) : StateMachine TunnelState TunnelAction where
  Init s := s.stream.fenced = fenced ∧ s.pending = none ∧ s.delivered = [] ∧ s.errors = [] ∧
    s.sent = [] ∧
      ∀ communityId, (directory communityId fenced.sessionId).Reachable (s.directory communityId)
  step := TunnelState.step

end Buzz.Tunnel

/-! ## What is a frame on the wire -/

namespace Buzz.Tunnel

/-! ### Accesses that fail -/

/-- `bytes[low..high]`. -/
def slice (bytes : List UInt8) (low high : Nat) : Option (List UInt8) :=
  if low ≤ high ∧ high ≤ bytes.length then some ((bytes.drop low).take (high - low)) else none

/-- `Uuid::from_bytes(slice.try_into().expect(..))`. -/
def uuidOfSlice (bytes : List UInt8) : Option Uuid :=
  if bytes.length = 16 then some (Uuid.fromBytes bytes) else none

/-- `decode`, where an access out of range is `none`. -/
def decodeChecked (bytes : List UInt8) : Option (Except ReliableStreamError ReliableWireFrame) :=
  if bytes.length < 18 then some (.error (.malformedReliableFrame "too short"))
  else
    bytes[0]?.bind fun first =>
      if first ≠ ReliableWireFrame.version then
        some (.error (.malformedReliableFrame "unknown version"))
      else
        (slice bytes 2 18).bind fun id =>
        (uuidOfSlice id).bind fun communityId =>
        bytes[1]?.bind fun kind =>
          if kind = ReliableWireFrame.dataKind then
            (slice bytes 18 bytes.length).map fun payload => .ok (.data communityId payload)
          else if kind = ReliableWireFrame.goodbyeKind then
            if bytes.length ≠ 19 then some (.error (.malformedReliableFrame "bad goodbye length"))
            else
              bytes[18]?.map fun byte =>
                (GoodbyeReason.fromWireByte byte).map (.goodbye communityId)
          else some (.error (.malformedReliableFrame "unknown kind"))

theorem slice_eq {bytes : List UInt8} {low high : Nat} (h : low ≤ high ∧ high ≤ bytes.length) :
    slice bytes low high = some ((bytes.drop low).take (high - low)) := if_pos h

theorem uuidOfSlice_eq {bytes : List UInt8} (h : bytes.length = 16) :
    uuidOfSlice bytes = some (Uuid.fromBytes bytes) := if_pos h

theorem decodeChecked_eq (bytes : List UInt8) :
    decodeChecked bytes = some (ReliableWireFrame.decode bytes) := by
  unfold decodeChecked ReliableWireFrame.decode
  split
  · rfl
  next hlen =>
  have hid : ((bytes.drop 2).take (18 - 2)).length = 16 := by
    rw [List.length_take, List.length_drop]
    omega
  rw [List.getElem?_eq_getElem (by omega), slice_eq (by omega), List.getElem?_eq_getElem (by omega),
    slice_eq ⟨by omega, Nat.le_refl _⟩, ← List.length_drop, List.take_length]
  simp only [Option.bind_some, uuidOfSlice_eq hid, Option.map_some, List.get_eq_getElem]
  split
  · rfl
  split
  · rfl
  split
  · split
    · rfl
    · next h19 => rw [List.getElem?_eq_getElem (by omega), Option.map_some]
  · rfl

/-! ### Well-formed bytes -/

/-- A header of the known version, and either a payload, or one byte that is a reason. -/
def WellFormed (bytes : List UInt8) : Prop :=
  18 ≤ bytes.length ∧ bytes[0]? = some 1 ∧
    (bytes[1]? = some 1 ∨ bytes[1]? = some 2 ∧ bytes.length = 19 ∧
      (bytes[18]? = some 1 ∨ bytes[18]? = some 2 ∨ bytes[18]? = some 3))

theorem wellFormed_encode (frame : ReliableWireFrame) : WellFormed frame.encode := by
  cases frame with
  | data communityId payload =>
    refine ⟨?_, rfl, .inl rfl⟩
    simp [ReliableWireFrame.encode]
  | goodbye communityId reason =>
    have hlast : (ReliableWireFrame.goodbye communityId reason).encode[18]? =
        some reason.toWireByte := by
      simp [ReliableWireFrame.encode]
    have hlen : (ReliableWireFrame.goodbye communityId reason).encode.length = 19 := by
      simp [ReliableWireFrame.encode]
    refine ⟨by omega, rfl, .inr ⟨rfl, hlen, ?_⟩⟩
    rw [hlast]
    cases reason with
    | sessionEnded => exact .inl rfl
    | draining => exact .inr (.inl rfl)
    | staleGeneration => exact .inr (.inr rfl)

theorem exists_fromWireByte {byte : UInt8} (h : byte = 1 ∨ byte = 2 ∨ byte = 3) :
    ∃ reason, GoodbyeReason.fromWireByte byte = .ok reason := by
  obtain rfl | rfl | rfl := h
  · exact ⟨.sessionEnded, rfl⟩
  · exact ⟨.draining, rfl⟩
  · exact ⟨.staleGeneration, rfl⟩

theorem WellFormed.decode {bytes : List UInt8} (h : WellFormed bytes) :
    ∃ frame, ReliableWireFrame.decode bytes = .ok frame := by
  obtain ⟨hlen, hversion, hkind⟩ := h
  have hversion' : bytes[0] = ReliableWireFrame.version :=
    Option.some.inj ((List.getElem?_eq_getElem (by omega)).symm.trans hversion)
  have hsecond : bytes[1]? = some bytes[1] := List.getElem?_eq_getElem (by omega)
  unfold ReliableWireFrame.decode
  simp only [dif_neg (Nat.not_lt.mpr hlen), List.get_eq_getElem, hversion', ne_eq, not_true_eq_false,
    if_false]
  rw [hsecond, Option.some.injEq, Option.some.injEq] at hkind
  obtain hdata | ⟨hbye, h19, hreason⟩ := hkind
  · rw [hdata]
    exact ⟨_, rfl⟩
  · have hlast : bytes[18]? = some bytes[18] := List.getElem?_eq_getElem (by omega)
    simp only [hlast, Option.some.injEq] at hreason
    obtain ⟨reason, hreason⟩ := exists_fromWireByte hreason
    rw [hbye, dif_neg (not_not.mpr h19), hreason]
    exact ⟨_, rfl⟩

/-! ### Main result -/

/-- **The codec.** A frame is read as it was written, and from no other bytes. The bytes that are
read as some frame are the well-formed ones. No access is out of range. -/
theorem codec_exact :
    (∀ frame, ReliableWireFrame.decode frame.encode = .ok frame) ∧
      (∀ bytes frame, ReliableWireFrame.decode bytes = .ok frame ↔ frame.encode = bytes) ∧
      (∀ bytes, (∃ frame, ReliableWireFrame.decode bytes = .ok frame) ↔ WellFormed bytes) ∧
      ∀ bytes, decodeChecked bytes = some (ReliableWireFrame.decode bytes) := by
  refine ⟨decode_encode, fun bytes frame => ?_, fun bytes => ?_, decodeChecked_eq⟩
  · constructor
    · exact encode_of_decode
    · rintro rfl
      exact decode_encode frame
  · constructor
    · rintro ⟨frame, h⟩
      rw [← encode_of_decode h]
      exact wellFormed_encode frame
    · exact WellFormed.decode

/-! ### No limit -/

/-- The frames that `send_bytes` and `send_goodbye` write. -/
def WithinLimits : ReliableWireFrame → Prop
  | .data _ payload => payload.length ≤ maxReliablePayloadBytes
  | .goodbye _ _ => True

def overlongFrame : ReliableWireFrame :=
  .data (Uuid.fromBytes []) (List.replicate (maxReliablePayloadBytes + 1) 0)

/-- It is not within the limits, and its bytes are accepted. -/
theorem not_withinLimits : ¬ WithinLimits overlongFrame ∧
    ReliableWireFrame.decode overlongFrame.encode = .ok overlongFrame := by
  refine ⟨?_, decode_encode overlongFrame⟩
  rw [overlongFrame, WithinLimits, List.length_replicate]
  exact Nat.not_succ_le_self _

end Buzz.Tunnel
