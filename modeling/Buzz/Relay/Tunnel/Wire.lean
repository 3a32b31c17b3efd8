import Buzz.Relay.Tunnel.Directory

/-!
# Reliable frames on the wire

The payload of a mesh `Data` frame of a reliable stream is a frame of its own: a version byte, a
kind byte, the sixteen bytes of the community, and the payload of the kind. Every access of the
decoder below carries the proof that it is in range.
-/

namespace Buzz

open List

def Uuid.asBytes (u : Uuid) : List UInt8 := bytesBE 16 (BitVec.toNat u)

def Uuid.fromBytes (bs : List UInt8) : Uuid := BitVec.ofNat 128 (ofBytesBE bs)

@[simp] theorem Uuid.length_asBytes (u : Uuid) : u.asBytes.length = 16 := length_bytesBE 16 _

@[simp] theorem Uuid.fromBytes_asBytes (u : Uuid) : Uuid.fromBytes u.asBytes = u := by
  have hlt : BitVec.toNat u < 256 ^ 16 := u.isLt
  rw [Uuid.fromBytes, Uuid.asBytes, ofBytesBE_bytesBE, Nat.mod_eq_of_lt hlt]
  exact BitVec.ofNat_toNat 128 u

theorem Uuid.asBytes_fromBytes {bs : List UInt8} (h : bs.length = 16) :
    (Uuid.fromBytes bs).asBytes = bs := by
  have hlt : ofBytesBE bs < 2 ^ 128 := by
    have := ofBytesBE_lt bs
    rw [h] at this
    exact this
  show bytesBE 16 (BitVec.ofNat 128 (ofBytesBE bs)).toNat = bs
  rw [BitVec.toNat_ofNat, Nat.mod_eq_of_lt hlt, ← h]
  exact bytesBE_ofBytesBE bs

namespace Tunnel

inductive GoodbyeReason where
  | sessionEnded
  | draining
  | staleGeneration
  deriving DecidableEq

inductive ReliableStreamError where
  | mesh (error : MeshError)
  | transport (message : String)
  | unexpectedFrame (kind : String)
  | frameFenceMismatch (expected actual : FencedHeader)
  | communityMismatch (expected actual : CommunityId)
  | malformedReliableFrame (reason : String)
  deriving DecidableEq

def GoodbyeReason.toWireByte : GoodbyeReason → UInt8
  | .sessionEnded => 1
  | .draining => 2
  | .staleGeneration => 3

def GoodbyeReason.fromWireByte (byte : UInt8) : Except ReliableStreamError GoodbyeReason :=
  if byte = 1 then .ok .sessionEnded
  else if byte = 2 then .ok .draining
  else if byte = 3 then .ok .staleGeneration
  else .error (.malformedReliableFrame "unknown goodbye reason")

/-- A frame on the wire. -/
inductive ReliableWireFrame where
  | data (communityId : CommunityId) (payload : List UInt8)
  | goodbye (communityId : CommunityId) (reason : GoodbyeReason)

namespace ReliableWireFrame

def version : UInt8 := 1

/-- `DATA`. -/
def dataKind : UInt8 := 1

/-- `GOODBYE`. -/
def goodbyeKind : UInt8 := 2

def communityId : ReliableWireFrame → CommunityId
  | .data communityId _ => communityId
  | .goodbye communityId _ => communityId

def encode : ReliableWireFrame → List UInt8
  | .data communityId payload => version :: dataKind :: (communityId.asBytes ++ payload)
  | .goodbye communityId reason =>
    version :: goodbyeKind :: (communityId.asBytes ++ [reason.toWireByte])

def decode (bytes : List UInt8) : Except ReliableStreamError ReliableWireFrame :=
  if hlen : bytes.length < 18 then .error (.malformedReliableFrame "too short")
  else if bytes.get ⟨0, by omega⟩ ≠ version then .error (.malformedReliableFrame "unknown version")
  else
    let communityId := Uuid.fromBytes ((bytes.drop 2).take 16)
    let kind := bytes.get ⟨1, by omega⟩
    if kind = dataKind then .ok (.data communityId (bytes.drop 18))
    else if kind = goodbyeKind then
      if hbye : bytes.length ≠ 19 then .error (.malformedReliableFrame "bad goodbye length")
      else (GoodbyeReason.fromWireByte (bytes.get ⟨18, by omega⟩)).map (.goodbye communityId)
    else .error (.malformedReliableFrame "unknown kind")

end ReliableWireFrame

/-! ### Round trips -/

@[simp] theorem fromWireByte_toWireByte (reason : GoodbyeReason) :
    GoodbyeReason.fromWireByte reason.toWireByte = .ok reason := by
  cases reason <;> decide

theorem toWireByte_of_fromWireByte {byte : UInt8} {reason : GoodbyeReason}
    (h : GoodbyeReason.fromWireByte byte = .ok reason) : reason.toWireByte = byte := by
  rw [GoodbyeReason.fromWireByte] at h
  split at h
  · next hbyte =>
    cases h
    exact hbyte.symm
  split at h
  · next hbyte =>
    cases h
    exact hbyte.symm
  split at h
  · next hbyte =>
    cases h
    exact hbyte.symm
  · nomatch h

theorem decode_parts (kind : UInt8) {id rest : List UInt8} (hid : id.length = 16) :
    ReliableWireFrame.decode (ReliableWireFrame.version :: kind :: (id ++ rest)) =
      if kind = ReliableWireFrame.dataKind then .ok (.data (Uuid.fromBytes id) rest)
      else if kind = ReliableWireFrame.goodbyeKind then
        match rest with
        | [byte] => (GoodbyeReason.fromWireByte byte).map (.goodbye (Uuid.fromBytes id))
        | _ => .error (.malformedReliableFrame "bad goodbye length")
      else .error (.malformedReliableFrame "unknown kind") := by
  have hlen : (ReliableWireFrame.version :: kind :: (id ++ rest)).length = 18 + rest.length := by
    rw [length_cons, length_cons, length_append, hid]
    omega
  have htake : (id ++ rest).take 16 = id := hid ▸ take_left
  have hdrop : (id ++ rest).drop 16 = rest := hid ▸ drop_left
  rw [ReliableWireFrame.decode, dif_neg (by omega), if_neg (fun h => h rfl)]
  simp only [get_eq_getElem, getElem_cons_succ, getElem_cons_zero,
    drop_succ_cons, drop_zero, htake, hdrop]
  by_cases hdata : kind = ReliableWireFrame.dataKind
  · rw [if_pos hdata, if_pos hdata]
  rw [if_neg hdata, if_neg hdata]
  by_cases hbye : kind = ReliableWireFrame.goodbyeKind
  · rw [if_pos hbye, if_pos hbye]
    split
    · next h19 =>
      split
      · next byte => exact absurd (hlen.trans rfl) h19
      · rfl
    · next h19 =>
      obtain ⟨byte, rfl⟩ := length_eq_one_iff.mp (show rest.length = 1 by omega)
      have hlast : 16 < (id ++ [byte]).length := by
        rw [length_append, hid]
        exact Nat.lt_succ_self 16
      have hbyte : (id ++ [byte])[16] = byte := by
        simp [hid]
      rw [hbyte]
  · rw [if_neg hbye, if_neg hbye]

/-- **A frame is read as it was written.** -/
theorem decode_encode (frame : ReliableWireFrame) :
    ReliableWireFrame.decode frame.encode = .ok frame := by
  cases frame with
  | data communityId payload =>
    rw [ReliableWireFrame.encode, decode_parts _ communityId.length_asBytes, if_pos rfl,
      Uuid.fromBytes_asBytes]
  | goodbye communityId reason =>
    rw [ReliableWireFrame.encode, decode_parts _ communityId.length_asBytes, if_neg (by decide),
      if_pos rfl, Uuid.fromBytes_asBytes]
    simp only [fromWireByte_toWireByte]
    rfl

/-- **What the decoder accepts is what the frame is written as.** -/
theorem encode_of_decode {bytes : List UInt8} {frame : ReliableWireFrame}
    (h : ReliableWireFrame.decode bytes = .ok frame) : frame.encode = bytes := by
  by_cases hlen : bytes.length < 18
  · rw [ReliableWireFrame.decode, dif_pos hlen] at h
    nomatch h
  obtain ⟨first, kind, l, rfl⟩ : ∃ first kind l, bytes = first :: kind :: l := by
    match bytes, hlen with
    | [], hlen => exact absurd (Nat.zero_lt_succ 17) hlen
    | [_], hlen => exact absurd (Nat.succ_lt_succ (Nat.zero_lt_succ 16)) hlen
    | first :: kind :: l, _ => exact ⟨first, kind, l, rfl⟩
  by_cases hversion : first = ReliableWireFrame.version
  · obtain rfl := hversion
    have hid : (l.take 16).length = 16 := by
      rw [length_cons, length_cons] at hlen
      rw [length_take]
      omega
    rw [← take_append_drop 16 l] at h ⊢
    generalize hrest : l.drop 16 = rest at h ⊢
    rw [decode_parts kind hid] at h
    split at h
    · next hkind =>
      cases h
      rw [ReliableWireFrame.encode, Uuid.asBytes_fromBytes hid, hkind]
    split at h
    · next hkind =>
      split at h
      · next byte =>
        cases hreason : GoodbyeReason.fromWireByte byte with
        | error e =>
          rw [hreason] at h
          nomatch h
        | ok reason =>
          rw [hreason] at h
          cases h
          rw [ReliableWireFrame.encode, Uuid.asBytes_fromBytes hid, hkind,
            toWireByte_of_fromWireByte hreason]
      · nomatch h
    · nomatch h
  · have hfirst : (first :: kind :: l).get ⟨0, by omega⟩ ≠ ReliableWireFrame.version := hversion
    rw [ReliableWireFrame.decode, dif_neg hlen, if_pos hfirst] at h
    nomatch h

end Tunnel

end Buzz
