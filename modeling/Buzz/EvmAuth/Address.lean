import Buzz.Core.Basic
import Buzz.Core.Text

/-!
# Accounts of the EVM

An account is twenty bytes, written in hexadecimal. Both are read back from what they are written
as.
-/

namespace Buzz.EvmAuth

/-- A 32-byte word. -/
abbrev Word := Vector UInt8 32

/-- An Ethereum address. -/
structure EvmAddress where
  bytes : Vector UInt8 20
  deriving DecidableEq

inductive EvmAuthError where
  | invalidAddress (input : String)
  /-- A signature failed to parse, or its signer cannot be recovered. -/
  | invalidSignature (what : String)
  | invalidMessage (what : String)
  | domainMismatch (expected got : String)
  | chainIdMismatch (expected got : Nat)
  | signerMismatch (expected got : String)
  | expired
  | notYetValid
  | rpc (what : String)
  deriving DecidableEq

def EvmAuthError.text : EvmAuthError → String
  | invalidAddress input => "invalid address: " ++ input
  | invalidSignature what => "invalid signature: " ++ what
  | invalidMessage what => "invalid SIWE message: " ++ what
  | domainMismatch expected got => "domain mismatch: expected " ++ expected ++ ", got " ++ got
  | chainIdMismatch expected got =>
    "chain id mismatch: expected " ++ toString expected ++ ", got " ++ toString got
  | signerMismatch expected got => "signer mismatch: expected " ++ expected ++ ", recovered " ++ got
  | expired => "message expired"
  | notYetValid => "message not yet valid"
  | rpc what => "rpc: " ++ what

namespace EvmAddress

/-- `EvmAddress::parse`. -/
def parse (input : String) : Except EvmAuthError EvmAddress :=
  let hexStr := (stripPrefix input "0x").getD input
  if hexStr.utf8ByteSize ≠ 40 then .error (.invalidAddress input)
  else
    match hexDecode hexStr with
    | none => .error (.invalidAddress input)
    | some bs =>
      if h : bs.length = 20 then .ok ⟨⟨bs.toArray, by simp [h]⟩⟩
      else .error (.invalidAddress input)

/-- `EvmAddress::to_hex`. -/
def toHex (a : EvmAddress) : String := "0x" ++ hexEncode a.bytes.toList

/-- `EvmAddress::to_word`: padded on the left. -/
def toWord (a : EvmAddress) : List UInt8 := List.replicate 12 0 ++ a.bytes.toList

@[simp] theorem length_toWord (a : EvmAddress) : a.toWord.length = 32 := by
  simp [toWord]

theorem toWord_injective : Function.Injective toWord := by
  intro a b h
  obtain ⟨a⟩ := a
  obtain ⟨b⟩ := b
  have hbytes : a.toList = b.toList := List.append_cancel_left h
  rw [Vector.toList_inj.mp hbytes]

end EvmAddress

/-- `u256`: a `uint256` from a `u64`. -/
def u256 (value : UInt64) : List UInt8 := List.replicate 24 0 ++ bytesBE 8 value.toNat

@[simp] theorem length_u256 (value : UInt64) : (u256 value).length = 32 := by
  simp [u256]

theorem u256_injective : Function.Injective u256 := by
  intro x y h
  have hbytes : bytesBE 8 x.toNat = bytesBE 8 y.toNat := List.append_cancel_left h
  have hx : x.toNat < 256 ^ 8 := x.toNat_lt
  have hy : y.toNat < 256 ^ 8 := y.toNat_lt
  exact UInt64.toNat_inj.mp (bytesBE_inj hx hy hbytes)

end Buzz.EvmAuth
