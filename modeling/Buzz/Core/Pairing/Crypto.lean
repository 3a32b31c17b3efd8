import Buzz.Lib.Hex
import Buzz.Lib.Json
import Mathlib.Data.Sym.Sym2

/-!
# Pairing messages and ideal cryptography

The messages of device pairing, and what pairing uses of cryptography. Key derivation is the HKDF of
the platform, a parameter. NIP-44 is ideal: a ciphertext is a term that names the two keys of its
conversation, and it opens only with them. Everything pairing looks at in a plaintext is its length
and the message it parses to, so that is what a plaintext is. Public keys are identities, and
secret keys have no other representation than the ability to act under one.
-/

namespace Buzz.Pairing

open Option

abbrev Bytes32 := Vector UInt8 32

/-- `hex::decode` into thirty-two bytes. -/
def bytes32FromHex (s : String) : Option Bytes32 :=
  (hexDecode s).bind fun bs => if h : bs.length = 32 then some ⟨bs.toArray, by simp [h]⟩ else none

/-- `hex::encode` of thirty-two bytes. -/
def hexOfBytes32 (b : Bytes32) : String := hexEncode b.toList

theorem bytes32FromHex_hexOfBytes32 (b : Bytes32) : bytes32FromHex (hexOfBytes32 b) = some b := by
  have hlen : b.toList.length = 32 := by simp
  simp [bytes32FromHex, hexOfBytes32, hexDecode_hexEncode, Vector.toList]

/-! ### Messages -/

inductive PayloadType where
  | nsec
  | bunker
  | connect
  | custom
  deriving DecidableEq

inductive AbortReason where
  | sasMismatch
  | userDenied
  | timeout
  | protocolError
  | unknown
  deriving DecidableEq

/-- What the devices tell each other. -/
inductive PairingMessage where
  | offer (sessionId : String) (version : Nat)
  | sasConfirm (transcriptHash : String)
  | payload (payloadType : PayloadType) (payload : String)
  | complete (success : Bool)
  | abort (reason : AbortReason)
  deriving DecidableEq

def PayloadType.wire : PayloadType → String
  | .nsec => "nsec"
  | .bunker => "bunker"
  | .connect => "connect"
  | .custom => "custom"

def AbortReason.wire : AbortReason → String
  | .sasMismatch => "sas_mismatch"
  | .userDenied => "user_denied"
  | .timeout => "timeout"
  | .protocolError => "protocol_error"
  | .unknown => "unknown"

def PairingMessage.toJson : PairingMessage → Json
  | .offer sessionId version =>
    .obj [("type", .str "offer"), ("session_id", .str sessionId),
      ("version", .num (NumToken.ofNat version))]
  | .sasConfirm transcriptHash =>
    .obj [("type", .str "sas-confirm"), ("transcript_hash", .str transcriptHash)]
  | .payload payloadType text =>
    .obj [("type", .str "payload"), ("payload_type", .str payloadType.wire), ("payload", .str text)]
  | .complete success => .obj [("type", .str "complete"), ("success", .bool success)]
  | .abort reason => .obj [("type", .str "abort"), ("reason", .str reason.wire)]

/-- What pairing looks at in a plaintext. -/
structure Plaintext where
  length : Nat
  parsed : Option PairingMessage
  deriving DecidableEq

/-- The plaintext that a message is serialised to. It parses to the message again. -/
def PairingMessage.plaintext (m : PairingMessage) : Plaintext :=
  ⟨(String.ofList m.toJson.render).utf8ByteSize, some m⟩

/-! ### Derived values -/

/-- ECDH and HKDF over a type of public keys. -/
structure Crypto (Key : Type) where
  toBytes : Key → Bytes32
  sharedKey : Key → Key → Bytes32
  sharedKey_comm : ∀ a b, sharedKey a b = sharedKey b a
  /-- Why there is no ECDH secret, if there is none: a public key need not be on the curve. -/
  sharedKeyError : Key → Key → Option String
  /-- HKDF-SHA256 with 32 bytes of output, from salt, input key material and info. -/
  hkdf32 : List UInt8 → List UInt8 → String → Bytes32

variable {Key : Type}

/-- `PublicKey::to_hex`. -/
def Crypto.toHex (C : Crypto Key) (k : Key) : String := hexOfBytes32 (C.toBytes k)

def Crypto.generateSharedKey (C : Crypto Key) (own peer : Key) : Except String Bytes32 :=
  match C.sharedKeyError own peer with
  | some e => .error e
  | none => .ok (C.sharedKey own peer)

variable {C : Crypto Key}

theorem eq_sharedKey_of_generateSharedKey {own peer : Key} {ecdh : Bytes32}
    (h : C.generateSharedKey own peer = .ok ecdh) : ecdh = C.sharedKey own peer := by
  unfold Crypto.generateSharedKey at h
  split at h
  · cases h
  · exact (Except.ok.inj h).symm

def deriveSessionId (C : Crypto Key) (sessionSecret : Bytes32) : Bytes32 :=
  C.hkdf32 [] sessionSecret.toList "nostr-pair-session-id"

/-- The big-endian number of the first four bytes. -/
def beU32 (b : Bytes32) : Nat :=
  ((b[0].toNat * 256 + b[1].toNat) * 256 + b[2].toNat) * 256 + b[3].toNat

/-- `derive_sas`: the six-digit code and its raw input. -/
def deriveSas (C : Crypto Key) (ecdhShared sessionSecret : Bytes32) : Nat × Bytes32 :=
  let sasInput := C.hkdf32 sessionSecret.toList ecdhShared.toList "nostr-pair-sas-v1"
  (beU32 sasInput % 1000000, sasInput)

def deriveTranscriptHash (C : Crypto Key) (sessionId sourcePubkey targetPubkey sasInput
    sessionSecret : Bytes32) : Bytes32 :=
  C.hkdf32 sessionSecret.toList
    (sessionId.toList ++ sourcePubkey.toList ++ targetPubkey.toList ++ sasInput.toList)
    "nostr-pair-transcript-v1"

/-- `format_sas`: six digits, padded with zeros. -/
def formatSas (code : Nat) : String :=
  let digits := Nat.toDigits 10 code
  String.ofList (List.replicate (6 - digits.length) '0' ++ digits)

/-! ### NIP-44 -/

/-- The content of an event: sealed for a conversation, or anything else. -/
inductive Content (Key : Type) where
  | sealed (conversation : Sym2 Key) (nonce : Nat) (plaintext : Plaintext)
  | raw (length : Nat)
  deriving DecidableEq

/-- NIP-44 pads a plaintext to one of a few lengths. -/
def paddedLen (n : Nat) : Nat :=
  if n ≤ 32 then 32
  else
    let nextPower := 1 <<< (Nat.log2 (n - 1) + 1)
    let chunk := if nextPower ≤ 256 then 32 else nextPower / 8
    chunk * ((n - 1) / chunk + 1)

/-- The length of the content: version, nonce, length prefix, padded text and tag, in base64. -/
def Content.length : Content Key → Nat
  | .sealed _ _ plaintext => (1 + 32 + (2 + paddedLen plaintext.length) + 32 + 2) / 3 * 4
  | .raw n => n

/-- `nip44::encrypt`: fails on an empty plaintext and on one of more than 65535 bytes. The key of the
conversation is derived from the ECDH secret. -/
def encrypt (C : Crypto Key) (own peer : Key) (nonce : Nat) (plaintext : Plaintext) :
    Option (Content Key) :=
  if (C.sharedKeyError own peer).isSome then none
  else if plaintext.length = 0 ∨ 65535 < plaintext.length then none
  else some (.sealed s(own, peer) nonce plaintext)

variable {plaintext : Plaintext} {content : Content Key}

theorem encrypt_eq_some {own peer : Key} {nonce : Nat}
    (h : encrypt C own peer nonce plaintext = some content) :
    content = .sealed s(own, peer) nonce plaintext := by
  obtain ⟨-, h⟩ := ite_none_left_eq_some.mp h
  obtain ⟨-, h⟩ := ite_none_left_eq_some.mp h
  exact (some.inj h).symm

/-- `nip44::decrypt` of content from an author. -/
def decrypt [DecidableEq Key] (C : Crypto Key) (own author : Key) : Content Key → Option Plaintext
  | .sealed conversation _ plaintext =>
    if (C.sharedKeyError own author).isSome then none
    else if conversation = s(own, author) then some plaintext
    else none
  | .raw _ => none

theorem decrypt_eq_some [DecidableEq Key] {own author : Key}
    (h : decrypt C own author content = some plaintext) : C.sharedKeyError own author = none ∧
      ∃ nonce, content = .sealed s(own, author) nonce plaintext := by
  cases content with
  | sealed conversation nonce p =>
    obtain ⟨herror, h⟩ := ite_none_left_eq_some.mp h
    obtain ⟨hconv, hp⟩ := ite_none_right_eq_some.mp h
    refine ⟨not_isSome_iff_eq_none.mp herror, nonce, ?_⟩
    rw [hconv, some.inj hp]
  | raw n => nomatch h

example : (Content.sealed s(0, 1) 0 ⟨1, none⟩).length = 132 := by decide

example : (Content.sealed s(0, 1) 0 ⟨65535, none⟩).length = 87472 := by decide

end Buzz.Pairing
