import Buzz.EvmAuth.Erc6492
import Buzz.EvmAuth.Siwe

/-!
# Signatures of smart accounts

A node of the chain says whether an account has code, and answers calls of contracts. A signature
that is wrapped is checked by a contract made for it, one of an account with code by the account,
and every other one by `ecrecover`. The answers are byte strings: an encoded `bool` or a single byte
from the contract for wrapped signatures, an encoded `bytes4` or its bare bytes from an account.

The reference reads exactly these answers. The verifier reads the first byte of the first, in which
the encoding of `true` has a zero, and the first four bytes of the second.
-/

namespace Buzz.EvmAuth

def erc1271Success : List UInt8 := [0x16, 0x26, 0xba, 0x7e]

/-- `JsonRpc`: what the node answers. -/
structure JsonRpc where
  ethGetCode : EvmAddress → Except EvmAuthError (List UInt8)
  ethCall : EvmAddress → List UInt8 → Except EvmAuthError (List UInt8)

structure RpcSignatureVerifier where
  rpc : JsonRpc
  erc6492Validator : Option EvmAddress

def decodeBytes4Return (data : List UInt8) : Except EvmAuthError (List UInt8) :=
  if data.length < 4 then .error (.invalidSignature "short bytes4 return") else .ok (data.take 4)

def parseBoolReturn : List UInt8 → Except EvmAuthError Bool
  | [] => .ok false
  | b :: _ =>
    if b = 1 then .ok true
    else if b = 0 then .ok false
    else .error (.rpc ("unexpected validator return byte 0x" ++ hexEncode [b]))

section

variable {Sig VerifyingKey : Type} (P : Platform Sig VerifyingKey) (v : RpcSignatureVerifier)

def sig65 (sig : List UInt8) : Option (Vector UInt8 65) :=
  if h : sig.length = 65 then some ⟨sig.toArray, h⟩ else none

def RpcSignatureVerifier.verifyDigest (address : EvmAddress) (digest : Word) (sig : List UInt8) :
    Except EvmAuthError Bool :=
  if isErc6492Wrapped sig then
    match v.erc6492Validator with
    | some validator =>
      (v.rpc.ethCall validator (encodeIsValidSig P.keccak256 address digest sig)).bind fun ret =>
        parseBoolReturn ret
    | none => .error (.rpc "erc6492 signature but no erc6492_validator configured")
  else
    (v.rpc.ethGetCode address).bind fun code =>
    if !code.isEmpty then
      (v.rpc.ethCall address (encodeIsValidSignature P.keccak256 digest sig)).bind fun ret =>
      (decodeBytes4Return ret).bind fun magic => .ok (magic == erc1271Success)
    else
      match sig65 sig with
      | none => .error (.invalidSignature "expected 65-byte signature")
      | some sig => (recoverAddress P digest sig).bind fun recovered => .ok (recovered == address)

/-- `RpcSignatureVerifier::verify_personal_sign`. `hexError` says why a text is no hexadecimal. -/
def RpcSignatureVerifier.verifyPersonalSign (hexError : String → String) (address : EvmAddress)
    (message : List UInt8) (signatureHex : String) : Except EvmAuthError Bool :=
  let hexStr := (stripPrefix signatureHex "0x").getD signatureHex
  match hexDecode hexStr with
  | none => .error (.invalidSignature ("not hex: " ++ hexError hexStr))
  | some sig => v.verifyDigest P address (personalSignDigest P message) sig

/-- `EoaVerifier::verify_personal_sign`. -/
def eoaVerifyPersonalSign (address : EvmAddress) (message : List UInt8) (signatureHex : String) :
    Except EvmAuthError Bool :=
  (parseSignature signatureHex).bind fun sig =>
  (recoverAddress P (personalSignDigest P message) sig).bind fun recovered =>
    .ok (recovered == address)

/-! ### The reference -/

/-- The answers that say `true`: an encoded `bool`, or a byte. -/
def IsTrueReturn (data : List UInt8) : Prop := data = Abi.word 1 ∨ data = [1]

/-- The answers that are the magic value: an encoded `bytes4`, or the bare bytes. -/
def IsMagicReturn (data : List UInt8) : Prop :=
  data = erc1271Success ++ List.replicate 28 0 ∨ data = erc1271Success

variable (address : EvmAddress) (digest : Word) (sig : List UInt8)

/-- The procedure of ERC-6492, given the answers to the calls of the verifier. -/
inductive Accepts : Prop
  | wrapped {validator : EvmAddress} {data : List UInt8} (hwrapped : isErc6492Wrapped sig = true)
      (hvalidator : v.erc6492Validator = some validator)
      (hcall : v.rpc.ethCall validator (encodeIsValidSig P.keccak256 address digest sig) = .ok data)
      (htrue : IsTrueReturn data)
  | deployed {code data : List UInt8} (hwrapped : isErc6492Wrapped sig = false)
      (hcode : v.rpc.ethGetCode address = .ok code) (hne : code ≠ [])
      (hcall : v.rpc.ethCall address (encodeIsValidSignature P.keccak256 digest sig) = .ok data)
      (hmagic : IsMagicReturn data)
  | external {sig' : Vector UInt8 65} (hwrapped : isErc6492Wrapped sig = false)
      (hcode : v.rpc.ethGetCode address = .ok []) (hsig : sig65 sig = some sig')
      (hrecovered : recoverAddress P digest sig' = .ok address)

/-- The contract for wrapped signatures answers the encoding of `true`, or more than a byte that
begins with one. -/
def IsMisreadBool (data : List UInt8) : Prop :=
  data = Abi.word 1 ∨ ∃ rest, rest ≠ [] ∧ data = 1 :: rest

/-- An account answers the magic value and something else than the zeros of its encoding. -/
def IsMisreadBytes4 (data : List UInt8) : Prop :=
  ∃ rest, rest ≠ [] ∧ rest ≠ List.replicate 28 0 ∧ data = erc1271Success ++ rest

/-- The answer of the contract that is asked is misread. -/
inductive Misread : Prop
  | wrapped {validator : EvmAddress} {data : List UInt8} (hwrapped : isErc6492Wrapped sig = true)
      (hvalidator : v.erc6492Validator = some validator)
      (hcall : v.rpc.ethCall validator (encodeIsValidSig P.keccak256 address digest sig) = .ok data)
      (hmisread : IsMisreadBool data)
  | deployed {code data : List UInt8} (hwrapped : isErc6492Wrapped sig = false)
      (hcode : v.rpc.ethGetCode address = .ok code) (hne : code ≠ [])
      (hcall : v.rpc.ethCall address (encodeIsValidSignature P.keccak256 digest sig) = .ok data)
      (hmisread : IsMisreadBytes4 data)

end

/-! ### What the answers are read as -/

theorem parseBoolReturn_eq_true_iff {data : List UInt8} :
    parseBoolReturn data = .ok true ↔ ∃ rest, data = 1 :: rest := by
  cases data with
  | nil => simp [parseBoolReturn]
  | cons b rest =>
    rw [parseBoolReturn]
    split
    · next hb => simp [hb]
    · next hb =>
      split
      · simp [hb]
      · simp [hb]

theorem word_one_ne (rest : List UInt8) : Abi.word 1 ≠ 1 :: rest := by
  intro h
  have hhead := congrArg List.head? h
  rw [List.head?_cons] at hhead
  exact absurd hhead (by decide)

theorem readsBool_iff (data : List UInt8) :
    (parseBoolReturn data = .ok true ↔ IsTrueReturn data) ↔ ¬ IsMisreadBool data := by
  rw [parseBoolReturn_eq_true_iff]
  constructor
  · rintro hreads (rfl | ⟨rest, hrest, rfl⟩)
    · obtain ⟨rest, h⟩ := hreads.mpr (.inl rfl)
      exact word_one_ne rest h
    · obtain h | h := hreads.mp ⟨rest, rfl⟩
      · exact word_one_ne rest h.symm
      · exact hrest (List.cons.inj h).2
  · intro hgood
    constructor
    · rintro ⟨rest, rfl⟩
      have hrest : rest = [] := by
        by_contra hrest
        exact hgood (.inr ⟨rest, hrest, rfl⟩)
      rw [hrest]
      exact .inr rfl
    · rintro (rfl | rfl)
      · exact absurd (.inl rfl) hgood
      · exact ⟨[], rfl⟩

theorem bytes4_eq_true_iff {data : List UInt8} :
    ((decodeBytes4Return data).bind fun magic => .ok (magic == erc1271Success)) = .ok true ↔
      ∃ rest, data = erc1271Success ++ rest := by
  have hlength : erc1271Success.length = 4 := rfl
  rw [decodeBytes4Return]
  constructor
  · intro h
    split at h
    · cases h
    · have hmagic : data.take 4 = erc1271Success := by simpa [Except.bind] using h
      exact ⟨data.drop 4, by rw [← hmagic, List.take_append_drop]⟩
  · rintro ⟨rest, rfl⟩
    rw [if_neg (by rw [List.length_append, hlength]; omega), ← hlength, List.take_left, Except.bind,
      beq_self_eq_true]

theorem readsBytes4_iff (data : List UInt8) :
    (((decodeBytes4Return data).bind fun magic => .ok (magic == erc1271Success)) = .ok true ↔
      IsMagicReturn data) ↔ ¬ IsMisreadBytes4 data := by
  rw [bytes4_eq_true_iff]
  constructor
  · rintro hreads ⟨rest, hnil, hzeros, rfl⟩
    obtain h | h := hreads.mp ⟨rest, rfl⟩
    · exact hzeros (List.append_cancel_left h)
    · exact hnil (List.append_cancel_left (h.trans (List.append_nil _).symm))
  · intro hgood
    constructor
    · rintro ⟨rest, rfl⟩
      by_cases hnil : rest = []
      · rw [hnil, List.append_nil]
        exact .inr rfl
      · by_cases hzeros : rest = List.replicate 28 0
        · rw [hzeros]
          exact .inl rfl
        · exact absurd ⟨rest, hnil, hzeros, rfl⟩ hgood
    · rintro (rfl | rfl)
      · exact ⟨_, rfl⟩
      · exact ⟨[], (List.append_nil _).symm⟩

/-! ### The branches -/

section

variable {Sig VerifyingKey : Type} {P : Platform Sig VerifyingKey} {v : RpcSignatureVerifier}
  {address : EvmAddress} {digest : Word} {sig : List UInt8}

theorem accepts_wrapped_iff (hwrapped : isErc6492Wrapped sig = true) :
    Accepts P v address digest sig ↔ ∃ validator data, v.erc6492Validator = some validator ∧
      v.rpc.ethCall validator (encodeIsValidSig P.keccak256 address digest sig) = .ok data ∧
        IsTrueReturn data := by
  constructor
  · intro h
    cases h with
    | wrapped _ hvalidator hcall htrue => exact ⟨_, _, hvalidator, hcall, htrue⟩
    | deployed hunwrapped | external hunwrapped => rw [hwrapped] at hunwrapped; cases hunwrapped
  · rintro ⟨validator, data, hvalidator, hcall, htrue⟩
    exact .wrapped hwrapped hvalidator hcall htrue

theorem misread_wrapped_iff (hwrapped : isErc6492Wrapped sig = true) :
    Misread P v address digest sig ↔ ∃ validator data, v.erc6492Validator = some validator ∧
      v.rpc.ethCall validator (encodeIsValidSig P.keccak256 address digest sig) = .ok data ∧
        IsMisreadBool data := by
  constructor
  · intro h
    cases h with
    | wrapped _ hvalidator hcall hmisread => exact ⟨_, _, hvalidator, hcall, hmisread⟩
    | deployed hunwrapped => rw [hwrapped] at hunwrapped; cases hunwrapped
  · rintro ⟨validator, data, hvalidator, hcall, hmisread⟩
    exact .wrapped hwrapped hvalidator hcall hmisread

theorem accepts_deployed_iff {code : List UInt8} (hwrapped : isErc6492Wrapped sig = false)
    (hcode : v.rpc.ethGetCode address = .ok code) (hne : code ≠ []) :
    Accepts P v address digest sig ↔ ∃ data,
      v.rpc.ethCall address (encodeIsValidSignature P.keccak256 digest sig) = .ok data ∧
        IsMagicReturn data := by
  constructor
  · intro h
    cases h with
    | wrapped h => rw [hwrapped] at h; cases h
    | deployed _ _ _ hcall hmagic => exact ⟨_, hcall, hmagic⟩
    | external _ hempty =>
      rw [hcode] at hempty
      exact absurd (Except.ok.inj hempty) hne
  · rintro ⟨data, hcall, hmagic⟩
    exact .deployed hwrapped hcode hne hcall hmagic

theorem misread_deployed_iff {code : List UInt8} (hwrapped : isErc6492Wrapped sig = false)
    (hcode : v.rpc.ethGetCode address = .ok code) (hne : code ≠ []) :
    Misread P v address digest sig ↔ ∃ data,
      v.rpc.ethCall address (encodeIsValidSignature P.keccak256 digest sig) = .ok data ∧
        IsMisreadBytes4 data := by
  constructor
  · intro h
    cases h with
    | wrapped h => rw [hwrapped] at h; cases h
    | deployed _ _ _ hcall hmisread => exact ⟨_, hcall, hmisread⟩
  · rintro ⟨data, hcall, hmisread⟩
    exact .deployed hwrapped hcode hne hcall hmisread

theorem accepts_external_iff (hwrapped : isErc6492Wrapped sig = false)
    (hcode : v.rpc.ethGetCode address = .ok []) :
    Accepts P v address digest sig ↔
      ∃ sig', sig65 sig = some sig' ∧ recoverAddress P digest sig' = .ok address := by
  constructor
  · intro h
    cases h with
    | wrapped h => rw [hwrapped] at h; cases h
    | deployed _ hsome hne =>
      rw [hcode] at hsome
      exact absurd (Except.ok.inj hsome).symm hne
    | external _ _ hsig hrecovered => exact ⟨_, hsig, hrecovered⟩
  · rintro ⟨sig', hsig, hrecovered⟩
    exact .external hwrapped hcode hsig hrecovered

theorem not_misread_external (hwrapped : isErc6492Wrapped sig = false)
    (hcode : v.rpc.ethGetCode address = .ok []) : ¬ Misread P v address digest sig := by
  intro h
  cases h with
  | wrapped h => rw [hwrapped] at h; cases h
  | deployed _ hsome hne =>
    rw [hcode] at hsome
    exact hne (Except.ok.inj hsome).symm

theorem bind_eq_true_iff {x : Except EvmAuthError (List UInt8)}
    {read : List UInt8 → Except EvmAuthError Bool} {good misread : List UInt8 → Prop}
    (hread : ∀ data, (read data = .ok true ↔ good data) ↔ ¬ misread data) :
    (x.bind read = .ok true ↔ ∃ data, x = .ok data ∧ good data) ↔
      ¬ ∃ data, x = .ok data ∧ misread data := by
  cases x with
  | error e => simp [Except.bind]
  | ok data => simpa [Except.bind] using hread data

theorem verifyDigest_wrapped (hwrapped : isErc6492Wrapped sig = true) :
    (v.verifyDigest P address digest sig = .ok true ↔ Accepts P v address digest sig) ↔
      ¬ Misread P v address digest sig := by
  rw [RpcSignatureVerifier.verifyDigest, if_pos hwrapped, accepts_wrapped_iff hwrapped,
    misread_wrapped_iff hwrapped]
  cases v.erc6492Validator with
  | none => simp
  | some validator => simpa using bind_eq_true_iff readsBool_iff

theorem verifyDigest_deployed {code : List UInt8} (hwrapped : isErc6492Wrapped sig = false)
    (hcode : v.rpc.ethGetCode address = .ok code) (hne : code ≠ []) :
    (v.verifyDigest P address digest sig = .ok true ↔ Accepts P v address digest sig) ↔
      ¬ Misread P v address digest sig := by
  have hisEmpty : (!code.isEmpty) = true := by simpa using hne
  rw [RpcSignatureVerifier.verifyDigest, hwrapped, if_neg Bool.false_ne_true, hcode, Except.bind,
    if_pos hisEmpty, accepts_deployed_iff hwrapped hcode hne,
    misread_deployed_iff hwrapped hcode hne]
  exact bind_eq_true_iff readsBytes4_iff

theorem verifyDigest_external (hwrapped : isErc6492Wrapped sig = false)
    (hcode : v.rpc.ethGetCode address = .ok []) :
    v.verifyDigest P address digest sig = .ok true ↔ Accepts P v address digest sig := by
  rw [RpcSignatureVerifier.verifyDigest, hwrapped, if_neg Bool.false_ne_true, hcode, Except.bind,
    if_neg (by decide), accepts_external_iff hwrapped hcode]
  cases sig65 sig with
  | none => simp
  | some sig' =>
    cases hrecovered : recoverAddress P digest sig' with
    | error e | ok recovered => simp [Except.bind, hrecovered]

theorem verifyDigest_error {e : EvmAuthError} (hwrapped : isErc6492Wrapped sig = false)
    (hcode : v.rpc.ethGetCode address = .error e) :
    v.verifyDigest P address digest sig = .error e ∧ ¬ Accepts P v address digest sig ∧
      ¬ Misread P v address digest sig := by
  refine ⟨?_, fun h => ?_, fun h => ?_⟩
  · rw [RpcSignatureVerifier.verifyDigest, hwrapped, if_neg Bool.false_ne_true, hcode, Except.bind]
  · cases h with
    | wrapped h => rw [hwrapped] at h; cases h
    | deployed _ hok | external _ hok => rw [hcode] at hok; cases hok
  · cases h with
    | wrapped h => rw [hwrapped] at h; cases h
    | deployed _ hok => rw [hcode] at hok; cases hok

end

/-! ### Both verifiers -/

section

variable {Sig VerifyingKey : Type} (P : Platform Sig VerifyingKey) (v : RpcSignatureVerifier)

theorem verifyDigest_eq_true_iff (address : EvmAddress) (digest : Word) (sig : List UInt8) :
    (v.verifyDigest P address digest sig = .ok true ↔ Accepts P v address digest sig) ↔
      ¬ Misread P v address digest sig := by
  cases hwrapped : isErc6492Wrapped sig with
  | true => exact verifyDigest_wrapped hwrapped
  | false =>
    cases hcode : v.rpc.ethGetCode address with
    | error e =>
      have herror : v.verifyDigest P address digest sig = .error e ∧
          ¬ Accepts P v address digest sig ∧ ¬ Misread P v address digest sig :=
        verifyDigest_error hwrapped hcode
      rw [herror.1]
      exact iff_of_true (iff_of_false nofun herror.2.1) herror.2.2
    | ok code =>
      by_cases hne : code = []
      · rw [hne] at hcode
        exact iff_of_true (verifyDigest_external hwrapped hcode)
          (not_misread_external hwrapped hcode)
      · exact verifyDigest_deployed hwrapped hcode hne

variable {P v} in
/-- Both verifiers agree on an account without code and a signature of 65 bytes that is not
wrapped. -/
theorem verifyPersonalSign_eq_eoa {hexError : String → String} {address : EvmAddress}
    {message sig : List UInt8} {signatureHex : String}
    (hhex : hexDecode ((stripPrefix signatureHex "0x").getD signatureHex) = some sig)
    (hlength : sig.length = 65) (hwrapped : isErc6492Wrapped sig = false)
    (hcode : v.rpc.ethGetCode address = .ok []) :
    v.verifyPersonalSign P hexError address message signatureHex =
      eoaVerifyPersonalSign P address message signatureHex := by
  rw [RpcSignatureVerifier.verifyPersonalSign, eoaVerifyPersonalSign, parseSignature, hhex]
  dsimp only
  rw [RpcSignatureVerifier.verifyDigest, hwrapped, if_neg Bool.false_ne_true, hcode, Except.bind,
    if_neg (by decide), sig65, dif_pos hlength, dif_pos hlength]
  rfl

/-- **The verifier follows the reference exactly when the answer is not misread**, and agrees with
the one that asks no node where that one is enough. -/
theorem verifyDigest_accepts_iff (address : EvmAddress) (digest : Word) (sig : List UInt8)
    (hexError : String → String) (message : List UInt8) (signatureHex : String) :
    ((v.verifyDigest P address digest sig = .ok true ↔ Accepts P v address digest sig) ↔
      ¬ Misread P v address digest sig) ∧
    (hexDecode ((stripPrefix signatureHex "0x").getD signatureHex) = some sig → sig.length = 65 →
      isErc6492Wrapped sig = false → v.rpc.ethGetCode address = .ok [] →
        v.verifyPersonalSign P hexError address message signatureHex =
          eoaVerifyPersonalSign P address message signatureHex) :=
  ⟨verifyDigest_eq_true_iff P v address digest sig, verifyPersonalSign_eq_eoa⟩

end

/-! ### The sign-in -/

section

variable {Sig VerifyingKey : Type} (P : Platform Sig VerifyingKey) (rpc : JsonRpc)
  (hexError : String → String)

/-- The libraries, with this verifier for smart accounts. -/
def Platform.withRpc : Platform Sig VerifyingKey :=
  { P with
    verifyPersonalSign := fun validator address message signatureHex =>
      RpcSignatureVerifier.verifyPersonalSign P ⟨rpc, validator⟩ hexError address (utf8 message)
        signatureHex }

theorem parseTime_withRpc (value : String) :
    parseTime (P.withRpc rpc hexError) value = parseTime P value := rfl

theorem takeOptional_withRpc (message : SiweMessage) (lines : List String) :
    takeOptional (P.withRpc rpc hexError) message lines = takeOptional P message lines := by
  induction lines generalizing message with
  | nil => rfl
  | cons line lines ih =>
    rw [takeOptional, takeOptional]
    simp only [ih, parseTime_withRpc]
    rfl

theorem parse_withRpc (raw : String) :
    SiweMessage.parse (P.withRpc rpc hexError) raw = SiweMessage.parse P raw := by
  have hfields : parseFields (P.withRpc rpc hexError) = parseFields P := by
    funext domain address statement lines
    simp only [parseFields, takeOptional_withRpc, parseTime_withRpc]
  rw [SiweMessage.parse, SiweMessage.parse, hfields]

variable {P rpc} in
/-- Without code, the sign-in with a smart account accepts what the one without a node accepts. -/
theorem verifySiweSmart_eq_ok_iff {raw signatureHex : String} {sig : List UInt8}
    {message : SiweMessage} {requirements : SiweRequirements} {now : Int}
    {validator : Option EvmAddress} (hmessage : SiweMessage.parse P raw = .ok message)
    (hhex : hexDecode ((stripPrefix signatureHex "0x").getD signatureHex) = some sig)
    (hlength : sig.length = 65) (hwrapped : isErc6492Wrapped sig = false)
    (hcode : rpc.ethGetCode message.address = .ok []) :
    verifySiweSmart (P.withRpc rpc hexError) raw signatureHex requirements now validator =
        .ok message ↔
      verify P raw signatureHex requirements now = .ok message := by
  have hagree : (P.withRpc rpc hexError).verifyPersonalSign validator message.address raw
      signatureHex = eoaVerifyPersonalSign P message.address (utf8 raw) signatureHex :=
    verifyPersonalSign_eq_eoa hhex hlength hwrapped hcode
  rw [verifySiweSmart, verify, parse_withRpc, hmessage, Except.bind, Except.bind]
  cases message.checkRequirements requirements with
  | error e => rfl
  | ok _ =>
    rw [Except.bind, Except.bind, hagree, eoaVerifyPersonalSign, recoverSiweSigner]
    cases parseSignature signatureHex with
    | error e => rfl
    | ok sig =>
      rw [Except.bind, Except.bind]
      cases recoverAddress P (personalSignDigest P (utf8 raw)) sig with
      | error e => rfl
      | ok recovered =>
        rw [Except.bind, Except.bind, Except.bind]
        by_cases heq : recovered = message.address
        · simp [heq]
        · simp [heq]

end

/-! ### A contract that answers as Solidity encodes -/

def plainPlatform : Platform Unit Unit where
  keccak256 _ := Vector.replicate 32 0
  parseRfc3339 _ := none
  debug s := s
  sigFromSlice _ := .ok ()
  normalizeS _ := none
  recoverFromPrehash _ _ _ := .ok ()
  point _ := []
  verifyPersonalSign _ _ _ _ := .ok false

/-- The contract for wrapped signatures answers the encoding of `true`. -/
def solidityVerifier : RpcSignatureVerifier where
  rpc := { ethGetCode := fun _ => .ok [], ethCall := fun _ _ => .ok (Abi.word 1) }
  erc6492Validator := some ⟨Vector.replicate 20 0xfe⟩

/-- The reference accepts a wrapped signature, and the verifier does not. -/
theorem solidityTrue_refused :
    let sig := List.replicate 40 0x30 ++ erc6492DetectionSuffix
    let address : EvmAddress := ⟨Vector.replicate 20 1⟩
    let digest : Word := Vector.replicate 32 7
    Accepts plainPlatform solidityVerifier address digest sig ∧
      solidityVerifier.verifyDigest plainPlatform address digest sig = .ok false := by
  intro sig address digest
  have hwrapped : isErc6492Wrapped sig = true := by decide
  refine ⟨.wrapped hwrapped rfl rfl (.inl rfl), ?_⟩
  rw [RpcSignatureVerifier.verifyDigest, if_pos hwrapped]
  rfl

/-- Both verifiers agree on a signature of ones. -/
theorem verifyDigest_accepts_demo :
    let signatureHex := "0x" ++ hexEncode (List.replicate 65 1)
    solidityVerifier.verifyPersonalSign plainPlatform id ⟨Vector.replicate 20 0⟩ [] signatureHex =
      eoaVerifyPersonalSign plainPlatform ⟨Vector.replicate 20 0⟩ [] signatureHex := by
  intro signatureHex
  have hhex : hexDecode ((stripPrefix signatureHex "0x").getD signatureHex) =
      some (List.replicate 65 1) := by
    rw [stripPrefix_append]
    exact hexDecode_hexEncode _
  exact (verifyDigest_accepts_iff plainPlatform solidityVerifier ⟨Vector.replicate 20 0⟩
    (Vector.replicate 32 7) (List.replicate 65 1) id [] signatureHex).2 hhex (by decide)
    (by decide) rfl

def smallMessage : String :=
  "a wants you to sign in with your Ethereum account:\n0x" ++ hexEncode (List.replicate 20 0) ++
    "\n\n\nURI: a\nVersion: 1\nChain ID: 1\nNonce: 12345678\nIssued At: now"

/-- A signature of ones, for an account without code. -/
theorem verifySiweSmart_eq_ok_iff_demo :
    let P := { plainPlatform with parseRfc3339 := fun _ => some 0 }
    let signatureHex := "0x" ++ hexEncode (List.replicate 65 1)
    ∃ message, SiweMessage.parse P smallMessage = .ok message ∧
      (verifySiweSmart (P.withRpc solidityVerifier.rpc id) smallMessage signatureHex
          ⟨message.domain, none⟩ 0 none = .ok message ↔
        verify P smallMessage signatureHex ⟨message.domain, none⟩ 0 = .ok message) := by
  intro P signatureHex
  have hok : (SiweMessage.parse P smallMessage).isOk = true := by decide +kernel
  have hhex : hexDecode ((stripPrefix signatureHex "0x").getD signatureHex) =
      some (List.replicate 65 1) := by
    rw [stripPrefix_append]
    exact hexDecode_hexEncode _
  cases hparse : SiweMessage.parse P smallMessage with
  | error e =>
    rw [hparse] at hok
    cases hok
  | ok message =>
    exact ⟨message, rfl, verifySiweSmart_eq_ok_iff id hparse hhex (by decide) (by decide) rfl⟩

end Buzz.EvmAuth
