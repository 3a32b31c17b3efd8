import Buzz.EvmAuth.Attestation
import Buzz.Lib.Json

/-!
# Accepting attestations

An attestation is looked at twice: when a key registers, and when one that is bound to an account
publishes a message. Both check the envelope under the domain that it carries.
-/

namespace Buzz.Evm

open EvmAuth

structure EvmAuthConfig where
  chainId : Option Nat
  /-- The Ethereum node that signatures of smart accounts are verified with. -/
  rpcUrl : Option String
  erc6492Validator : Option String
  enforceAttestation : Bool

/-- `EvmIdentity`: the binding of a key. That its account has twenty bytes is checked by the
table. -/
structure EvmIdentity where
  evmAddress : EvmAddress
  attestation : Option Json
  revokedAt : Option Int
  revokedBy : Option String
  revokedReason : Option String

def EvmIdentity.isRevoked (binding : EvmIdentity) : Bool := binding.revokedAt.isSome

structure ApiError where
  status : Nat
  message : String
  deriving DecidableEq

inductive IngestError where
  | rejected (message : String)
  | authFailed (message : String)
  | internal (message : String)
  deriving DecidableEq

/-- `duration_since(UNIX_EPOCH)`, in seconds, with zero before the epoch. -/
def sinceEpoch (now : Int) : Nat := now.toNat

variable {Sig VerifyingKey : Type} (P : Platform Sig VerifyingKey)
  (fromValue : Json → Except String AttestationEnvelope)

/-- The attestation of a registration is checked. -/
def checkAttestation (attestation : Option Json) (npubHex : String) (address : EvmAddress)
    (now : Int) : Except ApiError Unit :=
  match attestation with
  | none => .ok ()
  | some json =>
    match fromValue json with
    | .error e => .error ⟨400, "bad attestation JSON: " ++ e⟩
    | .ok envelope =>
      match envelope.verifyForNpub P npubHex (sinceEpoch now) with
      | .error e => .error ⟨403, "attestation: " ++ e.text⟩
      | .ok account =>
        if account ≠ address then .error ⟨403, "attestation account does not match siwe address"⟩
        else .ok ()

def kindStreamMessageV2 : Nat := 40002

/-- The attestation of a publisher is checked, when its message comes in. -/
def enforceAttestation (config : Option EvmAuthConfig) (kind : Nat) (senderHex : String)
    (binding : Except String (Option EvmIdentity)) (now : Int) : Except IngestError Unit :=
  if kind = kindStreamMessageV2 ∧ config.any (·.enforceAttestation) then
    match binding with
    | .error e => .error (.internal ("error: evm identity lookup: " ++ e))
    | .ok none => .ok ()
    | .ok (some binding) =>
      if binding.isRevoked then .error (.rejected "invalid: evm identity is revoked")
      else
        match binding.attestation with
        | none => .error (.rejected
            "invalid: publisher joined via SIWE but has no NostrSigner attestation")
        | some json =>
          match fromValue json with
          | .error e =>
            .error (.rejected ("invalid: malformed attestation stored for publisher: " ++ e))
          | .ok envelope =>
            match envelope.verifyForNpub P senderHex (sinceEpoch now) with
            | .error e => .error (.rejected ("invalid: attestation check failed: " ++ e.text))
            | .ok _ => .ok ()
  else .ok ()

/-! ### What is accepted -/

/-- The envelope is accepted for the key, at this time. -/
inductive Accepts (config : Option EvmAuthConfig) (envelope : AttestationEnvelope)
    (npub : Vector UInt8 32) (now : Int) : Prop where
  | register (json : Json) (address : EvmAddress) (hjson : fromValue json = .ok envelope)
      (hok : checkAttestation P fromValue (some json) (hexEncode npub.toList) address now = .ok ())
  | intake (json : Json) (binding : EvmIdentity) (hjson : fromValue json = .ok envelope)
      (hbinding : binding.attestation = some json)
      (henforced : config.any (·.enforceAttestation) = true)
      (hok : enforceAttestation P fromValue config kindStreamMessageV2 (hexEncode npub.toList)
        (.ok (some binding)) now = .ok ())

/-- The account has authorised this key under this domain, and the authorisation is in force. What
an account has signed, `made` tells from the signature. -/
structure Granted (made : Vector UInt8 65 → EvmAddress → Option Word)
    (envelope : AttestationEnvelope) (npub : Vector UInt8 32) (now : Int) (domain : Eip712Domain) :
    Prop where
  /-- The signature was made by the account, over the authorisation under the domain. -/
  signed : ∃ sig, parseSignature envelope.signature = .ok sig ∧
    made sig envelope.attestation.account = some (envelope.attestation.digest P domain)
  unexpired : now ≤ envelope.attestation.expires.toNat
  npub : envelope.attestation.npub = npub

variable {P fromValue} {config : Option EvmAuthConfig} {envelope : AttestationEnvelope}
  {npub : Vector UInt8 32} {now : Int}

theorem enforceAttestation_ok {kind : Nat} {senderHex : String} {binding : EvmIdentity}
    {json : Json} {account : EvmAddress} (hactive : binding.isRevoked = false)
    (hbinding : binding.attestation = some json) (hjson : fromValue json = .ok envelope)
    (hverify : envelope.verifyForNpub P senderHex (sinceEpoch now) = .ok account) :
    enforceAttestation P fromValue config kind senderHex (.ok (some binding)) now = .ok () := by
  rw [enforceAttestation]
  split
  · simp [hactive, hbinding, hjson, hverify]
  · rfl

theorem Accepts.of_verified (json : Json) {account : EvmAddress}
    (hjson : fromValue json = .ok envelope)
    (henforced : config.any (·.enforceAttestation) = true)
    (hverify : envelope.verifyForNpub P (hexEncode npub.toList) (sinceEpoch now) = .ok account) :
    Accepts P fromValue config envelope npub now :=
  .intake json ⟨account, some json, none, none, none⟩ hjson rfl henforced
    (enforceAttestation_ok rfl rfl hjson hverify)

theorem Accepts.verified (h : Accepts P fromValue config envelope npub now) :
    ∃ account, envelope.verifyForNpub P (hexEncode npub.toList) (sinceEpoch now) = .ok account := by
  cases h with
  | register json address hjson hok =>
    rw [checkAttestation, hjson] at hok
    dsimp only at hok
    cases hverify : envelope.verifyForNpub P (hexEncode npub.toList) (sinceEpoch now) with
    | ok account => exact ⟨account, rfl⟩
    | error e =>
      rw [hverify] at hok
      cases hok
  | intake json binding hjson hbinding henforced hok =>
    rw [enforceAttestation, if_pos ⟨rfl, henforced⟩] at hok
    split at hok
    · cases hok
    · rw [hbinding] at hok
      dsimp only at hok
      rw [hjson] at hok
      dsimp only at hok
      cases hverify : envelope.verifyForNpub P (hexEncode npub.toList) (sinceEpoch now) with
      | ok account => exact ⟨account, rfl⟩
      | error e =>
        rw [hverify] at hok
        cases hok

theorem Accepts.granted {made : Vector UInt8 65 → EvmAddress → Option Word}
    (hrecover : ∀ digest sig account, recoverAddress P digest sig = .ok account →
      made sig account = some digest)
    (h : Accepts P fromValue config envelope npub now) :
    Granted P made envelope npub now envelope.domain := by
  obtain ⟨account, hverify⟩ := h.verified
  obtain ⟨hlive, hnpub, -, sig, hsig, hrecovered⟩ := verifyForNpub_ok_iff.mp hverify
  refine ⟨⟨sig, hsig, hrecover _ _ _ hrecovered⟩, ?_, ?_⟩
  · rw [sinceEpoch] at hlive
    omega
  · exact Vector.toList_inj.mp (hexEncode_injective hnpub)

/-- **Accepted attestations.** An envelope that is accepted was signed for the publisher under the
domain of the deployment, and is in force, exactly when that is the domain it carries; and its
digest is that of no other authorisation and no other domain. -/
theorem accepted_attestation {made : Vector UInt8 65 → EvmAddress → Option Word}
    (hrecover : ∀ digest sig account, recoverAddress P digest sig = .ok account →
      made sig account = some digest)
    (h : Accepts P fromValue config envelope npub now) (deployment : Eip712Domain)
    (hfree : CollisionFree P.keccak256 (envelope.attestation.hashed P envelope.domain ++
      envelope.attestation.hashed P deployment)) :
    (Granted P made envelope npub now deployment ↔ envelope.domain = deployment) ∧
      ∀ a d, CollisionFree P.keccak256
          (envelope.attestation.hashed P envelope.domain ++ a.hashed P d) →
        (envelope.attestation.digest P envelope.domain = a.digest P d ↔
          envelope.attestation = a ∧ envelope.domain = d) := by
  refine ⟨⟨fun hgranted => ?_, ?_⟩, fun a d hother => digest_inj hother⟩
  · obtain ⟨sig, hsig, hmade⟩ := (h.granted hrecover).signed
    obtain ⟨sig', hsig', hmade'⟩ := hgranted.signed
    obtain rfl := Except.ok.inj (hsig.symm.trans hsig')
    have hdigest := Option.some.inj (hmade.symm.trans hmade')
    exact ((digest_inj hfree).mp hdigest).2
  · rintro rfl
    exact h.granted hrecover

/-! ### An attestation for another chain -/

def exampleKeccak (bs : List UInt8) : Word :=
  let n := bs.foldl (fun acc b => (acc * 257 + b.toNat + 1) % 2 ^ 61) 1
  ⟨(u256 (UInt64.ofNat n)).toArray, by simp⟩

def exampleSig : List UInt8 := List.replicate 64 7

/-- Libraries that know of one signature, over this digest. -/
def examplePlatform (signed : Word) : Platform (List UInt8) Unit where
  keccak256 := exampleKeccak
  parseRfc3339 _ := none
  debug := id
  sigFromSlice := .ok
  normalizeS _ := none
  recoverFromPrehash digest sig parity :=
    if digest = signed ∧ sig = exampleSig ∧ parity = false then .ok () else .error "no signature"
  point _ := []
  verifyPersonalSign _ _ _ _ := .error (.rpc "no node")

def exampleAccount : EvmAddress := fromVerifyingKey (examplePlatform (Vector.replicate 32 0)) ()

def exampleAttestation : NostrSignerAttestation :=
  ⟨exampleAccount, Vector.replicate 32 42, 1800000000, 0⟩

def exampleDeployment : Eip712Domain := ⟨"creabuzz", "1", 8453, ⟨Vector.replicate 20 0⟩⟩

def otherChain : Eip712Domain := { exampleDeployment with chainId := 1 }

def exampleDigest (domain : Eip712Domain) : Word :=
  exampleAttestation.digest (examplePlatform (Vector.replicate 32 0)) domain

theorem digest_examplePlatform (a : NostrSignerAttestation) (signed : Word)
    (domain : Eip712Domain) : a.digest (examplePlatform signed) domain =
      a.digest (examplePlatform (Vector.replicate 32 0)) domain := by
  generalize Vector.replicate 32 (0 : UInt8) = other
  rfl

/-- The account has made the one signature, over the attestation under the domain. -/
def exampleMade (domain : Eip712Domain) (sig : Vector UInt8 65) (account : EvmAddress) :
    Option Word :=
  if sig.toList.take 64 = exampleSig ∧ yParity sig.back = some false ∧ account = exampleAccount then
    some (exampleDigest domain)
  else none

/-- The envelope, for a signature under the domain. -/
def exampleEnvelope (domain : Eip712Domain) : AttestationEnvelope :=
  ⟨exampleAttestation, domain, hexEncode (exampleSig ++ [27])⟩

def exampleJson (domain : Eip712Domain) : Json :=
  let number (n : Nat) : Json := .num (.ofNat n)
  .obj
    [("attestation", .obj
      [("account", .str exampleAccount.toHex),
        ("npub", .arr (List.replicate 32 (number 42))),
        ("expires", number 1800000000),
        ("nonce", number 0)]),
    ("domain", .obj
      [("name", .str domain.name),
        ("version", .str domain.version),
        ("chain_id", number domain.chainId.toNat),
        ("verifying_contract", .str domain.verifyingContract.toHex)]),
    ("signature", .str (exampleEnvelope domain).signature)]

/-- A deployment that enforces attestations. -/
def exampleConfig : EvmAuthConfig := ⟨some 8453, none, none, true⟩

theorem example_recover (domain : Eip712Domain) (digest : Word) (sig : Vector UInt8 65)
    (account : EvmAddress)
    (h : recoverAddress (examplePlatform (exampleDigest domain)) digest sig = .ok account) :
    exampleMade domain sig account = some digest := by
  rw [recoverAddress] at h
  split at h
  · cases h
  next parity hparity =>
  dsimp only [examplePlatform] at h
  by_cases hsigned : digest = exampleDigest domain ∧ sig.toList.take 64 = exampleSig ∧
      parity = false
  · rw [if_pos hsigned] at h
    obtain ⟨rfl, hsig, rfl⟩ := hsigned
    exact if_pos ⟨hsig, hparity, (Except.ok.inj h).symm⟩
  · rw [if_neg hsigned] at h
    cases h

/-- The libraries, with a signature for the deployment. -/
def deployedPlatform : Platform (List UInt8) Unit :=
  examplePlatform (exampleDigest exampleDeployment)

/-- The envelope that the account has signed for the deployment. -/
def deployedEnvelope : AttestationEnvelope := exampleEnvelope exampleDeployment

theorem collisionFree_deployed :
    CollisionFree deployedPlatform.keccak256
      (deployedEnvelope.attestation.hashed deployedPlatform deployedEnvelope.domain ++
        deployedEnvelope.attestation.hashed deployedPlatform exampleDeployment) := by
  decide +kernel

/-- An attestation for the deployment. -/
theorem accepted_attestation_deployed :
    (Granted deployedPlatform (exampleMade exampleDeployment) deployedEnvelope
        (Vector.replicate 32 42) 1700000000 exampleDeployment ↔
      deployedEnvelope.domain = exampleDeployment) ∧
      ∀ a d, CollisionFree deployedPlatform.keccak256
          (deployedEnvelope.attestation.hashed deployedPlatform deployedEnvelope.domain ++
            a.hashed deployedPlatform d) →
        (deployedEnvelope.attestation.digest deployedPlatform deployedEnvelope.domain =
            a.digest deployedPlatform d ↔
          deployedEnvelope.attestation = a ∧ deployedEnvelope.domain = d) := by
  have hverify : deployedEnvelope.verifyForNpub deployedPlatform
      (hexEncode (Vector.replicate 32 42).toList) (sinceEpoch 1700000000) = .ok exampleAccount := by
    decide +kernel
  have haccepts : Accepts deployedPlatform (fun _ => .ok deployedEnvelope) (some exampleConfig)
      deployedEnvelope (Vector.replicate 32 42) 1700000000 :=
    .of_verified (exampleJson exampleDeployment) rfl rfl hverify
  exact accepted_attestation (example_recover exampleDeployment) haccepts exampleDeployment
    collisionFree_deployed

/-- An attestation that was signed for another chain is accepted. -/
theorem not_accepted_attestation :
    (∀ digest sig account,
      recoverAddress (examplePlatform (exampleDigest otherChain)) digest sig = .ok account →
        exampleMade otherChain sig account = some digest) ∧
      Accepts (examplePlatform (exampleDigest otherChain))
        (fun _ => .ok (exampleEnvelope otherChain)) (some exampleConfig)
        (exampleEnvelope otherChain) (Vector.replicate 32 42) 1700000000 ∧
      ¬Granted (examplePlatform (exampleDigest otherChain)) (exampleMade otherChain)
        (exampleEnvelope otherChain) (Vector.replicate 32 42) 1700000000 exampleDeployment := by
  have hverify : (exampleEnvelope otherChain).verifyForNpub
      (examplePlatform (exampleDigest otherChain)) (hexEncode (Vector.replicate 32 42).toList)
      (sinceEpoch 1700000000) = .ok exampleAccount := by
    decide +kernel
  refine ⟨example_recover otherChain, .of_verified (exampleJson otherChain) rfl rfl hverify,
    fun hgranted => ?_⟩
  obtain ⟨sig, -, hmade⟩ := hgranted.signed
  obtain ⟨-, hsame⟩ := Option.ite_none_right_eq_some.mp hmade
  have hdigest := Option.some.inj hsame
  rw [digest_examplePlatform] at hdigest
  exact absurd hdigest (by decide +kernel)

end Buzz.Evm
