import Buzz.EvmAuth.Siwe

/-!
# Attestations

An account of the EVM authorises a Nostr key with a signature over an EIP-712 digest, which is taken
of a domain and of the authorisation. An envelope carries all three, the domain included, and is
checked against itself.
-/

namespace Buzz.EvmAuth

/-- The domain that a signature is bound to. -/
structure Eip712Domain where
  name : String
  version : String
  chainId : UInt64
  verifyingContract : EvmAddress

/-- An account's statement that a Nostr key signs for it. -/
structure NostrSignerAttestation where
  account : EvmAddress
  npub : Vector UInt8 32
  expires : UInt64
  nonce : UInt64

structure AttestationEnvelope where
  attestation : NostrSignerAttestation
  domain : Eip712Domain
  signature : String

def typeString : String :=
  "NostrSigner(address account,bytes32 npub,uint256 expires,uint256 nonce)"

def domainTypeString : String :=
  "EIP712Domain(string name,string version,uint256 chainId,address verifyingContract)"

variable {Sig VerifyingKey : Type} (P : Platform Sig VerifyingKey)

def Eip712Domain.encoded (d : Eip712Domain) : List UInt8 :=
  (P.keccak256 (utf8 domainTypeString)).toList ++ ((P.keccak256 (utf8 d.name)).toList ++
    ((P.keccak256 (utf8 d.version)).toList ++ (u256 d.chainId ++ d.verifyingContract.toWord)))

def Eip712Domain.separator (d : Eip712Domain) : Word := P.keccak256 (d.encoded P)

namespace NostrSignerAttestation

variable (a : NostrSignerAttestation)

/-- The ABI encoding of an authorisation. -/
def encoded : List UInt8 :=
  (P.keccak256 (utf8 typeString)).toList ++ (a.account.toWord ++ (a.npub.toList ++
    (u256 a.expires ++ u256 a.nonce)))

def structHash : Word := P.keccak256 (a.encoded P)

def preimage (domain : Eip712Domain) : List UInt8 :=
  [0x19, 0x01] ++ ((domain.separator P).toList ++ (a.structHash P).toList)

def digest (domain : Eip712Domain) : Word := P.keccak256 (a.preimage P domain)

def verify (domain : Eip712Domain) (signatureHex : String) : Except EvmAuthError Unit :=
  (parseSignature signatureHex).bind fun sig =>
  (recoverAddress P (a.digest P domain) sig).bind fun recovered =>
  if recovered ≠ a.account then .error (.signerMismatch a.account.toHex recovered.toHex)
  else .ok ()

def isExpired (now : Nat) : Bool := a.expires.toNat < now

/-- The byte strings that are hashed for a digest. -/
def hashed (domain : Eip712Domain) : List (List UInt8) :=
  [utf8 domain.name, utf8 domain.version, domain.encoded P, a.encoded P, a.preimage P domain]

end NostrSignerAttestation

def AttestationEnvelope.verifyForNpub (envelope : AttestationEnvelope) (npubHex : String)
    (now : Nat) : Except EvmAuthError EvmAddress :=
  if envelope.attestation.isExpired now then .error .expired
  else if hexEncode envelope.attestation.npub.toList ≠ npubHex then
    .error (.signerMismatch npubHex (hexEncode envelope.attestation.npub.toList))
  else
    (envelope.attestation.verify P envelope.domain envelope.signature).bind fun _ =>
      .ok envelope.attestation.account

/-! ### The digest -/

variable {P}

theorem append_word_inj {v w : Word} {xs ys : List UInt8} (h : v.toList ++ xs = w.toList ++ ys) :
    v = w ∧ xs = ys := by
  have hlength : v.toList.length = w.toList.length := by
    rw [Vector.length_toList, Vector.length_toList]
  obtain ⟨hword, hrest⟩ := List.append_inj h hlength
  exact ⟨Vector.toList_inj.mp hword, hrest⟩

theorem append_u256_inj {m n : UInt64} {xs ys : List UInt8} (h : u256 m ++ xs = u256 n ++ ys) :
    m = n ∧ xs = ys := by
  have hlength : (u256 m).length = (u256 n).length := by rw [length_u256, length_u256]
  obtain ⟨hnumber, hrest⟩ := List.append_inj h hlength
  exact ⟨u256_injective hnumber, hrest⟩

theorem append_toWord_inj {a b : EvmAddress} {xs ys : List UInt8}
    (h : a.toWord ++ xs = b.toWord ++ ys) : a = b ∧ xs = ys := by
  have hlength : a.toWord.length = b.toWord.length := by
    rw [EvmAddress.length_toWord, EvmAddress.length_toWord]
  obtain ⟨haddress, hrest⟩ := List.append_inj h hlength
  exact ⟨EvmAddress.toWord_injective haddress, hrest⟩

theorem Eip712Domain.encoded_inj {d d' : Eip712Domain}
    (hname : P.keccak256 (utf8 d.name) = P.keccak256 (utf8 d'.name) → utf8 d.name = utf8 d'.name)
    (hversion : P.keccak256 (utf8 d.version) = P.keccak256 (utf8 d'.version) →
      utf8 d.version = utf8 d'.version)
    (h : d.encoded P = d'.encoded P) : d = d' := by
  obtain ⟨-, hrest⟩ := append_word_inj h
  obtain ⟨hnames, hrest⟩ := append_word_inj hrest
  obtain ⟨hversions, hrest⟩ := append_word_inj hrest
  obtain ⟨hchain, hcontract⟩ := append_u256_inj hrest
  obtain ⟨name, version, chainId, verifyingContract⟩ := d
  obtain ⟨name', version', chainId', verifyingContract'⟩ := d'
  obtain rfl := utf8_injective (hname hnames)
  obtain rfl := utf8_injective (hversion hversions)
  obtain rfl : chainId = chainId' := hchain
  obtain rfl := EvmAddress.toWord_injective hcontract
  rfl

theorem NostrSignerAttestation.encoded_injective :
    Function.Injective (NostrSignerAttestation.encoded P) := by
  intro a a' h
  obtain ⟨-, hrest⟩ := append_word_inj h
  obtain ⟨haccount, hrest⟩ := append_toWord_inj hrest
  obtain ⟨hnpub, hrest⟩ := append_word_inj hrest
  obtain ⟨hexpires, hnonce⟩ := append_u256_inj hrest
  obtain ⟨account, npub, expires, nonce⟩ := a
  obtain ⟨account', npub', expires', nonce'⟩ := a'
  obtain rfl : account = account' := haccount
  obtain rfl : npub = npub' := hnpub
  obtain rfl : expires = expires' := hexpires
  obtain rfl := u256_injective hnonce
  rfl

/-- **The digest** tells every field of the authorisation and of the domain apart. -/
theorem digest_inj {a a' : NostrSignerAttestation} {d d' : Eip712Domain}
    (hfree : CollisionFree P.keccak256 (a.hashed P d ++ a'.hashed P d')) :
    a.digest P d = a'.digest P d' ↔ a = a' ∧ d = d' := by
  constructor
  · intro h
    have hname := hfree (utf8 d.name) (by simp [NostrSignerAttestation.hashed])
      (utf8 d'.name) (by simp [NostrSignerAttestation.hashed])
    have hversion := hfree (utf8 d.version) (by simp [NostrSignerAttestation.hashed])
      (utf8 d'.version) (by simp [NostrSignerAttestation.hashed])
    have hdomain := hfree (d.encoded P) (by simp [NostrSignerAttestation.hashed])
      (d'.encoded P) (by simp [NostrSignerAttestation.hashed])
    have hstruct := hfree (a.encoded P) (by simp [NostrSignerAttestation.hashed])
      (a'.encoded P) (by simp [NostrSignerAttestation.hashed])
    have hpreimage := hfree (a.preimage P d) (by simp [NostrSignerAttestation.hashed])
      (a'.preimage P d') (by simp [NostrSignerAttestation.hashed]) h
    obtain ⟨hseparators, hhashes⟩ := append_word_inj (List.append_cancel_left hpreimage)
    exact ⟨NostrSignerAttestation.encoded_injective (hstruct (Vector.toList_inj.mp hhashes)),
      Eip712Domain.encoded_inj hname hversion (hdomain hseparators)⟩
  · rintro ⟨rfl, rfl⟩
    rfl

/-! ### The check -/

theorem isExpired_iff {a : NostrSignerAttestation} {now : Nat} :
    a.isExpired now = true ↔ a.expires.toNat < now :=
  decide_eq_true_iff

/-- An envelope passes when it has not expired, names the key, and its signature recovers to its
account under its own domain. -/
theorem verifyForNpub_ok_iff {envelope : AttestationEnvelope} {npubHex : String} {now : Nat}
    {account : EvmAddress} :
    envelope.verifyForNpub P npubHex now = .ok account ↔
      now ≤ envelope.attestation.expires.toNat ∧
      hexEncode envelope.attestation.npub.toList = npubHex ∧
      account = envelope.attestation.account ∧
      ∃ sig, parseSignature envelope.signature = .ok sig ∧
        recoverAddress P (envelope.attestation.digest P envelope.domain) sig =
          .ok envelope.attestation.account := by
  rw [AttestationEnvelope.verifyForNpub, NostrSignerAttestation.verify]
  constructor
  · intro h
    split at h
    · cases h
    next hexpired =>
    have hlive := mt isExpired_iff.mpr hexpired
    split at h
    · cases h
    next hnpub =>
    obtain ⟨⟨⟩, hverify, haccount⟩ := bind_ok_iff.mp h
    obtain ⟨sig, hsig, hrest⟩ := bind_ok_iff.mp hverify
    obtain ⟨recovered, hrecovered, hsame⟩ := bind_ok_iff.mp hrest
    split at hsame
    · cases hsame
    next hsigner =>
    rw [not_ne_iff.mp hsigner] at hrecovered
    exact ⟨by omega, not_ne_iff.mp hnpub, (Except.ok.inj haccount).symm, sig, hsig, hrecovered⟩
  · rintro ⟨hlive, hnpub, rfl, sig, hsig, hrecovered⟩
    have hexpired := mt isExpired_iff.mp (by omega : ¬envelope.attestation.expires.toNat < now)
    rw [if_neg hexpired, if_neg (not_ne_iff.mpr hnpub), hsig]
    simp [Except.bind, hrecovered]

end Buzz.EvmAuth
