import Buzz.GitSign.Attestation
import Buzz.Lib.Utf8

/-!
# What is signed of a git object

The signature of a git object covers a domain separator, the time, the owner attestation where there
is one, and the object. These are put one after another. The attestation is optional and stands
between a decimal number and arbitrary bytes, so that what is signed can be read in one way only
because of the shape of its parts: keys and signatures have a fixed length, conditions have no
colon, and no object begins like a key.
-/

namespace Buzz.GitSign

open List
open NipOa

variable {Sig Digest : Type}

/-! ### Envelopes -/

/-- The envelope of a signature. -/
structure Envelope where
  pk : String
  sig : String
  t : Nat
  oa : Option OwnerAttestation
  deriving DecidableEq

def validateHexField (val : String) (expectedLen : Nat) (name : String) : Except String Unit :=
  if val.utf8ByteSize ≠ expectedLen then
    .error (name ++ " must be exactly " ++ toString expectedLen ++ " characters, got " ++
      toString val.utf8ByteSize)
  else if !val.toList.all isLowercaseHexdigit then .error (name ++ " must be lowercase hex")
  else .ok ()

/-- A member that has to be there. -/
def requiredField (members : List (String × Json)) (key : String) : Except String Json :=
  match Json.member members key with
  | some v => .ok v
  | none => .error ("missing required field: " ++ key)

/-- `as_str`, of what has to be a string. -/
def requiredString (name : String) : Json → Except String String
  | .str s => .ok s
  | _ => .error (name ++ " must be a string")

/-- `is_f64`: a number that is not an integer of 64 bits. -/
def isF64 : Json → Bool
  | .num token => !token.toInt.any fun i => decide (-2 ^ 63 ≤ i ∧ i < 2 ^ 64)
  | _ => false

/-- The members that an envelope may have. -/
def allowed : List String := ["v", "pk", "sig", "t", "oa"]

def parseTimestamp (v : Json) : Except String Nat :=
  if isF64 v then .error "t must be an integer, not a float"
  else
    match v.asU64 with
    | none => .error "t must be a non-negative integer"
    | some t => if t > 4294967295 then .error ("t out of range: " ++ toString t) else .ok t

variable (C : Crypto Sig Digest)

def parseOa (pk : String) : Json → Except String OwnerAttestation
  | .arr [e0, e1, e2] =>
    (requiredString "oa[0]" e0).bind fun owner =>
    (requiredString "oa[1]" e1).bind fun conditions =>
    (requiredString "oa[2]" e2).bind fun ownerSig =>
    (validateHexField owner 64 "oa[0]").bind fun _ =>
    (validateHexField ownerSig 128 "oa[2]").bind fun _ =>
    if !validateConditions conditions then
      .error "oa[1] conditions contain invalid characters (allowed: alphanumeric, _=<>&)"
    else if (C.fromHex owner).isNone then
      .error ("oa[0] is not a valid BIP-340 public key: " ++ C.keyError owner)
    else if owner = pk then .error "oa[0] (owner) must not equal pk (self-attestation)"
    else .ok ⟨owner, conditions, ownerSig⟩
  | .arr xs => .error ("oa must have exactly 3 elements, got " ++ toString xs.length)
  | _ => .error "oa must be an array"

def parseVersion (v : Json) : Except String Unit :=
  match v.asU64 with
  | none => .error "v must be an integer"
  | some v => if v ≠ 1 then .error ("unsupported version: " ++ toString v) else .ok ()

/-- The members of an envelope, one after another. -/
def parseMembers (members : List (String × Json)) : Except String Envelope :=
  (requiredField members "v").bind fun v =>
  (parseVersion v).bind fun _ =>
  (requiredField members "pk").bind fun pk =>
  (requiredString "pk" pk).bind fun pk =>
  (validateHexField pk 64 "pk").bind fun _ =>
  (requiredField members "sig").bind fun sig =>
  (requiredString "sig" sig).bind fun sig =>
  (validateHexField sig 128 "sig").bind fun _ =>
  (requiredField members "t").bind fun t =>
  (parseTimestamp t).bind fun t =>
  match Json.member members "oa" with
  | none => .ok ⟨pk, sig, t, none⟩
  | some v => (parseOa C pk v).map fun oa => ⟨pk, sig, t, some oa⟩

def parseEnvelope (jsonStr : String) : Except String Envelope :=
  match C.fromStr jsonStr with
  | none => .error ("invalid JSON: " ++ C.jsonError jsonStr)
  | some (.obj members) =>
    match members.find? fun m => !allowed.contains m.1 with
    | some m => .error ("unknown key in v=1 envelope: " ++ C.debug m.1)
    | none => parseMembers C members
  | some _ => .error "JSON must be an object"

/-! ### What is signed -/

def domainSeparator : String := "nostr:git:v1:"

def oaBinding : Option OwnerAttestation → List UInt8
  | none => []
  | some oa =>
    utf8 oa.owner ++ utf8 ":" ++ utf8 oa.conditions ++ utf8 ":" ++ utf8 oa.sig ++ utf8 ":"

/-- What `compute_signing_hash` hashes. -/
def signingPreimage (timestamp : Nat) (oa : Option OwnerAttestation) (payload : List UInt8) :
    List UInt8 :=
  utf8 domainSeparator ++ utf8 (toString timestamp) ++ utf8 ":" ++ oaBinding oa ++ payload

def computeSigningHash (timestamp : Nat) (oa : Option OwnerAttestation) (payload : List UInt8) :
    Digest :=
  C.sha256Bytes (signingPreimage timestamp oa payload)

/-- The signature of an envelope is that of the object. -/
def verifiesEnvelope (e : Envelope) (payload : List UInt8) : Bool :=
  match C.fromHex e.pk, (hexDecode e.sig).bind C.sigFromSlice with
  | some pk, some sig =>
    C.xonly pk && C.verifySchnorr sig (computeSigningHash C e.t e.oa payload) pk
  | _, _ => false

/-- How an object begins that git signs. -/
def IsGitBody (payload : List UInt8) : Prop :=
  ∃ kind ∈ ["tree ", "object ", "certificate "], utf8 kind <+: payload

/-! ### The shape of what is read -/

variable {C}

variable {n : Nat}

theorem validateHexField_ok_iff {val name : String} :
    validateHexField val n name = .ok () ↔ IsLowerHex n val := by
  rw [validateHexField, ← isHexField_iff, isHexField, Bool.and_eq_true, decide_eq_true_eq]
  by_cases hsize : val.utf8ByteSize = n
  · rw [if_neg (not_ne_iff.mpr hsize)]
    cases val.toList.all isLowercaseHexdigit with
    | true => simp [hsize]
    | false => simp
  · rw [if_pos hsize]
    simp [hsize]

theorem parseTimestamp_le {v : Json} {t : Nat} (h : parseTimestamp v = .ok t) :
    t ≤ 4294967295 := by
  rw [parseTimestamp] at h
  split at h
  · cases h
  · split at h
    · cases h
    · split at h
      · cases h
      · next hle =>
        cases h
        exact Nat.le_of_not_lt hle

theorem parseOa_accepted {pk : String} {v : Json} {oa : OwnerAttestation}
    (h : parseOa C pk v = .ok oa) : oa.Accepted := by
  rw [parseOa.eq_def] at h
  split at h
  · obtain ⟨owner, -, h⟩ := bind_ok_iff.mp h
    obtain ⟨conditions, -, h⟩ := bind_ok_iff.mp h
    obtain ⟨ownerSig, -, h⟩ := bind_ok_iff.mp h
    obtain ⟨⟨⟩, howner, h⟩ := bind_ok_iff.mp h
    obtain ⟨⟨⟩, hsig, h⟩ := bind_ok_iff.mp h
    split at h
    · cases h
    next hconditions =>
    split at h
    · cases h
    split at h
    · cases h
    cases h
    rw [Bool.not_eq_true', Bool.not_eq_false] at hconditions
    exact ⟨validateHexField_ok_iff.mp howner, validateConditions_iff.mp hconditions,
      validateHexField_ok_iff.mp hsig⟩
  · cases h
  · cases h

/-- An envelope has a time of 32 bits, and an attestation only in its shape. -/
theorem parseEnvelope_spec {jsonStr : String} {e : Envelope}
    (h : parseEnvelope C jsonStr = .ok e) :
    e.t ≤ 4294967295 ∧ ∀ oa ∈ e.oa, oa.Accepted := by
  rw [parseEnvelope] at h
  split at h
  · cases h
  · next members =>
    split at h
    · cases h
    · rw [parseMembers] at h
      obtain ⟨_, -, h⟩ := bind_ok_iff.mp h
      obtain ⟨_, -, h⟩ := bind_ok_iff.mp h
      obtain ⟨_, -, h⟩ := bind_ok_iff.mp h
      obtain ⟨pk, -, h⟩ := bind_ok_iff.mp h
      obtain ⟨_, -, h⟩ := bind_ok_iff.mp h
      obtain ⟨_, -, h⟩ := bind_ok_iff.mp h
      obtain ⟨sig, -, h⟩ := bind_ok_iff.mp h
      obtain ⟨_, -, h⟩ := bind_ok_iff.mp h
      obtain ⟨_, -, h⟩ := bind_ok_iff.mp h
      obtain ⟨t, ht, h⟩ := bind_ok_iff.mp h
      have hle := parseTimestamp_le ht
      split at h
      · cases h
        exact ⟨hle, by rintro oa ⟨⟩⟩
      · next v hv =>
        cases hoa : parseOa C pk v with
        | error err =>
          rw [hoa] at h
          cases h
        | ok oa =>
          rw [hoa] at h
          cases h
          refine ⟨hle, ?_⟩
          rintro _ ⟨⟩
          exact parseOa_accepted hoa
  · cases h

/-! ### What is signed has one reading -/

/-- What git signs, at a time of 32 bits and with an attestation in its shape. -/
structure SignedObject where
  t : Nat
  range : t ≤ 4294967295
  oa : Option OwnerAttestation
  accepted : ∀ a ∈ oa, a.Accepted
  payload : List UInt8
  body : IsGitBody payload

def SignedObject.preimage (x : SignedObject) : List UInt8 := signingPreimage x.t x.oa x.payload

theorem SignedObject.ext {x y : SignedObject} (ht : x.t = y.t) (hoa : x.oa = y.oa)
    (hpayload : x.payload = y.payload) : x = y := by
  cases x
  cases y
  obtain rfl := ht
  obtain rfl := hoa
  obtain rfl := hpayload
  rfl

theorem utf8_colon : utf8 ":" = [58] := by decide

variable {s : String}

theorem colon_mem_utf8 : (58 : UInt8) ∈ utf8 s ↔ ':' ∈ s.toList := by
  rw [utf8_eq_encode]
  exact mem_encode_ascii (d := ':') (by decide)

theorem colon_notMem_decimal (t : Nat) : (58 : UInt8) ∉ utf8 (toString t) := by
  rw [colon_mem_utf8, Nat.toString_eq_repr]
  intro h
  exact absurd (isDigit_of_mem_repr h) (by decide)

theorem colon_notMem_conditions (h : ∃ clauses, IsConditions clauses s) :
    (58 : UInt8) ∉ utf8 s := by
  obtain ⟨clauses, -, rfl⟩ := h
  rw [colon_mem_utf8]
  exact notMem_conditionsText_of (by decide) (by decide) (by decide) clauses

theorem toString_injective : Function.Injective (toString : Nat → String) := fun m n h =>
  repr_injective (by rw [← Nat.toString_eq_repr, h, Nat.toString_eq_repr])

theorem utf8_of_isLowerHex (h : IsLowerHex n s) :
    utf8 s = s.toList.map fun c => UInt8.ofNat c.toNat := by
  rw [utf8_eq_encode]
  refine encode_ascii fun c hc => ?_
  have hrange := isLowerHex_iff.mp (h.digits c hc)
  omega

theorem length_utf8_of_isLowerHex (h : IsLowerHex n s) : (utf8 s).length = n := by
  simp [utf8_of_isLowerHex h, h.length]

theorem range_of_isLowerHex (h : IsLowerHex n s) {b : UInt8} (hb : b ∈ utf8 s) :
    b.toNat ≤ 57 ∨ (97 ≤ b.toNat ∧ b.toNat ≤ 102) := by
  rw [utf8_of_isLowerHex h, mem_map] at hb
  obtain ⟨c, hc, rfl⟩ := hb
  have hrange := isLowerHex_iff.mp (h.digits c hc)
  have hbyte : (UInt8.ofNat c.toNat).toNat = c.toNat := by
    rw [UInt8.toNat_ofNat']
    omega
  rw [hbyte]
  omega

theorem not_isGitBody_of_key {owner : String} (h : IsLowerHex 64 owner) (rest : List UInt8) :
    ¬IsGitBody (utf8 owner ++ rest) := by
  rintro ⟨kind, hkind, hpre⟩
  have hkinds : ∀ kind ∈ ["tree ", "object ", "certificate "], (utf8 kind).length ≤ 64 ∧
      ∃ b ∈ utf8 kind, ¬(b.toNat ≤ 57 ∨ (97 ≤ b.toNat ∧ b.toNat ≤ 102)) := by decide
  obtain ⟨hle, b, hb, hnot⟩ := hkinds kind hkind
  rw [← length_utf8_of_isLowerHex h] at hle
  have howner : utf8 kind <+: utf8 owner :=
    prefix_of_prefix_length_le hpre (prefix_append _ _) hle
  exact hnot (range_of_isLowerHex h (howner.subset hb))

variable {payload : List UInt8}

theorem oaBinding_append_inj {oa oa' : Option OwnerAttestation} {payload' : List UInt8}
    (hoa : ∀ a ∈ oa, a.Accepted) (hoa' : ∀ a ∈ oa', a.Accepted) (hbody : IsGitBody payload)
    (hbody' : IsGitBody payload') (h : oaBinding oa ++ payload = oaBinding oa' ++ payload') :
    oa = oa' ∧ payload = payload' := by
  have hkey : ∀ (a : OwnerAttestation) (rest : List UInt8), oaBinding (some a) ++ rest =
      utf8 a.owner ++ 58 :: (utf8 a.conditions ++ 58 :: (utf8 a.sig ++ 58 :: rest)) := by
    intro a rest
    simp [oaBinding, utf8_colon]
  cases oa with
  | none =>
    cases oa' with
    | none => exact ⟨rfl, h⟩
    | some a' =>
      rw [hkey, oaBinding, nil_append] at h
      rw [h] at hbody
      exact absurd hbody (not_isGitBody_of_key (hoa' a' rfl).owner _)
  | some a =>
    have ha := hoa a rfl
    cases oa' with
    | none =>
      rw [hkey, oaBinding, nil_append] at h
      rw [← h] at hbody'
      exact absurd hbody' (not_isGitBody_of_key ha.owner _)
    | some a' =>
      have ha' := hoa' a' rfl
      rw [hkey, hkey] at h
      have hlength : (utf8 a.owner).length = (utf8 a'.owner).length := by
        rw [length_utf8_of_isLowerHex ha.owner, length_utf8_of_isLowerHex ha'.owner]
      have hlength' : (utf8 a.sig).length = (utf8 a'.sig).length := by
        rw [length_utf8_of_isLowerHex ha.sig, length_utf8_of_isLowerHex ha'.sig]
      obtain ⟨howner, hrest⟩ := append_inj h hlength
      obtain ⟨hconditions, hrest⟩ := append_cons_inj_left (colon_notMem_conditions ha.conditions)
        (colon_notMem_conditions ha'.conditions) (cons.inj hrest).2
      obtain ⟨hsig, hrest⟩ := append_inj hrest hlength'
      refine ⟨?_, (cons.inj hrest).2⟩
      cases a
      cases a'
      obtain rfl := utf8_injective howner
      obtain rfl := utf8_injective hconditions
      obtain rfl := utf8_injective hsig
      rfl

theorem signingPreimage_inj {t t' : Nat} {oa oa' : Option OwnerAttestation}
    {payload' : List UInt8} (hoa : ∀ a ∈ oa, a.Accepted) (hoa' : ∀ a ∈ oa', a.Accepted)
    (hbody : IsGitBody payload) (hbody' : IsGitBody payload')
    (h : signingPreimage t oa payload = signingPreimage t' oa' payload') :
    t = t' ∧ oa = oa' ∧ payload = payload' := by
  have hform : ∀ (t : Nat) (oa : Option OwnerAttestation) (payload : List UInt8),
      signingPreimage t oa payload =
        utf8 domainSeparator ++ (utf8 (toString t) ++ 58 :: (oaBinding oa ++ payload)) := by
    intro t oa payload
    simp [signingPreimage, utf8_colon]
  rw [hform, hform] at h
  obtain ⟨ht, hrest⟩ := append_cons_inj_left (colon_notMem_decimal t) (colon_notMem_decimal t')
    (append_cancel_left h)
  exact ⟨toString_injective (utf8_injective ht), oaBinding_append_inj hoa hoa' hbody hbody' hrest⟩

theorem preimage_injective : Function.Injective SignedObject.preimage := by
  intro x y h
  obtain ⟨ht, hoa, hpayload⟩ := signingPreimage_inj x.accepted y.accepted x.body y.body h
  exact SignedObject.ext ht hoa hpayload

theorem exists_of_verifiesEnvelope {e : Envelope} (h : verifiesEnvelope C e payload = true) :
    ∃ pk sig, C.fromHex e.pk = some pk ∧ (hexDecode e.sig).bind C.sigFromSlice = some sig ∧
      C.verifySchnorr sig (C.sha256Bytes (signingPreimage e.t e.oa payload)) pk = true := by
  rw [verifiesEnvelope] at h
  split at h
  · next pk sig hpk hsig => exact ⟨pk, sig, hpk, hsig, (Bool.and_eq_true_iff.mp h).2⟩
  · cases h

/-! ### Main results -/

/-- **What is signed of a git object has one reading**, and a signature is that of one object: where
the hash does not confuse the two, and the signature is not valid for two different hashes of them,
two envelopes with the same key and signature have the same time and attestation, and are for the
same object. -/
theorem signing_unambiguous : Function.Injective SignedObject.preimage ∧
    ∀ {Sig Digest : Type} (C : Crypto Sig Digest) {json json' : String} {e e' : Envelope}
      {payload payload' : List UInt8},
      let p := signingPreimage e.t e.oa payload
      let p' := signingPreimage e'.t e'.oa payload'
      parseEnvelope C json = .ok e → parseEnvelope C json' = .ok e' → e.pk = e'.pk →
      e.sig = e'.sig → IsGitBody payload → IsGitBody payload' →
      CollisionFree C.sha256Bytes [p, p'] →
      (∀ pk sig, C.fromHex e.pk = some pk → (hexDecode e.sig).bind C.sigFromSlice = some sig →
        C.verifySchnorr sig (C.sha256Bytes p) pk = true →
        C.verifySchnorr sig (C.sha256Bytes p') pk = true → C.sha256Bytes p = C.sha256Bytes p') →
      verifiesEnvelope C e payload = true → verifiesEnvelope C e' payload' = true →
      e.t = e'.t ∧ e.oa = e'.oa ∧ payload = payload' := by
  refine ⟨preimage_injective, ?_⟩
  intro Sig Digest C json json' e e' payload payload' p p' he he' hpk hsig hbody hbody' hfree hone
    hv hv'
  obtain ⟨pk, sig, hkey, hread, hvalid⟩ := exists_of_verifiesEnvelope hv
  obtain ⟨pk', sig', hkey', hread', hvalid'⟩ := exists_of_verifiesEnvelope hv'
  rw [← hpk, hkey] at hkey'
  rw [← hsig, hread] at hread'
  obtain rfl := Option.some.inj hkey'
  obtain rfl := Option.some.inj hread'
  have hhash := hone pk sig hkey hread hvalid hvalid'
  exact signingPreimage_inj (parseEnvelope_spec he).2 (parseEnvelope_spec he').2 hbody hbody'
    (hfree p (by simp) p' (by simp) hhash)

/-! ### A tree that is signed -/

def exampleOa : OwnerAttestation where
  owner := String.ofList (replicate 64 'a')
  conditions := "kind=1&created_at<1713957000"
  sig := String.ofList (replicate 128 'b')

theorem isLowerHex_replicate {c : Char} (hc : isLowerHex c = true) (n : Nat) :
    IsLowerHex n (String.ofList (replicate n c)) where
  length := by rw [String.toList_ofList, length_replicate]
  digits d hd := by
    rw [String.toList_ofList] at hd
    rwa [eq_of_mem_replicate hd]

example : exampleOa.Accepted where
  owner := isLowerHex_replicate (by decide) 64
  conditions := ⟨[.kind 1, .createdBefore 1713957000], by simp [Clause.InRange], by decide +kernel⟩
  sig := isLowerHex_replicate (by decide) 128

def examplePayload : List UInt8 := utf8 "tree 4b825dc642cb6eb9a060e54bf899d69f7cb46101\n"

def exampleEnvelope : Envelope where
  pk := String.ofList (replicate 64 'c')
  sig := String.ofList (replicate 128 'd')
  t := 1700000000
  oa := some exampleOa

def exampleJson : Json :=
  .obj [("v", .num (.ofNat 1)), ("pk", .str exampleEnvelope.pk), ("sig", .str exampleEnvelope.sig),
    ("t", .num (.ofNat exampleEnvelope.t)),
    ("oa", .arr [.str exampleOa.owner, .str exampleOa.conditions, .str exampleOa.sig])]

def exampleText : String := String.ofList exampleJson.render

/-- Libraries for which the signature of the envelope is that of the tree. -/
def exampleCrypto : Crypto (List UInt8) (List UInt8) where
  fromStr s := if s = exampleText then some exampleJson else none
  fromHex := Pairing.bytes32FromHex
  xonly _ := true
  sigFromStr := hexDecode
  sha256 := utf8
  verifySchnorr _ m _ :=
    decide (m = signingPreimage exampleEnvelope.t exampleEnvelope.oa examplePayload)
  sigFromSlice := some
  sha256Bytes := id
  jsonError := id
  keyError := id
  debug := id

/-- The signature is that of the tree, and of no other object. -/
theorem exampleEnvelope_binds :
    verifiesEnvelope exampleCrypto exampleEnvelope examplePayload = true ∧
    ∀ payload, IsGitBody payload → verifiesEnvelope exampleCrypto exampleEnvelope payload = true →
      examplePayload = payload := by
  have hread : exampleCrypto.fromStr exampleText = some exampleJson := by
    simp [exampleCrypto]
  have he : parseEnvelope exampleCrypto exampleText = .ok exampleEnvelope := by
    rw [parseEnvelope, hread]
    decide +kernel
  have hv : verifiesEnvelope exampleCrypto exampleEnvelope examplePayload = true := by
    decide +kernel
  have hbody : IsGitBody examplePayload := ⟨"tree ", by simp, by decide +kernel⟩
  refine ⟨hv, fun payload hpayload hv' => ?_⟩
  have hone : ∀ sig m m' pk, exampleCrypto.verifySchnorr sig m pk = true →
      exampleCrypto.verifySchnorr sig m' pk = true → m = m' := fun _ _ _ _ hm hm' =>
    (of_decide_eq_true hm).trans (of_decide_eq_true hm').symm
  have hbinds := signing_unambiguous.2 exampleCrypto he he rfl rfl hbody hpayload
    (fun _ _ _ _ h => h) (fun pk sig _ _ hm hm' => hone sig _ _ pk hm hm') hv hv'
  exact hbinds.2.2

end Buzz.GitSign
