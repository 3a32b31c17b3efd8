import Buzz.Sdk.NipOa

/-!
# Auth tags

An owner authorises an agent by a tag, which is computed with the owner's keys. Whoever is handed a
tag may read it without checking its signature.
-/

namespace Buzz.NipOa

variable {Sig Digest : Type}

structure Keys (Sig Digest : Type) where
  publicKey : Key
  signSchnorr : Digest → Sig

inductive ParseError where
  | invalid (e : InvalidInput)
  /-- `owner pubkey must be 64 hex chars`. -/
  | ownerPubkey (hex : String)
  /-- `signature must be 128 hex chars`. -/
  | signature (length : Nat)

variable (C : Crypto Sig Digest)

/-- `compute_auth_tag`; signatures have a text of their own. -/
def computeAuthTag (sigToString : Sig → String) (ownerKeys : Keys Sig Digest) (agent : Key)
    (conditions : String) : Except InvalidInput String :=
  let owner := ownerKeys.publicKey
  if owner = agent then .error .selfAttestation
  else
    (validateConditions conditions).bind fun _ =>
      let sig := ownerKeys.signSchnorr (C.sha256 (buildPreimage agent conditions))
      let tag : AuthTag := ⟨Pairing.hexOfBytes32 owner, conditions, sigToString sig⟩
      .ok (String.ofList tag.toJson.render)

/-- This many bytes, which are digits in lower case. -/
def isLowerHexField (s : String) (n : Nat) : Bool :=
  decide (s.utf8ByteSize = n) && s.toList.all isLowerHex

/-- `parse_auth_tag`. A tag is made of every list of strings that is not empty. -/
def parseAuthTag (json : String) : Except ParseError (List String) :=
  ((parseJsonArray C json).mapError .invalid).bind fun
    | [e0, e1, e2, e3] =>
      ((asStr 0 e0).mapError .invalid).bind fun label =>
      if label ≠ "auth" then .error (.invalid (.wrongLabel label))
      else
        ((asStr 1 e1).mapError .invalid).bind fun ownerHex =>
        if !isLowerHexField ownerHex 64 then .error (.ownerPubkey ownerHex)
        else
          ((asStr 2 e2).mapError .invalid).bind fun conditions =>
          ((validateConditions conditions).mapError .invalid).bind fun _ =>
          ((asStr 3 e3).mapError .invalid).bind fun sigHex =>
          if !isLowerHexField sigHex 128 then .error (.signature sigHex.utf8ByteSize)
          else .ok ["auth", ownerHex, conditions, sigHex]
    | arr => .error (.invalid (.elementCount arr.length))

def AuthTag.strings (t : AuthTag) : List String := ["auth", t.ownerHex, t.conditions, t.sigHex]

/-- The shape of a tag: keys and signatures in lower case, and conditions that are well formed. -/
structure AuthTag.WellFormed (t : AuthTag) : Prop where
  /-- The owner's key has 32 bytes. -/
  owner : IsLowerHex 64 t.ownerHex
  conditions : ∃ clauses, IsConditions clauses t.conditions
  /-- The signature has 64 bytes. -/
  sig : IsLowerHex 128 t.sigHex

variable {C}

theorem isLowerHexField_iff {s : String} {n : Nat} :
    isLowerHexField s n = true ↔ IsLowerHex n s := by
  rw [isLowerHexField, Bool.and_eq_true, decide_eq_true_eq, List.all_eq_true]
  constructor
  · rintro ⟨hsize, hall⟩
    have hlower : IsLowerHex s.toList.length s := ⟨rfl, hall⟩
    exact ⟨hlower.utf8ByteSize.symm.trans hsize, hall⟩
  · exact fun h => ⟨h.utf8ByteSize, h.digits⟩

theorem isLowerHex_hexEncode (bs : List UInt8) : IsLowerHex (2 * bs.length) (hexEncode bs) where
  length := by rw [hexEncode, String.toList_ofList, length_flatMap_hexByte]
  digits c hc := by
    obtain ⟨n, hn, rfl⟩ := exists_digitChar_of_mem_hexEncode hc
    have hall : ∀ d : Fin 16, isLowerHex (Nat.digitChar d) = true := by decide
    exact hall ⟨n, hn⟩

/-- **What is read**: a tag in its shape. -/
theorem parseAuthTag_ok_iff {json : String} {tag : List String} :
    parseAuthTag C json = .ok tag ↔
      ∃ t : AuthTag, C.fromStr json = some t.toJson ∧ t.WellFormed ∧ tag = t.strings := by
  rw [parseAuthTag, bind_ok_iff]
  constructor
  · rintro ⟨xs, hxs, h⟩
    rw [mapError_ok_iff, parseJsonArray_ok_iff] at hxs
    split at h
    · next e0 e1 e2 e3 =>
      obtain ⟨label, h0, hlabelled⟩ := bind_ok_iff.mp h
      split at hlabelled
      · cases hlabelled
      next hlabel =>
      obtain ⟨ownerHex, h1, hrest⟩ := bind_ok_iff.mp hlabelled
      split at hrest
      · cases hrest
      next howner =>
      obtain ⟨conditions, h2, hrest⟩ := bind_ok_iff.mp hrest
      obtain ⟨u, hconditions, hrest⟩ := bind_ok_iff.mp hrest
      obtain ⟨sigHex, h3, hread⟩ := bind_ok_iff.mp hrest
      split at hread
      · cases hread
      next hsig =>
      rw [mapError_ok_iff, asStr_ok_iff] at h0 h1 h2 h3
      rw [mapError_ok_iff, validateConditions_ok_iff] at hconditions
      rw [Bool.not_eq_true', Bool.not_eq_false] at howner hsig
      have hjson : C.fromStr json = some (AuthTag.mk ownerHex conditions sigHex).toJson := by
        rw [hxs, h0, h1, h2, h3, not_ne_iff.mp hlabel]
        rfl
      exact ⟨_, hjson, ⟨isLowerHexField_iff.mp howner, hconditions, isLowerHexField_iff.mp hsig⟩,
        (Except.ok.inj hread).symm⟩
    · cases h
  · rintro ⟨t, hjson, ht, rfl⟩
    refine ⟨_, mapError_ok_iff.mpr (parseJsonArray_ok_iff.mpr hjson), ?_⟩
    dsimp only
    rw [asStr, Except.mapError, Except.bind, if_neg (not_ne_iff.mpr rfl), asStr, Except.mapError,
      Except.bind, isLowerHexField_iff.mpr ht.owner, asStr, Except.mapError, Except.bind,
      validateConditions_ok_iff.mpr ht.conditions, Except.mapError, Except.bind, asStr,
      Except.mapError, Except.bind, isLowerHexField_iff.mpr ht.sig]
    rfl

end Buzz.NipOa
