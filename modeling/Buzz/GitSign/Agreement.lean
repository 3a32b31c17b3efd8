import Mathlib.Algebra.BigOperators.Group.List.Basic
import Buzz.GitSign.Attestation
import Buzz.Lib.JsonReader
import Buzz.Lib.Utf8
import Buzz.Sdk.AuthTag

/-!
# Two readers of auth tags

The tag of an agent is verified by the SDK, and checked by code of its own where git objects are
signed. The two accept the same conditions. They accept the same tags, except that git does not
take one of more than 1024 bytes, and that the SDK does not ask for lower case.
-/

namespace Buzz.GitSign

open Option
open NipOa

variable {Sig Digest : Type} {C : Crypto Sig Digest} {sigToString : Sig → String}

/-- What is documented of the libraries. -/
structure Lawful (C : Crypto Sig Digest) (sigToString : Sig → String) : Prop where
  fromStr_render : ∀ t : AuthTag, C.fromStr (String.ofList t.toJson.render) = some t.toJson
  fromHex_bytes : ∀ s k, C.fromHex s = some k → hexDecode s = some k.toList
  fromHex_hex : ∀ k, C.xonly k = true → C.fromHex (Pairing.hexOfBytes32 k) = some k
  sigFromStr_eq : ∀ s, C.sigFromStr s = (hexDecode s).bind C.sigFromSlice
  /-- Signatures have 64 bytes. -/
  sigFromSlice_length : ∀ bs sig, C.sigFromSlice bs = some sig → bs.length = 64
  sigToString_bytes : ∀ sig, ∃ bs, C.sigFromSlice bs = some sig ∧ sigToString sig = hexEncode bs

/-- What is documented of a key pair. -/
structure Signs (C : Crypto Sig Digest) (keys : Keys Sig Digest) : Prop where
  xonly : C.xonly keys.publicKey = true
  valid : ∀ m, C.verifySchnorr (keys.signSchnorr m) m keys.publicKey = true

/-! ### Tags in lower case -/

/-- A tag whose key and signature are written without upper-case letters. -/
def IsLower (t : AuthTag) : Prop :=
  ∀ c ∈ t.ownerHex.toList ++ t.sigHex.toList, c.isUpper = false

theorem not_isUpper_of_isLowerHex {c : Char} (h : isLowerHex c = true) : c.isUpper = false := by
  have hrange := isLowerHex_iff.mp h
  by_contra hupper
  rw [Bool.not_eq_false] at hupper
  have hletter := isUpper_iff.mp hupper
  omega

theorem ownerHex_eq (L : Lawful C sigToString) {s : String} {k : Key} (h : C.fromHex s = some k)
    (hlower : ∀ c ∈ s.toList, c.isUpper = false) : s = Pairing.hexOfBytes32 k :=
  (hexEncode_of_hexDecode (L.fromHex_bytes s k h) hlower).symm

theorem isLowerHex_hexOfBytes32 (k : Key) : IsLowerHex 64 (Pairing.hexOfBytes32 k) := by
  have h := isLowerHex_hexEncode k.toList
  rwa [Vector.length_toList] at h

theorem isLowerHex_of_sig (L : Lawful C sigToString) {s : String} {sig : Sig}
    (h : (hexDecode s).bind C.sigFromSlice = some sig)
    (hlower : ∀ c ∈ s.toList, c.isUpper = false) : IsLowerHex 128 s := by
  obtain ⟨bs, hbs, hsig⟩ := bind_eq_some_iff.mp h
  have hlength := L.sigFromSlice_length bs sig hsig
  have hdigits := isLowerHex_hexEncode bs
  rwa [hlength, hexEncode_of_hexDecode hbs hlower] at hdigits

/-! ### What git checks -/

variable {agent : Key} {oa : OwnerAttestation}

/-- The tag proves to git that the owner has authorised the agent. -/
theorem verifyOa_iff :
    verifyOa C (Pairing.hexOfBytes32 agent) oa = true ↔
      ∃ owner sig, C.fromHex oa.owner = some owner ∧
        (hexDecode oa.sig).bind C.sigFromSlice = some sig ∧ C.xonly owner = true ∧
        C.verifySchnorr sig (C.sha256 (buildPreimage agent oa.conditions)) owner = true := by
  rw [verifyOa]
  cases C.fromHex oa.owner with
  | none => simp
  | some owner =>
    cases (hexDecode oa.sig).bind C.sigFromSlice with
    | none => simp
    | some sig =>
      rw [Bool.and_eq_true]
      constructor
      · rintro ⟨hxonly, hvalid⟩
        exact ⟨owner, sig, rfl, rfl, hxonly, hvalid⟩
      · rintro ⟨_, _, ⟨⟩, ⟨⟩, hxonly, hvalid⟩
        exact ⟨hxonly, hvalid⟩

variable {env : Option String} {config : Except String (Option String)} {text : String}

theorem loadAuthTag_eq (htext : authTagText env config = .ok (some text)) :
    loadAuthTag C env config = (parseAuthTagText C text).map some := by
  rw [loadAuthTag, htext]
  rfl

theorem loadAuthTag_ok_iff (htext : authTagText env config = .ok (some text)) :
    loadAuthTag C env config = .ok (some oa) ↔
      parseAuthTagText C text = .ok oa := by
  rw [loadAuthTag_eq htext]
  cases parseAuthTagText C text with
  | error e | ok a => simp [Except.map]

theorem signingAttestation_ok_iff (htext : authTagText env config = .ok (some text))
    {pkHex : String} :
    signingAttestation C pkHex env config = .ok (some oa) ↔ parseAuthTagText C text = .ok oa ∧
      (C.fromHex oa.owner).isSome = true ∧ oa.owner ≠ pkHex ∧ verifyOa C pkHex oa = true := by
  rw [signingAttestation, loadAuthTag_eq htext]
  cases parseAuthTagText C text with
  | error e => simp [Except.map, Except.bind]
  | ok a =>
    simp only [Except.map, Except.bind]
    constructor
    · intro h
      split at h
      · cases h
      next hkey =>
      split at h
      · cases h
      next hself =>
      split at h
      · cases h
      next hverify =>
      obtain rfl := some.inj (Except.ok.inj h)
      rw [Bool.not_eq_true', Bool.not_eq_false] at hverify
      exact ⟨rfl, isSome_iff_ne_none.mpr (mt isNone_iff_eq_none.mpr hkey), hself,
        hverify⟩
    · rintro ⟨ha, hkey, hself, hverify⟩
      cases ha
      obtain ⟨k, hk⟩ := isSome_iff_exists.mp hkey
      rw [hk, if_neg (by simp), if_neg hself, hverify]
      rfl

/-! ### Agreement -/

theorem wellFormed_of_verifies (L : Lawful C sigToString) {t : AuthTag} {owner : Key}
    (h : Verifies C.toCrypto t agent owner) (hlower : IsLower t) :
    t.WellFormed ∧ t.ownerHex = Pairing.hexOfBytes32 owner := by
  have howner := ownerHex_eq L h.key fun c hc => hlower c (List.mem_append_left _ hc)
  obtain ⟨sig, hsig, -⟩ := h.signature
  rw [L.sigFromStr_eq] at hsig
  refine ⟨⟨?_, h.conditions, ?_⟩, howner⟩
  · rw [howner]
    exact isLowerHex_hexOfBytes32 owner
  · exact isLowerHex_of_sig L hsig fun c hc => hlower c (List.mem_append_right _ hc)

theorem verifies_iff (L : Lawful C sigToString) (hoa : oa.Accepted) {owner : Key} :
    Verifies C.toCrypto oa.tag agent owner ↔
      C.fromHex oa.owner = some owner ∧ oa.owner ≠ Pairing.hexOfBytes32 agent ∧
        verifyOa C (Pairing.hexOfBytes32 agent) oa = true := by
  have hlower : ∀ c ∈ oa.owner.toList, c.isUpper = false := fun c hc =>
    not_isUpper_of_isLowerHex (hoa.owner.digits c hc)
  rw [verifyOa_iff]
  constructor
  · intro h
    obtain ⟨sig, hsig, hvalid⟩ := h.signature
    rw [L.sigFromStr_eq] at hsig
    refine ⟨h.key, fun hself => h.other ?_, owner, sig, h.key, hsig, h.xonly, hvalid⟩
    have howner : oa.owner = Pairing.hexOfBytes32 owner := ownerHex_eq L h.key hlower
    exact hexOfBytes32_injective (howner.symm.trans hself)
  · rintro ⟨hkey, hself, owner', sig, hkey', hsig, hxonly, hvalid⟩
    obtain rfl := some.inj (hkey.symm.trans hkey')
    refine ⟨hkey, hoa.conditions, ?_, hxonly, sig, (L.sigFromStr_eq _).trans hsig, hvalid⟩
    rintro rfl
    exact hself (ownerHex_eq L hkey hlower)

theorem exists_computed (L : Lawful C sigToString) {keys : Keys Sig Digest} (hkeys : Signs C keys)
    (hother : keys.publicKey ≠ agent) {conditions : String}
    (hconditions : NipOa.validateConditions conditions = .ok ()) :
    ∃ oa : OwnerAttestation, oa.conditions = conditions ∧ oa.Accepted ∧
      Verifies C.toCrypto oa.tag agent keys.publicKey ∧
      computeAuthTag C.toCrypto sigToString keys agent conditions =
        .ok (String.ofList oa.tag.toJson.render) := by
  obtain ⟨bs, hbs, hwritten⟩ :=
    L.sigToString_bytes (keys.signSchnorr (C.sha256 (buildPreimage agent conditions)))
  have hlower : IsLowerHex 128 (hexEncode bs) := by
    have h := isLowerHex_hexEncode bs
    rwa [L.sigFromSlice_length bs _ hbs] at h
  refine ⟨⟨Pairing.hexOfBytes32 keys.publicKey, conditions, hexEncode bs⟩, rfl, ?_, ?_, ?_⟩
  · exact ⟨isLowerHex_hexOfBytes32 _, validateConditions_ok_iff.mp hconditions, hlower⟩
  · refine ⟨L.fromHex_hex _ hkeys.xonly, validateConditions_ok_iff.mp hconditions, hother,
      hkeys.xonly, _, ?_, hkeys.valid _⟩
    rw [L.sigFromStr_eq]
    exact bind_eq_some_iff.mpr ⟨bs, hexDecode_hexEncode bs, hbs⟩
  · rw [computeAuthTag]
    dsimp only
    rw [if_neg hother, hconditions, Except.bind, hwritten]
    rfl

/-- What the SDK parses is an attestation that git accepts, but for its size. -/
theorem accepted_of_parseAuthTag {text : String}
    (h : parseAuthTag C.toCrypto text = .ok oa.tag.strings) :
    C.fromStr text = some oa.tag.toJson ∧ oa.Accepted := by
  obtain ⟨t, hread, hshape, heq⟩ := parseAuthTag_ok_iff.mp h
  have htag : oa.tag = t := by
    cases t
    simpa [AuthTag.strings, OwnerAttestation.tag] using heq
  subst htag
  exact ⟨hread, hshape.owner, hshape.conditions, hshape.sig⟩

/-- **Two readers of auth tags agree.** They accept the conditions of the documented grammar; what
an owner makes for another key is accepted by the SDK, and by git where it has at most 1024 bytes;
and of a tag in lower case both say the same, git where it has at most 1024 bytes. -/
theorem auth_tags_agree (L : Lawful C sigToString) :
    (∀ s, (NipOa.validateConditions s = .ok () ↔ ∃ clauses, IsConditions clauses s) ∧
      (validateConditions s = true ↔ ∃ clauses, IsConditions clauses s)) ∧
    (∀ (keys : Keys Sig Digest) (agent : Key) (conditions : String), Signs C keys →
      keys.publicKey ≠ agent → NipOa.validateConditions conditions = .ok () →
      ∃ text, computeAuthTag C.toCrypto sigToString keys agent conditions = .ok text ∧
        ∃ oa : OwnerAttestation, parseAuthTag C.toCrypto text = .ok oa.tag.strings ∧
          verifyAuthTag C.toCrypto text agent = .ok keys.publicKey ∧
          verifyOa C (Pairing.hexOfBytes32 agent) oa = true ∧
          ∀ env config, authTagText env config = .ok (some text) →
            text.utf8ByteSize ≤ maxAuthTag → loadAuthTag C env config = .ok (some oa)) ∧
    ∀ (text : String) (agent owner : Key),
      (∀ t : AuthTag, C.fromStr text = some t.toJson → IsLower t) →
      (verifyAuthTag C.toCrypto text agent = .ok owner ↔ ∃ oa : OwnerAttestation,
        C.fromHex oa.owner = some owner ∧ parseAuthTag C.toCrypto text = .ok oa.tag.strings ∧
          oa.owner ≠ Pairing.hexOfBytes32 agent ∧
          verifyOa C (Pairing.hexOfBytes32 agent) oa = true) ∧
      ∀ (env : Option String) (config : Except String (Option String)),
        authTagText env config = .ok (some text) → text.utf8ByteSize ≤ maxAuthTag →
        (verifyAuthTag C.toCrypto text agent = .ok owner ↔ ∃ oa : OwnerAttestation,
          C.fromHex oa.owner = some owner ∧ parseAuthTag C.toCrypto text = .ok oa.tag.strings ∧
          signingAttestation C (Pairing.hexOfBytes32 agent) env config = .ok (some oa)) := by
  refine ⟨fun s => ⟨validateConditions_ok_iff, validateConditions_iff⟩, ?_, ?_⟩
  · intro keys agent conditions hkeys hother hconditions
    obtain ⟨oa, -, hoa, hverifies, htext⟩ := exists_computed L hkeys hother hconditions
    have hread := L.fromStr_render oa.tag
    refine ⟨_, htext, oa, ?_, ?_, ((verifies_iff L hoa).mp hverifies).2.2, ?_⟩
    · exact parseAuthTag_ok_iff.mpr
        ⟨oa.tag, hread, ⟨hoa.owner, hoa.conditions, hoa.sig⟩, rfl⟩
    · exact verifyAuthTag_ok_iff.mpr ⟨oa.tag, hread, hverifies⟩
    · intro env config hconfigured hsize
      rw [loadAuthTag_ok_iff hconfigured]
      exact parseAuthTagText_ok_iff.mpr ⟨hsize, hread, hoa⟩
  · intro text agent owner hlower
    have hiff : verifyAuthTag C.toCrypto text agent = .ok owner ↔ ∃ oa : OwnerAttestation,
        C.fromHex oa.owner = some owner ∧ parseAuthTag C.toCrypto text = .ok oa.tag.strings ∧
          oa.owner ≠ Pairing.hexOfBytes32 agent ∧
          verifyOa C (Pairing.hexOfBytes32 agent) oa = true := by
      constructor
      · intro h
        obtain ⟨t, hread, hverifies⟩ := verifyAuthTag_ok_iff.mp h
        obtain ⟨hshape, -⟩ := wellFormed_of_verifies L hverifies (hlower t hread)
        let oa : OwnerAttestation := ⟨t.ownerHex, t.conditions, t.sigHex⟩
        have hoa : oa.Accepted := ⟨hshape.owner, hshape.conditions, hshape.sig⟩
        obtain ⟨hkey, hself, hvalid⟩ := (verifies_iff L hoa).mp hverifies
        exact ⟨oa, hkey, parseAuthTag_ok_iff.mpr ⟨t, hread, hshape, rfl⟩, hself, hvalid⟩
      · rintro ⟨oa, hkey, hparsed, hself, hvalid⟩
        obtain ⟨hread, hoa⟩ := accepted_of_parseAuthTag hparsed
        exact verifyAuthTag_ok_iff.mpr
          ⟨oa.tag, hread, (verifies_iff L hoa).mpr ⟨hkey, hself, hvalid⟩⟩
    refine ⟨hiff, fun env config hconfigured hsize => hiff.trans (exists_congr fun oa => ?_)⟩
    rw [signingAttestation_ok_iff hconfigured]
    constructor
    · rintro ⟨hkey, hparsed, hself, hvalid⟩
      obtain ⟨hread, hoa⟩ := accepted_of_parseAuthTag hparsed
      exact ⟨hkey, hparsed, parseAuthTagText_ok_iff.mpr ⟨hsize, hread, hoa⟩, by rw [hkey]; rfl,
        hself, hvalid⟩
    · rintro ⟨hkey, hparsed, -, -, hself, hvalid⟩
      exact ⟨hkey, hparsed, hself, hvalid⟩

/-! ### A tag that is too long -/

/-- A reader of compact texts, and one signature that is valid for everything. -/
def demoCrypto : Crypto (Vector UInt8 64) (List UInt8) where
  fromStr s := (Json.readBytes (utf8 s)).bind fun p => if p.2 = [] then some p.1 else none
  fromHex := Pairing.bytes32FromHex
  xonly _ := true
  sigFromStr s := (hexDecode s).bind fun bs =>
    if h : bs.length = 64 then some ⟨bs.toArray, h⟩ else none
  sha256 := utf8
  verifySchnorr sig _ _ := decide (sig = Vector.replicate 64 7)
  sigFromSlice bs := if h : bs.length = 64 then some ⟨bs.toArray, h⟩ else none
  sha256Bytes := id
  jsonError := id
  keyError := id
  debug := id

def demoText (sig : Vector UInt8 64) : String := hexEncode sig.toList

def demoKeys : Keys (Vector UInt8 64) (List UInt8) :=
  ⟨Vector.replicate 32 1, fun _ => Vector.replicate 64 7⟩

def demoAgent : Key := Vector.replicate 32 2

theorem demoCrypto_lawful : Lawful demoCrypto demoText where
  fromStr_render t := by
    have hread : Json.readBytes (utf8 (String.ofList t.toJson.render)) = some (t.toJson, []) :=
      Json.readBytes_toBytes t.toJson
    dsimp only [demoCrypto]
    rw [hread]
    rfl
  fromHex_bytes s k h := by
    obtain ⟨bs, hbs, h⟩ := bind_eq_some_iff.mp h
    split at h
    · cases h
      exact hbs
    · cases h
  fromHex_hex k _ := Pairing.bytes32FromHex_hexOfBytes32 k
  sigFromStr_eq _ := rfl
  sigFromSlice_length bs sig h := by
    rw [demoCrypto] at h
    dsimp only at h
    split at h
    · next hlength => exact hlength
    · cases h
  sigToString_bytes sig := ⟨sig.toList, dif_pos (by simp), rfl⟩

theorem demoKeys_signs : Signs demoCrypto demoKeys where
  xonly := rfl
  valid m := by
    change decide (demoKeys.signSchnorr m = Vector.replicate 64 7) = true
    exact decide_eq_true rfl

def demoTag (conditions : String) : String :=
  ((computeAuthTag demoCrypto.toCrypto demoText demoKeys demoAgent conditions).toOption).getD ""

/-- What an owner makes without conditions is accepted by both. -/
theorem auth_tags_agree_demo :
    verifyAuthTag demoCrypto.toCrypto (demoTag "") demoAgent = .ok demoKeys.publicKey ∧
    ∃ oa, loadAuthTag demoCrypto (some (demoTag "")) (.ok none) = .ok (some oa) ∧
      verifyOa demoCrypto (Pairing.hexOfBytes32 demoAgent) oa = true := by
  obtain ⟨text, htext, oa, -, hverify, hvalid, hload⟩ := (auth_tags_agree demoCrypto_lawful).2.1
    demoKeys demoAgent "" demoKeys_signs (by decide +kernel) (by decide +kernel)
  have hsame : demoTag "" = text := by
    rw [demoTag, htext]
    rfl
  rw [hsame]
  refine ⟨hverify, oa, hload _ _ ?_ ?_, hvalid⟩
  · rw [← hsame]
    decide +kernel
  · rw [← hsame]
    decide +kernel

theorem length_replicate_clause (c : Clause) (n : Nat) :
    n < (conditionsText (List.replicate (n + 1) c)).toList.length := by
  have hclause := List.length_pos_iff.mpr (notMem_text c).2.1
  have hrest : (List.replicate n c.text.toList).flatMap (fun m => '&' :: m) =
      (List.replicate n ('&' :: c.text.toList)).flatten := by
    rw [List.flatMap, List.map_replicate]
  rw [conditionsText, String.toList_ofList, List.map_replicate, List.replicate_succ,
    intercalate_cons_eq_flatMap, List.length_append, hrest, List.length_flatten,
    List.map_replicate, List.sum_replicate, smul_eq_mul, List.length_cons, Nat.mul_add, Nat.mul_one]
  omega

/-- As many clauses as make a tag too long. -/
def longConditions : String := conditionsText (List.replicate 1025 (.kind 1))

theorem length_conditions_lt (t : AuthTag) :
    t.conditions.toList.length < (String.ofList t.toJson.render).utf8ByteSize := by
  have hescape := Json.length_le_flatMap_escapeChar t.conditions.toList
  have hbytes := length_le_utf8Length t.toJson.render
  have hrender : (t.conditions.toList.flatMap Json.escapeChar).length < t.toJson.render.length := by
    simp [AuthTag.toJson, Json.render, Json.renderElems, Json.renderStr]
    omega
  rw [utf8ByteSize_eq, String.toList_ofList]
  omega

/-- It is verified by the SDK, and git does not take it. -/
theorem longConditions_rejected : NipOa.validateConditions longConditions = .ok () ∧
    verifyAuthTag demoCrypto.toCrypto (demoTag longConditions) demoAgent =
      .ok demoKeys.publicKey ∧
    loadAuthTag demoCrypto (some (demoTag longConditions)) (.ok none) =
      .error "auth tag exceeds 1024-byte size limit" := by
  have hconditions : NipOa.validateConditions longConditions = .ok () := by
    refine validateConditions_ok_iff.mpr ⟨List.replicate 1025 (.kind 1), fun c hc => ?_, rfl⟩
    rw [List.eq_of_mem_replicate hc]
    exact Nat.le_of_ble_eq_true rfl
  obtain ⟨oa, hoa, -, hverifies, htext⟩ := exists_computed demoCrypto_lawful demoKeys_signs
    (show demoKeys.publicKey ≠ demoAgent by decide +kernel) hconditions
  have hread := demoCrypto_lawful.fromStr_render oa.tag
  have htag : demoTag longConditions = String.ofList oa.tag.toJson.render := by
    rw [demoTag, htext]
    rfl
  have hlong : (String.ofList oa.tag.toJson.render).utf8ByteSize > maxAuthTag := by
    have hlength := length_conditions_lt oa.tag
    have hclauses : 1024 < oa.tag.conditions.toList.length := by
      rw [OwnerAttestation.tag, hoa]
      exact length_replicate_clause (.kind 1) 1024
    exact Nat.lt_trans hclauses hlength
  have hne : String.ofList oa.tag.toJson.render ≠ "" := by
    intro h
    rw [h] at hlong
    exact absurd hlong (by decide)
  have hconfigured : authTagText (some (String.ofList oa.tag.toJson.render)) (.ok none) =
      .ok (some (String.ofList oa.tag.toJson.render)) := by
    rw [authTagText, filter_some, if_pos (decide_eq_true hne)]
  rw [htag]
  refine ⟨hconditions, verifyAuthTag_ok_iff.mpr ⟨oa.tag, hread, hverifies⟩, ?_⟩
  rw [loadAuthTag_eq hconfigured, parseAuthTagText, if_pos hlong]
  rfl

end Buzz.GitSign
