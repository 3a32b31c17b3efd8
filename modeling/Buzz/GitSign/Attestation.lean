import Buzz.Sdk.NipOa

/-!
# Owner attestations of git objects

Who signs git objects with the key of an agent may configure an `auth` tag. The signer reads it, and
checks it with code of its own before it is made part of the signature.
-/

namespace Buzz.GitSign

open NipOa

/-- The libraries, and what they say of errors. -/
structure Crypto (Sig Digest : Type) extends NipOa.Crypto Sig Digest where
  sigFromSlice : List UInt8 → Option Sig
  sha256Bytes : List UInt8 → Digest
  /-- What `serde_json::from_str` says of a text that is not JSON. -/
  jsonError : String → String
  /-- What `PublicKey::from_hex` says of a text that is not a key. -/
  keyError : String → String
  debug : String → String

/-- What an auth tag carries. -/
structure OwnerAttestation where
  owner : String
  conditions : String
  sig : String
  deriving DecidableEq

/-! ### Conditions -/

/-- `parse_decimal_u32`. A text of more than one byte that starts with a zero has more than one
character. -/
def parseDecimalU32 (s : String) : Option Nat :=
  if s.isEmpty then none
  else if startsWith s "+" ∨ startsWith s "-" then none
  else if s.toList.length > 1 ∧ startsWith s "0" then none
  else if !s.toList.all Char.isDigit then none
  else parseU32 s

def validClause (clause : String) : Bool :=
  match stripPrefix clause "kind=" with
  | some val => (parseDecimalU32 val).any fun n => decide (n ≤ 65535)
  | none =>
    match stripPrefix clause "created_at<" with
    | some val => (parseDecimalU32 val).isSome
    | none =>
      match stripPrefix clause "created_at>" with
      | some val => (parseDecimalU32 val).isSome
      | none => false

def validClauses : List String → Bool
  | [] => true
  | clause :: clauses =>
    if clause.isEmpty then false
    else if !validClause clause then false
    else validClauses clauses

def validateConditions (conditions : String) : Bool :=
  if conditions.isEmpty then true
  else validClauses ((conditions.toList.splitOn '&').map String.ofList)

/-! ### The check accepts the grammar -/

variable {s : String}

theorem startsWith_singleton {c : Char} :
    startsWith s (String.ofList [c]) = true ↔ s.toList.head? = some c := by
  rw [startsWith, List.isPrefixOf_iff_prefix, String.toList_ofList]
  cases s.toList with
  | nil => simp
  | cons d ds => simp [eq_comm]

theorem parseDecimalU32_eq_some_iff {n : Nat} :
    parseDecimalU32 s = some n ↔ n < 2 ^ 32 ∧ s = toString n := by
  have hplus : startsWith s "+" = true ↔ s.toList.head? = some '+' := startsWith_singleton
  have hminus : startsWith s "-" = true ↔ s.toList.head? = some '-' := startsWith_singleton
  have hzero : startsWith s "0" = true ↔ s.toList.head? = some '0' := startsWith_singleton
  simp only [parseDecimalU32, hplus, hminus, hzero]
  constructor
  · intro h
    split at h
    · cases h
    next hne =>
    split at h
    · cases h
    next hsign =>
    split at h
    · cases h
    next hlead =>
    split at h
    · cases h
    next hdigits =>
    rw [not_or] at hsign
    have hdecimal : IsDecimal s.toList := by
      refine ⟨fun hnil => hne (isEmpty_iff.mpr hnil), by simpa using hdigits, fun hhead => ?_⟩
      have hpos := List.length_pos_iff.mpr fun hnil => hne (isEmpty_iff.mpr hnil)
      have hlength : ¬1 < s.toList.length := fun hlt => hlead ⟨hlt, hhead⟩
      omega
    obtain ⟨hu64, hlt⟩ := Option.filter_eq_some_iff.mp h
    rw [parseU64, if_neg hsign.1] at hu64
    split at hu64
    · cases hu64
    split at hu64
    · cases hu64
      refine ⟨of_decide_eq_true hlt, String.toList_inj.mp ?_⟩
      rw [Nat.toString_eq_repr, Nat.toList_repr, hdecimal.toDigits_ofDigitChars]
    · cases hu64
  · rintro ⟨hn, rfl⟩
    have hdecimal : IsDecimal (toString n).toList := by
      rw [Nat.toString_eq_repr, Nat.toList_repr]
      exact isDecimal_toDigits n
    have hsign : ∀ c : Char, c.isDigit = false → (toString n).toList.head? ≠ some c := by
      intro c hc hhead
      rw [hdecimal.digits c (List.mem_of_mem_head? hhead)] at hc
      cases hc
    have hempty : ¬(toString n).isEmpty = true := fun h => hdecimal.ne_nil (isEmpty_iff.mp h)
    have hlead : ¬((toString n).toList.length > 1 ∧ (toString n).toList.head? = some '0') := by
      rintro ⟨hlong, hhead⟩
      have hone := hdecimal.zero hhead
      omega
    have hall : ¬(!(toString n).toList.all Char.isDigit) = true := by
      simpa using hdecimal.digits
    rw [if_neg hempty, if_neg (not_or.mpr ⟨hsign '+' (by decide), hsign '-' (by decide)⟩),
      if_neg hlead, if_neg hall, parseU32, Nat.toString_eq_repr,
      parseU64_repr (Nat.lt_trans hn (by decide)), Option.filter_some,
      if_pos (decide_eq_true hn)]

theorem any_parseDecimalU32 {label : String} {max : Nat} (hmax : max < 2 ^ 32) :
    ((parseDecimalU32 s).any fun n => decide (n ≤ max)) = true ↔
      validateCanonicalDecimal s 0 max label = .ok () := by
  rw [validateCanonicalDecimal_ok_iff (Nat.lt_trans hmax (by decide)), Option.any_eq_true]
  constructor
  · rintro ⟨n, hn, hle⟩
    exact ⟨n, of_decide_eq_true hle, (parseDecimalU32_eq_some_iff.mp hn).2⟩
  · rintro ⟨n, hle, hs⟩
    have hn := parseDecimalU32_eq_some_iff.mpr ⟨Nat.lt_of_le_of_lt hle hmax, hs⟩
    exact ⟨n, hn, decide_eq_true hle⟩

theorem isSome_parseDecimalU32 {label : String} : (parseDecimalU32 s).isSome = true ↔
    validateCanonicalDecimal s 0 4294967295 label = .ok () := by
  rw [← any_parseDecimalU32 (by decide)]
  cases hn : parseDecimalU32 s with
  | none => simp
  | some n =>
    have hlt := (parseDecimalU32_eq_some_iff.mp hn).1
    simp
    omega

theorem validClause_iff : validClause s = true ↔ validateClause s = .ok () := by
  rw [validClause, validateClause]
  cases stripPrefix s "kind=" with
  | some val => exact any_parseDecimalU32 (by decide)
  | none =>
    cases stripPrefix s "created_at<" with
    | some val => exact isSome_parseDecimalU32
    | none =>
      cases stripPrefix s "created_at>" with
      | some val => exact isSome_parseDecimalU32
      | none => simp

theorem validClauses_iff {ss : List String} :
    validClauses ss = true ↔ validateClauses ss = .ok () := by
  induction ss with
  | nil => exact iff_of_true rfl rfl
  | cons s ss ih =>
    rw [validClauses, validateClauses]
    split
    · simp
    · rw [bind_ok_iff, ← ih]
      cases hs : validClause s with
      | false =>
        have hclause := mt validClause_iff.mpr (by rw [hs]; exact Bool.false_ne_true)
        simp [hclause]
      | true => simp [validClause_iff.mp hs]

/-- **The check of the conditions** accepts the documented grammar. -/
theorem validateConditions_iff :
    validateConditions s = true ↔ ∃ clauses, IsConditions clauses s := by
  rw [validateConditions]
  split
  · next hempty => exact iff_of_true rfl ⟨[], isConditions_nil_of_isEmpty hempty⟩
  · next hne => rw [validClauses_iff, validateClauses_splitOn_iff hne]

/-! ### The tag is read -/

/-- `is_ascii_hexdigit`, and not `is_ascii_uppercase`. -/
def isLowercaseHexdigit (c : Char) : Bool := isAsciiHexdigit c && !c.isUpper

/-- A text of this many bytes, which are hexadecimal digits in lower case. -/
def isHexField (val : String) (expectedLen : Nat) : Bool :=
  decide (val.utf8ByteSize = expectedLen) && val.toList.all isLowercaseHexdigit

def maxAuthTag : Nat := 1024

variable {Sig Digest : Type} (C : Crypto Sig Digest)

def stringAt (element : Nat) : Json → Except String String
  | .str s => .ok s
  | _ => .error ("BUZZ_AUTH_TAG[" ++ toString element ++ "] must be a string")

def parseAuthTagText (jsonStr : String) : Except String OwnerAttestation :=
  if jsonStr.utf8ByteSize > maxAuthTag then
    .error ("auth tag exceeds " ++ toString maxAuthTag ++ "-byte size limit")
  else
    match C.fromStr jsonStr with
    | none => .error ("BUZZ_AUTH_TAG is not valid JSON: " ++ C.jsonError jsonStr)
    | some (.arr [e0, e1, e2, e3]) =>
      if e0.asStr ≠ some "auth" then .error "BUZZ_AUTH_TAG[0] must be \"auth\""
      else
        (stringAt 1 e1).bind fun owner =>
        (stringAt 2 e2).bind fun conditions =>
        (stringAt 3 e3).bind fun sig =>
        if !validateConditions conditions then
          .error "BUZZ_AUTH_TAG conditions contain invalid characters"
        else if !isHexField owner 64 then
          .error "BUZZ_AUTH_TAG owner must be 64 lowercase hex chars"
        else if !isHexField sig 128 then
          .error "BUZZ_AUTH_TAG signature must be 128 lowercase hex chars"
        else .ok ⟨owner, conditions, sig⟩
    | some (.arr _) => .error "BUZZ_AUTH_TAG must have exactly 4 elements"
    | some _ => .error "BUZZ_AUTH_TAG must be a JSON array"

/-- The text that is configured: that of the environment variable, or of the configuration. -/
def authTagText (env : Option String) (config : Except String (Option String)) :
    Except String (Option String) :=
  match env.filter (· ≠ "") with
  | some val => .ok (some val)
  | none => config.mapError fun e => "failed to read nostr.authtag: " ++ e

def loadAuthTag (env : Option String) (config : Except String (Option String)) :
    Except String (Option OwnerAttestation) :=
  (authTagText env config).bind fun
    | none => .ok none
    | some text => (parseAuthTagText C text).map some

def verifyOa (agentPkHex : String) (oa : OwnerAttestation) : Bool :=
  match C.fromHex oa.owner with
  | none => false
  | some owner =>
    let preimage := "nostr:agent-auth:" ++ agentPkHex ++ ":" ++ oa.conditions
    match (hexDecode oa.sig).bind C.sigFromSlice with
    | none => false
    | some sig => C.xonly owner && C.verifySchnorr sig (C.sha256 preimage) owner

/-- The attestation of the configuration, as `sign` checks it before its conditions are enforced. -/
def signingAttestation (pkHex : String) (env : Option String)
    (config : Except String (Option String)) : Except String (Option OwnerAttestation) :=
  (loadAuthTag C env config).bind fun
    | none => .ok none
    | some oa =>
      if (C.fromHex oa.owner).isNone then
        .error "auth tag owner (oa[0]) is not a valid BIP-340 public key"
      else if oa.owner = pkHex then
        .error "auth tag owner (oa[0]) must not equal signing key (self-attestation)"
      else if !verifyOa C pkHex oa then
        .error ("auth tag owner signature (oa[2]) verification failed — " ++
          "the configured BUZZ_AUTH_TAG is invalid or stale")
      else .ok (some oa)

/-! ### What is read -/

/-- What both parsers accept. -/
structure OwnerAttestation.Accepted (oa : OwnerAttestation) : Prop where
  /-- The owner's key has 32 bytes. -/
  owner : IsLowerHex 64 oa.owner
  conditions : ∃ clauses, IsConditions clauses oa.conditions
  /-- The signature has 64 bytes. -/
  sig : IsLowerHex 128 oa.sig

def OwnerAttestation.tag (oa : OwnerAttestation) : AuthTag := ⟨oa.owner, oa.conditions, oa.sig⟩

theorem isLowercaseHexdigit_eq (c : Char) : isLowercaseHexdigit c = isLowerHex c := by
  rw [Bool.eq_iff_iff, isLowerHex_iff, isLowercaseHexdigit, Bool.and_eq_true, Bool.not_eq_true',
    ← Bool.not_eq_true, isUpper_iff]
  simp [isAsciiHexdigit, Char.isHexDigit, Char.isDigit, UInt32.le_iff_toNat_le]
  omega

theorem isHexField_iff {n : Nat} : isHexField s n = true ↔ IsLowerHex n s := by
  have hdigits : s.toList.all isLowercaseHexdigit = true ↔ ∀ c ∈ s.toList, isLowerHex c = true := by
    simp [isLowercaseHexdigit_eq]
  rw [isHexField, Bool.and_eq_true, decide_eq_true_eq, hdigits]
  constructor
  · rintro ⟨hsize, hall⟩
    have hlower : IsLowerHex s.toList.length s := ⟨rfl, hall⟩
    exact ⟨hlower.utf8ByteSize.symm.trans hsize, hall⟩
  · exact fun h => ⟨h.utf8ByteSize, h.digits⟩

theorem stringAt_ok_iff {i : Nat} {e : Json} : stringAt i e = .ok s ↔ e = .str s := by
  cases e <;> simp [stringAt]

variable {C}

/-- **What is read** is a tag of at most this size, with the fields of an attestation. -/
theorem parseAuthTagText_ok_iff {text : String} {oa : OwnerAttestation} :
    parseAuthTagText C text = .ok oa ↔ text.utf8ByteSize ≤ maxAuthTag ∧
      C.fromStr text = some oa.tag.toJson ∧ oa.Accepted := by
  rw [parseAuthTagText]
  constructor
  · intro h
    split at h
    · cases h
    next hsize =>
    refine ⟨Nat.le_of_not_lt hsize, ?_⟩
    split at h
    · cases h
    · next e0 e1 e2 e3 hjson =>
      split at h
      · cases h
      next hlabel =>
      obtain ⟨owner, h1, hrest⟩ := bind_ok_iff.mp h
      obtain ⟨conditions, h2, hrest⟩ := bind_ok_iff.mp hrest
      obtain ⟨sig, h3, hread⟩ := bind_ok_iff.mp hrest
      rw [stringAt_ok_iff] at h1 h2 h3
      split at hread
      · cases hread
      next hconditions =>
      split at hread
      · cases hread
      next howner =>
      split at hread
      · cases hread
      next hsig =>
      cases hread
      rw [Bool.not_eq_true', Bool.not_eq_false] at hconditions howner hsig
      have h0 : e0 = .str "auth" := by
        cases e0 <;> simp_all [Json.asStr]
      exact ⟨by rw [hjson, h0, h1, h2, h3]; rfl,
        ⟨isHexField_iff.mp howner, validateConditions_iff.mp hconditions, isHexField_iff.mp hsig⟩⟩
    · cases h
    · cases h
  · rintro ⟨hsize, hjson, howner, hconditions, hsig⟩
    rw [if_neg (Nat.not_lt.mpr hsize), hjson]
    dsimp only [OwnerAttestation.tag, AuthTag.toJson]
    have hlabel : ¬(Json.str "auth").asStr ≠ some "auth" := not_ne_iff.mpr rfl
    rw [if_neg hlabel, stringAt, Except.bind, stringAt, Except.bind, stringAt,
      Except.bind, validateConditions_iff.mpr hconditions, isHexField_iff.mpr howner,
      isHexField_iff.mpr hsig]
    rfl

end Buzz.GitSign
