import Buzz.EvmAuth.Address

/-!
# Sign-In with Ethereum

A message names the domain that asks for it, the account that signs it, a nonce and resources. It is
parsed line by line; its signature is checked by recovering the account, or by a remote verifier
that also knows smart accounts.

Elliptic curves, Keccak and the reading of timestamps are those of their libraries, and the remote
verifier asks an Ethereum node: parameters here. Times are nanoseconds since the Unix epoch.
-/

namespace Buzz.EvmAuth

structure Platform (Sig VerifyingKey : Type) where
  keccak256 : List UInt8 → Word
  /-- `DateTime::parse_from_rfc3339`. -/
  parseRfc3339 : String → Option Int
  debug : String → String
  sigFromSlice : List UInt8 → Except String Sig
  normalizeS : Sig → Option Sig
  recoverFromPrehash : Word → Sig → Bool → Except String VerifyingKey
  point : VerifyingKey → List UInt8
  /-- `RpcSignatureVerifier::verify_personal_sign`, of a verifier with this validator. -/
  verifyPersonalSign : Option EvmAddress → EvmAddress → String → String → Except EvmAuthError Bool

/-! ### Messages -/

structure SiweMessage where
  domain : String
  address : EvmAddress
  statement : Option String
  uri : String
  version : Nat
  chainId : Nat
  nonce : String
  issuedAt : Int
  expirationTime : Option Int
  notBefore : Option Int
  requestId : Option String
  resources : List String

structure SiweRequirements where
  domain : String
  chainId : Option Nat

def headerSuffix : String := " wants you to sign in with your Ethereum account:"

/-- `DEFAULT_LEEWAY_SECS`, in nanoseconds. -/
def defaultLeeway : Int := 300 * 10 ^ 9

/-- `str::parse::<u8>`. -/
def parseU8 (s : String) : Option Nat := (parseU64 s).filter (· < 256)

variable {Sig VerifyingKey : Type} (P : Platform Sig VerifyingKey)

/-- The statement: everything up to the next blank line. -/
def takeStatement : String → List String → String × List String
  | statement, [] => (statement, [])
  | statement, line :: lines =>
    if line.isEmpty then (statement, lines)
    else takeStatement ((if statement.isEmpty then statement else statement ++ "\n") ++ line) lines

def takeField (pre : String) : List String → Except EvmAuthError (String × List String)
  | [] => .error (.invalidMessage ("expected `" ++ pre ++ "` line"))
  | line :: lines =>
    match stripPrefix line pre with
    | some value => .ok (value, lines)
    | none => .error (.invalidMessage ("expected `" ++ pre ++ "` line"))

def parseTime (value : String) : Except EvmAuthError Int :=
  match P.parseRfc3339 value with
  | some time => .ok time
  | none => .error (.invalidMessage ("bad timestamp: " ++ P.debug value))

/-- The optional lines at the end. -/
def takeOptional (message : SiweMessage) : List String → Except EvmAuthError SiweMessage
  | [] => .ok message
  | line :: lines =>
    match stripPrefix line "Expiration Time: " with
    | some value => (parseTime P value).bind fun time =>
        takeOptional { message with expirationTime := some time } lines
    | none =>
      match stripPrefix line "Not Before: " with
      | some value => (parseTime P value).bind fun time =>
          takeOptional { message with notBefore := some time } lines
      | none =>
        match stripPrefix line "Request ID: " with
        | some value => takeOptional { message with requestId := some value } lines
        | none =>
          if line = "Resources:" then takeOptional message lines
          else
            match stripPrefix line "- " with
            | some value =>
              takeOptional { message with resources := message.resources ++ [value] } lines
            | none => .error (.invalidMessage ("unexpected line: " ++ P.debug line))

def parseFields (domain : String) (address : EvmAddress) (statement : Option String)
    (lines : List String) : Except EvmAuthError SiweMessage :=
  (takeField "URI: " lines).bind fun (uri, lines) =>
  (takeField "Version: " lines).bind fun (versionText, lines) =>
  match parseU8 versionText with
  | none => .error (.invalidMessage "bad version")
  | some version =>
    if version ≠ 1 then .error (.invalidMessage ("unsupported version " ++ toString version))
    else
      (takeField "Chain ID: " lines).bind fun (chainText, lines) =>
      match parseU64 chainText with
      | none => .error (.invalidMessage "bad chain id")
      | some chainId =>
        (takeField "Nonce: " lines).bind fun (nonce, lines) =>
        if nonce.utf8ByteSize < 8 || !nonce.toList.all isAsciiAlphanumeric then
          .error (.invalidMessage "bad nonce")
        else
          (takeField "Issued At: " lines).bind fun (issuedText, lines) =>
          (parseTime P issuedText).bind fun issuedAt =>
          takeOptional P ⟨domain, address, statement, uri, version, chainId, nonce, issuedAt, none,
            none, none, []⟩ lines

def SiweMessage.parse (raw : String) : Except EvmAuthError SiweMessage :=
  match (raw.toList.splitOn '\n').map String.ofList with
  | [] => .error (.invalidMessage "empty message")
  | header :: lines =>
    match stripSuffix header headerSuffix with
    | none => .error (.invalidMessage "bad header line")
    | some domain =>
      if domain.isEmpty then .error (.invalidMessage "empty domain")
      else
        match lines with
        | [] => .error (.invalidMessage "missing address line")
        | line :: lines =>
          (EvmAddress.parse line).bind fun address =>
          match lines with
          | "" :: lines =>
            let (statement, lines) := takeStatement "" lines
            parseFields P domain address (if statement.isEmpty then none else some statement) lines
          | _ => .error (.invalidMessage "expected blank line after address")

/-! ### Messages that are well formed -/

variable {P} in
theorem takeField_append (pre value : String) (lines : List String) :
    takeField pre ((pre ++ value) :: lines) = .ok (value, lines) := by
  rw [takeField, stripPrefix_append]

section Lines

variable (message : SiweMessage) (value : String) (lines : List String)

theorem takeOptional_expirationTime :
    takeOptional P message (("Expiration Time: " ++ value) :: lines) =
      (parseTime P value).bind fun time =>
        takeOptional P { message with expirationTime := some time } lines := by
  rw [takeOptional, stripPrefix_append]

theorem takeOptional_notBefore :
    takeOptional P message (("Not Before: " ++ value) :: lines) =
      (parseTime P value).bind fun time =>
        takeOptional P { message with notBefore := some time } lines := by
  have hexpiration : stripPrefix ("Not Before: " ++ value) "Expiration Time: " = none :=
    stripPrefix_append_eq_none (a := 'N') (b := 'E') (by decide) (by decide) (by decide)
  rw [takeOptional, hexpiration, stripPrefix_append]

theorem takeOptional_requestId :
    takeOptional P message (("Request ID: " ++ value) :: lines) =
      takeOptional P { message with requestId := some value } lines := by
  have hexpiration : stripPrefix ("Request ID: " ++ value) "Expiration Time: " = none :=
    stripPrefix_append_eq_none (a := 'R') (b := 'E') (by decide) (by decide) (by decide)
  have hbefore : stripPrefix ("Request ID: " ++ value) "Not Before: " = none :=
    stripPrefix_append_eq_none (a := 'R') (b := 'N') (by decide) (by decide) (by decide)
  rw [takeOptional, hexpiration, hbefore, stripPrefix_append]

theorem takeOptional_marker :
    takeOptional P message ("Resources:" :: lines) = takeOptional P message lines := by
  have hexpiration : stripPrefix "Resources:" "Expiration Time: " = none := by decide
  have hbefore : stripPrefix "Resources:" "Not Before: " = none := by decide
  have hrequest : stripPrefix "Resources:" "Request ID: " = none := by decide
  rw [takeOptional, hexpiration, hbefore, hrequest]
  exact if_pos rfl

theorem takeOptional_entry :
    takeOptional P message (("- " ++ value) :: lines) =
      takeOptional P { message with resources := message.resources ++ [value] } lines := by
  have hexpiration : stripPrefix ("- " ++ value) "Expiration Time: " = none :=
    stripPrefix_append_eq_none (a := '-') (b := 'E') (by decide) (by decide) (by decide)
  have hbefore : stripPrefix ("- " ++ value) "Not Before: " = none :=
    stripPrefix_append_eq_none (a := '-') (b := 'N') (by decide) (by decide) (by decide)
  have hrequest : stripPrefix ("- " ++ value) "Request ID: " = none :=
    stripPrefix_append_eq_none (a := '-') (b := 'R') (by decide) (by decide) (by decide)
  have hline : "- " ++ value ≠ "Resources:" := by
    intro heq
    have hstrip := stripPrefix_append "- " value
    rw [heq] at hstrip
    cases hstrip
  simp [takeOptional, hexpiration, hbefore, hrequest, hline, stripPrefix_append]

theorem takeOptional_resource :
    takeOptional P message ["Resources:", "- " ++ value] =
      .ok { message with resources := message.resources ++ [value] } := by
  rw [takeOptional_marker, takeOptional_entry, takeOptional]

end Lines

variable {account : EvmAddress} {lines : List String}

theorem parseFields_of_lines {domain uri version chain nonce issued : String}
    {statement : Option String} {chainId : Nat} {issuedAt : Int}
    (hversion : parseU8 version = some 1) (hchain : parseU64 chain = some chainId)
    (hlength : 8 ≤ nonce.utf8ByteSize) (hnonce : nonce.toList.all isAsciiAlphanumeric = true)
    (hissued : P.parseRfc3339 issued = some issuedAt) :
    parseFields P domain account statement
      (("URI: " ++ uri) :: ("Version: " ++ version) :: ("Chain ID: " ++ chain) ::
        ("Nonce: " ++ nonce) :: ("Issued At: " ++ issued) :: lines) =
      takeOptional P ⟨domain, account, statement, uri, 1, chainId, nonce, issuedAt, none, none, none,
        []⟩ lines := by
  have hgood : ¬(nonce.utf8ByteSize < 8 || !nonce.toList.all isAsciiAlphanumeric) = true := by
    rw [hnonce]
    simpa using hlength
  rw [parseFields, takeField_append, Except.bind]
  dsimp only
  rw [takeField_append, Except.bind]
  rw [hversion]
  dsimp only
  rw [if_neg (by decide), takeField_append, Except.bind]
  rw [hchain]
  dsimp only
  rw [takeField_append, Except.bind]
  rw [if_neg hgood, takeField_append, Except.bind]
  rw [parseTime, hissued, Except.bind]

def SiweMessage.validateWindow (message : SiweMessage) (now : Int) : Except EvmAuthError Unit :=
  if message.expirationTime.any fun exp => exp + defaultLeeway < now then .error .expired
  else if message.notBefore.any fun nbf => now + defaultLeeway < nbf then .error .notYetValid
  else if now + defaultLeeway < message.issuedAt then .error .notYetValid
  else .ok ()

/-! ### Signatures -/

def personalSignDigest (message : List UInt8) : Word :=
  P.keccak256
    (utf8 ("\x19Ethereum Signed Message:\n" ++ toString message.length) ++ message)

/-- `parse_signature`: r, s and v. -/
def parseSignature (signatureHex : String) : Except EvmAuthError (Vector UInt8 65) :=
  match hexDecode ((stripPrefix signatureHex "0x").getD signatureHex) with
  | none => .error (.invalidSignature "not hex")
  | some bs =>
    if h : bs.length = 65 then .ok ⟨bs.toArray, by simp [h]⟩
    else .error (.invalidSignature "expected 65 bytes r‖s‖v")

/-- `EvmAddress::from_verifying_key`: the last twenty bytes of the hash of the point. -/
def fromVerifyingKey (key : VerifyingKey) : EvmAddress :=
  let hash := P.keccak256 (P.point key)
  ⟨⟨(hash.toList.drop 12).toArray, by simp⟩⟩

/-- The parity that the last byte of a signature stands for. -/
def yParity (v : UInt8) : Option Bool :=
  if v = 27 then some false
  else if v = 28 then some true
  else if v = 0 then some false
  else if v = 1 then some true
  else none

instance neZeroSignature : NeZero 65 := ⟨by decide⟩

/-- `recover_address`: `ecrecover`. The parity flips where the signature is normalized. -/
def recoverAddress (digest : Word) (signature : Vector UInt8 65) :
    Except EvmAuthError EvmAddress :=
  match yParity signature.back with
  | none => .error (.invalidSignature ("bad recovery id " ++ toString signature.back.toNat))
  | some parity =>
    match P.sigFromSlice (signature.toList.take 64) with
    | .error e => .error (.invalidSignature e)
    | .ok sig =>
      let (sig, parity) :=
        match P.normalizeS sig with
        | some normalized => (normalized, !parity)
        | none => (sig, parity)
      match P.recoverFromPrehash digest sig parity with
      | .error e => .error (.invalidSignature e)
      | .ok key => .ok (fromVerifyingKey P key)

def recoverSiweSigner (rawMessage signatureHex : String) : Except EvmAuthError EvmAddress :=
  (parseSignature signatureHex).bind fun sig =>
    recoverAddress P (personalSignDigest P (utf8 rawMessage)) sig

/-! ### Verification -/

/-- The checks of the domain and of the chain. -/
def SiweMessage.checkRequirements (message : SiweMessage) (requirements : SiweRequirements) :
    Except EvmAuthError Unit :=
  if message.domain ≠ requirements.domain then
    .error (.domainMismatch requirements.domain message.domain)
  else
    match requirements.chainId with
    | none => .ok ()
    | some expected =>
      if message.chainId ≠ expected then .error (.chainIdMismatch expected message.chainId)
      else .ok ()

/-- `verify`, exported as `verify_siwe`. -/
def verify (rawMessage signatureHex : String) (requirements : SiweRequirements) (now : Int) :
    Except EvmAuthError SiweMessage :=
  (SiweMessage.parse P rawMessage).bind fun message =>
  (message.checkRequirements requirements).bind fun _ =>
  (recoverSiweSigner P rawMessage signatureHex).bind fun recovered =>
  if recovered ≠ message.address then
    .error (.signerMismatch message.address.toHex recovered.toHex)
  else (message.validateWindow now).bind fun _ => .ok message

def verifySiweSmart (rawMessage signatureHex : String) (requirements : SiweRequirements) (now : Int)
    (validator : Option EvmAddress) : Except EvmAuthError SiweMessage :=
  (SiweMessage.parse P rawMessage).bind fun message =>
  (message.checkRequirements requirements).bind fun _ =>
  (P.verifyPersonalSign validator message.address rawMessage signatureHex).bind fun ok =>
  if !ok then .error (.signerMismatch message.address.toHex "")
  else (message.validateWindow now).bind fun _ => .ok message

end Buzz.EvmAuth
