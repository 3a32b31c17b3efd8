import Buzz.Core.Basic
import Buzz.Core.Text
import Buzz.Lib.Json

/-!
# Events of the pair relay

What the pair relay checks of an event before it looks at any of its state: the shape, the freshness,
the content, and that the id is the hash of the commitment and the signature verifies. The hash and
the signature scheme are parameters.
-/

namespace Buzz.PairRelay

/-- The bytes of an event id, or of a public key. -/
abbrev Bytes32 := List UInt8

def kindPair : Nat := 24134

/-- Freshness window in seconds, to either side. -/
def freshnessSecs : Nat := 120

structure Platform where
  sha256 : String → Bytes32
  validKey : Bytes32 → Bool
  verifySchnorr : List UInt8 → Bytes32 → Bytes32 → Bool

/-- `is_lower_hex`. -/
def isLowerHexLen (s : String) (len : Nat) : Bool :=
  s.utf8ByteSize == len && s.toList.all isLowerHex

/-- `decode_hex32`, and `decode_hex64` for 128 digits. -/
def decodeHex (len : Nat) (s : String) : Option (List UInt8) :=
  if isLowerHexLen s len then hexDecode s else none

/-! ### Content -/

/-- A character of the base64 alphabet. -/
def isBase64Byte (b : UInt8) : Bool :=
  (65 ≤ b && b ≤ 90) || (97 ≤ b && b ≤ 122) || (48 ≤ b && b ≤ 57) || b == 43 || b == 47

/-- The value of a character of the base64 alphabet. -/
def base64Value (b : UInt8) : Option UInt8 :=
  if 65 ≤ b && b ≤ 90 then some (b - 65)
  else if 97 ≤ b && b ≤ 122 then some (b - 97 + 26)
  else if 48 ≤ b && b ≤ 57 then some (b - 48 + 52)
  else if b == 43 then some 62
  else if b == 47 then some 63
  else none

/-- The loop over the bytes: the number of padding bytes, or `none` when one is misplaced. -/
def countPadding (len : Nat) : Nat → Nat → List UInt8 → Option Nat
  | _, padCount, [] => some padCount
  | i, padCount, b :: bytes =>
    if isBase64Byte b then
      if 0 < padCount then none else countPadding len (i + 1) padCount bytes
    else if b == 61 then
      if i < len - 2 then none
      else if 2 < padCount + 1 then none
      else countPadding len (i + 1) (padCount + 1) bytes
    else none

def validateNip44Content (content : String) : Except String Unit := do
  let bytes := content.toUTF8.data.toList
  let len := bytes.length
  if len = 0 then .error "content must not be empty"
  else if len % 4 ≠ 0 then .error "content is not valid base64"
  else
    match countPadding len 0 0 bytes with
    | none => .error "content is not valid base64"
    | some padCount =>
      if len / 4 * 3 - padCount < 99 then .error "content too short for NIP-44 v2"
      else
        match bytes[0]?.bind base64Value, bytes[1]?.bind base64Value with
        | some v0, some v1 =>
          if (v0 <<< 2) ||| (v1 >>> 4) ≠ 2 then
            .error "content is not NIP-44 v2 (expected 0x02 prefix)"
          else .ok ()
        | _, _ => .error "content is not valid base64"

/-! ### Events -/

/-- The keys that an event may have. -/
def allowedKeys : List String := ["id", "pubkey", "created_at", "kind", "tags", "content", "sig"]

def okOr {α : Type} (error : String) : Option α → Except String α
  | some a => .ok a
  | none => .error error

def ensure (condition : Bool) (error : String) : Except String Unit :=
  if condition then .ok () else .error error

/-- The freshness window, around a reading of the wall clock in seconds. -/
def isFresh (createdAt now : Int) : Bool := decide ((createdAt - now).natAbs ≤ freshnessSecs)

/-- `validate_event`, at a reading of the wall clock in seconds: the id, its bytes, and the `p`
tag. -/
def validateEvent (ev : Json) (now : Int) : Except String (String × Bytes32 × Bytes32) := do
  let obj ← okOr "event must be an object" ev.asObject
  ensure (obj.all fun m => allowedKeys.contains m.1) "unknown top-level field"
  let id ← okOr "missing id" ((Json.member obj "id").bind Json.asStr)
  let idBytes ← okOr "id must be 64 lowercase hex chars" (decodeHex 64 id)
  let pubkey ← okOr "missing pubkey" ((Json.member obj "pubkey").bind Json.asStr)
  ensure (isLowerHexLen pubkey 64) "pubkey must be 64 lowercase hex chars"
  ensure ((Json.member obj "kind").bind Json.asU64 == some kindPair) "kind must be 24134"
  let createdAt ← okOr "missing created_at" ((Json.member obj "created_at").bind Json.asI64)
  ensure (isFresh createdAt now) "created_at outside freshness window"
  let content ← okOr "missing content" ((Json.member obj "content").bind Json.asStr)
  validateNip44Content content
  let sig ← okOr "missing sig" ((Json.member obj "sig").bind Json.asStr)
  ensure (isLowerHexLen sig 128) "sig must be 128 lowercase hex chars"
  let tags ← okOr "missing tags" ((Json.member obj "tags").bind Json.asArray)
  ensure (tags.length == 1) "event must have exactly one p tag"
  let tag ← okOr "tag must be an array" (tags.head?.bind Json.asArray)
  ensure (tag.length == 2) "p tag must have exactly 2 elements"
  ensure (tag[0]?.bind Json.asStr == some "p") "event must have exactly one p tag"
  let pStr ← okOr "p tag value must be a string" (tag[1]?.bind Json.asStr)
  let pBytes ← okOr "p tag value must be 64 lowercase hex chars" (decodeHex 64 pStr)
  .ok (id, idBytes, pBytes)

def commitment (pubkey : String) (createdAt : Int) (kind : Nat) (tags : Json) (content : String) :
    Json :=
  .arr [.num (NumToken.ofNat 0), .str pubkey, .num (NumToken.ofInt createdAt),
    .num (NumToken.ofNat kind), tags, .str content]

/-- The text of the commitment that `verify_event_sig` hashes. -/
def commitmentText (ev : Json) : Except String String := do
  let obj ← okOr "event must be an object" ev.asObject
  let pubkey ← okOr "missing pubkey" ((Json.member obj "pubkey").bind Json.asStr)
  let createdAt ← okOr "missing created_at" ((Json.member obj "created_at").bind Json.asI64)
  let kind ← okOr "missing kind" ((Json.member obj "kind").bind Json.asU64)
  let tags ← okOr "missing tags" (Json.member obj "tags")
  let content ← okOr "missing content" ((Json.member obj "content").bind Json.asStr)
  .ok (String.ofList (commitment pubkey createdAt kind tags content).render)

def verifyEventSig (P : Platform) (ev : Json) : Except String Unit := do
  let commitmentJson ← commitmentText ev
  let obj ← okOr "event must be an object" ev.asObject
  let pubkey ← okOr "missing pubkey" ((Json.member obj "pubkey").bind Json.asStr)
  let id ← okOr "missing id" ((Json.member obj "id").bind Json.asStr)
  let sig ← okOr "missing sig" ((Json.member obj "sig").bind Json.asStr)
  let idBytes ← okOr "id must be 64 lowercase hex chars" (decodeHex 64 id)
  ensure (P.sha256 commitmentJson == idBytes) "invalid: event id mismatch"
  let pubkeyBytes ← okOr "pubkey must be 64 lowercase hex chars" (decodeHex 64 pubkey)
  ensure (P.validKey pubkeyBytes) "invalid: bad pubkey"
  let sigBytes ← okOr "sig must be 128 lowercase hex chars" (decodeHex 128 sig)
  ensure (P.verifySchnorr sigBytes idBytes pubkeyBytes) "invalid: signature verification failed"

/-! ### What the checks say -/

def createdAtOf (ev : Json) : Option Int :=
  ev.asObject.bind fun obj => (Json.member obj "created_at").bind Json.asI64

theorem okOr_eq_ok_iff {α : Type} {error : String} {x : Option α} {a : α} :
    okOr error x = .ok a ↔ x = some a := by
  cases x <;> simp [okOr]

theorem ensure_eq_ok_iff {condition : Bool} {error : String} :
    ensure condition error = .ok () ↔ condition = true := by
  cases condition <;> simp [ensure]

variable {ev : Json} {result : String × Bytes32 × Bytes32}

theorem fresh_of_validateEvent {now : Int} (h : validateEvent ev now = .ok result) :
    ∃ createdAt, createdAtOf ev = some createdAt ∧ isFresh createdAt now = true := by
  obtain ⟨obj, hobj, h⟩ := bind_eq_ok_iff.mp h
  obtain ⟨_, -, h⟩ := bind_eq_ok_iff.mp h
  obtain ⟨_, -, h⟩ := bind_eq_ok_iff.mp h
  obtain ⟨_, -, h⟩ := bind_eq_ok_iff.mp h
  obtain ⟨_, -, h⟩ := bind_eq_ok_iff.mp h
  obtain ⟨_, -, h⟩ := bind_eq_ok_iff.mp h
  obtain ⟨_, -, h⟩ := bind_eq_ok_iff.mp h
  obtain ⟨createdAt, hcreated, h⟩ := bind_eq_ok_iff.mp h
  obtain ⟨_, hfresh, _⟩ := bind_eq_ok_iff.mp h
  rw [okOr_eq_ok_iff] at hobj hcreated
  refine ⟨createdAt, ?_, ensure_eq_ok_iff.mp hfresh⟩
  simp [createdAtOf, hobj, hcreated]

theorem createdAt_of_commitmentText {ev' : Json} {text : String}
    (h : commitmentText ev = .ok text) (h' : commitmentText ev' = .ok text) :
    createdAtOf ev = createdAtOf ev' := by
  have hone : ∀ ev : Json, commitmentText ev = .ok text → ∃ pubkey createdAt kind tags content,
      createdAtOf ev = some createdAt ∧
        text = String.ofList (commitment pubkey createdAt kind tags content).render := by
    intro ev h
    obtain ⟨obj, hobj, h⟩ := bind_eq_ok_iff.mp h
    obtain ⟨pubkey, -, h⟩ := bind_eq_ok_iff.mp h
    obtain ⟨createdAt, hcreated, h⟩ := bind_eq_ok_iff.mp h
    obtain ⟨kind, -, h⟩ := bind_eq_ok_iff.mp h
    obtain ⟨tags, -, h⟩ := bind_eq_ok_iff.mp h
    obtain ⟨content, -, h⟩ := bind_eq_ok_iff.mp h
    rw [okOr_eq_ok_iff] at hobj hcreated
    refine ⟨pubkey, createdAt, kind, tags, content, ?_, (Except.ok.inj h).symm⟩
    simp [createdAtOf, hobj, hcreated]
  obtain ⟨pubkey, createdAt, kind, tags, content, hcreated, htext⟩ := hone ev h
  obtain ⟨pubkey', createdAt', kind', tags', content', hcreated', htext'⟩ := hone ev' h'
  have hrender := Json.render_injective (String.ofList_injective (htext.symm.trans htext'))
  have htoken : NumToken.ofInt createdAt = NumToken.ofInt createdAt' := by
    injection hrender with hlist
    injection hlist with _ hlist
    injection hlist with _ hlist
    injection hlist with hnum
    injection hnum
  have hcreated'' : createdAt = createdAt' := by
    have hint := congrArg NumToken.toInt htoken
    rw [NumToken.toInt_ofInt, NumToken.toInt_ofInt] at hint
    exact Option.some.inj hint
  rw [hcreated, hcreated', hcreated'']

theorem commitmentText_of_verifyEventSig {P : Platform} {now : Int}
    (hvalid : validateEvent ev now = .ok result) (h : verifyEventSig P ev = .ok ()) :
    ∃ text, commitmentText ev = .ok text ∧ P.sha256 text = result.2.1 := by
  obtain ⟨obj, hobj, hvalid⟩ := bind_eq_ok_iff.mp hvalid
  obtain ⟨_, -, hvalid⟩ := bind_eq_ok_iff.mp hvalid
  obtain ⟨id, hid, hvalid⟩ := bind_eq_ok_iff.mp hvalid
  obtain ⟨idBytes, hbytes, hvalid⟩ := bind_eq_ok_iff.mp hvalid
  obtain ⟨text, htext, h⟩ := bind_eq_ok_iff.mp h
  obtain ⟨obj', hobj', h⟩ := bind_eq_ok_iff.mp h
  obtain ⟨_, -, h⟩ := bind_eq_ok_iff.mp h
  obtain ⟨id', hid', h⟩ := bind_eq_ok_iff.mp h
  obtain ⟨_, -, h⟩ := bind_eq_ok_iff.mp h
  obtain ⟨idBytes', hbytes', h⟩ := bind_eq_ok_iff.mp h
  obtain ⟨_, hhash, _⟩ := bind_eq_ok_iff.mp h
  rw [okOr_eq_ok_iff] at hobj hobj' hid hid' hbytes hbytes'
  obtain rfl := Option.some.inj (hobj.symm.trans hobj')
  obtain rfl := Option.some.inj (hid.symm.trans hid')
  obtain rfl := Option.some.inj (hbytes.symm.trans hbytes')
  have hresult : result.2.1 = idBytes := by
    iterate 16 obtain ⟨_, -, hvalid⟩ := bind_eq_ok_iff.mp hvalid
    rw [← Except.ok.inj hvalid]
  exact ⟨text, htext, (beq_iff_eq.mp (ensure_eq_ok_iff.mp hhash)).trans hresult.symm⟩

end Buzz.PairRelay
