import Buzz.Core.Engram.Slug
import Buzz.Lib.JsonReader

/-!
# Bodies

What an engram says: the profile of the agent under `core`, or a value under the slug of a memory,
`null` where the memory is deleted. A body is written as a JSON object with the slug first, and read
from any JSON object that has the members, in whatever order and with others besides. An object that
repeats a member name is refused, at any depth: the library would keep the last member.

The library that reads JSON is a parameter. What is relied on is that it reads back the compact text
of a value.
-/

namespace Buzz.Engram

/-- What an engram says. -/
inductive Body where
  | core (profile : String)
  | memory (slug : String) (value : Option String)

def Body.slug : Body → String
  | .core _ => coreSlug
  | .memory slug _ => slug

/-! ### Writing -/

/-- One character of `write_json_string`. -/
def writeJsonChar (c : Char) : List Char :=
  if c = '"' then ['\\', '"']
  else if c = '\\' then ['\\', '\\']
  else if c = '\x08' then ['\\', 'b']
  else if c = '\x0c' then ['\\', 'f']
  else if c = '\n' then ['\\', 'n']
  else if c = '\r' then ['\\', 'r']
  else if c = '\t' then ['\\', 't']
  else if c.toNat < 0x20 then
    -- four hexadecimal digits in lower case, the first two of them zero
    ['\\', 'u', '0', '0', Nat.digitChar (c.toNat / 16), Nat.digitChar (c.toNat % 16)]
  else [c]

def writeJsonString (s : String) : List Char := '"' :: (s.toList.flatMap writeJsonChar ++ ['"'])

/-- Serialize to the exact JSON encoding of the body: whitespace-free, slug first. -/
def Body.toJsonBytes (b : Body) : List UInt8 :=
  let last := match b with
    | .memory _ (some v) => ",\"value\":".toList ++ writeJsonString v
    | .memory _ none => ",\"value\":null".toList
    | .core profile => ",\"profile\":".toList ++ writeJsonString profile
  utf8 (String.ofList ('{' :: ("\"slug\":".toList ++ (writeJsonString b.slug ++ (last ++ ['}'])))))

/-! ### Reading -/

section

variable (J : JsonLibrary) (debug : String → String)

/-- Parse a JSON document, rejecting duplicate member names at any nesting depth. -/
def parseStrictJson (bytes : List UInt8) : Except EngramError Json :=
  match J.parse bytes with
  | .error e => .error (.invalidBody ("invalid JSON body: " ++ e))
  | .ok v =>
    match v.duplicateName with
    | some k =>
      .error (.invalidBody ("invalid JSON body: " ++
        J.custom bytes ("duplicate object member name: " ++ k)))
    | none =>
      match J.trailing bytes with
      | some e => .error (.invalidBody ("trailing data after JSON body: " ++ e))
      | none => .ok v

def asBodyObject : Json → Except EngramError (List (String × Json))
  | .obj members => .ok members
  | _ => .error (.invalidBody "top-level not an object")

def requireString (members : List (String × Json)) (key missing : String) :
    Except EngramError String :=
  match Json.member members key with
  | some (.str s) => .ok s
  | some _ => .error (.invalidBody ("`" ++ key ++ "` is not a string"))
  | none => .error (.invalidBody missing)

/-- The value of a memory: a string, or `null`. -/
def memoryValue (members : List (String × Json)) : Except EngramError (Option String) :=
  match Json.member members "value" with
  | some (.str s) => .ok (some s)
  | some .null => .ok none
  | some _ => .error (.invalidBody "`value` is not a string")
  | none => .error (.invalidBody "memory missing `value`")

/-- Parse a body from its decrypted JSON bytes. -/
def fromJsonBytes (bytes : List UInt8) : Except EngramError Body := do
  let raw ← parseStrictJson J bytes
  let members ← asBodyObject raw
  let slug ← requireString members "slug" "missing `slug`"
  validateSlug debug slug
  if slug = coreSlug then
    let profile ← requireString members "profile" "core missing `profile`"
    return .core profile
  else
    let value ← memoryValue members
    return .memory slug value

end

/-! ### What is written -/

def Body.toJson (b : Body) : Json :=
  .obj [("slug", .str b.slug), match b with
    | .memory _ (some v) => ("value", .str v)
    | .memory _ none => ("value", .null)
    | .core profile => ("profile", .str profile)]

theorem writeJsonChar_eq (c : Char) : writeJsonChar c = Json.escapeChar c := by
  unfold writeJsonChar Json.escapeChar
  split_ifs <;> simp_all

theorem writeJsonString_eq (s : String) : writeJsonString s = Json.renderStr s := by
  rw [writeJsonString, Json.renderStr, funext writeJsonChar_eq]

theorem Body.toJsonBytes_eq (b : Body) : b.toJsonBytes = b.toJson.toBytes := by
  have hslug : "\"slug\":".toList = Json.renderStr "slug" ++ [':'] := by decide
  have hvalue : ",\"value\":".toList = ',' :: (Json.renderStr "value" ++ [':']) := by decide
  have hnull : ",\"value\":null".toList =
      ',' :: (Json.renderStr "value" ++ [':', 'n', 'u', 'l', 'l']) := by decide
  have hprofile : ",\"profile\":".toList = ',' :: (Json.renderStr "profile" ++ [':']) := by decide
  match b with
  | .core profile =>
    simp [Body.toJsonBytes, Json.toBytes, Body.toJson, Json.render, Json.renderMembers, hslug,
      hprofile, writeJsonString_eq]
  | .memory slug none =>
    simp [Body.toJsonBytes, Json.toBytes, Body.toJson, Json.render, Json.renderMembers, hslug,
      hnull, writeJsonString_eq]
  | .memory slug (some v) =>
    simp [Body.toJsonBytes, Json.toBytes, Body.toJson, Json.render, Json.renderMembers, hslug,
      hvalue, writeJsonString_eq]

/-! ### What is accepted -/

/-- A body whose slug is one of its kind. -/
def Body.WellFormed : Body → Prop
  | .core _ => True
  | .memory slug _ => IsSlug slug ∧ slug ≠ coreSlug

/-- Members that say what a body says. -/
def Body.SaidBy (members : List (String × Json)) : Body → Prop
  | .core profile => Json.member members "slug" = some (.str coreSlug) ∧
      Json.member members "profile" = some (.str profile)
  | .memory slug value => Json.member members "slug" = some (.str slug) ∧
      Json.member members "value" = some (value.elim .null .str)

section

variable {J : JsonLibrary} {debug : String → String}

variable {bytes : List UInt8}

theorem parseStrictJson_ok_iff {v : Json} :
    parseStrictJson J bytes = .ok v ↔
      J.parse bytes = .ok v ∧ v.UniqueNames ∧ J.trailing bytes = none := by
  rw [parseStrictJson]
  cases J.parse bytes with
  | error e => simp
  | ok w =>
    simp only [Except.ok.injEq]
    constructor
    · intro h
      split at h
      · cases h
      · next hnames =>
        split at h
        · cases h
        · next htrailing =>
          have hunique := (Json.duplicateName_eq_none_iff w).mp hnames
          cases h
          exact ⟨rfl, hunique, htrailing⟩
    · rintro ⟨rfl, hnames, htrailing⟩
      rw [(Json.duplicateName_eq_none_iff _).mpr hnames, htrailing]

variable {members : List (String × Json)}

theorem asBodyObject_ok_iff {v : Json} : asBodyObject v = .ok members ↔ v = .obj members := by
  cases v <;> simp [asBodyObject]

theorem requireString_ok_iff {key missing s : String} :
    requireString members key missing = .ok s ↔ Json.member members key = some (.str s) := by
  rw [requireString]
  split
  · next t h => simp [h]
  · next v hne h =>
    rw [h]
    refine iff_of_false nofun ?_
    rintro ⟨⟩
    exact hne s rfl
  · next h => simp [h]

theorem memoryValue_ok_iff {value : Option String} :
    memoryValue members = .ok value ↔
      Json.member members "value" = some (value.elim .null .str) := by
  rw [memoryValue]
  split
  · next t h =>
    rw [h]
    cases value <;> simp
  · next h =>
    rw [h]
    cases value <;> simp
  · next v hstr hnull h =>
    rw [h]
    refine iff_of_false nofun ?_
    cases value with
    | none =>
      rintro ⟨⟩
      exact hnull rfl
    | some t =>
      rintro ⟨⟩
      exact hstr t rfl
  · next h => simp [h]

/-- What is accepted: a whole text, an object without repeated names, that says a well-formed
body. -/
theorem fromJsonBytes_ok_iff {b : Body} :
    fromJsonBytes J debug bytes = .ok b ↔ ∃ members, J.parse bytes = .ok (.obj members) ∧
      (Json.obj members).UniqueNames ∧ J.trailing bytes = none ∧ b.WellFormed ∧
      b.SaidBy members := by
  simp only [fromJsonBytes, bind_eq_ok_iff, parseStrictJson_ok_iff, asBodyObject_ok_iff,
    requireString_ok_iff]
  constructor
  · rintro ⟨v, ⟨hparse, hnames, htrailing⟩, members, rfl, slug, hmember, ⟨⟩, hslug, h⟩
    refine ⟨members, hparse, hnames, htrailing, ?_⟩
    split at h
    · next hcore =>
      subst hcore
      obtain ⟨profile, hprofile, hb⟩ := bind_eq_ok_iff.mp h
      cases hb
      exact ⟨trivial, hmember, requireString_ok_iff.mp hprofile⟩
    · next hcore =>
      obtain ⟨value, hvalue, hb⟩ := bind_eq_ok_iff.mp h
      cases hb
      exact ⟨⟨validateSlug_ok_iff.mp hslug, hcore⟩, hmember, memoryValue_ok_iff.mp hvalue⟩
  · rintro ⟨members, hparse, hnames, htrailing, hwell, hsaid⟩
    refine ⟨_, ⟨hparse, hnames, htrailing⟩, members, rfl, b.slug, ?_⟩
    cases b with
    | core profile =>
      refine ⟨hsaid.1, (), validateSlug_ok_iff.mpr (Or.inl rfl), ?_⟩
      rw [Body.slug, if_pos rfl]
      exact bind_eq_ok_iff.mpr ⟨profile, requireString_ok_iff.mpr hsaid.2, rfl⟩
    | memory slug value =>
      refine ⟨hsaid.1, (), validateSlug_ok_iff.mpr hwell.1, ?_⟩
      rw [Body.slug, if_neg hwell.2]
      exact bind_eq_ok_iff.mpr ⟨value, memoryValue_ok_iff.mpr hsaid.2, rfl⟩

theorem Body.toJson_says (b : Body) : ∃ members, b.toJson = .obj members ∧
    (Json.obj members).UniqueNames ∧ Json.Plain 127 (.obj members) ∧ b.SaidBy members := by
  match b with
  | .core profile =>
    refine ⟨_, rfl, .obj (by simp) ?_, ?_, rfl, rfl⟩
    · simp [Json.UniqueNames.str]
    · simp [Json.Plain]
  | .memory slug none =>
    refine ⟨_, rfl, .obj (by simp) ?_, ?_, rfl, rfl⟩
    · simp [Json.UniqueNames.str, Json.UniqueNames.null]
    · simp [Json.Plain]
  | .memory slug (some v) =>
    refine ⟨_, rfl, .obj (by simp) ?_, ?_, rfl, rfl⟩
    · simp [Json.UniqueNames.str]
    · simp [Json.Plain]

theorem fromJsonBytes_toJsonBytes (hread : Json.ReadsCompact J) {b : Body} (h : b.WellFormed) :
    fromJsonBytes J debug b.toJsonBytes = .ok b := by
  obtain ⟨members, hjson, hnames, hplain, hsaid⟩ := b.toJson_says
  have hbytes := hread (.obj members) hplain
  rw [← hjson, ← b.toJsonBytes_eq] at hbytes
  rw [hjson] at hbytes
  exact fromJsonBytes_ok_iff.mpr ⟨members, hbytes.1, hnames, hbytes.2, h, hsaid⟩

end

/-! ### Main result -/

/-- **The codec.** What is written is read back. What is accepted is an object without repeated
names that says a well-formed body; so writing it again and reading it again changes nothing. -/
theorem body_codec (J : JsonLibrary) (debug : String → String) (hread : Json.ReadsCompact J) :
    (∀ b : Body, b.WellFormed → fromJsonBytes J debug b.toJsonBytes = .ok b) ∧
    (∀ bytes b, fromJsonBytes J debug bytes = .ok b → ∃ members,
      J.parse bytes = .ok (.obj members) ∧ (Json.obj members).UniqueNames ∧
      J.trailing bytes = none ∧ b.WellFormed ∧ b.SaidBy members) ∧
    (∀ bytes b, fromJsonBytes J debug bytes = .ok b →
      fromJsonBytes J debug b.toJsonBytes = .ok b) := by
  refine ⟨fun b h => fromJsonBytes_toJsonBytes hread h, fun bytes b h => fromJsonBytes_ok_iff.mp h,
    fun bytes b h => ?_⟩
  obtain ⟨-, -, -, -, hwell, -⟩ := fromJsonBytes_ok_iff.mp h
  exact fromJsonBytes_toJsonBytes hread hwell

/-- The reader of compact texts is such a library: a tombstone is read back. -/
theorem body_codec_tombstone : fromJsonBytes Json.compactReader id
    (Body.memory "mem/x" none).toJsonBytes = .ok (.memory "mem/x" none) := by
  have hslug : validateSlug id "mem/x" = .ok () := by decide +kernel
  exact (body_codec Json.compactReader id Json.compactReader_readsCompact).1 _
    ⟨validateSlug_ok_iff.mp hslug, by decide⟩

end Buzz.Engram
