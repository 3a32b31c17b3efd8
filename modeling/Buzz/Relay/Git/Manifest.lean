import Buzz.Core.Text
import Buzz.Lib.Json
import Buzz.Lib.Sorting

/-!
# The manifest of a repository

A manifest is the immutable snapshot of a repository's published state: symbolic head, refs, the
keys of the packs that cover the refs, and the digest of the manifest it supersedes. It is stored
under the digest of its canonical bytes.
-/

namespace Buzz.Git

/-- Current manifest schema version. -/
def manifestVersion : Nat := 1

/-- Maximum number of pack objects one manifest may reference. -/
def maxManifestPacks : Nat := 128

/-- Pack count that triggers proactive consolidation during the next accepted push. -/
def packCompactionThreshold : Nat := maxManifestPacks * 3 / 4

/-- Maximum number of refs one manifest may advertise. -/
def maxManifestRefs : Nat := 10000

/-- Refname → hex object id, in name order. -/
abbrev RefMap := Std.ExtTreeMap String String

/-- The manifest of a repository. -/
structure Manifest where
  version : Nat
  head : String
  refs : RefMap
  packs : List String
  parent : Option String

inductive ManifestError where
  | serde
  | unsupportedVersion (got expected : Nat)
  | unsafeRefName (refname : String)
  /-- An object id in `refs` is not a valid hex SHA-1 or SHA-256. -/
  | malformedOid (refname oid : String)
  | emptyHead
  /-- `parent` is not a bare 64-char hex digest. -/
  | malformedParent (parent : String)
  | tooManyPacks (got max : Nat)
  | tooManyRefs (got max : Nat)
  /-- A pack key is not exactly `packs/<64 lowercase hex sha256>`. -/
  | malformedPackKey (key : String)
  deriving DecidableEq

/-! ### Predicates -/

/-- Conservative refname validation, shared by the write side and the read side. -/
def isSafeRefname (s : String) : Bool :=
  startsWith s "refs/" &&
    !(containsStr s ".." || containsStr s "//" || startsWith s "/" || endsWith s "/") &&
    s.toList.all fun c => isAsciiAlphanumeric c || c == '/' || c == '_' || c == '.' || c == '-'

/-- Hex object ids, SHA-1 or SHA-256. -/
def isHexOid (s : String) : Bool :=
  (s.utf8ByteSize == 40 || s.utf8ByteSize == 64) && s.toList.all isAsciiHexdigit

def isManifestDigest (s : String) : Bool := s.utf8ByteSize == 64 && s.toList.all isLowerHex

def isPackKey (s : String) : Bool := (stripPrefix s "packs/").any isManifestDigest

namespace Manifest

/-- What is wrong with one ref, if anything. -/
def checkRef : String × String → Option ManifestError
  | (refname, oid) =>
    if !isSafeRefname refname then some (.unsafeRefName refname)
    else if !isHexOid oid then some (.malformedOid refname oid)
    else none

def validate (m : Manifest) : Except ManifestError Unit :=
  if m.packs.length > maxManifestPacks then
    .error (.tooManyPacks m.packs.length maxManifestPacks)
  else if m.refs.size > maxManifestRefs then
    .error (.tooManyRefs m.refs.size maxManifestRefs)
  else if m.head = "" then .error .emptyHead
  else if !isSafeRefname m.head then .error (.unsafeRefName m.head)
  else match m.refs.toList.findSome? checkRef with
    | some e => .error e
    | none =>
      match m.packs.find? fun pack => !isPackKey pack with
      | some pack => .error (.malformedPackKey pack)
      | none =>
        match m.parent.filter fun p => !isManifestDigest p with
        | some p => .error (.malformedParent p)
        | none => .ok ()

/-- What `validate` accepts. -/
structure Valid (m : Manifest) : Prop where
  packs_le : m.packs.length ≤ maxManifestPacks
  refs_le : m.refs.size ≤ maxManifestRefs
  head_safe : isSafeRefname m.head = true
  refs_safe : ∀ r ∈ m.refs.toList, isSafeRefname r.1 = true ∧ isHexOid r.2 = true
  packs_keys : ∀ k ∈ m.packs, isPackKey k = true
  parent_digest : ∀ d ∈ m.parent, isManifestDigest d = true

theorem checkRef_eq_none_iff {r : String × String} :
    checkRef r = none ↔ isSafeRefname r.1 = true ∧ isHexOid r.2 = true := by
  cases h : isSafeRefname r.1 <;> cases h' : isHexOid r.2 <;> simp [checkRef, h, h']

theorem validate_eq_ok_iff {m : Manifest} : m.validate = .ok () ↔ m.Valid := by
  have hempty : isSafeRefname "" = false := by decide
  constructor
  · intro h
    unfold validate at h
    split at h
    · simp at h
    split at h
    · simp at h
    split at h
    · simp at h
    split at h
    · simp at h
    split at h
    · simp at h
    split at h
    · simp at h
    split at h
    · simp at h
    next hpacks hrefs _ hhead _ hnone _ hkeys _ hparent =>
      refine ⟨by omega, by omega, by simpa using hhead, fun r hr => ?_, fun k hk => ?_,
        fun d hd => ?_⟩
      · exact checkRef_eq_none_iff.mp (List.findSome?_eq_none_iff.mp hnone r hr)
      · simpa using List.find?_eq_none.mp hkeys k hk
      · rw [Option.mem_def] at hd
        simpa [hd, Option.filter] using hparent
  · intro h
    have hrefs : m.refs.toList.findSome? checkRef = none :=
      List.findSome?_eq_none_iff.mpr fun r hr => checkRef_eq_none_iff.mpr (h.refs_safe r hr)
    have hkeys : (m.packs.find? fun pack => !isPackKey pack) = none :=
      List.find?_eq_none.mpr fun k hk => by simp [h.packs_keys k hk]
    have hparent : (m.parent.filter fun p => !isManifestDigest p) = none := by
      cases hp : m.parent with
      | none => rfl
      | some d => simp [Option.filter, h.parent_digest d hp]
    have hhead : m.head ≠ "" := fun he => by simpa [he, hempty] using h.head_safe
    simp only [validate, if_neg (not_lt.mpr h.packs_le), if_neg (not_lt.mpr h.refs_le),
      if_neg hhead, h.head_safe, hrefs, hkeys, hparent]
    rfl

/-! ### Canonical bytes -/

/-- The manifest with its packs sorted and without repetitions. -/
def canonicalize (m : Manifest) : Manifest := { m with packs := sortDedup m.packs }

/-- The `Serialize` instance: the fields in declaration order. -/
def toJson (m : Manifest) : Json :=
  .obj [("version", .num (.ofNat m.version)), ("head", .str m.head),
    ("refs", .obj (m.refs.toList.map fun r => (r.1, .str r.2))),
    ("packs", .arr (m.packs.map .str)), ("parent", m.parent.elim .null .str)]

/-- Serialize to canonical bytes. Does not validate. -/
def canonicalBytes (m : Manifest) : ByteArray :=
  (String.ofList m.canonicalize.toJson.render).toByteArray

/-- Parse from bytes; reject unknown schema versions. `fromSlice` is `serde_json::from_slice`. -/
def fromBytes (fromSlice : ByteArray → Option Manifest) (bytes : ByteArray) :
    Except ManifestError Manifest :=
  match fromSlice bytes with
  | none => .error .serde
  | some m =>
    if m.version ≠ manifestVersion then .error (.unsupportedVersion m.version manifestVersion)
    else .ok m

theorem toJson_injective : Function.Injective toJson := by
  intro m n h
  simp only [toJson, Json.obj.injEq, List.cons.injEq, Prod.mk.injEq, true_and, and_true,
    Json.num.injEq, Json.str.injEq, Json.arr.injEq] at h
  obtain ⟨hversion, hhead, hrefs, hpacks, hparent⟩ := h
  have hrefs : m.refs.toList = n.refs.toList :=
    List.map_injective_iff.mpr (fun a b hab => by
      simp only [Prod.mk.injEq, Json.str.injEq] at hab
      exact Prod.ext hab.1 hab.2) hrefs
  have hpacks : m.packs = n.packs :=
    List.map_injective_iff.mpr (fun a b hab => Json.str.inj hab) hpacks
  have hparent : m.parent = n.parent := by
    cases hm : m.parent <;> cases hn : n.parent <;> simp_all
  cases m; cases n
  simp only [Manifest.mk.injEq]
  exact ⟨NumToken.ofNat_injective hversion, hhead, Std.ExtTreeMap.toList_inj.mp hrefs, hpacks,
    hparent⟩

/-- Canonical bytes determine the manifest up to the order and the repetition of its packs. -/
theorem canonicalBytes_eq_iff {m n : Manifest} :
    m.canonicalBytes = n.canonicalBytes ↔ m.canonicalize = n.canonicalize := by
  rw [canonicalBytes, canonicalBytes, String.toByteArray_inj, String.ofList_inj,
    Json.render_injective.eq_iff, toJson_injective.eq_iff]

theorem parent_eq_of_canonicalBytes_eq {m n : Manifest}
    (h : m.canonicalBytes = n.canonicalBytes) : m.parent = n.parent := by
  have hcanon := congrArg Manifest.parent (canonicalBytes_eq_iff.mp h)
  exact hcanon

@[simp] theorem mem_canonicalize_packs {m : Manifest} {k : String} :
    k ∈ m.canonicalize.packs ↔ k ∈ m.packs := mem_sortDedup

end Manifest

end Buzz.Git
