import Buzz.Lib.JsonReader
import Buzz.Relay.Git.Manifest

/-!
# Reading manifests

The reading side of the canonical bytes, as `serde` derives it for the structure: an object, whose
members may stand in any order and beside others, but not twice, or a list of the five fields. A
parent that is not there is `None`.

A manifest of another version is written, because validation leaves the version alone, and refused
when it is read.

The library that reads JSON is a parameter. What is relied on is that it reads back the compact text
of a value.
-/

namespace Buzz.Git.Manifest

/-! ### The derived reader -/

/-- A `u32`. -/
def u32OfJson (v : Json) : Option Nat := v.asU64.filter fun n => decide (n < 2 ^ 32)

/-- A `String`. -/
def stringOfJson (v : Json) : Option String := v.asStr

/-- A `BTreeMap<String, String>`: of several members with one name the last counts. -/
def refsOfJson : Json → Option RefMap
  | .obj members =>
    (members.mapM fun m => (stringOfJson m.2).map fun oid => (m.1, oid)).map fun refs =>
      Std.ExtTreeMap.ofList refs
  | _ => none

/-- A `Vec<String>`. -/
def packsOfJson : Json → Option (List String)
  | .arr elems => elems.mapM stringOfJson
  | _ => none

/-- An `Option<String>`. -/
def parentOfJson : Json → Option (Option String)
  | .null => some none
  | v => (stringOfJson v).map some

structure Fields where
  version : Option Nat := none
  head : Option String := none
  refs : Option RefMap := none
  packs : Option (List String) := none
  parent : Option (Option String) := none

/-- A member of the object: a field, once, or something to ignore. -/
def readField (f : Fields) : String × Json → Option Fields
  | ("version", v) =>
    if f.version.isSome then none else (u32OfJson v).map fun x => { f with version := some x }
  | ("head", v) =>
    if f.head.isSome then none else (stringOfJson v).map fun x => { f with head := some x }
  | ("refs", v) =>
    if f.refs.isSome then none else (refsOfJson v).map fun x => { f with refs := some x }
  | ("packs", v) =>
    if f.packs.isSome then none else (packsOfJson v).map fun x => { f with packs := some x }
  | ("parent", v) =>
    if f.parent.isSome then none else (parentOfJson v).map fun x => { f with parent := some x }
  | _ => some f

/-- The manifest, when no field but the parent is missing. -/
def Fields.manifest (f : Fields) : Option Manifest := do
  let version ← f.version
  let head ← f.head
  let refs ← f.refs
  let packs ← f.packs
  return ⟨version, head, refs, packs, f.parent.join⟩

/-- The `Deserialize` instance. -/
def ofJson : Json → Option Manifest
  | .obj members => (members.foldlM readField {}).bind Fields.manifest
  | .arr [version, head, refs, packs, parent] => do
    return ⟨← u32OfJson version, ← stringOfJson head, ← refsOfJson refs, ← packsOfJson packs,
      ← parentOfJson parent⟩
  | _ => none

/-- `serde_json::from_slice`. -/
def fromSlice (J : JsonLibrary) (bytes : ByteArray) : Option Manifest :=
  match J.parse bytes.data.toList with
  | .error _ => none
  | .ok v => if (J.trailing bytes.data.toList).isSome then none else ofJson v

/-! ### The reader reads what the writer writes -/

theorem u32OfJson_ofNat {n : Nat} (h : n < 2 ^ 32) : u32OfJson (.num (.ofNat n)) = some n := by
  have hint : (NumToken.ofNat n).toInt = some (Int.ofNat n) := NumToken.toInt_ofInt (.ofNat n)
  have hlt : (n : Int) ≤ 18446744073709551615 := by omega
  rw [u32OfJson, Json.asU64, hint]
  simp [Option.filter, hlt]
  omega

theorem mapM_map_eq_some {α β : Type} (write : α → β) (read : β → Option α)
    (h : ∀ a, read (write a) = some a) (l : List α) : (l.map write).mapM read = some l := by
  induction l with
  | nil => rfl
  | cons a l ih =>
    simp [h, ih]

theorem ofList_toList (refs : RefMap) : Std.ExtTreeMap.ofList refs.toList = refs := by
  refine Std.ExtTreeMap.ext_getElem? fun k => ?_
  cases h : refs[k]? with
  | some v =>
    exact Std.ExtTreeMap.getElem?_ofList_of_mem Std.ReflCmp.compare_self
      Std.ExtTreeMap.distinct_keys_toList (Std.ExtTreeMap.mem_toList_iff_getElem?_eq_some.mpr h)
  | none =>
    refine Std.ExtTreeMap.getElem?_ofList_of_contains_eq_false ?_
    rw [← Bool.not_eq_true, List.contains_iff_mem]
    intro hmem
    obtain ⟨⟨k', v⟩, hr, rfl⟩ := List.mem_map.mp hmem
    rw [Std.ExtTreeMap.mem_toList_iff_getElem?_eq_some.mp hr] at h
    nomatch h

theorem refsOfJson_toList (refs : RefMap) :
    refsOfJson (.obj (refs.toList.map fun r => (r.1, .str r.2))) = some refs := by
  have hread := mapM_map_eq_some (fun r : String × String => (r.1, Json.str r.2))
    (fun m => (stringOfJson m.2).map fun oid => (m.1, oid)) (fun _ => rfl) refs.toList
  simp [refsOfJson, hread, ofList_toList]

theorem packsOfJson_map (packs : List String) :
    packsOfJson (.arr (packs.map .str)) = some packs :=
  mapM_map_eq_some Json.str stringOfJson (fun _ => rfl) packs

theorem parentOfJson_elim (parent : Option String) :
    parentOfJson (parent.elim .null .str) = some parent := by
  cases parent <;> rfl

theorem ofJson_toJson {m : Manifest} (h : m.version < 2 ^ 32) : ofJson m.toJson = some m := by
  simp [toJson, ofJson, readField, u32OfJson_ofNat h, refsOfJson_toList, packsOfJson_map,
    parentOfJson_elim, stringOfJson, Json.asStr, Fields.manifest]

theorem plain_toJson {m : Manifest} (h : m.version < 2 ^ 32) : Json.Plain 127 m.toJson := by
  rw [toJson]
  simp only [Json.Plain, List.forall_mem_cons]
  refine ⟨⟨m.version, by omega, rfl⟩, trivial, ?_, ?_, ?_, by simp⟩
  · intro r hr
    obtain ⟨r', -, rfl⟩ := List.mem_map.mp hr
    trivial
  · intro x hx
    obtain ⟨k, -, rfl⟩ := List.mem_map.mp hx
    trivial
  · cases m.parent <;> simp [Json.Plain]

theorem toList_canonicalBytes (m : Manifest) :
    m.canonicalBytes.data.toList = m.canonicalize.toJson.toBytes := by
  rw [canonicalBytes, Json.toBytes, utf8, String.toUTF8_eq_toByteArray]

section

variable {J : JsonLibrary}

theorem fromSlice_canonicalBytes (hread : Json.ReadsCompact J) {m : Manifest}
    (h : m.version < 2 ^ 32) : fromSlice J m.canonicalBytes = some m.canonicalize := by
  have hversion : m.canonicalize.version < 2 ^ 32 := h
  obtain ⟨hparse, htrailing⟩ := hread _ (plain_toJson hversion)
  rw [fromSlice, toList_canonicalBytes, hparse, htrailing]
  exact ofJson_toJson hversion

/-! ### Main results -/

/-- **Canonical bytes.** A manifest of this version, valid or not, is read back with its packs
sorted and without repetitions; one of another version is refused. Canonical bytes are equal when
the manifests differ in the order and the repetition of their packs only. -/
theorem canonicalBytes_codec (J : JsonLibrary) (hread : Json.ReadsCompact J) :
    (∀ m : Manifest, m.version < 2 ^ 32 →
      (m.version = manifestVersion →
        fromBytes (fromSlice J) m.canonicalBytes = .ok m.canonicalize) ∧
      (m.version ≠ manifestVersion → fromBytes (fromSlice J) m.canonicalBytes =
        .error (.unsupportedVersion m.version manifestVersion))) ∧
    ∀ m n : Manifest, m.canonicalBytes = n.canonicalBytes ↔
      m.version = n.version ∧ m.head = n.head ∧ m.refs = n.refs ∧ m.parent = n.parent ∧
        ∀ k, k ∈ m.packs ↔ k ∈ n.packs := by
  refine ⟨fun m hm => ?_, fun m n => ?_⟩
  · have hslice := fromSlice_canonicalBytes hread hm
    have hversion : m.canonicalize.version = m.version := rfl
    rw [fromBytes, hslice]
    refine ⟨fun h => ?_, fun h => ?_⟩
    · simp [hversion, h]
    · simp [hversion, h]
  · rw [canonicalBytes_eq_iff, ← sortDedup_eq_iff]
    cases m
    cases n
    simp [canonicalize]
    tauto

def digestOf (c : Char) : String := String.ofList (List.replicate 64 c)

/-- A manifest of two refs, whose packs are out of order and named twice. -/
def pushedManifest : Manifest where
  version := 1
  head := "refs/heads/main"
  refs := .ofList [("refs/tags/v1", digestOf 'e'), ("refs/heads/main", digestOf 'd')]
  packs := ["packs/" ++ digestOf 'b', "packs/" ++ digestOf 'a', "packs/" ++ digestOf 'b']
  parent := some (digestOf 'c')

/-- The reader of compact texts is such a library: the packs are read back in order, each once. -/
theorem canonicalBytes_codec_pushed : pushedManifest.validate = .ok () ∧
    fromBytes (fromSlice Json.compactReader) pushedManifest.canonicalBytes =
      .ok { pushedManifest with packs := ["packs/" ++ digestOf 'a', "packs/" ++ digestOf 'b'] } := by
  have hpacks : pushedManifest.canonicalize.packs =
      ["packs/" ++ digestOf 'a', "packs/" ++ digestOf 'b'] := by decide +kernel
  refine ⟨by decide +kernel, ?_⟩
  rw [← hpacks]
  exact ((canonicalBytes_codec Json.compactReader Json.compactReader_readsCompact).1
    pushedManifest (by decide)).1 rfl

/-- Another version passes validation and is refused when it is read. -/
theorem not_codec_otherVersion : ¬ ∀ m : Manifest, m.validate = .ok () → m.version < 2 ^ 32 →
    fromBytes (fromSlice Json.compactReader) m.canonicalBytes = .ok m.canonicalize := by
  intro hall
  have h := hall ⟨2, "refs/heads/main", ∅, [], none⟩ (by decide +kernel) (by decide)
  have hversion : Manifest.version ⟨2, "refs/heads/main", ∅, [], none⟩ < 2 ^ 32 := by decide
  rw [fromBytes, fromSlice_canonicalBytes Json.compactReader_readsCompact hversion] at h
  exact absurd h (by simp [canonicalize, manifestVersion])

end

end Buzz.Git.Manifest
