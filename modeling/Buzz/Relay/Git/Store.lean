import Buzz.Relay.Git.Manifest

/-!
# The object store

Packs and manifests are create-only objects whose key is the digest of their bytes; the pointer is
the one object that is overwritten, under a precondition. Only the create-only part has a state
here: the pointer belongs to the protocol.

SHA-256 is a parameter. All that is used of it is the shape of its hex form; that it does not
collide is an assumption on the uploads of a run (`ObjectStore.collides`), not on the function.
-/

namespace Buzz.Git

open List

/-- Bodies are compared as the core library compares them, whatever else is imported. -/
instance decidableEqByteArray : DecidableEq ByteArray := ByteArray.instDecidableEq

structure Sha256 where
  hex : ByteArray → String
  /-- It is 64 lowercase hex digits. -/
  hex_digest : ∀ bytes, isManifestDigest (hex bytes) = true

/-- Backend errors that reading and writing objects surface. -/
inductive StoreError where
  | notFound (key : String)
  | objectTooLarge (key : String) (size max : Nat)
  | digestMismatch (key expected actual : String)
  | backend (message : String)

structure ETag where
  tag : String
  deriving DecidableEq

/-- Precondition for `put_pointer`. -/
inductive Precond where
  | ifNoneMatchStar
  | ifMatch (etag : ETag)

/-- How a conditional write ends. -/
inductive CasOutcome where
  | won (etag : ETag)
  /-- 412: the precondition failed. -/
  | lostRace

variable (H : Sha256)

/-- `<prefix>/<hex sha256(bytes)>`. -/
def contentKey (pre : String) (bytes : ByteArray) : String := pre ++ "/" ++ H.hex bytes

/-- The bytes stored under each key. -/
structure ObjectStore where
  objects : List (String × ByteArray)
  keys : (objects.map Prod.fst).Nodup

theorem nodup_keys_concat {objects : List (String × ByteArray)} {key : String} {bytes : ByteArray}
    (h : (objects.map Prod.fst).Nodup) (hkey : key ∉ objects.map Prod.fst) :
    ((objects ++ [(key, bytes)]).map Prod.fst).Nodup := by
  rw [map_append, nodup_append]
  refine ⟨h, nodup_singleton _, fun a ha b hb hab => ?_⟩
  obtain rfl : b = key := mem_singleton.mp hb
  exact hkey (hab ▸ ha)

namespace ObjectStore

def empty : ObjectStore := ⟨[], nodup_nil⟩

def get (s : ObjectStore) (key : String) : Option ByteArray := s.objects.lookup key

/-- Another body is stored under the key of `bytes`: a collision of SHA-256. -/
def collides (s : ObjectStore) (pre : String) (bytes : ByteArray) : Prop :=
  ∃ stored ∈ s.get (contentKey H pre bytes), stored ≠ bytes

instance (s : ObjectStore) (pre : String) (bytes : ByteArray) :
    Decidable (s.collides H pre bytes) :=
  decidable_of_iff ((s.get (contentKey H pre bytes)).any (· ≠ bytes) = true)
    (by simp [collides, Option.any_eq_true])

/-- Create-only write of a content-addressed object. A 412 is success: the key already holds
bytes with this digest. -/
def putImmutable (s : ObjectStore) (pre : String) (bytes : ByteArray) : String × ObjectStore :=
  let key := contentKey H pre bytes
  if h : key ∈ s.objects.map Prod.fst then (key, s)
  else (key, ⟨s.objects ++ [(key, bytes)], nodup_keys_concat s.keys h⟩)

/-- GET an immutable object after rejecting bodies larger than `max`, and verify its digest. -/
def getVerifiedLimited (s : ObjectStore) (key expected : String) (max : Nat) :
    Except StoreError ByteArray :=
  match s.get key with
  | none => .error (.notFound key)
  | some bytes =>
    if bytes.size > max then .error (.objectTooLarge key bytes.size max)
    else if H.hex bytes ≠ expected then .error (.digestMismatch key expected (H.hex bytes))
    else .ok bytes

/-- GET an object and verify its digest. -/
def getVerified (s : ObjectStore) (key expected : String) : Except StoreError ByteArray :=
  match s.get key with
  | none => .error (.notFound key)
  | some bytes =>
    if H.hex bytes ≠ expected then .error (.digestMismatch key expected (H.hex bytes))
    else .ok bytes

def le (s t : ObjectStore) : Prop := s.objects <+: t.objects

variable {H}

theorem le_putImmutable (s : ObjectStore) (pre : String) (bytes : ByteArray) :
    s.le (s.putImmutable H pre bytes).2 := by
  unfold putImmutable
  dsimp only
  split
  · exact prefix_rfl
  · exact prefix_append _ _

@[simp] theorem putImmutable_key (s : ObjectStore) (pre : String) (bytes : ByteArray) :
    (s.putImmutable H pre bytes).1 = contentKey H pre bytes := by
  unfold putImmutable
  dsimp only
  split <;> rfl

theorem get_of_le {s t : ObjectStore} (h : s.le t) {key : String} {bytes : ByteArray}
    (hget : s.get key = some bytes) : t.get key = some bytes := by
  obtain ⟨rest, hrest⟩ := h
  rw [get] at hget
  rw [get, ← hrest, lookup_append, hget]
  rfl

theorem get_eq_none {s : ObjectStore} {key : String} (h : key ∉ s.objects.map Prod.fst) :
    s.get key = none := by
  rw [get, lookup_eq_none_iff]
  intro o ho
  simp only [bne_iff_ne, ne_eq]
  rintro rfl
  exact h (mem_map_of_mem ho)

theorem get_putImmutable {s : ObjectStore} {pre : String} {bytes : ByteArray}
    (h : ¬s.collides H pre bytes) :
    (s.putImmutable H pre bytes).2.get (contentKey H pre bytes) = some bytes := by
  unfold putImmutable
  dsimp only
  split
  · rename_i hmem
    cases hget : s.get (contentKey H pre bytes) with
    | none =>
      obtain ⟨o, ho, hkey⟩ := mem_map.mp hmem
      rw [get, lookup_eq_none_iff] at hget
      simpa [hkey] using hget o ho
    | some stored =>
      by_contra hne
      exact h ⟨stored, hget, fun heq => hne (congrArg some heq)⟩
  · rename_i hmem
    have hnone := get_eq_none hmem
    rw [get] at hnone
    rw [get, lookup_append, hnone]
    simp

end ObjectStore

end Buzz.Git
