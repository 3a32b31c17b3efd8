import Buzz.Lib.HashChain
import Buzz.Lib.StateMachine
import Buzz.Relay.Git.Publish

/-!
# Publication by compare-and-swap

Any number of pushes and announcements race for the pointer of one repository. A *push* reads the
pointer and the manifest it names, runs receive-pack on the hydrated workspace, uploads packs,
stores the composed manifest and conditionally overwrites the pointer. An *announcement* seeds the
pointer with an empty manifest. Between two steps of one writer every other writer may take any
number of steps, and a writer may stop for good anywhere.

The pointer is the last entry of `history`, the list of everything that was ever installed under
it; writer and manifest of an entry are ghosts, the store keeps ETag and body. A pointer write is a
request that the store processes at some later time, also when its writer has crashed or given up
in between, and a response that may be lost.

## What is assumed

* the store evaluates precondition and write of one request atomically;
* an ETag that occurs twice in the history of a pointer names the same body (`etagAllowed`):
  content-derived ETags and unique ones both satisfy this;
* no two different manifests with the same digest are ever uploaded (`ObjectStore.collides`).

What `serde_json` reads in stored bytes is a parameter, and nothing is assumed of it.
-/

namespace Buzz.Git

open Function

/-! ### Writers -/

/-- A push, or the seeding of a new repository. -/
inductive Writer where
  | push (n : Nat)
  | seed (n : Nat)
  deriving DecidableEq

inductive HydrateError where
  | invalidPointer
  | manifest (error : ManifestError)
  | store (error : StoreError)
  | hydrate (message : String)
  | resourceLimit (message : String)

inductive WriteError where
  | hydrate (error : HydrateError)
  | publish (error : CasError)
  | announce (message : String)

structure Request where
  precond : Precond
  body : String
  manifest : Manifest

/-- The await points of a writer. -/
inductive Phase where
  | start
  | pointerRead (etag : ETag) (digest : String)
  | hydrated (st : ParentState)
  | received (st : ParentState) (limits : PublishLimits) (ws : Workspace)
  | composed (st : ParentState) (m : Manifest)
  | manifestPut (st : ParentState) (m : Manifest) (key : String)
  | sent (m : Manifest) (key : String)
  | lostRace (key : String)
  /-- After a 412, the pointer has been read again. -/
  | winnerRead (digest : String)
  | won (m : Manifest) (key : String)
  | conflict (winner : Manifest) (winnerKey : String)
  /-- An announcement found the same empty manifest and returned `Ok`. -/
  | alreadySeeded
  | failedBefore (e : WriteError)
  | failedAfter (e : WriteError)
  | crashed

/-- One manifest installed under the pointer. -/
structure Version where
  etag : ETag
  body : String
  writer : Writer
  manifest : Manifest

/-- The store, its history and the writers. -/
structure State where
  store : ObjectStore
  history : List Version
  phases : Writer → Phase
  requests : Writer → Option Request
  responses : Writer → Option CasOutcome

namespace State

/-- The pointer: ETag and body of the last version. -/
def pointer (s : State) : Option (ETag × String) := s.history.getLast?.map fun v => (v.etag, v.body)

def installed (s : State) : List Manifest := s.history.map Version.manifest

/-- A version with this ETag has this body. -/
def etagAllowed (s : State) (etag : ETag) (body : String) : Prop :=
  ∀ v ∈ s.history, v.etag = etag → v.body = body

instance (s : State) (etag : ETag) (body : String) : Decidable (s.etagAllowed etag body) :=
  inferInstanceAs (Decidable (∀ v ∈ s.history, v.etag = etag → v.body = body))

/-- The store's test of a precondition. -/
def satisfies (s : State) : Precond → Prop
  | .ifNoneMatchStar => s.history = []
  | .ifMatch etag => s.history.getLast?.map Version.etag = some etag

instance (s : State) : (p : Precond) → Decidable (s.satisfies p)
  | .ifNoneMatchStar =>
    decidable_of_iff (s.history.isEmpty = true) (by simp [satisfies])
  | .ifMatch etag => inferInstanceAs (Decidable (s.history.getLast?.map Version.etag = some etag))

def setPhase (s : State) (w : Writer) (p : Phase) : State :=
  { s with phases := update s.phases w p }

end State

/-- One step of one writer or of the store, with everything the state does not determine. -/
inductive Action where
  | readPointer (n : Nat)
  /-- It reads, verifies and validates the manifest the pointer names. -/
  | readManifest (n : Nat)
  | receivePack (n : Nat) (limits : PublishLimits) (ws : Workspace)
  | putPack (n : Nat) (pack : ByteArray)
  | compose (n : Nat)
  | composeEmpty (n : Nat)
  | putManifest (w : Writer) (answered : Bool)
  | sendPointer (w : Writer)
  /-- The store processes a pointer write; a new version gets `etag`. -/
  | apply (w : Writer) (etag : ETag)
  | receive (w : Writer)
  | noAnswer (w : Writer) (message : String)
  /-- After a 412, a push reads the pointer again. -/
  | readWinnerPointer (n : Nat)
  | readWinnerManifest (n : Nat)
  /-- After a 412, an announcement compares the pointer with its own digest. -/
  | compareSeed (n : Nat)
  | fail (w : Writer) (e : WriteError)
  /-- After a 412, reading the winner fails. -/
  | failWinner (w : Writer) (e : WriteError)
  | crash (w : Writer)

/-- Largest manifest hydration reads. -/
def maxManifestBytes : Nat := 4 * 1024 * 1024

/-- `refs/heads/main`, the head of a freshly announced repository. -/
def defaultHead : String := "refs/heads/main"

def emptyManifest : Manifest := ⟨manifestVersion, defaultHead, ∅, [], none⟩

/-- The digest a pointer body names. -/
def parsePointerBody (body : String) : Option String :=
  let digest := trim body
  if digest.utf8ByteSize ≠ 64 ∨ !digest.toList.all isAsciiHexdigit then none else some digest

/-- The precondition of the pointer write that follows `st`. -/
def ParentState.precond (st : ParentState) : Precond :=
  match st.ifMatch with
  | some etag => .ifMatch etag
  | none => .ifNoneMatchStar

/-- The phases in which an operation before the pointer write can fail. -/
def Phase.running : Phase → Bool
  | .start | .pointerRead .. | .hydrated .. | .received .. | .composed .. | .manifestPut .. => true
  | _ => false

def Phase.readingWinner : Phase → Bool
  | .lostRace .. | .winnerRead .. => true
  | _ => false

variable (H : Sha256) (fromSlice : ByteArray → Option Manifest)

/-- The key of a manifest's canonical bytes. -/
def manifestKey (m : Manifest) : String := contentKey H "manifests" m.canonicalBytes

/-- The digest of a manifest's canonical bytes. -/
def manifestDigest (m : Manifest) : String := H.hex m.canonicalBytes

/-- `load_pointer`, below the pointer: the verified, decoded and validated manifest. -/
def loadManifest (store : ObjectStore) (digest : String) : Except HydrateError Manifest :=
  match store.getVerifiedLimited H s!"manifests/{digest}" digest maxManifestBytes with
  | .error (.objectTooLarge key size max) =>
    .error (.resourceLimit s!"object {key} is {size} bytes (max {max})")
  | .error e => .error (.store e)
  | .ok bytes =>
    match Manifest.fromBytes fromSlice bytes with
    | .error e => .error (.manifest e)
    | .ok m =>
      match m.validate with
      | .error e => .error (.manifest e)
      | .ok () => .ok m

/-- `read_winner_after_conflict`, below the pointer. -/
def loadWinner (store : ObjectStore) (digest : String) : Except CasError Manifest :=
  match store.getVerified H s!"manifests/{digest}" digest with
  | .error (.digestMismatch ..) => .error (.manifestReadFailed "winner manifest digest mismatch")
  | .error (.notFound _) => .error (.manifestReadFailed "winner pointer names missing manifest")
  | .error e => .error (.backend e)
  | .ok bytes =>
    match Manifest.fromBytes fromSlice bytes with
    | .error _ => .error (.manifestReadFailed "parse winner manifest")
    | .ok m => .ok m

def step (s : State) : Action → Option State
  | .readPointer n =>
    match s.phases (.push n) with
    | .start =>
      match s.pointer with
      | none => some (s.setPhase (.push n) (.hydrated .fresh))
      | some (etag, body) =>
        match parsePointerBody body with
        | none => some (s.setPhase (.push n) (.failedBefore (.hydrate .invalidPointer)))
        | some digest => some (s.setPhase (.push n) (.pointerRead etag digest))
    | _ => none
  | .readManifest n =>
    match s.phases (.push n) with
    | .pointerRead etag digest =>
      match loadManifest H fromSlice s.store digest with
      | .error e => some (s.setPhase (.push n) (.failedBefore (.hydrate e)))
      | .ok m => some (s.setPhase (.push n) (.hydrated (.fromLoaded etag digest m)))
    | _ => none
  | .receivePack n limits ws =>
    match s.phases (.push n) with
    | .hydrated st => some (s.setPhase (.push n) (.received st limits ws))
    | _ => none
  | .putPack n pack =>
    match s.phases (.push n) with
    | .received _ _ _ =>
      if s.store.collides H "packs" pack then none
      else some { s with store := (s.store.putImmutable H "packs" pack).2 }
    | _ => none
  | .compose n =>
    match s.phases (.push n) with
    | .received st limits ws =>
      match casPublishInner H packCompactionThreshold st limits ws with
      | .error e => some (s.setPhase (.push n) (.failedBefore (.publish e)))
      | .ok c =>
        -- every pack the manifest names has been uploaded
        if ∀ pack ∈ c.uploads, s.store.get (packKey H pack) = some pack then
          some (s.setPhase (.push n) (.composed st c.manifest))
        else none
    | _ => none
  | .composeEmpty n =>
    match s.phases (.seed n) with
    | .start =>
      match emptyManifest.validate with
      | .error _ => some (s.setPhase (.seed n)
          (.failedBefore (.announce "empty manifest failed validation")))
      | .ok () => some (s.setPhase (.seed n) (.composed .fresh emptyManifest))
    | _ => none
  | .putManifest w answered =>
    match s.phases w with
    | .composed st m =>
      if s.store.collides H "manifests" m.canonicalBytes then none
      else
        let (key, store) := s.store.putImmutable H "manifests" m.canonicalBytes
        some ({ s with store := store }.setPhase w
          (if answered then .manifestPut st m key
          else .failedBefore (.publish (.backend (.backend "put_manifest")))))
    | _ => none
  | .sendPointer w =>
    match s.phases w with
    | .manifestPut st m key =>
      match stripPrefix key "manifests/" with
      | none => some (s.setPhase w (.failedBefore (.publish (.backend (.backend
          s!"put_manifest returned non-standard key: {key}")))))
      | some digest =>
        some ({ s with requests := update s.requests w (some ⟨st.precond, digest, m⟩)
          }.setPhase w (.sent m key))
    | _ => none
  | .apply w etag =>
    match s.requests w with
    | some r =>
      if s.satisfies r.precond then
        if s.etagAllowed etag r.body then
          some { s with history := s.history ++ [⟨etag, r.body, w, r.manifest⟩],
                        requests := update s.requests w none,
                        responses := update s.responses w (some (.won etag)) }
        else none
      else
        some { s with requests := update s.requests w none,
                      responses := update s.responses w (some .lostRace) }
    | none => none
  | .receive w =>
    match s.phases w, s.responses w with
    | .sent m key, some (.won _) => some (s.setPhase w (.won m key))
    | .sent _ key, some .lostRace => some (s.setPhase w (.lostRace key))
    | _, _ => none
  | .noAnswer w message =>
    match s.phases w with
    | .sent _ _ =>
      some (s.setPhase w (.failedAfter (.publish (.backend (.backend message)))))
    | _ => none
  | .readWinnerPointer n =>
    match s.phases (.push n) with
    | .lostRace _ =>
      match s.pointer with
      | none => some (s.setPhase (.push n) (.failedAfter (.publish (.manifestReadFailed
          "pointer vanished after LostRace (no-delete rule violated)"))))
      | some (_, body) =>
        match parsePointerBody body with
        | none => some (s.setPhase (.push n) (.failedAfter (.publish (.manifestReadFailed
            s!"winner pointer body is not a 64-char hex digest (got {(trim body).utf8ByteSize} chars)"))))
        | some digest => some (s.setPhase (.push n) (.winnerRead digest))
    | _ => none
  | .readWinnerManifest n =>
    match s.phases (.push n) with
    | .winnerRead digest =>
      match loadWinner H fromSlice s.store digest with
      | .error e => some (s.setPhase (.push n) (.failedAfter (.publish e)))
      | .ok m => some (s.setPhase (.push n) (.conflict m s!"manifests/{digest}"))
    | _ => none
  | .compareSeed n =>
    match s.phases (.seed n) with
    | .lostRace key =>
      match s.pointer with
      | none => some (s.setPhase (.seed n)
          (.failedAfter (.announce "pointer vanished after LostRace race")))
      | some (_, body) =>
        if stripPrefix key "manifests/" = some (trim body) then
          some (s.setPhase (.seed n) .alreadySeeded)
        else some (s.setPhase (.seed n) (.failedAfter
          (.announce s!"already has a non-empty pointer ({trim body})")))
    | _ => none
  | .fail w e =>
    if (s.phases w).running then some (s.setPhase w (.failedBefore e)) else none
  | .failWinner w e =>
    if (s.phases w).readingWinner then some (s.setPhase w (.failedAfter e)) else none
  | .crash w => some (s.setPhase w .crashed)

/-- Nothing has been stored, nobody has done anything. -/
def Init (s : State) : Prop :=
  s.store = .empty ∧ s.history = [] ∧ (∀ w, s.phases w = .start) ∧ (∀ w, s.requests w = none) ∧
    ∀ w, s.responses w = none

def protocol : StateMachine State Action := ⟨Init, step H fromSlice⟩

end Buzz.Git
