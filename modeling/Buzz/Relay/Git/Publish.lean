import Buzz.Core.Basic
import Buzz.Relay.Git.Store

/-!
# Composing the next manifest

The part of `cas_publish` between receive-pack and the first write of a manifest: which packs the
next manifest names, with which head, and whether it may be written. What git and the store answer
on the way is a parameter (`Workspace`), so this is a function.

There are two ways to name packs. The delta path extends the parent's list by one pack with the
new objects; compaction, tried when the parent already names many packs, replaces the list. A
failed compaction falls back to the delta path, unless the parent is at the hard limit.
-/

namespace Buzz.Git

/-- Errors `cas_publish` surfaces. -/
inductive CasError where
  | conflict (winnerManifest : Manifest) (winnerManifestKey : String)
  /-- The current pointer names a manifest that cannot be reconstructed. -/
  | manifestReadFailed (message : String)
  | manifestInvalid (error : ManifestError)
  | backend (error : StoreError)
  | packCapture (message : String)
  | resourceLimit (message : String)

/-- Resource limits carried from hydration into the publish step. -/
structure PublishLimits where
  parentHydratedBytes : Nat
  maxPackBytes : Nat
  /-- Maximum total hydrated bytes allowed for the resulting repo. -/
  maxRepoBytes : Nat

/-- Resolved view of the pre-push pointer. -/
structure ParentState where
  ifMatch : Option ETag
  parentDigest : Option String
  parent : Manifest

namespace ParentState

/-- State for a brand-new repo with no published manifest yet. -/
def fresh : ParentState := ⟨none, none, ⟨manifestVersion, "", ∅, [], none⟩⟩

def fromLoaded (etag : ETag) (digest : String) (parent : Manifest) : ParentState :=
  ⟨some etag, some digest, parent⟩

end ParentState

/-- A pack of a compaction. -/
structure CompactedPack where
  pack : ByteArray
  idxBytes : Nat

/-- What git and the store answer while one manifest is composed. -/
structure Workspace where
  refsAfter : RefMap
  headObserved : String
  /-- `pack-objects` without negative tips: the permit, the object limit, the run. -/
  compaction : Except CasError (List CompactedPack)
  compactionUpload : Option CasError
  /-- Output of `pack-objects` with the parent's tips as negative tips. -/
  delta : Except CasError ByteArray
  deltaUpload : Option CasError

/-! ### Head -/

def isPublishedBranch (refs : RefMap) (name : String) : Bool :=
  startsWith name "refs/heads/" && refs.contains name

/-- The head that is published: a real branch whenever one exists. -/
def resolvePublishedHead (refs : RefMap) (observedHead parentHead : String) : String :=
  if isPublishedBranch refs observedHead then observedHead
  else if isPublishedBranch refs parentHead then parentHead
  else match ["refs/heads/main", "refs/heads/master"].find? fun b => refs.contains b with
    | some preferred => preferred
    | none =>
      match refs.keys.find? fun name => startsWith name "refs/heads/" with
      | some branch => branch
      | none => if observedHead ≠ "" then observedHead else parentHead

/-! ### The two pack lists -/

/-- Extend the parent's packs by at most one. -/
def composeAfter (parent : Manifest) (parentDigest : Option String) (head : String)
    (refs : RefMap) (newPackKey : Option String) : Manifest where
  version := manifestVersion
  head := head
  refs := refs
  packs := sortDedup (match newPackKey with
    | some k => if k ∈ parent.packs then parent.packs else parent.packs ++ [k]
    | none => parent.packs)
  parent := parentDigest

def composeCompactedAfter (parentDigest : Option String) (head : String) (refs : RefMap)
    (compactedPackKeys : List String) : Manifest where
  version := manifestVersion
  head := head
  refs := refs
  packs := sortDedup compactedPackKeys
  parent := parentDigest

/-- Whether the parent names enough packs to try compaction. -/
def shouldCompact (parentPackCount threshold : Nat) : Bool := decide (parentPackCount ≥ threshold)

/-- Whether a compacted pack set is worth having: it is smaller, or the parent is at the limit. -/
def compactedPackSetIsUsable (parentPackCount compactedPackCount : Nat) : Bool :=
  decide (compactedPackCount < parentPackCount) ||
    (decide (parentPackCount ≥ maxManifestPacks) && decide (compactedPackCount ≤ maxManifestPacks))

/-- The size checks on compacted packs, with the running total. -/
def checkCompactedSizes (limits : PublishLimits) : Nat → List CompactedPack → Except CasError Unit
  | _, [] => .ok ()
  | total, p :: ps =>
    let sum := total + p.pack.size
    if p.pack.size > limits.maxPackBytes then
      .error (.resourceLimit s!"compacted pack is {p.pack.size} bytes (max {limits.maxPackBytes})")
    else if sum ≥ 2 ^ 64 then .error (.resourceLimit "compacted byte count overflowed u64")
    else if sum > limits.maxRepoBytes then
      .error (.resourceLimit
        s!"compacted repo needs {sum} bytes (max {limits.maxRepoBytes})")
    else if p.idxBytes > limits.maxPackBytes then
      .error (.resourceLimit s!"compacted idx is {p.idxBytes} bytes (max {limits.maxPackBytes})")
    else checkCompactedSizes limits sum ps

/-- Capture the complete object closure reachable from the post-push refs. -/
def captureCompactedPacks (limits : PublishLimits) (ws : Workspace) :
    Except CasError (List CompactedPack) :=
  if ws.refsAfter.isEmpty then .ok []
  else do
    let packs ← ws.compaction
    if packs.length > maxManifestPacks then
      .error (.resourceLimit
        s!"compaction produced {packs.length} packs (max {maxManifestPacks})")
    else do
      checkCompactedSizes limits 0 packs
      return packs

/-- Capture, test and upload the compacted packs. -/
def prepareCompaction (limits : PublishLimits) (ws : Workspace) (packsBefore : Nat) :
    Except CasError (List ByteArray) := do
  let compacted ← captureCompactedPacks limits ws
  if !compactedPackSetIsUsable packsBefore compacted.length then
    .error (.resourceLimit (s!"compaction did not reduce pack count (before {packsBefore}, " ++
      s!"after {compacted.length})"))
  else match ws.compactionUpload with
    | some e => .error e
    | none => .ok (compacted.map CompactedPack.pack)

/-- Capture the objects this push introduced as a single pack, if there are any. -/
def capturePack (limits : PublishLimits) (ws : Workspace) : Except CasError (Option ByteArray) :=
  if ws.refsAfter.isEmpty then .ok none
  else do
    let stdout ← ws.delta
    if stdout.size > limits.maxPackBytes then
      .error (.resourceLimit
        s!"pack-objects output is {stdout.size} bytes (max {limits.maxPackBytes})")
    else .ok (if stdout.size = 0 then none else some stdout)

/-- Upload the delta pack, if there is one. -/
def uploadDelta (limits : PublishLimits) (ws : Workspace) :
    Option ByteArray → Except CasError (Option ByteArray)
  | none => .ok none
  | some pack =>
    let total := limits.parentHydratedBytes + pack.size
    if total ≥ 2 ^ 64 then .error (.resourceLimit "repo byte count overflowed u64")
    else if total > limits.maxRepoBytes then
      .error (.resourceLimit
        s!"repo would need {total} hydrated bytes (max {limits.maxRepoBytes})")
    else match ws.deltaUpload with
      | some e => .error e
      | none => .ok (some pack)

/-- A composed manifest and the packs that were uploaded for it. -/
structure Composed where
  manifest : Manifest
  uploads : List ByteArray

variable (H : Sha256)

def packKey (pack : ByteArray) : String := contentKey H "packs" pack

/-- The next manifest: compacted when that is tried and works, else the parent plus a delta. -/
def composeManifest (compactionThreshold : Nat) (st : ParentState) (limits : PublishLimits)
    (ws : Workspace) : Except CasError Composed :=
  let head := resolvePublishedHead ws.refsAfter ws.headObserved st.parent.head
  let packsBefore := st.parent.packs.length
  let compaction := if shouldCompact packsBefore compactionThreshold then
    some (prepareCompaction limits ws packsBefore) else none
  match compaction with
  | some (.ok packs) =>
    -- `upload_compacted_packs` sorts and dedups the keys before `compose_compacted_after` does
    .ok ⟨composeCompactedAfter st.parentDigest head ws.refsAfter
      (sortDedup (packs.map (packKey H))), packs⟩
  | compaction => do
    let captured ← capturePack limits ws
    if captured.isSome && decide (packsBefore ≥ maxManifestPacks) then
      match compaction with
      | some (.error e) => .error e
      | _ => .error (.resourceLimit
          s!"repository already names {packsBefore} packs and compaction failed")
    else do
      let pack ← uploadDelta limits ws captured
      return ⟨composeAfter st.parent st.parentDigest head ws.refsAfter (pack.map (packKey H)),
        pack.toList⟩

/-- `cas_publish_inner` up to the writes of the manifest and of the pointer. -/
def casPublishInner (compactionThreshold : Nat) (st : ParentState) (limits : PublishLimits)
    (ws : Workspace) : Except CasError Composed := do
  let composed ← composeManifest H compactionThreshold st limits ws
  match composed.manifest.validate with
  | .error e => .error (.manifestInvalid e)
  | .ok () => .ok composed

/-! ### What the paths produce -/

variable {limits : PublishLimits} {ws : Workspace}

theorem capturePack_ok {captured : Option ByteArray} (h : capturePack limits ws = .ok captured) :
    (ws.refsAfter.isEmpty = true ∧ captured = none) ∨
      ∃ stdout, ws.delta = .ok stdout ∧ captured = if stdout.size = 0 then none else some stdout := by
  unfold capturePack at h
  split at h
  · next hempty => exact Or.inl ⟨hempty, (Except.ok.inj h).symm⟩
  · obtain ⟨stdout, hdelta, h⟩ := bind_eq_ok_iff.mp h
    by_cases hsize : stdout.size > limits.maxPackBytes
    · rw [if_pos hsize] at h
      simp at h
    · rw [if_neg hsize] at h
      exact Or.inr ⟨stdout, hdelta, (Except.ok.inj h).symm⟩

theorem uploadDelta_ok {captured pack : Option ByteArray}
    (h : uploadDelta limits ws captured = .ok pack) : pack = captured := by
  cases captured with
  | none => exact (Except.ok.inj h).symm
  | some stdout =>
    simp only [uploadDelta] at h
    split at h
    · simp at h
    split at h
    · simp at h
    split at h
    · simp at h
    · exact (Except.ok.inj h).symm

theorem captureCompactedPacks_ok {packs : List CompactedPack}
    (h : captureCompactedPacks limits ws = .ok packs) :
    (ws.refsAfter.isEmpty = true ∧ packs = []) ∨ ws.compaction = .ok packs := by
  unfold captureCompactedPacks at h
  split at h
  · next hempty => exact Or.inl ⟨hempty, (Except.ok.inj h).symm⟩
  · obtain ⟨packs', hgit, h⟩ := bind_eq_ok_iff.mp h
    split at h
    · simp at h
    · obtain ⟨-, -, h⟩ := bind_eq_ok_iff.mp h
      exact Or.inr (hgit.trans (congrArg _ (Except.ok.inj h)))

theorem prepareCompaction_ok {packsBefore : Nat} {packs : List ByteArray}
    (h : prepareCompaction limits ws packsBefore = .ok packs) :
    ∃ compacted, captureCompactedPacks limits ws = .ok compacted ∧
      packs = compacted.map CompactedPack.pack := by
  unfold prepareCompaction at h
  obtain ⟨compacted, hcapture, h⟩ := bind_eq_ok_iff.mp h
  refine ⟨compacted, hcapture, ?_⟩
  split at h
  · simp at h
  · split at h
    · simp at h
    · exact (Except.ok.inj h).symm

variable {H}

variable {threshold : Nat} {st : ParentState} {c : Composed}

/-- A composed manifest names either the compacted packs alone, or the parent's packs and at most
one more. -/
theorem composeManifest_cases (h : composeManifest H threshold st limits ws = .ok c) :
    (∃ compacted, captureCompactedPacks limits ws = .ok compacted ∧
        c.uploads = compacted.map CompactedPack.pack ∧
        c.manifest = composeCompactedAfter st.parentDigest
          (resolvePublishedHead ws.refsAfter ws.headObserved st.parent.head) ws.refsAfter
          (sortDedup (c.uploads.map (packKey H)))) ∨
      ∃ captured, capturePack limits ws = .ok captured ∧ c.uploads = captured.toList ∧
        c.manifest = composeAfter st.parent st.parentDigest
          (resolvePublishedHead ws.refsAfter ws.headObserved st.parent.head) ws.refsAfter
          (captured.map (packKey H)) := by
  unfold composeManifest at h
  dsimp only at h
  split at h
  · next packs hpacks =>
    obtain rfl := (Except.ok.inj h).symm
    split at hpacks
    · obtain ⟨compacted, hcapture, rfl⟩ := prepareCompaction_ok (Option.some.inj hpacks)
      exact Or.inl ⟨compacted, hcapture, rfl, rfl⟩
    · simp at hpacks
  · obtain ⟨captured, hcapture, h⟩ := bind_eq_ok_iff.mp h
    split at h
    · split at h <;> simp at h
    · obtain ⟨pack, hpack, hret⟩ := bind_eq_ok_iff.mp h
      cases hret
      rw [uploadDelta_ok hpack]
      exact Or.inr ⟨captured, hcapture, rfl, rfl⟩

theorem composeManifest_parent (h : composeManifest H threshold st limits ws = .ok c) :
    c.manifest.parent = st.parentDigest := by
  rcases composeManifest_cases h with ⟨_, _, _, hm⟩ | ⟨_, _, _, hm⟩ <;> rw [hm] <;> rfl

theorem composeManifest_refs (h : composeManifest H threshold st limits ws = .ok c) :
    c.manifest.refs = ws.refsAfter := by
  rcases composeManifest_cases h with ⟨_, _, _, hm⟩ | ⟨_, _, _, hm⟩ <;> rw [hm] <;> rfl

theorem casPublishInner_ok (h : casPublishInner H threshold st limits ws = .ok c) :
    composeManifest H threshold st limits ws = .ok c ∧ c.manifest.Valid := by
  obtain ⟨composed, hcompose, h⟩ := bind_eq_ok_iff.mp h
  split at h
  · simp at h
  · next hvalid =>
    cases h
    exact ⟨hcompose, Manifest.validate_eq_ok_iff.mp hvalid⟩

end Buzz.Git
