import Buzz.Relay.Git.PublishSoundness
import Mathlib.Data.Set.Lattice

/-!
# Published manifests are closed and bounded

A manifest is *closed* when the packs it names contain every object reachable from its refs: a
clone of a manifest that is not closed fails, however validly it was installed. Closure is an
induction over the publications of one repository. The delta path relies on the parent being
closed, because its pack leaves out what the parent's refs reach; compaction relies on nothing.

Git is a parameter: which objects a commit reaches, which objects a pack file contains. What is
assumed of it is what `pack-objects` promises, and it is assumed of each call by itself: a
`GitCall` carries the proof that its answers are right for the tips it was given.
-/

namespace Buzz.Git

open List

/-- The objects of a repository, as git sees them. -/
structure GitModel (Obj : Type*) where
  reach : String → Set Obj
  objects : ByteArray → Set Obj
  objects_empty : ∀ pack : ByteArray, pack.size = 0 → objects pack = ∅

variable {Obj : Type*}

def GitModel.reachable (G : GitModel Obj) (refs : RefMap) : Set Obj := ⋃ r ∈ refs.toList, G.reach r.2

theorem GitModel.reachable_of_isEmpty (G : GitModel Obj) {refs : RefMap} (h : refs.isEmpty = true) :
    G.reachable refs = ∅ := by
  rw [← Std.ExtTreeMap.isEmpty_toList, List.isEmpty_iff] at h
  simp [GitModel.reachable, h]

/-- Git's answers during one publication, from a workspace hydrated with the refs `before`. -/
structure GitCall (G : GitModel Obj) where
  before : RefMap
  ws : Workspace
  /-- A delta pack contains what the new refs reach and the old ones do not. -/
  delta_spec : ∀ stdout, ws.delta = .ok stdout →
    G.objects stdout = G.reachable ws.refsAfter \ G.reachable before
  compaction_spec : ∀ packs, ws.compaction = .ok packs →
    ⋃ p ∈ packs, G.objects p.pack = G.reachable ws.refsAfter

/-- The packs a manifest names contain every object its refs reach. -/
def Closed (G : GitModel Obj) (store : ObjectStore) (m : Manifest) : Prop :=
  ∀ o ∈ G.reachable m.refs, ∃ k ∈ m.packs, ∃ pack, store.get k = some pack ∧ o ∈ G.objects pack

variable {G : GitModel Obj} {s : ObjectStore} {m : Manifest}

theorem Closed.of_le {t : ObjectStore} (hm : Closed G s m) (h : s.le t) : Closed G t m := by
  intro o ho
  obtain ⟨k, hk, pack, hget, hmem⟩ := hm o ho
  exact ⟨k, hk, pack, ObjectStore.get_of_le h hget, hmem⟩

theorem Closed.canonicalize (hm : Closed G s m) : Closed G s m.canonicalize := by
  intro o ho
  obtain ⟨k, hk, hrest⟩ := hm o ho
  exact ⟨k, Manifest.mem_canonicalize_packs.mpr hk, hrest⟩

theorem closed_of_isEmpty (h : m.refs.isEmpty = true) : Closed G s m := by
  intro o ho
  rw [G.reachable_of_isEmpty h] at ho
  exact absurd ho (Set.notMem_empty o)

variable {H : Sha256}

variable {st : ParentState} {limits : PublishLimits}

/-- **One publication keeps closure.** The parent is closed, git answers what it promises, and the
uploaded packs can be read back: then the next manifest is closed. -/
theorem closed_composeManifest {threshold : Nat} {call : GitCall G} {c : Composed}
    (hcompose : composeManifest H threshold st limits call.ws = .ok c)
    (hbefore : call.before = st.parent.refs) (hparent : Closed G s st.parent)
    (huploads : ∀ pack ∈ c.uploads, s.get (packKey H pack) = some pack) :
    Closed G s c.manifest := by
  rcases composeManifest_cases hcompose with ⟨compacted, hcapture, hup, hm⟩ |
    ⟨captured, hcapture, hup, hm⟩
  · -- compaction: every reachable object is in one of the new packs
    rcases captureCompactedPacks_ok hcapture with ⟨hempty, -⟩ | hgit
    · exact closed_of_isEmpty (by rw [hm]; exact hempty)
    · intro o ho
      rw [hm] at ho
      rw [show (composeCompactedAfter _ _ call.ws.refsAfter _).refs = call.ws.refsAfter from rfl,
        ← call.compaction_spec compacted hgit] at ho
      obtain ⟨p, hp, hop⟩ := Set.mem_iUnion₂.mp ho
      have hupload : p.pack ∈ c.uploads := hup ▸ mem_map_of_mem hp
      refine ⟨packKey H p.pack, ?_, p.pack, huploads _ hupload, hop⟩
      rw [hm]
      exact mem_sortDedup.mpr (mem_sortDedup.mpr (mem_map_of_mem hupload))
  · -- delta: what the old refs reach is in the parent's packs, the rest in the new pack
    rcases capturePack_ok hcapture with ⟨hempty, -⟩ | ⟨stdout, hgit, hcaptured⟩
    · exact closed_of_isEmpty (by rw [hm]; exact hempty)
    · intro o ho
      rw [hm] at ho
      by_cases hold : o ∈ G.reachable st.parent.refs
      · obtain ⟨k, hk, hrest⟩ := hparent o hold
        refine ⟨k, ?_, hrest⟩
        rw [hm]
        refine mem_sortDedup.mpr ?_
        cases captured with
        | none => exact hk
        | some pack =>
          dsimp only [Option.map_some]
          split
          · exact hk
          · exact mem_append_left _ hk
      · have hdelta := call.delta_spec stdout hgit
        have hop : o ∈ G.objects stdout := by
          rw [hdelta, hbefore]
          exact ⟨ho, hold⟩
        have hsize : stdout.size ≠ 0 := fun h => by simp [G.objects_empty stdout h] at hop
        rw [if_neg hsize] at hcaptured
        subst hcaptured
        refine ⟨packKey H stdout, ?_, stdout, huploads _ (by simp [hup]), hop⟩
        rw [hm]
        refine mem_sortDedup.mpr ?_
        dsimp only [Option.map_some]
        split
        · next hmem => exact hmem
        · exact mem_append_right _ (mem_singleton_self _)

/-! ### Sequences of publications -/

/-- A repository between two publications. -/
structure RepoState where
  store : ObjectStore
  parent : ParentState
  installed : List Manifest

/-- A publication, or an upload beside it. -/
inductive RepoAction (G : GitModel Obj) where
  /-- A publication, and the ETag its pointer write gets if it succeeds. -/
  | publish (call : GitCall G) (limits : PublishLimits) (etag : ETag)
  /-- An upload by a publication that fails, or of another repository. -/
  | upload (pack : ByteArray)

variable (H)

/-- Upload packs one after the other; `none` when one collides. -/
def uploadAll : ObjectStore → List ByteArray → Option ObjectStore
  | s, [] => some s
  | s, pack :: packs =>
    if s.collides H "packs" pack then none
    else uploadAll (s.putImmutable H "packs" pack).2 packs

/-- One publication after the other. A failed one changes nothing; after a successful one the next
is hydrated from what can be read back. -/
def publishStep {G : GitModel Obj} (s : RepoState) : RepoAction G → Option RepoState
  | .publish call limits etag =>
    if call.before = s.parent.parent.refs then
      match casPublishInner H packCompactionThreshold s.parent limits call.ws with
      | .error _ => some s
      | .ok c => (uploadAll H s.store c.uploads).map fun store =>
        { store := store
          parent := .fromLoaded etag (manifestDigest H c.manifest) c.manifest.canonicalize
          installed := s.installed ++ [c.manifest] }
    else none
  | .upload pack =>
    if s.store.collides H "packs" pack then none
    else some { s with store := (s.store.putImmutable H "packs" pack).2 }

/-- Nothing is published, or only the empty manifest of the announcement. -/
def RepoInit (s : RepoState) : Prop :=
  (s.parent = .fresh ∧ s.installed = []) ∨
    ∃ etag, s.parent = .fromLoaded etag (manifestDigest H emptyManifest) emptyManifest ∧
      s.installed = [emptyManifest]

def publications (G : GitModel Obj) : StateMachine RepoState (RepoAction G) :=
  ⟨RepoInit H, publishStep H⟩

variable {H}

theorem uploadAll_spec {t : ObjectStore} {packs : List ByteArray}
    (h : uploadAll H s packs = some t) :
    s.le t ∧ ∀ pack ∈ packs, t.get (packKey H pack) = some pack := by
  induction packs generalizing s with
  | nil =>
    cases h
    exact ⟨prefix_rfl, fun pack hp => by simp at hp⟩
  | cons pack packs ih =>
    rw [uploadAll] at h
    split at h
    · simp at h
    · rename_i hcollides
      obtain ⟨hle, hget⟩ := ih h
      refine ⟨(ObjectStore.le_putImmutable ..).trans hle, fun q hq => ?_⟩
      rcases mem_cons.mp hq with rfl | hq
      · exact ObjectStore.get_of_le hle (ObjectStore.get_putImmutable hcollides)
      · exact hget q hq

/-- What holds of the manifest that is published. -/
structure Published (G : GitModel Obj) (store : ObjectStore) (m : Manifest) : Prop where
  valid : m.Valid
  sorted : m.packs.Pairwise (· < ·)
  closed : Closed G store m

theorem published_emptyManifest (G : GitModel Obj) (store : ObjectStore) :
    Published G store emptyManifest where
  valid := Manifest.validate_eq_ok_iff.mp (by decide)
  sorted := List.Pairwise.nil
  closed := closed_of_isEmpty (by decide)

/-- The invariant of a sequence of publications. -/
structure RepoInv (G : GitModel Obj) (s : RepoState) : Prop where
  parent : Closed G s.store s.parent.parent
  installed : ∀ m ∈ s.installed, Published G s.store m

theorem composeManifest_sorted {threshold : Nat} {ws : Workspace} {c : Composed}
    (h : composeManifest H threshold st limits ws = .ok c) : c.manifest.packs.Pairwise (· < ·) := by
  rcases composeManifest_cases h with ⟨_, _, _, hm⟩ | ⟨_, _, _, hm⟩ <;> rw [hm]
  · exact pairwise_sortDedup _
  · exact pairwise_sortDedup _

theorem RepoInv.grow {s : RepoState} (hI : RepoInv G s) {store : ObjectStore}
    (h : s.store.le store) : RepoInv G { s with store := store } where
  parent := hI.parent.of_le h
  installed m hm := ⟨(hI.installed m hm).valid, (hI.installed m hm).sorted,
    (hI.installed m hm).closed.of_le h⟩

theorem RepoInv.step {s s' : RepoState} {a : RepoAction G} (hI : RepoInv G s)
    (h : publishStep H s a = some s') : RepoInv G s' := by
  cases a with
  | publish call limits etag =>
    simp only [publishStep] at h
    split at h
    · rename_i hbefore
      split at h
      · cases h
        exact hI
      · rename_i c hpublish
        obtain ⟨store, hupload, rfl⟩ := Option.map_eq_some_iff.mp h
        obtain ⟨hcompose, hvalid⟩ := casPublishInner_ok hpublish
        obtain ⟨hle, hget⟩ := uploadAll_spec hupload
        have hclosed : Closed G store c.manifest :=
          closed_composeManifest hcompose hbefore (hI.parent.of_le hle) hget
        refine ⟨hclosed.canonicalize, fun m hm => ?_⟩
        rcases mem_append.mp hm with hm | hm
        · exact (hI.grow hle).installed m hm
        · obtain rfl := mem_singleton.mp hm
          exact ⟨hvalid, composeManifest_sorted hcompose, hclosed⟩
    · simp at h
  | upload pack =>
    simp only [publishStep] at h
    split at h
    · simp at h
    · cases h
      exact hI.grow (ObjectStore.le_putImmutable ..)

theorem repoInv_reachable {s : RepoState} (hs : (publications H G).Reachable s) : RepoInv G s := by
  refine hs.invariant (I := RepoInv G) (fun s h => ?_) fun _ _ _ _ hI hstep => hI.step hstep
  rcases h with ⟨hparent, hinst⟩ | ⟨etag, hparent, hinst⟩
  · refine ⟨?_, fun m hm => by simp [hinst] at hm⟩
    rw [hparent]
    exact closed_of_isEmpty (by decide)
  · refine ⟨?_, fun m hm => ?_⟩
    · rw [hparent]
      exact (published_emptyManifest G s.store).closed
    · rw [hinst, mem_singleton] at hm
      exact hm ▸ published_emptyManifest G s.store

/-- **Published manifests are closed and bounded.** After any sequence of publications from the
empty manifest, whichever paths they took, every installed manifest passes validation, names at
most 128 packs, is its own canonical form with sorted and distinct packs, and its packs contain
every object its refs reach. -/
theorem published_closed {G : GitModel Obj} {s : RepoState}
    (hs : (publications H G).Reachable s) :
    ∀ m ∈ s.installed, m.validate = .ok () ∧ m.packs.length ≤ maxManifestPacks ∧
      m.canonicalize = m ∧ m.packs.Pairwise (· < ·) ∧ Closed G s.store m := by
  intro m hm
  obtain ⟨hvalid, hsorted, hclosed⟩ := (repoInv_reachable hs).installed m hm
  refine ⟨Manifest.validate_eq_ok_iff.mpr hvalid, hvalid.packs_le, ?_, hsorted, hclosed⟩
  rw [Manifest.canonicalize, sortDedup_of_pairwise hsorted]

/-! ### Two publications -/

/-- One object, reachable from one id and contained in every pack. -/
def oneObject : GitModel Unit where
  reach oid := {_o | oid = someOid}
  objects pack := {_o | pack.size ≠ 0}
  objects_empty pack h := by simp [h]

theorem reachable_empty : oneObject.reachable ∅ = ∅ :=
  oneObject.reachable_of_isEmpty (by decide)

theorem reachable_main :
    oneObject.reachable ((∅ : RefMap).insert "refs/heads/main" someOid) = {_o | True} := by
  have htoList : ((∅ : RefMap).insert "refs/heads/main" someOid).toList =
      [("refs/heads/main", someOid)] := by decide +kernel
  simp [GitModel.reachable, htoList, oneObject]

/-- The first push creates `main`. -/
def createMain : GitCall oneObject where
  before := ∅
  ws := pushTo "refs/heads/main" ⟨#[1]⟩
  delta_spec stdout h := by
    cases h
    rw [show (pushTo "refs/heads/main" ⟨#[1]⟩).refsAfter = (∅ : RefMap).insert "refs/heads/main" someOid
      from rfl, reachable_main, reachable_empty, Set.sdiff_empty]
    have hsize : (⟨#[1]⟩ : ByteArray).size ≠ 0 := by decide
    exact Set.ext fun _ => ⟨fun _ => trivial, fun _ => hsize⟩
  compaction_spec := nofun

def deleteAll : GitCall oneObject where
  before := (∅ : RefMap).insert "refs/heads/main" someOid
  ws := ⟨∅, "refs/heads/main", .error (.packCapture "not tried"), none, .ok ⟨#[]⟩, none⟩
  delta_spec stdout h := by
    cases h
    rw [reachable_empty, Set.empty_sdiff]
    exact oneObject.objects_empty _ rfl
  compaction_spec := nofun

def unborn : RepoState := ⟨.empty, .fresh, []⟩

/-- Both pushes, from the unborn repository. -/
def createThenDelete : List (RepoAction oneObject) :=
  [.publish createMain someLimits ⟨"e0"⟩, .publish deleteAll someLimits ⟨"e1"⟩]

theorem createThenDelete_ends : (((publications toySha256 oneObject).run unborn
    createThenDelete).any fun s => s.installed.length == 2) = true := by
  decide +kernel

theorem published_closed_createThenDelete :
    ∃ s, (publications toySha256 oneObject).run unborn createThenDelete = some s ∧
      s.installed.length = 2 ∧ ∀ m ∈ s.installed, m.validate = .ok () ∧
        m.packs.length ≤ maxManifestPacks ∧ m.canonicalize = m ∧ m.packs.Pairwise (· < ·) ∧
        Closed oneObject s.store m := by
  obtain ⟨s, hrun, hends⟩ := (Option.any_eq_true _ _).mp createThenDelete_ends
  exact ⟨s, hrun, beq_iff_eq.mp hends,
    published_closed ⟨unborn, createThenDelete, Or.inl ⟨rfl, rfl⟩, hrun⟩⟩

end Buzz.Git
