import Buzz.Relay.Git.PublishProtocol

/-!
# Publication neither forks nor loses a push

The compare-and-swap compares ETags, and what has to be shown is that it compares *parents*. A
writer's precondition is `Anchored`: it names the ETag of some installed version whose body is the
parent digest of the manifest the writer is about to install. When the store finds that ETag on
the last version, the two bodies agree because an ETag determines the body, so the parent is the
digest of the last manifest and the new one extends the chain.

That no digest ever comes back is a fact about chains (`LinkedFrom.nodup`): a manifest contains
its parent's digest, and without collisions equal digests have equal parents.
-/

namespace Buzz.Git

open List Option Function

variable {H : Sha256} {fromSlice : ByteArray → Option Manifest}

/-! ### The invariant -/

/-- A precondition names a version whose body is `parent`, or that there is none. -/
def Anchored (s : State) (parent : Option String) : Precond → Prop
  | .ifNoneMatchStar => parent = none
  | .ifMatch etag => ∃ v ∈ s.history, v.etag = etag ∧ parent = some v.body

variable (H) in
/-- A valid manifest whose bytes are in the store. -/
structure Stored (s : State) (m : Manifest) : Prop where
  valid : m.Valid
  bytes : s.store.get (manifestKey H m) = some m.canonicalBytes

variable (H) in
/-- A pointer write that extends the chain when its precondition holds. -/
structure RequestOk (s : State) (r : Request) : Prop where
  anchored : Anchored s r.manifest.parent r.precond
  stored : Stored H s r.manifest
  body_eq : r.body = manifestDigest H r.manifest

variable (H) in
/-- What a writer in a phase has established. -/
def PhaseOk (s : State) (w : Writer) : Phase → Prop
  | .pointerRead etag digest => ∃ v ∈ s.history, v.etag = etag ∧ v.body = digest
  | .hydrated st => Anchored s st.parentDigest st.precond
  | .received st _ _ => Anchored s st.parentDigest st.precond
  | .composed st m => Anchored s m.parent st.precond ∧ m.Valid
  | .manifestPut st m key =>
    Anchored s m.parent st.precond ∧ Stored H s m ∧ key = manifestKey H m
  | .sent m key =>
    key = manifestKey H m ∧ (∀ r ∈ s.requests w, r.manifest = m) ∧
      ∀ etag, s.responses w = some (.won etag) → ∃ v ∈ s.history, v.writer = w ∧ v.manifest = m
  | .won m key => key = manifestKey H m ∧ ∃ v ∈ s.history, v.writer = w ∧ v.manifest = m
  | _ => True

/-- Phases of a writer that has not sent a pointer write. -/
def Phase.unsent : Phase → Bool
  | .failedBefore _ => true
  | p => p.running

/-- Phases of a writer whose pointer write was answered 412. -/
def Phase.lost : Phase → Bool
  | .conflict .. | .alreadySeeded => true
  | p => p.readingWinner

variable (H) in
/-- What holds of a writer. -/
structure WriterOk (s : State) (w : Writer) : Prop where
  /-- A pointer write that waits is well formed and has no answer yet. -/
  request : ∀ r, s.requests w = some r → RequestOk H s r ∧ s.responses w = none
  phase : PhaseOk H s w (s.phases w)
  silent : (s.phases w).unsent = true → s.requests w = none ∧ s.responses w = none
  /-- Who acts on a 412 has received one. -/
  lost : (s.phases w).lost = true → s.responses w = some .lostRace

variable (H) in
/-- **The invariant.** -/
structure Inv (s : State) : Prop where
  chain : LinkedFrom Manifest.parent (manifestDigest H) none s.installed
  versions : ∀ v ∈ s.history, v.body = manifestDigest H v.manifest ∧ Stored H s v.manifest
  etags : ∀ v ∈ s.history, ∀ v' ∈ s.history, v.etag = v'.etag → v.body = v'.body
  /-- A writer has installed something exactly when the store has told it so. -/
  wrote : ∀ w, (∃ v ∈ s.history, v.writer = w) ↔ ∃ etag, s.responses w = some (.won etag)
  writers : ∀ w, WriterOk H s w

/-! ### What later states keep -/

/-- `s'` is later: nothing stored or installed is gone. -/
structure Later (s s' : State) : Prop where
  store : s.store.le s'.store
  history : s.history <+: s'.history

variable {s s' : State}

theorem Later.of_eq (hs : s'.store = s.store) (hh : s'.history = s.history) : Later s s' :=
  ⟨hs ▸ prefix_rfl, hh ▸ prefix_rfl⟩

theorem Anchored.later (h : Later s s') {parent : Option String} {p : Precond}
    (ha : Anchored s parent p) : Anchored s' parent p := by
  cases p with
  | ifNoneMatchStar => exact ha
  | ifMatch etag =>
    obtain ⟨v, hv, hetag, hbody⟩ := ha
    exact ⟨v, h.history.subset hv, hetag, hbody⟩

theorem Stored.later (h : Later s s') {m : Manifest} (hs : Stored H s m) : Stored H s' m :=
  ⟨hs.valid, ObjectStore.get_of_le h.store hs.bytes⟩

theorem RequestOk.later (h : Later s s') {r : Request} (hr : RequestOk H s r) : RequestOk H s' r :=
  ⟨hr.anchored.later h, hr.stored.later h, hr.body_eq⟩

variable {w : Writer} {p : Phase}

theorem PhaseOk.later_of_sent (h : Later s s') (hp : PhaseOk H s w p)
    (hsent : ∀ m key, p = .sent m key → PhaseOk H s' w (.sent m key)) : PhaseOk H s' w p := by
  cases p with
  | pointerRead etag digest =>
    obtain ⟨v, hv, hrest⟩ := hp
    exact ⟨v, h.history.subset hv, hrest⟩
  | hydrated st | received st limits ws => exact Anchored.later h hp
  | composed st m => exact ⟨hp.1.later h, hp.2⟩
  | manifestPut st m key => exact ⟨hp.1.later h, hp.2.1.later h, hp.2.2⟩
  | sent m key => exact hsent m key rfl
  | won m key =>
    obtain ⟨hkey, v, hv, hrest⟩ := hp
    exact ⟨hkey, v, h.history.subset hv, hrest⟩
  | _ => trivial

theorem PhaseOk.later (h : Later s s') (hreq : s'.requests w = s.requests w)
    (hresp : s'.responses w = s.responses w) (hp : PhaseOk H s w p) : PhaseOk H s' w p := by
  refine hp.later_of_sent h fun m key hsent => ?_
  obtain ⟨hkey, hm, hwon⟩ : PhaseOk H s w (.sent m key) := hsent ▸ hp
  refine ⟨hkey, hreq ▸ hm, fun etag hetag => ?_⟩
  obtain ⟨v, hv, hrest⟩ := hwon etag (hresp ▸ hetag)
  exact ⟨v, h.history.subset hv, hrest⟩

/-! ### What a step can do -/

variable (H) in
/-- A writer moves by itself: the pointer and its requests are untouched. -/
structure Moves (s s' : State) : Prop where
  store : s.store.le s'.store
  history : s'.history = s.history
  requests : s'.requests = s.requests
  responses : s'.responses = s.responses
  /-- A writer that moves knows what its new phase says, and does not forget what it has sent. -/
  phases : ∀ w, s'.phases w = s.phases w ∨
    (PhaseOk H s' w (s'.phases w) ∧
      ((s'.phases w).unsent = true → (s.phases w).unsent = true) ∧
      ((s'.phases w).lost = true → s.responses w = some .lostRace))

/-- Only one writer's phase, request and answer change. -/
structure Touches (s s' : State) (w : Writer) : Prop where
  later : Later s s'
  phases : ∀ v, v ≠ w → s'.phases v = s.phases v
  requests : ∀ v, v ≠ w → s'.requests v = s.requests v
  responses : ∀ v, v ≠ w → s'.responses v = s.responses v

variable (H) in
/-- What a step can do. -/
inductive Effect (s s' : State) : Prop where
  | moves (h : Moves H s s')
  | sends (w : Writer) (st : ParentState) (m : Manifest) (h : Touches s s' w)
      (hphase : s.phases w = .manifestPut st m (manifestKey H m))
      (hhist : s'.history = s.history) (hphase' : s'.phases w = .sent m (manifestKey H m))
      (hreq : s'.requests w = some ⟨st.precond, manifestDigest H m, m⟩)
      (hresp : s'.responses w = s.responses w)
  | installs (w : Writer) (etag : ETag) (r : Request) (h : Touches s s' w)
      (hr : s.requests w = some r) (hsat : s.satisfies r.precond)
      (hetag : s.etagAllowed etag r.body)
      (hhist : s'.history = s.history ++ [⟨etag, r.body, w, r.manifest⟩])
      (hphase : s'.phases w = s.phases w) (hreq : s'.requests w = none)
      (hresp : s'.responses w = some (.won etag))
  | refuses (w : Writer) (r : Request) (h : Touches s s' w) (hr : s.requests w = some r)
      (hhist : s'.history = s.history) (hphase : s'.phases w = s.phases w)
      (hreq : s'.requests w = none) (hresp : s'.responses w = some .lostRace)

theorem Moves.of_update (hstore : s.store.le s'.store) (hhist : s'.history = s.history)
    (hreq : s'.requests = s.requests) (hresp : s'.responses = s.responses)
    (hphases : s'.phases = update s.phases w p) (hok : PhaseOk H s' w p)
    (hunsent : p.unsent = true → (s.phases w).unsent = true)
    (hlost : p.lost = true → s.responses w = some .lostRace) : Moves H s s' := by
  refine ⟨hstore, hhist, hreq, hresp, fun v => ?_⟩
  rw [hphases]
  by_cases hv : v = w
  · subst hv
    rw [update_self]
    exact Or.inr ⟨hok, hunsent, hlost⟩
  · exact Or.inl (update_of_ne hv ..)

theorem Effect.setPhase (hok : PhaseOk H (s.setPhase w p) w p)
    (hunsent : p.unsent = true → (s.phases w).unsent = true)
    (hlost : p.lost = true → s.responses w = some .lostRace) : Effect H s (s.setPhase w p) :=
  .moves (.of_update prefix_rfl rfl rfl rfl rfl hok hunsent hlost)

theorem Effect.advance (hok : PhaseOk H (s.setPhase w p) w p)
    (hunsent : (s.phases w).unsent = true) (hlost : p.lost = false) : Effect H s (s.setPhase w p) :=
  .setPhase hok (fun _ => hunsent) fun hl => by simp [hlost] at hl

theorem Effect.failedBefore {e : WriteError} (h : (s.phases w).unsent = true) :
    Effect H s (s.setPhase w (.failedBefore e)) :=
  .advance trivial h rfl

theorem Effect.failedAfter {e : WriteError} : Effect H s (s.setPhase w (.failedAfter e)) :=
  .setPhase trivial nofun nofun

theorem parsePointerBody_hex (bytes : ByteArray) :
    parsePointerBody (H.hex bytes) = some (H.hex bytes) := by
  have hd := H.hex_digest bytes
  simp only [isManifestDigest, Bool.and_eq_true, beq_iff_eq, List.all_eq_true] at hd
  have htrim : trim (H.hex bytes) = H.hex bytes :=
    trim_eq_self fun c hc => not_isWhitespace_of_isLowerHex (hd.2 c hc)
  have hhex : (H.hex bytes).toList.all isAsciiHexdigit = true :=
    List.all_eq_true.mpr fun c hc => isAsciiHexdigit_of_isLowerHex (hd.2 c hc)
  simp [parsePointerBody, htrim, hd.1, hhex]

theorem stripPrefix_manifestKey (m : Manifest) :
    stripPrefix (manifestKey H m) "manifests/" = some (manifestDigest H m) := by
  have hkey : manifestKey H m = "manifests/" ++ manifestDigest H m := by
    simp [manifestKey, contentKey, manifestDigest]
  rw [hkey, stripPrefix_append]

theorem Inv.pointer_eq (hI : Inv H s) {etag : ETag} {body : String}
    (h : s.pointer = some (etag, body)) :
    ∃ v ∈ s.history, v.etag = etag ∧ v.body = body ∧ parsePointerBody body = some body := by
  obtain ⟨v, hv, hpair⟩ := map_eq_some_iff.mp h
  obtain ⟨rfl, rfl⟩ := Prod.mk.injEq .. ▸ hpair
  have hmem := mem_of_getLast? hv
  refine ⟨v, hmem, rfl, rfl, ?_⟩
  rw [(hI.versions v hmem).1]
  exact parsePointerBody_hex _

theorem effect_readPointer {n : Nat} (hI : Inv H s)
    (h : step H fromSlice s (.readPointer n) = some s') : Effect H s s' := by
  simp only [step] at h
  split at h
  · rename_i hphase
    split at h
    · cases h
      exact .advance rfl (by rw [hphase]; rfl) rfl
    · rename_i etag body hpointer
      obtain ⟨v, hv, hetag, hbody, hparse⟩ := hI.pointer_eq hpointer
      rw [hparse] at h
      cases h
      exact .advance ⟨v, hv, hetag, hbody⟩ (by rw [hphase]; rfl) rfl
  · simp at h

theorem effect_readManifest {n : Nat} (hI : Inv H s)
    (h : step H fromSlice s (.readManifest n) = some s') : Effect H s s' := by
  simp only [step] at h
  split at h
  · rename_i etag digest hphase
    have hunsent : (s.phases (.push n)).unsent = true := by rw [hphase]; rfl
    split at h
    · cases h
      exact .failedBefore hunsent
    · cases h
      obtain ⟨v, hv, hetag, hbody⟩ : PhaseOk H s (.push n) (.pointerRead etag digest) :=
        hphase ▸ (hI.writers (.push n)).phase
      exact .advance ⟨v, hv, hetag, by rw [hbody]; rfl⟩ hunsent rfl
  · simp at h

theorem effect_compose {n : Nat} (hI : Inv H s) (h : step H fromSlice s (.compose n) = some s') :
    Effect H s s' := by
  simp only [step] at h
  split at h
  · rename_i st limits ws hphase
    have hunsent : (s.phases (.push n)).unsent = true := by rw [hphase]; rfl
    split at h
    · cases h
      exact .failedBefore hunsent
    · rename_i c hcompose
      split at h
      · cases h
        obtain ⟨hc, hvalid⟩ := casPublishInner_ok hcompose
        have hok : PhaseOk H s (.push n) (.received st limits ws) :=
          hphase ▸ (hI.writers (.push n)).phase
        have hanchor : Anchored s c.manifest.parent st.precond :=
          (composeManifest_parent hc).symm ▸ hok
        exact .advance ⟨hanchor, hvalid⟩ hunsent rfl
      · simp at h
  · simp at h

theorem effect_composeEmpty {n : Nat} (h : step H fromSlice s (.composeEmpty n) = some s') :
    Effect H s s' := by
  simp only [step] at h
  split at h
  · rename_i hphase
    have hunsent : (s.phases (.seed n)).unsent = true := by rw [hphase]; rfl
    split at h
    · cases h
      exact .failedBefore hunsent
    · rename_i hvalid
      cases h
      exact .advance ⟨rfl, Manifest.validate_eq_ok_iff.mp hvalid⟩ hunsent rfl
  · simp at h

theorem effect_putManifest {answered : Bool} (hI : Inv H s)
    (h : step H fromSlice s (.putManifest w answered) = some s') : Effect H s s' := by
  simp only [step] at h
  split at h
  · rename_i st m hphase
    have hunsent : (s.phases w).unsent = true := by rw [hphase]; rfl
    split at h
    · simp at h
    · rename_i hcollides
      obtain ⟨hanchor, hvalid⟩ : PhaseOk H s w (.composed st m) := hphase ▸ (hI.writers w).phase
      have hkey : (s.store.putImmutable H "manifests" m.canonicalBytes).1 = manifestKey H m :=
        ObjectStore.putImmutable_key ..
      have hget := ObjectStore.get_putImmutable hcollides
      have hle := ObjectStore.le_putImmutable (H := H) s.store "manifests" m.canonicalBytes
      cases h
      refine .moves (.of_update hle rfl rfl rfl rfl ?_ (fun _ => hunsent) ?_)
      · cases answered with
        | true => exact ⟨hanchor, ⟨hvalid, hget⟩, hkey⟩
        | false => trivial
      · cases answered <;> exact nofun
  · simp at h

theorem effect_sendPointer (hI : Inv H s) (h : step H fromSlice s (.sendPointer w) = some s') :
    Effect H s s' := by
  simp only [step] at h
  split at h
  · rename_i st m key hphase
    obtain ⟨-, -, rfl⟩ : PhaseOk H s w (.manifestPut st m key) := hphase ▸ (hI.writers w).phase
    rw [stripPrefix_manifestKey] at h
    cases h
    exact .sends w st m ⟨.of_eq rfl rfl, fun v hv => update_of_ne hv ..,
      fun v hv => update_of_ne hv .., fun _ _ => rfl⟩ hphase rfl
      (update_self ..) (update_self ..) rfl
  · simp at h

theorem effect_apply {etag : ETag} (h : step H fromSlice s (.apply w etag) = some s') :
    Effect H s s' := by
  simp only [step] at h
  split at h
  · rename_i r hr
    split at h
    · rename_i hsat
      split at h
      · rename_i hetag
        cases h
        exact .installs w etag r ⟨⟨prefix_rfl, prefix_append _ _⟩, fun _ _ => rfl,
          fun v hv => update_of_ne hv .., fun v hv => update_of_ne hv ..⟩ hr
          hsat hetag rfl rfl (update_self ..) (update_self ..)
      · simp at h
    · cases h
      exact .refuses w r ⟨.of_eq rfl rfl, fun _ _ => rfl, fun v hv => update_of_ne hv ..,
        fun v hv => update_of_ne hv ..⟩ hr rfl rfl (update_self ..)
        (update_self ..)
  · simp at h

theorem effect_receive (hI : Inv H s) (h : step H fromSlice s (.receive w) = some s') :
    Effect H s s' := by
  simp only [step] at h
  split at h
  · rename_i m key etag hphase hresp
    cases h
    obtain ⟨hkey, -, hwon⟩ : PhaseOk H s w (.sent m key) := hphase ▸ (hI.writers w).phase
    exact .setPhase ⟨hkey, hwon etag hresp⟩ nofun nofun
  · rename_i key hphase hresp
    cases h
    exact .setPhase trivial nofun fun _ => hresp
  · simp at h

theorem effect_readWinnerPointer {n : Nat} (hI : Inv H s)
    (h : step H fromSlice s (.readWinnerPointer n) = some s') : Effect H s s' := by
  simp only [step] at h
  split at h
  · rename_i key hphase
    have hlost := (hI.writers (.push n)).lost (by rw [hphase]; rfl)
    split at h
    · cases h
      exact .failedAfter
    · split at h
      · cases h
        exact .failedAfter
      · cases h
        exact .setPhase trivial nofun fun _ => hlost
  · simp at h

theorem effect_readWinnerManifest {n : Nat} (hI : Inv H s)
    (h : step H fromSlice s (.readWinnerManifest n) = some s') : Effect H s s' := by
  simp only [step] at h
  split at h
  · rename_i digest hphase
    have hlost := (hI.writers (.push n)).lost (by rw [hphase]; rfl)
    split at h
    · cases h
      exact .failedAfter
    · cases h
      exact .setPhase trivial nofun fun _ => hlost
  · simp at h

theorem effect_compareSeed {n : Nat} (hI : Inv H s)
    (h : step H fromSlice s (.compareSeed n) = some s') : Effect H s s' := by
  simp only [step] at h
  split at h
  · rename_i key hphase
    have hlost := (hI.writers (.seed n)).lost (by rw [hphase]; rfl)
    split at h
    · cases h
      exact .failedAfter
    · split at h
      · cases h
        exact .setPhase trivial nofun fun _ => hlost
      · cases h
        exact .failedAfter
  · simp at h

theorem effect_of_step {a : Action} (hI : Inv H s) (h : step H fromSlice s a = some s') :
    Effect H s s' := by
  cases a with
  | readPointer n => exact effect_readPointer hI h
  | readManifest n => exact effect_readManifest hI h
  | receivePack n limits ws =>
    simp only [step] at h
    split at h
    · rename_i st hphase
      cases h
      have hok : PhaseOk H s (.push n) (.hydrated st) := hphase ▸ (hI.writers (.push n)).phase
      exact .advance hok (by rw [hphase]; rfl) rfl
    · simp at h
  | putPack n pack =>
    simp only [step] at h
    split at h
    · split at h
      · simp at h
      · cases h
        exact .moves ⟨ObjectStore.le_putImmutable .., rfl, rfl, rfl, fun _ => Or.inl rfl⟩
    · simp at h
  | compose n => exact effect_compose hI h
  | composeEmpty n => exact effect_composeEmpty h
  | putManifest w answered => exact effect_putManifest hI h
  | sendPointer w => exact effect_sendPointer hI h
  | apply w etag => exact effect_apply h
  | receive w => exact effect_receive hI h
  | noAnswer w message | failWinner w e =>
    simp only [step] at h
    split at h
    · cases h
      exact .failedAfter
    · simp at h
  | readWinnerPointer n => exact effect_readWinnerPointer hI h
  | readWinnerManifest n => exact effect_readWinnerManifest hI h
  | compareSeed n => exact effect_compareSeed hI h
  | fail w e =>
    simp only [step] at h
    split at h
    · rename_i hrunning
      cases h
      refine .failedBefore ?_
      cases hp : s.phases w <;> simp_all [Phase.unsent, Phase.running]
    · simp at h
  | crash w =>
    cases h
    exact .setPhase trivial nofun nofun

/-! ### Each effect preserves the invariant -/

theorem Moves.later (h : Moves H s s') : Later s s' :=
  ⟨h.store, h.history ▸ prefix_rfl⟩

theorem Effect.later (h : Effect H s s') : Later s s' := by
  cases h with
  | moves h | sends _ _ _ h | installs _ _ _ h | refuses _ _ h => exact h.later

theorem WriterOk.later (hw : WriterOk H s w) (h : Later s s') (hphase : s'.phases w = s.phases w)
    (hreq : s'.requests w = s.requests w) (hresp : s'.responses w = s.responses w) :
    WriterOk H s' w where
  request r hr := by
    rw [hresp]
    exact ⟨(hw.request r (hreq ▸ hr)).1.later h, (hw.request r (hreq ▸ hr)).2⟩
  phase := hphase ▸ hw.phase.later h hreq hresp
  silent hu := by
    rw [hreq, hresp]
    exact hw.silent (hphase ▸ hu)
  lost hl := hresp ▸ hw.lost (hphase ▸ hl)

theorem Touches.writerOk (h : Touches s s' w) (hI : ∀ v, WriterOk H s v) (hw : WriterOk H s' w)
    (v : Writer) : WriterOk H s' v := by
  by_cases hv : v = w
  · exact hv ▸ hw
  · exact (hI v).later h.later (h.phases v hv) (h.requests v hv) (h.responses v hv)

theorem Inv.of_history (hI : Inv H s) (h : Later s s') (hhist : s'.history = s.history)
    (hwon : ∀ w, (∃ etag, s'.responses w = some (.won etag)) ↔ ∃ etag, s.responses w = some (.won etag))
    (hwriters : ∀ w, WriterOk H s' w) : Inv H s' where
  chain := by rw [State.installed, hhist]; exact hI.chain
  versions v hv := by
    rw [hhist] at hv
    exact ⟨(hI.versions v hv).1, (hI.versions v hv).2.later h⟩
  etags := by rw [hhist]; exact hI.etags
  wrote w := by rw [hhist, hwon]; exact hI.wrote w
  writers := hwriters

theorem Inv.moves (hI : Inv H s) (h : Moves H s s') : Inv H s' := by
  refine hI.of_history h.later h.history (fun w => by rw [h.responses]) fun w => ?_
  have hw := hI.writers w
  rcases h.phases w with heq | ⟨hok, hunsent, hlost⟩
  · exact hw.later h.later heq (by rw [h.requests]) (by rw [h.responses])
  · refine ⟨fun r hr => ?_, hok, fun hu => ?_, fun hl => ?_⟩
    · rw [h.requests] at hr
      rw [h.responses]
      exact ⟨(hw.request r hr).1.later h.later, (hw.request r hr).2⟩
    · rw [h.requests, h.responses]
      exact hw.silent (hunsent hu)
    · rw [h.responses]
      exact hlost hl

/-- **The compare-and-swap.** When the store finds the precondition of a pointer write satisfied,
the manifest's parent is the digest of the last one installed. -/
theorem Inv.parent_eq_chainHead (hI : Inv H s) {r : Request} (hr : RequestOk H s r)
    (hsat : s.satisfies r.precond) :
    r.manifest.parent = chainHead (manifestDigest H) none s.installed := by
  have hanchored := hr.anchored
  cases hp : r.precond with
  | ifNoneMatchStar =>
    rw [hp] at hsat hanchored
    have hempty : s.history = [] := hsat
    rwa [State.installed, hempty]
  | ifMatch etag =>
    rw [hp] at hsat hanchored
    obtain ⟨v, hv, hetag, hparent⟩ := hanchored
    obtain ⟨last, hlast, hlastEtag⟩ := map_eq_some_iff.mp hsat
    have hmem := mem_of_getLast? hlast
    -- the same ETag, so the same body
    have hbody : v.body = last.body := hI.etags v hv last hmem (hetag.trans hlastEtag.symm)
    rw [hparent, hbody, (hI.versions last hmem).1, State.installed, chainHead, getLast?_map,
      hlast]
    rfl

theorem won_iff_of_touches (h : Touches s s' w)
    (hw : (∃ etag, s'.responses w = some (.won etag)) ↔ ∃ etag, s.responses w = some (.won etag))
    (v : Writer) : (∃ etag, s'.responses v = some (.won etag)) ↔
      ∃ etag, s.responses v = some (.won etag) := by
  by_cases hv : v = w
  · exact hv ▸ hw
  · rw [h.responses v hv]

theorem Inv.step {a : Action} (hI : Inv H s) (h : step H fromSlice s a = some s') : Inv H s' := by
  cases effect_of_step hI h with
  | moves h => exact hI.moves h
  | sends w st m h hphase hhist hphase' hreq hresp =>
    obtain ⟨hanchor, hstored, -⟩ : PhaseOk H s w (.manifestPut st m (manifestKey H m)) :=
      hphase ▸ (hI.writers w).phase
    obtain ⟨-, hnone⟩ := (hI.writers w).silent (by rw [hphase]; rfl)
    have hnone' : s'.responses w = none := hresp.trans hnone
    refine hI.of_history h.later hhist
      (won_iff_of_touches h (by rw [hresp])) (h.writerOk hI.writers ?_)
    refine ⟨fun r hr => ?_, ?_, fun hu => ?_, fun hl => ?_⟩
    · obtain rfl := some.inj (hreq.symm.trans hr)
      exact ⟨⟨hanchor.later h.later, hstored.later h.later, rfl⟩, hnone'⟩
    · rw [hphase']
      refine ⟨rfl, fun r hr => ?_, fun etag hetag => ?_⟩
      · obtain rfl := some.inj (hreq.symm.trans hr)
        rfl
      · rw [hnone'] at hetag
        simp at hetag
    · rw [hphase'] at hu
      simp [Phase.unsent, Phase.running] at hu
    · rw [hphase'] at hl
      simp [Phase.lost, Phase.readingWinner] at hl
  | installs w etag r h hr hsat hetag hhist hphase hreq hresp =>
    obtain ⟨hok, hnone⟩ := (hI.writers w).request r hr
    have hinst : s'.installed = s.installed ++ [r.manifest] := by
      simp [State.installed, hhist]
    refine ⟨?_, fun v hv => ?_, fun v hv v' hv' heq => ?_, fun v => ?_, h.writerOk hI.writers ?_⟩
    · rw [hinst]
      exact linkedFrom_concat.mpr ⟨hI.chain, hI.parent_eq_chainHead hok hsat⟩
    · rw [hhist] at hv
      rcases mem_append.mp hv with hv | hv
      · exact ⟨(hI.versions v hv).1, (hI.versions v hv).2.later h.later⟩
      · obtain rfl := mem_singleton.mp hv
        exact ⟨hok.body_eq, hok.stored.later h.later⟩
    · rw [hhist] at hv hv'
      rcases mem_append.mp hv with hv | hv <;> rcases mem_append.mp hv' with hv' | hv'
      · exact hI.etags v hv v' hv' heq
      · obtain rfl := mem_singleton.mp hv'
        exact hetag v hv heq
      · obtain rfl := mem_singleton.mp hv
        exact (hetag v' hv' heq.symm).symm
      · rw [mem_singleton.mp hv, mem_singleton.mp hv']
    · rw [hhist]
      by_cases hv : v = w
      · subst hv
        exact ⟨fun _ => ⟨etag, hresp⟩, fun _ => ⟨_, mem_append_right _
          (mem_singleton_self _), rfl⟩⟩
      · rw [h.responses v hv, ← hI.wrote v]
        constructor
        · rintro ⟨u, hu, huv⟩
          rcases mem_append.mp hu with hu | hu
          · exact ⟨u, hu, huv⟩
          · obtain rfl := mem_singleton.mp hu
            exact absurd huv.symm hv
        · rintro ⟨u, hu, huv⟩
          exact ⟨u, mem_append_left _ hu, huv⟩
    · -- the writer itself has sent something, so only `sent` says anything about it
      refine ⟨fun r' hr' => by simp [hreq] at hr', ?_, fun hu => ?_, fun hl => ?_⟩
      · rw [hphase]
        refine (hI.writers w).phase.later_of_sent h.later fun m key hsent => ?_
        obtain ⟨hkey, hm, -⟩ : PhaseOk H s w (.sent m key) := hsent ▸ (hI.writers w).phase
        refine ⟨hkey, fun r' hr' => by simp [hreq] at hr',
          fun _ _ => ⟨⟨etag, r.body, w, r.manifest⟩, ?_, rfl, hm r hr⟩⟩
        rw [hhist]
        exact mem_append_right _ (mem_singleton_self _)
      · rw [hphase] at hu
        exact absurd hr (by rw [((hI.writers w).silent hu).1]; simp)
      · rw [hphase] at hl
        rw [(hI.writers w).lost hl] at hnone
        simp at hnone
  | refuses w r h hr hhist hphase hreq hresp =>
    obtain ⟨hok, hnone⟩ := (hI.writers w).request r hr
    refine hI.of_history h.later hhist (won_iff_of_touches h (by rw [hresp, hnone]; simp))
      (h.writerOk hI.writers ?_)
    refine ⟨fun r' hr' => by simp [hreq] at hr', ?_, fun hu => ?_, fun _ => hresp⟩
    · rw [hphase]
      refine (hI.writers w).phase.later_of_sent h.later fun m key hsent => ?_
      obtain ⟨hkey, -, -⟩ : PhaseOk H s w (.sent m key) := hsent ▸ (hI.writers w).phase
      exact ⟨hkey, fun r' hr' => by simp [hreq] at hr', fun etag hetag => by
        simp [hresp] at hetag⟩
    · rw [hphase] at hu
      exact absurd hr (by rw [((hI.writers w).silent hu).1]; simp)

theorem inv_init (h : Init s) : Inv H s := by
  obtain ⟨-, hhist, hphases, hreq, hresp⟩ := h
  refine ⟨by rw [State.installed, hhist]; trivial, fun v hv => by simp [hhist] at hv,
    fun v hv => by simp [hhist] at hv, fun w => by simp [hhist, hresp], fun w => ?_⟩
  refine ⟨fun r hr => by simp [hreq] at hr, by rw [hphases]; trivial,
    fun _ => ⟨hreq w, hresp w⟩, fun hl => ?_⟩
  rw [hphases] at hl
  simp [Phase.lost, Phase.readingWinner] at hl

theorem inv_reachable (h : (protocol H fromSlice).Reachable s) : Inv H s :=
  h.invariant (I := Inv H) (fun _ h => inv_init h) fun _ _ _ _ hI hs => hI.step hs

theorem later_of_run (hs : (protocol H fromSlice).Reachable s) {as : List Action}
    (hr : (protocol H fromSlice).run s as = some s') : Later s s' :=
  hs.run_preserves (I := fun t => Later s t)
    (fun _ _ _ ht hle hstep =>
      let hlater := (effect_of_step (inv_reachable ht) hstep).later
      ⟨hle.store.trans hlater.store, hle.history.trans hlater.history⟩)
    hr (.of_eq rfl rfl)

theorem Stored.parent_eq {m n : Manifest} (hm : Stored H s m) (hn : Stored H s n)
    (h : manifestDigest H m = manifestDigest H n) : m.parent = n.parent := by
  have hkey : manifestKey H m = manifestKey H n := by
    rw [manifestKey, manifestKey, contentKey, contentKey]
    exact congrArg _ h
  have hbytes : some m.canonicalBytes = some n.canonicalBytes := by
    rw [← hm.bytes, ← hn.bytes, hkey]
  exact Manifest.parent_eq_of_canonicalBytes_eq (some.inj hbytes)

theorem Inv.not_wrote (hI : Inv H s) (h : (s.phases w).unsent = true ∨ (s.phases w).lost = true) :
    ∀ v ∈ s.history, v.writer ≠ w := by
  intro v hv hw
  obtain ⟨etag, hwon⟩ := (hI.wrote w).mp ⟨v, hv, hw⟩
  rcases h with hu | hl
  · rw [((hI.writers w).silent hu).2] at hwon
    simp at hwon
  · rw [(hI.writers w).lost hl] at hwon
    simp at hwon

/-- **Publication never forks and never loses a push.** In every state that any interleaving of
pushes and announcements reaches:

* the installed manifests form one chain, in which every manifest names the digest of the one
  installed immediately before it, and only the first names none; no digest occurs twice;
* the pointer is the digest of the last manifest of the chain;
* a writer that returned `Ok` has installed the manifest it returned;
* a writer that returned `Conflict`, or an error before its pointer write, has installed nothing;
* every later history extends this one. -/
theorem publish_chain {s : State} (hs : (protocol H fromSlice).Reachable s) :
    LinkedFrom Manifest.parent (manifestDigest H) none s.installed ∧
      (s.installed.map (manifestDigest H)).Nodup ∧
      s.pointer.map Prod.snd = chainHead (manifestDigest H) none s.installed ∧
      (∀ w m key, s.phases w = .won m key →
        key = manifestKey H m ∧ ∃ v ∈ s.history, v.writer = w ∧ v.manifest = m) ∧
      (∀ w, (∃ e, s.phases w = .failedBefore e) ∨
          (∃ winner key, s.phases w = .conflict winner key) →
        ∀ v ∈ s.history, v.writer ≠ w) ∧
      ∀ as s', (protocol H fromSlice).run s as = some s' → s.history <+: s'.history := by
  have hI := inv_reachable hs
  refine ⟨hI.chain, hI.chain.nodup fun a ha b hb hab => ?_, ?_, fun w m key hw => ?_,
    fun w hw => hI.not_wrote ?_, fun as s' hr => (later_of_run hs hr).history⟩
  · obtain ⟨v, hv, rfl⟩ := mem_map.mp ha
    obtain ⟨v', hv', rfl⟩ := mem_map.mp hb
    exact (hI.versions v hv).2.parent_eq (hI.versions v' hv').2 hab
  · rw [State.pointer, State.installed, chainHead, getLast?_map]
    cases hlast : s.history.getLast? with
    | none => rfl
    | some v => simp [(hI.versions v (mem_of_getLast? hlast)).1]
  · have hok := (hI.writers w).phase
    rw [hw] at hok
    exact hok
  · rcases hw with ⟨e, hw⟩ | ⟨winner, key, hw⟩
    · exact Or.inl (by rw [hw]; rfl)
    · exact Or.inr (by rw [hw]; rfl)

/-! ### A race -/

/-- A stand-in for SHA-256 that tells a few manifests apart. -/
def toySha256 : Sha256 where
  hex bytes := String.ofList (replicate 64 (Nat.digitChar (bytes.size % 5)))
  hex_digest bytes := by
    have hdigit : ∀ d < 5, isManifestDigest (String.ofList (replicate 64 (Nat.digitChar d)))
        = true := by decide +kernel
    exact hdigit _ (Nat.mod_lt _ (by decide))

def someOid : String := "1111111111111111111111111111111111111111"

/-- What git answers when a push creates a branch with one new pack. -/
def pushTo (branch : String) (pack : ByteArray) : Workspace :=
  ⟨(∅ : RefMap).insert branch someOid, branch, .error (.packCapture "not tried"), none, .ok pack,
    none⟩

def someLimits : PublishLimits := ⟨0, 1000, 1000⟩

/-- What git answers when a push of no refs moves the head. -/
def moveHead (head : String) : Workspace :=
  ⟨∅, head, .error (.packCapture "not tried"), none, .ok ⟨#[]⟩, none⟩

def winner : Manifest where
  version := manifestVersion
  head := "refs/heads/dev"
  refs := ∅
  packs := []
  parent := some (manifestDigest toySha256 emptyManifest)

/-- A decoder that knows two manifests, and tells them apart by their length. -/
def knowsTwo (bytes : ByteArray) : Option Manifest :=
  [emptyManifest, winner].find? fun m => m.canonicalBytes.size = bytes.size

/-- An announcement seeds the pointer; two pushes start from it; the second overtakes the first. -/
def raceActions : List Action :=
  [.composeEmpty 0, .putManifest (.seed 0) true, .sendPointer (.seed 0),
    .apply (.seed 0) ⟨"e0"⟩, .receive (.seed 0),
    .readPointer 0, .readManifest 0, .readPointer 1, .readManifest 1,
    .receivePack 0 someLimits (moveHead "refs/heads/main"),
    .compose 0, .putManifest (.push 0) true, .sendPointer (.push 0),
    .receivePack 1 someLimits (moveHead "refs/heads/dev"),
    .compose 1, .putManifest (.push 1) true, .sendPointer (.push 1),
    .apply (.push 1) ⟨"e1"⟩, .apply (.push 0) ⟨"e2"⟩, .receive (.push 0), .receive (.push 1),
    .readWinnerPointer 0, .readWinnerManifest 0]

def quiet : State := ⟨.empty, [], fun _ => .start, fun _ => none, fun _ => none⟩

/-- Whether a phase is a returned conflict. -/
def Phase.isConflict : Phase → Bool
  | .conflict .. => true
  | _ => false

theorem Phase.exists_of_isConflict (h : p.isConflict = true) :
    ∃ winner key, p = .conflict winner key := by
  cases p with
  | conflict winner key => exact ⟨winner, key, rfl⟩
  | _ => simp [Phase.isConflict] at h

theorem race_ends : (((protocol toySha256 knowsTwo).run quiet raceActions).any fun s =>
    (s.phases (.push 0)).isConflict && s.installed.length == 2) = true := by
  decide +kernel

theorem publish_chain_race :
    ∃ s, (protocol toySha256 knowsTwo).run quiet raceActions = some s ∧ s.installed.length = 2 ∧
      (s.installed.map (manifestDigest toySha256)).Nodup ∧
      ∀ v ∈ s.history, v.writer ≠ .push 0 := by
  obtain ⟨s, hrun, hends⟩ := (any_eq_true _ _).mp race_ends
  rw [Bool.and_eq_true, beq_iff_eq] at hends
  have hreach : (protocol toySha256 knowsTwo).Reachable s :=
    ⟨quiet, raceActions, ⟨rfl, rfl, fun _ => rfl, fun _ => rfl, fun _ => rfl⟩, hrun⟩
  have hchain := publish_chain hreach
  exact ⟨s, hrun, hends.2, hchain.2.1,
    hchain.2.2.2.2.1 (.push 0) (Or.inr (Phase.exists_of_isConflict hends.1))⟩

end Buzz.Git
