import Buzz.Db.Dm.Steps
import Mathlib.Algebra.BigOperators.Group.List.Basic

/-!
# One DM for each set of participants

As long as no call is overtaken, all calls with one set of participants return one channel, and one
of them has created it. A call that is overtaken between its last look and its insertion fails on
the unique index, and one that is overtaken between its two looks claims to have created what it has
found.
-/

namespace Buzz.Dm

open Option
open Channel (Pubkey ChannelKey)

variable {Digest : Type} {sha256 : List UInt8 → Digest}

/-! ### The statements that are left -/

/-- The statements that are left, when there are `n` participants. -/
def Phase.left (n : Nat) : Phase Digest → Nat
  | .find => n + 6
  | .unhide _ => 1
  | .check => n + 5
  | .commitExisting _ => 1
  | .insert => n + 4
  | .addMembers _ _ rest => rest.length + 3
  | .reselect _ _ => 2
  | .commit _ _ => 1

/-- The statements that are left to all calls, at most. -/
def Dms.left (x : Dms Digest) : Nat :=
  (x.calls.map fun c => c.phase.left c.request.all.length).sum

theorem left_afterMembers_le (n : Nat) (row : ChannelRow Digest) (added : List MemberRow)
    (rest : List Pubkey) : (Phase.afterMembers row added rest).left n ≤ rest.length + 3 := by
  cases rest <;> simp [Phase.afterMembers, Phase.left]

theorem left_pos (n : Nat) (phase : Phase Digest) : 0 < phase.left n := by
  cases phase <;> simp [Phase.left]

/-! ### What the steps of a calm run do -/

variable {x y y' : Dms Digest} {a : Action} {texts : List (List UInt8)}

theorem eq_of_active_iff (h : Sound sha256 x.db) {r s : ChannelRow Digest}
    (hr : r ∈ x.db.channels) (hs : s ∈ x.db.channels) (hrlive : r.Live) (hslive : s.Live)
    (hcommunity : r.community = s.community)
    (hsame : ∀ pk, x.db.Active r.key pk ↔ x.db.Active s.key pk) : r = s := by
  obtain ⟨l, -, -, -, hrhash, hrmembers⟩ := h.live r hr hrlive
  obtain ⟨m, -, -, -, hshash, hsmembers⟩ := h.live s hs hslive
  have heq : ∀ pk, pk ∈ l ↔ pk ∈ m := fun pk => by rw [← hrmembers, hsame, hsmembers]
  refine h.unique r hr s hs (.inr ⟨hcommunity, ?_, by rw [hrhash]; exact nofun⟩)
  rw [hrhash, hshash, computeParticipantHash_congr heq]

theorem Returned.Ok.serves {db : Db Digest} {z : Returned Digest} (h : z.Ok sha256 db)
    {r : ChannelRow Digest} {created : Bool} (hz : z.result = .ok (r, created)) :
    z.request.InRange ∧ Serves sha256 db z.request r := by
  rw [Returned.Ok] at h
  split at h
  · next hrange =>
    obtain ⟨r', created', hresult, hserves⟩ := h
    obtain ⟨rfl, rfl⟩ := Prod.mk.inj (Except.ok.inj (hz.symm.trans hresult))
    exact ⟨hrange, hserves⟩
  · obtain ⟨e, he⟩ := h
    rw [he] at hz
    cases hz

theorem db_eq_of_not_inRange (hfree : CollisionFree sha256 texts) (hhashes : Hashes texts y)
    (h : Inv sha256 y) (hs : CalmStep sha256 y a y') :
    (∀ id q, a = .start id q → y'.db = y.db) ∧
      ∀ c ∈ y.calls, ∀ uuid, a = .advance c.id uuid → ¬c.request.InRange → y'.db = y.db := by
  have honly : ∀ c ∈ y.calls, ∀ c' ∈ y.calls, c.id = c'.id → c = c' := fun c hc c' hc' heq =>
    List.inj_on_of_nodup_map h.nodup hc hc' heq
  cases hs with
  | tooMany id q hnew hrange | start id q hnew hok | goOn c hc uuid phase hok hpending
  | refuse c hc uuid e hrange => exact ⟨fun _ _ _ => rfl, fun _ _ _ _ _ => rfl⟩
  | unhide c hc uuid existing hserves =>
    refine ⟨fun _ _ heq => (nomatch heq), fun c' hc' uuid' heq hrange => ?_⟩
    obtain rfl := honly c hc c' hc' (Action.advance.inj heq).1
    exact absurd (hserves.inRange hfree hhashes.rows (hhashes.calls c hc) h.sound) hrange
  | commit c hc uuid row added hphase hstaged hin =>
    refine ⟨fun _ _ heq => (nomatch heq), fun c' hc' uuid' heq hrange => ?_⟩
    obtain rfl := honly c hc c' hc' (Action.advance.inj heq).1
    exact absurd hin hrange
  | hide community channelId pubkey now =>
    exact ⟨fun _ _ heq => (nomatch heq), fun _ _ _ heq => (nomatch heq)⟩

theorem returned_step (h : Inv sha256 y) (hs : CalmStep sha256 y a y') :
    y'.returned = y.returned ∨ ∃ z, y'.returned = z :: y.returned ∧
      ∀ r created, z.result = .ok (r, created) → (created = true ↔ r ∉ y.db.channels) ∧
        r ∈ y'.db.channels ∧ ¬y'.db.Hidden r.key z.request.createdBy := by
  cases hs with
  | tooMany id q hnew hrange | refuse c hc uuid e hrange => exact .inr ⟨_, rfl, nofun⟩
  | start id q hnew hok | goOn c hc uuid phase hok hpending
  | hide community channelId pubkey now => exact .inl rfl
  | unhide c hc uuid existing hserves =>
    refine .inr ⟨_, rfl, fun r created hresult => ?_⟩
    obtain ⟨rfl, rfl⟩ := Prod.mk.inj (Except.ok.inj hresult)
    refine ⟨⟨nofun, fun hnot => absurd hserves.mem hnot⟩, hserves.mem, ?_⟩
    have hkey : existing.key = (c.request.community, existing.id) := by
      rw [ChannelRow.key, hserves.community]
    rw [hkey]
    exact y.db.not_hidden_setHidden_none _ _
  | commit c hc uuid row added hphase hstaged hin =>
    refine .inr ⟨_, rfl, fun r created hresult => ?_⟩
    obtain ⟨rfl, rfl⟩ := Prod.mk.inj (Except.ok.inj hresult)
    refine ⟨⟨fun _ hmem => hstaged.unique row hmem (.inl rfl), fun _ => rfl⟩,
      List.mem_append_right _ List.mem_cons_self, hstaged.not_hidden_committed h.sound⟩

theorem inserted_step (hs : CalmStep sha256 y a y') {r : ChannelRow Digest}
    (hr : r ∈ y'.db.channels) (hnot : r ∉ y.db.channels) :
    ∃ id q, y'.returned = ⟨id, q, .ok (r, true)⟩ :: y.returned := by
  cases hs with
  | commit c hc uuid row added hphase hstaged hin =>
    obtain hr | hr := List.mem_append.mp hr
    · exact absurd hr hnot
    · obtain rfl := List.mem_singleton.mp hr
      exact ⟨c.id, c.request, rfl⟩
  | hide community channelId pubkey now =>
    rw [fst_hideDm] at hr
    exact absurd hr hnot
  | _ => exact absurd hr hnot

theorem key_eq_iff (hfree : CollisionFree sha256 texts) {db : Db Digest}
    (hrows : db.texts ⊆ texts) (hsound : Sound sha256 db) {q q' : Request}
    {r r' : ChannelRow Digest} (hall : hashed q.all ∈ texts) (hall' : hashed q'.all ∈ texts)
    (h : Serves sha256 db q r) (h' : Serves sha256 db q' r') :
    r.key = r'.key ↔ q.community = q'.community ∧ q.participants = q'.participants := by
  constructor
  · intro hkey
    obtain rfl := hsound.unique r h.mem r' h'.mem (.inl hkey)
    refine ⟨h.community.symm.trans h'.community, ?_⟩
    ext pk
    rw [← h.active_iff hfree hrows hall hsound, h'.active_iff hfree hrows hall' hsound]
  · rintro ⟨hcommunity, hset⟩
    have hall : ∀ pk, pk ∈ q.all ↔ pk ∈ q'.all := fun pk => by
      rw [← q.mem_participants, hset, q'.mem_participants]
    have hhash : r.participantHash = r'.participantHash := by
      rw [h.hash, h'.hash, computeParticipantHash_congr hall]
    have heq : r = r' := hsound.unique r h.mem r' h'.mem
      (.inr ⟨h.community.trans (hcommunity.trans h'.community.symm), hhash, by
        rw [h.hash]
        exact nofun⟩)
    rw [heq]

variable [DecidableEq Digest]

/-! ### No call waits forever -/

theorem left_lt_of_advance {db db' : Db Digest} {others : List (ChannelRow Digest)} {q : Request}
    {uuid : Uuid} {phase phase' : Phase Digest}
    (h : phase.advance sha256 db others q uuid = some (db', .goOn phase')) :
    phase'.left q.all.length < phase.left q.all.length := by
  cases phase with
  | find =>
    rw [Phase.advance] at h
    split at h
    · cases h
      simp [Phase.left]
    · split at h
      · cases h
      · cases h
        simp [Phase.left]
  | unhide existing | commitExisting existing | commit row added => cases h
  | check =>
    rw [Phase.advance] at h
    split at h
    · cases h
      simp [Phase.left]
    · cases h
      simp [Phase.left]
  | insert =>
    rw [Phase.advance] at h
    split at h
    · cases h
    · split at h
      · cases h
      · cases h
        have hle := left_afterMembers_le q.all.length (q.newRow sha256 uuid) [] q.all
        rw [Phase.left]
        omega
  | addMembers row added rest =>
    cases rest with
    | nil =>
      cases h
      simp [Phase.left]
    | cons pk rest =>
      cases h
      have hle := left_afterMembers_le q.all.length row
        (insertMember added (q.newMember row.id pk)) rest
      rw [Phase.left, List.length_cons]
      omega
  | reselect row added =>
    cases h
    simp [Phase.left]

theorem isSome_advance (db : Db Digest) (others : List (ChannelRow Digest)) (q : Request)
    (uuid : Uuid) {phase : Phase Digest} (h : phase = .insert → others = []) :
    (phase.advance sha256 db others q uuid).isSome = true := by
  cases phase with
  | find =>
    rw [Phase.advance]
    split
    · rfl
    · split <;> rfl
  | unhide existing => rfl
  | check =>
    rw [Phase.advance]
    split <;> rfl
  | commitExisting existing => rfl
  | insert =>
    rw [Phase.advance, h rfl, List.any_nil, if_neg Bool.false_ne_true]
    split <;> rfl
  | addMembers row added rest => cases rest <;> rfl
  | reselect row added => rfl
  | commit row added => rfl

section Progress

variable {x' : Dms Digest} (hnodup : (x.calls.map Call.id).Nodup)
include hnodup

theorem step_advance {c : Call Digest} (hc : c ∈ x.calls) (uuid : Uuid) :
    (dms sha256).step x (.advance c.id uuid) =
      (c.phase.advance sha256 x.db ((x.others c.id).filterMap fun o => o.phase.pending) c.request
        uuid).map (x.proceed c) := by
  have hfind : lookupKey Call.id x.calls c.id = some c :=
    (lookupKey_eq_some_iff hnodup).mpr ⟨hc, rfl⟩
  show x.step sha256 (.advance c.id uuid) = _
  rw [Dms.step, hfind]

theorem exists_advance (hne : x.calls ≠ []) : ∃ c ∈ x.calls, ∀ uuid,
    ((dms sha256).step x (.advance c.id uuid)).isSome = true := by
  have hcan : ∀ c ∈ x.calls, (c.phase = .insert →
      ((x.others c.id).filterMap fun o => o.phase.pending) = []) →
      ∀ uuid, ((dms sha256).step x (.advance c.id uuid)).isSome = true := by
    intro c hc h uuid
    rw [step_advance hnodup hc, isSome_map]
    exact isSome_advance x.db _ c.request uuid h
  -- A call waits only for one that is past its insertion.
  by_cases hsome : ∃ c ∈ x.calls, c.phase ≠ .insert
  · obtain ⟨c, hc, hphase⟩ := hsome
    exact ⟨c, hc, hcan c hc fun h => absurd h hphase⟩
  · obtain ⟨c, hc⟩ := List.exists_mem_of_ne_nil x.calls hne
    refine ⟨c, hc, hcan c hc fun _ => List.filterMap_eq_nil_iff.mpr fun o ho => ?_⟩
    have hinsert : o.phase = .insert := by
      by_contra hphase
      exact hsome ⟨o, (Dms.mem_others.mp ho).1, hphase⟩
    rw [hinsert]
    rfl

theorem left_lt {id : Nat} {uuid : Uuid}
    (hs : (dms sha256).step x (.advance id uuid) = some x') : x'.left < x.left := by
  have hstep : x.step sha256 (.advance id uuid) = some x' := hs
  rw [Dms.step] at hstep
  split at hstep
  · cases hstep
  · next c hfind =>
    obtain ⟨hc, rfl⟩ := mem_of_lookupKey hfind
    obtain ⟨⟨db', next⟩, hadvance, rfl⟩ := map_eq_some_iff.mp hstep
    have hothers : x.others c.id = x.calls.filter fun c' => c'.id != c.id :=
      List.filter_congr fun c' _ => by simp [bne, beq_eq_decide]
    have hsum : x.left = c.phase.left c.request.all.length +
        ((x.others c.id).map fun c => c.phase.left c.request.all.length).sum := by
      simp [hothers, Dms.left, ((perm_cons_filter_key hnodup hc).map _).sum_eq, List.sum_cons]
    rw [hsum]
    cases next with
    | goOn phase =>
      have hlt := left_lt_of_advance hadvance
      rw [Dms.proceed, Dms.left, List.map_cons, List.sum_cons]
      exact Nat.add_lt_add_right hlt _
    | done result =>
      rw [Dms.proceed, Dms.left]
      exact Nat.lt_add_of_pos_left (left_pos c.request.all.length c.phase)

end Progress

/-! ### One DM -/

/-- In the run of `as` from `x₀`, the call has returned in a step that does what `P` says. -/
def ReturnedIn (sha256 : List UInt8 → Digest) (x₀ : Dms Digest) (as : List Action)
    (z : Returned Digest) (P : Dms Digest → Dms Digest → Prop) : Prop :=
  ∃ earlier a later y y', as = earlier ++ a :: later ∧ (dms sha256).run x₀ earlier = some y ∧
    (dms sha256).step y a = some y' ∧ y'.returned = z :: y.returned ∧ P y y'

/-- In the run of `as` from `x₀` to `x`, there is one DM for each set of participants. -/
structure OneDm (sha256 : List UInt8 → Digest) (x₀ x : Dms Digest) (as : List Action) : Prop where
  unique : ∀ r ∈ x.db.channels, ∀ s ∈ x.db.channels, r.Live → s.Live →
    r.community = s.community → (∀ pk, x.db.Active r.key pk ↔ x.db.Active s.key pk) → r = s
  /-- A call with two to nine participants succeeds, with the DM of exactly these members, and any
  other call is refused. -/
  returned : ∀ z ∈ x.returned,
    if z.request.InRange then ∃ r created, z.result = .ok (r, created) ∧ r ∈ x.db.channels ∧
      r.Live ∧ r.community = z.request.community ∧
      ∀ pk, x.db.Active r.key pk ↔ pk ∈ z.request.participants
    else ∃ e, z.result = .error e
  unwritten : ∀ earlier a later y y', as = earlier ++ a :: later →
    (dms sha256).run x₀ earlier = some y → (dms sha256).step y a = some y' →
    (∀ id q, a = .start id q → y'.db = y.db) ∧
    ∀ c ∈ y.calls, ∀ uuid, a = .advance c.id uuid → ¬c.request.InRange → y'.db = y.db
  /-- A call says that it has created the DM if, and only if, it has put it there. When it returns,
  the caller has not hidden the DM. -/
  created : ∀ z ∈ x.returned, ∀ r created, z.result = .ok (r, created) →
    ReturnedIn sha256 x₀ as z fun y y' => (created = true ↔ r ∉ y.db.channels) ∧
      r ∈ y'.db.channels ∧ ¬y'.db.Hidden r.key z.request.createdBy
  inserted : ∀ earlier a later y y', as = earlier ++ a :: later →
    (dms sha256).run x₀ earlier = some y → (dms sha256).step y a = some y' →
    ∀ r ∈ y'.db.channels, r ∉ y.db.channels →
      ∃ id q, y'.returned = ⟨id, q, .ok (r, true)⟩ :: y.returned
  /-- Calls return the same channel exactly when they ask for the same set. -/
  apart : ∀ z ∈ x.returned, ∀ z' ∈ x.returned, ∀ r created r' created',
    z.result = .ok (r, created) → z'.result = .ok (r', created') →
    (r.key = r'.key ↔
      z.request.community = z'.request.community ∧
        z.request.participants = z'.request.participants)
  unblocked : x.calls ≠ [] → ∃ c ∈ x.calls, ∀ uuid,
    ((dms sha256).step x (.advance c.id uuid)).isSome = true
  left_lt : ∀ id uuid x', (dms sha256).step x (.advance id uuid) = some x' → x'.left < x.left

/-! ### Calm runs -/

variable {x₀ : Dms Digest} {as earlier later : List Action}

theorem inv_of_init (h : (dms sha256).Init x₀) : Inv sha256 x₀ := by
  obtain ⟨hsound, hcalls, hreturned, -⟩ := h
  constructor
  · exact hsound
  · rw [hcalls]
    exact List.nodup_nil
  · rw [hcalls]
    exact List.forall_mem_nil _
  · rw [hreturned]
    exact List.forall_mem_nil _
  · rw [hcalls]
    exact List.forall_mem_nil _
  · rw [hcalls]
    exact List.forall_mem_nil _
  · rw [hreturned]
    exact List.forall_mem_nil _

theorem hashes_of_init (h : (dms sha256).Init x₀) (hrows : x₀.db.texts ⊆ texts) :
    Hashes texts x₀ := by
  obtain ⟨-, hcalls, hreturned, -⟩ := h
  refine ⟨hrows, ?_, ?_⟩
  · rw [hcalls]
    exact List.forall_mem_nil _
  · rw [hreturned]
    exact List.forall_mem_nil _

/-- Calm runs of calls whose hashed texts are in a list. -/
def calmDms (sha256 : List UInt8 → Digest) (texts : List (List UInt8)) :
    StateMachine (Dms Digest) Action :=
  ((dms sha256).guard (Calm sha256)).guard fun _ a => a.texts ⊆ texts

section Run

variable (hfree : CollisionFree sha256 texts)
include hfree

theorem inv_of_step (h : Inv sha256 y ∧ Hashes texts y)
    (hs : (calmDms sha256 texts).step y a = some y') :
    CalmStep sha256 y a y' ∧ Inv sha256 y' ∧ Hashes texts y' := by
  obtain ⟨ha, hs⟩ := StateMachine.guard_step.mp hs
  obtain ⟨hcalm, hs⟩ := StateMachine.guard_step.mp hs
  have hstep := calmStep_of_step h.1 hcalm hs
  exact ⟨hstep, .step hfree h.2 h.1 hstep, h.2.step h.1 ha hstep⟩

theorem inv_of_run (h : Inv sha256 x₀ ∧ Hashes texts x₀)
    (hr : (calmDms sha256 texts).run x₀ as = some x) : Inv sha256 x ∧ Hashes texts x :=
  StateMachine.run_preserves (I := fun y => Inv sha256 y ∧ Hashes texts y)
    (fun _ _ _ h hs => (inv_of_step hfree h hs).2) hr h

theorem calmStep_of_run (h : Inv sha256 x₀ ∧ Hashes texts x₀)
    (hr : (calmDms sha256 texts).run x₀ (earlier ++ a :: later) = some x)
    (hy : (dms sha256).run x₀ earlier = some y) (hs : (dms sha256).step y a = some y') :
    (Inv sha256 y ∧ Hashes texts y) ∧ CalmStep sha256 y a y' := by
  rw [StateMachine.run_append] at hr
  obtain ⟨z, hz, hlast⟩ := bind_eq_some_iff.mp hr
  obtain ⟨z', hs', -⟩ := StateMachine.run_cons_eq_some _ |>.mp hlast
  obtain rfl : y = z :=
    some.inj (hy.symm.trans (StateMachine.run_of_guard (StateMachine.run_of_guard hz)))
  obtain rfl : y' = z' := some.inj (hs.symm.trans
    (StateMachine.guard_step.mp (StateMachine.guard_step.mp hs').2).2)
  have hinv := inv_of_run hfree h hz
  exact ⟨hinv, (inv_of_step hfree hinv hs').1⟩

end Run

/-- **One DM for each set of participants**, as long as no call is overtaken. SHA-256 need only be
free of collisions between the texts that are hashed: those of the DMs that are there, and of the
calls. -/
theorem oneDm_of_calm (hfree : CollisionFree sha256 (x₀.db.texts ++ as.flatMap Action.texts))
    (hinit : (dms sha256).Init x₀) (hr : ((dms sha256).guard (Calm sha256)).run x₀ as = some x) :
    OneDm sha256 x₀ x as := by
  generalize htexts : x₀.db.texts ++ as.flatMap Action.texts = texts at hfree
  have hstart : Inv sha256 x₀ ∧ Hashes texts x₀ :=
    ⟨inv_of_init hinit, hashes_of_init hinit (htexts ▸ List.subset_append_left ..)⟩
  have hwithin : ∀ a ∈ as, a.texts ⊆ texts := fun a ha t ht =>
    htexts ▸ List.mem_append_right _ (List.mem_flatMap.mpr ⟨a, ha, ht⟩)
  have hrun : (calmDms sha256 texts).run x₀ as = some x := StateMachine.run_guard hr hwithin
  obtain ⟨hinv, hhashes⟩ := inv_of_run hfree hstart hrun
  constructor
  · exact fun r hr s hs => eq_of_active_iff hinv.sound hr hs
  · intro z hz
    have hok := hinv.returned z hz
    rw [Returned.Ok] at hok
    split
    · next hrange =>
      rw [if_pos hrange] at hok
      obtain ⟨r, created, hresult, hserves⟩ := hok
      exact ⟨r, created, hresult, hserves.mem, hserves.live, hserves.community,
        hserves.active_iff hfree hhashes.rows (hhashes.returned z hz) hinv.sound⟩
    · next hrange =>
      rw [if_neg hrange] at hok
      exact hok
  · intro earlier a later y y' heq hy hs
    obtain ⟨⟨hinv, hhashes⟩, hstep⟩ := calmStep_of_run hfree hstart (heq ▸ hrun) hy hs
    exact db_eq_of_not_inRange hfree hhashes hinv hstep
  · intro z hz r created hresult
    have hnot : z ∉ x₀.returned := by
      rw [hinit.2.2.1]
      exact List.not_mem_nil
    obtain ⟨earlier, a, later, y, y', heq, hy, hs, hlog, hQ⟩ :=
      StateMachine.exists_logged (I := fun y => Inv sha256 y ∧ Hashes texts y) Dms.returned
        (fun _ _ _ h hs => (inv_of_step hfree h hs).2)
        (fun y a y' h hs => returned_step h.1 (inv_of_step hfree h hs).1) hstart hrun hnot hz
    exact ⟨earlier, a, later, y, y', heq,
      StateMachine.run_of_guard (StateMachine.run_of_guard hy),
      (StateMachine.guard_step.mp (StateMachine.guard_step.mp hs).2).2, hlog, hQ r created hresult⟩
  · intro earlier a later y y' heq hy hs r hr' hnot
    exact inserted_step (calmStep_of_run hfree hstart (heq ▸ hrun) hy hs).2 hr' hnot
  · intro z hz z' hz' r created r' created' hresult hresult'
    exact key_eq_iff hfree hhashes.rows hinv.sound (hhashes.returned z hz)
      (hhashes.returned z' hz') ((hinv.returned z hz).serves hresult).2
      ((hinv.returned z' hz').serves hresult').2
  · exact exists_advance hinv.nodup
  · exact fun id uuid x' hs => left_lt hinv.nodup hs

/-! ### Two calls at once -/

def noDms : Dms (List UInt8) := ⟨⟨[], []⟩, [], [], []⟩

def aliceToBob : Request where
  community := 1
  pubkeys := [List.replicate 32 2]
  createdBy := List.replicate 32 1
  length_eq := by decide

/-- Two calls; the first one is through before the second one starts. -/
def oneByOne : List Action :=
  [.start 1 aliceToBob, .advance 1 0, .advance 1 0, .advance 1 7, .advance 1 0, .advance 1 0,
    .advance 1 0, .advance 1 0, .start 2 aliceToBob, .advance 2 0, .advance 2 0]

/-- The second one has looked before the first one commits. -/
def overtaken : List Action :=
  [.start 1 aliceToBob, .start 2 aliceToBob, .advance 1 0, .advance 2 0, .advance 1 0, .advance 2 0,
    .advance 1 7, .advance 1 0, .advance 1 0, .advance 1 0, .advance 1 0, .advance 2 8]

theorem init_noDms : (dms id).Init noDms :=
  ⟨⟨List.forall_mem_nil _, List.forall_mem_nil _, List.forall_mem_nil _⟩, rfl, rfl, rfl⟩

theorem returned_oneByOne :
    (((dms id).guard (Calm id)).run noDms oneByOne).map Dms.returned =
      some [⟨2, aliceToBob, .ok (aliceToBob.newRow id 7, false)⟩,
        ⟨1, aliceToBob, .ok (aliceToBob.newRow id 7, true)⟩] := by
  decide +kernel

theorem returned_overtaken :
    ((dms id).run noDms overtaken).map Dms.returned =
      some [⟨2, aliceToBob, .error .uniqueViolation⟩,
        ⟨1, aliceToBob, .ok (aliceToBob.newRow id 7, true)⟩] := by
  decide +kernel

/-- The calm run. -/
theorem oneDm_oneByOne :
    ∃ x, ((dms id).guard (Calm id)).run noDms oneByOne = some x ∧
      x.returned.length = 2 ∧ OneDm id noDms x oneByOne := by
  obtain ⟨x, hr, hreturned⟩ := map_eq_some_iff.mp returned_oneByOne
  exact ⟨x, hr, by rw [hreturned]; rfl, oneDm_of_calm (by decide +kernel) init_noDms hr⟩

/-- **A call that is overtaken** fails, although it asks for two participants. -/
theorem not_oneDm :
    ∃ x, (dms id).Init noDms ∧ (dms id).run noDms overtaken = some x ∧
      ¬OneDm id noDms x overtaken := by
  obtain ⟨x, hr, hreturned⟩ := map_eq_some_iff.mp returned_overtaken
  refine ⟨x, init_noDms, hr, fun h => ?_⟩
  have hsecond := h.returned ⟨2, aliceToBob, .error .uniqueViolation⟩ (by
    rw [hreturned]
    exact List.mem_cons_self)
  have hrange : aliceToBob.InRange := by decide
  rw [if_pos hrange] at hsecond
  obtain ⟨r, created, hresult, -⟩ := hsecond
  cases hresult

end Buzz.Dm
