import Buzz.Db.Dm.Tables

/-!
# What calls of `open_dm` keep

When no call is overtaken, what a call has read stays true up to its commit.
-/

namespace Buzz.Dm

open List Option
open Channel (Pubkey ChannelKey)

variable {Digest : Type} {sha256 : List UInt8 → Digest}

/-! ### The invariant -/

/-- The list is too long, or long enough, only if the set is. -/
def Request.Fits (q : Request) : Prop :=
  (9 < q.all.length → 9 < q.participants.card) ∧
    (2 ≤ q.all.length → 2 ≤ q.participants.card)

instance (q : Request) : Decidable q.Fits := inferInstanceAs (Decidable (_ ∧ _))

/-- A live row that stands for the participants of a request. -/
structure Serves (sha256 : List UInt8 → Digest) (db : Db Digest) (q : Request)
    (r : ChannelRow Digest) : Prop where
  mem : r ∈ db.channels
  live : r.Live
  community : r.community = q.community
  hash : r.participantHash = some (computeParticipantHash sha256 q.all)

/-- What holds of a call in flight. -/
structure Call.Ok (sha256 : List UInt8 → Digest) (db : Db Digest) (c : Call Digest) : Prop where
  fits : c.request.Fits
  length_le : c.request.all.length ≤ 9
  /-- What it has read is true, and what it has written is complete so far. -/
  phase : match c.phase with
    | .find => True
    | .unhide existing => Serves sha256 db c.request existing
    | .check => 2 ≤ c.request.all.length
    | .commitExisting _ => False
    | .insert => 2 ≤ c.request.all.length
    | .addMembers row added rest => Staged sha256 db c.request row added rest
    | .reselect row added => Staged sha256 db c.request row added []
    | .commit row added => Staged sha256 db c.request row added []

/-- A call has returned what its participants are entitled to. -/
def Returned.Ok (sha256 : List UInt8 → Digest) (db : Db Digest) (z : Returned Digest) : Prop :=
  if z.request.InRange then ∃ r created, z.result = .ok (r, created) ∧ Serves sha256 db z.request r
  else ∃ e, z.result = .error e

/-- The invariant of calm runs. -/
structure Inv (sha256 : List UInt8 → Digest) (x : Dms Digest) : Prop where
  sound : Sound sha256 x.db
  nodup : (x.calls.map Call.id).Nodup
  begun : ∀ c ∈ x.calls, c.id ∈ x.begun
  begun_returned : ∀ z ∈ x.returned, z.id ∈ x.begun
  calls : ∀ c ∈ x.calls, c.Ok sha256 x.db
  apart : ∀ c ∈ x.calls, ∀ c' ∈ x.calls, c.id ≠ c'.id → ∀ r ∈ c.phase.pending,
    ∀ s ∈ c'.phase.pending, ¬r.Conflicts s
  returned : ∀ z ∈ x.returned, z.Ok sha256 x.db

/-- What a call hashes. -/
def Action.texts : Action → List (List UInt8)
  | .start _ q => [hashed q.all]
  | .advance .. | .hide .. => []

/-- All that has been hashed is in a list. -/
structure Hashes (texts : List (List UInt8)) (x : Dms Digest) : Prop where
  rows : x.db.texts ⊆ texts
  calls : ∀ c ∈ x.calls, hashed c.request.all ∈ texts
  returned : ∀ z ∈ x.returned, hashed z.request.all ∈ texts

/-! ### Single statements -/

variable {db : Db Digest} {q : Request} {r : ChannelRow Digest} {texts : List (List UInt8)}

section Hashed

variable (hfree : CollisionFree sha256 texts) (hrows : db.texts ⊆ texts)
  (hall : hashed q.all ∈ texts) (h : Serves sha256 db q r) (hsound : Sound sha256 db)
include hfree hrows hall h hsound

theorem Serves.active_iff (pk : Pubkey) : db.Active r.key pk ↔ pk ∈ q.participants := by
  obtain ⟨pubkeys, hlength, -, -, hhash, hmembers⟩ := hsound.live r h.mem h.live
  have hstored : hashed pubkeys ∈ texts :=
    hrows (Db.mem_texts.mpr ⟨r, h.mem, h.live,
      hashed_congr fun pk => Db.mem_activeMembers.trans (hmembers pk)⟩)
  have heq : hashed pubkeys = hashed q.all := by
    rw [h.hash, some_inj] at hhash
    exact (hfree _ hall _ hstored hhash).symm
  rw [hmembers, q.mem_participants]
  exact mem_iff_of_hashed_eq hlength (fun pk hpk => q.length_eq_of_mem_all hpk) heq pk

theorem Serves.inRange : q.InRange := by
  obtain ⟨pubkeys, hlength, htwo, hnine, hhash, hmembers⟩ := hsound.live r h.mem h.live
  have heq : pubkeys.toFinset = q.participants := by
    ext pk
    simp [← hmembers, h.active_iff hfree hrows hall hsound]
  rw [heq] at htwo hnine
  exact ⟨htwo, hnine⟩

end Hashed

theorem checkParticipants_eq (q : Request) (hle : q.all.length ≤ 9) :
    checkParticipants q.all = if q.all.length < 2 then
      .error (.invalidData "DM requires at least 2 participants") else .ok () := by
  have hnone : (q.all.find? fun pk => pk.length ≠ 32) = none := by
    rw [find?_eq_none]
    intro pk hpk
    simp [q.length_eq_of_mem_all hpk]
  rw [checkParticipants, hnone, if_neg (Nat.not_lt.mpr hle)]

theorem Request.Fits.inRange (h : q.Fits) (htwo : 2 ≤ q.all.length) (hnine : q.all.length ≤ 9) :
    q.InRange :=
  ⟨h.2 htwo, q.card_le_length.trans hnine⟩

theorem staged_newRow {uuid : Uuid} (htwo : 2 ≤ q.all.length)
    (hnew : ∀ r ∈ db.channels, ¬r.Conflicts (q.newRow sha256 uuid)) :
    Staged sha256 db q (q.newRow sha256 uuid) [] q.all where
  two_le := htwo
  row_eq := ⟨uuid, rfl⟩
  unique := hnew
  added_eq _ hm := nomatch hm
  rest_subset := List.Subset.refl _
  complete _ hpk := .inl hpk

theorem pending_afterMembers (row : ChannelRow Digest) (added : List MemberRow)
    (rest : List Pubkey) : (Phase.afterMembers row added rest).pending = some row := by
  cases rest <;> rfl

variable {c : Call Digest}

theorem ok_afterMembers {row : ChannelRow Digest} {added : List MemberRow} {rest : List Pubkey}
    (h : c.Ok sha256 db) (hstaged : Staged sha256 db c.request row added rest) :
    Call.Ok sha256 db { c with phase := .afterMembers row added rest } := by
  cases rest with
  | nil | cons pk rest => exact ⟨h.fits, h.length_le, hstaged⟩

/-! ### More channels -/

section Mono

variable {db db' : Db Digest} (hsub : db.channels ⊆ db'.channels)
include hsub

theorem Serves.mono {q : Request} {r : ChannelRow Digest} (h : Serves sha256 db q r) :
    Serves sha256 db' q r :=
  ⟨hsub h.mem, h.live, h.community, h.hash⟩

theorem Returned.Ok.mono {z : Returned Digest} (h : z.Ok sha256 db) : z.Ok sha256 db' := by
  rw [Returned.Ok] at h ⊢
  split
  · next hrange =>
    rw [if_pos hrange] at h
    obtain ⟨r, created, hresult, hserves⟩ := h
    exact ⟨r, created, hresult, hserves.mono hsub⟩
  · next hrange =>
    rw [if_neg hrange] at h
    exact h

theorem Call.Ok.mono {c : Call Digest} (h : c.Ok sha256 db)
    (hnew : ∀ s ∈ c.phase.pending, ∀ r ∈ db'.channels, r ∈ db.channels ∨ ¬r.Conflicts s) :
    c.Ok sha256 db' := by
  obtain ⟨id, q, phase⟩ := c
  have hstaged : ∀ {row added rest}, row ∈ phase.pending → Staged sha256 db q row added rest →
      Staged sha256 db' q row added rest := by
    intro row added rest hrow hst
    refine ⟨hst.two_le, hst.row_eq, fun r hr => ?_, hst.added_eq, hst.rest_subset, hst.complete⟩
    exact (hnew row hrow r hr).elim (hst.unique r) fun hrow => hrow
  refine ⟨h.fits, h.length_le, ?_⟩
  have hphase := h.phase
  cases phase with
  | find => trivial
  | unhide existing => exact Serves.mono hsub hphase
  | check | commitExisting existing | insert => exact hphase
  | addMembers row added rest | reselect row added | commit row added => exact hstaged rfl hphase

end Mono

/-! ### Calls come and go -/

theorem Dms.mem_others {x : Dms Digest} {id : Nat} : c ∈ x.others id ↔ c ∈ x.calls ∧ c.id ≠ id := by
  simp [others]

namespace Inv

variable {x : Dms Digest}

theorem remove (h : Inv sha256 x) (id : Nat) {db' : Db Digest} (hsound : Sound sha256 db')
    (hsub : x.db.channels ⊆ db'.channels)
    (hnew : ∀ c ∈ x.others id, ∀ s ∈ c.phase.pending, ∀ r ∈ db'.channels,
      r ∈ x.db.channels ∨ ¬r.Conflicts s) :
    Inv sha256 { x with db := db', calls := x.others id } where
  sound := hsound
  nodup := h.nodup.sublist (filter_sublist.map _)
  begun c hc := h.begun c (Dms.mem_others.mp hc).1
  begun_returned := h.begun_returned
  calls c hc := (h.calls c (Dms.mem_others.mp hc).1).mono hsub (hnew c hc)
  apart c hc c' hc' := h.apart c (Dms.mem_others.mp hc).1 c' (Dms.mem_others.mp hc').1
  returned z hz := (h.returned z hz).mono hsub

theorem push (h : Inv sha256 x) {c : Call Digest} (hid : ∀ c' ∈ x.calls, c'.id ≠ c.id)
    (hbegun : c.id ∈ x.begun) (hok : c.Ok sha256 x.db)
    (hapart : ∀ r ∈ c.phase.pending, ∀ c' ∈ x.calls, ∀ s ∈ c'.phase.pending, ¬s.Conflicts r) :
    Inv sha256 { x with calls := c :: x.calls } where
  sound := h.sound
  nodup := by
    refine nodup_cons.mpr ⟨fun hmem => ?_, h.nodup⟩
    obtain ⟨c', hc', heq⟩ := mem_map.mp hmem
    exact hid c' hc' heq
  begun c' hc' := by
    obtain rfl | hc' := mem_cons.mp hc'
    · exact hbegun
    · exact h.begun c' hc'
  begun_returned := h.begun_returned
  calls c' hc' := by
    obtain rfl | hc' := mem_cons.mp hc'
    · exact hok
    · exact h.calls c' hc'
  apart c₁ hc₁ c₂ hc₂ hne r hr s hs := by
    obtain rfl | hold₁ := mem_cons.mp hc₁
    · obtain rfl | hold₂ := mem_cons.mp hc₂
      · exact absurd rfl hne
      · exact fun hconflict => hapart r hr c₂ hold₂ s hs hconflict.symm
    · obtain rfl | hold₂ := mem_cons.mp hc₂
      · exact hapart s hs c₁ hold₁ r hr
      · exact h.apart c₁ hold₁ c₂ hold₂ hne r hr s hs
  returned := h.returned

theorem answer (h : Inv sha256 x) {z : Returned Digest} (hbegun : z.id ∈ x.begun)
    (hok : z.Ok sha256 x.db) : Inv sha256 { x with returned := z :: x.returned } where
  sound := h.sound
  nodup := h.nodup
  begun := h.begun
  begun_returned z' hz' := by
    obtain rfl | hz' := mem_cons.mp hz'
    · exact hbegun
    · exact h.begun_returned z' hz'
  calls := h.calls
  apart := h.apart
  returned z' hz' := by
    obtain rfl | hz' := mem_cons.mp hz'
    · exact hok
    · exact h.returned z' hz'

theorem give (h : Inv sha256 x) (id : Nat) : Inv sha256 { x with begun := id :: x.begun } where
  sound := h.sound
  nodup := h.nodup
  begun c hc := mem_cons_of_mem id (h.begun c hc)
  begun_returned z hz := mem_cons_of_mem id (h.begun_returned z hz)
  calls := h.calls
  apart := h.apart
  returned := h.returned

end Inv

theorem fst_hideDm (db : Db Digest) (community : CommunityId) (channelId : Uuid) (pubkey : Pubkey)
    (now : Int) :
    (hideDm db community channelId pubkey now).1 =
      (db.setHidden (community, channelId) pubkey (some now)).1 := by
  rw [hideDm]
  dsimp only
  split
  · rfl
  · rfl

/-! ### Steps -/

/-- What one step of a calm run can do. -/
inductive CalmStep (sha256 : List UInt8 → Digest) (x : Dms Digest) : Action → Dms Digest → Prop
  | tooMany (id : Nat) (q : Request) (hnew : id ∉ x.begun) (hrange : ¬q.InRange) :
    CalmStep sha256 x (.start id q) { x with
      returned := ⟨id, q, .error (.invalidData "DM supports at most 9 participants")⟩ :: x.returned
      begun := id :: x.begun }
  | start (id : Nat) (q : Request) (hnew : id ∉ x.begun)
      (hok : Call.Ok sha256 x.db ⟨id, q, .find⟩) :
    CalmStep sha256 x (.start id q)
      { x with calls := ⟨id, q, .find⟩ :: x.calls, begun := id :: x.begun }
  | goOn (c : Call Digest) (hc : c ∈ x.calls) (uuid : Uuid) (phase : Phase Digest)
      (hok : Call.Ok sha256 x.db { c with phase })
      (hpending : ∀ r ∈ phase.pending, r ∈ c.phase.pending ∨
        ∀ c' ∈ x.others c.id, ∀ s ∈ c'.phase.pending, ¬s.Conflicts r) :
    CalmStep sha256 x (.advance c.id uuid)
      { x with calls := { c with phase } :: x.others c.id }
  | refuse (c : Call Digest) (hc : c ∈ x.calls) (uuid : Uuid) (e : DbError)
      (hrange : ¬c.request.InRange) :
    CalmStep sha256 x (.advance c.id uuid)
      { x with calls := x.others c.id, returned := ⟨c.id, c.request, .error e⟩ :: x.returned }
  | unhide (c : Call Digest) (hc : c ∈ x.calls) (uuid : Uuid) (existing : ChannelRow Digest)
      (hserves : Serves sha256 x.db c.request existing) :
    CalmStep sha256 x (.advance c.id uuid)
      { x with
        db := x.db.unhideDm c.request.community existing.id c.request.createdBy
        calls := x.others c.id
        returned := ⟨c.id, c.request, .ok (existing, false)⟩ :: x.returned }
  | commit (c : Call Digest) (hc : c ∈ x.calls) (uuid : Uuid) (row : ChannelRow Digest)
      (added : List MemberRow) (hphase : c.phase = .commit row added)
      (hstaged : Staged sha256 x.db c.request row added []) (hrange : c.request.InRange) :
    CalmStep sha256 x (.advance c.id uuid)
      { x with
        db := x.db.committed row added
        calls := x.others c.id
        returned := ⟨c.id, c.request, .ok (row, true)⟩ :: x.returned }
  | hide (community : CommunityId) (channelId : Uuid) (pubkey : Pubkey) (now : Int) :
    CalmStep sha256 x (.hide community channelId pubkey now)
      { x with db := (hideDm x.db community channelId pubkey now).1 }

variable {x x' : Dms Digest} {a : Action}

/-- **The invariant is kept.** -/
theorem Inv.step (hfree : CollisionFree sha256 texts) (hhashes : Hashes texts x)
    (h : Inv sha256 x) (hs : CalmStep sha256 x a x') : Inv sha256 x' := by
  have hsame : ∀ {id : Nat} {db' : Db Digest}, db'.channels = x.db.channels → ∀ c ∈ x.others id,
      ∀ s ∈ c.phase.pending, ∀ r ∈ db'.channels, r ∈ x.db.channels ∨ ¬r.Conflicts s :=
    fun heq c _ s _ r hr => .inl (heq ▸ hr)
  cases hs with
  | tooMany id q hnew hrange =>
    refine (h.give id).answer mem_cons_self ?_
    rw [Returned.Ok, if_neg hrange]
    exact ⟨_, rfl⟩
  | start id q hnew hok =>
    refine (h.give id).push (c := ⟨id, q, .find⟩) (fun c hc heq => hnew ?_) mem_cons_self hok
      nofun
    rw [← show c.id = id from heq]
    exact h.begun c hc
  | goOn c hc uuid phase hok hpending =>
    have hrest := h.remove c.id h.sound (List.Subset.refl _) (hsame rfl)
    refine hrest.push (c := { c with phase }) (fun c' hc' => (Dms.mem_others.mp hc').2)
      (h.begun c hc) hok fun r hr c' hc' s hs => ?_
    obtain hold | hnew := hpending r hr
    · obtain ⟨hc', hne⟩ := Dms.mem_others.mp hc'
      exact h.apart c' hc' c hc hne s hs r hold
    · exact hnew c' hc' s hs
  | refuse c hc uuid e hrange =>
    have hrest := h.remove c.id h.sound (List.Subset.refl _) (hsame rfl)
    refine hrest.answer (h.begun c hc) ?_
    rw [Returned.Ok, if_neg hrange]
    exact ⟨e, rfl⟩
  | unhide c hc uuid existing hserves =>
    have hsub : x.db.channels ⊆
        (x.db.unhideDm c.request.community existing.id c.request.createdBy).channels :=
      List.Subset.refl _
    have hrest := h.remove c.id (h.sound.setHidden _ _ none) hsub (hsame rfl)
    refine hrest.answer (h.begun c hc) ?_
    rw [Returned.Ok, if_pos (hserves.inRange hfree hhashes.rows (hhashes.calls c hc) h.sound)]
    exact ⟨existing, false, rfl, hserves.mono hsub⟩
  | commit c hc uuid row added hphase hstaged hrange =>
    have hrest := h.remove c.id (hstaged.sound_committed h.sound hrange)
      (subset_append_left _ _) fun c' hc' s hs r hr => ?_
    · refine hrest.answer (h.begun c hc) ?_
      rw [Returned.Ok, if_pos hrange]
      obtain ⟨id, rfl⟩ := hstaged.row_eq
      exact ⟨_, true, rfl, mem_append_right _ mem_cons_self, ⟨rfl, rfl⟩, rfl, rfl⟩
    · obtain hr | hr := mem_append.mp hr
      · exact .inl hr
      · obtain ⟨hc', hne⟩ := Dms.mem_others.mp hc'
        refine .inr (h.apart c hc c' hc' hne.symm r ?_ s hs)
        rw [hphase, mem_singleton.mp hr]
        rfl
  | hide community channelId pubkey now =>
    have hsub : x.db.channels ⊆ (hideDm x.db community channelId pubkey now).1.channels := by
      rw [fst_hideDm]
      exact List.Subset.refl _
    have hsound : Sound sha256 (hideDm x.db community channelId pubkey now).1 := by
      rw [fst_hideDm]
      exact h.sound.setHidden (community, channelId) pubkey (some now)
    refine { h with
      sound := hsound
      calls := fun c hc => (h.calls c hc).mono hsub fun s _ r hr => .inl ?_
      returned := fun z hz => (h.returned z hz).mono hsub }
    rw [fst_hideDm] at hr
    exact hr

theorem Hashes.step (hhashes : Hashes texts x) (h : Inv sha256 x) (ha : a.texts ⊆ texts)
    (hs : CalmStep sha256 x a x') : Hashes texts x' := by
  have hothers : ∀ {id : Nat}, ∀ c ∈ x.others id, hashed c.request.all ∈ texts :=
    fun c hc => hhashes.calls c (Dms.mem_others.mp hc).1
  cases hs with
  | tooMany id q hnew hrange =>
    exact ⟨hhashes.rows, hhashes.calls, forall_mem_cons.mpr ⟨ha mem_cons_self, hhashes.returned⟩⟩
  | start id q hnew hok =>
    exact ⟨hhashes.rows, forall_mem_cons.mpr ⟨ha mem_cons_self, hhashes.calls⟩, hhashes.returned⟩
  | goOn c hc uuid phase hok hpending =>
    exact ⟨hhashes.rows, forall_mem_cons.mpr ⟨hhashes.calls c hc, hothers⟩, hhashes.returned⟩
  | refuse c hc uuid e hrange =>
    exact ⟨hhashes.rows, hothers, forall_mem_cons.mpr ⟨hhashes.calls c hc, hhashes.returned⟩⟩
  | unhide c hc uuid existing hserves =>
    refine ⟨?_, hothers, forall_mem_cons.mpr ⟨hhashes.calls c hc, hhashes.returned⟩⟩
    rw [Db.unhideDm, Db.texts_setHidden]
    exact hhashes.rows
  | commit c hc uuid row added hphase hstaged hrange =>
    refine ⟨?_, hothers, forall_mem_cons.mpr ⟨hhashes.calls c hc, hhashes.returned⟩⟩
    exact List.Subset.trans (hstaged.texts_committed_subset h.sound)
      (cons_subset.mpr ⟨hhashes.calls c hc, hhashes.rows⟩)
  | hide community channelId pubkey now =>
    refine ⟨?_, hhashes.calls, hhashes.returned⟩
    rw [fst_hideDm, Db.texts_setHidden]
    exact hhashes.rows

variable [DecidableEq Digest]

theorem mem_of_findDmByParticipants
    (h : db.findDmByParticipants q.community (computeParticipantHash sha256 q.all) = some r) :
    Serves sha256 db q r := by
  have hr := find?_some h
  rw [decide_eq_true_eq] at hr
  exact ⟨mem_of_find?_eq_some h, hr.2.2, hr.1, hr.2.1⟩

/-! ### Calm runs -/

/-- The statement does not find what another call, or a deletion, has left since. -/
def Phase.Calm (sha256 : List UInt8 → Digest) (db : Db Digest) (q : Request) (uuid : Uuid) :
    Phase Digest → Prop
  | .check => db.findDmByParticipants q.community (computeParticipantHash sha256 q.all) = none
  | .insert => ∀ r ∈ db.channels, ¬r.Conflicts (q.newRow sha256 uuid)
  | _ => True

instance (db : Db Digest) (q : Request) (uuid : Uuid) :
    (phase : Phase Digest) → Decidable (phase.Calm sha256 db q uuid)
  | .check => inferInstanceAs (Decidable (_ = _))
  | .insert => inferInstanceAs (Decidable (∀ r ∈ db.channels, ¬_))
  | .find | .unhide _ | .commitExisting _ | .addMembers .. | .reselect .. | .commit .. =>
    inferInstanceAs (Decidable True)

/-- A call is not overtaken, and its list is as long as the set where the sizes are checked. -/
def Calm (sha256 : List UInt8 → Digest) (x : Dms Digest) : Action → Prop
  | .start _ q => q.Fits
  | .advance id uuid => ∀ c ∈ x.calls, c.id = id → c.phase.Calm sha256 x.db c.request uuid
  | .hide _ _ _ _ => True

instance (x : Dms Digest) : (a : Action) → Decidable (Calm sha256 x a)
  | .start _ q => inferInstanceAs (Decidable q.Fits)
  | .advance id uuid => inferInstanceAs
      (Decidable (∀ c ∈ x.calls, c.id = id → c.phase.Calm sha256 x.db c.request uuid))
  | .hide .. => inferInstanceAs (Decidable True)

/-- **What a statement of a calm run does.** -/
theorem Phase.advance_cases {db' : Db Digest} {others : List (ChannelRow Digest)} {uuid : Uuid}
    {next : Next Digest} (h : c.phase.advance sha256 db others c.request uuid = some (db', next))
    (hok : c.Ok sha256 db) (hcalm : c.phase.Calm sha256 db c.request uuid) :
    (∃ phase, next = .goOn phase ∧ db' = db ∧ Call.Ok sha256 db { c with phase } ∧
      ∀ r ∈ phase.pending, r ∈ c.phase.pending ∨ ∀ s ∈ others, ¬s.Conflicts r) ∨
    (∃ e, next = .done (.error e) ∧ db' = db ∧ ¬c.request.InRange) ∨
    (∃ existing, c.phase = .unhide existing ∧ next = .done (.ok (existing, false)) ∧
      db' = db.unhideDm c.request.community existing.id c.request.createdBy ∧
      Serves sha256 db c.request existing) ∨
    ∃ row added, c.phase = .commit row added ∧ next = .done (.ok (row, true)) ∧
      db' = db.committed row added ∧ Staged sha256 db c.request row added [] ∧
      c.request.InRange := by
  obtain ⟨id, q, phase⟩ := c
  have hphase := hok.phase
  cases phase with
  | find =>
    rw [Phase.advance] at h
    split at h
    · next existing hfind =>
      obtain ⟨rfl, rfl⟩ := Prod.mk.inj (some.inj h)
      exact .inl ⟨_, rfl, rfl, ⟨hok.fits, hok.length_le, mem_of_findDmByParticipants hfind⟩, nofun⟩
    · rw [checkParticipants_eq q hok.length_le] at h
      by_cases htwo : q.all.length < 2
      · rw [if_pos htwo] at h
        obtain ⟨rfl, rfl⟩ := Prod.mk.inj (some.inj h)
        refine .inr (.inl ⟨_, rfl, rfl, fun hrange => ?_⟩)
        have := hrange.1.trans q.card_le_length
        omega
      · rw [if_neg htwo] at h
        obtain ⟨rfl, rfl⟩ := Prod.mk.inj (some.inj h)
        exact .inl ⟨_, rfl, rfl, ⟨hok.fits, hok.length_le, Nat.le_of_not_lt htwo⟩, nofun⟩
  | unhide existing =>
    obtain ⟨rfl, rfl⟩ := Prod.mk.inj (some.inj h)
    exact .inr (.inr (.inl ⟨existing, rfl, rfl, rfl, hphase⟩))
  | check =>
    rw [Phase.advance, show _ = none from hcalm] at h
    obtain ⟨rfl, rfl⟩ := Prod.mk.inj (some.inj h)
    exact .inl ⟨_, rfl, rfl, ⟨hok.fits, hok.length_le, hphase⟩, nofun⟩
  | commitExisting existing => exact hphase.elim
  | insert =>
    have hnone : (db.channels.any fun r => r.Conflicts (q.newRow sha256 uuid)) = false :=
      any_eq_false.mpr fun r hr => by simpa using hcalm r hr
    rw [Phase.advance, hnone, if_neg Bool.false_ne_true] at h
    split at h
    · cases h
    · next hfree =>
      obtain ⟨rfl, rfl⟩ := Prod.mk.inj (some.inj h)
      refine .inl ⟨_, rfl, rfl, ok_afterMembers hok (staged_newRow hphase hcalm), fun r hr => ?_⟩
      rw [pending_afterMembers] at hr
      cases hr
      refine .inr fun s hs hconflict => hfree ?_
      exact any_eq_true.mpr ⟨s, hs, decide_eq_true hconflict⟩
  | addMembers row added rest =>
    cases rest with
    | nil =>
      obtain ⟨rfl, rfl⟩ := Prod.mk.inj (some.inj h)
      exact .inl ⟨_, rfl, rfl, ⟨hok.fits, hok.length_le, hphase⟩, fun r hr => .inl hr⟩
    | cons pk rest =>
      obtain ⟨rfl, rfl⟩ := Prod.mk.inj (some.inj h)
      refine .inl ⟨_, rfl, rfl, ok_afterMembers hok (Staged.insertMember hphase), fun r hr => ?_⟩
      rw [pending_afterMembers] at hr
      exact .inl hr
  | reselect row added =>
    obtain ⟨rfl, rfl⟩ := Prod.mk.inj (some.inj h)
    exact .inl ⟨_, rfl, rfl, ⟨hok.fits, hok.length_le, hphase⟩, fun r hr => .inl hr⟩
  | commit row added =>
    obtain ⟨rfl, rfl⟩ := Prod.mk.inj (some.inj h)
    exact .inr (.inr (.inr ⟨row, added, rfl, rfl, rfl, hphase,
      hok.fits.inRange hphase.two_le hok.length_le⟩))

/-- **What a step of a calm run does.** -/
theorem calmStep_of_step (h : Inv sha256 x) (hcalm : Calm sha256 x a)
    (hs : x.step sha256 a = some x') : CalmStep sha256 x a x' := by
  cases a with
  | start id q =>
    rw [Dms.step] at hs
    split at hs
    · cases hs
    · next hnew =>
      split at hs
      · next hlong =>
        cases hs
        exact .tooMany id q hnew fun hrange => absurd (hcalm.1 hlong) (Nat.not_lt.mpr hrange.2)
      · next hle =>
        cases hs
        exact .start id q hnew ⟨hcalm, Nat.le_of_not_lt hle, trivial⟩
  | advance id uuid =>
    rw [Dms.step] at hs
    split at hs
    · cases hs
    · next c hfind =>
      obtain ⟨hc, rfl⟩ := mem_of_lookupKey hfind
      obtain ⟨⟨db', next⟩, hadvance, rfl⟩ := map_eq_some_iff.mp hs
      have hothers : ∀ r, (∀ s ∈ (x.others c.id).filterMap fun o => o.phase.pending,
          ¬s.Conflicts r) → ∀ c' ∈ x.others c.id, ∀ s ∈ c'.phase.pending, ¬s.Conflicts r :=
        fun r hr c' hc' s hs => hr s (mem_filterMap.mpr ⟨c', hc', hs⟩)
      obtain ⟨phase, rfl, rfl, hok, hpending⟩ | ⟨e, rfl, rfl, hrange⟩ |
        ⟨existing, -, rfl, rfl, hserves⟩ | ⟨row, added, hphase, rfl, rfl, hstaged, hrange⟩ :=
        Phase.advance_cases hadvance (h.calls c hc) (hcalm c hc rfl)
      · exact .goOn c hc uuid phase hok fun r hr => (hpending r hr).imp_right (hothers r)
      · exact .refuse c hc uuid e hrange
      · exact .unhide c hc uuid existing hserves
      · exact .commit c hc uuid row added hphase hstaged hrange
  | hide community channelId pubkey now =>
    cases hs
    exact .hide community channelId pubkey now

end Buzz.Dm
