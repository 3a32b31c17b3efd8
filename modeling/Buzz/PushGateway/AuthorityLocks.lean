import Buzz.PushGateway.AuthoritySteps

/-!
# The row locks of the authority store

Every operation of the store reads rows under their locks, or checks what it has read again. The two
`SELECT`s that begin `authorize_delivery` are of the second kind: they look for a delegation by its
id, and are right about where it is because an id is drawn for one installation and relay.
-/

namespace Buzz.PushGateway

open List Option Function

/-- Rows stay as they are while they are locked; a locked installation may lose delegations. -/
def cells : Cells Tables LockKey where
  Keeps
    | .challenge id, a, b => b.challenges id = a.challenges id
    | .installation id, a, b => b.installations id = a.installations id ∧ b.relays id ⊆ a.relays id
    | .attestKey k, a, b => b.attestKeys k = a.attestKeys k
    | .token k, a, b => b.tokens k = a.tokens k
    | .delegation k, a, b => b.delegations k = a.delegations k
    | .delegationId id, a, b => b.delegationIds id = a.delegationIds id
    | .quota k, a, b => b.quotas k = a.quotas k
    | .authReplay k, a, b => b.authReplays k = a.authReplays k
    | .requestReplay k, a, b => b.requestReplays k = a.requestReplays k
  refl k db := by
    cases k with
    | installation id => exact ⟨rfl, List.Subset.refl _⟩
    | _ => rfl
  trans {k a b c} hab hbc := by
    cases k with
    | installation id => exact ⟨hbc.1.trans hab.1, List.Subset.trans hbc.2 hab.2⟩
    | _ => exact hbc.trans hab

/-- Delegations are found under their ids, and an id is for one installation and relay. -/
structure Sound (home : Uuid → DelegationKey) (t : Tables) : Prop where
  index : ∀ k d, t.delegations k = some d → t.delegationIds d.id = some k
  home : ∀ id k, t.delegationIds id = some k → home id = k

variable {home : Uuid → DelegationKey}

theorem Sound.home_id {t : Tables} (h : Sound home t) {k : DelegationKey} {d : DelegationRow}
    (hd : t.delegations k = some d) : home d.id = k :=
  h.home _ _ (h.index k d hd)

theorem sound_empty (home : Uuid → DelegationKey) : Sound home .empty :=
  ⟨fun _ _ h => absurd h (some_ne_none _).symm, fun _ _ h =>
    nomatch h⟩

theorem Sound.congr {t t' : Tables} (h : Sound home t) (hd : t'.delegations = t.delegations)
    (hid : t'.delegationIds = t.delegationIds) : Sound home t' :=
  ⟨fun k d hk => hid ▸ h.index k d (hd ▸ hk), fun id k hk => h.home id k (hid ▸ hk)⟩

/-- What a call answers when it is rolled back. -/
def Reply.IsRefusal : Reply → Prop
  | .ok => False
  | .installation _ => True
  | .permit _ => False
  | .error _ => True

/-! ### The footprints of the statements -/

section Footprints

variable {held : List (Lock LockKey)}

/-- The exclusive lock of a row is held. -/
abbrev Holds (held : List (Lock LockKey)) (k : LockKey) : Prop :=
  (⟨k, .exclusive⟩ : Lock LockKey) ∈ held

theorem update_of_free {α β : Type*} [DecidableEq α] {c : α → LockKey} {f : α → β} {k₀ k : α}
    {v : β} (hk₀ : Holds held (c k₀)) (hk : ¬Holds held (c k)) :
    update f k₀ v k = f k := by
  rw [update_of_ne]
  rintro rfl
  exact hk hk₀

theorem update_congr {α β : Type*} [DecidableEq α] {f g : α → β} {k₀ k : α} {v w : β}
    (hk : g k = f k) (hv : k = k₀ → w = v) :
    update g k₀ w k = update f k₀ v k := by
  rw [update_apply, update_apply]
  split
  · next heq => exact hv heq
  · exact hk

variable {id : Uuid}

theorem local_setChallenge (hid : Holds held (.challenge id)) (row : Option ChallengeRow) :
    cells.Local held (Tables.setChallenge id row) where
  footprint k a hk := by
    cases k with
    | challenge id' => exact update_of_free (c := .challenge) hid hk
    | _ => simp [cells, Tables.setChallenge]
  congr k a b h := by
    cases k with
    | challenge id' => exact update_congr h fun _ => rfl
    | _ => exact h

theorem local_setQuota {fp : Fingerprint} (hfp : Holds held (.quota fp)) (row : Option QuotaRow) :
    cells.Local held (Tables.setQuota fp row) where
  footprint k a hk := by
    cases k with
    | quota fp' => exact update_of_free (c := .quota) hfp hk
    | _ => simp [cells, Tables.setQuota]
  congr k a b h := by
    cases k with
    | quota fp' => exact update_congr h fun _ => rfl
    | _ => exact h

theorem local_setAuthReplay {k₀ : PublicKey × EventId} (hk₀ : Holds held (.authReplay k₀))
    (row : Option Int) : cells.Local held (Tables.setAuthReplay k₀ row) where
  footprint k a hk := by
    cases k with
    | authReplay k' => exact update_of_free (c := .authReplay) hk₀ hk
    | _ => simp [cells, Tables.setAuthReplay]
  congr k a b h := by
    cases k with
    | authReplay k' => exact update_congr h fun _ => rfl
    | _ => exact h

theorem local_setRequestReplay {k₀ : PublicKey × Uuid} (hk₀ : Holds held (.requestReplay k₀))
    (row : Option Int) : cells.Local held (Tables.setRequestReplay k₀ row) where
  footprint k a hk := by
    cases k with
    | requestReplay k' => exact update_of_free (c := .requestReplay) hk₀ hk
    | _ => simp [cells, Tables.setRequestReplay]
  congr k a b h := by
    cases k with
    | requestReplay k' => exact update_congr h fun _ => rfl
    | _ => exact h

theorem local_modifyInstallation (hid : Holds held (.installation id))
    (f : InstallationRow → InstallationRow) :
    cells.Local held (Tables.modifyInstallation id f) where
  footprint k a hk := by
    cases k with
    | installation id' =>
      exact ⟨update_of_free (c := .installation) hid hk, List.Subset.refl _⟩
    | _ => rfl
  congr k a b h := by
    cases k with
    | installation id' =>
      refine ⟨update_congr h.1 fun heq => ?_, h.2⟩
      subst heq
      rw [h.1]
    | _ => exact h

theorem local_moveToken {profile : AppProfile} {old new : Fingerprint}
    (hold : Holds held (.token (profile, old))) (hnew : Holds held (.token (profile, new))) :
    cells.Local held (Tables.moveToken id profile old new) where
  footprint k a hk := by
    cases k with
    | token k' =>
      exact (update_of_free (c := .token) hnew hk).trans
        (update_of_free (c := .token) hold hk)
    | _ => simp [cells, Tables.moveToken]
  congr k a b h := by
    cases k with
    | token k' => exact update_congr (update_congr h fun _ => rfl) fun _ => rfl
    | _ => exact h

theorem local_insertInstallation {n : NewInstallation} (hid : Holds held (.installation n.id))
    (hkey : Holds held (.attestKey n.appAttestKeyId))
    (htoken : Holds held (.token (n.profile, n.tokenFingerprint))) :
    cells.Local held (Tables.insertInstallation n) where
  footprint k a hk := by
    cases k with
    | installation id' =>
      exact ⟨update_of_free (c := .installation) hid hk, List.Subset.refl _⟩
    | attestKey k' => exact update_of_free (c := .attestKey) hkey hk
    | token k' => exact update_of_free (c := .token) htoken hk
    | _ => rfl
  congr k a b h := by
    cases k with
    | installation id' => exact ⟨update_congr h.1 fun _ => rfl, h.2⟩
    | attestKey k' | token k' => exact update_congr h fun _ => rfl
    | _ => exact h

theorem local_deleteInstallation {i : InstallationRow} (hid : Holds held (.installation id))
    (hkey : Holds held (.attestKey i.appAttestKeyId))
    (htoken : Holds held (.token (i.appProfile, i.tokenFingerprint))) :
    cells.Local held (Tables.deleteInstallation id i) where
  footprint k a hk := by
    cases k with
    | installation id' =>
      exact ⟨update_of_free (c := .installation) hid hk, List.Subset.refl _⟩
    | attestKey k' => exact update_of_free (c := .attestKey) hkey hk
    | token k' => exact update_of_free (c := .token) htoken hk
    | _ => rfl
  congr k a b h := by
    cases k with
    | installation id' => exact ⟨update_congr h.1 fun _ => rfl, h.2⟩
    | attestKey k' | token k' => exact update_congr h fun _ => rfl
    | _ => exact h

variable {k₀ : DelegationKey}

theorem local_modifyDelegation (hk₀ : Holds held (.delegation k₀))
    (f : DelegationRow → DelegationRow) : cells.Local held (Tables.modifyDelegation k₀ f) where
  footprint k a hk := by
    cases k with
    | delegation k' => exact update_of_free (c := .delegation) hk₀ hk
    | _ => simp [cells, Tables.modifyDelegation]
  congr k a b h := by
    cases k with
    | delegation k' =>
      refine update_congr h fun heq => ?_
      subst heq
      rw [show b.delegations k' = a.delegations k' from h]
    | _ => exact h

/-- Lists that shrink at one key shrink at every key. -/
theorem update_subset {α β : Type*} [DecidableEq α] {a b : α → List β} {k₀ k : α} {v w : List β}
    (hk : b k ⊆ a k) (hv : k = k₀ → w ⊆ v) : update b k₀ w k ⊆ update a k₀ v k := by
  rw [update_apply, update_apply]
  split
  · next heq => exact hv heq
  · exact hk

theorem local_putDelegation {d : Delegation} {old : Option Uuid}
    (hid : Holds held (.installation d.installationId)) (hkey : Holds held (.delegation d.key))
    (hold : ∀ id ∈ old, Holds held (.delegationId id)) (hnew : Holds held (.delegationId d.id)) :
    cells.Local held (Tables.putDelegation d old) where
  footprint k a hk := by
    cases k with
    | installation id' =>
      refine ⟨rfl, ?_⟩
      rw [show (a.putDelegation d old).relays id' = a.relays id' from
        update_of_free (c := .installation) hid hk]
      exact List.Subset.refl _
    | delegation k' => exact update_of_free (c := .delegation) hkey hk
    | delegationId id' =>
      refine (update_of_free (c := .delegationId) hnew hk).trans ?_
      cases old with
      | none => rfl
      | some id => exact update_of_free (c := .delegationId) (hold id rfl) hk
    | _ => rfl
  congr k a b h := by
    cases k with
    | installation id' =>
      refine ⟨h.1, update_subset h.2 fun heq => ?_⟩
      subst heq
      exact cons_subset_cons _ (filter_subset _ h.2)
    | delegation k' => exact update_congr h fun _ => rfl
    | delegationId id' =>
      refine update_congr ?_ fun _ => rfl
      cases old with
      | none => exact h
      | some id => exact update_congr h fun _ => rfl
    | _ => exact h

theorem local_deleteDelegation (hkey : Holds held (.delegation k₀))
    (hid : Holds held (.delegationId id)) : cells.Local held (Tables.deleteDelegation k₀ id) where
  footprint k a hk := by
    cases k with
    | installation id' =>
      refine ⟨rfl, ?_⟩
      have hself := update_eq_self k₀.1 a.relays
      exact congrFun hself id' ▸ update_subset (List.Subset.refl _) fun _ =>
        filter_subset_self _
    | delegation k' => exact update_of_free (c := .delegation) hkey hk
    | delegationId id' => exact update_of_free (c := .delegationId) hid hk
    | _ => rfl
  congr k a b h := by
    cases k with
    | installation id' =>
      refine ⟨h.1, update_subset h.2 fun heq => ?_⟩
      subst heq
      exact filter_subset _ h.2
    | delegation k' | delegationId id' => exact update_congr h fun _ => rfl
    | _ => exact h

end Footprints

/-! ### Guarded statements -/

section Statements

variable {home : Uuid → DelegationKey} {held : List (Lock LockKey)}

/-- Writes are under their locks, and refusals write nothing. -/
abbrev Guarded (home : Uuid → DelegationKey) (held : List (Lock LockKey)) (p : AuthorityTxn) :
    Prop := p.Guarded cells (Sound home) Reply.IsRefusal held

theorem guarded_fails {e : AuthorityError} : Guarded home held (fails e) := trivial

theorem guarded_commit {r : Reply} : Guarded home held (.commit r) := trivial

theorem guarded_ite {c : Prop} [Decidable c] {p q : AuthorityTxn} (hp : c → Guarded home held p)
    (hq : ¬c → Guarded home held q) : Guarded home held (if c then p else q) := by
  split
  · next hc => exact hp hc
  · next hc => exact hq hc

/-- A check that may refuse. -/
theorem guarded_unless {c : Prop} [Decidable c] {e : AuthorityError} {p : AuthorityTxn}
    (hp : ¬c → Guarded home held p) : Guarded home held (if c then fails e else p) :=
  guarded_ite (fun _ => guarded_fails) hp

variable {k : LockKey} {next : AuthorityTxn}

theorem guarded_locking (h : Guarded home (⟨k, .exclusive⟩ :: held) next) :
    Guarded home held (locking k next) := h

variable {change : Tables → Tables}

theorem guarded_writing (hlocal : cells.Local held change)
    (hinv : ∀ t, Sound home t → Sound home (change t)) (hnext : Guarded home held next) :
    Guarded home held (writing change next) :=
  Txn.guarded_write (fun _ _ _ _ _ => rfl) (fun _ _ => hlocal) (fun _ t _ ht _ => hinv t ht) hnext

theorem guarded_row {β : Type*} {select : Tables → β} {next : β → AuthorityTxn}
    (hk : Holds held k) (hselect : ∀ a b, cells.Keeps k a b → select b = select a)
    (hnext : ∀ t, Sound home t → Guarded home held (next (select t))) :
    Guarded home held (.read select next) :=
  Txn.guarded_read (fun a b _ _ hagree => (hselect a b (hagree _ hk)).symm) hnext

theorem holds_self (k : LockKey) : Holds (⟨k, .exclusive⟩ :: held) k := mem_cons_self

theorem holds_cons (l : Lock LockKey) (h : Holds held k) : Holds (l :: held) k :=
  mem_cons_of_mem l h

/-- A row is read under the lock that was just taken. -/
theorem guarded_locked {β : Type*} {select : Tables → β} {next : β → AuthorityTxn}
    (hselect : ∀ a b, cells.Keeps k a b → select b = select a)
    (hnext : ∀ t, Sound home t → Guarded home (⟨k, .exclusive⟩ :: held) (next (select t))) :
    Guarded home held (locking k (.read select next)) :=
  guarded_locking (guarded_row (holds_self _) hselect hnext)

theorem guarded_updateInstallation {id : Uuid} {condition : InstallationRow → Bool}
    {next : InstallationRow → AuthorityTxn}
    (hnext : ∀ i, Guarded home (⟨.installation id, .exclusive⟩ :: held) (next i)) :
    Guarded home held (updateInstallation id condition next) := by
  refine guarded_locked (fun _ _ h => h.1) fun t _ => ?_
  cases t.installations id with
  | none => exact guarded_fails
  | some i => exact guarded_ite (fun _ => hnext i) fun _ => guarded_fails

/-! ### Challenges and installations -/

theorem guarded_putChallenge (sha256 : BitVec 256 → BitVec 256) (c : Challenge) :
    Guarded home held (putChallenge sha256 c) := by
  refine guarded_unless fun _ => guarded_locked (fun _ _ h => h) fun t _ => ?_
  refine guarded_unless fun _ => ?_
  exact guarded_writing (local_setChallenge (holds_self _) _) (fun _ h => h.congr rfl rfl)
    guarded_commit

theorem guarded_consumeChallenge (sha256 : BitVec 256 → BitVec 256) (id : Uuid)
    (value : BitVec 256) (now : Int) : Guarded home held (consumeChallenge sha256 id value now) := by
  refine guarded_unless fun _ => ?_
  refine guarded_unless fun _ => guarded_locked (fun _ _ h => h) fun t _ => ?_
  refine guarded_ite (fun _ => ?_) fun _ => guarded_fails
  exact guarded_writing (local_setChallenge (holds_self _) _) (fun _ h => h.congr rfl rfl)
    guarded_commit

theorem guarded_createInstallation (n : NewInstallation) :
    Guarded home held (createInstallation n) := by
  refine guarded_unless fun _ => ?_
  refine guarded_unless fun _ => ?_
  refine guarded_locking (guarded_locking (guarded_locking ?_))
  have hid : Holds (⟨.token (n.profile, n.tokenFingerprint), .exclusive⟩ ::
      ⟨.attestKey n.appAttestKeyId, .exclusive⟩ :: ⟨.installation n.id, .exclusive⟩ :: held)
      (.installation n.id) := holds_cons _ (holds_cons _ (holds_self _))
  have hkey : Holds (⟨.token (n.profile, n.tokenFingerprint), .exclusive⟩ ::
      ⟨.attestKey n.appAttestKeyId, .exclusive⟩ :: ⟨.installation n.id, .exclusive⟩ :: held)
      (.attestKey n.appAttestKeyId) := holds_cons _ (holds_self _)
  refine Txn.guarded_read (fun a b _ _ hagree => ?_) fun t _ => ?_
  · rw [show b.installations n.id = a.installations n.id from (hagree _ hid).1,
      show b.attestKeys n.appAttestKeyId = a.attestKeys n.appAttestKeyId from hagree _ hkey,
      show b.tokens (n.profile, n.tokenFingerprint) = a.tokens (n.profile, n.tokenFingerprint) from
        hagree _ (holds_self _)]
  · refine guarded_unless fun _ => ?_
    exact guarded_writing (local_insertInstallation hid hkey (holds_self _))
      (fun _ h => h.congr rfl rfl) guarded_commit

theorem guarded_installation (id : Uuid) (now : Int) : Guarded home held (installation id now) := by
  refine guarded_unless fun _ => ?_
  refine guarded_unless fun _ => ?_
  refine Txn.guarded_guess (fun a b _ _ _ hcommits => ?_) fun t _ => ?_
  · cases hi : a.installations id with
    | none =>
      rw [hi] at hcommits
      nomatch hcommits
    | some i =>
      rw [hi] at hcommits
      dsimp only at hcommits
      split at hcommits
      · nomatch hcommits
      · nomatch hcommits
  · cases t.installations id with
    | none => exact guarded_fails
    | some i => exact guarded_ite (fun _ => trivial) fun _ => guarded_fails

theorem guarded_advanceAssertionCounter (id : Uuid) (previous next : UInt32) :
    Guarded home held (advanceAssertionCounter id previous next) := by
  refine guarded_unless fun _ => guarded_updateInstallation fun i => ?_
  exact guarded_writing (local_modifyInstallation (holds_self _) _) (fun _ h => h.congr rfl rfl)
    guarded_commit

theorem guarded_rotateEndpoint (id : Uuid) (expected new : Int) (ciphertext : List UInt8)
    (fingerprint : Fingerprint) :
    Guarded home held (rotateEndpoint id expected new ciphertext fingerprint) := by
  refine guarded_unless fun _ => guarded_updateInstallation fun i => ?_
  refine guarded_unless fun _ => guarded_locking (guarded_locking ?_)
  refine guarded_row (holds_self _) (fun _ _ h => h) fun t _ => ?_
  refine guarded_unless fun _ => ?_
  refine guarded_writing (.comp ?_ ?_) (fun _ h => h.congr rfl rfl) guarded_commit
  · exact local_moveToken (holds_cons _ (holds_self _)) (holds_self _)
  · exact local_modifyInstallation (holds_cons _ (holds_cons _ (holds_self _))) _

theorem guarded_revokeInstallation (clock : Int) (id : Uuid) (expected new : Int) :
    Guarded home held (revokeInstallation clock id expected new) := by
  refine guarded_unless fun _ => guarded_updateInstallation fun i => ?_
  refine guarded_unless fun _ => ?_
  exact guarded_writing (local_modifyInstallation (holds_self _) _) (fun _ h => h.congr rfl rfl)
    guarded_commit

/-! ### Delegations -/

variable {t : Tables} {d : Delegation} {old : Option Uuid}

theorem Sound.putDelegation (h : Sound home t) (hd : home d.id = d.key)
    (hold : ∀ id ∈ old, home id = d.key) : Sound home (t.putDelegation d old) := by
  have helim : ∀ id, home id ≠ d.key →
      (old.elim t.delegationIds fun id => update t.delegationIds id none) id =
        t.delegationIds id := by
    intro id hne
    cases old with
    | none => rfl
    | some o =>
      refine update_of_ne ?_ _ _
      rintro rfl
      exact hne (hold id rfl)
  constructor
  · intro k e hk
    replace hk : update t.delegations d.key (some d.row) k = some e := hk
    by_cases hkey : k = d.key
    · subst hkey
      rw [update_self] at hk
      cases hk
      exact update_self _ _ _
    · rw [update_of_ne hkey] at hk
      have hhome := h.home_id hk
      have hne : e.id ≠ d.id := fun heq => hkey (hhome.symm.trans (heq ▸ hd))
      refine (update_of_ne hne _ _).trans ?_
      exact (helim e.id fun heq => hkey (hhome.symm.trans heq)).trans (h.index k e hk)
  · intro id k hk
    replace hk : update
      (old.elim t.delegationIds fun id => update t.delegationIds id none)
      d.id (some d.key) id = some k := hk
    by_cases hid : id = d.id
    · rw [hid, update_self] at hk
      rw [hid, hd]
      exact some.inj hk
    · rw [update_of_ne hid] at hk
      cases old with
      | none => exact h.home id k hk
      | some o =>
        obtain hkept | hnone := update_none t.delegationIds o id
        · exact h.home id k (hkept ▸ hk)
        · nomatch (hnone.symm.trans hk)

variable {k₀ : DelegationKey}

theorem Sound.deleteDelegation (h : Sound home t) {id₀ : Uuid} (hhome : home id₀ = k₀) :
    Sound home (t.deleteDelegation k₀ id₀) := by
  constructor
  · intro k d hk
    replace hk : update t.delegations k₀ none k = some d := hk
    by_cases hkey : k = k₀
    · rw [hkey, update_self] at hk
      nomatch hk
    · rw [update_of_ne hkey] at hk
      have hne : d.id ≠ id₀ := fun heq => hkey ((h.home_id hk).symm.trans (heq ▸ hhome))
      exact (update_of_ne hne _ _).trans (h.index k d hk)
  · intro id k hk
    obtain hkept | hnone := update_none t.delegationIds id₀ id
    · exact h.home id k (hkept ▸ hk)
    · nomatch (hnone.symm.trans hk)

theorem Sound.modifyDelegation (h : Sound home t) {f : DelegationRow → DelegationRow}
    (hf : ∀ d, (f d).id = d.id) : Sound home (t.modifyDelegation k₀ f) := by
  refine ⟨fun k d hk => ?_, h.home⟩
  replace hk : update t.delegations k₀ ((t.delegations k₀).map f) k = some d := hk
  by_cases hkey : k = k₀
  · subst hkey
    rw [update_self] at hk
    obtain ⟨e, he, rfl⟩ := map_eq_some_iff.mp hk
    rw [hf]
    exact h.index k e he
  · rw [update_of_ne hkey] at hk
    exact h.index k d hk

theorem guarded_writeDelegation (hd : home d.id = d.key)
    (hold : ∀ id ∈ old, home id = d.key ∧ Holds held (.delegationId id))
    (hid : Holds held (.installation d.installationId)) (hkey : Holds held (.delegation d.key)) :
    Guarded home held (writeDelegation d old) := by
  refine guarded_locked (fun _ _ h => h) fun t _ => ?_
  refine guarded_unless fun _ => ?_
  refine guarded_writing ?_ (fun t h => h.putDelegation hd fun id hid => (hold id hid).1)
    guarded_commit
  exact local_putDelegation (holds_cons _ hid) (holds_cons _ hkey)
    (fun id hid => holds_cons _ (hold id hid).2) (holds_self _)

theorem guarded_upsertDelegation (hd : home d.id = d.key) :
    Guarded home held (upsertDelegation d) := by
  refine guarded_locked (fun _ _ h => h.1) fun t _ => ?_
  cases t.installations d.installationId with
  | none => exact guarded_fails
  | some i =>
    refine guarded_unless fun _ => ?_
    refine guarded_unless fun _ => guarded_locked (fun _ _ h => h) fun t ht => ?_
    cases hold : t.delegations d.key with
    | none =>
      exact guarded_writeDelegation hd nofun
        (holds_cons _ (holds_self _)) (holds_self _)
    | some old =>
      refine guarded_ite (fun _ => guarded_locking ?_) fun _ => guarded_fails
      refine guarded_writeDelegation hd (fun id hid => ?_)
        (holds_cons _ (holds_cons _ (holds_self _))) (holds_cons _ (holds_self _))
      cases hid
      exact ⟨ht.home_id hold, holds_self _⟩

theorem guarded_revokeDelegation (clock : Int) (id : Uuid) (relay : PublicKey)
    (generation : Int) : Guarded home held (revokeDelegation clock id relay generation) := by
  refine guarded_locked (fun _ _ h => h) fun t _ => ?_
  cases t.delegations (id, relay) with
  | none => exact guarded_fails
  | some d =>
    refine guarded_ite (fun _ => ?_) fun _ => guarded_fails
    exact guarded_writing (local_modifyDelegation (holds_self _) _)
      (fun _ h => h.modifyDelegation fun _ => rfl) guarded_commit

/-! ### Deliveries -/

theorem guarded_reserve (clock : Int) (g : DeliveryCall) (installationId : Uuid)
    (i : InstallationRow) (d : DelegationRow) :
    Guarded home held (reserve clock g installationId i d) := by
  refine guarded_unless fun _ => ?_
  refine guarded_unless fun _ => guarded_locking ?_
  refine guarded_row (holds_self _) (fun a b h => congrArg (admitted clock g) h) fun t _ => ?_
  cases admitted clock g (t.quotas i.tokenFingerprint) with
  | none => exact guarded_fails
  | some quota =>
    refine guarded_writing (local_setQuota (holds_self _) _) (fun _ h => h.congr rfl rfl) ?_
    refine guarded_locking (guarded_row (holds_self _) (fun _ _ h => congrArg _ h) fun t _ => ?_)
    refine guarded_unless fun _ => ?_
    refine guarded_writing (local_setAuthReplay (holds_self _) _) (fun _ h => h.congr rfl rfl) ?_
    refine guarded_locking (guarded_row (holds_self _) (fun _ _ h => congrArg _ h) fun t _ => ?_)
    refine guarded_unless fun _ => ?_
    exact guarded_writing (local_setRequestReplay (holds_self _) _) (fun _ h => h.congr rfl rfl)
      guarded_commit

theorem commits_locked {β : Type*} {select : Tables → β} {next : β → AuthorityTxn} {b : β}
    (h : Txn.Commits (locking k (.read select next)) t) (hb : select t = b) :
    Txn.Commits (next b) t := by
  rwa [← hb]

theorem guarded_authorizeOn (clock : Int) (g : DeliveryCall) (installationId : Uuid) :
    Guarded home held (authorizeOn clock g installationId) := by
  refine guarded_updateInstallation fun i => Txn.guarded_guess (fun a b _ hb _ hcommits => ?_)
    fun t _ => ?_
  · cases ha : a.candidate g with
    | none =>
      rw [ha] at hcommits
      nomatch hcommits
    | some k =>
      obtain ⟨-, hk⟩ := filter_eq_some_iff.mp ha
      rw [Bool.and_eq_true, beq_iff_eq] at hk
      rw [ha] at hcommits
      cases hd : b.delegations k with
      | none =>
        replace hcommits := commits_locked hcommits hd
        nomatch hcommits
      | some d =>
        replace hcommits := commits_locked hcommits hd
        dsimp only at hcommits
        split at hcommits
        · next hauthorizes =>
          -- The row names the delegation, so it is the one that the id finds.
          have hid : d.id = g.delegationId := by
            simp only [DelegationRow.authorizes, Bool.and_eq_true, beq_iff_eq] at hauthorizes
            exact hauthorizes.1.1.1.1.1
          have hfound := hb.index k d hd
          rw [hid] at hfound
          symm
          refine filter_eq_some_iff.mpr ⟨hfound, ?_⟩
          rw [hd, Bool.and_eq_true, beq_iff_eq]
          exact ⟨hk.1, hauthorizes⟩
        · nomatch hcommits
  · cases t.candidate g with
    | none => exact guarded_fails
    | some k =>
      refine guarded_locked (fun _ _ h => h) fun t _ => ?_
      cases t.delegations k with
      | none => exact guarded_fails
      | some d => exact guarded_ite (fun _ => guarded_reserve ..) fun _ => guarded_fails

theorem guarded_authorizeDelivery (clock : Int) (g : DeliveryCall) :
    Guarded home held (authorizeDelivery clock g) := by
  refine guarded_unless fun _ => ?_
  refine guarded_unless fun _ => ?_
  refine Txn.guarded_guess (fun a b ha hb _ hcommits => ?_) fun t _ => ?_
  · cases hfound : a.delegationIds g.delegationId with
    | none =>
      rw [hfound] at hcommits
      nomatch hcommits
    | some k =>
      rw [hfound] at hcommits
      replace hcommits : ((authorizeOn clock g k.1).exec b).2.1 = true := hcommits
      obtain ⟨k', i, d, quota, hadmits, -⟩ := exec_authorizeOn
        (show (authorizeOn clock g k.1).exec b = (_, true, _) from
          Prod.ext rfl (Prod.ext hcommits rfl))
      obtain ⟨hk', -⟩ := filter_eq_some_iff.mp hadmits.candidate
      rw [hk', ← ha.home _ _ hfound, ← hb.home _ _ hk']
  · cases t.delegationIds g.delegationId with
    | none => exact guarded_fails
    | some k => exact guarded_authorizeOn clock g k.1

theorem guarded_finishDelivery (p : DeliveryPermit) (disposition : DeliveryDisposition) :
    Guarded home held (finishDelivery p disposition) := by
  cases disposition with
  | terminal => exact guarded_commit
  | retryable =>
    exact guarded_locking (guarded_writing (local_setRequestReplay (holds_self _) _)
      (fun _ h => h.congr rfl rfl) guarded_commit)

/-! ### Reaping -/

variable {now : Int}

theorem guarded_foldr {α : Type*} {step : α → AuthorityTxn → AuthorityTxn}
    (hstep : ∀ a next, (∀ held, Guarded home held next) → ∀ held, Guarded home held (step a next))
    (items : List α) (hnext : ∀ held, Guarded home held next) :
    ∀ held, Guarded home held (items.foldr step next) := by
  induction items with
  | nil => exact hnext
  | cons a items ih => exact hstep a _ ih

theorem guarded_reapDelegation (parents : List Uuid) (k : DelegationKey) (next : AuthorityTxn)
    (hnext : ∀ held, Guarded home held next) (held : List (Lock LockKey)) :
    Guarded home held (reapDelegation now parents k next) := by
  refine guarded_locked (fun _ _ h => h) fun t ht => ?_
  cases hd : t.delegations k with
  | none => exact hnext _
  | some d =>
    refine guarded_ite (fun _ => guarded_locking ?_) fun _ => hnext _
    exact guarded_writing (local_deleteDelegation (holds_cons _ (holds_self _)) (holds_self _))
      (fun _ h => h.deleteDelegation (ht.home_id hd)) (hnext _)

theorem guarded_reapInstallation (id : Uuid) (next : AuthorityTxn)
    (hnext : ∀ held, Guarded home held next) (held : List (Lock LockKey)) :
    Guarded home held (reapInstallation now id next) := by
  refine guarded_locked (fun _ _ h => h.1) fun t _ => ?_
  cases t.installations id with
  | none => exact hnext _
  | some i =>
    refine guarded_ite (fun _ => guarded_locking (guarded_locking ?_)) fun _ => hnext _
    have hid : Holds (⟨.token (i.appProfile, i.tokenFingerprint), .exclusive⟩ ::
        ⟨.attestKey i.appAttestKeyId, .exclusive⟩ :: ⟨.installation id, .exclusive⟩ :: held)
        (.installation id) := holds_cons _ (holds_cons _ (holds_self _))
    refine Txn.guarded_guess (fun a b _ _ hagree hcommits => ?_) fun t _ => ?_
    · cases hempty : (a.relays id).isEmpty with
      | false =>
        rw [hempty] at hcommits
        nomatch hcommits
      | true =>
        have hsub := (hagree _ hid).2
        rw [isEmpty_iff.mp hempty] at hsub
        exact (isEmpty_iff.mpr (subset_nil.mp hsub)).symm
    · refine guarded_ite (fun _ => ?_) fun _ => guarded_fails
      exact guarded_writing (local_deleteInstallation hid (holds_cons _ (holds_self _))
        (holds_self _)) (fun _ h => h.congr rfl rfl) (hnext _)

theorem guarded_reap {select : Tables → Bool}
    (hselect : ∀ a b, cells.Keeps k a b → select b = select a)
    (hlocal : ∀ held, Holds held k → cells.Local held change)
    (hinv : ∀ t, Sound home t → Sound home (change t)) (hnext : ∀ held, Guarded home held next)
    (held : List (Lock LockKey)) :
    Guarded home held
      (locking k <| .read select fun c => if c then writing change next else next) := by
  refine guarded_locking (guarded_row (holds_self _) hselect fun t _ => ?_)
  exact guarded_ite (fun _ => guarded_writing (hlocal _ (holds_self _)) hinv (hnext _))
    fun _ => hnext _

theorem guarded_reapExpired (found : Found) : Guarded home held (reapExpired now found) := by
  refine guarded_unless fun _ => ?_
  refine guarded_unless fun _ => ?_
  refine guarded_foldr (fun id next hnext => guarded_reap (k := .challenge id)
    (fun a b h => congrArg _ (show b.challenges id = a.challenges id from h))
    (fun held hheld => local_setChallenge hheld none) (fun _ h => h.congr rfl rfl) hnext) _ ?_ _
  refine guarded_foldr (fun k next hnext => guarded_reap (k := .authReplay k)
    (fun a b h => congrArg _ (show b.authReplays k = a.authReplays k from h))
    (fun held hheld => local_setAuthReplay hheld none) (fun _ h => h.congr rfl rfl) hnext) _ ?_
  refine guarded_foldr (fun k next hnext => guarded_reap (k := .requestReplay k)
    (fun a b h => congrArg _ (show b.requestReplays k = a.requestReplays k from h))
    (fun held hheld => local_setRequestReplay hheld none) (fun _ h => h.congr rfl rfl) hnext) _ ?_
  refine guarded_foldr (fun k next hnext => guarded_reap (k := .quota k)
    (fun a b h => congrArg _ (show b.quotas k = a.quotas k from h))
    (fun held hheld => local_setQuota hheld none) (fun _ h => h.congr rfl rfl) hnext) _ ?_
  refine guarded_foldr (guarded_reapDelegation found.parents) _ ?_
  exact guarded_foldr guarded_reapInstallation _ fun _ => guarded_commit

/-! ### Calls -/

/-- The id of a delegation was drawn for its installation and relay. -/
def Operation.AtHome (home : Uuid → DelegationKey) : Operation → Prop
  | .upsertDelegation d => home d.id = d.key
  | _ => True

/-- **Every operation is guarded.** -/
theorem Call.guarded (sha256 : BitVec 256 → BitVec 256) {c : Call} (h : c.operation.AtHome home) :
    Guarded home held (c.txn sha256) := by
  obtain ⟨operation, clock⟩ := c
  cases operation with
  | putChallenge c => exact guarded_putChallenge sha256 c
  | consumeChallenge id value now => exact guarded_consumeChallenge sha256 id value now
  | createInstallation n => exact guarded_createInstallation n
  | installation id now => exact guarded_installation id now
  | advanceAssertionCounter id previous next =>
    exact guarded_advanceAssertionCounter id previous next
  | upsertDelegation d => exact guarded_upsertDelegation h
  | rotateEndpoint id expected new ciphertext fingerprint =>
    exact guarded_rotateEndpoint id expected new ciphertext fingerprint
  | revokeDelegation id relay generation => exact guarded_revokeDelegation clock id relay generation
  | revokeInstallation id expected new => exact guarded_revokeInstallation clock id expected new
  | authorizeDelivery g => exact guarded_authorizeDelivery clock g
  | finishDelivery p disposition => exact guarded_finishDelivery p disposition
  | reapExpired now found => exact guarded_reapExpired found

end Statements

end Buzz.PushGateway
