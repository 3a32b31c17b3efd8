import Buzz.PushGateway.Authority

/-!
# What a commit of the authority store does

For every operation, what was there when it committed, what it has made of the tables and what it
answered. Everything later is derived from these.
-/

namespace Buzz.PushGateway

open Option Function

variable {t t' : Tables} {r : Reply}

/-! ### Rules -/

variable {e : AuthorityError}

theorem not_exec_fails : (fails e).exec t ≠ (t', true, r) := by
  intro h
  exact Bool.false_ne_true (congrArg (fun x => x.2.1) h)

theorem exec_ite_fails {c : Prop} [Decidable c] {p : AuthorityTxn}
    (h : (if c then fails e else p).exec t = (t', true, r)) : ¬c ∧ p.exec t = (t', true, r) := by
  by_cases hc : c
  · rw [if_pos hc] at h
    exact absurd h not_exec_fails
  · rw [if_neg hc] at h
    exact ⟨hc, h⟩

theorem exec_ite_else_fails {c : Prop} [Decidable c] {p : AuthorityTxn}
    (h : (if c then p else fails e).exec t = (t', true, r)) : c ∧ p.exec t = (t', true, r) := by
  by_cases hc : c
  · rw [if_pos hc] at h
    exact ⟨hc, h⟩
  · rw [if_neg hc] at h
    exact absurd h not_exec_fails

variable {x : Tables × Bool × Reply}

theorem exec_select {β : Type*} {select : Tables → β} {next : β → AuthorityTxn} {b : β}
    (h : (Txn.read select next).exec t = x) (hb : select t = b) : (next b).exec t = x := by
  rwa [Txn.exec_read, hb] at h

theorem exec_locked {β : Type*} {k : LockKey} {select : Tables → β} {next : β → AuthorityTxn}
    {b : β} (h : (locking k (.read select next)).exec t = x) (hb : select t = b) :
    (next b).exec t = x :=
  exec_select h hb

variable {change : Tables → Tables}

theorem exec_writing_commit {s : Reply} (h : (writing change (.commit s)).exec t = (t', true, r)) :
    t' = change t ∧ r = s := by
  obtain ⟨ht, hr⟩ := Prod.mk.inj h
  exact ⟨ht.symm, (Prod.mk.inj hr).2.symm⟩

variable {id : Uuid}

theorem exec_updateInstallation {condition : InstallationRow → Bool}
    {next : InstallationRow → AuthorityTxn}
    (h : (updateInstallation id condition next).exec t = (t', true, r)) :
    ∃ i, t.installations id = some i ∧ condition i = true ∧ (next i).exec t = (t', true, r) := by
  cases hi : t.installations id with
  | none =>
    replace h := exec_locked h hi
    exact absurd h not_exec_fails
  | some i =>
    replace h := exec_locked h hi
    obtain ⟨hc, h⟩ := exec_ite_else_fails h
    exact ⟨i, rfl, hc, h⟩

/-! ### Challenges -/

variable {sha256 : BitVec 256 → BitVec 256}

theorem exec_putChallenge {c : Challenge} (h : (putChallenge sha256 c).exec t = (t', true, r)) :
    t' = t.setChallenge c.id (some ⟨sha256 c.value, c.expiresAt⟩) ∧ r = .ok := by
  obtain ⟨-, h⟩ := exec_ite_fails h
  obtain ⟨-, h⟩ := exec_ite_fails (show (if _ then _ else _ : AuthorityTxn).exec t = _ from h)
  exact exec_writing_commit h

theorem exec_consumeChallenge {value : BitVec 256} {now : Int}
    (h : (consumeChallenge sha256 id value now).exec t = (t', true, r)) :
    t' = t.setChallenge id none ∧ r = .ok := by
  obtain ⟨-, h⟩ := exec_ite_fails h
  obtain ⟨-, h⟩ := exec_ite_fails h
  obtain ⟨-, h⟩ :=
    exec_ite_else_fails (show (if _ then _ else _ : AuthorityTxn).exec t = _ from h)
  exact exec_writing_commit h

/-! ### Installations -/

theorem not_exec_installation {now : Int} : (installation id now).exec t ≠ (t', true, r) := by
  intro h
  obtain ⟨-, h⟩ := exec_ite_fails h
  obtain ⟨-, h⟩ := exec_ite_fails h
  cases hi : t.installations id with
  | none =>
    replace h := exec_select h hi
    exact not_exec_fails h
  | some i =>
    replace h := exec_select h hi
    obtain ⟨-, h⟩ := exec_ite_else_fails h
    exact Bool.false_ne_true (congrArg (fun x => x.2.1) h)

theorem exec_createInstallation {n : NewInstallation}
    (h : (createInstallation n).exec t = (t', true, r)) :
    n.check = true ∧ t.installations n.id = none ∧ t.attestKeys n.appAttestKeyId = none ∧
      t.tokens (n.profile, n.tokenFingerprint) = none ∧ t' = t.insertInstallation n ∧ r = .ok := by
  obtain ⟨-, h⟩ := exec_ite_fails h
  obtain ⟨hcheck, h⟩ := exec_ite_fails h
  obtain ⟨hfree, h⟩ := exec_ite_fails (show (if _ then _ else _ : AuthorityTxn).exec t = _ from h)
  simp only [Bool.or_eq_true, not_or, Bool.not_eq_true, isSome_eq_false_iff,
    isNone_iff_eq_none] at hfree
  rw [Bool.not_eq_true', Bool.not_eq_false] at hcheck
  exact ⟨hcheck, hfree.1.1, hfree.1.2, hfree.2, exec_writing_commit h⟩

theorem exec_advanceAssertionCounter {previous next : UInt32}
    (h : (advanceAssertionCounter id previous next).exec t = (t', true, r)) :
    previous < next ∧ (∃ i, t.installations id = some i ∧ i.assertionCounter = previous ∧
      i.revokedAt = none) ∧
      t' = t.modifyInstallation id (fun i => { i with assertionCounter := next }) ∧ r = .ok := by
  obtain ⟨hlt, h⟩ := exec_ite_fails h
  obtain ⟨i, hi, hcond, h⟩ := exec_updateInstallation h
  rw [Bool.and_eq_true, beq_iff_eq, isNone_iff_eq_none] at hcond
  exact ⟨UInt32.not_le.mp hlt, ⟨i, hi, hcond⟩, exec_writing_commit h⟩

theorem exec_rotateEndpoint {expected new : Int} {ciphertext : List UInt8}
    {fingerprint : Fingerprint}
    (h : (rotateEndpoint id expected new ciphertext fingerprint).exec t = (t', true, r)) :
    new = expected + 1 ∧ ∃ i, t.installations id = some i ∧ i.endpointEpoch = expected ∧
      i.revokedAt = none ∧ ((t.tokens (i.appProfile, fingerprint)).all fun o => o == id) = true ∧
      t' = (t.modifyInstallation id (InstallationRow.rotate new ciphertext fingerprint)).moveToken
        id i.appProfile i.tokenFingerprint fingerprint ∧ r = .ok := by
  obtain ⟨hfollows, h⟩ := exec_ite_fails h
  obtain ⟨i, hi, hcond, h⟩ := exec_updateInstallation h
  obtain ⟨-, h⟩ := exec_ite_fails h
  obtain ⟨howner, h⟩ := exec_ite_fails (show (if _ then _ else _ : AuthorityTxn).exec t = _ from h)
  rw [Bool.not_eq_true', Bool.not_eq_false, followsEpoch, Bool.and_eq_true, beq_iff_eq] at hfollows
  rw [Bool.and_eq_true, beq_iff_eq, isNone_iff_eq_none] at hcond
  refine ⟨hfollows.2, i, hi, hcond.1, hcond.2, ?_, exec_writing_commit h⟩
  replace howner : ¬((t.tokens (i.appProfile, fingerprint)).any fun o => o != id) = true := howner
  cases ho : t.tokens (i.appProfile, fingerprint) with
  | none => rfl
  | some o =>
    rw [ho] at howner
    replace howner : ¬(o != id) = true := howner
    rw [bne_iff_ne, Classical.not_not] at howner
    exact beq_iff_eq.mpr howner

variable {clock : Int}

theorem exec_revokeInstallation {expected new : Int}
    (h : (revokeInstallation clock id expected new).exec t = (t', true, r)) :
    new = expected + 1 ∧ (∃ i, t.installations id = some i ∧ i.endpointEpoch = expected ∧
      i.revokedAt = none) ∧
      t' = t.modifyInstallation id (InstallationRow.revoke clock new) ∧ r = .ok := by
  obtain ⟨hfollows, h⟩ := exec_ite_fails h
  obtain ⟨i, hi, hcond, h⟩ := exec_updateInstallation h
  obtain ⟨-, h⟩ := exec_ite_fails h
  rw [Bool.not_eq_true', Bool.not_eq_false, followsEpoch, Bool.and_eq_true, beq_iff_eq] at hfollows
  rw [Bool.and_eq_true, beq_iff_eq, isNone_iff_eq_none] at hcond
  exact ⟨hfollows.2, ⟨i, hi, hcond⟩, exec_writing_commit h⟩

/-! ### Delegations -/

theorem exec_writeDelegation {d : Delegation} {old : Option Uuid}
    (h : (writeDelegation d old).exec t = (t', true, r)) :
    ((t.delegationIds d.id).all fun k => k == d.key) = true ∧ t' = t.putDelegation d old ∧
      r = .ok := by
  obtain ⟨htaken, h⟩ := exec_ite_fails (show (if _ then _ else _ : AuthorityTxn).exec t = _ from h)
  refine ⟨?_, exec_writing_commit h⟩
  replace htaken : ¬((t.delegationIds d.id).any fun k => k != d.key) = true := htaken
  cases hk : t.delegationIds d.id with
  | none => rfl
  | some k =>
    rw [hk] at htaken
    replace htaken : ¬(k != d.key) = true := htaken
    rw [bne_iff_ne, Classical.not_not] at htaken
    exact beq_iff_eq.mpr htaken

theorem exec_upsertDelegation {d : Delegation}
    (h : (upsertDelegation d).exec t = (t', true, r)) :
    d.check = true ∧ (∃ i, t.installations d.installationId = some i ∧ i.revokedAt = none ∧
      i.endpointEpoch = d.endpointEpoch ∧ d.expiresAt ≤ i.expiresAt) ∧
      ((t.delegationIds d.id).all fun k => k == d.key) = true ∧
      ((t.delegations d.key).all fun o => decide (o.generation < d.generation)) = true ∧
      t' = t.putDelegation d ((t.delegations d.key).map DelegationRow.id) ∧ r = .ok := by
  cases hi : t.installations d.installationId with
  | none =>
    replace h := exec_locked h hi
    exact absurd h not_exec_fails
  | some i =>
    replace h := exec_locked h hi
    obtain ⟨hcond, h⟩ := exec_ite_fails h
    obtain ⟨hcheck, h⟩ := exec_ite_fails h
    simp only [Bool.or_eq_true, not_or, Bool.not_eq_true, isSome_eq_false_iff,
      isNone_iff_eq_none, bne_eq_false_iff_eq, decide_eq_false_iff_not, gt_iff_lt,
      Int.not_lt] at hcond
    rw [Bool.not_eq_true', Bool.not_eq_false] at hcheck
    refine ⟨hcheck, ⟨i, rfl, hcond.1.1.1.1, hcond.1.1.1.2, hcond.1.2⟩, ?_⟩
    cases hold : t.delegations d.key with
    | none =>
      replace h := exec_locked h hold
      obtain ⟨htaken, ht, hr⟩ := exec_writeDelegation h
      exact ⟨htaken, rfl, ht, hr⟩
    | some old =>
      replace h := exec_locked h hold
      obtain ⟨hgeneration, h⟩ := exec_ite_else_fails h
      obtain ⟨htaken, ht, hr⟩ := exec_writeDelegation h
      exact ⟨htaken, decide_eq_true hgeneration, ht, hr⟩

theorem exec_revokeDelegation {relay : PublicKey} {generation : Int}
    (h : (revokeDelegation clock id relay generation).exec t = (t', true, r)) :
    (∃ d, t.delegations (id, relay) = some d ∧ d.generation < generation) ∧
      t' = t.modifyDelegation (id, relay) (DelegationRow.revoke clock generation) ∧ r = .ok := by
  cases hd : t.delegations (id, relay) with
  | none =>
    replace h := exec_locked h hd
    exact absurd h not_exec_fails
  | some d =>
    replace h := exec_locked h hd
    obtain ⟨hlt, h⟩ := exec_ite_else_fails h
    exact ⟨⟨d, rfl, hlt⟩, exec_writing_commit h⟩

/-! ### Deliveries -/

/-- What an admission has found: the delegation `k` and its installation, both in force. -/
structure Admits (g : DeliveryCall) (t : Tables) (installationId : Uuid) (k : DelegationKey)
    (i : InstallationRow) (d : DelegationRow) : Prop where
  installation : t.installations installationId = some i
  authorizes : i.authorizes g = true
  delegation : t.delegations k = some d
  delegationAuthorizes : d.authorizes g = true
  candidate : t.candidate g = some k
  /-- The request has not expired, and does not outlive the delegation. -/
  request : g.now ≤ g.requestExpiresAt ∧ g.requestExpiresAt ≤ d.expiresAt
  authReplay : t.authReplays (g.relayPubkey, g.eventId) = none
  requestReplay : t.requestReplays (g.relayPubkey, g.requestId) = none

def Tables.reserved (g : DeliveryCall) (fingerprint : Fingerprint) (quota : QuotaRow)
    (t : Tables) : Tables :=
  ((t.setQuota fingerprint (some quota)).setAuthReplay (g.relayPubkey, g.eventId)
    (some g.requestExpiresAt)).setRequestReplay (g.relayPubkey, g.requestId)
      (some g.requestExpiresAt)

variable {g : DeliveryCall} {installationId : Uuid}

theorem exec_reserve {i : InstallationRow} {d : DelegationRow}
    (h : (reserve clock g installationId i d).exec t = (t', true, r)) :
    (g.now ≤ g.requestExpiresAt ∧ g.requestExpiresAt ≤ d.expiresAt) ∧
      t.authReplays (g.relayPubkey, g.eventId) = none ∧
      t.requestReplays (g.relayPubkey, g.requestId) = none ∧
      ∃ quota, admitted clock g (t.quotas i.tokenFingerprint) = some quota ∧
        t' = t.reserved g i.tokenFingerprint quota ∧ r = .permit (permit g installationId i d) := by
  obtain ⟨hrequest, h⟩ := exec_ite_fails h
  obtain ⟨-, h⟩ := exec_ite_fails h
  simp only [Bool.or_eq_true, not_or, decide_eq_true_eq, gt_iff_lt, Int.not_lt] at hrequest
  cases hquota : admitted clock g (t.quotas i.tokenFingerprint) with
  | none =>
    replace h := exec_locked h hquota
    exact absurd h not_exec_fails
  | some quota =>
    replace h := exec_locked h hquota
    obtain ⟨hauth, h⟩ := exec_ite_fails (show (if
      (t.authReplays (g.relayPubkey, g.eventId)).isSome then _ else _ : AuthorityTxn).exec
        (t.setQuota i.tokenFingerprint (some quota)) = _ from h)
    obtain ⟨hreq, h⟩ := exec_ite_fails (show (if
      (t.requestReplays (g.relayPubkey, g.requestId)).isSome then _ else _ : AuthorityTxn).exec
        ((t.setQuota i.tokenFingerprint (some quota)).setAuthReplay (g.relayPubkey, g.eventId)
          (some g.requestExpiresAt)) = _ from h)
    rw [Bool.not_eq_true, isSome_eq_false_iff, isNone_iff_eq_none] at hauth hreq
    exact ⟨hrequest, hauth, hreq, quota, rfl, exec_writing_commit h⟩

theorem exec_authorizeOn (h : (authorizeOn clock g installationId).exec t = (t', true, r)) :
    ∃ k i d quota, Admits g t installationId k i d ∧
      admitted clock g (t.quotas i.tokenFingerprint) = some quota ∧
      t' = t.reserved g i.tokenFingerprint quota ∧ r = .permit (permit g k.1 i d) := by
  obtain ⟨i, hi, hcond, h⟩ := exec_updateInstallation h
  cases hk : t.candidate g with
  | none =>
    replace h := exec_select h hk
    exact absurd h not_exec_fails
  | some k =>
    replace h := exec_select h hk
    cases hd : t.delegations k with
    | none =>
      replace h := exec_locked h hd
      exact absurd h not_exec_fails
    | some d =>
      replace h := exec_locked h hd
      obtain ⟨hauthorizes, h⟩ := exec_ite_else_fails h
      obtain ⟨hrequest, hauth, hreq, quota, hquota, ht, hr⟩ := exec_reserve h
      exact ⟨k, i, d, quota, ⟨hi, hcond, hd, hauthorizes, hk, hrequest, hauth, hreq⟩, hquota, ht,
        hr⟩

theorem exec_authorizeDelivery (h : (authorizeDelivery clock g).exec t = (t', true, r)) :
    ∃ k i d quota, Admits g t k.1 k i d ∧
      admitted clock g (t.quotas i.tokenFingerprint) = some quota ∧
      t' = t.reserved g i.tokenFingerprint quota ∧ r = .permit (permit g k.1 i d) := by
  obtain ⟨-, h⟩ := exec_ite_fails h
  obtain ⟨-, h⟩ := exec_ite_fails h
  cases hfound : (t.delegationIds g.delegationId).map Prod.fst with
  | none =>
    replace h := exec_select h hfound
    exact absurd h not_exec_fails
  | some installationId =>
    replace h := exec_select h hfound
    obtain ⟨k, i, d, quota, hadmits, hquota, ht, hr⟩ := exec_authorizeOn h
    obtain ⟨hk, -⟩ := filter_eq_some_iff.mp hadmits.candidate
    rw [hk] at hfound
    cases hfound
    exact ⟨k, i, d, quota, hadmits, hquota, ht, hr⟩

variable {p : DeliveryPermit}

theorem exec_finishDelivery_terminal (h : (finishDelivery p .terminal).exec t = (t', true, r)) :
    t' = t ∧ r = .ok := by
  obtain ⟨ht, hr⟩ := Prod.mk.inj h
  exact ⟨ht.symm, (Prod.mk.inj hr).2.symm⟩

theorem exec_finishDelivery_retryable (h : (finishDelivery p .retryable).exec t = (t', true, r)) :
    t' = t.setRequestReplay (p.relayPubkey, p.requestId) none ∧ r = .ok :=
  exec_writing_commit h

/-! ### Reaping -/

/-- What reaping at `now` may make of the tables, when it has found these delegations. -/
structure Reaps (now : Int) (found : List DelegationKey) (t t' : Tables) : Prop where
  installations : ∀ id, t'.installations id = t.installations id ∨ t'.installations id = none
  delegations : ∀ k, t'.delegations k = t.delegations k ∨ t'.delegations k = none ∧ k ∈ found
  /-- Expired fences of NIP-98 events may go. -/
  authReplays : ∀ k, t'.authReplays k = t.authReplays k ∨
    t'.authReplays k = none ∧ ∃ e, t.authReplays k = some e ∧ e < now
  requestReplays : ∀ k, t'.requestReplays k = t.requestReplays k ∨
    t'.requestReplays k = none ∧ ∃ e, t.requestReplays k = some e ∧ e < now

variable {now : Int} {gone : List DelegationKey}

theorem kept_trans {α β : Type*} {f g h : α → Option β} {P : α → Prop}
    (hfg : ∀ k, g k = f k ∨ g k = none ∧ P k) (hgh : ∀ k, h k = g k ∨ h k = none ∧ P k) (k : α) :
    h k = f k ∨ h k = none ∧ P k := by
  obtain hh | hh := hgh k
  · rw [hh]
    exact hfg k
  · exact .inr hh

theorem expired_trans {α : Type*} {f g h : α → Option Int}
    (hfg : ∀ k, g k = f k ∨ g k = none ∧ ∃ e, f k = some e ∧ e < now)
    (hgh : ∀ k, h k = g k ∨ h k = none ∧ ∃ e, g k = some e ∧ e < now) (k : α) :
    h k = f k ∨ h k = none ∧ ∃ e, f k = some e ∧ e < now := by
  obtain hh | ⟨hh, e, he, hlt⟩ := hgh k
  · rw [hh]
    exact hfg k
  · obtain hg | ⟨hg, -⟩ := hfg k
    · exact .inr ⟨hh, e, hg ▸ he, hlt⟩
    · nomatch (hg.symm.trans he)

theorem Reaps.refl (now : Int) (gone : List DelegationKey) (t : Tables) : Reaps now gone t t :=
  ⟨fun _ => .inl rfl, fun _ => .inl rfl, fun _ => .inl rfl, fun _ => .inl rfl⟩

theorem Reaps.trans {a b c : Tables} (hab : Reaps now gone a b) (hbc : Reaps now gone b c) :
    Reaps now gone a c where
  installations id := by
    obtain h | h := hbc.installations id
    · rw [h]
      exact hab.installations id
    · exact .inr h
  delegations := kept_trans hab.delegations hbc.delegations
  authReplays := expired_trans hab.authReplays hbc.authReplays
  requestReplays := expired_trans hab.requestReplays hbc.requestReplays

theorem update_none {α β : Type*} [DecidableEq α] (f : α → Option β) (k₀ k : α) :
    update f k₀ none k = f k ∨ update f k₀ none k = none := by
  rw [update_apply]
  split
  · exact .inr rfl
  · exact .inl rfl

theorem update_expired {α : Type*} [DecidableEq α] {f : α → Option Int} {k₀ : α}
    (h : ((f k₀).any fun e => decide (e < now)) = true) (k : α) :
    update f k₀ none k = f k ∨
      update f k₀ none k = none ∧ ∃ e, f k = some e ∧ e < now := by
  rw [update_apply]
  split
  · next heq =>
    obtain ⟨e, he, hlt⟩ := (any_eq_true _ _).mp h
    exact .inr ⟨rfl, e, heq ▸ he, of_decide_eq_true hlt⟩
  · exact .inl rfl

/-- A statement of a reaping goes on, after what it has deleted. -/
def ReapStep (now : Int) (gone : List DelegationKey) (step : AuthorityTxn → AuthorityTxn) :
    Prop :=
  ∀ next t t' r, (step next).exec t = (t', true, r) →
    ∃ t₁, Reaps now gone t t₁ ∧ next.exec t₁ = (t', true, r)

theorem exec_foldr {α : Type*} {step : α → AuthorityTxn → AuthorityTxn} (items : List α)
    (hstep : ∀ a ∈ items, ReapStep now gone (step a)) :
    ReapStep now gone fun next => items.foldr step next := by
  induction items with
  | nil => exact fun next t t' r h => ⟨t, .refl now gone t, h⟩
  | cons a items ih =>
    intro next t t' r h
    obtain ⟨t₁, h₁, h⟩ := hstep a List.mem_cons_self _ _ _ _ h
    obtain ⟨t₂, h₂, h⟩ := ih (fun b hb => hstep b (List.mem_cons_of_mem a hb)) next _ _ _ h
    exact ⟨t₂, h₁.trans h₂, h⟩

theorem reapStep_ite {select : Tables → Bool} {k : LockKey}
    (hchange : ∀ t, select t = true → Reaps now gone t (change t)) :
    ReapStep now gone fun next =>
      locking k <| .read select fun c => if c then writing change next else next := by
  intro next t t' r h
  replace h : (if select t then writing change next else next : AuthorityTxn).exec t =
    (t', true, r) := h
  split at h
  · next hc => exact ⟨change t, hchange t hc, h⟩
  · exact ⟨t, .refl now gone t, h⟩

theorem reapStep_challenge (id : Uuid) : ReapStep now gone (reapChallenge now id) :=
  reapStep_ite fun _ _ =>
    ⟨fun _ => .inl rfl, fun _ => .inl rfl, fun _ => .inl rfl, fun _ => .inl rfl⟩

theorem reapStep_authReplay (k : PublicKey × EventId) : ReapStep now gone (reapAuthReplay now k) :=
  reapStep_ite fun _ hc =>
    ⟨fun _ => .inl rfl, fun _ => .inl rfl, update_expired hc, fun _ => .inl rfl⟩

theorem reapStep_requestReplay (k : PublicKey × Uuid) :
    ReapStep now gone (reapRequestReplay now k) :=
  reapStep_ite fun _ hc =>
    ⟨fun _ => .inl rfl, fun _ => .inl rfl, fun _ => .inl rfl, update_expired hc⟩

theorem reapStep_quota (k : Fingerprint) : ReapStep now gone (reapQuota now k) :=
  reapStep_ite fun _ _ =>
    ⟨fun _ => .inl rfl, fun _ => .inl rfl, fun _ => .inl rfl, fun _ => .inl rfl⟩

theorem reapStep_delegation (parents : List Uuid) {k : DelegationKey} (hk : k ∈ gone) :
    ReapStep now gone (reapDelegation now parents k) := by
  intro next t t' r h
  cases hd : t.delegations k with
  | none => exact ⟨t, .refl now gone t, exec_locked h hd⟩
  | some d =>
    replace h := exec_locked h hd
    dsimp only at h
    split at h
    · refine ⟨t.deleteDelegation k d.id, ⟨fun _ => .inl rfl, fun k' => ?_, fun _ => .inl rfl,
        fun _ => .inl rfl⟩, h⟩
      by_cases hne : k' = k
      · subst hne
        exact .inr ⟨update_self _ _ _, hk⟩
      · exact .inl (update_of_ne hne _ _)
    · exact ⟨t, .refl now gone t, h⟩

theorem reapStep_installation (id : Uuid) : ReapStep now gone (reapInstallation now id) := by
  intro next t t' r h
  cases hi : t.installations id with
  | none => exact ⟨t, .refl now gone t, exec_locked h hi⟩
  | some i =>
    replace h := exec_locked h hi
    dsimp only at h
    split at h
    · obtain ⟨-, h⟩ := exec_ite_else_fails
        (show (if (t.relays id).isEmpty then _ else _ : AuthorityTxn).exec t = _ from h)
      exact ⟨t.deleteInstallation id i, ⟨update_none _ id, fun _ => .inl rfl, fun _ => .inl rfl,
        fun _ => .inl rfl⟩, h⟩
    · exact ⟨t, .refl now gone t, h⟩

theorem exec_reapExpired {found : Found} (h : (reapExpired now found).exec t = (t', true, r)) :
    Reaps now found.delegations t t' ∧ r = .ok := by
  obtain ⟨-, h⟩ := exec_ite_fails h
  obtain ⟨-, h⟩ := exec_ite_fails h
  obtain ⟨t₁, h₁, h⟩ := exec_foldr found.challenges (fun a _ => reapStep_challenge a) _ _ _ _ h
  obtain ⟨t₂, h₂, h⟩ := exec_foldr found.authReplays (fun a _ => reapStep_authReplay a) _ _ _ _ h
  obtain ⟨t₃, h₃, h⟩ :=
    exec_foldr found.requestReplays (fun a _ => reapStep_requestReplay a) _ _ _ _ h
  obtain ⟨t₄, h₄, h⟩ := exec_foldr found.quotas (fun a _ => reapStep_quota a) _ _ _ _ h
  obtain ⟨t₅, h₅, h⟩ := exec_foldr found.delegations
    (fun a ha => reapStep_delegation found.parents ha) _ _ _ _ h
  obtain ⟨t₆, h₆, h⟩ :=
    exec_foldr found.installations (fun a _ => reapStep_installation a) _ _ _ _ h
  obtain ⟨ht, hr⟩ := Prod.mk.inj h
  rw [← ht]
  exact ⟨((((h₁.trans h₂).trans h₃).trans h₄).trans h₅).trans h₆, (Prod.mk.inj hr).2.symm⟩

/-! ### All operations -/

/-- What an operation that commits has found, what it makes of the tables, and what it answers. -/
inductive Effect (clock : Int) (t : Tables) : Operation → Tables → Reply → Prop
  | putChallenge (c : Challenge) (row : Option ChallengeRow) :
    Effect clock t (.putChallenge c) (t.setChallenge c.id row) .ok
  | consumeChallenge (id : Uuid) (value : BitVec 256) (now : Int) :
    Effect clock t (.consumeChallenge id value now) (t.setChallenge id none) .ok
  | createInstallation {n : NewInstallation} (hid : t.installations n.id = none) :
    Effect clock t (.createInstallation n) (t.insertInstallation n) .ok
  | advanceAssertionCounter {id : Uuid} {previous next : UInt32} {i : InstallationRow}
      (hlt : previous < next) (hi : t.installations id = some i)
      (hcounter : i.assertionCounter = previous) :
    Effect clock t (.advanceAssertionCounter id previous next)
      (t.modifyInstallation id fun i => { i with assertionCounter := next }) .ok
  | upsertDelegation {d : Delegation} {i : InstallationRow}
      (hi : t.installations d.installationId = some i)
      (hgeneration : ∀ o, t.delegations d.key = some o → o.generation < d.generation) :
    Effect clock t (.upsertDelegation d)
      (t.putDelegation d ((t.delegations d.key).map DelegationRow.id)) .ok
  | rotateEndpoint {id : Uuid} {expected : Int} {ciphertext : List UInt8}
      {fingerprint : Fingerprint} {i : InstallationRow} (hi : t.installations id = some i)
      (hepoch : i.endpointEpoch = expected) :
    Effect clock t (.rotateEndpoint id expected (expected + 1) ciphertext fingerprint)
      ((t.modifyInstallation id
        (InstallationRow.rotate (expected + 1) ciphertext fingerprint)).moveToken id i.appProfile
        i.tokenFingerprint fingerprint) .ok
  | revokeDelegation {id : Uuid} {relay : PublicKey} {generation : Int} {d : DelegationRow}
      (hd : t.delegations (id, relay) = some d) (hlt : d.generation < generation) :
    Effect clock t (.revokeDelegation id relay generation)
      (t.modifyDelegation (id, relay) (DelegationRow.revoke clock generation)) .ok
  | revokeInstallation {id : Uuid} {expected : Int} {i : InstallationRow}
      (hi : t.installations id = some i) (hepoch : i.endpointEpoch = expected) :
    Effect clock t (.revokeInstallation id expected (expected + 1))
      (t.modifyInstallation id (InstallationRow.revoke clock (expected + 1))) .ok
  | authorizeDelivery {g : DeliveryCall} {k : DelegationKey} {i : InstallationRow}
      {d : DelegationRow} (hadmits : Admits g t k.1 k i d) (quota : QuotaRow) :
    Effect clock t (.authorizeDelivery g) (t.reserved g i.tokenFingerprint quota)
      (.permit (permit g k.1 i d))
  | terminal (p : DeliveryPermit) : Effect clock t (.finishDelivery p .terminal) t .ok
  | retryable (p : DeliveryPermit) :
    Effect clock t (.finishDelivery p .retryable)
      (t.setRequestReplay (p.relayPubkey, p.requestId) none) .ok
  | reapExpired {now : Int} {found : Found} {t' : Tables}
      (hreaps : Reaps now found.delegations t t') : Effect clock t (.reapExpired now found) t' .ok

/-- **What a commit does.** -/
theorem Call.effect {c : Call} (h : (c.txn sha256).exec t = (t', true, r)) :
    Effect c.clock t c.operation t' r := by
  obtain ⟨operation, clock⟩ := c
  cases operation with
  | putChallenge c =>
    obtain ⟨rfl, rfl⟩ := exec_putChallenge h
    exact .putChallenge c _
  | consumeChallenge id value now =>
    obtain ⟨rfl, rfl⟩ := exec_consumeChallenge h
    exact .consumeChallenge id value now
  | createInstallation n =>
    obtain ⟨-, hid, -, -, rfl, rfl⟩ := exec_createInstallation h
    exact .createInstallation hid
  | installation id now => exact absurd h not_exec_installation
  | advanceAssertionCounter id previous next =>
    obtain ⟨hlt, ⟨i, hi, hcounter, -⟩, rfl, rfl⟩ := exec_advanceAssertionCounter h
    exact .advanceAssertionCounter hlt hi hcounter
  | upsertDelegation d =>
    obtain ⟨-, ⟨i, hi, -⟩, -, hgeneration, rfl, rfl⟩ := exec_upsertDelegation h
    exact .upsertDelegation hi fun o ho =>
      of_decide_eq_true ((all_eq_true _ _).mp hgeneration o ho)
  | rotateEndpoint id expected new ciphertext fingerprint =>
    obtain ⟨rfl, i, hi, hepoch, -, -, rfl, rfl⟩ := exec_rotateEndpoint h
    exact .rotateEndpoint hi hepoch
  | revokeDelegation id relay generation =>
    obtain ⟨⟨d, hd, hlt⟩, rfl, rfl⟩ := exec_revokeDelegation h
    exact .revokeDelegation hd hlt
  | revokeInstallation id expected new =>
    obtain ⟨rfl, ⟨i, hi, hepoch, -⟩, rfl, rfl⟩ := exec_revokeInstallation h
    exact .revokeInstallation hi hepoch
  | authorizeDelivery g =>
    obtain ⟨k, i, d, quota, hadmits, -, rfl, rfl⟩ := exec_authorizeDelivery h
    exact .authorizeDelivery hadmits quota
  | finishDelivery p disposition =>
    cases disposition with
    | terminal =>
      obtain ⟨rfl, rfl⟩ := exec_finishDelivery_terminal (p := p) h
      exact .terminal p
    | retryable =>
      obtain ⟨rfl, rfl⟩ := exec_finishDelivery_retryable (p := p) h
      exact .retryable p
  | reapExpired now found =>
    obtain ⟨hreaps, rfl⟩ := exec_reapExpired h
    exact .reapExpired hreaps

end Buzz.PushGateway
