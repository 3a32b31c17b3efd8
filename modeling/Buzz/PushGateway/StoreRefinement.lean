import Buzz.PushGateway.AuthoritySteps
import Buzz.PushGateway.MemoryStore

/-!
# The two stores, side by side

The calls are executed one after another on both stores. They answer alike until one of four things
happens: a wrong value is offered for a live challenge, which burns it in the reference store only; an
installation moves to another one's token, which is `Unavailable` in PostgreSQL; a reaping deletes
installations or delegations, which the reference store keeps; or a timestamp cannot be stored.
-/

namespace Buzz.PushGateway

open List Option Function

/-! ### Calls one after another -/

/-- A transaction run alone: what it leaves and what it answers. -/
def outcome (p : AuthorityTxn) (t : Tables) : Tables × Reply := (p.effect t, (p.answer t).2)

@[simp] theorem outcome_locking (k : LockKey) (next : AuthorityTxn) (t : Tables) :
    outcome (locking k next) t = outcome next t := rfl

@[simp] theorem outcome_read {β : Type} (select : Tables → β) (next : β → AuthorityTxn)
    (t : Tables) : outcome (.read select next) t = outcome (next (select t)) t := rfl

@[simp] theorem outcome_rollback (r : Reply) (t : Tables) : outcome (.rollback r) t = (t, r) := rfl

@[simp] theorem outcome_writing_commit (change : Tables → Tables) (r : Reply) (t : Tables) :
    outcome (writing change (.commit r)) t = (change t, r) := rfl

/-- A call of `PostgresAuthorityStore`, alone. -/
def postgres (sha256 : BitVec 256 → BitVec 256) (t : Tables) (c : Call) : Tables × Reply :=
  outcome (c.txn sha256) t

/-- What both stores answer to calls one after another. -/
def answers (sha256 : BitVec 256 → BitVec 256) (t : Tables) (m : Memory) :
    List Call → List (Reply × Reply)
  | [] => []
  | c :: calls =>
    ((postgres sha256 t c).2, (m.call c.operation).2) ::
      answers sha256 (postgres sha256 t c).1 (m.call c.operation).1 calls

/-- Every call has a property, given the states before it and the calls so far, the last one first. -/
def Steps (sha256 : BitVec 256 → BitVec 256) (P : Tables → Memory → List Call → Call → Prop)
    (t : Tables) (m : Memory) (past : List Call) : List Call → Prop
  | [] => True
  | c :: calls => P t m past c ∧
    Steps sha256 P (postgres sha256 t c).1 (m.call c.operation).1 (c :: past) calls

/-! ### What the handlers check -/

/-- The clock that a call has read. -/
def Operation.reading : Operation → Option Int
  | .consumeChallenge _ _ now => some now
  | .installation _ now => some now
  | .authorizeDelivery g => some g.now
  | .reapExpired now _ => some now
  | _ => none

def lastReading : List Call → Int
  | [] => 0
  | c :: past => c.operation.reading.getD (lastReading past)

/-- The statements of a reaping find what there is. -/
structure Exact (now : Int) (t : Tables) (found : Found) : Prop where
  challenges : ∀ id, id ∈ found.challenges ↔ ∃ c, t.challenges id = some c ∧ c.expiresAt < now
  authReplays : ∀ k, k ∈ found.authReplays ↔ ∃ e, t.authReplays k = some e ∧ e < now
  requestReplays : ∀ k, k ∈ found.requestReplays ↔ ∃ e, t.requestReplays k = some e ∧ e < now
  quotas : ∀ k, k ∈ found.quotas ↔
    ∃ q, t.quotas k = some q ∧ q.updatedAt < seconds (now - daySecs)
  parents : ∀ id, id ∈ found.parents ↔
    ∃ i, t.installations id = some i ∧ reapable now i.expiresAt i.revokedAt = true
  delegations : ∀ k, k ∈ found.delegations ↔ ∃ d, t.delegations k = some d ∧
    (reapable now d.expiresAt d.revokedAt = true ∨ k.1 ∈ found.parents)
  installations : ∀ id, id ∈ found.installations ↔
    ∃ i, t.installations id = some i ∧ reapable now i.expiresAt i.revokedAt = true

/-- The handlers pass such a call on: ids are drawn once, an App Attest key enrols once, and a clock
reading is after 1970. -/
def Checked (t : Tables) (past : List Call) (c : Call) : Prop :=
  (∀ now, c.operation.reading = some now → 0 ≤ now ∧ now ≤ maxUtcSecs) ∧
  match c.operation with
  | .putChallenge ch => ∀ c' ∈ past, ∀ ch', c'.operation = .putChallenge ch' → ch'.id ≠ ch.id
  | .createInstallation n =>
    (n.appAttestKeyId.length = 32 ∧ 33 ≤ n.appAttestPublicKey.length ∧
      n.appAttestPublicKey.length ≤ 256 ∧ 1 ≤ n.tokenCiphertext.length ∧
      n.tokenCiphertext.length ≤ 2048 ∧ n.endpointEpoch = 1) ∧
    ∀ c' ∈ past, ∀ n', c'.operation = .createInstallation n' →
      n'.appAttestKeyId ≠ n.appAttestKeyId
  | .upsertDelegation d =>
    (1 ≤ d.endpointEpoch ∧ 1 ≤ d.generation ∧ d.notBefore < d.expiresAt ∧ d.revoked = false) ∧
    ∀ c' ∈ past, ∀ d', c'.operation = .upsertDelegation d' → d'.id ≠ d.id
  | .rotateEndpoint _ expected _ ciphertext _ =>
    1 ≤ expected ∧ 1 ≤ ciphertext.length ∧ ciphertext.length ≤ 2048
  | .revokeInstallation _ expected _ => 1 ≤ expected
  | .authorizeDelivery g => (1 ≤ g.quotaWindowSeconds ∧ g.quotaWindowSeconds ≤ 86400) ∧
    1 ≤ g.quotaMaxDeliveries
  | .reapExpired now found => Exact now t found
  | _ => True

/-! ### When the stores agree -/

/-- Both `DateTime<Utc>` and `timestamptz` can hold the timestamp. -/
def Storable (ts : Int) : Prop := isUtcSecs ts = true ∧ storable ts = true

/-- The stores agree about the call: no wrong value for a live challenge, no move to another
installation's token, no reaping of installations or delegations, no timestamp that cannot be stored,
and no clock that goes back. -/
def Agreeable (t : Tables) (m : Memory) (past : List Call) (c : Call) : Prop :=
  (∀ now, c.operation.reading = some now → lastReading past ≤ now) ∧
  match c.operation with
  | .putChallenge ch => Storable ch.expiresAt
  | .consumeChallenge id value now =>
    ∀ ch, m.challenges id = some ch → ch.value = value ∨ ch.expiresAt < now
  | .createInstallation n => Storable n.expiresAt
  | .upsertDelegation d => ∀ i, m.installations d.installationId = some i → i.revoked = false →
    i.endpointEpoch = d.endpointEpoch → Storable d.notBefore ∧ Storable d.expiresAt
  | .rotateEndpoint id expected _ _ fingerprint => ∀ i, m.installations id = some i →
    i.revoked = false → i.endpointEpoch = expected →
      ∀ owner, m.tokenOwners (i.profile, fingerprint) = some owner → owner = id
  | .authorizeDelivery g => seconds g.now ≤ c.clock
  | .reapExpired now _ =>
    (∀ id i, t.installations id = some i → reapable now i.expiresAt i.revokedAt = false) ∧
    ∀ k d, t.delegations k = some d → reapable now d.expiresAt d.revokedAt = false
  | _ => True

/-! ### The simulation -/

def InstallationRow.known (id : Uuid) (i : InstallationRow) : Installation :=
  { i.installation id with revoked := i.revokedAt.isSome }

def DelegationRow.known (k : DelegationKey) (d : DelegationRow) : Delegation where
  id := d.id
  installationId := k.1
  relayPubkey := k.2
  endpointEpoch := d.endpointEpoch
  generation := d.generation
  notBefore := d.notBefore
  expiresAt := d.expiresAt
  revoked := d.revokedAt.isSome

/-- A challenge in both stores, or one that has expired. -/
def ChallengeSim (sha256 : BitVec 256 → BitVec 256) (now : Int) (row : Option ChallengeRow)
    (c : Option Challenge) : Prop :=
  (∃ ch, c = some ch ∧ row = some ⟨sha256 ch.value, ch.expiresAt⟩) ∨
    c = none ∧ ∀ r, row = some r → r.expiresAt < now

/-- A quota in both stores, or a window that ended a day ago. -/
def QuotaSim (now : Int) (row : Option QuotaRow) (q : Option (Int × Int)) : Prop :=
  (∃ r, row = some r ∧ q = some (r.windowStartedAt, r.admitted) ∧ 0 ≤ r.windowStartedAt ∧
    r.windowStartedAt ≤ now ∧ seconds r.windowStartedAt ≤ r.updatedAt) ∨
  (∀ r, row = some r → r.windowStartedAt ≤ now - daySecs) ∧
    ∀ p, q = some p → 0 ≤ p.1 ∧ p.1 ≤ now - daySecs

/-- The tables and the reference store agree. -/
structure Sim (sha256 : BitVec 256 → BitVec 256) (now : Int) (past : List Call) (t : Tables)
    (m : Memory) : Prop where
  challenges : ∀ id, ChallengeSim sha256 now (t.challenges id) (m.challenges id)
  put : ∀ id, t.challenges id ≠ none ∨ m.challenges id ≠ none →
    ∃ c ∈ past, ∃ ch, c.operation = .putChallenge ch ∧ ch.id = id
  installations : ∀ id, m.installations id = (t.installations id).map (InstallationRow.known id)
  enrolled : ∀ k, t.attestKeys k ≠ none →
    ∃ c ∈ past, ∃ n, c.operation = .createInstallation n ∧ n.appAttestKeyId = k
  tokens : m.tokenOwners = t.tokens
  delegations : ∀ k, m.delegations k = (t.delegations k).map (DelegationRow.known k)
  /-- The primary key finds a row, where the reference store finds it too. -/
  found : ∀ id k, t.delegationIds id = some k →
    m.delegationIds id = some k ∧ ∃ d, t.delegations k = some d ∧ d.id = id
  index : ∀ k d, t.delegations k = some d → t.delegationIds d.id = some k
  granted : ∀ id, m.delegationIds id ≠ none →
    ∃ c ∈ past, ∃ d, c.operation = .upsertDelegation d ∧ d.id = id
  authReplays : m.deliveryAuthReplays = t.authReplays
  requestReplays : m.deliveryRequestReplays = t.requestReplays
  quotas : ∀ k, QuotaSim now (t.quotas k) (m.endpointQuotas k)

variable {sha256 : BitVec 256 → BitVec 256} {now later : Int} {past : List Call} {t : Tables}
  {m : Memory} {c : Call}

theorem Sim.empty : Sim sha256 0 [] .empty .empty where
  challenges _ := .inr ⟨rfl, nofun⟩
  put _ h := h.elim (fun h => absurd rfl h) fun h => absurd rfl h
  installations _ := rfl
  enrolled _ h := absurd rfl h
  tokens := rfl
  delegations _ := rfl
  found _ _ h := nomatch h
  index _ _ h := nomatch h
  granted _ h := absurd rfl h
  authReplays := rfl
  requestReplays := rfl
  quotas _ := .inr ⟨fun _ h => absurd h (some_ne_none _).symm,
    nofun⟩

variable {ch : Option Challenge}

theorem ChallengeSim.mono {row : Option ChallengeRow} (h : ChallengeSim sha256 now row ch)
    (hle : now ≤ later) : ChallengeSim sha256 later row ch := by
  obtain h | ⟨hnone, hexpired⟩ := h
  · exact .inl h
  · exact .inr ⟨hnone, fun r hr => Int.lt_of_lt_of_le (hexpired r hr) hle⟩

variable {row : Option QuotaRow} {q : Option (Int × Int)}

theorem QuotaSim.mono (h : QuotaSim now row q) (hle : now ≤ later) : QuotaSim later row q := by
  obtain ⟨r, hrow, hq, h0, hn, hu⟩ | ⟨hrow, hq⟩ := h
  · exact .inl ⟨r, hrow, hq, h0, Int.le_trans hn hle, hu⟩
  · refine .inr ⟨fun r hr => ?_, fun p hp => ⟨(hq p hp).1, ?_⟩⟩
    · have := hrow r hr
      omega
    · have := (hq p hp).2
      omega

theorem Sim.mono (h : Sim sha256 now past t m) (hle : now ≤ later) (c : Call) :
    Sim sha256 later (c :: past) t m where
  challenges id := (h.challenges id).mono hle
  put id hid := by
    obtain ⟨c', hc', hrest⟩ := h.put id hid
    exact ⟨c', mem_cons_of_mem c hc', hrest⟩
  installations := h.installations
  enrolled k hk := by
    obtain ⟨c', hc', hrest⟩ := h.enrolled k hk
    exact ⟨c', mem_cons_of_mem c hc', hrest⟩
  tokens := h.tokens
  delegations := h.delegations
  found := h.found
  index := h.index
  granted id hid := by
    obtain ⟨c', hc', hrest⟩ := h.granted id hid
    exact ⟨c', mem_cons_of_mem c hc', hrest⟩
  authReplays := h.authReplays
  requestReplays := h.requestReplays
  quotas k := (h.quotas k).mono hle

/-- Both stores answer alike, not `Unavailable`, and the states stand for the same again. -/
structure Agrees (sha256 : BitVec 256 → BitVec 256) (now : Int) (past : List Call)
    (p : Tables × Reply) (q : Memory × Reply) : Prop where
  reply : p.2 = q.2
  available : p.2 ≠ .error .unavailable
  sim : Sim sha256 now past p.1 q.1

theorem Sim.rejected (h : Sim sha256 now past t m) :
    Agrees sha256 now past (t, .error .rejected) m.rejects :=
  ⟨rfl, fun heq => AuthorityError.noConfusion (Reply.error.inj heq), h⟩

theorem agrees_ite {p : Prop} [Decidable p] {b : Bool} {x x' : Tables × Reply}
    {y y' : Memory × Reply} (hiff : p ↔ b = true)
    (htrue : p → Agrees sha256 now past x y) (hfalse : ¬p → Agrees sha256 now past x' y') :
    Agrees sha256 now past (if p then x else x') (if b = true then y else y') := by
  by_cases hp : p
  · rw [if_pos hp, if_pos (hiff.mp hp)]
    exact htrue hp
  · rw [if_neg hp, if_neg fun hb => hp (hiff.mpr hb)]
    exact hfalse hp

/-! ### Challenges -/

theorem storable_of_nonneg {ts : Int} (h0 : 0 ≤ ts) (hmax : ts ≤ maxUtcSecs) :
    isUtcSecs ts = true ∧ storable ts = true := by
  refine ⟨?_, decide_eq_true ?_⟩
  · rw [isUtcSecs, Bool.and_eq_true, decide_eq_true_eq, decide_eq_true_eq]
    exact ⟨Int.le_trans (by decide) h0, hmax⟩
  · exact Int.le_trans (by decide) h0

theorem Sim.agrees_putChallenge (h : Sim sha256 now past t m) {ch : Challenge}
    (hmem : c ∈ past) (hop : c.operation = .putChallenge ch)
    (hnew : t.challenges ch.id = none ∧ m.challenges ch.id = none) (hts : Storable ch.expiresAt) :
    Agrees sha256 now past (outcome (putChallenge sha256 ch) t) (m.putChallenge ch) := by
  have hleft : outcome (putChallenge sha256 ch) t =
      (t.setChallenge ch.id (some ⟨sha256 ch.value, ch.expiresAt⟩), .ok) := by
    simp [PushGateway.putChallenge, hts.1, hts.2, hnew.1]
  have hright : m.putChallenge ch =
      ({ m with challenges := update m.challenges ch.id (some ch) }, .ok) := by
    simp [Memory.putChallenge, hnew.2]
  rw [hleft, hright]
  refine ⟨rfl, Reply.noConfusion, { h with challenges := fun id => ?_, put := fun id hid => ?_ }⟩
  · show ChallengeSim sha256 now (update t.challenges ch.id _ id)
      (update m.challenges ch.id _ id)
    by_cases heq : id = ch.id
    · rw [heq, update_self, update_self]
      exact .inl ⟨ch, rfl, rfl⟩
    · rw [update_of_ne heq, update_of_ne heq]
      exact h.challenges id
  · by_cases heq : id = ch.id
    · exact ⟨c, hmem, ch, hop, heq.symm⟩
    · refine h.put id ?_
      replace hid : update t.challenges ch.id _ id ≠ none ∨
        update m.challenges ch.id (some ch) id ≠ none := hid
      rwa [update_of_ne heq, update_of_ne heq] at hid

theorem Sim.dropChallenge (h : Sim sha256 now past t m) (id : Uuid) :
    Sim sha256 now past (t.setChallenge id none)
      { m with challenges := update m.challenges id none } :=
  { h with
    challenges := fun id' => by
      show ChallengeSim sha256 now (update t.challenges id none id')
        (update m.challenges id none id')
      by_cases heq : id' = id
      · rw [heq, update_self, update_self]
        exact .inr ⟨rfl, nofun⟩
      · rw [update_of_ne heq, update_of_ne heq]
        exact h.challenges id'
    put := fun id' hid => by
      refine h.put id' ?_
      obtain hid | hid := hid
      · obtain hkept | hnone := update_none t.challenges id id'
        · exact .inl (hkept ▸ hid)
        · exact absurd hnone hid
      · obtain hkept | hnone := update_none m.challenges id id'
        · exact .inr (hkept ▸ hid)
        · exact absurd hnone hid }

theorem Sim.loseChallenge (h : Sim sha256 now past t m) {id : Uuid}
    (hexpired : ∀ r, t.challenges id = some r → r.expiresAt < now) :
    Sim sha256 now past t { m with challenges := update m.challenges id none } :=
  { h with
    challenges := fun id' => by
      show ChallengeSim sha256 now (t.challenges id') (update m.challenges id none id')
      by_cases heq : id' = id
      · rw [heq, update_self]
        exact .inr ⟨rfl, hexpired⟩
      · rw [update_of_ne heq]
        exact h.challenges id'
    put := fun id' hid => by
      refine h.put id' (hid.imp_right fun hid => ?_)
      obtain hkept | hnone := update_none m.challenges id id'
      · exact hkept ▸ hid
      · exact absurd hnone hid }

theorem Sim.agrees_consumeChallenge (h : Sim sha256 now past t m) {id : Uuid} {value : BitVec 256}
    (h0 : 0 ≤ now) (hmax : now ≤ maxUtcSecs)
    (hvalue : ∀ ch, m.challenges id = some ch → ch.value = value ∨ ch.expiresAt < now) :
    Agrees sha256 now past (outcome (consumeChallenge sha256 id value now) t)
      (m.consumeChallenge id value now) := by
  obtain ⟨hutc, hstorable⟩ := storable_of_nonneg h0 hmax
  have hleft : outcome (consumeChallenge sha256 id value now) t =
      if (t.challenges id).any fun c => c.challengeHash == sha256 value && decide (c.expiresAt ≥ now)
      then (t.setChallenge id none, .ok) else (t, .error .rejected) := by
    simp only [PushGateway.consumeChallenge, hutc, hstorable, Bool.not_true, outcome_locking,
      outcome_read, Bool.false_eq_true, if_false]
    split <;> rfl
  rw [hleft, Memory.consumeChallenge]
  obtain ⟨ch, hch, hrow⟩ | ⟨hnone, hexpired⟩ := h.challenges id
  · rw [hch, hrow, any_some]
    by_cases hlive : now ≤ ch.expiresAt
    · obtain rfl : ch.value = value := (hvalue ch hch).resolve_right (Int.not_lt.mpr hlive)
      simp only [beq_self_eq_true, bne_self_eq_false, ge_iff_le, hlive, Int.not_lt.mpr hlive,
        decide_true, decide_false, Bool.and_self, Bool.or_self, if_true, Bool.false_eq_true, if_false]
      exact ⟨rfl, Reply.noConfusion, h.dropChallenge id⟩
    · have hlt := Int.not_le.mp hlive
      simp only [ge_iff_le, hlive, hlt, decide_true, decide_false, Bool.and_false, Bool.or_true,
        if_true, Bool.false_eq_true, if_false]
      refine ⟨rfl, fun heq => AuthorityError.noConfusion (Reply.error.inj heq), ?_⟩
      refine h.loseChallenge fun r hr => ?_
      rwa [← some.inj (hrow.symm.trans hr)]
  · rw [hnone]
    have hdead : ((t.challenges id).any fun c => c.challengeHash == sha256 value &&
        decide (c.expiresAt ≥ now)) = false := by
      refine Bool.eq_false_iff.mpr fun hany => ?_
      obtain ⟨r, hr, hlive⟩ := (any_eq_true _ _).mp hany
      exact Int.not_lt.mpr (of_decide_eq_true (Bool.and_eq_true_iff.mp hlive).2) (hexpired r hr)
    simpa [hdead] using h.rejected

/-! ### Installations -/

theorem update_map {α β γ : Type*} [DecidableEq α] {f : α → Option β} {g : α → Option γ}
    {known : α → β → γ} (h : ∀ a, g a = (f a).map (known a)) {a₀ : α} {row : Option β}
    {row' : Option γ} (hrow : row' = row.map (known a₀)) (a : α) :
    update g a₀ row' a = (update f a₀ row a).map (known a) := by
  by_cases heq : a = a₀
  · subst heq
    simp [hrow]
  · simp [heq, h a]

variable {n : NewInstallation}

theorem Sim.agrees_createInstallation (h : Sim sha256 now past t m) (hmem : c ∈ past)
    (hop : c.operation = .createInstallation n) (hcheck : n.check = true)
    (hkey : t.attestKeys n.appAttestKeyId = none) (hts : isUtcSecs n.expiresAt = true) :
    Agrees sha256 now past (outcome (createInstallation n) t) (m.createInstallation n) := by
  have hleft : outcome (createInstallation n) t =
      if (t.installations n.id).isSome || (t.attestKeys n.appAttestKeyId).isSome ||
        (t.tokens (n.profile, n.tokenFingerprint)).isSome then (t, .error .rejected)
      else (t.insertInstallation n, .ok) := by
    simp only [createInstallation, hts, hcheck, Bool.not_true, outcome_locking, outcome_read,
      Bool.false_eq_true, if_false]
    split <;> rfl
  rw [hleft, Memory.createInstallation, h.tokens, h.installations, isSome_map, hkey,
    isSome_none, Bool.or_false]
  refine agrees_ite Iff.rfl (fun _ => h.rejected) fun _ => ?_
  refine ⟨rfl, Reply.noConfusion, { h with
    installations := update_map h.installations rfl
    tokens := rfl
    enrolled := fun k hk => ?_ }⟩
  by_cases heq : k = n.appAttestKeyId
  · exact ⟨c, hmem, n, hop, heq.symm⟩
  · refine h.enrolled k ?_
    rwa [show (t.insertInstallation n).attestKeys k = t.attestKeys k from
      update_of_ne heq _ _] at hk

theorem Sim.agrees_installation (h : Sim sha256 now past t m) {id : Uuid} (h0 : 0 ≤ now)
    (hmax : now ≤ maxUtcSecs) :
    Agrees sha256 now past (outcome (installation id now) t) (m.installation id now) := by
  obtain ⟨hutc, hstorable⟩ := storable_of_nonneg h0 hmax
  rw [installation, hutc, hstorable, Bool.not_true, if_neg Bool.false_ne_true,
    if_neg Bool.false_ne_true, outcome_read, Memory.installation, h.installations]
  cases hi : t.installations id with
  | none => exact h.rejected
  | some i =>
    rw [map_some]
    cases hrevoked : i.revokedAt with
    | some r =>
      have hdead : (some (i.known id)).filter (fun i => !i.revoked && decide (i.expiresAt ≥ now)) =
          none := filter_eq_none_iff.mpr fun j hj => by
        cases hj
        rw [show (i.known id).revoked = i.revokedAt.isSome from rfl, hrevoked]
        exact Bool.false_ne_true
      rw [hdead]
      dsimp only
      rw [hrevoked, isNone_some, Bool.false_and, if_neg Bool.false_ne_true]
      exact h.rejected
    | none =>
      dsimp only
      rw [hrevoked, isNone_none, Bool.true_and]
      by_cases hlive : i.expiresAt ≥ now
      · have hsome : (some (i.known id)).filter (fun i => !i.revoked &&
            decide (i.expiresAt ≥ now)) = some (i.known id) :=
          filter_eq_some_iff.mpr ⟨rfl, by
            rw [show (i.known id).revoked = i.revokedAt.isSome from rfl, hrevoked]
            exact decide_eq_true hlive⟩
        have hknown : i.installation id = i.known id := by
          rw [InstallationRow.known, hrevoked]
          rfl
        rw [hsome, decide_eq_true hlive, if_pos rfl, outcome_rollback, hknown]
        exact ⟨rfl, Reply.noConfusion, h⟩
      · have hdead : (some (i.known id)).filter (fun i => !i.revoked &&
            decide (i.expiresAt ≥ now)) = none := filter_eq_none_iff.mpr fun j hj => by
          cases hj
          rw [Bool.and_eq_true, not_and]
          exact fun _ hdec => hlive (of_decide_eq_true hdec)
        rw [hdead, decide_eq_false hlive, if_neg Bool.false_ne_true]
        exact h.rejected

theorem Sim.agrees_updateInstallation (h : Sim sha256 now past t m) {id : Uuid}
    {condition : InstallationRow → Bool} {next : InstallationRow → AuthorityTxn}
    {refuses : Installation → Bool} {next' : Installation → Memory × Reply}
    (hcondition : ∀ i : InstallationRow, refuses (i.known id) = !condition i)
    (hnext : ∀ i, t.installations id = some i → condition i = true →
      Agrees sha256 now past (outcome (next i) t) (next' (i.known id))) :
    Agrees sha256 now past (outcome (updateInstallation id condition next) t)
      (match m.installations id with
        | none => m.rejects
        | some i => if refuses i then m.rejects else next' i) := by
  rw [updateInstallation, outcome_locking, outcome_read, h.installations]
  cases hi : t.installations id with
  | none => exact h.rejected
  | some i =>
    rw [map_some]
    dsimp only
    rw [hcondition i]
    by_cases hc : condition i = true
    · rw [if_pos hc, hc, Bool.not_true, if_neg Bool.false_ne_true]
      exact hnext i hi hc
    · rw [if_neg hc, Bool.eq_false_iff.mpr hc, Bool.not_false, if_pos rfl]
      exact h.rejected

variable {i : InstallationRow}

theorem Sim.modifyInstallation (h : Sim sha256 now past t m) {id : Uuid}
    {f : InstallationRow → InstallationRow} {j : Installation} (hi : t.installations id = some i)
    (hj : j = (f i).known id) (x : Uuid) :
    update m.installations id (some j) x =
      ((t.modifyInstallation id f).installations x).map (InstallationRow.known x) := by
  rw [Tables.modifyInstallation, hi]
  exact update_map h.installations (by rw [hj]; rfl) x

theorem known_refuses {α : Type} [BEq α] (id : Uuid) (i : InstallationRow) (a b : α) :
    ((i.known id).revoked || a != b) = !(a == b && i.revokedAt.isNone) := by
  rw [show (i.known id).revoked = i.revokedAt.isSome from rfl, Bool.not_and,
    ← not_isSome, Bool.not_not, Bool.or_comm]
  rfl

theorem Sim.agrees_advanceAssertionCounter (h : Sim sha256 now past t m) {id : Uuid}
    {previous next : UInt32} :
    Agrees sha256 now past (outcome (advanceAssertionCounter id previous next) t)
      (m.advanceAssertionCounter id previous next) := by
  rw [advanceAssertionCounter, Memory.advanceAssertionCounter]
  by_cases hle : next ≤ previous
  · rw [if_pos hle, if_pos hle]
    exact h.rejected
  · rw [if_neg hle, if_neg hle]
    refine h.agrees_updateInstallation
      (fun i => known_refuses id i i.assertionCounter previous) fun i hi _ => ?_
    exact ⟨rfl, Reply.noConfusion, { h with
      installations := h.modifyInstallation hi rfl }⟩

variable {clock : Int}

theorem Sim.agrees_revokeInstallation (h : Sim sha256 now past t m) {id : Uuid}
    {expected new : Int} (hexpected : 1 ≤ expected) :
    Agrees sha256 now past (outcome (revokeInstallation clock id expected new) t)
      (m.revokeInstallation id expected new) := by
  rw [revokeInstallation, Memory.revokeInstallation]
  by_cases hfollows : followsEpoch expected new = true
  · rw [hfollows, Bool.not_true, if_neg Bool.false_ne_true, if_neg Bool.false_ne_true]
    refine h.agrees_updateInstallation
      (fun i => known_refuses id i i.endpointEpoch expected) fun i hi _ => ?_
    have hnew : 0 < new := by
      rw [followsEpoch, Bool.and_eq_true, beq_iff_eq] at hfollows
      omega
    rw [decide_eq_true hnew, Bool.not_true, if_neg Bool.false_ne_true]
    exact ⟨rfl, Reply.noConfusion, { h with
      installations := h.modifyInstallation hi rfl }⟩
  · rw [Bool.eq_false_iff.mpr hfollows, Bool.not_false, if_pos rfl, if_pos rfl]
    exact h.rejected

theorem Sim.agrees_rotateEndpoint (h : Sim sha256 now past t m) {id : Uuid} {expected new : Int}
    {ciphertext : List UInt8} {fingerprint : Fingerprint}
    (hchecked : 1 ≤ expected ∧ 1 ≤ ciphertext.length ∧ ciphertext.length ≤ 2048)
    (howner : ∀ i, m.installations id = some i → i.revoked = false → i.endpointEpoch = expected →
      ∀ owner, m.tokenOwners (i.profile, fingerprint) = some owner → owner = id) :
    Agrees sha256 now past (outcome (rotateEndpoint id expected new ciphertext fingerprint) t)
      (m.rotateEndpoint id expected new ciphertext fingerprint) := by
  rw [rotateEndpoint, Memory.rotateEndpoint]
  by_cases hfollows : followsEpoch expected new = true
  · rw [hfollows, Bool.not_true, if_neg Bool.false_ne_true, if_neg Bool.false_ne_true]
    refine h.agrees_updateInstallation
      (fun i => known_refuses id i i.endpointEpoch expected) fun i hi hcond => ?_
    rw [Bool.and_eq_true, beq_iff_eq, isNone_iff_eq_none] at hcond
    have hnew : 1 ≤ ciphertext.length ∧ ciphertext.length ≤ 2048 ∧ 0 < new := by
      rw [followsEpoch, Bool.and_eq_true, beq_iff_eq] at hfollows
      omega
    have hfree : ((t.tokens (i.appProfile, fingerprint)).any fun o => o != id) = false := by
      refine Bool.eq_false_iff.mpr fun hany => ?_
      obtain ⟨o, ho, hne⟩ := (any_eq_true _ _).mp hany
      refine bne_iff_ne.mp hne (howner (i.known id) ?_ ?_ hcond.1 o ?_)
      · simp [h.installations, hi]
      · simp [show (i.known id).revoked = i.revokedAt.isSome from rfl, hcond.2]
      · rwa [h.tokens]
    rw [decide_eq_true hnew, Bool.not_true, if_neg Bool.false_ne_true, outcome_locking,
      outcome_locking, outcome_read, hfree, if_neg Bool.false_ne_true, outcome_writing_commit,
      h.tokens, show (i.known id).profile = i.appProfile from rfl, hfree,
      if_neg Bool.false_ne_true]
    exact ⟨rfl, Reply.noConfusion, { h with
      installations := h.modifyInstallation hi rfl
      tokens := rfl }⟩
  · rw [Bool.eq_false_iff.mpr hfollows, Bool.not_false, if_pos rfl, if_pos rfl]
    exact h.rejected

/-! ### Delegations -/

theorem Sim.putDelegation (h : Sim sha256 now past t m) {d : Delegation} (hmem : c ∈ past)
    (hop : c.operation = .upsertDelegation d) (hrevoked : d.revoked = false)
    (hnew : m.delegationIds d.id = none) :
    Sim sha256 now past (t.putDelegation d ((t.delegations d.key).map DelegationRow.id))
      { m with
        delegationIds := update m.delegationIds d.id (some d.key)
        delegations := update m.delegations d.key (some d) } := by
  have hfree : ∀ k, t.delegationIds d.id ≠ some k := fun k hk =>
    nomatch (hnew.symm.trans (h.found d.id k hk).1)
  -- Before the new id is put, only that of the old row is gone.
  have hold : ∀ id k, (((t.delegations d.key).map DelegationRow.id).elim t.delegationIds
      fun o => update t.delegationIds o none) id = some k ↔
        t.delegationIds id = some k ∧ k ≠ d.key := by
    intro id k
    cases ho : t.delegations d.key with
    | none =>
      refine ⟨fun hk => ⟨hk, ?_⟩, fun hk => hk.1⟩
      rintro rfl
      obtain ⟨-, e, he, -⟩ := h.found id _ hk
      nomatch (ho.symm.trans he)
    | some o =>
      show update t.delegationIds o.id none id = some k ↔ _
      have hindex := h.index _ _ ho
      constructor
      · intro hk
        by_cases hid : id = o.id
        · rw [hid, update_self] at hk
          nomatch hk
        · rw [update_of_ne hid] at hk
          refine ⟨hk, ?_⟩
          rintro rfl
          obtain ⟨-, e, he, rfl⟩ := h.found id _ hk
          rw [some.inj (ho.symm.trans he)] at hid
          exact hid rfl
      · rintro ⟨hk, hne⟩
        rw [update_of_ne, hk]
        rintro rfl
        exact hne (some.inj (hk.symm.trans hindex))
  have hknown : some d = (some d.row).map (DelegationRow.known d.key) := by
    obtain ⟨id, installationId, relayPubkey, endpointEpoch, generation, notBefore, expiresAt,
      revoked⟩ := d
    obtain rfl : revoked = false := hrevoked
    rfl
  have hids : (t.putDelegation d ((t.delegations d.key).map DelegationRow.id)).delegationIds =
      update (((t.delegations d.key).map DelegationRow.id).elim t.delegationIds
        fun o => update t.delegationIds o none) d.id (some d.key) := rfl
  refine { h with
    delegations := update_map h.delegations hknown
    found := fun id k hk => ?_
    index := fun k e he => ?_
    granted := fun id hid => ?_ }
  · rw [hids] at hk
    show update m.delegationIds d.id (some d.key) id = some k ∧
      ∃ e, update t.delegations d.key (some d.row) k = some e ∧ e.id = id
    by_cases hid : id = d.id
    · rw [hid, update_self] at hk
      cases hk
      rw [hid, update_self, update_self]
      exact ⟨rfl, _, rfl, rfl⟩
    · rw [update_of_ne hid] at hk
      obtain ⟨hk, hne⟩ := (hold id k).mp hk
      rw [update_of_ne hid, update_of_ne hne]
      exact h.found id k hk
  · replace he : update t.delegations d.key (some d.row) k = some e := he
    rw [hids]
    by_cases hk : k = d.key
    · rw [hk, update_self] at he
      simp [← some.inj he, show d.row.id = d.id from rfl, hk]
    · rw [update_of_ne hk] at he
      have hindex := h.index k e he
      rw [update_of_ne]
      · exact (hold e.id k).mpr ⟨hindex, hk⟩
      · intro hid
        exact hfree k (hid ▸ hindex)
  · replace hid : update m.delegationIds d.id (some d.key) id ≠ none := hid
    by_cases heq : id = d.id
    · exact ⟨c, hmem, d, hop, heq.symm⟩
    · rw [update_of_ne heq] at hid
      exact h.granted id hid

theorem Sim.agrees_upsertDelegation (h : Sim sha256 now past t m) {d : Delegation}
    (hmem : c ∈ past) (hop : c.operation = .upsertDelegation d)
    (hchecked : 1 ≤ d.endpointEpoch ∧ 1 ≤ d.generation ∧ d.notBefore < d.expiresAt ∧
      d.revoked = false) (hnew : m.delegationIds d.id = none)
    (hts : ∀ i, m.installations d.installationId = some i → i.revoked = false →
      i.endpointEpoch = d.endpointEpoch → Storable d.notBefore ∧ Storable d.expiresAt) :
    Agrees sha256 now past (outcome (upsertDelegation d) t) (m.upsertDelegation d) := by
  obtain ⟨hepoch, hgeneration, hbefore, hrevoked⟩ := hchecked
  rw [upsertDelegation, outcome_locking, outcome_read, Memory.upsertDelegation]
  have hi' := h.installations d.installationId
  cases hi : t.installations d.installationId with
  | none =>
    rw [hi', hi, map_none]
    exact h.rejected
  | some i =>
    rw [hi, map_some] at hi'
    rw [hi']
    dsimp only
    have hsame : (i.known d.installationId).endpointEpoch = i.endpointEpoch := rfl
    have hexp : (i.known d.installationId).expiresAt = i.expiresAt := rfl
    have hrev : (i.known d.installationId).revoked = i.revokedAt.isSome := rfl
    rw [hsame, hexp, hrev, decide_eq_false (Int.not_lt.mpr hgeneration),
      decide_eq_false (show ¬d.notBefore ≥ d.expiresAt from Int.not_le.mpr hbefore), Bool.or_false,
      Bool.or_false]
    by_cases hdead : (i.revokedAt.isSome || i.endpointEpoch != d.endpointEpoch) = true
    · rw [hdead, Bool.true_or, Bool.true_or, Bool.true_or, if_pos rfl, if_pos rfl]
      exact h.rejected
    · rw [Bool.eq_false_iff.mpr hdead]
      rw [Bool.or_eq_true, not_or, Bool.not_eq_true, bne_iff_ne, Classical.not_not] at hdead
      obtain ⟨hnb, hea⟩ := hts _ hi' (hrev.trans hdead.1) (hsame.trans hdead.2)
      rw [hnb.1, hea.1, Bool.not_true, Bool.or_false, Bool.or_false, Bool.false_or]
      by_cases hlong : d.expiresAt > i.expiresAt
      · rw [decide_eq_true hlong, if_pos rfl, if_pos rfl]
        exact h.rejected
      · have hcheck : d.check = true := by
          simp only [Delegation.check, Bool.and_eq_true, decide_eq_true_eq]
          exact ⟨⟨⟨⟨by omega, by omega⟩, hbefore⟩, hnb.2⟩, hea.2⟩
        have htaken : t.delegationIds d.id = none := eq_none_iff_forall_ne_some.mpr
          fun k hk => nomatch (hnew.symm.trans (h.found d.id k hk).1)
        have hwrite : ∀ old, outcome (writeDelegation d old) t = (t.putDelegation d old, .ok) := by
          intro old
          rw [writeDelegation, outcome_locking, outcome_read, htaken]
          rfl
        rw [decide_eq_false hlong, if_neg Bool.false_ne_true, if_neg Bool.false_ne_true, hcheck,
          Bool.not_true, if_neg Bool.false_ne_true, outcome_locking, outcome_read, hnew,
          isSome_none, Bool.or_false, h.delegations]
        have hput := h.putDelegation hmem hop hrevoked hnew
        cases hold : t.delegations d.key with
        | none =>
          rw [map_none, any_none, if_neg Bool.false_ne_true, hwrite]
          rw [hold] at hput
          exact ⟨rfl, Reply.noConfusion, hput⟩
        | some old =>
          rw [map_some, any_some]
          dsimp only
          by_cases hlt : d.generation > old.generation
          · rw [if_pos hlt, outcome_locking, hwrite,
              decide_eq_false (show ¬d.generation ≤ (old.known d.key).generation from
                Int.not_le.mpr hlt), if_neg Bool.false_ne_true]
            rw [hold] at hput
            exact ⟨rfl, Reply.noConfusion, hput⟩
          · rw [if_neg hlt, decide_eq_true (show d.generation ≤ (old.known d.key).generation from
              Int.not_lt.mp hlt), if_pos rfl]
            exact h.rejected

theorem Sim.agrees_revokeDelegation (h : Sim sha256 now past t m) {id : Uuid} {relay : PublicKey}
    {generation : Int} :
    Agrees sha256 now past (outcome (revokeDelegation clock id relay generation) t)
      (m.revokeDelegation id relay generation) := by
  rw [revokeDelegation, outcome_locking, outcome_read, Memory.revokeDelegation, h.delegations]
  cases hd : t.delegations (id, relay) with
  | none => exact h.rejected
  | some d =>
    rw [map_some]
    dsimp only
    by_cases hlt : d.generation < generation
    · have hrow : (t.modifyDelegation (id, relay) (DelegationRow.revoke clock generation)).delegations
          = update t.delegations (id, relay) (some (d.revoke clock generation)) := by
        simp [Tables.modifyDelegation, hd]
      rw [if_pos hlt, if_neg (show ¬generation ≤ (d.known (id, relay)).generation from
        Int.not_le.mpr hlt), outcome_writing_commit]
      refine ⟨rfl, Reply.noConfusion, { h with
        delegations := fun k => ?_
        found := fun id' k hk => ?_
        index := fun k e he => ?_ }⟩
      · rw [hrow]
        exact update_map h.delegations
          (show some ((d.revoke clock generation).known (id, relay)) =
            (some (d.revoke clock generation)).map (DelegationRow.known (id, relay)) from rfl) k
      · obtain ⟨hm, e, he, hid⟩ := h.found id' k hk
        refine ⟨hm, ?_⟩
        rw [hrow]
        by_cases hkey : k = (id, relay)
        · rw [hkey, update_self]
          rw [hkey, hd] at he
          exact ⟨_, rfl, by rw [← hid, ← some.inj he]; rfl⟩
        · rw [update_of_ne hkey]
          exact ⟨e, he, hid⟩
      · rw [hrow] at he
        by_cases hkey : k = (id, relay)
        · rw [hkey, update_self] at he
          rw [← some.inj he, hkey]
          exact h.index _ d hd
        · rw [update_of_ne hkey] at he
          exact h.index k e he
    · rw [if_neg hlt, if_pos (show generation ≤ (d.known (id, relay)).generation from
        Int.not_lt.mp hlt)]
      exact h.rejected

/-! ### Deliveries -/

theorem Sim.agrees_finishDelivery (h : Sim sha256 now past t m) (p : DeliveryPermit)
    (disposition : DeliveryDisposition) :
    Agrees sha256 now past (outcome (finishDelivery p disposition) t)
      (m.finishDelivery p disposition) := by
  cases disposition with
  | terminal => exact ⟨rfl, Reply.noConfusion, h⟩
  | retryable =>
    refine ⟨rfl, Reply.noConfusion, { h with requestReplays := ?_ }⟩
    show update m.deliveryRequestReplays _ none = update t.requestReplays _ none
    rw [h.requestReplays]

theorem authorizes_known (g : DeliveryCall) (k : DelegationKey) (i : InstallationRow)
    (d : DelegationRow) :
    Memory.authorizes g (d.known k) (i.known k.1) =
      (i.authorizes g && (k.2 == g.relayPubkey && d.authorizes g) &&
        !(decide (g.requestExpiresAt < g.now) || decide (g.requestExpiresAt > d.expiresAt))) := by
  have hsides : (d.known k).revoked = d.revokedAt.isSome ∧ (d.known k).id = d.id ∧
      (d.known k).relayPubkey = k.2 ∧ (d.known k).endpointEpoch = d.endpointEpoch ∧
      (d.known k).generation = d.generation ∧ (d.known k).notBefore = d.notBefore ∧
      (d.known k).expiresAt = d.expiresAt ∧ (i.known k.1).revoked = i.revokedAt.isSome ∧
      (i.known k.1).endpointEpoch = i.endpointEpoch ∧ (i.known k.1).expiresAt = i.expiresAt :=
    ⟨rfl, rfl, rfl, rfl, rfl, rfl, rfl, rfl, rfl, rfl⟩
  obtain ⟨h₁, h₂, h₃, h₄, h₅, h₆, h₇, h₈, h₉, h₁₀⟩ := hsides
  rw [Memory.authorizes, h₁, h₂, h₃, h₄, h₅, h₆, h₇, h₈, h₉, h₁₀, InstallationRow.authorizes,
    DelegationRow.authorizes, Bool.eq_iff_iff]
  simp only [Bool.not_eq_true', Bool.or_eq_false_iff, Bool.and_eq_true, decide_eq_false_iff_not,
    decide_eq_true_eq, beq_iff_eq, bne_eq_false_iff_eq, isSome_eq_false_iff, Int.not_lt,
    gt_iff_lt, ge_iff_le]
  tauto

theorem saturatingSub_eq {a b : Int} (h0 : 0 ≤ b) (hle : b ≤ a) (hmax : a ≤ maxUtcSecs) :
    saturatingSub a b = a - b := by
  simp only [saturatingSub, i64Min, i64Max, maxUtcSecs] at *
  omega

variable {g : DeliveryCall}

theorem QuotaSim.admitted (h : QuotaSim g.now row q) (h0 : 0 ≤ g.now) (hmax : g.now ≤ maxUtcSecs)
    (hwindow : 1 ≤ g.quotaWindowSeconds ∧ g.quotaWindowSeconds ≤ 86400)
    (hquota : 1 ≤ g.quotaMaxDeliveries) (hclock : seconds g.now ≤ clock) :
    (∃ r, PushGateway.admitted clock g row = some r ∧
        ¬(Memory.quota g q).2 ≥ g.quotaMaxDeliveries ∧
        QuotaSim g.now (some r) (some ((Memory.quota g q).1, (Memory.quota g q).2 + 1))) ∨
      PushGateway.admitted clock g row = none ∧ (Memory.quota g q).2 ≥ g.quotaMaxDeliveries ∧
        q = some (Memory.quota g q) := by
  -- A new window is the same in both stores.
  have hnew : PushGateway.admitted clock g row = some ⟨g.now, 1, clock⟩ →
      Memory.quota g q = (g.now, 0) → ∃ r, PushGateway.admitted clock g row = some r ∧
        ¬(Memory.quota g q).2 ≥ g.quotaMaxDeliveries ∧
        QuotaSim g.now (some r) (some ((Memory.quota g q).1, (Memory.quota g q).2 + 1)) := by
    intro hrow hq
    rw [hq]
    exact ⟨_, hrow, Int.not_le.mpr hquota, .inl ⟨_, rfl, rfl, h0, Int.le_refl _, hclock⟩⟩
  obtain ⟨r, rfl, rfl, hr0, hrn, hru⟩ | ⟨hrow, hq⟩ := h
  · have hsub := saturatingSub_eq hr0 hrn hmax
    by_cases hover : r.windowStartedAt ≤ g.now - g.quotaWindowSeconds
    · refine .inl (hnew (if_pos hover) (if_pos ?_))
      show saturatingSub g.now r.windowStartedAt ≥ g.quotaWindowSeconds
      omega
    · have hsame : Memory.quota g (some (r.windowStartedAt, r.admitted)) =
          (r.windowStartedAt, r.admitted) := if_neg (by
        show ¬saturatingSub g.now r.windowStartedAt ≥ g.quotaWindowSeconds
        omega)
      rw [hsame, PushGateway.admitted, if_neg hover]
      by_cases hfull : r.admitted < g.quotaMaxDeliveries
      · rw [if_pos hfull]
        exact .inl ⟨_, rfl, Int.not_le.mpr hfull, .inl ⟨_, rfl, rfl, hr0, hrn,
          Int.le_trans (by simp only [seconds] at *; omega) hclock⟩⟩
      · rw [if_neg hfull]
        exact .inr ⟨rfl, Int.not_lt.mp hfull, rfl⟩
  · refine .inl (hnew ?_ ?_)
    · cases row with
      | none => rfl
      | some r =>
        refine if_pos ?_
        have := hrow r rfl
        rw [daySecs] at this
        omega
    · cases q with
      | none =>
        rw [Memory.quota, getD_none]
        exact ite_self _
      | some p =>
        obtain ⟨hp0, hp⟩ := hq p rfl
        rw [daySecs] at hp
        refine if_pos ?_
        show saturatingSub g.now p.1 ≥ g.quotaWindowSeconds
        rw [saturatingSub_eq hp0 (by omega) hmax]
        omega

variable {d : DelegationRow}

theorem outcome_reserve {id : Uuid}
    (hrequest :
      (decide (g.requestExpiresAt < g.now) || decide (g.requestExpiresAt > d.expiresAt)) = false)
    (hquota : 1 ≤ g.quotaWindowSeconds ∧ 1 ≤ g.quotaMaxDeliveries) :
    outcome (reserve clock g id i d) t =
      ((admitted clock g (t.quotas i.tokenFingerprint)).elim (t, .error .rejected) fun quota =>
        if (t.authReplays (g.relayPubkey, g.eventId)).isSome ||
          (t.requestReplays (g.relayPubkey, g.requestId)).isSome then (t, .error .rejected)
        else (t.reserved g i.tokenFingerprint quota, .permit (permit g id i d))) := by
  have hquota' : ¬(g.quotaWindowSeconds < 1 || decide (g.quotaMaxDeliveries < 1)) = true := by
    rw [Bool.or_eq_true, decide_eq_true_eq, decide_eq_true_eq]
    omega
  rw [reserve, hrequest, if_neg Bool.false_ne_true, if_neg hquota', outcome_locking, outcome_read]
  cases admitted clock g (t.quotas i.tokenFingerprint) with
  | none => rfl
  | some quota =>
    rw [elim_some]
    cases hauth : t.authReplays (g.relayPubkey, g.eventId) with
    | some e =>
      simp [outcome, Txn.effect, Txn.answer, writing, locking, Txn.exec_write, Txn.exec_lock,
        Txn.exec_read, Tables.setQuota, hauth, fails, Txn.exec_rollback]
    | none =>
      cases hreq : t.requestReplays (g.relayPubkey, g.requestId) with
      | some e =>
        simp [outcome, Txn.effect, Txn.answer, writing, locking, Txn.exec_write, Txn.exec_lock,
          Txn.exec_read, Tables.setQuota, Tables.setAuthReplay, hauth, hreq, fails,
          Txn.exec_rollback]
      | none =>
        simp [outcome, Txn.effect, Txn.answer, writing, locking, Txn.exec_write, Txn.exec_lock,
          Txn.exec_read, Txn.exec_commit, Tables.setQuota, Tables.setAuthReplay, Tables.reserved,
          hauth, hreq]

theorem Sim.agrees_reserve {k : DelegationKey} (h : Sim sha256 g.now past t m)
    (hrequest :
      (decide (g.requestExpiresAt < g.now) || decide (g.requestExpiresAt > d.expiresAt)) = false)
    (h0 : 0 ≤ g.now) (hmax : g.now ≤ maxUtcSecs)
    (hwindow : 1 ≤ g.quotaWindowSeconds ∧ g.quotaWindowSeconds ≤ 86400)
    (hquota : 1 ≤ g.quotaMaxDeliveries) (hclock : seconds g.now ≤ clock) :
    Agrees sha256 g.now past (outcome (reserve clock g k.1 i d) t)
      (m.reserve g (d.known k) (i.known k.1)) := by
  rw [outcome_reserve hrequest ⟨hwindow.1, hquota⟩, Memory.reserve, ← h.authReplays,
    ← h.requestReplays]
  have hfingerprint : (i.known k.1).tokenFingerprint = i.tokenFingerprint := rfl
  have hpermit : Memory.permit g (d.known k) (i.known k.1) = permit g k.1 i d := rfl
  rw [hfingerprint, hpermit]
  obtain ⟨r, hr, hfree, hsim⟩ | ⟨hnone, hfull, hq⟩ :=
    (h.quotas i.tokenFingerprint).admitted h0 hmax hwindow hquota hclock
  · rw [hr, elim_some]
    refine agrees_ite Iff.rfl (fun _ => h.rejected) fun _ => ?_
    rw [if_neg hfree]
    refine ⟨rfl, Reply.noConfusion, { h with
      authReplays := congrArg (fun f => update f _ _) h.authReplays
      requestReplays := congrArg (fun f => update f _ _) h.requestReplays
      quotas := fun fingerprint => ?_ }⟩
    show QuotaSim g.now (update t.quotas i.tokenFingerprint (some r) fingerprint)
      (update m.endpointQuotas i.tokenFingerprint _ fingerprint)
    by_cases heq : fingerprint = i.tokenFingerprint
    · simpa [heq] using hsim
    · rw [update_of_ne heq, update_of_ne heq]
      exact h.quotas fingerprint
  · rw [hnone, elim_none]
    rw [if_pos hfull, ← hq, update_eq_self]
    split
    · exact h.rejected
    · exact h.rejected

theorem Sim.agrees_authorizeDelivery (h : Sim sha256 g.now past t m) (h0 : 0 ≤ g.now)
    (hmax : g.now ≤ maxUtcSecs)
    (hwindow : 1 ≤ g.quotaWindowSeconds ∧ g.quotaWindowSeconds ≤ 86400)
    (hquota : 1 ≤ g.quotaMaxDeliveries) (hclock : seconds g.now ≤ clock) :
    Agrees sha256 g.now past (outcome (authorizeDelivery clock g) t) (m.authorizeDelivery g) := by
  obtain ⟨hutc, hstorable⟩ := storable_of_nonneg h0 hmax
  rw [authorizeDelivery, hutc, hstorable, Bool.not_true, if_neg Bool.false_ne_true,
    if_neg Bool.false_ne_true, outcome_read, Memory.authorizeDelivery]
  cases hfound : t.delegationIds g.delegationId with
  | none =>
    -- The reference store may still find the row that has replaced the delegation.
    have hright : Memory.authorizeDelivery g m = m.rejects := by
      rw [Memory.authorizeDelivery]
      cases hid : m.delegationIds g.delegationId with
      | none => rfl
      | some k =>
        rw [bind_some, h.delegations]
        cases hd : t.delegations k with
        | none => rfl
        | some d =>
          have hother : d.id ≠ g.delegationId := fun heq =>
            nomatch ((heq ▸ h.index k d hd).symm.trans hfound)
          rw [map_some]
          dsimp only
          have hdead : ∀ i, Memory.authorizes g (d.known k) i = false := fun i => by
            simp [Memory.authorizes,
              show ((d.known k).id != g.delegationId) = true from bne_iff_ne.mpr hother]
          cases m.installations (d.known k).installationId with
          | none => rfl
          | some i =>
            simp [hdead i]
    rw [Memory.authorizeDelivery] at hright
    rw [hright]
    exact h.rejected
  | some k =>
    obtain ⟨hmid, d, hd, hid⟩ := h.found _ k hfound
    rw [hmid, bind_some, h.delegations, hd, map_some, map_some]
    show Agrees sha256 g.now past (outcome (authorizeOn clock g k.1) t)
      (match m.installations k.1 with
        | none => m.rejects
        | some i => if Memory.authorizes g (d.known k) i then m.reserve g (d.known k) i
          else m.rejects)
    rw [authorizeOn, updateInstallation, outcome_locking, outcome_read, h.installations]
    cases hi : t.installations k.1 with
    | none => exact h.rejected
    | some i =>
      rw [map_some]
      dsimp only
      rw [authorizes_known]
      by_cases hinstallation : i.authorizes g = true
      · rw [if_pos hinstallation, hinstallation, Bool.true_and, outcome_read]
        by_cases hdelegation : (k.2 == g.relayPubkey && d.authorizes g) = true
        · have hcandidate : t.candidate g = some k := by
            rw [Tables.candidate, hfound]
            refine filter_eq_some_iff.mpr ⟨rfl, ?_⟩
            rwa [hd]
          rw [hcandidate, hdelegation, Bool.true_and]
          rw [outcome_locking, outcome_read, hd]
          dsimp only
          rw [if_pos (Bool.and_eq_true_iff.mp hdelegation).2]
          by_cases hrequest : (decide (g.requestExpiresAt < g.now) ||
              decide (g.requestExpiresAt > d.expiresAt)) = true
          · rw [hrequest, Bool.not_true, if_neg Bool.false_ne_true, reserve, hrequest, if_pos rfl]
            exact h.rejected
          · rw [Bool.eq_false_iff.mpr hrequest, Bool.not_false, if_pos rfl]
            exact h.agrees_reserve (Bool.eq_false_iff.mpr hrequest) h0 hmax hwindow hquota hclock
        · have hcandidate : t.candidate g = none := by
            rw [Tables.candidate, hfound]
            refine filter_eq_none_iff.mpr fun k' hk' => ?_
            cases hk'
            rwa [hd]
          rw [hcandidate, Bool.eq_false_iff.mpr hdelegation, Bool.false_and,
            if_neg Bool.false_ne_true]
          exact h.rejected
      · rw [if_neg hinstallation, Bool.eq_false_iff.mpr hinstallation, Bool.false_and,
          Bool.false_and, if_neg Bool.false_ne_true]
        exact h.rejected

/-! ### Reaping -/

/-- One of the tables: how it is read and replaced. -/
structure TableOf (α β : Type) where
  get : Tables → α → Option β
  set : (α → Option β) → Tables → Tables
  get_set : ∀ f t, get (set f t) = f
  set_set : ∀ f f' t, set f (set f' t) = set f t
  set_get : ∀ t, set (get t) t = t

theorem TableOf.exec_deletes {α β : Type} [DecidableEq α] (table : TableOf α β)
    (lock : α → LockKey) (expired : β → Bool) (items : List α) (next : AuthorityTxn) (t : Tables) :
    (items.foldr (fun a next => locking (lock a) <|
      .read (fun t => (table.get t a).any expired) fun c =>
      if c then writing (fun t => table.set (update (table.get t) a none) t) next
      else next) next).exec t =
      next.exec (table.set (fun a => (table.get t a).filter fun b =>
        !(decide (a ∈ items) && expired b)) t) := by
  induction items generalizing t with
  | nil =>
    refine congrArg next.exec ?_
    have hall : (fun a => (table.get t a).filter fun b => !(decide (a ∈ ([] : List α)) &&
        expired b)) = table.get t := funext fun a => by
      cases hb : table.get t a with
      | none => rfl
      | some b => rfl
    rw [hall, table.set_get]
  | cons a items ih =>
    have hstep : ∀ next : AuthorityTxn, (locking (lock a) <|
        .read (fun t => (table.get t a).any expired) fun c =>
        if c then writing (fun t => table.set (update (table.get t) a none) t) next
        else next : AuthorityTxn).exec t =
          next.exec (table.set (update (table.get t) a
            ((table.get t a).filter fun b => !expired b)) t) := by
      intro next
      show (if (table.get t a).any expired then writing _ next else next : AuthorityTxn).exec t = _
      cases hb : table.get t a with
      | none =>
        rw [any_none, if_neg Bool.false_ne_true, filter_none, ← hb,
          update_eq_self, table.set_get]
      | some b =>
        rw [any_some]
        by_cases hexpired : expired b = true
        · rw [if_pos hexpired, filter_some, hexpired, Bool.not_true,
            if_neg Bool.false_ne_true]
          rfl
        · rw [if_neg hexpired, filter_some, Bool.eq_false_iff.mpr hexpired, Bool.not_false,
            if_pos rfl, ← hb, update_eq_self, table.set_get]
    rw [foldr_cons, hstep, ih, table.get_set, table.set_set]
    refine congrArg (fun f => next.exec (table.set f t)) (funext fun x => ?_)
    by_cases hx : x = a
    · rw [hx, Function.update_self, Option.filter_filter]
      refine congrArg (fun p => Option.filter p _) (funext fun b => ?_)
      rw [decide_eq_true mem_cons_self, Bool.true_and]
      cases expired b with
      | true => rfl
      | false => rw [Bool.and_false, Bool.not_false, Bool.and_self]
    · rw [update_of_ne hx]
      refine congrArg (fun p => Option.filter p _) (funext fun b => ?_)
      rw [show decide (x ∈ a :: items) = decide (x ∈ items) from
        decide_eq_decide.mpr (mem_cons.trans (or_iff_right hx))]

def challengeTable : TableOf Uuid ChallengeRow where
  get := Tables.challenges
  set f t := { t with challenges := f }
  get_set _ _ := rfl
  set_set _ _ _ := rfl
  set_get _ := rfl

def authReplayTable : TableOf (PublicKey × EventId) Int where
  get := Tables.authReplays
  set f t := { t with authReplays := f }
  get_set _ _ := rfl
  set_set _ _ _ := rfl
  set_get _ := rfl

def requestReplayTable : TableOf (PublicKey × Uuid) Int where
  get := Tables.requestReplays
  set f t := { t with requestReplays := f }
  get_set _ _ := rfl
  set_set _ _ _ := rfl
  set_get _ := rfl

def quotaTable : TableOf Fingerprint QuotaRow where
  get := Tables.quotas
  set f t := { t with quotas := f }
  get_set _ _ := rfl
  set_set _ _ _ := rfl
  set_get _ := rfl

theorem filter_found {α β : Type} [DecidableEq α] {f : α → Option β} {items : List α}
    {expired : β → Prop} [DecidablePred expired]
    (h : ∀ a, a ∈ items ↔ ∃ b, f a = some b ∧ expired b) (a : α) :
    ((f a).filter fun b => !(decide (a ∈ items) && decide (expired b))) =
      (f a).filter fun b => !decide (expired b) := by
  cases hb : f a with
  | none => rfl
  | some b =>
    rw [filter_some, filter_some]
    by_cases hexpired : expired b
    · rw [decide_eq_true ((h a).mpr ⟨b, hb, hexpired⟩), Bool.true_and]
    · rw [decide_eq_false hexpired, Bool.and_false]

/-- What a reaping leaves when no installation and no delegation goes. -/
def Tables.reaped (now : Int) (t : Tables) : Tables :=
  { t with
    challenges := fun id => (t.challenges id).filter fun c => !decide (c.expiresAt < now)
    authReplays := fun k => (t.authReplays k).filter fun e => !decide (e < now)
    requestReplays := fun k => (t.requestReplays k).filter fun e => !decide (e < now)
    quotas := fun k => (t.quotas k).filter fun q =>
      !decide (q.updatedAt < seconds (now - daySecs)) }

theorem outcome_reapExpired {found : Found} (h0 : 0 ≤ now) (hmax : now ≤ maxUtcSecs)
    (hexact : Exact now t found)
    (hinstallations : ∀ id i, t.installations id = some i →
      reapable now i.expiresAt i.revokedAt = false)
    (hdelegations : ∀ k d, t.delegations k = some d →
      reapable now d.expiresAt d.revokedAt = false) :
    outcome (reapExpired now found) t = (t.reaped now, .ok) := by
  obtain ⟨hutc, hstorable⟩ := storable_of_nonneg h0 hmax
  have hparents : found.parents = [] := eq_nil_iff_forall_not_mem.mpr fun id hid => by
    obtain ⟨i, hi, hreapable⟩ := (hexact.parents id).mp hid
    exact Bool.false_ne_true ((hinstallations id i hi).symm.trans hreapable)
  have hnoInstallation : found.installations = [] :=
    eq_nil_iff_forall_not_mem.mpr fun id hid => by
      obtain ⟨i, hi, hreapable⟩ := (hexact.installations id).mp hid
      exact Bool.false_ne_true ((hinstallations id i hi).symm.trans hreapable)
  have hnoDelegation : found.delegations = [] :=
    eq_nil_iff_forall_not_mem.mpr fun k hk => by
      obtain ⟨d, hd, hreapable | hparent⟩ := (hexact.delegations k).mp hk
      · exact Bool.false_ne_true ((hdelegations k d hd).symm.trans hreapable)
      · rw [hparents] at hparent
        exact not_mem_nil hparent
  have hexec : (reapExpired now found).exec t = (t.reaped now, true, .ok) := by
    rw [reapExpired, hutc, hstorable, Bool.not_true, if_neg Bool.false_ne_true,
      if_neg Bool.false_ne_true, hnoDelegation, hnoInstallation, foldr_nil, foldr_nil]
    refine (challengeTable.exec_deletes .challenge (fun c => decide (c.expiresAt < now))
      found.challenges _ t).trans ?_
    refine (authReplayTable.exec_deletes .authReplay (fun e => decide (e < now))
      found.authReplays _ _).trans ?_
    refine (requestReplayTable.exec_deletes .requestReplay (fun e => decide (e < now))
      found.requestReplays _ _).trans ?_
    refine (quotaTable.exec_deletes .quota
      (fun q => decide (q.updatedAt < seconds (now - daySecs))) found.quotas _ _).trans ?_
    rw [Txn.exec_commit]
    refine congrArg (fun t => (t, true, Reply.ok)) ?_
    show ({ t with challenges := _, authReplays := _, requestReplays := _, quotas := _ } :
      Tables) = t.reaped now
    rw [Tables.reaped]
    congr 1
    · exact funext (filter_found hexact.challenges)
    · exact funext (filter_found hexact.quotas)
    · exact funext (filter_found hexact.authReplays)
    · exact funext (filter_found hexact.requestReplays)
  rw [outcome, Txn.effect, Txn.answer, hexec, if_pos rfl]

theorem ChallengeSim.reaped {row : Option ChallengeRow} (h : ChallengeSim sha256 now row ch) :
    ChallengeSim sha256 now (row.filter fun c => !decide (c.expiresAt < now))
      (ch.filter fun c => decide (c.expiresAt ≥ now)) := by
  obtain ⟨c, rfl, rfl⟩ | ⟨rfl, hexpired⟩ := h
  · rw [filter_some, filter_some]
    by_cases hlive : now ≤ c.expiresAt
    · rw [decide_eq_true (show c.expiresAt ≥ now from hlive), if_pos rfl,
        decide_eq_false (Int.not_lt.mpr hlive), Bool.not_false, if_pos rfl]
      exact .inl ⟨c, rfl, rfl⟩
    · rw [decide_eq_false (show ¬c.expiresAt ≥ now from hlive), if_neg Bool.false_ne_true,
        decide_eq_true (Int.not_le.mp hlive), Bool.not_true, if_neg Bool.false_ne_true]
      exact .inr ⟨rfl, nofun⟩
  · exact .inr ⟨rfl, fun r hr => hexpired r (filter_eq_some_iff.mp hr).1⟩

theorem QuotaSim.reaped (h : QuotaSim now row q) (hmax : now ≤ maxUtcSecs) :
    QuotaSim now (row.filter fun q => !decide (q.updatedAt < seconds (now - daySecs)))
      (q.filter fun q => decide (saturatingSub now q.1 < 86400)) := by
  obtain ⟨r, rfl, rfl, hr0, hrn, hru⟩ | ⟨hrow, hq⟩ := h
  · have hsub := saturatingSub_eq hr0 hrn hmax
    by_cases hyoung : now - r.windowStartedAt < 86400
    · have hkept : ¬r.updatedAt < seconds (now - daySecs) := by
        simp only [seconds, daySecs] at hru ⊢
        omega
      rw [filter_some, filter_some, decide_eq_false hkept, Bool.not_false,
        if_pos rfl, if_pos (decide_eq_true (by rw [hsub]; exact hyoung))]
      exact .inl ⟨r, rfl, rfl, hr0, hrn, hru⟩
    · refine .inr ⟨fun r' hr' => ?_, fun p hp => ?_⟩
      · rw [← some.inj (filter_eq_some_iff.mp hr').1, daySecs]
        omega
      · obtain ⟨hp, hlt⟩ := filter_eq_some_iff.mp hp
        rw [← some.inj hp] at hlt
        rw [hsub] at hlt
        exact absurd (of_decide_eq_true hlt) hyoung
  · exact .inr ⟨fun r hr => hrow r (filter_eq_some_iff.mp hr).1,
      fun p hp => hq p (filter_eq_some_iff.mp hp).1⟩

theorem Sim.agrees_reapExpired {found : Found} (h : Sim sha256 now past t m) (h0 : 0 ≤ now)
    (hmax : now ≤ maxUtcSecs) (hexact : Exact now t found)
    (hinstallations : ∀ id i, t.installations id = some i →
      reapable now i.expiresAt i.revokedAt = false)
    (hdelegations : ∀ k d, t.delegations k = some d →
      reapable now d.expiresAt d.revokedAt = false) :
    Agrees sha256 now past (outcome (reapExpired now found) t) (m.reapExpired now) := by
  rw [outcome_reapExpired h0 hmax hexact hinstallations hdelegations]
  have hfence : ∀ e : Int, decide (e ≥ now) = !decide (e < now) := fun e => by
    rw [← decide_not]
    exact decide_eq_decide.mpr Int.not_lt.symm
  refine ⟨rfl, Reply.noConfusion, { h with
    challenges := fun id => (h.challenges id).reaped
    put := fun id hid => h.put id (hid.imp (fun hne hnone => hne ?_) fun hne hnone => hne ?_)
    authReplays := ?_
    requestReplays := ?_
    quotas := fun k => (h.quotas k).reaped hmax }⟩
  · show (fun k => (m.deliveryAuthReplays k).filter _) = fun k => (t.authReplays k).filter _
    simp only [h.authReplays, hfence]
  · show (fun k => (m.deliveryRequestReplays k).filter _) = fun k => (t.requestReplays k).filter _
    simp only [h.requestReplays, hfence]
  · show (t.challenges id).filter _ = none
    simp [hnone]
  · show (m.challenges id).filter _ = none
    simp [hnone]

/-! ### All calls -/

theorem check_of_enrolled
    (h : n.appAttestKeyId.length = 32 ∧ 33 ≤ n.appAttestPublicKey.length ∧
      n.appAttestPublicKey.length ≤ 256 ∧ 1 ≤ n.tokenCiphertext.length ∧
      n.tokenCiphertext.length ≤ 2048 ∧ n.endpointEpoch = 1)
    (hts : storable n.expiresAt = true) : n.check = true := by
  rw [NewInstallation.check, hts]
  simp only [Bool.and_eq_true, decide_eq_true_eq, and_true]
  omega

/-- **One call.** -/
theorem Sim.call (h : Sim sha256 (lastReading past) past t m) (hchecked : Checked t past c)
    (hagreeable : Agreeable t m past c) :
    Agrees sha256 (lastReading (c :: past)) (c :: past) (postgres sha256 t c)
      (m.call c.operation) := by
  obtain ⟨hclock, hargs⟩ := hchecked
  obtain ⟨hback, hcond⟩ := hagreeable
  have hnone : c.operation.reading = none → lastReading (c :: past) = lastReading past := fun hc => by
    simp [lastReading, hc]
  have hsome : ∀ now, c.operation.reading = some now → lastReading (c :: past) = now :=
    fun now hc => by rw [lastReading, hc, getD_some]
  obtain ⟨operation, clock⟩ := c
  cases operation with
  | putChallenge ch =>
    rw [hnone rfl]
    refine (h.mono (Int.le_refl _) _).agrees_putChallenge mem_cons_self rfl ?_ hcond
    have hnot : ¬(t.challenges ch.id ≠ none ∨ m.challenges ch.id ≠ none) := fun hput => by
      obtain ⟨c', hc', ch', hop, hid⟩ := h.put ch.id hput
      exact hargs c' hc' ch' hop hid
    exact ⟨Classical.not_not.mp fun hne => hnot (.inl hne),
      Classical.not_not.mp fun hne => hnot (.inr hne)⟩
  | consumeChallenge id value now =>
    obtain ⟨h0, hmax⟩ := hclock now rfl
    rw [hsome now rfl]
    exact (h.mono (hback now rfl) _).agrees_consumeChallenge h0 hmax hcond
  | createInstallation n =>
    obtain ⟨hshape, hkey⟩ := hargs
    rw [hnone rfl]
    refine (h.mono (Int.le_refl _) _).agrees_createInstallation mem_cons_self rfl
      (check_of_enrolled hshape hcond.2) (Classical.not_not.mp fun hne => ?_) hcond.1
    obtain ⟨c', hc', n', hop, hn'⟩ := h.enrolled _ hne
    exact hkey c' hc' n' hop hn'
  | installation id now =>
    obtain ⟨h0, hmax⟩ := hclock now rfl
    rw [hsome now rfl]
    exact (h.mono (hback now rfl) _).agrees_installation h0 hmax
  | advanceAssertionCounter id previous next =>
    rw [hnone rfl]
    exact (h.mono (Int.le_refl _) _).agrees_advanceAssertionCounter
  | upsertDelegation d =>
    obtain ⟨hshape, hnew⟩ := hargs
    rw [hnone rfl]
    refine (h.mono (Int.le_refl _) _).agrees_upsertDelegation mem_cons_self rfl hshape
      (Classical.not_not.mp fun hne => ?_) hcond
    obtain ⟨c', hc', d', hop, hd'⟩ := h.granted _ hne
    exact hnew c' hc' d' hop hd'
  | rotateEndpoint id expected new ciphertext fingerprint =>
    rw [hnone rfl]
    exact (h.mono (Int.le_refl _) _).agrees_rotateEndpoint hargs hcond
  | revokeDelegation id relay generation =>
    rw [hnone rfl]
    exact (h.mono (Int.le_refl _) _).agrees_revokeDelegation
  | revokeInstallation id expected new =>
    rw [hnone rfl]
    exact (h.mono (Int.le_refl _) _).agrees_revokeInstallation hargs
  | authorizeDelivery g =>
    obtain ⟨h0, hmax⟩ := hclock g.now rfl
    rw [hsome g.now rfl]
    exact (h.mono (hback g.now rfl) _).agrees_authorizeDelivery h0 hmax hargs.1 hargs.2 hcond
  | finishDelivery p disposition =>
    rw [hnone rfl]
    exact (h.mono (Int.le_refl _) _).agrees_finishDelivery p disposition
  | reapExpired now found =>
    obtain ⟨h0, hmax⟩ := hclock now rfl
    rw [hsome now rfl]
    exact (h.mono (hback now rfl) _).agrees_reapExpired h0 hmax hargs hcond.1 hcond.2

theorem Sim.answers {calls : List Call} (h : Sim sha256 (lastReading past) past t m)
    (hsteps : Steps sha256 (fun t m past c => Checked t past c ∧ Agreeable t m past c) t m past
      calls) :
    ∀ a ∈ answers sha256 t m calls, a.1 = a.2 ∧ a.1 ≠ .error .unavailable := by
  induction calls generalizing t m past with
  | nil => exact fun _ ha => absurd ha not_mem_nil
  | cons c calls ih =>
    obtain ⟨⟨hchecked, hagreeable⟩, hsteps⟩ := hsteps
    obtain ⟨hreply, havailable, hsim⟩ := h.call hchecked hagreeable
    intro a ha
    obtain rfl | ha := mem_cons.mp ha
    · exact ⟨hreply, havailable⟩
    · exact ih hsim hsteps a ha

/-- **The stores agree.** Whatever calls are made from the empty state, one after another and with
arguments that the handlers have checked, while none of the things happens that the stores disagree
about, both give the same answers, and neither answers `Unavailable`. -/
theorem stores_agree (sha256 : BitVec 256 → BitVec 256) (calls : List Call)
    (hsteps : Steps sha256 (fun t m past c => Checked t past c ∧ Agreeable t m past c) .empty .empty
      [] calls) :
    ∀ a ∈ answers sha256 .empty .empty calls, a.1 = a.2 ∧ a.1 ≠ .error .unavailable :=
  Sim.answers .empty hsteps

def tablet : NewInstallation where
  id := 1
  appAttestKeyId := replicate 32 1
  appAttestPublicKey := replicate 33 1
  assertionCounter := 0
  profile := .buzzIosProduction
  tokenCiphertext := [7]
  tokenFingerprint := 7
  endpointEpoch := 1
  expiresAt := 1000000

def tabletToRelay : Delegation where
  id := 5
  installationId := 1
  relayPubkey := 9
  endpointEpoch := 1
  generation := 1
  notBefore := 0
  expiresAt := 900000
  revoked := false

def tabletDelivery : DeliveryCall where
  delegationId := 5
  relayPubkey := 9
  endpointEpoch := 1
  generation := 1
  eventId := 3
  requestId := 4
  requestExpiresAt := 360
  quotaWindowSeconds := 60
  quotaMaxDeliveries := 10
  now := 300

/-- A challenge expires and is reaped; then a device enrols, and a message is delivered to it. -/
def tabletCalls : List Call :=
  [⟨.putChallenge ⟨1, 7, 100⟩, 0⟩,
    ⟨.reapExpired 200 ⟨[1], [], [], [], [], [], []⟩, seconds 200⟩,
    ⟨.consumeChallenge 1 7 200, seconds 200⟩,
    ⟨.createInstallation tablet, seconds 201⟩,
    ⟨.upsertDelegation tabletToRelay, seconds 202⟩,
    ⟨.authorizeDelivery tabletDelivery, seconds 300⟩]

theorem steps_tabletCalls : Steps id (fun t m past c => Checked t past c ∧ Agreeable t m past c)
    .empty .empty [] tabletCalls := by
  have hnoReading : ∀ {P : Int → Prop} now, (none : Option Int) = some now → P now :=
    nofun
  have hreading : ∀ {P : Int → Prop} {now : Int}, P now → ∀ now', some now = some now' → P now' :=
    fun hnow now' h => some.inj h ▸ hnow
  have hnothing : ∀ {α β : Type} {f : α → Option β} {P : β → Prop} (a : α), f a = none →
      (a ∈ ([] : List α) ↔ ∃ b, f a = some b ∧ P b) := fun a hnone =>
    ⟨nofun, fun ⟨b, hb, _⟩ => nomatch (hnone.symm.trans hb)⟩
  have hexact : Exact 200 (Tables.empty.setChallenge 1 (some ⟨7, 100⟩))
      ⟨[1], [], [], [], [], [], []⟩ := by
    refine ⟨fun id => ?_, fun k => hnothing k rfl, fun k => hnothing k rfl, fun k => hnothing k rfl,
      fun k => hnothing k rfl, fun k => hnothing k rfl, fun k => hnothing k rfl⟩
    rw [mem_singleton, Tables.setChallenge]
    dsimp only
    by_cases hid : id = 1
    · rw [hid, update_self]
      exact ⟨fun _ => ⟨_, rfl, by decide⟩, fun _ => rfl⟩
    · rw [update_of_ne hid]
      exact ⟨fun h => absurd h hid, fun ⟨b, hb, _⟩ => nomatch hb⟩
  refine ⟨⟨⟨hnoReading, ?_⟩, hnoReading, by decide, by decide⟩,
    ⟨⟨hreading (by decide), hexact⟩, hreading (by decide), ?_, ?_⟩,
    ⟨⟨hreading (by decide), trivial⟩, hreading (by decide), ?_⟩,
    ⟨⟨hnoReading, by decide, ?_⟩, hnoReading, by decide, by decide⟩,
    ⟨⟨hnoReading, by decide, ?_⟩, hnoReading, fun _ _ _ _ =>
      ⟨⟨by decide, by decide⟩, by decide, by decide⟩⟩,
    ⟨⟨hreading (by decide), by decide⟩, hreading (by decide), by decide⟩, trivial⟩
  · exact forall_mem_nil _
  · exact nofun
  · exact nofun
  · exact nofun
  · intro c hc n hop
    simp only [mem_cons, not_mem_nil, or_false] at hc
    rcases hc with rfl | rfl | rfl
    · nomatch hop
    · nomatch hop
    · nomatch hop
  · intro c hc d hop
    simp only [mem_cons, not_mem_nil, or_false] at hc
    rcases hc with rfl | rfl | rfl | rfl
    · nomatch hop
    · nomatch hop
    · nomatch hop
    · nomatch hop

theorem stores_agree_tabletCalls :
    (answers id .empty .empty tabletCalls).map Prod.fst =
        [.ok, .ok, .error .rejected, .ok, .ok,
          .permit (permit tabletDelivery 1 tablet.row tabletToRelay.row)] ∧
      ∀ a ∈ answers id .empty .empty tabletCalls, a.1 = a.2 ∧ a.1 ≠ .error .unavailable :=
  ⟨by decide +kernel, stores_agree id tabletCalls steps_tabletCalls⟩

/-- A wrong value is offered for a challenge, and then the right one. -/
def guessedCalls : List Call :=
  [⟨.putChallenge ⟨1, 7, 100⟩, 0⟩, ⟨.consumeChallenge 1 8 50, seconds 50⟩,
    ⟨.consumeChallenge 1 7 51, seconds 51⟩]

/-- After a wrong value the right one is accepted in PostgreSQL only. -/
theorem not_stores_agree : ¬∀ (sha256 : BitVec 256 → BitVec 256) (calls : List Call),
    Steps sha256 (fun t _ past c => Checked t past c) .empty .empty [] calls →
      ∀ a ∈ answers sha256 .empty .empty calls, a.1 = a.2 ∧ a.1 ≠ .error .unavailable := by
  intro hall
  have hreading : ∀ {P : Int → Prop} {now : Int}, P now → ∀ now', some now = some now' → P now' :=
    fun hnow now' h => some.inj h ▸ hnow
  have hsteps : Steps id (fun t _ past c => Checked t past c) .empty .empty [] guessedCalls :=
    ⟨⟨fun now h => absurd h (some_ne_none now).symm, forall_mem_nil _⟩,
      ⟨hreading (by decide), trivial⟩, ⟨hreading (by decide), trivial⟩, trivial⟩
  have hlast : ((.ok, .error .rejected) : Reply × Reply) ∈ answers id .empty .empty guessedCalls := by
    decide +kernel
  exact Reply.noConfusion (hall id guessedCalls hsteps _ hlast).1

end Buzz.PushGateway
