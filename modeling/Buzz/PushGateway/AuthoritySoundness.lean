import Buzz.PushGateway.AuthorityHistory

/-!
# Permits are current

An admission stands on an installation and a delegation that are in force when it commits, and on the
token that was installed last. After a rotation or a revocation there is no permit for an older
epoch, nor for a delegation that was replaced or revoked. An older generation stays behind as long as
the row of the delegation does: when a reaping has deleted it, the store accepts any generation, and
only the callers can see to it that the new one is above the old ones.
-/

namespace Buzz.PushGateway

open List Option

/-- The installation and the delegation are in force, and are what the grant says. -/
structure InForce (g : DeliveryCall) (i : InstallationRow) (d : DelegationRow) : Prop where
  id : d.id = g.delegationId
  unrevoked : i.revokedAt = none ∧ d.revokedAt = none
  epoch : i.endpointEpoch = g.endpointEpoch ∧ d.endpointEpoch = g.endpointEpoch
  generation : d.generation = g.generation
  unexpired : d.notBefore ≤ g.now ∧ g.now ≤ d.expiresAt ∧ g.now ≤ i.expiresAt

/-- The permit stands on rows in force, for the authenticated relay, and on the token that was
installed last. -/
def Current (q : Requests) (t : Tables) (past : List StoreAnswer) (g : DeliveryCall)
    (p : DeliveryPermit) : Prop :=
  ∃ i d, t.installations p.authority.installationId = some i ∧
    t.delegations (p.authority.installationId, g.relayPubkey) = some d ∧ InForce g i d ∧
    p = permit g p.authority.installationId i d ∧
    (q.history (Operation.setsToken p.authority.installationId) past).head? =
      some p.authority.tokenCiphertext

def DeliveryPermit.key (p : DeliveryPermit) : DelegationKey :=
  (p.authority.installationId, p.authority.relayPubkey)

/-- `y` is a permit `p`, and `x` was committed before it, with the answers `between` in between and
`older` before. -/
structure PermitAfter (answers : List StoreAnswer) (x : StoreAnswer)
    (between older : List StoreAnswer) (p : DeliveryPermit) : Prop where
  answers : ∃ later y, answers = later ++ y :: (between ++ x :: older) ∧ y.result = .permit p
  committed : x.committed = true

/-- No permit is for what a rotation or a revocation has put an end to. -/
structure Superseded (q : Requests) (answers : List StoreAnswer) : Prop where
  rotated : ∀ x between older p id expected new ciphertext fingerprint,
    PermitAfter answers x between older p →
    q.operation x.request = .rotateEndpoint id expected new ciphertext fingerprint →
    p.authority.installationId = id → new ≤ p.authority.endpointEpoch
  revoked : ∀ x between older p id expected new, PermitAfter answers x between older p →
    q.operation x.request = .revokeInstallation id expected new → p.authority.installationId ≠ id
  /-- After a delegation was replaced or revoked, there is none for its id. -/
  retired : ∀ x between older p k d, PermitAfter answers x between older p →
    (q.operation x.request).Concerns k → (∃ y ∈ older, y.committed = true ∧
      q.operation y.request = .upsertDelegation d ∧ d.key = k) → p.authority.delegationId ≠ d.id

/-- No permit is for a generation older than one that was granted, or not above one that was
revoked. -/
structure NeverOlder (q : Requests) (answers : List StoreAnswer) : Prop where
  granted : ∀ x between older p d, PermitAfter answers x between older p →
    q.operation x.request = .upsertDelegation d → d.key = p.key →
      d.generation ≤ p.authority.generation
  revoked : ∀ x between older p id relay generation, PermitAfter answers x between older p →
    q.operation x.request = .revokeDelegation id relay generation → (id, relay) = p.key →
      generation < p.authority.generation

/-- Every change of an assertion counter or of an endpoint epoch makes it larger. -/
def Increasing (q : Requests) (answers : List StoreAnswer) : Prop :=
  ∀ id, (q.history (Operation.setsCounter id) answers).Pairwise (· > ·) ∧
    (q.history (Operation.setsEpoch id) answers).Pairwise (· > ·)

/-! ### Serial runs -/

variable {sha256 : BitVec 256 → BitVec 256} {q : Requests} {home : Uuid → DelegationKey}
  {log : List StoreAnswer} {t : Tables}

/-- The tables are those of the answered calls, one after the other. -/
abbrev Runs (sha256 : BitVec 256 → BitVec 256) (q : Requests) (log : List StoreAnswer)
    (t : Tables) : Prop :=
  Replays (fun n => (q.call n).txn sha256) (fun t => t = .empty) Reply.IsRefusal log t

/-- What the tables tell of the answers before. -/
structure Past (q : Requests) (log : List StoreAnswer) (t : Tables) : Prop where
  tracked : ∀ id, Tracked q id log (t.installations id)
  granted : ∀ k, Granted q k log (t.delegations k)

theorem past_of_runs (hfresh : q.Fresh) (h : Runs sha256 q log t)
    (honce : log.Pairwise fun x y => x.request ≠ y.request) : Past q log t := by
  induction h with
  | nil hdb =>
    subst hdb
    exact ⟨fun id => .nil q id, fun k => .nil q k⟩
  | rollback n h hresult ih =>
    obtain ⟨htracked, hgranted⟩ := ih (pairwise_cons.mp honce).2
    refine ⟨fun id => ?_, fun k => (hgranted k).cons nofun⟩
    obtain ⟨h1, h2, h3, h4, h5, h6, h7⟩ := htracked id
    exact ⟨by rwa [history_rollback], by rwa [history_rollback], by rwa [history_rollback],
      by rwa [history_rollback], by rwa [history_rollback], by rwa [history_rollback],
      by rwa [history_rollback, history_rollback, history_rollback, history_rollback]⟩
  | commit h hexec ih =>
    rename_i log db db' n result
    obtain ⟨hnew, honce⟩ := pairwise_cons.mp honce
    obtain ⟨htracked, hgranted⟩ := ih honce
    have heffect : Effect (q.call n).clock db (q.operation n) db' result := Call.effect hexec
    refine ⟨fun id => (htracked id).step (heffect.installation id) fun hcreates => ?_,
      fun k => (hgranted k).step (heffect.delegation k)⟩
    -- The installation was not created before.
    refine filterMap_eq_nil_iff.mpr fun x hx => ?_
    split
    · cases hop : q.operation x.request with
      | createInstallation j =>
        refine if_neg fun hid => ?_
        cases hop' : q.operation n with
        | createInstallation i =>
          rw [hop'] at hcreates
          obtain ⟨u, hu⟩ := isSome_iff_exists.mp hcreates
          obtain ⟨hi, -⟩ := ite_none_right_eq_some.mp hu
          exact hnew x hx (hfresh.installation n x.request i j hop' hop (hi.trans hid.symm))
        | _ =>
          rw [hop'] at hcreates
          nomatch hcreates
      | _ => rfl
    · rfl

theorem topmost_of_runs (hforward : q.Forward log) (h : Runs sha256 q log t) (k : DelegationKey) :
    Topmost q k log (t.delegations k) := by
  induction h with
  | nil hdb =>
    subst hdb
    exact nofun
  | rollback n h hresult ih =>
    intro d hd
    rw [history_rollback]
    exact ih hforward.1 d hd
  | commit h hexec ih =>
    rename_i log db db' n result
    have heffect : Effect (q.call n).clock db (q.operation n) db' result := Call.effect hexec
    exact (ih hforward.1).step (heffect.delegation k) hforward

theorem runs_sound (hhome : q.Homes home) (h : Runs sha256 q log t) : Sound home t :=
  Replays.inv (C := cells) (I := Sound home) (fun n => serving_guarded hhome n)
    (fun t (ht : t = .empty) => ht ▸ sound_empty home) h

/-! ### Permits -/

variable {g : DeliveryCall} {k : DelegationKey} {i : InstallationRow} {d : DelegationRow}

theorem Admits.inForce (h : Admits g t k.1 k i d) : InForce g i d := by
  have hd := h.delegationAuthorizes
  have hi := h.authorizes
  simp only [DelegationRow.authorizes, Bool.and_eq_true, beq_iff_eq, decide_eq_true_eq,
    isNone_iff_eq_none] at hd
  simp only [InstallationRow.authorizes, Bool.and_eq_true, beq_iff_eq, decide_eq_true_eq,
    isNone_iff_eq_none] at hi
  obtain ⟨⟨⟨⟨⟨hid, hepoch⟩, hgeneration⟩, hrevoked⟩, hfrom⟩, hto⟩ := hd
  exact ⟨hid, ⟨hi.1.1, hrevoked⟩, ⟨hi.1.2, hepoch⟩, hgeneration, hfrom, hto, hi.2⟩

theorem Admits.relay (h : Admits g t k.1 k i d) : k = (k.1, g.relayPubkey) := by
  obtain ⟨-, hk⟩ := filter_eq_some_iff.mp h.candidate
  rw [Bool.and_eq_true, beq_iff_eq] at hk
  rw [← hk.1]

variable {p : DeliveryPermit}

theorem exists_admits {n : Nat} {t' : Tables}
    (h : ((q.call n).txn sha256).exec t = (t', true, .permit p)) :
    ∃ g k i d, q.operation n = .authorizeDelivery g ∧ Admits g t k.1 k i d ∧
      p = permit g k.1 i d := by
  have heffect : Effect (q.call n).clock t (q.operation n) t' (.permit p) := Call.effect h
  generalize q.operation n = op at heffect
  cases heffect with
  | authorizeDelivery hadmits quota => exact ⟨_, _, _, _, rfl, hadmits, rfl⟩

theorem current_of_exec {n : Nat} {t' : Tables} (hpast : Past q log t)
    (h : ((q.call n).txn sha256).exec t = (t', true, .permit p)) :
    ∃ g, q.operation n = .authorizeDelivery g ∧ Current q t log g p := by
  obtain ⟨g, k, i, d, hop, hadmits, rfl⟩ := exists_admits h
  refine ⟨g, hop, i, d, hadmits.installation, ?_, hadmits.inForce, rfl,
    (hpast.tracked k.1).token i hadmits.installation⟩
  show t.delegations (k.1, g.relayPubkey) = some d
  rw [← hadmits.relay]
  exact hadmits.delegation

theorem PermitAfter.exists_admits {x : StoreAnswer} {between older : List StoreAnswer}
    (hfresh : q.Fresh) (hhome : q.Homes home) (hrun : Runs sha256 q log t)
    (honce : log.Pairwise fun x y => x.request ≠ y.request)
    (h : PermitAfter log x between older p) :
    ∃ u g k i d, Past q (between ++ x :: older) u ∧
      (between ++ x :: older).Pairwise (fun x y => x.request ≠ y.request) ∧ Sound home u ∧
      Admits g u k.1 k i d ∧ p = permit g k.1 i d := by
  obtain ⟨⟨later, y, rfl, hy⟩, -⟩ := h
  have hcommitted : y.committed = true :=
    hrun.committed (mem_append_right _ mem_cons_self)
      (by rw [hy]; exact fun hrefusal => hrefusal)
  obtain ⟨n, committed, result⟩ := y
  obtain rfl : committed = true := hcommitted
  obtain rfl : result = .permit p := hy
  obtain ⟨u, u', hrun', hexec⟩ := hrun.split
  have honce' := (pairwise_cons.mp (pairwise_append.mp honce).2.1).2
  obtain ⟨g, k, i, d, -, hadmits, hp⟩ := PushGateway.exists_admits hexec
  exact ⟨u, g, k, i, d, past_of_runs hfresh hrun' honce', honce', runs_sound hhome hrun', hadmits,
    hp⟩

theorem le_of_mem_of_head? {l : List Int} {a b : Int} (hl : l.Pairwise (· > ·))
    (ha : l.head? = some a) (hb : b ∈ l) : b ≤ a := by
  cases l with
  | nil => nomatch hb
  | cons c l =>
    cases ha
    obtain rfl | hb := mem_cons.mp hb
    · exact Int.le_refl _
    · exact Int.le_of_lt ((pairwise_cons.mp hl).1 b hb)

theorem mem_or_subset_of_append_eq {α : Type*} {l₁ l₂ m₁ m₂ : List α} {a b : α}
    (h : l₁ ++ a :: l₂ = m₁ ++ b :: m₂) : a ∈ m₁ ∨ l₂ ⊆ m₂ := by
  obtain ⟨l, rfl, heq⟩ | ⟨l, rfl, heq⟩ := append_eq_append_iff.mp h
  · cases l with
    | nil =>
      obtain ⟨-, rfl⟩ := cons.inj heq
      exact .inr (List.Subset.refl _)
    | cons c l =>
      obtain ⟨rfl, -⟩ := cons.inj heq
      exact .inl (mem_append_right _ mem_cons_self)
  · cases l with
    | nil =>
      obtain ⟨-, rfl⟩ := cons.inj heq
      exact .inr (List.Subset.refl _)
    | cons c l =>
      obtain ⟨-, rfl⟩ := cons.inj heq
      exact .inr fun x hx => mem_append_right _ (mem_cons_of_mem _ hx)

theorem superseded_of_runs (hfresh : q.Fresh) (hhome : q.Homes home) (hrun : Runs sha256 q log t)
    (honce : log.Pairwise fun x y => x.request ≠ y.request) : Superseded q log where
  rotated x between older p id expected new ciphertext fingerprint h hop hid := by
    obtain ⟨u, g, k, i, d, hpast, -, -, hadmits, rfl⟩ := h.exists_admits hfresh hhome hrun honce
    obtain rfl : k.1 = id := hid
    have hmem : new ∈ q.history (Operation.setsEpoch k.1) (between ++ x :: older) :=
      mem_history (mem_append_right _ mem_cons_self) h.committed
        (by rw [hop]; exact if_pos rfl)
    have hle := le_of_mem_of_head? (hpast.tracked k.1).epochs
      ((hpast.tracked k.1).epoch i hadmits.installation) hmem
    rw [hadmits.inForce.epoch.1] at hle
    exact hle
  revoked x between older p id expected new h hop hid := by
    obtain ⟨u, g, k, i, d, hpast, -, -, hadmits, rfl⟩ := h.exists_admits hfresh hhome hrun honce
    obtain rfl : k.1 = id := hid
    have hmem : () ∈ q.history (Operation.revokes k.1) (between ++ x :: older) :=
      mem_history (mem_append_right _ mem_cons_self) h.committed
        (by rw [hop]; exact if_pos rfl)
    rw [(hpast.tracked k.1).revoked i hadmits.installation hadmits.inForce.unrevoked.1] at hmem
    exact not_mem_nil hmem
  retired x between older p k e h hconcerns hearlier hid := by
    obtain ⟨u, g, k', i, d, hpast, honce, hsound, hadmits, rfl⟩ :=
      h.exists_admits hfresh hhome hrun honce
    obtain ⟨y, hy, hyc, hop, hkey⟩ := hearlier
    have hsame : d.id = e.id := hadmits.inForce.id.trans hid
    -- The id is for one installation and relay.
    have hk : k' = k := by
      rw [← hsound.home_id hadmits.delegation, hsame, hhome _ _ hop, hkey]
    subst hk
    obtain ⟨newer, y', older', e', hlog, -, hop', -, rfl, hno⟩ :=
      hpast.granted k' d hadmits.delegation hadmits.inForce.unrevoked.2
    -- The same call granted it before `x` and after everything that concerns the pair.
    have hrequest : y.request = y'.request := hfresh.delegation _ _ _ _ hop hop' hsame.symm
    obtain hx | hsub := mem_or_subset_of_append_eq hlog
    · exact hno x hx h.committed hconcerns
    · rw [hlog] at honce
      exact (pairwise_cons.mp (pairwise_append.mp honce).2.1).1 y (hsub hy)
        hrequest.symm

theorem PermitAfter.generation_lt {x : StoreAnswer} {between older : List StoreAnswer} {n : Int}
    (hfresh : q.Fresh) (hhome : q.Homes home) (hrun : Runs sha256 q log t)
    (honce : log.Pairwise fun x y => x.request ≠ y.request) (hforward : q.Forward log)
    (h : PermitAfter log x between older p)
    (hgeneration : (q.operation x.request).generationOf p.key = some n) :
    n < p.authority.generation ∨
      ∃ d, q.operation x.request = .upsertDelegation d ∧ d.generation = p.authority.generation := by
  obtain ⟨u, g, k, i, d, hpast, -, -, hadmits, rfl⟩ := h.exists_admits hfresh hhome hrun honce
  have hk : (permit g k.1 i d).key = k := hadmits.relay.symm
  have hg : d.generation = g.generation := hadmits.inForce.generation
  rw [hk] at hgeneration
  obtain ⟨newer, y, older', e, hlog, hyc, hop, rfl, rfl, hno⟩ :=
    hpast.granted k d hadmits.delegation hadmits.inForce.unrevoked.2
  obtain ⟨⟨later, z, hz, -⟩, hc⟩ := h
  rw [hz, hlog, ← cons_append, ← append_assoc] at hforward
  have hx : x ∈ newer ++ y :: older' := hlog ▸ mem_append_right _ mem_cons_self
  obtain hx | hx := mem_append.mp hx
  · by_contra
    have hnone := Operation.generationOf_eq_none (hno x hx hc)
    nomatch (hnone.symm.trans hgeneration)
  · obtain rfl | hx := mem_cons.mp hx
    · exact .inr ⟨e, hop, hg⟩
    · have hlt := hforward.of_append.2 hyc e hop n (mem_history hx hc hgeneration)
      exact .inl (hlt.trans_eq hg)

theorem neverOlder_of_runs (hfresh : q.Fresh) (hhome : q.Homes home) (hrun : Runs sha256 q log t)
    (honce : log.Pairwise fun x y => x.request ≠ y.request) (hforward : q.Forward log) :
    NeverOlder q log where
  granted x between older p d h hop hkey := by
    obtain hlt | ⟨e, hop', heq⟩ := h.generation_lt (n := d.generation) hfresh hhome hrun honce
      hforward (by rw [hop]; exact if_pos hkey)
    · exact Int.le_of_lt hlt
    · obtain rfl := Operation.upsertDelegation.inj (hop.symm.trans hop')
      exact Int.le_of_eq heq
  revoked x between older p id relay generation h hop hkey := by
    obtain hlt | ⟨e, hop', -⟩ := h.generation_lt (n := generation) hfresh hhome hrun honce
      hforward (by rw [hop]; exact if_pos hkey)
    · exact hlt
    · nomatch hop.symm.trans hop'

/-! ### Reachable states -/

/-- An admission that commits stands on what is current. -/
def AdmitsCurrent (q : Requests) (w w' : Store) : Prop :=
  ∀ n committed p, w'.answers = ⟨n, committed, .permit p⟩ :: w.answers →
    ∃ g, q.operation n = .authorizeDelivery g ∧ Current q w.db w.answers g p

/-- A connection that works on an `upsert_delegation`, of an installation and a relay without a row,
offers a generation above every one that was committed for them. -/
def Requests.offersNewer (q : Requests) (w : Store) : SessionAction Nat → Bool
  | .step id => (w.session id).all fun s =>
      match q.operation s.request with
      | .upsertDelegation d => (w.db.delegations d.key).isSome ||
          (q.history (Operation.generationOf d.key) w.answers).all fun g => g < d.generation
      | _ => true
  | _ => true

/-- The gateway, when what was reaped is granted again with a newer generation only. -/
def forwardGateway (sha256 : BitVec 256 → BitVec 256) (q : Requests) :
    StateMachine Store (SessionAction Nat) :=
  (gateway sha256 q).guard fun w a => q.offersNewer w a = true

theorem forward_commit {n : Nat} {r : Reply} {u : Tables} (hrun : Runs sha256 q log t)
    (hforward : q.Forward log) (hexec : ((q.call n).txn sha256).exec t = (u, true, r))
    (hoffers : ∀ d, q.operation n = .upsertDelegation d → t.delegations d.key = none →
      ∀ g ∈ q.history (Operation.generationOf d.key) log, g < d.generation) :
    q.Forward (⟨n, true, r⟩ :: log) := by
  refine ⟨hforward, fun _ d hop g hg => ?_⟩
  have heffect : Effect (q.call n).clock t (q.operation n) u r := Call.effect hexec
  have hstep := heffect.delegation d.key
  have htop := topmost_of_runs hforward hrun d.key
  replace hop : q.operation n = .upsertDelegation d := hop
  rw [hop] at hstep
  generalize hrow : t.delegations d.key = row at hstep htop
  generalize u.delegations d.key = row' at hstep
  cases hstep with
  | kept row hnot => exact absurd rfl hnot
  | put hk hlt =>
    cases row with
    | none => exact hoffers d hop hrow g hg
    -- The row has the highest generation, and the statement compares with it.
    | some o => exact Int.lt_of_le_of_lt (htop o rfl g hg) (hlt o rfl)

theorem forward_of_reachable (hhome : q.Homes home) {w : Store}
    (h : (forwardGateway sha256 q).Reachable w) : q.Forward w.answers := by
  refine (StateMachine.reachable_guard (M := gateway sha256 q)
    (I := fun w => Serving sha256 q home w ∧ q.Forward w.answers) (fun w hw => ?_)
    (fun w a w' hI hoffers hs => ?_) h).2
  · refine ⟨.init hw, ?_⟩
    rw [hw.2.2]
    trivial
  · obtain ⟨hserving, hforward⟩ := hI
    obtain ⟨hallows, hs⟩ := StateMachine.guard_step.mp hs
    refine ⟨hserving.step hhome hallows hs, ?_⟩
    obtain ⟨-, ⟨-, hsame | ⟨m, result, -, hanswers⟩⟩ | ⟨s, hsession, rfl, -, result, hexec,
      hanswers⟩⟩ := hserving.standing.step (fun _ m _ => serving_guarded hhome m) hs
    · rwa [hsame]
    · rw [hanswers]
      exact ⟨hforward, nofun⟩
    · rw [hanswers]
      refine forward_commit hserving.replays hforward hexec fun d hop hnone g hg => ?_
      rw [Requests.offersNewer, hsession, all_some, hop] at hoffers
      dsimp only at hoffers
      rw [hnone, Option.isSome_none, Bool.false_or, List.all_eq_true] at hoffers
      exact of_decide_eq_true (hoffers g hg)

/-- **Permits are current, and what has ended stays ended.** Generations too, in the runs where what
was reaped is granted again with newer ones. -/
theorem permits_current (hfresh : q.Fresh) {w : Store} (h : (gateway sha256 q).Reachable w) :
    (∀ a w', (gateway sha256 q).step w a = some w' → AdmitsCurrent q w w') ∧
      Superseded q w.answers ∧ Increasing q w.answers ∧
      ((forwardGateway sha256 q).Reachable w → NeverOlder q w.answers) := by
  obtain ⟨home, hhome⟩ := hfresh.exists_home
  have hserving := Serving.of_reachable hhome h
  have hpast := past_of_runs hfresh hserving.replays hserving.once.answers
  refine ⟨fun a w' hs n committed p heq => ?_,
    superseded_of_runs hfresh hhome hserving.replays hserving.once.answers,
    fun id => ⟨(hpast.tracked id).counters, (hpast.tracked id).epochs⟩,
    fun hforward => neverOlder_of_runs hfresh hhome hserving.replays hserving.once.answers
      (forward_of_reachable hhome hforward)⟩
  obtain ⟨-, hs⟩ := StateMachine.guard_step.mp hs
  have hne : ∀ x : StoreAnswer, w.answers ≠ x :: w.answers := fun x hx =>
    absurd (congrArg length hx) (Nat.succ_ne_self _).symm
  obtain ⟨-, ⟨-, hsame | ⟨m, result, hrefusal, hanswers⟩⟩ | ⟨s, -, -, -, result, hexec,
    hanswers⟩⟩ :=
    hserving.standing.step (fun _ m _ => serving_guarded hhome m) hs
  · exact absurd (hsame.symm.trans heq) (hne _)
  · obtain ⟨hx, -⟩ := cons.inj (hanswers.symm.trans heq)
    rw [(Answer.mk.inj hx).2.2] at hrefusal
    exact hrefusal.elim
  · obtain ⟨hx, -⟩ := cons.inj (hanswers.symm.trans heq)
    obtain ⟨rfl, -, rfl⟩ := Answer.mk.inj hx
    exact current_of_exec hpast hexec

/-! ### An older generation after a reaping -/

/-- An installation with epoch 1, until 10⁶ s. -/
def phone : NewInstallation where
  id := 1
  appAttestKeyId := [1]
  appAttestPublicKey := replicate 33 1
  assertionCounter := 0
  profile := .buzzIosProduction
  tokenCiphertext := [7]
  tokenFingerprint := 7
  endpointEpoch := 1
  expiresAt := 1000000

/-- A delegation of the installation to relay 9. -/
def phoneToRelay (id : Uuid) (notBefore generation : Int) : Delegation where
  id := id
  installationId := 1
  relayPubkey := 9
  endpointEpoch := 1
  generation := generation
  notBefore := notBefore
  expiresAt := 900000
  revoked := false

/-- A delivery under such a delegation. -/
def delivery (delegationId : Uuid) (generation : Int) (eventId : EventId) (requestId : Uuid)
    (now : Int) : DeliveryCall where
  delegationId := delegationId
  relayPubkey := 9
  endpointEpoch := 1
  generation := generation
  eventId := eventId
  requestId := requestId
  requestExpiresAt := now + 60
  quotaWindowSeconds := 60
  quotaMaxDeliveries := 10
  now := now

/-- The calls of a list; the others look up an installation. -/
def Requests.ofList (calls : List Call) (admission : Nat → Nat) : Requests where
  call n := calls.getD n ⟨.installation 0 0, 0⟩
  admission := admission

/-- A call alone on a connection: it begins, and takes `steps` steps. -/
def alone (n steps : Nat) : List (SessionAction Nat) :=
  .start n n :: replicate steps (.step n)

/-- Generation 1 is revoked with generation 2. A day later the delegation is reaped, and granted
again with this generation. -/
def regranted (generation : Int) : Requests := .ofList
  [⟨.createInstallation phone, 0⟩,
    ⟨.upsertDelegation (phoneToRelay 5 0 1), 0⟩,
    ⟨.revokeDelegation 1 9 2, seconds 100⟩,
    ⟨.reapExpired 90000 ⟨[], [], [], [], [], [(1, 9)], []⟩, seconds 90000⟩,
    ⟨.upsertDelegation (phoneToRelay 6 0 generation), seconds 90001⟩,
    ⟨.authorizeDelivery (delivery 6 generation 3 4 90002), seconds 90002⟩] id

def Operation.drawsDelegation : Operation → Option Uuid
  | .upsertDelegation d => some d.id
  | _ => none

/-- The id of an installation that is drawn. -/
def Operation.drawsInstallation : Operation → Option Uuid
  | .createInstallation n => some n.id
  | _ => none

variable {calls : List Call}

theorem eq_of_draws {β : Type*} {draws : Operation → Option β}
    (hdefault : draws (.installation 0 0) = none) {admission : Nat → Nat}
    (hcalls : calls.Pairwise fun a a' =>
      draws a.operation = none ∨ draws a.operation ≠ draws a'.operation)
    {m n : Nat} {b : β} (hm : draws ((Requests.ofList calls admission).operation m) = some b)
    (hn : draws ((Requests.ofList calls admission).operation n) = some b) : m = n := by
  have hlt : ∀ k, draws ((Requests.ofList calls admission).operation k) = some b →
      ∃ h : k < calls.length, draws (calls.get ⟨k, h⟩).operation = some b := by
    intro k hk
    replace hk : draws (calls.getD k ⟨.installation 0 0, 0⟩).operation = some b := hk
    by_cases h : k < calls.length
    · refine ⟨h, ?_⟩
      rwa [getD_eq_getElem?_getD, getElem?_eq_getElem h] at hk
    · rw [getD_eq_getElem?_getD, getElem?_eq_none (Nat.le_of_not_lt h)] at hk
      nomatch (hdefault.symm.trans hk)
  have hapart : ∀ i j, i < j → draws ((Requests.ofList calls admission).operation i) = some b →
      draws ((Requests.ofList calls admission).operation j) = some b → False := by
    intro i j hij hi hj
    obtain ⟨hi', hi⟩ := hlt i hi
    obtain ⟨hj', hj⟩ := hlt j hj
    obtain hnone | hne := pairwise_iff_getElem.mp hcalls i j hi' hj' hij
    · nomatch (hnone.symm.trans hi)
    · exact hne (hi.trans hj.symm)
  obtain hlt | heq | hlt := Nat.lt_trichotomy m n
  · exact (hapart m n hlt hm hn).elim
  · exact heq
  · exact (hapart n m hlt hn hm).elim

theorem fresh_ofList (admission : Nat → Nat)
    (hdelegation : calls.Pairwise fun a b => a.operation.drawsDelegation = none ∨
      a.operation.drawsDelegation ≠ b.operation.drawsDelegation)
    (hinstallation : calls.Pairwise fun a b => a.operation.drawsInstallation = none ∨
      a.operation.drawsInstallation ≠ b.operation.drawsInstallation) :
    (Requests.ofList calls admission).Fresh where
  delegation m n d e hm hn heq :=
    eq_of_draws (b := d.id) rfl hdelegation (by rw [hm]; rfl) (by rw [hn, heq]; rfl)
  installation m n i j hm hn heq :=
    eq_of_draws (b := i.id) rfl hinstallation (by rw [hm]; rfl) (by rw [hn, heq]; rfl)

theorem fresh_regranted (generation : Int) : (regranted generation).Fresh where
  __ := fresh_ofList id (by simp [phoneToRelay, Operation.drawsDelegation])
    (by simp [phone, Operation.drawsInstallation])

/-- The calls of `regranted`, one after another. -/
def regrantedRun : List (SessionAction Nat) :=
  alone 0 6 ++ alone 1 8 ++ alone 2 4 ++ alone 3 5 ++ alone 4 8 ++ alone 5 16

def emptyStore : Store := ⟨.empty, [], []⟩

/-- The permit under the delegation that was granted again. -/
def regrantedPermit (generation : Int) : DeliveryPermit :=
  permit (delivery 6 generation 3 4 90002) 1 phone.row (phoneToRelay 6 0 generation).row

/-- The answers of the calls of `regranted`. -/
def regrantedAnswers (generation : Int) : List StoreAnswer :=
  [⟨5, true, .permit (regrantedPermit generation)⟩, ⟨4, true, .ok⟩, ⟨3, true, .ok⟩,
    ⟨2, true, .ok⟩, ⟨1, true, .ok⟩, ⟨0, true, .ok⟩]

theorem reachable_of_run {M : StateMachine Store (SessionAction Nat)} (answers : List StoreAnswer)
    (hinit : M.Init emptyStore)
    (hrun : (M.run emptyStore regrantedRun).any (fun w => w.answers == answers) = true) :
    ∃ w, M.run emptyStore regrantedRun = some w ∧ M.Reachable w ∧ w.answers = answers := by
  obtain ⟨w, hw, hanswers⟩ := (any_eq_true _ _).mp hrun
  exact ⟨w, hw, ⟨emptyStore, regrantedRun, hinit, hw⟩, beq_iff_eq.mp hanswers⟩

/-- After a delegation was revoked, and reaped a day later, there is a permit for an older
generation, although no id was drawn again. -/
theorem not_older_generation_never : ∃ w x between older p,
    (regranted 1).Fresh ∧ (gateway id (regranted 1)).Reachable w ∧
      PermitAfter w.answers x between older p ∧
      (regranted 1).operation x.request = .revokeDelegation 1 9 2 ∧ p.key = (1, 9) ∧
      p.authority.generation < 2 := by
  obtain ⟨w, -, hreach, hanswers⟩ := reachable_of_run (M := gateway id (regranted 1))
    (regrantedAnswers 1) ⟨rfl, rfl, rfl⟩ (by decide +kernel)
  exact ⟨w, ⟨2, true, .ok⟩, [⟨4, true, .ok⟩, ⟨3, true, .ok⟩], [⟨1, true, .ok⟩, ⟨0, true, .ok⟩],
    regrantedPermit 1, fresh_regranted 1, hreach, ⟨⟨[], _, hanswers, rfl⟩, rfl⟩, rfl, rfl, by decide⟩

/-- With generation 3 there is a permit too, and it is the only one for the delegation since. -/
theorem permits_current_regranted : ∃ w, w.answers = regrantedAnswers 3 ∧
    ((∀ a w', (gateway id (regranted 3)).step w a = some w' → AdmitsCurrent (regranted 3) w w') ∧
      Superseded (regranted 3) w.answers ∧ Increasing (regranted 3) w.answers) ∧
    NeverOlder (regranted 3) w.answers := by
  obtain ⟨w, hrun, hreach, hanswers⟩ := reachable_of_run (M := forwardGateway id (regranted 3))
    (regrantedAnswers 3) ⟨rfl, rfl, rfl⟩ (by decide +kernel)
  obtain ⟨hadmits, hsuperseded, hincreasing, hforward⟩ := permits_current (fresh_regranted 3)
    ⟨emptyStore, regrantedRun, ⟨rfl, rfl, rfl⟩, StateMachine.run_of_guard hrun⟩
  exact ⟨w, hanswers, ⟨hadmits, hsuperseded, hincreasing⟩, hforward hreach⟩

end Buzz.PushGateway
