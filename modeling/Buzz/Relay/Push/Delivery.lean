import Buzz.Relay.Push.Runtime

/-!
# Why a wake is failed

A wake is meant to be failed for a permanent reason only. The deadline of a claim is not one: a claim
is taken for thirty seconds on up to sixteen wakes, which are delivered one after another, and when
a revalidation finds that its claim has run out it answers like for a wake that must not be sent.
Neither is a gateway call that breaks off.

Under the condition that no revalidation comes too late for a wake that could still be sent, and no
call for such a wake breaks off, a wake is failed for a permanent reason in every run.
-/

namespace Buzz.Push

open List Option Function

/-! ### Reasons -/

/-- The wake must not be sent, as things stand: its lease was replaced, revoked, disabled or has
expired, its event was deleted, its deadline has passed, or its author is not a member. -/
def DeliveryWorld.permanent (w : DeliveryWorld) (r : WakeRow) : Bool :=
  ((w.tables.lease r.address).any fun l =>
    l.generation != r.leaseGeneration || !l.eligible w.now) ||
  (w.tables.eventOf r).isNone ||
  decide (r.expiresAt ≤ epoch w.now) ||
  w.tables.events.any fun e => e.community == r.community && e.id == r.eventId &&
    e.channelId.any fun channel => !w.tables.isMember r.community channel r.author

def isSuccess (status : Nat) : Bool := decide (200 ≤ status ∧ status < 300)

/-- The gateway's answer is neither an acceptance nor a request to try again. An answer whose body
cannot be read is known by its status, and a success is no refusal. -/
def GatewayResult.refused : GatewayResult → Bool
  | .answer status body =>
    !(isSuccess status && body == some .accepted) && status != 503 && status != 429
  | .cutOff status => !isSuccess status && status != 503 && status != 429
  | _ => false

/-- The call broke off before it was known what the gateway answers. -/
def GatewayResult.brokenOff : GatewayResult → Bool
  | .cutOff status => isSuccess status
  | .broken => true
  | _ => false

/-- The step is a refusal of the wake, as it was claimed, by the gateway. -/
def DeliveryAction.refuses (r : WakeRow) : DeliveryAction → Bool
  | .worker _ (.gateway wake result _) =>
    wake.key == r.key && r.claimId == some wake.claimId && result.refused
  | _ => false

/-- A step of the delivery, with the world after it. -/
abbrev DeliveryMoment := Moment DeliveryWorld DeliveryAction

def claimsWake (k : CommunityId × Uuid) (c : Uuid) (m : DeliveryMoment) : Bool :=
  match m.action with
  | .worker _ (.claim _ claimId _ _) =>
    claimId == c && (m.after.tables.wake k).any fun r => r.claimId == some c
  | _ => false

/-- A reason to fail the wake, as it was claimed. -/
def isGround (r : WakeRow) (m : DeliveryMoment) : Bool :=
  m.after.permanent r || m.action.refuses r

/-- There is a reason to fail the wake: its attempts are used up, or there has been one since it got
its claim. -/
def Caused (past : List DeliveryMoment) (r : WakeRow) : Prop :=
  maxAttempts ≤ r.attempts ∨
    Since (fun m => ∃ c, r.claimId = some c ∧ claimsWake r.key c m = true)
      (fun m => isGround r m = true) past

/-- What is to hold of a world with its past. -/
structure DeliverySafe (w : DeliveryWorld) (past : List DeliveryMoment) : Prop where
  failed : ∀ a w' k r r', delivery.step w a = some w' → w.tables.wake k = some r →
    w'.tables.wake k = some r' → r.state ≠ .failed → r'.state = .failed →
    Caused (⟨a, w'⟩ :: past) r
  unique : ∀ k c d x y, revalidateWakeForSend w.tables w.now k c = some x →
    revalidateWakeForSend w.tables w.now k d = some y → c = d
  /-- The statements of a claim that another one has replaced do not change a wake. -/
  fenced : ∀ i x todo w' d, (w.workers i).phase = .finish x todo → d ≠ x.claimId →
    Since (fun m => claimsWake x.key x.claimId m = true) (fun m => claimsWake x.key d m = true)
      past →
    delivery.step w (.worker i .update) = some w' → ∀ k, w'.tables.wake k = w.tables.wake k

/-! ### The condition -/

/-- The row that a worker's claim is on. -/
def DeliveryWorld.claimedRow (w : DeliveryWorld) (x : ClaimedWake) : Option WakeRow :=
  (w.tables.wake x.key).filter fun r => r.claimId == some x.claimId && r.state == .sending

def DeliveryWorld.healthy (w : DeliveryWorld) (x : ClaimedWake) : Bool :=
  (w.claimedRow x).any fun r => decide (r.attempts < maxAttempts) && !w.permanent r

/-- The deadline of the worker's claim has passed. -/
def DeliveryWorld.tooLate (w : DeliveryWorld) (x : ClaimedWake) : Bool :=
  (w.claimedRow x).any fun r => !r.held w.now

/-- No revalidation comes too late for a wake that could still be sent, and no gateway call for such a
wake breaks off, be it after the head of a success. -/
def prompt (w : DeliveryWorld) : DeliveryAction → Bool
  | .worker i .query =>
    match (w.workers i).phase with
    | .revalidate x => !(w.healthy x && w.tooLate x)
    | .revalidateAgain x => !(w.healthy x && w.tooLate x)
    | _ => true
  | .worker _ (.gateway x result _) => !(w.healthy x && result.brokenOff)
  | _ => true

/-- The delivery, as long as it is prompt. -/
def promptDelivery : StateMachine DeliveryWorld DeliveryAction :=
  delivery.guard fun w a => prompt w a = true

/-! ### What a step does to the tables -/

/-- The claims that a statement may fail. -/
def Statement.failing (x : ClaimedWake) : Statement → List ((CommunityId × Uuid) × Uuid)
  | .fail => [(x.key, x.claimId)]
  | _ => []

/-- The tables after a step: rows under old claims are as they were, leases get on, and events
stay. -/
structure Extends (new : List Uuid) (failing : List ((CommunityId × Uuid) × Uuid))
    (t t' : WakeTables) : Prop where
  row : ∀ k s c, t'.wake k = some s → s.claimId = some c → t.wake k = some s ∨ c ∈ new
  lease : ∀ a l, t.lease a = some l → ∃ l', t'.lease a = some l' ∧
    l.generation ≤ l'.generation ∧
      (l'.generation = l.generation → l'.endpointHash = l.endpointHash)
  event : ∀ e ∈ t.events, ∃ e' ∈ t'.events, e'.community = e.community ∧ e'.id = e.id ∧
    e'.channelId = e.channelId
  keys : (t.outbox.map WakeRow.key).Nodup → (t'.outbox.map WakeRow.key).Nodup
  failed : ∀ k r s, t.wake k = some r → t'.wake k = some s → s.state = .failed →
    r.state = .failed ∨ ∃ c, r.claimId = some c ∧ (k, c) ∈ failing

namespace Extends

variable {t : WakeTables}

theorem refl (t : WakeTables) : Extends [] [] t t where
  row _ _ _ hs _ := .inl hs
  lease _ l hl := ⟨l, hl, le_refl _, fun _ => rfl⟩
  event e he := ⟨e, he, rfl, rfl, rfl⟩
  keys h := h
  failed k r s hr hs hfailed := by
    exact .inl (by rw [some.inj (hr.symm.trans hs), hfailed])

theorem of_outbox_eq {t' : WakeTables} (houtbox : t'.outbox = t.outbox)
    (hlease : ∀ a l, t.lease a = some l → ∃ l', t'.lease a = some l' ∧
      l.generation ≤ l'.generation ∧
        (l'.generation = l.generation → l'.endpointHash = l.endpointHash))
    (hevent : ∀ e ∈ t.events, ∃ e' ∈ t'.events, e'.community = e.community ∧ e'.id = e.id ∧
      e'.channelId = e.channelId) : Extends [] [] t t' := by
  have hwake : ∀ k, t'.wake k = t.wake k := fun k => by
    rw [WakeTables.wake, houtbox, ← WakeTables.wake]
  refine ⟨fun k s c hs _ => .inl ((hwake k).symm.trans hs), hlease, hevent, fun h => ?_,
    fun k r s hr hs hfailed => ?_⟩
  · rwa [houtbox]
  · rw [hwake, hr] at hs
    exact .inl (by rw [some.inj hs, hfailed])

variable {failing : List ((CommunityId × Uuid) × Uuid)}

theorem of_outbox {outbox : List WakeRow} {new : List Uuid}
    (hrow : ∀ k s c, lookupKey WakeRow.key outbox k = some s → s.claimId = some c →
      t.wake k = some s ∨ c ∈ new)
    (hkeys : (t.outbox.map WakeRow.key).Nodup → (outbox.map WakeRow.key).Nodup)
    (hfailed : ∀ k r s, t.wake k = some r → lookupKey WakeRow.key outbox k = some s →
      s.state = .failed → r.state = .failed ∨ ∃ c, r.claimId = some c ∧ (k, c) ∈ failing) :
    Extends new failing t { t with outbox := outbox } where
  row := hrow
  lease _ l hl := ⟨l, hl, le_refl _, fun _ => rfl⟩
  event e he := ⟨e, he, rfl, rfl, rfl⟩
  keys := hkeys
  failed := hfailed

variable {k : CommunityId × Uuid} {c : Uuid} {f : WakeRow → WakeRow}

theorem map_key_finish (hf : ∀ r, (f r).key = r.key) :
    (t.finish k c f).outbox.map WakeRow.key = t.outbox.map WakeRow.key := by
  show (t.outbox.map _).map _ = _
  rw [List.map_map]
  refine map_congr_left fun r _ => ?_
  rw [comp_apply]
  split
  · exact hf r
  · rfl

theorem finish (hf : ∀ r, (f r).key = r.key) (hclaim : ∀ r, (f r).claimId = none)
    (hfailing : (∀ r, (f r).state ≠ .failed) ∨ (k, c) ∈ failing) :
    Extends [] failing t (t.finish k c f) := by
  refine of_outbox (fun j s d hs hd => ?_) (fun h => ?_) fun j r s hr hs hfailed => ?_
  · obtain hs | ⟨r, -, rfl, -⟩ := wake_finish_cases hf hs
    · exact .inl hs
    · rw [hclaim] at hd
      nomatch hd
  · exact (map_key_finish hf).symm ▸ h
  · obtain hs | ⟨q, hq, rfl, rfl, hc, -⟩ := wake_finish_cases hf hs
    · exact .inl (by rw [some.inj (hr.symm.trans hs), hfailed])
    · obtain hstate | hmem := hfailing
      · exact absurd hfailed (hstate q)
      · exact .inr ⟨c, by rw [some.inj (hr.symm.trans hq), hc], hmem⟩

theorem disableEndpoint (a : Address) (generation : Int) :
    Extends [] [] t (disableEndpointGeneration a generation t) := by
  refine of_outbox_eq rfl (fun b l hl => ?_) fun e he => ⟨e, he, rfl, rfl, rfl⟩
  have hmap : (disableEndpointGeneration a generation t).lease b =
      (t.lease b).map fun l => if l.address == a && l.generation == generation && l.active &&
        l.endpointEnabled then { l with endpointEnabled := false } else l := by
    refine lookupKey_map (fun l => ?_) _ _
    split
    · rfl
    · rfl
  rw [hmap, hl]
  refine ⟨_, rfl, ?_⟩
  dsimp only
  split
  · exact ⟨le_refl _, fun _ => rfl⟩
  · exact ⟨le_refl _, fun _ => rfl⟩

theorem claim {community : CommunityId} {limit : Nat} {leaseUntil now : Int} {skipped : List Uuid} :
    Extends [c] [] t (claimDueWakes community limit c leaseUntil now skipped t).1 := by
  refine of_outbox (fun k s d hs hd => ?_) (fun h => ?_) fun k r s hr hs hfailed => ?_
  · obtain hs | ⟨r, -, rfl⟩ := wake_claim hs
    · exact .inl hs
    · exact .inr (mem_singleton.mpr (some.inj hd).symm)
  · rw [List.map_map]
    have hkey : ∀ r ∈ t.outbox, (WakeRow.key ∘ fun r =>
        if (t.candidates community limit now skipped).any fun s => s.key == r.key then
          r.claim c leaseUntil
        else r) r = r.key := by
      intro r _
      rw [comp_apply]
      split
      · rfl
      · rfl
    rwa [map_congr_left hkey]
  · obtain hs | ⟨q, -, rfl⟩ := wake_claim hs
    · exact .inl (by rw [some.inj (hr.symm.trans hs), hfailed])
    · nomatch hfailed

theorem replaceLease {row : LeaseRow}
    (h : (t.lease row.address).all fun l => decide (l.generation < row.generation)) :
    Extends [] [] t { t with leases := row :: t.leases.filter fun l => l.address != row.address } := by
  refine of_outbox_eq rfl (fun a l hl => ?_) fun e he => ⟨e, he, rfl, rfl, rfl⟩
  by_cases ha : row.address = a
  · subst ha
    rw [hl] at h
    have hlt : l.generation < row.generation := of_decide_eq_true h
    refine ⟨row, ?_, le_of_lt hlt, fun heq => absurd heq.symm (ne_of_lt hlt)⟩
    rw [WakeTables.lease, lookupKey_cons, if_pos rfl]
  · refine ⟨l, ?_, le_refl _, fun _ => rfl⟩
    rwa [WakeTables.lease, lookupKey_cons, if_neg ha, lookupKey_filter_of_ne ha]

theorem enqueue {row : WakeRow} (hfresh : row.fresh = true)
    (hnew : ∀ r ∈ t.outbox, r.key ≠ row.key) :
      Extends [] [] t { t with outbox := row :: t.outbox } := by
  simp only [WakeRow.fresh, Bool.and_eq_true, beq_iff_eq, isNone_iff_eq_none] at hfresh
  obtain ⟨⟨⟨hstate, -⟩, -⟩, hclaim⟩ := hfresh
  have hcases : ∀ k s, lookupKey WakeRow.key (row :: t.outbox) k = some s →
      s = row ∧ row.key = k ∨ t.wake k = some s := by
    intro k s hs
    rw [lookupKey_cons] at hs
    split at hs
    · next hk => exact .inl ⟨(some.inj hs).symm, hk⟩
    · exact .inr hs
  refine of_outbox (fun k s c hs hc => ?_) (fun h => ?_) fun k r s hr hs hfailed => ?_
  · obtain ⟨rfl, -⟩ | hs := hcases k s hs
    · rw [hclaim] at hc
      cases hc
    · exact .inl hs
  · rw [map_cons, nodup_cons]
    refine ⟨fun hmem => ?_, h⟩
    obtain ⟨r, hr, hkey⟩ := mem_map.mp hmem
    exact hnew r hr hkey
  · obtain ⟨-, hk⟩ | hs := hcases k s hs
    · obtain ⟨hmem, hkey⟩ := mem_of_lookupKey hr
      exact absurd (hkey.trans hk.symm) (hnew r hmem)
    · exact .inl (by rw [some.inj (hr.symm.trans hs), hfailed])

theorem prune (hkeys : (t.outbox.map WakeRow.key).Nodup) (p : WakeRow → Bool) :
    Extends [] [] t { t with outbox := t.outbox.filter p } := by
  have hrow : ∀ k s, lookupKey WakeRow.key (t.outbox.filter p) k = some s →
      t.wake k = some s := by
    intro k s hs
    obtain ⟨hmem, hkey⟩ := mem_of_lookupKey hs
    exact (lookupKey_eq_some_iff hkeys).mpr ⟨mem_of_mem_filter hmem, hkey⟩
  refine of_outbox (fun k s c hs _ => .inl (hrow k s hs)) (fun h => ?_)
    fun k r s hr hs hfailed => ?_
  · exact (filter_sublist.map WakeRow.key).nodup h
  · exact .inl (by rw [some.inj (hr.symm.trans (hrow k s hs)), hfailed])

theorem statement (x : ClaimedWake) (s : Statement) : Extends [] (s.failing x) t (s.apply x t) := by
  cases s with
  | complete | retry nextAttemptAt =>
      exact finish (fun _ => rfl) (fun _ => rfl) (.inl fun _ h => WakeState.noConfusion h)
  | fail => exact finish (fun _ => rfl) (fun _ => rfl) (.inr mem_cons_self)
  | disableEndpoint generation => exact disableEndpoint _ generation

end Extends

/-- What a step does, apart from the workers. -/
structure StepEffect (w : DeliveryWorld) (a : DeliveryAction) (w' : DeliveryWorld)
    (new : List Uuid) (failing : List ((CommunityId × Uuid) × Uuid)) : Prop where
  drawn : w'.drawn = new ++ w.drawn
  fresh : ∀ c ∈ new, c ∉ w.drawn
  claims : ∀ k c, claimsWake k c ⟨a, w'⟩ = true → c ∈ new
  tables : Extends new failing w.tables w'.tables
  failing : ∀ p ∈ failing, ∃ i x todo, (w.workers i).phase = .finish x (.fail :: todo) ∧
    p = (x.key, x.claimId)

namespace StepEffect

variable {w : DeliveryWorld}

theorem of_worker {w' : DeliveryWorld} (i : Nat) {a : WorkerAction}
    (ha : ∀ k c, claimsWake k c ⟨.worker i a, w'⟩ = false) (htables : w'.tables = w.tables)
    (hdrawn : w'.drawn = w.drawn) : StepEffect w (.worker i a) w' [] [] where
  drawn := hdrawn
  fresh c hc := nomatch hc
  claims k c hc := nomatch ((ha k c).symm.trans hc)
  tables := by
    rw [htables]
    exact Extends.refl _
  failing p hp := nomatch hp

theorem of_environment {now : Int} {e : Environment} {tables : WakeTables}
    (hkeys : (w.tables.outbox.map WakeRow.key).Nodup)
    (htables : e.apply w.now w.tables = some tables) :
    StepEffect w (.environment e) { w with now := now, tables := tables } [] [] := by
  have hext : Extends [] [] w.tables tables := by
    cases e with
    | tick later =>
      cases htables
      exact Extends.refl _
    | replaceLease row =>
      obtain ⟨hcond, heq⟩ := ite_none_right_eq_some.mp htables
      cases heq
      exact Extends.replaceLease hcond.2
    | insertEvent row =>
      cases htables
      refine Extends.of_outbox_eq rfl (fun _ l hl => ⟨l, hl, le_refl _, fun _ => rfl⟩) ?_
      exact fun e he => ⟨e, mem_cons_of_mem _ he, rfl, rfl, rfl⟩
    | deleteEvent community id =>
      cases htables
      refine Extends.of_outbox_eq rfl (fun _ l hl => ⟨l, hl, le_refl _, fun _ => rfl⟩) ?_
      intro e he
      refine ⟨_, mem_map_of_mem he, ?_⟩
      split
      · exact ⟨rfl, rfl, rfl⟩
      · exact ⟨rfl, rfl, rfl⟩
    | members rows =>
      cases htables
      exact Extends.of_outbox_eq rfl (fun _ l hl => ⟨l, hl, le_refl _, fun _ => rfl⟩)
        fun e he => ⟨e, he, rfl, rfl, rfl⟩
    | enqueue row =>
      obtain ⟨⟨hfresh, hnew⟩, heq⟩ := ite_none_right_eq_some.mp htables
      cases heq
      refine Extends.enqueue hfresh fun r hr => ?_
      have h := all_eq_true.mp hnew r hr
      rw [Bool.and_eq_true] at h
      exact bne_iff_ne.mp h.1
    | prune community before queued =>
      cases htables
      exact Extends.prune hkeys _
  exact ⟨rfl, nofun, fun k c hc => (Bool.false_ne_true hc).elim, hext,
    nofun⟩

end StepEffect

variable {w : DeliveryWorld}

theorem step_effect {w' : DeliveryWorld} {a : DeliveryAction}
    (hkeys : (w.tables.outbox.map WakeRow.key).Nodup) (h : delivery.step w a = some w') :
    ∃ new failing, StepEffect w a w' new failing := by
  cases a with
  | environment e =>
    obtain ⟨now, -, h⟩ := bind_eq_some_iff.mp h
    obtain ⟨tables, htables, rfl⟩ := map_eq_some_iff.mp h
    exact ⟨[], [], StepEffect.of_environment hkeys htables⟩
  | worker i a =>
    replace h : w.workerStep i a = some w' := h
    cases a with
    | claim community claimId utcNow skipped =>
      obtain ⟨⟨-, -, hnew⟩, h⟩ := ite_none_right_eq_some.mp h
      cases h
      have hnew : claimId ∉ w.drawn := by simpa using hnew
      refine ⟨[claimId], [], rfl, fun c hc => ?_, fun k c hc => ?_, Extends.claim,
        nofun⟩
      · rwa [mem_singleton.mp hc]
      · rw [claimsWake, Bool.and_eq_true, beq_iff_eq] at hc
        exact mem_singleton.mpr hc.1.symm
    | begin wake =>
      obtain ⟨-, h⟩ := ite_none_right_eq_some.mp h
      cases h
      exact ⟨[], [], .of_worker i (fun _ _ => rfl) rfl rfl⟩
    | query =>
      obtain ⟨phase, -, rfl⟩ := map_eq_some_iff.mp h
      exact ⟨[], [], .of_worker i (fun _ _ => rfl) rfl rfl⟩
    | queryFails utcNow =>
      rw [DeliveryWorld.workerStep] at h
      split at h
      · cases h
        exact ⟨[], [], .of_worker i (fun _ _ => rfl) rfl rfl⟩
      · split at h
        · cases h
          exact ⟨[], [], .of_worker i (fun _ _ => rfl) rfl rfl⟩
        · cases h
          exact ⟨[], [], .of_worker i (fun _ _ => rfl) rfl rfl⟩
      · cases h
        exact ⟨[], [], .of_worker i (fun _ _ => rfl) rfl rfl⟩
      · nomatch h
    | gateway wake result utcNow =>
      obtain ⟨-, h⟩ := ite_none_right_eq_some.mp h
      split at h
      · cases h
        exact ⟨[], [], .of_worker i (fun _ _ => rfl) rfl rfl⟩
      · cases h
        exact ⟨[], [], .of_worker i (fun _ _ => rfl) rfl rfl⟩
    | update =>
      rw [DeliveryWorld.workerStep] at h
      split at h
      · next wake s todo hphase =>
        cases h
        refine ⟨[], s.failing wake, rfl, nofun,
          fun k c hc => (Bool.false_ne_true hc).elim, Extends.statement wake s, fun p hp => ?_⟩
        cases s with
        | fail => exact ⟨i, wake, todo, hphase, mem_singleton.mp hp⟩
        | complete | retry nextAttemptAt | disableEndpoint generation =>
            nomatch hp
      · nomatch h
    | updateFails =>
      rw [DeliveryWorld.workerStep] at h
      split at h
      · cases h
        exact ⟨[], [], .of_worker i (fun _ _ => rfl) rfl rfl⟩
      · nomatch h
    | stop =>
      cases h
      exact ⟨[], [], .of_worker i (fun _ _ => rfl) rfl rfl⟩

/-! ### The invariant -/

/-- What is known of a wake while its claim is held. -/
structure Held (w : DeliveryWorld) (past : List DeliveryMoment) (x : ClaimedWake) (r : WakeRow) :
    Prop where
  of : ∃ l e, x = .of x.claimId r l e
  claimId : r.claimId = some x.claimId
  state : r.state = .sending
  claimed : ∃ m ∈ past, claimsWake r.key x.claimId m = true
  /-- While the claim is on the row, the row is as the claim left it. -/
  row : ∀ s, w.tables.wake x.key = some s → s.claimId = some x.claimId → s = r
  lease : ∃ l, w.tables.lease r.address = some l ∧ r.leaseGeneration ≤ l.generation ∧
    (l.generation = r.leaseGeneration → l.endpointHash = some r.endpointHash)
  event : ∃ e ∈ w.tables.events, e.community = r.community ∧ e.id = r.eventId ∧
    e.channelId = x.channelId

def Lost (w : DeliveryWorld) (x : ClaimedWake) : Prop :=
  ∀ s, w.tables.wake x.key = some s → s.claimId ≠ some x.claimId

/-- What holds of a delivery that is under way. -/
def PhaseSound (w : DeliveryWorld) (past : List DeliveryMoment) : Phase → Prop
  | .idle => True
  | .revalidate x => ∃ r, Held w past x r
  | .membership x channel => x.channelId = some channel ∧ ∃ r, Held w past x r
  | .revalidateAgain x => ∃ r, Held w past x r
  | .send x => ∃ r, Held w past x r
  | .finish x todo => ∃ r, Held w past x r ∧ (.fail ∈ todo → Lost w x ∨ Caused past r)

/-- What holds of a worker. -/
structure WorkerSound (w : DeliveryWorld) (past : List DeliveryMoment) (u : Worker) : Prop where
  batch : ∀ x ∈ u.batch, ∃ r, Held w past x r
  phase : PhaseSound w past u.phase

/-- The invariant of the workers. -/
structure DeliveryInv (w : DeliveryWorld) (past : List DeliveryMoment) : Prop where
  keys : (w.tables.outbox.map WakeRow.key).Nodup
  drawn : ∀ k r c, w.tables.wake k = some r → r.claimId = some c → c ∈ w.drawn
  claims : ∀ m ∈ past, ∀ k c, claimsWake k c m = true → c ∈ w.drawn
  replaced : ∀ k r c d, c ≠ d →
    Since (fun m => claimsWake k c m = true) (fun m => claimsWake k d m = true) past →
    w.tables.wake k = some r → r.claimId ≠ some c
  workers : ∀ i, WorkerSound w past (w.workers i)

section Step

variable {w w' : DeliveryWorld} {past : List DeliveryMoment} {a : DeliveryAction}
  {new : List Uuid} {failing : List ((CommunityId × Uuid) × Uuid)} {x y : ClaimedWake}
  {r : WakeRow}

variable {m : DeliveryMoment}

theorem Caused.cons (h : Caused past r) : Caused (m :: past) r :=
  h.imp_right Since.cons

theorem WorkerSound.stopped : WorkerSound w past .stopped :=
  ⟨nofun, trivial⟩

namespace Held

theorem key (h : Held w past x r) : x.key = r.key := by
  obtain ⟨l, e, hx⟩ := h.of
  rw [hx]
  rfl

theorem attempt (h : Held w past x r) : x.attempt = r.attempts := by
  obtain ⟨l, e, hx⟩ := h.of
  rw [hx]
  rfl

variable {m : DeliveryMoment}

theorem caused (h : Held w past x r) (hm : isGround r m = true) : Caused (m :: past) r := by
  obtain ⟨c, hc, hclaims⟩ := h.claimed
  exact .inr (Since.now ⟨c, mem_cons_of_mem m hc, x.claimId, h.claimId, hclaims⟩ hm)

theorem claimedRow (h : Held w past x r) (hlost : ¬Lost w x) : w.claimedRow x = some r := by
  obtain ⟨s, hs⟩ := Classical.not_forall.mp hlost
  obtain ⟨hrow, hclaim⟩ := Classical.not_imp.mp hs
  have hclaim : s.claimId = some x.claimId := Classical.not_not.mp hclaim
  obtain rfl := h.row s hrow hclaim
  rw [DeliveryWorld.claimedRow, hrow, filter_some, if_pos]
  rw [Bool.and_eq_true, beq_iff_eq, beq_iff_eq]
  exact ⟨hclaim, h.state⟩

theorem caused_of_not_healthy (h : Held w past x r) (hlost : ¬Lost w x)
    (hhealthy : w.healthy x = false) (hm : w.permanent r = true → m.after.permanent r = true) :
    Caused (m :: past) r := by
  rw [DeliveryWorld.healthy, h.claimedRow hlost] at hhealthy
  replace hhealthy : (decide (r.attempts < maxAttempts) && !w.permanent r) = false := hhealthy
  by_cases hattempts : r.attempts < maxAttempts
  · rw [decide_eq_true hattempts, Bool.true_and, Bool.not_eq_false'] at hhealthy
    refine h.caused ?_
    rw [isGround, hm hhealthy, Bool.true_or]
  · exact .inl (Nat.le_of_not_lt hattempts)

theorem step (h : Held w past x r) (hdrawn : x.claimId ∈ w.drawn)
    (heff : StepEffect w a w' new failing) : Held w' (m :: past) x r where
  of := h.of
  claimId := h.claimId
  state := h.state
  claimed := by
    obtain ⟨c, hc, hclaims⟩ := h.claimed
    exact ⟨c, mem_cons_of_mem m hc, hclaims⟩
  row s hs hclaim := by
    obtain hs | hnew := heff.tables.row _ s _ hs hclaim
    · exact h.row s hs hclaim
    · exact absurd hdrawn (heff.fresh _ hnew)
  lease := by
    obtain ⟨l, hl, hle, hhash⟩ := h.lease
    obtain ⟨l', hl', hle', hhash'⟩ := heff.tables.lease _ l hl
    refine ⟨l', hl', hle.trans hle', fun heq => ?_⟩
    have hgeneration : l.generation = r.leaseGeneration :=
      le_antisymm (hle'.trans (le_of_eq heq)) hle
    rw [hhash' (heq.trans hgeneration.symm), hhash hgeneration]
  event := by
    obtain ⟨e, he, hcommunity, hid, hchannel⟩ := h.event
    obtain ⟨e', he', hcommunity', hid', hchannel'⟩ := heff.tables.event e he
    exact ⟨e', he', hcommunity'.trans hcommunity, hid'.trans hid, hchannel'.trans hchannel⟩

theorem permanent_of_deliverable_eq_none (h : Held w past x r)
    (hnone : w.tables.deliverable w.now r = none) : w.permanent r = true := by
  obtain ⟨l, hl, -, hhash⟩ := h.lease
  by_contra hpermanent
  simp only [DeliveryWorld.permanent, Bool.or_eq_true, not_or, Bool.not_eq_true,
    decide_eq_false_iff_not, not_le] at hpermanent
  obtain ⟨⟨⟨hlease, hevent⟩, hexpires⟩, -⟩ := hpermanent
  rw [hl] at hlease
  replace hlease : (l.generation != r.leaseGeneration || !l.eligible w.now) = false := hlease
  rw [Bool.or_eq_false_iff, bne_eq_false_iff_eq, Bool.not_eq_false'] at hlease
  obtain ⟨e, he⟩ := isSome_iff_exists.mp (isNone_eq_false_iff.mp hevent)
  have hleaseOf : w.tables.leaseOf w.now r = some l := by
    simp [WakeTables.leaseOf, hl, hlease.1, hhash hlease.1, hlease.2]
  rw [WakeTables.deliverable, if_pos hexpires, hleaseOf, he] at hnone
  exact some_ne_none _ hnone

theorem revalidated (h : Held w past x r)
    (hy : revalidateWakeForSend w.tables w.now x.key x.claimId = some y) : Held w past y r := by
  obtain ⟨s, hs, hif⟩ := bind_eq_some_iff.mp hy
  obtain ⟨hcond, hjoin⟩ := ite_none_right_eq_some.mp hif
  simp only [Bool.and_eq_true, beq_iff_eq] at hcond
  obtain rfl := h.row s hs hcond.1.1
  obtain ⟨⟨l, e⟩, hdeliverable, rfl⟩ := map_eq_some_iff.mp hjoin
  obtain ⟨-, hdeliverable⟩ := ite_none_right_eq_some.mp hdeliverable
  obtain ⟨l', -, hmap⟩ := bind_eq_some_iff.mp hdeliverable
  obtain ⟨e', he, heq⟩ := map_eq_some_iff.mp hmap
  obtain ⟨-, rfl⟩ := Prod.mk.inj heq
  have hevent := find?_some he
  simp only [Bool.and_eq_true, beq_iff_eq] at hevent
  refine ⟨⟨l, e', rfl⟩, h.claimId, h.state, h.claimed, fun q hq hclaim => ?_, h.lease,
    ⟨e', mem_of_find?_eq_some he, hevent.1.1, hevent.1.2, rfl⟩⟩
  exact h.row q ((congrArg w.tables.wake h.key).trans hq) hclaim

theorem permanent_of_not_member (h : Held w past x r) {channel : Uuid}
    (hchannel : x.channelId = some channel)
    (hmember : w.tables.isMember x.community channel x.author = false) : w.permanent r = true := by
  obtain ⟨e, he, hcommunity, hid, hchannel'⟩ := h.event
  obtain ⟨l, e', hof⟩ := h.of
  have hauthor : x.author = r.author := by rw [hof]; rfl
  have hcomm : x.community = r.community := by rw [hof]; rfl
  rw [hauthor, hcomm] at hmember
  rw [DeliveryWorld.permanent, Bool.or_eq_true]
  refine .inr (any_eq_true.mpr ⟨e, he, ?_⟩)
  rw [hcommunity, hid, hchannel', hchannel, beq_self_eq_true, beq_self_eq_true]
  show (!w.tables.isMember r.community channel r.author) = true
  rw [hmember]
  rfl

theorem sound_revalidated (h : Held w past x r)
    (hprompt : (!(w.healthy x && w.tooLate x)) = true) (b : DeliveryAction) (v : DeliveryWorld)
    (htables : v.tables = w.tables) (hnow : v.now = w.now)
    (hheld : ∀ y, Held w past y r → Held v (⟨b, v⟩ :: past) y r) {next : ClaimedWake → Phase}
    (hnext : ∀ y, Held v (⟨b, v⟩ :: past) y r → PhaseSound v (⟨b, v⟩ :: past) (next y)) :
    PhaseSound v (⟨b, v⟩ :: past) (w.revalidated x next) := by
  have hpermanent : w.permanent r = true → v.permanent r = true := by
    rw [DeliveryWorld.permanent, DeliveryWorld.permanent, htables, hnow]
    exact id
  rw [DeliveryWorld.revalidated]
  cases hre : revalidateWakeForSend w.tables w.now x.key x.claimId with
  | some y => exact hnext y (hheld y (h.revalidated hre))
  | none =>
    refine ⟨r, hheld x h, fun _ => ?_⟩
    by_cases hlost : Lost w x
    · refine .inl fun s hs => hlost s ?_
      rwa [← htables]
    refine .inr ?_
    have hrow := h.claimedRow hlost
    by_cases hlate : r.held w.now = true
    · -- The claim holds, so the wake was not joined.
      refine h.caused ?_
      rw [isGround, hpermanent, Bool.true_or]
      refine h.permanent_of_deliverable_eq_none ?_
      obtain ⟨hwake, hcond⟩ := filter_eq_some_iff.mp hrow
      rw [revalidateWakeForSend, hwake] at hre
      replace hre : (if (r.claimId == some x.claimId && r.state == .sending && r.held w.now) = true
        then _ else none) = none := hre
      rw [hcond, hlate, if_pos (Bool.and_self true)] at hre
      exact map_eq_none_iff.mp hre
    · refine h.caused_of_not_healthy hlost ?_ hpermanent
      have htoo : w.tooLate x = true := by
        rw [DeliveryWorld.tooLate, hrow]
        show (!r.held w.now) = true
        rw [Bool.eq_false_iff.mpr hlate]
        rfl
      rwa [htoo, Bool.and_true, Bool.not_eq_true'] at hprompt

end Held

theorem WorkerSound.step {u : Worker} (h : WorkerSound w past u)
    (hclaims : ∀ m ∈ past, ∀ k c, claimsWake k c m = true → c ∈ w.drawn)
    (heff : StepEffect w a w' new failing) : WorkerSound w' (m :: past) u := by
  have hdrawn : ∀ {x r}, Held w past x r → x.claimId ∈ w.drawn := fun hx => by
    obtain ⟨c, hc, hclaim⟩ := hx.claimed
    exact hclaims c hc _ _ hclaim
  have hheld : ∀ {x}, (∃ r, Held w past x r) → ∃ r, Held w' (m :: past) x r := by
    rintro x ⟨r, hx⟩
    exact ⟨r, hx.step (hdrawn hx) heff⟩
  refine ⟨fun x hx => hheld (h.batch x hx), ?_⟩
  have hphase := h.phase
  cases hu : u.phase with
  | idle => trivial
  | revalidate x | revalidateAgain x | send x => exact hheld (by rwa [hu] at hphase)
  | membership x channel =>
    rw [hu] at hphase
    exact ⟨hphase.1, hheld hphase.2⟩
  | finish x todo =>
    rw [hu] at hphase
    obtain ⟨r, hx, hfail⟩ := hphase
    refine ⟨r, hx.step (hdrawn hx) heff, fun hmem => ?_⟩
    obtain hlost | hcaused := hfail hmem
    · refine .inl fun s hs hclaim => ?_
      obtain hs | hnew := heff.tables.row _ s _ hs hclaim
      · exact hlost s hs hclaim
      · exact heff.fresh _ hnew (hdrawn hx)
    · exact .inr hcaused.cons

theorem PhaseSound.todo {todo : List Statement} (hx : Held w past x r)
    (hfail : .fail ∈ todo → Lost w x ∨ Caused past r) : PhaseSound w past (.todo x todo) := by
  cases todo with
  | nil => trivial
  | cons s todo => exact ⟨r, hx, hfail⟩

theorem attempts_of_retryOrFail {utcNow delay : Int} {todo : List Statement}
    (h : retryOrFail x utcNow delay = some todo) (hfail : .fail ∈ todo) :
    maxAttempts ≤ x.attempt := by
  rw [retryOrFail] at h
  split at h
  · assumption
  · obtain ⟨t, -, rfl⟩ := map_eq_some_iff.mp h
    exact Statement.noConfusion (mem_singleton.mp hfail)

/-- An answer fails the wake at its last attempt, unless it is an acceptance or asks for another. -/
theorem fail_mem_answered {utcNow : Int} {status : Nat} {body : Option DeliveryResponse}
    {todo : List Statement} (h : answered x utcNow status body = some todo)
    (hfail : .fail ∈ todo) :
    maxAttempts ≤ x.attempt ∨
      ¬(isSuccess status = true ∧ body = some .accepted) ∧ status ≠ 503 ∧ status ≠ 429 := by
  change (if 200 ≤ status ∧ status < 300 then _ else _) = some todo at h
  by_cases hok : 200 ≤ status ∧ status < 300
  · rw [if_pos hok] at h
    refine .inr ⟨?_, by omega, by omega⟩
    rintro ⟨-, rfl⟩
    cases h
    exact Statement.noConfusion (mem_singleton.mp hfail)
  rw [if_neg hok] at h
  by_cases h503 : status = 503
  · subst h503
    exact .inl (attempts_of_retryOrFail h hfail)
  by_cases h429 : status = 429
  · subst h429
    exact .inl (attempts_of_retryOrFail h hfail)
  · exact .inr ⟨fun hsuccess => hok (of_decide_eq_true hsuccess.1), h503, h429⟩

theorem fail_mem_disposition {utcNow : Int} {result : GatewayResult} {todo : List Statement}
    (h : disposition x utcNow result = some todo) (hfail : .fail ∈ todo) :
    maxAttempts ≤ x.attempt ∨ result.refused = true ∨ result.brokenOff = true := by
  cases result with
  | unsent =>
    cases h
    nomatch hfail
  | unreachable => exact .inl (attempts_of_retryOrFail h hfail)
  | broken => exact .inr (.inr rfl)
  | answer status body =>
    refine (fail_mem_answered h hfail).imp id fun ⟨haccepted, h503, h429⟩ => .inl ?_
    have hrefused : (isSuccess status && body == some .accepted) = false := by
      rwa [Bool.eq_false_iff, ne_eq, Bool.and_eq_true, beq_iff_eq]
    rw [GatewayResult.refused, hrefused, bne_iff_ne.mpr h503, bne_iff_ne.mpr h429]
    rfl
  | cutOff status =>
    refine (fail_mem_answered h hfail).imp id fun ⟨_, h503, h429⟩ => ?_
    cases hok : isSuccess status with
    | true => exact .inr hok
    | false => exact .inl (by simp [GatewayResult.refused, hok, h503, h429])

variable {i : Nat}

theorem held_of_claimed {community : CommunityId} {claimId : Uuid} {utcNow : Int}
    {skipped : List Uuid} (hkeys : (w.tables.outbox.map WakeRow.key).Nodup)
    (hx : x ∈ (claimDueWakes community claimLimit claimId (utcNow + seconds claimSecs) w.now skipped
      w.tables).2)
    (htables : w'.tables = (claimDueWakes community claimLimit claimId
      (utcNow + seconds claimSecs) w.now skipped w.tables).1) :
    ∃ r, Held w' (⟨.worker i (.claim community claimId utcNow skipped), w'⟩ :: past) x r := by
  obtain ⟨r, l, e, hjoin, rfl, hwake⟩ := claimed_of_mem hkeys hx
  rw [← htables] at hwake
  obtain ⟨-, hjoin⟩ := ite_none_right_eq_some.mp hjoin
  obtain ⟨l', hl, hmap⟩ := bind_eq_some_iff.mp hjoin
  obtain ⟨e', he, heq⟩ := map_eq_some_iff.mp hmap
  obtain ⟨rfl, rfl⟩ := Prod.mk.inj heq
  obtain ⟨hl, hcond⟩ := filter_eq_some_iff.mp hl
  simp only [Bool.and_eq_true, beq_iff_eq] at hcond
  have hevent := find?_some he
  simp only [Bool.and_eq_true, beq_iff_eq] at hevent
  have hlease : w'.tables.lease = w.tables.lease := by
    rw [htables]
    rfl
  refine ⟨_, ⟨l', e', rfl⟩, rfl, rfl, ⟨_, mem_cons_self, ?_⟩, fun s hs _ => ?_,
    ⟨l', by rwa [hlease], le_of_eq hcond.1.1.symm, fun _ => hcond.1.2⟩,
    ⟨e', ?_, hevent.1.1, hevent.1.2, rfl⟩⟩
  · rw [claimsWake, Bool.and_eq_true, beq_iff_eq]
    refine ⟨rfl, ?_⟩
    rw [show w'.tables.wake (WakeRow.claim claimId _ r).key = _ from hwake]
    exact beq_self_eq_true _
  · exact some.inj (hs.symm.trans hwake)
  · rw [htables]
    exact mem_of_find?_eq_some he

theorem DeliveryInv.update (h : DeliveryInv w past) (heff : StepEffect w a w' new failing)
    {u : Worker} (hworkers : w'.workers = update w.workers i u)
    (hu : WorkerSound w' (m :: past) u) (j : Nat) : WorkerSound w' (m :: past) (w'.workers j) := by
  rw [hworkers]
  by_cases hj : j = i
  · subst hj
    rwa [update_self]
  · rw [update_of_ne hj]
    exact (h.workers j).step h.claims heff

theorem DeliveryInv.worker (h : DeliveryInv w past) (heff : StepEffect w a w' new failing) (j : Nat) :
    WorkerSound w' (⟨a, w'⟩ :: past) (w.workers j) :=
  (h.workers j).step h.claims heff

theorem DeliveryInv.held (h : DeliveryInv w past) (heff : StepEffect w a w' new failing)
    (hx : Held w past x r) : Held w' (⟨a, w'⟩ :: past) x r := by
  obtain ⟨c, hc, hclaim⟩ := hx.claimed
  exact hx.step (h.claims c hc _ _ hclaim) heff

theorem DeliveryInv.query (h : DeliveryInv w past) (hprompt : prompt w (.worker i .query) = true)
    (hs : w.workerStep i .query = some w') (heff : StepEffect w (.worker i .query) w' new failing)
    (j : Nat) : WorkerSound w' (⟨.worker i .query, w'⟩ :: past) (w'.workers j) := by
  obtain ⟨phase, hanswer, rfl⟩ := map_eq_some_iff.mp hs
  refine h.update heff rfl ⟨(h.worker heff i).batch, ?_⟩ j
  have hprompt : (match (w.workers i).phase with
    | .revalidate x => !(w.healthy x && w.tooLate x)
    | .revalidateAgain x => !(w.healthy x && w.tooLate x)
    | _ => true) = true := hprompt
  have hphase := (h.workers i).phase
  cases hwake : (w.workers i).phase with
  | revalidate x =>
    rw [hwake] at hphase hanswer hprompt
    obtain ⟨r, hx⟩ := hphase
    cases hanswer
    refine hx.sound_revalidated hprompt (.worker i .query)
      (w.proceed i (w.revalidated x checkMembership)) rfl rfl (fun y => h.held heff) fun y hy => ?_
    rw [checkMembership]
    split
    · next hchannel => exact ⟨hchannel, r, hy⟩
    · exact ⟨r, hy⟩
  | membership x channel =>
    rw [hwake] at hphase hanswer
    obtain ⟨hchannel, r, hx⟩ := hphase
    replace hanswer : some (if _ then _ else _) = some phase := hanswer
    by_cases hmember : w.tables.isMember x.community channel x.author = true
    · rw [if_pos hmember] at hanswer
      cases hanswer
      exact ⟨r, h.held heff hx⟩
    · rw [if_neg hmember] at hanswer
      cases hanswer
      have hpermanent := hx.permanent_of_not_member hchannel (Bool.eq_false_iff.mpr hmember)
      refine ⟨r, h.held heff hx, fun _ => .inr (hx.caused ?_)⟩
      rw [isGround, Bool.or_eq_true]
      exact .inl hpermanent
  | revalidateAgain x =>
    rw [hwake] at hphase hanswer hprompt
    obtain ⟨r, hx⟩ := hphase
    cases hanswer
    exact hx.sound_revalidated hprompt (.worker i .query) (w.proceed i (w.revalidated x .send))
      rfl rfl (fun y => h.held heff) fun y hy => ⟨r, hy⟩
  | idle | send x | finish x todo =>
    rw [hwake] at hanswer
    nomatch hanswer

theorem DeliveryInv.queryFails (h : DeliveryInv w past) {utcNow : Int}
    (hs : w.workerStep i (.queryFails utcNow) = some w')
    (heff : StepEffect w (.worker i (.queryFails utcNow)) w' new failing) (j : Nat) :
    WorkerSound w' (⟨.worker i (.queryFails utcNow), w'⟩ :: past) (w'.workers j) := by
  obtain ⟨hbatch, hphase⟩ := h.worker heff i
  rw [DeliveryWorld.workerStep] at hs
  split at hs
  · cases hs
    exact h.update heff rfl ⟨hbatch, trivial⟩ j
  · next wake channel hwake =>
    split at hs
    · cases hs
      refine h.update heff rfl ⟨hbatch, ?_⟩ j
      rw [hwake] at hphase
      obtain ⟨-, r, hx⟩ := hphase
      exact ⟨r, hx, fun hmem => Statement.noConfusion (mem_singleton.mp hmem)⟩
    · cases hs
      exact h.update heff rfl .stopped j
  · cases hs
    exact h.update heff rfl ⟨hbatch, trivial⟩ j
  · nomatch hs

theorem DeliveryInv.gateway (h : DeliveryInv w past) {wake : ClaimedWake} {result : GatewayResult}
    {utcNow : Int} (hprompt : prompt w (.worker i (.gateway wake result utcNow)) = true)
    (hs : w.workerStep i (.gateway wake result utcNow) = some w')
    (heff : StepEffect w (.worker i (.gateway wake result utcNow)) w' new failing) (j : Nat) :
    WorkerSound w' (⟨.worker i (.gateway wake result utcNow), w'⟩ :: past) (w'.workers j) := by
  obtain ⟨hsend, hs⟩ := ite_none_right_eq_some.mp hs
  have hphase := (h.workers i).phase
  rw [hsend] at hphase
  obtain ⟨r, hx⟩ := hphase
  split at hs
  · next todo htodo =>
    cases hs
    refine h.update heff rfl ⟨(h.worker heff i).batch, ?_⟩ j
    refine PhaseSound.todo (h.held heff hx) fun hfail => ?_
    by_cases hlost : Lost w wake
    · exact .inl hlost
    obtain hattempts | hrefused | hbroken := fail_mem_disposition htodo hfail
    · exact .inr (.inl (hattempts.trans (le_of_eq hx.attempt)))
    · refine .inr (hx.caused ?_)
      rw [isGround, Bool.or_eq_true]
      refine .inr ?_
      rw [DeliveryAction.refuses, hrefused, Bool.and_true, Bool.and_eq_true, beq_iff_eq,
        beq_iff_eq]
      exact ⟨hx.key, hx.claimId⟩
    · refine .inr (hx.caused_of_not_healthy hlost ?_ id)
      rwa [prompt, hbroken, Bool.and_true, Bool.not_eq_true'] at hprompt
  · cases hs
    exact h.update heff rfl .stopped j

theorem DeliveryInv.workerStep (h : DeliveryInv w past) {b : WorkerAction}
    (hprompt : prompt w (.worker i b) = true) (hs : w.workerStep i b = some w')
    (heff : StepEffect w (.worker i b) w' new failing) (j : Nat) :
    WorkerSound w' (⟨.worker i b, w'⟩ :: past) (w'.workers j) := by
  obtain ⟨hbatch, hphase⟩ := h.worker heff i
  cases b with
  | claim community claimId utcNow skipped =>
    obtain ⟨-, hs⟩ := ite_none_right_eq_some.mp hs
    cases hs
    exact h.update heff rfl ⟨fun x hx => held_of_claimed h.keys hx rfl, trivial⟩ j
  | begin wake =>
    obtain ⟨⟨-, hwake⟩, hs⟩ := ite_none_right_eq_some.mp hs
    cases hs
    refine h.update heff rfl ⟨fun x hx => hbatch x (mem_of_mem_erase hx), ?_⟩ j
    exact hbatch wake (contains_iff_mem.mp hwake)
  | query => exact h.query hprompt hs heff j
  | queryFails utcNow => exact h.queryFails hs heff j
  | gateway wake result utcNow => exact h.gateway hprompt hs heff j
  | update | updateFails =>
    rw [DeliveryWorld.workerStep] at hs
    split at hs
    · next wake s todo hwake =>
      cases hs
      refine h.update heff rfl ⟨hbatch, ?_⟩ j
      rw [hwake] at hphase
      obtain ⟨r, hx, hfail⟩ := hphase
      exact PhaseSound.todo hx fun hmem => hfail (mem_cons_of_mem s hmem)
    · nomatch hs
  | stop =>
    cases hs
    exact h.update heff rfl .stopped j

/-- **The step lemma.** A prompt step keeps the invariant. -/
theorem DeliveryInv.step (h : DeliveryInv w past) (hprompt : prompt w a = true)
    (hs : delivery.step w a = some w') : DeliveryInv w' (⟨a, w'⟩ :: past) := by
  obtain ⟨new, failing, heff⟩ := step_effect h.keys hs
  have hold : ∀ {c}, c ∈ w.drawn → c ∈ w'.drawn := fun hc => by
    rw [heff.drawn]
    exact mem_append_right new hc
  have hnew : ∀ {c}, c ∈ new → c ∈ w'.drawn := fun hc => by
    rw [heff.drawn]
    exact mem_append_left w.drawn hc
  refine ⟨heff.tables.keys h.keys, fun k r c hr hc => ?_, fun m hm k c hclaim => ?_,
    fun k r c d hne hsince hr hc => ?_, ?_⟩
  · obtain hr | hmem := heff.tables.row k r c hr hc
    · exact hold (h.drawn k r c hr hc)
    · exact hnew hmem
  · obtain rfl | hm := mem_cons.mp hm
    · exact hnew (heff.claims k c hclaim)
    · exact hold (h.claims m hm k c hclaim)
  · -- A claim in the past is not put on a row again, and a claim now is the one that is on it.
    have hrow : (∃ m ∈ past, claimsWake k c m = true) → w.tables.wake k = some r := by
      rintro ⟨m, hm, hclaim⟩
      obtain hr | hmem := heff.tables.row k r c hr hc
      · exact hr
      · exact absurd (h.claims m hm k c hclaim) (heff.fresh c hmem)
    have hnow : claimsWake k d ⟨a, w'⟩ = true → c = d := by
      intro hclaim
      rw [claimsWake] at hclaim
      split at hclaim
      · rw [Bool.and_eq_true] at hclaim
        rw [show w'.tables.wake k = some r from hr] at hclaim
        have hd : r.claimId = some d := beq_iff_eq.mp hclaim.2
        exact some.inj (hc.symm.trans hd)
      · nomatch hclaim
    obtain hsince | ⟨-, hd⟩ | ⟨-, hd⟩ := since_cons.mp hsince
    · exact h.replaced k r c d hne hsince (hrow hsince.exists_left) hc
    · exact hne (hnow hd)
    · exact hne (hnow hd)
  · cases a with
    | worker i b => exact h.workerStep hprompt hs heff
    | environment e =>
      intro j
      obtain ⟨now, -, hs⟩ := bind_eq_some_iff.mp hs
      obtain ⟨tables, -, rfl⟩ := map_eq_some_iff.mp hs
      exact (h.workers j).step h.claims heff

theorem DeliveryInv.safe (h : DeliveryInv w past) : DeliverySafe w past where
  failed a w' k r r' hs hr hr' hstate hstate' := by
    obtain ⟨new, failing, heff⟩ := step_effect h.keys hs
    obtain hfailed | ⟨c, hc, hmem⟩ := heff.tables.failed k r r' hr hr' hstate'
    · exact absurd hfailed hstate
    obtain ⟨i, x, todo, hphase, heq⟩ := heff.failing _ hmem
    obtain ⟨rfl, rfl⟩ := Prod.mk.inj heq
    have hsound := (h.workers i).phase
    rw [hphase] at hsound
    obtain ⟨q, hx, hfail⟩ := hsound
    obtain rfl := hx.row r hr hc
    obtain hlost | hcaused := hfail mem_cons_self
    · exact absurd hc (hlost r hr)
    · exact hcaused.cons
  unique k c d x y hx hy := by
    obtain ⟨r, hr, hx⟩ := bind_eq_some_iff.mp hx
    obtain ⟨q, hq, hy⟩ := bind_eq_some_iff.mp hy
    obtain rfl := some.inj (hr.symm.trans hq)
    have hc := (ite_none_right_eq_some.mp hx).1
    have hd := (ite_none_right_eq_some.mp hy).1
    simp only [Bool.and_eq_true, beq_iff_eq] at hc hd
    exact some.inj (hc.1.1.symm.trans hd.1.1)
  fenced i x todo w' d hphase hne hsince hs k := by
    replace hs : w.workerStep i .update = some w' := hs
    have hlost : ∀ r, w.tables.wake x.key = some r → r.claimId ≠ some x.claimId :=
      fun r hr => h.replaced x.key r x.claimId d (Ne.symm hne) hsince hr
    rw [DeliveryWorld.workerStep, hphase] at hs
    cases todo with
    | nil => nomatch hs
    | cons s todo =>
      cases hs
      cases s with
      | complete | retry nextAttemptAt | fail => exact wake_finish_of_ne (fun _ => rfl) hlost
      | disableEndpoint generation => rfl

end Step

theorem DeliveryInv.init (h : w.Initial) : DeliveryInv w [] where
  keys := h.keys
  drawn := h.drawn
  claims m hm := nomatch hm
  replaced k r c d _ hsince := by
    obtain ⟨m, hm, -⟩ := hsince.exists_left
    nomatch hm
  workers i := by
    rw [h.stopped i]
    exact .stopped

/-- **Wakes are failed for a reason.** As long as the delivery is prompt, a wake is failed only when
there has been a permanent reason since it was claimed; at most one claim passes its revalidation;
and a claim that was replaced changes nothing any more. -/
theorem wake_failed_for_cause {w : DeliveryWorld} {past : List DeliveryMoment}
    (h : promptDelivery.recorded.Reachable (w, past)) : DeliverySafe w past := by
  suffices hinv : DeliveryInv (w, past).1 (w, past).2 from hinv.safe
  refine h.invariant (I := fun p => DeliveryInv p.1 p.2) ?_ ?_
  · rintro ⟨v, history⟩ ⟨hinit, hnil⟩
    obtain rfl : history = [] := hnil
    exact DeliveryInv.init hinit
  · rintro ⟨v, history⟩ a p' - hinv hs
    obtain ⟨v', hstep, rfl⟩ := StateMachine.recorded_step.mp hs
    obtain ⟨hprompt, hstep⟩ := StateMachine.guard_step.mp hstep
    exact hinv.step hprompt hstep

/-! ### Two wakes in one batch -/

def phoneRow : LeaseRow where
  address := ⟨1, 2, "phone"⟩
  sourceEventId := 3
  sourceCreatedAt := 0
  generation := 1
  active := true
  endpointEnabled := true
  appProfile := some "app"
  endpointHash := some 4
  endpointGrant := some "grant"
  maxClass := some "default"
  subscriptions := some (.arr [])
  expiresAt := 86400

def globalEvent (id : EventId) : SourceEvent where
  community := 1
  id := id
  pubkey := 9
  createdAt := 0
  kind := 1059
  dTag := none
  receivedAt := 0
  deletedAt := none
  channelId := none

def phoneWake (id : Uuid) (eventId : EventId) : WakeRow where
  community := 1
  id := id
  author := 2
  installationId := "phone"
  leaseGeneration := 1
  endpointHash := 4
  eventId := eventId
  wakeClass := "default"
  expiresAt := 3600
  state := .pending
  attempts := 0
  nextAttemptAt := 0
  leaseUntil := none
  claimId := none
  createdAt := 0

/-- Two events, and a wake for each of them. -/
def twoWakes : DeliveryWorld where
  now := 0
  tables :=
    { leases := [phoneRow]
      events := [globalEvent 5, globalEvent 6]
      members := []
      outbox := [phoneWake 11 5, phoneWake 12 6] }
  workers := fun _ => .stopped
  drawn := []

theorem initial_twoWakes : twoWakes.Initial where
  keys := by decide
  stopped _ := rfl
  drawn k r c hr hc := by
    have hall : ∀ r ∈ twoWakes.tables.outbox, r.claimId = none := by decide
    nomatch (hc.symm.trans (hall r (mem_of_lookupKey hr).1))

/-- The wake as claim `21` hands it out. -/
def claimedWake (id : Uuid) (eventId : EventId) : ClaimedWake :=
  .of 21 ((phoneWake id eventId).claim 21 (seconds claimSecs)) phoneRow (globalEvent eventId)

/-- A worker claims both wakes. The first delivery takes 31 seconds, and the second one begins. -/
def slowBatch : List DeliveryAction :=
  [.worker 0 (.claim 1 21 0 []),
    .worker 0 (.begin (claimedWake 11 5)), .worker 0 .query, .worker 0 .query,
    .environment (.tick (seconds 31)),
    .worker 0 (.gateway (claimedWake 11 5) (.answer 200 (some .accepted)) (seconds 31)),
    .worker 0 .update,
    .worker 0 (.begin (claimedWake 12 6)), .worker 0 .query]

/-- The next statement of the worker fails the wake, for no reason. -/
def burnsNext (w : DeliveryWorld) (past : List DeliveryMoment) (k : CommunityId × Uuid) : Bool :=
  (delivery.step w (.worker 0 .update)).any fun w' =>
    (w.tables.wake k).any fun r => (w'.tables.wake k).any fun r' =>
      r.state != .failed && r'.state == .failed && decide (r.attempts < maxAttempts) &&
        (⟨.worker 0 .update, w'⟩ :: past : List DeliveryMoment).all fun m => !isGround r m

theorem not_safe_of_burnsNext {past : List DeliveryMoment} {k : CommunityId × Uuid}
    (h : burnsNext w past k = true) : ¬DeliverySafe w past := by
  intro hsafe
  obtain ⟨w', hs, h⟩ := (any_eq_true _ _).mp h
  obtain ⟨r, hr, h⟩ := (any_eq_true _ _).mp h
  obtain ⟨r', hr', h⟩ := (any_eq_true _ _).mp h
  simp only [Bool.and_eq_true, bne_iff_ne, beq_iff_eq, decide_eq_true_eq] at h
  obtain ⟨⟨⟨hstate, hstate'⟩, hattempts⟩, hgrounds⟩ := h
  obtain hmax | hsince := hsafe.failed _ w' k r r' hs hr hr' hstate hstate'
  · exact absurd hattempts (Nat.not_lt.mpr hmax)
  · obtain ⟨m, hm, hground⟩ := hsince.exists_right
    have hnot := all_eq_true.mp hgrounds m hm
    rw [hground] at hnot
    exact Bool.false_ne_true hnot

/-- A wake that waited too long behind another one is failed, though it could still be sent. -/
theorem not_failed_for_cause :
    ¬∀ w past, delivery.recorded.Reachable (w, past) → DeliverySafe w past := by
  intro hall
  have hrun : (delivery.recorded.run (twoWakes, []) slowBatch).any (fun p =>
      burnsNext p.1 p.2 (1, 12)) = true := by decide +kernel
  obtain ⟨⟨w, past⟩, hp, hburns⟩ := (any_eq_true _ _).mp hrun
  have hreach : delivery.recorded.Reachable (w, past) :=
    ⟨(twoWakes, []), slowBatch, ⟨initial_twoWakes, rfl⟩, hp⟩
  exact not_safe_of_burnsNext hburns (hall w past hreach)

/-- Both wakes are claimed, and the event of the first one is deleted before it is sent. -/
def deletedInTime : List DeliveryAction :=
  [.worker 0 (.claim 1 21 0 []),
    .worker 0 (.begin (claimedWake 11 5)), .worker 0 .query,
    .environment (.deleteEvent 1 5), .worker 0 .query, .worker 0 .update]

theorem wake_failed_for_cause_deletedInTime : ∃ w past,
    promptDelivery.recorded.Reachable (w, past) ∧
      ((w.tables.wake (1, 11)).any fun r => r.state == .failed) = true ∧ DeliverySafe w past := by
  have hrun : (promptDelivery.recorded.run (twoWakes, []) deletedInTime).any (fun p =>
      (p.1.tables.wake (1, 11)).any fun r => r.state == .failed) = true := by decide +kernel
  obtain ⟨⟨w, past⟩, hp, hfailed⟩ := (any_eq_true _ _).mp hrun
  have hreach : promptDelivery.recorded.Reachable (w, past) :=
    ⟨(twoWakes, []), deletedInTime, ⟨initial_twoWakes, rfl⟩, hp⟩
  exact ⟨w, past, hreach, hfailed, wake_failed_for_cause hreach⟩

end Buzz.Push
