import Buzz.Lib.Settling
import Buzz.ReadState.Resurrection

/-!
# Agreement at quiescence

Devices publish canonical registers and keep raw ones, so devices that have merged all that the others
would publish may still hold different registers. They agree on the verdicts: a live register is
published as it is, and a dead one as a tombstone, and neither can leave the other side unchanged when
only one of the two is live.

Merges only raise the components of registers and frontiers, and never beyond the greatest that some
device holds or has published. So exchanges without local actions come to rest.
-/

namespace Buzz.ReadState

open List Option

variable {d e : Device} {ctx : String} {tie : TiePolicy} {r r' : RegB} {f : ℕ}

/-! ### Agreement -/

def Device.Same (d e : Device) : Prop :=
  ∀ ctx, d.frontier.lookup ctx = e.frontier.lookup ctx ∧
    d.overrides.lookup ctx = e.overrides.lookup ctx

theorem Device.same_equivalence : Equivalence Device.Same where
  refl _ _ := ⟨rfl, rfl⟩
  symm h ctx := ⟨(h ctx).1.symm, (h ctx).2.symm⟩
  trans h h' ctx := ⟨(h ctx).1.trans (h' ctx).1, (h ctx).2.trans (h' ctx).2⟩

theorem compactB_of_live (h : overrideSetB (some r) f tie = true) : compactB r f tie = some r := by
  cases hk : compactB r f tie with
  | none =>
    obtain ⟨hs, -⟩ := compactB_eq_none.mp hk
    exact absurd (overrideSetB_iff.mp h).1 (by omega)
  | some k =>
    obtain ⟨-, rfl⟩ | ⟨hdead, -⟩ := compactB_cases hk
    · rfl
    · nomatch (hdead.symm.trans h)

/-- **A live register is live on both sides**, when neither side learns from the other. -/
theorem live_of_merge (hlive : overrideSetB (some r) f tie = true)
    (hin : mergeRegB (some r') (compactB r f tie) = some r')
    (hout : mergeRegB (some r) (compactB r' f tie) = some r) :
    overrideSetB (some r') f tie = true := by
  rw [compactB_of_live hlive] at hin
  obtain ⟨hs, hb, hcount⟩ := overrideSetB_iff.mp hlive
  have hle : r.s ≤ r'.s ∧ r.c ≤ r'.c ∧ r.b ≤ r'.b := by
    obtain ⟨hs, hc, hb⟩ := RegB.ext_iff.mp (some.inj hin)
    dsimp only at hs hc hb
    omega
  by_contra hdead
  cases hk : compactB r' f tie with
  | none =>
    obtain ⟨hs', -⟩ := compactB_eq_none.mp hk
    omega
  | some k =>
    obtain ⟨hlive', -⟩ | ⟨-, rfl, -⟩ := compactB_cases hk
    · exact hdead hlive'
    · -- The tombstone is below the clear counter, so the counters are all equal.
      rw [hk] at hout
      obtain ⟨-, hc, -⟩ := RegB.ext_iff.mp (some.inj hout)
      dsimp only at hc
      obtain hlt | ⟨heq, htie⟩ := hcount
      · omega
      · exact hdead (overrideSetB_iff.mpr ⟨by omega, by omega, .inr ⟨by omega, htie⟩⟩)

theorem frontier_eq_of_same (hde : (d.receiveMerge (e.publishBlob tie)).Same d)
    (hed : (e.receiveMerge (d.publishBlob tie)).Same e) :
    d.frontier.lookup ctx = e.frontier.lookup ctx := by
  have hd := (hde ctx).1
  have he := (hed ctx).1
  rw [frontier_receiveMerge_publishBlob] at hd he
  cases hdf : d.frontier.lookup ctx with
  | none =>
    cases hef : e.frontier.lookup ctx with
    | none => rfl
    | some v =>
      rw [hdf, hef] at hd
      nomatch hd
  | some v =>
    cases hef : e.frontier.lookup ctx with
    | none =>
      rw [hdf, hef] at he
      nomatch he
    | some v' =>
      rw [hdf, hef] at hd he
      have hle : max v v' = v := some.inj hd
      have hge : max v' v = v' := some.inj he
      rw [← hle, Nat.max_comm, hge]

theorem overrideIsSet_of_same (hd : d.isLegacy = false) (he : e.isLegacy = false)
    (hde : (d.receiveMerge (e.publishBlob tie)).Same d)
    (hed : (e.receiveMerge (d.publishBlob tie)).Same e)
    (hlive : d.overrideIsSet ctx tie = true) : e.overrideIsSet ctx tie = true := by
  have hfrontier : d.effectiveFrontier ctx = e.effectiveFrontier ctx := by
    rw [Device.effectiveFrontier, frontier_eq_of_same hde hed]
    rfl
  have hin := (hed ctx).2
  have hout := (hde ctx).2
  rw [overrides_receiveMerge_publishBlob he hd, Device.canonical] at hin
  rw [overrides_receiveMerge_publishBlob hd he, Device.canonical, ← hfrontier] at hout
  rw [Device.overrideIsSet] at hlive ⊢
  rw [← hfrontier]
  cases hr : d.overrides.lookup ctx with
  | none =>
    rw [hr] at hlive
    cases hlive
  | some r =>
    rw [hr, bind_some] at hin
    rw [hr] at hlive hout
    cases hr' : e.overrides.lookup ctx with
    | none =>
      rw [hr', compactB_of_live hlive] at hin
      cases hin
    | some r' =>
      rw [hr'] at hin hout
      exact live_of_merge hlive hin hout

/-- **Agreement.** Two devices that learn nothing from each other have the same frontiers and the
same verdicts. -/
theorem agree_of_same (hd : d.isLegacy = false) (he : e.isLegacy = false)
    (hde : (d.receiveMerge (e.publishBlob tie)).Same d)
    (hed : (e.receiveMerge (d.publishBlob tie)).Same e) (ctx : String) :
    d.frontier.lookup ctx = e.frontier.lookup ctx ∧
      d.overrideIsSet ctx tie = e.overrideIsSet ctx tie := by
  refine ⟨frontier_eq_of_same hde hed, ?_⟩
  rw [Bool.eq_iff_iff]
  constructor
  · exact overrideIsSet_of_same hd he hde hed
  · exact overrideIsSet_of_same he hd hed hde

/-! ### Coming to rest -/

/-- All keys of a device are in `K`, and all its numbers are at most `M`. -/
structure Within (K : Finset String) (M : ℕ) (d : Device) : Prop where
  frontier : ∀ ctx v, d.frontier.lookup ctx = some v → ctx ∈ K ∧ v ≤ M
  overrides : ∀ ctx r, d.overrides.lookup ctx = some r → ctx ∈ K ∧ r.s ≤ M ∧ r.c ≤ M ∧ r.b ≤ M

variable {K K' : Finset String} {M M' : ℕ}

theorem Within.mono (h : Within K M d) (hK : K ⊆ K') (hM : M ≤ M') : Within K' M' d where
  frontier ctx v hv := ⟨hK (h.frontier ctx v hv).1, (h.frontier ctx v hv).2.trans hM⟩
  overrides ctx r hr := by
    obtain ⟨hctx, hs, hc, hb⟩ := h.overrides ctx r hr
    exact ⟨hK hctx, hs.trans hM, hc.trans hM, hb.trans hM⟩

theorem exists_bound {ν : Type} (m : Dict ν) (g : ν → ℕ) :
    ∃ K : Finset String, ∃ M, ∀ k v, m.lookup k = some v → k ∈ K ∧ g v ≤ M := by
  refine ⟨m.keys.toFinset, (m.entries.map fun a => g a.2).sum, fun k v hv => ?_⟩
  have hmem : (⟨k, v⟩ : Sigma fun _ : String => ν) ∈ m.entries := AList.mem_lookup_iff.mp hv
  refine ⟨mem_toFinset.mpr (mem_keys_of_mem hmem), ?_⟩
  exact le_sum_of_mem (mem_map_of_mem hmem)

theorem exists_within (d : Device) : ∃ K M, Within K M d := by
  obtain ⟨K, M, hfrontier⟩ := exists_bound d.frontier id
  obtain ⟨K', M', hoverrides⟩ := exists_bound d.overrides fun r => r.s + r.c + r.b
  refine ⟨K ∪ K', M + M', fun ctx v hv => ?_, fun ctx r hr => ?_⟩
  · obtain ⟨hctx, hle⟩ := hfrontier ctx v hv
    exact ⟨Finset.mem_union_left _ hctx, Nat.le_add_right_of_le hle⟩
  · obtain ⟨hctx, hle⟩ := hoverrides ctx r hr
    refine ⟨Finset.mem_union_right _ hctx, ?_⟩
    omega

theorem exists_within_all {γ : Type*} (P : γ → Device → Prop) (l : List γ)
    (h : ∀ x ∈ l, ∃ d, P x d) : ∃ K M, ∀ x ∈ l, ∃ d, Within K M d ∧ P x d := by
  induction l with
  | nil => exact ⟨∅, 0, nofun⟩
  | cons x l ih =>
    obtain ⟨K, M, hrest⟩ := ih fun y hy => h y (mem_cons_of_mem _ hy)
    obtain ⟨d, hd⟩ := h x (mem_cons_self ..)
    obtain ⟨K', M', hwithin⟩ := exists_within d
    refine ⟨K ∪ K', M + M', fun y hy => ?_⟩
    obtain rfl | hy := mem_cons.mp hy
    · exact ⟨d, hwithin.mono Finset.subset_union_right (Nat.le_add_left _ _), hd⟩
    · obtain ⟨e, he, hP⟩ := hrest y hy
      exact ⟨e, he.mono Finset.subset_union_left (Nat.le_add_right _ _), hP⟩

def frontierWeight (o : Option ℕ) : ℕ := o.elim 0 fun v => v + 1

def regWeight (o : Option RegB) : ℕ := o.elim 0 fun r => r.s + r.c + r.b + 1

def weight (K : Finset String) (d : Device) : ℕ :=
  ∑ ctx ∈ K, (frontierWeight (d.frontier.lookup ctx) + regWeight (d.overrides.lookup ctx))

theorem frontierWeight_join (own incoming : Option ℕ) :
    frontierWeight own ≤ frontierWeight (joinFrontier own incoming) ∧
      (frontierWeight (joinFrontier own incoming) = frontierWeight own →
        joinFrontier own incoming = own) := by
  cases incoming with
  | none => exact ⟨Nat.le_refl _, fun _ => rfl⟩
  | some v =>
    cases own with
    | none => exact ⟨Nat.zero_le _, fun h => absurd h (Nat.succ_ne_zero _)⟩
    | some u =>
      show u + 1 ≤ max u v + 1 ∧ (max u v + 1 = u + 1 → some (max u v) = some u)
      refine ⟨by omega, fun h => ?_⟩
      rw [Nat.succ.inj h]

theorem regWeight_merge (own incoming : Option RegB) :
    regWeight own ≤ regWeight (mergeRegB own incoming) ∧
      (regWeight (mergeRegB own incoming) = regWeight own → mergeRegB own incoming = own) := by
  cases incoming with
  | none =>
    rw [mergeRegB_none_right]
    exact ⟨Nat.le_refl _, fun _ => rfl⟩
  | some r' =>
    cases own with
    | none => exact ⟨Nat.zero_le _, fun h => absurd h (Nat.succ_ne_zero _)⟩
    | some r =>
      show r.s + r.c + r.b + 1 ≤ max r.s r'.s + max r.c r'.c + max r.b r'.b + 1 ∧
        (max r.s r'.s + max r.c r'.c + max r.b r'.b + 1 = r.s + r.c + r.b + 1 →
          some (⟨max r.s r'.s, max r.c r'.c, max r.b r'.b⟩ : RegB) = some r)
      refine ⟨by omega, fun h => congrArg some (RegB.ext ?_ ?_ ?_)⟩
      · show max r.s r'.s = r.s
        omega
      · show max r.c r'.c = r.c
        omega
      · show max r.b r'.b = r.b
        omega

theorem Within.canonical (h : Within K M d) (hr : d.canonical tie ctx = some r) :
    ctx ∈ K ∧ r.s ≤ M ∧ r.c ≤ M ∧ r.b ≤ M := by
  obtain ⟨reg, hreg, hk⟩ := bind_eq_some_iff.mp hr
  obtain ⟨hctx, hs, hc, hb⟩ := h.overrides ctx reg hreg
  obtain ⟨-, rfl⟩ | ⟨-, rfl, -⟩ := compactB_cases hk
  · exact ⟨hctx, hs, hc, hb⟩
  · exact ⟨hctx, Nat.zero_le _, Nat.max_le.mpr ⟨hs, hc⟩, Nat.zero_le _⟩

theorem Within.receiveMerge (hd : Within K M d) (he : Within K M e) (hdl : d.isLegacy = false)
    (hel : e.isLegacy = false) : Within K M (d.receiveMerge (e.publishBlob tie)) where
  frontier ctx v hv := by
    rw [frontier_receiveMerge_publishBlob] at hv
    cases hef : e.frontier.lookup ctx with
    | none =>
      rw [hef] at hv
      exact hd.frontier ctx v hv
    | some u =>
      rw [hef] at hv
      obtain ⟨hctx, hu⟩ := he.frontier ctx u hef
      cases hv
      refine ⟨hctx, Nat.max_le.mpr ⟨?_, hu⟩⟩
      cases hdf : d.frontier.lookup ctx with
      | none => exact Nat.zero_le _
      | some u' => exact (hd.frontier ctx u' hdf).2
  overrides ctx r hr := by
    rw [overrides_receiveMerge_publishBlob hdl hel] at hr
    cases hdr : d.overrides.lookup ctx with
    | none =>
      rw [hdr] at hr
      exact he.canonical hr
    | some own =>
      obtain ⟨hctx, hs, hc, hb⟩ := hd.overrides ctx own hdr
      cases hk : e.canonical tie ctx with
      | none =>
        rw [hdr, hk] at hr
        cases hr
        exact ⟨hctx, hs, hc, hb⟩
      | some k =>
        obtain ⟨-, hs', hc', hb'⟩ := he.canonical hk
        rw [hdr, hk] at hr
        cases hr
        exact ⟨hctx, Nat.max_le.mpr ⟨hs, hs'⟩, Nat.max_le.mpr ⟨hc, hc'⟩, Nat.max_le.mpr ⟨hb, hb'⟩⟩

theorem Within.weight_le (h : Within K M d) : weight K d ≤ K.card * (M + 1 + (3 * M + 1)) := by
  refine (Finset.sum_le_sum fun ctx _ => Nat.add_le_add ?_ ?_).trans
    (Finset.sum_const_nat fun _ _ => rfl).le
  · cases hv : d.frontier.lookup ctx with
    | none => exact Nat.zero_le _
    | some v => exact Nat.succ_le_succ (h.frontier ctx v hv).2
  · cases hr : d.overrides.lookup ctx with
    | none => exact Nat.zero_le _
    | some r =>
      obtain ⟨-, hs, hc, hb⟩ := h.overrides ctx r hr
      show r.s + r.c + r.b + 1 ≤ 3 * M + 1
      omega

/-- **Merges raise a bounded weight**, or change nothing. -/
theorem settles_devices (tie : TiePolicy) (K : Finset String) (M : ℕ) :
    Settles (devices tie) (fun d => d.isLegacy = false ∧ Within K M d) Device.Same (weight K)
      (K.card * (M + 1 + (3 * M + 1))) where
  receive d e hd he := ⟨hd.1, hd.2.receiveMerge he.2 hd.1 he.1⟩
  raise d e hd he := by
    refine Finset.sum_le_sum fun ctx _ => ?_
    show _ ≤ frontierWeight ((d.receiveMerge (e.publishBlob tie)).frontier.lookup ctx) +
      regWeight ((d.receiveMerge (e.publishBlob tie)).overrides.lookup ctx)
    rw [frontier_receiveMerge_publishBlob, overrides_receiveMerge_publishBlob hd.1 he.1]
    exact Nat.add_le_add (frontierWeight_join ..).1 (regWeight_merge ..).1
  rest d e hd he heq := by
    intro ctx
    show (d.receiveMerge (e.publishBlob tie)).frontier.lookup ctx = _ ∧
      (d.receiveMerge (e.publishBlob tie)).overrides.lookup ctx = _
    have hle : ∀ ctx ∈ K, frontierWeight (d.frontier.lookup ctx) +
        regWeight (d.overrides.lookup ctx) ≤
          frontierWeight ((d.receiveMerge (e.publishBlob tie)).frontier.lookup ctx) +
            regWeight ((d.receiveMerge (e.publishBlob tie)).overrides.lookup ctx) := by
      intro ctx _
      rw [frontier_receiveMerge_publishBlob, overrides_receiveMerge_publishBlob hd.1 he.1]
      exact Nat.add_le_add (frontierWeight_join ..).1 (regWeight_merge ..).1
    by_cases hctx : ctx ∈ K
    · have hone := (Finset.sum_eq_sum_iff_of_le hle).mp heq.symm ctx hctx
      rw [frontier_receiveMerge_publishBlob, overrides_receiveMerge_publishBlob hd.1 he.1] at hone ⊢
      have hfrontier := frontierWeight_join (d.frontier.lookup ctx) (e.frontier.lookup ctx)
      have hreg := regWeight_merge (d.overrides.lookup ctx) (e.canonical tie ctx)
      exact ⟨hfrontier.2 (by omega), hreg.2 (by omega)⟩
    · -- Outside of `K` there is nothing.
      have hnone : ∀ {d : Device}, Within K M d →
          d.frontier.lookup ctx = none ∧ d.overrides.lookup ctx = none := by
        intro d hd
        rw [eq_none_iff_forall_ne_some, eq_none_iff_forall_ne_some]
        exact ⟨fun v hv => hctx (hd.frontier ctx v hv).1, fun r hr => hctx (hd.overrides ctx r hr).1⟩
      obtain ⟨hf, ho⟩ := hnone hd.2
      have hmerged : Within K M (d.receiveMerge (e.publishBlob tie)) :=
        hd.2.receiveMerge he.2 hd.1 he.1
      obtain ⟨hf', ho'⟩ := hnone hmerged
      exact ⟨hf'.trans hf.symm, ho'.trans ho.symm⟩
  bound d hd := hd.2.weight_le
  equiv := Device.same_equivalence
  congr d d' e e' hd hd' he he' hdd hee := by
    intro ctx
    show (d.receiveMerge (e.publishBlob tie)).frontier.lookup ctx = (d'.receiveMerge
        (e'.publishBlob tie)).frontier.lookup ctx ∧
      (d.receiveMerge (e.publishBlob tie)).overrides.lookup ctx = (d'.receiveMerge
        (e'.publishBlob tie)).overrides.lookup ctx
    obtain ⟨hf, ho⟩ := hdd ctx
    obtain ⟨hf', ho'⟩ := hee ctx
    rw [frontier_receiveMerge_publishBlob, frontier_receiveMerge_publishBlob,
      overrides_receiveMerge_publishBlob hd.1 he.1, overrides_receiveMerge_publishBlob hd'.1 he'.1,
      Device.canonical, Device.canonical, Device.effectiveFrontier, Device.effectiveFrontier, hf, ho,
      hf', ho']
    exact ⟨rfl, rfl⟩

/-! ### The devices of a user -/

section Users

variable {ι : Type*} [DecidableEq ι] {clientId : ι → String}
  {w w' : Replicated ι Device Blob LocalEvent}

/-- No device learns from what another one would publish. -/
def Quiescent (tie : TiePolicy) (w : Replicated ι Device Blob LocalEvent) : Prop :=
  ∀ i j, i ≠ j → ((w.replica i).receiveMerge ((w.replica j).publishBlob tie)).Same (w.replica i)

/-- All devices are upgraded, and all blobs were published by upgraded devices. -/
def Upgraded (tie : TiePolicy) (w : Replicated ι Device Blob LocalEvent) : Prop :=
  Settles.Good (devices tie) (fun d => d.isLegacy = false) w

theorem upgraded_of_reachable (h : (userDevices tie clientId).Reachable w) : Upgraded tie w := by
  refine StateMachine.Reachable.invariant (fun w hw => ?_) (fun w a w' _ hw hs => ?_) h
  · obtain rfl := hw
    exact ⟨fun i => rfl, nofun⟩
  obtain ⟨hreplica, hnetwork⟩ := hw
  have hupdate : ∀ (i : ι) (d : Device), d.isLegacy = false →
      ∀ j, (Function.update w.replica i d j).isLegacy = false := by
    intro i d hd j
    by_cases hj : j = i
    · subst hj
      rwa [Function.update_self]
    · rw [Function.update_of_ne hj]
      exact hreplica j
  cases a with
  | act i a =>
    cases hs
    exact ⟨hupdate i _ ((isLegacy_act a).trans (hreplica i)), hnetwork⟩
  | publish i =>
    cases hs
    refine ⟨hreplica, fun p hp => ?_⟩
    obtain hp | hp := mem_append.mp hp
    · exact hnetwork p hp
    · obtain rfl := mem_singleton.mp hp
      exact ⟨_, hreplica i, rfl⟩
  | receive i n =>
    obtain ⟨p, -, rfl⟩ := map_eq_some_iff.mp hs
    exact ⟨hupdate i _ (hreplica i), hnetwork⟩

omit [DecidableEq ι] in
theorem Upgraded.exists_within [Fintype ι] (h : Upgraded tie w) :
    ∃ K M, Settles.Good (devices tie) (fun d => d.isLegacy = false ∧ Within K M d) w := by
  obtain ⟨K, M, hreplica⟩ := exists_within_all (fun i d => d.isLegacy = false ∧ w.replica i = d)
    Finset.univ.toList fun i _ => ⟨_, h.1 i, rfl⟩
  obtain ⟨K', M', hnetwork⟩ := exists_within_all
    (fun (p : Packet Blob) d => d.isLegacy = false ∧ p.blob = (devices tie).publish d) w.network h.2
  refine ⟨K ∪ K', M + M', fun i => ?_, fun p hp => ?_⟩
  · obtain ⟨d, hd, hlegacy, rfl⟩ := hreplica i (Finset.mem_toList.mpr (Finset.mem_univ i))
    exact ⟨hlegacy, hd.mono Finset.subset_union_left (Nat.le_add_right _ _)⟩
  · obtain ⟨d, hd, hlegacy, hblob⟩ := hnetwork p hp
    exact ⟨d, ⟨hlegacy, hd.mono Finset.subset_union_right (Nat.le_add_left _ _)⟩, hblob⟩

/-- **Agreement at quiescence.** In a state that is reached and in which no device learns from what
another one would publish, all devices have the same frontiers and verdicts. From every state that is
reached, every infinite sequence of rounds in which each device hears each other one, without local
actions, comes to such a state; and there is such a sequence. -/
theorem agree_at_quiescence [Fintype ι] (h : (userDevices tie clientId).Reachable w) :
    (Quiescent tie w → ∀ i j ctx,
      (w.replica i).frontier.lookup ctx = (w.replica j).frontier.lookup ctx ∧
        (w.replica i).overrideIsSet ctx tie = (w.replica j).overrideIsSet ctx tie) ∧
    (∀ v : ℕ → Replicated ι Device Blob LocalEvent, v 0 = w →
      (∀ n, (devices tie).Round (fun i => .new (clientId i) false) (v n) (v (n + 1))) →
        ∃ n, Quiescent tie (v n)) ∧
    ∃ v : ℕ → Replicated ι Device Blob LocalEvent, v 0 = w ∧
      ∀ n, (devices tie).Round (fun i => .new (clientId i) false) (v n) (v (n + 1)) := by
  have hupgraded := upgraded_of_reachable h
  refine ⟨fun hquiescent i j ctx => ?_, fun v hv hrounds => ?_, Replication.exists_rounds ..⟩
  · by_cases hij : i = j
    · subst hij
      exact ⟨rfl, rfl⟩
    · exact agree_of_same (hupgraded.1 i) (hupgraded.1 j) (hquiescent i j hij)
        (hquiescent j i (Ne.symm hij)) ctx
  · obtain ⟨K, M, hgood⟩ := hupgraded.exists_within
    rw [← hv] at hgood
    exact (settles_devices tie K M).exists_quiescent hgood hrounds

/-- The case of two devices, one of which has marked a context unread. -/
theorem agree_at_quiescence_two : ∃ w, (userDevices .clear fun _ : Fin 2 => "laptop").run
      ⟨fun _ => .new "laptop" false, fun _ => [], [], []⟩ [.act 0 (.markUnread "general")] = some w ∧
    ∃ v : ℕ → Replicated (Fin 2) Device Blob LocalEvent, v 0 = w ∧ ∃ n, Quiescent .clear (v n) := by
  have hrun : ∃ w, (userDevices .clear fun _ : Fin 2 => "laptop").run
      ⟨fun _ => .new "laptop" false, fun _ => [], [], []⟩ [.act 0 (.markUnread "general")] =
        some w := ⟨_, rfl⟩
  obtain ⟨w, hw⟩ := hrun
  have hreachable : (userDevices .clear fun _ : Fin 2 => "laptop").Reachable w := ⟨_, _, rfl, hw⟩
  obtain ⟨-, hsettle, v, hv, hrounds⟩ := agree_at_quiescence hreachable
  exact ⟨w, hw, v, hv, hsettle v hv hrounds⟩

end Users

end Buzz.ReadState
