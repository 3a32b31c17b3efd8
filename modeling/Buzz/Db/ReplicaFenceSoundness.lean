import Buzz.Db.ReplicaFenceProtocol

/-!
# Soundness of the replica fence

`WallHolds` says that every transaction open now, or started later, is too young to commit a row
at or below a wall. It holds from the activity scan on, whatever the parties do, because no step
weakens it. A token committed while its wall holds therefore `Proves` that everything at or below
the wall is *before* it in every log it belongs to. `BeatsChain` is the second half: within an
epoch a greater token lies later in one and the same log, so a snapshot that observes the greater
token contains the smaller one with everything before it.

The three buckets of the source's argument are the three ways a row can threaten a wall: rows
committed before the token are in `before`; a transaction open at the scan started after the
oldest one; a transaction that begins after the scan reads a clock that is past the sample.
-/

namespace Buzz.ReplicaFence

open List Function

/-! ### Beats, walls and proofs -/

/-- Some timeline commits the heartbeat `(token, epoch)` right after `before`. -/
def Beat (s : State) (before : List Commit) (token : Int) (epoch : Uuid) : Prop :=
  ∃ l ∈ s.timelines, before ++ [.heartbeat token epoch] <+: l

/-- Within an epoch, the log up to a smaller token is a prefix of the log up to a greater one. -/
def BeatsChain (s : State) : Prop :=
  ∀ p q T M epoch, Beat s p T epoch → Beat s q M epoch → M ≤ T →
    q ++ [.heartbeat M epoch] <+: p ++ [.heartbeat T epoch]

/-- The heartbeat row carries the greatest token of its epoch. -/
def HeadGreatest (s : State) : Prop :=
  ∀ T epoch, heartbeatRow s.log = some (T, epoch) → ∀ q M, Beat s q M epoch → M ≤ T

/-- A transaction that passed the guard writes no channel-bearing row below its floor. -/
def FloorKept (s : State) : Prop :=
  ∀ t ∈ s.txns, t.guarded = true → ∀ r ∈ t.rows, r.channelBearing = true →
    t.start - seconds createdAtFloorSecs ≤ r.createdAt

/-- No transaction that is open, or begins later, can commit a row at or below `wall`. -/
structure WallHolds (s : State) (wall : Int) : Prop where
  /-- A transaction that begins later starts above the wall and the floor. -/
  clock : wall + seconds createdAtFloorSecs + seconds fenceClockMarginSecs ≤ s.clock
  txns : ∀ t ∈ s.txns, wall + seconds createdAtFloorSecs < t.start

/-- In every log with the heartbeat `(token, epoch)`, the rows at or below `wall` precede it. -/
def Sealed (s : State) (token : Int) (epoch : Uuid) (wall : Int) : Prop :=
  ∀ l ∈ s.timelines, ∀ before, before ++ [.heartbeat token epoch] <+: l →
    ∀ r ∈ eventRows l, r.channelBearing = true → r.createdAt ≤ wall → r ∈ eventRows before

/-- The committed token proves the wall, now and from now on. -/
structure Proves (s : State) (token : Int) (epoch : Uuid) (wall : Int) : Prop where
  committed : ∃ before, Beat s before token epoch
  holds : WallHolds s wall
  sealed : Sealed s token epoch wall

def PhaseOk (s : State) : ProbePhase → Prop
  | .idle => True
  | .sampled _ sampledAt => sampledAt ≤ s.clock
  | .scanned _ sampledAt oldest => WallHolds s (fenceWall sampledAt oldest)
  | .committed _ w => Proves s w.token w.epoch (fenceWall w.sampledAt w.oldestXactStart)
  | .rotating _ wall => WallHolds s wall
  | .rotated _ wall token epoch _ => Proves s token epoch wall

/-- Every retained entry proves its wall, under the ring's epoch. -/
def FenceOk (s : State) (f : FenceInner) : Prop :=
  ∀ epoch, f.epoch = some epoch → ∀ e ∈ f.ring, Proves s e.token epoch e.fenceWall

/-- **The invariant.** -/
structure Inv (s : State) : Prop where
  head : HeadGreatest s
  chain : BeatsChain s
  floor : FloorKept s
  probes : ∀ i, PhaseOk s (s.probes i)
  fences : ∀ pod, FenceOk s (s.fences pod)

theorem phaseOk_idle (s : State) : PhaseOk s .idle := trivial

theorem fenceOk_close (s : State) (f : FenceInner) : FenceOk s f.close := by
  intro epoch _ e he
  simp [FenceInner.close] at he

variable {s : State} {f : FenceInner} {token wall : Int} {epoch : Uuid}

theorem FenceOk.record (h : FenceOk s f) (hp : Proves s token epoch wall) (committedAt : Nat) :
    FenceOk s (f.record token epoch committedAt wall).2 := by
  intro epoch' hepoch e he
  obtain ⟨hrec, hcase⟩ := FenceInner.mem_record he
  obtain rfl : epoch = epoch' := Option.some.inj (hrec.symm.trans hepoch)
  rcases hcase with rfl | ⟨hmem, hold⟩
  · exact hp
  · exact h epoch hold e hmem

/-! ### What a step can do -/

/-- Where an open transaction comes from. -/
inductive TxnFrom (s : State) (t : OpenTxn) : Prop where
  | kept (h : t ∈ s.txns)
  | begun (hnow : s.readsClock t.start) (hg : t.guarded = false)
  | written {t₀ : OpenTxn} (h : t₀ ∈ s.txns) (hs : t.start = t₀.start) (hg : t.guarded = false)
  | passed {t₀ : OpenTxn} {now : Int} (h : t₀ ∈ s.txns) (hs : t.start = t₀.start)
      (hnow : t.start ≤ now) (hguard : floorGuard t.rows now = true)

/-- The current log becomes `base` with one more commit; no other timeline changes. -/
structure Grows (s s' : State) (base : List Commit) (c : Commit) : Prop where
  base_prefix : base <+: s.log
  log_eq : s'.log = base ++ [c]
  old : ∀ l ∈ s.timelines, ∃ l' ∈ s'.timelines, l <+: l'
  new : ∀ l ∈ s'.timelines, l ∈ s.timelines ∨ l = base ++ [c]

/-- What a step can do to the log. -/
inductive LogEffect (s s' : State) : Prop where
  | same (ht : s'.timelines = s.timelines) (hl : s'.log = s.log)
  | rows (t : OpenTxn) (ht : t ∈ s.txns) (hg : t.guarded = true)
      (h : Grows s s' s.log (.rows t.rows))
  | beat (token : Int) (epoch : Uuid) (hrow : heartbeatRow s.log = some (token, epoch))
      (h : Grows s s' s.log (.heartbeat (token + 1) epoch))
  | seed (base : List Commit) (token : Int) (epoch : Uuid) (hfresh : s.freshEpoch epoch)
      (h : Grows s s' base (.heartbeat token epoch))

variable {s' : State} {c : Commit}

theorem grows_append (ha : s'.archive = s.archive) (hl : s'.log = s.log ++ [c]) :
    Grows s s' s.log c := by
  refine ⟨prefix_rfl, hl, fun l h => ?_, fun l h => ?_⟩
  · rcases mem_append.mp h with h | h
    · exact ⟨l, mem_append_left _ (ha ▸ h), prefix_rfl⟩
    · obtain rfl := mem_singleton.mp h
      exact ⟨s'.log, mem_append_right _ (mem_singleton_self _),
        hl ▸ prefix_append _ _⟩
  · rcases mem_append.mp h with h | h
    · exact Or.inl (mem_append_left _ (ha ▸ h))
    · exact Or.inr (mem_singleton.mp h ▸ hl)

theorem grows_restore (keep : Nat) (ha : s'.archive = s.archive ++ [s.log])
    (hl : s'.log = s.log.take keep ++ [c]) : Grows s s' (s.log.take keep) c := by
  have ht : s'.timelines = s.timelines ++ [s'.log] := by rw [State.timelines, ha]; rfl
  refine ⟨List.take_prefix _ _, hl, fun l h => ?_, fun l h => ?_⟩
  · exact ⟨l, ht ▸ mem_append_left _ h, prefix_rfl⟩
  · rcases mem_append.mp (ht ▸ h) with h | h
    · exact Or.inl h
    · exact Or.inr (mem_singleton.mp h ▸ hl)

variable {a : Action}

theorem clock_le_of_step (h : step s a = some s') : s.clock ≤ s'.clock := by
  cases a <;> simp only [step] at h <;> (repeat' split at h) <;> cases h <;>
    simp [State.setProbe, State.setFence]

theorem txnFrom_of_step (h : step s a = some s') : ∀ t ∈ s'.txns, TxnFrom s t := by
  intro t ht
  cases a with
  | begin tid now =>
    simp only [step] at h
    split at h
    · rename_i hcond
      cases h
      rcases mem_cons.mp ht with rfl | ht
      · exact .begun hcond.1 rfl
      · exact .kept ht
    · simp at h
  | insert tid row =>
    simp only [step] at h
    split at h
    · rename_i t₀ hfind
      split at h
      · simp at h
      · rename_i hg
        cases h
        rcases mem_cons.mp ht with rfl | ht
        · exact .written (mem_of_find?_eq_some hfind) rfl (by simpa using hg)
        · exact .kept (mem_of_mem_erase ht)
    · simp at h
  | guard tid now =>
    simp only [step] at h
    split at h
    · rename_i t₀ hfind
      split at h
      · rename_i hcond
        split at h
        · rename_i hfloor
          cases h
          rcases mem_cons.mp ht with rfl | ht
          · exact .passed (mem_of_find?_eq_some hfind) rfl hcond.2.1 hfloor
          · exact .kept (mem_of_mem_erase ht)
        · cases h
          exact .kept (mem_of_mem_erase ht)
      · simp at h
    · simp at h
  | commit tid =>
    simp only [step] at h
    split at h
    · split at h
      · cases h
        exact .kept (mem_of_mem_erase ht)
      · simp at h
    · simp at h
  | abort tid =>
    simp only [step] at h
    split at h
    · cases h
      exact .kept (mem_of_mem_erase ht)
    · simp at h
  | restore keep token epoch =>
    simp only [step] at h
    split at h
    · cases h
      simp at ht
    · simp at h
  -- no other party touches a transaction
  | _ =>
    simp only [step] at h
    repeat' split at h
    all_goals cases h
    all_goals exact .kept ht

theorem logEffect_of_step (h : step s a = some s') : LogEffect s s' := by
  cases a with
  | commit tid =>
    simp only [step] at h
    split at h
    · rename_i t hfind
      split at h
      · rename_i hg
        cases h
        exact .rows t (mem_of_find?_eq_some hfind) hg (grows_append rfl rfl)
      · simp at h
    · simp at h
  | commitToken i committedAt =>
    simp only [step] at h
    split at h
    · split at h
      · rename_i token epoch hrow
        cases h
        exact .beat token epoch hrow (grows_append rfl rfl)
      · cases h
        exact .same rfl rfl
    · simp at h
  | rotate i epoch committedAt =>
    simp only [step] at h
    split at h
    · split at h
      · rename_i hfresh
        split at h
        · cases h
          exact .seed s.log _ epoch hfresh (grows_append rfl rfl)
        · cases h
          exact .same rfl rfl
      · simp at h
    · simp at h
  | reseed token epoch =>
    simp only [step] at h
    split at h
    · rename_i hfresh
      cases h
      exact .seed s.log token epoch hfresh (grows_append rfl rfl)
    · simp at h
  | restore keep token epoch =>
    simp only [step] at h
    split at h
    · rename_i hfresh
      cases h
      exact .seed (s.log.take keep) token epoch hfresh (grows_restore keep rfl rfl)
    · simp at h
  -- no other step writes a commit record
  | _ =>
    simp only [step] at h
    repeat' split at h
    all_goals cases h
    all_goals exact .same rfl rfl

/-! ### Walls -/

/-- No step weakens a wall: the clock is past it, and a start never changes. -/
theorem WallHolds.step (hw : WallHolds s wall) (h : step s a = some s') : WallHolds s' wall := by
  refine ⟨hw.clock.trans (clock_le_of_step h), fun t ht => ?_⟩
  cases txnFrom_of_step h t ht with
  | kept ht => exact hw.txns t ht
  | begun hnow _ =>
    have hclock := hw.clock
    have : s.clock < t.start + seconds fenceClockMarginSecs := hnow
    omega
  | written ht₀ hs _ | passed ht₀ hs _ _ => exact hs ▸ hw.txns _ ht₀

theorem FloorKept.step (hf : FloorKept s) (h : step s a = some s') : FloorKept s' := by
  intro t ht hg r hr hb
  cases txnFrom_of_step h t ht with
  | kept ht => exact hf t ht hg r hr hb
  | begun _ hg' | written _ _ hg' => simp [hg'] at hg
  | @passed _ now _ _ hnow hguard =>
    have hrow : now - seconds createdAtFloorSecs ≤ r.createdAt := by
      simpa [hb] using all_eq_true.mp hguard r hr
    omega

theorem WallHolds.lt_createdAt (hw : WallHolds s wall) (hf : FloorKept s) {t : OpenTxn}
    (ht : t ∈ s.txns) (hg : t.guarded = true) {r : EventRow} (hr : r ∈ t.rows)
    (hb : r.channelBearing = true) : wall < r.createdAt := by
  have hstart := hw.txns t ht
  have hrow := hf t ht hg r hr hb
  omega

/-! ### Beats -/

variable {base before : List Commit}

theorem Beat.of_grows (hg : Grows s s' base c) (h : Beat s' before token epoch) :
    Beat s before token epoch ∨ (before = base ∧ c = .heartbeat token epoch) := by
  obtain ⟨l, hl, hpre⟩ := h
  rcases hg.new l hl with hold | rfl
  · exact Or.inl ⟨l, hold, hpre⟩
  · rcases prefix_concat_iff.mp hpre with heq | hpre
    · obtain ⟨hbase, hc⟩ := append_inj' heq rfl
      exact Or.inr ⟨hbase, (singleton_inj.mp hc).symm⟩
    · exact Or.inl ⟨s.log, mem_append_right _ (mem_singleton_self _),
        hpre.trans hg.base_prefix⟩

theorem Beat.of_timelines (ht : s'.timelines = s.timelines) (h : Beat s' before token epoch) :
    Beat s before token epoch := by
  rw [Beat, ht] at h
  exact h

theorem Beat.step (h : step s a = some s') (hb : Beat s before token epoch) :
    Beat s' before token epoch := by
  obtain ⟨l, hl, hpre⟩ := hb
  obtain ⟨l', hl', hle⟩ : ∃ l' ∈ s'.timelines, l <+: l' := by
    cases logEffect_of_step h with
    | same ht _ => exact ⟨l, ht ▸ hl, prefix_rfl⟩
    | rows _ _ _ hg | beat _ _ _ hg | seed _ _ _ _ hg => exact hg.old l hl
  exact ⟨l', hl', hpre.trans hle⟩

theorem Beat.of_grows_self (hg : Grows s s' base (.heartbeat token epoch)) :
    Beat s' base token epoch :=
  ⟨s'.log, mem_append_right _ (mem_singleton_self _), hg.log_eq ▸ prefix_rfl⟩

theorem beat_of_heartbeatRow (h : heartbeatRow s.log = some (token, epoch)) :
    ∃ before, Beat s before token epoch ∧ before ++ [.heartbeat token epoch] <+: s.log := by
  obtain ⟨before, hpre⟩ := prefix_of_heartbeatRow h
  exact ⟨before, ⟨s.log, mem_append_right _ (mem_singleton_self _), hpre⟩, hpre⟩

theorem not_beat_of_freshEpoch (h : s.freshEpoch epoch) (before : List Commit) (token : Int) :
    ¬Beat s before token epoch := by
  rintro ⟨l, hl, hpre⟩
  exact h l hl (.heartbeat token epoch) (hpre.subset (by simp)) (token, epoch) rfl rfl

theorem HeadGreatest.not_beat_succ (hh : HeadGreatest s)
    (h : heartbeatRow s.log = some (token, epoch)) (before : List Commit) :
    ¬Beat s before (token + 1) epoch := by
  intro hb
  have := hh token epoch h before (token + 1) hb
  omega

theorem HeadGreatest.of_beat (hg : Grows s s' base (.heartbeat token epoch))
    (hnew : ∀ before M, Beat s before M epoch → M ≤ token) : HeadGreatest s' := by
  intro T E hrow q M hb
  rw [hg.log_eq, heartbeatRow_append_heartbeat] at hrow
  obtain ⟨rfl, rfl⟩ := Prod.mk.injEq .. ▸ Option.some.inj hrow
  rcases hb.of_grows hg with hb | ⟨_, hc⟩
  · exact hnew q M hb
  · exact le_of_eq (Commit.heartbeat.inj hc).1.symm

theorem HeadGreatest.step (hh : HeadGreatest s) (h : step s a = some s') : HeadGreatest s' := by
  cases logEffect_of_step h with
  | same ht hl =>
    intro T E hrow q M hb
    exact hh T E (hl ▸ hrow) q M (hb.of_timelines ht)
  | rows t _ _ hg =>
    intro T E hrow q M hb
    rw [hg.log_eq, heartbeatRow_append_rows] at hrow
    rcases hb.of_grows hg with hb | ⟨_, hc⟩
    · exact hh T E hrow q M hb
    · nomatch hc
  | beat token epoch hrow hg =>
    refine HeadGreatest.of_beat hg fun before M hb => ?_
    have := hh token epoch hrow before M hb
    omega
  | seed base token epoch hfresh hg =>
    exact HeadGreatest.of_beat hg fun before M hb =>
      absurd hb (not_beat_of_freshEpoch hfresh before M)

theorem BeatsChain.of_beat (hc : BeatsChain s) (hg : Grows s s' base (.heartbeat token epoch))
    (hnew : ∀ q M, Beat s q M epoch → M < token ∧ q ++ [.heartbeat M epoch] <+: base) :
    BeatsChain s' := by
  intro p q T M E hp hq hle
  rcases hp.of_grows hg with hp | ⟨rfl, hpc⟩ <;> rcases hq.of_grows hg with hq | ⟨rfl, hqc⟩
  · exact hc p q T M E hp hq hle
  · -- the new token is greater than every old one
    obtain ⟨rfl, rfl⟩ := Commit.heartbeat.inj hqc
    have := (hnew p T hp).1
    omega
  · obtain ⟨rfl, rfl⟩ := Commit.heartbeat.inj hpc
    exact (hnew q M hq).2.trans (prefix_append _ _)
  · have heq : Commit.heartbeat M E = .heartbeat T E := hqc.symm.trans hpc
    exact heq ▸ prefix_rfl

theorem BeatsChain.step (hc : BeatsChain s) (hh : HeadGreatest s) (h : step s a = some s') :
    BeatsChain s' := by
  cases logEffect_of_step h with
  | same ht _ =>
    intro p q T M E hp hq hle
    exact hc p q T M E (hp.of_timelines ht) (hq.of_timelines ht) hle
  | rows t _ _ hg =>
    have hold : ∀ {q M E}, Beat s' q M E → Beat s q M E := fun hb =>
      (hb.of_grows hg).resolve_right fun h => Commit.noConfusion h.2
    intro p q T M E hp hq hle
    exact hc p q T M E (hold hp) (hold hq) hle
  | beat token epoch hrow hg =>
    refine hc.of_beat hg fun q M hq => ?_
    have hle := hh token epoch hrow q M hq
    obtain ⟨before, hb, hpre⟩ := beat_of_heartbeatRow hrow
    exact ⟨by omega, (hc before q token M epoch hb hq hle).trans hpre⟩
  | seed base token epoch hfresh hg =>
    exact hc.of_beat hg fun q M hq => absurd hq (not_beat_of_freshEpoch hfresh q M)

/-! ### Proofs -/

theorem Sealed.of_grows (hs : Sealed s token epoch wall) (hg : Grows s s' base c)
    (hc : ∀ r ∈ c.eventRows, r.channelBearing = true → wall < r.createdAt) :
    Sealed s' token epoch wall := by
  intro l hl before hpre r hr hb hle
  rcases hg.new l hl with hold | rfl
  · exact hs l hold before hpre r hr hb hle
  · have hr : r ∈ eventRows base := by
      obtain ⟨d, hd, hrd⟩ := mem_flatMap.mp hr
      rcases mem_append.mp hd with hd | hd
      · exact mem_flatMap.mpr ⟨d, hd, hrd⟩
      · obtain rfl := mem_singleton.mp hd
        have := hc r hrd hb
        omega
    rcases prefix_concat_iff.mp hpre with heq | hpre
    · exact (append_inj' heq rfl).1 ▸ hr
    · exact hs s.log (mem_append_right _ (mem_singleton_self _)) before
        (hpre.trans hg.base_prefix) r (mem_eventRows_mono hg.base_prefix hr) hb hle

theorem Sealed.of_new_beat (hg : Grows s s' base (.heartbeat token epoch))
    (hnew : ∀ q, ¬Beat s q token epoch) (wall : Int) : Sealed s' token epoch wall := by
  intro l hl before hpre r hr _ _
  rcases hg.new l hl with hold | rfl
  · exact absurd ⟨l, hold, hpre⟩ (hnew before)
  · rcases prefix_concat_iff.mp hpre with heq | hpre
    · obtain rfl := (append_inj' heq rfl).1
      simpa [eventRows, Commit.eventRows] using hr
    · exact absurd ⟨s.log, mem_append_right _ (mem_singleton_self _),
        hpre.trans hg.base_prefix⟩ (hnew before)

theorem Proves.of_new_beat (hw : WallHolds s' wall)
    (hg : Grows s s' base (.heartbeat token epoch)) (hnew : ∀ q, ¬Beat s q token epoch) :
    Proves s' token epoch wall :=
  ⟨⟨base, .of_grows_self hg⟩, hw, .of_new_beat hg hnew wall⟩

/-- **Proofs are for ever.** A committed token that proves a wall proves it after every step. -/
theorem Proves.step (hp : Proves s token epoch wall) (hf : FloorKept s) (h : step s a = some s') :
    Proves s' token epoch wall := by
  obtain ⟨before, hb⟩ := hp.committed
  refine ⟨⟨before, hb.step h⟩, hp.holds.step h, ?_⟩
  cases logEffect_of_step h with
  | same ht _ =>
    intro l hl
    exact hp.sealed l (ht ▸ hl)
  | rows t ht hg hgrow =>
    exact hp.sealed.of_grows hgrow fun r hr hb => hp.holds.lt_createdAt hf ht hg hr hb
  | beat _ _ _ hgrow | seed _ _ _ _ hgrow =>
    exact hp.sealed.of_grows hgrow fun r hr => False.elim (not_mem_nil hr)

theorem PhaseOk.step {p : ProbePhase} (hp : PhaseOk s p) (hf : FloorKept s)
    (h : step s a = some s') : PhaseOk s' p := by
  cases p with
  | idle => exact hp
  | sampled _ _ => exact le_trans hp (clock_le_of_step h)
  | scanned _ _ _ | rotating _ _ => exact WallHolds.step hp h
  | committed _ _ | rotated _ _ _ _ _ => exact Proves.step hp hf h

theorem FenceOk.step (hp : FenceOk s f) (hf : FloorKept s) (h : step s a = some s') :
    FenceOk s' f :=
  fun epoch hepoch e he => (hp epoch hepoch e he).step hf h

/-! ### What the probes do -/

theorem wallHolds_fenceWall {sampledAt : Int} (h : sampledAt ≤ s.clock) :
    WallHolds s (fenceWall sampledAt (s.txns.map OpenTxn.start).min?) := by
  have hsample := fenceWall_le_sample sampledAt (s.txns.map OpenTxn.start).min?
  refine ⟨by omega, fun t ht => ?_⟩
  have hmem : t.start ∈ s.txns.map OpenTxn.start := mem_map_of_mem ht
  cases hmin : (s.txns.map OpenTxn.start).min? with
  | none => simp [min?_eq_none_iff.mp hmin] at hmem
  | some oldest =>
    have hle : oldest ≤ t.start := (min?_eq_some_iff.mp hmin).2 _ hmem
    have holdest := fenceWall_le_oldest sampledAt oldest
    have hmargin : 0 < seconds fenceClockMarginSecs := by decide
    omega

theorem phaseOk_update {i : Nat} {p : ProbePhase} (hs : s'.probes = update s.probes i p)
    (h : PhaseOk s' p) (j : Nat) : s'.probes j = s.probes j ∨ PhaseOk s' (s'.probes j) := by
  rw [hs]
  by_cases hj : j = i
  · rw [hj, update_self]
    exact Or.inr h
  · exact Or.inl (update_of_ne hj ..)

theorem fenceOk_update {pod : Nat} (hs : s'.fences = update s.fences pod f)
    (h : FenceOk s' f) (k : Nat) : s'.fences k = s.fences k ∨ FenceOk s' (s'.fences k) := by
  rw [hs]
  by_cases hk : k = pod
  · rw [hk, update_self]
    exact Or.inr h
  · exact Or.inl (update_of_ne hk ..)

theorem phaseOk_of_step (hI : Inv s) (h : step s a = some s') (i : Nat) :
    s'.probes i = s.probes i ∨ PhaseOk s' (s'.probes i) := by
  have hstep := h
  cases a with
  | sample j pod now =>
    simp only [step] at h
    split at h
    · split at h
      · cases h
        refine phaseOk_update rfl ?_ i
        exact le_max_right _ _
      · simp at h
    · simp at h
  | scan j =>
    simp only [step] at h
    split at h
    · rename_i pod sampledAt hphase
      cases h
      refine phaseOk_update rfl ?_ i
      have hclock : PhaseOk s (.sampled pod sampledAt) := hphase ▸ hI.probes j
      exact WallHolds.step (wallHolds_fenceWall hclock) hstep
    · simp at h
  | commitToken j committedAt =>
    simp only [step] at h
    split at h
    · rename_i pod sampledAt oldest hphase
      split at h
      · rename_i token epoch hrow
        cases h
        refine phaseOk_update rfl ?_ i
        have hwall : PhaseOk s (.scanned pod sampledAt oldest) := hphase ▸ hI.probes j
        exact .of_new_beat (WallHolds.step hwall hstep) (by exact grows_append rfl rfl)
          (hI.head.not_beat_succ hrow)
      · cases h
        exact phaseOk_update rfl (phaseOk_idle _) i
    · simp at h
  | record j =>
    simp only [step] at h
    split at h
    · rename_i pod w hphase
      have hproves : PhaseOk s (.committed pod w) := hphase ▸ hI.probes j
      split at h
      · cases h
        exact phaseOk_update rfl (phaseOk_idle _) i
      · cases h
        refine phaseOk_update rfl ?_ i
        exact WallHolds.step hproves.holds hstep
    · simp at h
  | rotate j epoch committedAt =>
    simp only [step] at h
    split at h
    · rename_i pod wall hphase
      split at h
      · rename_i hfresh
        split at h
        · rename_i token _ hrow
          cases h
          refine phaseOk_update rfl ?_ i
          have hwall : PhaseOk s (.rotating pod wall) := hphase ▸ hI.probes j
          exact .of_new_beat (WallHolds.step hwall hstep) (by exact grows_append rfl rfl)
            fun q => not_beat_of_freshEpoch hfresh q _
        · cases h
          exact phaseOk_update rfl (phaseOk_idle _) i
      · simp at h
    · simp at h
  | recordRotated j | probeFail j =>
    simp only [step] at h
    split at h
    · cases h
      exact phaseOk_update rfl (phaseOk_idle _) i
    · simp at h
  -- no other party moves a probe
  | _ =>
    simp only [step] at h
    repeat' split at h
    all_goals cases h
    all_goals exact Or.inl rfl

theorem fenceOk_of_step (hI : Inv s) (h : step s a = some s') (pod : Nat) :
    s'.fences pod = s.fences pod ∨ FenceOk s' (s'.fences pod) := by
  have hstep := h
  cases a with
  | commitToken j committedAt =>
    simp only [step] at h
    split at h
    · split at h
      · cases h
        exact Or.inl rfl
      · cases h
        exact fenceOk_update rfl (fenceOk_close _ _) pod
    · simp at h
  | record j =>
    simp only [step] at h
    split at h
    · rename_i p w hphase
      have hproves : PhaseOk s (.committed p w) := hphase ▸ hI.probes j
      have hrec := ((hI.fences p).record hproves w.committedAt).step hI.floor hstep
      split at h
      · rename_i f heq
        cases h
        rw [heq] at hrec
        exact fenceOk_update rfl hrec pod
      · rename_i f heq
        cases h
        rw [heq] at hrec
        exact fenceOk_update rfl hrec pod
    · simp at h
  | rotate j epoch committedAt =>
    simp only [step] at h
    split at h
    · split at h
      · split at h
        · cases h
          exact Or.inl rfl
        · cases h
          exact fenceOk_update rfl (fenceOk_close _ _) pod
      · simp at h
    · simp at h
  | recordRotated j =>
    simp only [step] at h
    split at h
    · rename_i p wall token epoch committedAt hphase
      have hproves : PhaseOk s (.rotated p wall token epoch committedAt) := hphase ▸ hI.probes j
      have hrec := ((hI.fences p).record hproves committedAt).step hI.floor hstep
      cases h
      exact fenceOk_update rfl hrec pod
    · simp at h
  | probeFail j =>
    simp only [step] at h
    split at h
    · cases h
      exact fenceOk_update rfl (fenceOk_close _ _) pod
    · simp at h
  -- no other step touches a fence
  | _ =>
    simp only [step] at h
    repeat' split at h
    all_goals cases h
    all_goals exact Or.inl rfl

/-! ### Every run -/

theorem inv_init (h : Init s) : Inv s := by
  obtain ⟨⟨prior, epoch, hprior, hlog⟩, harch, htxns, hprobes, hfences, -⟩ := h
  have hbeat : ∀ q M E, Beat s q M E → q = prior ∧ M = 0 ∧ E = epoch := by
    rintro q M E ⟨l, hl, hpre⟩
    rw [State.timelines, harch, nil_append, mem_singleton] at hl
    rw [hl, hlog] at hpre
    rcases prefix_concat_iff.mp hpre with heq | hpre
    · obtain ⟨hq, hc⟩ := append_inj' heq rfl
      obtain ⟨hM, hE⟩ := Commit.heartbeat.inj (singleton_inj.mp hc)
      exact ⟨hq, hM, hE⟩
    · have := hprior _ (hpre.subset (mem_append_right _ (mem_singleton_self _)))
      simp [Commit.heartbeat?] at this
  refine ⟨fun T E hrow q M hb => ?_, fun p q T M E hp hq _ => ?_, fun t ht => ?_, fun i => ?_,
    fun pod => ?_⟩
  · obtain ⟨-, rfl, -⟩ := hbeat q M E hb
    rw [hlog, heartbeatRow_append_heartbeat] at hrow
    obtain ⟨rfl, -⟩ := Prod.mk.injEq .. ▸ Option.some.inj hrow
    exact le_rfl
  · obtain ⟨rfl, rfl, rfl⟩ := hbeat p T E hp
    obtain ⟨rfl, rfl, -⟩ := hbeat q M E hq
    exact prefix_rfl
  · simp [htxns] at ht
  · rw [hprobes i]; trivial
  · rw [hfences pod]
    intro E _ e he
    simp [FenceInner.new] at he

theorem Inv.step (hI : Inv s) (h : step s a = some s') : Inv s' where
  head := hI.head.step h
  chain := hI.chain.step hI.head h
  floor := hI.floor.step h
  probes i := by
    rcases phaseOk_of_step hI h i with heq | hok
    · exact heq ▸ (hI.probes i).step hI.floor h
    · exact hok
  fences pod := by
    rcases fenceOk_of_step hI h pod with heq | hok
    · exact heq ▸ (hI.fences pod).step hI.floor h
    · exact hok

theorem inv_reachable (h : protocol.Reachable s) : Inv s :=
  h.invariant (I := Inv) (fun _ h => inv_init h) fun _ _ _ _ hI hs => hI.step hs

variable {as : List Action}

theorem Beat.run (hr : protocol.run s as = some s') (hb : Beat s before token epoch) :
    Beat s' before token epoch :=
  StateMachine.run_preserves (I := fun s => Beat s before token epoch)
    (fun _ _ _ hb hstep => Beat.step hstep hb) hr hb

/-- A proof once given survives every continuation of the run. -/
theorem proves_run (hs : protocol.Reachable s) (hr : protocol.run s as = some s')
    (hp : Proves s token epoch wall) : Proves s' token epoch wall :=
  hs.run_preserves (I := fun s => Proves s token epoch wall)
    (fun _ _ _ h₁ hp hstep => hp.step (inv_reachable h₁).floor hstep) hr hp

theorem beat_of_snapshot {p : Position} (h : heartbeatRow (s.snapshot p) = some (token, epoch)) :
    ∃ before, Beat s before token epoch ∧ before ++ [.heartbeat token epoch] <+: s.snapshot p := by
  obtain ⟨before, hpre⟩ := prefix_of_heartbeatRow h
  refine ⟨before, ?_, hpre⟩
  cases hl : s.timelines[p.timeline]? with
  | none =>
    rw [State.snapshot, hl] at h
    simp [heartbeatRow] at h
  | some l =>
    have htake : s.snapshot p <+: l := by
      rw [State.snapshot, hl]
      exact take_prefix _ _
    exact ⟨l, mem_of_getElem? hl, hpre.trans htake⟩

/-- **Soundness of the fence.** A reader takes a snapshot and observes a heartbeat token and epoch
in it; some time later a pod resolves the observation to a retained entry. Then the entry's token
is in the snapshot, and so is every channel-bearing row at or below the entry's wall that is ever
committed on a timeline of that token, however the run goes on. -/
theorem fence_sound {s₀ s₁ s₂ : State} {as bs : List Action} (hreach : protocol.Reachable s₀)
    (h₁ : protocol.run s₀ as = some s₁) (h₂ : protocol.run s₁ bs = some s₂)
    {replica pod : Nat} {observedToken : Int} {observedEpoch : Uuid} {e : TokenEntry}
    (hobs : heartbeatRow (s₀.snapshot (s₀.replicas replica)) = some (observedToken, observedEpoch))
    (hproved : (s₁.fences pod).resolve observedToken observedEpoch = .proved e) :
    .heartbeat e.token observedEpoch ∈ s₀.snapshot (s₀.replicas replica) ∧
      ∀ l ∈ s₂.timelines, .heartbeat e.token observedEpoch ∈ l →
        ∀ r ∈ eventRows l, r.channelBearing = true → r.createdAt ≤ e.fenceWall →
          r ∈ eventRows (s₀.snapshot (s₀.replicas replica)) := by
  have hreach₁ := hreach.run h₁
  have hI := inv_reachable (hreach₁.run h₂)
  obtain ⟨hepoch, hmem, hle, -⟩ := FenceInner.resolve_eq_proved_iff.mp hproved
  -- both the observation and the proof are still there at the end of the run
  have hproof := proves_run hreach₁ h₂ ((inv_reachable hreach₁).fences pod _ hepoch e hmem)
  obtain ⟨p, hp, hsnap⟩ := beat_of_snapshot hobs
  have hp := (hp.run h₁).run h₂
  have hbefore : ∀ q, Beat s₂ q e.token observedEpoch →
      q ++ [.heartbeat e.token observedEpoch] <+: s₀.snapshot (s₀.replicas replica) :=
    fun q hq => (hI.chain p q _ _ _ hp hq hle).trans hsnap
  constructor
  · obtain ⟨q, hq⟩ := hproof.committed
    exact (hbefore q hq).subset (by simp)
  · intro l hl htoken r hr hb hwall
    obtain ⟨q, rest, rfl⟩ := append_of_mem htoken
    have hpre : q ++ [.heartbeat e.token observedEpoch] <+:
        q ++ .heartbeat e.token observedEpoch :: rest := ⟨rest, by simp⟩
    have hrq := hproof.sealed _ hl q hpre r hr hb hwall
    exact mem_eventRows_mono ((prefix_append _ _).trans (hbefore q ⟨_, hl, hpre⟩)) hrq

/-! ### A run -/

/-- A database whose heartbeat row was seeded at 10000 s. -/
def seeded : State where
  clock := seconds 10000
  archive := []
  log := [.heartbeat 0 0#128]
  txns := []
  probes _ := .idle
  fences _ := .new
  replicas _ := ⟨0, 0⟩

/-- A transaction commits a channel row that is 901 s old; a handshake at 20000 s, with one
transaction open since 19990 s, records a token; replica 0 replays up to the token. -/
def handshake : List Action :=
  [.begin 1 (seconds 10000), .insert 1 ⟨1, some 7#128, seconds 9100⟩, .guard 1 (seconds 10001),
    .commit 1, .begin 2 (seconds 19990), .sample 0 0 (seconds 20000), .scan 0, .commitToken 0 0,
    .record 0, .replay 0, .replay 0, .replay 0]

/-- The transaction that was open at the scan commits a row as old as the guard allows. -/
def lateCommit : List Action :=
  [.insert 2 ⟨2, some 7#128, seconds 19041⟩, .guard 2 (seconds 20001), .commit 2]

theorem isSome_handshake : (protocol.run seeded handshake).isSome := by decide

/-- The state in which replica 0 has replayed the token. -/
def replayed : State := (protocol.run seeded handshake).get isSome_handshake

theorem isSome_lateCommit : (protocol.run replayed lateCommit).isSome := by decide

theorem fence_sound_lateCommit :
    (replayed.fences 0).resolve 1 0#128 = .proved ⟨1, 0, seconds 19025⟩ ∧
      ⟨1, some 7#128, seconds 9100⟩ ∈ eventRows (replayed.snapshot (replayed.replicas 0)) := by
  have hreach : protocol.Reachable replayed :=
    ⟨seeded, handshake, ⟨⟨[], 0#128, by simp, rfl⟩, rfl, rfl, fun _ => rfl, fun _ => rfl,
      fun _ => ⟨rfl, Nat.zero_le _⟩⟩, (Option.some_get _).symm⟩
  have hproved : (replayed.fences 0).resolve 1 0#128 = .proved ⟨1, 0, seconds 19025⟩ := by decide
  have hobs : heartbeatRow (replayed.snapshot (replayed.replicas 0)) = some (1, 0#128) := by decide
  have h := fence_sound hreach (protocol.run_nil replayed)
    (Option.some_get isSome_lateCommit).symm hobs hproved
  exact ⟨hproved, h.2 _ (mem_append_right _ (mem_singleton_self _)) (by decide)
    ⟨1, some 7#128, seconds 9100⟩ (by decide) rfl (by decide)⟩

end Buzz.ReplicaFence
