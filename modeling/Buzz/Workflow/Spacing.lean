import Buzz.Workflow.Claims

/-!
# How far runs of an interval are apart

An anchor in memory is the reading of the tick that fired. The durable anchor is the start of the
bucket that was claimed, which may be almost an interval earlier. A pod that has lost its memory
measures from the durable anchor, so it fires again as soon as the next bucket starts.
-/

namespace Buzz.Workflow

open List Option

/-- The trigger is an interval of this length. -/
def TriggerDef.isInterval (secs : Nat) : TriggerDef → Bool
  | .schedule none (some dur) =>
    match parseDurationSecs dur with
    | .ok n => n == secs
    | .error _ => false
  | _ => false

/-- If the row is that of the workflow, its trigger is an interval of this length. -/
def WorkflowRecord.hasInterval (key : Key) (secs : Nat) (row : WorkflowRecord) : Bool :=
  row.key != key || row.definition.all fun d => d.trigger.isInterval secs

/-- A step of the one pod; when the workflow is loaded, its trigger is an interval of this length. -/
def ofInterval (key : Key) (secs : Nat) (a : Action) : Bool :=
  a.pod == 0 &&
    match a with
    | .tick _ _ (some workflows) => workflows.all fun row => row.hasInterval key secs
    | _ => true

/-- The reading is in the bucket after that of the run, and nearer to its start. -/
def early (secs : Nat) (now : DateTime) (r : Run) : Bool :=
  decide (bucketStart secs now = r.scheduledFor.nanos + secondsNanos secs) &&
    decide (now.nanos - bucketStart secs now < r.timestamp.nanos - r.scheduledFor.nanos)

/-- The anchor of a tick is sound. The clock was not set back by an interval behind it. Without an
anchor in memory, the tick is not early after the last run, and when there is no anchor to be had,
the clock is not behind a run. -/
def steadyAnchor (key : Key) (secs : Nat) (w : World) (readable : Bool) (now : DateTime) : Bool :=
  match (w.pods 0).lastFired key with
  | some anchor => decide (anchor.nanos < now.nanos + secondsNanos secs)
  | none =>
    if readable then
      (latestScheduledWorkflowFire key w.fires).all fun start =>
        decide (start.nanos < now.nanos + secondsNanos secs) &&
          w.runs.all fun r => !(r.key == key && r.scheduledFor == start && early secs now r)
    else w.runs.all fun r => r.key != key || decide (r.timestamp.nanos ≤ now.nanos)

/-- A step of the one pod that looks at the workflow has a sound anchor. -/
def steady (key : Key) (secs : Nat) (w : World) (a : Action) : Bool :=
  ofInterval key secs a &&
    match a, (w.pods 0).phase with
    | .resolve _ readable, .scanning ⟨now, _, next :: _⟩ =>
      next.key != key || steadyAnchor key secs w readable now
    | _, _ => true

/-- Two runs of the workflow are an interval apart, by the clock. -/
def Apart (key : Key) (secs : Nat) (w : World) : Prop :=
  w.runs.Pairwise fun r r' => r.key = key → r'.key = key →
    secondsNanos secs ≤ ((r.timestamp.nanos - r'.timestamp.nanos).natAbs : Int)

/-! ### Buckets -/

variable {now : DateTime}

theorem bucketStart_eq {secs : Nat} {q : Int} (hle : q * secondsNanos secs ≤ now.nanos)
    (hlt : now.nanos < q * secondsNanos secs + secondsNanos secs) :
    bucketStart secs now = q * secondsNanos secs := by
  have hspan : 0 < secondsNanos secs := by omega
  have hq : now.nanos / secondsNanos secs = q := by
    refine Int.le_antisymm (Int.lt_add_one_iff.mp ?_) ((Int.le_ediv_iff_mul_le hspan).mpr hle)
    refine (Int.ediv_lt_iff_lt_mul hspan).mpr ?_
    rwa [Int.add_mul, Int.one_mul]
  rw [bucketStart, hq]

theorem starts_apart {secs : Nat} {q q' : Int} (h : q * secondsNanos secs < q' * secondsNanos secs) :
    q * secondsNanos secs + secondsNanos secs ≤ q' * secondsNanos secs := by
  have hspan : 0 ≤ secondsNanos secs := by unfold secondsNanos; omega
  have hlt : q < q' := Int.lt_of_mul_lt_mul_right h hspan
  have hmul := Int.mul_le_mul_of_nonneg_right (Int.add_one_le_iff.mpr hlt) hspan
  rwa [Int.add_mul, Int.one_mul] at hmul

/-! ### The durable anchor -/

variable {fires : List Fire}

theorem le_latest {key : Key} {f : Fire} (hf : f ∈ fires) (hkey : f.key = key) :
    ∃ start, latestScheduledWorkflowFire key fires = some start ∧
      f.scheduledFor.nanos ≤ start.nanos := by
  induction fires with
  | nil => nomatch hf
  | cons g fires ih =>
    unfold latestScheduledWorkflowFire
    obtain rfl | hf := mem_cons.mp hf
    · rw [if_pos hkey]
      split
      · exact ⟨_, rfl, Int.le_refl _⟩
      · refine ⟨_, rfl, ?_⟩
        split
        · exact Int.le_refl _
        · omega
    · obtain ⟨start, hstart, hle⟩ := ih hf
      rw [hstart]
      split
      · refine ⟨_, rfl, ?_⟩
        split
        · omega
        · exact hle
      · exact ⟨start, rfl, hle⟩

theorem mem_latest {key : Key} {start : DateTime}
    (h : latestScheduledWorkflowFire key fires = some start) :
    ∃ f ∈ fires, f.key = key ∧ f.scheduledFor = start := by
  induction fires with
  | nil => nomatch h
  | cons g fires ih =>
    unfold latestScheduledWorkflowFire at h
    dsimp only at h
    split at h
    · next hkey =>
      split at h
      · exact ⟨g, mem_cons_self, hkey, some.inj h⟩
      · next t hrest =>
        have h := some.inj h
        split at h
        · exact ⟨g, mem_cons_self, hkey, h⟩
        · subst h
          obtain ⟨f, hf, hmatch⟩ := ih hrest
          exact ⟨f, mem_cons_of_mem _ hf, hmatch⟩
    · obtain ⟨f, hf, hmatch⟩ := ih h
      exact ⟨f, mem_cons_of_mem _ hf, hmatch⟩

/-! ### Resolving -/

theorem resolve_fst (lib : CronLib) (lastFired : LastFired) (latest : Option (Option DateTime))
    (now : DateTime) (row : WorkflowRecord) :
    (resolve lib lastFired latest now row).1 = lastFired ∨
      (lastFired row.key).or latest.join = none ∧
        resolve lib lastFired latest now row = (lastFired.insert row.key now, none) := by
  unfold resolve
  split
  · exact .inl rfl
  · next dur _ hdef _ =>
    dsimp only
    unfold intervalPrefilterShouldFire
    split
    · next heq =>
      split at heq
      · exact .inl (Prod.mk.inj heq).2.symm
      · split at heq
        · nomatch (Prod.mk.inj heq).1
        · nomatch (Prod.mk.inj heq).1
    · next heq =>
      split at heq
      · nomatch (Prod.mk.inj heq).1
      · split at heq
        · next hnone =>
          obtain rfl := (Prod.mk.inj heq).2
          exact .inr ⟨isNone_iff_eq_none.mp hnone, rfl⟩
        · exact .inl (Prod.mk.inj heq).2.symm
  · exact .inl rfl

theorem parse_of_isInterval {secs : Nat} {dur : String}
    (h : TriggerDef.isInterval secs (.schedule none (some dur)) = true) :
    parseDurationSecs dur = .ok secs := by
  dsimp only [TriggerDef.isInterval] at h
  cases hparse : parseDurationSecs dur with
  | error e =>
    rw [hparse] at h
    nomatch h
  | ok n =>
    rw [hparse] at h
    exact congrArg Except.ok (of_decide_eq_true h)

theorem intervalPrefilterShouldFire_fst (lastFired : LastFired) (key : Key) (dur : String)
    (last : Option DateTime) (now : DateTime) :
    (intervalPrefilterShouldFire lastFired key dur last now).1 = intervalShouldFire dur last now := by
  unfold intervalPrefilterShouldFire
  split
  · next hfire => exact hfire.symm
  · next hfire =>
    split
    · exact (Bool.eq_false_of_not_eq_true hfire).symm
    · exact (Bool.eq_false_of_not_eq_true hfire).symm

theorem elapsed_of_due {dur : String} {secs : Nat} {last : Option DateTime} {instant : DateTime}
    (hparse : parseDurationSecs dur = .ok secs) (hfire : intervalShouldFire dur last now = true)
    (hinstant : intervalFireInstant dur now = some instant) :
    0 < secs ∧ instant.nanos = bucketStart secs now ∧ ∃ anchor, last = some anchor ∧
      (anchor.nanos + secondsNanos secs ≤ now.nanos ∨
        now.nanos + secondsNanos secs ≤ anchor.nanos) := by
  cases last with
  | some anchor =>
    have hsecs := asI64_of_intervalShouldFire hparse hfire
    obtain ⟨hpos, hstart⟩ := nanos_intervalFireInstant hparse hsecs hinstant
    exact ⟨hpos, hstart, anchor, rfl, elapsed_of_intervalShouldFire hparse hfire⟩
  | none =>
    exfalso
    obtain rfl | hpos := Nat.eq_zero_or_pos secs
    · unfold intervalFireInstant at hinstant
      rw [hparse] at hinstant
      nomatch hinstant
    · exact Bool.false_ne_true ((not_intervalShouldFire_none hparse hpos).symm.trans hfire)

variable {lib : CronLib}

theorem resolve_interval {lastFired lastFired' : LastFired} {latest : Option (Option DateTime)}
    {instant : DateTime} {row : WorkflowRecord} {secs : Nat} {trigger : TriggerType}
    (hrow : row.hasInterval row.key secs = true)
    (h : resolve lib lastFired latest now row = (lastFired', some (instant, trigger))) :
    trigger = .interval ∧ 0 < secs ∧ instant.nanos = bucketStart secs now ∧
      ∃ anchor, (lastFired row.key).or latest.join = some anchor ∧
        (anchor.nanos + secondsNanos secs ≤ now.nanos ∨
          now.nanos + secondsNanos secs ≤ anchor.nanos) := by
  unfold WorkflowRecord.hasInterval at hrow
  rw [bne_self_eq_false, Bool.false_or] at hrow
  unfold resolve at h
  split at h
  · next hdef _ =>
    rw [hdef] at hrow
    nomatch hrow
  · next dur _ hdef _ =>
    rw [hdef, all_some] at hrow
    have hparse := parse_of_isInterval hrow
    dsimp only at h
    have hfst := intervalPrefilterShouldFire_fst lastFired row.key dur
      ((lastFired row.key).or latest.join) now
    split at h
    · next heq =>
      rw [heq] at hfst
      obtain ⟨t, hinstant, hpair⟩ := map_eq_some_iff.mp (Prod.mk.inj h).2
      obtain ⟨rfl, rfl⟩ := Prod.mk.inj hpair
      exact ⟨rfl, elapsed_of_due hparse hfst.symm hinstant⟩
    · nomatch (Prod.mk.inj h).2
  · nomatch (Prod.mk.inj h).2

/-! ### The invariant -/

def Phase.scan : Phase → Option Scan
  | .sleeping => none
  | .scanning scan | .due scan _ | .claimed scan _ | .created scan _ _ => some scan

/-- The workflow that is due and has no run yet, and its tick. -/
def Phase.pending : Phase → Option (Scan × Due)
  | .due scan d | .claimed scan d => some (scan, d)
  | _ => none

/-- The workflow whose run was created last, and its tick. -/
def Phase.made : Phase → Option (Scan × Due)
  | .created scan d _ => some (scan, d)
  | _ => none

/-- Anchors, claims and runs of a workflow with an interval. -/
structure Pace (key : Key) (secs : Nat) (w : World) : Prop where
  rows : ∀ scan, (w.pods 0).phase.scan = some scan →
    ∀ row ∈ scan.rest, row.hasInterval key secs = true
  fire : ∀ f ∈ w.fires, f.key = key → ∃ q, f.scheduledFor.nanos = q * secondsNanos secs
  run : ∀ r ∈ w.runs, r.key = key →
    0 < secs ∧ r.scheduledFor.nanos = bucketStart secs r.timestamp
  anchor : ∀ anchor, (w.pods 0).lastFired key = some anchor → (w.pods 0).phase.made = none →
    ∀ r ∈ w.runs, r.key = key → r.timestamp.nanos ≤ anchor.nanos
  /-- A workflow that is due is so for the start of the bucket, an interval after all runs. -/
  pending : ∀ scan d, (w.pods 0).phase.pending = some (scan, d) → d.key = key →
    d.trigger = .interval ∧ 0 < secs ∧ d.scheduledFor.nanos = bucketStart secs scan.now ∧
      ∀ r ∈ w.runs, r.key = key → r.timestamp.nanos + secondsNanos secs ≤ scan.now.nanos
  /-- After a run, the anchor in memory is that of another workflow, or about to be set. -/
  made : ∀ scan d, (w.pods 0).phase.made = some (scan, d) →
    (d.key = key → d.trigger = .interval ∧
      ∀ r ∈ w.runs, r.key = key → r.timestamp.nanos ≤ scan.now.nanos) ∧
    (d.key ≠ key → ∀ anchor, (w.pods 0).lastFired key = some anchor →
      ∀ r ∈ w.runs, r.key = key → r.timestamp.nanos ≤ anchor.nanos)
  apart : Apart key secs w

variable {key : Key} {secs : Nat} {w : World}

theorem Pace.setPod (h : Pace key secs w) {p : Pod}
    (hpending : ∀ scan d, p.phase.pending = some (scan, d) → d.key = key →
      d.trigger = .interval ∧ 0 < secs ∧ d.scheduledFor.nanos = bucketStart secs scan.now ∧
        ∀ r ∈ w.runs, r.key = key → r.timestamp.nanos + secondsNanos secs ≤ scan.now.nanos)
    (hmade : p.phase.made = none)
    (hrows : ∀ scan, p.phase.scan = some scan → ∀ row ∈ scan.rest, row.hasInterval key secs = true)
    (hanchor : ∀ anchor, p.lastFired key = some anchor →
      ∀ r ∈ w.runs, r.key = key → r.timestamp.nanos ≤ anchor.nanos) :
    Pace key secs (w.setPod 0 p) := by
  have hp : (w.setPod 0 p).pods 0 = p := World.pods_setPod.trans (if_pos rfl)
  refine ⟨?_, h.fire, h.run, ?_, ?_, ?_, h.apart⟩
  · rwa [hp]
  · rw [hp]
    exact fun anchor hlast _ => hanchor anchor hlast
  · rwa [hp]
  · rw [hp]
    intro scan d hd
    nomatch hmade.symm.trans hd

theorem Pace.sound (h : Pace key secs w) (hmade : (w.pods 0).phase.made = none)
    (anchor : DateTime) (hlast : (w.pods 0).lastFired key = some anchor) :
    ∀ r ∈ w.runs, r.key = key → r.timestamp.nanos ≤ anchor.nanos :=
  h.anchor anchor hlast hmade

variable {scan : Scan}

theorem Pace.skip (h : Pace key secs w) (hmade : (w.pods 0).phase.made = none)
    (hrows : ∀ row ∈ scan.rest, row.hasInterval key secs = true) :
    Pace key secs (w.skip 0 scan) := by
  refine h.setPod (fun _ _ hd => nomatch hd) rfl (fun scan' hscan => ?_) (h.sound hmade)
  cases hscan
  exact hrows

variable {d : Due}

theorem Pace.advance (h : Pace key secs w)
    (hrows : ∀ row ∈ scan.rest, row.hasInterval key secs = true)
    (hself : d.key = key → d.trigger = .interval ∧
      ∀ r ∈ w.runs, r.key = key → r.timestamp.nanos ≤ scan.now.nanos)
    (hother : d.key ≠ key → ∀ anchor, (w.pods 0).lastFired key = some anchor →
      ∀ r ∈ w.runs, r.key = key → r.timestamp.nanos ≤ anchor.nanos) :
    Pace key secs (w.advance 0 scan d) := by
  refine h.setPod (fun _ _ hd => nomatch hd) rfl (fun scan' hscan => ?_) fun anchor hlast => ?_
  · cases hscan
    exact hrows
  · by_cases hkey : d.key = key
    · obtain ⟨htrigger, hbefore⟩ := hself hkey
      rw [htrigger] at hlast
      obtain rfl := some.inj ((if_pos hkey.symm).symm.trans hlast)
      exact hbefore
    · refine hother hkey anchor ?_
      split at hlast
      · exact (if_neg fun heq => hkey heq.symm).symm.trans hlast
      · exact hlast

theorem Pace.insert (h : Pace key secs w) (hphase : (w.pods 0).phase = .due scan d) :
    Pace key secs { w with fires := ⟨d.key, d.scheduledFor, none⟩ :: w.fires } where
  __ := h
  fire := forall_mem_cons.mpr ⟨fun hkey => by
    have hpending := h.pending scan d (by rw [hphase]; rfl) hkey
    exact ⟨_, hpending.2.2.1⟩, h.fire⟩

theorem Pace.claim (h : Pace key secs w) (hphase : (w.pods 0).phase = .due scan d)
    (answer : ClaimAnswer) : Pace key secs (w.claim 0 scan d answer) := by
  have hmade : (w.pods 0).phase.made = none := by rw [hphase]; rfl
  have hrows := h.rows scan (by rw [hphase]; rfl)
  have hdue := h.pending scan d (by rw [hphase]; rfl)
  have hlost : Pace key secs (w.advance 0 scan d) := by
    refine h.advance hrows (fun hkey => ⟨(hdue hkey).1, fun r hr hrkey => ?_⟩)
      fun _ => h.sound hmade
    have hbefore := (hdue hkey).2.2.2 r hr hrkey
    have hspan : 0 ≤ secondsNanos secs := by unfold secondsNanos; omega
    omega
  have hcases := claimScheduledWorkflowFire_cases w.fires d.key d.scheduledFor
  match answer with
  | .answered true =>
    obtain ⟨-, heq⟩ | ⟨-, heq⟩ := hcases
    · rwa [World.claim, heq]
    · rw [World.claim, heq]
      refine (h.insert hphase).setPod (fun scan' d' hd => ?_) rfl (fun scan' hscan => ?_)
        (h.sound hmade)
      · obtain ⟨rfl, rfl⟩ := Prod.mk.inj (some.inj hd)
        exact hdue
      · cases hscan
        exact hrows
  | .answered false => exact hlost
  | .failed true =>
    obtain ⟨-, heq⟩ | ⟨-, heq⟩ := hcases
    · rw [World.claim, heq]
      exact h.skip hmade hrows
    · rw [World.claim, heq]
      exact (h.insert hphase).skip hmade hrows
  | .failed false => exact h.skip hmade hrows

theorem Pace.attach (h : Pace key secs w) (d : Due) (runId : Uuid) (attached : Bool) :
    Pace key secs { w with fires := if attached then
      attachScheduledWorkflowRun w.fires d.key d.scheduledFor runId else w.fires } where
  __ := h
  fire := by
    split
    · intro f hf hkey
      obtain ⟨g, hg, rfl⟩ := mem_map.mp hf
      split at hkey
      · next hlinked => exact (if_pos hlinked).symm ▸ h.fire g hg hkey
      · next hlinked => exact (if_neg hlinked).symm ▸ h.fire g hg hkey
    · exact h.fire

theorem Pace.create (h : Pace key secs w) {runId : Uuid}
    (hphase : (w.pods 0).phase = .claimed scan d) :
    Pace key secs ({ w with runs := ⟨runId, d.key, d.scheduledFor, scan.now⟩ :: w.runs }.setPod 0
      { w.pods 0 with phase := .created scan d runId }) := by
  have hdue := h.pending scan d (by rw [hphase]; rfl)
  have hmade : (w.pods 0).phase.made = none := by rw [hphase]; rfl
  have hp : ∀ v : World, (v.setPod 0 { w.pods 0 with phase := .created scan d runId }).pods 0 =
      { w.pods 0 with phase := .created scan d runId } :=
    fun v => World.pods_setPod.trans (if_pos rfl)
  have hspan : 0 ≤ secondsNanos secs := by unfold secondsNanos; omega
  refine ⟨fun scan' hscan => ?_, h.fire, ?_, fun _ _ hmade' => ?_, fun _ _ hpending => ?_,
    fun scan' d' hmade' => ?_, ?_⟩
  · rw [hp] at hscan
    refine h.rows scan' ?_
    rwa [hphase]
  · exact forall_mem_cons.mpr ⟨fun hkey => ⟨(hdue hkey).2.1, (hdue hkey).2.2.1⟩, h.run⟩
  · rw [hp] at hmade'
    nomatch hmade'
  · rw [hp] at hpending
    nomatch hpending
  · rw [hp] at hmade' ⊢
    obtain ⟨rfl, rfl⟩ := Prod.mk.inj (some.inj hmade')
    refine ⟨fun hkey => ⟨(hdue hkey).1, forall_mem_cons.mpr ⟨fun _ => Int.le_refl _, ?_⟩⟩,
      fun hkey anchor hlast => forall_mem_cons.mpr ⟨fun heq => absurd heq hkey, ?_⟩⟩
    · intro r hr hrkey
      have hbefore := (hdue hkey).2.2.2 r hr hrkey
      omega
    · exact h.sound hmade anchor hlast
  · refine pairwise_cons.mpr ⟨fun r hr hkey hrkey => ?_, h.apart⟩
    have hbefore := (hdue hkey).2.2.2 r hr hrkey
    dsimp only
    omega

/-! ### Anchors -/

theorem Pace.run_le_latest (h : Pace key secs w) (hinv : Inv w) {r : Run} (hr : r ∈ w.runs)
    (hkey : r.key = key) : ∃ start, latestScheduledWorkflowFire key w.fires = some start ∧
      r.scheduledFor.nanos ≤ start.nanos ∧ ∃ q q', r.scheduledFor.nanos = q * secondsNanos secs ∧
        start.nanos = q' * secondsNanos secs := by
  obtain ⟨f, hf, hslot⟩ := mem_map.mp (hinv.backed r hr)
  obtain ⟨hfkey, hinstant⟩ := Prod.mk.inj hslot
  obtain ⟨start, hstart, hle⟩ := le_latest hf (hfkey.trans hkey)
  obtain ⟨g, hg, hgkey, rfl⟩ := mem_latest hstart
  obtain ⟨q', hq'⟩ := h.fire g hg hgkey
  rw [hinstant] at hle
  exact ⟨_, hstart, hle, _, q', (h.run r hr hkey).2, hq'⟩

variable {readable : Bool}

theorem Pace.elapsed (h : Pace key secs w) (hinv : Inv w) (hmade : (w.pods 0).phase.made = none)
    {anchor : DateTime} (hsteady : steadyAnchor key secs w readable now = true)
    (hanchor : ((w.pods 0).lastFired key).or (if readable then
        some (latestScheduledWorkflowFire key w.fires) else none).join = some anchor)
    (helapsed : anchor.nanos + secondsNanos secs ≤ now.nanos ∨
      now.nanos + secondsNanos secs ≤ anchor.nanos) :
    ∀ r ∈ w.runs, r.key = key → r.timestamp.nanos + secondsNanos secs ≤ now.nanos := by
  intro r hr hkey
  unfold steadyAnchor at hsteady
  cases hmemory : (w.pods 0).lastFired key with
  | some last =>
    rw [hmemory] at hsteady hanchor
    obtain rfl := some.inj hanchor
    have hforward := of_decide_eq_true hsteady
    have hbefore := h.sound hmade last hmemory r hr hkey
    omega
  | none =>
    rw [hmemory] at hsteady hanchor
    cases readable with
    | false => nomatch hanchor
    | true =>
      have hlatest : latestScheduledWorkflowFire key w.fires = some anchor := hanchor
      rw [if_pos rfl, hlatest, all_some] at hsteady
      obtain ⟨hforward, hearly⟩ := (Bool.and_eq_true _ _).mp hsteady
      have hforward := of_decide_eq_true hforward
      have hnot := all_eq_true.mp hearly r hr
      obtain ⟨start, hstart, hle, q, q', hq, hq'⟩ := h.run_le_latest hinv hr hkey
      obtain rfl := some.inj (hlatest.symm.trans hstart)
      obtain ⟨hpos, hrun⟩ := h.run r hr hkey
      have hbucket := bucketStart_le hpos r.timestamp
      by_cases heq : r.scheduledFor.nanos = anchor.nanos
      · -- The last run: the tick is in a later bucket, and not early in the next one.
        have hsame : r.scheduledFor = anchor := by
          cases hs : r.scheduledFor
          cases anchor
          rw [hs] at heq
          obtain rfl : _ = _ := heq
          rfl
        by_contra hnear
        have hnext : bucketStart secs now = (q' + 1) * secondsNanos secs := by
          refine bucketStart_eq ?_ ?_
          · rw [Int.add_mul, Int.one_mul]
            omega
          · rw [Int.add_mul, Int.one_mul]
            omega
        rw [Int.add_mul, Int.one_mul, ← hq'] at hnext
        have hearly : early secs now r = true :=
          (Bool.and_eq_true _ _).mpr ⟨decide_eq_true (by omega), decide_eq_true (by omega)⟩
        rw [hearly, Bool.and_true, Bool.not_eq_true', Bool.and_eq_false_iff] at hnot
        exact hnot.elim (fun hno => absurd hkey (beq_eq_false_iff_ne.mp hno))
          fun hno => absurd hsame (beq_eq_false_iff_ne.mp hno)
      · -- An earlier run: a bucket lies between.
        have hapart : q * secondsNanos secs + secondsNanos secs ≤ q' * secondsNanos secs :=
          starts_apart (by omega)
        omega

theorem Pace.seed (h : Pace key secs w) (hinv : Inv w)
    (hsteady : steadyAnchor key secs w readable now = true)
    (hnone : ((w.pods 0).lastFired key).or (if readable then
        some (latestScheduledWorkflowFire key w.fires) else none).join = none) :
    ∀ r ∈ w.runs, r.key = key → r.timestamp.nanos ≤ now.nanos := by
  intro r hr hkey
  obtain ⟨hmemory, hdurable⟩ := or_eq_none_iff.mp hnone
  unfold steadyAnchor at hsteady
  rw [hmemory] at hsteady
  cases readable with
  | false =>
    have hbefore := all_eq_true.mp hsteady r hr
    rw [bne_eq_false_iff_eq.mpr hkey, Bool.false_or] at hbefore
    exact of_decide_eq_true hbefore
  | true =>
    obtain ⟨start, hstart, -⟩ := h.run_le_latest hinv hr hkey
    nomatch hstart.symm.trans hdurable

theorem Pace.resolve (h : Pace key secs w) (hinv : Inv w) (lib : CronLib)
    {workflows rest : List WorkflowRecord} {next : WorkflowRecord} {lastFired : LastFired}
    {outcome : Option (DateTime × TriggerType)}
    (hphase : (w.pods 0).phase = .scanning ⟨now, workflows, next :: rest⟩)
    (hsteady : next.key = key → steadyAnchor key secs w readable now = true)
    (hresolve : resolve lib (w.pods 0).lastFired (if readable then
        some (latestScheduledWorkflowFire next.key w.fires) else none) now next =
      (lastFired, outcome)) :
    (∀ anchor, lastFired key = some anchor →
      ∀ r ∈ w.runs, r.key = key → r.timestamp.nanos ≤ anchor.nanos) ∧
    ∀ instant trigger, outcome = some (instant, trigger) → next.key = key →
      trigger = .interval ∧ 0 < secs ∧ instant.nanos = bucketStart secs now ∧
        ∀ r ∈ w.runs, r.key = key → r.timestamp.nanos + secondsNanos secs ≤ now.nanos := by
  have hmade : (w.pods 0).phase.made = none := by rw [hphase]; rfl
  have hrow := h.rows _ (by rw [hphase]; rfl) next mem_cons_self
  refine ⟨fun anchor hlast => ?_, fun instant trigger hdue hkey => ?_⟩
  · obtain hsame | ⟨hnone, hseed⟩ := resolve_fst lib (w.pods 0).lastFired
      (if readable then some (latestScheduledWorkflowFire next.key w.fires) else none) now next
    · rw [hresolve] at hsame
      exact h.sound hmade anchor (hsame ▸ hlast)
    · obtain ⟨rfl, -⟩ := Prod.mk.inj (hresolve.symm.trans hseed)
      by_cases hkey : key = next.key
      · obtain rfl := some.inj ((if_pos hkey).symm.trans hlast)
        rw [← hkey] at hnone
        exact h.seed hinv (hsteady hkey.symm) hnone
      · exact h.sound hmade anchor ((if_neg hkey).symm.trans hlast)
  · obtain rfl := hkey
    obtain rfl := hdue
    obtain ⟨htrigger, hpos, hstart, anchor, hanchor, helapsed⟩ := resolve_interval hrow hresolve
    exact ⟨htrigger, hpos, hstart, h.elapsed hinv hmade (hsteady rfl) hanchor helapsed⟩

/-! ### Runs -/

theorem Pace.step (h : Pace key secs w) (hinv : Inv w) {w' : World} {a : Action}
    (hsteady : steady key secs w a = true) (hs : w.step lib a = some w') : Pace key secs w' := by
  obtain ⟨hkind, hanchor⟩ := (Bool.and_eq_true _ _).mp hsteady
  obtain ⟨hpod, hloaded⟩ := (Bool.and_eq_true _ _).mp hkind
  have hpod : a.pod = 0 := beq_iff_eq.mp hpod
  cases a with
  | tick pod now loaded =>
    obtain rfl : pod = 0 := hpod
    dsimp only [World.step] at hs
    split at hs
    · next workflows hphase =>
      cases hs
      exact h.skip (by rw [hphase]; rfl) (all_eq_true.mp hloaded)
    · cases hs
      exact h
    · nomatch hs
  | resolve pod readable =>
    obtain rfl : pod = 0 := hpod
    dsimp only [World.step] at hs
    split at hs
    · next now workflows next rest hphase =>
      have hrows := h.rows _ (by rw [hphase]; rfl)
      have hsound : next.key = key → steadyAnchor key secs w readable now = true := by
        intro hkey
        rw [hphase] at hanchor
        dsimp only at hanchor
        rwa [bne_eq_false_iff_eq.mpr hkey, Bool.false_or] at hanchor
      split at hs
      · next lastFired instant trigger hresolve =>
        cases hs
        obtain ⟨hanchors, hdue⟩ := h.resolve hinv lib hphase hsound hresolve
        refine h.setPod (fun scan d hd hkey => ?_) rfl (fun scan hscan => ?_) hanchors
        · obtain ⟨rfl, rfl⟩ := Prod.mk.inj (some.inj hd)
          exact hdue instant trigger rfl hkey
        · cases hscan
          exact fun row hmem => hrows row (mem_cons_of_mem _ hmem)
      · next lastFired hresolve =>
        cases hs
        obtain ⟨hanchors, -⟩ := h.resolve hinv lib hphase hsound hresolve
        refine h.setPod (fun _ _ hd => nomatch hd) rfl (fun scan hscan => ?_) hanchors
        cases hscan
        exact fun row hmem => hrows row (mem_cons_of_mem _ hmem)
    · nomatch hs
  | finish pod =>
    obtain rfl : pod = 0 := hpod
    dsimp only [World.step] at hs
    split at hs
    · next hphase =>
      cases hs
      refine h.setPod (fun _ _ hd => nomatch hd) rfl (fun _ hscan => nomatch hscan)
        fun anchor hlast => ?_
      exact h.sound (by rw [hphase]; rfl) anchor (ite_none_right_eq_some.mp hlast).2
    · nomatch hs
  | claim pod authorized answer =>
    obtain rfl : pod = 0 := hpod
    dsimp only [World.step] at hs
    split at hs
    · next scan d hphase =>
      split at hs
      · cases hs
        exact h.claim hphase answer
      · cases hs
        exact h.skip (by rw [hphase]; rfl) (h.rows scan (by rw [hphase]; rfl))
    · nomatch hs
  | create pod runId =>
    obtain rfl : pod = 0 := hpod
    dsimp only [World.step] at hs
    split at hs
    · next scan d hphase =>
      cases hs
      cases runId with
      | none => exact h.skip (by rw [hphase]; rfl) (h.rows scan (by rw [hphase]; rfl))
      | some runId => exact h.create hphase
    · nomatch hs
  | attach pod attached =>
    obtain rfl : pod = 0 := hpod
    dsimp only [World.step] at hs
    split at hs
    · next scan d runId hphase =>
      cases hs
      obtain ⟨hself, hother⟩ := h.made scan d (by rw [hphase]; rfl)
      refine (h.attach d runId attached).advance (h.rows scan (by rw [hphase]; rfl)) hself hother
    · nomatch hs
  | restart pod =>
    obtain rfl : pod = 0 := hpod
    cases hs
    exact h.setPod (fun _ _ hd => nomatch hd) rfl (fun _ hscan => nomatch hscan)
      fun _ hlast => nomatch hlast

theorem Pace.init (hw : (scheduler lib).Init w) : Pace key secs w := by
  obtain rfl := hw
  have hphase : Pod.start.phase = .sleeping := rfl
  exact
    { rows := fun _ hscan => nomatch hscan
      fire := fun _ hf => absurd hf not_mem_nil
      run := fun _ hr => absurd hr not_mem_nil
      anchor := fun _ hlast => nomatch hlast
      pending := fun _ _ hd => nomatch hd
      made := fun _ _ hd => nomatch hd
      apart := List.Pairwise.nil }

/-- **Scheduled runs.** For any number of pods, ticks, crashes and readings, an instant of a workflow
has one run at most. On one pod, with any number of restarts, runs of an interval are an interval
apart as long as the ticks are steady. -/
theorem scheduled_once (lib : CronLib) :
    (∀ w, (scheduler lib).Reachable w → (w.runs.map Run.slot).Nodup) ∧
    ∀ key secs w, ((scheduler lib).guard fun w a => steady key secs w a = true).Reachable w →
      Apart key secs w := by
  refine ⟨fun w => runs_nodup_of_reachable, fun key secs w h => ?_⟩
  have hboth : Inv w ∧ Pace key secs w := by
    refine StateMachine.reachable_guard (I := fun w => Inv w ∧ Pace key secs w)
      (fun w hw => ⟨Inv.init hw, Pace.init hw⟩) (fun w a w' hI hsteady hs => ?_) h
    exact ⟨hI.1.step hs, hI.2.step hI.1 hsteady hs⟩
  exact hboth.2.apart

/-! ### Runs of one pod -/

instance : Decidable (Apart key secs w) := inferInstanceAs (Decidable (List.Pairwise _ _))

def noCron : CronLib := ⟨Unit, fun _ => none, fun _ _ => none⟩

/-- A number of seconds after the epoch, of the first few hours. -/
def atSecond (n : Fin 100000) : DateTime := ⟨n * 1000000000, by unfold minNanos maxNanos; omega⟩

def hourly : WorkflowRecord := ⟨⟨1, 2⟩, some 3, some ⟨true, .schedule none (some "1h")⟩⟩

/-- The pod creates a run of the workflow. -/
def fireActions (now : DateTime) (runId : Uuid) : List Action :=
  [.tick 0 now (some [hourly]), .resolve 0 true, .claim 0 true (.answered true),
    .create 0 (some runId), .attach 0 true, .finish 0]

/-- The pod starts, fires a minute before a full hour, restarts, and ticks again. -/
def bounceActions (now : DateTime) : List Action :=
  [.tick 0 (atSecond 0) (some [hourly]), .resolve 0 true, .finish 0] ++
    fireActions (atSecond 7140) 10 ++ [.restart 0] ++ fireActions now 11

/-- The run of a pod that comes back in a later bucket. -/
theorem scheduled_once_bounceLate : ∃ w,
    ((scheduler noCron).guard fun w a => steady hourly.key 3600 w a = true).run
      ⟨fun _ => Pod.start, [], []⟩ (bounceActions (atSecond 10800)) = some w ∧
    w.runs.length = 2 ∧ (w.runs.map Run.slot).Nodup ∧ Apart hourly.key 3600 w := by
  have hany : (((scheduler noCron).guard fun w a => steady hourly.key 3600 w a = true).run
      ⟨fun _ => Pod.start, [], []⟩ (bounceActions (atSecond 10800))).any
        (fun w => decide (w.runs.length = 2)) = true := by
    decide +kernel
  obtain ⟨w, hrun, hlength⟩ := (any_eq_true _ _).mp hany
  refine ⟨w, hrun, of_decide_eq_true hlength, ?_, ?_⟩
  · exact (scheduled_once noCron).1 w ⟨_, _, rfl, StateMachine.run_of_guard hrun⟩
  · exact (scheduled_once noCron).2 hourly.key 3600 w ⟨_, _, rfl, hrun⟩

/-- **A bounce fires twice within an interval.** The second tick comes a minute after the run, when
the next hour has just begun. -/
theorem not_apart_bounce : ¬ ∀ (lib : CronLib) (key : Key) (secs : Nat) (w : World),
    ((scheduler lib).guard fun _ a => ofInterval key secs a = true).Reachable w →
      Apart key secs w := by
  intro hall
  have hany : (((scheduler noCron).guard fun _ a => ofInterval hourly.key 3600 a = true).run
      ⟨fun _ => Pod.start, [], []⟩ (bounceActions (atSecond 7200))).any
        (fun w => decide (¬ Apart hourly.key 3600 w)) = true := by
    decide +kernel
  obtain ⟨w, hrun, hnot⟩ := (any_eq_true _ _).mp hany
  exact of_decide_eq_true hnot (hall noCron hourly.key 3600 w ⟨_, _, rfl, hrun⟩)

end Buzz.Workflow
