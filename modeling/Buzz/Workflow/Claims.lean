import Buzz.Workflow.Engine
import Mathlib.Data.List.Nodup

/-!
# One run for each claim

A pod creates a run for an instant when its statement inserted the claim, and nobody inserts a claim
that is there. While a pod holds a claim it has no run yet, and no other pod holds it.
-/

namespace Buzz.Workflow

open List

/-- An instant of a workflow. -/
abbrev Slot := Key × DateTime

def Fire.slot (f : Fire) : Slot := (f.key, f.scheduledFor)

def Run.slot (r : Run) : Slot := (r.key, r.scheduledFor)

/-- The slot of a workflow that is due. -/
def Due.slot (d : Due) : Slot := (d.key, d.scheduledFor)

/-- The slot that a pod has claimed, and not created the run for. -/
def Phase.claim : Phase → Option Slot
  | .claimed _ d => some d.slot
  | _ => none

/-- The invariant of the pods. -/
structure Inv (w : World) : Prop where
  backed : ∀ r ∈ w.runs, r.slot ∈ w.fires.map Fire.slot
  distinct : (w.runs.map Run.slot).Nodup
  held : ∀ pod slot, (w.pods pod).phase.claim = some slot →
    slot ∈ w.fires.map Fire.slot ∧ slot ∉ w.runs.map Run.slot
  exclusive : ∀ pod pod' slot, (w.pods pod).phase.claim = some slot →
    (w.pods pod').phase.claim = some slot → pod = pod'

/-! ### The tables -/

theorem claimScheduledWorkflowFire_cases (fires : List Fire) (key : Key) (scheduledFor : DateTime) :
    (key, scheduledFor) ∈ fires.map Fire.slot ∧
        claimScheduledWorkflowFire fires key scheduledFor = (fires, false) ∨
      (key, scheduledFor) ∉ fires.map Fire.slot ∧
        claimScheduledWorkflowFire fires key scheduledFor =
          (⟨key, scheduledFor, none⟩ :: fires, true) := by
  unfold claimScheduledWorkflowFire
  split
  · next hany =>
    obtain ⟨f, hf, heq⟩ := any_eq_true.mp hany
    obtain ⟨hkey, hinstant⟩ := (Bool.and_eq_true _ _).mp heq
    refine .inl ⟨mem_map.mpr ⟨f, hf, ?_⟩, rfl⟩
    exact Prod.ext (beq_iff_eq.mp hkey) (beq_iff_eq.mp hinstant)
  · next hany =>
    refine .inr ⟨fun hmem => hany ?_, rfl⟩
    obtain ⟨f, hf, heq⟩ := mem_map.mp hmem
    obtain ⟨hkey, hinstant⟩ := Prod.mk.inj heq
    refine any_eq_true.mpr ⟨f, hf, (Bool.and_eq_true _ _).mpr ⟨?_, ?_⟩⟩
    · exact beq_iff_eq.mpr hkey
    · exact beq_iff_eq.mpr hinstant

theorem slots_attachScheduledWorkflowRun (fires : List Fire) (key : Key) (scheduledFor : DateTime)
    (runId : Uuid) : (attachScheduledWorkflowRun fires key scheduledFor runId).map Fire.slot =
      fires.map Fire.slot := by
  rw [attachScheduledWorkflowRun, map_map]
  refine map_congr_left fun f _ => ?_
  dsimp only [Function.comp_apply]
  split
  · rfl
  · rfl

variable {w : World} {pod : Nat} {p : Pod}

theorem World.pods_setPod {other : Nat} :
    (w.setPod pod p).pods other = if other = pod then p else w.pods other :=
  Function.update_apply ..

/-! ### Steps -/

theorem Inv.setPod (h : Inv w) {fires : List Fire}
    (hfires : w.fires.map Fire.slot ⊆ fires.map Fire.slot) (hp : p.phase.claim = none) :
    Inv ({ w with fires := fires }.setPod pod p) where
  backed r hr := hfires (h.backed r hr)
  distinct := h.distinct
  held other slot := by
    rw [World.pods_setPod]
    split
    · intro hslot
      nomatch hp.symm.trans hslot
    · intro hslot
      exact (h.held other slot hslot).imp_left fun hmem => hfires hmem
  exclusive one other slot := by
    rw [World.pods_setPod, World.pods_setPod]
    intro hone hother
    split at hone
    · nomatch hp.symm.trans hone
    split at hother
    · nomatch hp.symm.trans hother
    · exact h.exclusive one other slot hone hother

theorem Inv.insert (h : Inv w) {f : Fire} (hnew : f.slot ∉ w.fires.map Fire.slot)
    (hp : p.phase.claim = some f.slot) : Inv ({ w with fires := f :: w.fires }.setPod pod p) where
  backed r hr := mem_cons_of_mem _ (h.backed r hr)
  distinct := h.distinct
  held other slot := by
    rw [World.pods_setPod]
    split
    · intro hslot
      obtain rfl := Option.some.inj (hp.symm.trans hslot)
      refine ⟨mem_cons_self, fun hmem => hnew ?_⟩
      obtain ⟨r, hr, heq⟩ := mem_map.mp hmem
      exact heq ▸ h.backed r hr
    · intro hslot
      exact (h.held other slot hslot).imp_left (mem_cons_of_mem _)
  exclusive one other slot := by
    rw [World.pods_setPod, World.pods_setPod]
    have hold : ∀ third, (w.pods third).phase.claim = some slot → p.phase.claim ≠ some slot := by
      intro third hthird hslot
      obtain rfl := Option.some.inj (hp.symm.trans hslot)
      exact hnew (h.held third _ hthird).1
    intro hone hother
    split at hone
    · next heq =>
      split at hother
      · next heq' => exact heq.trans heq'.symm
      · exact absurd hone (hold other hother)
    · split at hother
      · exact absurd hother (hold one hone)
      · exact h.exclusive one other slot hone hother

theorem Inv.create (h : Inv w) {r : Run} (hclaim : (w.pods pod).phase.claim = some r.slot)
    (hp : p.phase.claim = none) : Inv ({ w with runs := r :: w.runs }.setPod pod p) where
  backed := forall_mem_cons.mpr ⟨(h.held pod _ hclaim).1, h.backed⟩
  distinct := nodup_cons.mpr ⟨(h.held pod _ hclaim).2, h.distinct⟩
  held other slot := by
    rw [World.pods_setPod]
    split
    · intro hslot
      nomatch hp.symm.trans hslot
    · next hne =>
      intro hslot
      obtain ⟨hfire, hrun⟩ := h.held other slot hslot
      refine ⟨hfire, fun hmem => ?_⟩
      obtain rfl | hmem := mem_cons.mp hmem
      · exact hne (h.exclusive other pod _ hslot hclaim)
      · exact hrun hmem
  exclusive one other slot := by
    rw [World.pods_setPod, World.pods_setPod]
    intro hone hother
    split at hone
    · nomatch hp.symm.trans hone
    split at hother
    · nomatch hp.symm.trans hother
    · exact h.exclusive one other slot hone hother

theorem Inv.skip (h : Inv w) (pod : Nat) (scan : Scan) : Inv (w.skip pod scan) :=
  h.setPod (List.Subset.refl _) rfl

theorem Inv.advance (h : Inv w) (pod : Nat) (scan : Scan) (due : Due) :
    Inv (w.advance pod scan due) :=
  h.setPod (List.Subset.refl _) rfl

theorem Inv.claim (h : Inv w) (pod : Nat) (scan : Scan) (due : Due) (answer : ClaimAnswer) :
    Inv (w.claim pod scan due answer) := by
  have hcases := claimScheduledWorkflowFire_cases w.fires due.key due.scheduledFor
  match answer with
  | .answered true =>
    obtain ⟨-, heq⟩ | ⟨hnew, heq⟩ := hcases
    · rw [World.claim, heq]
      exact h.advance pod scan due
    · rw [World.claim, heq]
      exact h.insert hnew rfl
  | .answered false => exact h.advance pod scan due
  | .failed true =>
    obtain ⟨-, heq⟩ | ⟨-, heq⟩ := hcases
    · rw [World.claim, heq]
      exact h.skip pod scan
    · rw [World.claim, heq]
      exact h.setPod (subset_cons_self _ _) rfl
  | .failed false => exact h.skip pod scan

variable {lib : CronLib}

theorem Inv.step {w' : World} {a : Action} (h : Inv w) (hs : w.step lib a = some w') : Inv w' := by
  cases a with
  | tick pod now loaded =>
    dsimp only [World.step] at hs
    split at hs
    · cases hs
      exact h.skip pod _
    · cases hs
      exact h
    · nomatch hs
  | resolve pod readable =>
    dsimp only [World.step] at hs
    split at hs
    · split at hs
      · cases hs
        exact h.setPod (List.Subset.refl _) rfl
      · cases hs
        exact h.setPod (List.Subset.refl _) rfl
    · nomatch hs
  | finish pod =>
    dsimp only [World.step] at hs
    split at hs
    · cases hs
      exact h.setPod (List.Subset.refl _) rfl
    · nomatch hs
  | claim pod authorized answer =>
    dsimp only [World.step] at hs
    split at hs
    · split at hs
      · cases hs
        exact h.claim pod _ _ answer
      · cases hs
        exact h.skip pod _
    · nomatch hs
  | create pod runId =>
    dsimp only [World.step] at hs
    split at hs
    · next scan due hphase =>
      cases hs
      cases runId with
      | none => exact h.skip pod scan
      | some runId => exact h.create (by rw [hphase]; rfl) rfl
    · nomatch hs
  | attach pod attached =>
    dsimp only [World.step] at hs
    split at hs
    · next scan due runId hphase =>
      cases hs
      refine h.setPod ?_ rfl
      split
      · rw [slots_attachScheduledWorkflowRun]
        exact List.Subset.refl _
      · exact List.Subset.refl _
    · nomatch hs
  | restart pod =>
    cases hs
    exact h.setPod (List.Subset.refl _) rfl

theorem Inv.init (h : (scheduler lib).Init w) : Inv w := by
  obtain rfl := h
  have hnone : Pod.start.phase.claim = none := rfl
  exact
    { backed := fun _ hr => absurd hr not_mem_nil
      distinct := nodup_nil
      held := fun _ _ hclaim => nomatch hnone.symm.trans hclaim
      exclusive := fun _ _ _ hclaim => nomatch hnone.symm.trans hclaim }

/-- In every state there is one run at most for an instant of a workflow. -/
theorem runs_nodup_of_reachable (h : (scheduler lib).Reachable w) : (w.runs.map Run.slot).Nodup :=
  (h.invariant (fun _ hw => Inv.init hw) fun _ _ _ _ hinv hs => hinv.step hs).distinct

end Buzz.Workflow
