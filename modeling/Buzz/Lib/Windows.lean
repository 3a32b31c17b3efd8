import Mathlib.Order.Lattice
import Mathlib.Data.List.Chain
import Mathlib.Order.Basic

/-!
# Windows and ticks

A clock is read at ticks that are in order. A half-open window is met when one of them falls into it,
and it is missed when two ticks in a row step over it. A window that begins after the first tick and
not after the last one is met or missed.
-/

namespace Buzz

open List

variable {α β : Type*} [LinearOrder α] (reading : β → α)

def Ticking (ticks : List β) : Prop := ticks.IsChain fun t t' => reading t ≤ reading t'

/-- No two ticks in a row step over the window from `lo` to `hi`. -/
def StepsInto (ticks : List β) (lo hi : α) : Prop :=
  ticks.IsChain fun t t' => reading t < lo → reading t' < hi

variable {reading} {lo hi : α}

variable {t : β} {ticks : List β}

theorem Ticking.le {t' : β} (h : Ticking reading (t :: ticks)) (ht' : t' ∈ t :: ticks) :
    reading t ≤ reading t' := by
  induction ticks generalizing t with
  | nil =>
    rw [mem_singleton.mp ht']
  | cons u ticks ih =>
    obtain ⟨htu, hrest⟩ := isChain_cons_cons.mp h
    rcases mem_cons.mp ht' with rfl | ht'
    · exact le_refl _
    · exact le_trans htu (ih hrest ht')

theorem Ticking.le_getLast (hne : ticks ≠ []) (h : Ticking reading ticks) (ht : t ∈ ticks) :
    reading t ≤ reading (ticks.getLast hne) := by
  induction ticks with
  | nil => exact absurd rfl hne
  | cons u ticks ih =>
    rcases mem_cons.mp ht with rfl | ht
    · exact h.le (getLast_mem hne)
    · have hne' := ne_nil_of_mem ht
      rw [getLast_cons hne']
      exact ih hne' (List.IsChain.tail h) ht

theorem stepsInto_of_le (h : Ticking reading (t :: ticks)) (hlo : lo ≤ reading t) :
    StepsInto reading (t :: ticks) lo hi := by
  induction ticks generalizing t with
  | nil => exact isChain_singleton t
  | cons u ticks ih =>
    obtain ⟨htu, hrest⟩ := isChain_cons_cons.mp h
    refine isChain_cons_cons.mpr ⟨fun hlt => ?_, ih hrest (le_trans hlo htu)⟩
    exact absurd hlt (not_lt.mpr hlo)

theorem stepsInto_of_lt (hhi : ∀ t ∈ ticks, reading t < hi) : StepsInto reading ticks lo hi := by
  induction ticks with
  | nil => exact isChain_nil
  | cons t ticks ih =>
    have hrest := ih fun u hu => hhi u (mem_cons_of_mem t hu)
    refine List.IsChain.cons hrest fun u hu _ => hhi u ?_
    exact mem_cons_of_mem t (mem_of_mem_head? hu)

/-- **Windows.** One of the ticks after the first falls into a window exactly when no two ticks in a
row step over it. -/
theorem exists_tick_iff (h : Ticking reading (t :: ticks)) (hlo : reading t < lo)
    (hlast : ∃ u ∈ ticks, lo ≤ reading u) :
    (∃ u ∈ ticks, lo ≤ reading u ∧ reading u < hi) ↔ StepsInto reading (t :: ticks) lo hi := by
  induction ticks generalizing t with
  | nil =>
    obtain ⟨u, hu, -⟩ := hlast
    cases hu
  | cons u ticks ih =>
    have hrest : Ticking reading (u :: ticks) := (isChain_cons_cons.mp h).2
    rw [StepsInto, isChain_cons_cons]
    rcases lt_or_ge (reading u) lo with hu | hu
    · -- the next tick is before the window, too
      have hlast' : ∃ v ∈ ticks, lo ≤ reading v := by
        obtain ⟨v, hv, hle⟩ := hlast
        rcases mem_cons.mp hv with rfl | hv
        · exact absurd hu (not_lt.mpr hle)
        · exact ⟨v, hv, hle⟩
      have hlater : (∃ v ∈ u :: ticks, lo ≤ reading v ∧ reading v < hi) ↔
          ∃ v ∈ ticks, lo ≤ reading v ∧ reading v < hi := by
        constructor
        · rintro ⟨v, hv, hle, hlt⟩
          rcases mem_cons.mp hv with rfl | hv
          · exact absurd hu (not_lt.mpr hle)
          · exact ⟨v, hv, hle, hlt⟩
        · rintro ⟨v, hv, hin⟩
          exact ⟨v, mem_cons_of_mem u hv, hin⟩
      rw [hlater]
      constructor
      · rintro ⟨v, hv, hle, hlt⟩
        exact ⟨fun _ => lt_trans (lt_of_lt_of_le hu hle) hlt,
          (ih hrest hu hlast').mp ⟨v, hv, hle, hlt⟩⟩
      · rintro ⟨-, hsteps⟩
        exact (ih hrest hu hlast').mpr hsteps
    · -- the next tick is the first one that is not
      constructor
      · rintro ⟨v, hv, -, hlt⟩
        exact ⟨fun _ => lt_of_le_of_lt (hrest.le hv) hlt, stepsInto_of_le hrest hu⟩
      · rintro ⟨hlt, -⟩
        exact ⟨u, mem_cons_self, hu, hlt hlo⟩

end Buzz
