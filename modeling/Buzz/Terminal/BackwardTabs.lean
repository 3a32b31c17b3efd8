import Buzz.Terminal.LockHold
import Mathlib.Logic.Function.Iterate

/-!
# `move_backward_tabs`

The counter runs it one step at a time, and stops at the first step that does not move the cursor.
The terminal behind it runs as many steps as it is told to. A step depends on the tab stops and on
the cursor only, so that nothing moves after a step that did not.

The terminal is a parameter. What is assumed of it is what its step does: it scans left for the
nearest tab stop.
-/

namespace Buzz.Terminal

/-! ### One step -/

/-- Scan left for the nearest tab stop. -/
def scanLeft (tabs : Nat → Bool) : Nat → Option Nat
  | 0 => none
  | col + 1 => if tabs col then some col else scanLeft tabs col

/-- The cursor moves to the nearest tab stop, or stays. -/
def backwardTab (tabs : Nat → Bool) (col : Nat) : Nat := (scanLeft tabs col).getD col

/-- How many of `count` steps move the cursor. -/
def moves (step : Nat → Nat) : Nat → Nat → Nat
  | 0, _ => 0
  | count + 1, col => (if step col = col then 0 else 1) + moves step count (step col)

theorem scanLeft_lt {tabs : Nat → Bool} {col stop : Nat} (h : scanLeft tabs col = some stop) :
    stop < col := by
  induction col with
  | zero => cases h
  | succ col ih =>
    rw [scanLeft] at h
    split at h
    · cases h
      omega
    · have hlt := ih h
      omega

theorem backwardTab_le (tabs : Nat → Bool) (col : Nat) : backwardTab tabs col ≤ col := by
  rw [backwardTab]
  cases hscan : scanLeft tabs col with
  | none => simp
  | some stop =>
    have hlt := scanLeft_lt hscan
    simp only [Option.getD_some]
    omega

/-! ### The counter and the terminal -/

section

variable {η : Type}

/-- A terminal whose step scans left for the nearest tab stop, and leaves the tab stops alone. -/
structure Handler.ScansLeft (H : Handler η) (tabs : η → Nat → Bool) : Prop where
  step : ∀ h, H.cursorColumn (H.call h (.moveBackwardTabs 1)) =
    backwardTab (tabs h) (H.cursorColumn h)
  keeps : ∀ h, tabs (H.call h (.moveBackwardTabs 1)) = tabs h

/-- A terminal that writes down its callbacks, the last one first. -/
def Handler.logged (H : Handler η) : Handler (η × List Callback) where
  call s call := (H.call s.1 call, call :: s.2)
  cursorColumn s := H.cursorColumn s.1

/-- The terminal after a callback, and the callbacks that reached it. -/
def delegated (H : Handler η) (g : Size) (h : η) (call : Callback) : η × List Callback :=
  ((Counting.new (h, [])).dispatch H.logged g call).inner

variable {H : Handler η} {tabs : η → Nat → Bool}

theorem backwardTabs_column (hH : H.ScansLeft tabs) (count : Nat) (c : Counting η) :
    H.cursorColumn (Counting.backwardTabs H count c).inner =
      (backwardTab (tabs c.inner))^[count] (H.cursorColumn c.inner) := by
  induction count generalizing c with
  | zero => rfl
  | succ count ih =>
    have hstep := hH.step c.inner
    rw [Counting.backwardTabs, Function.iterate_succ_apply, ← hstep]
    split
    · next hstays =>
      -- a column that one step keeps is kept by all of them
      have hfixed : Function.IsFixedPt (backwardTab (tabs c.inner)) (H.cursorColumn c.inner) :=
        hstep.symm.trans hstays
      rw [hstays, Function.iterate_fixed hfixed]
    · rw [ih, hH.keeps]

theorem Handler.ScansLeft.logged (hH : H.ScansLeft tabs) :
    H.logged.ScansLeft fun s => tabs s.1 :=
  ⟨fun s => hH.step s.1, fun s => hH.keeps s.1⟩

theorem backwardTabs_log (hH : H.ScansLeft tabs) (count : Nat) (c : Counting (η × List Callback)) :
    ∃ calls, (Counting.backwardTabs H.logged count c).inner.2 =
        List.replicate calls (.moveBackwardTabs 1) ++ c.inner.2 ∧
      calls ≤ moves (backwardTab (tabs c.inner.1)) count (H.logged.cursorColumn c.inner) + 1 := by
  induction count generalizing c with
  | zero => exact ⟨0, rfl, Nat.zero_le _⟩
  | succ count ih =>
    have hstep := hH.logged.step c.inner
    have hkeeps := hH.logged.keeps c.inner
    rw [Counting.backwardTabs, moves, ← hstep]
    split
    · exact ⟨1, rfl, Nat.le_add_left 1 _⟩
    · obtain ⟨calls, hlog, hcalls⟩ := ih ⟨H.logged.call c.inner (.moveBackwardTabs 1), c.units,
        satAdd c.work (H.logged.cursorColumn c.inner -
          H.logged.cursorColumn (H.logged.call c.inner (.moveBackwardTabs 1)))⟩
      refine ⟨calls + 1, ?_, ?_⟩
      · rwa [List.replicate_succ', List.append_assoc]
      · simp only [hkeeps] at hcalls
        omega

theorem backwardTabs_logged (count : Nat) (c : Counting η) (c' : Counting (η × List Callback))
    (h : c'.inner.1 = c.inner) : (Counting.backwardTabs H.logged count c').inner.1 =
      (Counting.backwardTabs H count c).inner := by
  induction count generalizing c c' with
  | zero => exact h
  | succ count ih =>
    have hcall : (H.logged.call c'.inner (.moveBackwardTabs 1)).1 =
        H.call c.inner (.moveBackwardTabs 1) := congrArg (fun i => H.call i _) h
    have hcolumn : H.logged.cursorColumn c'.inner = H.cursorColumn c.inner :=
      congrArg H.cursorColumn h
    have hnext : H.logged.cursorColumn (H.logged.call c'.inner (.moveBackwardTabs 1)) =
        H.cursorColumn (H.call c.inner (.moveBackwardTabs 1)) := congrArg H.cursorColumn hcall
    rw [Counting.backwardTabs, Counting.backwardTabs]
    simp only [hcolumn, hnext]
    split
    · exact hcall
    · exact ih _ _ hcall

/-! ### Main result -/

/-- **The bounded callback.** The cursor ends in the column where `count` steps of the terminal take
it. No more callbacks reach the terminal than there are steps that move the cursor, and one; each of
them is a single step. The work is one unit, and no more than the cells left of the cursor. -/
theorem moveBackwardTabs_eq_upstream (hH : H.ScansLeft tabs) (g : Size) (count : Nat)
    (c : Counting η) :
    H.cursorColumn (c.dispatch H g (.moveBackwardTabs count)).inner =
        (backwardTab (tabs c.inner))^[count] (H.cursorColumn c.inner) ∧
      (delegated H g c.inner (.moveBackwardTabs count)).1 =
        (c.dispatch H g (.moveBackwardTabs count)).inner ∧
      (delegated H g c.inner (.moveBackwardTabs count)).2.length ≤
        moves (backwardTab (tabs c.inner)) count (H.cursorColumn c.inner) + 1 ∧
      (∀ call ∈ (delegated H g c.inner (.moveBackwardTabs count)).2, call = .moveBackwardTabs 1) ∧
      (c.dispatch H g (.moveBackwardTabs count)).work ≤ c.work + (1 + H.cursorColumn c.inner) := by
  obtain ⟨calls, hlog, hcalls⟩ := backwardTabs_log hH count
    ((Counting.new (c.inner, [])).charge (g.weight (.moveBackwardTabs count)))
  have hdelegated : (delegated H g c.inner (.moveBackwardTabs count)).2 =
      List.replicate calls (.moveBackwardTabs 1) := hlog.trans (List.append_nil _)
  refine ⟨backwardTabs_column hH count _, backwardTabs_logged count _ _ rfl, ?_, fun call hcall => ?_,
    ?_⟩
  · rwa [hdelegated, List.length_replicate]
  · rw [hdelegated] at hcall
    exact List.eq_of_mem_replicate hcall
  · have hleft : ∀ h, H.cursorColumn (H.call h (.moveBackwardTabs 1)) ≤ H.cursorColumn h := by
      intro h
      rw [hH.step]
      exact backwardTab_le _ _
    have hwork := backwardTabs_work_le H (I := fun _ => True) (fun _ _ => trivial)
      (fun h _ => hleft h) count (c := c.charge 1) trivial
    have hcharge : (c.charge 1).work ≤ c.work + 1 := satAdd_le c.work 1
    have hinner : (c.charge 1).inner = c.inner := rfl
    rw [hinner] at hwork
    have hdispatch : c.dispatch H g (.moveBackwardTabs count) =
      Counting.backwardTabs H count (c.charge 1) := rfl
    rw [hdispatch]
    omega

end

/-- A row with a tab stop in every eighth column. -/
def everyEighth : Handler Nat where
  call col
    | .moveBackwardTabs count => (backwardTab fun i => i % 8 == 0)^[count] col
    | _ => col
  cursorColumn := id

/-- Five steps from column 20 take the cursor to column 0. Three of them move it, and four calls are
made. -/
theorem moveBackwardTabs_eq_upstream_everyEighth :
    ((Counting.new 20).dispatch everyEighth ⟨80, 24, 0⟩ (.moveBackwardTabs 5)).inner = 0 ∧
      (delegated everyEighth ⟨80, 24, 0⟩ 20 (.moveBackwardTabs 5)).2.length = 4 ∧
      (delegated everyEighth ⟨80, 24, 0⟩ 20 (.moveBackwardTabs 5)).2.length ≤
        moves (backwardTab fun i => i % 8 == 0) 5 20 + 1 := by
  have hscan : everyEighth.ScansLeft fun _ i => i % 8 == 0 := ⟨fun _ => rfl, fun _ => rfl⟩
  exact ⟨by decide, by decide,
    (moveBackwardTabs_eq_upstream hscan ⟨80, 24, 0⟩ 5 (Counting.new 20)).2.2.1⟩

end Buzz.Terminal
