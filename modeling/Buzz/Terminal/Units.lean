import Mathlib.Data.List.Basic

/-!
# Parser units and fences

The callbacks of a terminal parser, and what each of them costs in cells. Sums saturate at the
largest 64-bit number. The callbacks that cost one unit are one constructor here.

`move_backward_tabs` is the one callback that is not passed on as it is: it is run one step at a
time, and it is over as soon as the cursor does not move.

Fences bound how many bytes of the pending tail the parser gets at once, and what one call of `drain`
may cost by its own account.
-/

/-! ## Callbacks and their costs -/

namespace Buzz.Terminal

def u64Max : Nat := 18446744073709551615

/-- `saturating_add`. -/
def satAdd (a b : Nat) : Nat := min (a + b) u64Max

/-- `saturating_mul`. -/
def satMul (a b : Nat) : Nat := min (a * b) u64Max

/-- The size of a terminal. -/
structure Size where
  columns : Nat
  screenLines : Nat
  scrollback : Nat

/-- A callback of `Handler`. -/
inductive Callback where
  | plain
  | eraseChars (count : Nat)
  | deleteChars (count : Nat)
  | insertBlank (count : Nat)
  | putTab (count : Nat)
  | moveForwardTabs (count : Nat)
  | scrollUp (n : Nat)
  | deleteLines (n : Nat)
  | scrollDown (n : Nat)
  | insertBlankLines (n : Nat)
  | clearLine
  | clearScreen
  | decaln
  | resetState
  | moveBackwardTabs (count : Nat)

/-- A terminal that is behind the counter. -/
structure Handler (η : Type) where
  call : η → Callback → η
  cursorColumn : η → Nat

namespace Size

variable (g : Size)

def cells : Nat := satMul g.columns g.screenLines

def clamp (n bound : Nat) : Nat := max (min n bound) 1

/-- The cost of the rows that a scroll touches. -/
def rows (n : Nat) : Nat := satMul (clamp n g.screenLines) g.columns

/-- What a callback is charged before it runs. -/
def weight : Callback → Nat
  | .plain => 1
  | .eraseChars count => clamp count g.columns
  | .deleteChars _ => g.columns
  | .insertBlank _ => g.columns
  | .putTab _ => g.columns
  | .moveForwardTabs _ => g.columns
  | .scrollUp n => g.rows n
  | .deleteLines n => g.rows n
  | .scrollDown n => g.rows n
  | .insertBlankLines n => g.rows n
  | .clearLine => g.columns
  | .clearScreen => g.cells
  | .decaln => g.cells
  | .resetState => satAdd (satMul g.cells 2) (satMul g.scrollback g.columns)
  | .moveBackwardTabs _ => 1

end Size

/-- `Counting`, without the grid. -/
structure Counting (η : Type) where
  inner : η
  units : Nat
  work : Nat

namespace Counting

variable {η : Type} (H : Handler η) (g : Size)

def new (inner : η) : Counting η := ⟨inner, 0, 0⟩

def charge (c : Counting η) (weight : Nat) : Counting η :=
  { c with units := satAdd c.units 1, work := satAdd c.work weight }

/-- The steps of `move_backward_tabs`, until one of them does not move the cursor. -/
def backwardTabs : Nat → Counting η → Counting η
  | 0, c => c
  | count + 1, c =>
    let before := H.cursorColumn c.inner
    let inner := H.call c.inner (.moveBackwardTabs 1)
    let after := H.cursorColumn inner
    let scanned := if after = before then before else before - after
    let c := { c with inner := inner, work := satAdd c.work scanned }
    if after = before then c else backwardTabs count c

/-- A callback is charged, and passed on. -/
def dispatch (c : Counting η) (call : Callback) : Counting η :=
  let c := c.charge (g.weight call)
  match call with
  | .moveBackwardTabs count => backwardTabs H count c
  | call => { c with inner := H.call c.inner call }

def run (c : Counting η) (calls : List Callback) : Counting η := calls.foldl (dispatch H g) c

end Counting

/-! ### Work adds up -/

section

variable {η : Type} (H : Handler η) (g : Size)

/-- The work of callbacks, from an empty counter. -/
def workOf (h : η) (calls : List Callback) : Nat := ((Counting.new h).run H g calls).work

def innerOf (h : η) (calls : List Callback) : η := ((Counting.new h).run H g calls).inner

theorem satAdd_le (a b : Nat) : satAdd a b ≤ a + b := Nat.min_le_left _ _

end

end Buzz.Terminal

/-! ## Fences and slices -/

namespace Buzz.Terminal

def syncCap : Nat := 65536

def oscBudget : Nat := 262144

def workBudget : Nat := 250000

def maxSlice : Nat := 256

def tailCap : Nat := 4194304

structure Fences where
  syncAbort : Bool
  oscBudget : Bool

structure FenceStats where
  syncAborts : Nat
  maxRelease : Nat
  oscResets : Nat
  chargedBytes : Nat
  completedUnits : Nat
  completedWork : Nat
  maxPending : Nat
  tailBreaches : Nat
  abandonedBytes : Nat

/-- `Ord::clamp`. -/
def clampTo (n low high : Nat) : Nat := min (max n low) high

def maxAtomWork (g : Size) : Nat :=
  max (satAdd (satMul (satMul g.columns g.screenLines) 2) (satMul g.scrollback g.columns)) g.columns

def maxDrainWork (g : Size) : Nat := satAdd workBudget (maxAtomWork g)

/-- What a byte of a plain run may cost. -/
def perByte (g : Size) : Nat := max g.columns 1

/-- What a byte may cost where an escape starts: half of the dearest callback. -/
def densest (g : Size) : Nat := max (maxAtomWork g / 2) 1

def sliceBytesRemaining (g : Size) (spent nextEscape : Nat) : Nat :=
  let remaining := workBudget - spent
  if 0 < nextEscape then clampTo (remaining / perByte g) 1 (min nextEscape maxSlice)
  else clampTo (remaining / densest g) 1 maxSlice

/-- What a byte may cost, by the account of `slice_bytes_remaining`. -/
def density (g : Size) (nextEscape : Nat) : Nat :=
  if 0 < nextEscape then perByte g else densest g

theorem sliceBytesRemaining_pos (g : Size) (spent nextEscape : Nat) :
    0 < sliceBytesRemaining g spent nextEscape := by
  rw [sliceBytesRemaining]
  have hmax : maxSlice = 256 := rfl
  split <;> rw [clampTo] <;> omega

theorem sliceBytesRemaining_cases (g : Size) (spent nextEscape : Nat) :
    sliceBytesRemaining g spent nextEscape = 1 ∨
      sliceBytesRemaining g spent nextEscape * density g nextEscape ≤ workBudget - spent := by
  have hfit : ∀ d high, clampTo ((workBudget - spent) / d) 1 high ≤ 1 ∨
      clampTo ((workBudget - spent) / d) 1 high * d ≤ workBudget - spent := by
    intro d high
    by_cases hone : (workBudget - spent) / d ≤ 1
    · refine .inl ?_
      rw [clampTo]
      omega
    · refine .inr (Nat.le_trans (Nat.mul_le_mul_right d ?_) (Nat.div_mul_le_self _ d))
      rw [clampTo]
      omega
  have hpos := sliceBytesRemaining_pos g spent nextEscape
  rw [sliceBytesRemaining, density] at *
  split
  · next h =>
    rw [if_pos h] at hpos
    obtain h1 | h1 := hfit (perByte g) (min nextEscape maxSlice)
    · exact .inl (Nat.le_antisymm h1 hpos)
    · exact .inr h1
  · next h =>
    rw [if_neg h] at hpos
    obtain h1 | h1 := hfit (densest g) maxSlice
    · exact .inl (Nat.le_antisymm h1 hpos)
    · exact .inr h1

theorem sliceBytesRemaining_le {g : Size} {spent nextEscape : Nat} :
    sliceBytesRemaining g spent nextEscape ≤ maxSlice ∧
      (0 < nextEscape → sliceBytesRemaining g spent nextEscape ≤ nextEscape) := by
  have hmax : maxSlice = 256 := rfl
  rw [sliceBytesRemaining]
  split <;> rw [clampTo] <;> omega

/-- **A slice fits.** One byte may cost the dearest callback, and `n` bytes that and the density that
the slice was sized for. Then the slice costs one callback more than what is left of the budget. -/
theorem slice_le {g : Size} {spent nextEscape n cost : Nat} (hspent : spent < workBudget)
    (hn : n ≤ sliceBytesRemaining g spent nextEscape)
    (hone : n ≤ 1 → cost ≤ max (maxAtomWork g) 1)
    (hcost : cost ≤ maxAtomWork g + n * density g nextEscape) :
    cost ≤ maxAtomWork g + (workBudget - spent) := by
  obtain h1 | hfit := sliceBytesRemaining_cases g spent nextEscape
  · have hle := hone (Nat.le_trans hn (Nat.le_of_eq h1))
    omega
  · have hle : n * density g nextEscape ≤ workBudget - spent :=
      Nat.le_trans (Nat.mul_le_mul_right _ hn) hfit
    omega

end Buzz.Terminal
