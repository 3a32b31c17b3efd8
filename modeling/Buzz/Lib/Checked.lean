import Mathlib.Algebra.Group.Nat.Defs
import Mathlib.Data.List.Basic

/-!
# Computations that may panic

A computation gives a value, fails with an error that its caller handles, or panics: it adds numbers
of machine words beyond their range, or reads a list out of its range.
-/

namespace Buzz

/-- A result of code that can fail or panic. -/
inductive Checked (ε α : Type*) where
  | value (a : α)
  | error (e : ε)
  | panic

namespace Checked

variable {ε α β : Type*}

/-- One computation after another. -/
def bind : Checked ε α → (α → Checked ε β) → Checked ε β
  | value a, f => f a
  | error e, _ => error e
  | panic, _ => panic

def ofOption (e : ε) : Option α → Checked ε α
  | some a => value a
  | none => error e

def unwrap : Option α → Checked ε α
  | some a => value a
  | none => panic

/-- `+`, of numbers of 64 bits. -/
def add (a b : ℕ) : Checked ε ℕ := if a + b < 2 ^ 64 then value (a + b) else panic

variable {x : Checked ε α} {f : α → Checked ε β}

theorem bind_eq_value_iff {b : β} : x.bind f = value b ↔ ∃ a, x = value a ∧ f a = value b := by
  cases x <;> simp [bind]

theorem bind_ne_panic (hx : x ≠ panic) (hf : ∀ a, x = value a → f a ≠ panic) :
    x.bind f ≠ panic := by
  cases x with
  | value a => exact hf a rfl
  | error e => simp [bind]
  | panic => exact absurd rfl hx

theorem ofOption_ne_panic (e : ε) (o : Option α) : ofOption e o ≠ panic := by
  cases o <;> simp [ofOption]

theorem ofOption_eq_value_iff {e : ε} {o : Option α} {a : α} :
    ofOption e o = value a ↔ o = some a := by
  cases o <;> simp [ofOption]

theorem add_eq_value {a b : ℕ} (h : a + b < 2 ^ 64) : (add a b : Checked ε ℕ) = value (a + b) :=
  if_pos h

end Checked

/-! ### Parts of a list -/

variable {α : Type*}

/-- `get`, of a range. -/
def getRange (l : List α) (start stop : ℕ) : Option (List α) :=
  if start ≤ stop ∧ stop ≤ l.length then some ((l.take stop).drop start) else none

theorem getRange_append {a b c : List α} {start stop : ℕ} (hstart : a.length = start)
    (hstop : start + b.length = stop) : getRange (a ++ (b ++ c)) start stop = some b := by
  subst hstart
  subst hstop
  have hle : a.length + b.length ≤ (a ++ (b ++ c)).length := by
    rw [List.length_append, List.length_append]
    omega
  rw [getRange, if_pos ⟨Nat.le_add_right _ _, hle⟩, ← List.append_assoc, ← List.length_append,
    List.take_left, List.drop_left]

theorem length_of_getRange {l part : List α} {start stop : ℕ}
    (h : getRange l start stop = some part) : part.length = stop - start := by
  rw [getRange] at h
  split at h
  · next hrange =>
    cases h
    rw [List.length_drop, List.length_take, Nat.min_eq_left hrange.2]
  · cases h

end Buzz
