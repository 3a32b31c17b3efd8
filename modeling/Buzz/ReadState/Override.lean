import Mathlib.Data.List.AList

/-!
# Manual-unread registers

The override layer of NIP-RS, in the encoding with two grow-only counters and a baseline. A register
counts the mark-unread and the mark-read actions of a context, and holds the frontier at which the
context was marked unread. Registers are joined componentwise.
-/

namespace Buzz.ReadState

/-- Who wins when the counters are equal. -/
inductive TiePolicy where
  | set
  | clear
  deriving DecidableEq

/-- A register. -/
@[ext] structure RegB where
  s : ℕ := 0
  c : ℕ := 0
  /-- The baseline: the frontier at which the context was marked unread. -/
  b : ℕ := 0
  deriving DecidableEq

def mergeRegB : Option RegB → Option RegB → Option RegB
  | none, b => b
  | some a, none => some a
  | some a, some b => some ⟨max a.s b.s, max a.c b.c, max a.b b.b⟩

def overrideSetB (reg : Option RegB) (frontierVal : ℕ) (tiePolicy : TiePolicy) : Bool :=
  match reg with
  | none => false
  | some reg =>
    if frontierVal > reg.b && decide (reg.s > 0) then false
    else if reg.s > reg.c then true
    else if reg.s == reg.c && decide (reg.s > 0) then tiePolicy == .set
    else false

def compactB (reg : RegB) (frontierVal : ℕ) (tiePolicy : TiePolicy) : Option RegB :=
  if reg.s == 0 && reg.c == 0 then none
  else if overrideSetB (some reg) frontierVal tiePolicy then some reg
  else some ⟨0, max reg.s reg.c, 0⟩

variable {a b c : Option RegB} {r k : RegB} {f : ℕ} {tie : TiePolicy}

/-! ### The verdict -/

/-- **A live register.** It has been set, the frontier has not passed its baseline, and it was not
cleared since. -/
theorem overrideSetB_iff : overrideSetB (some r) f tie = true ↔
    0 < r.s ∧ f ≤ r.b ∧ (r.c < r.s ∨ r.c = r.s ∧ tie = .set) := by
  simp only [overrideSetB, Bool.and_eq_true, decide_eq_true_eq, beq_iff_eq]
  split
  · simp
    omega
  · split
    · simp
      omega
    · split
      · cases tie with
        | set | clear =>
          simp
          omega
      · simp
        omega

theorem overrideSetB_none : overrideSetB none f tie = false := rfl

theorem overrideSetB_tombstone (n : ℕ) : overrideSetB (some ⟨0, n, 0⟩) f tie = false := by
  simp [overrideSetB]

/-! ### Compaction -/

theorem compactB_eq_none : compactB r f tie = none ↔ r.s = 0 ∧ r.c = 0 := by
  simp only [compactB]
  split
  · next h => simpa using h
  · next h =>
    split
    · simpa using h
    · simpa using h

/-- What compaction leaves: a live register, or the tombstone of a dead one. -/
theorem compactB_cases (h : compactB r f tie = some k) :
    (overrideSetB (some r) f tie = true ∧ k = r) ∨
      (overrideSetB (some r) f tie = false ∧ k = ⟨0, max r.s r.c, 0⟩ ∧ 0 < max r.s r.c) := by
  rw [compactB] at h
  split at h
  · nomatch h
  · next hne =>
    split at h
    · next hlive => exact .inl ⟨hlive, (Option.some.inj h).symm⟩
    · next hdead =>
      refine .inr ⟨Bool.eq_false_iff.mpr hdead, (Option.some.inj h).symm, ?_⟩
      simp at hne
      omega

theorem overrideSetB_compactB : overrideSetB (compactB r f tie) f tie =
    overrideSetB (some r) f tie := by
  cases hk : compactB r f tie with
  | none =>
    obtain ⟨hs, -⟩ := compactB_eq_none.mp hk
    rw [overrideSetB_none]
    symm
    rw [Bool.eq_false_iff, ne_eq, overrideSetB_iff]
    omega
  | some k =>
    obtain ⟨-, rfl⟩ | ⟨hdead, rfl, -⟩ := compactB_cases hk
    · rfl
    · rw [overrideSetB_tombstone, hdead]

/-! ### The join -/

@[simp] theorem mergeRegB_none_left : mergeRegB none b = b := rfl

@[simp] theorem mergeRegB_none_right : mergeRegB a none = a := by
  cases a <;> rfl

theorem mergeRegB_assoc : mergeRegB (mergeRegB a b) c = mergeRegB a (mergeRegB b c) := by
  cases a with
  | none => rfl
  | some a =>
    cases b with
    | none => simp
    | some b =>
      cases c with
      | none => rfl
      | some c => simp [mergeRegB, Nat.max_assoc]

@[simp] theorem mergeRegB_self : mergeRegB a a = a := by
  cases a with
  | none => rfl
  | some a => simp [mergeRegB]

end Buzz.ReadState
