import Mathlib.Algebra.GroupWithZero.Nat
import Mathlib.Data.List.Basic
import Mathlib.Data.List.TakeWhile
import Mathlib.Order.Nat

/-!
# Fitting into a limit

Items with sizes are offered one after another, and each one that still fits is kept. An item that
does not fit is passed over, so a later and smaller one may be kept: what is kept need not be what
was offered first.

A sequence may also consist of turns. Each begins with an item of a kind of its own, except that the
first one may begin with any item. To get below a limit, turns are dropped from the front, as few as
possible, and never the last one.
-/

/-! ## Items, one by one -/

namespace Buzz

variable {α : Type*} (size : α → ℕ)

/-- What is kept of the items, in a room of this size. -/
def greedy : ℕ → List α → List α
  | _, [] => []
  | room, x :: xs => if size x ≤ room then x :: greedy (room - size x) xs else greedy room xs

/-- The size of the items together. -/
def weight (xs : List α) : ℕ := (xs.map size).sum

variable {size} {room : ℕ} {xs ys : List α}

@[simp] theorem weight_nil : weight size ([] : List α) = 0 := rfl

@[simp] theorem weight_cons (x : α) : weight size (x :: xs) = size x + weight size xs := by
  simp [weight, List.sum_cons]

theorem weight_append : weight size (xs ++ ys) = weight size xs + weight size ys := by
  simp [weight, List.sum_append]

theorem weight_reverse : weight size xs.reverse = weight size xs := by
  simp [weight, List.sum_reverse]

theorem greedy_cons_of_le {x : α} (h : size x ≤ room) :
    greedy size room (x :: xs) = x :: greedy size (room - size x) xs := by
  rw [greedy, if_pos h]

theorem greedy_cons_of_lt {x : α} (h : room < size x) :
    greedy size room (x :: xs) = greedy size room xs := by
  rw [greedy, if_neg (Nat.not_le_of_lt h)]

theorem greedy_sublist (room : ℕ) (xs : List α) : (greedy size room xs).Sublist xs := by
  induction xs generalizing room with
  | nil => exact List.Sublist.refl _
  | cons x xs ih =>
    rw [greedy]
    split
    · exact (ih _).cons_cons x
    · exact (ih _).cons x

/-- **What is kept fits.** -/
theorem weight_greedy_le (room : ℕ) (xs : List α) : weight size (greedy size room xs) ≤ room := by
  induction xs generalizing room with
  | nil => exact Nat.zero_le _
  | cons x xs ih =>
    rw [greedy]
    split
    · next h =>
      have hrest := ih (room - size x)
      rw [weight_cons]
      omega
    · exact ih room

theorem greedy_append (h : weight size xs ≤ room) :
    greedy size room (xs ++ ys) = xs ++ greedy size (room - weight size xs) ys := by
  induction xs generalizing room with
  | nil => rfl
  | cons x xs ih =>
    rw [weight_cons] at h
    rw [List.cons_append, greedy_cons_of_le (by omega), ih (by omega), weight_cons, Nat.sub_sub,
      List.cons_append]

theorem greedy_eq_nil_iff : greedy size room xs = [] ↔ ∀ x ∈ xs, room < size x := by
  induction xs with
  | nil => simp [greedy]
  | cons x xs ih =>
    rw [greedy, List.forall_mem_cons]
    split
    · next h =>
      simp only [reduceCtorEq, false_iff]
      omega
    · next h =>
      rw [ih]
      exact (and_iff_right (Nat.lt_of_not_le h)).symm

theorem size_le_weight {x : α} (h : x ∈ xs) : size x ≤ weight size xs := by
  obtain ⟨before, after, rfl⟩ := List.append_of_mem h
  rw [weight_append, weight_cons]
  omega

theorem size_le_of_mem_greedy {x : α} (h : x ∈ greedy size room xs) : size x ≤ room :=
  Nat.le_trans (size_le_weight h) (weight_greedy_le room xs)

end Buzz

/-! ## Whole turns -/

namespace Buzz

variable {α : Type*} (starts : α → Bool) (size : α → ℕ) (limit : ℕ)

/-- The sequence, or what is left of it from an item on that begins a turn. -/
def AtTurn (xs suffix : List α) : Prop :=
  suffix <:+ xs ∧ (suffix = xs ∨ ∃ a rest, suffix = a :: rest ∧ starts a = true)

/-- No turn begins after the first item. -/
def SingleTurn (xs : List α) : Prop := ∀ a ∈ xs.tail, starts a = false

/-- The sequence without its first turn. -/
def nextTurn (xs : List α) : List α := xs.tail.dropWhile fun a => !starts a

/-- What is left when as few turns as possible are dropped. -/
structure LeastDropped (xs kept : List α) : Prop where
  atTurn : AtTurn starts xs kept
  fits : weight size kept ≤ limit ∨ SingleTurn starts kept
  least : ∀ longer, AtTurn starts xs longer → kept.length < longer.length →
    limit < weight size longer
  ne_nil : xs ≠ [] → kept ≠ []

variable {starts size limit} {xs kept suffix : List α}

theorem AtTurn.self (xs : List α) : AtTurn starts xs xs := ⟨List.suffix_refl xs, .inl rfl⟩

theorem singleTurn_iff : SingleTurn starts xs ↔ nextTurn starts xs = [] := by
  simp [nextTurn, SingleTurn]

theorem nextTurn_suffix (xs : List α) : nextTurn starts xs <:+ xs :=
  (List.dropWhile_suffix _).trans (List.tail_suffix xs)

theorem nextTurn_eq_cons {a : α} {rest : List α} (h : nextTurn starts xs = a :: rest) :
    starts a = true := by
  have hhead := List.head?_dropWhile_not (fun a => !starts a) xs.tail
  rw [show xs.tail.dropWhile (fun a => !starts a) = a :: rest from h] at hhead
  simpa using hhead

theorem AtTurn.of_next (hne : nextTurn starts xs ≠ [])
    (h : AtTurn starts (nextTurn starts xs) suffix) : AtTurn starts xs suffix := by
  refine ⟨h.1.trans (nextTurn_suffix xs), .inr ?_⟩
  rcases h.2 with rfl | hstart
  · obtain ⟨a, rest, hcons⟩ := List.exists_cons_of_ne_nil hne
    exact ⟨a, rest, hcons, nextTurn_eq_cons hcons⟩
  · exact hstart

theorem AtTurn.next (h : AtTurn starts xs suffix) (hne : suffix ≠ xs) :
    AtTurn starts (nextTurn starts xs) suffix := by
  obtain ⟨a, rest, rfl, hstart⟩ := h.2.resolve_left hne
  refine ⟨?_, .inr ⟨a, rest, rfl, hstart⟩⟩
  cases xs with
  | nil =>
    have hnil := h.1
    simp at hnil
  | cons b tail =>
    rcases List.suffix_cons_iff.mp h.1 with heq | ⟨front, hfront⟩
    · exact absurd heq hne
    · have hsplit := List.takeWhile_append_dropWhile (p := fun a => !starts a) (l := tail)
      rw [← hsplit] at hfront
      rcases List.append_eq_append_iff.mp hfront with ⟨more, htake, hrest⟩ | ⟨more, -, hdrop⟩
      · cases more with
        | nil => exact ⟨[], hrest⟩
        | cons c more =>
          -- the first item would be one of those that begin no turn
          obtain ⟨rfl, -⟩ := List.cons.inj hrest
          have hmem : a ∈ tail.takeWhile fun a => !starts a := by simp [htake]
          have hnot := List.mem_takeWhile_imp hmem
          simp [hstart] at hnot
      · exact ⟨more, hdrop.symm⟩

theorem LeastDropped.of_le (h : weight size xs ≤ limit) : LeastDropped starts size limit xs xs where
  atTurn := .self xs
  fits := .inl h
  least := fun _ hlonger hlength => absurd hlonger.1.length_le (Nat.not_le_of_lt hlength)
  ne_nil := id

theorem LeastDropped.of_single (h : SingleTurn starts xs) :
    LeastDropped starts size limit xs xs where
  atTurn := .self xs
  fits := .inr h
  least := fun _ hlonger hlength => absurd hlonger.1.length_le (Nat.not_le_of_lt hlength)
  ne_nil := id

/-- **The first turn goes** where the sequence does not fit and another turn follows. -/
theorem LeastDropped.of_next (hbig : limit < weight size xs) (hne : nextTurn starts xs ≠ [])
    (h : LeastDropped starts size limit (nextTurn starts xs) kept) :
    LeastDropped starts size limit xs kept where
  atTurn := h.atTurn.of_next hne
  fits := h.fits
  least := by
    intro longer hlonger hlength
    by_cases heq : longer = xs
    · rwa [heq]
    · exact h.least longer (hlonger.next heq) hlength
  ne_nil := fun _ => h.ne_nil hne

end Buzz
