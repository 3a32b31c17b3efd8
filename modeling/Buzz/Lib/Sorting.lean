import Mathlib.Data.List.Sort

/-!
# Sorted lists

The list representation of a finite set: sort a list and drop consecutive repetitions. The result
depends only on which elements occur.

Sorting is stable: what compares equal stays in the order of the list. So it may be swapped with
selecting, and an element at the front of the list that is no later than any other one comes first.
What comes first is one of those that are no later than any other one. Which of them it is depends on
the order of the list, unless there is only one.
-/

/-! ## Without repetitions -/

namespace Buzz

variable {α : Type*}

/-- Drop every element that equals its successor. -/
def dedupConsecutive [DecidableEq α] : List α → List α
  | [] => []
  | [a] => [a]
  | a :: b :: l => if a = b then dedupConsecutive (b :: l) else a :: dedupConsecutive (b :: l)

section

variable [DecidableEq α]

@[simp] theorem mem_dedupConsecutive {a : α} {l : List α} : a ∈ dedupConsecutive l ↔ a ∈ l := by
  induction l using dedupConsecutive.induct with
  | case1 | case2 b => simp [dedupConsecutive]
  | case3 b l ih => simp [dedupConsecutive, ih]
  | case4 b c l hne ih => simp [dedupConsecutive, hne, ih]

end

variable [LinearOrder α]

variable {l : List α}

theorem pairwise_dedupConsecutive (h : l.Pairwise (· ≤ ·)) :
    (dedupConsecutive l).Pairwise (· < ·) := by
  induction l using dedupConsecutive.induct with
  | case1 => exact List.Pairwise.nil
  | case2 b => exact List.pairwise_singleton _ _
  | case3 b l ih =>
    rw [dedupConsecutive, if_pos rfl]
    exact ih (List.pairwise_cons.mp h).2
  | case4 b c l hne ih =>
    obtain ⟨hb, htail⟩ := List.pairwise_cons.mp h
    rw [dedupConsecutive, if_neg hne]
    refine List.pairwise_cons.mpr ⟨fun x hx => ?_, ih htail⟩
    have hbc : b < c := lt_of_le_of_ne (hb c (List.mem_cons_self ..)) hne
    rcases List.mem_cons.mp (mem_dedupConsecutive.mp hx) with rfl | hx
    · exact hbc
    · exact lt_of_lt_of_le hbc ((List.pairwise_cons.mp htail).1 x hx)

/-- Sort a list and drop repetitions. -/
def sortDedup (l : List α) : List α := dedupConsecutive (l.insertionSort (· ≤ ·))

@[simp] theorem mem_sortDedup {a : α} : a ∈ sortDedup l ↔ a ∈ l := by
  rw [sortDedup, mem_dedupConsecutive, (List.perm_insertionSort (· ≤ ·) l).mem_iff]

theorem pairwise_sortDedup (l : List α) : (sortDedup l).Pairwise (· < ·) :=
  pairwise_dedupConsecutive (List.pairwise_insertionSort (· ≤ ·) l)

theorem eq_of_pairwise_lt_of_mem_iff {m : List α} (hl : l.Pairwise (· < ·))
    (hm : m.Pairwise (· < ·)) (h : ∀ a, a ∈ l ↔ a ∈ m) : l = m := by
  have hnl : l.Nodup := hl.imp ne_of_lt
  have hnm : m.Nodup := hm.imp ne_of_lt
  have hperm : l.Perm m := (List.perm_ext_iff_of_nodup hnl hnm).mpr h
  exact hperm.eq_of_pairwise (fun a b _ _ hab hba => absurd hab hba.asymm) hl hm

theorem sortDedup_eq_iff {m : List α} : sortDedup l = sortDedup m ↔ ∀ a, a ∈ l ↔ a ∈ m := by
  constructor
  · intro h a
    rw [← mem_sortDedup (l := l), h, mem_sortDedup]
  · intro h
    exact eq_of_pairwise_lt_of_mem_iff (pairwise_sortDedup l) (pairwise_sortDedup m)
      fun a => by simp [h]

theorem sortDedup_of_pairwise (h : l.Pairwise (· < ·)) : sortDedup l = l :=
  eq_of_pairwise_lt_of_mem_iff (pairwise_sortDedup l) h fun a => by simp

end Buzz

/-! ## Stable sorting -/

namespace Buzz

variable {α : Type*} {le : α → α → Bool}

/-- An element that is no later than any other one. -/
def IsFirst (le : α → α → Bool) (l : List α) (a : α) : Prop := a ∈ l ∧ ∀ b ∈ l, le a b = true

theorem isFirst_congr {l l' : List α} (h : ∀ a, a ∈ l ↔ a ∈ l') {a : α} :
    IsFirst le l a ↔ IsFirst le l' a := by
  simp only [IsFirst, h]

section

variable (htrans : ∀ a b c, le a b = true → le b c = true → le a c = true)
  (htotal : ∀ a b, (le a b || le b a) = true)
include htrans htotal

variable {l : List α}

theorem isFirst_of_head? {a : α} (h : (l.mergeSort le).head? = some a) : IsFirst le l a := by
  obtain ⟨rest, hrest⟩ := List.head?_eq_some_iff.mp h
  have hsorted := List.pairwise_mergeSort htrans htotal l
  have hmem : ∀ b, b ∈ l ↔ b ∈ a :: rest := fun b => by rw [← hrest, List.mem_mergeSort]
  rw [hrest, List.pairwise_cons] at hsorted
  refine ⟨(hmem a).mpr List.mem_cons_self, fun b hb => ?_⟩
  rcases List.mem_cons.mp ((hmem b).mp hb) with rfl | hb
  · simpa using htotal b b
  · exact hsorted.1 b hb

theorem exists_head?_mergeSort (h : l ≠ []) :
    ∃ a, (l.mergeSort le).head? = some a ∧ IsFirst le l a := by
  cases hhead : (l.mergeSort le).head? with
  | none =>
    rw [List.head?_eq_none_iff, ← List.length_eq_zero_iff, List.length_mergeSort,
      List.length_eq_zero_iff] at hhead
    exact absurd hhead h
  | some a => exact ⟨a, rfl, isFirst_of_head? htrans htotal hhead⟩

/-- An element at the front that is no later than any other one comes first. -/
theorem head?_mergeSort_cons {a : α} (h : ∀ b ∈ l, le a b = true) :
    ((a :: l).mergeSort le).head? = some a := by
  obtain ⟨l₁, l₂, hsort, htail, hbefore⟩ := List.mergeSort_cons htrans htotal a l
  cases l₁ with
  | nil => rw [hsort, List.nil_append, List.head?_cons]
  | cons b l₁ =>
    have hb : b ∈ l := by
      have hmem : b ∈ l.mergeSort le := htail ▸ List.mem_append_left _ List.mem_cons_self
      exact List.mem_mergeSort.mp hmem
    have hnot := hbefore b List.mem_cons_self
    rw [h b hb] at hnot
    nomatch hnot

/-- **What comes first may depend on the order of the list**, unless all that may come first are the
same for what is asked. -/
theorem map_head?_mergeSort_iff {β : Type*} (f : α → β) (l : List α) :
    (∀ l' : List α, (∀ a, a ∈ l ↔ a ∈ l') →
      (l'.mergeSort le).head?.map f = (l.mergeSort le).head?.map f) ↔
      ∀ a b, IsFirst le l a → IsFirst le l b → f a = f b := by
  constructor
  · intro h
    have hfront : ∀ a, IsFirst le l a → some (f a) = (l.mergeSort le).head?.map f := by
      intro a ha
      simp [← h (a :: l) fun b => ⟨List.mem_cons_of_mem a,
        fun hb => (List.mem_cons.mp hb).elim (fun heq => heq ▸ ha.1) id⟩,
        head?_mergeSort_cons htrans htotal ha.2]
    exact fun a b ha hb => Option.some.inj ((hfront a ha).trans (hfront b hb).symm)
  · intro h l' hmem
    by_cases hl : l = []
    · subst hl
      have hl' : l' = [] := List.eq_nil_iff_forall_not_mem.mpr fun a ha =>
        List.not_mem_nil ((hmem a).mpr ha)
      rw [hl']
    · have hl' : l' ≠ [] := by
        rintro rfl
        exact hl (List.eq_nil_iff_forall_not_mem.mpr fun a ha =>
          List.not_mem_nil ((hmem a).mp ha))
      obtain ⟨a, ha, hfirst⟩ := exists_head?_mergeSort htrans htotal hl
      obtain ⟨b, hb, hfirst'⟩ := exists_head?_mergeSort htrans htotal hl'
      simp [ha, hb, h b a ((isFirst_congr hmem).mpr hfirst') hfirst]

/-- **Sorting and selecting may be swapped.** -/
theorem filter_mergeSort (p : α → Bool) (l : List α) :
    (l.mergeSort le).filter p = (l.filter p).mergeSort le := by
  induction l with
  | nil => simp
  | cons a l ih =>
    obtain ⟨l₁, l₂, hsort, htail, hbefore⟩ := List.mergeSort_cons htrans htotal a l
    have hsorted := List.pairwise_mergeSort htrans htotal (a :: l)
    rw [hsort, List.pairwise_append, List.pairwise_cons] at hsorted
    rw [htail, List.filter_append] at ih
    rw [hsort, List.filter_append, List.filter_cons, List.filter_cons]
    split
    · -- the place of an element is behind those that come before it
      obtain ⟨m₁, m₂, hsort', htail', hbefore'⟩ :=
        List.mergeSort_cons htrans htotal a (l.filter p)
      have hsorted' := List.pairwise_mergeSort htrans htotal (a :: l.filter p)
      rw [hsort', List.pairwise_append, List.pairwise_cons] at hsorted'
      have hsplit : l₁.filter p ++ l₂.filter p = m₁ ++ m₂ := ih.trans htail'
      have htake : ∀ xs ys : List α, (∀ b ∈ xs, (!le a b) = true) → (∀ b ∈ ys, le a b = true) →
          (xs ++ ys).takeWhile (fun b => !le a b) = xs := by
        intro xs ys hxs hys
        rw [List.takeWhile_append_of_pos hxs]
        cases ys with
        | nil => simp
        | cons y ys =>
          rw [List.takeWhile_cons_of_neg (by simp [hys y List.mem_cons_self]), List.append_nil]
      have hl₁ := htake (l₁.filter p) (l₂.filter p)
        (fun b hb => hbefore b (List.mem_filter.mp hb).1)
        (fun b hb => hsorted.2.1.1 b (List.mem_filter.mp hb).1)
      have hm₁ := htake m₁ m₂ hbefore' hsorted'.2.1.1
      rw [hsplit, hm₁] at hl₁
      rw [← hl₁] at hsplit
      rw [hsort', hl₁, List.append_cancel_left hsplit]
    · exact ih

/-- **Where nothing compares equal**, lists with the same elements have one result. -/
theorem mergeSort_eq_of_mem_iff {l' : List α} (hl : l.Nodup) (hl' : l'.Nodup)
    (hmem : ∀ a, a ∈ l ↔ a ∈ l') (hanti : ∀ a ∈ l, ∀ b ∈ l, le a b = true → le b a = true → a = b) :
    l.mergeSort le = l'.mergeSort le := by
  have hperm : l.Perm l' := (List.perm_ext_iff_of_nodup hl hl').mpr hmem
  refine @List.Perm.eq_of_pairwise _ (fun a b => le a b = true) _ _ ?_
    (List.pairwise_mergeSort htrans htotal l) (List.pairwise_mergeSort htrans htotal l')
    ((List.mergeSort_perm l le).trans (hperm.trans (List.mergeSort_perm l' le).symm))
  intro a b ha hb
  exact hanti a (List.mem_mergeSort.mp ha) b ((hmem b).mpr (List.mem_mergeSort.mp hb))

end

end Buzz
