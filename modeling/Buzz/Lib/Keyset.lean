import Mathlib.Order.Lattice
import Mathlib.Order.Lex
import Mathlib.Order.Defs.LinearOrder
import Mathlib.Data.List.Nodup

/-!
# Keyset pagination

Rows with distinct keys are read in the order of their keys, a page at a time. A cursor is the key of
the last row that was read; the next page starts behind it.
-/

namespace Buzz.Keyset

open List

variable {α κ : Type} [LinearOrder κ] {key : α → κ} {rows : List α} {p : α → Bool}

/-- The rows in the order of their keys. -/
def orderBy (key : α → κ) (rows : List α) : List α :=
  rows.mergeSort fun a b => decide (key a ≤ key b)

/-- The rows behind a cursor; all of them, without one. -/
def behind (key : α → κ) (cursor : Option κ) (rows : List α) : List α :=
  rows.filter fun row => cursor.all fun c => decide (c < key row)

theorem orderBy_perm (rows : List α) : (orderBy key rows).Perm rows := mergeSort_perm rows _

@[simp] theorem mem_orderBy {a : α} : a ∈ orderBy key rows ↔ a ∈ rows := (orderBy_perm rows).mem_iff

theorem orderBy_sorted (rows : List α) :
    (orderBy key rows).Pairwise fun a b => key a ≤ key b := by
  refine (pairwise_mergeSort (fun a b c => ?_) (fun a b => ?_) rows).imp fun h =>
    of_decide_eq_true h
  · simpa using le_trans
  · simpa using le_total (key a) (key b)

theorem orderBy_strict (hkeys : (rows.map key).Nodup) :
    (orderBy key rows).Pairwise fun a b => key a < key b := by
  have hdistinct : (orderBy key rows).Pairwise fun a b => key a ≠ key b :=
    pairwise_map.mp (((orderBy_perm rows).map key).nodup_iff.mpr hkeys)
  exact ((orderBy_sorted rows).and hdistinct).imp fun h => lt_of_le_of_ne h.1 h.2

theorem orderBy_filter (hkeys : (rows.map key).Nodup) :
    orderBy key (rows.filter p) = (orderBy key rows).filter p := by
  have hkeys' : ((rows.filter p).map key).Nodup := hkeys.sublist (filter_sublist.map key)
  refine List.Perm.eq_of_pairwise (fun a b _ _ hab hba => ?_) (orderBy_strict hkeys')
    ((orderBy_strict hkeys).sublist filter_sublist) ?_
  · exact absurd hab (lt_asymm hba)
  · exact (orderBy_perm _).trans ((orderBy_perm rows).filter p).symm

theorem behind_of_append {before rest : List α} {a : α}
    (hstrict : (before ++ a :: rest).Pairwise fun a b => key a < key b) :
    behind key (some (key a)) (before ++ a :: rest) = rest := by
  obtain ⟨-, htail, hcross⟩ := pairwise_append.mp hstrict
  obtain ⟨hrest, -⟩ := pairwise_cons.mp htail
  have hbefore : before.filter (fun row => decide (key a < key row)) = [] := by
    rw [filter_eq_nil_iff]
    intro b hb
    simpa using (hcross b hb a (mem_cons_self ..)).le
  have hafter : rest.filter (fun row => decide (key a < key row)) = rest := by
    rw [filter_eq_self]
    intro b hb
    simpa using hrest b hb
  simp [behind, hbefore, hafter]

/-- **What is behind the rows that were read.** -/
theorem orderBy_behind_of_append {before rest : List α} {a : α} (hkeys : (rows.map key).Nodup)
    (hrows : orderBy key rows = before ++ a :: rest) :
    orderBy key (behind key (some (key a)) rows) = rest := by
  have hstrict := orderBy_strict hkeys
  rw [behind, orderBy_filter hkeys]
  rw [hrows] at hstrict ⊢
  exact behind_of_append hstrict

/-- A page leaves a row out exactly if there are more rows than it has room for. -/
theorem exists_notMem_take_iff {n : ℕ} (hrows : rows.Nodup) :
    (∃ a ∈ rows, a ∉ rows.take n) ↔ n < rows.length := by
  constructor
  · rintro ⟨a, ha, hout⟩
    by_contra hle
    rw [take_of_length_le (Nat.le_of_not_lt hle)] at hout
    exact hout ha
  · intro hlt
    have hdrop : rows[n] ∈ rows.drop n := by
      rw [drop_eq_getElem_cons hlt]
      exact mem_cons_self ..
    refine ⟨rows[n], getElem_mem hlt, fun hin => ?_⟩
    exact hrows.rel_of_mem_take_of_mem_drop hin hdrop rfl

theorem exists_take_eq_concat {n : ℕ} (hn : 0 < n) (hrows : rows ≠ []) :
    ∃ init last, rows.take n = init ++ [last] ∧ rows = init ++ last :: rows.drop n := by
  have hne : rows.take n ≠ [] := by
    rw [Ne, take_eq_nil_iff]
    rintro (h | h)
    · omega
    · exact hrows h
  have hinit := (dropLast_append_getLast hne).symm
  refine ⟨_, _, hinit, ?_⟩
  conv_lhs => rw [← take_append_drop n rows, hinit, append_assoc]
  rfl

theorem behind_none : behind key none rows = rows := filter_eq_self.mpr fun _ _ => rfl

end Buzz.Keyset
