import Buzz.Lib.KeyMap

/-!
# Insertions that skip what is there

`INSERT … ON CONFLICT (key) DO NOTHING RETURNING` puts the rows of a statement into a table one after
the other. A row whose key is taken is skipped, be it by a row that was there before or by one of the
same statement. A row that breaks another constraint fails the whole statement.
-/

namespace Buzz

open List

variable {π ρ κ : Type*} [DecidableEq κ] (key : ρ → κ) (row : π → Option ρ)
  (clash : List ρ → ρ → Bool)

/-- The table after one row, and the row if it was inserted. Nothing, if the row breaks a constraint:
one that it breaks by itself, or one that a row without conflict breaks in this table. -/
def insertRow (t : List ρ) (p : π) : Option (List ρ × List ρ) :=
  match row p with
  | none => none
  | some r =>
    match lookupKey key t (key r) with
    | some _ => some (t, [])
    | none => if clash t r then none else some (t ++ [r], [r])

/-- The table after the rows of a statement, and those that were inserted. -/
def insertRows : List ρ → List π → Option (List ρ × List ρ)
  | t, [] => some (t, [])
  | t, p :: ps =>
    match insertRow key row clash t p with
    | none => none
    | some (t', new) => (insertRows t' ps).map fun q => (q.1, new ++ q.2)

variable {key row clash} {t t' new : List ρ} {p : π} {ps : List π}

theorem insertRow_cases (h : insertRow key row clash t p = some (t', new)) :
    ∃ r, row p = some r ∧
      ((∃ s, lookupKey key t (key r) = some s ∧ t' = t ∧ new = []) ∨
        lookupKey key t (key r) = none ∧ t' = t ++ [r] ∧ new = [r]) := by
  unfold insertRow at h
  split at h
  · cases h
  · next r hrow =>
    refine ⟨r, hrow, ?_⟩
    split at h
    · next s hfound =>
      cases h
      exact .inl ⟨s, hfound, rfl, rfl⟩
    · next hnone =>
      split at h
      · cases h
      · cases h
        exact .inr ⟨hnone, rfl, rfl⟩

theorem insertRows_cons (h : insertRows key row clash t (p :: ps) = some (t', new)) :
    ∃ mid first rest, insertRow key row clash t p = some (mid, first) ∧
      insertRows key row clash mid ps = some (t', rest) ∧ new = first ++ rest := by
  rw [insertRows] at h
  split at h
  · cases h
  · next mid first hfirst =>
    obtain ⟨⟨last, rest⟩, hrest, heq⟩ := Option.map_eq_some_iff.mp h
    cases heq
    exact ⟨mid, first, rest, hfirst, hrest, rfl⟩

/-- **The table only grows.** -/
theorem insertRows_append (h : insertRows key row clash t ps = some (t', new)) : t' = t ++ new := by
  induction ps generalizing t new with
  | nil =>
    cases h
    exact (append_nil _).symm
  | cons p ps ih =>
    obtain ⟨mid, first, rest, hfirst, hrest, rfl⟩ := insertRows_cons h
    rw [ih hrest]
    obtain ⟨r, -, ⟨s, -, rfl, rfl⟩ | ⟨-, rfl, rfl⟩⟩ := insertRow_cases hfirst
    · rfl
    · simp

theorem row_of_insertRows (h : insertRows key row clash t ps = some (t', new)) (hp : p ∈ ps) :
    ∃ r, row p = some r := by
  induction ps generalizing t new with
  | nil => nomatch hp
  | cons q ps ih =>
    obtain ⟨mid, first, rest, hfirst, hrest, rfl⟩ := insertRows_cons h
    obtain rfl | hp := mem_cons.mp hp
    · obtain ⟨r, hrow, -⟩ := insertRow_cases hfirst
      exact ⟨r, hrow⟩
    · exact ih hrest hp

/-- **Every key of the statement is in the table after it.** -/
theorem lookupKey_of_insertRows (h : insertRows key row clash t ps = some (t', new)) (hp : p ∈ ps)
    {r : ρ} (hrow : row p = some r) : ∃ s, lookupKey key t' (key r) = some s := by
  induction ps generalizing t new with
  | nil => nomatch hp
  | cons q ps ih =>
    obtain ⟨mid, first, rest, hfirst, hrest, rfl⟩ := insertRows_cons h
    obtain rfl | hp := mem_cons.mp hp
    · have hmid : ∃ s, lookupKey key mid (key r) = some s := by
        obtain ⟨r', hrow', ⟨s, hs, rfl, -⟩ | ⟨-, rfl, -⟩⟩ := insertRow_cases hfirst
        · cases hrow.symm.trans hrow'
          exact ⟨s, hs⟩
        · cases hrow.symm.trans hrow'
          refine Option.ne_none_iff_exists'.mp fun hnone => ?_
          exact lookupKey_eq_none_iff.mp hnone r (by simp) rfl
      obtain ⟨s, hs⟩ := hmid
      rw [insertRows_append hrest, lookupKey, find?_append]
      exact ⟨s, by rw [← lookupKey, hs, Option.some_or]⟩
    · exact ih hrest hp

/-- **What is returned was not in the table before.** -/
theorem key_of_returned (h : insertRows key row clash t ps = some (t', new)) {r : ρ} (hr : r ∈ new) :
    lookupKey key t (key r) = none := by
  induction ps generalizing t new with
  | nil =>
    cases h
    nomatch hr
  | cons p ps ih =>
    obtain ⟨mid, first, rest, hfirst, hrest, rfl⟩ := insertRows_cons h
    obtain ⟨r', -, ⟨s, -, rfl, rfl⟩ | ⟨hnone, rfl, rfl⟩⟩ := insertRow_cases hfirst
    · exact ih hrest hr
    · obtain rfl | hr := mem_cons.mp hr
      · exact hnone
      · have hmid := ih hrest hr
        rw [lookupKey, find?_append, Option.or_eq_none_iff] at hmid
        exact hmid.1

theorem length_returned_le (h : insertRows key row clash t ps = some (t', new)) :
    new.length ≤ ps.length := by
  induction ps generalizing t new with
  | nil =>
    cases h
    exact Nat.le_refl _
  | cons p ps ih =>
    obtain ⟨mid, first, rest, hfirst, hrest, rfl⟩ := insertRows_cons h
    have hle := ih hrest
    obtain ⟨_, -, ⟨_, -, -, rfl⟩ | ⟨-, -, rfl⟩⟩ := insertRow_cases hfirst
    · exact Nat.le_succ_of_le hle
    · exact Nat.succ_le_succ hle

/-- **A statement that skips a row returns fewer rows than it was given.** -/
theorem length_lt_of_skipped (h : insertRows key row clash t ps = some (t', new)) (hp : p ∈ ps)
    {r : ρ} (hrow : row p = some r) (hskip : lookupKey key new (key r) = none) :
    new.length < ps.length := by
  induction ps generalizing t new with
  | nil => nomatch hp
  | cons q ps ih =>
    obtain ⟨mid, first, rest, hfirst, hrest, rfl⟩ := insertRows_cons h
    have hrestLe := length_returned_le hrest
    obtain ⟨r', hrow', ⟨_, -, -, rfl⟩ | ⟨-, -, rfl⟩⟩ := insertRow_cases hfirst
    · exact Nat.lt_succ_of_le hrestLe
    · obtain rfl | hp := mem_cons.mp hp
      · cases hrow.symm.trans hrow'
        exact absurd rfl (lookupKey_eq_none_iff.mp hskip r mem_cons_self)
      · rw [singleton_append, lookupKey_cons] at hskip
        split at hskip
        · cases hskip
        · exact Nat.succ_lt_succ (ih hrest hp hskip)

end Buzz
