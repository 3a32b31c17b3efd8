import Buzz.Lib.Placeholders
import Mathlib.Algebra.BigOperators.Group.List.Basic
import Mathlib.Tactic.Ring

/-!
# Occurrences of a list in another one

A list may occur at several places of another one, and occurrences may overlap. Cutting at the first
occurrence, and then at the first one of the rest, gives occurrences that do not.
-/

namespace Buzz

open List

variable {α : Type*} {pat text pre post : List α} {i j : ℕ}

/-! ### Places -/

def OccursAt (pat text : List α) (i : ℕ) : Prop := i ≤ text.length ∧ pat <+: text.drop i

instance [DecidableEq α] : Decidable (OccursAt pat text i) := inferInstanceAs (Decidable (_ ∧ _))

theorem occursAt_append (pre : List α) : OccursAt pat (pre ++ text) (pre.length + i) ↔
    OccursAt pat text i := by
  simp [OccursAt]

theorem occursAt_length (pre post : List α) : OccursAt pat (pre ++ (pat ++ post)) pre.length := by
  have hstart : OccursAt pat (pat ++ post) 0 := ⟨Nat.zero_le _, prefix_append ..⟩
  exact (occursAt_append pre).mpr hstart

theorem infix_of_occursAt (h : OccursAt pat text i) : pat <:+: text :=
  h.2.isInfix.trans (drop_suffix i text).isInfix

theorem infix_iff_occursAt : pat <:+: text ↔ ∃ i, OccursAt pat text i := by
  constructor
  · rintro ⟨pre, post, rfl⟩
    rw [append_assoc]
    exact ⟨pre.length, occursAt_length pre post⟩
  · rintro ⟨i, h⟩
    exact infix_of_occursAt h

def OccursOnce (pat text : List α) (i : ℕ) : Prop :=
  OccursAt pat text i ∧ ∀ j, OccursAt pat text j → j = i

/-- There are more occurrences than the first one, but all of them begin inside it. -/
def Overlapping (pat text : List α) : Prop :=
  ∃ i j, OccursAt pat text i ∧ (∀ k < i, ¬OccursAt pat text k) ∧ i < j ∧ OccursAt pat text j ∧
    ∀ k, i + pat.length ≤ k → ¬OccursAt pat text k

variable [DecidableEq α]

/-- **A cut is at the first occurrence.** -/
theorem cutAt_first (h : cutAt pat text = some (pre, post)) :
    OccursAt pat text pre.length ∧ ∀ i < pre.length, ¬OccursAt pat text i := by
  refine ⟨eq_of_cutAt h ▸ occursAt_length pre post, ?_⟩
  induction text generalizing pre with
  | nil =>
    rw [cutAt] at h
    split at h
    · cases h
      exact fun i hi => absurd hi (Nat.not_lt_zero i)
    · cases h
  | cons a text ih =>
    rw [cutAt] at h
    split at h
    · cases h
      exact fun i hi => absurd hi (Nat.not_lt_zero i)
    · next hpre =>
      obtain ⟨⟨pre', post'⟩, hrest, heq⟩ := Option.map_eq_some_iff.mp h
      cases heq
      intro i hi hoccurs
      cases i with
      | zero => exact hpre (List.isPrefixOf_iff_prefix.mpr hoccurs.2)
      | succ i =>
        exact ih hrest i (by simpa using hi) ⟨by simpa using hoccurs.1, by simpa using hoccurs.2⟩

theorem cutAt_eq_none_iff_not_occursAt : cutAt pat text = none ↔ ∀ i, ¬OccursAt pat text i := by
  rw [cutAt_eq_none_iff, infix_iff_occursAt, not_exists]

/-- **One cut and one occurrence.** Where nothing is left to cut behind the first occurrence, it is
the only one unless others overlap it. -/
theorem unique_iff_not_overlapping (hcut : cutAt pat text = some (pre, post))
    (hrest : cutAt pat post = none) : OccursOnce pat text pre.length ↔ ¬Overlapping pat text := by
  obtain ⟨hfirst, hbefore⟩ := cutAt_first hcut
  have hbehind : ∀ k, pre.length + pat.length ≤ k → ¬OccursAt pat text k := by
    intro k hk hoccurs
    obtain ⟨d, rfl⟩ := Nat.exists_eq_add_of_le hk
    rw [eq_of_cutAt hcut, ← append_assoc, ← length_append, occursAt_append] at hoccurs
    exact cutAt_eq_none_iff_not_occursAt.mp hrest d hoccurs
  constructor
  · rintro ⟨-, honce⟩ ⟨i, j, hi, -, hlt, hj, -⟩
    have heq := (honce i hi).trans (honce j hj).symm
    omega
  · intro hnot
    refine ⟨hfirst, fun j hj => ?_⟩
    by_contra hne
    refine hnot ⟨pre.length, j, hfirst, hbefore, ?_, hj, hbehind⟩
    have hge := Nat.le_of_not_lt fun hlt => hbefore j hlt hj
    omega

theorem cut_of_overlapping (h : Overlapping pat text) :
    ∃ pre post, cutAt pat text = some (pre, post) ∧ cutAt pat post = none := by
  obtain ⟨i, j, hi, hbefore, -, -, hbehind⟩ := h
  cases hcut : cutAt pat text with
  | none => exact absurd hi (cutAt_eq_none_iff_not_occursAt.mp hcut i)
  | some parts =>
    obtain ⟨pre, post⟩ := parts
    obtain ⟨hfirst, hpre⟩ := cutAt_first hcut
    refine ⟨pre, post, rfl, cutAt_eq_none_iff_not_occursAt.mpr fun d hd => ?_⟩
    have hle : i ≤ pre.length := Nat.le_of_not_lt fun hlt => hbefore _ hlt hfirst
    refine hbehind (pre.length + pat.length + d) (by omega) ?_
    rwa [eq_of_cutAt hcut, ← append_assoc, ← length_append, occursAt_append]

/-! ### Segments -/

/-- What is left between the occurrences from the left. -/
def segments (pat : List α) (hpat : pat ≠ []) (text : List α) : List (List α) :=
  match _hcut : cutAt pat text with
  | none => [text]
  | some (pre, rest) => pre :: segments pat hpat rest
termination_by text.length
decreasing_by
  have hpos := length_pos_iff.mpr hpat
  have hle := length_of_cutAt _hcut
  omega

variable {hpat : pat ≠ []}

theorem segments_of_none (h : cutAt pat text = none) : segments pat hpat text = [text] := by
  rw [segments]
  split
  · rfl
  · next hsome => nomatch h.symm.trans hsome

theorem segments_of_some (h : cutAt pat text = some (pre, post)) :
    segments pat hpat text = pre :: segments pat hpat post := by
  rw [segments]
  split
  · next hnone => nomatch hnone.symm.trans h
  · next hsome =>
    cases hsome.symm.trans h
    rfl

omit [DecidableEq α] in
/-- A text that is cut at the occurrences from the left: each cut is at the first one of what is left,
and behind the last cut there is none. -/
inductive Leftmost (pat : List α) : List α → List (List α) → Prop where
  | last {text : List α} (hnone : ∀ i, ¬OccursAt pat text i) : Leftmost pat text [text]
  | cut {pre rest : List α} {parts : List (List α)}
      (hfirst : ∀ i < pre.length, ¬OccursAt pat (pre ++ (pat ++ rest)) i)
      (hrest : Leftmost pat rest parts) : Leftmost pat (pre ++ (pat ++ rest)) (pre :: parts)

/-- **The segments are those between the occurrences from the left.** -/
theorem segments_leftmost (hpat : pat ≠ []) (text : List α) :
    Leftmost pat text (segments pat hpat text) := by
  induction text using segments.induct pat hpat with
  | case1 text hcut =>
    rw [segments_of_none hcut]
    exact .last (cutAt_eq_none_iff_not_occursAt.mp hcut)
  | case2 text pre rest hcut ih =>
    rw [segments_of_some hcut]
    obtain rfl := eq_of_cutAt hcut
    exact .cut (cutAt_first hcut).2 ih

omit [DecidableEq α] in
theorem Leftmost.eq_intercalate {parts : List (List α)} (h : Leftmost pat text parts) :
    parts ≠ [] ∧ text = pat.intercalate parts := by
  induction h with
  | last => exact ⟨cons_ne_nil _ _, by simp [intercalate]⟩
  | @cut pre rest parts _ _ ih =>
    obtain ⟨hne, heq⟩ := ih
    refine ⟨cons_ne_nil _ _, ?_⟩
    obtain ⟨first, others, rfl⟩ := exists_cons_of_ne_nil hne
    rw [heq]
    simp [intercalate]

omit [DecidableEq α] in
theorem weight_intercalate {weight : List α → ℕ} (hnil : weight [] = 0)
    (happend : ∀ a b, weight (a ++ b) = weight a + weight b) (sep : List α)
    (parts : List (List α)) : weight (sep.intercalate parts) =
      (parts.map weight).sum + (parts.length - 1) * weight sep := by
  induction parts with
  | nil => simp [intercalate, hnil]
  | cons first rest ih =>
    cases rest with
    | nil => simp [intercalate]
    | cons second others =>
      have hcons : sep.intercalate (first :: second :: others) =
          first ++ (sep ++ sep.intercalate (second :: others)) := by
        simp [intercalate]
      rw [hcons, happend, happend, ih]
      simp only [map_cons, sum_cons, length_cons, Nat.add_sub_cancel]
      ring

end Buzz
