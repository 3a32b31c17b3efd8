import Mathlib.Data.List.Basic

/-!
# Announcements and their replies

A sequence in which an item may announce replies, and the replies stand directly after it, in order,
and nowhere else. The items between two announcements are those that announce nothing and reply to
nothing.
-/

namespace Buzz

open List

variable {α κ : Type*}

/-- Every item is followed by exactly the replies that it announces. -/
inductive Replied (announces : α → List κ) (replies : α → Option κ) : List α → Prop where
  | nil : Replied announces replies []
  | cons {a : α} {block rest : List α} (hitem : replies a = none)
      (hblock : block.map replies = (announces a).map some) (hrest : Replied announces replies rest) :
      Replied announces replies (a :: (block ++ rest))

variable {announces : α → List κ} {replies : α → Option κ}

variable {a : α}

theorem Replied.single (hitem : replies a = none) (hnone : announces a = []) :
    Replied announces replies [a] :=
  have hblock : ([] : List α).map replies = (announces a).map some := by rw [hnone]; rfl
  show Replied announces replies (a :: ([] ++ [])) from .cons hitem hblock .nil

theorem Replied.block {block : List α} (hitem : replies a = none)
    (hblock : block.map replies = (announces a).map some) :
    Replied announces replies (a :: block) := by
  have h := Replied.cons hitem hblock Replied.nil
  rwa [append_nil] at h

variable {l₁ l₂ : List α}

theorem Replied.append (h₁ : Replied announces replies l₁) (h₂ : Replied announces replies l₂) :
    Replied announces replies (l₁ ++ l₂) := by
  induction h₁ with
  | nil => exact h₂
  | @cons a block rest hitem hblock _ ih =>
    rw [cons_append, append_assoc]
    exact .cons hitem hblock ih

theorem ne_none_of_mem_block {b : α} {block : List α}
    (hblock : block.map replies = (announces a).map some) (hb : b ∈ block) : replies b ≠ none := by
  intro hnone
  have hmem := mem_map_of_mem (f := replies) hb
  rw [hblock, hnone] at hmem
  simp at hmem

/-- **A cut.** What begins with an item that is no reply can be cut off. -/
theorem Replied.of_append_cons (h : Replied announces replies (l₁ ++ a :: l₂))
    (ha : replies a = none) : Replied announces replies (a :: l₂) := by
  generalize hl : l₁ ++ a :: l₂ = l at h
  induction h generalizing l₁ with
  | nil => simp at hl
  | @cons b block rest hitem hblock hrest ih =>
    cases l₁ with
    | nil =>
      rw [nil_append] at hl
      rw [hl]
      exact .cons hitem hblock hrest
    | cons c l₁ =>
      obtain ⟨rfl, htail⟩ := cons.inj hl
      -- the block lies before the cut, since it holds replies only
      rcases append_eq_append_iff.mp htail with ⟨mid, hblock', hcut⟩ | ⟨mid, hl₁, hrest'⟩
      · cases mid with
        | nil => exact ih (show [] ++ a :: l₂ = _ from hcut)
        | cons d mid =>
          obtain ⟨rfl, -⟩ := cons.inj hcut
          exact absurd ha (ne_none_of_mem_block hblock (by rw [hblock']; simp))
      · exact ih hrest'.symm

/-- What stands directly after an announcement: exactly its replies. -/
theorem Replied.after (h : Replied announces replies (l₁ ++ a :: l₂)) (ha : replies a = none) :
    ∃ block rest, l₂ = block ++ rest ∧ block.map replies = (announces a).map some ∧
      ∀ b ∈ rest.head?, replies b = none := by
  have hcut := h.of_append_cons ha
  cases hcut with
  | @cons _ block rest _ hblock hrest =>
    refine ⟨block, rest, rfl, hblock, ?_⟩
    intro b hb
    cases hrest with
    | nil => nomatch hb
    | cons hitem _ _ =>
      cases hb
      exact hitem

theorem Replied.before {l : List α} (h : Replied announces replies l) {b : α}
    (hl : l = l₁ ++ b :: l₂) (hb : replies b ≠ none) :
    ∃ l₀ a block block', l₁ = l₀ ++ a :: block ∧ replies a = none ∧
      (block ++ b :: block').map replies = (announces a).map some := by
  induction h generalizing l₁ with
  | nil => simp at hl
  | @cons a block rest hitem hblock hrest ih =>
    cases l₁ with
    | nil =>
      obtain ⟨rfl, -⟩ := cons.inj hl
      exact absurd hitem hb
    | cons c l₁ =>
      obtain ⟨rfl, htail⟩ := cons.inj hl
      rcases append_eq_append_iff.mp htail with ⟨mid, hl₁, hcut⟩ | ⟨mid, hblock', hrest'⟩
      · obtain ⟨l₀, a', block₀, block₁, rfl, ha', hmap⟩ := ih hcut
        refine ⟨a :: (block ++ l₀), a', block₀, block₁, ?_, ha', hmap⟩
        simp [hl₁]
      · cases mid with
        | nil =>
          have hcut : rest = [] ++ b :: l₂ := hrest'.symm
          obtain ⟨l₀, a', block₀, block₁, hl₀, ha', hmap⟩ := ih hcut
          exact absurd hl₀ (by simp)
        | cons d mid =>
          obtain ⟨rfl, rfl⟩ := cons.inj hrest'
          exact ⟨[], a, l₁, mid, rfl, hitem, by rw [← hblock', hblock]⟩

end Buzz
