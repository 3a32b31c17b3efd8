import Mathlib.Data.List.Basic

/-!
# Dealing round robin

Entries are dealt to slots in turn. What a slot gets are the entries at every `n`-th place.
-/

namespace Buzz

variable {σ ε : Type*} {put : σ → ε → σ} {count i j : ℕ} {slots : List σ} {entries : List ε} {e : ε}

/-- Put entries into slots in turn, from the position `i` on. -/
def deal (put : σ → ε → σ) (count : ℕ) : ℕ → List σ → List ε → List σ
  | _, slots, [] => slots
  | i, slots, e :: rest => deal put count (i + 1) (slots.modify (i % count) fun s => put s e) rest

/-- The entries whose turn it is at the slot `j`. -/
def share (count j : ℕ) : ℕ → List ε → List ε
  | _, [] => []
  | i, e :: rest =>
    if i % count = j then e :: share count j (i + 1) rest else share count j (i + 1) rest

@[simp] theorem length_deal : (deal put count i slots entries).length = slots.length := by
  induction entries generalizing i slots with
  | nil => rfl
  | cons e rest ih => rw [deal, ih, List.length_modify]

/-- **A slot is what it was, with its share.** -/
theorem getElem?_deal : (deal put count i slots entries)[j]? =
    slots[j]?.map fun s => (share count j i entries).foldl put s := by
  induction entries generalizing i slots with
  | nil => simp [deal, share]
  | cons e rest ih =>
    rw [deal, ih, share, List.getElem?_modify]
    by_cases hturn : i % count = j
    · simp [hturn, Function.comp_def]
    · simp [hturn]

/-- **The places of the entries of a share.** -/
theorem mem_share_iff :
    e ∈ share count j i entries ↔ ∃ m, entries[m]? = some e ∧ (i + m) % count = j := by
  induction entries generalizing i with
  | nil => simp [share]
  | cons a rest ih =>
    have hrest : e ∈ share count j (i + 1) rest ↔
        ∃ m, (a :: rest)[m + 1]? = some e ∧ (i + (m + 1)) % count = j := by
      rw [ih]
      refine exists_congr fun m => ?_
      rw [List.getElem?_cons_succ, Nat.add_assoc, Nat.add_comm 1 m]
    have hcons : (∃ m, (a :: rest)[m]? = some e ∧ (i + m) % count = j) ↔
        (e = a ∧ i % count = j) ∨ e ∈ share count j (i + 1) rest := by
      rw [hrest]
      constructor
      · rintro ⟨m, hm, hj⟩
        cases m with
        | zero =>
          cases hm
          exact .inl ⟨rfl, hj⟩
        | succ m => exact .inr ⟨m, hm, hj⟩
      · rintro (⟨rfl, hj⟩ | ⟨m, hm, hj⟩)
        · exact ⟨0, rfl, hj⟩
        · exact ⟨m + 1, hm, hj⟩
    rw [hcons, share]
    split
    · next hturn => simp [hturn]
    · next hturn => simp [hturn]

theorem mem_of_mem_share (h : e ∈ share count j i entries) : e ∈ entries := by
  obtain ⟨m, hm, -⟩ := mem_share_iff.mp h
  exact List.mem_of_getElem? hm

theorem share_sublist : (share count j i entries).Sublist entries := by
  induction entries generalizing i with
  | nil => exact .slnil
  | cons e rest ih =>
    rw [share]
    split
    · exact ih.cons_cons e
    · exact ih.cons e

end Buzz
