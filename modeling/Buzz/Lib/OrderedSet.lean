import Mathlib.Data.List.Induction
import Mathlib.Data.List.Nodup

/-!
# Sets in order of first insertion

The idiom of a hash set beside a vector, where an element is pushed to the vector when the set did
not hold it: the vector then lists the set without repetitions, in order of first insertion. The
pair is one list whose elements are distinct, and the proof of that is a field.

The same with keys: candidates are looked at one after the other, and one is sent when it is accepted
and nothing with its key has been sent. A candidate that is not accepted leaves its key open for a
later one.

A list is also built by adding what it does not have yet. It then has each element once, in the
order in which they were first seen.
-/

/-! ## A set and its order -/

namespace Buzz

/-- Distinct elements in order of first insertion. -/
structure OrderedSet (α : Type*) where
  items : List α
  nodup : items.Nodup

namespace OrderedSet

variable {α : Type*}

instance : EmptyCollection (OrderedSet α) := ⟨⟨[], List.nodup_nil⟩⟩

instance : Membership α (OrderedSet α) := ⟨fun s a => a ∈ s.items⟩

variable {s : OrderedSet α}

@[simp] theorem mem_items {a : α} : a ∈ s.items ↔ a ∈ s := Iff.rfl

@[simp] theorem notMem_empty (a : α) : a ∉ (∅ : OrderedSet α) := List.not_mem_nil

variable [DecidableEq α]

/-- Add an element at the end, unless it is there already. -/
def insert (s : OrderedSet α) (a : α) : OrderedSet α :=
  if h : a ∈ s.items then s
  else ⟨s.items ++ [a], List.nodup_append.mpr ⟨s.nodup, List.nodup_singleton a,
    fun b hb c hc => by rintro rfl; exact h (List.mem_singleton.mp hc ▸ hb)⟩⟩

@[simp] theorem mem_insert {a b : α} : b ∈ s.insert a ↔ b ∈ s ∨ b = a := by
  rw [insert]
  split
  · next h =>
    constructor
    · exact Or.inl
    · rintro (hb | rfl)
      · exact hb
      · exact h
  · show b ∈ s.items ++ [a] ↔ b ∈ s.items ∨ b = a
    simp

/-- Add several elements, one after another. -/
def insertAll (s : OrderedSet α) (l : List α) : OrderedSet α := l.foldl insert s

@[simp] theorem mem_insertAll {l : List α} {b : α} : b ∈ s.insertAll l ↔ b ∈ s ∨ b ∈ l := by
  induction l generalizing s with
  | nil => simp [insertAll]
  | cons a l ih =>
    show b ∈ (s.insert a).insertAll l ↔ b ∈ s ∨ b ∈ a :: l
    rw [ih, mem_insert, List.mem_cons, or_assoc]

theorem insertAll_concat {l : List α} {a : α} : s.insertAll (l ++ [a]) = (s.insertAll l).insert a :=
  List.foldl_concat insert s a l

/-- An element stands before another when it was inserted first. -/
theorem insertAll_pairwise (l : List α) :
    ((∅ : OrderedSet α).insertAll l).items.Pairwise fun a b =>
      ∀ pre post, l = pre ++ b :: post → a ∈ pre := by
  induction l using List.reverseRecOn with
  | nil => exact List.Pairwise.nil
  | append_singleton l x ih =>
    have hlast : ∀ {a b : α}, (∀ pre post, l = pre ++ b :: post → a ∈ pre) → a ∈ l →
        ∀ pre post, l ++ [x] = pre ++ b :: post → a ∈ pre := by
      intro a b hall ha pre post heq
      rcases List.eq_nil_or_concat post with rfl | ⟨post, y, rfl⟩
      · rwa [← (List.append_inj' heq rfl).1]
      · have hassoc : l ++ [x] = (pre ++ b :: post) ++ [y] := by simpa using heq
        exact hall pre post (List.append_inj' hassoc rfl).1
    have hmem : ∀ a ∈ ((∅ : OrderedSet α).insertAll l).items, a ∈ l := fun a ha =>
      (mem_insertAll.mp ha).resolve_left (notMem_empty a)
    have hold := ih.imp_of_mem fun {a b} ha _ hall => hlast hall (hmem a ha)
    rw [insertAll_concat, insert]
    split
    · exact hold
    · next hnew =>
      refine List.pairwise_append.mpr ⟨hold, List.pairwise_singleton _ x, ?_⟩
      intro a ha b hb
      obtain rfl := List.mem_singleton.mp hb
      refine hlast ?_ (hmem a ha)
      rintro pre post rfl
      exact absurd (mem_insertAll.mpr (Or.inr (by simp))) hnew

end OrderedSet

end Buzz

/-! ## Each key once -/

namespace Buzz

variable {α κ : Type*} [DecidableEq κ] (accept : α → Bool) (key : α → κ)

/-- What is sent, when `seen` has been sent before. -/
def sendOnce : List κ → List α → List α
  | _, [] => []
  | seen, a :: as =>
    if accept a = true ∧ key a ∉ seen then a :: sendOnce (key a :: seen) as else sendOnce seen as

variable {accept key} {seen : List κ} {as : List α} {k : κ}

/-- **The keys that are sent** are those of the accepted candidates that were not sent before. -/
theorem mem_keys_sendOnce : k ∈ (sendOnce accept key seen as).map key ↔
    k ∉ seen ∧ ∃ a ∈ as, accept a = true ∧ key a = k := by
  induction as generalizing seen with
  | nil => simp [sendOnce]
  | cons a as ih =>
    have hcons : (∃ b ∈ a :: as, accept b = true ∧ key b = k) ↔
        (accept a = true ∧ key a = k) ∨ ∃ b ∈ as, accept b = true ∧ key b = k := by
      simp [or_and_right, exists_or]
    rw [sendOnce, hcons]
    split
    · next h =>
      rw [List.map_cons, List.mem_cons, ih, List.mem_cons]
      by_cases hk : key a = k
      · subst hk
        exact iff_of_true (.inl rfl) ⟨h.2, .inl ⟨h.1, rfl⟩⟩
      · have hne : ¬k = key a := fun heq => hk heq.symm
        simp only [hk, hne, false_or, and_false]
    · next h =>
      rw [ih]
      refine and_congr_right fun hseen => ?_
      have hnot : ¬(accept a = true ∧ key a = k) := by
        rintro ⟨haccept, rfl⟩
        exact h ⟨haccept, hseen⟩
      simp only [hnot, false_or]

/-! ### Adding what is new -/

section

variable {α : Type*} [DecidableEq α]

/-- An element is added at the end, unless the list has it. -/
def pushNew (acc : List α) (a : α) : List α := if a ∈ acc then acc else acc ++ [a]

theorem mem_pushNew {acc : List α} {a b : α} : b ∈ pushNew acc a ↔ b ∈ acc ∨ b = a := by
  rw [pushNew]
  split
  · next h => exact ⟨.inl, fun hor => hor.elim id fun heq => heq ▸ h⟩
  · simp

theorem mem_foldl_pushNew {l acc : List α} {b : α} :
    b ∈ l.foldl pushNew acc ↔ b ∈ acc ∨ b ∈ l := by
  induction l generalizing acc with
  | nil => simp
  | cons a l ih => rw [List.foldl_cons, ih, mem_pushNew, List.mem_cons, or_assoc]

/-- The elements of a list, each once, in the order of their first occurrences. -/
structure FirstSeen (l r : List α) : Prop where
  nodup : r.Nodup
  mem_iff (a : α) : a ∈ r ↔ a ∈ l
  order : r.Pairwise fun a b => l.idxOf a < l.idxOf b

theorem FirstSeen.snoc {l r : List α} (h : FirstSeen l r) (a : α) :
    FirstSeen (l ++ [a]) (pushNew r a) := by
  have hidx : ∀ b ∈ r, (l ++ [a]).idxOf b = l.idxOf b :=
    fun b hb => List.idxOf_append_of_mem ((h.mem_iff b).mp hb)
  have horder : r.Pairwise fun b c => (l ++ [a]).idxOf b < (l ++ [a]).idxOf c := by
    refine h.order.imp_of_mem fun {b c} hb hc hlt => ?_
    rwa [hidx b hb, hidx c hc]
  rw [pushNew]
  split
  · next ha =>
    refine ⟨h.nodup, fun b => ?_, horder⟩
    rw [List.mem_append, List.mem_singleton, h.mem_iff]
    exact ⟨.inl, fun hb => hb.elim id fun heq => heq ▸ (h.mem_iff a).mp ha⟩
  · next ha =>
    have hl : a ∉ l := fun hmem => ha ((h.mem_iff a).mpr hmem)
    refine ⟨?_, fun b => ?_, ?_⟩
    · refine List.nodup_append.mpr ⟨h.nodup, List.nodup_singleton a, fun b hb c hc heq => ?_⟩
      rw [List.mem_singleton] at hc
      exact ha (hc ▸ heq ▸ hb)
    · simp [h.mem_iff]
    · refine List.pairwise_append.mpr ⟨horder, List.pairwise_singleton .., ?_⟩
      intro b hb c hc
      rw [List.mem_singleton] at hc
      subst hc
      rw [hidx b hb, List.idxOf_append_of_notMem hl]
      exact Nat.lt_add_right _ (List.idxOf_lt_length_of_mem ((h.mem_iff b).mp hb))

/-- **What is built by adding** is what was seen, each once and in order. -/
theorem firstSeen_foldl_pushNew (l : List α) : FirstSeen l (l.foldl pushNew []) := by
  induction l using List.reverseRecOn with
  | nil => exact ⟨List.nodup_nil, fun a => Iff.rfl, .nil⟩
  | append_singleton l a ih =>
    rw [List.foldl_append]
    exact ih.snoc a

end

end Buzz
