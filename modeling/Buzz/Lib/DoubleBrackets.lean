import Mathlib.Algebra.Ring.Parity
import Mathlib.Data.List.Infix

/-!
# Contents of double brackets

A text is read once from the left, and opening brackets are read in pairs. What stands between an
opening pair and the next closing pair is reported with its position, unless another opening pair
comes before: then the text is read on from there.

Where brackets are repeated it matters where the pairs begin. The pairs of a run of opening brackets
begin at its first bracket, so a content is found exactly when an even number of opening brackets
stands right before its pair.
-/

namespace Buzz

open List

variable {α : Type*} [DecidableEq α] {o c : α}

/-! ### Runs of opening brackets -/

/-- How many opening brackets end a text. -/
def openings (o : α) (pre : List α) : Nat := (pre.reverse.takeWhile (· = o)).length

@[simp] theorem openings_concat_self (pre : List α) :
    openings o (pre ++ [o]) = openings o pre + 1 := by
  simp [openings]

theorem openings_concat_of_ne {a : α} (h : a ≠ o) (pre : List α) :
    openings o (pre ++ [a]) = 0 := by
  simp [openings, h]

/-! ### The closing pair -/

/-- What stands before the first closing pair and what follows it, unless an opening pair comes
before. -/
def closingPair (o c : α) : List α → Option (List α × List α)
  | a :: b :: l =>
    if a = o ∧ b = o then none
    else if a = c ∧ b = c then some ([], l)
    else (closingPair o c (b :: l)).map fun p => (a :: p.1, p.2)
  | _ => none

theorem closingPair_eq_some {l s r : List α} (h : closingPair o c l = some (s, r)) :
    l = s ++ c :: c :: r := by
  induction l generalizing s with
  | nil => cases h
  | cons a l ih =>
    cases l with
    | nil => cases h
    | cons b l =>
      rw [closingPair] at h
      split_ifs at h with hopen hclose
      · obtain ⟨rfl, rfl⟩ := hclose
        cases h
        rfl
      · obtain ⟨⟨s', r'⟩, hrest, heq⟩ := Option.map_eq_some_iff.mp h
        cases heq
        simp [ih hrest]

theorem length_of_closingPair {l s r : List α} (h : closingPair o c l = some (s, r)) :
    r.length < l.length := by
  rw [closingPair_eq_some h]
  simp only [length_append, length_cons]
  omega

theorem closingPair_of_notMem {s : List α} (hne : o ≠ c) (ho : o ∉ s) (hc : c ∉ s) (r : List α) :
    closingPair o c (s ++ c :: c :: r) = some (s, r) := by
  induction s with
  | nil =>
    have hco : ¬ (c = o ∧ c = o) := fun h => hne h.1.symm
    rw [nil_append, closingPair, if_neg hco, if_pos ⟨rfl, rfl⟩]
  | cons a s ih =>
    obtain ⟨hao, hos⟩ := not_or.mp (mt mem_cons.mpr ho)
    obtain ⟨hac, hcs⟩ := not_or.mp (mt mem_cons.mpr hc)
    obtain ⟨b, l, hl⟩ : ∃ b l, s ++ c :: c :: r = b :: l := by
      cases s with
      | nil => exact ⟨c, c :: r, rfl⟩
      | cons b s => exact ⟨b, s ++ c :: c :: r, rfl⟩
    have hrest := ih hos hcs
    rw [hl] at hrest
    have hopen : ¬ (a = o ∧ b = o) := fun h => hao h.1.symm
    have hclose : ¬ (a = c ∧ b = c) := fun h => hac h.1.symm
    simp [hl, closingPair, hopen, hclose, hrest]

theorem le_length_of_closingPair {l s r p t : List α} (hne : o ≠ c)
    (h : closingPair o c l = some (s, r)) (hl : l = p ++ o :: o :: t) :
    s.length + 2 ≤ p.length := by
  induction l generalizing s p with
  | nil => cases h
  | cons a l ih =>
    cases l with
    | nil => cases h
    | cons b l =>
      rw [closingPair] at h
      split_ifs at h with hopen hclose
      · obtain ⟨rfl, rfl⟩ := hclose
        cases h
        cases p with
        | nil => exact absurd (cons.inj hl).1.symm hne
        | cons x p =>
          cases p with
          | nil => exact absurd (cons.inj (cons.inj hl).2).1.symm hne
          | cons y p => simp
      · obtain ⟨⟨s', r'⟩, hrest, heq⟩ := Option.map_eq_some_iff.mp h
        cases heq
        cases p with
        | nil =>
          obtain ⟨hao, hl⟩ := cons.inj hl
          exact absurd ⟨hao, (cons.inj hl).1⟩ hopen
        | cons x p =>
          have hle := ih hrest (cons.inj hl).2
          simp only [length_cons]
          omega

theorem exists_append_of_closingPair {s r p t : List α} (hne : o ≠ c)
    (h : closingPair o c (p ++ o :: o :: t) = some (s, r)) :
    ∃ p', p = s ++ c :: c :: p' ∧ r = p' ++ o :: o :: t := by
  have hle := le_length_of_closingPair hne h rfl
  have hsplit : p ++ o :: o :: t = s ++ [c, c] ++ r := by
    rw [closingPair_eq_some h]
    simp
  obtain ⟨p', rfl⟩ : s ++ [c, c] <+: p := by
    refine prefix_of_prefix_length_le ⟨r, hsplit.symm⟩ ⟨o :: o :: t, rfl⟩ ?_
    simpa using hle
  refine ⟨p', by simp, ?_⟩
  rw [append_assoc] at hsplit
  exact (append_cancel_left hsplit).symm

/-! ### The scan -/

/-- The contents of double brackets, with their positions; the text starts at position `i`. -/
def links (o c : α) (i : Nat) (l : List α) : List (Nat × List α) :=
  match l with
  | a :: b :: r =>
    if a = o ∧ b = o then
      match _h : closingPair o c r with
      | some (s, rest) => (i, s) :: links o c (i + s.length + 4) rest
      | none => links o c (i + 2) r
    else links o c (i + 1) (b :: r)
  | _ => []
termination_by l.length
decreasing_by
  · have := length_of_closingPair _h
    simp only [length_cons]
    omega
  · simp only [length_cons]
    omega
  · simp

theorem links_pair_none {i : Nat} {r : List α} (h : closingPair o c r = none) :
    links o c i (o :: o :: r) = links o c (i + 2) r := by
  rw [links, if_pos ⟨rfl, rfl⟩]
  split
  · next hsome => rw [h] at hsome; cases hsome
  · rfl

theorem links_pair_some {i : Nat} {r s rest : List α} (h : closingPair o c r = some (s, rest)) :
    links o c i (o :: o :: r) = (i, s) :: links o c (i + s.length + 4) rest := by
  rw [links, if_pos ⟨rfl, rfl⟩]
  split
  · next hsome =>
    rw [h] at hsome
    cases hsome
    rfl
  · next hnone => rw [h] at hnone; cases hnone

theorem links_step {i : Nat} {a b : α} {r : List α} (h : ¬ (a = o ∧ b = o)) :
    links o c i (a :: b :: r) = links o c (i + 1) (b :: r) := by
  rw [links, if_neg h]

theorem links_eq_nil {i : Nat} {l : List α} (h : l.length ≤ 3) : links o c i l = [] := by
  fun_induction links o c i l with
  | case1 i a b r hopen s' rest hclose ih =>
    have hlen := congrArg length (closingPair_eq_some hclose)
    simp only [length_cons, length_append] at h hlen
    omega
  | case2 i a b r hopen hclose ih =>
    refine ih ?_
    simp only [length_cons] at h
    omega
  | case3 i a b r hopen ih => exact ih ((Nat.le_succ _).trans h)
  | case4 => rfl

/-- Where a pair may begin: after an even number of opening brackets, or where there is none. -/
def Aligned (o : α) (pre l : List α) : Prop := Even (openings o pre) ∨ l.head? ≠ some o

theorem Aligned.even {pre l : List α} (h : Aligned o pre (o :: l)) : Even (openings o pre) :=
  h.resolve_right fun hne => hne rfl

theorem aligned_step {pre r : List α} {a b : α}
    (hopen : ¬ (a = o ∧ b = o)) : Aligned o (pre ++ [a]) (b :: r) := by
  by_cases ha : a = o
  · refine Or.inr ?_
    intro hb
    exact hopen ⟨ha, Option.some.inj hb⟩
  · refine Or.inl ?_
    rw [openings_concat_of_ne ha]
    exact Even.zero

theorem Aligned.pair {pre r : List α} (h : Aligned o pre (o :: o :: r)) (r' : List α) :
    Aligned o (pre ++ [o, o]) r' := by
  have heven := h.even
  refine Or.inl ?_
  rw [show pre ++ [o, o] = pre ++ [o] ++ [o] by simp, openings_concat_self, openings_concat_self]
  exact heven.add even_two

theorem aligned_closed (hne : o ≠ c) (pre r : List α) : Aligned o (pre ++ [c]) r := by
  refine Or.inl ?_
  rw [openings_concat_of_ne (Ne.symm hne)]
  exact Even.zero

theorem of_mem_links (hne : o ≠ c) {pre l s : List α} {i j : Nat} (hi : i = pre.length)
    (hal : Aligned o pre l) (h : (j, s) ∈ links o c i l) : ∃ p q,
      l = p ++ o :: o :: (s ++ c :: c :: q) ∧ j = (pre ++ p).length ∧
        Even (openings o (pre ++ p)) := by
  fun_induction links o c i l generalizing pre with
  | case1 i a b r hopen s' rest hclose ih =>
    obtain ⟨rfl, hb⟩ := hopen
    subst hb
    obtain rfl := closingPair_eq_some hclose
    rcases mem_cons.mp h with heq | hrest
    · obtain ⟨rfl, rfl⟩ := Prod.mk.inj heq
      exact ⟨[], rest, rfl, by simpa using hi, by simpa using hal.even⟩
    · obtain ⟨p, q, rfl, hj, heven⟩ := @ih (pre ++ b :: b :: (s' ++ [c]) ++ [c])
        (by simp; omega) (aligned_closed hne _ rest) hrest
      exact ⟨b :: b :: (s' ++ c :: c :: p), q, by simp, by simpa using hj, by simpa using heven⟩
  | case2 i a b r hopen hclose ih =>
    obtain ⟨rfl, hb⟩ := hopen
    subst hb
    obtain ⟨p, q, rfl, hj, heven⟩ := ih (by simp; omega) (hal.pair r) h
    exact ⟨b :: b :: p, q, rfl, by simpa using hj, by simpa using heven⟩
  | case3 i a b r hopen ih =>
    obtain ⟨p, q, hl, hj, heven⟩ := @ih (pre ++ [a]) (by simp; omega) (aligned_step hopen) h
    exact ⟨a :: p, q, by rw [hl]; rfl, by simpa using hj, by simpa using heven⟩
  | case4 => nomatch h

theorem mem_links (hne : o ≠ c) {pre p s q : List α} (ho : o ∉ s) (hc : c ∉ s)
    (hal : Aligned o pre (p ++ o :: o :: (s ++ c :: c :: q)))
    (heven : Even (openings o (pre ++ p))) :
    ((pre ++ p).length, s) ∈ links o c pre.length (p ++ o :: o :: (s ++ c :: c :: q)) := by
  induction hn : p.length using Nat.strong_induction_on generalizing pre p with
  | _ n ih =>
  subst hn
  cases p with
  | nil =>
    simp [links_pair_some (closingPair_of_notMem hne ho hc q)]
  | cons a p =>
    obtain ⟨b, r, hr⟩ : ∃ b r, p ++ o :: o :: (s ++ c :: c :: q) = b :: r := by
      cases p with
      | nil => exact ⟨o, o :: (s ++ c :: c :: q), rfl⟩
      | cons b p => exact ⟨b, p ++ o :: o :: (s ++ c :: c :: q), rfl⟩
    by_cases hopen : a = o ∧ b = o
    · obtain ⟨rfl, hb⟩ := hopen
      subst hb
      cases p with
      | nil =>
        -- the pair would begin one bracket late: the run before it is odd
        rw [cons_append, nil_append] at hal
        rw [openings_concat_self] at heven
        exact absurd hal.even (Nat.even_add_one.mp heven)
      | cons b' p =>
        obtain ⟨rfl, hr⟩ := cons.inj hr
        rw [cons_append, cons_append] at hal ⊢
        cases hclose : closingPair b' c (p ++ b' :: b' :: (s ++ c :: c :: q)) with
        | none =>
          rw [links_pair_none hclose, show pre.length + 2 = (pre ++ [b', b']).length by simp]
          have hrest := ih p.length (by simp only [length_cons]; omega) (hal.pair _)
            (by simpa using heven) rfl
          simpa using hrest
        | some found =>
          obtain ⟨s', rest⟩ := found
          obtain ⟨p', rfl, rfl⟩ := exists_append_of_closingPair hne hclose
          rw [links_pair_some hclose]
          have hpos : pre.length + s'.length + 4 =
              (pre ++ b' :: b' :: (s' ++ [c]) ++ [c]).length := by simp; omega
          have hmem := ih p'.length (by simp; omega)
            (aligned_closed hne (pre ++ b' :: b' :: (s' ++ [c])) _) (by simpa using heven) rfl
          rw [hpos]
          refine mem_cons_of_mem _ ?_
          simpa using hmem
    · rw [cons_append, hr, links_step hopen, ← hr,
        show pre.length + 1 = (pre ++ [a]).length by simp]
      rw [cons_append, hr] at hal
      have hstep : Aligned o (pre ++ [a]) (b :: r) := aligned_step hopen
      rw [← hr] at hstep
      have hrest := ih p.length (by simp) hstep (by simpa using heven) rfl
      simpa using hrest

/-- The contents without brackets that are found are those after an even number of opening
brackets. -/
theorem mem_links_iff (hne : o ≠ c) {l s : List α} (ho : o ∉ s) (hc : c ∉ s) {j : Nat} :
    (j, s) ∈ links o c 0 l ↔
      ∃ p q, l = p ++ o :: o :: (s ++ c :: c :: q) ∧ j = p.length ∧ Even (openings o p) := by
  have hal : ∀ l, Aligned o [] l := fun l => Or.inl Even.zero
  constructor
  · intro h
    obtain ⟨p, q, hl, hj, heven⟩ := of_mem_links hne (length_nil (α := α)).symm (hal l) h
    exact ⟨p, q, hl, hj, heven⟩
  · rintro ⟨p, q, rfl, rfl, heven⟩
    exact @mem_links _ _ o c hne [] p s q ho hc (hal _) heven

theorem le_of_mem_links {i j : Nat} {l s : List α} (h : (j, s) ∈ links o c i l) : i ≤ j := by
  fun_induction links o c i l with
  | case1 i a b r hopen s' rest hclose ih =>
    rcases mem_cons.mp h with heq | hrest
    · exact (Prod.mk.inj heq).1.ge
    · have hle := ih hrest
      omega
  | case2 i a b r hopen hclose ih => exact (Nat.le_add_right i 2).trans (ih h)
  | case3 i a b r hopen ih => exact (Nat.le_succ i).trans (ih h)
  | case4 => nomatch h

/-- The contents are found in order of their positions. -/
theorem links_pairwise (i : Nat) (l : List α) :
    (links o c i l).Pairwise fun x y => x.1 < y.1 := by
  fun_induction links o c i l with
  | case1 i a b r hopen s' rest hclose ih =>
    refine List.Pairwise.cons ?_ ih
    intro x hx
    have hle := le_of_mem_links hx
    show i < x.1
    omega
  | case2 i a b r hopen hclose ih => exact ih
  | case3 i a b r hopen ih => exact ih
  | case4 => exact List.Pairwise.nil

end Buzz
