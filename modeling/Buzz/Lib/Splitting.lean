import Mathlib.Data.List.Infix
import Mathlib.Data.String.Basic

/-!
# Splitting at a separator

A list that is cut at the first occurrence of a separator, and lists joined by one. The parts of a
cut are determined by where the separator does not occur: before the cut, or after it.

A text is cut at every line feed, and is what its lines are joined to; joined texts have the lines
of all of them.
-/

namespace Buzz

open List

variable {α : Type*}

/-! ### Joining -/

/-- What is in a joined list is the separator, or in one of the lists. -/
theorem mem_intercalate {sep x : α} {ls : List (List α)} (h : x ∈ [sep].intercalate ls) :
    x = sep ∨ ∃ l ∈ ls, x ∈ l := by
  induction ls with
  | nil => nomatch h
  | cons l ls ih =>
    cases ls with
    | nil =>
      rw [intercalate_singleton] at h
      exact Or.inr ⟨l, mem_cons_self, h⟩
    | cons l' ls =>
      rw [intercalate_cons_cons, append_assoc] at h
      rcases mem_append.mp h with hl | hrest
      · exact Or.inr ⟨l, mem_cons_self, hl⟩
      · rcases mem_append.mp hrest with hsep | hrest
        · exact Or.inl (mem_singleton.mp hsep)
        · exact (ih hrest).imp_right fun ⟨m, hm, hx⟩ => ⟨m, mem_cons_of_mem l hm, hx⟩

theorem intercalate_cons_eq_flatMap (sep : α) (l : List α) (ls : List (List α)) :
    [sep].intercalate (l :: ls) = l ++ ls.flatMap fun m => sep :: m := by
  induction ls generalizing l with
  | nil => simp
  | cons m ls ih =>
    rw [intercalate_cons_cons, ih, flatMap_cons]
    simp

/-! ### One cut -/

section

variable [DecidableEq α]

/-- Cut a list at the first occurrence of a separator. -/
def splitOnce (sep : α) : List α → Option (List α × List α)
  | [] => none
  | a :: l => if a = sep then some ([], l) else (splitOnce sep l).map fun p => (a :: p.1, p.2)

theorem splitOnce_eq_none_iff {sep : α} {l : List α} : splitOnce sep l = none ↔ sep ∉ l := by
  induction l with
  | nil => simp [splitOnce]
  | cons a l ih =>
    rw [splitOnce]
    split
    · next h => simp [h]
    · next h => simp [ih, Ne.symm h]

theorem splitOnce_eq_some_iff {sep : α} {l pre post : List α} :
    splitOnce sep l = some (pre, post) ↔ sep ∉ pre ∧ l = pre ++ sep :: post := by
  induction l generalizing pre with
  | nil => simp [splitOnce]
  | cons a l ih =>
    rw [splitOnce]
    split
    · next h =>
      subst h
      constructor
      · intro hsome
        cases hsome
        exact ⟨not_mem_nil, rfl⟩
      · rintro ⟨hpre, hl⟩
        cases pre with
        | nil =>
          obtain ⟨-, rfl⟩ := cons.inj hl
          rfl
        | cons b pre =>
          obtain ⟨rfl, -⟩ := cons.inj hl
          exact absurd mem_cons_self hpre
    · next h =>
      constructor
      · intro hsome
        obtain ⟨⟨pre', post'⟩, hrest, heq⟩ := Option.map_eq_some_iff.mp hsome
        cases heq
        obtain ⟨hpre, rfl⟩ := ih.mp hrest
        refine ⟨?_, rfl⟩
        intro hmem
        rcases mem_cons.mp hmem with hsep | hmem
        · exact h hsep.symm
        · exact hpre hmem
      · rintro ⟨hpre, hl⟩
        cases pre with
        | nil =>
          obtain ⟨rfl, -⟩ := cons.inj hl
          exact absurd rfl h
        | cons b pre =>
          obtain ⟨rfl, hrest⟩ := cons.inj hl
          have hrest := ih.mpr ⟨fun hmem => hpre (mem_cons_of_mem a hmem), hrest⟩
          rw [hrest]
          rfl

theorem splitOnce_append {sep : α} {pre : List α} (h : sep ∉ pre) (post : List α) :
    splitOnce sep (pre ++ sep :: post) = some (pre, post) :=
  splitOnce_eq_some_iff.mpr ⟨h, rfl⟩

end

/-- A cut before which the separator does not occur is unique. -/
theorem append_cons_inj_left {sep : α} {pre pre' post post' : List α} (h : sep ∉ pre)
    (h' : sep ∉ pre') (heq : pre ++ sep :: post = pre' ++ sep :: post') :
    pre = pre' ∧ post = post' := by
  classical
  have hcut := splitOnce_append h post
  rw [heq, splitOnce_append h' post'] at hcut
  obtain ⟨rfl, rfl⟩ := Prod.mk.inj (Option.some.inj hcut)
  exact ⟨rfl, rfl⟩

/-- A cut after which the separator does not occur is unique. -/
theorem append_cons_inj_right {sep : α} {pre pre' post post' : List α} (h : sep ∉ post)
    (h' : sep ∉ post') (heq : pre ++ sep :: post = pre' ++ sep :: post') :
    pre = pre' ∧ post = post' := by
  have hreverse := congrArg reverse heq
  simp only [reverse_append, reverse_cons, append_assoc,
    singleton_append] at hreverse
  obtain ⟨hpost, hpre⟩ := append_cons_inj_left (by simpa using h) (by simpa using h') hreverse
  exact ⟨reverse_injective hpre, reverse_injective hpost⟩

/-! ### Lines of a text -/

/-- `split`, at line feeds. -/
def splitLines (s : String) : List String := (s.toList.splitOn '\n').map String.ofList

def joinLines (ls : List String) : String :=
  String.ofList (['\n'].intercalate (ls.map String.toList))

def OneLine (s : String) : Prop := '\n' ∉ s.toList

instance (s : String) : Decidable (OneLine s) := inferInstanceAs (Decidable ('\n' ∉ s.toList))

theorem oneLine_append_iff {a b : String} : OneLine (a ++ b) ↔ OneLine a ∧ OneLine b := by
  simp [OneLine, String.toList_append, not_or]

theorem toList_joinLines (ls : List String) :
    (joinLines ls).toList = ['\n'].intercalate (ls.map String.toList) := String.toList_ofList

theorem map_toList_splitLines (s : String) :
    (splitLines s).map String.toList = s.toList.splitOn '\n' := by
  have hid : String.toList ∘ String.ofList = id := funext fun l => String.toList_ofList
  simp [splitLines, hid]

theorem joinLines_splitLines (s : String) : joinLines (splitLines s) = s := by
  refine String.toList_inj.mp ?_
  rw [toList_joinLines, map_toList_splitLines, intercalate_splitOn]

theorem OneLine.splitLines {s : String} (h : OneLine s) : splitLines s = [s] := by
  simp [Buzz.splitLines, splitOn_eq_singleton h, String.ofList_toList]

theorem splitLines_joinLines {ls : List String} (h : ls ≠ []) :
    splitLines (joinLines ls) = ls.flatMap splitLines := by
  induction ls with
  | nil => exact absurd rfl h
  | cons l ls ih =>
    cases ls with
    | nil => simp [joinLines]
    | cons l' ls =>
      have hrest := ih (cons_ne_nil l' ls)
      have hcut : (joinLines (l :: l' :: ls)).toList =
          l.toList ++ '\n' :: (joinLines (l' :: ls)).toList := by
        rw [toList_joinLines, toList_joinLines, map_cons, map_cons,
          intercalate_cons_cons]
        simp
      simp [← hrest, splitLines, hcut, splitOn_append_cons_self]

theorem oneLine_of_mem_splitLines {s l : String} (h : l ∈ splitLines s) : OneLine l := by
  have hparts : ∀ cs : List Char, ∀ part ∈ cs.splitOn '\n', '\n' ∉ part := by
    intro cs
    induction cs with
    | nil => simp
    | cons c cs ih =>
      intro part hpart
      rw [splitOn_cons_eq_if_modifyHead] at hpart
      split at hpart
      · obtain rfl | hpart := mem_cons.mp hpart
        · exact not_mem_nil
        · exact ih part hpart
      · next hc =>
        obtain ⟨first, rest, hfirst⟩ := exists_cons_of_ne_nil (splitOn_ne_nil '\n' cs)
        rw [hfirst] at ih hpart
        obtain ⟨hplain, hrest⟩ := forall_mem_cons.mp ih
        obtain rfl | hpart := mem_cons.mp hpart
        · have hne : c ≠ '\n' := by simpa using hc
          exact not_mem_cons_of_ne_of_not_mem hne.symm hplain
        · exact hrest part hpart
  obtain ⟨part, hpart, rfl⟩ := mem_map.mp h
  rw [OneLine, String.toList_ofList]
  exact hparts s.toList part hpart

theorem flatMap_splitLines {ls : List String} (h : ∀ l ∈ ls, OneLine l) :
    ls.flatMap splitLines = ls := by
  induction ls with
  | nil => rfl
  | cons l ls ih =>
    obtain ⟨hl, hls⟩ := forall_mem_cons.mp h
    simp [hl.splitLines, ih hls]

end Buzz
