import Buzz.Agent.History
import Buzz.Lib.Fitting

/-!
# Truncating the history

Before a request is sent, the oldest turns are dropped from the history until it fits into a number
of bytes. A loop scans for the end of the first turn, drops the turn, and subtracts its size from a
total that it keeps.
-/

namespace Buzz.Agent

open List

abbrev historyBytes (history : List HistoryItem) : Nat := weight HistoryItem.estimatedBytes history

/-! ### The loop -/

/-- The inner loop: `end` goes up to the next turn of the user, or to the end of the history. -/
def turnEnd (history : List HistoryItem) (stop : Nat) : Nat :=
  if h : stop < history.length then
    if history[stop].isUser then stop else turnEnd history (stop + 1)
  else stop
termination_by history.length - stop

structure Truncation where
  history : List HistoryItem
  total : Nat

namespace Truncation

def start (history : List HistoryItem) : Truncation := ⟨history, historyBytes history⟩

/-- One turn of the outer loop; `none` where the loop is left. -/
def step (maxBytes : Nat) (t : Truncation) : Option Truncation :=
  if t.total ≤ maxBytes || t.history.isEmpty then none
  else
    let stop := turnEnd t.history 1
    if t.history.length ≤ stop then none
    else
      let dropped := historyBytes (t.history.take stop)
      -- a subtraction of `Nat` is `saturating_sub`
      some ⟨t.history.drop stop, t.total - dropped⟩

end Truncation

/-! ### The scan -/

theorem le_turnEnd (history : List HistoryItem) (stop : Nat) : stop ≤ turnEnd history stop := by
  fun_induction turnEnd history stop with
  | case1 stop hlt huser => exact Nat.le_refl _
  | case2 stop hlt huser ih => omega
  | case3 stop hlt => exact Nat.le_refl _

theorem drop_turnEnd (history : List HistoryItem) (stop : Nat) :
    history.drop (turnEnd history stop) =
      (history.drop stop).dropWhile fun item => !item.isUser := by
  fun_induction turnEnd history stop with
  | case1 stop hlt huser =>
    rw [drop_eq_getElem_cons hlt, dropWhile_cons_of_neg (by simp [huser])]
  | case2 stop hlt huser ih =>
    rw [ih, drop_eq_getElem_cons hlt, dropWhile_cons_of_pos (by simp [huser])]
  | case3 stop hlt => simp [drop_eq_nil_of_le (Nat.le_of_not_lt hlt)]

theorem drop_turnEnd_one (history : List HistoryItem) :
    history.drop (turnEnd history 1) = nextTurn HistoryItem.isUser history := by
  rw [drop_turnEnd, drop_one, nextTurn]

namespace Truncation

variable {maxBytes : Nat} {t t' : Truncation}

/-- **What one turn of the loop does.** -/
theorem step_eq_some_iff : t.step maxBytes = some t' ↔
    maxBytes < t.total ∧ nextTurn HistoryItem.isUser t.history ≠ [] ∧
      t'.history = nextTurn HistoryItem.isUser t.history ∧
      t'.total = t.total - historyBytes (t.history.take (turnEnd t.history 1)) := by
  have hlast : t.history.length ≤ turnEnd t.history 1 ↔
      nextTurn HistoryItem.isUser t.history = [] := by
    simp [← drop_turnEnd_one]
  have hempty : t.history.isEmpty = true → nextTurn HistoryItem.isUser t.history = [] := by
    intro h
    rw [isEmpty_iff.mp h]
    rfl
  rw [step]
  split
  · next hstop =>
    simp only [reduceCtorEq, false_iff]
    rintro ⟨hbig, hne, -, -⟩
    simp only [Bool.or_eq_true, decide_eq_true_eq] at hstop
    rcases hstop with hle | hnil
    · omega
    · exact hne (hempty hnil)
  · next hstop =>
    simp only [Bool.or_eq_true, decide_eq_true_eq, not_or, Nat.not_le] at hstop
    dsimp only
    rw [drop_turnEnd_one]
    split
    · next hle =>
      simp only [reduceCtorEq, false_iff]
      rintro ⟨-, hne, -, -⟩
      exact hne (hlast.mp hle)
    · next hle =>
      rw [Option.some.injEq]
      constructor
      · rintro rfl
        exact ⟨hstop.1, fun hnil => hle (hlast.mpr hnil), rfl, rfl⟩
      · rintro ⟨-, -, hhistory, htotal⟩
        cases t'
        cases hhistory
        cases htotal
        rfl

theorem step_eq_none_iff : t.step maxBytes = none ↔
    t.total ≤ maxBytes ∨ SingleTurn HistoryItem.isUser t.history := by
  rw [singleTurn_iff]
  constructor
  · intro h
    by_contra hnot
    rw [not_or, Nat.not_le] at hnot
    have hsome : t.step maxBytes = some ⟨_, _⟩ :=
      step_eq_some_iff.mpr ⟨hnot.1, hnot.2, rfl, rfl⟩
    exact absurd (h.symm.trans hsome) (by simp)
  · intro h
    rw [Option.eq_none_iff_forall_ne_some]
    intro t' ht'
    obtain ⟨hbig, hne, -, -⟩ := step_eq_some_iff.mp ht'
    rcases h with hle | hnil
    · omega
    · exact hne hnil

theorem length_step (h : t.step maxBytes = some t') : t'.history.length < t.history.length := by
  obtain ⟨-, hne, hhistory, -⟩ := step_eq_some_iff.mp h
  have hlt : turnEnd t.history 1 < t.history.length := by
    rw [← drop_turnEnd_one, ne_eq, drop_eq_nil_iff] at hne
    omega
  have hpos := le_turnEnd t.history 1
  rw [hhistory, ← drop_turnEnd_one, length_drop]
  omega

/-- The total is that of the history. -/
def Tracks (t : Truncation) : Prop := t.total = historyBytes t.history

theorem tracks_start (history : List HistoryItem) : (start history).Tracks := rfl

/-- **The total stays right.** -/
theorem Tracks.step (ht : t.Tracks) (h : t.step maxBytes = some t') : t'.Tracks := by
  obtain ⟨-, -, hhistory, htotal⟩ := step_eq_some_iff.mp h
  have hsplit : historyBytes t.history =
      historyBytes (t.history.take (turnEnd t.history 1)) + historyBytes t'.history := by
    simp [hhistory, ← drop_turnEnd_one, ← weight_append]
  rw [Tracks] at ht ⊢
  omega

end Truncation

/-! ### The run -/

/-- The states of the loop, from this one on. -/
def truncations (maxBytes : Nat) (t : Truncation) : List Truncation :=
  match _h : t.step maxBytes with
  | none => [t]
  | some t' => t :: truncations maxBytes t'
termination_by t.history.length
decreasing_by exact Truncation.length_step _h

/-- The state in which the loop is left. -/
def truncate (maxBytes : Nat) (t : Truncation) : Truncation :=
  match _h : t.step maxBytes with
  | none => t
  | some t' => truncate maxBytes t'
termination_by t.history.length
decreasing_by exact Truncation.length_step _h

variable {maxBytes : Nat} {t : Truncation}

theorem getLast?_truncations (maxBytes : Nat) (t : Truncation) :
    (truncations maxBytes t).getLast? = some (truncate maxBytes t) := by
  fun_induction truncations maxBytes t with
  | case1 t h =>
    rw [truncate]
    split
    · rfl
    · next t' h' => exact absurd (h.symm.trans h') (by simp)
  | case2 t t' h ih =>
    rw [truncate]
    split
    · next h' => exact absurd (h.symm.trans h') (by simp)
    · next t'' h' =>
      obtain rfl : t' = t'' := Option.some.inj (h.symm.trans h')
      rw [getLast?_cons, ih]
      rfl

theorem tracks_of_mem_truncations (ht : t.Tracks) :
    ∀ u ∈ truncations maxBytes t, u.Tracks := by
  fun_induction truncations maxBytes t with
  | case1 t h => simpa using ht
  | case2 t t' h ih =>
    intro u hu
    rcases mem_cons.mp hu with rfl | hu
    · exact ht
    · exact ih (ht.step h) u hu

theorem leastDropped_truncate (ht : t.Tracks) :
    LeastDropped HistoryItem.isUser HistoryItem.estimatedBytes maxBytes t.history
      (truncate maxBytes t).history := by
  fun_induction truncate maxBytes t with
  | case1 t h =>
    rcases Truncation.step_eq_none_iff.mp h with hle | hsingle
    · exact .of_le (ht.symm.trans_le hle)
    · exact .of_single hsingle
  | case2 t t' h ih =>
    obtain ⟨hbig, hne, hhistory, -⟩ := Truncation.step_eq_some_iff.mp h
    have hrest := ih (ht.step h)
    rw [hhistory] at hrest
    exact .of_next (hbig.trans_eq ht) hne hrest

theorem truncateLoop_eq (maxBytes : Nat) (t : Truncation) :
    truncateLoop maxBytes t.total t.history = (truncate maxBytes t).history := by
  obtain ⟨history, total⟩ := t
  induction total, history using truncateLoop.induct maxBytes with
  | case1 total =>
    rw [truncateLoop, truncate]
    split
    · rfl
    · next t' h => exact absurd rfl (Truncation.step_eq_some_iff.mp h).2.1
  | case2 total item rest hfits =>
    rw [truncateLoop, if_pos hfits, truncate]
    split
    · rfl
    · next t' h => exact absurd hfits (Nat.not_le_of_lt (Truncation.step_eq_some_iff.mp h).1)
  | case3 total item rest hbig hlast =>
    rw [truncateLoop, if_neg hbig, if_pos hlast, truncate]
    split
    · rfl
    · next t' h => exact absurd hlast (Truncation.step_eq_some_iff.mp h).2.1
  | case4 total item rest hbig hnext ih =>
    rw [truncateLoop, if_neg hbig, if_neg hnext, ih, truncate.eq_def maxBytes ⟨item :: rest, total⟩]
    have hdrop : (item :: rest).drop (turnEnd (item :: rest) 1) =
        rest.dropWhile fun i => !i.isUser := drop_turnEnd_one _
    have htake : (item :: rest).take (turnEnd (item :: rest) 1) =
        item :: rest.takeWhile fun i => !i.isUser := by
      have hsplit := take_append_drop (turnEnd (item :: rest) 1) (item :: rest)
      rw [hdrop] at hsplit
      refine append_cancel_right (hsplit.trans ?_)
      simp
    split
    · next h =>
      rcases Truncation.step_eq_none_iff.mp h with hle | hsingle
      · exact absurd hle hbig
      · exact absurd (singleTurn_iff.mp hsingle) hnext
    · next t' h =>
      obtain ⟨-, -, hhistory, htotal⟩ := Truncation.step_eq_some_iff.mp h
      rw [htake] at htotal
      cases t'
      cases hhistory
      cases htotal
      rfl

/-- **The loop leaves what `truncateHistory` does.** -/
theorem truncateHistory_eq (history : List HistoryItem) (maxBytes : Nat) :
    truncateHistory history maxBytes = (truncate maxBytes (.start history)).history :=
  truncateLoop_eq maxBytes (.start history)

/-- **As few turns as possible are dropped**, and in every state of the loop the total is the size
of what is left. -/
theorem truncation_exact (history : List HistoryItem) (maxBytes : Nat) :
    LeastDropped HistoryItem.isUser HistoryItem.estimatedBytes maxBytes history
        (truncateHistory history maxBytes) ∧
      (truncations maxBytes (.start history)).getLast?.map Truncation.history =
        some (truncateHistory history maxBytes) ∧
      ∀ t ∈ truncations maxBytes (.start history), t.total = historyBytes t.history := by
  have hstart := Truncation.tracks_start history
  refine ⟨?_, ?_, tracks_of_mem_truncations hstart⟩
  · rw [truncateHistory_eq]
    exact leastDropped_truncate hstart
  · rw [getLast?_truncations, truncateHistory_eq]
    rfl

end Buzz.Agent
