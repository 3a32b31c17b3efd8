import Mathlib.Data.List.Induction
import Mathlib.Data.List.TakeDrop

/-!
# Snapshots and changes

A copy of a state is kept up to date with snapshots of the state and with the changes made to it. Both
come in one stream, and carry a revision that counts the changes modulo a bound. The copy is replaced
by a snapshot; of the changes it takes the one that follows its revision, and leaves the earlier ones
out. Any other one is a gap.

A state that is represented in two ways is related: the copy holds one, and the changes are replayed
on the other. The positions that frames carry are those of the log; the copy does not look at them.
-/

namespace Buzz

open List

variable {σ β δ : Type*}

/-- A snapshot, or a change to the one before. -/
inductive StreamFrame (σ δ : Type*) where
  | snapshot (position revision : Nat) (content : σ)
  | delta (position revision : Nat) (change : δ)

/-- A copy and its revision. -/
structure Copy (σ : Type*) where
  revision : Nat
  content : σ
  deriving DecidableEq

/-- The copy takes a frame; whether there is a gap before it. -/
def Copy.read (apply : σ → δ → σ) (bound : Nat) (c : Copy σ) : StreamFrame σ δ → Copy σ × Bool
  | .snapshot _ revision content => (⟨revision, content⟩, false)
  | .delta _ revision change =>
    if revision = (c.revision + 1) % bound then (⟨revision, apply c.content change⟩, false)
    else if revision ≤ c.revision then (c, false)
    else (c, true)

/-- There is no copy before the first snapshot. -/
def receive (apply : σ → δ → σ) (bound : Nat) :
    Option (Copy σ) → StreamFrame σ δ → Option (Copy σ) × Bool
  | some c, f => (some (c.read apply bound f).1, (c.read apply bound f).2)
  | none, .snapshot _ revision content => (some ⟨revision, content⟩, false)
  | none, .delta .. => (none, false)

def StreamFrame.IsSnapshot : StreamFrame σ δ → Prop
  | .snapshot .. => True
  | .delta .. => False

/-- The position up to which a frame knows the changes. -/
def StreamFrame.reach : StreamFrame σ δ → Nat
  | .snapshot position _ _ => position
  | .delta position _ _ => position + 1

def StreamFrame.advance (n : Nat) : StreamFrame σ δ → Nat
  | .snapshot position _ _ => position
  | .delta position _ _ => max n (position + 1)

def positionAfter (fs : List (StreamFrame σ δ)) : Nat := fs.foldl StreamFrame.advance 0

theorem positionAfter_concat (fs : List (StreamFrame σ δ)) (f : StreamFrame σ δ) :
    positionAfter (fs ++ [f]) = f.advance (positionAfter fs) := by
  simp [positionAfter]

theorem exists_reach_eq_positionAfter {fs : List (StreamFrame σ δ)} (h : fs ≠ []) :
    ∃ f ∈ fs, f.reach = positionAfter fs := by
  induction fs using reverseRecOn with
  | nil => exact absurd rfl h
  | append_singleton fs f ih =>
    rw [positionAfter_concat]
    cases f with
    | snapshot position revision content =>
      exact ⟨_, mem_append_right _ mem_cons_self, rfl⟩
    | delta position revision change =>
      rw [StreamFrame.advance]
      rcases Nat.lt_or_ge position (positionAfter fs) with hlt | hge
      · have hne : fs ≠ [] := by
          rintro rfl
          exact absurd hlt (Nat.not_lt_zero _)
        obtain ⟨g, hg, hreach⟩ := ih hne
        refine ⟨g, mem_append_left _ hg, ?_⟩
        rw [hreach, Nat.max_eq_left hlt]
      · refine ⟨_, mem_append_right _ mem_cons_self, ?_⟩
        rw [StreamFrame.reach, Nat.max_eq_right (Nat.le_succ_of_le hge)]

section

variable (act : β → δ → β) (start : β)

/-- The state after the first changes of a log. -/
def stateAt (log : List δ) (n : Nat) : β := (log.take n).foldl act start

theorem stateAt_append {log : List δ} {n : Nat} (h : n ≤ log.length) (more : List δ) :
    stateAt act start (log ++ more) n = stateAt act start log n := by
  rw [stateAt, stateAt, take_append_of_le_length h]

theorem stateAt_succ {log : List δ} {n : Nat} {d : δ} (h : log[n]? = some d) :
    stateAt act start log (n + 1) = act (stateAt act start log n) d := by
  rw [stateAt, stateAt, take_add_one, h, Option.toList_some, foldl_append]
  rfl

theorem stateAt_concat (log : List δ) (d : δ) :
    stateAt act start (log ++ [d]) (log ++ [d]).length = act (stateAt act start log log.length) d := by
  rw [stateAt, stateAt, take_length, take_length, foldl_append]
  rfl

variable (R : σ → β → Prop) (bound : Nat)

/-- The copy is that of the state at a position. -/
structure IsCopy (log : List δ) (c : Copy σ) (n : Nat) : Prop where
  within : n ≤ log.length
  revision : c.revision = n % bound
  content : R c.content (stateAt act start log n)

/-- A frame continues a copy at a position. A change is late by `lag` positions at most. -/
def StreamFrame.Fits (lag : Nat) (log : List δ) (n : Nat) : StreamFrame σ δ → Prop
  | .snapshot position revision content =>
    n ≤ position ∧ IsCopy act start R bound log ⟨revision, content⟩ position
  | .delta position revision change =>
    log[position]? = some change ∧ revision = (position + 1) % bound ∧ position ≤ n ∧
      n ≤ position + lag

/-- Frames continue a copy, from one position to another. -/
def Fits (lag : Nat) (log : List δ) : Nat → List (StreamFrame σ δ) → Nat → Prop
  | n, [], m => n = m
  | n, f :: fs, m => f.Fits act start R bound lag log n ∧ Fits lag log (f.advance n) fs m

variable {act start R bound} {lag : Nat} {log : List δ} {n m : Nat}

/-! ### The log grows -/

theorem IsCopy.append {c : Copy σ} (h : IsCopy act start R bound log c n) (more : List δ) :
    IsCopy act start R bound (log ++ more) c n where
  within := by
    rw [length_append]
    exact Nat.le_add_right_of_le h.within
  revision := h.revision
  content := by
    rw [stateAt_append act start h.within]
    exact h.content

theorem StreamFrame.Fits.append {f : StreamFrame σ δ} (h : f.Fits act start R bound lag log n)
    (more : List δ) : f.Fits act start R bound lag (log ++ more) n := by
  cases f with
  | snapshot position revision content => exact ⟨h.1, h.2.append more⟩
  | delta position revision change =>
    obtain ⟨hchange, hrest⟩ := h
    refine ⟨?_, hrest⟩
    rwa [List.getElem?_append_left (List.getElem?_eq_some_iff.mp hchange).1]

theorem Fits.append {fs : List (StreamFrame σ δ)} (h : Fits act start R bound lag log n fs m)
    (more : List δ) : Fits act start R bound lag (log ++ more) n fs m := by
  induction fs generalizing n with
  | nil => exact h
  | cons f fs ih => exact ⟨h.1.append more, ih h.2⟩

/-! ### The stream grows -/

theorem Fits.concat {fs : List (StreamFrame σ δ)} (h : Fits act start R bound lag log n fs m)
    {f : StreamFrame σ δ} (hf : f.Fits act start R bound lag log m) :
    Fits act start R bound lag log n (fs ++ [f]) (f.advance m) := by
  induction fs generalizing n with
  | nil =>
    obtain rfl : n = m := h
    exact ⟨hf, rfl⟩
  | cons g fs ih => exact ⟨h.1, ih h.2⟩

theorem StreamFrame.Fits.advance_le {f : StreamFrame σ δ} (h : f.Fits act start R bound lag log n)
    (hn : n ≤ log.length) : f.advance n ≤ log.length := by
  cases f with
  | snapshot position revision content => exact h.2.within
  | delta position revision change =>
    have hlt := (List.getElem?_eq_some_iff.mp h.1).1
    exact Nat.max_le.mpr ⟨hn, hlt⟩

/-! ### The copy reads -/

variable {apply : σ → δ → σ}

theorem mod_ne_of_late {k : Nat} (hbound : lag < bound) (hlt : k < n) (hle : n ≤ k + lag) :
    (k + 1) % bound ≠ (n + 1) % bound := by
  intro heq
  have hdvd := Nat.dvd_of_mod_eq_zero (Nat.sub_mod_eq_zero_of_mod_eq heq.symm)
  have hle' := Nat.le_of_dvd (by omega) hdvd
  omega

/-- **A copy that reads a frame that fits is at the position after it.** -/
theorem IsCopy.read (happly : ∀ s b d, R s b → R (apply s d) (act b d)) (hbound : lag < bound)
    {c : Copy σ} (h : IsCopy act start R bound log c n) {f : StreamFrame σ δ}
    (hf : f.Fits act start R bound lag log n) :
    IsCopy act start R bound log (c.read apply bound f).1 (f.advance n) := by
  cases f with
  | snapshot position revision content => exact hf.2
  | delta position revision change =>
    obtain ⟨hchange, hrevision, hle, hlag⟩ := hf
    have hlt := (List.getElem?_eq_some_iff.mp hchange).1
    rw [Copy.read, StreamFrame.advance, h.revision, Nat.mod_add_mod]
    rcases Nat.lt_or_eq_of_le hle with hlate | rfl
    · -- it is there already
      rw [if_neg (hrevision ▸ mod_ne_of_late hbound hlate hlag), Nat.max_eq_left (by omega)]
      split
      · exact h
      · exact h
    · rw [if_pos hrevision, Nat.max_eq_right (Nat.le_succ _)]
      refine ⟨hlt, hrevision, ?_⟩
      rw [stateAt_succ act start hchange]
      exact happly _ _ _ h.content

/-- While the revisions do not wrap around there is no gap. -/
theorem IsCopy.not_gap (hbound : log.length < bound) {c : Copy σ}
    (h : IsCopy act start R bound log c n) {f : StreamFrame σ δ}
    (hf : f.Fits act start R bound lag log n) : (c.read apply bound f).2 = false := by
  cases f with
  | snapshot position revision content => rfl
  | delta position revision change =>
    obtain ⟨hchange, hrevision, hle, -⟩ := hf
    have hlt := (List.getElem?_eq_some_iff.mp hchange).1
    have hn := h.within
    have hcopy := h.revision
    rw [Nat.mod_eq_of_lt (by omega)] at hrevision hcopy
    rw [Copy.read, hcopy, hrevision]
    split
    · rfl
    · next hother =>
      rw [if_pos]
      rcases Nat.lt_or_eq_of_le hle with hlate | rfl
      · exact hlate
      · rw [Nat.mod_eq_of_lt (by omega)] at hother
        exact absurd rfl hother

/-! ### A copy and its stream -/

variable (act start R bound) in
/-- A copy follows the log: the frames under way continue it. -/
structure Follows (lag : Nat) (log : List δ) (replica : Option (Copy σ))
    (received stream : List (StreamFrame σ δ)) (m : Nat) : Prop where
  /-- The copy is at the position after the frames that it has received. -/
  copy : ∀ c, replica = some c →
    received ≠ [] ∧ IsCopy act start R bound log c (positionAfter received)
  first : replica = none → received = [] ∧ ∀ f ∈ stream.head?, f.IsSnapshot
  fits : Fits act start R bound lag log (positionAfter received) stream m
  behind : ∀ f ∈ received, f.reach ≤ positionAfter received

variable {replica : Option (Copy σ)} {received stream : List (StreamFrame σ δ)} {f : StreamFrame σ δ}

theorem follows_new : Follows act start R bound lag log none [] [] 0 where
  copy c h := by cases h
  first _ := ⟨rfl, nofun⟩
  fits := rfl
  behind f h := by cases h

theorem Follows.append (h : Follows act start R bound lag log replica received stream m)
    (more : List δ) : Follows act start R bound lag (log ++ more) replica received stream m where
  copy c hc := ⟨(h.copy c hc).1, (h.copy c hc).2.append more⟩
  first := h.first
  fits := h.fits.append more
  behind := h.behind

theorem Follows.send (h : Follows act start R bound lag log replica received stream m)
    (hf : f.Fits act start R bound lag log m)
    (hfirst : replica = none → stream = [] → f.IsSnapshot) :
    Follows act start R bound lag log replica received (stream ++ [f]) (f.advance m) where
  copy := h.copy
  first hnone := by
    refine ⟨(h.first hnone).1, fun g hg => ?_⟩
    cases stream with
    | nil =>
      cases hg
      exact hfirst hnone rfl
    | cons e stream => exact (h.first hnone).2 g hg
  fits := h.fits.concat hf
  behind := h.behind

theorem StreamFrame.Fits.le_advance (hf : f.Fits act start R bound lag log n) : n ≤ f.advance n := by
  cases f with
  | snapshot position revision content => exact hf.1
  | delta position revision change => exact Nat.le_max_left _ _

theorem StreamFrame.reach_le_advance (f : StreamFrame σ δ) (n : Nat) : f.reach ≤ f.advance n := by
  cases f with
  | snapshot position revision content => exact Nat.le_refl _
  | delta position revision change => exact Nat.le_max_right _ _

/-- **A frame arrives.** -/
theorem Follows.deliver (happly : ∀ s b d, R s b → R (apply s d) (act b d)) (hbound : lag < bound)
    (h : Follows act start R bound lag log replica received (f :: stream) m) :
    Follows act start R bound lag log (receive apply bound replica f).1 (received ++ [f]) stream
      m where
  copy c hc := by
    refine ⟨concat_ne_nil _ _, ?_⟩
    rw [positionAfter_concat]
    cases replica with
    | some c₀ =>
      cases hc
      exact (h.copy c₀ rfl).2.read happly hbound h.fits.1
    | none =>
      cases f with
      | snapshot position revision content =>
        cases hc
        exact h.fits.1.2
      | delta position revision change => cases hc
  first hnone := by
    cases replica with
    | some c₀ => cases hnone
    | none =>
      have hsnapshot := (h.first rfl).2 f rfl
      cases f with
      | snapshot position revision content => cases hnone
      | delta position revision change => exact hsnapshot.elim
  fits := by
    rw [positionAfter_concat]
    exact h.fits.2
  behind g hg := by
    rw [positionAfter_concat]
    rcases mem_append.mp hg with hmem | hmem
    · exact Nat.le_trans (h.behind g hmem) h.fits.1.le_advance
    · obtain rfl := mem_singleton.mp hmem
      exact g.reach_le_advance _

/-- While the revisions do not wrap around there is no gap. -/
theorem Follows.not_gap (hbound : log.length < bound)
    (h : Follows act start R bound lag log replica received (f :: stream) m) :
    (receive apply bound replica f).2 = false := by
  cases replica with
  | some c => exact (h.copy c rfl).2.not_gap hbound h.fits.1
  | none =>
    cases f with
    | snapshot position revision content => rfl
    | delta position revision change => rfl

end

end Buzz
