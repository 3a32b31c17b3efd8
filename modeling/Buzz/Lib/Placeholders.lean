import Mathlib.Data.List.Infix

/-!
# Texts with placeholders

A text is cut at the first opening bracket and at the first closing bracket after it. What stands
between the two is a placeholder, and the rest is cut in the same way. A bracket that is not closed
is a part of the text.

A placeholder is filled with what is computed from it. The cuts depend on the text alone, so that
what is filled in is never cut.
-/

namespace Buzz

open List

variable {α : Type*}

/-! ### The first occurrence -/

section

variable [DecidableEq α]

/-- Cut a list at the first occurrence of another one. -/
def cutAt (pat : List α) : List α → Option (List α × List α)
  | [] => if pat = [] then some ([], []) else none
  | a :: l =>
    if pat.isPrefixOf (a :: l) then some ([], (a :: l).drop pat.length)
    else (cutAt pat l).map fun p => (a :: p.1, p.2)

theorem eq_of_cutAt {pat l pre post : List α} (h : cutAt pat l = some (pre, post)) :
    l = pre ++ (pat ++ post) := by
  induction l generalizing pre with
  | nil =>
    rw [cutAt] at h
    split at h
    · next hpat =>
      cases h
      rw [hpat]
      rfl
    · cases h
  | cons a l ih =>
    rw [cutAt] at h
    split at h
    · next hpre =>
      cases h
      exact (prefix_iff_eq_append.mp (List.isPrefixOf_iff_prefix.mp hpre)).symm
    · obtain ⟨⟨pre', post'⟩, hrest, heq⟩ := Option.map_eq_some_iff.mp h
      cases heq
      rw [ih hrest]
      rfl

theorem cutAt_eq_none_iff {pat l : List α} : cutAt pat l = none ↔ ¬ pat <:+: l := by
  induction l with
  | nil => simp [cutAt]
  | cons a l ih =>
    rw [cutAt, infix_cons_iff, not_or, ← ih]
    split
    · next hpre => simp [List.isPrefixOf_iff_prefix.mp hpre]
    · next hpre =>
      rw [List.isPrefixOf_iff_prefix] at hpre
      simp [hpre]

theorem length_of_cutAt {pat l pre post : List α} (h : cutAt pat l = some (pre, post)) :
    post.length + pat.length ≤ l.length := by
  rw [eq_of_cutAt h, length_append, length_append]
  omega

end

/-! ### Pieces -/

/-- A piece of a template. -/
inductive Piece (α : Type*) where
  | literal (text : List α)
  | placeholder (body : List α)

def Piece.source (o c : List α) : Piece α → List α
  | .literal text => text
  | .placeholder body => o ++ (body ++ c)

def Piece.body? : Piece α → Option (List α)
  | .literal _ => none
  | .placeholder body => some body

def pieces [DecidableEq α] (o c : List α) (ho : o ≠ []) (l : List α) : List (Piece α) :=
  match _hopen : cutAt o l with
  | none => [.literal l]
  | some (text, rest) =>
    match _hclose : cutAt c rest with
    | none => [.literal text, .literal (o ++ rest)]
    | some (body, rest') => .literal text :: .placeholder body :: pieces o c ho rest'
termination_by l.length
decreasing_by
  have hpos := length_pos_iff.mpr ho
  have hlt := length_of_cutAt _hopen
  have hle := length_of_cutAt _hclose
  omega

def bodies (ps : List (Piece α)) : List (List α) := ps.filterMap Piece.body?

section

variable [DecidableEq α] {o c : List α} (ho : o ≠ [])

theorem pieces_plain {l : List α} (h : cutAt o l = none) : pieces o c ho l = [.literal l] := by
  rw [pieces]
  split
  · rfl
  · next hsome => nomatch h.symm.trans hsome

theorem pieces_unclosed {l text rest : List α} (hopen : cutAt o l = some (text, rest))
    (hclose : cutAt c rest = none) :
    pieces o c ho l = [.literal text, .literal (o ++ rest)] := by
  rw [pieces]
  split
  · next hnone => nomatch hnone.symm.trans hopen
  · next hsome =>
    cases hsome.symm.trans hopen
    split
    · rfl
    · next hsome => nomatch hclose.symm.trans hsome

theorem pieces_closed {l text rest body rest' : List α} (hopen : cutAt o l = some (text, rest))
    (hclose : cutAt c rest = some (body, rest')) :
    pieces o c ho l = .literal text :: .placeholder body :: pieces o c ho rest' := by
  rw [pieces]
  split
  · next hnone => nomatch hnone.symm.trans hopen
  · next hsome =>
    cases hsome.symm.trans hopen
    split
    · next hnone => nomatch hnone.symm.trans hclose
    · next hsome =>
      cases hsome.symm.trans hclose
      rfl

/-- **The pieces are the text.** -/
theorem source_pieces (l : List α) : (pieces o c ho l).flatMap (Piece.source o c) = l := by
  induction hn : l.length using Nat.strong_induction_on generalizing l with
  | _ n ih =>
    cases hopen : cutAt o l with
    | none => simp [pieces_plain ho hopen, Piece.source]
    | some p =>
      obtain ⟨text, rest⟩ := p
      cases hclose : cutAt c rest with
      | none =>
        rw [pieces_unclosed ho hopen hclose, eq_of_cutAt hopen]
        simp [Piece.source]
      | some q =>
        obtain ⟨body, rest'⟩ := q
        have hpos := length_pos_iff.mpr ho
        have hlt := length_of_cutAt hopen
        have hle := length_of_cutAt hclose
        have hrest := ih rest'.length (by omega) rest' rfl
        rw [pieces_closed ho hopen hclose, flatMap_cons, flatMap_cons, hrest,
          Piece.source, Piece.source, eq_of_cutAt hopen, eq_of_cutAt hclose]
        simp

end

/-! ### Filling -/

section

variable {ε : Type*}

/-- The text with its placeholders filled, from the left. -/
def fill (value : List α → Except ε (List α)) : List (Piece α) → Except ε (List α)
  | [] => .ok []
  | .literal text :: ps => (fill value ps).map (text ++ ·)
  | .placeholder body :: ps =>
    match value body with
    | .error e => .error e
    | .ok v => (fill value ps).map (v ++ ·)

variable {f g : List α → Except ε (List α)} {ps : List (Piece α)}

theorem fill_congr (h : ∀ body ∈ bodies ps, f body = g body) : fill f ps = fill g ps := by
  induction ps with
  | nil => rfl
  | cons p ps ih =>
    cases p with
    | literal text => rw [fill, fill, ih h]
    | placeholder body =>
      have hbody := h body mem_cons_self
      have hrest := ih fun b hb => h b (mem_cons_of_mem body hb)
      rw [fill, fill, hbody, hrest]

theorem mem_bodies_iff {body : List α} : body ∈ bodies ps ↔ Piece.placeholder body ∈ ps := by
  simp only [bodies, mem_filterMap]
  constructor
  · rintro ⟨p, hp, hbody⟩
    cases p with
    | literal text => cases hbody
    | placeholder b =>
      cases hbody
      exact hp
  · intro h
    exact ⟨_, h, rfl⟩

theorem fill_source {o c : List α} {value : List α → Except ε (List α)}
    (h : ∀ body ∈ bodies ps, value body = .ok (o ++ (body ++ c))) :
    fill value ps = .ok (ps.flatMap (Piece.source o c)) := by
  induction ps with
  | nil => rfl
  | cons p ps ih =>
    cases p with
    | literal text =>
      rw [fill, ih h]
      rfl
    | placeholder body =>
      have hbody := h body mem_cons_self
      have hrest := ih fun b hb => h b (mem_cons_of_mem body hb)
      rw [fill, hbody, hrest]
      rfl

/-- Where two ways to fill differ, the second one writes more. -/
def Shorter (f g : List α → Except ε (List α)) : Prop :=
  ∀ body, f body = g body ∨ ∃ v w, f body = .ok v ∧ g body = .ok w ∧ v.length < w.length

theorem exists_fill_of_shorter (h : Shorter f g) {out : List α} (hf : fill f ps = .ok out) :
    ∃ out', fill g ps = .ok out' ∧ out.length ≤ out'.length ∧
      (out.length = out'.length → ∀ body ∈ bodies ps, f body = g body) := by
  induction ps generalizing out with
  | nil =>
    cases hf
    exact ⟨[], rfl, Nat.le_refl _, nofun⟩
  | cons p ps ih =>
    cases p with
    | literal text =>
      rw [fill] at hf
      cases hrest : fill f ps with
      | error e =>
        rw [hrest] at hf
        cases hf
      | ok rest =>
        rw [hrest] at hf
        cases hf
        obtain ⟨out', hout', hle, hall⟩ := ih hrest
        refine ⟨text ++ out', ?_, ?_, fun hlen => hall ?_⟩
        · rw [fill, hout']
          rfl
        · simpa using hle
        · simpa using hlen
    | placeholder body =>
      rw [fill] at hf
      cases hvalue : f body with
      | error e =>
        rw [hvalue] at hf
        cases hf
      | ok v =>
        cases hrest : fill f ps with
        | error e =>
          rw [hvalue, hrest] at hf
          cases hf
        | ok rest =>
          rw [hvalue, hrest] at hf
          cases hf
          obtain ⟨out', hout', hle, hall⟩ := ih hrest
          obtain ⟨w, hw, hvw⟩ : ∃ w, g body = .ok w ∧ (v = w ∨ v.length < w.length) := by
            obtain heq | ⟨v', w, hv', hw, hlt⟩ := h body
            · exact ⟨v, heq ▸ hvalue, .inl rfl⟩
            · obtain rfl := Except.ok.inj (hvalue.symm.trans hv')
              exact ⟨w, hw, .inr hlt⟩
          have hvle : v.length ≤ w.length := by
            obtain rfl | hlt := hvw
            · exact Nat.le_refl _
            · exact Nat.le_of_lt hlt
          refine ⟨w ++ out', ?_, ?_, fun hlen => ?_⟩
          · rw [fill, hw, hout']
            rfl
          · simp only [length_append]
            omega
          · simp only [length_append] at hlen
            obtain rfl | hlt := hvw
            · intro b hb
              rcases mem_cons.mp hb with rfl | hb
              · rw [hvalue, hw]
              · exact hall (by omega) b hb
            · omega

/-- **Two ways to fill.** They agree on the text exactly when they agree on its placeholders. -/
theorem fill_eq_iff (h : Shorter f g) {out : List α} (hf : fill f ps = .ok out) :
    fill g ps = .ok out ↔ ∀ body ∈ bodies ps, f body = g body := by
  constructor
  · intro hg
    obtain ⟨out', hout', -, hall⟩ := exists_fill_of_shorter h hf
    obtain rfl := Except.ok.inj (hg.symm.trans hout')
    exact hall rfl
  · intro hall
    rw [← fill_congr hall, hf]

end

end Buzz
