import Buzz.Lib.Placeholders
import Buzz.Lib.Utf8
import Mathlib.Data.List.TakeWhile

/-!
# Slices of a text, and blanks in it

A scanner keeps places of a text as numbers of bytes, and asks for the part from one place to
another. A place is good for that where it stands between two characters; at any other one, and
behind the end, the scanner stops. A search answers with such a place, counted from where the search
began.

So the places a scanner computes from searches alone are good, and it never stops: a place is the
number of bytes of something that the text begins with.

A pass over a list copies an element, or puts one blank in the place of a part. Parts next to each
other leave blanks between what is copied, so that nothing is joined: what occurs without a blank in
the result occurs in the list.
-/

namespace Buzz

variable {cs pre post pat : List Char} {p q : ℕ}

/-! ### Slices -/

/-- `&s[p..]`. -/
def dropBytes (cs : List Char) (p : ℕ) : Option (List Char) :=
  (takeBytes cs p).map fun pre => cs.drop pre.length

/-- `&s[p..q]`. -/
def sliceBytes (cs : List Char) (p q : ℕ) : Option (List Char) :=
  (takeBytes cs q).bind fun pre => dropBytes pre p

theorem takeBytes_append (pre post : List Char) :
    takeBytes (pre ++ post) (utf8Length pre) = some pre :=
  takeBytes_eq_some_iff.mpr ⟨List.prefix_append .., rfl⟩

/-- **What a slice from a place is.** -/
theorem dropBytes_eq_some_iff :
    dropBytes cs p = some post ↔ ∃ pre, cs = pre ++ post ∧ utf8Length pre = p := by
  rw [dropBytes, Option.map_eq_some_iff]
  constructor
  · rintro ⟨pre, hpre, rfl⟩
    rw [takeBytes_eq_some_iff] at hpre
    exact ⟨pre, List.prefix_iff_eq_append.mp hpre.1 |>.symm, hpre.2⟩
  · rintro ⟨pre, rfl, rfl⟩
    exact ⟨pre, takeBytes_append pre post, List.drop_left⟩

theorem dropBytes_append (pre post : List Char) :
    dropBytes (pre ++ post) (utf8Length pre) = some post :=
  dropBytes_eq_some_iff.mpr ⟨pre, rfl, rfl⟩

/-- **What a slice between two places is.** -/
theorem sliceBytes_append (pre mid post : List Char) :
    sliceBytes (pre ++ (mid ++ post)) (utf8Length pre) (utf8Length pre + utf8Length mid) =
      some mid := by
  simp [sliceBytes, ← utf8Length_append, ← List.append_assoc, takeBytes_append, dropBytes_append]

/-! ### Good places -/

theorem isCharBoundary_iff : isCharBoundary cs p = true ↔
    ∃ pre post, cs = pre ++ post ∧ utf8Length pre = p := by
  rw [isCharBoundary, Option.isSome_iff_exists]
  constructor
  · rintro ⟨pre, hpre⟩
    obtain ⟨⟨post, rfl⟩, hp⟩ := takeBytes_eq_some_iff.mp hpre
    exact ⟨pre, post, rfl, hp⟩
  · rintro ⟨pre, post, rfl, rfl⟩
    exact ⟨pre, takeBytes_append pre post⟩

theorem isCharBoundary_append (pre post : List Char) :
    isCharBoundary (pre ++ post) (utf8Length pre) = true :=
  isCharBoundary_iff.mpr ⟨pre, post, rfl, rfl⟩

theorem isCharBoundary_length (cs : List Char) : isCharBoundary cs (utf8Length cs) = true :=
  isCharBoundary_iff.mpr ⟨cs, [], (List.append_nil cs).symm, rfl⟩

theorem le_of_isCharBoundary (h : isCharBoundary cs p = true) : p ≤ utf8Length cs := by
  obtain ⟨pre, post, rfl, rfl⟩ := isCharBoundary_iff.mp h
  rw [utf8Length_append]
  exact Nat.le_add_right _ _

theorem exists_slices (h : isCharBoundary cs p = true) :
    ∃ pre post, cs = pre ++ post ∧ utf8Length pre = p ∧
      takeBytes cs p = some pre ∧ dropBytes cs p = some post := by
  obtain ⟨pre, post, rfl, rfl⟩ := isCharBoundary_iff.mp h
  exact ⟨pre, post, rfl, rfl, takeBytes_append pre post, dropBytes_append pre post⟩

theorem prefix_of_utf8Length_le {pre' : List Char} (hpre : pre <+: cs) (hpre' : pre' <+: cs)
    (hle : utf8Length pre ≤ utf8Length pre') : pre <+: pre' := by
  rcases List.prefix_or_prefix_of_prefix hpre hpre' with h | ⟨tail, rfl⟩
  · exact h
  · rw [utf8Length_append] at hle
    have hlength := length_le_utf8Length tail
    obtain rfl : tail = [] := List.eq_nil_of_length_eq_zero (by omega)
    simp

theorem exists_sliceBytes {tail : List Char} (hq : isCharBoundary (pre ++ tail) q = true)
    (hle : utf8Length pre ≤ q) : ∃ mid post, tail = mid ++ post ∧
      utf8Length mid = q - utf8Length pre ∧ sliceBytes (pre ++ tail) (utf8Length pre) q = some mid := by
  obtain ⟨pre', post, hsplit, rfl⟩ := isCharBoundary_iff.mp hq
  have hprefix : pre <+: pre' :=
    prefix_of_utf8Length_le (List.prefix_append ..) ⟨post, hsplit.symm⟩ hle
  obtain ⟨mid, rfl⟩ := hprefix
  rw [List.append_assoc] at hsplit
  obtain rfl := List.append_cancel_left hsplit
  refine ⟨mid, post, rfl, ?_, ?_⟩
  · simp [utf8Length_append]
  · rw [utf8Length_append]
    exact sliceBytes_append pre mid post

theorem isCharBoundary_add (hpost : dropBytes cs p = some post)
    (h : isCharBoundary post q = true) : isCharBoundary cs (p + q) = true := by
  obtain ⟨pre, rfl, rfl⟩ := dropBytes_eq_some_iff.mp hpost
  obtain ⟨mid, rest, rfl, rfl⟩ := isCharBoundary_iff.mp h
  rw [← List.append_assoc, ← utf8Length_append]
  exact isCharBoundary_append _ rest

/-! ### Searches -/

/-- `str::find`, of a text. -/
def findText (pat cs : List Char) : Option ℕ := (cutAt pat cs).map fun cut => utf8Length cut.1

/-- `str::find`, of a character for which the closure holds. -/
def findChar (f : Char → Bool) (cs : List Char) : Option ℕ :=
  if cs.any f then some (utf8Length (cs.takeWhile fun c => !f c)) else none

/-- **Where a text is found.** -/
theorem findText_eq_some (h : findText pat cs = some p) :
    ∃ pre post, cs = pre ++ (pat ++ post) ∧ utf8Length pre = p := by
  obtain ⟨⟨pre, post⟩, hcut, rfl⟩ := Option.map_eq_some_iff.mp h
  exact ⟨pre, post, eq_of_cutAt hcut, rfl⟩

/-- A search behind a place answers with a good place, and what is behind the text that was found
begins at one. -/
theorem isCharBoundary_of_findText (hpost : dropBytes cs p = some post)
    (h : findText pat post = some q) : isCharBoundary cs (p + q) = true ∧
      isCharBoundary cs (p + q + utf8Length pat) = true := by
  obtain ⟨pre, rest, rfl, rfl⟩ := findText_eq_some h
  refine ⟨isCharBoundary_add hpost (isCharBoundary_append pre _), ?_⟩
  rw [Nat.add_assoc, ← utf8Length_append]
  refine isCharBoundary_add hpost ?_
  rw [← List.append_assoc]
  exact isCharBoundary_append _ rest

/-- **What stands before the character that is found**, or everything. -/
theorem takeBytes_findChar (f : Char → Bool) (cs : List Char) :
    takeBytes cs ((findChar f cs).getD (utf8Length cs)) =
      some (cs.takeWhile fun c => !f c) := by
  rw [findChar]
  split
  · exact takeBytes_eq_some_iff.mpr ⟨List.takeWhile_prefix _, rfl⟩
  · next hnone =>
    have hall : cs.takeWhile (fun c => !f c) = cs := by
      rw [List.takeWhile_eq_self_iff]
      simpa using hnone
    rw [hall]
    exact takeBytes_eq_some_iff.mpr ⟨List.prefix_rfl, rfl⟩

/-- `str::match_indices`, where so many bytes stand before the text. -/
def matchIndices (pat : List Char) (hpat : pat ≠ []) (base : ℕ) (cs : List Char) : List ℕ :=
  match _hcut : cutAt pat cs with
  | none => []
  | some (pre, post) =>
    let at' := base + utf8Length pre
    at' :: matchIndices pat hpat (at' + utf8Length pat) post
termination_by cs.length
decreasing_by
  have hpos := List.length_pos_iff.mpr hpat
  have hle := length_of_cutAt _hcut
  omega

variable {hpat : pat ≠ []} {base : ℕ}

theorem matchIndices_of_none (h : cutAt pat cs = none) : matchIndices pat hpat base cs = [] := by
  rw [matchIndices]
  split
  · rfl
  · next hsome => nomatch h.symm.trans hsome

theorem matchIndices_of_some (h : cutAt pat cs = some (pre, post)) :
    matchIndices pat hpat base cs = (base + utf8Length pre) ::
      matchIndices pat hpat (base + utf8Length pre + utf8Length pat) post := by
  rw [matchIndices]
  split
  · next hnone => nomatch hnone.symm.trans h
  · next hsome =>
    cases hsome.symm.trans h
    rfl

/-- **Where occurrences are.** -/
theorem mem_matchIndices (h : p ∈ matchIndices pat hpat base cs) :
    ∃ pre post, cs = pre ++ (pat ++ post) ∧ base + utf8Length pre = p := by
  induction base, cs using matchIndices.induct pat hpat with
  | case1 base cs hcut =>
    rw [matchIndices_of_none hcut] at h
    nomatch h
  | case2 base cs pre post hcut at' ih =>
    rw [matchIndices_of_some hcut] at h
    rcases List.mem_cons.mp h with rfl | hrest
    · exact ⟨pre, post, eq_of_cutAt hcut, rfl⟩
    · obtain ⟨pre', post', rfl, rfl⟩ := ih hrest
      refine ⟨pre ++ (pat ++ pre'), post', by simp [eq_of_cutAt hcut], ?_⟩
      rw [utf8Length_append, utf8Length_append]
      omega

end Buzz

/-! ## Parts that become blanks -/

namespace Buzz

variable {α : Type*} {blank : α} {w l l' out out' : List α}

/-- Some parts of a list are blanks, and the rest is as it was. -/
inductive Blanked (blank : α) : List α → List α → Prop where
  | nil : Blanked blank [] []
  | keep (a : α) {l out : List α} (rest : Blanked blank l out) : Blanked blank (a :: l) (a :: out)
  | blank (cut : List α) {l out : List α} (rest : Blanked blank l out) :
      Blanked blank (cut ++ l) (blank :: out)

namespace Blanked

theorem append (h : Blanked blank l out) (h' : Blanked blank l' out') :
    Blanked blank (l ++ l') (out ++ out') := by
  induction h with
  | nil => exact h'
  | keep a _ ih => exact .keep a ih
  | blank cut _ ih =>
    rw [List.append_assoc, List.cons_append]
    exact .blank cut ih

theorem snoc (h : Blanked blank l out) (a : α) : Blanked blank (l ++ [a]) (out ++ [a]) :=
  h.append (.keep a .nil)

theorem snoc_blank (h : Blanked blank l out) (cut : List α) :
    Blanked blank (l ++ cut) (out ++ [blank]) := by
  have hcut : Blanked blank (cut ++ []) [blank] := .blank cut .nil
  rw [List.append_nil] at hcut
  exact h.append hcut

theorem isPrefix (h : Blanked blank l out) (hw : blank ∉ w) (hpre : w <+: out) : w <+: l := by
  induction h generalizing w with
  | nil => exact hpre
  | keep a _ ih =>
    rcases List.prefix_cons_iff.mp hpre with rfl | ⟨w, rfl, htail⟩
    · exact List.nil_prefix
    · rw [List.mem_cons, not_or] at hw
      exact List.cons_prefix_cons.mpr ⟨rfl, ih hw.2 htail⟩
  | blank cut _ _ =>
    rcases List.prefix_cons_iff.mp hpre with rfl | ⟨w, rfl, -⟩
    · exact List.nil_prefix
    · exact absurd List.mem_cons_self hw

/-- **Nothing is joined.** What occurs in the result, and has no blank, occurs in the list. -/
theorem isInfix (h : Blanked blank l out) (hw : blank ∉ w) (hin : w <:+: out) : w <:+: l := by
  induction h with
  | nil => exact hin
  | keep a rest ih =>
    rcases List.infix_cons_iff.mp hin with hpre | hrest
    · exact ((rest.keep a).isPrefix hw hpre).isInfix
    · exact List.infix_cons (ih hrest)
  | blank cut rest ih =>
    rcases List.infix_cons_iff.mp hin with hpre | hrest
    · exact ((rest.blank cut).isPrefix hw hpre).isInfix
    · exact (ih hrest).trans (List.suffix_append ..).isInfix

end Blanked

end Buzz
