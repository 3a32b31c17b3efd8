import Buzz.Core.Text

/-!
# Ref patterns

A pattern is a path of segments: literals, `*` for any one segment, and at the end possibly `**` for
one or more. A recursive wildcard in another place cannot be matched at all, so a pattern carries the
fact that it has none; parsing establishes it.
-/

namespace Buzz.Git

open List

/-- Maximum character length of a ref pattern. -/
def maxPatternLength : Nat := 256

/-- Maximum number of wildcard segments per pattern. -/
def maxWildcardsPerPattern : Nat := 3

inductive PatternSegment where
  | literal (s : String)
  | wildcard
  | recursiveWildcard
  deriving DecidableEq

inductive PatternError where
  | empty
  | tooLong
  | missingRefsPrefix
  | invalidSegment (s : String)
  | tooManyWildcards

def pathSegments (s : String) : List String := (s.toList.splitOn '/').map String.ofList

/-- A pattern, its recursive wildcard at the end if it has one. -/
structure RefPattern where
  raw : String
  segments : List PatternSegment
  recursive_last : ∀ s ∈ segments.dropLast, s ≠ .recursiveWildcard

/-! ### Parsing -/

/-- A segment that is not a wildcard. -/
def parseLiteral (part : String) : Except PatternError PatternSegment :=
  if part.isEmpty then .error (.invalidSegment "")
  else if containsStr part "*" || containsStr part "?" || containsStr part "[" ||
      containsStr part "]" then
    .error (.invalidSegment part)
  else if !part.toList.all fun c => isAsciiAlphanumeric c || c == '.' || c == '_' || c == '-' then
    .error (.invalidSegment part)
  else .ok (.literal part)

/-- The loop of `parse`, after so many wildcards. -/
def parseSegments : Nat → List String → Except PatternError (List PatternSegment)
  | _, [] => .ok []
  | wildcards, part :: rest =>
    if part = "**" then
      if rest ≠ [] then .error (.invalidSegment "** must be the last segment")
      else if maxWildcardsPerPattern < wildcards + 1 then .error .tooManyWildcards
      else .ok [.recursiveWildcard]
    else if part = "*" then
      if maxWildcardsPerPattern < wildcards + 1 then .error .tooManyWildcards
      else (parseSegments (wildcards + 1) rest).map (PatternSegment.wildcard :: ·)
    else
      match parseLiteral part with
      | .error e => .error e
      | .ok segment => (parseSegments wildcards rest).map (segment :: ·)

variable {segment : PatternSegment}

theorem parseLiteral_ok {part : String} (h : parseLiteral part = .ok segment) :
    segment = .literal part := by
  rw [parseLiteral] at h
  split at h
  · nomatch h
  split at h
  · nomatch h
  split at h
  · nomatch h
  · exact (Except.ok.inj h).symm

theorem map_ok {ε α β : Type} {f : α → β} {x : Except ε α} {b : β} (h : x.map f = .ok b) :
    ∃ a, x = .ok a ∧ f a = b := by
  cases x with
  | error e => nomatch h
  | ok a => exact ⟨a, rfl, Except.ok.inj h⟩

variable {segments : List PatternSegment}

theorem ne_of_mem_dropLast_cons (hsegment : segment ≠ .recursiveWildcard)
    (h : ∀ s ∈ segments.dropLast, s ≠ .recursiveWildcard) :
    ∀ s ∈ (segment :: segments).dropLast, s ≠ .recursiveWildcard := by
  cases segments with
  | nil => simp
  | cons next segments =>
    rw [dropLast_cons_cons]
    intro s hs
    rcases mem_cons.mp hs with rfl | hs
    · exact hsegment
    · exact h s hs

/-- What the loop accepts recurses in its last segment only. -/
theorem recursive_last_of_parseSegments {wildcards : Nat} {parts : List String}
    (h : parseSegments wildcards parts = .ok segments) :
    ∀ s ∈ segments.dropLast, s ≠ .recursiveWildcard := by
  induction parts generalizing wildcards segments with
  | nil =>
    cases h
    simp
  | cons part rest ih =>
    rw [parseSegments] at h
    split at h
    · split at h
      · nomatch h
      split at h
      · nomatch h
      · cases h
        simp
    split at h
    · split at h
      · nomatch h
      · obtain ⟨segments, hrest, rfl⟩ := map_ok h
        exact ne_of_mem_dropLast_cons (by simp) (ih hrest)
    · split at h
      · nomatch h
      · next segment hliteral =>
        obtain rfl := parseLiteral_ok hliteral
        obtain ⟨segments, hrest, rfl⟩ := map_ok h
        exact ne_of_mem_dropLast_cons (by simp) (ih hrest)

namespace RefPattern

/-- Parse and validate a ref pattern string. -/
def parse (pattern : String) : Except PatternError RefPattern :=
  if pattern.isEmpty then .error .empty
  else if maxPatternLength < pattern.utf8ByteSize then .error .tooLong
  else if !startsWith pattern "refs/" then .error .missingRefsPrefix
  else
    match h : parseSegments 0 (pathSegments pattern) with
    | .error e => .error e
    | .ok segments => .ok ⟨pattern, segments, recursive_last_of_parseSegments h⟩

/-! ### Matching -/

/-- Does a segment of a pattern match a segment of a ref? -/
def matchesSegment : PatternSegment → String → Bool
  | .wildcard, _ => true
  | .literal lit, seg => lit == seg
  -- the caller takes the recursive wildcard off the end, and there is no other one
  | .recursiveWildcard, _ => false

/-- Do the segments of a pattern match as many segments of a ref? -/
def matchesAll (segments : List PatternSegment) (refSegments : List String) : Bool :=
  (segments.zip refSegments).all fun x => matchesSegment x.1 x.2

/-- Test whether a pattern matches a ref name, segment by segment. -/
def matchesRef (p : RefPattern) (refName : String) : Bool :=
  let refSegments := pathSegments refName
  if p.segments.getLast? = some .recursiveWildcard then
    let prefixLen := p.segments.length - 1
    if refSegments.length ≤ prefixLen then false
    else matchesAll (p.segments.take prefixLen) (refSegments.take prefixLen)
  else if refSegments.length ≠ p.segments.length then false
  else matchesAll p.segments refSegments

/-! ### What a pattern covers -/

/-- The segments of a pattern cover the segments of a ref. -/
inductive Covers : List PatternSegment → List String → Prop where
  | nil : Covers [] []
  | literal (s : String) {segments : List PatternSegment} {refSegments : List String}
      (h : Covers segments refSegments) : Covers (.literal s :: segments) (s :: refSegments)
  | wildcard (s : String) {segments : List PatternSegment} {refSegments : List String}
      (h : Covers segments refSegments) : Covers (.wildcard :: segments) (s :: refSegments)
  /-- A recursive wildcard covers all that is left, if there is anything. -/
  | recursiveWildcard {refSegments : List String} (h : refSegments ≠ []) :
      Covers [.recursiveWildcard] refSegments

theorem matchesAll_cons (segment : PatternSegment) (segments : List PatternSegment) (s : String)
    (refSegments : List String) : matchesAll (segment :: segments) (s :: refSegments) =
      (matchesSegment segment s && matchesAll segments refSegments) := rfl

theorem covers_append_iff {segments : List PatternSegment}
    (h : ∀ s ∈ segments, s ≠ .recursiveWildcard) (rest : List PatternSegment)
    (refSegments : List String) : Covers (segments ++ rest) refSegments ↔
      segments.length ≤ refSegments.length ∧
        matchesAll segments (refSegments.take segments.length) = true ∧
          Covers rest (refSegments.drop segments.length) := by
  induction segments generalizing refSegments with
  | nil => simp [matchesAll]
  | cons segment segments ih =>
    have hrest : ∀ s ∈ segments, s ≠ .recursiveWildcard :=
      fun s hs => h s (mem_cons_of_mem segment hs)
    rw [cons_append]
    cases refSegments with
    | nil =>
      constructor
      · intro hcovers
        generalize segments ++ rest = all at hcovers
        cases hcovers with
        | recursiveWildcard hne => exact absurd rfl hne
      · rintro ⟨hlength, -⟩
        exact absurd hlength (Nat.not_succ_le_zero _)
    | cons s refSegments =>
      have hstep := ih hrest refSegments
      simp only [length_cons, take_succ_cons, drop_succ_cons, matchesAll_cons,
        Bool.and_eq_true, Nat.succ_le_succ_iff]
      cases segment with
      | literal lit =>
        constructor
        · intro hcovers
          cases hcovers with
          | literal _ hcovers =>
            obtain ⟨hlength, hall, hdrop⟩ := hstep.mp hcovers
            exact ⟨hlength, ⟨beq_self_eq_true _, hall⟩, hdrop⟩
        · rintro ⟨hlength, ⟨hlit, hall⟩, hdrop⟩
          obtain rfl := eq_of_beq hlit
          exact .literal _ (hstep.mpr ⟨hlength, hall, hdrop⟩)
      | wildcard =>
        constructor
        · intro hcovers
          cases hcovers with
          | wildcard _ hcovers =>
            obtain ⟨hlength, hall, hdrop⟩ := hstep.mp hcovers
            exact ⟨hlength, ⟨rfl, hall⟩, hdrop⟩
        · rintro ⟨hlength, ⟨-, hall⟩, hdrop⟩
          exact .wildcard s (hstep.mpr ⟨hlength, hall, hdrop⟩)
      | recursiveWildcard => exact absurd rfl (h _ mem_cons_self)

variable {refSegments : List String}

theorem covers_nil_iff : Covers [] refSegments ↔ refSegments = [] := by
  constructor
  · intro h
    cases h
    rfl
  · rintro rfl
    exact .nil

theorem covers_recursive_iff : Covers [.recursiveWildcard] refSegments ↔ refSegments ≠ [] := by
  constructor
  · intro h
    cases h with
    | recursiveWildcard h => exact h
  · exact .recursiveWildcard

/-- **A pattern matches the refs whose segments it covers.** -/
theorem matchesRef_iff (p : RefPattern) (refName : String) :
    p.matchesRef refName = true ↔ Covers p.segments (pathSegments refName) := by
  generalize hsegments : pathSegments refName = refSegments
  rw [matchesRef, hsegments]
  by_cases hlast : p.segments.getLast? = some .recursiveWildcard
  · have hsplit := dropLast_append_getLast? _ hlast
    have hcovers := covers_append_iff p.recursive_last [.recursiveWildcard] refSegments
    rw [hsplit, covers_recursive_iff, length_dropLast] at hcovers
    rw [hcovers]
    simp only [if_pos hlast, ← dropLast_eq_take, ne_eq, drop_eq_nil_iff, not_le]
    by_cases hlong : refSegments.length ≤ p.segments.length - 1
    · rw [if_pos hlong]
      simp only [Bool.false_eq_true, false_iff, not_and, not_lt]
      exact fun _ _ => hlong
    · rw [if_neg hlong]
      have hlt := Nat.lt_of_not_le hlong
      exact ⟨fun hall => ⟨hlt.le, hall, hlt⟩, fun h => h.2.1⟩
  · have hne : ∀ s ∈ p.segments, s ≠ .recursiveWildcard := by
      intro s hs hrecursive
      rcases eq_nil_or_concat p.segments with hnil | ⟨init, last, hinit⟩
      · rw [hnil] at hs
        nomatch hs
      · have hwell := p.recursive_last
        rw [concat_eq_append] at hinit
        rw [hinit] at hs hlast hwell
        rw [dropLast_concat] at hwell
        rcases mem_append.mp hs with hs | hs
        · exact hwell s hs hrecursive
        · rw [mem_singleton.mp hs] at hrecursive
          exact hlast (by rw [getLast?_concat, hrecursive])
    have hcovers := covers_append_iff hne [] refSegments
    rw [append_nil, covers_nil_iff, drop_eq_nil_iff] at hcovers
    rw [hcovers]
    simp only [if_neg hlast]
    by_cases hlength : refSegments.length = p.segments.length
    · rw [if_neg (not_not_intro hlength), ← hlength, take_length]
      exact ⟨fun hall => ⟨le_refl _, hall, le_refl _⟩, fun h => h.2.1⟩
    · rw [if_pos hlength]
      simp only [Bool.false_eq_true, false_iff, not_and]
      intro hle _ hge
      exact hlength (Nat.le_antisymm hge hle)

end RefPattern

end Buzz.Git
