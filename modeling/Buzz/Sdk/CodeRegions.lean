import Buzz.Lib.TextSlices
import Buzz.Sdk.NipOa

/-!
# Blanking code in a message

Names in code are not mentions. Before a message is scanned for them, each fenced block and each
inline span of code becomes one space. The pass reads the characters with their places and looks
ahead in the text for the end of a block or a span; a place that is no boundary of a character would
stop it.
-/

namespace Buzz.Mentions

open List Option
open NipOa (isAsciiWhitespace)

/-! ### Lines -/

/-- What follows the last line break: `rsplit_once('\n')`. -/
def afterLastNewline (cs : List Char) : Option (List Char) :=
  if '\n' ∈ cs then some (cs.reverse.takeWhile (· != '\n')).reverse else none

/-- Only whitespace follows the last line break, and there is one. -/
def blankSinceNewline (before : List Char) : Bool :=
  (afterLastNewline before).any fun afterNl => afterNl.all isAsciiWhitespace

/-- `find('\n').map_or(content.len(), …)`: where the line ends that is at this place. -/
def lineEnd (content : List Char) (p : ℕ) : Option ℕ := do
  let rest ← dropBytes content p
  return (findText ['\n'] rest).elim (utf8Length content) fun q => p + q + 1

/-! ### Fenced blocks -/

def fence : List Char := ['\x60', '\x60', '\x60']

def isFenceStart (content : List Char) (i : ℕ) : Option Bool :=
  if i = 0 then some true
  else do
    let before ← takeBytes content i
    return before.getLast? == some '\n' || before.all isAsciiWhitespace || blankSinceNewline before

def atLineStart (content : List Char) (absPos : ℕ) : Option Bool :=
  if absPos = 0 then some true
  else do
    let byte ← (encode content)[absPos - 1]?
    if byte = 10 then return true
    let before ← takeBytes content absPos
    return blankSinceNewline before

/-- The loop that finds the closing fence: `close_end`. -/
def closeEnd (content : List Char) (searchFrom : ℕ) : Option ℕ :=
  if _h : utf8Length content ≤ searchFrom then some (utf8Length content)
  else do
    let rest ← dropBytes content searchFrom
    match findText fence rest with
    | none => some (utf8Length content)
    | some pos =>
      let absPos := searchFrom + pos
      if ← atLineStart content absPos then lineEnd content (absPos + 3)
      else closeEnd content (absPos + 3)
termination_by utf8Length content - searchFrom

/-- Where the fenced block ends that begins here, if one does. -/
def fenceEnd (content : List Char) (i : ℕ) : Option (Option ℕ) := do
  let tail ← dropBytes content i
  if fence.isPrefixOf tail then
    if ← isFenceStart content i then
      let line ← lineEnd content (i + 3)
      let stop ← closeEnd content line
      return some stop
    else return none
  else return none

/-! ### Inline spans -/

/-- Where the closing backtick is of the span that begins here, if one does. -/
def spanEnd (content : List Char) (i : ℕ) : Option (Option ℕ) :=
  let afterTick := i + 1
  if afterTick < utf8Length content then do
    let tail ← dropBytes content afterTick
    match findText ['\x60'] tail with
    | none => return none
    | some relEnd =>
      let closePos := afterTick + relEnd
      let span ← sliceBytes content afterTick closePos
      if '\n' ∈ span then return none else return some closePos
  else some none

/-! ### The iterator -/

/-- `char_indices().peekable()`: what has been read and what has not. -/
structure CharIndices (content : List Char) where
  before : List Char
  rest : List Char
  split : before ++ rest = content

namespace CharIndices

variable {content : List Char}

def start (content : List Char) : CharIndices content := ⟨[], content, rfl⟩

/-- The place of the next character. -/
def offset (it : CharIndices content) : ℕ := utf8Length it.before

def peek (it : CharIndices content) : Option (ℕ × Char) := it.rest.head?.map fun c => (it.offset, c)

def next : CharIndices content → CharIndices content
  | ⟨before, [], split⟩ => ⟨before, [], split⟩
  | ⟨before, c :: rest, split⟩ => ⟨before ++ [c], rest, by simpa using split⟩

/-- The loop that calls `next` while the next place is before this one. -/
def advance (stop : ℕ) (it : CharIndices content) : CharIndices content :=
  match _h : it.rest with
  | [] => it
  | _ :: _ => if stop ≤ it.offset then it else advance stop it.next
termination_by it.rest.length
decreasing_by
  obtain ⟨before, rest, split⟩ := it
  cases _h
  exact Nat.lt_succ_self _

end CharIndices

/-! ### The pass -/

/-- The text left, and what was kept so far. -/
structure Stripping (content : List Char) where
  chars : CharIndices content
  out : List Char

namespace Stripping

variable {content : List Char}

/-- A space, and the iterator moved up to this place. -/
def skipTo (stop : ℕ) (s : Stripping content) : Stripping content :=
  ⟨s.chars.advance stop, s.out ++ [' ']⟩

/-- One turn of the loop: `some none` where the loop is left, `none` where a slice does not exist. -/
def step (s : Stripping content) : Option (Option (Stripping content)) :=
  match s.chars.peek with
  | none => some none
  | some (i, ch) => do
    if ch = '\x60' then
      if let some stop ← fenceEnd content i then return some (s.skipTo stop)
      if let some closePos ← spanEnd content i then return some (s.skipTo (closePos + 1))
    return some ⟨s.chars.next, s.out ++ [ch]⟩

end Stripping

/-! ### Places that are found -/

variable {content : List Char} {i p stop : ℕ}

/-- **The end of a line** is a good place, and not before where it was looked for. -/
theorem lineEnd_spec (h : isCharBoundary content p = true) :
    ∃ stop, lineEnd content p = some stop ∧ p ≤ stop ∧ isCharBoundary content stop = true := by
  obtain ⟨pre, post, rfl, rfl, -, hpost⟩ := exists_slices h
  rw [lineEnd, hpost, bind_eq_bind, bind_some]
  cases hfind : findText ['\n'] post with
  | none =>
    refine ⟨_, rfl, ?_, isCharBoundary_length _⟩
    exact le_of_isCharBoundary h
  | some q =>
    have hstop := (isCharBoundary_of_findText hpost hfind).2
    refine ⟨_, rfl, ?_, hstop⟩
    show utf8Length pre ≤ utf8Length pre + q + 1
    omega

theorem exists_atLineStart (h : isCharBoundary content p = true) :
    ∃ b, atLineStart content p = some b := by
  obtain ⟨pre, post, rfl, rfl, hpre, -⟩ := exists_slices h
  rw [atLineStart]
  split
  · exact ⟨true, rfl⟩
  · next hne =>
    have hlt : utf8Length pre - 1 < (encode (pre ++ post)).length := by
      have hle := le_of_isCharBoundary h
      show utf8Length pre - 1 < utf8Length (pre ++ post)
      omega
    rw [getElem?_eq_getElem hlt, hpre]
    simp only [bind_eq_bind, bind_some]
    split
    · exact ⟨true, rfl⟩
    · exact ⟨_, rfl⟩

/-- **The search for the end of a block** ends, and not before where it began. -/
theorem closeEnd_spec (h : isCharBoundary content p = true) :
    ∃ stop, closeEnd content p = some stop ∧ p ≤ stop := by
  induction p using closeEnd.induct content with
  | case1 p hend =>
    rw [closeEnd, dif_pos hend]
    exact ⟨_, rfl, le_of_isCharBoundary h⟩
  | case2 p hend ih =>
    obtain ⟨pre, post, rfl, rfl, -, hpost⟩ := exists_slices h
    rw [closeEnd, dif_neg hend, hpost, bind_eq_bind, bind_some]
    cases hfind : findText fence post with
    | none => exact ⟨_, rfl, le_of_isCharBoundary h⟩
    | some q =>
      obtain ⟨hfound, hbehind⟩ := isCharBoundary_of_findText hpost hfind
      obtain ⟨b, hb⟩ := exists_atLineStart hfound
      have hfence : utf8Length fence = 3 := by decide
      rw [hfence] at hbehind
      simp only [hb, bind_eq_bind, bind_some]
      cases b with
      | true =>
        obtain ⟨stop, hstop, hle, -⟩ := lineEnd_spec hbehind
        exact ⟨stop, hstop, by omega⟩
      | false =>
        obtain ⟨stop, hstop, hle⟩ := ih q hbehind
        exact ⟨stop, hstop, by omega⟩

theorem fenceEnd_spec (h : isCharBoundary content i = true) :
    ∃ found, fenceEnd content i = some found ∧ ∀ stop ∈ found, i < stop := by
  obtain ⟨pre, post, rfl, rfl, hpre, hpost⟩ := exists_slices h
  have hstart : ∃ b, isFenceStart (pre ++ post) (utf8Length pre) = some b := by
    rw [isFenceStart]
    split
    · exact ⟨true, rfl⟩
    · rw [hpre]
      exact ⟨_, rfl⟩
  rw [fenceEnd, hpost, bind_eq_bind, bind_some]
  split
  · next hfence =>
    obtain ⟨rest, rfl⟩ := isPrefixOf_iff_prefix.mp hfence
    have hbehind : isCharBoundary (pre ++ (fence ++ rest)) (utf8Length pre + 3) = true := by
      have hlength : utf8Length fence = 3 := by decide
      rw [← hlength, ← utf8Length_append, ← append_assoc]
      exact isCharBoundary_append _ rest
    obtain ⟨b, hb⟩ := hstart
    obtain ⟨line, hline, hle, hgood⟩ := lineEnd_spec hbehind
    obtain ⟨stop, hstop, hle'⟩ := closeEnd_spec hgood
    simp only [hb, hline, hstop, bind_eq_bind, bind_some]
    cases b with
    | true =>
      refine ⟨some stop, rfl, fun stop' hmem => ?_⟩
      cases hmem
      omega
    | false => exact ⟨none, rfl, nofun⟩
  · exact ⟨none, rfl, nofun⟩

theorem spanEnd_spec (pre post : List Char) :
    ∃ found, spanEnd (pre ++ ('\x60' :: post)) (utf8Length pre) = some found ∧
      ∀ stop ∈ found, utf8Length pre ≤ stop := by
  have htick : utf8Length (pre ++ ['\x60']) = utf8Length pre + 1 := by
    rw [utf8Length_append]
    rfl
  have hsplit : pre ++ ('\x60' :: post) = (pre ++ ['\x60']) ++ post := by simp
  rw [spanEnd]
  rw [← htick, hsplit]
  split
  · rw [dropBytes_append, bind_eq_bind, bind_some]
    cases hfind : findText ['\x60'] post with
    | none => exact ⟨none, rfl, nofun⟩
    | some q =>
      obtain ⟨span, rest, rfl, rfl⟩ := findText_eq_some hfind
      dsimp only
      rw [sliceBytes_append, bind_some]
      split
      · exact ⟨none, rfl, nofun⟩
      · refine ⟨some _, rfl, fun stop hmem => ?_⟩
        cases hmem
        omega
  · exact ⟨none, rfl, nofun⟩

/-! ### Reading -/

namespace CharIndices

theorem isCharBoundary_offset (it : CharIndices content) :
    isCharBoundary content it.offset = true := by
  obtain ⟨before, rest, rfl⟩ := it
  exact isCharBoundary_append before rest

variable {it : CharIndices content}

theorem before_of_rest_nil (h : it.rest = []) : it.before = content := by
  obtain ⟨before, rest, rfl⟩ := it
  obtain rfl : rest = [] := h
  exact (append_nil before).symm

theorem next_of_rest {c : Char} {cs : List Char} (h : it.rest = c :: cs) :
    it.next.before = it.before ++ [c] ∧ it.next.rest = cs := by
  obtain ⟨before, rest, split⟩ := it
  subst h
  exact ⟨rfl, rfl⟩

theorem advance_spec (stop : Nat) (it : CharIndices content) :
    ∃ read, (it.advance stop).before = it.before ++ read ∧
      it.rest = read ++ (it.advance stop).rest := by
  induction it using advance.induct stop with
  | case1 it h =>
    rw [advance]
    split
    · exact ⟨[], by simp⟩
    · next h' => nomatch h.symm.trans h'
  | case2 it c cs h hle =>
    rw [advance]
    split
    · exact ⟨[], by simp⟩
    · rw [if_pos hle]
      exact ⟨[], by simp⟩
  | case3 it c cs h hlt ih =>
    obtain ⟨read, hbefore, hrest⟩ := ih
    obtain ⟨hnext, hcs⟩ := next_of_rest h
    rw [advance]
    split
    · next h' => nomatch h.symm.trans h'
    · rw [if_neg hlt]
      refine ⟨c :: read, ?_, ?_⟩
      · rw [hbefore, hnext]
        simp
      · rw [h, ← hcs, hrest]
        rfl

theorem advance_of_lt {c : Char} {cs : List Char} (h : it.rest = c :: cs) (hlt : it.offset < stop) :
    it.advance stop = it.next.advance stop := by
  rw [advance]
  split
  · next h' => nomatch h.symm.trans h'
  · rw [if_neg (Nat.not_le_of_lt hlt)]

end CharIndices

namespace Stripping

variable {s s' : Stripping content}

/-- One turn reads something, and copies it or leaves a space. -/
structure Reads (s s' : Stripping content) (read : List Char) : Prop where
  ne_nil : read ≠ []
  before : s'.chars.before = s.chars.before ++ read
  rest : s.chars.rest = read ++ s'.chars.rest
  out : s'.out = s.out ++ [' '] ∨ ∃ c, read = [c] ∧ s'.out = s.out ++ [c]

theorem exists_reads_skipTo {c : Char} {cs : List Char} (h : s.chars.rest = c :: cs)
    (hlt : s.chars.offset < stop) : ∃ read, Reads s (s.skipTo stop) read := by
  obtain ⟨hnext, hcs⟩ := CharIndices.next_of_rest h
  obtain ⟨read, hbefore, hrest⟩ := CharIndices.advance_spec stop s.chars.next
  refine ⟨c :: read, cons_ne_nil _ _, ?_, ?_, .inl rfl⟩
  · rw [skipTo, CharIndices.advance_of_lt h hlt, hbefore, hnext]
    simp
  · rw [skipTo, CharIndices.advance_of_lt h hlt, h, ← hcs, hrest]
    rfl

/-- **One turn of the loop** reads something, as long as there is something, and never stops. -/
theorem step_spec (s : Stripping content) :
    (s.chars.rest = [] ∧ s.step = some none) ∨
      ∃ s' read, s.step = some (some s') ∧ Reads s s' read := by
  cases hrest : s.chars.rest with
  | nil =>
    refine .inl ⟨rfl, ?_⟩
    rw [step, CharIndices.peek, hrest]
    rfl
  | cons c cs =>
    refine .inr ?_
    have hsplit := s.chars.split
    rw [hrest] at hsplit
    have hcopy : Reads s ⟨s.chars.next, s.out ++ [c]⟩ [c] := by
      obtain ⟨hnext, hcs⟩ := CharIndices.next_of_rest hrest
      exact ⟨cons_ne_nil _ _, hnext, by rw [hrest, hcs]; rfl, .inr ⟨c, rfl, rfl⟩⟩
    rw [step, CharIndices.peek, hrest]
    simp only [head?_cons, map_some]
    split
    · next htick =>
      subst htick
      obtain ⟨block, hblock, hblockEnd⟩ := fenceEnd_spec s.chars.isCharBoundary_offset
      obtain ⟨span, hspan, hspanEnd⟩ := spanEnd_spec s.chars.before cs
      rw [hsplit] at hspan
      have hspan' : spanEnd content s.chars.offset = some span := hspan
      simp only [hblock, hspan', bind_eq_bind, bind_some]
      cases block with
      | some stop =>
        obtain ⟨read, hread⟩ := exists_reads_skipTo hrest (hblockEnd stop rfl)
        exact ⟨_, read, rfl, hread⟩
      | none =>
        cases span with
        | some closePos =>
          obtain ⟨read, hread⟩ :=
            exists_reads_skipTo hrest (Nat.lt_succ_of_le (hspanEnd closePos rfl))
          exact ⟨_, read, rfl, hread⟩
        | none => exact ⟨_, _, rfl, hcopy⟩
    · exact ⟨_, [c], rfl, hcopy⟩

theorem length_step (h : s.step = some (some s')) :
    s'.chars.rest.length < s.chars.rest.length := by
  rcases s.step_spec with ⟨-, hnone⟩ | ⟨s'', read, hstep, hreads⟩
  · nomatch hnone.symm.trans h
  · cases hstep.symm.trans h
    have hpos := length_pos_iff.mpr hreads.ne_nil
    rw [hreads.rest, length_append]
    omega

end Stripping

def stripping (s : Stripping content) : Option (List Char) :=
  match _h : s.step with
  | none => none
  | some none => some s.out
  | some (some s') => stripping s'
termination_by s.chars.rest.length
decreasing_by exact Stripping.length_step _h

/-- `strip_code_regions`; `none` where a slice does not exist. -/
def stripCodeRegions (content : List Char) : Option (List Char) := stripping ⟨.start content, []⟩

theorem Stripping.Reads.blanked {s s' : Stripping content} {read : List Char}
    (hreads : s.Reads s' read) (h : Blanked ' ' s.chars.before s.out) :
    Blanked ' ' s'.chars.before s'.out := by
  rw [hreads.before]
  rcases hreads.out with hout | ⟨c, rfl, hout⟩
  · rw [hout]
    exact h.snoc_blank read
  · rw [hout]
    exact h.snoc c

theorem stripping_spec (s : Stripping content) (h : Blanked ' ' s.chars.before s.out) :
    ∃ out, stripping s = some out ∧ Blanked ' ' content out := by
  induction s using stripping.induct with
  | case1 s hstep =>
    rcases s.step_spec with ⟨-, hnone⟩ | ⟨s', read, hsome, -⟩
    · nomatch hstep.symm.trans hnone
    · nomatch hstep.symm.trans hsome
  | case2 s hstep =>
    have hrest : s.chars.rest = [] := by
      rcases s.step_spec with ⟨hnil, -⟩ | ⟨s', read, hsome, -⟩
      · exact hnil
      · nomatch hstep.symm.trans hsome
    rw [CharIndices.before_of_rest_nil hrest] at h
    rw [stripping]
    split
    · next hnone => nomatch hstep.symm.trans hnone
    · exact ⟨_, rfl, h⟩
    · next hsome => nomatch hstep.symm.trans hsome
  | case3 s s' hstep ih =>
    rcases s.step_spec with ⟨-, hnone⟩ | ⟨s'', read, hsome, hreads⟩
    · nomatch hstep.symm.trans hnone
    · cases hsome.symm.trans hstep
      rw [stripping]
      split
      · next hnone => nomatch hstep.symm.trans hnone
      · next hnone => nomatch hstep.symm.trans hnone
      · next hsome' =>
        cases hstep.symm.trans hsome'
        exact ih (hreads.blanked h)

/-- **The pass** ends on every text, and only leaves spaces in the place of parts of it. -/
theorem stripCodeRegions_spec (content : List Char) :
    ∃ out, stripCodeRegions content = some out ∧ Blanked ' ' content out :=
  stripping_spec ⟨.start content, []⟩ .nil

end Buzz.Mentions
