import Mathlib.Data.List.ReduceOption
import Buzz.Lib.OrderedSet
import Buzz.Sdk.CodeRegions

/-!
# Mentions in a message

A message mentions somebody by `@name` or by a URI with a public key. Names end where a word does,
unless it is known which names there are: then the longest of them counts that the text goes on
with, spaces included. URIs are looked for in the text without its code.

The scanners read the text at places they compute, and none of them ever reads outside of it or
inside a character.
-/

namespace Buzz.Mentions

open List Option
open NipOa (isAsciiWhitespace)

/-! ### Names of one word -/

def isNameChar (c : Char) : Bool := isAsciiAlphanumeric c || c == '.' || c == '-' || c == '_'

def toAsciiLowercase (cs : List Char) : List Char := cs.map Char.toLower

/-- The inner loop: `end` goes up to the first character that is not one of a name. -/
def nameEnd (chars : List Char) (stop : ℕ) : ℕ :=
  if h : stop < chars.length then
    if isNameChar chars[stop] then nameEnd chars (stop + 1) else stop
  else stop
termination_by chars.length - stop

/-- `chars[a..b]`. -/
def sliceChars (chars : List Char) (a b : ℕ) : Option (List Char) :=
  if a ≤ b ∧ b ≤ chars.length then some ((chars.take b).drop a) else none

def precededByWs (chars : List Char) (i : ℕ) : Option Bool :=
  if i = 0 then some true else chars[i - 1]?.map isAsciiWhitespace

/-- One turn of the outer loop: the name that begins here, if one does. -/
def nameAt (chars : List Char) (i : ℕ) : Option (Option (List Char)) := do
  let c ← chars[i]?
  if c ≠ '@' then return none
  if !(← precededByWs chars i) || decide (chars.length ≤ i + 1) then return none
  let stop := nameEnd chars (i + 1)
  if stop ≤ i + 1 then return none
  let name ← sliceChars chars (i + 1) stop
  return some (toAsciiLowercase name)

/-- The outer loop. `seen` has what `names` has. -/
def namesLoop (chars : List Char) (i : ℕ) (names : List (List Char)) : Option (List (List Char)) :=
  if _h : i < chars.length then do
    match ← nameAt chars i with
    | none => namesLoop chars (i + 1) names
    | some lower => namesLoop chars (i + 1) (pushNew names lower)
  else some names
termination_by chars.length - i

/-- `extract_at_names`; `none` where an index is out of range. -/
def extractAtNames (content : List Char) : Option (List (List Char)) :=
  if content.isEmpty || !content.contains '@' then some [] else namesLoop content 0 []

/-! ### Names that are known -/

def isWordBoundary (s : List Char) : Bool :=
  s.head?.all fun c =>
    isAsciiWhitespace c || [',', ';', '.', '!', '?', ':', ')', ']', '}'].contains c

def eqIgnoreAsciiCase (a b : List Char) : Bool := toAsciiLowercase a == toAsciiLowercase b

/-- `u8::is_ascii_whitespace`. -/
def isAsciiWhitespaceByte (b : UInt8) : Bool := b == 32 || b == 9 || b == 10 || b == 12 || b == 13

/-- `n.trim().is_empty()`. -/
def isBlank (name : List Char) : Bool := trim (String.ofList name) == ""

def sortedNames (known : List (List Char)) : List (List Char) :=
  (known.filter fun n => !isBlank n).mergeSort fun a b => decide (utf8Length b ≤ utf8Length a)

/-- The text goes on with this name. -/
def goesOnWith (rest name : List Char) : Option Bool :=
  match takeBytes rest (utf8Length name) with
  | none => some false
  | some s =>
    if eqIgnoreAsciiCase s name then (dropBytes rest (utf8Length name)).map isWordBoundary
    else some false

/-- `sorted.iter().find(…)`. -/
def findName (rest : List Char) : List (List Char) → Option (Option (List Char))
  | [] => some none
  | name :: names => do if ← goesOnWith rest name then return some name else findName rest names

def preceded (content : List Char) (i : ℕ) : Option Bool :=
  if i = 0 then some true else (encode content)[i - 1]?.map isAsciiWhitespaceByte

/-- The name of one word, from its place. -/
def sliceToken (rest : List Char) : Option (Option (List Char)) :=
  let stop := (findChar (fun c => !isNameChar c) rest).getD (utf8Length rest)
  if stop = 0 then some none else (takeBytes rest stop).map fun s => some (toAsciiLowercase s)

/-- One turn of the loop: the name that the `@` at this place contributes, if it does. -/
def mentionAt (content : List Char) (sorted : List (List Char)) (i : ℕ) :
    Option (Option (List Char)) := do
  if !(← preceded content i) then return none
  let rest ← dropBytes content (i + 1)
  if rest.isEmpty then return none
  match ← findName rest sorted with
  | some name => return some (toAsciiLowercase name)
  | none => sliceToken rest

/-- A loop over places: what a place gives is added, if it is new. -/
def collectNew {α : Type} [DecidableEq α] (f : ℕ → Option (Option α)) :
    List ℕ → List α → Option (List α)
  | [], found => some found
  | i :: is, found => do
    match ← f i with
    | none => collectNew f is found
    | some a => collectNew f is (pushNew found a)

/-- `extract_at_mentions_with_known`; `none` where a slice does not exist. -/
def extractAtMentionsWithKnown (content : List Char) (known : List (List Char)) :
    Option (List (List Char)) :=
  if content.isEmpty || !content.contains '@' then some []
  else
    collectNew (mentionAt content (sortedNames known))
      (matchIndices ['@'] (cons_ne_nil _ _) 0 content) []

/-! ### URIs -/

def scheme : List Char := ['n', 'o', 's', 't', 'r', ':']

def npub1 : List Char := ['n', 'p', 'u', 'b', '1']

def isBech32Char (c : Char) : Bool :=
  (decide ('0' ≤ c) && decide (c ≤ '9')) || (decide ('a' ≤ c) && decide (c ≤ 'z')) ||
    (decide ('A' ≤ c) && decide (c ≤ 'Z'))

def bech32SuffixLen : ℕ := 58

section

-- `PublicKey::from_bech32`
variable (fromBech32 : List Char → Option PublicKey)

/-- One turn of the loop: the key of the URI that begins here, if one does. -/
def uriAt (content : List Char) (start : ℕ) : Option (Option String) :=
  let bech32Start := start + 6
  let bech32End := bech32Start + 5 + bech32SuffixLen
  if utf8Length content < bech32End || !isCharBoundary content bech32End then some none
  else do
    let candidate ← sliceBytes content bech32Start bech32End
    if !candidate.all isBech32Char then return none
    return (fromBech32 (toAsciiLowercase candidate)).map toHex

/-- `extract_nostr_uris`; `none` where a slice does not exist. -/
def extractNostrUris (content : List Char) : Option (List String) :=
  collectNew (uriAt fromBech32 content)
    (matchIndices (scheme ++ npub1) (cons_ne_nil _ _) 0 content) []

end

/-! ### What a mention is -/

/-- What follows each `@` that may begin a mention: one at the start, or after whitespace. The first
argument is the character before. -/
def mentionSites : Option Char → List Char → List (List Char)
  | _, [] => []
  | prev, c :: cs =>
    if c = '@' ∧ prev.all isAsciiWhitespace then cs :: mentionSites (some c) cs
    else mentionSites (some c) cs

/-- The name of one word that a text goes on with. -/
def token (rest : List Char) : Option (List Char) :=
  let name := rest.takeWhile isNameChar
  if name = [] then none else some (toAsciiLowercase name)

/-- The text goes on with the name in other cases, and a word ends there. -/
def Follows (name rest : List Char) : Prop :=
  ∃ text after, rest = text ++ after ∧ toAsciiLowercase text = toAsciiLowercase name ∧
    isWordBoundary after = true

/-- The name that a mention is, when what follows the `@` is this. -/
inductive Contributes (known : List (List Char)) (rest : List Char) : Option (List Char) → Prop where
  | known {name : List Char} (mem : name ∈ known) (follows : Follows name rest)
      (longest : ∀ other ∈ known, Follows other rest → other.length ≤ name.length) :
      Contributes known rest (some (toAsciiLowercase name))
  | token (none : ∀ name ∈ known, ¬Follows name rest) : Contributes known rest (token rest)

/-- A text of the form of a URI with a key. -/
def IsUri (uri candidate : List Char) : Prop :=
  uri = scheme ++ candidate ∧ npub1 <+: candidate ∧ candidate.length = 5 + bech32SuffixLen ∧
    ∀ c ∈ candidate, isBech32Char c = true

variable {cs rest pre post name other : List Char} {known names : List (List Char)}

/-! ### Case -/

theorem utf8Size_toLower (c : Char) : c.toLower.utf8Size = c.utf8Size := by
  delta Char.toLower
  split
  · next h =>
    have hle : c.val.toNat ≤ 90 := UInt32.le_iff_toNat_le.mp h.2
    have hbefore : c.utf8Size = 1 := by
      rw [Char.utf8Size_eq_one_iff, UInt32.le_iff_toNat_le]
      exact hle.trans (by decide)
    rw [hbefore, Char.utf8Size_eq_one_iff, UInt32.le_iff_toNat_le]
    show (c.val + 32).toNat ≤ 127
    rw [UInt32.toNat_add]
    have hnum : (32 : UInt32).toNat = 32 := rfl
    omega
  · rfl

theorem utf8Length_toAsciiLowercase (cs : List Char) :
    utf8Length (toAsciiLowercase cs) = utf8Length cs := by
  induction cs with
  | nil => rfl
  | cons c cs ih =>
    rw [toAsciiLowercase] at ih
    simp [toAsciiLowercase, utf8Length_cons, utf8Size_toLower, ih]

theorem length_toAsciiLowercase (cs : List Char) : (toAsciiLowercase cs).length = cs.length :=
  length_map ..

/-! ### What follows -/

theorem Follows.exists_text (h : Follows name rest) : ∃ text after, rest = text ++ after ∧
    toAsciiLowercase text = toAsciiLowercase name ∧ isWordBoundary after = true ∧
      text.length = name.length ∧ utf8Length text = utf8Length name := by
  obtain ⟨text, after, rfl, hcase, hafter⟩ := h
  refine ⟨text, after, rfl, hcase, hafter, ?_, ?_⟩
  · rw [← length_toAsciiLowercase, hcase, length_toAsciiLowercase]
  · rw [← utf8Length_toAsciiLowercase, hcase, utf8Length_toAsciiLowercase]

theorem Follows.lower_eq (h : Follows name rest) :
    toAsciiLowercase name = toAsciiLowercase (rest.take name.length) := by
  obtain ⟨text, after, rfl, hcase, -, hlength, -⟩ := h.exists_text
  simp [← hlength, hcase]

theorem Follows.length_le (h : Follows name rest) (h' : Follows other rest)
    (hle : utf8Length other ≤ utf8Length name) : other.length ≤ name.length := by
  obtain ⟨text, after, hrest, -, -, hlength, hbytes⟩ := h.exists_text
  obtain ⟨text', after', hrest', -, -, hlength', hbytes'⟩ := h'.exists_text
  have hprefix : text' <+: text :=
    prefix_of_utf8Length_le ⟨after', hrest'.symm⟩ ⟨after, hrest.symm⟩ (by omega)
  have hlt := hprefix.length_le
  omega

/-- **There is one longest name.** -/
theorem Contributes.unique {c c' : Option (List Char)} (h : Contributes known rest c)
    (h' : Contributes known rest c') : c = c' := by
  cases h with
  | @known name mem follows longest =>
    cases h' with
    | @known name' mem' follows' longest' =>
      have hlength : name.length = name'.length :=
        Nat.le_antisymm (longest' name mem follows) (longest name' mem' follows')
      rw [follows.lower_eq, follows'.lower_eq, hlength]
    | token none => exact absurd follows (none name mem)
  | token none =>
    cases h' with
    | @known name mem follows longest => exact absurd follows (none name mem)
    | token => rfl

theorem contributes_nil_iff {c : Option (List Char)} : Contributes [] rest c ↔ c = token rest := by
  have htoken : Contributes [] rest (token rest) := .token nofun
  constructor
  · intro h
    exact h.unique htoken
  · rintro rfl
    exact htoken

theorem ne_nil_of_not_isBlank (h : isBlank name = false) : name ≠ [] := by
  rintro rfl
  exact absurd h (by decide)

theorem contributes_end (hknown : ∀ name ∈ known, name ≠ []) : Contributes known [] none := by
  refine Contributes.token fun name hmem hfollows => ?_
  obtain ⟨text, after, hnil, -, -, hlength, -⟩ := hfollows.exists_text
  obtain ⟨rfl, -⟩ := append_eq_nil_iff.mp hnil.symm
  exact hknown name hmem (eq_nil_of_length_eq_zero hlength.symm)

/-! ### Known names at a place -/

/-- **The text goes on with a name** when that follows. -/
theorem goesOnWith_spec (rest name : List Char) :
    ∃ b, goesOnWith rest name = some b ∧ (b = true ↔ Follows name rest) := by
  rw [goesOnWith]
  split
  · next hnone =>
    refine ⟨false, rfl, fun h => (nomatch h), fun hfollows => ?_⟩
    obtain ⟨text, after, rfl, -, -, -, hbytes⟩ := hfollows.exists_text
    rw [← hbytes, takeBytes_append] at hnone
    nomatch hnone
  · next text htext =>
    obtain ⟨⟨after, rfl⟩, hbytes⟩ := takeBytes_eq_some_iff.mp htext
    -- there is one text of that many bytes
    have hunique : Follows name (text ++ after) → toAsciiLowercase text = toAsciiLowercase name ∧
        isWordBoundary after = true := by
      intro hfollows
      obtain ⟨text', after', hsplit, hcase, hafter, -, hbytes'⟩ := hfollows.exists_text
      rw [hsplit, ← hbytes', takeBytes_append] at htext
      cases htext
      rw [append_cancel_left hsplit]
      exact ⟨hcase, hafter⟩
    rw [← hbytes, dropBytes_append, map_some]
    split
    · next heq =>
      rw [eqIgnoreAsciiCase, beq_iff_eq] at heq
      exact ⟨_, rfl, fun hafter => ⟨text, after, rfl, heq, hafter⟩, fun h => (hunique h).2⟩
    · next hne =>
      rw [eqIgnoreAsciiCase, beq_iff_eq] at hne
      exact ⟨false, rfl, fun h => (nomatch h), fun h => absurd (hunique h).1 hne⟩

/-- **The first name** that follows is found. -/
theorem findName_spec (rest : List Char) (names : List (List Char)) :
    ∃ found, findName rest names = some found ∧
      (found = none → ∀ name ∈ names, ¬Follows name rest) ∧
        ∀ name ∈ found, Follows name rest ∧ ∃ skipped tail, names = skipped ++ name :: tail ∧
          ∀ other ∈ skipped, ¬Follows other rest := by
  induction names with
  | nil => exact ⟨none, rfl, fun _ _ hmem => (nomatch hmem), nofun⟩
  | cons name names ih =>
    obtain ⟨b, hb, hiff⟩ := goesOnWith_spec rest name
    rw [findName, hb, bind_eq_bind, bind_some]
    cases b with
    | true =>
      refine ⟨some name, rfl, fun h => (nomatch h), fun name' hmem => ?_⟩
      cases hmem
      exact ⟨hiff.mp rfl, [], names, rfl, nofun⟩
    | false =>
      have hnot : ¬Follows name rest := fun h => nomatch hiff.mpr h
      obtain ⟨found, hfound, hnone, hsome⟩ := ih
      refine ⟨found, hfound, fun hnil => ?_, fun name' hmem => ?_⟩
      · exact forall_mem_cons.mpr ⟨hnot, hnone hnil⟩
      · obtain ⟨hfollows, skipped, tail, rfl, hskipped⟩ := hsome name' hmem
        exact ⟨hfollows, name :: skipped, tail, rfl, forall_mem_cons.mpr ⟨hnot, hskipped⟩⟩

theorem mem_sortedNames : name ∈ sortedNames known ↔ name ∈ known.filter fun n => !isBlank n :=
  (mergeSort_perm ..).mem_iff

theorem pairwise_sortedNames (known : List (List Char)) :
    (sortedNames known).Pairwise fun a b => utf8Length b ≤ utf8Length a := by
  have hsorted : (sortedNames known).Pairwise
      fun a b => decide (utf8Length b ≤ utf8Length a) = true := pairwise_mergeSort
    (fun a b c hab hbc => by simp only [decide_eq_true_eq] at hab hbc ⊢; omega)
    (fun a b => by simp only [Bool.or_eq_true, decide_eq_true_eq]; omega)
    (known.filter fun n => !isBlank n)
  exact hsorted.imp of_decide_eq_true

/-- **The longest known name** is found. -/
theorem longest_of_findName {found : Option (List Char)}
    (h : findName rest (sortedNames known) = some found) (hmem : name ∈ found) :
    Contributes (known.filter fun n => !isBlank n) rest (some (toAsciiLowercase name)) := by
  obtain ⟨found', hfound', -, hsome⟩ := findName_spec rest (sortedNames known)
  cases hfound'.symm.trans h
  obtain ⟨hfollows, skipped, tail, hsplit, hskipped⟩ := hsome name hmem
  have hsorted := pairwise_sortedNames known
  rw [hsplit, pairwise_append, pairwise_cons] at hsorted
  refine .known ?_ hfollows fun other hother hfollows' => ?_
  · rw [← mem_sortedNames, hsplit]
    simp
  · rw [← mem_sortedNames, hsplit, mem_append, mem_cons] at hother
    rcases hother with hbefore | rfl | hafter
    · exact absurd hfollows' (hskipped other hbefore)
    · exact Nat.le_refl _
    · exact hfollows.length_le hfollows' (hsorted.2.1.1 other hafter)

/-! ### One place -/

theorem isAsciiWhitespaceByte_of_mem {c : Char} {b : UInt8} (hb : b ∈ String.utf8EncodeChar c) :
    isAsciiWhitespaceByte b = isAsciiWhitespace c := by
  by_cases hascii : c.toNat ≤ 127
  · rw [utf8EncodeChar_ascii hascii, mem_singleton] at hb
    have hsame : ∀ d : Char, d.toNat ≤ 127 → (b == UInt8.ofNat d.toNat) = (c == d) := by
      intro d hd
      rw [Bool.eq_iff_iff, hb, ofNat_beq hascii hd, beq_iff_eq]
    have hspace := hsame ' ' (by decide)
    have htab := hsame '\t' (by decide)
    have hline := hsame '\n' (by decide)
    have hfeed := hsame '\x0c' (by decide)
    have hreturn := hsame '\r' (by decide)
    rw [isAsciiWhitespace, ← hspace, ← htab, ← hline, ← hfeed, ← hreturn]
    rfl
  · have hlarge := le_of_mem_utf8EncodeChar (Nat.lt_of_not_le hascii) hb
    have hbyte : isAsciiWhitespaceByte b = false := by
      rw [UInt8.le_iff_toNat_le] at hlarge
      have hne : ∀ n : UInt8, n.toNat < 128 → (b == n) = false := by
        intro n hn
        rw [beq_eq_false_iff_ne]
        rintro rfl
        exact absurd hlarge (Nat.not_le_of_lt hn)
      simp [isAsciiWhitespaceByte, hne]
    have hchar : isAsciiWhitespace c = false := by
      have hne : ∀ d : Char, d.toNat ≤ 127 → (c == d) = false := by
        intro d hd
        rw [beq_eq_false_iff_ne]
        rintro rfl
        exact hascii hd
      simp [isAsciiWhitespace, hne]
    rw [hbyte, hchar]

/-- **The byte before a place** tells whether the character before it is whitespace. -/
theorem preceded_eq (pre post : List Char) :
    preceded (pre ++ post) (utf8Length pre) = some (pre.getLast?.all isAsciiWhitespace) := by
  rcases eq_nil_or_concat pre with rfl | ⟨init, c, rfl⟩
  · rfl
  · have hpos := c.utf8Size_pos
    have hlength : utf8Length (init.concat c) = (encode init).length + c.utf8Size := by
      rw [concat_eq_append, utf8Length_append, utf8Length_cons, utf8Length_nil, utf8Length]
      rfl
    have hindex : (encode init).length + c.utf8Size - 1 - (encode init).length <
        (String.utf8EncodeChar c).length := by
      rw [String.length_utf8EncodeChar]
      omega
    rw [preceded, if_neg (by omega), hlength, concat_eq_append, append_assoc, encode_append,
      getElem?_append_right (by omega), singleton_append, encode_cons,
      getElem?_append_left hindex, getElem?_eq_getElem hindex, map_some,
      isAsciiWhitespaceByte_of_mem (getElem_mem hindex)]
    simp

theorem sliceToken_eq (rest : List Char) : sliceToken rest = some (token rest) := by
  have htake := takeBytes_findChar (fun c => !isNameChar c) rest
  simp only [Bool.not_not] at htake
  obtain ⟨-, hlength⟩ := takeBytes_eq_some_iff.mp htake
  rw [sliceToken, htake, ← hlength, token]
  by_cases hnil : rest.takeWhile isNameChar = []
  · rw [hnil]
    rfl
  · have hpos : utf8Length (rest.takeWhile isNameChar) ≠ 0 := by
      have hle := length_le_utf8Length (rest.takeWhile isNameChar)
      have hlt := length_pos_iff.mpr hnil
      omega
    simp [hpos, hnil]

/-- **What an `@` contributes**, with known names. -/
theorem mentionAt_spec (known : List (List Char)) (pre rest : List Char) :
    ∃ c, mentionAt (pre ++ '@' :: rest) (sortedNames known) (utf8Length pre) = some c ∧
      if pre.getLast?.all isAsciiWhitespace then
        Contributes (known.filter fun n => !isBlank n) rest c
      else c = none := by
  rw [mentionAt, preceded_eq]
  simp only [bind_eq_bind, bind_some]
  cases hpreceded : pre.getLast?.all isAsciiWhitespace with
  | false => exact ⟨none, rfl, rfl⟩
  | true =>
    have hat : dropBytes (pre ++ '@' :: rest) (utf8Length pre + 1) = some rest :=
      dropBytes_eq_some_iff.mpr ⟨pre ++ ['@'], by simp, by rw [utf8Length_append]; rfl⟩
    simp only [Bool.not_true, Bool.false_eq_true, if_false, if_true, hat, bind_some]
    split
    · next hempty =>
      obtain rfl := isEmpty_iff.mp hempty
      refine ⟨none, rfl, contributes_end fun name hmem => ?_⟩
      exact ne_nil_of_not_isBlank (by simpa using (mem_filter.mp hmem).2)
    · obtain ⟨found, hfound, hnone, -⟩ := findName_spec rest (sortedNames known)
      rw [hfound, bind_some]
      cases found with
      | some name => exact ⟨_, rfl, longest_of_findName hfound rfl⟩
      | none =>
        refine ⟨_, sliceToken_eq rest, .token fun name hmem => ?_⟩
        exact hnone rfl name (mem_sortedNames.mpr hmem)

/-! ### All places -/

section

variable {α : Type} [DecidableEq α]

theorem collectNew_eq {f : ℕ → Option (Option α)} {g : ℕ → Option α} {is : List ℕ}
    (h : ∀ i ∈ is, f i = some (g i)) (found : List α) :
    collectNew f is found = some ((is.filterMap g).foldl pushNew found) := by
  induction is generalizing found with
  | nil => rfl
  | cons i is ih =>
    obtain ⟨hi, his⟩ := forall_mem_cons.mp h
    rw [collectNew, hi, bind_eq_bind, bind_some]
    cases hg : g i with
    | none => rw [filterMap_cons_none hg, ← ih his]
    | some a => rw [filterMap_cons_some hg, foldl_cons, ← ih his]

end

theorem mentionSites_append (h : '@' ∉ post) (pre rest : List Char) :
    mentionSites pre.getLast? (post ++ rest) = mentionSites (pre ++ post).getLast? rest := by
  induction post generalizing pre with
  | nil => simp
  | cons c post ih =>
    rw [mem_cons, not_or] at h
    have hc : ¬(c = '@' ∧ pre.getLast?.all isAsciiWhitespace = true) := fun hand => h.1 hand.1.symm
    have hlast : (pre ++ [c]).getLast? = some c := by simp
    rw [cons_append, mentionSites, if_neg hc, ← hlast, ih h.2, append_assoc]
    rfl

theorem mentionSites_eq_nil (h : '@' ∉ post) (prev : Option Char) : mentionSites prev post = [] := by
  induction post generalizing prev with
  | nil => rfl
  | cons c post ih =>
    rw [mem_cons, not_or] at h
    rw [mentionSites, if_neg fun hand => h.1 hand.1.symm, ih h.2]

theorem not_mem_of_cutAt (h : cutAt ['@'] cs = some (pre, post)) : '@' ∉ pre := by
  induction cs generalizing pre with
  | nil => nomatch h
  | cons c cs ih =>
    rw [cutAt] at h
    split at h
    · cases h
      exact not_mem_nil
    · next hpre =>
      obtain ⟨⟨pre', post'⟩, hcut, heq⟩ := map_eq_some_iff.mp h
      cases heq
      rw [mem_cons, not_or]
      refine ⟨fun hc => hpre ?_, ih hcut⟩
      rw [List.isPrefixOf_iff_prefix, hc]
      exact ⟨cs, rfl⟩

theorem exists_contributions_from (known : List (List Char)) (pre post : List Char) :
    ∃ contributions,
      List.Forall₂ (Contributes (known.filter fun n => !isBlank n))
        (mentionSites pre.getLast? post) contributions ∧
      ∀ found, collectNew (mentionAt (pre ++ post) (sortedNames known))
        (matchIndices ['@'] (cons_ne_nil _ _) (utf8Length pre) post) found =
          some (contributions.reduceOption.foldl pushNew found) := by
  induction hn : post.length using Nat.strong_induction_on generalizing pre post with
  | _ n ih =>
    cases hcut : cutAt ['@'] post with
    | none =>
      have hmem : '@' ∉ post := by
        intro hmem
        exact cutAt_eq_none_iff.mp hcut ((singleton_infix_iff '@' post).mpr hmem)
      refine ⟨[], ?_, fun found => ?_⟩
      · rw [mentionSites_eq_nil hmem]
        exact .nil
      · rw [matchIndices_of_none hcut]
        rfl
    | some cut =>
      obtain ⟨mid, rest⟩ := cut
      have hmid := not_mem_of_cutAt hcut
      obtain rfl := eq_of_cutAt hcut
      have hsplit : pre ++ (mid ++ (['@'] ++ rest)) = pre ++ mid ++ '@' :: rest := by simp
      have hsplit' : pre ++ mid ++ '@' :: rest = pre ++ mid ++ ['@'] ++ rest := by simp
      have hbase : utf8Length pre + utf8Length mid + utf8Length ['@'] =
          utf8Length (pre ++ mid ++ ['@']) := by
        rw [utf8Length_append, utf8Length_append]
      obtain ⟨c, hc, hcontributes⟩ := mentionAt_spec known (pre ++ mid) rest
      obtain ⟨contributions, hall, hcollect⟩ := ih rest.length (by
        rw [← hn, length_append, length_append, length_singleton]
        omega) (pre ++ mid ++ ['@']) rest rfl
      rw [getLast?_concat] at hall
      have hsites : mentionSites pre.getLast? (mid ++ (['@'] ++ rest)) =
          if (pre ++ mid).getLast?.all isAsciiWhitespace then
            rest :: mentionSites (some '@') rest
          else mentionSites (some '@') rest := by
        simp [mentionSites_append hmid, mentionSites]
      have hstep : ∀ found, collectNew (mentionAt (pre ++ (mid ++ (['@'] ++ rest)))
          (sortedNames known)) (matchIndices ['@'] (cons_ne_nil _ _) (utf8Length pre)
            (mid ++ (['@'] ++ rest))) found =
              some ((c :: contributions).reduceOption.foldl pushNew found) := by
        intro found
        rw [matchIndices_of_some hcut, collectNew, ← utf8Length_append, hsplit, hc,
          bind_eq_bind, bind_some, utf8Length_append, hbase, hsplit']
        cases c with
        | none => exact hcollect found
        | some name => exact hcollect (pushNew found name)
      rw [hsites]
      split
      · next hpreceded =>
        rw [if_pos hpreceded] at hcontributes
        exact ⟨c :: contributions, .cons hcontributes hall, hstep⟩
      · next hpreceded =>
        rw [if_neg hpreceded] at hcontributes
        exact ⟨contributions, hall, fun found => by rw [hstep, hcontributes]; rfl⟩

theorem mentionSites_of_none {content : List Char}
    (h : (content.isEmpty || !content.contains '@') = true) : mentionSites none content = [] := by
  refine mentionSites_eq_nil ?_ none
  rw [Bool.or_eq_true, Bool.not_eq_true'] at h
  rcases h with hempty | hnot
  · rw [isEmpty_iff.mp hempty]
    exact not_mem_nil
  · simpa using hnot

/-- **Known names are found at every site.** -/
theorem exists_contributions (content : List Char) (known : List (List Char)) :
    ∃ contributions,
      List.Forall₂ (Contributes (known.filter fun n => !isBlank n))
        (mentionSites none content) contributions ∧
      extractAtMentionsWithKnown content known =
        some (contributions.reduceOption.foldl pushNew []) := by
  rw [extractAtMentionsWithKnown]
  split
  · next hnone =>
    rw [mentionSites_of_none hnone]
    exact ⟨[], .nil, rfl⟩
  · obtain ⟨contributions, hall, hcollect⟩ := exists_contributions_from known [] content
    exact ⟨contributions, hall, hcollect []⟩

/-! ### Names of one word at all places -/

theorem nameEnd_eq (chars : List Char) (stop : ℕ) :
    nameEnd chars stop = stop + ((chars.drop stop).takeWhile isNameChar).length := by
  fun_induction nameEnd chars stop with
  | case1 stop hlt hname ih =>
    rw [ih, drop_eq_getElem_cons hlt, takeWhile_cons_of_pos hname, length_cons]
    omega
  | case2 stop hlt hname =>
    rw [drop_eq_getElem_cons hlt, takeWhile_cons_of_neg hname]
    rfl
  | case3 stop hlt =>
    rw [drop_eq_nil_of_le (Nat.le_of_not_lt hlt)]
    rfl

theorem precededByWs_eq (pre post : List Char) :
    precededByWs (pre ++ post) pre.length = some (pre.getLast?.all isAsciiWhitespace) := by
  rcases eq_nil_or_concat pre with rfl | ⟨init, c, rfl⟩
  · rfl
  · rw [precededByWs, if_neg (by simp)]
    simp

/-- **What a character contributes**, without known names. -/
theorem nameAt_eq (pre : List Char) (c : Char) (rest : List Char) :
    nameAt (pre ++ c :: rest) pre.length =
      some (if c = '@' ∧ pre.getLast?.all isAsciiWhitespace then token rest else none) := by
  have hat : (pre ++ c :: rest)[pre.length]? = some c := by simp
  have hdrop : (pre ++ c :: rest).drop (pre.length + 1) = rest := by
    rw [← drop_drop, drop_left]
    rfl
  rw [nameAt, hat, precededByWs_eq]
  simp only [bind_eq_bind, bind_some]
  split
  · next hc => rw [if_neg fun hand => hc hand.1]; rfl
  · next hc =>
    rw [not_ne_iff] at hc
    subst hc
    cases hpreceded : pre.getLast?.all isAsciiWhitespace with
    | false => rfl
    | true =>
      simp only [Bool.not_true, Bool.false_or, decide_eq_true_eq]
      rw [nameEnd_eq, hdrop, token]
      by_cases hnil : rest.takeWhile isNameChar = []
      · rw [hnil]
        split
        · rfl
        · rw [if_pos (by simp), if_pos rfl]
          rfl
      · have hpos := length_pos_iff.mpr hnil
        have hle := (List.takeWhile_prefix isNameChar : rest.takeWhile isNameChar <+: rest).length_le
        have hlength : (pre ++ '@' :: rest).length = pre.length + 1 + rest.length := by
          rw [length_append, length_cons]
          omega
        have hslice : sliceChars (pre ++ '@' :: rest) (pre.length + 1)
            (pre.length + 1 + (rest.takeWhile isNameChar).length) =
              some (rest.takeWhile isNameChar) := by
          rw [sliceChars, if_pos ⟨by omega, by omega⟩, drop_take, hdrop,
            Nat.add_sub_cancel_left, ← prefix_iff_eq_take.mp (List.takeWhile_prefix _)]
        rw [if_neg (by omega), if_neg (by omega), hslice, bind_some, if_neg hnil]
        rfl

theorem namesLoop_eq (pre post : List Char) (names : List (List Char)) :
    namesLoop (pre ++ post) pre.length names =
      some (((mentionSites pre.getLast? post).filterMap token).foldl pushNew names) := by
  induction post generalizing pre names with
  | nil =>
    rw [namesLoop, dif_neg (by simp)]
    rfl
  | cons c post ih =>
    have hlt : pre.length < (pre ++ c :: post).length := by simp
    have hnext := ih (pre ++ [c])
    have hsplit : pre ++ [c] ++ post = pre ++ c :: post := by simp
    rw [hsplit, length_append, length_singleton, getLast?_concat] at hnext
    rw [namesLoop, dif_pos hlt, nameAt_eq, bind_eq_bind, bind_some, mentionSites]
    by_cases hsite : c = '@' ∧ pre.getLast?.all isAsciiWhitespace = true
    · rw [if_pos hsite, if_pos hsite]
      cases htoken : token post with
      | none => rw [filterMap_cons_none htoken, ← hnext]
      | some name => rw [filterMap_cons_some htoken, foldl_cons, ← hnext]
    · rw [if_neg hsite, if_neg hsite]
      exact hnext names

/-- **Names of one word** are found at every site. -/
theorem extractAtNames_eq (content : List Char) : extractAtNames content =
    some (((mentionSites none content).filterMap token).foldl pushNew []) := by
  rw [extractAtNames]
  split
  · next hnone =>
    rw [mentionSites_of_none hnone]
    rfl
  · exact namesLoop_eq [] content []

/-- **Without known names** the scanners agree. -/
theorem extractAtMentionsWithKnown_nil (content : List Char) :
    extractAtMentionsWithKnown content [] = extractAtNames content := by
  obtain ⟨contributions, hall, heq⟩ := exists_contributions content []
  have htokens : (mentionSites none content).map token = contributions := by
    rw [← forall₂_eq_eq_eq, forall₂_map_left_iff]
    exact hall.imp fun rest c h => (contributes_nil_iff.mp h).symm
  simp [heq, extractAtNames_eq, ← htokens, reduceOption]

/-! ### URIs -/

theorem toNat_le_of_isBech32Char {c : Char} (h : isBech32Char c = true) : c.toNat ≤ 127 := by
  have hle : ∀ d : Char, d.toNat ≤ 127 → c ≤ d → c.toNat ≤ 127 := by
    intro d hd hcd
    exact (UInt32.le_iff_toNat_le.mp hcd).trans hd
  simp only [isBech32Char, Bool.or_eq_true, Bool.and_eq_true, decide_eq_true_eq] at h
  rcases h with (h | h) | h
  · exact hle '9' (by decide) h.2
  · exact hle 'z' (by decide) h.2
  · exact hle 'Z' (by decide) h.2

theorem IsUri.not_mem_space {uri candidate : List Char} (h : IsUri uri candidate) : ' ' ∉ uri := by
  obtain ⟨rfl, -, -, hall⟩ := h
  rw [mem_append, not_or]
  refine ⟨by decide, fun hmem => ?_⟩
  exact absurd (hall ' ' hmem) (by decide)

section

variable {fromBech32 : List Char → Option PublicKey} {content : List Char}

/-- The key is that of a URI in the text. -/
def FromUri (fromBech32 : List Char → Option PublicKey) (content : List Char) (key : String) :
    Prop :=
  ∃ uri candidate pk, IsUri uri candidate ∧ uri <:+: content ∧
    fromBech32 (toAsciiLowercase candidate) = some pk ∧ toHex pk = key

/-- **What a place contributes** is the key of a URI. -/
theorem uriAt_spec (fromBech32 : List Char → Option PublicKey) (pre post : List Char) :
    ∃ found, uriAt fromBech32 (pre ++ (scheme ++ npub1 ++ post)) (utf8Length pre) = some found ∧
      ∀ key ∈ found, FromUri fromBech32 (pre ++ (scheme ++ npub1 ++ post)) key := by
  have hscheme : utf8Length (pre ++ scheme) = utf8Length pre + 6 := by
    rw [utf8Length_append]
    rfl
  have hsplit : pre ++ (scheme ++ npub1 ++ post) = pre ++ scheme ++ (npub1 ++ post) := by simp
  rw [uriAt, hsplit, ← hscheme]
  split
  · exact ⟨none, rfl, nofun⟩
  · next hinside =>
    simp only [Bool.or_eq_true, decide_eq_true_eq, Bool.not_eq_true', not_or,
      Bool.not_eq_false] at hinside
    obtain ⟨candidate, after, htail, hlength, hslice⟩ := exists_sliceBytes hinside.2 (by omega)
    rw [hslice, bind_eq_bind, bind_some]
    split
    · exact ⟨none, rfl, nofun⟩
    · next hall =>
      simp only [Bool.not_eq_true', Bool.not_eq_false, List.all_eq_true] at hall
      refine ⟨_, rfl, fun key hmem => ?_⟩
      obtain ⟨pk, hpk, rfl⟩ := Option.map_eq_some_iff.mp hmem
      have hascii := utf8Length_ascii fun c hc => toNat_le_of_isBech32Char (hall c hc)
      have hnpub : npub1 <+: candidate := by
        refine prefix_of_utf8Length_le ⟨post, htail⟩ (List.prefix_append ..) ?_
        rw [hlength]
        show 5 ≤ _
        omega
      refine ⟨scheme ++ candidate, candidate, pk, ⟨rfl, hnpub, ?_, hall⟩, ?_, hpk, rfl⟩
      · rw [← hascii, hlength]
        omega
      · rw [htail]
        exact ⟨pre, after, by simp⟩

/-- **The keys that are found** are those of URIs in the text. -/
theorem extractNostrUris_spec (fromBech32 : List Char → Option PublicKey) (content : List Char) :
    ∃ keys, extractNostrUris fromBech32 content = some keys ∧ keys.Nodup ∧
      ∀ key ∈ keys, FromUri fromBech32 content key := by
  have hplace : ∀ i ∈ matchIndices (scheme ++ npub1) (cons_ne_nil _ _) 0 content,
      ∃ found, uriAt fromBech32 content i = some found ∧
        ∀ key ∈ found, FromUri fromBech32 content key := by
    intro i hi
    obtain ⟨pre, post, rfl, hpre⟩ := mem_matchIndices hi
    rw [Nat.zero_add] at hpre
    rw [← hpre]
    exact uriAt_spec fromBech32 pre post
  have hsome : ∀ i ∈ matchIndices (scheme ++ npub1) (cons_ne_nil _ _) 0 content,
      uriAt fromBech32 content i = some ((uriAt fromBech32 content i).getD none) := by
    intro i hi
    obtain ⟨found, hfound, -⟩ := hplace i hi
    rw [hfound]
    rfl
  have hfirst := firstSeen_foldl_pushNew ((matchIndices (scheme ++ npub1) (cons_ne_nil _ _) 0
    content).filterMap fun i => (uriAt fromBech32 content i).getD none)
  refine ⟨_, collectNew_eq hsome [], hfirst.nodup, fun key hkey => ?_⟩
  rw [hfirst.mem_iff, mem_filterMap] at hkey
  obtain ⟨i, hi, hkey⟩ := hkey
  obtain ⟨found, hfound, hall⟩ := hplace i hi
  rw [hfound] at hkey
  exact hall key hkey

/-- **A URI in the text without its code** is one in the text. -/
theorem infix_of_stripCodeRegions {stripped uri candidate : List Char}
    (h : stripCodeRegions content = some stripped) (huri : IsUri uri candidate)
    (hin : uri <:+: stripped) : uri <:+: content := by
  obtain ⟨out, hout, hblanked⟩ := stripCodeRegions_spec content
  cases hout.symm.trans h
  exact hblanked.isInfix huri.not_mem_space hin

/-- **Mentions are found exactly.** Without known names, names have one word. With them, each site
contributes the longest known name that follows and is not blank, or else the name of one word, and
the names are those, in the order in which they were first seen. Blanking code ends, and every URI
that is found then is one of the message. No scanner stops before its end. -/
theorem mentions_exact (fromBech32 : List Char → Option PublicKey) (content : List Char)
    (known : List (List Char)) :
    extractAtMentionsWithKnown content [] = extractAtNames content ∧
      (∃ contributions names,
        List.Forall₂ (Contributes (known.filter fun n => !isBlank n))
          (mentionSites none content) contributions ∧
        extractAtMentionsWithKnown content known = some names ∧
          FirstSeen contributions.reduceOption names) ∧
      (∃ stripped keys, stripCodeRegions content = some stripped ∧
        extractNostrUris fromBech32 stripped = some keys ∧
          (∀ key ∈ keys, FromUri fromBech32 stripped key) ∧
            ∀ uri candidate, IsUri uri candidate → uri <:+: stripped → uri <:+: content) ∧
      ∃ names keys, extractAtNames content = some names ∧
        extractNostrUris fromBech32 content = some keys := by
  refine ⟨extractAtMentionsWithKnown_nil content, ?_, ?_, ?_⟩
  · obtain ⟨contributions, hall, hnames⟩ := exists_contributions content known
    exact ⟨contributions, _, hall, hnames, firstSeen_foldl_pushNew _⟩
  · obtain ⟨stripped, hstripped, -⟩ := stripCodeRegions_spec content
    obtain ⟨keys, hkeys, -, hall⟩ := extractNostrUris_spec fromBech32 stripped
    refine ⟨stripped, keys, hstripped, hkeys, hall, fun uri candidate huri hin => ?_⟩
    exact infix_of_stripCodeRegions hstripped huri hin
  · obtain ⟨keys, hkeys, -⟩ := extractNostrUris_spec fromBech32 content
    exact ⟨_, keys, extractAtNames_eq content, hkeys⟩

/-- A known name without characters follows every `@` before a space, and is not contributed. -/
theorem blank_name_ignored : ¬∃ contributions names,
    List.Forall₂ (Contributes [[]]) (mentionSites none ['@', ' ', 'x']) contributions ∧
      extractAtMentionsWithKnown ['@', ' ', 'x'] [[]] = some names ∧
        FirstSeen contributions.reduceOption names := by
  rintro ⟨contributions, names, hall, hnames, hfirst⟩
  have hsites : mentionSites none ['@', ' ', 'x'] = [[' ', 'x']] := by decide
  have hfollows : Follows [] [' ', 'x'] := ⟨[], [' ', 'x'], rfl, rfl, by decide⟩
  rw [hsites] at hall
  -- the name that is longest is empty
  obtain ⟨c, rest, hc, hrest, rfl⟩ := forall₂_cons_left_iff.mp hall
  obtain rfl := forall₂_nil_left_iff.mp hrest
  have hempty : c = some [] := by
    refine hc.unique (.known (mem_singleton_self _) hfollows fun other hother _ => ?_)
    rw [mem_singleton.mp hother]
  have hmem : [] ∈ names := by
    rw [hfirst.mem_iff, hempty]
    exact mem_singleton_self _
  -- but nothing is found
  obtain ⟨contributions, hall', hnames'⟩ := exists_contributions ['@', ' ', 'x'] [[]]
  rw [hsites] at hall'
  obtain ⟨c', rest', hc', hrest', rfl⟩ := forall₂_cons_left_iff.mp hall'
  obtain rfl := forall₂_nil_left_iff.mp hrest'
  have htoken : token [' ', 'x'] = none := by decide
  have hnone : c' = none := (contributes_nil_iff.mp hc').trans htoken
  rw [hnone, hnames] at hnames'
  cases hnames'
  exact not_mem_nil hmem

end

end Buzz.Mentions
