import Mathlib.Data.List.Infix
import Mathlib.Data.String.Basic

/-!
# String functions of the standard library

What the source uses of Rust's `str` and `char`, over the characters of a string.
-/

namespace Buzz

open List

/-- `str::starts_with`. -/
def startsWith (s pre : String) : Bool := pre.toList.isPrefixOf s.toList

/-- `str::ends_with`. -/
def endsWith (s post : String) : Bool := post.toList.isSuffixOf s.toList

/-- `str::contains`. -/
def containsStr (s sub : String) : Bool := decide (sub.toList <:+: s.toList)

/-- `str::strip_prefix`. -/
def stripPrefix (s pre : String) : Option String :=
  (s.toList.dropPrefix? pre.toList).map String.ofList

variable {s : String}

theorem stripPrefix_eq_some_iff {pre t : String} : stripPrefix s pre = some t ↔ s = pre ++ t := by
  simp only [stripPrefix, Option.map_eq_some_iff, dropPrefix?_eq_some_iff, beq_iff_eq]
  constructor
  · rintro ⟨l, ⟨p, hs, rfl⟩, rfl⟩
    exact String.ext (by simp [hs])
  · rintro rfl
    exact ⟨t.toList, ⟨pre.toList, by simp, rfl⟩, by simp⟩

@[simp] theorem stripPrefix_append (pre t : String) : stripPrefix (pre ++ t) pre = some t :=
  stripPrefix_eq_some_iff.mpr rfl

theorem stripPrefix_eq_none_of_head {pre : String} {a b : Char} (hs : s.toList.head? = some a)
    (hpre : pre.toList.head? = some b) (hne : a ≠ b) : stripPrefix s pre = none := by
  refine Option.eq_none_iff_forall_ne_some.mpr fun t ht => hne ?_
  rw [stripPrefix_eq_some_iff] at ht
  rw [ht, String.toList_append, head?_append, hpre] at hs
  exact (Option.some.inj hs).symm

theorem stripPrefix_append_eq_none {pre pre' t : String} {a b : Char}
    (hpre : pre.toList.head? = some a) (hpre' : pre'.toList.head? = some b) (hne : a ≠ b) :
    stripPrefix (pre ++ t) pre' = none := by
  refine stripPrefix_eq_none_of_head ?_ hpre' hne
  simp [String.toList_append, hpre]

/-- `str::strip_suffix`. -/
def stripSuffix (s post : String) : Option String :=
  if endsWith s post then
    some (String.ofList (s.toList.take (s.toList.length - post.toList.length)))
  else none

theorem stripSuffix_append (t post : String) : stripSuffix (t ++ post) post = some t := by
  have hends : endsWith (t ++ post) post = true := by
    rw [endsWith, String.toList_append]
    exact isSuffixOf_iff_suffix.mpr (suffix_append _ _)
  simp [stripSuffix, hends, String.toList_append, String.ofList_toList]

theorem stripSuffix_eq_some_iff {post t : String} :
    stripSuffix s post = some t ↔ s = t ++ post := by
  constructor
  · intro h
    rw [stripSuffix] at h
    split at h
    · next hends =>
      rw [endsWith, isSuffixOf_iff_suffix] at hends
      obtain ⟨front, hfront⟩ := hends
      rw [← hfront, length_append, Nat.add_sub_cancel, take_left] at h
      cases h
      refine String.toList_inj.mp ?_
      rw [String.toList_append, String.toList_ofList, hfront]
    · cases h
  · rintro rfl
    exact stripSuffix_append t post

/-- `str::strip_suffix`, of a character. -/
def stripSuffixChar (s : String) (c : Char) : Option String :=
  if s.toList.getLast? = some c then some (String.ofList s.toList.dropLast) else none

/-- `char::is_ascii_alphanumeric`. -/
def isAsciiAlphanumeric (c : Char) : Bool := c.isAlphanum

/-- `char::is_ascii_hexdigit`. -/
def isAsciiHexdigit (c : Char) : Bool := c.isHexDigit

/-- `'0'..='9' | 'a'..='f'`. -/
def isLowerHex (c : Char) : Bool := c.isDigit || (decide ('a' ≤ c) && decide (c ≤ 'f'))

/-- `char::is_whitespace`: the `White_Space` property. -/
def isWhitespace (c : Char) : Bool :=
  let n := c.toNat
  (9 ≤ n && n ≤ 13) || n == 0x20 || n == 0x85 || n == 0xa0 || n == 0x1680 ||
    (0x2000 ≤ n && n ≤ 0x200a) || n == 0x2028 || n == 0x2029 || n == 0x202f || n == 0x205f ||
    n == 0x3000

/-- `str::trim`. -/
def trim (s : String) : String :=
  String.ofList ((s.toList.dropWhile isWhitespace).reverse.dropWhile isWhitespace).reverse

/-- The number of fields after these characters, inside a field or not. -/
def countFields : Bool → List Char → Nat
  | _, [] => 0
  | inside, c :: cs =>
    if isWhitespace c then countFields false cs
    else (if inside then 0 else 1) + countFields true cs

/-- `split_whitespace().count()`. -/
def fieldCount (s : String) : Nat := countFields false s.toList

variable {c : Char}

theorem isAsciiHexdigit_of_isLowerHex (h : isLowerHex c = true) : isAsciiHexdigit c = true := by
  simp only [isLowerHex, isAsciiHexdigit, Char.isHexDigit, Bool.or_eq_true, Bool.and_eq_true,
    decide_eq_true_eq] at h ⊢
  exact Or.inl h

theorem isLowerHex_iff : isLowerHex c = true ↔
    (48 ≤ c.toNat ∧ c.toNat ≤ 57) ∨ (97 ≤ c.toNat ∧ c.toNat ≤ 102) := by
  simp [isLowerHex, Char.isDigit, Char.le_def, UInt32.le_iff_toNat_le]

theorem not_isWhitespace_of_isLowerHex (h : isLowerHex c = true) : isWhitespace c = false := by
  have hrange := isLowerHex_iff.mp h
  simp only [isWhitespace, Bool.or_eq_false_iff, Bool.and_eq_false_iff, decide_eq_false_iff_not,
    beq_eq_false_iff_ne]
  omega

theorem trim_eq_self (h : ∀ c ∈ s.toList, isWhitespace c = false) : trim s = s := by
  have hdrop : ∀ l : List Char, (∀ c ∈ l, isWhitespace c = false) → l.dropWhile isWhitespace = l := by
    intro l hl
    cases l with
    | nil => rfl
    | cons c cs => rw [dropWhile_cons_of_neg (by simp [hl c (mem_cons_self ..)])]
  rw [trim, hdrop _ h, hdrop _ (fun c hc => h c (mem_reverse.mp hc)), reverse_reverse,
    String.ofList_toList]

theorem trim_sublist (s : String) : (trim s).toList.Sublist s.toList := by
  rw [trim, String.toList_ofList]
  have hfront := dropWhile_sublist isWhitespace (l := s.toList)
  have hback := dropWhile_sublist isWhitespace (l := (s.toList.dropWhile isWhitespace).reverse)
  have hreverse := hback.reverse
  rw [reverse_reverse] at hreverse
  exact hreverse.trans hfront

theorem length_trim_lt (h : trim s ≠ s) : (trim s).toList.length < s.toList.length := by
  have hsub := trim_sublist s
  refine Nat.lt_of_le_of_ne hsub.length_le fun hlen => h ?_
  exact String.toList_injective (hsub.eq_of_length hlen)

theorem utf8ByteSize_eq_length (h : ∀ c ∈ s.toList, c.val ≤ 127) :
    s.utf8ByteSize = s.toList.length := by
  have hlist : ∀ cs : List Char, (∀ c ∈ cs, c.val ≤ 127) →
      (String.ofList cs).utf8ByteSize = cs.length := by
    intro cs
    induction cs with
    | nil => exact fun _ => rfl
    | cons c cs ih =>
      intro hcs
      have hhead := Char.utf8Size_eq_one_iff.mpr (hcs c mem_cons_self)
      rw [String.ofList_cons, String.utf8ByteSize_append, String.utf8ByteSize_singleton, hhead,
        ih fun d hd => hcs d (mem_cons_of_mem c hd), length_cons, Nat.add_comm]
  rw [← hlist s.toList h, String.ofList_toList]

/-- A number of hexadecimal digits in lower case. -/
structure IsLowerHex (n : Nat) (s : String) : Prop where
  length : s.toList.length = n
  digits : ∀ c ∈ s.toList, isLowerHex c = true

variable {n : Nat}

theorem IsLowerHex.utf8ByteSize (h : IsLowerHex n s) : s.utf8ByteSize = n := by
  rw [← h.length]
  refine utf8ByteSize_eq_length fun c hc => ?_
  have hrange := isLowerHex_iff.mp (h.digits c hc)
  exact UInt32.le_iff_toNat_le.mpr (show c.toNat ≤ 127 by omega)

/-! ### Numbers -/

/-- `str::parse::<u64>`: decimal digits with an optional plus sign, in range. -/
def parseU64 (s : String) : Option Nat :=
  let digits := if s.toList.head? = some '+' then s.toList.tail else s.toList
  if digits.isEmpty || !digits.all Char.isDigit then none
  else if Nat.ofDigitChars 10 digits 0 < 2 ^ 64 then some (Nat.ofDigitChars 10 digits 0) else none

/-- `str::parse::<u32>`. -/
def parseU32 (s : String) : Option Nat := (parseU64 s).filter fun n => decide (n < 2 ^ 32)

theorem isDigit_of_mem_repr (h : c ∈ (Nat.repr n).toList) : c.isDigit = true := by
  rw [Nat.toList_repr] at h
  exact Nat.isDigit_of_mem_toDigits (by decide) (by decide) h

theorem parseU64_repr (h : n < 2 ^ 64) : parseU64 (Nat.repr n) = some n := by
  have hhead : (Nat.repr n).toList.head? ≠ some '+' := by
    intro hplus
    have hdigit := isDigit_of_mem_repr (mem_of_mem_head? hplus)
    exact absurd hdigit (by decide)
  have hall : (Nat.repr n).toList.all Char.isDigit = true :=
    all_eq_true.mpr fun c hc => isDigit_of_mem_repr hc
  have hne : (Nat.repr n).toList.isEmpty = false := by
    rw [Nat.toList_repr, isEmpty_eq_false_iff]
    exact Nat.toDigits_ne_nil
  have hval : Nat.ofDigitChars 10 (Nat.repr n).toList 0 = n := by
    rw [Nat.toList_repr, Nat.ofDigitChars_ten_toDigits]
  simp only [parseU64, if_neg hhead, hall, hne, hval, Bool.not_true, Bool.or_self,
    Bool.false_eq_true, if_false, if_pos h]

theorem repr_injective : Function.Injective Nat.repr := by
  intro m n h
  have hchars : Nat.toDigits 10 m = Nat.toDigits 10 n := by
    simp [← Nat.toList_repr, h]
  rw [← Nat.ofDigitChars_ten_toDigits (n := m), hchars, Nat.ofDigitChars_ten_toDigits]

theorem parseU64_eq_none (hc : c ∈ s.toList) (hdigit : c.isDigit = false) (hplus : c ≠ '+') :
    parseU64 s = none := by
  have hmem : c ∈ (if s.toList.head? = some '+' then s.toList.tail else s.toList) := by
    split
    · next h =>
      cases hs : s.toList with
      | nil => simp [hs] at hc
      | cons d ds =>
        rw [hs] at hc h
        obtain rfl : d = '+' := by simpa using h
        exact (mem_cons.mp hc).resolve_left hplus
    · exact hc
  have hall : (if s.toList.head? = some '+' then s.toList.tail else s.toList).all Char.isDigit =
      false := by
    rw [all_eq_false]
    exact ⟨c, hmem, by simp [hdigit]⟩
  simp [parseU64, hall]

end Buzz
