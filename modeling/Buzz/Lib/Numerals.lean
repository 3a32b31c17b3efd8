import Mathlib.Data.List.Induction
import Mathlib.Data.Nat.Log
import Mathlib.Tactic.Ring

/-!
# Numerals

Decimal numbers as text: digits without leading zeros. The text of a number is one, and every one is
the text of the number that it denotes.

A Lua script sees every integer as a double, and `tostring` prints a double with fourteen
significant digits (`%.14g`). Integers below `10 ^ 14` are printed exactly. From there on the
exponent form is used, so what is printed is no decimal integer any more.
-/

/-! ## Canonical decimals -/

namespace Buzz

/-- A decimal numeral without a leading zero. -/
structure IsDecimal (cs : List Char) : Prop where
  ne_nil : cs ≠ []
  digits : ∀ c ∈ cs, c.isDigit = true
  zero : cs.head? = some '0' → cs.length = 1

theorem exists_digit {c : Char} (h : c.isDigit = true) :
    ∃ d < 10, c = Nat.digitChar d ∧ c.toNat - '0'.toNat = d := by
  have hrange : 48 ≤ c.toNat ∧ c.toNat ≤ 57 := by
    simpa [Char.isDigit, UInt32.le_iff_toNat_le] using h
  have hall : ∀ d : Fin 10, (Nat.digitChar d).toNat = 48 + d.val := by decide
  have hdigit : (Nat.digitChar (c.toNat - 48)).toNat = c.toNat := by
    have heq := hall ⟨c.toNat - 48, by omega⟩
    rw [heq]
    exact Nat.add_sub_cancel' hrange.1
  refine ⟨c.toNat - 48, by omega, ?_, rfl⟩
  exact (Char.toNat_inj.mp hdigit).symm

theorem ofDigitChars_singleton {d : Nat} (h : d < 10) (n : Nat) :
    Nat.ofDigitChars 10 [Nat.digitChar d] n = 10 * n + d := by
  rw [Nat.ofDigitChars_cons_digitChar_of_lt_ten h, Nat.ofDigitChars_nil]

variable {cs : List Char}

theorem head_append {ds : List Char} (h : cs ≠ []) : (cs ++ ds).head? = cs.head? := by
  cases cs with
  | nil => exact absurd rfl h
  | cons c cs => rfl

theorem ofDigitChars_pos (hdigits : ∀ c ∈ cs, c.isDigit = true) (hne : cs ≠ [])
    (hhead : cs.head? ≠ some '0') : 0 < Nat.ofDigitChars 10 cs 0 := by
  induction cs using List.reverseRecOn with
  | nil => exact absurd rfl hne
  | append_singleton cs c ih =>
    obtain ⟨d, hd, rfl, -⟩ := exists_digit (hdigits c (List.mem_append_right _ List.mem_cons_self))
    rw [Nat.ofDigitChars_append, ofDigitChars_singleton hd]
    by_cases hcs : cs = []
    · subst hcs
      have hne : d ≠ 0 := by
        rintro rfl
        exact hhead rfl
      rw [Nat.ofDigitChars_nil]
      omega
    · have hpos := ih (fun c hc => hdigits c (List.mem_append_left _ hc)) hcs
        fun h => hhead (by rw [head_append hcs]; exact h)
      omega

/-- A decimal is the text of the number that it denotes. -/
theorem IsDecimal.toDigits_ofDigitChars (h : IsDecimal cs) :
    Nat.toDigits 10 (Nat.ofDigitChars 10 cs 0) = cs := by
  obtain ⟨hne, hdigits, hzero⟩ := h
  induction cs using List.reverseRecOn with
  | nil => exact absurd rfl hne
  | append_singleton cs c ih =>
    obtain ⟨d, hd, rfl, -⟩ := exists_digit (hdigits c (List.mem_append_right _ List.mem_cons_self))
    rw [Nat.ofDigitChars_append, ofDigitChars_singleton hd]
    by_cases hcs : cs = []
    · subst hcs
      rw [Nat.ofDigitChars_nil, Nat.mul_zero, Nat.zero_add, Nat.toDigits_of_lt_base hd]
      rfl
    · have hprefix : ∀ c ∈ cs, c.isDigit = true := fun c hc =>
        hdigits c (List.mem_append_left _ hc)
      have hhead : cs.head? ≠ some '0' := by
        intro hhead
        have hlength := hzero (by rw [head_append hcs]; exact hhead)
        have hpos := List.length_pos_iff.mpr hcs
        rw [List.length_append, List.length_singleton] at hlength
        omega
      rw [← Nat.toDigits_append_toDigits (by omega) (ofDigitChars_pos hprefix hcs hhead) hd,
        ih hcs hprefix fun h => absurd h hhead, Nat.toDigits_of_lt_base hd]

theorem head_toDigits {n : Nat} (h : 0 < n) : (Nat.toDigits 10 n).head? ≠ some '0' := by
  induction n using Nat.strongRecOn with
  | ind n ih =>
    by_cases hn : n < 10
    · have hall : ∀ d : Fin 10, 0 < d.val → Nat.digitChar d ≠ '0' := by decide
      rw [Nat.toDigits_of_lt_base hn, List.head?_cons]
      exact fun heq => hall ⟨n, hn⟩ h (Option.some.inj heq)
    · rw [Nat.toDigits_of_base_le (by omega) (by omega),
        head_append Nat.toDigits_ne_nil]
      exact ih (n / 10) (by omega) (by omega)

theorem isDecimal_toDigits (n : Nat) : IsDecimal (Nat.toDigits 10 n) where
  ne_nil := Nat.toDigits_ne_nil
  digits _ hc := Nat.isDigit_of_mem_toDigits (by omega) (by omega) hc
  zero h := by
    obtain rfl | hpos := Nat.eq_zero_or_pos n
    · rfl
    · exact absurd h (head_toDigits hpos)

end Buzz

/-! ## Integers as Lua numbers -/

namespace Buzz

/-- The integer nearest to `n / d`; ties go to the even one. -/
def roundHalfEven (n d : Nat) : Nat :=
  let q := n / d
  if 2 * (n % d) < d then q
  else if 2 * (n % d) = d then q + q % 2
  else q + 1

theorem div_le_roundHalfEven (n d : Nat) : n / d ≤ roundHalfEven n d := by
  simp only [roundHalfEven]
  split
  · omega
  · split <;> omega

/-- The double nearest to an integer, which is again an integer. -/
def luaNumber (n : Nat) : Nat :=
  if n < 2 ^ 53 then n else roundHalfEven n (2 ^ (Nat.log2 n - 52)) * 2 ^ (Nat.log2 n - 52)

variable {n : Nat}

theorem luaNumber_of_lt (h : n < 2 ^ 53) : luaNumber n = n := if_pos h

theorem le_luaNumber (h : 2 ^ 53 ≤ n) : 2 ^ 53 ≤ luaNumber n := by
  rw [luaNumber, if_neg (by omega)]
  have hlog : 53 ≤ Nat.log2 n := (Nat.le_log2 (by omega)).mpr h
  have hself : 2 ^ Nat.log2 n ≤ n := Nat.log2_self_le (by omega)
  have hsplit : 2 ^ Nat.log2 n = 2 ^ 52 * 2 ^ (Nat.log2 n - 52) := by
    rw [← pow_add, show 52 + (Nat.log2 n - 52) = Nat.log2 n by omega]
  have hdiv : 2 ^ 52 ≤ n / 2 ^ (Nat.log2 n - 52) := by
    rwa [Nat.le_div_iff_mul_le (Nat.two_pow_pos _), ← hsplit]
  calc 2 ^ 53 ≤ 2 ^ Nat.log2 n := Nat.pow_le_pow_right (by decide) hlog
    _ = 2 ^ 52 * 2 ^ (Nat.log2 n - 52) := hsplit
    _ ≤ roundHalfEven n (2 ^ (Nat.log2 n - 52)) * 2 ^ (Nat.log2 n - 52) :=
      Nat.mul_le_mul_right _ (hdiv.trans (div_le_roundHalfEven _ _))

/-- The mantissa digits of the exponent form: no trailing zeros, a point after the first digit. -/
def luaMantissa (q : Nat) : List Char :=
  match ((Nat.toDigits 10 q).reverse.dropWhile (· == '0')).reverse with
  | [] => []
  | [c] => [c]
  | c :: cs => c :: '.' :: cs

/-- `%.14g` of a double that is an integer of more than fourteen digits. -/
def luaExponentForm (d : Nat) : List Char :=
  let digits := (Nat.toDigits 10 d).length
  let q := roundHalfEven d (10 ^ (digits - 14))
  let exponent := if q = 10 ^ 14 then digits else digits - 1
  luaMantissa q ++ 'e' :: '+' :: Nat.toDigits 10 exponent

/-- `tostring` of an integer. -/
def luaToString (n : Nat) : String :=
  let d := luaNumber n
  if (Nat.toDigits 10 d).length ≤ 14 then Nat.repr d else String.ofList (luaExponentForm d)

/-- Integers of at most fourteen digits are printed exactly. -/
theorem luaToString_of_lt (h : n < 10 ^ 14) : luaToString n = Nat.repr n := by
  have hlen : (Nat.toDigits 10 n).length ≤ 14 :=
    (Nat.length_toDigits_le_iff (by decide) (by decide)).mpr h
  have hnum : luaNumber n = n := luaNumber_of_lt (by omega)
  simp only [luaToString, hnum, if_pos hlen]

theorem e_mem_luaToString (h : 10 ^ 14 ≤ n) : 'e' ∈ (luaToString n).toList := by
  have hnum : 10 ^ 14 ≤ luaNumber n := by
    by_cases hlt : n < 2 ^ 53
    · rwa [luaNumber_of_lt hlt]
    · have hle := le_luaNumber (Nat.le_of_not_lt hlt)
      omega
  have hlen : ¬ (Nat.toDigits 10 (luaNumber n)).length ≤ 14 := by
    rw [Nat.length_toDigits_le_iff (by decide) (by decide)]
    omega
  simp only [luaToString, if_neg hlen, String.toList_ofList, luaExponentForm]
  exact List.mem_append_right _ List.mem_cons_self

variable {c : Char}

theorem isDigit_of_mem_toDigits_ten (h : c ∈ Nat.toDigits 10 n) :
    c.isDigit = true := Nat.isDigit_of_mem_toDigits (by decide) (by decide) h

theorem mem_luaMantissa {q : Nat} (h : c ∈ luaMantissa q) : c.isDigit = true ∨ c = '.' := by
  have hdigit : ∀ d ∈ ((Nat.toDigits 10 q).reverse.dropWhile (· == '0')).reverse,
      d.isDigit = true := by
    intro d hd
    have hsub := (List.dropWhile_sublist _).subset (List.mem_reverse.mp hd)
    exact isDigit_of_mem_toDigits_ten (List.mem_reverse.mp hsub)
  rw [luaMantissa] at h
  split at h
  · nomatch h
  · next d heq =>
    rw [heq] at hdigit
    exact Or.inl (hdigit c h)
  · next d ds heq =>
    rw [heq] at hdigit
    rcases List.mem_cons.mp h with rfl | h
    · exact Or.inl (hdigit c List.mem_cons_self)
    · rcases List.mem_cons.mp h with rfl | h
      · exact Or.inr rfl
      · exact Or.inl (hdigit c (List.mem_cons_of_mem _ h))

/-- What is printed consists of digits, a point, and the exponent mark. -/
theorem mem_luaToString (h : c ∈ (luaToString n).toList) :
    c.isDigit = true ∨ c = '.' ∨ c = 'e' ∨ c = '+' := by
  simp only [luaToString] at h
  split at h
  · rw [Nat.toList_repr] at h
    exact Or.inl (isDigit_of_mem_toDigits_ten h)
  · rw [String.toList_ofList, luaExponentForm] at h
    rcases List.mem_append.mp h with h | h
    · rcases mem_luaMantissa h with h | h
      · exact Or.inl h
      · exact Or.inr (Or.inl h)
    · rcases List.mem_cons.mp h with h | h
      · exact Or.inr (Or.inr (Or.inl h))
      · rcases List.mem_cons.mp h with h | h
        · exact Or.inr (Or.inr (Or.inr h))
        · exact Or.inl (isDigit_of_mem_toDigits_ten h)

example : luaToString 99999999999999 = "99999999999999" := by decide +kernel

example : luaToString 100000000000000 = "1e+14" := by decide +kernel

end Buzz
