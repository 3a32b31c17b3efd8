import Mathlib.Data.List.Basic
import Buzz.Lib.Bytes

/-!
# Hexadecimal strings

Bytes in hexadecimal: written in lower case, read in either case. Numbers written with the same
number of bytes are compared as texts the way they are compared as numbers: the digits are in the
order of their characters.
-/

namespace Buzz

open List Option

/-- The two digits of a byte, in lower case. -/
def hexByte (b : UInt8) : List Char := [Nat.digitChar (b.toNat / 16), Nat.digitChar (b.toNat % 16)]

/-- Bytes in lower-case hexadecimal. -/
def hexEncode (bs : List UInt8) : String := String.ofList (bs.flatMap hexByte)

/-- The value of a hexadecimal digit, in either case. -/
def hexVal (c : Char) : Option Nat :=
  if '0' ≤ c ∧ c ≤ '9' then some (c.toNat - 48)
  else if 'a' ≤ c ∧ c ≤ 'f' then some (c.toNat - 87)
  else if 'A' ≤ c ∧ c ≤ 'F' then some (c.toNat - 55)
  else none

/-- The bytes that pairs of digits stand for. -/
def hexDecodeChars : List Char → Option (List UInt8)
  | [] => some []
  | [_] => none
  | a :: b :: cs =>
    (hexVal a).bind fun x => (hexVal b).bind fun y =>
      (hexDecodeChars cs).map fun bs => UInt8.ofNat (16 * x + y) :: bs

/-- The bytes of a hexadecimal string; `none` if it has odd length or another character. -/
def hexDecode (s : String) : Option (List UInt8) := hexDecodeChars s.toList

variable {n : Nat}

theorem hexVal_digitChar (h : n < 16) : hexVal (Nat.digitChar n) = some n := by
  have hall : ∀ k : Fin 16, hexVal (Nat.digitChar k) = some k.val := by decide
  exact hall ⟨n, h⟩

theorem hexDecodeChars_flatMap (bs : List UInt8) :
    hexDecodeChars (bs.flatMap hexByte) = some bs := by
  induction bs with
  | nil => rfl
  | cons b bs ih =>
    have hb : b.toNat < 256 := b.toNat_lt
    have hdiv : b.toNat / 16 < 16 := by omega
    have hmod : b.toNat % 16 < 16 := by omega
    simp only [flatMap_cons, hexByte, cons_append, nil_append, hexDecodeChars]
    rw [hexVal_digitChar hdiv, bind_some, hexVal_digitChar hmod, bind_some, ih,
      map_some, Nat.div_add_mod, UInt8.ofNat_toNat]

theorem hexDecode_hexEncode (bs : List UInt8) : hexDecode (hexEncode bs) = some bs := by
  rw [hexDecode, hexEncode, String.toList_ofList, hexDecodeChars_flatMap]

theorem hexEncode_injective : Function.Injective hexEncode := by
  intro as bs h
  have ha := hexDecode_hexEncode as
  rw [h, hexDecode_hexEncode] at ha
  exact (some.inj ha).symm

theorem length_flatMap_hexByte (bs : List UInt8) : (bs.flatMap hexByte).length = 2 * bs.length := by
  induction bs with
  | nil => rfl
  | cons b bs ih =>
    rw [flatMap_cons, length_append, ih, length_cons]
    simp only [hexByte, length_cons, length_nil]
    omega

variable {bs : List UInt8} {c : Char}

theorem isUpper_iff : c.isUpper = true ↔ 65 ≤ c.toNat ∧ c.toNat ≤ 90 := decide_eq_true_iff

theorem isLower_iff : c.isLower = true ↔ 97 ≤ c.toNat ∧ c.toNat ≤ 122 :=
  Bool.and_eq_true_iff.trans (and_congr decide_eq_true_iff decide_eq_true_iff)

theorem isDigit_iff : c.isDigit = true ↔ 48 ≤ c.toNat ∧ c.toNat ≤ 57 :=
  Bool.and_eq_true_iff.trans (and_congr decide_eq_true_iff decide_eq_true_iff)

theorem toNat_le_of_isAlphanum (h : c.isAlphanum = true) : c.toNat ≤ 127 := by
  rcases Bool.or_eq_true_iff.mp h with halpha | hdigit
  · rcases Bool.or_eq_true_iff.mp halpha with hupper | hlower
    · exact (isUpper_iff.mp hupper).2.trans (by decide)
    · exact (isLower_iff.mp hlower).2.trans (by decide)
  · exact (isDigit_iff.mp hdigit).2.trans (by decide)

theorem exists_digitChar_of_mem_hexEncode (h : c ∈ (hexEncode bs).toList) :
    ∃ n < 16, c = Nat.digitChar n := by
  rw [hexEncode, String.toList_ofList] at h
  obtain ⟨b, -, hc⟩ := mem_flatMap.mp h
  have hb : b.toNat < 256 := b.toNat_lt
  rcases mem_pair.mp hc with rfl | rfl
  · exact ⟨_, by omega, rfl⟩
  · exact ⟨_, by omega, rfl⟩

theorem digitChar_of_hexVal (h : hexVal c = some n) (hlower : c.isUpper = false) :
    n < 16 ∧ Nat.digitChar n = c := by
  have hall : ∀ d : Fin 16,
      (Nat.digitChar d).toNat = if d.val < 10 then 48 + d.val else 87 + d.val := by decide
  have hdigit : ∀ m < 16, c.toNat = (if m < 10 then 48 + m else 87 + m) → Nat.digitChar m = c :=
    fun m hm hc => Char.toNat_inj.mp ((hall ⟨m, hm⟩).trans hc.symm)
  simp only [hexVal, Char.le_def, UInt32.le_iff_toNat_le] at h
  split at h
  · next hrange =>
    obtain ⟨hlow, hhigh⟩ := hrange
    have hlow' : 48 ≤ c.toNat := hlow
    have hhigh' : c.toNat ≤ 57 := hhigh
    cases h
    exact ⟨by omega, hdigit _ (by omega) (by rw [if_pos (by omega)]; omega)⟩
  · split at h
    · next hrange =>
      obtain ⟨hlow, hhigh⟩ := hrange
      have hlow' : 97 ≤ c.toNat := hlow
      have hhigh' : c.toNat ≤ 102 := hhigh
      cases h
      exact ⟨by omega, hdigit _ (by omega) (by rw [if_neg (by omega)]; omega)⟩
    · split at h
      · next hrange =>
        have hlow' : 65 ≤ c.toNat := hrange.1
        have hhigh' : c.toNat ≤ 70 := hrange.2
        have hupper : c.isUpper = true := isUpper_iff.mpr (by omega)
        rw [hupper] at hlower
        cases hlower
      · cases h

theorem hexByte_ofNat {x y : Nat} (hx : x < 16) (hy : y < 16) :
    hexByte (UInt8.ofNat (16 * x + y)) = [Nat.digitChar x, Nat.digitChar y] := by
  have hbyte : (UInt8.ofNat (16 * x + y)).toNat = 16 * x + y := by
    rw [UInt8.toNat_ofNat']
    omega
  have hdiv : (16 * x + y) / 16 = x := by omega
  have hmod : (16 * x + y) % 16 = y := by omega
  rw [hexByte, hbyte, hdiv, hmod]

theorem flatMap_hexByte_of_hexDecodeChars {cs : List Char} (h : hexDecodeChars cs = some bs)
    (hlower : ∀ c ∈ cs, c.isUpper = false) : bs.flatMap hexByte = cs := by
  fun_induction hexDecodeChars cs generalizing bs with
  | case1 =>
    cases h
    rfl
  | case2 => cases h
  | case3 a b cs ih =>
    obtain ⟨x, hx, h⟩ := bind_eq_some_iff.mp h
    obtain ⟨y, hy, h⟩ := bind_eq_some_iff.mp h
    obtain ⟨rest, hrest, rfl⟩ := map_eq_some_iff.mp h
    obtain ⟨hxlt, hxc⟩ := digitChar_of_hexVal hx (hlower a (by simp))
    obtain ⟨hylt, hyc⟩ := digitChar_of_hexVal hy (hlower b (by simp))
    have htail := ih hrest fun c hc => hlower c (by simp [hc])
    rw [flatMap_cons, hexByte_ofNat hxlt hylt, hxc, hyc, htail]
    rfl

theorem hexEncode_of_hexDecode {s : String} (h : hexDecode s = some bs)
    (hlower : ∀ c ∈ s.toList, c.isUpper = false) : hexEncode bs = s := by
  rw [hexEncode, flatMap_hexByte_of_hexDecodeChars h hlower, String.ofList_toList]

theorem hexVal_isSome (h : c.isHexDigit = true) : (hexVal c).isSome = true := by
  simp only [Char.isHexDigit, Char.isDigit, Bool.or_eq_true, Bool.and_eq_true,
    decide_eq_true_eq] at h
  rw [hexVal]
  obtain (h | h) | h := h
  · have hrange : '0' ≤ c ∧ c ≤ '9' := h
    rw [if_pos hrange]
    rfl
  · have hrange : 'a' ≤ c ∧ c ≤ 'f' := h
    by_cases hdigit : '0' ≤ c ∧ c ≤ '9'
    · rw [if_pos hdigit]
      rfl
    · rw [if_neg hdigit, if_pos hrange]
      rfl
  · have hrange : 'A' ≤ c ∧ c ≤ 'F' := h
    by_cases hdigit : '0' ≤ c ∧ c ≤ '9'
    · rw [if_pos hdigit]
      rfl
    · rw [if_neg hdigit, if_pos hrange]
      split
      · rfl
      · rfl

theorem exists_hexDecodeChars {cs : List Char} (hlength : cs.length = 2 * n)
    (hdigits : ∀ c ∈ cs, c.isHexDigit = true) :
    ∃ bs, hexDecodeChars cs = some bs ∧ bs.length = n := by
  induction n generalizing cs with
  | zero => exact ⟨[], by rw [length_eq_zero_iff.mp hlength]; rfl, rfl⟩
  | succ n ih =>
    match cs, hlength with
    | a :: b :: cs, hlength =>
      obtain ⟨x, hx⟩ := isSome_iff_exists.mp (hexVal_isSome (hdigits a (by simp)))
      obtain ⟨y, hy⟩ := isSome_iff_exists.mp (hexVal_isSome (hdigits b (by simp)))
      have htail : cs.length = 2 * n := by
        rw [length_cons, length_cons] at hlength
        omega
      obtain ⟨bs, hbs, hn⟩ := ih htail fun c hc => hdigits c (by simp [hc])
      refine ⟨UInt8.ofNat (16 * x + y) :: bs, ?_, by rw [length_cons, hn]⟩
      rw [hexDecodeChars, hx, hy, hbs]
      rfl

/-! ### The order of the texts -/

theorem append_lt_append_iff {α : Type*} [LinearOrder α] {l m l' m' : List α}
    (h : l.length = m.length) : l ++ l' < m ++ m' ↔ l < m ∨ l = m ∧ l' < m' := by
  induction l generalizing m with
  | nil =>
    obtain rfl := length_eq_zero_iff.mp h.symm
    simp
  | cons a l ih =>
    cases m with
    | nil => simp at h
    | cons b m =>
      rw [cons_append, cons_append, cons_lt_cons_iff, cons_lt_cons_iff,
        ih (Nat.succ.inj h), cons.injEq]
      tauto

theorem digitChar_lt_iff {m : Nat} (hm : m < 16) (hn : n < 16) :
    Nat.digitChar m < Nat.digitChar n ↔ m < n := by
  have hall : ∀ i j : Fin 16, Nat.digitChar i < Nat.digitChar j ↔ i < j := by decide
  exact hall ⟨m, hm⟩ ⟨n, hn⟩

theorem digitChar_inj_iff {m : Nat} (hm : m < 16) (hn : n < 16) :
    Nat.digitChar m = Nat.digitChar n ↔ m = n := by
  have hall : ∀ i j : Fin 16, Nat.digitChar i = Nat.digitChar j ↔ i = j := by decide
  exact (hall ⟨m, hm⟩ ⟨n, hn⟩).trans (by simp)

theorem hexByte_lt_iff {a b : UInt8} : hexByte a < hexByte b ↔ a.toNat < b.toNat := by
  have ha : a.toNat < 256 := a.toNat_lt
  have hb : b.toNat < 256 := b.toNat_lt
  rw [hexByte, hexByte, cons_lt_cons_iff, cons_lt_cons_iff,
    digitChar_lt_iff (by omega) (by omega), digitChar_lt_iff (by omega) (by omega),
    digitChar_inj_iff (by omega) (by omega)]
  simp
  omega

/-- **The order of texts is the order of numbers.** -/
theorem hexEncode_bytesBE_lt_iff {k x y : Nat} (hx : x < 256 ^ k) (hy : y < 256 ^ k) :
    hexEncode (bytesBE k x) < hexEncode (bytesBE k y) ↔ x < y := by
  rw [hexEncode, hexEncode, String.lt_iff_toList_lt, String.toList_ofList, String.toList_ofList]
  induction k generalizing x y with
  | zero =>
    obtain rfl : x = 0 := by simpa using hx
    obtain rfl : y = 0 := by simpa using hy
    simp
  | succ k ih =>
    have hxdiv : x / 256 < 256 ^ k := Nat.div_lt_of_lt_mul (by rwa [Nat.mul_comm, ← Nat.pow_succ])
    have hydiv : y / 256 < 256 ^ k := Nat.div_lt_of_lt_mul (by rwa [Nat.mul_comm, ← Nat.pow_succ])
    have hlen : ((bytesBE k (x / 256)).flatMap hexByte).length =
        ((bytesBE k (y / 256)).flatMap hexByte).length := by
      rw [length_flatMap_hexByte, length_flatMap_hexByte, length_bytesBE, length_bytesBE]
    have heq : (bytesBE k (x / 256)).flatMap hexByte = (bytesBE k (y / 256)).flatMap hexByte ↔
        x / 256 = y / 256 := by
      constructor
      · intro h
        exact bytesBE_inj hxdiv hydiv (hexEncode_injective (congrArg String.ofList h))
      · intro h
        rw [h]
    have hxbyte : (UInt8.ofNat x).toNat = x % 256 := UInt8.toNat_ofNat'
    have hybyte : (UInt8.ofNat y).toNat = y % 256 := UInt8.toNat_ofNat'
    rw [bytesBE, bytesBE, flatMap_append, flatMap_append, append_lt_append_iff hlen,
      ih hxdiv hydiv, heq, flatMap_singleton, flatMap_singleton, hexByte_lt_iff, hxbyte,
      hybyte]
    omega

end Buzz
