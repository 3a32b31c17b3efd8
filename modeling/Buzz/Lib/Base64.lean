import Mathlib.Data.List.Nodup

/-!
# Canonical base64

The standard alphabet, with padding. The decoder takes padding only where it is needed, and no bits
that are left over may be set, so that every text it accepts is the one that the encoder writes.
A second decoder does not look at the bits that are left over: it accepts the texts of digits with
padding at the end.
-/

namespace Buzz

open List Option

def base64Alphabet : List Char :=
  "ABCDEFGHIJKLMNOPQRSTUVWXYZabcdefghijklmnopqrstuvwxyz0123456789+/".toList

theorem length_base64Alphabet : base64Alphabet.length = 64 := by decide

theorem nodup_base64Alphabet : base64Alphabet.Nodup := by decide +kernel

/-- The digit of a number below 64. -/
def base64Digit (n : Nat) : Char := base64Alphabet[n]?.getD 'A'

def base64Value (c : Char) : Option Nat :=
  if c ∈ base64Alphabet then some (base64Alphabet.idxOf c) else none

variable {n : Nat}

theorem base64Digit_eq (h : n < base64Alphabet.length) : base64Digit n = base64Alphabet[n] := by
  rw [base64Digit, getElem?_eq_getElem h, getD_some]

@[simp] theorem base64Value_digit (h : n < 64) : base64Value (base64Digit n) = some n := by
  have hlt : n < base64Alphabet.length := length_base64Alphabet ▸ h
  rw [base64Value, base64Digit_eq hlt, if_pos (getElem_mem hlt),
    nodup_base64Alphabet.idxOf_getElem]

variable {c : Char}

theorem base64Digit_of_value (h : base64Value c = some n) : n < 64 ∧ base64Digit n = c := by
  rw [base64Value] at h
  split at h
  · next hmem =>
    cases h
    have hlt := idxOf_lt_length_of_mem hmem
    refine ⟨length_base64Alphabet ▸ hlt, ?_⟩
    simp [base64Digit_eq hlt]
  · cases h

theorem base64Value_pad : base64Value '=' = none := by decide

/-! ### Groups -/

def firstByte (w x : Nat) : UInt8 := UInt8.ofNat (w * 4 + x / 16)

/-- The byte in the middle of a group. -/
def secondByte (x y : Nat) : UInt8 := UInt8.ofNat (x % 16 * 16 + y / 4)

def thirdByte (y z : Nat) : UInt8 := UInt8.ofNat (y % 4 * 64 + z)

/-- A group with two digits: the bits that are left over are not set. -/
def decodeTwo (c d : Char) : Option (List UInt8) :=
  (base64Value c).bind fun w => (base64Value d).bind fun x =>
    if x % 16 = 0 then some [firstByte w x] else none

def decodeThree (c d e : Char) : Option (List UInt8) :=
  (base64Value c).bind fun w => (base64Value d).bind fun x => (base64Value e).bind fun y =>
    if y % 4 = 0 then some [firstByte w x, secondByte x y] else none

def decodeFour (c d e f : Char) : Option (List UInt8) :=
  (base64Value c).bind fun w => (base64Value d).bind fun x => (base64Value e).bind fun y =>
    (base64Value f).map fun z => [firstByte w x, secondByte x y, thirdByte y z]

/-- The bytes of a text. Only the last group may be padded. -/
def base64Decode : List Char → Option (List UInt8)
  | [] => some []
  | c :: d :: e :: f :: cs =>
    if f = '=' then
      if cs ≠ [] then none
      else if e = '=' then decodeTwo c d
      else decodeThree c d e
    else (decodeFour c d e f).bind fun bs => (base64Decode cs).map fun rest => bs ++ rest
  | _ => none

/-! ### What is read is what would be written -/

theorem toNat_ofNat_of_lt (h : n < 256) : (UInt8.ofNat n).toNat = n := by
  rw [UInt8.toNat_ofNat']
  exact Nat.mod_eq_of_lt h

/-! ### Bits that are left over -/

/-- A group with two digits, whatever is left over. -/
def bytesTwo (c d : Char) : Option (List UInt8) :=
  (base64Value c).bind fun w => (base64Value d).map fun x => [firstByte w x]

/-- A group with three digits, whatever is left over. -/
def bytesThree (c d e : Char) : Option (List UInt8) :=
  (base64Value c).bind fun w => (base64Value d).bind fun x =>
    (base64Value e).map fun y => [firstByte w x, secondByte x y]

/-- The bytes of a text, whatever bits are left over. -/
def base64Bytes : List Char → Option (List UInt8)
  | [] => some []
  | c :: d :: e :: f :: cs =>
    if f = '=' then
      if cs ≠ [] then none
      else if e = '=' then bytesTwo c d
      else bytesThree c d e
    else (decodeFour c d e f).bind fun bs => (base64Bytes cs).map fun rest => bs ++ rest
  | _ => none

/-- Digits, then at most two padding characters, up to a multiple of four. -/
def IsPaddedBase64 (cs : List Char) : Prop :=
  cs.length % 4 = 0 ∧ ∃ digits pad, cs = digits ++ replicate pad '=' ∧ pad ≤ 2 ∧
    ∀ c ∈ digits, c ∈ base64Alphabet

theorem base64Value_isSome_iff : (∃ w, base64Value c = some w) ↔ c ∈ base64Alphabet := by
  rw [base64Value]
  split <;> simp_all

theorem pad_notMem : '=' ∉ base64Alphabet := by decide

variable {cs : List Char}

theorem isPaddedBase64_cons {d e f : Char} (hf : f ≠ '=') :
    IsPaddedBase64 (c :: d :: e :: f :: cs) ↔ (c ∈ base64Alphabet ∧ d ∈ base64Alphabet ∧
      e ∈ base64Alphabet ∧ f ∈ base64Alphabet) ∧ IsPaddedBase64 cs := by
  constructor
  · rintro ⟨hlen, digits, pad, heq, hpad, hdigits⟩
    rw [length_cons, length_cons, length_cons, length_cons] at hlen
    match digits with
    | c' :: d' :: e' :: f' :: digits =>
      simp only [cons_append, cons.injEq] at heq
      obtain ⟨rfl, rfl, rfl, rfl, rfl⟩ := heq
      simp only [mem_cons, forall_eq_or_imp] at hdigits
      obtain ⟨hc, hd, he, hf, hdigits⟩ := hdigits
      exact ⟨⟨hc, hd, he, hf⟩, by omega, digits, pad, rfl, hpad, hdigits⟩
    -- with fewer digits the group would end in padding
    | [] | [_] | [_, _] | [_, _, _] =>
      obtain _ | _ | _ | pad := pad
      all_goals simp [replicate_succ] at heq hpad
      all_goals exact absurd heq.2.2.2.1 hf
  · rintro ⟨⟨hc, hd, he, hf⟩, hlen, digits, pad, rfl, hpad, hdigits⟩
    refine ⟨?_, c :: d :: e :: f :: digits, pad, rfl, hpad, ?_⟩
    · simp only [length_cons]
      omega
    · simp only [mem_cons, forall_eq_or_imp]
      exact ⟨hc, hd, he, hf, hdigits⟩

theorem isPaddedBase64_last {d e : Char} :
    IsPaddedBase64 (c :: d :: e :: '=' :: cs) ↔ cs = [] ∧ c ∈ base64Alphabet ∧
      d ∈ base64Alphabet ∧ (e = '=' ∨ e ∈ base64Alphabet) := by
  constructor
  · rintro ⟨hlen, digits, pad, heq, hpad, hdigits⟩
    rw [length_cons, length_cons, length_cons, length_cons] at hlen
    match digits with
    | c' :: d' :: e' :: f' :: digits =>
      simp only [cons_append, cons.injEq] at heq
      obtain ⟨rfl, rfl, rfl, rfl, rfl⟩ := heq
      exact absurd (hdigits '=' (by simp)) pad_notMem
    | [] | [_] =>
      obtain _ | _ | _ | pad := pad
      all_goals simp [replicate_succ] at heq hpad
    | [c', d'] =>
      obtain _ | _ | _ | pad := pad
      all_goals simp [replicate_succ] at heq hpad
      obtain ⟨rfl, rfl, rfl, rfl⟩ := heq
      exact ⟨rfl, hdigits _ (by simp), hdigits _ (by simp), .inl rfl⟩
    | [c', d', e'] =>
      obtain _ | _ | _ | pad := pad
      all_goals simp [replicate_succ] at heq hpad
      · obtain ⟨rfl, rfl, rfl, rfl⟩ := heq
        exact ⟨rfl, hdigits _ (by simp), hdigits _ (by simp), .inr (hdigits _ (by simp))⟩
      · obtain ⟨rfl, rfl, rfl, rfl⟩ := heq
        simp at hlen
  · rintro ⟨rfl, hc, hd, rfl | he⟩
    · exact ⟨by simp, [c, d], 2, rfl, Nat.le_refl 2, by simp [hc, hd]⟩
    · exact ⟨by simp, [c, d, e], 1, rfl, Nat.le_succ 1, by simp [hc, hd, he]⟩

theorem isSome_base64Bytes_iff : (∃ bs, base64Bytes cs = some bs) ↔ IsPaddedBase64 cs := by
  induction cs using base64Bytes.induct with
  | case1 => exact iff_of_true ⟨[], rfl⟩ ⟨rfl, [], 0, rfl, Nat.zero_le 2, by simp⟩
  | case2 c d e cs hcs =>
    simp [isPaddedBase64_last, base64Bytes, hcs]
  | case3 c d cs hcs =>
    obtain rfl : cs = [] := not_not.mp hcs
    rw [isPaddedBase64_last, base64Bytes, if_pos rfl, if_neg hcs, if_pos rfl, bytesTwo]
    simp only [bind_eq_some_iff, map_eq_some_iff, ← base64Value_isSome_iff]
    grind
  | case4 c d e cs hcs he =>
    obtain rfl : cs = [] := not_not.mp hcs
    rw [isPaddedBase64_last, base64Bytes, if_pos rfl, if_neg hcs, if_neg he, bytesThree]
    simp only [bind_eq_some_iff, map_eq_some_iff, ← base64Value_isSome_iff]
    grind
  | case5 c d e f cs hf ih =>
    rw [isPaddedBase64_cons hf, ← ih, base64Bytes, if_neg hf, decodeFour]
    simp only [bind_eq_some_iff, map_eq_some_iff, ← base64Value_isSome_iff]
    grind
  | case6 cs hnil hfour =>
    refine iff_of_false ?_ fun h => ?_
    · rintro ⟨bs, h⟩
      rw [base64Bytes] at h
      · cases h
      · exact hnil
      · exact hfour
    · obtain ⟨hlen, -⟩ := h
      match cs with
      | [] => exact hnil rfl
      | c :: d :: e :: f :: cs => exact hfour c d e f cs rfl
      | [_] | [_, _] | [_, _, _] => simp at hlen

variable {bs : List UInt8}

theorem decodeFour_eq_some_iff {d e f : Char} :
    decodeFour c d e f = some bs ↔ ∃ w x y z, base64Value c = some w ∧ base64Value d = some x ∧
      base64Value e = some y ∧ base64Value f = some z ∧
        bs = [firstByte w x, secondByte x y, thirdByte y z] := by
  simp only [decodeFour, bind_eq_some_iff, map_eq_some_iff]
  grind

theorem ne_pad_of_base64Value {w : Nat} (h : base64Value c = some w) : c ≠ '=' := by
  rintro rfl
  rw [base64Value_pad] at h
  cases h

/-- Three bytes for four characters, less the padding. -/
theorem length_base64Bytes (h : base64Bytes cs = some bs) :
    bs.length + cs.count '=' = cs.length / 4 * 3 := by
  induction cs using base64Bytes.induct generalizing bs with
  | case1 =>
    cases h
    rfl
  | case2 c d e cs hcs =>
    rw [base64Bytes, if_pos rfl, if_pos hcs] at h
    cases h
  | case3 c d cs hcs =>
    obtain rfl : cs = [] := not_not.mp hcs
    rw [base64Bytes, if_pos rfl, if_neg hcs, if_pos rfl] at h
    obtain ⟨w, hw, h⟩ := bind_eq_some_iff.mp h
    obtain ⟨x, hx, rfl⟩ := map_eq_some_iff.mp h
    simp [ne_pad_of_base64Value hw, ne_pad_of_base64Value hx]
  | case4 c d e cs hcs he =>
    obtain rfl : cs = [] := not_not.mp hcs
    rw [base64Bytes, if_pos rfl, if_neg hcs, if_neg he] at h
    obtain ⟨w, hw, h⟩ := bind_eq_some_iff.mp h
    obtain ⟨x, hx, h⟩ := bind_eq_some_iff.mp h
    obtain ⟨y, -, rfl⟩ := map_eq_some_iff.mp h
    simp [ne_pad_of_base64Value hw, ne_pad_of_base64Value hx, he]
  | case5 c d e f cs hf ih =>
    rw [base64Bytes, if_neg hf] at h
    obtain ⟨first, hfirst, h⟩ := bind_eq_some_iff.mp h
    obtain ⟨rest, hrest, rfl⟩ := map_eq_some_iff.mp h
    obtain ⟨w, x, y, z, hw, hx, hy, -, rfl⟩ := decodeFour_eq_some_iff.mp hfirst
    have hlen := ih hrest
    simp [ne_pad_of_base64Value hw, ne_pad_of_base64Value hx,
      ne_pad_of_base64Value hy, hf]
    omega
  | case6 cs hnil hfour =>
    rw [base64Bytes] at h
    · cases h
    · exact hnil
    · exact hfour

theorem head?_base64Bytes {d : Char} (h : base64Bytes (c :: d :: cs) = some bs) :
    ∃ w x, base64Value c = some w ∧ base64Value d = some x ∧ bs.head? = some (firstByte w x) := by
  match cs with
  | [] | [_] => cases h
  | e :: f :: cs =>
    rw [base64Bytes] at h
    split at h
    · split at h
      · cases h
      split at h
      · obtain ⟨w, hw, h⟩ := bind_eq_some_iff.mp h
        obtain ⟨x, hx, rfl⟩ := map_eq_some_iff.mp h
        exact ⟨w, x, hw, hx, rfl⟩
      · obtain ⟨w, hw, h⟩ := bind_eq_some_iff.mp h
        obtain ⟨x, hx, h⟩ := bind_eq_some_iff.mp h
        obtain ⟨y, -, rfl⟩ := map_eq_some_iff.mp h
        exact ⟨w, x, hw, hx, rfl⟩
    · obtain ⟨first, hfirst, h⟩ := bind_eq_some_iff.mp h
      obtain ⟨rest, -, rfl⟩ := map_eq_some_iff.mp h
      obtain ⟨w, x, y, z, hw, hx, -, -, rfl⟩ := decodeFour_eq_some_iff.mp hfirst
      exact ⟨w, x, hw, hx, rfl⟩

end Buzz
