import Mathlib.Data.BitVec

/-!
# Address blocks

An address is a word of `w` bits. A block `base/n` holds the addresses whose first `n` bits are those
of the base. Code does not compare prefixes but masks a part of the word, or reads parts of it.
-/

namespace Buzz

/-- A block in CIDR notation. -/
structure AddressBlock (w : ℕ) where
  base : BitVec w
  prefixLength : ℕ
  prefixLength_le : prefixLength ≤ w := by decide
  dvd_base : 2 ^ (w - prefixLength) ∣ base.toNat := by decide

namespace AddressBlock

variable {w : ℕ}

def size (b : AddressBlock w) : ℕ := 2 ^ (w - b.prefixLength)

def Contains (b : AddressBlock w) (a : BitVec w) : Prop :=
  a >>> (w - b.prefixLength) = b.base >>> (w - b.prefixLength)

instance (b : AddressBlock w) (a : BitVec w) : Decidable (b.Contains a) :=
  inferInstanceAs (Decidable (_ = _))

variable {b : AddressBlock w} {a : BitVec w}

theorem contains_iff_div : b.Contains a ↔ a.toNat / b.size = b.base.toNat / b.size := by
  rw [Contains, ← BitVec.toNat_inj, BitVec.toNat_ushiftRight, BitVec.toNat_ushiftRight,
    Nat.shiftRight_eq_div_pow, Nat.shiftRight_eq_div_pow, size]

/-- **A block is an interval.** -/
theorem contains_iff_range :
    b.Contains a ↔ b.base.toNat ≤ a.toNat ∧ a.toNat < b.base.toNat + b.size := by
  have hpos : 0 < b.size := Nat.two_pow_pos _
  obtain ⟨q, hq⟩ : b.size ∣ b.base.toNat := b.dvd_base
  rw [contains_iff_div, hq, Nat.mul_div_cancel_left q hpos, Nat.div_eq_iff hpos, Nat.mul_comm q]
  omega

end AddressBlock

/-- **A mask compares the first bits.** -/
theorem and_mask_eq_iff {w k : ℕ} (x c : BitVec w) :
    x &&& BitVec.allOnes w <<< k = c ↔ x.toNat / 2 ^ k * 2 ^ k = c.toNat := by
  have hlt : x.toNat / 2 ^ k * 2 ^ k < 2 ^ w := (Nat.div_mul_le_self _ _).trans_lt x.isLt
  rw [← BitVec.shiftLeft_ushiftRight, ← BitVec.toNat_inj, BitVec.toNat_shiftLeft,
    BitVec.toNat_ushiftRight, Nat.shiftRight_eq_div_pow, Nat.shiftLeft_eq, Nat.mod_eq_of_lt hlt]

end Buzz
