import Mathlib.Data.List.Induction
import Mathlib.Data.String.Basic
import Mathlib.Tactic.Ring

/-!
# Byte strings

Numbers as byte strings of a fixed length, the most significant byte first, texts as byte strings,
byte strings cut into pieces of a bounded length, and what it is for a digest to be free of
collisions on the byte strings that occur.
-/

namespace Buzz

open List

/-! ### Numbers -/

instance lawfulBEqBytes : LawfulBEq (List UInt8) := inferInstance

/-- The last `k` bytes of `n`, the most significant one first. -/
def bytesBE : Nat → Nat → List UInt8
  | 0, _ => []
  | k + 1, n => bytesBE k (n / 256) ++ [UInt8.ofNat n]

def ofBytesBE (bs : List UInt8) : Nat := bs.foldl (fun n b => n * 256 + b.toNat) 0

@[simp] theorem length_bytesBE (k n : Nat) : (bytesBE k n).length = k := by
  induction k generalizing n with
  | zero => rfl
  | succ k ih => rw [bytesBE, length_append, ih, length_singleton]

theorem ofBytesBE_concat (bs : List UInt8) (b : UInt8) :
    ofBytesBE (bs ++ [b]) = ofBytesBE bs * 256 + b.toNat := by
  simp [ofBytesBE]

/-- The bytes of a number are the bytes of its remainder. -/
theorem ofBytesBE_bytesBE (k n : Nat) : ofBytesBE (bytesBE k n) = n % 256 ^ k := by
  induction k generalizing n with
  | zero =>
    rw [Nat.pow_zero, Nat.mod_one]
    rfl
  | succ k ih =>
    have hbyte : (UInt8.ofNat n).toNat = n % 256 := UInt8.toNat_ofNat'
    rw [bytesBE, ofBytesBE_concat, ih, hbyte, Nat.pow_succ, Nat.mul_comm (256 ^ k) 256,
      Nat.mod_mul]
    ring

theorem bytesBE_ofBytesBE (bs : List UInt8) : bytesBE bs.length (ofBytesBE bs) = bs := by
  induction bs using reverseRecOn with
  | nil => rfl
  | append_singleton bs b ih =>
    have hlt : b.toNat < 256 := b.toNat_lt
    have hdiv : (ofBytesBE bs * 256 + b.toNat) / 256 = ofBytesBE bs := by omega
    have hbyte : UInt8.ofNat (ofBytesBE bs * 256 + b.toNat) = b := by
      refine UInt8.toNat_inj.mp ?_
      rw [UInt8.toNat_ofNat']
      omega
    simp [ofBytesBE_concat, bytesBE, hdiv, hbyte, ih]

theorem ofBytesBE_lt (bs : List UInt8) : ofBytesBE bs < 256 ^ bs.length := by
  have h := ofBytesBE_bytesBE bs.length (ofBytesBE bs)
  rw [bytesBE_ofBytesBE] at h
  rw [h]
  exact Nat.mod_lt _ (Nat.pow_pos (by decide))

theorem bytesBE_add (k j n : Nat) : bytesBE (k + j) n = bytesBE k (n / 256 ^ j) ++ bytesBE j n := by
  induction j generalizing n with
  | zero => rw [Nat.add_zero, Nat.pow_zero, Nat.div_one, bytesBE, append_nil]
  | succ j ih =>
    have hdiv : n / 256 / 256 ^ j = n / 256 ^ (j + 1) := by
      rw [Nat.div_div_eq_div_mul, Nat.pow_succ, Nat.mul_comm]
    simp [bytesBE, ih, hdiv]

theorem bytesBE_inj {k x y : Nat} (hx : x < 256 ^ k) (hy : y < 256 ^ k)
    (h : bytesBE k x = bytesBE k y) : x = y := by
  rw [← Nat.mod_eq_of_lt hx, ← Nat.mod_eq_of_lt hy, ← ofBytesBE_bytesBE, h, ofBytesBE_bytesBE]

/-! ### Texts -/

def utf8 (s : String) : List UInt8 := s.toUTF8.data.toList

theorem utf8_injective : Function.Injective utf8 := by
  intro s t h
  have hdata : s.toUTF8.data = t.toUTF8.data := Array.toList_inj.mp h
  exact String.toByteArray_inj.mp (ByteArray.ext hdata)

/-- `from_utf8`. -/
def ofUtf8 (bs : List UInt8) : Option String := String.fromUTF8? ⟨bs.toArray⟩

/-- The bytes of a text are read back, and nothing else is. -/
theorem ofUtf8_eq_some_iff {bs : List UInt8} {s : String} : ofUtf8 bs = some s ↔ utf8 s = bs := by
  rw [ofUtf8, String.fromUTF8?]
  constructor
  · intro h
    split at h
    · cases h
      rfl
    · cases h
  · rintro rfl
    have hbytes : (⟨(utf8 s).toArray⟩ : ByteArray) = s.toByteArray := by
      rw [utf8, Array.toArray_toList, String.toUTF8_eq_toByteArray]
    rw [hbytes, dif_pos s.isValidUTF8]
    rfl

/-! ### Pieces -/

section

variable {α : Type*}

/-- At most `fuel` pieces of length `n`; the last one may be shorter. -/
def chunksAux (n : Nat) : Nat → List α → List (List α)
  | 0, _ => []
  | _ + 1, [] => []
  | fuel + 1, a :: l => (a :: l).take n :: chunksAux n fuel ((a :: l).drop n)

/-- `chunks`: the pieces of length `n` of a list; the last one may be shorter. -/
def chunks (n : Nat) (l : List α) : List (List α) := chunksAux n l.length l

theorem flatten_chunksAux {n : Nat} (hn : 0 < n) (fuel : Nat) (l : List α)
    (hfuel : l.length ≤ fuel) : (chunksAux n fuel l).flatten = l := by
  induction fuel generalizing l with
  | zero => exact (length_eq_zero_iff.mp (Nat.le_zero.mp hfuel)).symm
  | succ fuel ih =>
    cases l with
    | nil => rfl
    | cons a l =>
      have hrest : ((a :: l).drop n).length ≤ fuel := by
        rw [length_drop]
        rw [length_cons] at hfuel ⊢
        omega
      rw [chunksAux, flatten_cons, ih _ hrest]
      exact take_append_drop n (a :: l)

theorem flatten_chunks {n : Nat} (hn : 0 < n) (l : List α) : (chunks n l).flatten = l :=
  flatten_chunksAux hn l.length l (Nat.le_refl _)

end

/-! ### Digests -/

/-- A digest does not confuse two of these inputs. -/
def CollisionFree {α δ : Type*} (digest : α → δ) (xs : List α) : Prop :=
  ∀ x ∈ xs, ∀ y ∈ xs, digest x = digest y → x = y

instance {α δ : Type*} [DecidableEq α] [DecidableEq δ] (digest : α → δ) (xs : List α) :
    Decidable (CollisionFree digest xs) :=
  inferInstanceAs (Decidable (∀ x ∈ xs, ∀ y ∈ xs, digest x = digest y → x = y))

end Buzz
