import Mathlib.Algebra.Order.BigOperators.Group.List
import Mathlib.Data.Vector.Basic
import Buzz.Lib.Bytes

/-!
# The encoding of arguments by Solidity

The arguments of a call are encoded as a tuple: a head of one word for every argument, and the data
of those that have no fixed size behind it. The word of such an argument is the offset of its data,
which is its length and its bytes, padded to whole words.
-/

namespace Buzz.Abi

def word (n : ℕ) : List UInt8 := bytesBE 32 n

@[simp] theorem length_word (n : ℕ) : (word n).length = 32 := length_bytesBE 32 n

/-- How many bytes are missing to whole words. -/
def missing (n : ℕ) : ℕ := (32 - n % 32) % 32

theorem dvd_add_missing (n : ℕ) : 32 ∣ n + missing n := by
  rw [missing]
  omega

def padded (bs : List UInt8) : List UInt8 := bs ++ List.replicate (missing bs.length) 0

theorem length_padded (bs : List UInt8) : (padded bs).length = bs.length + missing bs.length := by
  simp [padded]

/-- An argument: a word, or bytes of any length. -/
inductive Argument where
  | word (w : Vector UInt8 32)
  | bytes (bs : List UInt8)

def Argument.tail : Argument → List UInt8
  | word _ => []
  | bytes bs => Abi.word bs.length ++ padded bs

/-- The word of an argument, when its data has this offset. -/
def Argument.head (offset : ℕ) : Argument → List UInt8
  | word w => w.toList
  | bytes _ => Abi.word offset

def heads : ℕ → List Argument → List UInt8
  | _, [] => []
  | offset, a :: as => a.head offset ++ heads (offset + a.tail.length) as

def encode (as : List Argument) : List UInt8 :=
  heads (32 * as.length) as ++ as.flatMap Argument.tail

theorem length_head (offset : ℕ) (a : Argument) : (a.head offset).length = 32 := by
  cases a with
  | word w => exact Vector.length_toList
  | bytes bs => exact length_word offset

theorem length_heads (offset : ℕ) (as : List Argument) :
    (heads offset as).length = 32 * as.length := by
  induction as generalizing offset with
  | nil => rfl
  | cons a as ih =>
    rw [heads, List.length_append, length_head, ih, List.length_cons]
    omega

theorem dvd_length_tail (a : Argument) : 32 ∣ a.tail.length := by
  cases a with
  | word w => exact dvd_zero 32
  | bytes bs =>
    rw [Argument.tail, List.length_append, length_word, length_padded]
    exact Nat.dvd_add (dvd_refl 32) (dvd_add_missing _)

theorem dvd_length_encode (as : List Argument) : 32 ∣ (encode as).length := by
  have htails : 32 ∣ (as.flatMap Argument.tail).length := by
    induction as with
    | nil => exact dvd_zero 32
    | cons a as ih =>
      rw [List.flatMap_cons, List.length_append]
      exact Nat.dvd_add (dvd_length_tail a) ih
  rw [encode, List.length_append, length_heads]
  exact Nat.dvd_add (dvd_mul_right 32 _) htails

end Buzz.Abi
