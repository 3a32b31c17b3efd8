import Mathlib.Algebra.Order.Group.Int
import Mathlib.Algebra.Order.Group.Abs
import Buzz.Relay.Evm.Attested

/-!
# Freshness of events

The relay compares the time that an event gives for itself with its own clock. The time of an event
is any number of 64 bits, read as a signed one; release builds wrap where a subtraction or an
absolute value overflows.
-/

namespace Buzz.Freshness

open Evm (IngestError)

/-- The clock of the system, in seconds, with zero before the epoch. -/
def unixNow (durationSinceEpoch : Option UInt64) : Int64 :=
  (durationSinceEpoch.map UInt64.toInt64).getD 0

/-- The time of the event is more than `max` seconds away from the clock. -/
def outOfRange (max : Int64) (createdAt : UInt64) (now : Int64) : Bool :=
  (createdAt.toInt64 - now).abs > max

def maxTimestampDriftSecs : Int64 := 900

/-- The check of every event that comes in. -/
def ingestTimestampDrift (createdAt : UInt64) (now : Int64) : Except IngestError Unit :=
  if outOfRange maxTimestampDriftSecs createdAt now then
    .error (.rejected "invalid: event timestamp too far from server time")
  else .ok ()

def leaveRequestFreshness (createdAt : UInt64) (clock : Option UInt64) : Except IngestError Unit :=
  if outOfRange 120 createdAt (unixNow clock) then
    .error (.rejected ("invalid: leave request timestamp out of range (delta=" ++
      toString (createdAt.toInt64 - unixNow clock) ++ "s, max ±120s)"))
  else .ok ()

/-- The text of the two checks that are not of the ingest. -/
def timestampOutOfRange (createdAt : UInt64) (now : Int64) : String :=
  "event timestamp out of range: created_at=" ++ toString createdAt.toInt64 ++ ", now=" ++
    toString now ++ ", delta=" ++ toString (createdAt.toInt64 - now) ++ "s (max ±120s)"

/-- The check of an admin command. -/
def relayAdminFreshness (createdAt : UInt64) (clock : Option UInt64) : Except String Unit :=
  if outOfRange 120 createdAt (unixNow clock) then
    .error (timestampOutOfRange createdAt (unixNow clock))
  else .ok ()

/-- `enforce_freshness`: the check of an archive request. -/
def enforceFreshness (createdAt : UInt64) (clock : Option UInt64) : Except String Unit :=
  if outOfRange 120 createdAt (unixNow clock) then
    .error (timestampOutOfRange createdAt (unixNow clock))
  else .ok ()

variable {createdAt : UInt64} {now max : Int64}

/-! ### Signed words -/

theorem toInt_drift (hnow : 0 ≤ now.toInt) : (createdAt.toInt64 - now).toInt =
    if (createdAt.toNat : ℤ) < 2 ^ 63 + now.toInt then createdAt.toNat - now.toInt
    else createdAt.toNat - now.toInt - 2 ^ 64 := by
  have hcreated : createdAt.toNat < 2 ^ 64 := createdAt.toNat_lt
  have hnow' : now.toInt < 2 ^ 63 := now.toInt_lt
  have hcast : createdAt.toInt64.toInt = (createdAt.toNat : ℤ).bmod (2 ^ 64) :=
    BitVec.toInt_eq_toNat_bmod createdAt.toBitVec
  rw [Int64.toInt_sub, hcast, Int.bmod_sub_bmod, Int.bmod_def]
  split <;> split <;> push_cast at * <;> omega

theorem toInt_abs (x : Int64) : x.abs.toInt = if x.toInt = -2 ^ 63 then -2 ^ 63 else |x.toInt| := by
  have hint : x.abs.toInt = x.toBitVec.abs.toInt := rfl
  have hx : x.toBitVec.toInt = x.toInt := rfl
  have hmin : (BitVec.intMin 64).toInt = -2 ^ 63 := by decide
  rw [hint, BitVec.toInt_abs_eq_natAbs]
  by_cases h : x.toBitVec = BitVec.intMin 64
  · have hleast : x.toInt = -2 ^ 63 := by rw [← hx, h, hmin]
    rw [if_pos h, if_pos hleast, hmin]
  · have hleast : x.toInt ≠ -2 ^ 63 := by
      rw [← hx, ← hmin]
      exact fun heq => h (BitVec.eq_of_toInt_eq heq)
    rw [if_neg h, if_neg hleast, hx, Int.natCast_natAbs]

/-! ### The checks -/

/-- **A check of the range.** Next to the events in the window, it lets the one pass whose distance
from the clock has no absolute value. -/
theorem outOfRange_eq_false_iff (hmax : 0 ≤ max.toInt) (hbelow : max.toInt < now.toInt)
    (habove : now.toInt + max.toInt < 2 ^ 63) : outOfRange max createdAt now = false ↔
      |(createdAt.toNat : ℤ) - now.toInt| ≤ max.toInt ∨ (createdAt.toNat : ℤ) = 2 ^ 63 + now.toInt := by
  have hcreated : createdAt.toNat < 2 ^ 64 := createdAt.toNat_lt
  rw [outOfRange, decide_eq_false_iff_not, gt_iff_lt, Int64.lt_iff_toInt_lt, not_lt, toInt_abs,
    toInt_drift (hmax.trans hbelow.le)]
  split
  · next hnear =>
    have hleast : (createdAt.toNat : ℤ) - now.toInt ≠ -2 ^ 63 := by omega
    rw [if_neg hleast]
    exact ⟨.inl, fun h => h.resolve_right hnear.ne⟩
  · next hfar =>
    -- The distance has wrapped: it is at least the reading of the clock, unless it is the least word.
    have hout : ¬|(createdAt.toNat : ℤ) - now.toInt| ≤ max.toInt := by
      rw [abs_le]
      omega
    by_cases hleast : (createdAt.toNat : ℤ) - now.toInt - 2 ^ 64 = -2 ^ 63
    · rw [if_pos hleast]
      exact ⟨fun _ => .inr (by omega), fun _ => by omega⟩
    · have hwrapped : ¬|(createdAt.toNat : ℤ) - now.toInt - 2 ^ 64| ≤ max.toInt := by
        rw [abs_le]
        omega
      rw [if_neg hleast]
      exact ⟨fun h => absurd h hwrapped, fun h => h.elim (fun h => absurd h hout) (by omega)⟩

/-- A clock at a plausible date: after the first quarter of an hour of the epoch, and before the last
one that is a signed word. -/
def Plausible (now : UInt64) : Prop := 900 < now.toNat ∧ now.toNat + 900 < 2 ^ 63

instance : DecidablePred Plausible := fun _ => inferInstanceAs (Decidable (_ ∧ _))

/-- A check that accepts the events in the window, and no others. -/
def Exact {ε : Type} (check : Except ε Unit) (createdAt now : UInt64) (window : ℤ) : Prop :=
  check = .ok () ↔ |(createdAt.toNat : ℤ) - now.toNat| ≤ window

theorem toInt_of_plausible {now : UInt64} (hnow : Plausible now) : now.toInt64.toInt = now.toNat := by
  have hcast : now.toInt64.toInt = (now.toNat : ℤ).bmod (2 ^ 64) :=
    BitVec.toInt_eq_toNat_bmod now.toBitVec
  obtain ⟨-, hlt⟩ := hnow
  rw [hcast, Int.bmod_eq_of_le (by omega) (by omega)]

theorem exact_iff {ε : Type} {e : ε} {now : UInt64} (max : Int64) (hnow : Plausible now)
    (hmax : 0 ≤ max.toInt) (hle : max.toInt ≤ 900) :
    Exact (if outOfRange max createdAt now.toInt64 then .error e else .ok ()) createdAt now max.toInt ↔
      createdAt.toNat ≠ 2 ^ 63 + now.toNat := by
  have hint := toInt_of_plausible hnow
  obtain ⟨hlow, hhigh⟩ := hnow
  have hrange : outOfRange max createdAt now.toInt64 = false ↔ _ :=
    outOfRange_eq_false_iff hmax (by omega) (by omega)
  have hok : (if outOfRange max createdAt now.toInt64 then (.error e : Except ε Unit) else .ok ()) =
      .ok () ↔ outOfRange max createdAt now.toInt64 = false := by
    cases outOfRange max createdAt now.toInt64 with
    | true => simp
    | false => simp
  rw [Exact, hok, hrange, hint]
  constructor
  · intro hexact heq
    have hin := hexact.mp (.inr (by exact_mod_cast heq))
    rw [abs_le] at hin
    omega
  · intro hne
    exact ⟨fun h => h.resolve_right fun heq => hne (by exact_mod_cast heq), .inl⟩

/-- **The checks are exact but for one time.** Each accepts the events in its window, and no others,
unless the event is exactly `2 ^ 63` seconds ahead of the clock. -/
theorem fresh_exact_iff (createdAt now : UInt64) (hnow : Plausible now) :
    (Exact (ingestTimestampDrift createdAt now.toInt64) createdAt now 900 ↔
        createdAt.toNat ≠ 2 ^ 63 + now.toNat) ∧
      (Exact (leaveRequestFreshness createdAt (some now)) createdAt now 120 ↔
        createdAt.toNat ≠ 2 ^ 63 + now.toNat) ∧
      (Exact (relayAdminFreshness createdAt (some now)) createdAt now 120 ↔
        createdAt.toNat ≠ 2 ^ 63 + now.toNat) ∧
      (Exact (enforceFreshness createdAt (some now)) createdAt now 120 ↔
        createdAt.toNat ≠ 2 ^ 63 + now.toNat) :=
  ⟨exact_iff 900 hnow (by decide) (by decide),
    exact_iff 120 hnow (by decide) (by decide),
    exact_iff 120 hnow (by decide) (by decide),
    exact_iff 120 hnow (by decide) (by decide)⟩

/-- At a date in 2026: an event of the same second, and the one that is judged wrongly. -/
theorem fresh_exact_in_2026 :
    Exact (enforceFreshness 1780000000 (some 1780000000)) 1780000000 1780000000 120 ∧
      ¬Exact (enforceFreshness (9223372036854775808 + 1780000000) (some 1780000000))
        (9223372036854775808 + 1780000000) 1780000000 120 :=
  ⟨(fresh_exact_iff 1780000000 1780000000 (by decide)).2.2.2.mpr (by decide),
    fun h => (fresh_exact_iff (9223372036854775808 + 1780000000) 1780000000
      (by decide)).2.2.2.mp h (by decide)⟩

/-- An event of the far future is accepted by every check. -/
theorem far_future_accepted :
    ∃ createdAt now : UInt64, Plausible now ∧ 900 < |(createdAt.toNat : ℤ) - now.toNat| ∧
      ingestTimestampDrift createdAt now.toInt64 = .ok () ∧
      leaveRequestFreshness createdAt (some now) = .ok () ∧
      relayAdminFreshness createdAt (some now) = .ok () ∧
      enforceFreshness createdAt (some now) = .ok () := by
  refine ⟨9223372036854775808 + 1780000000, 1780000000, by decide, by decide, ?_⟩
  have hrange : ∀ max : Int64, 0 ≤ max.toInt → max.toInt ≤ 900 →
      outOfRange max (9223372036854775808 + 1780000000) (unixNow (some 1780000000)) = false := by
    intro max hmax hle
    rw [outOfRange_eq_false_iff hmax (lt_of_le_of_lt hle (by decide))
      (lt_of_le_of_lt (Int.add_le_add_left hle _) (by decide))]
    exact .inr (by decide)
  refine ⟨if_neg ?_, if_neg ?_, if_neg ?_, if_neg ?_⟩
  · exact Bool.eq_false_iff.mp (hrange maxTimestampDriftSecs (by decide) (by decide))
  · exact Bool.eq_false_iff.mp (hrange 120 (by decide) (by decide))
  · exact Bool.eq_false_iff.mp (hrange 120 (by decide) (by decide))
  · exact Bool.eq_false_iff.mp (hrange 120 (by decide) (by decide))

end Buzz.Freshness
