import Buzz.Core.Basic
import Buzz.Core.Text

/-!
# When a scheduled workflow is due

The instant that a tick fires a schedule for. A cron schedule has instants of its own; an interval
divides time from the epoch into buckets, and the instant is the start of the bucket. Whether an
interval has elapsed is measured from an anchor, which is kept in memory.

The cron library is a parameter. Instants are nanoseconds.
-/

namespace Buzz.Workflow

/-- The first nanosecond of `DateTime<Utc>`. -/
def minNanos : Int := -8334601228800000000000

/-- The last nanosecond of `DateTime<Utc>`. -/
def maxNanos : Int := 8210266876799999999999

/-- `DateTime<Utc>`. -/
structure DateTime where
  nanos : Int
  inRange : minNanos ≤ nanos ∧ nanos ≤ maxNanos
  deriving DecidableEq

namespace DateTime

/-- The instant, when it is in range. -/
def ofNanos? (nanos : Int) : Option DateTime :=
  if h : minNanos ≤ nanos ∧ nanos ≤ maxNanos then some ⟨nanos, h⟩ else none

theorem nanos_of_ofNanos? {nanos : Int} {t : DateTime} (h : ofNanos? nanos = some t) :
    t.nanos = nanos := by
  unfold ofNanos? at h
  split at h
  · exact congrArg DateTime.nanos (Option.some.inj h).symm
  · nomatch h

/-- `timestamp`: whole seconds, rounded down. -/
def timestamp (t : DateTime) : Int := t.nanos / 1000000000

/-- `from_timestamp`, without a fraction. -/
def fromTimestamp (secs : Int) : Option DateTime := ofNanos? (secs * 1000000000)

/-- `(now - last).num_seconds()`: rounded towards zero. -/
def secondsSince (now last : DateTime) : Int := (now.nanos - last.nanos).tdiv 1000000000

end DateTime

/-! ### Durations -/

/-- A number of units, in seconds. -/
def parseUnits (duration digits : String) (secs : Nat) : Except String Nat :=
  match parseU64 (trim digits) with
  | none => .error ("invalid duration: " ++ duration)
  | some n =>
    if n * secs < 2 ^ 64 then .ok (n * secs) else .error ("duration overflow: " ++ duration)

def parseDurationSecs (duration : String) : Except String Nat :=
  let duration := trim duration
  match stripSuffixChar duration 'h', stripSuffixChar duration 'm', stripSuffixChar duration 's' with
  | some n, _, _ => parseUnits duration n 3600
  | none, some n, _ => parseUnits duration n 60
  | none, none, some n => parseUnits duration n 1
  | none, none, none =>
    match parseU64 duration with
    | none => .error ("invalid duration: " ++ duration)
    | some n => .ok n

/-! ### Schedules -/

structure CronLib where
  Schedule : Type
  parse : String → Option Schedule
  next : Schedule → DateTime → Option DateTime

/-- `normalize_cron`: seven fields. -/
def normalizeCron (expr : String) : String :=
  match fieldCount expr with
  | 5 => "0 " ++ expr ++ " *"
  | 6 => expr ++ " *"
  | _ => expr

def cronFireInstant (lib : CronLib) (expr : String) (now : DateTime) (windowSecs : Int) :
    Option DateTime :=
  (lib.parse (normalizeCron expr)).bind fun sched =>
    (DateTime.ofNanos? (now.nanos - windowSecs * 1000000000)).bind fun windowStart =>
      (lib.next sched windowStart).filter fun t => decide (t.nanos ≤ now.nanos)

/-- `as i64`. -/
def asI64 (n : Nat) : Int :=
  if n < 9223372036854775808 then n else (n : Int) - 18446744073709551616

def intervalFireInstant (dur : String) (now : DateTime) : Option DateTime :=
  match parseDurationSecs dur with
  | .ok intervalSecs =>
    if 0 < intervalSecs then
      DateTime.fromTimestamp (now.timestamp / asI64 intervalSecs * asI64 intervalSecs)
    else none
  | .error _ => none

def intervalShouldFire (dur : String) (lastFired : Option DateTime) (now : DateTime) : Bool :=
  match parseDurationSecs dur with
  | .ok intervalSecs => decide (intervalSecs ≤ (now.secondsSince (lastFired.getD now)).natAbs)
  | .error _ => false

/-- A workflow of a community. -/
structure Key where
  communityId : CommunityId
  workflowId : Uuid
  deriving DecidableEq

/-- `last_fired`: the anchors in memory. -/
abbrev LastFired := Key → Option DateTime

def LastFired.insert (lastFired : LastFired) (key : Key) (now : DateTime) : LastFired :=
  fun other => if other = key then some now else lastFired other

/-- `interval_prefilter_should_fire`: whether to fire, and the anchors afterwards. -/
def intervalPrefilterShouldFire (lastFired : LastFired) (key : Key) (dur : String)
    (last : Option DateTime) (now : DateTime) : Bool × LastFired :=
  if intervalShouldFire dur last now then (true, lastFired)
  else if last.isNone then (false, lastFired.insert key now)
  else (false, lastFired)

/-! ### Buckets and anchors -/

/-- A span of whole seconds, in nanoseconds. -/
def secondsNanos (secs : Nat) : Int := secs * 1000000000

/-- The start of the bucket of an instant. -/
def bucketStart (secs : Nat) (now : DateTime) : Int :=
  now.nanos / secondsNanos secs * secondsNanos secs

variable {secs : Nat}

theorem bucketStart_le (hpos : 0 < secs) (now : DateTime) :
    bucketStart secs now ≤ now.nanos ∧ now.nanos < bucketStart secs now + secondsNanos secs := by
  have hspan : 0 < secondsNanos secs := by unfold secondsNanos; omega
  have hdiv := Int.mul_ediv_add_emod now.nanos (secondsNanos secs)
  have hnonneg := Int.emod_nonneg now.nanos (Int.ne_of_gt hspan)
  have hlt := Int.emod_lt_of_pos now.nanos hspan
  rw [Int.mul_comm] at hdiv
  unfold bucketStart
  omega

variable {dur : String} {now : DateTime}

/-- An anchor that passes: an interval has elapsed since, or the clock was set back by one. -/
theorem elapsed_of_intervalShouldFire {last : DateTime}
    (hparse : parseDurationSecs dur = .ok secs)
    (h : intervalShouldFire dur (some last) now = true) :
    last.nanos + secondsNanos secs ≤ now.nanos ∨ now.nanos + secondsNanos secs ≤ last.nanos := by
  unfold intervalShouldFire at h
  rw [hparse] at h
  have hsecs : secs ≤ (now.secondsSince last).natAbs := of_decide_eq_true h
  rw [DateTime.secondsSince, Int.natAbs_tdiv] at hsecs
  have hdiv : secs ≤ (now.nanos - last.nanos).natAbs / 1000000000 := hsecs
  unfold secondsNanos
  omega

theorem not_intervalShouldFire_none (hparse : parseDurationSecs dur = .ok secs) (hpos : 0 < secs) :
    intervalShouldFire dur none now = false := by
  have hzero : now.secondsSince now = 0 := by
    simp [DateTime.secondsSince]
  unfold intervalShouldFire
  rw [hparse]
  refine decide_eq_false ?_
  rw [Option.getD_none, hzero]
  exact Nat.not_le.mpr hpos

theorem asI64_of_intervalShouldFire {last : DateTime} (hparse : parseDurationSecs dur = .ok secs)
    (h : intervalShouldFire dur (some last) now = true) : asI64 secs = secs := by
  have helapsed := elapsed_of_intervalShouldFire hparse h
  have hlast := last.inRange
  have hnow := now.inRange
  unfold secondsNanos at helapsed
  unfold minNanos maxNanos at hlast hnow
  unfold asI64
  rw [if_pos]
  omega

/-- The instant of an interval is the start of the bucket. -/
theorem nanos_intervalFireInstant {t : DateTime} (hparse : parseDurationSecs dur = .ok secs)
    (hsecs : asI64 secs = secs) (h : intervalFireInstant dur now = some t) :
    0 < secs ∧ t.nanos = bucketStart secs now := by
  unfold intervalFireInstant at h
  rw [hparse] at h
  obtain ⟨hpos, h⟩ := Option.ite_none_right_eq_some.mp h
  refine ⟨hpos, (DateTime.nanos_of_ofNanos? h).trans ?_⟩
  rw [hsecs, DateTime.timestamp, Int.ediv_ediv_of_nonneg (by decide), bucketStart, secondsNanos,
    Int.mul_comm 1000000000, Int.mul_assoc]

end Buzz.Workflow
