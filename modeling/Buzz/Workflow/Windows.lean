import Buzz.Lib.Windows
import Buzz.Workflow.Schedule

/-!
# The windows of cron schedules

A tick looks back sixty seconds. Of a schedule whose instants are on whole minutes exactly one
minute lies in the window of a tick, so an instant is found at the ticks of the minute that begins
with it. Ticks that are further apart than a minute may step over that.

The cron library is a parameter. What is assumed of it is that it finds the least instant after a
given one.
-/

namespace Buzz.Workflow

open List Option

def minute : Int := 60 * 1000000000

section

variable {lib : CronLib} {Scheduled : lib.Schedule → DateTime → Prop} {sched : lib.Schedule}
  {expr : String}

variable (lib Scheduled) in
/-- `after(t).next()` is the least scheduled instant after `t`. -/
structure CronLib.FindsNext : Prop where
  sound : ∀ {sched t s}, lib.next sched t = some s → Scheduled sched s ∧ t.nanos < s.nanos ∧
    ∀ u, Scheduled sched u → t.nanos < u.nanos → s.nanos ≤ u.nanos
  complete : ∀ {sched t}, lib.next sched t = none → ∀ u, Scheduled sched u → u.nanos ≤ t.nanos

variable (Scheduled sched) in
def WholeMinutes : Prop := ∀ s, Scheduled sched s → minute ∣ s.nanos

variable (lib Scheduled sched expr) in
/-- Every instant after the first tick, and not later than the last one, is found at some tick. -/
def MissesNothing (first : DateTime) (later : List DateTime) : Prop :=
  ∀ s, Scheduled sched s → first.nanos < s.nanos →
    s.nanos ≤ ((first :: later).getLast (cons_ne_nil _ _)).nanos →
    ∃ now ∈ first :: later, cronFireInstant lib expr now 60 = some s

variable (lib expr) in
/-- No instant is found at a tick before it. -/
def NeverEarly : Prop :=
  ∀ now s, cronFireInstant lib expr now 60 = some s → s.nanos ≤ now.nanos

theorem neverEarly : NeverEarly lib expr := by
  intro now s h
  obtain ⟨sched, -, h⟩ := bind_eq_some_iff.mp h
  obtain ⟨windowStart, -, h⟩ := bind_eq_some_iff.mp h
  exact of_decide_eq_true (filter_eq_some_iff.mp h).2

/-! ### The ticks at which an instant is found -/

theorem DateTime.ext_nanos {s t : DateTime} (h : s.nanos = t.nanos) : s = t := by
  cases s
  cases t
  cases h
  rfl

theorem exists_windowStart {s now : DateTime} (hwhole : minute ∣ s.nanos)
    (hmin : minNanos < s.nanos) (hle : s.nanos ≤ now.nanos) :
    ∃ start, DateTime.ofNanos? (now.nanos - 60 * 1000000000) = some start ∧
      start.nanos = now.nanos - minute := by
  have hnow := now.inRange
  have hrange : minNanos ≤ now.nanos - 60 * 1000000000 ∧
      now.nanos - 60 * 1000000000 ≤ maxNanos := by
    unfold minute at hwhole
    unfold minNanos maxNanos at *
    omega
  refine ⟨⟨_, hrange⟩, ?_, rfl⟩
  rw [DateTime.ofNanos?, dif_pos hrange]

/-- An instant is found at the ticks of the minute that begins with it. -/
theorem cronFireInstant_eq_some_iff (hlib : lib.FindsNext Scheduled)
    (hparse : lib.parse (normalizeCron expr) = some sched) (hwhole : WholeMinutes Scheduled sched)
    {s now : DateTime} (hs : Scheduled sched s) (hmin : minNanos < s.nanos) :
    cronFireInstant lib expr now 60 = some s ↔
      s.nanos ≤ now.nanos ∧ now.nanos < s.nanos + minute := by
  constructor
  · intro h
    refine ⟨neverEarly now s h, ?_⟩
    obtain ⟨sched', -, h⟩ := bind_eq_some_iff.mp h
    obtain ⟨start, hstart, h⟩ := bind_eq_some_iff.mp h
    have hafter := (hlib.sound (filter_eq_some_iff.mp h).1).2.1
    rw [DateTime.nanos_of_ofNanos? hstart] at hafter
    unfold minute
    omega
  · rintro ⟨hle, hlt⟩
    obtain ⟨start, hstart, hnanos⟩ := exists_windowStart (hwhole s hs) hmin hle
    rw [cronFireInstant, hparse, bind_some, hstart, bind_some]
    cases hnext : lib.next sched start with
    | none =>
      have hbefore := hlib.complete hnext s hs
      omega
    | some u =>
      -- the least instant after the start of the window is on the same minute
      obtain ⟨hu, hafter, hleast⟩ := hlib.sound hnext
      have hus := hleast s hs (by omega)
      have hdvd := hwhole s hs
      have hdvd' := hwhole u hu
      obtain rfl : u = s := by
        refine DateTime.ext_nanos ?_
        unfold minute at *
        omega
      exact filter_eq_some_iff.mpr ⟨rfl, decide_eq_true hle⟩

/-! ### Main result -/

/-- **Cron windows.** No instant is found early. Every instant is found exactly when no two ticks in
a row step over the minute that begins with it. -/
theorem missesNothing_iff (hlib : lib.FindsNext Scheduled)
    (hparse : lib.parse (normalizeCron expr) = some sched) (hwhole : WholeMinutes Scheduled sched)
    {first : DateTime} {later : List DateTime} (hticks : Ticking DateTime.nanos (first :: later)) :
    MissesNothing lib Scheduled sched expr first later ∧ NeverEarly lib expr ↔
      ∀ s, Scheduled sched s →
        StepsInto DateTime.nanos (first :: later) s.nanos (s.nanos + minute) := by
  have hminute : 0 < minute := by decide
  have hlast : ∀ t ∈ first :: later,
      t.nanos ≤ ((first :: later).getLast (cons_ne_nil _ _)).nanos :=
    fun t ht => hticks.le_getLast _ ht
  have hfound : ∀ s, Scheduled sched s → first.nanos < s.nanos →
      ((∃ now ∈ first :: later, cronFireInstant lib expr now 60 = some s) ↔
        ∃ now ∈ later, s.nanos ≤ now.nanos ∧ now.nanos < s.nanos + minute) := by
    intro s hs hafter
    have hmin : minNanos < s.nanos := Int.lt_of_le_of_lt first.inRange.1 hafter
    constructor
    · rintro ⟨now, hnow, h⟩
      have hwindow := (cronFireInstant_eq_some_iff hlib hparse hwhole hs hmin).mp h
      rcases mem_cons.mp hnow with rfl | hnow
      · omega
      · exact ⟨now, hnow, hwindow⟩
    · rintro ⟨now, hnow, hwindow⟩
      exact ⟨now, mem_cons_of_mem first hnow,
        (cronFireInstant_eq_some_iff hlib hparse hwhole hs hmin).mpr hwindow⟩
  rw [and_iff_left neverEarly]
  constructor
  · intro hall s hs
    rcases Int.lt_or_le first.nanos s.nanos with hafter | hbefore
    · rcases Int.lt_or_le ((first :: later).getLast (cons_ne_nil _ _)).nanos s.nanos
        with hbeyond | hwithin
      · refine stepsInto_of_lt fun t ht => ?_
        have hle := hlast t ht
        omega
      · obtain ⟨now, hnow, hwindow⟩ := (hfound s hs hafter).mp (hall s hs hafter hwithin)
        exact (exists_tick_iff hticks hafter ⟨now, hnow, hwindow.1⟩).mp ⟨now, hnow, hwindow⟩
    · exact stepsInto_of_le hticks hbefore
  · intro hsteps s hs hafter hwithin
    refine (hfound s hs hafter).mpr ((exists_tick_iff hticks hafter ?_).mpr (hsteps s hs))
    rcases mem_cons.mp (getLast_mem (cons_ne_nil first later)) with heq | hmem
    · rw [heq] at hwithin
      omega
    · exact ⟨_, hmem, hwithin⟩

theorem stepsInto_of_gaps {ticks : List DateTime}
    (h : ticks.IsChain fun t t' => t'.nanos ≤ t.nanos + minute) (s : DateTime) :
    StepsInto DateTime.nanos ticks s.nanos (s.nanos + minute) :=
  h.imp fun t t' hgap hbefore => by omega

end

/-! ### Every minute -/

/-- A library that knows one schedule: every minute. -/
def everyMinute : CronLib where
  Schedule := Unit
  parse s := if s = "0 * * * * * *" then some () else none
  next _ t := DateTime.ofNanos? ((t.nanos / minute + 1) * minute)

def OnMinute (_ : everyMinute.Schedule) (t : DateTime) : Prop := minute ∣ t.nanos

theorem next_minute_le {t u : Int} (hdvd : minute ∣ u) (hlt : t < u) :
    (t / minute + 1) * minute ≤ u := by
  obtain ⟨k, rfl⟩ := hdvd
  unfold minute at *
  omega

theorem findsNext_everyMinute : everyMinute.FindsNext OnMinute where
  sound {_ t s} h := by
    have hnanos : s.nanos = (t.nanos / minute + 1) * minute := DateTime.nanos_of_ofNanos? h
    refine ⟨⟨_, by rw [hnanos, Int.mul_comm]⟩, ?_, fun u hu hlt => ?_⟩
    · rw [hnanos]
      unfold minute
      omega
    · rw [hnanos]
      exact next_minute_le hu hlt
  complete {sched t} h u hu := by
    by_contra hlt
    have hle := next_minute_le hu (Int.not_le.mp hlt)
    have hrange := u.inRange
    have ht := t.inRange
    have hnone : ¬ (minNanos ≤ (t.nanos / minute + 1) * minute ∧
        (t.nanos / minute + 1) * minute ≤ maxNanos) := by
      intro hin
      have hsome : everyMinute.next sched t = some ⟨_, hin⟩ := dif_pos hin
      rw [h] at hsome
      cases hsome
    unfold minute at *
    omega

theorem wholeMinutes_everyMinute : WholeMinutes OnMinute () := fun _ h => h

theorem parse_everyMinute : everyMinute.parse (normalizeCron "* * * * *") = some () := by
  have hexpr : normalizeCron "* * * * *" = "0 * * * * * *" := by decide +kernel
  rw [hexpr]
  rfl

/-- An instant within the hour after the epoch, in milliseconds. -/
def atMillis (n : Fin 3600000) : DateTime :=
  ⟨n.val * 1000000, by
    have hn := n.isLt
    unfold minNanos maxNanos
    omega⟩

/-- Ticks that are a minute apart find every minute. -/
theorem missesNothing_iff_everyMinute :
    MissesNothing everyMinute OnMinute () "* * * * *" (atMillis 59500)
      [atMillis 119500, atMillis 179500] := by
  have hticks : Ticking DateTime.nanos
      [atMillis 59500, atMillis 119500, atMillis 179500] :=
    .cons_cons (by decide) (.cons_cons (by decide) (.singleton _))
  have hgaps : List.IsChain (fun t t' : DateTime => t'.nanos ≤ t.nanos + minute)
      [atMillis 59500, atMillis 119500, atMillis 179500] :=
    .cons_cons (by decide) (.cons_cons (by decide) (.singleton _))
  exact ((missesNothing_iff findsNext_everyMinute parse_everyMinute wholeMinutes_everyMinute hticks).mpr
    fun s _ => stepsInto_of_gaps hgaps s).1

/-- Ticks that are 61 seconds apart step over a minute that is scheduled. -/
theorem not_missesNothing_61s :
    (everyMinute.FindsNext OnMinute ∧ WholeMinutes OnMinute () ∧
      everyMinute.parse (normalizeCron "* * * * *") = some ()) ∧
    (atMillis 120500).nanos - (atMillis 59500).nanos = 61 * 1000000000 ∧
    ¬ MissesNothing everyMinute OnMinute () "* * * * *" (atMillis 59500) [atMillis 120500] := by
  refine ⟨⟨findsNext_everyMinute, wholeMinutes_everyMinute, parse_everyMinute⟩, by decide,
    fun hall => ?_⟩
  have hminute : OnMinute () (atMillis 60000) := by
    show minute ∣ (atMillis 60000).nanos
    decide
  obtain ⟨now, hnow, hfound⟩ := hall (atMillis 60000) hminute (by decide) (by decide)
  have hnone : ∀ now ∈ [atMillis 59500, atMillis 120500],
      cronFireInstant everyMinute "* * * * *" now 60 ≠ some (atMillis 60000) := by
    decide +kernel
  exact hnone now hnow hfound

end Buzz.Workflow
