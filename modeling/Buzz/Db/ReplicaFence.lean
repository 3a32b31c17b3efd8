import Buzz.Core.Basic
import Mathlib.Algebra.Order.Group.Int

/-!
# The replica fence

A read replica may serve a cursor page only when every row the page could contain is provably
present on it. The writer-side half of that proof is a ring of *heartbeat tokens*, each with the
**fence wall** its handshake established; the reader-side half is the token and epoch a session
observes in its own snapshot. This file is the ring: what a probe records and what an observation
resolves to. Why a resolved entry is a proof is `ReplicaFenceProtocol`.

The lock around the fields is not modelled: every function below is one critical section.
-/

namespace Buzz.ReplicaFence

open List

/-- Seconds of `created_at` history the commit-time floor guard tolerates. -/
def createdAtFloorSecs : Int := 960

/-- Safety margin subtracted from the fence on top of the floor. -/
def fenceClockMarginSecs : Int := 5

/-- How many entries the fence retains. -/
def ringCapacity : Nat := 120

/-- One retained heartbeat observation: proof material for reader sessions. -/
structure TokenEntry where
  token : Int
  /-- Monotonic instant (in milliseconds) captured just before `M` was committed. -/
  committedAt : Nat
  /-- `min(oldest_xact_start, S) - floor - clock_margin` for `M`'s handshake. -/
  fenceWall : Int
  deriving DecidableEq

inductive RecordOutcome where
  | recorded
  | tokenRegression

/-- Outcome of resolving one reader-session observation against the ring. -/
inductive ResolveOutcome where
  | proved (entry : TokenEntry)
  | epochMismatch
  | tokenBehind
  deriving DecidableEq

/-! ### The ring -/

/-- Append an entry, evicting the oldest one of a full ring. -/
def pushEntry (ring : List TokenEntry) (entry : TokenEntry) : List TokenEntry :=
  (if ring.length = ringCapacity then ring.drop 1 else ring) ++ [entry]

variable {ring : List TokenEntry}

theorem mem_pushEntry {entry e : TokenEntry} (h : e ∈ pushEntry ring entry) :
    e = entry ∨ e ∈ ring := by
  rw [pushEntry, mem_append, mem_singleton] at h
  rcases h with h | h
  · split at h
    · exact Or.inr (mem_of_mem_drop h)
    · exact Or.inr h
  · exact Or.inl h

theorem length_pushEntry_le (entry : TokenEntry) (h : ring.length ≤ ringCapacity) :
    (pushEntry ring entry).length ≤ ringCapacity := by
  have hpos : 0 < ringCapacity := by decide
  rw [pushEntry, length_append, length_singleton]
  split
  · rw [length_drop]; omega
  · omega

theorem pairwise_pushEntry {entry : TokenEntry} (h : ring.Pairwise fun a b => a.token < b.token)
    (hlast : ∀ e ∈ ring, e.token < entry.token) :
    (pushEntry ring entry).Pairwise fun a b => a.token < b.token := by
  rw [pushEntry]
  split
  · refine pairwise_append.mpr ⟨h.drop, pairwise_singleton _ _, fun e he b hb => ?_⟩
    rw [mem_singleton.mp hb]
    exact hlast e (mem_of_mem_drop he)
  · refine pairwise_append.mpr ⟨h, pairwise_singleton _ _, fun e he b hb => ?_⟩
    rw [mem_singleton.mp hb]
    exact hlast e he

theorem le_getLast {last : TokenEntry} (h : ring.Pairwise fun a b => a.token < b.token)
    (hl : ring.getLast? = some last) : ∀ e ∈ ring, e.token ≤ last.token := by
  obtain ⟨front, rfl⟩ := getLast?_eq_some_iff.mp hl
  intro e he
  rcases mem_append.mp he with he | he
  · exact le_of_lt ((pairwise_append.mp h).2.2 e he last (mem_singleton_self last))
  · rw [mem_singleton.mp he]

theorem eq_of_token_eq {a b : TokenEntry} (h : ring.Pairwise fun a b => a.token < b.token)
    (ha : a ∈ ring) (hb : b ∈ ring) (hab : a.token = b.token) : a = b := by
  induction ring with
  | nil => simp at ha
  | cons e ring ih =>
    obtain ⟨hhead, htail⟩ := pairwise_cons.mp h
    rcases mem_cons.mp ha with hae | har <;> rcases mem_cons.mp hb with hbe | hbr
    · rw [hae, hbe]
    · subst hae
      exact absurd hab (ne_of_lt (hhead b hbr))
    · subst hbe
      exact absurd hab.symm (ne_of_lt (hhead a har))
    · exact ih htail har hbr

/-- The fence's state under its lock. The fields after `ring` hold of every value the operations
build, so they are carried by the type. The injected entry of the test hook, which has no epoch,
is not modelled. -/
structure FenceInner where
  /-- Epoch the retained ring belongs to. `none` until the first probe. -/
  epoch : Option Uuid
  ring : List TokenEntry
  sorted : ring.Pairwise fun a b => a.token < b.token
  bounded : ring.length ≤ ringCapacity
  keyed : ring ≠ [] → epoch ≠ none

namespace FenceInner

/-- A new fence, initially closed (empty ring). -/
def new : FenceInner := ⟨none, [], List.Pairwise.nil, Nat.zero_le _, fun h => absurd rfl h⟩

/-- Close the fence: drop all retained proofs, keep the epoch. -/
def close (f : FenceInner) : FenceInner :=
  ⟨f.epoch, [], List.Pairwise.nil, Nat.zero_le _, fun h => absurd rfl h⟩

/-- Retain an entry above every retained one, under an epoch. -/
def push (f : FenceInner) (epoch : Uuid) (entry : TokenEntry)
    (h : ∀ e ∈ f.ring, e.token < entry.token) : FenceInner :=
  ⟨some epoch, pushEntry f.ring entry, pairwise_pushEntry f.sorted h,
    length_pushEntry_le entry f.bounded, fun _ => Option.some_ne_none epoch⟩

/-- Whether `token` fails to advance past the newest retained entry. -/
def regresses (f : FenceInner) (token : Int) : Prop :=
  ∃ last ∈ f.ring.getLast?, token ≤ last.token

instance (f : FenceInner) (token : Int) : Decidable (f.regresses token) :=
  decidable_of_iff (∃ last, f.ring.getLast? = some last ∧ token ≤ last.token) Iff.rfl

variable {f : FenceInner}

theorem lt_of_not_regresses {token : Int} (h : ¬f.regresses token) :
    ∀ e ∈ f.ring, e.token < token := by
  intro e he
  cases hl : f.ring.getLast? with
  | none => rw [getLast?_eq_none_iff.mp hl] at he; simp at he
  | some last =>
    have hlt : last.token < token := by
      by_contra hle
      exact h ⟨last, hl, not_lt.mp hle⟩
    exact lt_of_le_of_lt (le_getLast f.sorted hl e he) hlt

/-- Record one probe sample. An epoch change clears the ring and starts a new one under the
observed epoch; a token regression within the epoch clears the ring and discards the entry. -/
def record (f : FenceInner) (token : Int) (epoch : Uuid) (committedAt : Nat)
    (fenceWall : Int) : RecordOutcome × FenceInner :=
  if f.epoch ≠ some epoch then
    (.recorded, f.close.push epoch ⟨token, committedAt, fenceWall⟩ (by simp [close]))
  else if h : f.regresses token then
    (.tokenRegression, f.close)
  else
    (.recorded, f.push epoch ⟨token, committedAt, fenceWall⟩ (lt_of_not_regresses h))

/-- Resolve the strongest proof a reader session's observation supports: the greatest retained
entry with `entry.token <= observed_token`, provided the observed epoch matches the ring's. -/
def resolve (f : FenceInner) (observedToken : Int) (observedEpoch : Uuid) : ResolveOutcome :=
  if f.epoch ≠ none ∧ f.epoch ≠ some observedEpoch then .epochMismatch
  else
    match f.ring.reverse.find? (fun entry => entry.token ≤ observedToken) with
    | some entry => .proved entry
    | none => .tokenBehind

/-! ### What the operations keep -/

theorem record_cases (f : FenceInner) (token : Int) (epoch : Uuid) (committedAt : Nat)
    (fenceWall : Int) :
    (f.epoch = some epoch ∧ f.record token epoch committedAt fenceWall
        = (.tokenRegression, f.close)) ∨
      ((f.record token epoch committedAt fenceWall).1 = .recorded ∧
        (f.record token epoch committedAt fenceWall).2.epoch = some epoch ∧
        ∀ e ∈ (f.record token epoch committedAt fenceWall).2.ring,
          e = ⟨token, committedAt, fenceWall⟩ ∨ (e ∈ f.ring ∧ f.epoch = some epoch)) := by
  unfold record
  by_cases hne : f.epoch = some epoch
  · rw [if_neg (not_not.mpr hne)]
    split
    · exact Or.inl ⟨hne, rfl⟩
    · refine Or.inr ⟨rfl, rfl, fun e he => ?_⟩
      exact (mem_pushEntry he).imp id fun h => ⟨h, hne⟩
  · rw [if_pos hne]
    refine Or.inr ⟨rfl, rfl, fun e he => ?_⟩
    exact (mem_pushEntry he).imp id fun h => absurd h (by simp [close])

variable {e : TokenEntry}

/-- An entry retained after a record is the new one, under the recorded epoch, or was retained
before, under the same epoch. -/
theorem mem_record {token : Int} {epoch : Uuid} {committedAt : Nat} {fenceWall : Int}
    (h : e ∈ (f.record token epoch committedAt fenceWall).2.ring) :
    (f.record token epoch committedAt fenceWall).2.epoch = some epoch ∧
      (e = ⟨token, committedAt, fenceWall⟩ ∨ (e ∈ f.ring ∧ f.epoch = some epoch)) := by
  rcases f.record_cases token epoch committedAt fenceWall with ⟨_, hr⟩ | ⟨_, he, hm⟩
  · rw [hr] at h
    exact absurd h (by simp [close])
  · exact ⟨he, hm e h⟩

theorem find?_reverse_greatest {ring : List TokenEntry} {t : Int}
    (hs : ring.Pairwise fun a b => a.token < b.token)
    (h : ring.reverse.find? (fun entry => entry.token ≤ t) = some e) :
    e ∈ ring ∧ e.token ≤ t ∧ ∀ e' ∈ ring, e'.token ≤ t → e'.token ≤ e.token := by
  rw [find?_eq_some_iff_append] at h
  obtain ⟨hle, newer, older, hsplit, hnewer⟩ := h
  have hle : e.token ≤ t := by simpa using hle
  have hring : ring = older.reverse ++ e :: newer.reverse := by
    rw [← reverse_reverse ring, hsplit]; simp
  subst hring
  refine ⟨by simp, hle, fun e' he' hle' => ?_⟩
  rcases mem_append.mp he' with he' | he'
  · exact le_of_lt ((pairwise_append.mp hs).2.2 e' he' e (mem_cons_self ..))
  · rcases mem_cons.mp he' with rfl | he'
    · exact le_rfl
    · have := hnewer e' (mem_reverse.mp he')
      simp [hle'] at this

/-- **Resolution.** An observation proves exactly the greatest retained entry at or below the
observed token, and only under the ring's own epoch. -/
theorem resolve_eq_proved_iff {t : Int} {epoch : Uuid} :
    f.resolve t epoch = .proved e ↔
      f.epoch = some epoch ∧ e ∈ f.ring ∧ e.token ≤ t ∧
        ∀ e' ∈ f.ring, e'.token ≤ t → e'.token ≤ e.token := by
  constructor
  · intro h
    unfold resolve at h
    split at h
    · simp at h
    · rename_i hep
      split at h
      · rename_i entry hfind
        obtain rfl : entry = e := by simpa using h
        obtain ⟨hmem, hle, hmax⟩ := find?_reverse_greatest f.sorted hfind
        have hkey := f.keyed (ne_nil_of_mem hmem)
        exact ⟨by by_contra hne; exact hep ⟨hkey, hne⟩, hmem, hle, hmax⟩
      · simp at h
  · rintro ⟨hep, hmem, hle, hmax⟩
    unfold resolve
    rw [if_neg (by simp [hep])]
    cases hfind : f.ring.reverse.find? (fun entry => entry.token ≤ t) with
    | none =>
      have := find?_eq_none.mp hfind e (mem_reverse.mpr hmem)
      simp [hle] at this
    | some e' =>
      obtain ⟨hmem', hle', hmax'⟩ := find?_reverse_greatest f.sorted hfind
      have htok : e'.token = e.token := le_antisymm (hmax e' hmem' hle') (hmax' e hmem hle)
      rw [eq_of_token_eq f.sorted hmem' hmem htok]

end FenceInner

/-! ### The wall of a handshake -/

/-- The fence wall proved by one handshake: `min(oldest_xact_start, S) - floor - clock_margin`. -/
def fenceWall (sampleS : Int) (oldestXactStart : Option Int) : Int :=
  let lower := match oldestXactStart with
    | some oldest => min oldest sampleS
    | none => sampleS
  lower - seconds createdAtFloorSecs - seconds fenceClockMarginSecs

theorem fenceWall_le_sample (s : Int) (oldest : Option Int) :
    fenceWall s oldest + seconds createdAtFloorSecs + seconds fenceClockMarginSecs ≤ s := by
  cases oldest with
  | none | some o => simp only [fenceWall]; omega

theorem fenceWall_le_oldest (s o : Int) :
    fenceWall s (some o) + seconds createdAtFloorSecs + seconds fenceClockMarginSecs ≤ o := by
  simp only [fenceWall]; omega

end Buzz.ReplicaFence
