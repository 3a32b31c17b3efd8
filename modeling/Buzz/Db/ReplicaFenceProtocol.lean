import Buzz.Db.ReplicaFence
import Buzz.Lib.StateMachine

/-!
# The replica fence protocol

Four parties. *Writer transactions* insert `events` rows and commit them, after a deferred floor
guard has run inside commit processing. *Probes*, any number on each of any number of pods, run
the ordered handshake of `sample_writer`: sample `S`, then scan the open transactions, then commit
a heartbeat token, and only then record the entry in their pod's fence. *Operators* re-seed the
heartbeat row or restore the writer from a prefix of its history, both under a fresh epoch.
*Replicas* replay a timeline in commit order; a reader snapshot is the prefix replayed so far.

The database is the list of commits of each timeline. The heartbeat row is not a separate field:
it is what the last heartbeat commit of a log says, on the writer as on a reader.

## What is assumed of Postgres

* the guard runs on a clock reading no earlier than the transaction's start, and aborts the
  transaction when a channel-bearing row is older than `floor` seconds at that reading;
* the writer's clock never steps back by the clock margin or more (`readsClock`): a monotonic
  clock is the special case;
* the activity scan sees exactly the open transactions, or the probe fails;
* the heartbeat `UPDATE` is one commit; a fresh epoch is one no commit has carried.
-/

namespace Buzz.ReplicaFence

/-! ### Commits and logs -/

/-- A row of `events`, as far as the fence sees it. -/
structure EventRow where
  id : Nat
  channelId : Option Uuid
  createdAt : Int
  deriving DecidableEq

/-- A row that keyset-paged channel windows can serve. -/
def EventRow.channelBearing (r : EventRow) : Bool := r.channelId.isSome

/-- What a transaction commits. -/
inductive Commit where
  | rows (rs : List EventRow)
  | heartbeat (token : Int) (epoch : Uuid)
  deriving DecidableEq

def Commit.heartbeat? : Commit → Option (Int × Uuid)
  | .rows _ => none
  | .heartbeat token epoch => some (token, epoch)

def Commit.eventRows : Commit → List EventRow
  | .rows rs => rs
  | .heartbeat _ _ => []

/-- The heartbeat row a session reads when it has replayed `log`: on the writer, the row the next
`UPDATE` starts from; on a reader, the observation. -/
def heartbeatRow (log : List Commit) : Option (Int × Uuid) :=
  log.reverse.findSome? Commit.heartbeat?

/-- The `events` rows present after replaying `log`. -/
def eventRows (log : List Commit) : List EventRow := log.flatMap Commit.eventRows

theorem mem_eventRows_mono {l l' : List Commit} (h : l <+: l') {r : EventRow}
    (hr : r ∈ eventRows l) : r ∈ eventRows l' := by
  obtain ⟨c, hc, hrc⟩ := List.mem_flatMap.mp hr
  exact List.mem_flatMap.mpr ⟨c, h.subset hc, hrc⟩

@[simp] theorem heartbeatRow_append_heartbeat (log : List Commit) (token : Int) (epoch : Uuid) :
    heartbeatRow (log ++ [.heartbeat token epoch]) = some (token, epoch) := by
  simp [heartbeatRow, List.findSome?_cons, Commit.heartbeat?]

@[simp] theorem heartbeatRow_append_rows (log : List Commit) (rs : List EventRow) :
    heartbeatRow (log ++ [.rows rs]) = heartbeatRow log := by
  simp [heartbeatRow, List.findSome?_cons, Commit.heartbeat?]

theorem prefix_of_heartbeatRow {log : List Commit} {token : Int} {epoch : Uuid}
    (h : heartbeatRow log = some (token, epoch)) :
    ∃ before, before ++ [.heartbeat token epoch] <+: log := by
  obtain ⟨newer, c, older, hsplit, hc, -⟩ := List.findSome?_eq_some_iff.mp h
  have hlog : log = older.reverse ++ c :: newer.reverse := by
    rw [← List.reverse_reverse log, hsplit]; simp
  cases c with
  | rows rs => simp [Commit.heartbeat?] at hc
  | heartbeat t e =>
    obtain ⟨rfl, rfl⟩ : t = token ∧ e = epoch := by simpa [Commit.heartbeat?] using hc
    exact ⟨older.reverse, newer.reverse, by rw [hlog]; simp⟩

/-! ### Parties -/

/-- A transaction before its commit. -/
structure OpenTxn where
  tid : Nat
  start : Int
  rows : List EventRow
  /-- Whether the deferred floor guard has passed: the transaction is inside commit processing. -/
  guarded : Bool
  deriving DecidableEq

/-- One writer-side sample of the ordered handshake. -/
structure WriterSample where
  sampledAt : Int
  /-- Oldest open transaction at scan time, or `none` when no transaction was open. -/
  oldestXactStart : Option Int
  token : Int
  epoch : Uuid
  /-- Monotonic instant captured immediately before committing `M`. -/
  committedAt : Nat

/-- Where one `probe_once` stands between two awaited statements. -/
inductive ProbePhase where
  | idle
  | sampled (pod : Nat) (sampledAt : Int)
  | scanned (pod : Nat) (sampledAt : Int) (oldestXactStart : Option Int)
  | committed (pod : Nat) (sample : WriterSample)
  /-- `record` answered `TokenRegression`; the epoch is about to be rotated. -/
  | rotating (pod : Nat) (wall : Int)
  | rotated (pod : Nat) (wall token : Int) (epoch : Uuid) (committedAt : Nat)

/-- The pod a running probe belongs to. -/
def ProbePhase.pod? : ProbePhase → Option Nat
  | .idle => none
  | .sampled pod _ => some pod
  | .scanned pod _ _ => some pod
  | .committed pod _ => some pod
  | .rotating pod _ => some pod
  | .rotated pod _ _ _ _ => some pod

/-- A position in a timeline: what a replica has replayed, and what a snapshot taken there sees. -/
structure Position where
  timeline : Nat
  upto : Nat

/-- The writer, its replicas, and the fences of the relays. -/
structure State where
  clock : Int
  /-- Logs of the timelines that a restore has left behind, oldest first. -/
  archive : List (List Commit)
  log : List Commit
  txns : List OpenTxn
  probes : Nat → ProbePhase
  fences : Nat → FenceInner
  replicas : Nat → Position

namespace State

def timelines (s : State) : List (List Commit) := s.archive ++ [s.log]

/-- The log prefix a reader snapshot taken at `p` sees. -/
def snapshot (s : State) (p : Position) : List Commit :=
  (s.timelines[p.timeline]?.getD []).take p.upto

/-- No commit of any timeline has carried `epoch`. -/
def freshEpoch (s : State) (epoch : Uuid) : Prop :=
  ∀ l ∈ s.timelines, ∀ c ∈ l, ∀ b ∈ c.heartbeat?, b.2 ≠ epoch

instance (s : State) (epoch : Uuid) : Decidable (s.freshEpoch epoch) :=
  inferInstanceAs (Decidable (∀ l ∈ s.timelines, ∀ c ∈ l, ∀ b ∈ c.heartbeat?, b.2 ≠ epoch))

/-- `now` is a possible reading of the writer's clock: it is not behind an earlier reading by the
clock margin or more. -/
def readsClock (s : State) (now : Int) : Prop := s.clock < now + seconds fenceClockMarginSecs

instance (s : State) (now : Int) : Decidable (s.readsClock now) :=
  inferInstanceAs (Decidable (s.clock < now + seconds fenceClockMarginSecs))

def setProbe (s : State) (i : Nat) (p : ProbePhase) : State :=
  { s with probes := Function.update s.probes i p }

def setFence (s : State) (pod : Nat) (f : FenceInner) : State :=
  { s with fences := Function.update s.fences pod f }

end State

/-- One step of one party, with everything the state does not determine. -/
inductive Action where
  | begin (tid : Nat) (now : Int)
  | insert (tid : Nat) (row : EventRow)
  /-- Commit processing runs the deferred guard at `clock_timestamp() = now`. -/
  | guard (tid : Nat) (now : Int)
  | commit (tid : Nat)
  | abort (tid : Nat)
  | sample (probe pod : Nat) (now : Int)
  | scan (probe : Nat)
  | commitToken (probe committedAt : Nat)
  | record (probe : Nat)
  | rotate (probe : Nat) (epoch : Uuid) (committedAt : Nat)
  | recordRotated (probe : Nat)
  /-- The probe fails, at any await; `run_probe` closes the fence. -/
  | probeFail (probe : Nat)
  | reseed (token : Int) (epoch : Uuid)
  /-- The writer is restored to its first `keep` commits, and its heartbeat re-seeded. -/
  | restore (keep : Nat) (token : Int) (epoch : Uuid)
  | replay (replica : Nat)
  | attach (replica : Nat) (position : Position)

/-- The floor guard of migration 0021: every channel-bearing row must be within the floor. -/
def floorGuard (rows : List EventRow) (now : Int) : Bool :=
  rows.all fun r => !r.channelBearing || decide (now - seconds createdAtFloorSecs ≤ r.createdAt)

def step (s : State) : Action → Option State
  | .begin tid now =>
    if s.readsClock now ∧ ∀ t ∈ s.txns, t.tid ≠ tid then
      some { s with clock := max s.clock now, txns := ⟨tid, now, [], false⟩ :: s.txns }
    else none
  | .insert tid row =>
    match s.txns.find? (·.tid = tid) with
    | some t =>
      if t.guarded then none
      else some { s with txns := { t with rows := row :: t.rows } :: s.txns.erase t }
    | none => none
  | .guard tid now =>
    match s.txns.find? (·.tid = tid) with
    | some t =>
      if s.readsClock now ∧ t.start ≤ now ∧ t.guarded = false then
        -- a row below the floor raises `check_violation`: the transaction aborts
        if floorGuard t.rows now then
          some { s with clock := max s.clock now,
                        txns := { t with guarded := true } :: s.txns.erase t }
        else some { s with clock := max s.clock now, txns := s.txns.erase t }
      else none
    | none => none
  | .commit tid =>
    match s.txns.find? (·.tid = tid) with
    | some t =>
      if t.guarded then
        some { s with log := s.log ++ [.rows t.rows], txns := s.txns.erase t }
      else none
    | none => none
  | .abort tid =>
    match s.txns.find? (·.tid = tid) with
    | some t => some { s with txns := s.txns.erase t }
    | none => none
  | .sample i pod now =>
    match s.probes i with
    | .idle =>
      if s.readsClock now then
        some ({ s with clock := max s.clock now }.setProbe i (.sampled pod now))
      else none
    | _ => none
  | .scan i =>
    match s.probes i with
    | .sampled pod sampledAt =>
      some (s.setProbe i (.scanned pod sampledAt (s.txns.map OpenTxn.start).min?))
    | _ => none
  | .commitToken i committedAt =>
    match s.probes i with
    | .scanned pod sampledAt oldest =>
      match heartbeatRow s.log with
      | some (token, epoch) =>
        some ({ s with log := s.log ++ [Commit.heartbeat (token + 1) epoch] }.setProbe i
          (.committed pod ⟨sampledAt, oldest, token + 1, epoch, committedAt⟩))
      -- `HeartbeatRowMissing`
      | none => some ((s.setFence pod (s.fences pod).close).setProbe i .idle)
    | _ => none
  | .record i =>
    match s.probes i with
    | .committed pod w =>
      let wall := fenceWall w.sampledAt w.oldestXactStart
      match (s.fences pod).record w.token w.epoch w.committedAt wall with
      | (.recorded, f) => some ((s.setFence pod f).setProbe i .idle)
      | (.tokenRegression, f) => some ((s.setFence pod f).setProbe i (.rotating pod wall))
    | _ => none
  | .rotate i epoch committedAt =>
    match s.probes i with
    | .rotating pod wall =>
      if s.freshEpoch epoch then
        match heartbeatRow s.log with
        | some (token, _) =>
          some ({ s with log := s.log ++ [Commit.heartbeat (token + 1) epoch] }.setProbe i
            (.rotated pod wall (token + 1) epoch committedAt))
        | none => some ((s.setFence pod (s.fences pod).close).setProbe i .idle)
      else none
    | _ => none
  | .recordRotated i =>
    match s.probes i with
    | .rotated pod wall token epoch committedAt =>
      some ((s.setFence pod ((s.fences pod).record token epoch committedAt wall).2).setProbe i
        .idle)
    | _ => none
  | .probeFail i =>
    match (s.probes i).pod? with
    | some pod => some ((s.setFence pod (s.fences pod).close).setProbe i .idle)
    | none => none
  | .reseed token epoch =>
    if s.freshEpoch epoch then some { s with log := s.log ++ [.heartbeat token epoch] } else none
  | .restore keep token epoch =>
    if s.freshEpoch epoch then
      some { s with archive := s.archive ++ [s.log],
                    log := s.log.take keep ++ [.heartbeat token epoch], txns := [] }
    else none
  | .replay r =>
    let p := s.replicas r
    if p.upto < (s.timelines[p.timeline]?.getD []).length then
      some { s with replicas := Function.update s.replicas r ⟨p.timeline, p.upto + 1⟩ }
    else none
  | .attach r p =>
    if p.upto ≤ (s.timelines[p.timeline]?.getD []).length then
      some { s with replicas := Function.update s.replicas r p }
    else none

/-- Migration 0026 has inserted the heartbeat row; no probe has run. -/
def Init (s : State) : Prop :=
  (∃ prior epoch, (∀ c ∈ prior, Commit.heartbeat? c = none) ∧
      s.log = prior ++ [.heartbeat 0 epoch]) ∧
    s.archive = [] ∧ s.txns = [] ∧ (∀ i, s.probes i = .idle) ∧
    (∀ pod, s.fences pod = FenceInner.new) ∧
    ∀ r, (s.replicas r).timeline = 0 ∧ (s.replicas r).upto ≤ s.log.length

def protocol : StateMachine State Action := ⟨Init, step⟩

end Buzz.ReplicaFence
