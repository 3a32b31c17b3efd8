import Buzz.Lib.StateMachine
import Buzz.Terminal.Units

/-!
# The feeder

Everything that reaches the parser of a terminal goes through the feeder. It queues the bytes, hands
them to the parser in slices until the work budget is spent, charges what the parser saw, and applies
the two fences: a synchronized update that buffers too much is aborted, and the parser is rebuilt
after so many charged bytes.

The parser is a parameter: what it does with a slice, what the end of a synchronized update makes it
do, and how many bytes it buffers. So is the terminal behind it.

`drain` also returns the slices that it handed to the parser, for the statements about them.
-/

namespace Buzz.Terminal

structure Processor (σ : Type) where
  new : σ
  advance : σ → List UInt8 → σ × List Callback
  stopSync : σ → σ × List Callback
  syncBytesCount : σ → Nat

/-- The parser with its fences and accounts. -/
structure Feeder (σ : Type) where
  parser : σ
  fences : Fences
  stats : FenceStats
  sinceReset : Nat
  pending : List UInt8
  pendingAt : Nat
  size : Size
  midEscape : Bool

/-- A slice that the parser has been given. -/
structure Slice (σ η : Type) where
  feeder : Feeder σ
  handler : η
  bytes : List UInt8

/-- What `drain` leaves and returns. -/
structure Drained (σ η : Type) where
  feeder : Feeder σ
  handler : η
  spent : Nat
  slices : List (Slice σ η)

/-- `ESC`. -/
def escape : UInt8 := 0x1b

namespace Feeder

variable {σ η : Type} (P : Processor σ) (H : Handler η) (f : Feeder σ)

def new (fences : Fences) (size : Size) : Feeder σ :=
  ⟨P.new, fences, ⟨0, 0, 0, 0, 0, 0, 0, 0, 0⟩, 0, [], 0, size, false⟩

/-- `resize`: the history only grows. -/
def resize (size : Size) : Feeder σ :=
  { f with size := ⟨size.columns, size.screenLines, max f.size.scrollback size.scrollback⟩ }

def pendingBytes : Nat := f.pending.length - f.pendingAt

/-- The bytes that are pending. -/
def tail : List UInt8 := f.pending.drop f.pendingAt

def abandonTail : Feeder σ :=
  { f with
    pending := []
    pendingAt := 0
    stats := { f.stats with abandonedBytes := f.stats.abandonedBytes + f.pendingBytes } }

def enqueue (bytes : List UInt8) : Feeder σ :=
  { f with
    pending := (if 0 < f.pendingAt then f.pending.drop f.pendingAt else f.pending) ++ bytes
    pendingAt := if 0 < f.pendingAt then 0 else f.pendingAt }

/-! ### One slice -/

def charge (bytes : Nat) : Feeder σ :=
  { f with
    sinceReset := f.sinceReset + bytes
    stats := { f.stats with chargedBytes := f.stats.chargedBytes + bytes } }

def noteRelease (bytes : Nat) : Feeder σ :=
  { f with stats := { f.stats with maxRelease := max f.stats.maxRelease bytes } }

def counted (parser : σ) (counting : Counting η) : Feeder σ :=
  { f with
    parser := parser
    stats :=
      { f.stats with
        completedUnits := satAdd f.stats.completedUnits counting.units
        completedWork := satAdd f.stats.completedWork counting.work } }

/-- How many bytes of a slice are charged, from how many were buffered before and after it. -/
def charged (before len after : Nat) : Nat :=
  if after < before then before + len - after else if before < after then 0 else len

/-- The parser gets a slice, and the bytes that it saw are charged. -/
def parse (h : η) (bytes : List UInt8) : Feeder σ × η × Nat :=
  let before := P.syncBytesCount f.parser
  let result := P.advance f.parser bytes
  let counting := (Counting.new h).run H f.size result.2
  let after := P.syncBytesCount result.1
  let f := f.counted result.1 counting
  let f := if after < before then f.noteRelease (before + bytes.length - after) else f
  (f.charge (charged before bytes.length after), counting.inner, counting.work)

def abortSync (h : η) : Feeder σ × η × Nat :=
  let released := P.syncBytesCount f.parser
  if f.fences.syncAbort ∧ syncCap ≤ released then
    let result := P.stopSync f.parser
    let counting := (Counting.new h).run H f.size result.2
    let f := f.counted result.1 counting
    let f := { f with stats := { f.stats with syncAborts := f.stats.syncAborts + 1 } }
    ((f.noteRelease released).charge released, counting.inner, counting.work)
  else (f, h, 0)

def rebuild : Feeder σ :=
  if f.fences.oscBudget ∧ oscBudget ≤ f.sinceReset then
    { f with
      parser := P.new
      sinceReset := 0
      stats := { f.stats with oscResets := f.stats.oscResets + 1 } }
  else f

def advanceSlice (h : η) (bytes : List UInt8) : Feeder σ × η × Nat :=
  let parsed := f.parse P H h bytes
  let aborted := parsed.1.abortSync P H parsed.2.1
  (aborted.1.rebuild P, aborted.2.1, satAdd (satAdd 0 parsed.2.2) aborted.2.2)

/-! ### Draining -/

/-- How far the next escape is, as far as a slice may reach. -/
def nextEscape : Nat :=
  if f.midEscape then 0
  else ((f.pending.drop f.pendingAt).take maxSlice).findIdx fun b => b == escape

def nextSlice (spent : Nat) : List UInt8 :=
  (f.pending.drop f.pendingAt).take (sliceBytesRemaining f.size spent f.nextEscape)

/-- The feeder and the terminal after the next slice, and what it cost. -/
def stepSlice (h : η) (spent : Nat) : Feeder σ × η × Nat :=
  let bytes := f.nextSlice spent
  let result :=
    { f with pendingAt := f.pendingAt + bytes.length }.advanceSlice P H h bytes
  ({ result.1 with
      midEscape := (f.midEscape || bytes.contains escape) && result.2.2 == 0 },
    result.2)

/-- The loop of `drain`: a slice is at least one byte, so as many rounds as there are bytes do. -/
def drainLoop : Nat → Feeder σ → η → Nat → Drained σ η
  | 0, f, h, spent => ⟨f, h, spent, []⟩
  | fuel + 1, f, h, spent =>
    if f.pendingAt < f.pending.length then
      let sl : Slice σ η := ⟨f, h, f.nextSlice spent⟩
      let result := f.stepSlice P H h spent
      let spent := satAdd spent result.2.2
      if workBudget ≤ spent then ⟨result.1, result.2.1, spent, [sl]⟩
      else
        let d := drainLoop fuel result.1 result.2.1 spent
        { d with slices := sl :: d.slices }
    else ⟨f, h, spent, []⟩

/-- The bookkeeping at the end of `drain`. -/
def settle : Feeder σ :=
  let f := if f.pendingAt = f.pending.length then { f with pending := [], pendingAt := 0 } else f
  { f with
    stats :=
      { f.stats with
        maxPending := max f.stats.maxPending f.pendingBytes
        tailBreaches :=
          if tailCap ≤ f.pendingBytes then f.stats.tailBreaches + 1 else f.stats.tailBreaches } }

def drain (h : η) : Drained σ η :=
  let d := drainLoop P H f.pendingBytes f h 0
  { d with feeder := d.feeder.settle }

/-- `feed`; it returns whether bytes are pending. -/
def feed (h : η) (bytes : List UInt8) : Drained σ η × Bool :=
  let d := (f.enqueue bytes).drain P H h
  (d, 0 < d.feeder.pendingBytes)

end Feeder

/-! ### Runs -/

/-- A feeder and its terminal, with what was handed to the parser. -/
structure TerminalState (σ η : Type) where
  feeder : Feeder σ
  handler : η
  kept : List UInt8
  slices : List (Slice σ η)

inductive TerminalAction where
  | feed (bytes : List UInt8)
  | drain
  | abandonTail
  | resize (size : Size)

section

variable {σ η : Type} (P : Processor σ) (H : Handler η)

/-- The state after a `drain`. -/
def TerminalState.afterDrain (s : TerminalState σ η) (d : Drained σ η) : TerminalState σ η :=
  { s with feeder := d.feeder, handler := d.handler, slices := s.slices ++ d.slices }

def TerminalState.step (s : TerminalState σ η) : TerminalAction → TerminalState σ η
  | .feed bytes =>
    { s with kept := s.kept ++ bytes }.afterDrain (s.feeder.feed P H s.handler bytes).1
  | .drain => s.afterDrain (s.feeder.drain P H s.handler)
  | .abandonTail =>
    { s with
      feeder := s.feeder.abandonTail
      kept := s.kept.take (s.kept.length - s.feeder.pendingBytes) }
  | .resize size => { s with feeder := s.feeder.resize size }

def terminal : StateMachine (TerminalState σ η) TerminalAction where
  Init s := ∃ fences size, s.feeder = Feeder.new P fences size ∧ s.kept = [] ∧ s.slices = []
  step s a := some (s.step P H a)

end

end Buzz.Terminal
