import Buzz.Terminal.LockHold

/-!
# Byte accounting of the feeder

The parser gets what was fed, in order, without what is pending. What the parser saw of it is charged
by how much is buffered before and after a slice: what was buffered, and the slice, less what is
buffered then. The charge leaves two cases out. When the buffer grows, nothing is charged, though the
parser may have seen the first bytes of the slice; and when the parser is rebuilt, what it buffered is
gone, and was not charged. Both only ever charge too little, so a slice that goes wrong is never made
up for.
-/

namespace Buzz.Terminal

open List

variable {σ η : Type} (P : Processor σ) (H : Handler η)

/-- A new parser buffers nothing; a slice adds no more than itself to the buffer; `stop_sync` empties
it. -/
structure Processor.Counts (P : Processor σ) : Prop where
  new : P.syncBytesCount P.new = 0
  advance : ∀ s bytes, P.syncBytesCount (P.advance s bytes).1 ≤ P.syncBytesCount s + bytes.length
  stopSync : ∀ s, P.syncBytesCount (P.stopSync s).1 = 0

namespace Slice

variable (sl : Slice σ η)

/-- The bytes that are buffered before the slice. -/
def before : Nat := P.syncBytesCount sl.feeder.parser

/-- The bytes that the parser buffers after the slice. -/
def after : Nat := P.syncBytesCount (P.advance sl.feeder.parser sl.bytes).1

/-- The first fence ends the update. -/
def Aborts : Prop := sl.feeder.fences.syncAbort = true ∧ syncCap ≤ sl.after P

instance : Decidable (sl.Aborts P) := inferInstanceAs (Decidable (_ ∧ _))

/-- The bytes that are buffered after the first fence. -/
def held : Nat := if sl.Aborts P then 0 else sl.after P

/-- The bytes that are charged since the parser was rebuilt, after the first fence. -/
def due : Nat :=
  sl.feeder.sinceReset + Feeder.charged (sl.before P) sl.bytes.length (sl.after P) +
    if sl.Aborts P then sl.after P else 0

/-- The second fence rebuilds the parser. -/
def Rebuilds : Prop := sl.feeder.fences.oscBudget = true ∧ oscBudget ≤ sl.due P

instance : Decidable (sl.Rebuilds P) := inferInstanceAs (Decidable (_ ∧ _))

/-- The parser sees bytes of the slice, and buffers more than before. -/
def Opens : Prop :=
  sl.before P < sl.after P ∧ sl.after P < sl.before P + sl.bytes.length

instance : Decidable (sl.Opens P) := inferInstanceAs (Decidable (_ ∧ _))

/-- The parser is rebuilt while it buffers bytes. -/
def Discards : Prop := sl.Rebuilds P ∧ 0 < sl.held P

instance : Decidable (sl.Discards P) := inferInstanceAs (Decidable (_ ∧ _))

/-- The charge of the slice is exact. -/
def Accounted : Prop := ¬ sl.Opens P ∧ ¬ sl.Discards P

instance : Decidable (sl.Accounted P) := inferInstanceAs (Decidable (_ ∧ _))

/-- The bytes that the slice leaves uncharged, and that are not buffered either. -/
def missed : Nat :=
  (if sl.Opens P then sl.before P + sl.bytes.length - sl.after P else 0) +
    if sl.Discards P then sl.held P else 0

theorem missed_eq_zero_iff : sl.missed P = 0 ↔ sl.Accounted P := by
  rw [missed, Accounted, Nat.add_eq_zero_iff]
  refine and_congr ?_ ?_
  · split
    · next h =>
      obtain ⟨-, hlt⟩ := id h
      exact ⟨fun h0 => by omega, fun hn => absurd h hn⟩
    · next h => exact ⟨fun _ => h, fun _ => rfl⟩
  · split
    · next h =>
      obtain ⟨-, hpos⟩ := id h
      exact ⟨fun h0 => by omega, fun hn => absurd h hn⟩
    · next h => exact ⟨fun _ => h, fun _ => rfl⟩

end Slice

/-! ### One slice -/

theorem parse_charge (f : Feeder σ) (h : η) (bytes : List UInt8) :
    (f.parse P H h bytes).1.sinceReset = f.sinceReset +
        Feeder.charged (P.syncBytesCount f.parser) bytes.length
          (P.syncBytesCount (P.advance f.parser bytes).1) ∧
      (f.parse P H h bytes).1.stats.chargedBytes = f.stats.chargedBytes +
        Feeder.charged (P.syncBytesCount f.parser) bytes.length
          (P.syncBytesCount (P.advance f.parser bytes).1) := by
  rw [Feeder.parse]
  split <;> exact ⟨rfl, rfl⟩

theorem abortSync_charge (hP : P.Counts) (f : Feeder σ) (h : η) :
    (f.abortSync P H h).1.fences = f.fences ∧
      (f.fences.syncAbort = true ∧ syncCap ≤ P.syncBytesCount f.parser →
        P.syncBytesCount (f.abortSync P H h).1.parser = 0 ∧
          (f.abortSync P H h).1.sinceReset = f.sinceReset + P.syncBytesCount f.parser ∧
          (f.abortSync P H h).1.stats.chargedBytes =
            f.stats.chargedBytes + P.syncBytesCount f.parser) ∧
      (¬ (f.fences.syncAbort = true ∧ syncCap ≤ P.syncBytesCount f.parser) →
        (f.abortSync P H h).1 = f) := by
  rw [Feeder.abortSync]
  split
  · next hfires => exact ⟨rfl, fun _ => ⟨hP.stopSync _, rfl, rfl⟩, fun hn => absurd hfires hn⟩
  · next hquiet => exact ⟨rfl, fun hf => absurd hf hquiet, fun _ => rfl⟩

theorem charged_add {before len after : Nat} (hle : after ≤ before + len) :
    Feeder.charged before len after + after +
        (if before < after ∧ after < before + len then before + len - after else 0) =
      before + len := by
  rw [Feeder.charged]
  split
  · rw [if_neg (by omega)]
    omega
  split
  · split <;> omega
  · rw [if_neg (by omega)]
    omega

/-- **The ledger of a slice.** What is charged and buffered grows by the bytes of the slice, but for
those that it misses. -/
theorem stepSlice_ledger (hP : P.Counts) (f : Feeder σ) (h : η) (spent : Nat) :
    (f.stepSlice P H h spent).1.stats.chargedBytes +
          P.syncBytesCount (f.stepSlice P H h spent).1.parser +
        Slice.missed P ⟨f, h, f.nextSlice spent⟩ =
      f.stats.chargedBytes + P.syncBytesCount f.parser + (f.nextSlice spent).length := by
  let sl : Slice σ η := ⟨f, h, f.nextSlice spent⟩
  let f₀ : Feeder σ := { f with pendingAt := f.pendingAt + (f.nextSlice spent).length }
  let parsed := f₀.parse P H h (f.nextSlice spent)
  let fenced := (parsed.1.abortSync P H parsed.2.1).1
  obtain ⟨hparser, hfences, -⟩ := parse_spec P H f₀ h (f.nextSlice spent)
  obtain ⟨hsince, hcharged⟩ := parse_charge P H f₀ h (f.nextSlice spent)
  obtain ⟨hfences', hfires, hquiet⟩ := abortSync_charge P H hP parsed.1 parsed.2.1
  have hslice : Feeder.charged (sl.before P) sl.bytes.length (sl.after P) + sl.after P +
      (if sl.Opens P then sl.before P + sl.bytes.length - sl.after P else 0) =
        sl.before P + sl.bytes.length := charged_add (hP.advance f.parser sl.bytes)
  have hcount : P.syncBytesCount parsed.1.parser = sl.after P := by rw [hparser]; rfl
  have hcond : (parsed.1.fences.syncAbort = true ∧ syncCap ≤ P.syncBytesCount parsed.1.parser) =
      sl.Aborts P := by
    rw [hcount, hfences]
    rfl
  rw [hcond] at hfires hquiet
  rw [hcount] at hfires
  -- the first fence moves bytes from the buffer to the charge
  have hfenced : fenced.stats.chargedBytes + P.syncBytesCount fenced.parser =
        f.stats.chargedBytes + Feeder.charged (sl.before P) sl.bytes.length (sl.after P) +
          sl.after P ∧
      P.syncBytesCount fenced.parser = sl.held P ∧ fenced.sinceReset = sl.due P := by
    by_cases haborts : sl.Aborts P
    · obtain ⟨hzero, hsince', hcharged'⟩ := hfires haborts
      rw [Slice.held, Slice.due, if_pos haborts, if_pos haborts]
      refine ⟨?_, hzero, ?_⟩
      · rw [hzero, hcharged', hcharged]
        rfl
      · rw [hsince', hsince]
        rfl
    · have hsame : fenced = parsed.1 := hquiet haborts
      rw [Slice.held, Slice.due, if_neg haborts, if_neg haborts, hsame, hcount]
      refine ⟨?_, rfl, ?_⟩
      · rw [hcharged]
        rfl
      · rw [hsince]
        rfl
  obtain ⟨hsum, hheld, hdue⟩ := hfenced
  have hrebuilds : (fenced.fences.oscBudget = true ∧ oscBudget ≤ fenced.sinceReset) =
      sl.Rebuilds P := by
    rw [hdue, hfences', hfences]
    rfl
  have hstep : (f.stepSlice P H h spent).1.stats.chargedBytes = fenced.stats.chargedBytes ∧
      P.syncBytesCount (f.stepSlice P H h spent).1.parser =
        if sl.Rebuilds P then 0 else sl.held P := by
    show (fenced.rebuild P).stats.chargedBytes = _ ∧ P.syncBytesCount (fenced.rebuild P).parser = _
    rw [Feeder.rebuild]
    by_cases hr : sl.Rebuilds P
    · rw [if_pos (hrebuilds ▸ hr), if_pos hr]
      exact ⟨rfl, hP.new⟩
    · rw [if_neg (fun hc => hr (hrebuilds ▸ hc)), if_neg hr]
      exact ⟨rfl, hheld⟩
  have hmissed : (if sl.Rebuilds P then 0 else sl.held P) +
      (if sl.Discards P then sl.held P else 0) = sl.held P := by
    by_cases hr : sl.Rebuilds P
    · rw [if_pos hr]
      by_cases hd : sl.Discards P
      · simp [hd]
      · rw [if_neg hd]
        have : ¬ 0 < sl.held P := fun hpos => hd ⟨hr, hpos⟩
        omega
    · have hd : ¬ sl.Discards P := fun hd => hr hd.1
      simp [hr, hd]
  have hm : Slice.missed P ⟨f, h, f.nextSlice spent⟩ =
      (if sl.Opens P then sl.before P + sl.bytes.length - sl.after P else 0) +
        if sl.Discards P then sl.held P else 0 := rfl
  have hb : P.syncBytesCount f.parser = sl.before P := rfl
  have hl : (f.nextSlice spent).length = sl.bytes.length := rfl
  rw [hstep.1, hstep.2, hm, hb, hl]
  rw [hheld] at hsum
  omega

/-! ### A drain -/

theorem length_tail (f : Feeder σ) : f.tail.length = f.pendingBytes := length_drop

theorem drainLoop_ledger (hP : P.Counts) (fuel : Nat) (f : Feeder σ) (h : η) (spent : Nat) :
    (Feeder.drainLoop P H fuel f h spent).slices.flatMap Slice.bytes ++
        (Feeder.drainLoop P H fuel f h spent).feeder.tail = f.tail ∧
      (Feeder.drainLoop P H fuel f h spent).feeder.stats.chargedBytes +
            P.syncBytesCount (Feeder.drainLoop P H fuel f h spent).feeder.parser +
          ((Feeder.drainLoop P H fuel f h spent).slices.map (Slice.missed P)).sum =
        f.stats.chargedBytes + P.syncBytesCount f.parser +
          ((Feeder.drainLoop P H fuel f h spent).slices.flatMap Slice.bytes).length := by
  induction fuel generalizing f h spent with
  | zero => exact ⟨rfl, rfl⟩
  | succ fuel ih =>
    rw [Feeder.drainLoop]
    by_cases hmore : f.pendingAt < f.pending.length
    · have hfront := nextSlice_append P H f h spent
      have hslice := stepSlice_ledger P H hP f h spent
      simp only [if_pos hmore]
      by_cases hdone : workBudget ≤ satAdd spent (f.stepSlice P H h spent).2.2
      · simp only [if_pos hdone, flatMap_cons, flatMap_nil, append_nil,
          map_cons, map_nil, sum_cons, sum_nil, Nat.add_zero]
        exact ⟨hfront, hslice⟩
      · obtain ⟨hrest, hledger⟩ := ih (f.stepSlice P H h spent).1 (f.stepSlice P H h spent).2.1
          (satAdd spent (f.stepSlice P H h spent).2.2)
        simp only [if_neg hdone, flatMap_cons, map_cons, sum_cons,
          append_assoc, length_append]
        refine ⟨?_, by omega⟩
        rw [hrest]
        exact hfront
    · simp only [if_neg hmore]
      exact ⟨rfl, rfl⟩

theorem settle_spec (f : Feeder σ) :
    f.settle.tail = f.tail ∧ f.settle.stats.chargedBytes = f.stats.chargedBytes ∧
      f.settle.parser = f.parser := by
  rw [Feeder.settle]
  by_cases hall : f.pendingAt = f.pending.length
  · simp only [if_pos hall]
    refine ⟨?_, trivial, trivial⟩
    simp [Feeder.tail, hall]
  · simp only [if_neg hall]
    exact ⟨rfl, trivial, trivial⟩

theorem enqueue_spec (f : Feeder σ) (hat : f.pendingAt ≤ f.pending.length) (bytes : List UInt8) :
    (f.enqueue bytes).tail = f.tail ++ bytes ∧
      (f.enqueue bytes).stats.chargedBytes = f.stats.chargedBytes ∧
      (f.enqueue bytes).parser = f.parser := by
  refine ⟨?_, rfl, rfl⟩
  rw [Feeder.enqueue]
  by_cases hpos : 0 < f.pendingAt
  · simp only [Feeder.tail, if_pos hpos]
    rfl
  · simp only [Feeder.tail, if_neg hpos]
    exact drop_append_of_le_length hat

/-! ### Runs -/

/-- The bytes that the parser has got. -/
def TerminalState.handed (s : TerminalState σ η) : List UInt8 := s.slices.flatMap Slice.bytes

/-- The invariant of the accounts. -/
structure TerminalState.Ledger (s : TerminalState σ η) : Prop where
  cursor : s.feeder.pendingAt ≤ s.feeder.pending.length
  bytes : s.handed ++ s.feeder.tail = s.kept
  /-- What is charged, buffered or missed is what the parser has got. -/
  charge : s.feeder.stats.chargedBytes + P.syncBytesCount s.feeder.parser +
    (s.slices.map (Slice.missed P)).sum = s.handed.length

theorem drainLoop_cursor (fuel : Nat) {f : Feeder σ} {h : η} {spent : Nat}
    (hat : f.pendingAt ≤ f.pending.length) :
    (Feeder.drainLoop P H fuel f h spent).feeder.pendingAt ≤
      (Feeder.drainLoop P H fuel f h spent).feeder.pending.length := by
  induction fuel generalizing f h spent with
  | zero => exact hat
  | succ fuel ih =>
    rw [Feeder.drainLoop]
    by_cases hmore : f.pendingAt < f.pending.length
    · obtain ⟨-, hpending, hcursor, -⟩ := stepSlice_spec P H f h spent
      have hlen : (f.nextSlice spent).length ≤ f.pending.length - f.pendingAt := by
        rw [Feeder.nextSlice, length_take, length_drop]
        exact Nat.min_le_right _ _
      have hnext : (f.stepSlice P H h spent).1.pendingAt ≤
          (f.stepSlice P H h spent).1.pending.length := by
        rw [hpending, hcursor]
        omega
      simp only [if_pos hmore]
      split
      · exact hnext
      · exact ih hnext
    · simp only [if_neg hmore]
      exact hat

theorem settle_cursor {f : Feeder σ} (hat : f.pendingAt ≤ f.pending.length) :
    f.settle.pendingAt ≤ f.settle.pending.length := by
  rw [Feeder.settle]
  by_cases hall : f.pendingAt = f.pending.length
  · simp only [if_pos hall]
    exact Nat.le_refl 0
  · simp only [if_neg hall]
    exact hat

variable {s : TerminalState σ η}

theorem ledger_afterDrain (hP : P.Counts) (hs : s.Ledger P) :
    (s.afterDrain (s.feeder.drain P H s.handler)).Ledger P := by
  let d := Feeder.drainLoop P H s.feeder.pendingBytes s.feeder s.handler 0
  obtain ⟨hfront, hledger⟩ :=
    drainLoop_ledger P H hP s.feeder.pendingBytes s.feeder s.handler 0
  replace hledger : d.feeder.stats.chargedBytes + P.syncBytesCount d.feeder.parser +
      (d.slices.map (Slice.missed P)).sum = s.feeder.stats.chargedBytes +
        P.syncBytesCount s.feeder.parser + (d.slices.flatMap Slice.bytes).length := hledger
  obtain ⟨htail, hcharged, hparser⟩ := settle_spec d.feeder
  have hhanded : (s.afterDrain (s.feeder.drain P H s.handler)).handed =
      s.handed ++ d.slices.flatMap Slice.bytes := flatMap_append
  have hcharge := hs.charge
  refine ⟨settle_cursor (drainLoop_cursor P H _ hs.cursor), ?_, ?_⟩
  · rw [hhanded, append_assoc]
    show s.handed ++ (d.slices.flatMap Slice.bytes ++ d.feeder.settle.tail) = s.kept
    rw [htail, hfront]
    exact hs.bytes
  · rw [hhanded, length_append]
    show d.feeder.settle.stats.chargedBytes + P.syncBytesCount d.feeder.settle.parser +
      ((s.slices ++ d.slices).map (Slice.missed P)).sum = _
    rw [hcharged, hparser, map_append, sum_append]
    omega

theorem ledger_step (hP : P.Counts) (hs : s.Ledger P) (a : TerminalAction) :
    (s.step P H a).Ledger P := by
  cases a with
  | feed bytes =>
    obtain ⟨htail, hcharged, hparser⟩ := enqueue_spec s.feeder hs.cursor bytes
    have hfed : TerminalState.Ledger P
        { s with feeder := s.feeder.enqueue bytes, kept := s.kept ++ bytes } := by
      refine ⟨?_, ?_, ?_⟩
      · show (if 0 < s.feeder.pendingAt then 0 else s.feeder.pendingAt) ≤
          ((if 0 < s.feeder.pendingAt then s.feeder.pending.drop s.feeder.pendingAt
            else s.feeder.pending) ++ bytes).length
        have := hs.cursor
        split
        · exact Nat.zero_le _
        · rw [length_append]
          omega
      · show s.handed ++ (s.feeder.enqueue bytes).tail = s.kept ++ bytes
        rw [htail, ← append_assoc, hs.bytes]
      · show (s.feeder.enqueue bytes).stats.chargedBytes +
          P.syncBytesCount (s.feeder.enqueue bytes).parser + _ = _
        rw [hcharged, hparser]
        exact hs.charge
    exact ledger_afterDrain P H
      (s := { s with feeder := s.feeder.enqueue bytes, kept := s.kept ++ bytes }) hP hfed
  | drain => exact ledger_afterDrain P H (s := s) hP hs
  | abandonTail =>
    refine ⟨Nat.le_refl 0, ?_, hs.charge⟩
    show s.handed ++ [] = s.kept.take (s.kept.length - s.feeder.pendingBytes)
    simp [← hs.bytes, length_tail]
  | resize size => exact ⟨hs.cursor, hs.bytes, hs.charge⟩

theorem ledger_of_reachable (hP : P.Counts) (h : (terminal P H).Reachable s) : s.Ledger P := by
  refine StateMachine.Reachable.invariant (I := TerminalState.Ledger P) ?_ ?_ h
  · rintro s ⟨fences, size, hfeeder, hkept, hslices⟩
    refine ⟨?_, ?_, ?_⟩
    · rw [hfeeder]
      exact Nat.le_refl 0
    · rw [TerminalState.handed, hslices, hkept, hfeeder]
      rfl
    · rw [TerminalState.handed, hslices, hfeeder]
      show 0 + P.syncBytesCount P.new + 0 = 0
      rw [hP.new]
  · intro s a s' _ hI hs
    cases hs
    exact ledger_step P H hP hI a

/-- **The parser gets what was fed**, in order, without what is pending. -/
theorem handed_append_pending (hP : P.Counts) (h : (terminal P H).Reachable s) :
    s.handed ++ s.feeder.tail = s.kept :=
  (ledger_of_reachable P H hP h).bytes

/-- **The accounting of a feeder.** After every call of every run, the parser has got what was fed
without what is pending or was abandoned; and what is charged and buffered is what it has got if, and
only if, every slice so far was accounted for. -/
theorem accounting (hP : P.Counts) {s : TerminalState σ η} (h : (terminal P H).Reachable s) :
    s.handed ++ s.feeder.tail = s.kept ∧
      (s.feeder.stats.chargedBytes + P.syncBytesCount s.feeder.parser = s.handed.length ↔
        ∀ sl ∈ s.slices, sl.Accounted P) := by
  have hcharge := (ledger_of_reachable P H hP h).charge
  refine ⟨handed_append_pending P H hP h, ?_⟩
  have hsum : (s.slices.map (Slice.missed P)).sum = 0 ↔ ∀ sl ∈ s.slices, sl.Accounted P := by
    rw [sum_eq_zero_iff]
    refine ⟨fun hz sl hsl => ?_, fun hz n hn => ?_⟩
    · exact (sl.missed_eq_zero_iff P).mp (hz _ (mem_map_of_mem hsl))
    · obtain ⟨sl, hsl, rfl⟩ := mem_map.mp hn
      exact (sl.missed_eq_zero_iff P).mpr (hz sl hsl)
  rw [← hsum]
  omega

/-! ### The parser of a few sequences -/

theorem sampleByte_buffer (s : SampleState) (b : UInt8) : (sampleByte s b).1.buffer = s.buffer := by
  rw [sampleByte]
  split
  · split <;> rfl
  split
  · rfl
  split
  · rfl
  split
  · split <;> rfl
  · rfl

theorem sampleParser_counts : sampleParser.Counts where
  new := rfl
  advance := by
    intro s bytes
    show (sampleAdvance s bytes).1.buffer.length ≤ s.buffer.length + bytes.length
    induction bytes generalizing s with
    | nil => exact Nat.le_refl _
    | cons b bs ih =>
      rw [sampleAdvance]
      split
      · dsimp only
        split
        · exact Nat.zero_le _
        · simp
      · have hrest := ih (sampleByte s b).1
        rw [sampleByte_buffer] at hrest
        exact Nat.le_trans hrest (Nat.le_succ _)
  stopSync _ := rfl

def smallTerminal : TerminalState SampleState Unit :=
  ⟨Feeder.new sampleParser ⟨true, true⟩ ⟨80, 24, 100⟩, (), [], []⟩

/-- An update is opened, filled and ended in calls of their own. -/
def updateInCalls : List TerminalAction := [.feed bsu, .feed [65, 66], .feed esu, .abandonTail]

theorem accounting_updateInCalls : ∃ s,
    (terminal sampleParser sampleTerminal).run smallTerminal updateInCalls = some s ∧
      s.handed = bsu ++ [65, 66] ++ esu ∧
      s.feeder.stats.chargedBytes + sampleParser.syncBytesCount s.feeder.parser =
        s.handed.length := by
  have hrun : ((terminal sampleParser sampleTerminal).run smallTerminal updateInCalls).any
      (fun s => decide (s.handed = bsu ++ [65, 66] ++ esu ∧
        ∀ sl ∈ s.slices, sl.Accounted sampleParser)) = true := by decide +kernel
  obtain ⟨s, hs, hcheck⟩ := (Option.any_eq_true _ _).mp hrun
  obtain ⟨hhanded, haccounted⟩ := of_decide_eq_true hcheck
  have hreach : (terminal sampleParser sampleTerminal).Reachable s :=
    ⟨_, _, ⟨_, _, rfl, rfl, rfl⟩, hs⟩
  exact ⟨s, hs, hhanded,
    (accounting sampleParser sampleTerminal sampleParser_counts hreach).2.mpr haccounted⟩

/-- The opening of an update, and its first byte, in one slice: nothing is charged. -/
theorem not_charged_openedInSlice : ¬ ∀ s : TerminalState SampleState Unit,
    (terminal sampleParser sampleTerminal).Reachable s →
      s.feeder.stats.chargedBytes + sampleParser.syncBytesCount s.feeder.parser =
        s.handed.length := by
  intro h
  have hrun : ((terminal sampleParser sampleTerminal).run smallTerminal [.feed (bsu ++ [65])]).any
      (fun s => decide (s.feeder.stats.chargedBytes = 0 ∧ s.feeder.parser.buffer = [65] ∧
        s.handed.length = 9)) = true := by decide +kernel
  obtain ⟨s, hs, hcheck⟩ := (Option.any_eq_true _ _).mp hrun
  obtain ⟨hcharged, hbuffer, hlength⟩ := of_decide_eq_true hcheck
  have heq := h s ⟨_, _, ⟨_, _, rfl, rfl, rfl⟩, hs⟩
  have hcount : sampleParser.syncBytesCount s.feeder.parser = 1 := by
    show s.feeder.parser.buffer.length = 1
    rw [hbuffer]
    rfl
  omega

end Buzz.Terminal
