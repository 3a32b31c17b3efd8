import Buzz.Terminal.Feeder
import Mathlib.Algebra.GroupWithZero.Nat
import Mathlib.Algebra.Order.BigOperators.Group.List
import Mathlib.Algebra.Order.Group.Nat
import Mathlib.Data.List.Chain
import Mathlib.Data.List.Infix

/-!
# The lock hold of a drain

`drain` sizes every slice against what is left of the budget: a byte of text costs a row at most, and
a callback that costs more ends an escape sequence, which is two bytes or more. What the parser runs
on the pending bytes decides whether that is so, and then a drain costs one callback more than its
budget at most. It is not so when a synchronized update ends among them. That makes the parser run
every byte that was buffered, in one slice of a few bytes.
-/

namespace Buzz.Terminal

open List

variable {σ η : Type} (P : Processor σ) (H : Handler η)

/-! ### Callbacks -/

/-- What a callback costs at most. -/
def Size.dearest (g : Size) : Callback → Nat
  | .moveBackwardTabs _ => perByte g
  | call => g.weight call

def Size.costOf (g : Size) (calls : List Callback) : Nat := (calls.map g.dearest).sum

/-- The states of a terminal of this size: the cursor is in one of its columns, and
`move_backward_tabs` does not move it to the right. -/
structure Handler.Within (H : Handler η) (g : Size) (I : η → Prop) : Prop where
  call : ∀ h c, I h → I (H.call h c)
  column : ∀ h, I h → H.cursorColumn h < perByte g
  left : ∀ h, I h → H.cursorColumn (H.call h (.moveBackwardTabs 1)) ≤ H.cursorColumn h

section

variable {H} {I : η → Prop}

variable (H) in
theorem backwardTabs_work_le (hkeep : ∀ h, I h → I (H.call h (.moveBackwardTabs 1)))
    (hleft : ∀ h, I h → H.cursorColumn (H.call h (.moveBackwardTabs 1)) ≤ H.cursorColumn h)
    (count : Nat) {c : Counting η} (hc : I c.inner) :
    (Counting.backwardTabs H count c).work ≤ c.work + H.cursorColumn c.inner := by
  induction count generalizing c with
  | zero => exact Nat.le_add_right _ _
  | succ count ih =>
    have hstays := hleft c.inner hc
    rw [Counting.backwardTabs]
    split
    · exact satAdd_le _ _
    · refine Nat.le_trans (ih (hkeep _ hc)) ?_
      have hstep := satAdd_le c.work
        (H.cursorColumn c.inner - H.cursorColumn (H.call c.inner (.moveBackwardTabs 1)))
      dsimp only
      omega

variable {g : Size}

theorem backwardTabs_within (hH : H.Within g I) (count : Nat) {c : Counting η} (hc : I c.inner) :
    I (Counting.backwardTabs H count c).inner := by
  induction count generalizing c with
  | zero => exact hc
  | succ count ih =>
    rw [Counting.backwardTabs]
    split
    · exact hH.call _ _ hc
    · exact ih (hH.call _ _ hc)

theorem dispatch_le (hH : H.Within g I) {c : Counting η} (hc : I c.inner) (call : Callback) :
    (c.dispatch H g call).work ≤ c.work + g.dearest call ∧ I (c.dispatch H g call).inner := by
  have hcharge := satAdd_le c.work (g.weight call)
  cases call with
  | moveBackwardTabs count =>
    have hwork := backwardTabs_work_le H (fun h => hH.call h _) hH.left count
      (c := c.charge (g.weight (.moveBackwardTabs count))) hc
    have hcolumn := hH.column c.inner hc
    refine ⟨Nat.le_trans hwork ?_, backwardTabs_within hH count hc⟩
    show satAdd c.work 1 + H.cursorColumn c.inner ≤ c.work + perByte g
    have hone := satAdd_le c.work 1
    omega
  | _ => exact ⟨hcharge, hH.call _ _ hc⟩

theorem run_le (hH : H.Within g I) (calls : List Callback) {c : Counting η} (hc : I c.inner) :
    (c.run H g calls).work ≤ c.work + g.costOf calls ∧ I (c.run H g calls).inner := by
  induction calls generalizing c with
  | nil => exact ⟨Nat.le_refl _, hc⟩
  | cons call calls ih =>
    obtain ⟨hwork, hinner⟩ := dispatch_le hH hc call
    obtain ⟨hwork', hinner'⟩ := ih hinner
    refine ⟨Nat.le_trans hwork' ?_, hinner'⟩
    rw [Size.costOf, Size.costOf, map_cons, sum_cons]
    omega

theorem workOf_le (hH : H.Within g I) {h : η} (hh : I h) (calls : List Callback) :
    workOf H g h calls ≤ g.costOf calls ∧ I (innerOf H g h calls) := by
  obtain ⟨hwork, hinner⟩ := run_le hH calls (c := .new h) hh
  exact ⟨Nat.le_trans hwork (Nat.le_of_eq (Nat.zero_add _)), hinner⟩

theorem satMul_le_satMul {a b c d : Nat} (hac : a ≤ c) (hbd : b ≤ d) : satMul a b ≤ satMul c d :=
  min_le_min_right _ (Nat.mul_le_mul hac hbd)

theorem columns_le_maxAtomWork (g : Size) : g.columns ≤ maxAtomWork g := Nat.le_max_right _ _

theorem reset_le_maxAtomWork (g : Size) : g.weight .resetState ≤ maxAtomWork g :=
  Nat.le_max_left _ _

theorem cells_le_maxAtomWork (g : Size) : g.cells ≤ maxAtomWork g := by
  refine Nat.le_trans ?_ (reset_le_maxAtomWork g)
  have hcells : g.cells ≤ u64Max := Nat.min_le_right _ _
  rw [Size.weight, satAdd, satMul]
  omega

theorem rows_le_maxAtomWork (g : Size) (n : Nat) : g.rows n ≤ maxAtomWork g := by
  obtain hzero | hpos := Nat.eq_zero_or_pos g.screenLines
  · have hone : Size.clamp n g.screenLines = 1 := by
      rw [Size.clamp, hzero]
      omega
    rw [Size.rows, hone, satMul, Nat.one_mul]
    exact Nat.le_trans (Nat.min_le_left _ _) (columns_le_maxAtomWork g)
  · have hle : Size.clamp n g.screenLines ≤ g.screenLines := by
      rw [Size.clamp]
      omega
    refine Nat.le_trans (satMul_le_satMul hle (Nat.le_refl _)) ?_
    rw [satMul, Nat.mul_comm]
    exact cells_le_maxAtomWork g

theorem dearest_le (g : Size) (call : Callback) : g.dearest call ≤ max (maxAtomWork g) 1 := by
  have hcolumns := columns_le_maxAtomWork g
  have hcells := cells_le_maxAtomWork g
  have hreset := reset_le_maxAtomWork g
  cases call with
  | plain => exact Nat.le_max_right _ _
  | eraseChars count =>
    show Size.clamp count g.columns ≤ _
    rw [Size.clamp]
    omega
  | moveBackwardTabs count =>
    show max g.columns 1 ≤ _
    omega
  | scrollUp n | deleteLines n | scrollDown n | insertBlankLines n =>
      exact Nat.le_trans (rows_le_maxAtomWork g n) (Nat.le_max_left _ _)
  | clearScreen | decaln => exact Nat.le_trans hcells (Nat.le_max_left _ _)
  | resetState => exact Nat.le_trans hreset (Nat.le_max_left _ _)
  | _ => exact Nat.le_trans hcolumns (Nat.le_max_left _ _)

/-- **The dearest callback.** None costs more than `max_atom_work`, on a grid that has a column. -/
theorem workOf_singleton_le (hH : H.Within g I) {h : η} (hh : I h) (call : Callback) :
    workOf H g h [call] ≤ max (maxAtomWork g) 1 :=
  Nat.le_trans (workOf_le hH hh [call]).1 (dearest_le g call)

end

/-! ### Bytes -/

namespace Processor

/-- The parser after these bytes, one by one. -/
def read : σ → List UInt8 → σ
  | s, [] => s
  | s, b :: bs => read (P.advance s [b]).1 bs

/-- The bytes, and what the callbacks cost that each of them completes. -/
def costs (g : Size) : σ → List UInt8 → List (UInt8 × Nat)
  | _, [] => []
  | s, b :: bs => (b, g.costOf (P.advance s [b]).2) :: costs g (P.advance s [b]).1 bs

/-- No byte ends a synchronized update: the buffer does not get smaller. -/
def endsNone : σ → List UInt8 → Bool
  | _, [] => true
  | s, b :: bs => decide (P.syncBytesCount s ≤ P.syncBytesCount (P.advance s [b]).1) &&
    endsNone (P.advance s [b]).1 bs

/-- Every callback is dispatched on the byte that completes its sequence, so a slice that ends no
update is read like its bytes one by one. -/
structure Bytewise : Prop where
  nil : ∀ s, P.advance s [] = (s, [])
  cons : ∀ s b bs, P.endsNone s (b :: bs) = true → P.advance s (b :: bs) =
    ((P.advance (P.advance s [b]).1 bs).1,
      (P.advance s [b]).2 ++ (P.advance (P.advance s [b]).1 bs).2)

variable {P} {g : Size} {s : σ}

theorem read_append (bs cs : List UInt8) : P.read s (bs ++ cs) = P.read (P.read s bs) cs := by
  induction bs generalizing s with
  | nil => rfl
  | cons b bs ih => exact ih

theorem costs_append (bs cs : List UInt8) :
    P.costs g s (bs ++ cs) = P.costs g s bs ++ P.costs g (P.read s bs) cs := by
  induction bs generalizing s with
  | nil => rfl
  | cons b bs ih =>
    rw [cons_append, costs, costs, ih, cons_append]
    rfl

theorem endsNone_append (bs cs : List UInt8) :
    P.endsNone s (bs ++ cs) = (P.endsNone s bs && P.endsNone (P.read s bs) cs) := by
  induction bs generalizing s with
  | nil => rfl
  | cons b bs ih =>
    rw [cons_append, endsNone, endsNone, ih, Bool.and_assoc]
    rfl

theorem count_le_of_endsNone {bs : List UInt8} (h : P.endsNone s bs = true) :
    P.syncBytesCount s ≤ P.syncBytesCount (P.read s bs) := by
  induction bs generalizing s with
  | nil => exact Nat.le_refl _
  | cons b bs ih =>
    obtain ⟨hle, hrest⟩ := (Bool.and_eq_true _ _).mp h
    exact Nat.le_trans (of_decide_eq_true hle) (ih hrest)

theorem length_costs (s : σ) (bs : List UInt8) : (P.costs g s bs).length = bs.length := by
  induction bs generalizing s with
  | nil => rfl
  | cons b bs ih => rw [costs, length_cons, length_cons, ih]

theorem fst_mem_of_mem_costs {bs : List UInt8} {x : UInt8 × Nat} (h : x ∈ P.costs g s bs) :
    x.1 ∈ bs := by
  induction bs generalizing s with
  | nil => nomatch h
  | cons b bs ih =>
    obtain rfl | h := mem_cons.mp h
    · exact mem_cons_self
    · exact mem_cons_of_mem _ (ih h)

theorem advance_of_bytewise (hP : P.Bytewise) {bs : List UInt8} (h : P.endsNone s bs = true) :
    (P.advance s bs).1 = P.read s bs ∧
      g.costOf (P.advance s bs).2 = ((P.costs g s bs).map Prod.snd).sum := by
  induction bs generalizing s with
  | nil =>
    rw [hP.nil]
    exact ⟨rfl, rfl⟩
  | cons b bs ih =>
    obtain ⟨hstate, hcost⟩ := ih ((Bool.and_eq_true _ _).mp h).2
    rw [hP.cons s b bs h]
    refine ⟨hstate, ?_⟩
    simp [costs, sum_cons, ← hcost, Size.costOf, sum_append]

end Processor

/-! ### Dear bytes -/

/-- Of two bytes that cost more than `limit`, the later one comes after the start of a sequence. The
first one may end a sequence that has started before, when `started` says so. -/
def spaced (limit : Nat) (starts : UInt8 × Nat → Bool) : Bool → List (UInt8 × Nat) → Bool
  | _, [] => true
  | started, x :: xs =>
    if limit < x.2 then started && spaced limit starts (starts x) xs
    else spaced limit starts (started || starts x) xs

section

variable {limit : Nat} {starts : UInt8 × Nat → Bool} {started : Bool} {l m : List (UInt8 × Nat)}

theorem spaced_mono (h : spaced limit starts started l = true) :
    spaced limit starts true l = true := by
  induction l generalizing started with
  | nil => rfl
  | cons x xs ih =>
    rw [spaced] at h ⊢
    split at h
    · next hdear =>
      rw [if_pos hdear, Bool.true_and]
      exact ((Bool.and_eq_true _ _).mp h).2
    · next hcheap =>
      rw [if_neg hcheap, Bool.true_or]
      exact ih h

theorem spaced_append (h : spaced limit starts started (l ++ m) = true) :
    spaced limit starts started l = true ∧ spaced limit starts true m = true := by
  induction l generalizing started with
  | nil => exact ⟨rfl, spaced_mono h⟩
  | cons x xs ih =>
    rw [cons_append, spaced] at h
    rw [spaced]
    split at h
    · next hdear =>
      obtain ⟨hstarted, hrest⟩ := (Bool.and_eq_true _ _).mp h
      rw [if_pos hdear, hstarted, Bool.true_and]
      exact ih hrest
    · next hcheap =>
      rw [if_neg hcheap]
      exact ih h

/-- Where no sequence starts there is one dear byte at most. -/
theorem sum_le_of_plain {dear : Nat} (h : spaced limit starts started l = true)
    (hstarts : ∀ x ∈ l, starts x = false) (hdear : ∀ x ∈ l, limit < x.2 → x.2 ≤ dear) :
    (l.map Prod.snd).sum ≤ (if started then dear else 0) + l.length * limit := by
  induction l generalizing started with
  | nil => exact Nat.zero_le _
  | cons x xs ih =>
    have hx := hstarts x mem_cons_self
    have ih := fun started h => @ih started h
      (fun y hy => hstarts y (mem_cons_of_mem _ hy))
      fun y hy => hdear y (mem_cons_of_mem _ hy)
    rw [spaced, hx, Bool.or_false] at h
    rw [map_cons, sum_cons, length_cons, Nat.succ_mul]
    split at h
    · next hlt =>
      obtain ⟨rfl, hrest⟩ := (Bool.and_eq_true _ _).mp h
      have hle := ih false hrest
      have hle' := hdear x mem_cons_self hlt
      rw [if_neg Bool.false_ne_true] at hle
      rw [if_pos rfl]
      omega
    · have hle := ih started h
      omega

/-- A start costs nothing, so it and the dear byte that ends its sequence cost what two bytes may. -/
theorem sum_le_of_dense {dear pair : Nat} (h : spaced limit starts started l = true)
    (hstarts : ∀ x ∈ l, starts x = true → x.2 = 0)
    (hdear : ∀ x ∈ l, limit < x.2 → x.2 ≤ dear) (hlimit : 2 * limit ≤ pair) (hpair : dear ≤ pair) :
    2 * (l.map Prod.snd).sum ≤ (if started then pair else 0) + l.length * pair := by
  induction l generalizing started with
  | nil => exact Nat.zero_le _
  | cons x xs ih =>
    have hx := hstarts x mem_cons_self
    have ih := fun started h => @ih started h
      (fun y hy => hstarts y (mem_cons_of_mem _ hy))
      fun y hy => hdear y (mem_cons_of_mem _ hy)
    rw [spaced] at h
    rw [map_cons, sum_cons, length_cons, Nat.add_one_mul xs.length]
    split at h
    · next hlt =>
      obtain ⟨rfl, hrest⟩ := (Bool.and_eq_true _ _).mp h
      have hle' := hdear x mem_cons_self hlt
      have hno : starts x = false := by
        rw [← Bool.not_eq_true]
        intro hx'
        have hzero := hx hx'
        omega
      have hle := ih _ hrest
      rw [hno, if_neg Bool.false_ne_true] at hle
      rw [if_pos rfl]
      omega
    · have hle := ih _ h
      cases hstart : starts x with
      | true =>
        have hzero := hx hstart
        rw [hstart, Bool.or_true, if_pos rfl] at hle
        omega
      | false =>
        rw [hstart, Bool.or_false] at hle
        omega

end

/-! ### What the slices are sized for -/

/-- What a parser in state `s` runs on these bytes is what the slices are sized for. -/
structure Frugal (fences : Fences) (g : Size) (s : σ) (bytes : List UInt8) : Prop where
  /-- No synchronized update ends, and the first fence does not end one. -/
  endsNone : P.endsNone s bytes = true
  short : fences.syncAbort = true → P.syncBytesCount (P.read s bytes) < syncCap
  /-- What a byte makes the parser run costs no more than one callback may. -/
  atom : ∀ x ∈ P.costs g s bytes, x.2 ≤ max (maxAtomWork g) 1
  /-- Bytes that cost more than one of a plain run end a sequence each. -/
  plain : spaced (perByte g) (fun x => x.1 == escape) true (P.costs g s bytes) = true
  /-- Bytes that cost more than half of the dearest callback end a sequence each, that an escape has
  started which ended none. -/
  dense : spaced (densest g) (fun x => x.1 == escape && x.2 == 0) true (P.costs g s bytes) = true

instance (fences : Fences) (g : Size) (s : σ) (bytes : List UInt8) :
    Decidable (Frugal P fences g s bytes) :=
  decidable_of_iff (P.endsNone s bytes = true ∧
      (fences.syncAbort = true → P.syncBytesCount (P.read s bytes) < syncCap) ∧
      (∀ x ∈ P.costs g s bytes, x.2 ≤ max (maxAtomWork g) 1) ∧
      spaced (perByte g) (fun x => x.1 == escape) true (P.costs g s bytes) = true ∧
      spaced (densest g) (fun x => x.1 == escape && x.2 == 0) true (P.costs g s bytes) = true)
    ⟨fun ⟨h1, h2, h3, h4, h5⟩ => ⟨h1, h2, h3, h4, h5⟩,
      fun ⟨h1, h2, h3, h4, h5⟩ => ⟨h1, h2, h3, h4, h5⟩⟩

variable {P} {fences : Fences} {g : Size} {s : σ}

theorem Frugal.append {bs cs : List UInt8} (h : Frugal P fences g s (bs ++ cs)) :
    Frugal P fences g s bs ∧ Frugal P fences g (P.read s bs) cs := by
  obtain ⟨hnone, hshort, hatom, hplain, hdense⟩ := h
  rw [Processor.endsNone_append, Bool.and_eq_true] at hnone
  rw [Processor.read_append] at hshort
  rw [Processor.costs_append] at hatom hplain hdense
  have hcount := Processor.count_le_of_endsNone hnone.2
  exact ⟨⟨hnone.1, fun hf => Nat.lt_of_le_of_lt hcount (hshort hf),
      fun x hx => hatom x (mem_append_left _ hx), (spaced_append hplain).1,
      (spaced_append hdense).1⟩,
    ⟨hnone.2, hshort, fun x hx => hatom x (mem_append_right _ hx), (spaced_append hplain).2,
      (spaced_append hdense).2⟩⟩

/-- Half of the dearest callback is a whole number, or there are fewer bytes in a slice than it would
take to make up for it. -/
def Size.Halves (g : Size) : Prop :=
  maxAtomWork g ≤ 2 * densest g ∨ maxSlice ≤ 2 * densest g + 2

instance (g : Size) : Decidable g.Halves := inferInstanceAs (Decidable (_ ∨ _))

theorem maxAtomWork_le_densest (g : Size) : maxAtomWork g ≤ 2 * densest g + 1 := by
  rw [densest]
  omega

/-- Two bytes for every callback are enough, when half of the dearest one is rounded down too. -/
theorem sum_le_of_pairs {n sum : Nat}
    (hsum : ∀ pair, 2 * densest g ≤ pair → maxAtomWork g ≤ pair → 2 * sum ≤ pair + n * pair)
    (hgrid : g.Halves) (hn : n ≤ maxSlice) (hzero : maxAtomWork g = 0 → sum ≤ n) :
    sum ≤ maxAtomWork g + n * densest g := by
  have hatom := maxAtomWork_le_densest g
  have hhalf : densest g = max (maxAtomWork g / 2) 1 := rfl
  have hmul : n * (2 * densest g) = 2 * (n * densest g) := Nat.mul_left_comm n 2 _
  obtain h0 | hpos := Nat.eq_zero_or_pos (maxAtomWork g)
  · have hone : densest g = 1 := by omega
    have hle := hzero h0
    rw [hone, Nat.mul_one]
    omega
  by_cases hle : maxAtomWork g ≤ 2 * densest g
  · have hpair := hsum (2 * densest g) (Nat.le_refl _) hle
    omega
  · -- The dearest callback is odd.
    have hpair := hsum (2 * densest g + 1) (Nat.le_succ _) hatom
    rw [Nat.mul_add, Nat.mul_one] at hpair
    obtain h | hslice := hgrid
    · exact absurd h hle
    · omega

theorem sum_costs_le {bytes : List UInt8} {nextEscape : Nat} (h : Frugal P fences g s bytes)
    (hgrid : g.Halves) (hlength : bytes.length ≤ maxSlice)
    (hplain : 0 < nextEscape → ∀ b ∈ bytes, b ≠ escape) :
    ((P.costs g s bytes).map Prod.snd).sum ≤
      maxAtomWork g + bytes.length * density g nextEscape := by
  have hlen := Processor.length_costs (P := P) (g := g) s bytes
  have hdear : ∀ limit, 0 < limit → ∀ x ∈ P.costs g s bytes, limit < x.2 → x.2 ≤ maxAtomWork g := by
    intro limit hpos x hx hlt
    have hatom := h.atom x hx
    omega
  rw [density]
  split
  · next hnext =>
    have hpos : 0 < perByte g := Nat.lt_of_lt_of_le Nat.one_pos (Nat.le_max_right _ _)
    have hstarts : ∀ x ∈ P.costs g s bytes, (x.1 == escape) = false := fun x hx =>
      beq_eq_false_iff_ne.mpr (hplain hnext _ (Processor.fst_mem_of_mem_costs hx))
    have hle := sum_le_of_plain h.plain hstarts (hdear _ hpos)
    rwa [if_pos rfl, hlen] at hle
  · have hpos : 0 < densest g := Nat.lt_of_lt_of_le Nat.one_pos (Nat.le_max_right _ _)
    have hsum : ∀ pair, 2 * densest g ≤ pair → maxAtomWork g ≤ pair →
        2 * ((P.costs g s bytes).map Prod.snd).sum ≤ pair + bytes.length * pair := by
      intro pair hlimit hpair
      have hle := sum_le_of_dense h.dense
        (fun x _ hstart => beq_iff_eq.mp ((Bool.and_eq_true _ _).mp hstart).2) (hdear _ hpos)
        hlimit hpair
      rwa [if_pos rfl, hlen] at hle
    exact sum_le_of_pairs hsum hgrid hlength fun hzero => by
      have hone : ∀ c ∈ (P.costs g s bytes).map Prod.snd, c ≤ 1 := by
        intro c hc
        obtain ⟨x, hx, rfl⟩ := mem_map.mp hc
        have hatom := h.atom x hx
        omega
      have hle : _ ≤ ((P.costs g s bytes).map Prod.snd).length * 1 :=
        sum_le_card_nsmul _ _ hone
      rwa [length_map, hlen, Nat.mul_one] at hle

variable (P)

/-! ### One slice -/

/-- The cost of the callbacks that the parser runs on a slice, and of those that it runs when the
first fence ends the update then. -/
def Slice.parserWork (sl : Slice σ η) : Nat :=
  let result := P.advance sl.feeder.parser sl.bytes
  workOf H sl.feeder.size sl.handler result.2 +
    if sl.feeder.fences.syncAbort ∧ syncCap ≤ P.syncBytesCount result.1 then
      workOf H sl.feeder.size (innerOf H sl.feeder.size sl.handler result.2)
        (P.stopSync result.1).2
    else 0

/-- A byte makes the parser run one callback at most, and a slice of `n` bytes one callback, and `n`
bytes at the density that the slice was sized for. -/
structure Slice.Metered (sl : Slice σ η) : Prop where
  one : sl.bytes.length ≤ 1 → sl.parserWork P H ≤ max (maxAtomWork sl.feeder.size) 1
  many : sl.parserWork P H ≤ maxAtomWork sl.feeder.size +
    sl.bytes.length * density sl.feeder.size sl.feeder.nextEscape

theorem parse_spec (f : Feeder σ) (h : η) (bytes : List UInt8) :
    (f.parse P H h bytes).1.parser = (P.advance f.parser bytes).1 ∧
      (f.parse P H h bytes).1.fences = f.fences ∧ (f.parse P H h bytes).1.size = f.size ∧
      (f.parse P H h bytes).1.pending = f.pending ∧
      (f.parse P H h bytes).1.pendingAt = f.pendingAt ∧
      (f.parse P H h bytes).2.1 = innerOf H f.size h (P.advance f.parser bytes).2 ∧
      (f.parse P H h bytes).2.2 = workOf H f.size h (P.advance f.parser bytes).2 := by
  rw [Feeder.parse]
  split <;> exact ⟨rfl, rfl, rfl, rfl, rfl, rfl, rfl⟩

theorem abortSync_spec (f : Feeder σ) (h : η) :
    (f.abortSync P H h).1.size = f.size ∧ (f.abortSync P H h).1.pending = f.pending ∧
      (f.abortSync P H h).1.pendingAt = f.pendingAt ∧
      (f.abortSync P H h).2.2 =
        if f.fences.syncAbort ∧ syncCap ≤ P.syncBytesCount f.parser then
          workOf H f.size h (P.stopSync f.parser).2
        else 0 := by
  rw [Feeder.abortSync]
  split
  · exact ⟨rfl, rfl, rfl, rfl⟩
  · exact ⟨rfl, rfl, rfl, rfl⟩

theorem rebuild_spec (f : Feeder σ) :
    (f.rebuild P).size = f.size ∧ (f.rebuild P).pending = f.pending ∧
      (f.rebuild P).pendingAt = f.pendingAt ∧ (f.rebuild P).fences = f.fences ∧
      ((f.rebuild P).parser = f.parser ∨
        f.fences.oscBudget = true ∧ (f.rebuild P).parser = P.new) := by
  rw [Feeder.rebuild]
  split
  · next hc => exact ⟨rfl, rfl, rfl, rfl, .inr ⟨hc.1, rfl⟩⟩
  · exact ⟨rfl, rfl, rfl, rfl, .inl rfl⟩

theorem stepSlice_spec (f : Feeder σ) (h : η) (spent : Nat) :
    (f.stepSlice P H h spent).1.size = f.size ∧
      (f.stepSlice P H h spent).1.pending = f.pending ∧
      (f.stepSlice P H h spent).1.pendingAt = f.pendingAt + (f.nextSlice spent).length ∧
      (f.stepSlice P H h spent).2.2 ≤ Slice.parserWork P H ⟨f, h, f.nextSlice spent⟩ := by
  let f₀ : Feeder σ := { f with pendingAt := f.pendingAt + (f.nextSlice spent).length }
  obtain ⟨hparser, hfences, hsize, hpending, hat, hinner, hwork⟩ :=
    parse_spec P H f₀ h (f.nextSlice spent)
  obtain ⟨hsize', hpending', hat', hwork'⟩ := abortSync_spec P H
    (f₀.parse P H h (f.nextSlice spent)).1 (f₀.parse P H h (f.nextSlice spent)).2.1
  obtain ⟨hsize'', hpending'', hat'', -, -⟩ := rebuild_spec P
    ((f₀.parse P H h (f.nextSlice spent)).1.abortSync P H
      (f₀.parse P H h (f.nextSlice spent)).2.1).1
  refine ⟨hsize''.trans (hsize'.trans hsize), hpending''.trans (hpending'.trans hpending),
    hat''.trans (hat'.trans hat), ?_⟩
  show satAdd (satAdd 0 _) _ ≤ _
  rw [hwork', hwork, hparser, hfences, hsize, hinner]
  refine Nat.le_trans (satAdd_le _ _) (Nat.add_le_add_right ?_ _)
  exact Nat.le_trans (satAdd_le _ _) (Nat.le_of_eq (Nat.zero_add _))

theorem nextSlice_append (f : Feeder σ) (h : η) (spent : Nat) :
    f.nextSlice spent ++ (f.stepSlice P H h spent).1.tail = f.tail := by
  obtain ⟨-, hpending, hat, -⟩ := stepSlice_spec P H f h spent
  have hdrop : ∀ (l : List UInt8) w, l.take w ++ l.drop (l.take w).length = l := by
    intro l w
    rw [length_take]
    obtain hle | hle := Nat.le_total w l.length
    · rw [Nat.min_eq_left hle, take_append_drop]
    · rw [Nat.min_eq_right hle, take_of_length_le hle, drop_length, append_nil]
  rw [Feeder.tail, hpending, hat, ← drop_drop]
  exact hdrop f.tail _

theorem ne_escape_of_mem_take {l : List UInt8} {n : Nat} (hn : n ≤ l.findIdx fun b => b == escape)
    {b : UInt8} (hb : b ∈ l.take n) : b ≠ escape := by
  obtain ⟨k, hk, rfl⟩ := mem_iff_getElem.mp hb
  have hlt : k < n := Nat.lt_of_lt_of_le hk (length_take_le n l)
  rw [getElem_take]
  exact beq_eq_false_iff_ne.mp (not_of_lt_findIdx (Nat.lt_of_lt_of_le hlt hn))

/-- A slice of a plain run ends before the next escape. -/
theorem ne_escape_of_mem_nextSlice {f : Feeder σ} {spent : Nat} (hnext : 0 < f.nextEscape)
    {b : UInt8} (hb : b ∈ f.nextSlice spent) : b ≠ escape := by
  obtain ⟨hslice, hescape⟩ := @sliceBytesRemaining_le f.size spent f.nextEscape
  have hplain : f.nextEscape = (f.tail.take maxSlice).findIdx fun b => b == escape := by
    rw [Feeder.nextEscape] at hnext ⊢
    split at hnext
    · exact absurd hnext (Nat.lt_irrefl 0)
    · next hmid => exact if_neg hmid
  refine ne_escape_of_mem_take (Nat.le_trans (hescape hnext) (Nat.le_of_eq hplain)) ?_
  rwa [take_take, Nat.min_eq_left hslice]

section

variable {P H} {I : η → Prop} {f : Feeder σ} {h : η} {spent : Nat}

/-- **Slices are metered.** A slice that ends no update, and whose dear bytes end a sequence each,
costs what it was sized for. -/
theorem metered_of_bytewise (hP : P.Bytewise) (hH : H.Within f.size I) (hh : I h)
    (hfrugal : Frugal P f.fences f.size f.parser (f.nextSlice spent)) (hgrid : f.size.Halves) :
    Slice.Metered P H ⟨f, h, f.nextSlice spent⟩ := by
  obtain ⟨hread, hcost⟩ := Processor.advance_of_bytewise (g := f.size) hP hfrugal.endsNone
  obtain ⟨hwork, -⟩ := workOf_le hH hh (P.advance f.parser (f.nextSlice spent)).2
  have hlength : (f.nextSlice spent).length ≤ maxSlice :=
    Nat.le_trans (length_take_le _ _) sliceBytesRemaining_le.1
  have hle : Slice.parserWork P H ⟨f, h, f.nextSlice spent⟩ ≤
      ((P.costs f.size f.parser (f.nextSlice spent)).map Prod.snd).sum := by
    rw [Slice.parserWork]
    rw [if_neg fun hc => ?_, Nat.add_zero, ← hcost]
    · exact hwork
    · rw [hread] at hc
      exact Nat.not_le_of_lt (hfrugal.short hc.1) hc.2
  refine ⟨fun hone => Nat.le_trans hle ?_, Nat.le_trans hle ?_⟩
  · have hatom : ∀ c ∈ (P.costs f.size f.parser (f.nextSlice spent)).map Prod.snd,
        c ≤ max (maxAtomWork f.size) 1 := by
      intro c hc
      obtain ⟨x, hx, rfl⟩ := mem_map.mp hc
      exact hfrugal.atom x hx
    refine Nat.le_trans (sum_le_card_nsmul _ _ hatom) ?_
    rw [length_map, Processor.length_costs]
    exact Nat.le_trans (Nat.mul_le_mul_right _ hone) (Nat.le_of_eq (Nat.one_mul _))
  · exact sum_costs_le hfrugal hgrid hlength fun hnext b hb =>
      ne_escape_of_mem_nextSlice hnext hb

/-- Where a slice ends no update the terminal has run its callbacks, and the parser has read it, or
is rebuilt. -/
theorem stepSlice_of_frugal (hP : P.Bytewise)
    (hfrugal : Frugal P f.fences f.size f.parser (f.nextSlice spent)) :
    (f.stepSlice P H h spent).2.1 =
        innerOf H f.size h (P.advance f.parser (f.nextSlice spent)).2 ∧
      (f.stepSlice P H h spent).1.fences = f.fences ∧
      ((f.stepSlice P H h spent).1.parser = P.read f.parser (f.nextSlice spent) ∨
        f.fences.oscBudget = true ∧ (f.stepSlice P H h spent).1.parser = P.new) := by
  obtain ⟨hread, -⟩ := Processor.advance_of_bytewise (g := f.size) hP hfrugal.endsNone
  let f₀ : Feeder σ := { f with pendingAt := f.pendingAt + (f.nextSlice spent).length }
  let parsed := f₀.parse P H h (f.nextSlice spent)
  obtain ⟨hparser, hfences, -, -, -, hinner, -⟩ := parse_spec P H f₀ h (f.nextSlice spent)
  have hsame : parsed.1.abortSync P H parsed.2.1 = (parsed.1, parsed.2.1, 0) := by
    rw [Feeder.abortSync]
    refine if_neg fun hc => ?_
    rw [hfences, hparser, hread] at hc
    exact Nat.not_le_of_lt (hfrugal.short hc.1) hc.2
  obtain ⟨-, -, -, hfences', hparser'⟩ := rebuild_spec P (parsed.1.abortSync P H parsed.2.1).1
  rw [hsame, hfences] at hfences' hparser'
  refine ⟨?_, ?_, ?_⟩
  · show (parsed.1.abortSync P H parsed.2.1).2.1 = _
    rwa [hsame]
  · show ((parsed.1.abortSync P H parsed.2.1).1.rebuild P).fences = _
    rwa [hsame]
  · show ((parsed.1.abortSync P H parsed.2.1).1.rebuild P).parser = _ ∨
      _ ∧ ((parsed.1.abortSync P H parsed.2.1).1.rebuild P).parser = _
    rwa [hsame, ← hread, ← hparser]

end

/-! ### The loop -/

/-- The pending bytes are what the slices are sized for, also for a parser that is rebuilt among
them. -/
structure Feeder.Thrifty (f : Feeder σ) : Prop where
  tail : Frugal P f.fences f.size f.parser f.tail
  rebuilt : f.fences.oscBudget = true →
    ∀ bytes ∈ f.tail.tails, Frugal P f.fences f.size P.new bytes
  grid : f.size.Halves

instance (f : Feeder σ) : Decidable (f.Thrifty P) :=
  decidable_of_iff (Frugal P f.fences f.size f.parser f.tail ∧ (f.fences.oscBudget = true →
      ∀ bytes ∈ f.tail.tails, Frugal P f.fences f.size P.new bytes) ∧ f.size.Halves)
    ⟨fun ⟨h1, h2, h3⟩ => ⟨h1, h2, h3⟩, fun ⟨h1, h2, h3⟩ => ⟨h1, h2, h3⟩⟩

section

variable {P H} {I : η → Prop} {f : Feeder σ} {h : η} {spent : Nat}

theorem Feeder.Thrifty.step (hP : P.Bytewise) (hf : f.Thrifty P) :
    (f.stepSlice P H h spent).1.Thrifty P := by
  have happend := nextSlice_append P H f h spent
  obtain ⟨hslice, hrest⟩ := Frugal.append (happend.symm ▸ hf.tail)
  obtain ⟨hsize, -⟩ := stepSlice_spec P H f h spent
  obtain ⟨-, hfences, hparser⟩ := stepSlice_of_frugal (H := H) (h := h) hP hslice
  have hsuffix : (f.stepSlice P H h spent).1.tail <:+ f.tail := ⟨_, happend⟩
  refine ⟨?_, fun hosc bytes hbytes => ?_, hsize.symm ▸ hf.grid⟩
  · rw [hfences, hsize]
    obtain hparser | ⟨hosc, hparser⟩ := hparser
    · rwa [hparser]
    · rw [hparser]
      exact hf.rebuilt hosc _ ((mem_tails _ _).mpr hsuffix)
  · rw [hfences] at hosc
    rw [hfences, hsize]
    exact hf.rebuilt hosc bytes
      ((mem_tails _ _).mpr (((mem_tails _ _).mp hbytes).trans hsuffix))

theorem le_maxDrainWork (g : Size) {n : Nat} (h : n < workBudget) : n ≤ maxDrainWork g := by
  have hbudget : workBudget ≤ u64Max := by decide
  rw [maxDrainWork, satAdd]
  omega

theorem drainLoop_spent_le (hP : P.Bytewise) (fuel : Nat) (hspent : spent < workBudget)
    (hH : H.Within f.size I) (hh : I h) (hf : f.Thrifty P) :
    (Feeder.drainLoop P H fuel f h spent).spent ≤ maxDrainWork f.size := by
  induction fuel generalizing f h spent with
  | zero => exact le_maxDrainWork f.size hspent
  | succ fuel ih =>
    rw [Feeder.drainLoop]
    by_cases hmore : f.pendingAt < f.pending.length
    · simp only [if_pos hmore]
      have happend := nextSlice_append P H f h spent
      obtain ⟨hslice, -⟩ := Frugal.append (happend.symm ▸ hf.tail)
      obtain ⟨hsize, -, -, hcost⟩ := stepSlice_spec P H f h spent
      obtain ⟨hone, hmany⟩ := metered_of_bytewise hP hH hh hslice hf.grid
      have hfits : (f.stepSlice P H h spent).2.2 ≤ maxAtomWork f.size + (workBudget - spent) :=
        slice_le hspent (length_take_le _ _) (fun hn => Nat.le_trans hcost (hone hn))
          (Nat.le_trans hcost hmany)
      by_cases hdone : workBudget ≤ satAdd spent (f.stepSlice P H h spent).2.2
      · simp only [if_pos hdone]
        rw [maxDrainWork, satAdd, satAdd]
        omega
      · simp only [if_neg hdone]
        obtain ⟨hinner, -⟩ := stepSlice_of_frugal (H := H) (h := h) hP hslice
        rw [← hsize]
        refine ih (Nat.lt_of_not_le hdone) (hsize.symm ▸ hH) ?_ (hf.step hP)
        rw [hinner]
        exact (workOf_le hH hh _).2
    · simp only [if_neg hmore]
      exact le_maxDrainWork f.size hspent

/-- **The lock hold is bounded.** A drain, of any feeder, costs at most what `max_drain_work` says
when no synchronized update ends among the pending bytes, and dear callbacks end a sequence each. -/
theorem drain_spent_le (hP : P.Bytewise) (hH : H.Within f.size I) (hh : I h) (hf : f.Thrifty P) :
    (f.drain P H h).spent ≤ maxDrainWork f.size :=
  drainLoop_spent_le hP f.pendingBytes (by decide) hH hh hf

end

/-! ### A parser of a few sequences -/

/-- The state of a parser that knows text, `ESC c`, and synchronized updates. -/
structure SampleState where
  sequence : List UInt8
  syncing : Bool
  buffer : List UInt8

/-- The sequence that opens a synchronized update. -/
def bsu : List UInt8 := [escape, 0x5b, 0x3f, 0x32, 0x30, 0x32, 0x36, 0x68]

def esu : List UInt8 := [escape, 0x5b, 0x3f, 0x32, 0x30, 0x32, 0x36, 0x6c]

def sampleByte (s : SampleState) (b : UInt8) : SampleState × List Callback :=
  let sequence := s.sequence ++ [b]
  if s.sequence = [] then if b = escape then ({ s with sequence := [b] }, []) else (s, [.plain])
  else if sequence = [escape, 0x5b] then ({ s with sequence := sequence }, [])
  else if sequence = [escape, 0x63] then ({ s with sequence := [] }, [.resetState])
  else if sequence.take 2 = [escape, 0x5b] then
    if 0x40 ≤ b then
      ({ s with sequence := [], syncing := s.syncing || sequence == bsu }, [.plain])
    else ({ s with sequence := sequence }, [])
  else ({ s with sequence := [] }, [])

/-- The bytes that were buffered, one by one; the update is over then. -/
def sampleRelease (s : SampleState) : SampleState × List Callback :=
  let result := s.buffer.foldl
    (fun r b => ((sampleByte r.1 b).1, r.2 ++ (sampleByte r.1 b).2)) (s, [])
  ({ result.1 with syncing := false, buffer := [] }, result.2 ++ [.plain])

/-- A slice: what comes after the opening of an update is buffered, until its end is there. -/
def sampleAdvance (s : SampleState) : List UInt8 → SampleState × List Callback
  | [] => (s, [])
  | b :: bs =>
    if s.syncing then
      let buffered := { s with buffer := s.buffer ++ b :: bs }
      if buffered.buffer.drop (buffered.buffer.length - esu.length) = esu then
        sampleRelease buffered
      else (buffered, [])
    else
      let result := sampleAdvance (sampleByte s b).1 bs
      (result.1, (sampleByte s b).2 ++ result.2)

def sampleParser : Processor SampleState :=
  ⟨⟨[], false, []⟩, sampleAdvance, sampleRelease, fun s => s.buffer.length⟩

/-- A terminal that ignores what it is told. -/
def sampleTerminal : Handler Unit := ⟨fun _ _ => (), fun _ => 0⟩

theorem sampleAdvance_singleton {s : SampleState} (hs : s.syncing = true) (b : UInt8)
    (h : sampleParser.endsNone s [b] = true) :
    sampleAdvance s [b] = ({ s with buffer := s.buffer ++ [b] }, []) := by
  have hcount : s.buffer.length ≤ (sampleAdvance s [b]).1.buffer.length :=
    of_decide_eq_true ((Bool.and_eq_true _ _).mp h).1
  rw [sampleAdvance, if_pos hs] at hcount ⊢
  dsimp only at hcount ⊢
  split
  · next hend =>
    -- The update ends, so the buffer is empty, and the last byte alone does not end it.
    rw [if_pos hend] at hcount
    have hnil : s.buffer = [] := length_eq_zero_iff.mp (Nat.le_zero.mp hcount)
    rw [hnil] at hend
    exact absurd (congrArg length hend) (by simp [esu])
  · rfl

theorem sampleAdvance_of_endsNone {s : SampleState} (hs : s.syncing = true) (b : UInt8)
    (bs : List UInt8) (h : sampleParser.endsNone s (b :: bs) = true) :
    sampleAdvance s (b :: bs) = ({ s with buffer := s.buffer ++ b :: bs }, []) := by
  induction bs generalizing s b with
  | nil => exact sampleAdvance_singleton hs b h
  | cons c bs ih =>
    have hfirst : sampleAdvance s [b] = ({ s with buffer := s.buffer ++ [b] }, []) :=
      sampleAdvance_singleton hs b (by
        rw [Processor.endsNone, ((Bool.and_eq_true _ _).mp h).1]
        rfl)
    have hrest := ((Bool.and_eq_true _ _).mp h).2
    replace hrest : sampleParser.endsNone (sampleAdvance s [b]).1 (c :: bs) = true := hrest
    rw [hfirst] at hrest
    have hbuffer := ih (s := { s with buffer := s.buffer ++ [b] }) hs c hrest
    rw [sampleAdvance, if_pos hs] at hbuffer ⊢
    dsimp only at hbuffer ⊢
    rw [append_assoc, singleton_append] at hbuffer
    split at hbuffer
    · have hnil := congrArg (fun r => r.1.buffer.length) hbuffer
      exact absurd hnil (by simp [sampleRelease])
    · next hopen => rw [if_neg hopen]

theorem sampleParser_bytewise : sampleParser.Bytewise where
  nil s := rfl
  cons s b bs h := by
    show sampleAdvance s (b :: bs) = ((sampleAdvance (sampleAdvance s [b]).1 bs).1,
      (sampleAdvance s [b]).2 ++ (sampleAdvance (sampleAdvance s [b]).1 bs).2)
    cases hs : s.syncing with
    | false =>
      have hno : ¬ s.syncing = true := Bool.not_eq_true _ ▸ hs
      simp [sampleAdvance, hno]
    | true =>
      have hfirst : sampleAdvance s [b] = ({ s with buffer := s.buffer ++ [b] }, []) :=
        sampleAdvance_singleton hs b (by
          rw [Processor.endsNone, ((Bool.and_eq_true _ _).mp h).1]
          rfl)
      have hrest := ((Bool.and_eq_true _ _).mp h).2
      replace hrest : sampleParser.endsNone (sampleAdvance s [b]).1 bs = true := hrest
      rw [sampleAdvance_of_endsNone hs b bs h]
      rw [hfirst] at hrest ⊢
      cases bs with
      | nil => rfl
      | cons c bs =>
        simp [sampleAdvance_of_endsNone (s := { s with buffer := s.buffer ++ [b] }) hs c bs hrest]

theorem sampleTerminal_within (g : Size) : sampleTerminal.Within g fun _ => True where
  call _ _ _ := trivial
  column _ _ := Nat.lt_of_lt_of_le Nat.one_pos (Nat.le_max_right _ _)
  left _ _ := Nat.le_refl _

/-- Text and a reset, at the size of a usual terminal. -/
def resetInText : Feeder SampleState :=
  (Feeder.new sampleParser ⟨true, true⟩ ⟨80, 24, 10000⟩).enqueue [104, 105, escape, 0x63, 33]

theorem drain_spent_le_resetInText :
    (resetInText.drain sampleParser sampleTerminal ()).spent = 803842 ∧
      (resetInText.drain sampleParser sampleTerminal ()).spent ≤ maxDrainWork resetInText.size :=
  ⟨by decide +kernel, drain_spent_le sampleParser_bytewise (sampleTerminal_within _) trivial
    (by decide +kernel)⟩

/-- Two resets inside of a synchronized update. -/
def resetsInUpdate : List UInt8 := bsu ++ [escape, 0x63, escape, 0x63] ++ esu

/-- The end of the update runs both of them in one slice. -/
theorem not_spent_le_resetsInUpdate : ¬ ∀ (s : TerminalState SampleState Unit) bytes,
    (terminal sampleParser sampleTerminal).Reachable s →
      (s.feeder.feed sampleParser sampleTerminal s.handler bytes).1.spent ≤
        maxDrainWork s.feeder.size := by
  intro h
  have hle := h ⟨Feeder.new sampleParser ⟨true, true⟩ ⟨80, 24, 10000⟩, (), [], []⟩ resetsInUpdate
    (StateMachine.Reachable.init ⟨_, _, rfl, rfl, rfl⟩)
  exact absurd hle (by decide +kernel)

end Buzz.Terminal
