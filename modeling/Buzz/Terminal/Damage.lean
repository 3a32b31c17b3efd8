import Mathlib.Data.String.Basic
import Mathlib.Data.List.Induction

/-!
# Spans of a row

The cells of a row are grouped into spans of one style and one width. A wide character has two cells,
the character and a spacer; the spacers carry no text and are left out. A cell with marks on its
character is a span of its own, so that a reader finds the column of every character by arithmetic.
-/

namespace Buzz.Damage

open List

/-! ### Cells -/

/-- `Flags`: a set of bits. -/
abbrev Flags := BitVec 16

/-- `Flags::WRAPLINE`. -/
def wrapline : Flags := 0x0010

/-- `Flags::WIDE_CHAR`. -/
def wideChar : Flags := 0x0020

/-- `Flags::WIDE_CHAR_SPACER`. -/
def wideCharSpacer : Flags := 0x0040

/-- `Flags::LEADING_WIDE_CHAR_SPACER`. -/
def leadingWideCharSpacer : Flags := 0x0400

/-- `Flags::contains`. -/
def contains (flags flag : Flags) : Bool := flags &&& flag == flag

inductive Color where
  | named (discriminant : UInt32)
  | indexed (index : UInt8)
  | spec (r g b : UInt8)

/-- A cell of the grid. -/
structure Cell where
  c : Char
  fg : Color
  bg : Color
  flags : Flags
  /-- The marks on the character. A cell that has other extras has an empty list of them. -/
  zerowidth : Option (List Char)

/-! ### Styles -/

structure Style where
  fg : UInt32
  bg : UInt32
  flags : Flags
  deriving DecidableEq

def geometryFlags : Flags := wrapline ||| wideChar ||| wideCharSpacer ||| leadingWideCharSpacer

def packColor : Color → UInt32
  | .named discriminant => (0x01000000 : UInt32) ||| discriminant
  | .indexed index => (0x02000000 : UInt32) ||| index.toUInt32
  | .spec r g b => (0x03000000 : UInt32) ||| (r.toUInt32 <<< 16) ||| (g.toUInt32 <<< 8) ||| b.toUInt32

def styleOf (cell : Cell) : Style :=
  ⟨packColor cell.fg, packColor cell.bg, cell.flags &&& ~~~geometryFlags⟩

/-! ### Spans -/

/-- A run of cells of one style. -/
structure Span where
  column : Nat
  text : String
  width : UInt8
  clusterCount : UInt16
  style : Style

def Span.countsAreConsistent (span : Span) : Bool :=
  span.clusterCount == 1 || span.clusterCount.toNat == span.text.length

/-- The width of a cell that is not a spacer. -/
def widthOf (cell : Cell) : UInt8 := if contains cell.flags wideChar then 2 else 1

/-- The text of a cell: its character, and the marks on it. -/
def textOf (cell : Cell) : String := String.ofList (cell.c :: cell.zerowidth.getD [])

/-- The run in progress, and whether it may be extended. -/
structure Grouping where
  spans : List Span
  isOpen : Bool

/-- The last span takes the cell in. -/
def joins (g : Grouping) (cell : Cell) (last : Span) : Bool :=
  g.isOpen && cell.zerowidth.isNone && decide (last.style = styleOf cell) &&
    last.width == widthOf cell && decide (last.clusterCount < 65535)

/-- What a cell does to the spans. -/
def Grouping.push (g : Grouping) (column : Nat) (cell : Cell) : Grouping :=
  if contains cell.flags wideCharSpacer then g
  else
    let fresh : Span := ⟨column, textOf cell, widthOf cell, 1, styleOf cell⟩
    let spans :=
      match g.spans.getLast? with
      | none => g.spans ++ [fresh]
      | some last =>
        if joins g cell last then
          g.spans.dropLast ++
            [{ last with text := last.text ++ textOf cell, clusterCount := last.clusterCount + 1 }]
        else g.spans ++ [fresh]
    ⟨spans, cell.zerowidth.isNone⟩

def group (g : Grouping) (column : Nat) : List Cell → Grouping
  | [] => g
  | cell :: rest => group (g.push column cell) (column + 1) rest

/-- `spans`. There is no result where the assertion fails. -/
def spans (cells : List Cell) : Option (List Span) :=
  let grouped := (group ⟨[], false⟩ 0 cells).spans
  if grouped.all Span.countsAreConsistent then some grouped else none

/-! ### Reading a span -/

/-- A character with its marks, at its place. -/
structure Cluster where
  text : String
  column : Nat
  width : UInt8
  style : Style

/-- The rule for the readers of a span: one cluster is the whole text, and of several each is one
character. -/
def Span.clusters (span : Span) : List Cluster :=
  if span.clusterCount = 1 then [⟨span.text, span.column, span.width, span.style⟩]
  else (range span.clusterCount.toNat).filterMap fun i =>
    span.text.toList[i]?.map fun c =>
      ⟨String.singleton c, span.column + i * span.width.toNat, span.width, span.style⟩

/-- What there is to read in the cells from a column on. -/
def clustersOf (column : Nat) : List Cell → List Cluster
  | [] => []
  | cell :: rest =>
    if contains cell.flags wideCharSpacer then clustersOf (column + 1) rest
    else ⟨textOf cell, column, widthOf cell, styleOf cell⟩ :: clustersOf (column + 1) rest

/-- Each wide character is followed by its spacer, and there are no other spacers. -/
inductive WellFormed : List Cell → Prop where
  | nil : WellFormed []
  | narrow {cell : Cell} {rest : List Cell} (hspacer : contains cell.flags wideCharSpacer = false)
      (hwide : contains cell.flags wideChar = false) (hrest : WellFormed rest) :
      WellFormed (cell :: rest)
  | wide {cell spacer : Cell} {rest : List Cell}
      (hcell : contains cell.flags wideCharSpacer = false)
      (hwide : contains cell.flags wideChar = true)
      (hspacer : contains spacer.flags wideCharSpacer = true) (hrest : WellFormed rest) :
      WellFormed (cell :: spacer :: rest)

/-! ### What the spans say -/

/-- The characters of a run, one after another. -/
def charClusters (column : Nat) (width : UInt8) (style : Style) : List Char → List Cluster
  | [] => []
  | c :: rest => ⟨String.singleton c, column, width, style⟩ ::
      charClusters (column + width.toNat) width style rest

/-- The span has one cluster, or one for each of its characters. -/
structure Consistent (span : Span) : Prop where
  pos : 0 < span.clusterCount.toNat
  count : span.clusterCount = 1 ∨ span.clusterCount.toNat = span.text.length

/-- The run in progress, where it may be extended: each cluster is a character, and the next one is
at this column. -/
def OpenAt (span : Span) (column : Nat) : Prop :=
  span.clusterCount.toNat = span.text.length ∧
    column = span.column + span.clusterCount.toNat * span.width.toNat

/-- The spans cover what was read, up to a column. -/
structure Covers (g : Grouping) (column : Nat) (read : List Cluster) : Prop where
  clusters : g.spans.flatMap Span.clusters = read
  consistent : ∀ span ∈ g.spans, Consistent span
  last : g.isOpen = true → ∀ span ∈ g.spans.getLast?, OpenAt span column

variable {g : Grouping} {column : Nat} {cell : Cell} {read : List Cluster} {last : Span}
  {width : UInt8} {style : Style}

/-! ### Runs of characters -/

theorem filterMap_range_eq (chars : List Char) :
    ((range chars.length).filterMap fun i => chars[i]?.map fun c =>
      (⟨String.singleton c, column + i * width.toNat, width, style⟩ : Cluster)) =
        charClusters column width style chars := by
  induction chars generalizing column with
  | nil => rfl
  | cons c rest ih =>
    rw [length_cons, range_succ_eq_map, filterMap_cons, filterMap_map,
      charClusters, ← ih]
    simp only [getElem?_cons_zero, Option.map_some, Nat.zero_mul, Nat.add_zero]
    refine congrArg _ (filterMap_congr fun i _ => ?_)
    simp only [Function.comp, getElem?_cons_succ, Nat.succ_mul]
    rw [Nat.add_comm (i * width.toNat), Nat.add_assoc]

theorem charClusters_append (chars : List Char) (c : Char) :
    charClusters column width style (chars ++ [c]) = charClusters column width style chars ++
      [⟨String.singleton c, column + chars.length * width.toNat, width, style⟩] := by
  induction chars generalizing column with
  | nil => simp [charClusters]
  | cons d rest ih =>
    rw [cons_append, charClusters, ih, charClusters, length_cons, Nat.succ_mul,
      Nat.add_assoc, Nat.add_comm width.toNat]
    rfl

theorem clusters_eq_charClusters (hcount : last.clusterCount.toNat = last.text.length) :
    last.clusters = charClusters last.column last.width last.style last.text.toList := by
  have hlength : last.text.toList.length = last.clusterCount.toNat := by
    rw [hcount, String.length_toList]
  rw [Span.clusters]
  split
  · next hone =>
    rw [hone] at hlength
    obtain ⟨c, hc⟩ := length_eq_one_iff.mp hlength
    have htext : last.text = String.singleton c := String.ext (by rw [hc, String.toList_singleton])
    rw [hc, htext]
    rfl
  · rw [← hlength, filterMap_range_eq]

/-! ### One cell -/

/-- What there is to read in a cell. -/
def clusterOf (column : Nat) (cell : Cell) : Cluster :=
  ⟨textOf cell, column, widthOf cell, styleOf cell⟩

def freshSpan (column : Nat) (cell : Cell) : Span :=
  ⟨column, textOf cell, widthOf cell, 1, styleOf cell⟩

theorem textOf_of_isNone (h : cell.zerowidth.isNone = true) :
    textOf cell = String.singleton cell.c := by
  rw [textOf, Option.isNone_iff_eq_none.mp h]
  rfl

theorem Covers.fresh (h : Covers g column read) :
    Covers ⟨g.spans ++ [freshSpan column cell], cell.zerowidth.isNone⟩
      (column + (widthOf cell).toNat) (read ++ [clusterOf column cell]) where
  clusters := by
    rw [flatMap_append, h.clusters]
    rfl
  consistent span hspan := by
    rcases mem_append.mp hspan with hspan | hspan
    · exact h.consistent span hspan
    · rw [mem_singleton.mp hspan]
      exact ⟨Nat.one_pos, .inl rfl⟩
  last hopen span hspan := by
    rw [getLast?_concat] at hspan
    rw [← Option.some.inj hspan]
    refine ⟨?_, ?_⟩
    · show 1 = (textOf cell).length
      rw [textOf_of_isNone hopen, String.length_singleton]
    · show _ = column + 1 * (widthOf cell).toNat
      rw [Nat.one_mul]

/-- The last span, with one more character. -/
def extend (last : Span) (cell : Cell) : Span :=
  { last with text := last.text ++ textOf cell, clusterCount := last.clusterCount + 1 }

theorem joins_iff : joins g cell last = true ↔ g.isOpen = true ∧ cell.zerowidth.isNone = true ∧
    last.style = styleOf cell ∧ last.width = widthOf cell ∧ last.clusterCount < 65535 := by
  simp [joins, and_assoc]

theorem Covers.join (h : Covers g column read) (hlast : g.spans.getLast? = some last)
    (hjoins : joins g cell last = true) :
    Covers ⟨g.spans.dropLast ++ [extend last cell], cell.zerowidth.isNone⟩
      (column + (widthOf cell).toNat) (read ++ [clusterOf column cell]) := by
  obtain ⟨hopen, hmarks, hstyle, hwidth, hlt⟩ := joins_iff.mp hjoins
  obtain ⟨hcount, hcolumn⟩ := h.last hopen last hlast
  have hspans : g.spans.dropLast ++ [last] = g.spans := dropLast_append_getLast? _ hlast
  have hcount' : (extend last cell).clusterCount.toNat = last.clusterCount.toNat + 1 := by
    show (last.clusterCount + 1).toNat = _
    have hlt' : last.clusterCount.toNat < 65535 := UInt16.lt_iff_toNat_lt.mp hlt
    rw [UInt16.toNat_add, UInt16.toNat_one, Nat.mod_eq_of_lt (by omega)]
  have hlength : (extend last cell).text.length = last.text.length + 1 := by
    show (last.text ++ textOf cell).length = _
    rw [textOf_of_isNone hmarks, String.length_append, String.length_singleton]
  have hextended : (extend last cell).clusters = last.clusters ++ [clusterOf column cell] := by
    rw [clusters_eq_charClusters (by rw [hcount', hlength, hcount]), clusters_eq_charClusters hcount]
    show charClusters last.column last.width last.style (last.text ++ textOf cell).toList = _
    rw [textOf_of_isNone hmarks, String.toList_append, String.toList_singleton, charClusters_append,
      String.length_toList, ← hcount, ← hcolumn, clusterOf, textOf_of_isNone hmarks, hwidth, hstyle]
  refine ⟨?_, fun span hspan => ?_, fun _ span hspan => ?_⟩
  · rw [← h.clusters, ← hspans, dropLast_concat, flatMap_append, flatMap_append,
      append_assoc, flatMap_singleton, flatMap_singleton, hextended]
  · rcases mem_append.mp hspan with hspan | hspan
    · exact h.consistent span ((dropLast_sublist _).subset hspan)
    · rw [mem_singleton.mp hspan]
      exact ⟨by omega, .inr (by omega)⟩
  · rw [getLast?_concat] at hspan
    rw [← Option.some.inj hspan]
    refine ⟨by omega, ?_⟩
    show _ = last.column + (extend last cell).clusterCount.toNat * last.width.toNat
    rw [hcount', hcolumn, ← hwidth, Nat.succ_mul, Nat.add_assoc]

/-- **One cell.** The spans cover it, and the next column is behind it. -/
theorem Covers.push (h : Covers g column read)
    (hspacer : contains cell.flags wideCharSpacer = false) :
    Covers (g.push column cell) (column + (widthOf cell).toNat) (read ++ [clusterOf column cell]) := by
  rw [Grouping.push, hspacer, if_neg Bool.false_ne_true]
  cases hlast : g.spans.getLast? with
  | none => exact h.fresh
  | some last =>
    by_cases hjoins : joins g cell last = true
    · simp only [if_pos hjoins]
      exact h.join hlast hjoins
    · simp only [if_neg hjoins]
      exact h.fresh

theorem push_spacer (hspacer : contains cell.flags wideCharSpacer = true) :
    g.push column cell = g := if_pos hspacer

/-! ### A row -/

theorem Covers.group {cells : List Cell} (hcells : WellFormed cells) (h : Covers g column read) :
    Covers (group g column cells) (column + cells.length) (read ++ clustersOf column cells) := by
  induction hcells generalizing g column read with
  | nil => simpa [Damage.group, clustersOf] using h
  | @narrow cell rest hspacer hwide _ ih =>
    have hwidth : widthOf cell = 1 := by rw [widthOf, hwide, if_neg Bool.false_ne_true]
    have hpush := h.push hspacer
    rw [hwidth] at hpush
    have hrest := ih hpush
    rw [Damage.group, clustersOf, hspacer, if_neg Bool.false_ne_true, length_cons]
    rw [append_assoc, Nat.add_assoc, Nat.add_comm _ rest.length] at hrest
    exact hrest
  | @wide cell spacer rest hcell hwide hspacer _ ih =>
    have hwidth : widthOf cell = 2 := by rw [widthOf, hwide, if_pos rfl]
    have hpush := h.push hcell
    rw [hwidth] at hpush
    have hrest := ih hpush
    rw [Damage.group, Damage.group, push_spacer hspacer, clustersOf, hcell,
      if_neg Bool.false_ne_true, clustersOf, hspacer, if_pos rfl, length_cons, length_cons]
    rw [append_assoc, Nat.add_assoc, Nat.add_comm _ rest.length] at hrest
    exact hrest

/-- **The spans of a row can be read.** The assertion does not fail, and the rule for readers gives
the text, the column, the width and the style of every cell that is not a spacer, in order. -/
theorem spans_decodable (cells : List Cell) (hcells : WellFormed cells) :
    ∃ out, spans cells = some out ∧ out.flatMap Span.clusters = clustersOf 0 cells := by
  have hstart : Covers ⟨[], false⟩ 0 [] :=
    ⟨rfl, nofun, fun h => nomatch h⟩
  have hrow := hstart.group hcells
  refine ⟨_, if_pos ?_, hrow.clusters⟩
  rw [all_eq_true]
  intro span hspan
  rw [Span.countsAreConsistent, Bool.or_eq_true, beq_iff_eq, beq_iff_eq]
  exact (hrow.consistent span hspan).count

def plainCell (c : Char) (flags : Flags) (zerowidth : Option (List Char)) : Cell :=
  ⟨c, .named 256, .named 257, flags, zerowidth⟩

/-- A letter, a wide character with its spacer, and a letter with an accent. -/
def accentedRow : List Cell :=
  [plainCell 'a' 0 none, plainCell '日' wideChar none, plainCell ' ' wideCharSpacer none,
    plainCell 'e' 0 (some ['\u0301'])]

theorem spans_decodable_accentedRow : ∃ out, spans accentedRow = some out ∧
    (out.flatMap Span.clusters).map (fun cluster => (cluster.text.toList, cluster.column)) =
      [(['a'], 0), (['日'], 1), (['e', '\u0301'], 3)] := by
  obtain ⟨out, hout, hclusters⟩ := spans_decodable accentedRow
    (.narrow (by decide) (by decide) (.wide (by decide) (by decide) (by decide)
      (.narrow (by decide) (by decide) .nil)))
  refine ⟨out, hout, ?_⟩
  rw [hclusters]
  decide

end Buzz.Damage
