import Buzz.Core.Basic
import Buzz.Core.Text
import Buzz.Lib.Splitting
import Buzz.Lib.Utf8

/-!
# Slugs

The name of an engram: the reserved `core`, or `mem/` and segments of lower-case letters, digits,
underscores and hyphens, with slashes between them. The code reads the bytes of a segment; the
grammar is about its characters.

The `Debug` form of a string, which the texts of two errors show, is that of the standard library,
a parameter here.
-/

namespace Buzz.Engram

open List

/-- The reserved slug for the agent's core (identity) engram. -/
def coreSlug : String := "core"

def slugMaxLen : Nat := 255

def memPrefix : String := "mem/"

inductive EngramError where
  | invalidSlug (why : String)
  | invalidBody (why : String)
  deriving DecidableEq

def isLowerAlnum (b : UInt8) : Bool :=
  (decide (0x61 ≤ b) && decide (b ≤ 0x7a)) || (decide (0x30 ≤ b) && decide (b ≤ 0x39))

def validateSegment (s : String) : Except String Unit :=
  match utf8 s with
  | [] => .error "empty"
  | first :: rest =>
    if 64 < (first :: rest).length then .error "longer than 64 bytes"
    else if !isLowerAlnum first then .error "first byte must be [a-z0-9]"
    else if rest.all fun b => isLowerAlnum b || b == 0x5f || b == 0x2d then .ok ()
    else .error "only [a-z0-9_-] allowed after the first byte"

section

variable (debug : String → String)

/-- The segments one after another, the first of them with number `i`. -/
def validateSegments : Nat → List String → Except EngramError Unit
  | _, [] => .ok ()
  | i, segment :: segments => do
    (validateSegment segment).mapError fun why =>
      .invalidSlug ("segment " ++ Nat.repr i ++ " (" ++ debug segment ++ "): " ++ why)
    validateSegments (i + 1) segments

def validateSlug (slug : String) : Except EngramError Unit :=
  if slug = coreSlug then .ok ()
  else if slugMaxLen < slug.utf8ByteSize then
    .error (.invalidSlug ("length " ++ Nat.repr slug.utf8ByteSize ++ " exceeds " ++
      Nat.repr slugMaxLen))
  else
    match stripPrefix slug memPrefix with
    | none => .error (.invalidSlug ("expected `core` or `mem/…`, got " ++ debug slug))
    | some rest =>
      if rest.isEmpty then .error (.invalidSlug "empty after `mem/`")
      else validateSegments debug 1 ((rest.toList.splitOn '/').map String.ofList)

end

/-! ### The grammar -/

def IsLowerAlnum (c : Char) : Prop := c.isLower = true ∨ c.isDigit = true

/-- A segment: a lower-case letter or a digit, and up to 63 of these, underscores and hyphens. -/
def IsSegment (s : List Char) : Prop :=
  ∃ first rest, s = first :: rest ∧ IsLowerAlnum first ∧ rest.length ≤ 63 ∧
    ∀ c ∈ rest, IsLowerAlnum c ∨ c = '_' ∨ c = '-'

def IsSlug (slug : String) : Prop :=
  slug = coreSlug ∨ slug.utf8ByteSize ≤ slugMaxLen ∧
    ∃ segments, segments ≠ [] ∧ (∀ s ∈ segments, IsSegment s) ∧
      slug = memPrefix ++ String.ofList (['/'].intercalate segments)

/-! ### The code accepts the grammar -/

theorem IsLowerAlnum.ascii {c : Char} (h : IsLowerAlnum c) : c.toNat ≤ 127 := by
  rcases h with h | h
  · exact (isLower_iff.mp h).2.trans (by decide)
  · exact (isDigit_iff.mp h).2.trans (by decide)

theorem isLowerAlnum_ofNat {c : Char} (h : c.toNat ≤ 127) :
    isLowerAlnum (UInt8.ofNat c.toNat) = true ↔ IsLowerAlnum c := by
  rw [IsLowerAlnum, isLower_iff, isDigit_iff]
  simp only [isLowerAlnum, Bool.or_eq_true, Bool.and_eq_true, decide_eq_true_eq,
    UInt8.le_iff_toNat_le]
  simp
  omega

theorem IsLowerAlnum.ne {c d : Char} (h : IsLowerAlnum c) (hlower : d.isLower = false)
    (hdigit : d.isDigit = false) : c ≠ d := by
  rintro rfl
  rcases h with h | h
  · exact absurd h (by simp [hlower])
  · exact absurd h (by simp [hdigit])

theorem IsSegment.ascii {s : List Char} (h : IsSegment s) {c : Char} (hc : c ∈ s) :
    c.toNat ≤ 127 := by
  obtain ⟨first, rest, rfl, hfirst, -, hrest⟩ := h
  rcases mem_cons.mp hc with rfl | hc
  · exact hfirst.ascii
  · rcases hrest c hc with h | rfl | rfl
    · exact h.ascii
    · decide
    · decide

theorem IsSegment.notMem {s : List Char} (h : IsSegment s) {d : Char} (hlower : d.isLower = false)
    (hdigit : d.isDigit = false) (hmark : d ≠ '_' ∧ d ≠ '-') : d ∉ s := by
  obtain ⟨first, rest, rfl, hfirst, -, hrest⟩ := h
  intro hd
  rcases mem_cons.mp hd with rfl | hd
  · exact hfirst.ne hlower hdigit rfl
  · rcases hrest d hd with h | rfl | rfl
    · exact h.ne hlower hdigit rfl
    · exact hmark.1 rfl
    · exact hmark.2 rfl

theorem validateSegment_ascii {s : String} (h : ∀ c ∈ s.toList, c.toNat ≤ 127) :
    validateSegment s = .ok () ↔ IsSegment s.toList := by
  rw [validateSegment, utf8_eq_encode, encode_ascii h]
  generalize s.toList = l at h
  cases l with
  | nil => simp [IsSegment]
  | cons first rest =>
    have hfirst := isLowerAlnum_ofNat (h first mem_cons_self)
    have hall : ((rest.map fun c => UInt8.ofNat c.toNat).all fun b =>
          isLowerAlnum b || b == 0x5f || b == 0x2d) = true ↔
        ∀ c ∈ rest, IsLowerAlnum c ∨ c = '_' ∨ c = '-' := by
      rw [all_map, all_eq_true]
      refine forall₂_congr fun c hc => ?_
      have hascii := h c (mem_cons_of_mem first hc)
      rw [Function.comp_apply, Bool.or_eq_true, Bool.or_eq_true, isLowerAlnum_ofNat hascii, or_assoc]
      refine or_congr_right (or_congr ?_ ?_)
      · exact ofNat_beq hascii (d := '_') (by decide)
      · exact ofNat_beq hascii (d := '-') (by decide)
    simp only [map_cons, length_cons, length_map]
    split
    · next hlong =>
      constructor
      · intro h
        nomatch h
      · rintro ⟨a, l, heq, -, hlen, -⟩
        obtain ⟨rfl, rfl⟩ := cons.inj heq
        omega
    · split
      · next hbad =>
        constructor
        · intro h
          nomatch h
        · rintro ⟨a, l, heq, ha, -⟩
          obtain ⟨rfl, rfl⟩ := cons.inj heq
          rw [hfirst.mpr ha] at hbad
          exact absurd hbad (by decide)
      · next hgood =>
        split
        · next hrest =>
          exact iff_of_true rfl ⟨first, rest, rfl, hfirst.mp (by simpa using hgood), by omega,
            hall.mp hrest⟩
        · next hrest =>
          constructor
          · intro h
            nomatch h
          · rintro ⟨a, l, heq, -, -, hl⟩
            obtain ⟨rfl, rfl⟩ := cons.inj heq
            exact absurd (hall.mpr hl) hrest

theorem isLowerAlnum_lt {b : UInt8} (h : isLowerAlnum b = true) : b < 128 := by
  simp only [isLowerAlnum, Bool.or_eq_true, Bool.and_eq_true, decide_eq_true_eq,
    UInt8.le_iff_toNat_le] at h
  rw [UInt8.lt_iff_toNat_lt]
  simp at h ⊢
  omega

theorem lt_of_validateSegment {s : String} (h : validateSegment s = .ok ()) {b : UInt8}
    (hb : b ∈ utf8 s) : b < 128 := by
  rw [validateSegment] at h
  generalize utf8 s = l at h hb
  cases l with
  | nil => nomatch hb
  | cons first rest =>
    simp only at h
    split_ifs at h with hlong hfirst hrest
    rcases mem_cons.mp hb with rfl | hb
    · exact isLowerAlnum_lt (by simpa using hfirst)
    · have hbyte := all_eq_true.mp hrest b hb
      rw [Bool.or_eq_true, Bool.or_eq_true, beq_iff_eq, beq_iff_eq] at hbyte
      rcases hbyte with (h | rfl) | rfl
      · exact isLowerAlnum_lt h
      · decide
      · decide

theorem validateSegment_ok_iff {s : String} :
    validateSegment s = .ok () ↔ IsSegment s.toList := by
  by_cases h : ∀ c ∈ s.toList, c.toNat ≤ 127
  · exact validateSegment_ascii h
  · refine iff_of_false ?_ fun hseg => h fun c hc => hseg.ascii hc
    intro hok
    refine h fun c hc => ascii_of_encode ?_ hc
    intro b hb
    rw [← utf8_eq_encode] at hb
    exact lt_of_validateSegment hok hb

section

variable {debug : String → String}

theorem validateSegments_ok_iff {i : Nat} {segments : List String} :
    validateSegments debug i segments = .ok () ↔ ∀ s ∈ segments, IsSegment s.toList := by
  induction segments generalizing i with
  | nil => simp [validateSegments]
  | cons segment segments ih =>
    rw [validateSegments, forall_mem_cons, ← ih (i := i + 1), ← validateSegment_ok_iff,
      bind_eq_ok_iff]
    constructor
    · rintro ⟨⟨⟩, hsegment, hsegments⟩
      exact ⟨mapError_ok_iff.mp hsegment, hsegments⟩
    · rintro ⟨hsegment, hsegments⟩
      exact ⟨(), mapError_ok_iff.mpr hsegment, hsegments⟩

theorem segments_ok_iff (debug : String → String) {rest : String} : (¬ rest.isEmpty = true ∧
      validateSegments debug 1 ((rest.toList.splitOn '/').map String.ofList) = .ok ()) ↔
    ∃ segments, segments ≠ [] ∧ (∀ s ∈ segments, IsSegment s) ∧
      rest = String.ofList (['/'].intercalate segments) := by
  rw [validateSegments_ok_iff]
  constructor
  · rintro ⟨-, hall⟩
    refine ⟨rest.toList.splitOn '/', by simp, ?_, ?_⟩
    · intro s hs
      simpa using hall (String.ofList s) (mem_map_of_mem hs)
    · rw [intercalate_splitOn, String.ofList_toList]
  · rintro ⟨segments, hne, hall, rfl⟩
    have hsplit : (['/'].intercalate segments).splitOn '/' = segments :=
      splitOn_intercalate '/'
        (fun s hs => (hall s hs).notMem (by decide) (by decide) (by decide)) hne
    rw [String.toList_ofList, hsplit]
    refine ⟨?_, ?_⟩
    · intro hempty
      have hnil : ['/'].intercalate segments = [] := by
        simpa using congrArg String.toList (String.isEmpty_iff.mp hempty)
      rw [hnil] at hsplit
      obtain ⟨first, rest, heq, -⟩ := hall [] (by rw [← hsplit]; simp)
      exact absurd heq (by simp)
    · intro s hs
      obtain ⟨l, hl, rfl⟩ := mem_map.mp hs
      simpa using hall l hl

/-- **The code accepts the grammar.** -/
theorem validateSlug_ok_iff {slug : String} : validateSlug debug slug = .ok () ↔ IsSlug slug := by
  rw [validateSlug, IsSlug]
  split
  · next h => exact iff_of_true rfl (Or.inl h)
  · next hcore =>
    rw [or_iff_right hcore]
    split
    · next hlong =>
      refine iff_of_false nofun ?_
      rintro ⟨hle, -⟩
      exact absurd hlong (Nat.not_lt.mpr hle)
    · next hlen =>
      rw [and_iff_right (Nat.le_of_not_lt hlen)]
      split
      · next hnone =>
        refine iff_of_false nofun ?_
        rintro ⟨segments, -, -, rfl⟩
        rw [stripPrefix_append] at hnone
        nomatch hnone
      · next rest hsome =>
        obtain rfl := stripPrefix_eq_some_iff.mp hsome
        have happ : ∀ t : String, memPrefix ++ rest = memPrefix ++ t ↔ rest = t := fun t =>
          String.append_right_inj memPrefix
        simp only [happ]
        rw [← segments_ok_iff debug]
        split
        · next hempty => exact iff_of_false nofun fun h => h.1 hempty
        · next hempty => rw [and_iff_right hempty]

end

/-! ### The characters of a slug -/

theorem IsSlug.notMem {slug : String} (h : IsSlug slug) {d : Char} (hlower : d.isLower = false)
    (hdigit : d.isDigit = false) (hmark : d ≠ '_' ∧ d ≠ '-' ∧ d ≠ '/') : d ∉ slug.toList := by
  intro hd
  rcases h with rfl | ⟨-, segments, -, hall, rfl⟩
  · have hcore : coreSlug.toList.all Char.isLower = true := by decide
    rw [all_eq_true.mp hcore d hd] at hlower
    nomatch hlower
  · rw [String.toList_append, String.toList_ofList] at hd
    rcases mem_append.mp hd with hd | hd
    · have hpre : memPrefix.toList.all (fun c => c.isLower || c == '/') = true := by decide
      rcases Bool.or_eq_true_iff.mp (all_eq_true.mp hpre d hd) with h | h
      · rw [h] at hlower
        nomatch hlower
      · exact hmark.2.2 (beq_iff_eq.mp h)
    · rcases mem_intercalate hd with h | ⟨s, hs, hd⟩
      · exact hmark.2.2 h
      · exact (hall s hs).notMem hlower hdigit ⟨hmark.1, hmark.2.1⟩ hd

end Buzz.Engram
