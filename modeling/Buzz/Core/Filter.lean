import Buzz.Core.Basic
import Buzz.Core.Text
import Mathlib.Data.List.AList

/-!
# NIP-01 filter matching

Several filters are OR-ed; the fields within one filter are AND-ed. A missing field constrains
nothing, an empty one matches nothing. The sets of a filter are lists, in the order in which they
are iterated; nothing below depends on that order.
-/

namespace Buzz

/-- A one-letter tag name, as `SingleLetterTag`: a letter of the alphabet in either case. -/
structure SingleLetterTag where
  character : Char
  isAlpha : character.isAlpha = true
  deriving DecidableEq

def SingleLetterTag.toString (t : SingleLetterTag) : String := String.ofList [t.character]

/-- `SingleLetterTag::lowercase(Alphabet::P)`. -/
def pTag : SingleLetterTag := ⟨'p', by decide⟩

/-- A filter of a subscription. -/
structure Filter where
  ids : Option (List EventId)
  authors : Option (List PublicKey)
  kinds : Option (List Kind)
  since : Option Timestamp
  untilTime : Option Timestamp
  genericTags : AList fun _ : SingleLetterTag => List String
  deriving DecidableEq

/-- The filter that constrains nothing. -/
def Filter.new : Filter := ⟨none, none, none, none, none, ∅⟩

/-- One entry of `generic_tags` against the event. An event without `h` tags falls back on the
channel the relay stored it under; explicit `h` tags are authoritative. -/
def tagFilterMatch (tagKey : SingleLetterTag) (tagValues : List String) (ev : StoredEvent) : Bool :=
  let hasMatch := tagValues.any fun filterVal => ev.hasTag tagKey.toString filterVal
  if !hasMatch && tagKey.toString == "h" then
    if !(ev.event.tags.any fun t => t.kind == "h") then
      match ev.channelId with
      | some channelId => tagValues.any fun v => v == channelId.toHyphenated
      | none => false
    else false
  else hasMatch

def filterMatchOne (f : Filter) (ev : StoredEvent) : Bool :=
  (f.kinds.all fun kinds => kinds.contains ev.event.kind) &&
  (f.authors.all fun authors => authors.contains ev.event.pubkey) &&
  (f.since.all fun since => !decide (ev.event.createdAt < since)) &&
  (f.untilTime.all fun untilTime => !decide (ev.event.createdAt > untilTime)) &&
  (f.ids.all fun ids => ids.any fun id => startsWith (toHex ev.event.id) (toHex id)) &&
  f.genericTags.entries.all fun e => tagFilterMatch e.1 e.2 ev

def filtersMatch (filters : List Filter) (ev : StoredEvent) : Bool :=
  filters.any fun f => filterMatchOne f ev

variable {ev : StoredEvent}

theorem filtersMatch_iff {filters : List Filter} :
    filtersMatch filters ev = true ↔ ∃ f ∈ filters, filterMatchOne f ev = true :=
  List.any_eq_true

variable {f : Filter}

/-- A matching filter with kinds lists the kind of the event. -/
theorem kind_mem_of_filterMatchOne {kinds : List Kind} (h : filterMatchOne f ev = true)
    (hk : f.kinds = some kinds) : ev.event.kind ∈ kinds := by
  simp only [filterMatchOne, Bool.and_eq_true] at h
  have hkinds := h.1.1.1.1.1
  rw [hk] at hkinds
  simpa using hkinds

theorem eq_of_startsWith_toHex {w : Nat} (hw : 8 ∣ w) {x y : BitVec w}
    (h : startsWith (toHex x) (toHex y) = true) : x = y := by
  rw [startsWith, List.isPrefixOf_iff_prefix] at h
  have hlength : ∀ z : BitVec w, (toHex z).toList.length = 2 * (w / 8) := by
    intro z
    rw [toHex, hexEncode, String.toList_ofList, length_flatMap_hexByte, length_bytesBE]
  have hchars := h.eq_of_length ((hlength y).trans (hlength x).symm)
  have hbytes := hexEncode_injective (String.toList_inj.mp hchars)
  have hlt : ∀ z : BitVec w, z.toNat < 256 ^ (w / 8) := by
    intro z
    have hpow : 256 ^ (w / 8) = 2 ^ w := by
      rw [show 256 = 2 ^ 8 from rfl, ← Nat.pow_mul, Nat.mul_div_cancel' hw]
    rw [hpow]
    exact z.isLt
  exact BitVec.eq_of_toNat_eq (bytesBE_inj (hlt y) (hlt x) hbytes).symm

/-- What a matching filter says of the fields of the event. -/
theorem fields_of_filterMatchOne (h : filterMatchOne f ev = true) :
    (∀ kinds ∈ f.kinds, ev.event.kind ∈ kinds) ∧
      (∀ authors ∈ f.authors, ev.event.pubkey ∈ authors) ∧
      (∀ since ∈ f.since, since ≤ ev.event.createdAt) ∧
      (∀ untilTime ∈ f.untilTime, ev.event.createdAt ≤ untilTime) ∧
      ∀ ids ∈ f.ids, ev.event.id ∈ ids := by
  simp only [filterMatchOne, Bool.and_eq_true, Option.all_eq_true, List.contains_iff_mem,
    Bool.not_eq_true', decide_eq_false_iff_not, UInt64.not_lt, gt_iff_lt, List.any_eq_true] at h
  obtain ⟨⟨⟨⟨⟨hkinds, hauthors⟩, hsince⟩, huntil⟩, hids⟩, -⟩ := h
  refine ⟨hkinds, hauthors, hsince, huntil, fun ids hmem => ?_⟩
  obtain ⟨id, hid, hprefix⟩ := hids ids hmem
  rwa [eq_of_startsWith_toHex (by decide) hprefix]

/-- A matching filter that constrains a tag other than `h` lists one of the event's values. -/
theorem hasTag_of_filterMatchOne {key : SingleLetterTag} {values : List String}
    (h : filterMatchOne f ev = true) (hkey : f.genericTags.lookup key = some values)
    (hne : key.toString ≠ "h") : ∃ v ∈ values, ev.hasTag key.toString v = true := by
  simp only [filterMatchOne, Bool.and_eq_true, List.all_eq_true] at h
  have hentry : (⟨key, values⟩ : Sigma fun _ : SingleLetterTag => List String) ∈
      f.genericTags.entries := AList.mem_lookup_iff.mp hkey
  have htag := h.2 _ hentry
  have hbeq : (key.toString == "h") = false := beq_eq_false_iff_ne.mpr hne
  simpa [tagFilterMatch, hbeq] using htag

end Buzz
