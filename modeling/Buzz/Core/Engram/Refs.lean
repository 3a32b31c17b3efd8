import Buzz.Core.Engram.Slug
import Buzz.Lib.DoubleBrackets
import Buzz.Lib.OrderedSet

/-!
# References between engrams

The text of an engram refers to another one by its slug in double brackets. The scan is over the
bytes of the text, and the text between two brackets is a slice of it: a slice that does not begin
and end between characters would panic, and it never happens, because brackets are ASCII.

The pairs of a run of opening brackets begin at its first bracket. So a slug in double brackets is
found when an even number of opening brackets stands right before it, as after ordinary text, and
not in `[[[slug]]]`, where the first pair takes one bracket of the second.
-/

namespace Buzz.Engram

open List

def openByte : UInt8 := 0x5b

def closeByte : UInt8 := 0x5d

section

variable (debug : String → String)

/-- A candidate is pushed when it is a slug that is not there yet. -/
def pushRef (out : OrderedSet String) (candidate : String) : OrderedSet String :=
  match validateSlug debug candidate with
  | .ok () => out.insert candidate
  | .error _ => out

/-- The loop of `extract_refs`, over the bytes from the cursor on. There is no result where a slice
of the text would not be a text. -/
def extractRefsLoop (rest : List UInt8) (out : OrderedSet String) : Option (OrderedSet String) :=
  match rest with
  | a :: b :: r =>
    if 3 < (a :: b :: r).length then
      if a = openByte ∧ b = openByte then
        -- the inner scan: up to the closing pair, unless another opening pair comes first
        match _h : closingPair openByte closeByte r with
        | some (bytes, after) =>
          match ofUtf8 bytes with
          | some candidate => extractRefsLoop after (pushRef debug out candidate)
          | none => none
        | none => extractRefsLoop r out
      else extractRefsLoop (b :: r) out
    else some out
  | _ => some out
termination_by rest.length
decreasing_by
  · have := length_of_closingPair _h
    simp only [length_cons]
    omega
  · simp only [length_cons]
    omega
  · simp

/-- Extract `[[slug]]` references from a body's free-form text field. -/
def extractRefs (body : String) : Option (List String) :=
  (extractRefsLoop debug (utf8 body) ∅).map OrderedSet.items

/-- A slug in double brackets after the text `pre`, which ends in an even number of opening
brackets. -/
structure RefAt (body s : String) (pre : List Char) : Prop where
  slug : validateSlug debug s = .ok ()
  text : ∃ post, body.toList = pre ++ '[' :: '[' :: (s.toList ++ ']' :: ']' :: post)
  even : Even (openings '[' pre)

end

/-! ### The loop pushes what the scan finds -/

section

variable {debug : String → String}

theorem exists_utf8_of_enclosed {cs : List Char} {p s q : List UInt8}
    (h : encode cs = p ++ openByte :: openByte :: (s ++ closeByte :: closeByte :: q)) :
    ∃ t : String, utf8 t = s := by
  rw [← singleton_append, ← append_assoc] at h
  obtain ⟨ds, hds⟩ := exists_encode_of_suffix (by decide) h
  obtain ⟨es, hes⟩ := exists_encode_of_prefix (by decide) hds
  exact ⟨String.ofList es, by rw [utf8_eq_encode, String.toList_ofList, hes]⟩

def slugs (debug : String → String) (found : List (Nat × String)) : List String :=
  (found.map Prod.snd).filter fun s => (validateSlug debug s).isOk

theorem mem_slugs {found : List (Nat × String)} {s : String} :
    s ∈ slugs debug found ↔ (∃ i, (i, s) ∈ found) ∧ validateSlug debug s = .ok () := by
  have hok : (validateSlug debug s).isOk = true ↔ validateSlug debug s = .ok () := by
    cases validateSlug debug s <;> simp [Except.isOk, Except.toBool]
  rw [slugs, mem_filter, hok]
  simp

theorem pushRef_insertAll (out : OrderedSet String) (i : Nat) (candidate : String)
    (found : List (Nat × String)) :
    (pushRef debug out candidate).insertAll (slugs debug found) =
      out.insertAll (slugs debug ((i, candidate) :: found)) := by
  rw [slugs, slugs, map_cons, filter_cons, pushRef]
  cases validateSlug debug candidate <;> rfl

theorem extractRefsLoop_eq {cs : List Char} {p rest : List UInt8} (i : Nat)
    (h : encode cs = p ++ rest) (out : OrderedSet String) : ∃ found : List (Nat × String),
      links openByte closeByte i rest = found.map (fun x => (x.1, utf8 x.2)) ∧
        extractRefsLoop debug rest out = some (out.insertAll (slugs debug found)) := by
  fun_induction extractRefsLoop debug rest out generalizing p i with
  | case1 out a b r hlen hopen bytes after hclose candidate htext ih =>
    obtain ⟨rfl, rfl⟩ := hopen
    obtain rfl := closingPair_eq_some hclose
    obtain ⟨found, hlinks, hloop⟩ := ih (i + bytes.length + 4)
      (p := p ++ openByte :: openByte :: (bytes ++ [closeByte, closeByte])) (by simpa using h)
    refine ⟨(i, candidate) :: found, ?_, ?_⟩
    · rw [links_pair_some hclose, hlinks, map_cons, ofUtf8_eq_some_iff.mp htext]
    · rw [hloop, pushRef_insertAll _ i]
  | case2 out a b r hlen hopen bytes after hclose hnone =>
    obtain ⟨rfl, rfl⟩ := hopen
    obtain rfl := closingPair_eq_some hclose
    obtain ⟨t, ht⟩ := exists_utf8_of_enclosed h
    rw [ofUtf8_eq_some_iff.mpr ht] at hnone
    nomatch hnone
  | case3 out a b r hlen hopen hclose ih =>
    obtain ⟨rfl, rfl⟩ := hopen
    obtain ⟨found, hlinks, hloop⟩ := ih (i + 2) (p := p ++ [openByte, openByte]) (by simpa using h)
    exact ⟨found, by rw [links_pair_none hclose, hlinks], hloop⟩
  | case4 out a b r hlen hopen ih =>
    obtain ⟨found, hlinks, hloop⟩ := ih (i + 1) (p := p ++ [a]) (by simpa using h)
    exact ⟨found, by rw [links_step hopen, hlinks], hloop⟩
  | case5 out a b r hlen => exact ⟨[], links_eq_nil (Nat.le_of_not_lt hlen), rfl⟩
  | case6 rest out hshort =>
    refine ⟨[], links_eq_nil ?_, rfl⟩
    match rest with
    | [] => simp
    | [a] => simp
    | a :: b :: r => exact absurd rfl (hshort a b r)

end

/-! ### Bytes and characters -/

theorem openings_encode (pre : List Char) : openings openByte (encode pre) = openings '[' pre := by
  induction pre using reverseRecOn with
  | nil => rfl
  | append_singleton pre c ih =>
    rw [encode_append, encode_cons, encode_nil, append_nil]
    by_cases hc : c = '['
    · subst hc
      rw [utf8EncodeChar_ascii (by decide), openings_concat_self, ← ih]
      exact openings_concat_self (encode pre)
    · rw [openings_concat_of_ne hc]
      rcases eq_nil_or_concat (String.utf8EncodeChar c) with hnil | ⟨bytes, b, hbytes⟩
      · exact absurd hnil String.utf8EncodeChar_ne_nil
      · rw [hbytes, concat_eq_append, ← append_assoc]
        refine openings_concat_of_ne ?_ (encode pre ++ bytes)
        rintro rfl
        have hmem : UInt8.ofNat '['.toNat ∈ encode [c] := by
          rw [encode_cons, hbytes]
          simp [openByte]
        rw [mem_encode_ascii (by decide), mem_singleton] at hmem
        exact hc hmem.symm

theorem encode_eq_enclosed_iff {cs : List Char} {s : String} {p : List UInt8} :
    (∃ q, encode cs = p ++ openByte :: openByte :: (utf8 s ++ closeByte :: closeByte :: q)) ↔
      ∃ pre post, cs = pre ++ '[' :: '[' :: (s.toList ++ ']' :: ']' :: post) ∧ encode pre = p := by
  constructor
  · rintro ⟨q, h⟩
    obtain ⟨pre, cs, rfl, hpre, h⟩ := (encode_eq_append_ascii_iff (d := '[') (by decide)).mp h
    obtain ⟨l, cs, rfl, hl, h⟩ := (encode_eq_append_ascii_iff (p := []) (d := '[') (by decide)).mp h
    obtain ⟨t, cs, rfl, ht, h⟩ := (encode_eq_append_ascii_iff (d := ']') (by decide)).mp h
    obtain ⟨l', post, rfl, hl', -⟩ :=
      (encode_eq_append_ascii_iff (p := []) (d := ']') (by decide)).mp h
    obtain rfl : l = [] := encode_injective hl
    obtain rfl : l' = [] := encode_injective hl'
    rw [utf8_eq_encode] at ht
    obtain rfl := encode_injective ht
    exact ⟨pre, post, rfl, hpre⟩
  · rintro ⟨pre, post, rfl, rfl⟩
    refine ⟨encode post, ?_⟩
    simp only [encode_append, encode_cons, utf8_eq_encode]
    rfl

section

variable {debug : String → String} {body s : String}

theorem mem_links_utf8_iff (hs : validateSlug debug s = .ok ()) {j : Nat} :
    (j, utf8 s) ∈ links openByte closeByte 0 (utf8 body) ↔
      ∃ pre, RefAt debug body s pre ∧ (encode pre).length = j := by
  have hslug := validateSlug_ok_iff.mp hs
  have hopen : openByte ∉ utf8 s := by
    rw [utf8_eq_encode]
    exact mt (mem_encode_ascii (d := '[') (by decide)).mp
      (hslug.notMem (by decide) (by decide) (by decide))
  have hclose : closeByte ∉ utf8 s := by
    rw [utf8_eq_encode]
    exact mt (mem_encode_ascii (d := ']') (by decide)).mp
      (hslug.notMem (by decide) (by decide) (by decide))
  rw [mem_links_iff (by decide) hopen hclose, utf8_eq_encode body]
  constructor
  · rintro ⟨p, q, h, rfl, heven⟩
    obtain ⟨pre, post, htext, rfl⟩ := encode_eq_enclosed_iff.mp ⟨q, h⟩
    exact ⟨pre, ⟨hs, ⟨post, htext⟩, openings_encode pre ▸ heven⟩, rfl⟩
  · rintro ⟨pre, ⟨-, ⟨post, htext⟩, heven⟩, rfl⟩
    obtain ⟨q, h⟩ := encode_eq_enclosed_iff.mpr ⟨pre, post, htext, rfl⟩
    exact ⟨encode pre, q, h, rfl, (openings_encode pre).symm ▸ heven⟩

theorem RefAt.isPrefix {pre : List Char} (h : RefAt debug body s pre) : pre <+: body.toList := by
  obtain ⟨post, htext⟩ := h.text
  exact ⟨_, htext.symm⟩

theorem length_lt_of_encode {l : List Char} {pre pre' : List Char} (h : pre <+: l) (h' : pre' <+: l)
    (hlt : (encode pre).length < (encode pre').length) : pre.length < pre'.length := by
  by_contra hle
  obtain ⟨t, rfl⟩ := prefix_of_prefix_length_le h' h (Nat.not_lt.mp hle)
  rw [encode_append, length_append] at hlt
  omega

theorem extractRefs_eq (debug : String → String) (body : String) :
    ∃ found : List (Nat × String),
      extractRefs debug body = some ((∅ : OrderedSet String).insertAll (slugs debug found)).items ∧
        (∀ s, validateSlug debug s = .ok () → ∀ j,
          (j, s) ∈ found ↔ ∃ pre, RefAt debug body s pre ∧ (encode pre).length = j) ∧
        found.Pairwise fun x y => x.1 < y.1 := by
  obtain ⟨found, hlinks, hloop⟩ := @extractRefsLoop_eq debug _ _ _ 0
    (nil_append (encode body.toList)).symm ∅
  rw [← utf8_eq_encode] at hlinks hloop
  refine ⟨found, by rw [extractRefs, hloop]; rfl, ?_, ?_⟩
  · intro s hs j
    rw [← mem_links_utf8_iff hs, hlinks, mem_map]
    constructor
    · intro h
      exact ⟨(j, s), h, rfl⟩
    · rintro ⟨⟨i, t⟩, h, heq⟩
      obtain ⟨rfl, htext⟩ := Prod.mk.inj heq
      exact utf8_injective htext ▸ h
  · have hpairwise := links_pairwise (o := openByte) (c := closeByte) 0 (utf8 body)
    rwa [hlinks, pairwise_map] at hpairwise

theorem mem_extractRefs_iff {refs : List String} (h : extractRefs debug body = some refs) :
    s ∈ refs ↔ ∃ pre, RefAt debug body s pre := by
  obtain ⟨found, hrefs, hfound, -⟩ := extractRefs_eq debug body
  obtain rfl := Option.some.inj (h.symm.trans hrefs)
  rw [OrderedSet.mem_items, OrderedSet.mem_insertAll, mem_slugs]
  constructor
  · rintro (hs | ⟨⟨j, hj⟩, hs⟩)
    · exact absurd hs (OrderedSet.notMem_empty s)
    · obtain ⟨pre, hpre, -⟩ := (hfound s hs j).mp hj
      exact ⟨pre, hpre⟩
  · rintro ⟨pre, hpre⟩
    exact Or.inr ⟨⟨_, (hfound s hpre.slug _).mpr ⟨pre, hpre, rfl⟩⟩, hpre.slug⟩

theorem extractRefs_pairwise {refs : List String} (h : extractRefs debug body = some refs) :
    refs.Pairwise fun s t => ∀ pre, RefAt debug body t pre →
      ∃ pre', RefAt debug body s pre' ∧ pre'.length < pre.length := by
  obtain ⟨found, hrefs, hfound, hpairwise⟩ := extractRefs_eq debug body
  obtain rfl := Option.some.inj (h.symm.trans hrefs)
  refine (OrderedSet.insertAll_pairwise (slugs debug found)).imp fun {s t} hst pre ht => ?_
  obtain ⟨earlier, later, rfl⟩ :=
    append_of_mem ((hfound t ht.slug _).mpr ⟨pre, ht, rfl⟩)
  have hsplit : slugs debug (earlier ++ ((encode pre).length, t) :: later) =
      slugs debug earlier ++ t :: slugs debug later := by
    simp [slugs, ht.slug, Except.isOk, Except.toBool]
  obtain ⟨⟨j, hj⟩, hs⟩ := mem_slugs.mp (hst _ _ hsplit)
  have hlt : j < (encode pre).length :=
    (pairwise_append.mp hpairwise).2.2 _ hj _ mem_cons_self
  obtain ⟨pre', hpre', rfl⟩ := (hfound s hs j).mp (mem_append_left _ hj)
  exact ⟨pre', hpre', length_lt_of_encode hpre'.isPrefix ht.isPrefix hlt⟩

end

/-! ### Main results -/

/-- **The scan is exact.** It ends on every text with the slugs that stand in double brackets after
an even number of opening brackets, each once, in the order in which they first do. -/
theorem extractRefs_exact (debug : String → String) (body : String) : ∃ refs,
    extractRefs debug body = some refs ∧ refs.Nodup ∧
      (∀ s, s ∈ refs ↔ ∃ pre, RefAt debug body s pre) ∧
      refs.Pairwise fun s t => ∀ pre, RefAt debug body t pre →
        ∃ pre', RefAt debug body s pre' ∧ pre'.length < pre.length := by
  obtain ⟨found, hrefs, -⟩ := extractRefs_eq debug body
  exact ⟨_, hrefs, OrderedSet.nodup _, fun s => mem_extractRefs_iff hrefs,
    extractRefs_pairwise hrefs⟩

/-- A slug in double brackets is not found where a third bracket opens before it. -/
theorem not_literal : ¬ ∀ body refs, extractRefs id body = some refs → ∀ s, s ∈ refs ↔
    validateSlug id s = .ok () ∧ ∃ pre post, body = pre ++ "[[" ++ s ++ "]]" ++ post := by
  intro hall
  obtain ⟨found, hrefs, -⟩ := extractRefs_eq id "[[[mem/x]]]"
  have hslug : validateSlug id "mem/x" = .ok () := by decide +kernel
  have hmem := (hall _ _ hrefs "mem/x").mpr ⟨hslug, "[", "]", by decide⟩
  obtain ⟨pre, -, ⟨post, htext⟩, heven⟩ := (mem_extractRefs_iff hrefs).mp hmem
  -- the slug can only stand after one bracket
  match pre with
  | [] => exact absurd htext (by simp)
  | [c] =>
    obtain ⟨rfl, -⟩ := cons.inj htext
    exact absurd heven (by decide)
  | [_, _] => exact absurd htext (by simp)
  | _ :: _ :: _ :: pre =>
    have hmem : '[' ∈ "mem/x]]]".toList := by
      rw [show "mem/x]]]".toList = pre ++ '[' :: '[' :: ("mem/x".toList ++ ']' :: ']' :: post) from
        (cons.inj (cons.inj (cons.inj htext).2).2).2]
      simp
    exact absurd hmem (by decide)

end Buzz.Engram
