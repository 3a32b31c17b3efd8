import Buzz.Lib.Bytes

/-!
# ASCII in UTF-8

Code that looks for ASCII characters reads the bytes of a text, not its characters. A byte below 128
is a character of its own and every byte of another character is at least 128, so what stands before
such a byte, and what stands after it, are texts again.

Bytes that are no text are read with losses: the longest part that could begin a character, or one
byte where there is none, becomes a replacement character.

A slice of a text is given by a number of bytes. It exists where the cut stands between two
characters; elsewhere the code that asks for it stops. Code that shortens a text therefore first
moves the cut back to a boundary.
-/

namespace Buzz

open List Option

def encode (cs : List Char) : List UInt8 := cs.flatMap String.utf8EncodeChar

@[simp] theorem encode_nil : encode [] = [] := rfl

@[simp] theorem encode_cons (c : Char) (cs : List Char) :
    encode (c :: cs) = String.utf8EncodeChar c ++ encode cs := rfl

@[simp] theorem encode_append (cs ds : List Char) : encode (cs ++ ds) = encode cs ++ encode ds :=
  flatMap_append

theorem utf8_eq_encode (s : String) : utf8 s = encode s.toList := by
  have h : s.toByteArray = s.toList.utf8Encode := by
    conv_lhs => rw [← String.ofList_toList (s := s)]
    rfl
  rw [utf8, String.toUTF8_eq_toByteArray, h, utf8Encode, encode]
  simp

theorem encode_injective : Function.Injective encode := by
  intro cs ds h
  rw [← String.toList_ofList (l := cs), ← String.toList_ofList (l := ds)] at h
  rw [← utf8_eq_encode, ← utf8_eq_encode] at h
  exact String.ofList_injective (utf8_injective h)

def utf8Length (cs : List Char) : Nat := (encode cs).length

@[simp] theorem utf8Length_nil : utf8Length [] = 0 := rfl

theorem utf8Length_cons (c : Char) (cs : List Char) :
    utf8Length (c :: cs) = c.utf8Size + utf8Length cs := by
  simp [utf8Length, encode_cons, String.length_utf8EncodeChar]

theorem utf8Length_append (cs ds : List Char) :
    utf8Length (cs ++ ds) = utf8Length cs + utf8Length ds := by
  simp [utf8Length, encode_append]

theorem length_le_utf8Length (cs : List Char) : cs.length ≤ utf8Length cs := by
  induction cs with
  | nil => exact Nat.zero_le _
  | cons c cs ih =>
    rw [utf8Length_cons, length_cons]
    have hpos := c.utf8Size_pos
    omega

theorem utf8ByteSize_eq (s : String) : s.utf8ByteSize = utf8Length s.toList := by
  rw [utf8Length, ← utf8_eq_encode, utf8]
  rfl

/-! ### One character -/

variable {c : Char}

theorem utf8EncodeChar_ascii (h : c.toNat ≤ 127) :
    String.utf8EncodeChar c = [UInt8.ofNat c.toNat] := by
  have hval : c.val.toNat ≤ 127 := h
  rw [String.utf8EncodeChar, if_pos hval]
  rfl

theorem utf8Size_ascii (h : c.toNat ≤ 127) : c.utf8Size = 1 := by
  rw [← String.length_utf8EncodeChar, utf8EncodeChar_ascii h]
  rfl

variable {cs : List Char}

theorem utf8Length_ascii (h : ∀ c ∈ cs, c.toNat ≤ 127) : utf8Length cs = cs.length := by
  induction cs with
  | nil => rfl
  | cons c cs ih =>
    rw [utf8Length_cons, utf8Size_ascii (h c mem_cons_self),
      ih fun d hd => h d (mem_cons_of_mem c hd), length_cons, Nat.add_comm]

theorem two_le_utf8Size (h : 127 < c.toNat) : 2 ≤ c.utf8Size := by
  have hval : 127 < c.val.toNat := h
  unfold Char.utf8Size
  dsimp only
  split
  · next hle =>
    rw [UInt32.le_iff_toNat_le] at hle
    exact absurd hle (Nat.not_le.mpr hval)
  · split
    · exact Nat.le_refl _
    · split <;> omega

theorem toNat_ofNat_of_valid {n : Nat} (h : n.isValidChar) : (Char.ofNat n).toNat = n := by
  rw [Char.ofNat, dif_pos h]
  rfl

variable {b : UInt8}

theorem le_of_mem_utf8EncodeChar (h : 127 < c.toNat) (hb : b ∈ String.utf8EncodeChar c) :
    128 ≤ b := by
  have hval : ¬ c.val.toNat ≤ 127 := Nat.not_le.mpr h
  rw [UInt8.le_iff_toNat_le]
  rw [String.utf8EncodeChar, if_neg hval] at hb
  split at hb
  · simp only [mem_cons, not_mem_nil, or_false] at hb
    rcases hb with rfl | rfl <;> simp <;> omega
  · split at hb
    · simp only [mem_cons, not_mem_nil, or_false] at hb
      rcases hb with rfl | rfl | rfl <;> simp <;> omega
    · simp only [mem_cons, not_mem_nil, or_false] at hb
      rcases hb with rfl | rfl | rfl | rfl <;> simp <;> omega

theorem toNat_le_of_mem (hb : b ∈ String.utf8EncodeChar c) (h : b < 128) : c.toNat ≤ 127 := by
  by_contra hc
  have hle := le_of_mem_utf8EncodeChar (Nat.not_le.mp hc) hb
  exact absurd h (UInt8.not_lt.mpr hle)

theorem ofNat_beq {d : Char} (hc : c.toNat ≤ 127) (hd : d.toNat ≤ 127) :
    (UInt8.ofNat c.toNat == UInt8.ofNat d.toNat) = true ↔ c = d := by
  rw [beq_iff_eq]
  constructor
  · intro h
    have hnat : c.toNat % 256 = d.toNat % 256 := congrArg UInt8.toNat h
    rw [Nat.mod_eq_of_lt (by omega), Nat.mod_eq_of_lt (by omega)] at hnat
    exact Char.toNat_inj.mp hnat
  · rintro rfl
    rfl

/-! ### Texts -/

variable {p q : List UInt8}

theorem encode_eq_append_cons (hb : b < 128) (h : encode cs = p ++ b :: q) :
    ∃ l c r, cs = l ++ c :: r ∧ encode l = p ∧ String.utf8EncodeChar c = [b] ∧ encode r = q := by
  induction cs generalizing p with
  | nil => simp at h
  | cons c cs ih =>
    rw [encode_cons] at h
    rcases append_eq_append_iff.mp h with ⟨t, hp, hrest⟩ | ⟨t, hchar, hrest⟩
    · obtain ⟨l, d, r, rfl, hl, hd, hr⟩ := ih hrest
      exact ⟨c :: l, d, r, rfl, by rw [encode_cons, hl, hp], hd, hr⟩
    · cases t with
      | nil =>
        obtain ⟨l, d, r, rfl, hl, hd, hr⟩ := ih (p := []) hrest.symm
        refine ⟨c :: l, d, r, rfl, ?_, hd, hr⟩
        rw [encode_cons, hl, hchar]
        simp
      | cons b' t =>
        obtain ⟨rfl, rfl⟩ := cons.inj hrest
        have hmem : b ∈ String.utf8EncodeChar c := by simp [hchar]
        rw [utf8EncodeChar_ascii (toNat_le_of_mem hmem hb)] at hchar
        cases p with
        | nil =>
          obtain ⟨hc, ht⟩ := cons.inj hchar
          subst ht
          refine ⟨[], c, cs, rfl, rfl, ?_, rfl⟩
          rw [utf8EncodeChar_ascii (toNat_le_of_mem hmem hb), hc]
        | cons a p => simp at hchar

theorem encode_eq_append_ascii_iff {d : Char} (hd : d.toNat ≤ 127) :
    encode cs = p ++ UInt8.ofNat d.toNat :: q ↔
      ∃ l r, cs = l ++ d :: r ∧ encode l = p ∧ encode r = q := by
  constructor
  · intro h
    have hb : UInt8.ofNat d.toNat < 128 := by
      rw [UInt8.lt_iff_toNat_lt]
      simp
      omega
    obtain ⟨l, c, r, rfl, hl, hchar, hr⟩ := encode_eq_append_cons hb h
    have hc := toNat_le_of_mem (hchar ▸ mem_singleton_self _) hb
    rw [utf8EncodeChar_ascii hc] at hchar
    obtain rfl := (ofNat_beq hc hd).mp (beq_iff_eq.mpr (cons.inj hchar).1)
    exact ⟨l, r, rfl, hl, hr⟩
  · rintro ⟨l, r, rfl, rfl, rfl⟩
    simp [encode_append, encode_cons, utf8EncodeChar_ascii hd]

theorem mem_encode_ascii {d : Char} (hd : d.toNat ≤ 127) :
    UInt8.ofNat d.toNat ∈ encode cs ↔ d ∈ cs := by
  constructor
  · intro h
    obtain ⟨p, q, hsplit⟩ := append_of_mem h
    obtain ⟨l, r, rfl, -, -⟩ := (encode_eq_append_ascii_iff hd).mp hsplit
    simp
  · intro h
    refine mem_flatMap.mpr ⟨d, h, ?_⟩
    rw [utf8EncodeChar_ascii hd]
    exact mem_singleton_self _

theorem exists_encode_of_suffix (hb : b < 128) (h : encode cs = p ++ b :: q) :
    ∃ r, encode r = q := by
  obtain ⟨-, -, r, -, -, -, hr⟩ := encode_eq_append_cons hb h
  exact ⟨r, hr⟩

theorem exists_encode_of_prefix (hb : b < 128) (h : encode cs = p ++ b :: q) :
    ∃ l, encode l = p := by
  obtain ⟨l, -, -, -, hl, -, -⟩ := encode_eq_append_cons hb h
  exact ⟨l, hl⟩

theorem utf8_append (s t : String) : utf8 (s ++ t) = utf8 s ++ utf8 t := by
  rw [utf8_eq_encode, utf8_eq_encode, utf8_eq_encode, String.toList_append, encode_append]

theorem ofUtf8_between {bs : List UInt8} {a c : UInt8} (ha : a < 128) (hc : c < 128)
    (h : ofUtf8 bs = none) : ofUtf8 (p ++ (a :: (bs ++ c :: q))) = none := by
  rw [eq_none_iff_forall_ne_some] at h ⊢
  intro s hs
  rw [ofUtf8_eq_some_iff, utf8_eq_encode] at hs
  obtain ⟨r, hr⟩ := exists_encode_of_suffix ha hs
  obtain ⟨l, hl⟩ := exists_encode_of_prefix hc hr
  exact h (String.ofList l) (ofUtf8_eq_some_iff.mpr (by rw [utf8_eq_encode, String.toList_ofList, hl]))

theorem encode_ascii (h : ∀ c ∈ cs, c.toNat ≤ 127) :
    encode cs = cs.map fun c => UInt8.ofNat c.toNat := by
  induction cs with
  | nil => rfl
  | cons c cs ih =>
    simp [encode_cons, utf8EncodeChar_ascii (h c mem_cons_self),
      ih fun d hd => h d (mem_cons_of_mem c hd)]

theorem ascii_of_encode (h : ∀ b ∈ encode cs, b < 128) (hc : c ∈ cs) : c.toNat ≤ 127 := by
  cases henc : String.utf8EncodeChar c with
  | nil => exact absurd henc String.utf8EncodeChar_ne_nil
  | cons b bs =>
    have hb : b ∈ String.utf8EncodeChar c := by simp [henc]
    exact toNat_le_of_mem hb (h b (mem_flatMap.mpr ⟨c, hc, hb⟩))

/-! ### Reading with losses -/

/-- The ranges of the bytes that follow a first byte. -/
def continuations (b : UInt8) : List (UInt8 × UInt8) :=
  let rest : UInt8 × UInt8 := (0x80, 0xbf)
  if 0xc2 ≤ b ∧ b ≤ 0xdf then [rest]
  else if b = 0xe0 then [(0xa0, 0xbf), rest]
  else if b = 0xed then [(0x80, 0x9f), rest]
  else if 0xe1 ≤ b ∧ b ≤ 0xef then [rest, rest]
  else if b = 0xf0 then [(0x90, 0xbf), rest, rest]
  else if 0xf1 ≤ b ∧ b ≤ 0xf3 then [rest, rest, rest]
  else if b = 0xf4 then [(0x80, 0x8f), rest, rest]
  else []

/-- The bytes, as far as they are in these ranges. -/
def continued : List (UInt8 × UInt8) → List UInt8 → List UInt8
  | (low, high) :: ranges, b :: bs =>
    if low ≤ b ∧ b ≤ high then b :: continued ranges bs else []
  | _, _ => []

/-- The characters, with replacements; the number bounds the length. -/
def lossyChars : Nat → List UInt8 → List Char
  | 0, _ => []
  | _, [] => []
  | n + 1, b :: bs =>
    let more := continued (continuations b) bs
    let chars := match ofUtf8 (b :: more) with
      | some s => s.toList
      | none => [Char.ofNat 0xfffd]
    chars ++ lossyChars n (bs.drop more.length)

/-- `from_utf8_lossy`. -/
def lossy (bs : List UInt8) : String :=
  match ofUtf8 bs with
  | some s => s
  | none => String.ofList (lossyChars bs.length bs)

@[simp] theorem lossy_utf8 (s : String) : lossy (utf8 s) = s := by
  rw [lossy, ofUtf8_eq_some_iff.mpr rfl]

/-! ### Cutting a text at a byte -/

section

/-- The characters that make up the first `n` bytes. -/
def takeBytes : List Char → ℕ → Option (List Char)
  | _, 0 => some []
  | [], _ + 1 => none
  | c :: cs, n + 1 =>
    if c.utf8Size ≤ n + 1 then (takeBytes cs (n + 1 - c.utf8Size)).map (c :: ·) else none

def isCharBoundary (cs : List Char) (n : ℕ) : Bool := (takeBytes cs n).isSome

/-- The cut, moved back to a boundary. -/
def floorBoundary (cs : List Char) : ℕ → ℕ
  | 0 => 0
  | n + 1 => if isCharBoundary cs (n + 1) then n + 1 else floorBoundary cs n

variable {cs pre : List Char} {n : ℕ}

@[simp] theorem takeBytes_zero (cs : List Char) : takeBytes cs 0 = some [] := by
  cases cs <;> rfl

theorem takeBytes_eq_some_iff :
    takeBytes cs n = some pre ↔ pre <+: cs ∧ utf8Length pre = n := by
  induction cs generalizing n pre with
  | nil =>
    cases n with
    | zero =>
      rw [takeBytes_zero, some.injEq, prefix_nil]
      constructor
      · rintro rfl
        exact ⟨rfl, rfl⟩
      · rintro ⟨rfl, -⟩
        rfl
    | succ n =>
      rw [prefix_nil]
      constructor
      · intro h
        cases h
      · rintro ⟨rfl, h⟩
        cases h
  | cons c cs ih =>
    cases n with
    | zero =>
      rw [takeBytes_zero, some.injEq]
      constructor
      · rintro rfl
        exact ⟨List.nil_prefix, rfl⟩
      · rintro ⟨-, h⟩
        cases pre with
        | nil => rfl
        | cons d pre =>
          rw [utf8Length_cons] at h
          have := d.utf8Size_pos
          omega
    | succ n =>
      rw [takeBytes]
      cases pre with
      | nil =>
        constructor
        · intro h
          split at h
          · obtain ⟨_, -, hcons⟩ := map_eq_some_iff.mp h
            exact absurd hcons (cons_ne_nil _ _)
          · cases h
        · rintro ⟨-, h⟩
          cases h
      | cons d pre =>
        rw [cons_prefix_cons, utf8Length_cons]
        split
        · next hsize =>
          rw [map_eq_some_iff]
          constructor
          · rintro ⟨pre', hpre', heq⟩
            obtain ⟨rfl, rfl⟩ := cons.inj heq
            obtain ⟨hpart, hlength⟩ := ih.mp hpre'
            exact ⟨⟨rfl, hpart⟩, by omega⟩
          · rintro ⟨⟨rfl, hpart⟩, hlength⟩
            exact ⟨pre, ih.mpr ⟨hpart, by omega⟩, rfl⟩
        · next hsize =>
          simp only [reduceCtorEq, false_iff, not_and]
          rintro ⟨rfl, -⟩
          omega

theorem floorBoundary_le (cs : List Char) (n : ℕ) : floorBoundary cs n ≤ n := by
  induction n with
  | zero => exact Nat.le_refl 0
  | succ n ih =>
    rw [floorBoundary]
    split
    · exact Nat.le_refl _
    · exact Nat.le_succ_of_le ih

/-- **There is a slice** at a cut that was moved back. -/
theorem exists_takeBytes_floorBoundary (cs : List Char) (n : ℕ) :
    ∃ pre, takeBytes cs (floorBoundary cs n) = some pre := by
  induction n with
  | zero => exact ⟨[], takeBytes_zero cs⟩
  | succ n ih =>
    rw [floorBoundary]
    split
    · next h => exact isSome_iff_exists.mp h
    · exact ih

theorem le_floorBoundary {m : ℕ} (hm : m ≤ n) (h : isCharBoundary cs m = true) :
    m ≤ floorBoundary cs n := by
  induction n with
  | zero => exact hm
  | succ n ih =>
    rw [floorBoundary]
    split
    · exact hm
    · next hnot =>
      rcases Nat.lt_or_eq_of_le hm with hlt | rfl
      · exact ih (Nat.le_of_lt_succ hlt)
      · exact absurd h hnot

end

end Buzz
