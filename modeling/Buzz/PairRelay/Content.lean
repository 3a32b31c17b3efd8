import Buzz.Lib.Base64
import Buzz.Lib.Utf8
import Buzz.PairRelay.Event

/-!
# The content filter of the pair relay

The filter looks at the bytes of the content: it counts the padding, computes the length of what the
content decodes to, and decodes the first byte. That is what a decoder would say, for a decoder that
ignores the bits that are left over before the padding. The size of the content is bounded by the
frame it comes in, and not by the filter.
-/

namespace Buzz.PairRelay

open List Option

def maxFrame : Nat := 4096

/-! ### The alphabet -/

variable {n : Nat}

theorem base64Value_digitByte (h : n < 64) :
    base64Value (UInt8.ofNat (base64Digit n).toNat) = some (UInt8.ofNat n) := by
  have hall : ∀ k : Fin 64, base64Value (UInt8.ofNat (base64Digit k).toNat) =
      some (UInt8.ofNat k) := by
    decide +kernel
  exact hall ⟨n, h⟩

theorem digit_of_base64Value (h : n < 256) {v : UInt8} (hv : base64Value (UInt8.ofNat n) = some v) :
    v.toNat < 64 ∧ (base64Digit v.toNat).toNat = n := by
  have hall : ∀ k : Fin 256, (base64Value (UInt8.ofNat k)).all (fun v =>
      decide (v.toNat < 64) && (base64Digit v.toNat).toNat == k) = true := by
    decide +kernel
  have hone := hall ⟨n, h⟩
  rw [hv, all_some, Bool.and_eq_true, decide_eq_true_eq, beq_iff_eq] at hone
  exact hone

theorem base64Value_ofNat (h : n < 256) :
    (base64Value (UInt8.ofNat n)).map UInt8.toNat = Buzz.base64Value (Char.ofNat n) := by
  have hvalid : n.isValidChar := Or.inl (by omega)
  have hchar : (Char.ofNat n).toNat = n := by
    rw [Char.ofNat, dif_pos hvalid]
    rfl
  cases hvalue : Buzz.base64Value (Char.ofNat n) with
  | some w =>
    obtain ⟨hw, hdigit⟩ := base64Digit_of_value hvalue
    have hbyte := base64Value_digitByte hw
    rw [hdigit, hchar] at hbyte
    rw [hbyte, map_some, toNat_ofNat_of_lt (by omega)]
  | none =>
    refine map_eq_none_iff.mpr (eq_none_iff_forall_not_mem.mpr fun v hv => ?_)
    obtain ⟨hlt, hdigit⟩ := digit_of_base64Value h hv
    have heq : base64Digit v.toNat = Char.ofNat n := Char.toNat_inj.mp (hdigit.trans hchar.symm)
    rw [← heq, base64Value_digit hlt] at hvalue
    cases hvalue

theorem isBase64Byte_eq (b : UInt8) : isBase64Byte b = (base64Value b).isSome := by
  unfold isBase64Byte base64Value
  grind

theorem lt_of_isBase64Byte {b : UInt8} (h : isBase64Byte b = true) : b < 128 := by
  unfold isBase64Byte at h
  grind

variable {c : Char}

theorem isBase64Byte_ofNat_iff (h : c.toNat ≤ 127) :
    isBase64Byte (UInt8.ofNat c.toNat) = true ↔ c ∈ base64Alphabet := by
  have hvalue := base64Value_ofNat (Nat.lt_of_le_of_lt h (by decide : 127 < 256))
  rw [Char.ofNat_toNat] at hvalue
  rw [isBase64Byte_eq, ← isSome_map (f := UInt8.toNat), hvalue, isSome_iff_exists,
    base64Value_isSome_iff]

theorem firstByte_eq {v w : UInt8} (hv : v.toNat < 64) (hw : w.toNat < 64) :
    (v <<< 2) ||| (w >>> 4) = firstByte v.toNat w.toNat := by
  refine UInt8.toNat_inj.mp ?_
  rw [firstByte, toNat_ofNat_of_lt (by omega), UInt8.toNat_or, UInt8.toNat_shiftLeft,
    UInt8.toNat_shiftRight]
  have hhigh : v.toNat <<< 2 % 2 ^ 8 = v.toNat <<< 2 := by
    rw [Nat.shiftLeft_eq]
    omega
  have hlow : w.toNat >>> 4 < 2 ^ 2 := by
    rw [Nat.shiftRight_eq_div_pow]
    omega
  show v.toNat <<< 2 % 2 ^ 8 ||| w.toNat >>> 4 = v.toNat * 4 + w.toNat / 16
  rw [hhigh, ← Nat.shiftLeft_add_eq_or_of_lt hlow, Nat.shiftLeft_eq, Nat.shiftRight_eq_div_pow]

/-! ### The loop -/

variable {bytes : List UInt8}

theorem countPadding_padded {len : Nat} {i padCount : Nat} (hlen : i + bytes.length = len)
    (hpos : 0 < padCount) :
    countPadding len i padCount bytes = some n ↔
      padCount ≤ n ∧ bytes = replicate (n - padCount) 61 ∧ (bytes ≠ [] → n ≤ 2) := by
  induction bytes generalizing i padCount with
  | nil =>
    rw [countPadding, some.injEq]
    constructor
    · rintro rfl
      simp
    · rintro ⟨hle, heq, -⟩
      have hzero : n - padCount = 0 := by simpa using (congrArg length heq).symm
      omega
  | cons b bytes ih =>
    rw [length_cons] at hlen
    rw [countPadding]
    split
    · next hb =>
      refine iff_of_false nofun ?_
      rintro ⟨-, heq, -⟩
      have hmem : b ∈ replicate (n - padCount) (61 : UInt8) := heq ▸ mem_cons_self
      obtain rfl := eq_of_mem_replicate hmem
      exact absurd hb (by decide)
    split
    · next hb =>
      obtain rfl : b = 61 := beq_iff_eq.mp hb
      have hcons : ∀ k, (61 : UInt8) :: bytes = replicate k 61 ↔
          0 < k ∧ bytes = replicate (k - 1) 61 := by
        intro k
        cases k with
        | zero => simp
        | succ k => simp [replicate_succ]
      rw [hcons]
      split
      · next hearly =>
        refine iff_of_false nofun ?_
        rintro ⟨-, ⟨-, heq⟩, hn⟩
        have hrest := congrArg length heq
        rw [length_replicate] at hrest
        have := hn (cons_ne_nil _ _)
        omega
      split
      · next hmany =>
        refine iff_of_false nofun ?_
        rintro ⟨hle, ⟨hlt, -⟩, hn⟩
        have := hn (cons_ne_nil _ _)
        omega
      · next hfew =>
        rw [ih (by omega) (by omega), Nat.sub_sub]
        constructor
        · rintro ⟨hle, heq, hn⟩
          refine ⟨by omega, ⟨by omega, heq⟩, fun _ => ?_⟩
          rcases eq_or_ne bytes [] with hnil | hnil
          · rw [hnil] at heq
            have hzero : n - (padCount + 1) = 0 := by simpa using (congrArg length heq).symm
            omega
          · exact hn hnil
        · rintro ⟨-, ⟨hlt, heq⟩, hn⟩
          exact ⟨by omega, heq, fun _ => hn (cons_ne_nil _ _)⟩
    · next hb =>
      refine iff_of_false nofun ?_
      rintro ⟨-, heq, -⟩
      have hmem : b ∈ replicate (n - padCount) (61 : UInt8) := heq ▸ mem_cons_self
      exact hb (beq_iff_eq.mpr (eq_of_mem_replicate hmem))

/-- The loop accepts bytes of the alphabet, and then at most two padding bytes. -/
theorem countPadding_eq_some_iff {len : Nat} {i : Nat} (hlen : i + bytes.length = len) :
    countPadding len i 0 bytes = some n ↔
      ∃ digits, bytes = digits ++ replicate n 61 ∧ n ≤ 2 ∧
        ∀ b ∈ digits, isBase64Byte b = true := by
  induction bytes generalizing i with
  | nil =>
    rw [countPadding, some.injEq]
    constructor
    · rintro rfl
      exact ⟨[], rfl, Nat.zero_le 2, by simp⟩
    · rintro ⟨digits, heq, -, -⟩
      have hzero := congrArg length heq
      rw [length_append, length_replicate, length_nil] at hzero
      omega
  | cons b bytes ih =>
    rw [length_cons] at hlen
    rw [countPadding]
    split
    · next hb =>
      rw [if_neg (Nat.lt_irrefl 0), ih (by omega)]
      constructor
      · rintro ⟨digits, rfl, hn, hdigits⟩
        refine ⟨b :: digits, rfl, hn, ?_⟩
        rw [forall_mem_cons]
        exact ⟨hb, hdigits⟩
      · rintro ⟨digits, heq, hn, hdigits⟩
        cases digits with
        | nil =>
          have hmem : b ∈ [] ++ replicate n (61 : UInt8) := heq ▸ mem_cons_self
          obtain rfl := eq_of_mem_replicate hmem
          exact absurd hb (by decide)
        | cons d digits =>
          rw [cons_append, cons.injEq] at heq
          exact ⟨digits, heq.2, hn, (forall_mem_cons.mp hdigits).2⟩
    · next hb =>
      -- the first byte is no digit, so everything is padding
      have hall : (∃ digits, b :: bytes = digits ++ replicate n 61 ∧ n ≤ 2 ∧
          ∀ b ∈ digits, isBase64Byte b = true) ↔ b :: bytes = replicate n 61 ∧ n ≤ 2 := by
        constructor
        · rintro ⟨digits, heq, hn, hdigits⟩
          cases digits with
          | nil => exact ⟨heq, hn⟩
          | cons d digits =>
            rw [cons_append, cons.injEq] at heq
            exact absurd (heq.1 ▸ hdigits d mem_cons_self) hb
        · rintro ⟨heq, hn⟩
          exact ⟨[], heq, hn, by simp⟩
      rw [hall]
      split
      · next hpad =>
        obtain rfl : b = 61 := beq_iff_eq.mp hpad
        split
        · next hearly =>
          refine iff_of_false nofun ?_
          rintro ⟨heq, hn⟩
          have hlength := congrArg length heq
          rw [length_cons, length_replicate] at hlength
          omega
        rw [if_neg (by omega), countPadding_padded (by omega) (by omega : 0 < 0 + 1)]
        cases n with
        | zero => simp
        | succ n =>
          rw [replicate_succ, cons.injEq, Nat.zero_add, Nat.add_sub_cancel]
          constructor
          · rintro ⟨-, heq, hn⟩
            refine ⟨⟨rfl, heq⟩, ?_⟩
            rcases eq_or_ne bytes [] with hnil | hnil
            · rw [hnil] at heq
              have hzero : n = 0 := by simpa using (congrArg length heq).symm
              omega
            · exact hn hnil
          · rintro ⟨⟨-, heq⟩, hn⟩
            exact ⟨by omega, heq, fun _ => hn⟩
      · next hpad =>
        refine iff_of_false nofun ?_
        rintro ⟨heq, -⟩
        have hmem : b ∈ replicate n (61 : UInt8) := heq ▸ mem_cons_self
        exact hpad (beq_iff_eq.mpr (eq_of_mem_replicate hmem))

/-! ### Characters -/

theorem le_of_mem_base64Alphabet (h : c ∈ base64Alphabet) : c.toNat ≤ 127 := by
  have hall : base64Alphabet.all (fun c => decide (c.toNat ≤ 127)) = true := by decide
  exact of_decide_eq_true (all_eq_true.mp hall c h)

variable {digits : List Char}

theorem le_of_mem_padded (h : ∀ c ∈ digits, c ∈ base64Alphabet)
    (hc : c ∈ digits ++ replicate n '=') : c.toNat ≤ 127 := by
  rcases mem_append.mp hc with hc | hc
  · exact le_of_mem_base64Alphabet (h c hc)
  · rw [eq_of_mem_replicate hc]
    decide

theorem countPadding_encode_iff {cs : List Char} :
    countPadding (encode cs).length 0 0 (encode cs) = some n ↔
      ∃ digits, cs = digits ++ replicate n '=' ∧ n ≤ 2 ∧ ∀ c ∈ digits, c ∈ base64Alphabet := by
  rw [countPadding_eq_some_iff (Nat.zero_add _)]
  constructor
  · rintro ⟨digits, heq, hn, hdigits⟩
    have hbytes : ∀ b ∈ encode cs, b < 128 := by
      intro b hb
      rw [heq] at hb
      rcases mem_append.mp hb with hb | hb
      · exact lt_of_isBase64Byte (hdigits b hb)
      · rw [eq_of_mem_replicate hb]
        decide
    have hascii : ∀ c ∈ cs, c.toNat ≤ 127 := fun c hc => ascii_of_encode hbytes hc
    rw [encode_ascii hascii] at heq
    obtain ⟨l, pads, rfl, hl, hpads⟩ := map_eq_append_iff.mp heq
    have hlen : pads.length = n := by simpa using congrArg length hpads
    refine ⟨l, ?_, hn, fun c hc => ?_⟩
    · congr 1
      refine eq_replicate_iff.mpr ⟨hlen, fun c hc => ?_⟩
      have hle := hascii c (mem_append_right l hc)
      have hbyte : (UInt8.ofNat c.toNat).toNat = (61 : UInt8).toNat :=
        congrArg UInt8.toNat (eq_of_mem_replicate (hpads ▸ mem_map_of_mem hc))
      rw [toNat_ofNat_of_lt (by omega)] at hbyte
      exact Char.toNat_inj.mp hbyte
    · have hbyte := hdigits _ (hl ▸ mem_map_of_mem hc)
      exact (isBase64Byte_ofNat_iff (hascii c (mem_append_left pads hc))).mp hbyte
  · rintro ⟨digits, rfl, hn, hdigits⟩
    rw [encode_ascii fun c hc => le_of_mem_padded hdigits hc, map_append, map_replicate]
    refine ⟨_, rfl, hn, fun b hb => ?_⟩
    obtain ⟨c, hc, rfl⟩ := mem_map.mp hb
    exact (isBase64Byte_ofNat_iff (le_of_mem_base64Alphabet (hdigits c hc))).mpr (hdigits c hc)

theorem count_pad (n : Nat) (h : ∀ c ∈ digits, c ∈ base64Alphabet) :
    (digits ++ replicate n '=').count '=' = n := by
  have hzero : digits.count '=' = 0 :=
    count_eq_zero.mpr fun hmem => absurd (h '=' hmem) pad_notMem
  rw [count_append, hzero, count_replicate_self, Nat.zero_add]

theorem base64Value_byte {w : Nat} (hc : c.toNat ≤ 127) (h : Buzz.base64Value c = some w) :
    ∃ v, base64Value (UInt8.ofNat c.toNat) = some v ∧ v.toNat = w := by
  have hvalue := base64Value_ofNat (Nat.lt_of_le_of_lt hc (by decide : 127 < 256))
  rw [Char.ofNat_toNat, h] at hvalue
  exact map_eq_some_iff.mp hvalue

/-! ### Main result -/

variable {content : String}

theorem validateNip44Content_padded {bs : List UInt8} (hpadded : IsPaddedBase64 content.toList)
    (hbytes : base64Bytes content.toList = some bs) :
    validateNip44Content content = .ok () ↔ 99 ≤ bs.length ∧ bs.head? = some 2 := by
  obtain ⟨hmod, digits, pad, hcs, hpad, hdigits⟩ := hpadded
  have hascii : ∀ c ∈ content.toList, c.toNat ≤ 127 := by
    intro c hc
    rw [hcs] at hc
    exact le_of_mem_padded hdigits hc
  have hcontent : content.toUTF8.data.toList = encode content.toList := utf8_eq_encode content
  have hmap := encode_ascii hascii
  have hlen : (encode content.toList).length = content.toList.length := by
    simp [hmap]
  have hcount := countPadding_encode_iff.mpr ⟨digits, hcs, hpad, hdigits⟩
  have hlength := length_base64Bytes hbytes
  have hpads : content.toList.count '=' = pad := hcs ▸ count_pad pad hdigits
  unfold validateNip44Content
  simp only [hcontent, hcount]
  rw [hlen]
  by_cases hempty : content.toList.length = 0
  · rw [if_pos hempty]
    refine iff_of_false nofun ?_
    rintro ⟨hlong, -⟩
    omega
  rw [if_neg hempty, if_neg (not_not.mpr hmod)]
  by_cases hshort : content.toList.length / 4 * 3 - pad < 99
  · rw [if_pos hshort]
    refine iff_of_false nofun ?_
    rintro ⟨hlong, -⟩
    omega
  rw [if_neg hshort, and_iff_right (by omega)]
  obtain ⟨c, d, cs, hcons⟩ : ∃ c d cs, content.toList = c :: d :: cs := by
    match content.toList, hempty, hmod with
    | [], hempty, _ => exact absurd rfl hempty
    | [_], _, hmod => simp at hmod
    | c :: d :: cs, _, _ => exact ⟨c, d, cs, rfl⟩
  rw [hcons] at hbytes hascii
  obtain ⟨w, x, hw, hx, hhead⟩ := head?_base64Bytes hbytes
  obtain ⟨v, hv, rfl⟩ := base64Value_byte (hascii c (by simp)) hw
  obtain ⟨u, hu, rfl⟩ := base64Value_byte (hascii d (by simp)) hx
  have hfirst := firstByte_eq (base64Digit_of_value hw).1 (base64Digit_of_value hx).1
  rw [hmap, hcons]
  simp only [map_cons, getElem?_cons_zero, getElem?_cons_succ, bind_some, hv,
    hu, hhead, hfirst, some.injEq]
  split
  · next hne => exact iff_of_false nofun hne
  · next heq => exact iff_of_true rfl (not_not.mp heq)

/-- **The filter is a decoder.** It accepts digits with padding, of any size and with any bits left
over, that decode to at least 99 bytes of which the first is the version. -/
theorem validateNip44Content_exact (content : String) :
    validateNip44Content content = .ok () ↔ IsPaddedBase64 content.toList ∧
      ∃ bs, base64Bytes content.toList = some bs ∧ 99 ≤ bs.length ∧ bs.head? = some 2 := by
  constructor
  · intro h
    have hpadded : IsPaddedBase64 content.toList := by
      have hcontent : content.toUTF8.data.toList = encode content.toList := utf8_eq_encode content
      unfold validateNip44Content at h
      simp only [hcontent] at h
      split at h
      · cases h
      split at h
      · cases h
      next hmod =>
      split at h
      · cases h
      next n hcount =>
      obtain ⟨digits, hcs, hn, hdigits⟩ := countPadding_encode_iff.mp hcount
      have hlen : (encode content.toList).length = content.toList.length := by
        rw [encode_ascii fun c hc => le_of_mem_padded hdigits (hcs ▸ hc), length_map]
      rw [hlen] at hmod
      exact ⟨not_not.mp hmod, digits, n, hcs, hn, hdigits⟩
    obtain ⟨bs, hbytes⟩ := isSome_base64Bytes_iff.mpr hpadded
    exact ⟨hpadded, bs, hbytes, (validateNip44Content_padded hpadded hbytes).mp h⟩
  · rintro ⟨hpadded, bs, hbytes, h⟩
    exact (validateNip44Content_padded hpadded hbytes).mpr h

/-! ### No limit, and no look at what is left over -/

/-- A canonical payload, within the size of a frame. -/
def IsCanonicalPayload (content : String) : Prop :=
  content.utf8ByteSize ≤ maxFrame ∧
    ∃ bs, base64Decode content.toList = some bs ∧ 99 ≤ bs.length ∧ bs.head? = some 2

/-- A content of version 2 that is longer than a frame. -/
def longContent : String := String.ofList ('A' :: 'g' :: replicate 4098 'A')

/-- A content of version 2 whose last digit has bits that are left over. -/
def looseContent : String := String.ofList ('A' :: 'g' :: replicate 132 'A' ++ ['B', '='])

theorem validateNip44Content_versioned {cs : List Char} (hcs : content.toList = 'A' :: 'g' :: cs)
    (hpadded : IsPaddedBase64 content.toList)
    (hlong : 99 + content.toList.count '=' ≤ content.toList.length / 4 * 3) :
    validateNip44Content content = .ok () := by
  obtain ⟨bs, hbytes⟩ := isSome_base64Bytes_iff.mpr hpadded
  have hlength := length_base64Bytes hbytes
  refine (validateNip44Content_padded hpadded hbytes).mpr ⟨by omega, ?_⟩
  rw [hcs] at hbytes
  obtain ⟨w, x, hw, hx, hhead⟩ := head?_base64Bytes hbytes
  have hA : Buzz.base64Value 'A' = some 0 := by decide
  have hg : Buzz.base64Value 'g' = some 32 := by decide
  rw [hA, some.injEq] at hw
  rw [hg, some.injEq] at hx
  rw [hhead, ← hw, ← hx]
  rfl

/-- Neither of them is a canonical payload within the size of a frame, and both are accepted. -/
theorem not_isCanonicalPayload :
    (validateNip44Content longContent = .ok () ∧ ¬ IsCanonicalPayload longContent) ∧
      validateNip44Content looseContent = .ok () ∧ looseContent.utf8ByteSize ≤ maxFrame ∧
        ¬ IsCanonicalPayload looseContent := by
  have hlong : longContent.toList = 'A' :: 'g' :: replicate 4098 'A' := String.toList_ofList
  have hloose : looseContent.toList = 'A' :: 'g' :: (replicate 132 'A' ++ ['B', '=']) :=
    String.toList_ofList
  have hlongDigits : ∀ c ∈ longContent.toList, c ∈ base64Alphabet := by
    rw [hlong]
    simp only [mem_cons, mem_replicate]
    rintro c (rfl | rfl | ⟨-, rfl⟩) <;> decide
  have hlooseDigits : ∀ c ∈ 'A' :: 'g' :: (replicate 132 'A' ++ ['B']), c ∈ base64Alphabet := by
    simp only [mem_cons, mem_append, mem_replicate, not_mem_nil, or_false]
    rintro c (rfl | rfl | ⟨-, rfl⟩ | rfl) <;> decide
  have hloosePadded : looseContent.toList =
      'A' :: 'g' :: (replicate 132 'A' ++ ['B']) ++ replicate 1 '=' := by
    rw [hloose]
    simp
  have hlongSize : longContent.utf8ByteSize = longContent.toList.length :=
    utf8ByteSize_eq_length fun c hc => le_of_mem_base64Alphabet (hlongDigits c hc)
  have hlooseSize : looseContent.utf8ByteSize = looseContent.toList.length := by
    refine utf8ByteSize_eq_length fun c hc => ?_
    rw [hloosePadded] at hc
    exact le_of_mem_padded hlooseDigits hc
  have hlongLength : longContent.toList.length = 4100 := by
    rw [hlong, length_cons, length_cons, length_replicate]
  have hlooseLength : looseContent.toList.length = 136 := by
    simp [hloose]
  have hlongCount : longContent.toList.count '=' = 0 :=
    count_eq_zero.mpr fun hmem => absurd (hlongDigits '=' hmem) pad_notMem
  have hlooseCount : looseContent.toList.count '=' = 1 := hloosePadded ▸ count_pad 1 hlooseDigits
  refine ⟨⟨validateNip44Content_versioned hlong ?_ (by omega), ?_⟩,
    validateNip44Content_versioned hloose ?_ (by omega), ?_, ?_⟩
  · exact ⟨by omega, longContent.toList, 0, (append_nil _).symm, Nat.zero_le 2, hlongDigits⟩
  · rintro ⟨hsize, -⟩
    unfold maxFrame at hsize
    omega
  · exact ⟨by omega, _, 1, hloosePadded, Nat.le_succ 1, hlooseDigits⟩
  · unfold maxFrame
    omega
  · rintro ⟨-, bs, hbytes, -⟩
    have hnone : base64Decode ('A' :: 'g' :: (replicate 132 'A' ++ ['B', '='])) = none := by
      decide +kernel
    rw [hloose, hnone] at hbytes
    cases hbytes

end Buzz.PairRelay
