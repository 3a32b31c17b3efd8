import Buzz.Lib.Json
import Buzz.Lib.Utf8

/-!
# JavaScript strings in JSON

A JavaScript string is its UTF-16 code units, paired or not. `JSON.stringify` writes a pair of
surrogates as the character it stands for and a surrogate without a partner as an escape, so what it
writes is a text.
-/

namespace Buzz

/-- A JavaScript string: its code units. -/
abbrev JsString := List UInt16

namespace JsString

def ofAscii (s : String) : JsString := s.toList.map fun c => UInt16.ofNat c.toNat

/-- The first one of a pair of surrogates. -/
def isHigh (u : UInt16) : Bool := decide (0xD800 ≤ u.toNat ∧ u.toNat < 0xDC00)

def isLow (u : UInt16) : Bool := decide (0xDC00 ≤ u.toNat ∧ u.toNat < 0xE000)

def pair (high low : UInt16) : Char :=
  Char.ofNat (0x10000 + (high.toNat - 0xD800) * 0x400 + (low.toNat - 0xDC00))

/-- A unit that is not one of a pair. -/
def quoteUnit (u : UInt16) : List Char :=
  if isHigh u || isLow u then
    ['\\', 'u', Nat.digitChar (u.toNat / 4096), Nat.digitChar (u.toNat / 256 % 16),
      Nat.digitChar (u.toNat / 16 % 16), Nat.digitChar (u.toNat % 16)]
  else Json.escapeChar (Char.ofNat u.toNat)

def quoteUnits : JsString → List Char
  | [] => []
  | [u] => quoteUnit u
  | u :: v :: rest =>
    if isHigh u && isLow v then pair u v :: quoteUnits rest
    else quoteUnit u ++ quoteUnits (v :: rest)

/-- `JSON.stringify` of a string. -/
def quote (s : JsString) : List Char := '"' :: (quoteUnits s ++ ['"'])

/-- A unit that is written as it is, in one byte. -/
def isPlain (u : UInt16) : Bool :=
  decide (32 ≤ u.toNat ∧ u.toNat < 128) && u != 34 && u != 92

theorem one_le_quoteUnit (u : UInt16) : 1 ≤ utf8Length (quoteUnit u) := by
  have hle := length_le_utf8Length (quoteUnit u)
  have hpos : 1 ≤ (quoteUnit u).length := by
    unfold quoteUnit Json.escapeChar
    repeat' split
    all_goals exact Nat.succ_le_succ (Nat.zero_le _)
  exact hpos.trans hle

theorem two_le_pair {u v : UInt16} (hu : isHigh u = true) (hv : isLow v = true) :
    2 ≤ (pair u v).utf8Size := by
  rw [isHigh, decide_eq_true_eq] at hu
  rw [isLow, decide_eq_true_eq] at hv
  refine two_le_utf8Size ?_
  rw [pair, toNat_ofNat_of_valid]
  · omega
  · exact .inr (by omega)

theorem length_le_quoteUnits (s : JsString) : s.length ≤ utf8Length (quoteUnits s) := by
  induction s using quoteUnits.induct with
  | case1 => exact Nat.zero_le _
  | case2 u => exact one_le_quoteUnit u
  | case3 u v rest hpair ih =>
    have hboth := Bool.and_eq_true_iff.mp hpair
    rw [quoteUnits, if_pos hpair, utf8Length_cons]
    have htwo := two_le_pair hboth.1 hboth.2
    simp only [List.length_cons]
    omega
  | case4 u v rest hpair ih =>
    rw [quoteUnits, if_neg hpair, utf8Length_append]
    have hone := one_le_quoteUnit u
    simp only [List.length_cons] at ih ⊢
    omega

theorem utf8Length_quote (s : JsString) : utf8Length (quote s) = utf8Length (quoteUnits s) + 2 := by
  have hquote : Char.utf8Size '"' = 1 := utf8Size_ascii (by decide)
  rw [quote, utf8Length_cons, utf8Length_append, utf8Length_cons, utf8Length_nil, hquote]
  omega

/-- **A string in JSON has a byte for each unit, at least.** -/
theorem length_add_two_le_quote (s : JsString) : s.length + 2 ≤ utf8Length (quote s) := by
  rw [utf8Length_quote]
  exact Nat.add_le_add_right (length_le_quoteUnits s) 2

theorem quoteUnit_of_plain {u : UInt16} (h : isPlain u = true) :
    utf8Length (quoteUnit u) = 1 ∧ isHigh u = false := by
  simp only [isPlain, Bool.and_eq_true, decide_eq_true_eq, bne_iff_ne, ne_eq] at h
  obtain ⟨⟨⟨hlow, hhigh⟩, hquote⟩, hback⟩ := h
  have hnat : (Char.ofNat u.toNat).toNat = u.toNat := toNat_ofNat_of_valid (.inl (by omega))
  have hnoHigh : isHigh u = false := decide_eq_false (by omega)
  have hnoLow : isLow u = false := decide_eq_false (by omega)
  have hne : ∀ c : Char, c.toNat ≠ u.toNat → Char.ofNat u.toNat ≠ c := by
    rintro c hc rfl
    exact hc hnat
  have hcontrol : ∀ c : Char, c.toNat < 32 → Char.ofNat u.toNat ≠ c := fun c hc =>
    hne c (Nat.ne_of_lt (hc.trans_le hlow))
  have hquote' : Char.ofNat u.toNat ≠ '"' := hne _ fun heq => hquote (UInt16.toNat_inj.mp heq.symm)
  have hback' : Char.ofNat u.toNat ≠ '\\' := hne _ fun heq => hback (UInt16.toNat_inj.mp heq.symm)
  refine ⟨?_, hnoHigh⟩
  rw [quoteUnit, hnoHigh, hnoLow, Bool.or_false, if_neg Bool.false_ne_true, Json.escapeChar,
    if_neg hquote', if_neg hback', if_neg (hcontrol _ (by decide)),
    if_neg (hcontrol _ (by decide)), if_neg (hcontrol _ (by decide)),
    if_neg (hcontrol _ (by decide)), if_neg (hcontrol _ (by decide)), if_neg (by omega),
    utf8Length_cons, utf8Size_ascii (by omega), utf8Length_nil]

/-- **And no more than that where nothing is escaped.** -/
theorem utf8Length_quote_of_plain {s : JsString} (h : s.all isPlain = true) :
    utf8Length (quote s) = s.length + 2 := by
  rw [utf8Length_quote]
  refine congrArg (· + 2) ?_
  induction s using quoteUnits.induct with
  | case1 => rfl
  | case2 u =>
    rw [List.all_cons, List.all_nil, Bool.and_true] at h
    exact (quoteUnit_of_plain h).1
  | case3 u v rest hpair _ =>
    rw [List.all_cons, Bool.and_eq_true] at h
    rw [(quoteUnit_of_plain h.1).2, Bool.false_and] at hpair
    nomatch hpair
  | case4 u v rest hpair ih =>
    rw [List.all_cons, Bool.and_eq_true] at h
    rw [quoteUnits, if_neg hpair, utf8Length_append, (quoteUnit_of_plain h.1).1, ih h.2,
      Nat.add_comm]
    rfl

end JsString

end Buzz
