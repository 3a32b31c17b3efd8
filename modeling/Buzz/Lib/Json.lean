import Mathlib.Data.List.Infix
import Mathlib.Data.String.Basic

/-!
# JSON values and their compact text

The values of a JSON document and the text a compact serializer writes for them: no whitespace,
object members in the given order, strings escaped with the two-character escapes where there is
one and with `\\u00xx` for the remaining control characters.

Numbers are kept as the token that is written. What token a number is written with is the
serializer's business, and two tokens of one number are two different texts. For the accessors, a
number is an integer when its token is the decimal form of one; it is in the range of a machine type
or it is not there.
-/

namespace Buzz

open List

def isNumChar (c : Char) : Bool :=
  c.isDigit || c == '-' || c == '+' || c == '.' || c == 'e' || c == 'E'

/-- A number token: it starts with a digit or a minus sign. -/
structure NumToken where
  chars : List Char
  starts : ∃ c cs, chars = c :: cs ∧ (c.isDigit = true ∨ c = '-')
  numeric : ∀ c ∈ chars, isNumChar c = true

theorem NumToken.ext {m n : NumToken} (h : m.chars = n.chars) : m = n := by
  cases m; cases n; congr

instance : DecidableEq NumToken := fun m n =>
  decidable_of_iff (m.chars = n.chars) ⟨NumToken.ext, fun h => h ▸ rfl⟩

theorem isDigit_of_mem_toDigits {n : Nat} {c : Char} (h : c ∈ Nat.toDigits 10 n) :
    c.isDigit = true := Nat.isDigit_of_mem_toDigits (by decide) (by decide) h

/-- The token of a natural number. -/
def NumToken.ofNat (n : Nat) : NumToken where
  chars := Nat.toDigits 10 n
  starts := by
    cases h : Nat.toDigits 10 n with
    | nil => exact absurd h Nat.toDigits_ne_nil
    | cons c cs => exact ⟨c, cs, rfl, Or.inl (isDigit_of_mem_toDigits (h ▸ mem_cons_self ..))⟩
  numeric c hc := by simp [isNumChar, isDigit_of_mem_toDigits hc]

theorem NumToken.ofNat_injective : Function.Injective NumToken.ofNat := by
  intro m n h
  have hchars : Nat.toDigits 10 m = Nat.toDigits 10 n := congrArg NumToken.chars h
  rw [← Nat.ofDigitChars_ten_toDigits (n := m), hchars, Nat.ofDigitChars_ten_toDigits]

/-- A JSON document, its numbers as they are written. -/
inductive Json where
  | null
  | bool (b : Bool)
  | num (n : NumToken)
  | str (s : String)
  | arr (xs : List Json)
  | obj (members : List (String × Json))

namespace Json

/-! ### Strings -/

/-- One character of a string literal. -/
def escapeChar (c : Char) : List Char :=
  if c = '"' then ['\\', '"']
  else if c = '\\' then ['\\', '\\']
  else if c = '\x08' then ['\\', 'b']
  else if c = '\t' then ['\\', 't']
  else if c = '\n' then ['\\', 'n']
  else if c = '\x0c' then ['\\', 'f']
  else if c = '\r' then ['\\', 'r']
  else if c.toNat < 32 then
    ['\\', 'u', '0', '0', Nat.digitChar (c.toNat / 16), Nat.digitChar (c.toNat % 16)]
  else [c]

def hexValue (c : Char) : Nat :=
  if c.isDigit then c.toNat - 48 else c.toNat - 87

/-- Read one character of a string literal back; `none` at the closing quote. -/
def readChar : List Char → Option (Char × List Char)
  | '\\' :: 'b' :: r => some ('\x08', r)
  | '\\' :: 't' :: r => some ('\t', r)
  | '\\' :: 'n' :: r => some ('\n', r)
  | '\\' :: 'f' :: r => some ('\x0c', r)
  | '\\' :: 'r' :: r => some ('\r', r)
  | '\\' :: 'u' :: '0' :: '0' :: a :: b :: r =>
    some (Char.ofNat (16 * hexValue a + hexValue b), r)
  | '\\' :: c :: r => some (c, r)
  | '"' :: _ => none
  | c :: r => some (c, r)
  | [] => none

theorem hexValue_digitChar {d : Nat} (h : d < 16) : hexValue (Nat.digitChar d) = d := by
  have : ∀ d, d < 16 → hexValue (Nat.digitChar d) = d := by decide
  exact this d h

theorem readChar_escapeChar (c : Char) (r : List Char) :
    readChar (escapeChar c ++ r) = some (c, r) := by
  unfold escapeChar
  split
  · next h => rw [h]; rfl
  split
  · next h => rw [h]; rfl
  split
  · next h => rw [h]; rfl
  split
  · next h => rw [h]; rfl
  split
  · next h => rw [h]; rfl
  split
  · next h => rw [h]; rfl
  split
  · next h => rw [h]; rfl
  split
  · next h =>
    have hvalue : 16 * (c.toNat / 16) + c.toNat % 16 = c.toNat := by omega
    simp [readChar, hexValue_digitChar (show c.toNat / 16 < 16 by omega),
      hexValue_digitChar (show c.toNat % 16 < 16 by omega), hvalue, Char.ofNat_toNat]
  · next hquote hback _ _ _ _ _ _ =>
    rw [singleton_append]
    unfold readChar
    split <;> simp_all

def renderStr (s : String) : List Char := '"' :: (s.toList.flatMap escapeChar ++ ['"'])

variable {r r' : List Char}

theorem escaped_append_inj {cs ds : List Char}
    (h : cs.flatMap escapeChar ++ '"' :: r = ds.flatMap escapeChar ++ '"' :: r') :
    cs = ds ∧ r = r' := by
  induction cs generalizing ds with
  | nil =>
    cases ds with
    | nil => exact ⟨rfl, (cons.inj h).2⟩
    | cons d ds =>
      have hread := congrArg readChar h
      rw [flatMap_cons, append_assoc, readChar_escapeChar] at hread
      simp [readChar] at hread
  | cons c cs ih =>
    have hread := congrArg readChar h
    rw [flatMap_cons, append_assoc, readChar_escapeChar] at hread
    cases ds with
    | nil => simp [readChar] at hread
    | cons d ds =>
      rw [flatMap_cons, append_assoc, readChar_escapeChar, Option.some.injEq,
        Prod.mk.injEq] at hread
      obtain ⟨rfl, hrest⟩ := hread
      obtain ⟨rfl, hr⟩ := ih hrest
      exact ⟨rfl, hr⟩

theorem renderStr_append_inj {s t : String} (h : renderStr s ++ r = renderStr t ++ r') :
    s = t ∧ r = r' := by
  simp only [renderStr, cons_append, append_assoc, nil_append,
    cons.injEq, true_and] at h
  obtain ⟨hs, hr⟩ := escaped_append_inj h
  exact ⟨String.ext hs, hr⟩

/-! ### Values -/

mutual

def render : Json → List Char
  | null => ['n', 'u', 'l', 'l']
  | bool true => ['t', 'r', 'u', 'e']
  | bool false => ['f', 'a', 'l', 's', 'e']
  | num n => n.chars
  | str s => renderStr s
  | arr [] => ['[', ']']
  | arr (x :: xs) => '[' :: (render x ++ renderElems xs)
  | obj [] => ['{', '}']
  | obj ((k, v) :: ms) => '{' :: (renderStr k ++ ':' :: (render v ++ renderMembers ms))

/-- The elements after the first, and the closing bracket. -/
def renderElems : List Json → List Char
  | [] => [']']
  | x :: xs => ',' :: (render x ++ renderElems xs)

/-- The members after the first, and the closing brace. -/
def renderMembers : List (String × Json) → List Char
  | [] => ['}']
  | (k, v) :: ms => ',' :: (renderStr k ++ ':' :: (render v ++ renderMembers ms))

end

/-- Text that cannot continue a number. -/
def Follows (r : List Char) : Prop := ∀ c ∈ r.head?, isNumChar c = false

theorem follows_renderElems (xs : List Json) (r : List Char) : Follows (renderElems xs ++ r) := by
  cases xs <;> simp [Follows, renderElems, isNumChar]

theorem follows_renderMembers (ms : List (String × Json)) (r : List Char) :
    Follows (renderMembers ms ++ r) := by
  cases ms <;> simp [Follows, renderMembers, isNumChar]

theorem numeric_append_inj {m n : List Char} (hm : ∀ c ∈ m, isNumChar c = true)
    (hn : ∀ c ∈ n, isNumChar c = true) (hr : Follows r) (hr' : Follows r') (h : m ++ r = n ++ r') :
    m = n ∧ r = r' := by
  induction m generalizing n with
  | nil =>
    cases n with
    | nil => exact ⟨rfl, h⟩
    | cons c n =>
      have := hr c (by rw [show r = c :: (n ++ r') from h]; rfl)
      simp [hn c (mem_cons_self ..)] at this
  | cons c m ih =>
    cases n with
    | nil =>
      have := hr' c (by rw [show r' = c :: (m ++ r) from h.symm]; rfl)
      simp [hm c (mem_cons_self ..)] at this
    | cons d n =>
      obtain ⟨hhead, htail⟩ := cons.inj h
      obtain ⟨hchars, hrest⟩ := ih (fun c hc => hm c (mem_cons_of_mem _ hc))
        (fun c hc => hn c (mem_cons_of_mem _ hc)) htail
      exact ⟨by rw [hhead, hchars], hrest⟩

/-- The sort of a value: each has its own first characters. -/
def kind : Json → Nat
  | null => 0
  | bool true => 1
  | bool false => 2
  | str _ => 3
  | arr _ => 4
  | obj _ => 5
  | num _ => 6

/-- The sort of the value that starts with `c`, and 7 when no value does. -/
def leadKind (c : Char) : Nat :=
  if c = 'n' then 0 else if c = 't' then 1 else if c = 'f' then 2 else if c = '"' then 3
  else if c = '[' then 4 else if c = '{' then 5 else if isNumChar c then 6 else 7

theorem render_eq_cons (v : Json) : ∃ c cs, v.render = c :: cs ∧ leadKind c = v.kind := by
  cases v with
  | null => exact ⟨_, _, by rw [render], rfl⟩
  | bool b => cases b <;> exact ⟨_, _, by rw [render], rfl⟩
  | num n =>
    obtain ⟨c, cs, hc, hstart⟩ := n.starts
    refine ⟨c, cs, by rw [render, hc], ?_⟩
    rcases hstart with hd | rfl
    · have : ∀ d : Char, d.isDigit = false → c ≠ d := by rintro d hd' rfl; simp [hd] at hd'
      simp [leadKind, kind, isNumChar, hd, this 'n' rfl, this 't' rfl, this 'f' rfl,
        this '"' rfl, this '[' rfl, this '{' rfl]
    · rfl
  | str s => exact ⟨_, _, by rw [render, renderStr], rfl⟩
  | arr xs => cases xs <;> exact ⟨_, _, by rw [render], rfl⟩
  | obj ms => cases ms <;> exact ⟨_, _, by rw [render], rfl⟩

theorem kind_eq_of_render_append {v w : Json} (h : v.render ++ r = w.render ++ r') :
    v.kind = w.kind := by
  obtain ⟨c, cs, hv, hc⟩ := v.render_eq_cons
  obtain ⟨d, ds, hw, hd⟩ := w.render_eq_cons
  rw [hv, hw] at h
  rw [← hc, ← hd, (cons.inj h).1]

theorem render_append_ne_close (v : Json) (r r' : List Char) : v.render ++ r ≠ ']' :: r' := by
  intro h
  obtain ⟨c, cs, hv, hc⟩ := v.render_eq_cons
  rw [hv] at h
  obtain rfl := (cons.inj h).1
  have hclose : leadKind ']' = 7 := by decide
  rw [hclose] at hc
  cases v with
  | bool b => cases b <;> simp [kind] at hc
  | _ => simp [kind] at hc

mutual

/-- **Unique readability.** A value followed by text that cannot continue a number is read back in
one way only. -/
theorem render_append_inj (v w : Json) {r r' : List Char} (hr : Follows r) (hr' : Follows r')
    (h : v.render ++ r = w.render ++ r') : v = w ∧ r = r' := by
  have hkind := kind_eq_of_render_append h
  cases v with
  | null =>
    cases w with
    | null => exact ⟨rfl, append_cancel_left h⟩
    | bool b => cases b <;> simp [kind] at hkind
    | _ => simp [kind] at hkind
  | bool b =>
    cases w with
    | bool c =>
      obtain rfl : b = c := by cases b <;> cases c <;> simp [kind] at hkind ⊢
      exact ⟨rfl, append_cancel_left h⟩
    | _ => cases b <;> simp [kind] at hkind
  | num m =>
    cases w with
    | num n =>
      rw [render, render] at h
      obtain ⟨hchars, hrest⟩ := numeric_append_inj m.numeric n.numeric hr hr' h
      exact ⟨by rw [NumToken.ext hchars], hrest⟩
    | bool b => cases b <;> simp [kind] at hkind
    | _ => simp [kind] at hkind
  | str s =>
    cases w with
    | str t =>
      rw [render, render] at h
      obtain ⟨rfl, hrest⟩ := renderStr_append_inj h
      exact ⟨rfl, hrest⟩
    | bool b => cases b <;> simp [kind] at hkind
    | _ => simp [kind] at hkind
  | arr xs =>
    cases w with
    | arr ys =>
      cases xs with
      | nil =>
        cases ys with
        | nil => exact ⟨rfl, append_cancel_left h⟩
        | cons y ys =>
          simp only [render, cons_append, nil_append, append_assoc,
            cons.injEq, true_and] at h
          exact absurd h.symm (render_append_ne_close _ _ _)
      | cons x xs =>
        cases ys with
        | nil =>
          simp only [render, cons_append, nil_append, append_assoc,
            cons.injEq, true_and] at h
          exact absurd h (render_append_ne_close _ _ _)
        | cons y ys =>
          simp only [render, cons_append, append_assoc, cons.injEq, true_and] at h
          obtain ⟨rfl, hrest⟩ := render_append_inj x y (follows_renderElems _ _)
            (follows_renderElems _ _) h
          obtain ⟨rfl, hr⟩ := renderElems_append_inj xs ys hrest
          exact ⟨rfl, hr⟩
    | bool b => cases b <;> simp [kind] at hkind
    | _ => simp [kind] at hkind
  | obj ms =>
    cases w with
    | obj ns =>
      cases ms with
      | nil =>
        cases ns with
        | nil => exact ⟨rfl, append_cancel_left h⟩
        | cons n ns => simp [render, renderStr] at h
      | cons m ms =>
        obtain ⟨k, v⟩ := m
        cases ns with
        | nil => simp [render, renderStr] at h
        | cons n ns =>
          obtain ⟨l, w⟩ := n
          simp only [render, cons_append, append_assoc, cons.injEq, true_and] at h
          obtain ⟨rfl, hvalue⟩ := renderStr_append_inj h
          obtain ⟨rfl, hrest⟩ := render_append_inj v w (follows_renderMembers _ _)
            (follows_renderMembers _ _) (cons.inj hvalue).2
          obtain ⟨rfl, hr⟩ := renderMembers_append_inj ms ns hrest
          exact ⟨rfl, hr⟩
    | bool b => cases b <;> simp [kind] at hkind
    | _ => simp [kind] at hkind

theorem renderElems_append_inj (xs ys : List Json) {r r' : List Char}
    (h : renderElems xs ++ r = renderElems ys ++ r') : xs = ys ∧ r = r' := by
  cases xs with
  | nil =>
    cases ys with
    | nil => exact ⟨rfl, append_cancel_left h⟩
    | cons y ys => simp [renderElems] at h
  | cons x xs =>
    cases ys with
    | nil => simp [renderElems] at h
    | cons y ys =>
      simp only [renderElems, cons_append, append_assoc, cons.injEq, true_and] at h
      obtain ⟨rfl, hrest⟩ := render_append_inj x y (follows_renderElems _ _)
        (follows_renderElems _ _) h
      obtain ⟨rfl, hr⟩ := renderElems_append_inj xs ys hrest
      exact ⟨rfl, hr⟩

theorem renderMembers_append_inj (ms ns : List (String × Json)) {r r' : List Char}
    (h : renderMembers ms ++ r = renderMembers ns ++ r') : ms = ns ∧ r = r' := by
  cases ms with
  | nil =>
    cases ns with
    | nil => exact ⟨rfl, append_cancel_left h⟩
    | cons n ns => simp [renderMembers] at h
  | cons m ms =>
    cases ns with
    | nil => simp [renderMembers] at h
    | cons n ns =>
      obtain ⟨k, v⟩ := m
      obtain ⟨l, w⟩ := n
      simp only [renderMembers, cons_append, append_assoc, cons.injEq,
        true_and] at h
      obtain ⟨rfl, hvalue⟩ := renderStr_append_inj h
      obtain ⟨rfl, hrest⟩ := render_append_inj v w (follows_renderMembers _ _)
        (follows_renderMembers _ _) (cons.inj hvalue).2
      obtain ⟨rfl, hr⟩ := renderMembers_append_inj ms ns hrest
      exact ⟨rfl, hr⟩

end

theorem render_injective : Function.Injective render := by
  intro v w h
  have hnil : Follows [] := by simp [Follows]
  exact (render_append_inj v w hnil hnil (by rw [h])).1

instance : DecidableEq Json := fun v w =>
  decidable_of_iff (v.render = w.render) render_injective.eq_iff

end Json

/-! ### Looking into values -/

def NumToken.ofInt : Int → NumToken
  | .ofNat n => NumToken.ofNat n
  | .negSucc n =>
    { chars := '-' :: Nat.toDigits 10 (n + 1)
      starts := ⟨'-', _, rfl, .inr rfl⟩
      numeric := by
        intro c hc
        rcases mem_cons.mp hc with rfl | hc
        · rfl
        · simp [isNumChar, isDigit_of_mem_toDigits hc] }

/-- The natural number whose decimal form this is. -/
def natOfDigits (chars : List Char) : Option Nat :=
  let n := Nat.ofDigitChars 10 chars 0
  if Nat.toDigits 10 n = chars then some n else none

theorem natOfDigits_toDigits (n : Nat) : natOfDigits (Nat.toDigits 10 n) = some n := by
  simp [natOfDigits, Nat.ofDigitChars_ten_toDigits]

/-- The integer whose decimal form the token is. -/
def NumToken.toInt (token : NumToken) : Option Int :=
  match token.chars with
  | '-' :: digits => (natOfDigits digits).bind fun n => if n = 0 then none else some (-n)
  | digits => (natOfDigits digits).map Int.ofNat

theorem NumToken.toInt_ofInt (i : Int) : (NumToken.ofInt i).toInt = some i := by
  cases i with
  | ofNat n =>
    have hhead : ∀ ds, Nat.toDigits 10 n ≠ '-' :: ds := fun ds h => by
      have hdigit := isDigit_of_mem_toDigits (h ▸ mem_cons_self : '-' ∈ Nat.toDigits 10 n)
      exact absurd hdigit (by decide)
    have hchars : (NumToken.ofInt (.ofNat n)).chars = Nat.toDigits 10 n := rfl
    unfold NumToken.toInt
    split
    · next ds h => exact absurd (hchars.symm.trans h) (hhead ds)
    · rw [hchars, natOfDigits_toDigits]
      rfl
  | negSucc n =>
    have hchars : (NumToken.ofInt (.negSucc n)).chars = '-' :: Nat.toDigits 10 (n + 1) := rfl
    unfold NumToken.toInt
    simp only [hchars]
    rw [natOfDigits_toDigits, Option.bind_some, if_neg (Nat.succ_ne_zero n)]
    rfl

namespace Json

/-- `Value::as_str`. -/
def asStr : Json → Option String
  | .str s => some s
  | _ => none

/-- `Value::as_array`. -/
def asArray : Json → Option (List Json)
  | .arr xs => some xs
  | _ => none

/-- `Value::as_object`. -/
def asObject : Json → Option (List (String × Json))
  | .obj members => some members
  | _ => none

/-- `Value::as_i64`. -/
def asI64 : Json → Option Int
  | .num token => token.toInt.filter fun i =>
    decide (-9223372036854775808 ≤ i) && decide (i ≤ 9223372036854775807)
  | _ => none

/-- `Value::as_u64`. -/
def asU64 : Json → Option Nat
  | .num token =>
    (token.toInt.filter fun i => decide (0 ≤ i) && decide (i ≤ 18446744073709551615)).map Int.toNat
  | _ => none

def member (members : List (String × Json)) (key : String) : Option Json :=
  (members.find? fun m => m.1 == key).map Prod.snd

end Json

end Buzz
