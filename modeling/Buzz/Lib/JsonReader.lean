import Buzz.Lib.Bytes
import Buzz.Lib.Json

/-!
# Reading JSON

What a JSON library does with a text is a parameter of the models that read one. What they rely on
is that it reads back the compact text of a value: of values with strings, natural numbers and
nested lists and objects up to the depth where libraries stop.

A reader of compact texts is defined here. It reads back what the serializer writes and nothing else
that has whitespace, fractions or other escapes.
-/

namespace Buzz

open List Option

namespace Json

/-! ### Compact texts -/

/-- The characters of a string literal, after its opening quote. -/
def readString : Nat → List Char → Option (List Char × List Char)
  | 0, _ => none
  | n + 1, cs =>
    match readChar cs with
    | some (c, r) => (readString n r).map fun p => (c :: p.1, p.2)
    | none => if cs.head? = some '"' then some ([], cs.tail) else none

/-- The token with these characters, if they are one. -/
def numToken : List Char → Option NumToken
  | [] => none
  | c :: cs =>
    -- Only the characters of the token are tested, not all there are.
    haveI : Decidable (∀ d ∈ c :: cs, isNumChar d = true) := decidableBAll _ _
    if h : (c.isDigit = true ∨ c = '-') ∧ ∀ d ∈ c :: cs, isNumChar d = true then
      some ⟨c :: cs, ⟨c, cs, rfl, h.1⟩, h.2⟩
    else none

mutual

/-- A value, and what follows it; the number bounds the length of the text. -/
def read : Nat → List Char → Option (Json × List Char)
  | 0, _ => none
  | _, [] => none
  | n + 1, c :: cs =>
    match leadKind c with
    | 0 => (cs.dropPrefix? ['u', 'l', 'l']).map fun r => (null, r)
    | 1 => (cs.dropPrefix? ['r', 'u', 'e']).map fun r => (bool true, r)
    | 2 => (cs.dropPrefix? ['a', 'l', 's', 'e']).map fun r => (bool false, r)
    | 3 => (readString n cs).map fun p => (str (String.ofList p.1), p.2)
    | 4 =>
      if cs.head? = some ']' then some (arr [], cs.tail)
      else
        (read n cs).bind fun (x, r) =>
          (readElems n r).map fun (xs, r) => (arr (x :: xs), r)
    | 5 =>
      if cs.head? = some '}' then some (obj [], cs.tail)
      else
        (readMember n cs).bind fun (m, r) =>
          (readMembers n r).map fun (ms, r) => (obj (m :: ms), r)
    | 6 => (numToken ((c :: cs).takeWhile isNumChar)).map fun token =>
        (num token, (c :: cs).dropWhile isNumChar)
    | _ => none

/-- The elements after the first, and the closing bracket. -/
def readElems : Nat → List Char → Option (List Json × List Char)
  | 0, _ => none
  | _, [] => none
  | n + 1, c :: cs =>
    if c = ']' then some ([], cs)
    else if c = ',' then
      (read n cs).bind fun (x, r) => (readElems n r).map fun (xs, r) => (x :: xs, r)
    else none

def readMember : Nat → List Char → Option ((String × Json) × List Char)
  | 0, _ => none
  | _, [] => none
  | n + 1, c :: cs =>
    if c = '"' then
      (readString n cs).bind fun (k, r) =>
        if r.head? = some ':' then (read n r.tail).map fun (v, r) => ((String.ofList k, v), r)
        else none
    else none

/-- The members after the first, and the closing brace. -/
def readMembers : Nat → List Char → Option (List (String × Json) × List Char)
  | 0, _ => none
  | _, [] => none
  | n + 1, c :: cs =>
    if c = '}' then some ([], cs)
    else if c = ',' then
      (readMember n cs).bind fun (m, r) => (readMembers n r).map fun (ms, r) => (m :: ms, r)
    else none

end

theorem readString_flatMap {n : Nat} {cs : List Char} (h : cs.length < n) (r : List Char) :
    readString n (cs.flatMap escapeChar ++ '"' :: r) = some (cs, r) := by
  induction cs generalizing n with
  | nil =>
    obtain ⟨n, rfl⟩ := Nat.exists_eq_succ_of_ne_zero (Nat.ne_zero_of_lt h)
    rfl
  | cons c cs ih =>
    obtain ⟨n, rfl⟩ := Nat.exists_eq_succ_of_ne_zero (Nat.ne_zero_of_lt h)
    rw [flatMap_cons, append_assoc, readString, readChar_escapeChar]
    simp [ih (Nat.lt_of_succ_lt_succ h)]

theorem length_le_flatMap_escapeChar (cs : List Char) :
    cs.length ≤ (cs.flatMap escapeChar).length := by
  induction cs with
  | nil => simp
  | cons c cs ih =>
    have hpos : 0 < (escapeChar c).length := by
      unfold escapeChar
      split_ifs <;> simp
    rw [flatMap_cons, length_append, length_cons]
    omega

theorem readString_renderStr {n : Nat} {s : String} {r : List Char}
    (h : (renderStr s ++ r).length < n) :
    ∃ cs, renderStr s ++ r = '"' :: cs ∧ cs.length + 1 < n ∧
      ∀ m, cs.length ≤ m → readString m cs = some (s.toList, r) := by
  refine ⟨s.toList.flatMap escapeChar ++ '"' :: r, by simp [renderStr], ?_, fun m hm => ?_⟩
  · simp [renderStr] at h ⊢
    omega
  · refine readString_flatMap ?_ r
    have hle := length_le_flatMap_escapeChar s.toList
    rw [length_append, length_cons] at hm
    omega

theorem numToken_chars (token : NumToken) : numToken token.chars = some token := by
  obtain ⟨c, cs, hchars, hstart⟩ := token.starts
  have hnumeric := token.numeric
  rw [hchars] at hnumeric
  rw [hchars, numToken, dif_pos ⟨hstart, hnumeric⟩]
  exact congrArg some (NumToken.ext hchars.symm)

theorem span_numeric {token r : List Char} (h : ∀ c ∈ token, isNumChar c = true) (hr : Follows r) :
    (token ++ r).takeWhile isNumChar = token ∧ (token ++ r).dropWhile isNumChar = r := by
  induction token with
  | nil =>
    cases r with
    | nil => exact ⟨rfl, rfl⟩
    | cons c r =>
      have hc : isNumChar c = false := hr c rfl
      simp [hc]
  | cons c token ih =>
    have hc := h c mem_cons_self
    have hrest := ih fun d hd => h d (mem_cons_of_mem c hd)
    simp [hc, hrest.1, hrest.2]

theorem dropPrefix?_append_self (pre r : List Char) : (pre ++ r).dropPrefix? pre = some r :=
  dropPrefix?_eq_some_iff.mpr ⟨pre, rfl, by simp⟩

theorem readMember_of_read {k : String} {v : Json} {n : Nat} {r : List Char}
    (hread : ∀ m, (v.render ++ r).length < m → read m (v.render ++ r) = some (v, r))
    (hn : (renderStr k ++ ':' :: (v.render ++ r)).length < n) :
    readMember n (renderStr k ++ ':' :: (v.render ++ r)) = some ((k, v), r) := by
  obtain ⟨cs, hcs, hlen, hkey⟩ := readString_renderStr hn
  obtain ⟨n, rfl⟩ := Nat.exists_eq_succ_of_ne_zero (Nat.ne_zero_of_lt hn)
  have hvalue : (v.render ++ r).length < n := by
    simp only [renderStr, cons_append, length_cons, length_append] at hn ⊢
    omega
  simp [hcs, readMember, hkey n (by omega), tail_cons, hread n hvalue, String.ofList_toList]

mutual

/-- **What is written is read back.** -/
theorem read_render (v : Json) {n : Nat} {r : List Char} (hn : (v.render ++ r).length < n)
    (hr : Follows r) : read n (v.render ++ r) = some (v, r) := by
  obtain ⟨n, rfl⟩ := Nat.exists_eq_succ_of_ne_zero (Nat.ne_zero_of_lt hn)
  cases v with
  | null =>
    have hkind : leadKind 'n' = 0 := by decide
    rw [render, cons_append, read, hkind]
    simp only
    rw [dropPrefix?_append_self, map_some]
  | bool b =>
    cases b with
    | true =>
      have hkind : leadKind 't' = 1 := by decide
      rw [render, cons_append, read, hkind]
      simp only
      rw [dropPrefix?_append_self, map_some]
    | false =>
      have hkind : leadKind 'f' = 2 := by decide
      rw [render, cons_append, read, hkind]
      simp only
      rw [dropPrefix?_append_self, map_some]
  | num token =>
    obtain ⟨c, cs, hchars, hkind⟩ := render_eq_cons (num token)
    have hspan := span_numeric token.numeric hr
    rw [render] at hchars ⊢
    rw [hchars, cons_append, read, hkind]
    simp only [kind]
    rw [← cons_append, ← hchars, hspan.1, hspan.2, numToken_chars, map_some]
  | str s =>
    have hkind : leadKind '"' = 3 := by decide
    rw [render] at hn ⊢
    obtain ⟨cs, hcs, hlen, hread⟩ := readString_renderStr hn
    rw [hcs, read, hkind]
    simp [hread n (by omega), String.ofList_toList]
  | arr xs =>
    have hkind : leadKind '[' = 4 := by decide
    cases xs with
    | nil =>
      rw [render, cons_append, read, hkind]
      rfl
    | cons x xs =>
      simp only [render, cons_append, append_assoc, length_cons] at hn ⊢
      have hclose : (x.render ++ (renderElems xs ++ r)).head? ≠ some ']' := by
        intro h
        obtain ⟨cs, hcs⟩ := head?_eq_some_iff.mp h
        exact render_append_ne_close x _ cs hcs
      have hlen := hn
      rw [length_append] at hlen
      rw [read, hkind]
      rw [if_neg hclose, read_render x (by omega) (follows_renderElems xs r), bind_some]
      simp only
      rw [readElems_render xs (by omega), map_some]
  | obj ms =>
    have hkind : leadKind '{' = 5 := by decide
    cases ms with
    | nil =>
      rw [render, cons_append, read, hkind]
      rfl
    | cons m ms =>
      obtain ⟨k, v⟩ := m
      simp only [render, cons_append, append_assoc, length_cons] at hn ⊢
      have hlen := hn
      simp only [length_append, length_cons] at hlen
      have hclose : (renderStr k ++ ':' :: (v.render ++ (renderMembers ms ++ r))).head? ≠
          some '}' := by simp [renderStr]
      have hmember := readMember_of_read (k := k) (n := n)
        (fun m hm => read_render v hm (follows_renderMembers ms r)) (by omega)
      rw [read, hkind]
      rw [if_neg hclose, hmember, bind_some]
      simp only
      rw [readMembers_render ms (by simp only [length_append]; omega), map_some]

theorem readElems_render (xs : List Json) {n : Nat} {r : List Char}
    (hn : (renderElems xs ++ r).length < n) : readElems n (renderElems xs ++ r) = some (xs, r) := by
  obtain ⟨n, rfl⟩ := Nat.exists_eq_succ_of_ne_zero (Nat.ne_zero_of_lt hn)
  cases xs with
  | nil => rw [renderElems, cons_append, readElems, if_pos rfl, nil_append]
  | cons x xs =>
    simp only [renderElems, cons_append, append_assoc, length_cons] at hn ⊢
    have hlen := hn
    rw [length_append] at hlen
    rw [readElems, if_neg (by decide), if_pos rfl,
      read_render x (by omega) (follows_renderElems xs r), bind_some]
    simp only
    rw [readElems_render xs (by omega), map_some]

theorem readMembers_render (ms : List (String × Json)) {n : Nat} {r : List Char}
    (hn : (renderMembers ms ++ r).length < n) :
    readMembers n (renderMembers ms ++ r) = some (ms, r) := by
  obtain ⟨n, rfl⟩ := Nat.exists_eq_succ_of_ne_zero (Nat.ne_zero_of_lt hn)
  cases ms with
  | nil => rw [renderMembers, cons_append, readMembers, if_pos rfl, nil_append]
  | cons m ms =>
    obtain ⟨k, v⟩ := m
    simp only [renderMembers, cons_append, append_assoc, length_cons] at hn ⊢
    have hlen := hn
    simp only [length_append, length_cons] at hlen
    have hmember := readMember_of_read (k := k) (n := n)
      (fun m hm => read_render v hm (follows_renderMembers ms r)) (by omega)
    rw [readMembers, if_neg (by decide), if_pos rfl, hmember, bind_some]
    simp only
    rw [readMembers_render ms (by simp only [length_append]; omega), map_some]

end

/-! ### Libraries -/

/-- Values that are read back: numbers are natural numbers that fit in 64 bits, and at most `depth`
lists and objects are nested. -/
def Plain : Nat → Json → Prop
  | _, null => True
  | _, bool _ => True
  | _, num token => ∃ n < 2 ^ 64, token = NumToken.ofNat n
  | _, str _ => True
  | 0, arr _ => False
  | depth + 1, arr xs => ∀ x ∈ xs, Plain depth x
  | 0, obj _ => False
  | depth + 1, obj ms => ∀ m ∈ ms, Plain depth m.2

end Json

/-- What a JSON library does with a text. The members of an object are all there, in the order of
the text. -/
structure JsonLibrary where
  /-- The value that a text begins with, or the error that is raised where it is malformed. -/
  parse : List UInt8 → Except String Json
  trailing : List UInt8 → Option String
  /-- The text of an error that a caller raises while the value is read. -/
  custom : List UInt8 → String → String

namespace Json

def toBytes (v : Json) : List UInt8 := utf8 (String.ofList v.render)

/-- Compact texts are read back. Libraries stop at a depth of 128. -/
def ReadsCompact (J : JsonLibrary) : Prop :=
  ∀ v, Plain 127 v → J.parse v.toBytes = .ok v ∧ J.trailing v.toBytes = none

/-- The value that a compact text begins with, and what follows it. -/
def readBytes (bytes : List UInt8) : Option (Json × List Char) :=
  (ofUtf8 bytes).bind fun s => read (s.toList.length + 1) s.toList

def compactReader : JsonLibrary where
  parse bytes :=
    match readBytes bytes with
    | some (v, _) => .ok v
    | none => .error "expected value"
  trailing bytes :=
    match readBytes bytes with
    | some (_, _ :: _) => some "trailing characters"
    | _ => none
  custom _ why := why

theorem readBytes_toBytes (v : Json) : readBytes v.toBytes = some (v, []) := by
  have htext : ofUtf8 v.toBytes = some (String.ofList v.render) := ofUtf8_eq_some_iff.mpr rfl
  have hread := read_render v (r := []) (n := v.render.length + 1) (by simp) (by simp [Follows])
  rw [append_nil] at hread
  simp [readBytes, htext, String.toList_ofList, hread]

theorem compactReader_readsCompact : ReadsCompact compactReader := by
  intro v _
  simp [compactReader, readBytes_toBytes]

/-! ### Repeated names -/

mutual

/-- The first member name that an object repeats, in the order of the text. -/
def duplicateName : Json → Option String
  | arr xs => duplicateInElems xs
  | obj ms => duplicateInMembers [] ms
  | _ => none

def duplicateInElems : List Json → Option String
  | [] => none
  | x :: xs => (duplicateName x).or (duplicateInElems xs)

/-- The first repeated name in members, after these names. -/
def duplicateInMembers : List String → List (String × Json) → Option String
  | _, [] => none
  | seen, (k, v) :: ms =>
    if k ∈ seen then some k else (duplicateName v).or (duplicateInMembers (k :: seen) ms)

end

/-- No object repeats a member name, at any depth. -/
inductive UniqueNames : Json → Prop where
  | null : UniqueNames null
  | bool (b : Bool) : UniqueNames (bool b)
  | num (n : NumToken) : UniqueNames (num n)
  | str (s : String) : UniqueNames (str s)
  | arr {xs : List Json} (elems : ∀ x ∈ xs, UniqueNames x) : UniqueNames (arr xs)
  | obj {ms : List (String × Json)} (names : (ms.map Prod.fst).Nodup)
      (values : ∀ m ∈ ms, UniqueNames m.2) : UniqueNames (obj ms)

mutual

theorem duplicateName_eq_none_iff (v : Json) : duplicateName v = none ↔ UniqueNames v := by
  cases v with
  | null => exact iff_of_true rfl .null
  | bool b => exact iff_of_true rfl (.bool b)
  | num n => exact iff_of_true rfl (.num n)
  | str s => exact iff_of_true rfl (.str s)
  | arr xs =>
    rw [duplicateName, duplicateInElems_eq_none_iff xs]
    constructor
    · exact .arr
    · rintro ⟨⟩
      assumption
  | obj ms =>
    rw [duplicateName, duplicateInMembers_eq_none_iff ms]
    constructor
    · rintro ⟨hnames, -, hvalues⟩
      exact .obj hnames hvalues
    · rintro ⟨⟩
      exact ⟨by assumption, by simp, by assumption⟩

theorem duplicateInElems_eq_none_iff (xs : List Json) :
    duplicateInElems xs = none ↔ ∀ x ∈ xs, UniqueNames x := by
  cases xs with
  | nil => simp [duplicateInElems]
  | cons x xs =>
    rw [duplicateInElems, or_eq_none_iff, duplicateName_eq_none_iff x,
      duplicateInElems_eq_none_iff xs, forall_mem_cons]

theorem duplicateInMembers_eq_none_iff (ms : List (String × Json)) {seen : List String} :
    duplicateInMembers seen ms = none ↔ (ms.map Prod.fst).Nodup ∧
      (∀ k ∈ seen, k ∉ ms.map Prod.fst) ∧ ∀ m ∈ ms, UniqueNames m.2 := by
  cases ms with
  | nil => simp [duplicateInMembers]
  | cons m ms =>
    obtain ⟨k, v⟩ := m
    rw [duplicateInMembers]
    split
    · next h =>
      refine iff_of_false (by simp) ?_
      rintro ⟨-, hseen, -⟩
      exact hseen k h (by simp)
    · next h =>
      rw [or_eq_none_iff, duplicateName_eq_none_iff v,
        duplicateInMembers_eq_none_iff ms, map_cons, nodup_cons, forall_mem_cons,
        forall_mem_cons]
      have hsplit : (∀ x ∈ seen, x ∉ k :: ms.map Prod.fst) ↔ ∀ x ∈ seen, x ∉ ms.map Prod.fst := by
        refine forall₂_congr fun x hx => ?_
        have hne : x ≠ k := fun heq => h (heq ▸ hx)
        rw [mem_cons, or_iff_right hne]
      rw [hsplit]
      tauto

end

end Json

end Buzz
