import Buzz.Lib.Numerals
import Buzz.Lib.Hex
import Buzz.Lib.Splitting
import Buzz.Lib.Utf8

/-!
# The text of a URL

Percent encoding writes a text as ASCII letters, digits and percent signs: every other byte of it is
a percent sign and two hexadecimal digits. What is read may hold anything; a percent sign without two
digits stands for itself, and what is not UTF-8 in the end is replaced.

A parsed URL has components, and is written as a text in which single characters stand between them.
A component holds none of the characters that would end it, since the parser writes these as
percent-encoded bytes. So the text of a URL of the web determines every component: the scheme ends at
the first colon, the authority at the next slash, the path at a question mark or a number sign.
-/

/-! ## Percent encoding -/

namespace Buzz

def upperHexDigit (n : Nat) : Char := (Nat.digitChar n).toUpper

/-- A byte: a letter or digit, or a percent sign and two digits. -/
def percentEncodeByte (b : UInt8) : List Char :=
  if (Char.ofNat b.toNat).isAlphanum then [Char.ofNat b.toNat]
  else ['%', upperHexDigit (b.toNat / 16), upperHexDigit (b.toNat % 16)]

/-- `utf8_percent_encode` of everything that is no ASCII letter or digit. -/
def percentEncode (s : String) : String := String.ofList ((utf8 s).flatMap percentEncodeByte)

def hexValByte (b : UInt8) : Option Nat := hexVal (Char.ofNat b.toNat)

/-- `percent_decode`. -/
def percentDecodeBytes : List UInt8 → List UInt8
  | b :: x :: y :: bs =>
    if b = 0x25 then
      match hexValByte x, hexValByte y with
      | some m, some n => UInt8.ofNat (16 * m + n) :: percentDecodeBytes bs
      | _, _ => b :: percentDecodeBytes (x :: y :: bs)
    else b :: percentDecodeBytes (x :: y :: bs)
  | bs => bs

/-- `percent_decode_str`, read as UTF-8 with replacements. -/
def percentDecode (s : String) : String := lossy (percentDecodeBytes (utf8 s))

/-! ### Characters -/

theorem upperHexDigit_isAlphanum {n : Nat} (h : n < 16) : (upperHexDigit n).isAlphanum = true := by
  have hall : ∀ k : Fin 16, (upperHexDigit k).isAlphanum = true := by decide
  exact hall ⟨n, h⟩

/-- Only letters, digits and percent signs are written. -/
theorem mem_percentEncode {s : String} {c : Char} (h : c ∈ (percentEncode s).toList) :
    c = '%' ∨ c.isAlphanum = true := by
  rw [percentEncode, String.toList_ofList] at h
  obtain ⟨b, -, hc⟩ := List.mem_flatMap.mp h
  have hb := b.toNat_lt
  unfold percentEncodeByte at hc
  split at hc
  · next halnum =>
    obtain rfl := List.mem_singleton.mp hc
    exact Or.inr halnum
  · simp only [List.mem_cons, List.not_mem_nil, or_false] at hc
    rcases hc with rfl | rfl | rfl
    · exact Or.inl rfl
    · exact Or.inr (upperHexDigit_isAlphanum (by omega))
    · exact Or.inr (upperHexDigit_isAlphanum (by omega))

/-! ### Reading back -/

theorem percentDecodeBytes_cons_of_ne {b : UInt8} (h : b ≠ 0x25) (bs : List UInt8) :
    percentDecodeBytes (b :: bs) = b :: percentDecodeBytes bs := by
  match bs with
  | [] | [_] => rfl
  | x :: y :: bs => rw [percentDecodeBytes, if_neg h]

theorem hexValByte_upperHexDigit {n : Nat} (h : n < 16) :
    hexValByte (UInt8.ofNat (upperHexDigit n).toNat) = some n := by
  have hall : ∀ k : Fin 16, hexValByte (UInt8.ofNat (upperHexDigit k).toNat) = some k.val := by
    decide
  exact hall ⟨n, h⟩

theorem toNat_ofNat_byte (b : UInt8) : (Char.ofNat b.toNat).toNat = b.toNat := by
  have hb := b.toNat_lt
  have hvalid : b.toNat.isValidChar := Or.inl (by omega)
  rw [Char.ofNat, dif_pos hvalid]
  rfl

theorem encode_alphanum {b : UInt8} (h : (Char.ofNat b.toNat).isAlphanum = true) :
    encode [Char.ofNat b.toNat] = [b] := by
  rw [encode_cons, utf8EncodeChar_ascii (toNat_le_of_isAlphanum h), encode_nil,
    toNat_ofNat_byte, UInt8.ofNat_toNat]
  rfl

theorem encode_percentEncodeByte {b : UInt8} (h : (Char.ofNat b.toNat).isAlphanum = false) :
    encode (percentEncodeByte b) = [0x25, UInt8.ofNat (upperHexDigit (b.toNat / 16)).toNat,
      UInt8.ofNat (upperHexDigit (b.toNat % 16)).toNat] := by
  have hb := b.toNat_lt
  have hdigit : ∀ {n}, n < 16 → (upperHexDigit n).toNat ≤ 127 := by
    intro n hn
    have hall : ∀ k : Fin 16, (upperHexDigit k).toNat ≤ 127 := by decide
    exact hall ⟨n, hn⟩
  rw [percentEncodeByte, h, if_neg Bool.false_ne_true, encode_cons, encode_cons, encode_cons,
    utf8EncodeChar_ascii (hdigit (by omega)), utf8EncodeChar_ascii (hdigit (by omega))]
  rfl

theorem percentDecodeBytes_encodeByte (b : UInt8) (bs : List UInt8) :
    percentDecodeBytes (encode (percentEncodeByte b) ++ bs) = b :: percentDecodeBytes bs := by
  have hb := b.toNat_lt
  cases halnum : (Char.ofNat b.toNat).isAlphanum with
  | true =>
    have hne : b ≠ 0x25 := by
      rintro rfl
      exact absurd halnum (by decide)
    rw [percentEncodeByte, if_pos halnum, encode_alphanum halnum]
    exact percentDecodeBytes_cons_of_ne hne bs
  | false =>
    rw [encode_percentEncodeByte halnum]
    show percentDecodeBytes (0x25 :: _ :: _ :: bs) = _
    rw [percentDecodeBytes, if_pos rfl, hexValByte_upperHexDigit (by omega),
      hexValByte_upperHexDigit (by omega)]
    dsimp only
    rw [Nat.div_add_mod, UInt8.ofNat_toNat]

theorem percentDecodeBytes_flatMap (bs : List UInt8) :
    percentDecodeBytes (encode (bs.flatMap percentEncodeByte)) = bs := by
  induction bs with
  | nil => rfl
  | cons b bs ih => rw [List.flatMap_cons, encode_append, percentDecodeBytes_encodeByte, ih]

theorem percentDecode_percentEncode (s : String) : percentDecode (percentEncode s) = s := by
  rw [percentDecode, percentEncode, utf8_eq_encode (String.ofList _), String.toList_ofList,
    percentDecodeBytes_flatMap, lossy_utf8]

end Buzz

/-! ## Components -/

namespace Buzz

/-! ### Optional parts -/

section

variable {α : Type*} {sep : α} {pre pre' : List α} {part part' : Option (List α)}

/-- A separator and what follows it, where there is something. -/
def withPart (sep : α) (part : Option (List α)) : List α := part.elim [] fun l => sep :: l

@[simp] theorem withPart_none (sep : α) : withPart sep none = [] := rfl

@[simp] theorem withPart_some (sep : α) (l : List α) : withPart sep (some l) = sep :: l := rfl

/-- What stands before the first separator, and what stands after it if there is one. -/
def cutOff [DecidableEq α] (sep : α) (l : List α) : List α × Option (List α) :=
  match splitOnce sep l with
  | none => (l, none)
  | some (pre, post) => (pre, some post)

theorem cutOff_append [DecidableEq α] (h : sep ∉ pre) (part : Option (List α)) :
    cutOff sep (pre ++ withPart sep part) = (pre, part) := by
  cases part with
  | none =>
    simp [withPart_none, cutOff, splitOnce_eq_none_iff.mpr h]
  | some l => rw [withPart_some, cutOff, splitOnce_append h]

theorem append_withPart_cutOff [DecidableEq α] (sep : α) (l : List α) :
    (cutOff sep l).1 ++ withPart sep (cutOff sep l).2 = l := by
  rw [cutOff]
  split
  · simp [withPart_none]
  · next h => rw [withPart_some, (splitOnce_eq_some_iff.mp h).2]

theorem not_mem_cutOff [DecidableEq α] (sep : α) (l : List α) : sep ∉ (cutOff sep l).1 := by
  rw [cutOff]
  split
  · next h => exact splitOnce_eq_none_iff.mp h
  · next h => exact (splitOnce_eq_some_iff.mp h).1

theorem head?_cutOff [DecidableEq α] {l : List α} {a : α} (hl : l.head? = some a) (ha : a ≠ sep) :
    (cutOff sep l).1.head? = some a := by
  have happend := append_withPart_cutOff sep l
  cases hpre : (cutOff sep l).1 with
  | nil =>
    rw [hpre, List.nil_append] at happend
    cases hpart : (cutOff sep l).2 with
    | none =>
      rw [hpart] at happend
      rw [← happend] at hl
      nomatch hl
    | some rest =>
      rw [hpart] at happend
      rw [← happend] at hl
      exact absurd (Option.some.inj hl).symm ha
  | cons b pre =>
    rw [hpre] at happend
    rw [← happend] at hl
    exact hl

theorem append_withPart_inj (h : sep ∉ pre) (h' : sep ∉ pre')
    (heq : pre ++ withPart sep part = pre' ++ withPart sep part') : pre = pre' ∧ part = part' := by
  classical
  have hcut := cutOff_append h part
  rw [heq, cutOff_append h' part'] at hcut
  obtain ⟨hpre, hpart⟩ := Prod.mk.inj hcut
  exact ⟨hpre.symm, hpart.symm⟩

end

/-! ### Components -/

/-- The components of a URL. -/
structure Url where
  scheme : List Char
  userinfo : Option (List Char)
  host : Option (List Char)
  port : Option ℕ
  path : List Char
  query : Option (List Char)
  fragment : Option (List Char)

def trimSlashes (path : List Char) : List Char := (path.reverse.dropWhile (· == '/')).reverse

namespace Url

def IsWeb (u : Url) : Prop := u.scheme = "http".toList ∨ u.scheme = "https".toList

instance (u : Url) : Decidable u.IsWeb := inferInstanceAs (Decidable (_ ∨ _))

def portText (port : Option ℕ) : Option (List Char) := port.map (Nat.toDigits 10)

def hostPort (u : Url) : List Char := u.host.getD [] ++ withPart ':' (portText u.port)

def authority (u : Url) : List Char :=
  (u.userinfo.elim [] fun user => user ++ ['@']) ++ u.hostPort

def tail (u : Url) : List Char := u.path ++ withPart '?' u.query ++ withPart '#' u.fragment

/-- The text. A path that begins with two slashes is marked where no authority stands before it. -/
def serialize (u : Url) : String :=
  String.ofList (u.scheme ++ ':' ::
    ((if u.host.isSome then '/' :: '/' :: u.authority
      else if ['/', '/'].isPrefixOf u.path then ['/', '.'] else []) ++ u.tail))

/-- No component holds what would end it, and a URL of the web has a host and a path. -/
structure WellFormed (u : Url) : Prop where
  scheme : ':' ∉ u.scheme
  authority : '/' ∉ u.authority
  userinfo : ∀ user ∈ u.userinfo, '@' ∉ user
  host : ∀ host ∈ u.host, '@' ∉ host
  brackets : ∀ host ∈ u.host, ':' ∈ host → host.getLast? = some ']'
  path : '?' ∉ u.path ∧ '#' ∉ u.path
  query : ∀ query ∈ u.query, '#' ∉ query
  web : u.IsWeb → u.host.isSome ∧ u.path.head? = some '/'

/-- `set_path` of a URL of the web, where nothing in the path has to be encoded. -/
def setPath (u : Url) (path : List Char) : Url :=
  { u with path := if u.IsWeb ∧ path.head? ≠ some '/' then '/' :: path else path }

/-- The URL without the slashes at the end of its path. -/
def normalized (u : Url) : Url := u.setPath (trimSlashes u.path)

/-- The components behind the authority, from their text. -/
def ofTail (u : Url) (text : List Char) : Url :=
  let (front, fragment) := cutOff '#' text
  let (path, query) := cutOff '?' front
  { u with path, query, fragment }

end Url

/-! ### Slashes at the end -/

theorem isPrefix_trimSlashes (path : List Char) : trimSlashes path <+: path := by
  have h := (List.dropWhile_suffix (l := path.reverse) (· == '/')).reverse
  rwa [List.reverse_reverse] at h

theorem trimSlashes_ne_slash (path : List Char) : trimSlashes path ≠ ['/'] := by
  intro h
  have hreverse : path.reverse.dropWhile (· == '/') = ['/'] := by
    have hr := congrArg List.reverse h
    rwa [trimSlashes, List.reverse_reverse] at hr
  have hne : path.reverse.dropWhile (· == '/') ≠ [] := by
    rw [hreverse]
    exact List.cons_ne_nil _ _
  have hnot := List.head_dropWhile_not (· == '/') hne
  simp only [hreverse, List.head_cons] at hnot
  exact absurd hnot (by decide)

theorem head_trimSlashes {path : List Char} (h : path.head? = some '/')
    (hne : trimSlashes path ≠ []) : (trimSlashes path).head? = some '/' := by
  obtain ⟨rest, hrest⟩ := isPrefix_trimSlashes path
  rw [← hrest] at h
  cases htrim : trimSlashes path with
  | nil => exact absurd htrim hne
  | cons c cs =>
    rw [htrim] at h
    exact h

namespace Url

variable {u v : Url}

/-! ### The text determines the components -/

theorem not_mem_toDigits {c : Char} (hc : c.isDigit = false) (n : ℕ) : c ∉ Nat.toDigits 10 n := by
  intro hmem
  exact absurd ((isDecimal_toDigits n).digits c hmem) (by rw [hc]; exact Bool.false_ne_true)

theorem toDigits_injective : Function.Injective (Nat.toDigits 10) := by
  intro m n h
  rw [← Nat.ofDigitChars_ten_toDigits (n := m), h, Nat.ofDigitChars_ten_toDigits]

theorem host_ne_withPort {host host' : List Char} {n : ℕ}
    (hbrackets : ':' ∈ host' → host'.getLast? = some ']') :
    host ++ ':' :: Nat.toDigits 10 n ≠ host' := by
  rintro rfl
  have hlast := hbrackets (by simp)
  have hdigits := (isDecimal_toDigits n).ne_nil
  rw [List.getLast?_append_of_ne_nil _ (List.cons_ne_nil _ _),
    List.getLast?_cons_of_ne_nil hdigits] at hlast
  exact not_mem_toDigits (by decide) n (List.mem_of_getLast? hlast)

/-- **Host and port** are determined. -/
theorem hostPort_inj (hu : u.WellFormed) (hv : v.WellFormed) (hhost : u.host.isSome)
    (hhost' : v.host.isSome) (h : u.hostPort = v.hostPort) : u.host = v.host ∧ u.port = v.port := by
  obtain ⟨host, hu'⟩ := Option.isSome_iff_exists.mp hhost
  obtain ⟨host', hv'⟩ := Option.isSome_iff_exists.mp hhost'
  rw [hostPort, hostPort, hu', hv', Option.getD_some, Option.getD_some, portText, portText] at h
  rw [hu', hv', Option.some.injEq]
  cases hp : u.port with
  | none =>
    cases hp' : v.port with
    | none => simpa [hp, hp'] using h
    | some n' =>
      rw [hp, hp'] at h
      simp only [Option.map_none, Option.map_some, withPart_none, withPart_some,
        List.append_nil] at h
      exact absurd h.symm (host_ne_withPort (hu.brackets host hu'))
  | some n =>
    cases hp' : v.port with
    | none =>
      rw [hp, hp'] at h
      simp only [Option.map_none, Option.map_some, withPart_none, withPart_some,
        List.append_nil] at h
      exact absurd h (host_ne_withPort (hv.brackets host' hv'))
    | some n' =>
      rw [hp, hp'] at h
      obtain ⟨rfl, hdigits⟩ := append_cons_inj_right (not_mem_toDigits (by decide) n)
        (not_mem_toDigits (by decide) n') h
      exact ⟨rfl, congrArg some (toDigits_injective hdigits)⟩

theorem WellFormed.not_mem_hostPort (hu : u.WellFormed) : '@' ∉ u.hostPort := by
  rw [hostPort, List.mem_append, not_or]
  constructor
  · cases hhost : u.host with
    | none => exact List.not_mem_nil
    | some host => exact hu.host host hhost
  · cases u.port with
    | none => exact List.not_mem_nil
    | some n =>
      show '@' ∉ ':' :: Nat.toDigits 10 n
      rw [List.mem_cons, not_or]
      exact ⟨by decide, not_mem_toDigits (by decide) n⟩

/-- **The authority** determines the user, and host and port. -/
theorem authority_inj (hu : u.WellFormed) (hv : v.WellFormed) (h : u.authority = v.authority) :
    u.userinfo = v.userinfo ∧ u.hostPort = v.hostPort := by
  have hat := hu.not_mem_hostPort
  have hat' := hv.not_mem_hostPort
  rw [authority, authority] at h
  cases huser : u.userinfo with
  | none =>
    cases huser' : v.userinfo with
    | none => simpa [huser, huser'] using h
    | some user' =>
      rw [huser, huser'] at h
      refine absurd ?_ hat
      simp only [Option.elim_none, Option.elim_some, List.nil_append] at h
      rw [h]
      simp
  | some user =>
    cases huser' : v.userinfo with
    | none =>
      rw [huser, huser'] at h
      refine absurd ?_ hat'
      simp only [Option.elim_none, Option.elim_some, List.nil_append] at h
      rw [← h]
      simp
    | some user' =>
      rw [huser, huser'] at h
      simp only [Option.elim_some, List.append_assoc, List.singleton_append] at h
      obtain ⟨rfl, hhost⟩ := append_cons_inj_right hat hat' h
      exact ⟨rfl, hhost⟩

theorem WellFormed.not_mem_front (hu : u.WellFormed) : '#' ∉ u.path ++ withPart '?' u.query := by
  rw [List.mem_append, not_or]
  refine ⟨hu.path.2, ?_⟩
  cases hquery : u.query with
  | none => exact List.not_mem_nil
  | some query =>
    rw [withPart_some, List.mem_cons, not_or]
    exact ⟨by decide, hu.query query hquery⟩

/-- **What stands behind the authority** is read back. -/
theorem ofTail_tail (hu : u.WellFormed) : u.ofTail u.tail = u := by
  have hpath : cutOff '?' (u.path ++ withPart '?' u.query) = (u.path, u.query) :=
    cutOff_append hu.path.1 u.query
  rw [ofTail, tail, cutOff_append hu.not_mem_front]
  simp only [hpath]

theorem not_mem_ofTail (u : Url) (text : List Char) :
    ('?' ∉ (u.ofTail text).path ∧ '#' ∉ (u.ofTail text).path) ∧
      ∀ query ∈ (u.ofTail text).query, '#' ∉ query := by
  have hfront := append_withPart_cutOff '?' (cutOff '#' text).1
  have hnot := not_mem_cutOff '#' text
  rw [← hfront, List.mem_append, not_or] at hnot
  refine ⟨⟨not_mem_cutOff '?' _, hnot.1⟩, fun query hquery hmem => hnot.2 ?_⟩
  have hquery' : (cutOff '?' (cutOff '#' text).1).2 = some query := hquery
  rw [hquery']
  exact List.mem_cons_of_mem _ hmem

theorem head?_ofTail {text : List Char} (h : text.head? = some '/') (u : Url) :
    (u.ofTail text).path.head? = some '/' :=
  head?_cutOff (head?_cutOff h (by decide)) (by decide)

theorem tail_inj (hu : u.WellFormed) (hv : v.WellFormed) (h : u.tail = v.tail) :
    u.path = v.path ∧ u.query = v.query ∧ u.fragment = v.fragment := by
  obtain ⟨hfront, hfragment⟩ := append_withPart_inj hu.not_mem_front hv.not_mem_front h
  obtain ⟨hpath, hquery⟩ := append_withPart_inj hu.path.1 hv.path.1 hfront
  exact ⟨hpath, hquery, hfragment⟩

theorem WellFormed.exists_tail (hu : u.WellFormed) (hweb : u.IsWeb) :
    ∃ rest, u.tail = '/' :: rest := by
  obtain ⟨rest, hpath⟩ := List.head?_eq_some_iff.mp (hu.web hweb).2
  exact ⟨rest ++ withPart '?' u.query ++ withPart '#' u.fragment, by simp [tail, hpath]⟩

/-- **The text determines the components** of a URL of the web. -/
theorem serialize_inj (hu : u.WellFormed) (hv : v.WellFormed) (hweb : u.IsWeb)
    (h : u.serialize = v.serialize) : u = v := by
  obtain ⟨hscheme, hrest⟩ :=
    append_cons_inj_left hu.scheme hv.scheme (String.ofList_injective h)
  have hweb' : v.IsWeb := by rwa [IsWeb, ← hscheme]
  have hhost := (hu.web hweb).1
  have hhost' := (hv.web hweb').1
  obtain ⟨rest, htail⟩ := hu.exists_tail hweb
  obtain ⟨rest', htail'⟩ := hv.exists_tail hweb'
  rw [if_pos hhost, if_pos hhost', htail, htail'] at hrest
  simp only [List.cons_append, List.cons.injEq, true_and] at hrest
  obtain ⟨hauthority, hrest⟩ := append_cons_inj_left hu.authority hv.authority hrest
  obtain ⟨huser, hhostPort⟩ := authority_inj hu hv hauthority
  obtain ⟨hhost, hport⟩ := hostPort_inj hu hv hhost hhost' hhostPort
  obtain ⟨hpath, hquery, hfragment⟩ := tail_inj hu hv (by rw [htail, htail', hrest])
  cases u
  cases v
  simp_all

/-! ### Without the slashes at the end -/

theorem isWeb_setPath {path : List Char} : (u.setPath path).IsWeb ↔ u.IsWeb := Iff.rfl

theorem WellFormed.normalized (hu : u.WellFormed) : u.normalized.WellFormed := by
  have hmem : ∀ c, c ∈ u.normalized.path → c = '/' ∨ c ∈ u.path := by
    intro c hc
    have hpart := (isPrefix_trimSlashes u.path).subset
    have hcases : c ∈ (if u.IsWeb ∧ (trimSlashes u.path).head? ≠ some '/' then
        '/' :: trimSlashes u.path else trimSlashes u.path) := hc
    split at hcases
    · exact (List.mem_cons.mp hcases).imp_right fun h => hpart h
    · exact .inr (hpart hcases)
  refine ⟨hu.scheme, hu.authority, hu.userinfo, hu.host, hu.brackets, ⟨?_, ?_⟩, hu.query, ?_⟩
  · exact fun h => (hmem _ h).elim (fun heq => absurd heq (by decide)) hu.path.1
  · exact fun h => (hmem _ h).elim (fun heq => absurd heq (by decide)) hu.path.2
  · intro hweb
    have hweb' : u.IsWeb := hweb
    refine ⟨(hu.web hweb').1, ?_⟩
    show (if u.IsWeb ∧ (trimSlashes u.path).head? ≠ some '/' then
        '/' :: trimSlashes u.path else trimSlashes u.path).head? = some '/'
    split
    · rfl
    · next h =>
      rw [not_and, not_not] at h
      exact h hweb'

/-- **What is the same without slashes at the end** has the same components, up to these. -/
theorem of_normalized_eq (hu : u.WellFormed) (hv : v.WellFormed) (hweb : u.IsWeb)
    (h : u.normalized = v.normalized) : u.scheme = v.scheme ∧ u.userinfo = v.userinfo ∧
      u.host = v.host ∧ u.port = v.port ∧ trimSlashes u.path = trimSlashes v.path ∧
        u.query = v.query ∧ u.fragment = v.fragment := by
  have hfield : ∀ {β : Type} (f : Url → β), f u.normalized = f v.normalized :=
    fun f => congrArg f h
  have hscheme : u.scheme = v.scheme := hfield Url.scheme
  have hweb' : v.IsWeb := by rwa [IsWeb, ← hscheme]
  have hpath := hfield Url.path
  -- the path of a URL of the web is marked by a slash only where nothing is left of it
  have hmark : ∀ w : Url, w.WellFormed → w.IsWeb → w.normalized.path =
      if trimSlashes w.path = [] then ['/'] else trimSlashes w.path := by
    intro w hw hwweb
    show (if w.IsWeb ∧ (trimSlashes w.path).head? ≠ some '/' then
        '/' :: trimSlashes w.path else trimSlashes w.path) = _
    by_cases hnil : trimSlashes w.path = []
    · rw [if_pos hnil, hnil, if_pos ⟨hwweb, by simp⟩]
    · rw [if_neg hnil, if_neg fun hand => hand.2 (head_trimSlashes (hw.web hwweb).2 hnil)]
  rw [hmark u hu hweb, hmark v hv hweb'] at hpath
  refine ⟨hscheme, hfield Url.userinfo, hfield Url.host, hfield Url.port, ?_, hfield Url.query,
    hfield Url.fragment⟩
  split at hpath
  · next hnil =>
    split at hpath
    · next hnil' => rw [hnil, hnil']
    · exact absurd hpath.symm (trimSlashes_ne_slash v.path)
  · split at hpath
    · exact absurd hpath (trimSlashes_ne_slash u.path)
    · exact hpath

end Url

end Buzz
