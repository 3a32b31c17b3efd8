import Buzz.Core.Basic
import Buzz.Core.Pairing.Crypto
import Buzz.Core.Text
import Buzz.Lib.Numerals
import Buzz.Lib.Splitting

/-!
# Owner attestations

An `auth` tag proves that an owner has authorised an agent. Its conditions are clauses about the
kind and the time of the events that the agent may sign. Verification checks their syntax and the
signature over them; it does not ask whether an event meets them.

JSON, keys, signatures and the hash are those of their libraries, parameters here.
-/

namespace Buzz.NipOa

open List

/-- The 32 bytes of a public key. -/
abbrev Key := Pairing.Bytes32

structure Crypto (Sig Digest : Type) where
  fromStr : String → Option Json
  fromHex : String → Option Key
  xonly : Key → Bool
  sigFromStr : String → Option Sig
  sha256 : String → Digest
  verifySchnorr : Sig → Digest → Key → Bool

/-- `SdkError::InvalidInput`, by what is wrong. -/
inductive InvalidInput where
  | invalidJson
  | notAnArray
  | elementCount (n : Nat)
  | notAString (element : Nat)
  | wrongLabel (label : String)
  | invalidOwnerPubkey
  | whitespace
  | emptyClause
  | unsupportedClause (clause : String)
  | emptyValue (label : String)
  | leadingZero (label value : String)
  | notDecimal (label value : String)
  | outOfRange (label value : String)
  | selfAttestation
  | invalidSignatureHex
  | xonlyFailed
  | verificationFailed
  deriving DecidableEq

/-! ### Conditions -/

def isAsciiWhitespace (c : Char) : Bool :=
  c == ' ' || c == '\t' || c == '\n' || c == '\x0c' || c == '\r'

/-- `validate_canonical_decimal`. A text of more than one byte that starts with a zero has more than
one character. -/
def validateCanonicalDecimal (s : String) (min max : Nat) (label : String) :
    Except InvalidInput Unit :=
  if s.isEmpty then .error (.emptyValue label)
  else if s.toList.length > 1 && s.toList.head? == some '0' then .error (.leadingZero label s)
  else if !s.toList.all Char.isDigit then .error (.notDecimal label s)
  else
    let value := Nat.ofDigitChars 10 s.toList 0
    if value ≥ 2 ^ 64 then .error (.outOfRange label s)
    else if value < min ∨ value > max then .error (.outOfRange label s)
    else .ok ()

def validateClause (clause : String) : Except InvalidInput Unit :=
  match stripPrefix clause "kind=" with
  | some value => validateCanonicalDecimal value 0 65535 "kind"
  | none =>
    match stripPrefix clause "created_at<" with
    | some value => validateCanonicalDecimal value 0 4294967295 "created_at<"
    | none =>
      match stripPrefix clause "created_at>" with
      | some value => validateCanonicalDecimal value 0 4294967295 "created_at>"
      | none => .error (.unsupportedClause clause)

def validateClauses : List String → Except InvalidInput Unit
  | [] => .ok ()
  | clause :: clauses =>
    if clause.isEmpty then .error .emptyClause
    else (validateClause clause).bind fun _ => validateClauses clauses

def validateConditions (conditions : String) : Except InvalidInput Unit :=
  if conditions.isEmpty then .ok ()
  else if conditions.toList.any isAsciiWhitespace then .error .whitespace
  else validateClauses ((conditions.toList.splitOn '&').map String.ofList)

/-! ### The grammar -/

/-- A clause of the conditions. -/
inductive Clause where
  | kind (n : Nat)
  | createdBefore (t : Nat)
  | createdAfter (t : Nat)

namespace Clause

/-- The text of a clause: canonical decimals. -/
def text : Clause → String
  | kind n => "kind=" ++ toString n
  | createdBefore t => "created_at<" ++ toString t
  | createdAfter t => "created_at>" ++ toString t

/-- Kinds have 16 bits and times 32. -/
def InRange : Clause → Prop
  | kind n => n ≤ 65535
  | createdBefore t => t ≤ 4294967295
  | createdAfter t => t ≤ 4294967295

/-- An event made at this time meets the clause, as far as it is about time. -/
def Met (createdAt : Nat) : Clause → Prop
  | kind _ => True
  | createdBefore t => createdAt < t
  | createdAfter t => t < createdAt

end Clause

/-- Conditions: clauses, with an ampersand between them. -/
def conditionsText (clauses : List Clause) : String :=
  String.ofList (['&'].intercalate (clauses.map fun c => c.text.toList))

/-- The text is that of these conditions. -/
structure IsConditions (clauses : List Clause) (s : String) : Prop where
  inRange : ∀ c ∈ clauses, c.InRange
  text : s = conditionsText clauses

/-! ### The check accepts the grammar -/

variable {s : String}

theorem isEmpty_iff : s.isEmpty = true ↔ s.toList = [] := by
  rw [String.isEmpty_iff, ← String.toList_inj]
  rfl

theorem validateCanonicalDecimal_ok_iff {max : Nat} {label : String} (hmax : max < 2 ^ 64) :
    validateCanonicalDecimal s 0 max label = .ok () ↔
      ∃ n ≤ max, s = toString n := by
  rw [validateCanonicalDecimal]
  constructor
  · intro h
    split at h
    · cases h
    next hne =>
    split at h
    · cases h
    next hzero =>
    split at h
    · cases h
    next hdigits =>
    dsimp only at h
    split at h
    · cases h
    next hsmall =>
    split at h
    · cases h
    next hrange =>
    have hdecimal : IsDecimal s.toList := by
      refine ⟨fun hnil => hne (isEmpty_iff.mpr hnil), ?_, fun hhead => ?_⟩
      · simpa using hdigits
      · have hpos := length_pos_iff.mpr fun hnil => hne (isEmpty_iff.mpr hnil)
        by_contra hlength
        refine hzero ?_
        rw [hhead]
        simp
        omega
    refine ⟨Nat.ofDigitChars 10 s.toList 0, by omega, String.toList_inj.mp ?_⟩
    simp [hdecimal.toDigits_ofDigitChars]
  · rintro ⟨n, hn, rfl⟩
    have hdecimal := isDecimal_toDigits n
    have hlist : (toString n).toList = Nat.toDigits 10 n := by
      simp
    have hvalue : Nat.ofDigitChars 10 (toString n).toList 0 = n := by
      simp
    rw [if_neg, if_neg, if_neg]
    · rw [hvalue, if_neg (by omega), if_neg (by omega)]
    · rw [hlist]
      simpa using hdecimal.digits
    · rw [hlist]
      intro h
      simp only [Bool.and_eq_true, decide_eq_true_eq, beq_iff_eq] at h
      have := hdecimal.zero h.2
      omega
    · rw [isEmpty_iff, hlist]
      exact hdecimal.ne_nil

theorem stripPrefix_eq_none {pre pre' t : String}
    (hne : ∀ u v : List Char, pre.toList ++ u ≠ pre'.toList ++ v) :
    stripPrefix (pre' ++ t) pre = none := by
  refine Option.eq_none_iff_forall_ne_some.mpr fun u hu => ?_
  have hlists := congrArg String.toList (stripPrefix_eq_some_iff.mp hu)
  rw [String.toList_append, String.toList_append] at hlists
  exact hne _ _ hlists.symm

theorem validateClause_ok_iff :
    validateClause s = .ok () ↔ ∃ c : Clause, c.InRange ∧ s = c.text := by
  rw [validateClause]
  constructor
  · intro h
    split at h
    · next value hvalue =>
      obtain ⟨n, hn, rfl⟩ := (validateCanonicalDecimal_ok_iff (by omega)).mp h
      exact ⟨.kind n, hn, stripPrefix_eq_some_iff.mp hvalue⟩
    · split at h
      · next value hvalue =>
        obtain ⟨n, hn, rfl⟩ := (validateCanonicalDecimal_ok_iff (by omega)).mp h
        exact ⟨.createdBefore n, hn, stripPrefix_eq_some_iff.mp hvalue⟩
      · split at h
        · next value hvalue =>
          obtain ⟨n, hn, rfl⟩ := (validateCanonicalDecimal_ok_iff (by omega)).mp h
          exact ⟨.createdAfter n, hn, stripPrefix_eq_some_iff.mp hvalue⟩
        · cases h
  · rintro ⟨c, hc, rfl⟩
    cases c with
    | kind n =>
      rw [Clause.text, stripPrefix_append]
      exact (validateCanonicalDecimal_ok_iff (by omega)).mpr ⟨n, hc, rfl⟩
    | createdBefore t =>
      have hkind : stripPrefix ("created_at<" ++ toString t) "kind=" = none :=
        stripPrefix_eq_none fun u v h => by simp at h
      rw [Clause.text, hkind, stripPrefix_append]
      exact (validateCanonicalDecimal_ok_iff (by omega)).mpr ⟨t, hc, rfl⟩
    | createdAfter t =>
      have hkind : stripPrefix ("created_at>" ++ toString t) "kind=" = none :=
        stripPrefix_eq_none fun u v h => by simp at h
      have hbefore : stripPrefix ("created_at>" ++ toString t) "created_at<" = none :=
        stripPrefix_eq_none fun u v h => by simp at h
      rw [Clause.text, hkind, hbefore, stripPrefix_append]
      exact (validateCanonicalDecimal_ok_iff (by omega)).mpr ⟨t, hc, rfl⟩

/-! ### Texts of clauses -/

variable {x : Char}

theorem mem_text {c : Clause} (h : x ∈ c.text.toList) :
    x.isDigit = true ∨ x ∈ "kind=created_at<created_at>".toList := by
  have hplain : ∀ (pre : String) (n : Nat), pre.toList ⊆ "kind=created_at<created_at>".toList →
      x ∈ (pre ++ toString n).toList →
        x.isDigit = true ∨ x ∈ "kind=created_at<created_at>".toList := by
    intro pre n hpre hx
    rw [String.toList_append] at hx
    obtain hx | hx := mem_append.mp hx
    · exact .inr (hpre hx)
    · rw [Nat.toString_eq_repr, Nat.toList_repr] at hx
      exact .inl ((isDecimal_toDigits n).digits x hx)
  cases c with
  | kind n => exact hplain "kind=" n (by decide) h
  | createdBefore t => exact hplain "created_at<" t (by decide) h
  | createdAfter t => exact hplain "created_at>" t (by decide) h

theorem notMem_text_of (hdigit : x.isDigit = false)
    (hplain : x ∉ "kind=created_at<created_at>".toList) (c : Clause) : x ∉ c.text.toList := by
  intro h
  obtain hx | hx := mem_text h
  · rw [hdigit] at hx
    cases hx
  · exact hplain hx

theorem notMem_text (c : Clause) : '&' ∉ c.text.toList ∧ c.text.toList ≠ [] ∧
    ∀ x ∈ c.text.toList, isAsciiWhitespace x = false := by
  refine ⟨notMem_text_of (by decide) (by decide) c, ?_, fun x hx => ?_⟩
  · cases c with
    | kind n | createdBefore t | createdAfter t => simp [Clause.text]
  · by_contra hspace
    rw [Bool.not_eq_false, isAsciiWhitespace] at hspace
    simp only [Bool.or_eq_true, beq_iff_eq] at hspace
    obtain (((rfl | rfl) | rfl) | rfl) | rfl := hspace <;>
      exact notMem_text_of (by decide) (by decide) c hx

theorem notMem_conditionsText_of (hdigit : x.isDigit = false)
    (hplain : x ∉ "kind=created_at<created_at>".toList) (hx : x ≠ '&') (clauses : List Clause) :
    x ∉ (conditionsText clauses).toList := by
  intro h
  rw [conditionsText, String.toList_ofList] at h
  obtain rfl | ⟨l, hl, hmem⟩ := mem_intercalate h
  · exact hx rfl
  · obtain ⟨c, -, rfl⟩ := mem_map.mp hl
    exact notMem_text_of hdigit hplain c hmem

theorem splitOn_conditionsText (c : Clause) (cs : List Clause) :
    (conditionsText (c :: cs)).toList.splitOn '&' = (c :: cs).map fun c => c.text.toList := by
  rw [conditionsText, String.toList_ofList]
  refine splitOn_intercalate '&' (fun l hl => ?_) (by simp)
  obtain ⟨c, -, rfl⟩ := mem_map.mp hl
  exact (notMem_text c).1

theorem validateClauses_ok_iff {ss : List String} :
    validateClauses ss = .ok () ↔ ∃ cs : List Clause, (∀ c ∈ cs, c.InRange) ∧
      ss = cs.map Clause.text := by
  induction ss with
  | nil => exact ⟨fun _ => ⟨[], by simp, rfl⟩, fun _ => rfl⟩
  | cons s ss ih =>
    rw [validateClauses]
    constructor
    · intro h
      split at h
      · cases h
      · cases hclause : validateClause s with
        | error e =>
          rw [hclause] at h
          cases h
        | ok u =>
          rw [hclause] at h
          obtain ⟨c, hc, rfl⟩ := validateClause_ok_iff.mp hclause
          obtain ⟨cs, hcs, rfl⟩ := ih.mp h
          exact ⟨c :: cs, forall_mem_cons.mpr ⟨hc, hcs⟩, rfl⟩
    · rintro ⟨cs, hcs, hss⟩
      cases cs with
      | nil => cases hss
      | cons c cs =>
        obtain ⟨rfl, rfl⟩ := cons.inj hss
        obtain ⟨hc, hcs⟩ := forall_mem_cons.mp hcs
        rw [if_neg fun h => (notMem_text c).2.1 (isEmpty_iff.mp h),
          validateClause_ok_iff.mpr ⟨c, hc, rfl⟩]
        exact ih.mpr ⟨cs, hcs, rfl⟩

theorem notMem_conditionsText {clauses : List Clause} (h : x ∈ (conditionsText clauses).toList) :
    isAsciiWhitespace x = false := by
  rw [conditionsText, String.toList_ofList] at h
  obtain rfl | ⟨l, hl, hx⟩ := mem_intercalate h
  · rfl
  · obtain ⟨c, -, rfl⟩ := mem_map.mp hl
    exact (notMem_text c).2.2 x hx

theorem isConditions_nil_of_isEmpty (h : s.isEmpty = true) : IsConditions [] s := by
  refine ⟨by simp, String.toList_inj.mp ?_⟩
  rw [isEmpty_iff.mp h, conditionsText, String.toList_ofList]
  rfl

theorem validateClauses_splitOn_iff (hne : ¬s.isEmpty = true) :
    validateClauses ((s.toList.splitOn '&').map String.ofList) = .ok () ↔
      ∃ clauses, IsConditions clauses s := by
  constructor
  · intro h
    obtain ⟨cs, hcs, hsplit⟩ := validateClauses_ok_iff.mp h
    refine ⟨cs, hcs, String.toList_inj.mp ?_⟩
    have hlists := congrArg (map String.toList) hsplit
    rw [map_map, map_map] at hlists
    have hid : String.toList ∘ String.ofList = id := funext fun l => String.toList_ofList
    rw [hid, map_id] at hlists
    have hjoin : ['&'].intercalate (s.toList.splitOn '&') = s.toList :=
      intercalate_splitOn '&'
    rw [conditionsText, String.toList_ofList, ← hjoin, hlists]
    rfl
  · rintro ⟨cs, hcs, rfl⟩
    cases cs with
    | nil => exact absurd (isEmpty_iff.mpr rfl) hne
    | cons c cs =>
      rw [splitOn_conditionsText, map_map]
      refine validateClauses_ok_iff.mpr ⟨c :: cs, hcs, ?_⟩
      exact congrArg (map · (c :: cs)) (funext fun c => String.ofList_toList)

/-- **The check of the conditions** accepts the documented grammar. -/
theorem validateConditions_ok_iff :
    validateConditions s = .ok () ↔ ∃ clauses, IsConditions clauses s := by
  rw [validateConditions]
  split
  · next hempty => exact iff_of_true rfl ⟨[], isConditions_nil_of_isEmpty hempty⟩
  · next hne =>
    rw [← validateClauses_splitOn_iff hne]
    split
    · next hany =>
      refine iff_of_false nofun fun h => ?_
      obtain ⟨cs, -, rfl⟩ := (validateClauses_splitOn_iff hne).mp h
      obtain ⟨x, hx, hspace⟩ := any_eq_true.mp hany
      rw [notMem_conditionsText hx] at hspace
      exact Bool.false_ne_true hspace
    · exact Iff.rfl

def buildPreimage (agent : Key) (conditions : String) : String :=
  "nostr:agent-auth:" ++ Pairing.hexOfBytes32 agent ++ ":" ++ conditions

theorem hexOfBytes32_injective : Function.Injective Pairing.hexOfBytes32 := by
  intro a b h
  have hread := Pairing.bytes32FromHex_hexOfBytes32 a
  rw [h, Pairing.bytes32FromHex_hexOfBytes32] at hread
  exact (Option.some.inj hread).symm

variable {Sig Digest : Type} (C : Crypto Sig Digest)

def parseJsonArray (s : String) : Except InvalidInput (List Json) :=
  match C.fromStr s with
  | none => .error .invalidJson
  | some (.arr xs) => .ok xs
  | some _ => .error .notAnArray

/-- `as_str`, of an element of the tag. -/
def asStr (element : Nat) : Json → Except InvalidInput String
  | .str s => .ok s
  | _ => .error (.notAString element)

/-- The signature over the preimage is checked. -/
def verifySignature (owner agent : Key) (conditions sigHex : String) : Except InvalidInput Key :=
  match C.sigFromStr sigHex with
  | none => .error .invalidSignatureHex
  | some sig =>
    if !C.xonly owner then .error .xonlyFailed
    else if !C.verifySchnorr sig (C.sha256 (buildPreimage agent conditions)) owner then
      .error .verificationFailed
    else .ok owner

def verifyAuthTag (authTagJson : String) (agent : Key) : Except InvalidInput Key :=
  (parseJsonArray C authTagJson).bind fun
    | [e0, e1, e2, e3] =>
      (asStr 0 e0).bind fun label =>
      if label ≠ "auth" then .error (.wrongLabel label)
      else
        (asStr 1 e1).bind fun ownerHex =>
        (asStr 2 e2).bind fun conditions =>
        (asStr 3 e3).bind fun sigHex =>
        match C.fromHex ownerHex with
        | none => .error .invalidOwnerPubkey
        | some owner =>
          (validateConditions conditions).bind fun _ =>
          if owner = agent then .error .selfAttestation
          else verifySignature C owner agent conditions sigHex
    | arr => .error (.elementCount arr.length)

/-- The elements of an auth tag. -/
structure AuthTag where
  ownerHex : String
  conditions : String
  sigHex : String

def AuthTag.toJson (t : AuthTag) : Json :=
  .arr [.str "auth", .str t.ownerHex, .str t.conditions, .str t.sigHex]

/-- The tag proves to the code that the owner has authorised the agent. -/
structure Verifies (t : AuthTag) (agent owner : Key) : Prop where
  key : C.fromHex t.ownerHex = some owner
  conditions : ∃ clauses, IsConditions clauses t.conditions
  other : owner ≠ agent
  xonly : C.xonly owner = true
  signature : ∃ sig, C.sigFromStr t.sigHex = some sig ∧
    C.verifySchnorr sig (C.sha256 (buildPreimage agent t.conditions)) owner = true

variable {C}

theorem asStr_ok_iff {i : Nat} {e : Json} : asStr i e = .ok s ↔ e = .str s := by
  cases e <;> simp [asStr]

theorem parseJsonArray_ok_iff {xs : List Json} :
    parseJsonArray C s = .ok xs ↔ C.fromStr s = some (.arr xs) := by
  rw [parseJsonArray]
  cases C.fromStr s with
  | none => simp
  | some v => cases v <;> simp

theorem verifySignature_ok_iff {owner agent key : Key} {conditions sigHex : String} :
    verifySignature C owner agent conditions sigHex = .ok key ↔ owner = key ∧
      C.xonly owner = true ∧ ∃ sig, C.sigFromStr sigHex = some sig ∧
        C.verifySchnorr sig (C.sha256 (buildPreimage agent conditions)) owner = true := by
  rw [verifySignature]
  cases C.sigFromStr sigHex with
  | none => simp
  | some sig =>
    cases hx : C.xonly owner with
    | false => simp
    | true =>
      cases hv : C.verifySchnorr sig (C.sha256 (buildPreimage agent conditions)) owner with
      | false | true => simp [hv]

/-- **What a tag is that is accepted.** -/
theorem verifyAuthTag_ok_iff {agent owner : Key} :
    verifyAuthTag C s agent = .ok owner ↔
      ∃ t : AuthTag, C.fromStr s = some t.toJson ∧ Verifies C t agent owner := by
  rw [verifyAuthTag, bind_ok_iff]
  constructor
  · rintro ⟨xs, hxs, h⟩
    rw [parseJsonArray_ok_iff] at hxs
    split at h
    · next e0 e1 e2 e3 =>
      obtain ⟨label, h0, hlabelled⟩ := bind_ok_iff.mp h
      split at hlabelled
      · cases hlabelled
      next hlabel =>
      obtain ⟨ownerHex, h1, hrest⟩ := bind_ok_iff.mp hlabelled
      obtain ⟨conditions, h2, hrest⟩ := bind_ok_iff.mp hrest
      obtain ⟨sigHex, h3, hread⟩ := bind_ok_iff.mp hrest
      rw [asStr_ok_iff] at h0 h1 h2 h3
      have hjson : C.fromStr s = some (AuthTag.mk ownerHex conditions sigHex).toJson := by
        rw [hxs, h0, h1, h2, h3, not_ne_iff.mp hlabel]
        rfl
      split at hread
      · cases hread
      next key hkey =>
      obtain ⟨u, hconditions, hchecked⟩ := bind_ok_iff.mp hread
      split at hchecked
      · cases hchecked
      next hother =>
      obtain ⟨rfl, hx, hsig⟩ := verifySignature_ok_iff.mp hchecked
      exact ⟨_, hjson, hkey, validateConditions_ok_iff.mp hconditions, hother, hx, hsig⟩
    · cases h
  · rintro ⟨t, hjson, ht⟩
    refine ⟨_, parseJsonArray_ok_iff.mpr hjson, ?_⟩
    dsimp only
    rw [asStr, Except.bind, if_neg (not_ne_iff.mpr rfl), asStr, Except.bind, asStr, Except.bind,
      asStr, Except.bind, ht.key]
    dsimp only
    rw [validateConditions_ok_iff.mpr ht.conditions, Except.bind, if_neg ht.other]
    exact verifySignature_ok_iff.mpr ⟨rfl, ht.xonly, ht.signature⟩

end Buzz.NipOa
