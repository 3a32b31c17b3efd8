import Buzz.Core.Basic
import Buzz.Core.Text
import Buzz.Lib.Splitting

/-!
# Rotation delegations

When a user rotates a key, the old key delegates to the new one. The token of the delegation is a
signature over the new key and the conditions, joined by colons. The new key is whatever its tag
says, so a reader of the message finds the conditions after the last colon: the clauses that are
accepted have no colon in them.

The clauses compare a kind or a time with a number. A number is anything that `u64::from_str` reads,
with leading zeros and possibly a plus sign, and there is at least one clause.

Hexadecimal, keys, signatures and the hash are those of their libraries, parameters here.
-/

namespace Buzz.Rotation

open List

def kindEvmRotation : Nat := 30200

structure RotationEvent where
  kind : Kind
  pubkey : PublicKey
  tags : List (List String)
  content : String

/-- A validated rotation-delegation claim extracted from an event. -/
structure RotationDelegation where
  delegator : String
  delegatee : String
  conditions : String
  evmAddress : String

/-- Error returned by rotation-delegation verification. -/
inductive RotationDelegationError where
  | wrongKind (got : Nat)
  | missingDelegationTag
  | malformedTag (message : String)
  | delegatorMismatch (author tag : String)
  | missingNewNpub
  | invalidToken (message : String)
  | invalidConditions (message : String)

structure Libraries (VerifyingKey Signature Digest : Type) where
  hexDecode : String → Except String (List UInt8)
  keyFromBytes : List UInt8 → Except String VerifyingKey
  signatureFromBytes : List UInt8 → Except String Signature
  sha256 : List UInt8 → Digest
  verifyPrehash : VerifyingKey → Digest → Signature → Except String Unit

/-! ### The message -/

/-- The delegation string the token signs. -/
def delegationString (delegatee conditions : String) : String :=
  "nostr:delegation:" ++ delegatee ++ ":" ++ conditions

def RotationDelegation.message (r : RotationDelegation) : List UInt8 :=
  utf8 (delegationString r.delegatee r.conditions)

/-! ### Conditions -/

def splitOnceOn (clause : String) (op : Char) : Option (String × String) :=
  (splitOnce op clause.toList).map fun p => (String.ofList p.1, String.ofList p.2)

/-- Split a clause into field, operator and value, at the first operator of the list that leaves
neither empty. -/
def splitClause (clause : String) : Option (String × Char × String) :=
  ['=', '<', '>'].findSome? fun op =>
    match splitOnceOn clause op with
    | some (field, value) =>
      if !field.isEmpty && !value.isEmpty then some (field, op, value) else none
    | none => none

def validateClause (clause : String) : Except RotationDelegationError Unit :=
  match splitClause clause with
  | none => .error (.invalidConditions clause)
  | some (field, op, value) =>
    if field = "kind" ∧ op = '=' then
      if (parseU64 value).isSome then .ok ()
      else .error (.invalidConditions ("kind value: " ++ value))
    else if field = "created_at" ∧ (op = '<' ∨ op = '>') then
      if (parseU64 value).isSome then .ok ()
      else .error (.invalidConditions ("created_at value: " ++ value))
    else .error (.invalidConditions clause)

def validateClauses : List String → Except RotationDelegationError Unit
  | [] => .ok ()
  | clause :: clauses => do
    validateClause clause
    validateClauses clauses

def validateConditions (conditions : String) : Except RotationDelegationError Unit :=
  if conditions.isEmpty then .error (.invalidConditions "empty")
  else validateClauses ((conditions.toList.splitOn '&').map String.ofList)

/-! ### Verification -/

/-- Parse a `delegation` tag into delegator, conditions and token. -/
def parseDelegationTag (parts : List String) :
    Except RotationDelegationError (String × String × String) :=
  match parts with
  | [_, delegator, conditions, token] =>
    if delegator.isEmpty || conditions.isEmpty || token.isEmpty then
      .error (.malformedTag "empty element")
    else .ok (delegator, conditions, token)
  | _ => .error (.malformedTag s!"expected 4 elements, got {parts.length}")

/-- The delegatee: the content of the first `p` tag that has any. -/
def RotationEvent.delegatee (event : RotationEvent) : Option String :=
  (event.tags.find? fun t => t.head? == some "p" && decide (2 ≤ t.length)).bind fun t => t[1]?

/-- The first `delegation` tag. -/
def RotationEvent.delegationTag (event : RotationEvent) : Option (List String) :=
  event.tags.find? fun t => t.head? == some "delegation"

variable {VerifyingKey Signature Digest : Type} (L : Libraries VerifyingKey Signature Digest)

def decodeKey (delegatorHex : String) : Except String VerifyingKey := do
  let bytes ← (L.hexDecode delegatorHex).mapError fun e => "delegator not hex: " ++ e
  (L.keyFromBytes bytes).mapError fun e => "bad delegator pubkey: " ++ e

def decodeToken (tokenHex : String) : Except String Signature := do
  let token ← (L.hexDecode tokenHex).mapError fun e => "token not hex: " ++ e
  (L.signatureFromBytes token).mapError fun e => "bad token signature: " ++ e

/-- Verify a delegation token: the delegator's signature over the hash of the message. -/
def verifyToken (delegatorHex message tokenHex : String) : Except String Unit := do
  let vk ← decodeKey L delegatorHex
  let sig ← decodeToken L tokenHex
  (L.verifyPrehash vk (L.sha256 (utf8 message)) sig).mapError fun e =>
    "signature verification failed: " ++ e

def verifyRotationDelegation (event : RotationEvent) :
    Except RotationDelegationError RotationDelegation :=
  let kind := event.kind.toNat
  if kind ≠ kindEvmRotation then .error (.wrongKind kind)
  else
    let author := toHex event.pubkey
    match event.delegatee with
    | none => .error .missingNewNpub
    | some delegatee =>
      match event.delegationTag with
      | none => .error .missingDelegationTag
      | some delegation => do
        let (delegator, conditions, tokenHex) ← parseDelegationTag delegation
        if delegator ≠ author then .error (.delegatorMismatch author delegator)
        else do
          validateConditions conditions
          (verifyToken L delegator (delegationString delegatee conditions) tokenHex).mapError
            .invalidToken
          return ⟨author, delegatee, conditions, trim event.content⟩

/-! ### The grammar -/

/-- What `u64::from_str` reads: decimal digits, after an optional plus sign, of a number that fits. -/
def IsNumeral (s : String) : Prop :=
  ∃ digits, (s.toList = digits ∨ s.toList = '+' :: digits) ∧ digits ≠ [] ∧
    (∀ c ∈ digits, c.isDigit = true) ∧ Nat.ofDigitChars 10 digits 0 < 2 ^ 64

/-- A clause about the kind or about the time. -/
def IsClause (s : String) : Prop :=
  ∃ comparison ∈ [("kind", '='), ("created_at", '<'), ("created_at", '>')],
    ∃ number, IsNumeral number ∧ s = comparison.1 ++ comparison.2.toString ++ number

/-- Clauses, with an ampersand between them. -/
def joinClauses (clauses : List String) : String :=
  String.ofList (['&'].intercalate (clauses.map String.toList))

/-- The grammar of conditions: one or more clauses. -/
def IsConditions (s : String) : Prop :=
  ∃ clauses, clauses ≠ [] ∧ (∀ c ∈ clauses, IsClause c) ∧ s = joinClauses clauses

/-- The grammar as it is documented: zero or more clauses. -/
def IsDocumented (s : String) : Prop :=
  ∃ clauses, (∀ c ∈ clauses, IsClause c) ∧ s = joinClauses clauses

/-! ### The validator accepts the grammar -/

variable {s : String}

theorem parseU64_isSome_iff : (parseU64 s).isSome = true ↔ IsNumeral s := by
  have hvalue : ∀ digits : List Char,
      (if digits.isEmpty || !digits.all Char.isDigit then none
        else if Nat.ofDigitChars 10 digits 0 < 2 ^ 64 then some (Nat.ofDigitChars 10 digits 0)
          else none).isSome = true ↔
        digits ≠ [] ∧ (∀ c ∈ digits, c.isDigit = true) ∧ Nat.ofDigitChars 10 digits 0 < 2 ^ 64 := by
    intro digits
    by_cases hempty : digits = []
    · simp [hempty]
    by_cases hall : ∀ c ∈ digits, c.isDigit = true
    · simpa [hempty, all_eq_true.mpr hall] using fun _ => hall
    · have hall' : digits.all Char.isDigit = false := by
        simpa [← Bool.not_eq_true] using hall
      simp [hall', hall]
  rw [parseU64, IsNumeral, hvalue]
  constructor
  · rintro ⟨hne, hall, hlt⟩
    refine ⟨_, ?_, hne, hall, hlt⟩
    split
    · next hplus =>
      right
      exact (cons_head?_tail hplus).symm
    · left
      rfl
  · rintro ⟨digits, hs, hne, hall, hlt⟩
    have hplus : digits.head? ≠ some '+' := by
      intro hhead
      exact absurd (hall '+' (mem_of_mem_head? hhead)) (by decide)
    rcases hs with hs | hs
    · rw [hs, if_neg hplus]
      exact ⟨hne, hall, hlt⟩
    · rw [hs, head?_cons, if_pos rfl, tail_cons]
      exact ⟨hne, hall, hlt⟩

variable {c : Char}

theorem IsNumeral.mem (h : IsNumeral s) (hc : c ∈ s.toList) : c = '+' ∨ c.isDigit = true := by
  obtain ⟨digits, hs, -, hall, -⟩ := h
  rcases hs with hs | hs
  · rw [hs] at hc
    exact Or.inr (hall c hc)
  · rw [hs] at hc
    exact (mem_cons.mp hc).imp_right (hall c)

theorem IsNumeral.notMem (h : IsNumeral s) (hplus : c ≠ '+') (hdigit : c.isDigit = false) :
    c ∉ s.toList := by
  intro hc
  rcases h.mem hc with rfl | hc
  · exact hplus rfl
  · rw [hdigit] at hc
    exact Bool.false_ne_true hc

theorem IsNumeral.ne_empty (h : IsNumeral s) : s.isEmpty = false := by
  obtain ⟨digits, hs, hne, -, -⟩ := h
  rw [Bool.eq_false_iff, Ne, String.isEmpty_iff]
  rintro rfl
  rcases hs with hs | hs
  · exact hne hs.symm
  · nomatch hs

variable {field value : String} {op : Char}

theorem splitOnceOn_append (h : op ∉ field.toList) :
    splitOnceOn (field ++ op.toString ++ value) op = some (field, value) := by
  have hlist : (field ++ op.toString ++ value).toList = field.toList ++ op :: value.toList := by
    simp [Char.toString]
  simp [splitOnceOn, splitOnce_append h, String.ofList_toList]

variable {clause : String}

theorem splitOnceOn_eq_none (h : op ∉ clause.toList) : splitOnceOn clause op = none := by
  simp [splitOnceOn, splitOnce_eq_none_iff.mpr h]

theorem splitOnceOn_eq_some (h : splitOnceOn clause op = some (field, value)) :
    clause = field ++ op.toString ++ value := by
  obtain ⟨⟨pre, post⟩, hcut, heq⟩ := Option.map_eq_some_iff.mp h
  obtain ⟨rfl, rfl⟩ := Prod.mk.inj heq
  refine String.toList_inj.mp ?_
  rw [(splitOnce_eq_some_iff.mp hcut).2]
  simp [Char.toString]

theorem splitClause_eq_some (h : splitClause clause = some (field, op, value)) :
    clause = field ++ op.toString ++ value := by
  obtain ⟨op', -, hop⟩ := exists_of_findSome?_eq_some h
  split at hop
  · next field' value' hcut =>
    obtain ⟨-, hop⟩ := Option.ite_none_right_eq_some.mp hop
    cases hop
    exact splitOnceOn_eq_some hcut
  · nomatch hop

theorem splitClause_append (earlier later : List Char)
    (hops : ['=', '<', '>'] = earlier ++ op :: later) (hfield : field.isEmpty = false)
    (hvalue : value.isEmpty = false) (hop : op ∉ field.toList)
    (hearlier : ∀ c ∈ earlier, c ∉ (field ++ op.toString ++ value).toList) :
    splitClause (field ++ op.toString ++ value) = some (field, op, value) := by
  rw [splitClause, hops, findSome?_append, findSome?_eq_none_iff.mpr, Option.none_or,
    findSome?_cons, splitOnceOn_append hop]
  · simp [hfield, hvalue]
  · intro c hc
    rw [splitOnceOn_eq_none (hearlier c hc)]

theorem notMem_clause {number : String} (hnumber : IsNumeral number) (hfield : c ∉ field.toList)
    (hop : c ≠ op) (hplus : c ≠ '+') (hdigit : c.isDigit = false) :
    c ∉ (field ++ op.toString ++ number).toList := by
  have hnum := hnumber.notMem hplus hdigit
  simp only [String.toList_append, Char.toString, String.toList_singleton, mem_append,
    mem_singleton, not_or]
  exact ⟨⟨hfield, hop⟩, hnum⟩

theorem splitClause_comparison {comparison : String × Char} {number : String}
    (h : comparison ∈ [("kind", '='), ("created_at", '<'), ("created_at", '>')])
    (hnumber : IsNumeral number) :
    splitClause (comparison.1 ++ comparison.2.toString ++ number) =
      some (comparison.1, comparison.2, number) := by
  have hne := hnumber.ne_empty
  simp only [mem_cons, not_mem_nil, or_false] at h
  rcases h with rfl | rfl | rfl
  · exact splitClause_append [] ['<', '>'] rfl rfl hne (by decide) (by simp)
  · refine splitClause_append ['='] ['>'] rfl rfl hne (by decide) ?_
    intro c hc
    obtain rfl := mem_singleton.mp hc
    exact notMem_clause hnumber (by decide) (by decide) (by decide) (by decide)
  · refine splitClause_append ['=', '<'] [] rfl rfl hne (by decide) ?_
    intro c hc
    simp only [mem_cons, not_mem_nil, or_false] at hc
    rcases hc with rfl | rfl
    · exact notMem_clause hnumber (by decide) (by decide) (by decide) (by decide)
    · exact notMem_clause hnumber (by decide) (by decide) (by decide) (by decide)

theorem validateClause_ok_iff : validateClause s = .ok () ↔ IsClause s := by
  rw [validateClause]
  constructor
  · intro h
    split at h
    · nomatch h
    · next field op value hsplit =>
      have hclause := splitClause_eq_some hsplit
      split at h
      · next hkind =>
        split at h
        · next hnumber =>
          obtain ⟨rfl, rfl⟩ := hkind
          exact ⟨("kind", '='), by simp, value, parseU64_isSome_iff.mp hnumber, hclause⟩
        · nomatch h
      split at h
      · next htime =>
        split at h
        · next hnumber =>
          obtain ⟨rfl, rfl | rfl⟩ := htime
          · exact ⟨("created_at", '<'), by simp, value, parseU64_isSome_iff.mp hnumber, hclause⟩
          · exact ⟨("created_at", '>'), by simp, value, parseU64_isSome_iff.mp hnumber, hclause⟩
        · nomatch h
      · nomatch h
  · rintro ⟨comparison, hcomparison, number, hnumber, rfl⟩
    have hparse := parseU64_isSome_iff.mpr hnumber
    rw [splitClause_comparison hcomparison hnumber]
    simp only [mem_cons, not_mem_nil, or_false] at hcomparison
    rcases hcomparison with rfl | rfl | rfl
    · simp [hparse]
    · simp [hparse]
    · simp [hparse]

theorem validateClauses_ok_iff {clauses : List String} :
    validateClauses clauses = .ok () ↔ ∀ c ∈ clauses, IsClause c := by
  induction clauses with
  | nil => simp [validateClauses]
  | cons clause clauses ih =>
    rw [validateClauses, forall_mem_cons, ← ih, ← validateClause_ok_iff, bind_eq_ok_iff]
    constructor
    · rintro ⟨⟨⟩, hclause, hclauses⟩
      exact ⟨hclause, hclauses⟩
    · rintro ⟨hclause, hclauses⟩
      exact ⟨(), hclause, hclauses⟩

/-- A character of a clause is not one that joins or delimits. -/
theorem IsClause.notMem (h : IsClause s) (hc : c = '&' ∨ c = ':') : c ∉ s.toList := by
  obtain ⟨comparison, hcomparison, number, hnumber, rfl⟩ := h
  simp only [mem_cons, not_mem_nil, or_false] at hcomparison
  rcases hc with rfl | rfl <;> rcases hcomparison with rfl | rfl | rfl <;>
    exact notMem_clause hnumber (by decide) (by decide) (by decide) (by decide)

theorem IsClause.ne_nil (h : IsClause s) : s.toList ≠ [] := by
  obtain ⟨comparison, -, number, -, rfl⟩ := h
  simp [Char.toString]

theorem map_ofList_toList (clauses : List String) :
    (clauses.map String.toList).map String.ofList = clauses := by
  rw [map_map]
  exact (map_congr_left fun c _ => String.ofList_toList).trans (map_id clauses)

/-- **The validator accepts the grammar.** -/
theorem validateConditions_ok_iff : validateConditions s = .ok () ↔ IsConditions s := by
  rw [validateConditions]
  constructor
  · intro h
    split at h
    · nomatch h
    · refine ⟨(s.toList.splitOn '&').map String.ofList, ?_, validateClauses_ok_iff.mp h, ?_⟩
      · simp
      · refine String.toList_inj.mp ?_
        have hlists : ((s.toList.splitOn '&').map String.ofList).map String.toList =
            s.toList.splitOn '&' := by
          rw [map_map]
          exact (map_congr_left fun l _ => String.toList_ofList).trans (map_id _)
        rw [joinClauses, String.toList_ofList, hlists, intercalate_splitOn]
  · rintro ⟨clauses, hne, hclauses, rfl⟩
    have hsplit : (joinClauses clauses).toList.splitOn '&' = clauses.map String.toList := by
      rw [joinClauses, String.toList_ofList]
      refine splitOn_intercalate '&' ?_ (by simpa using hne)
      intro l hl
      obtain ⟨c, hc, rfl⟩ := mem_map.mp hl
      exact (hclauses c hc).notMem (Or.inl rfl)
    have hempty : ¬ (joinClauses clauses).isEmpty = true := by
      intro hempty
      rw [String.isEmpty_iff.mp hempty] at hsplit
      obtain ⟨c, rest, rfl⟩ := exists_cons_of_ne_nil hne
      obtain ⟨hnil, -⟩ := cons.inj hsplit
      exact (hclauses c mem_cons_self).ne_nil hnil.symm
    rw [if_neg hempty, hsplit, map_ofList_toList]
    exact validateClauses_ok_iff.mpr hclauses

/-! ### What is signed -/

theorem IsConditions.notMem_colon (h : IsConditions s) : ':' ∉ s.toList := by
  obtain ⟨clauses, -, hclauses, rfl⟩ := h
  rw [joinClauses, String.toList_ofList]
  intro hmem
  rcases mem_intercalate hmem with hsep | ⟨l, hl, hc⟩
  · exact absurd hsep (by decide)
  · obtain ⟨c, hmem, rfl⟩ := mem_map.mp hl
    exact (hclauses c hmem).notMem (Or.inr rfl) hc

theorem toList_labelled (label delegatee conditions : String) :
    (label ++ delegatee ++ ":" ++ conditions).toList =
      (label.toList ++ delegatee.toList) ++ ':' :: conditions.toList := by
  simp [String.toList_append]

theorem toList_delegationString (delegatee conditions : String) :
    (delegationString delegatee conditions).toList =
      ("nostr:delegation:".toList ++ delegatee.toList) ++ ':' :: conditions.toList :=
  toList_labelled _ _ _

/-- **The message determines its parts**: the conditions follow the last colon. -/
theorem delegationString_inj {delegatee delegatee' conditions conditions' : String}
    (h : validateConditions conditions = .ok ()) (h' : validateConditions conditions' = .ok ())
    (heq : delegationString delegatee conditions = delegationString delegatee' conditions') :
    delegatee = delegatee' ∧ conditions = conditions' := by
  have hlists := congrArg String.toList heq
  rw [toList_delegationString, toList_delegationString] at hlists
  obtain ⟨hpre, hpost⟩ := append_cons_inj_right
    (validateConditions_ok_iff.mp h).notMem_colon (validateConditions_ok_iff.mp h').notMem_colon hlists
  exact ⟨String.toList_inj.mp (append_cancel_left hpre), String.toList_inj.mp hpost⟩

/-! ### Verified delegations -/

/-- An event is accepted as a delegation, with this token. -/
structure Accepted (event : RotationEvent) (r : RotationDelegation) (tokenHex : String) : Prop where
  verified : verifyRotationDelegation L event = .ok r
  token : ∃ label, event.delegationTag = some [label, r.delegator, r.conditions, tokenHex]

/-- A token of a delegator is a signature over one digest. -/
def OneDigest (delegatorHex tokenHex : String) : Prop :=
  ∀ vk sig digest digest', decodeKey L delegatorHex = .ok vk → decodeToken L tokenHex = .ok sig →
    L.verifyPrehash vk digest sig = .ok () → L.verifyPrehash vk digest' sig = .ok () →
      digest = digest'

variable {L} {event event' : RotationEvent} {r r' : RotationDelegation} {tokenHex : String}

theorem parseDelegationTag_ok {parts : List String} {delegator conditions token : String}
    (h : parseDelegationTag parts = .ok (delegator, conditions, token)) :
    ∃ label, parts = [label, delegator, conditions, token] := by
  unfold parseDelegationTag at h
  split at h
  · split at h
    · nomatch h
    · cases h
      exact ⟨_, rfl⟩
  · nomatch h

theorem verifyRotationDelegation_ok (h : verifyRotationDelegation L event = .ok r) :
    ∃ label token, event.delegatee = some r.delegatee ∧
      event.delegationTag = some [label, r.delegator, r.conditions, token] ∧
      r.delegator = toHex event.pubkey ∧ validateConditions r.conditions = .ok () ∧
      verifyToken L r.delegator (delegationString r.delegatee r.conditions) token = .ok () := by
  rw [verifyRotationDelegation] at h
  dsimp only at h
  split at h
  · nomatch h
  split at h
  · nomatch h
  next delegatee hdelegatee =>
  split at h
  · nomatch h
  next delegation hdelegation =>
  obtain ⟨⟨delegator, conditions, token⟩, hparse, hchecks⟩ := bind_eq_ok_iff.mp h
  obtain ⟨label, rfl⟩ := parseDelegationTag_ok hparse
  dsimp only at hchecks
  split at hchecks
  · nomatch hchecks
  next hauthor =>
  obtain ⟨⟨⟩, hconditions, hrest⟩ := bind_eq_ok_iff.mp hchecks
  obtain ⟨⟨⟩, htoken, hrest⟩ := bind_eq_ok_iff.mp hrest
  obtain rfl := Except.ok.inj hrest
  rw [not_not] at hauthor
  subst hauthor
  exact ⟨label, token, hdelegatee, hdelegation, rfl, hconditions, mapError_ok_iff.mp htoken⟩

theorem verifyToken_ok {delegatorHex message : String}
    (h : verifyToken L delegatorHex message tokenHex = .ok ()) :
    ∃ vk sig, decodeKey L delegatorHex = .ok vk ∧ decodeToken L tokenHex = .ok sig ∧
      L.verifyPrehash vk (L.sha256 (utf8 message)) sig = .ok () := by
  rw [verifyToken] at h
  obtain ⟨vk, hkey, h⟩ := bind_eq_ok_iff.mp h
  obtain ⟨sig, hsig, h⟩ := bind_eq_ok_iff.mp h
  exact ⟨vk, sig, hkey, hsig, mapError_ok_iff.mp h⟩

theorem Accepted.signs (h : Accepted L event r tokenHex) :
    validateConditions r.conditions = .ok () ∧
      ∃ vk sig, decodeKey L r.delegator = .ok vk ∧ decodeToken L tokenHex = .ok sig ∧
        L.verifyPrehash vk (L.sha256 r.message) sig = .ok () := by
  obtain ⟨label, token, -, htag, -, hconditions, htoken⟩ := verifyRotationDelegation_ok h.verified
  obtain ⟨label', htag'⟩ := h.token
  rw [htag] at htag'
  obtain ⟨-, rfl⟩ := htag'
  exact ⟨hconditions, verifyToken_ok htoken⟩

theorem Accepted.same (h : Accepted L event r tokenHex) (h' : Accepted L event' r' tokenHex)
    (hdelegator : r.delegator = r'.delegator) (hone : OneDigest L r.delegator tokenHex)
    (hfree : CollisionFree L.sha256 [r.message, r'.message]) :
    r.delegatee = r'.delegatee ∧ r.conditions = r'.conditions := by
  obtain ⟨hconditions, vk, sig, hkey, hsig, hverify⟩ := h.signs
  obtain ⟨hconditions', vk', sig', hkey', hsig', hverify'⟩ := h'.signs
  rw [← hdelegator, hkey] at hkey'
  cases hkey'
  rw [hsig] at hsig'
  cases hsig'
  have hdigest := hone vk sig _ _ hkey hsig hverify hverify'
  have hmessage := hfree r.message (by simp) r'.message (by simp) hdigest
  exact delegationString_inj hconditions hconditions' (utf8_injective hmessage)

variable (L) in
/-- **Delegation strings are unambiguous.** With conditions that the validator accepts, the string
determines the delegatee and the conditions; the validator accepts the grammar; and a token that is
accepted twice, for one delegator, is accepted for one delegatee and one scope. -/
theorem delegation_unambiguous :
    (∀ delegatee delegatee' conditions conditions', validateConditions conditions = .ok () →
      validateConditions conditions' = .ok () →
        delegationString delegatee conditions = delegationString delegatee' conditions' →
          delegatee = delegatee' ∧ conditions = conditions') ∧
    (∀ s, validateConditions s = .ok () ↔ IsConditions s) ∧
    ∀ event event' r r' tokenHex, Accepted L event r tokenHex → Accepted L event' r' tokenHex →
      r.delegator = r'.delegator → OneDigest L r.delegator tokenHex →
        CollisionFree L.sha256 [r.message, r'.message] →
          r.delegatee = r'.delegatee ∧ r.conditions = r'.conditions := by
  refine ⟨?_, fun s => validateConditions_ok_iff, ?_⟩
  · intro delegatee delegatee' conditions conditions' h h' heq
    exact delegationString_inj h h' heq
  · intro event event' r r' tokenHex h h' hdelegator hone hfree
    exact h.same h' hdelegator hone hfree

/-- Conditions of no clause are documented, and rejected. -/
theorem not_documented : ¬ ∀ s, validateConditions s = .ok () ↔ IsDocumented s := by
  intro hall
  have hempty : IsDocumented "" := ⟨[], by simp, rfl⟩
  nomatch (hall "").mpr hempty

end Buzz.Rotation
