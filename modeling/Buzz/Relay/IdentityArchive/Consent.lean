import Buzz.Relay.IdentityArchive.Handler

/-!
# What the checks of the identity archive establish

When a request is fresh, whom it names, and which tags are consent of an owner.
-/

namespace Buzz.IdentityArchive

open List
open NipOa

/-! ### Freshness -/

/-- The two times are at most 120 seconds apart, modulo `2 ^ 64`; or exactly `2 ^ 63` seconds, where
the absolute value of the difference overflows. -/
def Fresh (createdAt clock : UInt64) : Prop :=
  let apart := ((createdAt.toNat : Int) - clock.toNat).natAbs
  apart ≤ 120 ∨ 2 ^ 64 - 120 ≤ apart ∨ apart = 2 ^ 63

instance (createdAt clock : UInt64) : Decidable (Fresh createdAt clock) :=
  inferInstanceAs (Decidable (_ ∨ _))

theorem toInt_abs (x : Int64) :
    x.abs.toInt = if x.toInt = -2 ^ 63 then -2 ^ 63 else (x.toInt.natAbs : Int) := by
  have habs := BitVec.toInt_abs_eq_natAbs (x := x.toBitVec)
  have hmin : x.toBitVec = BitVec.intMin 64 ↔ x.toBitVec.toInt = -2 ^ 63 := by
    rw [← BitVec.toInt_inj]
    rfl
  show x.toBitVec.abs.toInt = if x.toBitVec.toInt = _ then _ else (x.toBitVec.toInt.natAbs : Int)
  rw [habs]
  by_cases h : x.toBitVec.toInt = -2 ^ 63
  · rw [if_pos h, if_pos (hmin.mpr h)]
    decide
  · rw [if_neg h, if_neg fun heq => h (hmin.mp heq)]

variable {event : NostrEvent}

/-- **The freshness check.** -/
theorem enforceFreshness_ok_iff {clock : UInt64} :
    enforceFreshness event clock = .ok () ↔ Fresh event.createdAt clock := by
  have hcheck : enforceFreshness event clock = .ok () ↔
      ¬(event.createdAt.toInt64 - clock.toInt64).abs > 120 := by
    rw [enforceFreshness]
    split <;> simp [*]
  have hcreated : event.createdAt.toInt64.toInt = (event.createdAt.toNat : Int).bmod (2 ^ 64) :=
    BitVec.toInt_eq_toNat_bmod _
  have hclock : clock.toInt64.toInt = (clock.toNat : Int).bmod (2 ^ 64) :=
    BitVec.toInt_eq_toNat_bmod _
  have hcreatedLt := event.createdAt.toNat_lt
  have hclockLt := clock.toNat_lt
  rw [hcheck, gt_iff_lt, Int64.lt_iff_toInt_lt, toInt_abs, Int64.toInt_sub, hcreated, hclock,
    Int.bmod_sub_bmod, Int.sub_bmod_bmod, Fresh, show (120 : Int64).toInt = 120 from rfl]
  generalize event.createdAt.toNat = m at hcreatedLt
  generalize clock.toNat = n at hclockLt
  rw [Int.bmod_def]
  split <;> split <;> omega

/-! ### Tags -/

def tagsNamed (name : String) (tags : List (List String)) : List (List String) :=
  tags.filter fun tag => tag.head? == some name

@[simp] theorem tagsNamed_nil (name : String) : tagsNamed name [] = [] := rfl

variable {tag : List String}

theorem tagsNamed_cons_of_eq {name : String} (h : tag.head? = some name)
    (tags : List (List String)) : tagsNamed name (tag :: tags) = tag :: tagsNamed name tags :=
  filter_cons_of_pos (by simp [h])

theorem tagsNamed_cons_of_ne {name : String} (h : tag.head? ≠ some name)
    (tags : List (List String)) : tagsNamed name (tag :: tags) = tagsNamed name tags :=
  filter_cons_of_neg (by simp [h])

theorem requireSingleProtectedTag_ok_iff :
    requireSingleProtectedTag event = .ok () ↔ (tagsNamed "-" event.tags).length = 1 := by
  rw [requireSingleProtectedTag, tagsNamed]
  split <;> simp_all

variable {tags : List (List String)}

theorem findPTag_eq_some_iff {found : Option String} {v : String} :
    findPTag found tags = some v ↔
      (found = some v ∧ tagsNamed "p" tags = []) ∨
        (found = none ∧ ∃ rest, tagsNamed "p" tags = ["p" :: v :: rest] ∧ isHex64 v = true) := by
  induction tags generalizing found with
  | nil => simp [findPTag]
  | cons tag tags ih =>
    rw [findPTag]
    by_cases hname : tag.head? = some "p"
    · rw [if_neg (not_not.mpr hname), tagsNamed_cons_of_eq hname]
      cases tag with
      | nil => simp at hname
      | cons name tag =>
        obtain rfl : name = "p" := by simpa using hname
        cases tag with
        | nil => simp
        | cons val rest =>
          have hget : ("p" :: val :: rest)[1]? = some val := rfl
          rw [hget]
          dsimp only
          cases hhex : isHex64 val with
          | false =>
            simp only [Bool.not_false, if_true, reduceCtorEq, cons_ne_nil, and_false, false_or,
              false_iff, not_and, not_exists]
            rintro - more heq
            obtain ⟨rfl, -⟩ : val = v ∧ rest = more := by simpa using (cons.inj heq).1
            simp [hhex]
          | true =>
            cases found with
            | some w => simp
            | none =>
              rw [if_neg (by simp), if_neg (by simp), ih]
              constructor
              · rintro (⟨hval, hnone⟩ | ⟨hsome, -⟩)
                · cases hval
                  exact Or.inr ⟨rfl, rest, by rw [hnone], hhex⟩
                · cases hsome
              · rintro (⟨hsome, -⟩ | ⟨-, more, heq, -⟩)
                · cases hsome
                · obtain ⟨htag, hnone⟩ := cons.inj heq
                  obtain ⟨rfl, -⟩ : val = v ∧ rest = more := by simpa using htag
                  exact Or.inl ⟨rfl, hnone⟩
    · rw [if_pos hname, ih, tagsNamed_cons_of_ne hname]

theorem extractSinglePTagHex_eq_some_iff {v : String} :
    extractSinglePTagHex event = some v ↔
      ∃ rest, tagsNamed "p" event.tags = ["p" :: v :: rest] ∧ isHex64 v = true := by
  rw [extractSinglePTagHex, findPTag_eq_some_iff]
  simp

/-- The only `p` tag names the target, in either case. -/
def NamesTarget (event : NostrEvent) (targetHex : String) : Prop :=
  ∃ v rest, tagsNamed "p" event.tags = ["p" :: v :: rest] ∧ isHex64 v = true ∧
    targetHex = toAsciiLowercase v

theorem NamesTarget.unique {s t : String} (hs : NamesTarget event s) (ht : NamesTarget event t) :
    s = t := by
  obtain ⟨v, rest, hv, -, rfl⟩ := hs
  obtain ⟨w, more, hw, -, rfl⟩ := ht
  have heq := hv.symm.trans hw
  obtain ⟨rfl, -⟩ : v = w ∧ rest = more := by simpa using heq
  rfl

variable {targetHex : String}

theorem findReplacedBy_of_none (h : tagsNamed "replaced-by" tags = []) (found : Option String) :
    findReplacedBy targetHex found tags = .ok found := by
  induction tags with
  | nil => rfl
  | cons tag tags ih =>
    by_cases hname : tag.head? = some "replaced-by"
    · rw [tagsNamed_cons_of_eq hname] at h
      cases h
    · rw [findReplacedBy, if_pos hname]
      exact ih (by rwa [tagsNamed_cons_of_ne hname] at h)

theorem findAuthTag_ok_iff {found : Option (List String)} {parts : List String} :
    findAuthTag found tags = .ok (some parts) ↔
      (found = some parts ∧ tagsNamed "auth" tags = []) ∨
        (found = none ∧ tagsNamed "auth" tags = [parts] ∧ parts.length = 4) := by
  induction tags generalizing found with
  | nil => simp [findAuthTag]
  | cons tag tags ih =>
    rw [findAuthTag]
    by_cases hname : tag.head? = some "auth"
    · rw [if_neg (not_not.mpr hname), tagsNamed_cons_of_eq hname]
      by_cases hlength : tag.length = 4
      · rw [if_neg (not_not.mpr hlength)]
        cases found with
        | some other => simp
        | none =>
          rw [if_neg (by simp), ih]
          constructor
          · rintro (⟨htag, hnone⟩ | ⟨hsome, -⟩)
            · cases htag
              exact Or.inr ⟨rfl, by rw [hnone], hlength⟩
            · cases hsome
          · rintro (⟨hsome, -⟩ | ⟨-, heq, -⟩)
            · cases hsome
            · obtain ⟨rfl, hnone⟩ := cons.inj heq
              exact Or.inl ⟨rfl, hnone⟩
      · rw [if_pos hlength]
        simp only [reduceCtorEq, cons_ne_nil, and_false, false_or, false_iff, not_and]
        rintro - heq
        obtain ⟨rfl, -⟩ := cons.inj heq
        exact hlength
    · rw [if_pos hname, ih, tagsNamed_cons_of_ne hname]

variable {json : String}

theorem extractSingleAuthTagJson_ok_iff :
    extractSingleAuthTagJson event = .ok json ↔
      ∃ parts, tagsNamed "auth" event.tags = [parts] ∧ parts.length = 4 ∧
        json = jsonText parts := by
  rw [extractSingleAuthTagJson, bind_ok_iff]
  constructor
  · rintro ⟨found, hfound, hjson⟩
    cases found with
    | none => cases hjson
    | some parts =>
      obtain ⟨hsome, -⟩ | ⟨-, htags, hlength⟩ := findAuthTag_ok_iff.mp hfound
      · cases hsome
      · exact ⟨parts, htags, hlength, (Except.ok.inj hjson).symm⟩
  · rintro ⟨parts, htags, hlength, rfl⟩
    exact ⟨some parts, findAuthTag_ok_iff.mpr (Or.inr ⟨rfl, htags, hlength⟩), rfl⟩

/-! ### Consent of an owner -/

variable {Sig Digest : Type} {R : Relay Sig Digest}

/-- The only `auth` tag, as it is read back, proves that the owner has authorised the agent. -/
structure Attests (R : Relay Sig Digest) (event : NostrEvent) (agent owner : Key) (t : AuthTag) :
    Prop where
  only : ∃ parts, tagsNamed "auth" event.tags = [parts] ∧ parts.length = 4 ∧
    R.crypto.fromStr (jsonText parts) = some t.toJson
  verifies : Verifies R.crypto t agent owner

/-- The request carries the consent of its signer as the owner of the target. -/
def RequestConsent (R : Relay Sig Digest) (event : NostrEvent) (targetHex : String) : Prop :=
  ∃ agent t clauses, R.crypto.fromHex targetHex = some agent ∧ Attests R event agent event.pubkey t ∧
    IsConditions clauses t.conditions ∧ ∀ c ∈ clauses, c.Met event.createdAt.toNat

/-- The profile of the target names the owner. -/
def ProfileConsent (R : Relay Sig Digest) (profile : NostrEvent) (targetHex : String)
    (owner : Key) : Prop :=
  Pairing.hexOfBytes32 profile.pubkey = targetHex ∧
    ∃ agent t, R.crypto.fromHex targetHex = some agent ∧ Attests R profile agent owner t

theorem targetKey_ok_iff {key : Key} :
    R.targetKey targetHex = .ok key ↔ R.crypto.fromHex targetHex = some key := by
  rw [Relay.targetKey]
  cases R.crypto.fromHex targetHex with
  | none => simp
  | some key' => simp

theorem verifyAuthTagOwner_ok_iff {ownerHex : String} :
    verifyAuthTagOwner R json targetHex = .ok ownerHex ↔
      ∃ agent owner t, R.crypto.fromHex targetHex = some agent ∧
        R.crypto.fromStr json = some t.toJson ∧ Verifies R.crypto t agent owner ∧
          Pairing.hexOfBytes32 owner = ownerHex := by
  rw [verifyAuthTagOwner, bind_ok_iff]
  constructor
  · rintro ⟨agent, hagent, howner⟩
    rw [mapError_ok_iff] at howner
    cases hverified : verifyAuthTag R.crypto json agent with
    | error e =>
      rw [hverified] at howner
      cases howner
    | ok owner =>
      rw [hverified] at howner
      obtain ⟨t, hjson, ht⟩ := verifyAuthTag_ok_iff.mp hverified
      exact ⟨agent, owner, t, targetKey_ok_iff.mp hagent, hjson, ht, Except.ok.inj howner⟩
  · rintro ⟨agent, owner, t, hagent, hjson, ht, rfl⟩
    refine ⟨agent, targetKey_ok_iff.mpr hagent, mapError_ok_iff.mpr ?_⟩
    rw [verifyAuthTag_ok_iff.mpr ⟨t, hjson, ht⟩]
    rfl

theorem parseStrings_toJson {t : AuthTag} (h : R.crypto.fromStr json = some t.toJson) :
    R.parseStrings json = some ["auth", t.ownerHex, t.conditions, t.sigHex] := by
  rw [Relay.parseStrings, h]
  rfl

variable {createdAt : UInt64}

theorem enforceClause_text_ok_iff {c : Clause} (h : c.InRange) :
    enforceClause createdAt c.text = .ok () ↔ c.Met createdAt.toNat := by
  cases c with
  | kind n =>
    have hbefore : stripPrefix ("kind=" ++ toString n) "created_at<" = none :=
      stripPrefix_eq_none fun u v h => by simp at h
    have hafter : stripPrefix ("kind=" ++ toString n) "created_at>" = none :=
      stripPrefix_eq_none fun u v h => by simp at h
    rw [Clause.text, enforceClause, hbefore, hafter]
    simp [Clause.Met]
  | createdBefore t =>
    have hvalue : parseU64 (toString t) = some t :=
      parseU64_repr (by simp only [Clause.InRange] at h; omega)
    rw [Clause.text, enforceClause, stripPrefix_append]
    dsimp only
    rw [hvalue]
    dsimp only [Clause.Met]
    split
    · next hle => exact iff_of_false (by simp) (by omega)
    · next hlt => exact iff_of_true rfl (by omega)
  | createdAfter t =>
    have hvalue : parseU64 (toString t) = some t :=
      parseU64_repr (by simp only [Clause.InRange] at h; omega)
    have hbefore : stripPrefix ("created_at>" ++ toString t) "created_at<" = none :=
      stripPrefix_eq_none fun u v h => by simp at h
    rw [Clause.text, enforceClause, hbefore, stripPrefix_append]
    dsimp only
    rw [hvalue]
    dsimp only [Clause.Met]
    split
    · next hle => exact iff_of_false (by simp) (by omega)
    · next hlt => exact iff_of_true rfl (by omega)

variable {clauses : List Clause}

theorem enforceClauses_map_text_ok_iff (h : ∀ c ∈ clauses, c.InRange) :
    enforceClauses createdAt (clauses.map Clause.text) = .ok () ↔
      ∀ c ∈ clauses, c.Met createdAt.toNat := by
  induction clauses with
  | nil => simp [enforceClauses]
  | cons c clauses ih =>
    obtain ⟨hc, hclauses⟩ := forall_mem_cons.mp h
    rw [map_cons, enforceClauses, bind_ok_iff, forall_mem_cons,
      ← enforceClause_text_ok_iff hc, ← ih hclauses]
    constructor
    · rintro ⟨_, hone, hrest⟩
      exact ⟨hone, hrest⟩
    · rintro ⟨hone, hrest⟩
      exact ⟨(), hone, hrest⟩

theorem splitClauses_of_isConditions {s : String} (h : IsConditions clauses s) :
    (((s.toList.splitOn '&').map String.ofList).filter fun clause => !clause.isEmpty) =
      clauses.map Clause.text := by
  obtain ⟨-, rfl⟩ := h
  cases clauses with
  | nil =>
    rw [conditionsText, String.toList_ofList]
    rfl
  | cons c cs =>
    have hsame : ((c :: cs).map fun c : Clause => c.text.toList).map String.ofList =
        (c :: cs).map Clause.text := by
      rw [map_map]
      exact congrArg (map · (c :: cs)) (funext fun c => String.ofList_toList)
    rw [splitOn_conditionsText, hsame, filter_eq_self]
    intro text htext
    obtain ⟨d, -, rfl⟩ := mem_map.mp htext
    have hne := (notMem_text d).2.1
    simp only [Bool.not_eq_true', Bool.eq_false_iff]
    exact fun hempty => hne (isEmpty_iff.mp hempty)

theorem enforceRequestAuthTimeBounds_ok_iff {t : AuthTag}
    (h : R.crypto.fromStr json = some t.toJson) (hclauses : IsConditions clauses t.conditions) :
    enforceRequestAuthTimeBounds R json createdAt = .ok () ↔
      ∀ c ∈ clauses, c.Met createdAt.toNat := by
  rw [enforceRequestAuthTimeBounds, parseStrings_toJson h]
  show enforceClauses createdAt _ = .ok () ↔ _
  rw [splitClauses_of_isConditions hclauses, enforceClauses_map_text_ok_iff hclauses.inRange]

/-- **The request carries consent**, when the check passes. -/
theorem requestConsent_of_check
    (h : checkRequestAuth R event targetHex (Pairing.hexOfBytes32 event.pubkey) = .ok ()) :
    RequestConsent R event targetHex := by
  obtain ⟨json, hjson, hrest⟩ := bind_ok_iff.mp h
  obtain ⟨ownerHex, howner, hbounds⟩ := bind_ok_iff.mp hrest
  obtain ⟨parts, htags, hlength, rfl⟩ := extractSingleAuthTagJson_ok_iff.mp hjson
  obtain ⟨agent, owner, t, hagent, hread, ht, rfl⟩ :=
    verifyAuthTagOwner_ok_iff.mp (mapError_ok_iff.mp howner)
  split at hbounds
  · cases hbounds
  next hsame =>
  obtain rfl := hexOfBytes32_injective (not_ne_iff.mp hsame)
  obtain ⟨clauses, hclauses⟩ := ht.conditions
  exact ⟨agent, t, clauses, hagent, ⟨⟨parts, htags, hlength, hread⟩, ht⟩, hclauses,
    (enforceRequestAuthTimeBounds_ok_iff hread hclauses).mp hbounds⟩

variable {profile : NostrEvent}

/-- **The profile names the owner**, when the check passes. -/
theorem profileConsent_of_check {owner : Key}
    (h : checkProfileAuth R profile targetHex (Pairing.hexOfBytes32 owner) = .ok ()) :
    ProfileConsent R profile targetHex owner := by
  rw [checkProfileAuth] at h
  split at h
  · cases h
  next hauthor =>
  obtain ⟨json, hjson, hrest⟩ := bind_ok_iff.mp h
  obtain ⟨ownerHex, howner, hlast⟩ := bind_ok_iff.mp hrest
  obtain ⟨parts, htags, hlength, rfl⟩ := extractSingleAuthTagJson_ok_iff.mp hjson
  obtain ⟨agent, owner', t, hagent, hread, ht, rfl⟩ :=
    verifyAuthTagOwner_ok_iff.mp (mapError_ok_iff.mp howner)
  split at hlast
  · cases hlast
  next hsame =>
  obtain rfl := hexOfBytes32_injective (not_ne_iff.mp hsame)
  exact ⟨not_ne_iff.mp hauthor, agent, t, hagent, ⟨parts, htags, hlength, hread⟩, ht⟩

/-! ### The latest profile -/

/-- The event is a live profile of the author, and no other one comes before it. -/
structure LatestProfile (s : Store) (c : CommunityId) (author : Key) (profile : NostrEvent) :
    Prop where
  live : ∃ row ∈ s.events c, row.event = profile ∧ row.isLive kindProfile author = true
  latest : ∀ row ∈ s.events c, row.isLive kindProfile author = true →
    profile.precedes row.event = true

theorem precedes_total (a b : NostrEvent) : (a.precedes b || b.precedes a) = true := by
  simp only [NostrEvent.precedes, Bool.or_eq_true, Bool.and_eq_true, decide_eq_true_eq, beq_iff_eq]
  obtain hlt | heq | hgt := Nat.lt_trichotomy a.createdAt.toNat b.createdAt.toNat
  · exact Or.inr (Or.inl hlt)
  · have hcreated := UInt64.toNat_inj.mp heq
    obtain hle | hle := List.le_total a.id.toList b.id.toList
    · exact Or.inl (Or.inr ⟨hcreated, hle⟩)
    · exact Or.inr (Or.inr ⟨hcreated.symm, hle⟩)
  · exact Or.inl (Or.inl hgt)

theorem precedes_trans (a b c : NostrEvent) (hab : a.precedes b = true)
    (hbc : b.precedes c = true) : a.precedes c = true := by
  simp only [NostrEvent.precedes, Bool.or_eq_true, Bool.and_eq_true, decide_eq_true_eq,
    beq_iff_eq] at hab hbc ⊢
  obtain hlt | ⟨heq, hle⟩ := hab
  · obtain hlt' | ⟨heq', -⟩ := hbc
    · exact Or.inl (UInt64.lt_trans hlt' hlt)
    · exact Or.inl (heq' ▸ hlt)
  · obtain hlt' | ⟨heq', hle'⟩ := hbc
    · exact Or.inl (heq ▸ hlt')
    · exact Or.inr ⟨heq.trans heq', List.le_trans hle hle'⟩

theorem latestProfile_of_newest {s : Store} {c : CommunityId} {author : Key}
    (h : s.newest c kindProfile author = some profile) : LatestProfile s c author profile := by
  rw [Store.newest] at h
  generalize hrows : (s.events c).filter (·.isLive kindProfile author) = rows at h
  have hsorted := pairwise_mergeSort precedes_trans precedes_total
    (rows.map EventRow.event)
  have hmem : ∀ e, e ∈ (rows.map EventRow.event).mergeSort NostrEvent.precedes ↔
      ∃ row ∈ s.events c, row.event = e ∧ row.isLive kindProfile author = true := by
    intro e
    rw [mem_mergeSort, mem_map, ← hrows]
    constructor
    · rintro ⟨row, hrow, rfl⟩
      obtain ⟨hrow, hlive⟩ := mem_filter.mp hrow
      exact ⟨row, hrow, rfl, hlive⟩
    · rintro ⟨row, hrow, rfl, hlive⟩
      exact ⟨row, mem_filter.mpr ⟨hrow, hlive⟩, rfl⟩
  cases hlist : (rows.map EventRow.event).mergeSort NostrEvent.precedes with
  | nil =>
    rw [hlist] at h
    cases h
  | cons first others =>
    rw [hlist] at h hmem hsorted
    obtain rfl : first = profile := by simpa using h
    refine ⟨(hmem first).mp mem_cons_self, fun row hrow hlive => ?_⟩
    obtain heq | hother := mem_cons.mp ((hmem row.event).mpr ⟨row, hrow, rfl, hlive⟩)
    · rw [heq]
      simpa using precedes_total first first
    · exact (pairwise_cons.mp hsorted).1 _ hother

end Buzz.IdentityArchive
