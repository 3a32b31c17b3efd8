import Buzz.Core.Text
import Buzz.ReadState.Override

/-!
# Devices and their wire form

A device keeps a frontier and a register for each context. It publishes both in one flat dictionary
from strings to numbers: frontiers under escaped context ids, registers under `ov_s:`, `ov_c:` and
`ov_b:` keys. Registers are made canonical when they are published.

A dictionary keeps the order in which keys were inserted; nothing here depends on that order.
-/

namespace Buzz.ReadState

open List

/-- A dictionary with strings as keys. -/
abbrev Dict (ν : Type) := AList fun _ : String => ν

/-! ### Escaping -/

def escapePrefix : String := "esc:"

def reservedStem : String := "ov_"

def needsEscape (rawKey : String) : Bool :=
  startsWith rawKey reservedStem || startsWith rawKey escapePrefix

def escapeContextKey (rawKey : String) : String :=
  if needsEscape rawKey then escapePrefix ++ rawKey else rawKey

def unescapeContextKey (wireKey : String) : String :=
  (stripPrefix wireKey escapePrefix).getD wireKey

/-! ### Devices -/

/-- `DeviceB`. -/
structure Device where
  clientId : String
  isLegacy : Bool
  frontier : Dict ℕ
  overrides : Dict RegB

structure Blob where
  v : ℕ
  clientId : String
  contexts : Dict ℕ

namespace Device

def new (clientId : String) (isLegacy : Bool) : Device := ⟨clientId, isLegacy, ∅, ∅⟩

def effectiveFrontier (d : Device) (ctx : String) : ℕ := (d.frontier.lookup ctx).getD 0

def overrideIsSet (d : Device) (ctx : String) (tiePolicy : TiePolicy) : Bool :=
  overrideSetB (d.overrides.lookup ctx) (d.effectiveFrontier ctx) tiePolicy

def bump (s c : ℕ) : ℕ := max s c + 1

def doMarkUnread (ctx : String) (d : Device) : Device :=
  if d.isLegacy then d
  else
    let cur := (d.overrides.lookup ctx).getD {}
    { d with overrides :=
        d.overrides.insert ctx ⟨bump cur.s cur.c, cur.c, d.effectiveFrontier ctx⟩ }

def doAdvanceFrontier (ctx : String) (ts : ℕ) (d : Device) : Device :=
  { d with frontier := d.frontier.insert ctx (max (d.effectiveFrontier ctx) ts) }

def doMarkRead (ctx : String) (frontierTs : ℕ) (d : Device) : Device :=
  let d := d.doAdvanceFrontier ctx frontierTs
  if d.isLegacy then d
  else
    let cur := (d.overrides.lookup ctx).getD {}
    { d with overrides := d.overrides.insert ctx ⟨cur.s, bump cur.s cur.c, cur.b⟩ }

def doCompact (ctx : String) (tiePolicy : TiePolicy) (d : Device) : Device :=
  match d.overrides.lookup ctx with
  | none => d
  | some reg =>
    match compactB reg (d.effectiveFrontier ctx) tiePolicy with
    | none => { d with overrides := d.overrides.erase ctx }
    | some result => { d with overrides := d.overrides.insert ctx result }

def canonicalizeForPublish (d : Device) (ctx : String) (tiePolicy : TiePolicy) :
    Bool × Option RegB :=
  match d.overrides.lookup ctx with
  | none => (false, none)
  | some reg =>
    let front := d.effectiveFrontier ctx
    match compactB reg front tiePolicy with
    | none => (false, none)
    | some canonical => (overrideSetB (some canonical) front tiePolicy, some canonical)

def publishOverride (d : Device) (tiePolicy : TiePolicy) (blobCtx : Dict ℕ) (k : String) : Dict ℕ :=
  match d.canonicalizeForPublish k tiePolicy with
  | (_, none) => blobCtx
  | (true, some canonical) =>
    ((blobCtx.insert ("ov_s:" ++ k) canonical.s).insert ("ov_c:" ++ k) canonical.c).insert
      ("ov_b:" ++ k) canonical.b
  | (false, some canonical) => blobCtx.insert ("ov_c:" ++ k) canonical.c

def publishFrontier (d : Device) : Dict ℕ :=
  d.frontier.foldl (fun blobCtx k v => blobCtx.insert (escapeContextKey k) v) ∅

def publishBlob (d : Device) (tiePolicy : TiePolicy) : Blob where
  v := 1
  clientId := d.clientId
  contexts :=
    if d.isLegacy then d.publishFrontier
    else
      d.overrides.foldl (fun blobCtx k _ => d.publishOverride tiePolicy blobCtx k) d.publishFrontier

/-- What an entry of a blob does to the frontiers, and to the registers that come with the blob. -/
def receiveEntry (state : Dict ℕ × Dict RegB) (k : String) (v : ℕ) : Dict ℕ × Dict RegB :=
  let incoming (ctx : String) := (state.2.lookup ctx).getD {}
  match stripPrefix k "ov_s:" with
  | some ctx => (state.1, state.2.insert ctx { incoming ctx with s := v })
  | none =>
    match stripPrefix k "ov_c:" with
    | some ctx => (state.1, state.2.insert ctx { incoming ctx with c := v })
    | none =>
      match stripPrefix k "ov_b:" with
      | some ctx => (state.1, state.2.insert ctx { incoming ctx with b := v })
      | none =>
        let ctx := unescapeContextKey k
        (state.1.insert ctx (max ((state.1.lookup ctx).getD 0) v), state.2)

def mergeOverride (overrides : Dict RegB) (ctx : String) (incoming : RegB) : Dict RegB :=
  (mergeRegB (overrides.lookup ctx) (some incoming)).elim overrides fun reg =>
    overrides.insert ctx reg

def receiveMerge (blob : Blob) (d : Device) : Device :=
  let received := blob.contexts.foldl receiveEntry (d.frontier, ∅)
  { d with
    frontier := received.1
    overrides := if d.isLegacy then d.overrides else received.2.foldl mergeOverride d.overrides }

end Device

/-! ### Folds over dictionaries -/

section Fold

variable {ν σ γ : Type} {m : Dict ν} {f : σ → String → ν → σ}

theorem foldl_of_key {φ : σ → γ} {k : String} {g : ν → γ → γ}
    (hother : ∀ s k' v, k' ∈ m → k' ≠ k → φ (f s k' v) = φ s)
    (hself : ∀ s v, φ (f s k v) = g v (φ s)) (s : σ) :
    φ (m.foldl f s) = (m.lookup k).elim (φ s) fun v => g v (φ s) := by
  obtain ⟨l, hl⟩ := m
  replace hother : ∀ s k' v, k' ∈ l.keys → k' ≠ k → φ (f s k' v) = φ s := hother
  show φ (l.foldl (fun r a => f r a.1 a.2) s) = (l.dlookup k).elim (φ s) fun v => g v (φ s)
  induction l generalizing s with
  | nil => rfl
  | cons a l ih =>
    obtain ⟨k', v⟩ := a
    rw [nodupKeys_cons] at hl
    have hrest := ih (f s k' v) hl.2 fun s k' v hk' => hother s k' v (mem_cons_of_mem _ hk')
    rw [foldl_cons, hrest]
    by_cases hk : k' = k
    · subst hk
      have hnone : l.dlookup k' = none := dlookup_eq_none.mpr hl.1
      rw [hnone, dlookup_cons_eq, hself]
      rfl
    · rw [dlookup_cons_ne l ⟨k', v⟩ (Ne.symm hk),
        hother s k' v (mem_cons_self ..) hk]

theorem foldl_of_no_key {φ : σ → γ} (h : ∀ s k v, k ∈ m → φ (f s k v) = φ s) (s : σ) :
    φ (m.foldl f s) = φ s := by
  obtain ⟨l, hl⟩ := m
  replace h : ∀ s k v, k ∈ l.keys → φ (f s k v) = φ s := h
  show φ (l.foldl (fun r a => f r a.1 a.2) s) = φ s
  clear hl
  induction l generalizing s with
  | nil => rfl
  | cons a l ih =>
    rw [foldl_cons, ih _ fun s k v hk => h s k v (mem_cons_of_mem _ hk)]
    exact h s a.1 a.2 (mem_cons_self ..)

theorem foldl_flag {φ : σ → Bool} {p : String → Prop}
    (h : ∀ s k v, k ∈ m → (φ (f s k v) = true ↔ φ s = true ∨ p k)) (s : σ) :
    φ (m.foldl f s) = true ↔ φ s = true ∨ ∃ k ∈ m, p k := by
  obtain ⟨l, hl⟩ := m
  replace h : ∀ s k v, k ∈ l.keys → (φ (f s k v) = true ↔ φ s = true ∨ p k) := h
  show φ (l.foldl (fun r a => f r a.1 a.2) s) = true ↔ φ s = true ∨ ∃ k ∈ l.keys, p k
  clear hl
  induction l generalizing s with
  | nil => simp [keys]
  | cons a l ih =>
    have hrest := ih (f s a.1 a.2) fun s k v hk => h s k v (mem_cons_of_mem _ hk)
    simp [hrest, h s a.1 a.2 (mem_cons_self ..), keys_cons, exists_eq_or_imp, or_assoc]

theorem foldl_keeps {P : σ → Prop} (h : ∀ s k v, P s → P (f s k v)) {s : σ} (hs : P s) :
    P (m.foldl f s) := by
  obtain ⟨l, hl⟩ := m
  show P (l.foldl (fun r a => f r a.1 a.2) s)
  clear hl
  induction l generalizing s with
  | nil => exact hs
  | cons a l ih => exact ih (h s a.1 a.2 hs)

end Fold

/-! ### Wire keys -/

theorem startsWith_iff {s pre : String} : startsWith s pre = true ↔ ∃ t, s = pre ++ t := by
  rw [startsWith, isPrefixOf_iff_prefix]
  constructor
  · rintro ⟨l, hl⟩
    exact ⟨String.ofList l, String.ext (by simp [← hl])⟩
  · rintro ⟨t, rfl⟩
    exact ⟨t.toList, by simp⟩

theorem unescape_escape (k : String) : unescapeContextKey (escapeContextKey k) = k := by
  rw [escapeContextKey]
  split
  · rw [unescapeContextKey, stripPrefix_append]
    rfl
  · next h =>
    rw [unescapeContextKey]
    cases hs : stripPrefix k escapePrefix with
    | none => rfl
    | some t =>
      refine absurd ?_ h
      rw [needsEscape, startsWith_iff.mpr ⟨t, stripPrefix_eq_some_iff.mp hs⟩, Bool.or_true]

theorem escapeContextKey_injective : Function.Injective escapeContextKey := by
  intro k k' h
  rw [← unescape_escape k, h, unescape_escape]

theorem stripPrefix_escape (k : String) {t : String} :
    stripPrefix (escapeContextKey k) (reservedStem ++ t) = none := by
  rw [Option.eq_none_iff_forall_ne_some]
  intro u hu
  rw [stripPrefix_eq_some_iff, escapeContextKey] at hu
  split at hu
  · have hchars := congrArg String.toList hu
    simp [escapePrefix, reservedStem] at hchars
  · next h =>
    refine h ?_
    rw [needsEscape, startsWith_iff.mpr ⟨t ++ u, by rw [hu, String.append_assoc]⟩, Bool.true_or]

theorem stripPrefix_other {a b : Char} (hne : a ≠ b) (k : String) :
    stripPrefix (String.ofList ['o', 'v', '_', a, ':'] ++ k) (String.ofList ['o', 'v', '_', b, ':']) =
      none := by
  rw [Option.eq_none_iff_forall_ne_some]
  intro u hu
  have hchars := congrArg String.toList (stripPrefix_eq_some_iff.mp hu)
  simp [hne] at hchars

def IsWireKey (w : String) : Prop :=
  ∃ k, w = escapeContextKey k ∨ w = "ov_s:" ++ k ∨ w = "ov_c:" ++ k ∨ w = "ov_b:" ++ k

/-! ### Merging, entry by entry -/

section Receive

variable (state : Dict ℕ × Dict RegB) (ctx : String) (v : ℕ)

theorem receiveEntry_escape : Device.receiveEntry state (escapeContextKey ctx) v =
    (state.1.insert ctx (max ((state.1.lookup ctx).getD 0) v), state.2) := by
  rw [Device.receiveEntry, show stripPrefix (escapeContextKey ctx) "ov_s:" = none from
      stripPrefix_escape ctx (t := "s:"), show stripPrefix (escapeContextKey ctx) "ov_c:" = none from
      stripPrefix_escape ctx (t := "c:"), show stripPrefix (escapeContextKey ctx) "ov_b:" = none from
      stripPrefix_escape ctx (t := "b:")]
  rw [unescape_escape]

theorem receiveEntry_s : Device.receiveEntry state ("ov_s:" ++ ctx) v =
    (state.1, state.2.insert ctx { (state.2.lookup ctx).getD {} with s := v }) := by
  rw [Device.receiveEntry, stripPrefix_append]

theorem receiveEntry_c : Device.receiveEntry state ("ov_c:" ++ ctx) v =
    (state.1, state.2.insert ctx { (state.2.lookup ctx).getD {} with c := v }) := by
  rw [Device.receiveEntry, show stripPrefix ("ov_c:" ++ ctx) "ov_s:" = none from
    stripPrefix_other (by decide) ctx, stripPrefix_append]

theorem receiveEntry_b : Device.receiveEntry state ("ov_b:" ++ ctx) v =
    (state.1, state.2.insert ctx { (state.2.lookup ctx).getD {} with b := v }) := by
  rw [Device.receiveEntry, show stripPrefix ("ov_b:" ++ ctx) "ov_s:" = none from
      stripPrefix_other (by decide) ctx, show stripPrefix ("ov_b:" ++ ctx) "ov_c:" = none from
      stripPrefix_other (by decide) ctx, stripPrefix_append]

end Receive

/-- A frontier that comes with a blob. -/
def joinFrontier (own incoming : Option ℕ) : Option ℕ :=
  incoming.elim own fun v => some (max (own.getD 0) v)

/-- The register that comes with a blob. -/
def incomingReg (contexts : Dict ℕ) (ctx : String) : Option RegB :=
  if (contexts.lookup ("ov_s:" ++ ctx)).isSome || (contexts.lookup ("ov_c:" ++ ctx)).isSome ||
      (contexts.lookup ("ov_b:" ++ ctx)).isSome then
    some ⟨(contexts.lookup ("ov_s:" ++ ctx)).getD 0, (contexts.lookup ("ov_c:" ++ ctx)).getD 0,
      (contexts.lookup ("ov_b:" ++ ctx)).getD 0⟩
  else none

variable {d e : Device} {blob : Blob} {ctx : String} {tie : TiePolicy}

theorem lookup_frontier_receiveMerge (hwire : ∀ w ∈ blob.contexts, IsWireKey w) :
    (d.receiveMerge blob).frontier.lookup ctx =
      joinFrontier (d.frontier.lookup ctx) (blob.contexts.lookup (escapeContextKey ctx)) := by
  refine (foldl_of_key (m := blob.contexts) (φ := fun st : Dict ℕ × Dict RegB => st.1.lookup ctx)
    (g := fun v own => some (max (own.getD 0) v)) (fun st w v hw hne => ?_) (fun st v => ?_) _)
  · obtain ⟨k, rfl | rfl | rfl | rfl⟩ := hwire w hw
    · rw [receiveEntry_escape, AList.lookup_insert_ne]
      rintro rfl
      exact hne rfl
    · rw [receiveEntry_s]
    · rw [receiveEntry_c]
    · rw [receiveEntry_b]
  · rw [receiveEntry_escape, AList.lookup_insert]

theorem lookup_receiveEntry_of_ne {state : Dict ℕ × Dict RegB} {w : String} {v : ℕ}
    (hwire : IsWireKey w) (hs : w ≠ "ov_s:" ++ ctx) (hc : w ≠ "ov_c:" ++ ctx)
    (hb : w ≠ "ov_b:" ++ ctx) :
    (Device.receiveEntry state w v).2.lookup ctx = state.2.lookup ctx := by
  obtain ⟨k, rfl | rfl | rfl | rfl⟩ := hwire
  · rw [receiveEntry_escape]
  · rw [receiveEntry_s, AList.lookup_insert_ne]
    rintro rfl
    exact hs rfl
  · rw [receiveEntry_c, AList.lookup_insert_ne]
    rintro rfl
    exact hc rfl
  · rw [receiveEntry_b, AList.lookup_insert_ne]
    rintro rfl
    exact hb rfl

theorem ov_keys_ne (k k' : String) : "ov_s:" ++ k ≠ "ov_c:" ++ k' ∧ "ov_s:" ++ k ≠ "ov_b:" ++ k' ∧
    "ov_c:" ++ k ≠ "ov_b:" ++ k' := by
  have hne : ∀ a b : Char, a ≠ b →
      String.ofList ['o', 'v', '_', a, ':'] ++ k ≠ String.ofList ['o', 'v', '_', b, ':'] ++ k' := by
    intro a b hab h
    have hnone := stripPrefix_other hab k
    rw [h, stripPrefix_append] at hnone
    nomatch hnone
  exact ⟨hne 's' 'c' (by decide), hne 's' 'b' (by decide), hne 'c' 'b' (by decide)⟩

theorem ov_ne_escape (k k' : String) : "ov_s:" ++ k ≠ escapeContextKey k' ∧
    "ov_c:" ++ k ≠ escapeContextKey k' ∧ "ov_b:" ++ k ≠ escapeContextKey k' := by
  refine ⟨fun h => ?_, fun h => ?_, fun h => ?_⟩
  · have hnone : stripPrefix (escapeContextKey k') "ov_s:" = none := stripPrefix_escape k' (t := "s:")
    rw [← h, stripPrefix_append] at hnone
    nomatch hnone
  · have hnone : stripPrefix (escapeContextKey k') "ov_c:" = none := stripPrefix_escape k' (t := "c:")
    rw [← h, stripPrefix_append] at hnone
    nomatch hnone
  · have hnone : stripPrefix (escapeContextKey k') "ov_b:" = none := stripPrefix_escape k' (t := "b:")
    rw [← h, stripPrefix_append] at hnone
    nomatch hnone

theorem lookup_incoming (hwire : ∀ w ∈ blob.contexts, IsWireKey w) (own : Dict ℕ) :
    (blob.contexts.foldl Device.receiveEntry (own, ∅)).2.lookup ctx =
      incomingReg blob.contexts ctx := by
  obtain ⟨hsc, hsb, hcb⟩ := ov_keys_ne ctx ctx
  have hothers : ∀ (st : Dict ℕ × Dict RegB) w v, w ∈ blob.contexts → w ≠ "ov_s:" ++ ctx →
      w ≠ "ov_c:" ++ ctx → w ≠ "ov_b:" ++ ctx →
        (Device.receiveEntry st w v).2.lookup ctx = st.2.lookup ctx :=
    fun st w v hw hs hc hb => lookup_receiveEntry_of_ne (hwire w hw) hs hc hb
  -- Each component is changed by one key only.
  have hs : (((blob.contexts.foldl Device.receiveEntry (own, ∅)).2.lookup ctx).getD {}).s =
      (blob.contexts.lookup ("ov_s:" ++ ctx)).getD 0 := by
    refine (foldl_of_key (φ := fun st : Dict ℕ × Dict RegB => ((st.2.lookup ctx).getD {}).s)
      (k := "ov_s:" ++ ctx) (g := fun v _ => v) (fun st w v hw hne => ?_) (fun st v => ?_)
      (own, ∅)).trans ?_
    · by_cases hc : w = "ov_c:" ++ ctx
      · rw [hc, receiveEntry_c, AList.lookup_insert]
        rfl
      · by_cases hb : w = "ov_b:" ++ ctx
        · rw [hb, receiveEntry_b, AList.lookup_insert]
          rfl
        · rw [hothers st w v hw hne hc hb]
    · rw [receiveEntry_s, AList.lookup_insert]
      rfl
    · cases blob.contexts.lookup ("ov_s:" ++ ctx) <;> rfl
  have hc : (((blob.contexts.foldl Device.receiveEntry (own, ∅)).2.lookup ctx).getD {}).c =
      (blob.contexts.lookup ("ov_c:" ++ ctx)).getD 0 := by
    refine (foldl_of_key (φ := fun st : Dict ℕ × Dict RegB => ((st.2.lookup ctx).getD {}).c)
      (k := "ov_c:" ++ ctx) (g := fun v _ => v) (fun st w v hw hne => ?_) (fun st v => ?_)
      (own, ∅)).trans ?_
    · by_cases hs : w = "ov_s:" ++ ctx
      · rw [hs, receiveEntry_s, AList.lookup_insert]
        rfl
      · by_cases hb : w = "ov_b:" ++ ctx
        · rw [hb, receiveEntry_b, AList.lookup_insert]
          rfl
        · rw [hothers st w v hw hs hne hb]
    · rw [receiveEntry_c, AList.lookup_insert]
      rfl
    · cases blob.contexts.lookup ("ov_c:" ++ ctx) <;> rfl
  have hb : (((blob.contexts.foldl Device.receiveEntry (own, ∅)).2.lookup ctx).getD {}).b =
      (blob.contexts.lookup ("ov_b:" ++ ctx)).getD 0 := by
    refine (foldl_of_key (φ := fun st : Dict ℕ × Dict RegB => ((st.2.lookup ctx).getD {}).b)
      (k := "ov_b:" ++ ctx) (g := fun v _ => v) (fun st w v hw hne => ?_) (fun st v => ?_)
      (own, ∅)).trans ?_
    · by_cases hs : w = "ov_s:" ++ ctx
      · rw [hs, receiveEntry_s, AList.lookup_insert]
        rfl
      · by_cases hc : w = "ov_c:" ++ ctx
        · rw [hc, receiveEntry_c, AList.lookup_insert]
          rfl
        · rw [hothers st w v hw hs hc hne]
    · rw [receiveEntry_b, AList.lookup_insert]
      rfl
    · cases blob.contexts.lookup ("ov_b:" ++ ctx) <;> rfl
  have hsome : ((blob.contexts.foldl Device.receiveEntry (own, ∅)).2.lookup ctx).isSome =
      ((blob.contexts.lookup ("ov_s:" ++ ctx)).isSome ||
        (blob.contexts.lookup ("ov_c:" ++ ctx)).isSome ||
        (blob.contexts.lookup ("ov_b:" ++ ctx)).isSome) := by
    rw [Bool.eq_iff_iff]
    refine (foldl_flag (φ := fun st : Dict ℕ × Dict RegB => (st.2.lookup ctx).isSome)
      (p := fun w => w = "ov_s:" ++ ctx ∨ w = "ov_c:" ++ ctx ∨ w = "ov_b:" ++ ctx)
      (fun st w v hw => ?_) (own, ∅)).trans ?_
    · by_cases hs : w = "ov_s:" ++ ctx
      · rw [hs, receiveEntry_s, AList.lookup_insert]
        simp
      · by_cases hc : w = "ov_c:" ++ ctx
        · rw [hc, receiveEntry_c, AList.lookup_insert]
          simp
        · by_cases hb : w = "ov_b:" ++ ctx
          · rw [hb, receiveEntry_b, AList.lookup_insert]
            simp
          · rw [hothers st w v hw hs hc hb]
            simp [hs, hc, hb]
    · simp [and_or_left, exists_or, or_assoc, AList.lookup_isSome]
  rw [incomingReg, ← hsome, ← hs, ← hc, ← hb]
  cases (blob.contexts.foldl Device.receiveEntry (own, ∅)).2.lookup ctx with
  | none => rfl
  | some reg => rfl

theorem lookup_overrides_receiveMerge (hwire : ∀ w ∈ blob.contexts, IsWireKey w)
    (hupgraded : d.isLegacy = false) :
    (d.receiveMerge blob).overrides.lookup ctx =
      mergeRegB (d.overrides.lookup ctx) (incomingReg blob.contexts ctx) := by
  have hmerge : ∀ (o : Dict RegB) k reg,
      (Device.mergeOverride o k reg).lookup k = mergeRegB (o.lookup k) (some reg) := by
    intro o k reg
    rw [Device.mergeOverride]
    cases ho : o.lookup k with
    | none | some r => exact AList.lookup_insert o
  have hother : ∀ (o : Dict RegB) k reg, k ≠ ctx →
      (Device.mergeOverride o k reg).lookup ctx = o.lookup ctx := by
    intro o k reg hne
    rw [Device.mergeOverride]
    cases mergeRegB (o.lookup k) (some reg) with
    | none => rfl
    | some r => exact AList.lookup_insert_ne (Ne.symm hne)
  show (if d.isLegacy then d.overrides else _).lookup ctx = _
  rw [hupgraded, if_neg Bool.false_ne_true]
  refine (foldl_of_key (φ := fun o : Dict RegB => o.lookup ctx)
    (g := fun reg own => mergeRegB own (some reg)) (fun o k reg _ hne => hother o k reg hne)
    (fun o reg => hmerge o ctx reg) _).trans ?_
  rw [lookup_incoming hwire]
  cases incomingReg blob.contexts ctx with
  | none => rw [mergeRegB_none_right]; rfl
  | some reg => rfl

/-! ### Publishing -/

/-- The canonical form of a register. -/
def Device.canonical (d : Device) (tiePolicy : TiePolicy) (ctx : String) : Option RegB :=
  (d.overrides.lookup ctx).bind fun reg => compactB reg (d.effectiveFrontier ctx) tiePolicy

theorem canonicalizeForPublish_eq : d.canonicalizeForPublish ctx tie =
    (overrideSetB (d.canonical tie ctx) (d.effectiveFrontier ctx) tie, d.canonical tie ctx) := by
  rw [Device.canonicalizeForPublish, Device.canonical]
  cases d.overrides.lookup ctx with
  | none => rfl
  | some reg =>
    rw [Option.bind_some]
    dsimp only
    cases compactB reg (d.effectiveFrontier ctx) tie with
    | none => rfl
    | some canonical => rfl

theorem lookup_publishOverride (b : Dict ℕ) :
    (d.publishOverride tie b ctx).lookup ("ov_s:" ++ ctx) =
        (if overrideSetB (d.canonical tie ctx) (d.effectiveFrontier ctx) tie then
          (d.canonical tie ctx).map RegB.s else b.lookup ("ov_s:" ++ ctx)) ∧
      (d.publishOverride tie b ctx).lookup ("ov_c:" ++ ctx) =
        ((d.canonical tie ctx).map RegB.c <|> b.lookup ("ov_c:" ++ ctx)) ∧
      (d.publishOverride tie b ctx).lookup ("ov_b:" ++ ctx) =
        (if overrideSetB (d.canonical tie ctx) (d.effectiveFrontier ctx) tie then
          (d.canonical tie ctx).map RegB.b else b.lookup ("ov_b:" ++ ctx)) := by
  obtain ⟨hsc, hsb, hcb⟩ := ov_keys_ne ctx ctx
  rw [Device.publishOverride, canonicalizeForPublish_eq]
  cases hk : d.canonical tie ctx with
  | none => exact ⟨rfl, rfl, rfl⟩
  | some k =>
    cases hlive : overrideSetB (some k) (d.effectiveFrontier ctx) tie with
    | true =>
      rw [AList.lookup_insert_ne hsb, AList.lookup_insert_ne hsc, AList.lookup_insert,
        AList.lookup_insert_ne hcb, AList.lookup_insert, AList.lookup_insert]
      exact ⟨rfl, rfl, rfl⟩
    | false =>
      rw [AList.lookup_insert_ne hsc, AList.lookup_insert, AList.lookup_insert_ne (Ne.symm hcb)]
      exact ⟨rfl, rfl, rfl⟩

theorem lookup_publishOverride_of_ne {b : Dict ℕ} {w k : String} (hs : w ≠ "ov_s:" ++ k)
    (hc : w ≠ "ov_c:" ++ k) (hb : w ≠ "ov_b:" ++ k) :
    (d.publishOverride tie b k).lookup w = b.lookup w := by
  rw [Device.publishOverride]
  split
  · rfl
  · rw [AList.lookup_insert_ne hb, AList.lookup_insert_ne hc, AList.lookup_insert_ne hs]
  · rw [AList.lookup_insert_ne hc]

theorem isWireKey_insert {m : Dict ℕ} {w : String} {v : ℕ} (hm : ∀ w ∈ m, IsWireKey w)
    (hw : IsWireKey w) : ∀ w' ∈ m.insert w v, IsWireKey w' := by
  intro w' hw'
  obtain rfl | hw' := (AList.mem_insert m).mp hw'
  · exact hw
  · exact hm w' hw'

theorem isWireKey_publishBlob : ∀ w ∈ (d.publishBlob tie).contexts, IsWireKey w := by
  have hfrontier : ∀ w ∈ d.publishFrontier, IsWireKey w :=
    foldl_keeps (P := fun m : Dict ℕ => ∀ w ∈ m, IsWireKey w)
      (fun m k v hm => isWireKey_insert hm ⟨k, .inl rfl⟩)
      fun w hw => absurd hw (AList.notMem_empty w)
  show ∀ w ∈ (if d.isLegacy then d.publishFrontier else _ : Dict ℕ), IsWireKey w
  split
  · exact hfrontier
  · refine foldl_keeps (P := fun m : Dict ℕ => ∀ w ∈ m, IsWireKey w) (fun m k v hm => ?_) hfrontier
    rw [Device.publishOverride]
    split
    · exact hm
    · exact isWireKey_insert (isWireKey_insert (isWireKey_insert hm ⟨k, .inr (.inl rfl)⟩)
        ⟨k, .inr (.inr (.inl rfl))⟩) ⟨k, .inr (.inr (.inr rfl))⟩
    · exact isWireKey_insert hm ⟨k, .inr (.inr (.inl rfl))⟩

theorem lookup_publishFrontier_escape :
    d.publishFrontier.lookup (escapeContextKey ctx) = d.frontier.lookup ctx := by
  refine (foldl_of_key (φ := fun m : Dict ℕ => m.lookup (escapeContextKey ctx)) (k := ctx)
    (g := fun v _ => some v) (fun m k v _ hne => ?_) (fun m v => ?_) ∅).trans ?_
  · exact AList.lookup_insert_ne fun h => hne (escapeContextKey_injective h).symm
  · exact AList.lookup_insert m
  · cases d.frontier.lookup ctx <;> rfl

theorem lookup_publishFrontier_of_ne {w : String} (hw : ∀ k, w ≠ escapeContextKey k) :
    d.publishFrontier.lookup w = none :=
  foldl_of_no_key (φ := fun m : Dict ℕ => m.lookup w)
    (fun _ k _ _ => AList.lookup_insert_ne (hw k)) ∅

theorem lookup_publishBlob_escape : (d.publishBlob tie).contexts.lookup (escapeContextKey ctx) =
    d.frontier.lookup ctx := by
  show (if d.isLegacy then d.publishFrontier else _ : Dict ℕ).lookup _ = _
  split
  · exact lookup_publishFrontier_escape
  · refine (foldl_of_no_key (φ := fun m : Dict ℕ => m.lookup (escapeContextKey ctx))
      (fun m k v _ => ?_) _).trans lookup_publishFrontier_escape
    obtain ⟨hs, hc, hb⟩ := ov_ne_escape k ctx
    exact lookup_publishOverride_of_ne (Ne.symm hs) (Ne.symm hc) (Ne.symm hb)

theorem ov_keys_injective (pre : String) {k k' : String} (h : pre ++ k = pre ++ k') : k = k' := by
  have hsome : stripPrefix (pre ++ k) pre = some k := stripPrefix_append pre k
  rw [h, stripPrefix_append] at hsome
  exact (Option.some.inj hsome).symm

theorem incomingReg_publishBlob (hupgraded : d.isLegacy = false) :
    incomingReg (d.publishBlob tie).contexts ctx = d.canonical tie ctx := by
  have hcontexts : (d.publishBlob tie).contexts = d.overrides.foldl
      (fun blobCtx k _ => d.publishOverride tie blobCtx k) d.publishFrontier := by
    simp [Device.publishBlob, hupgraded]
  -- Only the entries of this context are at its keys.
  have hlookup : ∀ w, (w = "ov_s:" ++ ctx ∨ w = "ov_c:" ++ ctx ∨ w = "ov_b:" ++ ctx) →
      ∀ g : Option ℕ → Option ℕ, (∀ m, (d.publishOverride tie m ctx).lookup w = g (m.lookup w)) →
        (d.publishBlob tie).contexts.lookup w =
          (d.overrides.lookup ctx).elim none fun _ => g none := by
    intro w hw g hg
    have hne : ∀ k, w ≠ escapeContextKey k := by
      intro k
      obtain ⟨hs, hc, hb⟩ := ov_ne_escape ctx k
      rcases hw with rfl | rfl | rfl
      · exact hs
      · exact hc
      · exact hb
    rw [hcontexts]
    refine (foldl_of_key (φ := fun m : Dict ℕ => m.lookup w) (k := ctx) (g := fun _ o => g o)
      (fun m k v _ hk => ?_) (fun m v => hg m) d.publishFrontier).trans ?_
    · obtain ⟨hsc, hsb, hcb⟩ := ov_keys_ne ctx k
      obtain ⟨hsc', hsb', hcb'⟩ := ov_keys_ne k ctx
      refine lookup_publishOverride_of_ne ?_ ?_ ?_
      · rcases hw with rfl | rfl | rfl
        · exact fun h => hk (ov_keys_injective _ h).symm
        · exact Ne.symm hsc'
        · exact Ne.symm hsb'
      · rcases hw with rfl | rfl | rfl
        · exact hsc
        · exact fun h => hk (ov_keys_injective _ h).symm
        · exact Ne.symm hcb'
      · rcases hw with rfl | rfl | rfl
        · exact hsb
        · exact hcb
        · exact fun h => hk (ov_keys_injective _ h).symm
    · rw [lookup_publishFrontier_of_ne hne]
  have hs := hlookup _ (.inl rfl) _ fun m => (lookup_publishOverride m).1
  have hc := hlookup _ (.inr (.inl rfl)) (fun o => (d.canonical tie ctx).map RegB.c <|> o)
    fun m => (lookup_publishOverride m).2.1
  have hb := hlookup _ (.inr (.inr rfl)) _ fun m => (lookup_publishOverride m).2.2
  rw [incomingReg, hs, hc, hb]
  cases hreg : d.overrides.lookup ctx with
  | none =>
    rw [Device.canonical, hreg]
    rfl
  | some reg =>
    have hcanonical : d.canonical tie ctx = compactB reg (d.effectiveFrontier ctx) tie := by
      simp [Device.canonical, hreg]
    cases hk : compactB reg (d.effectiveFrontier ctx) tie with
    | none =>
      rw [hcanonical, hk]
      simp
    | some k =>
      rw [hcanonical, hk]
      obtain ⟨hlive, rfl⟩ | ⟨hdead, rfl, -⟩ := compactB_cases hk
      · simp [hlive]
      · simp [overrideSetB_tombstone]

/-! ### Merging what was published -/

/-- **The frontiers after merging a published blob.** -/
theorem frontier_receiveMerge_publishBlob : (d.receiveMerge (e.publishBlob tie)).frontier.lookup ctx =
    joinFrontier (d.frontier.lookup ctx) (e.frontier.lookup ctx) := by
  rw [lookup_frontier_receiveMerge isWireKey_publishBlob, lookup_publishBlob_escape]

/-- **The registers after merging a published blob.** -/
theorem overrides_receiveMerge_publishBlob (hd : d.isLegacy = false) (he : e.isLegacy = false) :
    (d.receiveMerge (e.publishBlob tie)).overrides.lookup ctx =
      mergeRegB (d.overrides.lookup ctx) (e.canonical tie ctx) := by
  rw [lookup_overrides_receiveMerge isWireKey_publishBlob hd, incomingReg_publishBlob he]

end Buzz.ReadState
