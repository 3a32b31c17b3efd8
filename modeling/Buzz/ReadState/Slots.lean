import Buzz.Lib.RoundRobin
import Buzz.ReadState.Wire
import Mathlib.Data.List.Sort

/-!
# Slots

A device may publish its blob in several slots. The entries of a context travel in one slot: they are
grouped by the context that they belong to, and the groups are dealt to the slots in turn.

A merge changes a context by the entries of that context alone, and a second time they change nothing.
So it does not matter in which order slots are merged, or how often, and a slot that does not come
leaves its contexts as they were.
-/

namespace Buzz.ReadState

open List Option

/-! ### Splitting -/

/-- The context that an entry belongs to. -/
def logicalContext (wireKey : String) : String :=
  match stripPrefix wireKey "ov_s:" with
  | some ctx => ctx
  | none =>
    match stripPrefix wireKey "ov_c:" with
    | some ctx => ctx
    | none =>
      match stripPrefix wireKey "ov_b:" with
      | some ctx => ctx
      | none => unescapeContextKey wireKey

/-- A context and the entries that stay with it. -/
abbrev Group := String × List (String × ℕ)

/-- Add an entry to the group of its context. -/
def addToGroup (groups : Dict (List (String × ℕ))) (wireKey : String) (value : ℕ) :
    Dict (List (String × ℕ)) :=
  let ctx := logicalContext wireKey
  groups.insert ctx ((groups.lookup ctx).getD [] ++ [(wireKey, value)])

/-- The groups, in the order of their contexts. -/
def sortedGroups (contexts : Dict ℕ) : List Group :=
  ((contexts.foldl addToGroup ∅).entries.map fun g => (g.1, g.2)).insertionSort
    fun g g' => g.1 ≤ g'.1

/-- Put the entries of a group into a slot. -/
def putGroup (slot : Dict ℕ) (group : Group) : Dict ℕ :=
  group.2.foldl (fun contexts entry => contexts.insert entry.1 entry.2) slot

def slotContexts (contexts : Dict ℕ) (nSlots : ℕ) : List (Dict ℕ) :=
  deal putGroup nSlots 0 (replicate nSlots ∅) (sortedGroups contexts)

/-- `split_blob_into_slots`. No slot can be chosen among none. -/
def Device.splitBlobIntoSlots (d : Device) (tiePolicy : TiePolicy) (nSlots : ℕ) :
    Option (List Blob) :=
  let blob := d.publishBlob tiePolicy
  if nSlots = 0 ∧ sortedGroups blob.contexts ≠ [] then none
  else some ((slotContexts blob.contexts nSlots).map fun contexts => { blob with contexts := contexts })

/-! ### Groups -/

theorem logicalContext_escape (ctx : String) : logicalContext (escapeContextKey ctx) = ctx := by
  rw [logicalContext, show stripPrefix (escapeContextKey ctx) "ov_s:" = none from
      stripPrefix_escape ctx (t := "s:"), show stripPrefix (escapeContextKey ctx) "ov_c:" = none from
      stripPrefix_escape ctx (t := "c:"), show stripPrefix (escapeContextKey ctx) "ov_b:" = none from
      stripPrefix_escape ctx (t := "b:")]
  exact unescape_escape ctx

theorem logicalContext_s (ctx : String) : logicalContext ("ov_s:" ++ ctx) = ctx := by
  rw [logicalContext, stripPrefix_append]

theorem logicalContext_c (ctx : String) : logicalContext ("ov_c:" ++ ctx) = ctx := by
  rw [logicalContext, show stripPrefix ("ov_c:" ++ ctx) "ov_s:" = none from
    stripPrefix_other (by decide) ctx, stripPrefix_append]

theorem logicalContext_b (ctx : String) : logicalContext ("ov_b:" ++ ctx) = ctx := by
  rw [logicalContext, show stripPrefix ("ov_b:" ++ ctx) "ov_s:" = none from
      stripPrefix_other (by decide) ctx, show stripPrefix ("ov_b:" ++ ctx) "ov_c:" = none from
      stripPrefix_other (by decide) ctx, stripPrefix_append]

variable {contexts : Dict ℕ} {ctx w : String}

theorem lookup_groups (contexts : Dict ℕ) (ctx : String) :
    ((contexts.foldl addToGroup ∅).lookup ctx).getD [] =
      (contexts.entries.filter fun a => logicalContext a.1 = ctx).map fun a => (a.1, a.2) := by
  have hfold : ∀ (l : List (Σ _ : String, ℕ)) (groups : Dict (List (String × ℕ))),
      ((l.foldl (fun g a => addToGroup g a.1 a.2) groups).lookup ctx).getD [] =
        (groups.lookup ctx).getD [] ++
          (l.filter fun a => logicalContext a.1 = ctx).map fun a => (a.1, a.2) := by
    intro l
    induction l with
    | nil => simp
    | cons a l ih =>
      intro groups
      rw [foldl_cons, ih, addToGroup]
      by_cases ha : logicalContext a.1 = ctx
      · subst ha
        simp [AList.lookup_insert]
      · rw [AList.lookup_insert_ne (Ne.symm ha)]
        simp [ha]
  exact hfold contexts.entries ∅

theorem mem_sortedGroups {g : Group} :
    g ∈ sortedGroups contexts ↔ (contexts.foldl addToGroup ∅).lookup g.1 = some g.2 := by
  rw [sortedGroups, List.mem_insertionSort, List.mem_map, ← Option.mem_def, AList.mem_lookup_iff]
  constructor
  · rintro ⟨a, ha, rfl⟩
    exact ha
  · exact fun h => ⟨⟨g.1, g.2⟩, h, rfl⟩

theorem mem_group {g : Group} (hg : g ∈ sortedGroups contexts) {p : String × ℕ} :
    p ∈ g.2 ↔ contexts.lookup p.1 = some p.2 ∧ logicalContext p.1 = g.1 := by
  have hgroup := lookup_groups contexts g.1
  rw [mem_sortedGroups.mp hg, Option.getD_some] at hgroup
  rw [hgroup, List.mem_map, ← Option.mem_def, AList.mem_lookup_iff]
  constructor
  · rintro ⟨a, ha, rfl⟩
    obtain ⟨hmem, hctx⟩ := mem_filter.mp ha
    exact ⟨hmem, of_decide_eq_true hctx⟩
  · rintro ⟨hmem, hctx⟩
    exact ⟨⟨p.1, p.2⟩, mem_filter.mpr ⟨hmem, decide_eq_true hctx⟩, rfl⟩

theorem exists_group (hw : w ∈ contexts) : ∃ g ∈ sortedGroups contexts, g.1 = logicalContext w := by
  obtain ⟨v, hv⟩ := isSome_iff_exists.mp (AList.lookup_isSome.mpr hw)
  have hgroup := lookup_groups contexts (logicalContext w)
  cases hlookup : (contexts.foldl addToGroup ∅).lookup (logicalContext w) with
  | some pairs => exact ⟨(logicalContext w, pairs), mem_sortedGroups.mpr hlookup, rfl⟩
  | none =>
    rw [hlookup, getD_none, eq_comm, map_eq_nil_iff, filter_eq_nil_iff] at hgroup
    exact (hgroup _ (AList.mem_lookup_iff.mp hv) (decide_eq_true rfl)).elim

/-! ### Slots -/

theorem lookup_putEntries {pairs : List (String × ℕ)}
    (hpairs : ∀ p ∈ pairs, contexts.lookup p.1 = some p.2) (slot : Dict ℕ) :
    (pairs.foldl (fun contexts entry => contexts.insert entry.1 entry.2) slot).lookup w =
      if w ∈ pairs.map Prod.fst then contexts.lookup w else slot.lookup w := by
  induction pairs generalizing slot with
  | nil => simp
  | cons p rest ih =>
    rw [foldl_cons, ih fun q hq => hpairs q (mem_cons_of_mem p hq), map_cons]
    by_cases hrest : w ∈ rest.map Prod.fst
    · rw [if_pos hrest, if_pos (mem_cons_of_mem _ hrest)]
    · rw [if_neg hrest]
      by_cases hp : w = p.1
      · rw [hp, AList.lookup_insert, if_pos mem_cons_self, hpairs p mem_cons_self]
      · rw [AList.lookup_insert_ne hp, if_neg fun h => (mem_cons.mp h).elim hp hrest]

theorem lookup_putGroup {g : Group} (hg : g ∈ sortedGroups contexts) (slot : Dict ℕ) :
    (putGroup slot g).lookup w =
      if g.1 = logicalContext w then contexts.lookup w <|> slot.lookup w else slot.lookup w := by
  rw [putGroup, lookup_putEntries fun p hp => ((mem_group hg).mp hp).1]
  have hmem : w ∈ g.2.map Prod.fst ↔ w ∈ contexts ∧ logicalContext w = g.1 := by
    rw [← AList.lookup_isSome, Option.isSome_iff_exists, List.mem_map]
    constructor
    · rintro ⟨p, hp, rfl⟩
      exact ⟨⟨p.2, ((mem_group hg).mp hp).1⟩, ((mem_group hg).mp hp).2⟩
    · rintro ⟨⟨v, hv⟩, hctx⟩
      exact ⟨(w, v), (mem_group hg).mpr ⟨hv, hctx⟩, rfl⟩
  by_cases hctx : g.1 = logicalContext w
  · rw [if_pos hctx]
    by_cases hw : w ∈ contexts
    · obtain ⟨v, hv⟩ := isSome_iff_exists.mp (AList.lookup_isSome.mpr hw)
      rw [if_pos (hmem.mpr ⟨hw, hctx.symm⟩), hv]
      rfl
    · rw [if_neg fun h => hw (hmem.mp h).1, AList.lookup_eq_none.mpr hw]
      rfl
  · rw [if_neg hctx, if_neg fun h => hctx (hmem.mp h).2.symm]

theorem lookup_putGroups {gs : List Group} (hgs : ∀ g ∈ gs, g ∈ sortedGroups contexts)
    (slot : Dict ℕ) : (gs.foldl putGroup slot).lookup w =
      if logicalContext w ∈ gs.map Prod.fst then contexts.lookup w <|> slot.lookup w
      else slot.lookup w := by
  induction gs generalizing slot with
  | nil => simp
  | cons g rest ih =>
    rw [foldl_cons, ih fun g' hg' => hgs g' (mem_cons_of_mem g hg'),
      lookup_putGroup (hgs g mem_cons_self), map_cons]
    by_cases hg : g.1 = logicalContext w
    · rw [if_pos hg, if_pos (mem_cons.mpr (.inl hg.symm))]
      split
      · cases contexts.lookup w <;> rfl
      · rfl
    · rw [if_neg hg]
      by_cases hrest : logicalContext w ∈ rest.map Prod.fst
      · rw [if_pos hrest, if_pos (mem_cons_of_mem _ hrest)]
      · rw [if_neg hrest, if_neg fun h => (mem_cons.mp h).elim (Ne.symm hg) hrest]

/-- The slot has the entries of the context that the blob has. -/
def Holds (contexts slot : Dict ℕ) (ctx : String) : Prop :=
  ∀ w, logicalContext w = ctx → slot.lookup w = contexts.lookup w

/-- The slot has no entry of the context. -/
def Lacks (slot : Dict ℕ) (ctx : String) : Prop :=
  ∀ w, logicalContext w = ctx → slot.lookup w = none

variable {nSlots : ℕ} {slot : Dict ℕ}

theorem lookup_slot {j : ℕ} (h : (slotContexts contexts nSlots)[j]? = some slot) :
    slot.lookup w =
      if logicalContext w ∈ (share nSlots j 0 (sortedGroups contexts)).map Prod.fst then
        contexts.lookup w
      else none := by
  rw [slotContexts, getElem?_deal] at h
  obtain ⟨empty, hempty, rfl⟩ := map_eq_some_iff.mp h
  rw [eq_of_mem_replicate (mem_of_getElem? hempty),
    lookup_putGroups fun g hg => mem_of_mem_share hg, AList.lookup_empty]
  split
  · cases contexts.lookup w <;> rfl
  · rfl

/-- **A slot has all entries of a context, or none.** -/
theorem slot_cases (h : slot ∈ slotContexts contexts nSlots) (ctx : String) :
    Holds contexts slot ctx ∨ Lacks slot ctx := by
  obtain ⟨j, hj⟩ := mem_iff_getElem?.mp h
  by_cases hctx : ctx ∈ (share nSlots j 0 (sortedGroups contexts)).map Prod.fst
  · refine .inl fun w hw => ?_
    rw [lookup_slot hj, hw, if_pos hctx]
  · refine .inr fun w hw => ?_
    rw [lookup_slot hj, hw, if_neg hctx]

theorem exists_slot (hslots : 0 < nSlots) (hw : w ∈ contexts) :
    ∃ slot ∈ slotContexts contexts nSlots, Holds contexts slot (logicalContext w) := by
  obtain ⟨g, hg, hctx⟩ := exists_group hw
  obtain ⟨m, hm⟩ := mem_iff_getElem?.mp hg
  have hlt : m % nSlots < (slotContexts contexts nSlots).length := by
    rw [slotContexts, length_deal, length_replicate]
    exact Nat.mod_lt m hslots
  refine ⟨_, getElem_mem hlt, fun w' hw' => ?_⟩
  rw [lookup_slot (getElem?_eq_getElem hlt), if_pos]
  rw [hw', ← hctx]
  exact mem_map_of_mem (mem_share_iff.mpr ⟨m, hm, by rw [Nat.zero_add]⟩)

/-! ### Merging -/

/-- What a device holds for a context. -/
def stateAt (d : Device) (ctx : String) : Option ℕ × Option RegB :=
  (d.frontier.lookup ctx, d.overrides.lookup ctx)

/-- What entries bring for a context. -/
def wireAt (contexts : Dict ℕ) (ctx : String) : Option ℕ × Option RegB :=
  (contexts.lookup (escapeContextKey ctx), incomingReg contexts ctx)

def absorb (isLegacy : Bool) (own wire : Option ℕ × Option RegB) : Option ℕ × Option RegB :=
  (joinFrontier own.1 wire.1, if isLegacy then own.2 else mergeRegB own.2 wire.2)

variable {d : Device} {isLegacy : Bool} {own wire : Option ℕ × Option RegB}

theorem stateAt_receiveMerge {blob : Blob} (hwire : ∀ w ∈ blob.contexts, IsWireKey w) :
    stateAt (d.receiveMerge blob) ctx =
      absorb d.isLegacy (stateAt d ctx) (wireAt blob.contexts ctx) := by
  refine Prod.ext (lookup_frontier_receiveMerge hwire) ?_
  cases hlegacy : d.isLegacy with
  | true =>
    show ((if d.isLegacy then d.overrides else _ : Dict RegB)).lookup ctx = d.overrides.lookup ctx
    rw [hlegacy, if_pos rfl]
  | false => exact lookup_overrides_receiveMerge hwire hlegacy

theorem absorb_absorb : absorb isLegacy (absorb isLegacy own wire) wire =
    absorb isLegacy own wire := by
  refine Prod.ext ?_ ?_
  · cases hw : wire.1 with
    | none | some v => simp [absorb, joinFrontier, hw]
  · cases isLegacy with
    | true => rfl
    | false =>
      show mergeRegB (mergeRegB own.2 wire.2) wire.2 = mergeRegB own.2 wire.2
      rw [mergeRegB_assoc, mergeRegB_self]

theorem absorb_none : absorb isLegacy own (none, none) = own := by
  cases isLegacy with
  | true => rfl
  | false => exact Prod.ext rfl mergeRegB_none_right

theorem wireAt_of_holds (h : Holds contexts slot ctx) : wireAt slot ctx = wireAt contexts ctx := by
  rw [wireAt, wireAt, incomingReg, incomingReg, h _ (logicalContext_escape ctx),
    h _ (logicalContext_s ctx), h _ (logicalContext_c ctx), h _ (logicalContext_b ctx)]

theorem wireAt_of_lacks (h : Lacks slot ctx) : wireAt slot ctx = (none, none) := by
  rw [wireAt, incomingReg, h _ (logicalContext_escape ctx), h _ (logicalContext_s ctx),
    h _ (logicalContext_c ctx), h _ (logicalContext_b ctx)]
  rfl

theorem mem_of_mem_slot (h : slot ∈ slotContexts contexts nSlots) (hw : w ∈ slot) :
    w ∈ contexts := by
  rw [← AList.lookup_isSome] at hw ⊢
  obtain hholds | hlacks := slot_cases h (logicalContext w)
  · rwa [← hholds w rfl]
  · rw [hlacks w rfl] at hw
    nomatch hw

/-- **A context after merging slots.** It has absorbed what the blob has, if one of them brought it. -/
theorem stateAt_foldl_receiveMerge {received : List Blob} (ctx : String)
    (hwire : ∀ w ∈ contexts, IsWireKey w)
    (h : ∀ b ∈ received, b.contexts ∈ slotContexts contexts nSlots) :
    (∃ b ∈ received, Holds contexts b.contexts ctx) ∧
        stateAt (received.foldl (fun d b => d.receiveMerge b) d) ctx =
          absorb d.isLegacy (stateAt d ctx) (wireAt contexts ctx) ∨
      (∀ b ∈ received, Lacks b.contexts ctx) ∧
        stateAt (received.foldl (fun d b => d.receiveMerge b) d) ctx = stateAt d ctx := by
  induction received generalizing d with
  | nil => exact .inr ⟨nofun, rfl⟩
  | cons b rest ih =>
    have hb := h b mem_cons_self
    have hstep : stateAt (d.receiveMerge b) ctx =
        absorb d.isLegacy (stateAt d ctx) (wireAt b.contexts ctx) :=
      stateAt_receiveMerge fun w hw => hwire w (mem_of_mem_slot hb hw)
    have hrest := ih (d := d.receiveMerge b) fun b' hb' => h b' (mem_cons_of_mem b hb')
    have hlegacy : (d.receiveMerge b).isLegacy = d.isLegacy := rfl
    rw [hlegacy, hstep] at hrest
    rw [foldl_cons]
    obtain hholds | hlacks := slot_cases hb ctx
    · rw [wireAt_of_holds hholds, absorb_absorb] at hrest
      refine .inl ⟨⟨b, mem_cons_self, hholds⟩, ?_⟩
      obtain ⟨-, heq⟩ | ⟨-, heq⟩ := hrest
      · exact heq
      · exact heq
    · rw [wireAt_of_lacks hlacks, absorb_none] at hrest
      obtain ⟨⟨b', hb', hholds⟩, heq⟩ | ⟨hnone, heq⟩ := hrest
      · exact .inl ⟨⟨b', mem_cons_of_mem b hb', hholds⟩, heq⟩
      · refine .inr ⟨fun b' hb' => ?_, heq⟩
        obtain rfl | hb' := mem_cons.mp hb'
        · exact hlacks
        · exact hnone b' hb'

theorem wireAt_of_notMem (h : ∀ w ∈ contexts, logicalContext w ≠ ctx) :
    wireAt contexts ctx = (none, none) :=
  wireAt_of_lacks fun w hw => AList.lookup_eq_none.mpr fun hmem => h w hmem hw

/-! ### The wire form -/

/-- A client that does not know of overrides holds none. -/
def Device.Lawful (d : Device) : Prop := d.isLegacy = true → d.overrides = ∅

theorem Device.lawful_new (clientId : String) (isLegacy : Bool) :
    (Device.new clientId isLegacy).Lawful := fun _ => rfl

/-- No operation gives a register to a client that does not know of overrides. -/
theorem Device.Lawful.preserved (hd : d.Lawful) (tie : TiePolicy) (ctx : String) (ts : ℕ)
    (blob : Blob) : (d.doMarkUnread ctx).Lawful ∧ (d.doMarkRead ctx ts).Lawful ∧
      (d.doAdvanceFrontier ctx ts).Lawful ∧ (d.doCompact ctx tie).Lawful ∧
      (d.receiveMerge blob).Lawful := by
  refine ⟨?_, ?_, hd, ?_, fun hlegacy => (if_pos hlegacy).trans (hd hlegacy)⟩
  · rw [doMarkUnread]
    split
    · exact hd
    · next hnot => exact fun hlegacy => absurd hlegacy hnot
  · rw [doMarkRead]
    dsimp only
    split
    · exact hd
    · next hnot => exact fun hlegacy => absurd hlegacy hnot
  · rw [doCompact]
    split
    · exact hd
    · next reg hreg =>
      have hnot : ¬d.isLegacy = true := by
        intro hlegacy
        rw [hd hlegacy, AList.lookup_empty] at hreg
        nomatch hreg
      split <;> exact fun hlegacy => absurd hlegacy hnot
theorem incomingReg_of_lawful (hd : d.Lawful) (tie : TiePolicy) (ctx : String) :
    incomingReg (d.publishBlob tie).contexts ctx = d.canonical tie ctx := by
  cases hlegacy : d.isLegacy with
  | false => exact incomingReg_publishBlob hlegacy
  | true =>
    have hcontexts : (d.publishBlob tie).contexts = d.publishFrontier := by
      rw [Device.publishBlob, hlegacy, if_pos rfl]
    rw [incomingReg, hcontexts, lookup_publishFrontier_of_ne fun k => (ov_ne_escape ctx k).1,
      lookup_publishFrontier_of_ne fun k => (ov_ne_escape ctx k).2.1,
      lookup_publishFrontier_of_ne fun k => (ov_ne_escape ctx k).2.2, Device.canonical, hd hlegacy]
    rfl

/-- **What a fresh device gets from a published blob.** -/
theorem fresh_receiveMerge (hd : d.Lawful) (tie : TiePolicy) (clientId ctx : String) :
    ((Device.new clientId false).receiveMerge (d.publishBlob tie)).frontier.lookup ctx =
        d.frontier.lookup ctx ∧
      ((Device.new clientId false).receiveMerge (d.publishBlob tie)).overrideIsSet ctx tie =
        d.overrideIsSet ctx tie := by
  have hfrontier : ((Device.new clientId false).receiveMerge (d.publishBlob tie)).frontier.lookup ctx =
      d.frontier.lookup ctx := by
    rw [frontier_receiveMerge_publishBlob, Device.new, AList.lookup_empty]
    cases d.frontier.lookup ctx <;> simp [joinFrontier]
  have hoverrides : ((Device.new clientId false).receiveMerge
      (d.publishBlob tie)).overrides.lookup ctx = d.canonical tie ctx := by
    rw [lookup_overrides_receiveMerge isWireKey_publishBlob rfl, incomingReg_of_lawful hd,
      Device.new, AList.lookup_empty, mergeRegB_none_left]
  refine ⟨hfrontier, ?_⟩
  rw [Device.overrideIsSet, Device.overrideIsSet, hoverrides, Device.effectiveFrontier, hfrontier,
    Device.canonical, Device.effectiveFrontier]
  cases d.overrides.lookup ctx with
  | none => rfl
  | some reg => rw [bind_some, overrideSetB_compactB]

theorem splitBlobIntoSlots_eq_some {tie : TiePolicy} {slots : List Blob}
    (h : d.splitBlobIntoSlots tie nSlots = some slots) :
    (∀ {w}, w ∈ (d.publishBlob tie).contexts → 0 < nSlots) ∧
      ∀ b, b ∈ slots ↔ b.contexts ∈ slotContexts (d.publishBlob tie).contexts nSlots ∧
        b.v = 1 ∧ b.clientId = d.clientId := by
  unfold Device.splitBlobIntoSlots at h
  dsimp only at h
  split at h
  · cases h
  · next hsome =>
    cases h
    refine ⟨fun hw => ?_, fun b => ?_⟩
    · obtain ⟨g, hg, -⟩ := exists_group hw
      exact Nat.pos_of_ne_zero fun hzero => hsome ⟨hzero, ne_nil_of_mem hg⟩
    · rw [List.mem_map]
      constructor
      · rintro ⟨slot, hslot, rfl⟩
        exact ⟨hslot, rfl, rfl⟩
      · rintro ⟨hslot, hv, hclient⟩
        refine ⟨b.contexts, hslot, ?_⟩
        obtain ⟨v, clientId, slot⟩ := b
        cases hv
        cases hclient
        rfl

/-- **The wire form is faithful and splittable.** A fresh device gets the frontier and the verdict of
every context. Merging slots gives a device for every context what the blob would have given it, or
leaves it as it was; merging all of them, in any order and any number of times, leaves nothing as it
was that the blob would have changed. -/
theorem blob_faithful_and_splittable (d : Device) (hd : d.Lawful) (tie : TiePolicy) :
    (∀ clientId ctx,
      ((Device.new clientId false).receiveMerge (d.publishBlob tie)).frontier.lookup ctx =
          d.frontier.lookup ctx ∧
        ((Device.new clientId false).receiveMerge (d.publishBlob tie)).overrideIsSet ctx tie =
          d.overrideIsSet ctx tie) ∧
    ∀ nSlots, (0 < nSlots → (d.splitBlobIntoSlots tie nSlots).isSome) ∧
      ∀ slots, d.splitBlobIntoSlots tie nSlots = some slots →
        ∀ (receiver : Device) (received : List Blob), (∀ b ∈ received, b ∈ slots) →
          (∀ ctx, stateAt (received.foldl (fun r b => r.receiveMerge b) receiver) ctx =
              stateAt (receiver.receiveMerge (d.publishBlob tie)) ctx ∨
            stateAt (received.foldl (fun r b => r.receiveMerge b) receiver) ctx =
              stateAt receiver ctx) ∧
          ((∀ b ∈ slots, b ∈ received) → ∀ ctx,
            stateAt (received.foldl (fun r b => r.receiveMerge b) receiver) ctx =
              stateAt (receiver.receiveMerge (d.publishBlob tie)) ctx) := by
  refine ⟨fun clientId ctx => fresh_receiveMerge hd tie clientId ctx, fun nSlots => ⟨?_, ?_⟩⟩
  · intro hpos
    rw [Device.splitBlobIntoSlots, if_neg fun h => hpos.ne' h.1]
    rfl
  · intro slots hslots receiver received hreceived
    have hwire : ∀ w ∈ (d.publishBlob tie).contexts, IsWireKey w := isWireKey_publishBlob
    have hwhole : ∀ ctx, stateAt (receiver.receiveMerge (d.publishBlob tie)) ctx =
        absorb receiver.isLegacy (stateAt receiver ctx) (wireAt (d.publishBlob tie).contexts ctx) :=
      fun ctx => stateAt_receiveMerge hwire
    obtain ⟨hsome, hmem⟩ := splitBlobIntoSlots_eq_some hslots
    have hrun := fun ctx => stateAt_foldl_receiveMerge (d := receiver) ctx hwire
      fun b hb => ((hmem b).mp (hreceived b hb)).1
    refine ⟨fun ctx => ?_, fun hall ctx => ?_⟩
    · rw [hwhole]
      exact (hrun ctx).imp And.right And.right
    · rw [hwhole]
      obtain ⟨-, heq⟩ | ⟨hlacks, heq⟩ := hrun ctx
      · exact heq
      · -- No slot has an entry of the context, so the blob has none.
        have hnone : ∀ w ∈ (d.publishBlob tie).contexts, logicalContext w ≠ ctx := by
          rintro w hw rfl
          obtain ⟨slot, hslot, hholds⟩ := exists_slot (hsome hw) hw
          have hlack := hlacks _ (hall _ ((hmem ⟨_, _, slot⟩).mpr ⟨hslot, rfl, rfl⟩)) w rfl
          rw [hholds w rfl, AList.lookup_eq_none] at hlack
          exact hlack hw
        rw [heq, wireAt_of_notMem hnone, absorb_none]

/-- A context that looks like the key of a register, read up to 5 and marked unread. -/
def unreadDevice : Device :=
  ((Device.new "phone" false).doMarkRead "ov_s:x" 5).doMarkUnread "ov_s:x"

theorem blob_faithful_unreadDevice :
    ((Device.new "laptop" false).receiveMerge (unreadDevice.publishBlob .clear)).frontier.lookup
        "ov_s:x" = some 5 ∧
      ((Device.new "laptop" false).receiveMerge (unreadDevice.publishBlob .clear)).overrideIsSet
        "ov_s:x" .clear = true := by
  have hlawful : unreadDevice.Lawful := fun hlegacy => absurd hlegacy (by decide)
  obtain ⟨hfrontier, hverdict⟩ :=
    (blob_faithful_and_splittable unreadDevice hlawful .clear).1 "laptop" "ov_s:x"
  exact ⟨hfrontier.trans (by decide), hverdict.trans (by decide)⟩

end Buzz.ReadState
