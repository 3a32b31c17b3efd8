import Buzz.Lib.Replicas
import Buzz.ReadState.Wire

/-!
# Where a live override comes from

The three components of a register are maxima of their own, so a merge may recombine them: the set
counter of one history, which the frontier has passed, with the baseline of another, which was
cleared. Where no merge does, a live override goes back to one mark-unread, made at the present
frontier and not followed by a mark-read. A register that is dead when it is published comes as a
tombstone and revives nothing.
-/

namespace Buzz.ReadState

open Option

/-! ### The devices -/

/-- What a user does on a device. -/
inductive LocalAction where
  | markUnread (ctx : String)
  | markRead (ctx : String) (frontierTs : ℕ)
  | advanceFrontier (ctx : String) (ts : ℕ)
  | compact (ctx : String)

namespace LocalAction

def ctx : LocalAction → String
  | markUnread ctx => ctx
  | markRead ctx _ => ctx
  | advanceFrontier ctx _ => ctx
  | compact ctx => ctx

def isMarkRead (c : String) : LocalAction → Bool
  | markRead ctx _ => ctx == c
  | _ => false

end LocalAction

/-- An action, with its stamp and what it knew. -/
structure LocalEvent where
  action : LocalAction
  stamp : ℕ
  baseline : ℕ

def Device.act (tie : TiePolicy) : LocalAction → Device → Device
  | .markUnread ctx, d => d.doMarkUnread ctx
  | .markRead ctx frontierTs, d => d.doMarkRead ctx frontierTs
  | .advanceFrontier ctx ts, d => d.doAdvanceFrontier ctx ts
  | .compact ctx, d => d.doCompact ctx tie

/-- The register of a context, where none is a virgin one. -/
def Device.register (d : Device) (ctx : String) : RegB := (d.overrides.lookup ctx).getD {}

/-- What is recorded of an action. -/
def Device.event (a : LocalAction) (d : Device) : LocalEvent :=
  ⟨a, Device.bump (d.register a.ctx).s (d.register a.ctx).c, d.effectiveFrontier a.ctx⟩

def devices (tie : TiePolicy) : Replication Device Blob LocalAction LocalEvent where
  act := Device.act tie
  record := Device.event
  publish d := d.publishBlob tie
  receive blob d := d.receiveMerge blob

/-- The devices of a user, all of them upgraded. -/
def userDevices {ι : Type*} [DecidableEq ι] (tie : TiePolicy) (clientId : ι → String) :
    StateMachine (Replicated ι Device Blob LocalEvent) (ReplicaAction ι LocalAction) :=
  (devices tie).machine fun i => .new (clientId i) false

/-! ### Merges that recombine -/

/-- The set counter of the first register wins at this frontier although the frontier has passed its
baseline: the second register has a lower set counter and the baseline. -/
def Recombines (tie : TiePolicy) (f : ℕ) (r r' : RegB) : Prop :=
  r'.s < r.s ∧ r.b < f ∧ f ≤ r'.b ∧
    (max r.c r'.c < r.s ∨ max r.c r'.c = r.s ∧ tie = .set)

instance (tie : TiePolicy) (f : ℕ) (r r' : RegB) : Decidable (Recombines tie f r r') :=
  inferInstanceAs (Decidable (_ ∧ _ ∧ _ ∧ _))

def Blob.frontier (blob : Blob) (ctx : String) : ℕ :=
  (blob.contexts.lookup (escapeContextKey ctx)).getD 0

/-- The register that comes with a blob, where none is a virgin one. -/
def Blob.register (blob : Blob) (ctx : String) : RegB :=
  (incomingReg blob.contexts ctx).getD {}

/-- The merge of this blob recombines no registers. -/
def KeepsApart (tie : TiePolicy) (d : Device) (blob : Blob) : Prop :=
  ∀ ctx ∈ d.overrides.keys,
    ¬Recombines tie (max (d.effectiveFrontier ctx) (blob.frontier ctx)) (d.register ctx)
        (blob.register ctx) ∧
      ¬Recombines tie (max (d.effectiveFrontier ctx) (blob.frontier ctx)) (blob.register ctx)
        (d.register ctx)

instance (tie : TiePolicy) (d : Device) (blob : Blob) : Decidable (KeepsApart tie d blob) :=
  inferInstanceAs (Decidable (∀ _ ∈ _, _))

/-! ### Grounded registers -/

def LocalEvent.MarksUnread (ctx : String) (e : LocalEvent) : Prop := e.action = .markUnread ctx

def LocalEvent.MarksRead (ctx : String) (e : LocalEvent) : Prop :=
  e.action.isMarkRead ctx = true

/-- A register, at a frontier, is grounded in a causal past. -/
structure Grounded (tie : TiePolicy) (log : List (Recorded LocalEvent)) (past : List ℕ)
    (ctx : String) (f : ℕ) (r : RegB) : Prop where
  /-- The set counter of a live register was written by a mark-unread at the frontier. -/
  set : overrideSetB (some r) f tie = true → Knows log past fun e =>
    e.MarksUnread ctx ∧ e.stamp = r.s ∧ f ≤ e.baseline
  base : r.b ≤ f
  ceiling : AllKnown log past fun e => e.MarksUnread ctx ∨ e.MarksRead ctx → e.stamp ≤ max r.s r.c
  cleared : AllKnown log past fun e => e.MarksRead ctx → e.stamp ≤ r.c

variable {log : List (Recorded LocalEvent)} {past past' : List ℕ} {ctx : String} {r r' : RegB}
  {x : Recorded LocalEvent} {tie : TiePolicy} {f f' : ℕ}

theorem overrideSetB_of_le (h : overrideSetB (some r) f' tie = true) (hle : f ≤ f')
    (hbase : r.b ≤ f) : overrideSetB (some r) f tie = true ∧ f = f' := by
  obtain ⟨hs, hb, hcount⟩ := overrideSetB_iff.mp h
  have hf : f = f' := by omega
  exact ⟨hf ▸ h, hf⟩

theorem overrideSetB_of_lt (h : r.s < r.c) : overrideSetB (some r) f tie = false := by
  rw [Bool.eq_false_iff, ne_eq, overrideSetB_iff]
  omega

theorem Grounded.nil : Grounded tie log [] ctx f {} where
  set h := absurd (overrideSetB_iff.mp h).1 (Nat.lt_irrefl 0)
  base := Nat.zero_le f
  ceiling _ hu := nomatch hu
  cleared _ hu := nomatch hu

theorem Grounded.grow (h : Grounded tie log past ctx f r) (hpast : ∀ n ∈ past, n < log.length) :
    Grounded tie (log ++ [x]) past ctx f r where
  set hs := (h.set hs).grow
  base := h.base
  ceiling := h.ceiling.grow hpast
  cleared := h.cleared.grow hpast

theorem Grounded.advance (h : Grounded tie log past ctx f r) (hle : f ≤ f') :
    Grounded tie log past ctx f' r where
  set hs := by
    obtain ⟨hlive, rfl⟩ := overrideSetB_of_le hs hle h.base
    exact h.set hlive
  base := h.base.trans hle
  ceiling := h.ceiling
  cleared := h.cleared

theorem Grounded.other (h : Grounded tie log past ctx f r) (hpast : ∀ n ∈ past, n < log.length)
    (hunread : ¬x.event.MarksUnread ctx) (hread : ¬x.event.MarksRead ctx) :
    Grounded tie (log ++ [x]) (log.length :: past) ctx f r where
  set hs := (h.set hs).grow.mono (List.subset_cons_self ..)
  base := h.base
  ceiling := h.ceiling.cons hpast fun hx => absurd hx (not_or.mpr ⟨hunread, hread⟩)
  cleared := h.cleared.cons hpast fun hx => absurd hx hread

theorem Grounded.markUnread (h : Grounded tie log past ctx f r)
    (hpast : ∀ n ∈ past, n < log.length) (hunread : x.event.MarksUnread ctx)
    (hread : ¬x.event.MarksRead ctx) (hstamp : x.event.stamp = Device.bump r.s r.c)
    (hbase : x.event.baseline = f) :
    Grounded tie (log ++ [x]) (log.length :: past) ctx f ⟨Device.bump r.s r.c, r.c, f⟩ where
  set _ := knows_self ⟨hunread, hstamp, hbase.ge⟩
  base := Nat.le_refl f
  ceiling := by
    refine (h.ceiling.imp fun e he hmarks => ?_).cons hpast fun _ => ?_
    · have := he hmarks
      simp only [Device.bump]
      omega
    · rw [hstamp]
      exact Nat.le_max_left _ _
  cleared := h.cleared.cons hpast fun hx => absurd hx hread

theorem Grounded.markRead (h : Grounded tie log past ctx f r)
    (hpast : ∀ n ∈ past, n < log.length) (hstamp : x.event.stamp = Device.bump r.s r.c) :
    Grounded tie (log ++ [x]) (log.length :: past) ctx f ⟨r.s, Device.bump r.s r.c, r.b⟩ where
  set hs := by
    rw [overrideSetB_of_lt (Nat.lt_succ_of_le (Nat.le_max_left _ _))] at hs
    nomatch hs
  base := h.base
  ceiling := by
    refine (h.ceiling.imp fun e he hmarks => ?_).cons hpast fun _ => ?_
    · have := he hmarks
      simp only [Device.bump]
      omega
    · rw [hstamp]
      exact Nat.le_max_right _ _
  cleared := by
    refine (h.cleared.imp fun e he hmarks => ?_).cons hpast fun _ => hstamp.le
    have := he hmarks
    simp only [Device.bump]
    omega

theorem Grounded.tombstone (h : Grounded tie log past ctx f r) :
    Grounded tie log past ctx f ⟨0, max r.s r.c, 0⟩ where
  set hs := by
    rw [overrideSetB_tombstone] at hs
    nomatch hs
  base := Nat.zero_le f
  ceiling := h.ceiling.imp fun e he hmarks => by
    have := he hmarks
    simpa using this
  cleared := h.cleared.imp fun e he hmarks => by
    have := he hmarks
    simp only
    omega

/-- **A live join.** When nothing is recombined, the register with the greater set counter is live
already. -/
theorem live_of_join (happart : ¬Recombines tie f r r') (happart' : ¬Recombines tie f r' r)
    (h : overrideSetB (some ⟨max r.s r'.s, max r.c r'.c, max r.b r'.b⟩) f tie = true) :
    (r'.s ≤ r.s ∧ overrideSetB (some r) f tie = true) ∨
      (r.s ≤ r'.s ∧ overrideSetB (some r') f tie = true) := by
  obtain ⟨hs, hb, hcount⟩ := overrideSetB_iff.mp h
  simp only at hs hb hcount
  rw [Recombines] at happart happart'
  rw [overrideSetB_iff, overrideSetB_iff]
  have hleft : r'.s ≤ r.s → f ≤ r.b → 0 < r.s ∧ f ≤ r.b ∧ (r.c < r.s ∨ r.c = r.s ∧ tie = .set) := by
    intro hle hb
    refine ⟨by omega, hb, ?_⟩
    obtain hc | ⟨hc, htie⟩ := hcount
    · exact .inl (by omega)
    · obtain hlt | heq := Nat.lt_or_ge r.c r.s
      · exact .inl hlt
      · exact .inr ⟨by omega, htie⟩
  have hright : r.s ≤ r'.s → f ≤ r'.b →
      0 < r'.s ∧ f ≤ r'.b ∧ (r'.c < r'.s ∨ r'.c = r'.s ∧ tie = .set) := by
    intro hle hb
    refine ⟨by omega, hb, ?_⟩
    obtain hc | ⟨hc, htie⟩ := hcount
    · exact .inl (by omega)
    · obtain hlt | heq := Nat.lt_or_ge r'.c r'.s
      · exact .inl hlt
      · exact .inr ⟨by omega, htie⟩
  obtain hlt | heq | hlt := Nat.lt_trichotomy r.s r'.s
  · refine .inr ⟨hlt.le, hright hlt.le ?_⟩
    by_contra hfar
    refine happart' ⟨hlt, by omega, by omega, ?_⟩
    rw [Nat.max_comm r'.c r.c]
    rwa [Nat.max_eq_right hlt.le] at hcount
  · obtain hr | hr := Nat.lt_or_ge r.b f
    · exact .inr ⟨heq.le, hright heq.le (by omega)⟩
    · exact .inl ⟨heq.ge, hleft heq.ge hr⟩
  · refine .inl ⟨hlt.le, hleft hlt.le ?_⟩
    by_contra hfar
    refine happart ⟨hlt, by omega, by omega, ?_⟩
    rwa [Nat.max_eq_left hlt.le] at hcount

theorem Grounded.join (h : Grounded tie log past ctx f r) (h' : Grounded tie log past' ctx f' r')
    (happart : ¬Recombines tie (max f f') r r') (happart' : ¬Recombines tie (max f f') r' r) :
    Grounded tie log (past' ++ past) ctx (max f f')
      ⟨max r.s r'.s, max r.c r'.c, max r.b r'.b⟩ where
  set hs := by
    obtain ⟨hle, hlive⟩ | ⟨hle, hlive⟩ := live_of_join happart happart' hs
    · have hknows := (h.advance (Nat.le_max_left f f')).set hlive
      show Knows log (past' ++ past) fun e => e.MarksUnread ctx ∧ e.stamp = max r.s r'.s ∧ _
      rw [Nat.max_eq_left hle]
      exact hknows.mono (List.subset_append_right past' past)
    · have hknows := (h'.advance (Nat.le_max_right f f')).set hlive
      show Knows log (past' ++ past) fun e => e.MarksUnread ctx ∧ e.stamp = max r.s r'.s ∧ _
      rw [Nat.max_eq_right hle]
      exact hknows.mono (List.subset_append_left past' past)
  base := Nat.max_le.mpr ⟨h.base.trans (Nat.le_max_left f f'), h'.base.trans (Nat.le_max_right f f')⟩
  ceiling := by
    refine (h'.ceiling.imp fun e he hmarks => ?_).append (h.ceiling.imp fun e he hmarks => ?_)
    · have := he hmarks
      simp only
      omega
    · have := he hmarks
      simp only
      omega
  cleared := by
    refine (h'.cleared.imp fun e he hmarks => ?_).append (h.cleared.imp fun e he hmarks => ?_)
    · exact (he hmarks).trans (Nat.le_max_right _ _)
    · exact (he hmarks).trans (Nat.le_max_left _ _)

/-! ### What the operations keep -/

/-- An upgraded device has grounded registers. -/
def GroundedDevice (tie : TiePolicy) (log : List (Recorded LocalEvent)) (past : List ℕ)
    (d : Device) : Prop :=
  d.isLegacy = false ∧ ∀ ctx, Grounded tie log past ctx (d.effectiveFrontier ctx) (d.register ctx)

/-- The registers that come with a blob are grounded. -/
def GroundedBlob (tie : TiePolicy) (log : List (Recorded LocalEvent)) (past : List ℕ)
    (blob : Blob) : Prop :=
  (∀ w ∈ blob.contexts, IsWireKey w) ∧
    ∀ ctx, Grounded tie log past ctx (blob.frontier ctx) (blob.register ctx)

/-- A mark-read writes a greater counter than every mark-unread that it follows causally. -/
def Outbids (log : List (Recorded LocalEvent)) (r : Recorded LocalEvent) : Prop :=
  ∀ ctx, r.event.MarksRead ctx → AllKnown log r.past fun e =>
    e.MarksUnread ctx → e.stamp < r.event.stamp

variable {d : Device} {blob : Blob} {ctx' : String}

theorem register_insert (d : Device) (o : Dict RegB) :
    Device.register { d with overrides := o.insert ctx r } ctx' =
      if ctx' = ctx then r else (o.lookup ctx').getD {} := by
  split
  · next h =>
    subst h
    show ((o.insert ctx' r).lookup ctx').getD {} = r
    rw [AList.lookup_insert]
    rfl
  · next h =>
    show ((o.insert ctx r).lookup ctx').getD {} = _
    rw [AList.lookup_insert_ne h]

theorem register_doMarkUnread (hd : d.isLegacy = false) :
    (d.doMarkUnread ctx).register ctx' =
      if ctx' = ctx then
        ⟨Device.bump (d.register ctx).s (d.register ctx).c, (d.register ctx).c,
          d.effectiveFrontier ctx⟩
      else d.register ctx' := by
  rw [Device.doMarkUnread, if_neg (ne_true_of_eq_false hd)]
  exact register_insert d d.overrides

theorem register_doMarkRead {ts : ℕ} (hd : d.isLegacy = false) :
    (d.doMarkRead ctx ts).register ctx' =
      if ctx' = ctx then
        ⟨(d.register ctx).s, Device.bump (d.register ctx).s (d.register ctx).c, (d.register ctx).b⟩
      else d.register ctx' := by
  have hlegacy : (d.doAdvanceFrontier ctx ts).isLegacy = false := hd
  rw [Device.doMarkRead]
  rw [if_neg (ne_true_of_eq_false hlegacy)]
  exact register_insert (d.doAdvanceFrontier ctx ts) d.overrides

theorem register_doCompact (d : Device) (tie : TiePolicy) (ctx ctx' : String) :
    (d.doCompact ctx tie).register ctx' = d.register ctx' ∨
    ctx' = ctx ∧ (d.doCompact ctx tie).register ctx =
      ⟨0, max (d.register ctx).s (d.register ctx).c, 0⟩ := by
  rw [Device.doCompact]
  by_cases hctx : ctx' = ctx
  · subst hctx
    cases hreg : d.overrides.lookup ctx' with
    | none => exact .inl rfl
    | some reg =>
      have hd : d.register ctx' = reg := by rw [Device.register, hreg]; rfl
      dsimp only
      cases hk : compactB reg (d.effectiveFrontier ctx') tie with
      | none =>
        obtain ⟨hs, hc⟩ := compactB_eq_none.mp hk
        refine .inr ⟨rfl, ?_⟩
        dsimp only
        show ((d.overrides.erase ctx').lookup ctx').getD {} = _
        rw [AList.lookup_erase, hd, hs, hc]
        rfl
      | some k =>
        dsimp only
        rw [register_insert, if_pos rfl, hd]
        obtain ⟨-, rfl⟩ | ⟨-, rfl, -⟩ := compactB_cases hk
        · exact .inl rfl
        · exact .inr ⟨rfl, rfl⟩
  · refine .inl ?_
    cases hreg : d.overrides.lookup ctx with
    | none => rfl
    | some reg =>
      dsimp only
      cases hk : compactB reg (d.effectiveFrontier ctx) tie with
      | none =>
        dsimp only
        show ((d.overrides.erase ctx).lookup ctx').getD {} = _
        rw [AList.lookup_erase_ne hctx]
        rfl
      | some k =>
        dsimp only
        rw [register_insert, if_neg hctx]
        rfl

theorem isLegacy_act (a : LocalAction) : (d.act tie a).isLegacy = d.isLegacy := by
  cases a with
  | markUnread ctx =>
    show (d.doMarkUnread ctx).isLegacy = _
    rw [Device.doMarkUnread]
    split <;> rfl
  | markRead ctx ts =>
    show (d.doMarkRead ctx ts).isLegacy = _
    rw [Device.doMarkRead]
    split <;> rfl
  | advanceFrontier ctx ts => rfl
  | compact ctx =>
    show (d.doCompact ctx tie).isLegacy = _
    rw [Device.doCompact]
    split
    · rfl
    · split <;> rfl

theorem getD_mergeRegB (a b : Option RegB) : (mergeRegB a b).getD {} =
    ⟨max (a.getD {}).s (b.getD {}).s, max (a.getD {}).c (b.getD {}).c,
      max (a.getD {}).b (b.getD {}).b⟩ := by
  cases a with
  | none => simp
  | some a =>
    cases b with
    | none => simp
    | some b => rfl

theorem effectiveFrontier_doAdvanceFrontier {ts : ℕ} :
    (d.doAdvanceFrontier ctx ts).effectiveFrontier ctx' =
      if ctx' = ctx then max (d.effectiveFrontier ctx) ts else d.effectiveFrontier ctx' := by
  show ((d.frontier.insert ctx _).lookup ctx').getD 0 = _
  split
  · next hc =>
    subst hc
    rw [AList.lookup_insert]
    rfl
  · next hc =>
    rw [AList.lookup_insert_ne hc]
    rfl

theorem effectiveFrontier_doMarkUnread :
    (d.doMarkUnread ctx).effectiveFrontier ctx' = d.effectiveFrontier ctx' := by
  rw [Device.doMarkUnread]
  split <;> rfl

theorem effectiveFrontier_doMarkRead {ts : ℕ} : (d.doMarkRead ctx ts).effectiveFrontier ctx' =
    (d.doAdvanceFrontier ctx ts).effectiveFrontier ctx' := by
  rw [Device.doMarkRead]
  split <;> rfl

theorem effectiveFrontier_doCompact :
    (d.doCompact ctx tie).effectiveFrontier ctx' = d.effectiveFrontier ctx' := by
  rw [Device.doCompact]
  split
  · rfl
  · split <;> rfl

theorem effectiveFrontier_act (d : Device) (tie : TiePolicy) (a : LocalAction) (ctx : String) :
    d.effectiveFrontier ctx ≤ (d.act tie a).effectiveFrontier ctx := by
  have hadvance : ∀ c ts,
      d.effectiveFrontier ctx ≤ (d.doAdvanceFrontier c ts).effectiveFrontier ctx := by
    intro c ts
    rw [effectiveFrontier_doAdvanceFrontier]
    split
    · next hc =>
      subst hc
      exact Nat.le_max_left _ _
    · exact Nat.le_refl _
  cases a with
  | markUnread c => exact effectiveFrontier_doMarkUnread.ge
  | markRead c ts => exact (hadvance c ts).trans effectiveFrontier_doMarkRead.ge
  | advanceFrontier c ts => exact hadvance c ts
  | compact c => exact effectiveFrontier_doCompact.ge

theorem effectiveFrontier_receiveMerge (hwire : ∀ w ∈ blob.contexts, IsWireKey w) :
    (d.receiveMerge blob).effectiveFrontier ctx =
      max (d.effectiveFrontier ctx) (blob.frontier ctx) := by
  rw [Device.effectiveFrontier, lookup_frontier_receiveMerge hwire, Blob.frontier]
  cases blob.contexts.lookup (escapeContextKey ctx) with
  | none => exact (Nat.max_zero _).symm
  | some v => rfl

theorem register_receiveMerge (hwire : ∀ w ∈ blob.contexts, IsWireKey w)
    (hd : d.isLegacy = false) : (d.receiveMerge blob).register ctx =
      ⟨max (d.register ctx).s (blob.register ctx).s, max (d.register ctx).c (blob.register ctx).c,
        max (d.register ctx).b (blob.register ctx).b⟩ := by
  rw [Device.register, lookup_overrides_receiveMerge hwire hd, getD_mergeRegB]
  rfl

theorem KeepsApart.not_recombines (h : KeepsApart tie d blob) (ctx : String) :
    ¬Recombines tie (max (d.effectiveFrontier ctx) (blob.frontier ctx)) (d.register ctx)
        (blob.register ctx) ∧
      ¬Recombines tie (max (d.effectiveFrontier ctx) (blob.frontier ctx)) (blob.register ctx)
        (d.register ctx) := by
  by_cases hctx : ctx ∈ d.overrides.keys
  · exact h ctx hctx
  · have hvirgin : d.register ctx = {} := by
      rw [Device.register, AList.lookup_eq_none.mpr fun hmem => hctx (AList.mem_keys.mpr hmem)]
      rfl
    rw [hvirgin]
    constructor
    · rintro ⟨hs, -⟩
      exact Nat.not_lt_zero _ hs
    · rintro ⟨-, hb, hb', -⟩
      exact Nat.not_lt_zero _ (hb.trans_le hb')

theorem Grounded.canonical
    (h : Grounded tie log past ctx (d.effectiveFrontier ctx) (d.register ctx)) :
    Grounded tie log past ctx (d.effectiveFrontier ctx) ((d.canonical tie ctx).getD {}) := by
  rw [Device.canonical]
  rw [Device.register] at h
  cases hreg : d.overrides.lookup ctx with
  | none =>
    rw [hreg] at h
    exact h
  | some reg =>
    rw [hreg] at h
    rw [bind_some]
    cases hk : compactB reg (d.effectiveFrontier ctx) tie with
    | none =>
      obtain ⟨hs, hc⟩ := compactB_eq_none.mp hk
      have htomb := h.tombstone
      simp only [getD_some, hs, hc, Nat.max_self] at htomb
      exact htomb
    | some k =>
      obtain ⟨-, rfl⟩ | ⟨-, rfl, -⟩ := compactB_cases hk
      · exact h
      · exact h.tombstone

/-- **The operations keep registers grounded**, when merges keep registers apart. -/
theorem keeps_grounded :
    Keeps (devices tie) (KeepsApart tie) (GroundedDevice tie) (GroundedBlob tie) Outbids where
  grow log e past d hpast h := ⟨h.1, fun ctx => (h.2 ctx).grow hpast⟩
  growBlob log e past blob hpast h := ⟨h.1, fun ctx => (h.2 ctx).grow hpast⟩
  growRecord log e r hpast h := fun ctx hread => (h ctx hread).grow hpast
  record log past d a _ _ h := by
    intro ctx hread
    cases a with
    | markRead c ts =>
      obtain rfl : c = ctx := eq_of_beq hread
      refine (h.2 c).ceiling.imp fun e he hunread => ?_
      exact Nat.lt_succ_of_le (he (.inl hunread))
    | markUnread c | advanceFrontier c ts | compact c => nomatch hread
  act log past d a hpast _ h := by
    obtain ⟨hd, hg⟩ := h
    refine ⟨(isLegacy_act a).trans hd, fun ctx => ?_⟩
    have hle := effectiveFrontier_act d tie a ctx
    cases a with
    | markUnread c =>
      show Grounded _ _ _ ctx ((d.doMarkUnread c).effectiveFrontier ctx)
        ((d.doMarkUnread c).register ctx)
      rw [register_doMarkUnread hd, effectiveFrontier_doMarkUnread]
      split
      · next hc =>
        subst hc
        exact (hg ctx).markUnread hpast rfl Bool.false_ne_true rfl rfl
      · next hc =>
        refine (hg ctx).other hpast (fun hu => hc ?_) Bool.false_ne_true
        exact (LocalAction.markUnread.inj hu).symm
    | markRead c ts =>
      refine Grounded.advance ?_ hle
      show Grounded _ _ _ ctx _ ((d.doMarkRead c ts).register ctx)
      rw [register_doMarkRead hd]
      split
      · next hc =>
        subst hc
        exact (hg ctx).markRead hpast rfl
      · next hc =>
        refine (hg ctx).other hpast nofun fun hr => hc ?_
        exact (eq_of_beq hr).symm
    | advanceFrontier c ts =>
      have hother := (hg ctx).other hpast (x := ⟨d.event (.advanceFrontier c ts), past⟩)
        nofun Bool.false_ne_true
      exact hother.advance hle
    | compact c =>
      refine Grounded.advance ?_ hle
      have hother := (hg ctx).other hpast (x := ⟨d.event (.compact c), past⟩)
        nofun Bool.false_ne_true
      show Grounded _ _ _ ctx _ ((d.doCompact c tie).register ctx)
      obtain hsame | ⟨rfl, htomb⟩ := register_doCompact d tie c ctx
      · rwa [hsame]
      · rw [htomb]
        exact hother.tombstone
  publish log past d h := by
    refine ⟨isWireKey_publishBlob, fun ctx => ?_⟩
    show Grounded tie log past ctx ((d.publishBlob tie).frontier ctx)
      ((d.publishBlob tie).register ctx)
    rw [Blob.frontier, Blob.register, incomingReg_publishBlob h.1, lookup_publishBlob_escape]
    exact (h.2 ctx).canonical
  receive log past past' d blob hapart _ h hblob := by
    refine ⟨h.1, fun ctx => ?_⟩
    show Grounded _ _ _ ctx ((d.receiveMerge blob).effectiveFrontier ctx)
      ((d.receiveMerge blob).register ctx)
    rw [register_receiveMerge hblob.1 h.1, effectiveFrontier_receiveMerge hblob.1]
    obtain ⟨happart, happart'⟩ := hapart.not_recombines ctx
    exact (h.2 ctx).join (hblob.2 ctx) happart happart'

/-! ### Where a live override comes from -/

theorem overrideIsSet_eq : d.overrideIsSet ctx tie =
    overrideSetB (some (d.register ctx)) (d.effectiveFrontier ctx) tie := by
  rw [Device.overrideIsSet, Device.register]
  cases d.overrides.lookup ctx with
  | none => simp [overrideSetB]
  | some reg => rfl

variable {e : Device}

theorem register_publishBlob_of_dead (he : e.isLegacy = false)
    (hdead : e.overrideIsSet ctx tie = false) :
    ((e.publishBlob tie).register ctx).s = 0 ∧ ((e.publishBlob tie).register ctx).b = 0 := by
  rw [Blob.register, incomingReg_publishBlob he, Device.canonical]
  rw [overrideIsSet_eq, Device.register] at hdead
  cases hreg : e.overrides.lookup ctx with
  | none => exact ⟨rfl, rfl⟩
  | some reg =>
    rw [hreg] at hdead
    rw [bind_some]
    cases hk : compactB reg (e.effectiveFrontier ctx) tie with
    | none => exact ⟨rfl, rfl⟩
    | some k =>
      obtain ⟨hlive, -⟩ | ⟨-, rfl, -⟩ := compactB_cases hk
      · cases hdead.symm.trans hlive
      · exact ⟨rfl, rfl⟩

theorem overrideIsSet_receiveMerge_of_dead (hwire : ∀ w ∈ blob.contexts, IsWireKey w)
    (hd : d.isLegacy = false) (hs : (blob.register ctx).s = 0) (hb : (blob.register ctx).b = 0)
    (hdead : d.overrideIsSet ctx tie = false) :
    (d.receiveMerge blob).overrideIsSet ctx tie = false := by
  rw [Bool.eq_false_iff] at hdead ⊢
  intro hlive
  refine hdead ?_
  rw [overrideIsSet_eq, overrideSetB_iff, register_receiveMerge hwire hd,
    effectiveFrontier_receiveMerge hwire, hs, hb, Nat.max_zero, Nat.max_zero] at hlive
  rw [overrideIsSet_eq, overrideSetB_iff]
  obtain ⟨hpos, hbase, hcount⟩ := hlive
  simp only at hpos hbase hcount
  refine ⟨hpos, (Nat.le_max_left _ _).trans hbase, ?_⟩
  obtain hc | ⟨hc, htie⟩ := hcount
  · exact .inl (by omega)
  · obtain hlt | hge := Nat.lt_or_ge (d.register ctx).c (d.register ctx).s
    · exact .inl hlt
    · exact .inr ⟨by omega, htie⟩

/-- **Dead registers join to a dead one.** Merging what any number of devices publish whose register
of a context is dead leaves a device whose register is dead with a dead one. -/
theorem overrideIsSet_foldl_of_dead {ds : List Device} (hd : d.isLegacy = false)
    (hds : ∀ e ∈ ds, e.isLegacy = false ∧ e.overrideIsSet ctx tie = false)
    (hdead : d.overrideIsSet ctx tie = false) :
    (ds.foldl (fun d e => d.receiveMerge (e.publishBlob tie)) d).overrideIsSet ctx tie = false := by
  induction ds generalizing d with
  | nil => exact hdead
  | cons e ds ih =>
    obtain ⟨he, hedead⟩ := hds e (List.mem_cons_self ..)
    obtain ⟨hs, hb⟩ := register_publishBlob_of_dead he hedead
    exact ih (d := d.receiveMerge (e.publishBlob tie)) hd
      (fun e' he' => hds e' (List.mem_cons_of_mem _ he'))
      (overrideIsSet_receiveMerge_of_dead isWireKey_publishBlob hd hs hb hdead)

theorem Grounded.unanswered {ι : Type*} [DecidableEq ι] {w : Replicated ι Device Blob LocalEvent}
    {i : ι} (h : Grounded tie w.log (w.past i) ctx f r) (hlog : ∀ e ∈ w.log, Outbids w.log e)
    (hlive : overrideSetB (some r) f tie = true) :
    ∃ u e, w.log[u]? = some e ∧ e.event.MarksUnread ctx ∧ f ≤ e.event.baseline ∧
      w.Unanswered (LocalEvent.MarksRead ctx) i u := by
  obtain ⟨u, hu, e, he, hunread, hstamp, hbase⟩ := h.set hlive
  refine ⟨u, e, he, hunread, hbase, hu, fun m hm x hx hread hmem => ?_⟩
  -- A mark-read that followed would have outbid the counter of the mark-unread.
  have hout := hlog x (List.mem_of_getElem? hx) ctx hread u hmem e he hunread
  have hclear := h.cleared m hm x hx hread
  obtain ⟨-, -, hcount⟩ := overrideSetB_iff.mp hlive
  omega

/-- **No resurrection.** In every run whose merges keep registers apart: a live override of a device
goes back to a mark-unread in its causal past that no mark-read follows causally and that was made at
the frontier at which the device now stands; a merge of a register that is dead at the frontier
reached, into one that is dead there, leaves a dead one; and so do any number of merges of what
devices with dead registers publish. -/
theorem no_resurrection {ι : Type*} [DecidableEq ι] {clientId : ι → String}
    {w : Replicated ι Device Blob LocalEvent}
    (h : ((userDevices tie clientId).guard (ReceivesOnly (KeepsApart tie))).Reachable w) :
    (∀ i ctx, (w.replica i).overrideIsSet ctx tie = true →
        ∃ u e, w.log[u]? = some e ∧ e.event.MarksUnread ctx ∧
          (w.replica i).effectiveFrontier ctx ≤ e.event.baseline ∧
          w.Unanswered (LocalEvent.MarksRead ctx) i u) ∧
      (∀ (i : ι) (n : ℕ) (p : Packet Blob), w.network[n]? = some p →
        KeepsApart tie (w.replica i) p.blob → ∀ ctx f,
        f = max ((w.replica i).effectiveFrontier ctx) (p.blob.frontier ctx) →
        overrideSetB (some ((w.replica i).register ctx)) f tie = false →
        overrideSetB (some (p.blob.register ctx)) f tie = false →
        ((w.replica i).receiveMerge p.blob).overrideIsSet ctx tie = false) ∧
      ∀ i ctx (ds : List Device), (w.replica i).overrideIsSet ctx tie = false →
        (∀ e ∈ ds, e.isLegacy = false ∧ e.overrideIsSet ctx tie = false) →
        (ds.foldl (fun d e => d.receiveMerge (e.publishBlob tie)) (w.replica i)).overrideIsSet ctx
          tie = false := by
  have hkept := keeps_grounded.of_reachable (fun i => ⟨rfl, fun ctx => .nil⟩) h
  refine ⟨fun i ctx hlive => ?_, fun i n p hp hapart ctx f hf hown hin => ?_,
    fun i ctx ds hdead hds => ?_⟩
  · rw [overrideIsSet_eq] at hlive
    exact ((hkept.replica i).2 ctx).unanswered hkept.record hlive
  · obtain ⟨hwire, -⟩ := hkept.blob p (List.mem_of_getElem? hp)
    rw [Bool.eq_false_iff]
    intro hlive
    rw [overrideIsSet_eq, register_receiveMerge hwire (hkept.replica i).1,
      effectiveFrontier_receiveMerge hwire, ← hf] at hlive
    obtain ⟨happart, happart'⟩ := hapart.not_recombines ctx
    rw [← hf] at happart happart'
    obtain ⟨-, hr⟩ | ⟨-, hr⟩ := live_of_join happart happart' hlive
    · exact Bool.false_ne_true (hown.symm.trans hr)
    · exact Bool.false_ne_true (hin.symm.trans hr)
  · exact overrideIsSet_foldl_of_dead (hkept.replica i).1 hds hdead

/-- The case of two devices: one marks a context unread, and the other merges what it publishes. -/
theorem no_resurrection_two : ∃ w, ((userDevices .clear fun _ : Fin 2 => "laptop").guard
    (ReceivesOnly (KeepsApart .clear))).run ⟨fun _ => .new "laptop" false, fun _ => [], [], []⟩
      [.act 0 (.markUnread "general"), .publish 0, .receive 1 0] = some w ∧
    ∀ ctx, (w.replica 1).overrideIsSet ctx .clear = true →
      ∃ u e, w.log[u]? = some e ∧ e.event.MarksUnread ctx ∧
        (w.replica 1).effectiveFrontier ctx ≤ e.event.baseline ∧
        w.Unanswered (LocalEvent.MarksRead ctx) 1 u := by
  have hrun : ∃ w, ((userDevices .clear fun _ : Fin 2 => "laptop").guard
      (ReceivesOnly (KeepsApart .clear))).run ⟨fun _ => .new "laptop" false, fun _ => [], [], []⟩
        [.act 0 (.markUnread "general"), .publish 0, .receive 1 0] = some w := ⟨_, rfl⟩
  obtain ⟨w, hw⟩ := hrun
  exact ⟨w, hw, (no_resurrection ⟨_, _, rfl, hw⟩).1 1⟩

/-- A device that has marked a context unread at frontier 10, and read again. -/
private def reader : Device :=
  (((Device.new "phone" false).doAdvanceFrontier "general" 10).doMarkUnread "general").doMarkRead
    "general" 10

/-- A device that has marked it unread three times at frontier 0. -/
private def marker : Device :=
  (((Device.new "laptop" false).doMarkUnread "general").doMarkUnread "general").doMarkUnread
    "general"

private theorem frontier_new {clientId ctx : String} :
    (Device.new clientId false).effectiveFrontier ctx = 0 := rfl

private theorem register_new {clientId ctx : String} :
    (Device.new clientId false).register ctx = {} := rfl

private theorem frontier_reader : reader.effectiveFrontier "general" = 10 := by
  simp [reader, effectiveFrontier_doMarkRead, effectiveFrontier_doAdvanceFrontier,
    effectiveFrontier_doMarkUnread, frontier_new]

private theorem register_reader : reader.register "general" = ⟨1, 2, 10⟩ := by
  have hnew : ((Device.new "phone" false).doAdvanceFrontier "general" 10).register "general" = {} :=
    rfl
  rw [reader, register_doMarkRead rfl, if_pos rfl, register_doMarkUnread rfl, if_pos rfl, hnew,
    effectiveFrontier_doAdvanceFrontier, if_pos rfl, frontier_new]
  rfl

private theorem frontier_marker : marker.effectiveFrontier "general" = 0 := by
  rw [marker, effectiveFrontier_doMarkUnread, effectiveFrontier_doMarkUnread,
    effectiveFrontier_doMarkUnread, frontier_new]

private theorem register_marker : marker.register "general" = ⟨3, 0, 0⟩ := by
  rw [marker, register_doMarkUnread rfl, if_pos rfl, register_doMarkUnread rfl, if_pos rfl,
    register_doMarkUnread rfl, if_pos rfl, register_new, effectiveFrontier_doMarkUnread,
    effectiveFrontier_doMarkUnread, frontier_new]
  rfl

/-- What the two devices do, as it is recorded. -/
private def readerLog : List (Recorded LocalEvent) :=
  [⟨Device.event (.advanceFrontier "general" 10) (.new "phone" false), []⟩,
    ⟨Device.event (.markUnread "general")
      ((Device.new "phone" false).doAdvanceFrontier "general" 10), [0]⟩,
    ⟨Device.event (.markRead "general" 10)
      (((Device.new "phone" false).doAdvanceFrontier "general" 10).doMarkUnread "general"), [1, 0]⟩,
    ⟨Device.event (.markUnread "general") (.new "laptop" false), []⟩,
    ⟨Device.event (.markUnread "general") ((Device.new "laptop" false).doMarkUnread "general"), [3]⟩,
    ⟨Device.event (.markUnread "general")
      (((Device.new "laptop" false).doMarkUnread "general").doMarkUnread "general"), [4, 3]⟩]

private theorem reader_log_unread {u : ℕ} {e : Recorded LocalEvent} (he : readerLog[u]? = some e)
    (hunread : e.event.MarksUnread "general") (hbase : 10 ≤ e.event.baseline) : u = 1 := by
  have hlate : ∀ (d : Device) (past : List ℕ), d.effectiveFrontier "general" = 0 →
      e = ⟨Device.event (.markUnread "general") d, past⟩ → u = 1 := by
    rintro d past hd rfl
    replace hbase : 10 ≤ d.effectiveFrontier "general" := hbase
    omega
  match u with
  | 0 =>
    cases he
    nomatch hunread
  | 1 => rfl
  | 2 =>
    cases he
    nomatch hunread
  | 3 => exact hlate _ _ rfl (some.inj he).symm
  | 4 => exact hlate _ _ effectiveFrontier_doMarkUnread (some.inj he).symm
  | 5 =>
    exact hlate _ _ (effectiveFrontier_doMarkUnread.trans effectiveFrontier_doMarkUnread)
      (some.inj he).symm
  | n + 6 => nomatch he

/-- **A resurrection.** One device has read up to 10, marked the context unread and read it again;
another has marked it unread three times at frontier 0. Merged into the first device, the counter of
those joins the baseline that was cleared: the override is live at frontier 10, where the only
mark-unread is followed by a mark-read. -/
theorem not_no_resurrection : ∃ w, (userDevices .clear fun i : Fin 2 =>
      if i = 0 then "laptop" else "phone").Reachable w ∧
    (w.replica 1).overrideIsSet "general" .clear = true ∧
      ¬∃ u e, w.log[u]? = some e ∧ e.event.MarksUnread "general" ∧
        (w.replica 1).effectiveFrontier "general" ≤ e.event.baseline ∧
        w.Unanswered (LocalEvent.MarksRead "general") 1 u := by
  have hwire : ∀ w ∈ (marker.publishBlob .clear).contexts, IsWireKey w := isWireKey_publishBlob
  have hfrontier : (marker.publishBlob .clear).frontier "general" = 0 := by
    rw [Blob.frontier, lookup_publishBlob_escape]
    exact frontier_marker
  have hregister : (marker.publishBlob .clear).register "general" = ⟨3, 0, 0⟩ := by
    have hmarker := register_marker
    rw [Device.register] at hmarker
    rw [Blob.register, incomingReg_publishBlob rfl, Device.canonical]
    cases hreg : marker.overrides.lookup "general" with
    | none =>
      rw [hreg] at hmarker
      exact absurd hmarker (by decide)
    | some reg =>
      rw [hreg] at hmarker
      obtain rfl : reg = ⟨3, 0, 0⟩ := hmarker
      rw [bind_some, frontier_marker]
      rfl
  have hmerged : (reader.receiveMerge (marker.publishBlob .clear)).effectiveFrontier "general" =
      10 := by
    rw [effectiveFrontier_receiveMerge hwire, frontier_reader, hfrontier]
    rfl
  refine ⟨_, ⟨_, [.act 1 (.advanceFrontier "general" 10), .act 1 (.markUnread "general"),
    .act 1 (.markRead "general" 10), .act 0 (.markUnread "general"), .act 0 (.markUnread "general"),
    .act 0 (.markUnread "general"), .publish 0, .receive 1 0], rfl, rfl⟩, ?_, ?_⟩
  · show (reader.receiveMerge (marker.publishBlob .clear)).overrideIsSet "general" .clear = true
    rw [overrideIsSet_eq, hmerged, register_receiveMerge hwire rfl, register_reader, hregister]
    rfl
  · rintro ⟨u, e, he, hunread, hbase, -, hans⟩
    replace hbase : (reader.receiveMerge (marker.publishBlob .clear)).effectiveFrontier "general" ≤
      e.event.baseline := hbase
    rw [hmerged] at hbase
    obtain rfl := reader_log_unread he hunread hbase
    exact hans 2 (by decide) _ rfl rfl (by decide)

end Buzz.ReadState
