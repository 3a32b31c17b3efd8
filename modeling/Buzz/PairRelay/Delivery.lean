import Buzz.PairRelay.Protocol

/-!
# The pair relay delivers an event at most once

An id that was reserved and not released has an entry in the dedup table for 300 seconds by the
monotonic clock. No reading of the wall clock that is 241 seconds away from the one it was validated
with makes the event fresh. So while the wall clock keeps pace nobody can validate the event once the
entry is gone, and nobody reserves the id again. A delivery needs a reservation of its own, so there
is one at most. When the wall clock is set back, the event is fresh once more, and is delivered twice.
-/

namespace Buzz.PairRelay

open List Option

variable {P : Platform}

/-- The event is verified, has this id and was fresh at this reading of the wall clock. -/
def Verified (P : Platform) (hashed : List String) (ev : Json) (id : Bytes32) (wall : Nat) : Prop :=
  ∃ text ∈ hashed, commitmentText ev = .ok text ∧ P.sha256 text = id ∧
    ∃ createdAt, createdAtOf ev = some createdAt ∧ isFresh createdAt (wallSecs wall) = true

/-- The id that a handler has reserved. -/
def Phase.holds : Phase → Option Bytes32
  | .reserved id _ => some id
  | .releasing id => some id
  | _ => none

variable (P)

/-- The invariant of the relay: who has reserved what. -/
structure Inv (w : World) : Prop where
  checked : ∀ conn c ev id pValue wall, w.conns conn = some c →
    c.phase = .checked ev id pValue wall → Verified P w.hashed ev id wall
  /-- A handler that has reserved an id holds the reservation, and the id was not delivered. -/
  holds : ∀ conn c id, w.conns conn = some c → c.phase.holds = some id →
    (∃ g ∈ w.grants, g.id = id ∧ g.connId = conn) ∧ ∀ x ∈ w.written, x.id ≠ id
  nodup : (w.grants.map Grant.id).Nodup
  /-- Reservations are for verified events. -/
  grant : ∀ g ∈ w.grants, Verified P w.hashed g.ev g.id g.wall
  seen : ∀ g ∈ w.grants, w.now - g.reservedAt < entryTtl → (g.id, g.reservedAt) ∈ w.relay.seenIds
  backed : ∀ entry ∈ w.relay.seenIds, ∃ g ∈ w.grants, g.id = entry.1
  /-- A reservation is held by a handler, or its event was delivered. -/
  used : ∀ g ∈ w.grants, (∃ c, w.conns g.connId = some c ∧ c.phase.holds = some g.id) ∨
    ∃ x ∈ w.written, x.id = g.id
  seenNodup : (w.relay.seenIds.map Prod.fst).Nodup
  written : ∀ x ∈ w.written, ∃ g ∈ w.grants, g.id = x.id
  once : (w.written.map Written.id).Nodup
  known : ∀ conn c, w.conns conn = some c → conn < w.nextConnId

variable {P}

variable {ev : Json} {id : Bytes32} {wall : Nat}

theorem Verified.mono {hashed hashed' : List String} (hsub : hashed ⊆ hashed')
    (h : Verified P hashed ev id wall) : Verified P hashed' ev id wall :=
  have ⟨text, hmem, hrest⟩ := h
  ⟨text, hsub hmem, hrest⟩

/-- An event is fresh by readings that are near each other only. -/
theorem near_of_verified {hashed : List String} (hcoll : CollisionFree P.sha256 hashed) {ev' : Json}
    {wall' : Nat} (h : Verified P hashed ev id wall) (h' : Verified P hashed ev' id wall') :
    wall' < wall + freshSpan := by
  obtain ⟨text, hmem, htext, hid, createdAt, hcreated, hfresh⟩ := h
  obtain ⟨text', hmem', htext', hid', createdAt', hcreated', hfresh'⟩ := h'
  obtain rfl := hcoll text hmem text' hmem' (hid.trans hid'.symm)
  rw [createdAt_of_commitmentText htext htext', hcreated'] at hcreated
  cases hcreated
  have hnear := of_decide_eq_true hfresh
  have hnear' := of_decide_eq_true hfresh'
  unfold wallSecs freshnessSecs at hnear hnear'
  unfold freshSpan
  omega

variable {w : World} {conn : Nat} {c : Conn}

/-- While an event is fresh, no reservation of its id has expired. -/
theorem not_reserved_of_fresh (h : Inv P w) (hcoll : CollisionFree P.sha256 w.hashed)
    {pValue : Bytes32} (hc : w.conns conn = some c) (hphase : c.phase = .checked ev id pValue wall)
    (hpaced : w.paced (.reserve conn) = true)
    (hfree : ∀ entry ∈ w.relay.liveIds w.now, entry.1 ≠ id) : ∀ g ∈ w.grants, g.id ≠ id := by
  rintro g hg rfl
  have hverified := h.checked conn c ev g.id pValue wall hc hphase
  have hlater := near_of_verified hcoll (h.grant g hg) hverified
  have hearlier := near_of_verified hcoll hverified (h.grant g hg)
  rw [World.paced, hc, map_some, hphase] at hpaced
  have hpace := all_eq_true.mp hpaced g hg
  rw [Bool.or_eq_true, Bool.or_eq_true, decide_eq_true_eq, decide_eq_true_eq,
    decide_eq_true_eq] at hpace
  obtain (hyoung | hfar) | hfar := hpace
  · exact hfree _ (mem_liveIds.mpr ⟨h.seen g hg hyoung, hyoung⟩) rfl
  · omega
  · omega

/-! ### Steps -/

theorem World.conns_setConn {other : Nat} {c : Option Conn} :
    (w.setConn conn c).conns other = if other = conn then c else w.conns other :=
  Function.update_apply ..

theorem Inv.holds_inj (h : Inv P w) {conn' : Nat} {c' : Conn} (hc : w.conns conn = some c)
    (hid : c.phase.holds = some id) (hc' : w.conns conn' = some c')
    (hid' : c'.phase.holds = some id) : conn = conn' := by
  obtain ⟨g, hg, hgid, hgconn⟩ := (h.holds conn c id hc hid).1
  obtain ⟨g', hg', hgid', hgconn'⟩ := (h.holds conn' c' id hc' hid').1
  obtain rfl := inj_on_of_nodup_map h.nodup hg hg' (hgid.trans hgid'.symm)
  exact hgconn.symm.trans hgconn'

theorem Inv.setConn (h : Inv P w) {c : Option Conn} (hknown : conn < w.nextConnId)
    (hbefore : ∀ c₀, w.conns conn = some c₀ → c₀.phase.holds = none)
    (hafter : ∀ c₁, c = some c₁ → c₁.phase.holds = none)
    (hchecked : ∀ c₁ ev id pValue wall, c = some c₁ →
      c₁.phase = .checked ev id pValue wall → Verified P w.hashed ev id wall) :
    Inv P (w.setConn conn c) where
  __ := h
  checked other c₁ ev id pValue wall := by
    rw [World.conns_setConn]
    split
    · exact hchecked c₁ ev id pValue wall
    · exact h.checked other c₁ ev id pValue wall
  holds other c₁ id := by
    rw [World.conns_setConn]
    split
    · intro hc hid
      nomatch (hafter c₁ hc).symm.trans hid
    · exact h.holds other c₁ id
  used g hg := by
    refine (h.used g hg).imp_left fun ⟨c₁, hc₁, hid⟩ => ⟨c₁, ?_, hid⟩
    rw [World.conns_setConn, if_neg]
    · exact hc₁
    · intro heq
      nomatch (hbefore c₁ (heq ▸ hc₁)).symm.trans hid
  known other c₁ := by
    rw [World.conns_setConn]
    split
    · next heq => exact fun _ => heq ▸ hknown
    · exact h.known other c₁

theorem Inv.known_setConn (h : Inv P w) {c' : Conn} (hc : w.conns conn = some c) (other : Nat)
    (c₁ : Conn) (hc₁ : (w.setConn conn (some c')).conns other = some c₁) :
    other < w.nextConnId := by
  rw [World.conns_setConn] at hc₁
  split at hc₁
  · next heq => exact heq ▸ h.known conn c hc
  · exact h.known other c₁ hc₁

theorem Inv.relay (h : Inv P w) (relay : Relay) (hseen : relay.seenIds = w.relay.seenIds) :
    Inv P { w with relay := relay } where
  __ := h
  seen := by
    simpa [hseen] using h.seen
  backed := by
    simpa [hseen] using h.backed
  seenNodup := by
    simpa [hseen] using h.seenNodup

theorem Inv.sweep (h : Inv P w) :
    Inv P { w with relay := { w.relay with seenIds := w.relay.liveIds w.now } } where
  __ := h
  seen g hg hyoung := mem_liveIds.mpr ⟨h.seen g hg hyoung, hyoung⟩
  backed entry hentry := h.backed entry (mem_liveIds.mp hentry).1
  seenNodup := h.seenNodup.sublist (filter_sublist.map Prod.fst)

theorem Inv.hash (h : Inv P w) (text : String) :
    Inv P { w with hashed := text :: w.hashed } where
  __ := h
  checked conn c ev id pValue wall hc hphase :=
    (h.checked conn c ev id pValue wall hc hphase).mono (subset_cons_self _ _)
  grant g hg := (h.grant g hg).mono (subset_cons_self _ _)

theorem Inv.tick (h : Inv P w) (elapsed : Nat) : Inv P { w with now := w.now + elapsed } where
  __ := h
  seen g hg hyoung := h.seen g hg (by dsimp only at hyoung; omega)

theorem Inv.reserve (h : Inv P w) {pValue : Bytes32} (hc : w.conns conn = some c)
    (hphase : c.phase = .checked ev id pValue wall) (hnone : ∀ g ∈ w.grants, g.id ≠ id) :
    Inv P ({ w with
      relay := { w.relay with seenIds := w.relay.liveIds w.now ++ [(id, w.now)] }
      grants := Grant.mk id conn w.now ev wall :: w.grants }.setConn conn
        (some { c with phase := .reserved id pValue })) := by
  have hverified := h.checked conn c ev id pValue wall hc hphase
  have hswept := h.sweep
  have hundelivered : ∀ x ∈ w.written, x.id ≠ id := fun x hx heq => by
    obtain ⟨g, hg, hgid⟩ := h.written x hx
    exact hnone g hg (hgid.trans heq)
  refine ⟨fun other c₁ ev₁ id₁ pValue₁ wall₁ => ?_, fun other c₁ id₁ => ?_, ?_, ?_, ?_, ?_, ?_, ?_, ?_,
    h.once, h.known_setConn hc⟩
  · rw [World.conns_setConn]
    split
    · rintro ⟨⟩ hphase₁
      nomatch hphase₁
    · exact h.checked other c₁ ev₁ id₁ pValue₁ wall₁
  · rw [World.conns_setConn]
    split
    · next heq =>
      rintro ⟨⟩ hid
      cases hid
      exact ⟨⟨_, mem_cons_self, rfl, heq.symm⟩, hundelivered⟩
    · intro hc₁ hid
      obtain ⟨⟨g, hg, hgid, hgconn⟩, hwritten⟩ := h.holds other c₁ id₁ hc₁ hid
      exact ⟨⟨g, mem_cons_of_mem _ hg, hgid, hgconn⟩, hwritten⟩
  · refine nodup_cons.mpr ⟨fun hmem => ?_, h.nodup⟩
    obtain ⟨g, hg, hgid⟩ := mem_map.mp hmem
    exact hnone g hg hgid
  · exact forall_mem_cons.mpr ⟨hverified, h.grant⟩
  · refine forall_mem_cons.mpr ⟨fun _ => ?_, fun g hg hyoung => ?_⟩
    · exact mem_append_right _ mem_cons_self
    · exact mem_append_left _ (hswept.seen g hg hyoung)
  · intro entry hentry
    obtain hold | hnew := mem_append.mp hentry
    · obtain ⟨g, hg, hgid⟩ := hswept.backed entry hold
      exact ⟨g, mem_cons_of_mem _ hg, hgid⟩
    · obtain rfl := mem_singleton.mp hnew
      exact ⟨_, mem_cons_self, rfl⟩
  · refine forall_mem_cons.mpr
      ⟨.inl ⟨{ c with phase := .reserved id pValue }, ?_, rfl⟩, fun g hg => ?_⟩
    · exact World.conns_setConn.trans (if_pos rfl)
    · refine (h.used g hg).imp_left fun ⟨c₁, hc₁, hid⟩ => ⟨c₁, ?_, hid⟩
      rw [World.conns_setConn, if_neg]
      · exact hc₁
      · intro heq
        obtain rfl := some.inj ((heq ▸ hc₁).symm.trans hc)
        rw [hphase] at hid
        nomatch hid
  · change ((w.relay.liveIds w.now ++ [(id, w.now)]).map Prod.fst).Nodup
    rw [map_append]
    refine nodup_append.mpr ⟨hswept.seenNodup, nodup_singleton _, fun a ha b hb heq => ?_⟩
    obtain ⟨entry, hentry, rfl⟩ := mem_map.mp ha
    obtain ⟨g, hg, hgid⟩ := hswept.backed entry hentry
    exact hnone g hg (hgid.trans (heq.trans (mem_singleton.mp hb)))
  · intro x hx
    obtain ⟨g, hg, hgid⟩ := h.written x hx
    exact ⟨g, mem_cons_of_mem _ hg, hgid⟩

theorem Inv.deliver (h : Inv P w) {pValue : Bytes32} {sub : Sub} (hc : w.conns conn = some c)
    (hholds : c.phase.holds = some id) :
    Inv P ({ w with written := Written.mk id pValue sub w.now :: w.written }.setConn conn
      (some { c with phase := .idle })) := by
  obtain ⟨⟨g₀, hg₀, hid₀, hconn₀⟩, hundelivered⟩ := h.holds conn c id hc hholds
  refine ⟨fun other c₁ ev₁ id₁ pValue₁ wall₁ => ?_, fun other c₁ id₁ => ?_, h.nodup, h.grant, h.seen,
    h.backed, fun g hg => ?_, h.seenNodup, ?_, ?_, h.known_setConn hc⟩
  · rw [World.conns_setConn]
    split
    · rintro ⟨⟩ hphase₁
      nomatch hphase₁
    · exact h.checked other c₁ ev₁ id₁ pValue₁ wall₁
  · rw [World.conns_setConn]
    split
    · rintro ⟨⟩ hid
      nomatch hid
    · next hne =>
      intro hc₁ hid
      obtain ⟨hgrant, hwritten⟩ := h.holds other c₁ id₁ hc₁ hid
      refine ⟨hgrant, forall_mem_cons.mpr ⟨?_, hwritten⟩⟩
      rintro rfl
      exact hne (h.holds_inj hc₁ hid hc hholds)
  · by_cases hgid : g.id = id
    · exact .inr ⟨_, mem_cons_self, hgid.symm⟩
    · refine (h.used g hg).imp (fun ⟨c₁, hc₁, hid⟩ => ⟨c₁, ?_, hid⟩) fun ⟨x, hx, hxid⟩ =>
        ⟨x, mem_cons_of_mem _ hx, hxid⟩
      rw [World.conns_setConn, if_neg]
      · exact hc₁
      · intro heq
        obtain rfl := some.inj ((heq ▸ hc₁).symm.trans hc)
        exact hgid (some.inj (hid.symm.trans hholds))
  · exact forall_mem_cons.mpr ⟨⟨g₀, hg₀, hid₀⟩, h.written⟩
  · refine nodup_cons.mpr ⟨fun hmem => ?_, h.once⟩
    obtain ⟨x, hx, hxid⟩ := mem_map.mp hmem
    exact hundelivered x hx hxid

theorem Inv.failDelivery (h : Inv P w) (hc : w.conns conn = some c)
    (hholds : c.phase.holds = some id) :
    Inv P (w.setConn conn (some { c with phase := .releasing id })) where
  __ := h
  checked other c₁ ev₁ id₁ pValue₁ wall₁ := by
    rw [World.conns_setConn]
    split
    · rintro ⟨⟩ hphase₁
      nomatch hphase₁
    · exact h.checked other c₁ ev₁ id₁ pValue₁ wall₁
  holds other c₁ id₁ := by
    rw [World.conns_setConn]
    split
    · next heq =>
      rintro ⟨⟩ hid
      exact heq ▸ h.holds conn c id₁ hc (hholds.trans hid)
    · exact h.holds other c₁ id₁
  used g hg := by
    refine (h.used g hg).imp_left fun ⟨c₁, hc₁, hid⟩ => ?_
    by_cases heq : g.connId = conn
    · obtain rfl := some.inj ((heq ▸ hc₁).symm.trans hc)
      refine ⟨{ c₁ with phase := .releasing id }, ?_, hholds.symm.trans hid⟩
      exact World.conns_setConn.trans (if_pos heq)
    · exact ⟨c₁, World.conns_setConn.trans ((if_neg heq).trans hc₁), hid⟩
  known := h.known_setConn hc

theorem Inv.unreserve (h : Inv P w) (hc : w.conns conn = some c)
    (hholds : c.phase.holds = some id) : Inv P (handleUnreserve w conn c id) := by
  obtain ⟨⟨g₀, hg₀, hid₀, hconn₀⟩, hundelivered⟩ := h.holds conn c id hc hholds
  have hreleased : ((w.relay.unreserveId id).seenIds.map Prod.fst).Nodup ∧
      ∀ entry ∈ (w.relay.unreserveId id).seenIds, entry.1 ≠ id := nodup_unreserveId h.seenNodup
  obtain ⟨hdistinct, hgone⟩ := hreleased
  have hkept : ∀ g ∈ w.grants, g.id ≠ id → g ∈ w.grants.filter fun g => g.id != id :=
    fun g hg hne => mem_filter.mpr ⟨hg, bne_iff_ne.mpr hne⟩
  have hfilter : ∀ g ∈ w.grants.filter fun g => g.id != id, g ∈ w.grants ∧ g.id ≠ id :=
    fun g hg => (mem_filter.mp hg).imp_right bne_iff_ne.mp
  refine ⟨fun other c₁ ev₁ id₁ pValue₁ wall₁ => ?_, fun other c₁ id₁ => ?_, ?_, ?_, ?_, ?_, ?_,
    hdistinct, ?_, h.once, h.known_setConn hc⟩
  · rw [handleUnreserve, World.conns_setConn]
    split
    · rintro ⟨⟩ hphase₁
      nomatch hphase₁
    · exact h.checked other c₁ ev₁ id₁ pValue₁ wall₁
  · rw [handleUnreserve, World.conns_setConn]
    split
    · rintro ⟨⟩ hid
      nomatch hid
    · next hne =>
      intro hc₁ hid
      obtain ⟨⟨g, hg, hgid, hgconn⟩, hwritten⟩ := h.holds other c₁ id₁ hc₁ hid
      refine ⟨⟨g, hkept g hg ?_, hgid, hgconn⟩, hwritten⟩
      rintro rfl
      exact hne (h.holds_inj hc₁ (hid.trans (congrArg some hgid.symm)) hc hholds)
  · exact h.nodup.sublist (filter_sublist.map Grant.id)
  · exact fun g hg => h.grant g (hfilter g hg).1
  · intro g hg hyoung
    exact mem_unreserveId_of_ne (h.seen g (hfilter g hg).1 hyoung) (hfilter g hg).2
  · intro entry hentry
    obtain ⟨g, hg, hgid⟩ := h.backed entry (mem_of_mem_unreserveId hentry)
    exact ⟨g, hkept g hg (hgid ▸ hgone entry hentry), hgid⟩
  · intro g hg
    refine (h.used g (hfilter g hg).1).imp_left fun ⟨c₁, hc₁, hid⟩ => ⟨c₁, ?_, hid⟩
    refine World.conns_setConn.trans ((if_neg fun heq => ?_).trans hc₁)
    obtain rfl := some.inj ((heq ▸ hc₁).symm.trans hc)
    exact (hfilter g hg).2 (some.inj (hid.symm.trans hholds))
  · intro x hx
    obtain ⟨g, hg, hgid⟩ := h.written x hx
    exact ⟨g, hkept g hg (hgid ▸ hundelivered x hx), hgid⟩

/-! ### Handlers -/

variable (P) in
/-- A step keeps the invariant, as long as no two commitments collide. -/
def Keeps (w w' : World) : Prop :=
  w.hashed ⊆ w'.hashed ∧ (Inv P w → CollisionFree P.sha256 w.hashed → Inv P w')

theorem Inv.idle (h : Inv P w) {c' : Conn} (hc : w.conns conn = some c)
    (hidle : c.phase.holds = none) (hidle' : c'.phase = .idle) :
    Inv P (w.setConn conn (some c')) := by
  refine h.setConn (h.known conn c hc) (fun c₀ hc₀ => ?_) (fun c₁ hc₁ => ?_)
    fun c₁ ev id pValue wall hc₁ hphase => ?_
  · obtain rfl := some.inj (hc.symm.trans hc₀)
    exact hidle
  · cases hc₁
    rw [hidle']
    rfl
  · cases hc₁
    nomatch hidle'.symm.trans hphase

theorem Inv.drop (h : Inv P w) (hc : w.conns conn = some c) (hidle : c.phase.holds = none) :
    Inv P (w.drop conn) := by
  refine (h.relay (w.relay.removeSub conn) rfl).setConn (h.known conn c hc)
    (fun c₀ hc₀ => ?_) nofun nofun
  obtain rfl := some.inj (hc.symm.trans hc₀)
  exact hidle

section Handlers

variable {w : World} {conn : Nat} {c₀ c : Conn} (hc : w.conns conn = some c₀)

include hc

theorem keeps_handleReq (hidle₀ : c₀.phase = .idle) (hidle : c.phase = .idle) (subId : String)
    (pValue : Bytes32) (sent : Bool) : Keeps P w (handleReq w conn c subId pValue sent) := by
  have hnone : c₀.phase.holds = none := by rw [hidle₀]; rfl
  unfold handleReq
  split
  · exact ⟨List.Subset.refl _, fun h _ => h.idle hc hnone hidle⟩
  split
  · exact ⟨List.Subset.refl _, fun h _ => h.idle hc hnone hidle⟩
  split
  · exact ⟨List.Subset.refl _, fun h _ => h.drop hc hnone⟩
  · refine ⟨List.Subset.refl _, fun h _ => ?_⟩
    have hsub := h.relay (w.relay.addSub ⟨conn, subId, pValue⟩) rfl
    exact hsub.idle hc hnone hidle

theorem keeps_handleEvent (hidle₀ : c₀.phase = .idle) (hidle : c.phase = .idle) (ev : Json)
    (wall : Nat) : Keeps P w (handleEvent P w conn c ev wall) := by
  have hnone : c₀.phase.holds = none := by rw [hidle₀]; rfl
  unfold handleEvent
  dsimp only
  split
  · exact ⟨List.Subset.refl _, fun h _ => h.idle hc hnone hidle⟩
  split
  · next id pValue text hvalid htext hsig =>
    refine ⟨subset_cons_self _ _, fun h _ => ?_⟩
    refine (h.hash text).setConn (h.known conn c₀ hc) (fun c₁ hc₁ => ?_) (fun c₁ hc₁ => ?_) ?_
    · obtain rfl := some.inj (hc.symm.trans hc₁)
      exact hnone
    · cases hc₁
      rfl
    · rintro c₁ ev₁ id₁ pValue₁ wall₁ ⟨⟩ ⟨⟩
      obtain ⟨text', htext', hhash⟩ := commitmentText_of_verifyEventSig hvalid hsig
      obtain rfl := Except.ok.inj (htext.symm.trans htext')
      exact ⟨text, mem_cons_self, htext, hhash, fresh_of_validateEvent hvalid⟩
  · exact ⟨List.Subset.refl _, fun h _ => h.idle hc hnone hidle⟩

theorem keeps_handleReserve {ev : Json} {id pValue : Bytes32} {wall : Nat}
    (hphase : c₀.phase = .checked ev id pValue wall) (hpaced : w.paced (.reserve conn) = true) :
    Keeps P w (handleReserve w conn c₀ ev id pValue wall) := by
  have hnone : c₀.phase.holds = none := by rw [hphase]; rfl
  have hcases := reserveId_cases w.relay id w.now
  unfold handleReserve
  obtain hdup | hfull | ⟨hfree, hok⟩ := hcases
  · rw [hdup]
    exact ⟨List.Subset.refl _, fun h _ => h.sweep.idle hc hnone rfl⟩
  · rw [hfull]
    exact ⟨List.Subset.refl _, fun h _ => h.sweep.idle hc hnone rfl⟩
  · rw [hok]
    exact ⟨List.Subset.refl _, fun h hcoll =>
      h.reserve hc hphase (not_reserved_of_fresh h hcoll hc hphase hpaced hfree)⟩

theorem keeps_handleDeliver {id pValue : Bytes32} (hphase : c₀.phase = .reserved id pValue)
    (sent : Bool) : Keeps P w (handleDeliver w conn c₀ id pValue sent) := by
  have hholds : c₀.phase.holds = some id := by rw [hphase]; rfl
  have hseen := deliverSingle_seenIds w.relay pValue sent w.now
  unfold handleDeliver
  split
  · next relay sub heq =>
    rw [heq] at hseen
    exact ⟨List.Subset.refl _, fun h _ => (h.relay relay hseen).deliver hc hholds⟩
  · next relay result _ heq =>
    rw [heq] at hseen
    exact ⟨List.Subset.refl _, fun h _ => (h.relay relay hseen).failDelivery hc hholds⟩

end Handlers

/-! ### Runs -/

variable {handle : Conn → World}

theorem onFrame_cases {w' : World} (hs : onFrame w conn handle = some w') :
    ∃ c, w.conns conn = some c ∧ c.phase = .idle ∧
      (w' = w.drop conn ∨ ∃ c', c'.phase = .idle ∧ w' = handle c') := by
  unfold onFrame at hs
  split at hs
  · next c hc =>
    obtain ⟨hidle, hs⟩ := ite_none_right_eq_some.mp hs
    refine ⟨c, hc, hidle, ?_⟩
    split at hs
    · next c' hc' =>
      obtain ⟨-, hsome⟩ := ite_none_left_eq_some.mp hc'
      cases hsome
      exact .inr ⟨{ c with msgRate := c.msgRate.tick w.now }, hidle, (some.inj hs).symm⟩
    · exact .inl (some.inj hs).symm
  · nomatch hs

theorem keeps_onFrame {w' : World} (hs : onFrame w conn handle = some w')
    (hhandle : ∀ c₀ c, w.conns conn = some c₀ → c₀.phase = .idle → c.phase = .idle →
      Keeps P w (handle c)) :
    Keeps P w w' := by
  obtain ⟨c₀, hc, hidle₀, rfl | ⟨c, hidle, rfl⟩⟩ := onFrame_cases hs
  · exact ⟨List.Subset.refl _, fun h _ => h.drop hc (by rw [hidle₀]; rfl)⟩
  · exact hhandle c₀ c hc hidle₀ hidle

theorem Inv.connect (h : Inv P w) :
    Inv P ({ w with nextConnId := w.nextConnId + 1 }.setConn w.nextConnId
      (some (Conn.new w.now))) := by
  have hnext : Inv P { w with nextConnId := w.nextConnId + 1 } :=
    { h with known := fun conn c hc => Nat.lt_succ_of_lt (h.known conn c hc) }
  refine hnext.setConn (Nat.lt_succ_self _) (fun c₀ hc₀ => ?_) ?_ ?_
  · exact absurd (h.known _ c₀ hc₀) (Nat.lt_irrefl _)
  · rintro _ ⟨⟩
    rfl
  · rintro _ _ _ _ _ ⟨⟩ hphase
    nomatch hphase

/-- **Steps.** Every step keeps the invariant. -/
theorem keeps_step {w' : World} {a : Action} (hpaced : w.paced a = true)
    (hs : w.step P a = some w') : Keeps P w w' := by
  cases a with
  | connect =>
    cases hs
    exact ⟨List.Subset.refl _, fun h _ => h.connect⟩
  | frame conn =>
    refine keeps_onFrame hs fun c₀ c hc hidle₀ hidle => ⟨List.Subset.refl _, fun h _ => ?_⟩
    exact h.idle hc (by rw [hidle₀]; rfl) hidle
  | req conn subId pValue sent =>
    exact keeps_onFrame hs fun c₀ c hc hidle₀ hidle =>
      keeps_handleReq hc hidle₀ hidle subId pValue sent
  | close conn subId =>
    refine keeps_onFrame hs fun c₀ c hc hidle₀ hidle => ?_
    have hnone : c₀.phase.holds = none := by rw [hidle₀]; rfl
    split
    · refine ⟨List.Subset.refl _, fun h _ => ?_⟩
      have hsub := h.relay (w.relay.removeSub conn) rfl
      exact hsub.idle hc hnone hidle
    · exact ⟨List.Subset.refl _, fun h _ => h.idle hc hnone hidle⟩
  | event conn ev wall =>
    exact keeps_onFrame hs fun c₀ c hc hidle₀ hidle => keeps_handleEvent hc hidle₀ hidle ev wall
  | reserve conn =>
    obtain ⟨c, hc, hs⟩ := bind_eq_some_iff.mp hs
    split at hs
    · next hphase =>
      cases hs
      exact keeps_handleReserve hc hphase hpaced
    · nomatch hs
  | deliver conn sent =>
    obtain ⟨c, hc, hs⟩ := bind_eq_some_iff.mp hs
    split at hs
    · next hphase =>
      cases hs
      exact keeps_handleDeliver hc hphase sent
    · nomatch hs
  | unreserve conn =>
    obtain ⟨c, hc, hs⟩ := bind_eq_some_iff.mp hs
    split at hs
    · next hphase =>
      cases hs
      exact ⟨List.Subset.refl _, fun h _ => h.unreserve hc (by rw [hphase]; rfl)⟩
    · nomatch hs
  | disconnect conn =>
    obtain ⟨c, hc, hs⟩ := bind_eq_some_iff.mp hs
    obtain ⟨hidle, hsome⟩ := ite_none_right_eq_some.mp hs
    cases hsome
    exact ⟨List.Subset.refl _, fun h _ => h.drop hc (by rw [hidle]; rfl)⟩
  | tick elapsed =>
    cases hs
    exact ⟨List.Subset.refl _, fun h _ => h.tick elapsed⟩

theorem Inv.init (h : (pairRelay P).Init w) : Inv P w := by
  obtain ⟨now, rfl⟩ := h
  constructor <;> simp

/-- The invariant holds in every state that is reached without a collision, at this pace. -/
theorem inv_of_reachable (h : (pacedRelay P).Reachable w)
    (hcoll : CollisionFree P.sha256 w.hashed) : Inv P w := by
  refine StateMachine.reachable_guard (M := pairRelay P)
    (I := fun w => CollisionFree P.sha256 w.hashed → Inv P w) (fun w hw _ => .init hw)
    (fun w a w' hinv hpaced hs hcoll => ?_) h hcoll
  obtain ⟨hsub, hkeep⟩ := keeps_step hpaced hs
  have hbefore : CollisionFree P.sha256 w.hashed :=
    fun s hmem t hmem' => hcoll s (hsub hmem) t (hsub hmem')
  exact hkeep (hinv hbefore) hbefore

/-! ### Delivery -/

/-- No handler holds the id, and it was not delivered. -/
def World.Open (w : World) (id : Bytes32) : Prop :=
  (∀ conn c, w.conns conn = some c → c.phase.holds ≠ some id) ∧ ∀ x ∈ w.written, x.id ≠ id

theorem Inv.reserveId_of_open (h : Inv P w) (hopen : w.Open id)
    (hroom : (w.relay.liveIds w.now).length < dedupCap) : w.relay.reserveId id w.now =
      ({ w.relay with seenIds := w.relay.liveIds w.now ++ [(id, w.now)] }, .ok false) := by
  have hfree : ∀ entry ∈ w.relay.liveIds w.now, entry.1 ≠ id := by
    rintro entry hentry rfl
    obtain ⟨g, hg, hgid⟩ := h.backed entry (mem_liveIds.mp hentry).1
    obtain ⟨c, hc, hholds⟩ | ⟨x, hx, hxid⟩ := h.used g hg
    · exact hopen.1 _ c hc (hgid ▸ hholds)
    · exact hopen.2 x hx (hxid.trans hgid)
  rw [Relay.reserveId, if_neg, if_neg (Nat.not_le.mpr hroom)]
  intro hany
  obtain ⟨entry, hentry, heq⟩ := any_eq_true.mp hany
  exact hfree entry hentry (beq_iff_eq.mp heq)

theorem Inv.open_unreserve (h : Inv P w) (hc : w.conns conn = some c)
    (hholds : c.phase.holds = some id) : (handleUnreserve w conn c id).Open id := by
  refine ⟨fun other c₁ hc₁ hholds₁ => ?_, (h.holds conn c id hc hholds).2⟩
  rw [handleUnreserve, World.conns_setConn] at hc₁
  split at hc₁
  · cases hc₁
    nomatch hholds₁
  · next hne => exact hne (h.holds_inj hc₁ hholds₁ hc hholds)

theorem Inv.reserve_of_open (h : Inv P w) (conn : Nat) (c : Conn) (ev : Json) (pValue : Bytes32)
    (wall : Nat) (hopen : w.Open id) (hroom : (w.relay.liveIds w.now).length < dedupCap) :
    handleReserve w conn c ev id pValue wall =
      { w with
        relay := { w.relay with seenIds := w.relay.liveIds w.now ++ [(id, w.now)] }
        grants := Grant.mk id conn w.now ev wall :: w.grants }.setConn conn
          (some { c with phase := .reserved id pValue }) := by
  rw [handleReserve, h.reserveId_of_open hopen hroom]

theorem handleDeliver_written {pValue : Bytes32} {sub : Sub}
    (hdeliver : (w.relay.deliverSingle pValue true w.now).2 = .ok (some sub)) :
    (handleDeliver w conn c id pValue true).written = ⟨id, pValue, sub, w.now⟩ :: w.written := by
  rcases hresult : w.relay.deliverSingle pValue true w.now with ⟨relay, result⟩
  rw [hresult] at hdeliver
  obtain rfl : result = .ok (some sub) := hdeliver
  rw [handleDeliver, hresult]
  rfl

/-- **At most one delivery**, while the wall clock keeps pace. In every state, an id was written to one
subscriber at most, and once. A handler whose delivery failed holds the id until it releases it, and
then the id is open. An event whose id is open is reserved and delivered like a new one. -/
theorem delivered_once {w : World} (h : (pacedRelay P).Reachable w)
    (hcoll : CollisionFree P.sha256 w.hashed) :
    (∀ id, (w.written.filter fun x => x.id == id).length ≤ 1) ∧
    (∀ conn sent w', (pairRelay P).step w (.deliver conn sent) = some w' →
      (∃ x, w'.written = x :: w.written) ∨ w'.written = w.written ∧
        ∃ c id, w'.conns conn = some c ∧ c.phase = .releasing id) ∧
    (∀ conn c id, w.conns conn = some c → c.phase = .releasing id →
      ∃ w', (pairRelay P).step w (.unreserve conn) = some w' ∧ w'.Open id) ∧
    ∀ conn c ev id pValue wall sub, w.conns conn = some c → c.phase = .checked ev id pValue wall →
      w.Open id → (w.relay.liveIds w.now).length < dedupCap →
      (w.relay.deliverSingle pValue true w.now).2 = .ok (some sub) →
      ∃ w', (pairRelay P).run w [.reserve conn, .deliver conn true] = some w' ∧
        w'.written = ⟨id, pValue, sub, w.now⟩ :: w.written := by
  have hinv := inv_of_reachable h hcoll
  refine ⟨fun id => ?_, fun conn sent w' hs => ?_, fun conn c id hc hphase => ?_,
    fun conn c ev id pValue wall sub hc hphase hopen hroom hdeliver => ?_⟩
  · have hcount := nodup_iff_count_le_one.mp hinv.once id
    rwa [count, countP_map, countP_eq_length_filter] at hcount
  · obtain ⟨c, hc, hs⟩ := bind_eq_some_iff.mp hs
    split at hs
    · next id pValue hphase =>
      obtain rfl := some.inj hs
      unfold handleDeliver
      split
      · exact .inl ⟨_, rfl⟩
      · exact .inr ⟨rfl, _, id, World.conns_setConn.trans (if_pos rfl), rfl⟩
    · nomatch hs
  · refine ⟨handleUnreserve w conn c id, ?_, hinv.open_unreserve hc (by rw [hphase]; rfl)⟩
    change (w.conns conn).bind _ = _
    simp [hc, hphase]
  · have hreserve : (pairRelay P).step w (.reserve conn) =
        some (handleReserve w conn c ev id pValue wall) := by
      change (w.conns conn).bind _ = _
      simp [hc, hphase]
    have hgranted := hinv.reserve_of_open conn c ev pValue wall hopen hroom
    generalize handleReserve w conn c ev id pValue wall = w₁ at hreserve hgranted
    have hconn : w₁.conns conn = some { c with phase := .reserved id pValue } := by
      rw [hgranted]
      exact World.conns_setConn.trans (if_pos rfl)
    have hsend : (w₁.relay.deliverSingle pValue true w₁.now).2 = .ok (some sub) := by
      rw [hgranted]
      exact (deliverSingle_snd ..).trans hdeliver
    have hdelivered : (pairRelay P).step w₁ (.deliver conn true) =
        some (handleDeliver w₁ conn { c with phase := .reserved id pValue } id pValue true) := by
      change (w₁.conns conn).bind _ = _
      simp [hconn]
    refine ⟨_, (StateMachine.run_cons_eq_some _).mpr ⟨w₁, hreserve,
      (StateMachine.run_cons_eq_some _).mpr ⟨_, hdelivered, rfl⟩⟩, ?_⟩
    rw [handleDeliver_written hsend, hgranted]
    rfl

def wireContent : String :=
  "AgAAAAAAAAAAAAAAAAAAAAAAAAAAAAAAAAAAAAAAAAAAAAAAAAAAAAAAAAAAAAAAAAAAAA" ++
  "AAAAAAAAAAAAAAAAAAAAAAAAAAAAAAAAAAAAAAAAAAAAAAAAAAAAAAAAAAAAAA"

def wireRecipient : String := "2f8bde4d1a07209355b4a7250a5c5128e88b84bddc619ab7cba8d569b240efe4"

def wirePubkey : String := "f9308a019258c31049344f85f89d5229b531c845836f99b08601f113bce036f9"

def wireId : String := "11a8c4cd599a4633166b6073ab2b7434913434c3c52cd3bf2862079a77e606f6"

def wireSig : String :=
  "f92b48f0108be384de8c553a7fde8f1790db270c62a21c10ca5f0c42d6b5a8f1" ++
  "9105f72c4f0a172596fa568e19d53d0e8c903fca48dbe9cf96d74d984b45c4c1"

def wireEvent : Json :=
  .obj [("content", .str wireContent), ("created_at", .num (NumToken.ofNat 1700000000)),
    ("id", .str wireId), ("kind", .num (NumToken.ofNat 24134)), ("pubkey", .str wirePubkey),
    ("sig", .str wireSig), ("tags", .arr [.arr [.str "p", .str wireRecipient]])]

/-- The bytes that a hexadecimal text stands for. -/
def bytesOf (s : String) : List UInt8 := (hexDecode s).getD []

/-- The hash of the event's commitment, and its signature. -/
def wirePlatform : Platform where
  sha256 text := if commitmentText wireEvent = .ok text then bytesOf wireId else []
  validKey key := key == bytesOf wirePubkey
  verifySchnorr sig hash key :=
    sig == bytesOf wireSig && hash == bytesOf wireId && key == bytesOf wirePubkey

/-- A relay that nobody has connected to. -/
def quietRelay : World := ⟨0, ⟨[], [], []⟩, 0, fun _ => none, [], [], []⟩

theorem collisionFree_wire {texts : List String}
    (h : (texts.all fun text => decide (commitmentText wireEvent = .ok text)) = true) :
    CollisionFree wirePlatform.sha256 texts := by
  intro s hs t ht _
  have hs := of_decide_eq_true (all_eq_true.mp h s hs)
  have ht := of_decide_eq_true (all_eq_true.mp h t ht)
  exact Except.ok.inj (hs.symm.trans ht)

/-- Nobody listens to the first attempt, the second is delivered, and the third is a duplicate. The
wall clock is set forward by an hour in between. -/
def resentRun : List Action :=
  [.connect, .event 0 wireEvent (1700000000 * 1000000000), .reserve 0, .deliver 0 true,
    .unreserve 0, .connect, .req 1 "s" (bytesOf wireRecipient) true, .tick 1000000000,
    .event 0 wireEvent (1700000001 * 1000000000), .reserve 0, .deliver 0 true,
    .event 0 wireEvent (1700003600 * 1000000000), .event 0 wireEvent (1700000001 * 1000000000),
    .reserve 0]

theorem delivered_once_resentRun : ∃ w,
    (pacedRelay wirePlatform).run quietRelay resentRun = some w ∧ w.written.length = 1 ∧
      ∀ id, (w.written.filter fun x => x.id == id).length ≤ 1 := by
  have hany : ((pacedRelay wirePlatform).run quietRelay resentRun).any (fun w =>
      decide (w.written.length = 1) &&
        w.hashed.all fun text => decide (commitmentText wireEvent = .ok text)) = true := by
    decide +kernel
  obtain ⟨w, hrun, hw⟩ := (any_eq_true _ _).mp hany
  obtain ⟨hlength, hall⟩ := (Bool.and_eq_true _ _).mp hw
  have hreach : (pacedRelay wirePlatform).Reachable w := ⟨_, resentRun, ⟨0, rfl⟩, hrun⟩
  exact ⟨w, hrun, of_decide_eq_true hlength,
    (delivered_once hreach (collisionFree_wire hall)).1⟩

/-- An event is delivered. Its entry expires, the wall clock is set back to the second the event is of,
and the event is sent again, over new connections. -/
def setBackRun : List Action :=
  [.connect, .connect, .req 1 "s" (bytesOf wireRecipient) true,
    .event 0 wireEvent (1700000000 * 1000000000), .reserve 0, .deliver 0 true,
    .disconnect 0, .disconnect 1, .tick entryTtl, .connect, .connect,
    .req 3 "s" (bytesOf wireRecipient) true,
    .event 2 wireEvent (1700000000 * 1000000000), .reserve 2, .deliver 2 true]

/-- Without that pace one id is written twice, although no two texts have one hash. -/
theorem not_delivered_once : ∃ w, (pairRelay wirePlatform).Reachable w ∧
    CollisionFree wirePlatform.sha256 w.hashed ∧
      ¬∀ id, (w.written.filter fun x => x.id == id).length ≤ 1 := by
  have hany : ((pairRelay wirePlatform).run quietRelay setBackRun).any (fun w =>
      decide ((w.written.filter fun x => x.id == bytesOf wireId).length = 2) &&
        w.hashed.all fun text => decide (commitmentText wireEvent = .ok text)) = true := by
    decide +kernel
  obtain ⟨w, hrun, hw⟩ := (any_eq_true _ _).mp hany
  obtain ⟨htwice, hall⟩ := (Bool.and_eq_true _ _).mp hw
  refine ⟨w, ⟨_, setBackRun, ⟨0, rfl⟩, hrun⟩, collisionFree_wire hall, fun honce => ?_⟩
  have hle := honce (bytesOf wireId)
  rw [of_decide_eq_true htwice] at hle
  exact absurd hle (by decide)

end Buzz.PairRelay
