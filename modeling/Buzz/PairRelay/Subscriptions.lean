import Buzz.PairRelay.Delivery

/-!
# The subscriptions and the budgets of the pair relay

A step does one of a few things to the subscriptions: a connection registers, a connection gives up
what it has registered, a delivery is counted, or nothing. What holds of the subscriptions follows
from that. A counter that has not expired has counted every delivery for its key in the window that
ends now.
-/

namespace Buzz.PairRelay

open List Option

variable {P : Platform}

def Action.conn : Action → Option Nat
  | .connect => none
  | .frame conn => some conn
  | .req conn _ _ _ => some conn
  | .close conn _ => some conn
  | .event conn _ _ => some conn
  | .reserve conn => some conn
  | .deliver conn _ => some conn
  | .unreserve conn => some conn
  | .disconnect conn => some conn
  | .tick _ => none

/-- The name that a live connection has registered. -/
def World.subIdOf (w : World) (conn : Nat) : Option (Option String) := (w.conns conn).map Conn.subId

/-- The handler has checked an event with this id and key. -/
def Keyed (P : Platform) (id pValue : Bytes32) : Prop :=
  ∃ ev wall eventId, validateEvent ev (wallSecs wall) = .ok (eventId, id, pValue) ∧
    verifyEventSig P ev = .ok ()

/-- The id and the key that a handler works on. -/
def Phase.target : Phase → Option (Bytes32 × Bytes32)
  | .checked _ id pValue _ => some (id, pValue)
  | .reserved id pValue => some (id, pValue)
  | _ => none

/-- What a step does to the subscriptions and the deliveries. -/
inductive Effect (w : World) (a : Action) (w' : World) : Prop where
  | quiet (subs : w'.relay.subs = w.relay.subs) (delivered : w'.relay.delivered = w.relay.delivered)
      (written : w'.written = w.written) (now : w.now ≤ w'.now) (next : w.nextConnId ≤ w'.nextConnId)
      (ids : ∀ n, w'.subIdOf n = w.subIdOf n ∨
        w.nextConnId ≤ n ∧ n < w'.nextConnId ∧ w'.subIdOf n = some none)
  | leave (conn : Nat) (acts : a.conn = some conn) (relay : w'.relay = w.relay.removeSub conn)
      (written : w'.written = w.written) (now : w'.now = w.now) (next : w'.nextConnId = w.nextConnId)
      (live : w.subIdOf conn ≠ none)
      (gone : w'.subIdOf conn = none ∨ w'.subIdOf conn = some none)
      (ids : ∀ n, n ≠ conn → w'.subIdOf n = w.subIdOf n)
  | join (sub : Sub) (acts : a = .req sub.connId sub.subId sub.pValue true)
      (free : ∀ s ∈ w.relay.subs, s.pValue ≠ sub.pValue) (idle : w.subIdOf sub.connId = some none)
      (relay : w'.relay = w.relay.addSub sub) (written : w'.written = w.written)
      (now : w'.now = w.now) (next : w'.nextConnId = w.nextConnId)
      (registered : w'.subIdOf sub.connId = some (some sub.subId))
      (ids : ∀ n, n ≠ sub.connId → w'.subIdOf n = w.subIdOf n)
  | deliver (conn : Nat) (c : Conn) (id pValue : Bytes32) (sent : Bool)
      (acts : a = .deliver conn sent) (live : w.conns conn = some c)
      (phase : c.phase = .reserved id pValue)
      (relay : w'.relay = (w.relay.deliverSingle pValue sent w.now).1)
      (written : (∃ sub, (w.relay.deliverSingle pValue sent w.now).2 = .ok (some sub) ∧
          w'.written = ⟨id, pValue, sub, w.now⟩ :: w.written) ∨
        (∀ sub, (w.relay.deliverSingle pValue sent w.now).2 ≠ .ok (some sub)) ∧
          w'.written = w.written)
      (now : w'.now = w.now) (next : w'.nextConnId = w.nextConnId)
      (ids : ∀ n, w'.subIdOf n = w.subIdOf n)

/-! ### Steps -/

variable {w : World} {conn : Nat}

theorem World.subIdOf_setConn {n : Nat} {c : Option Conn} :
    (w.setConn conn c).subIdOf n = if n = conn then c.map Conn.subId else w.subIdOf n := by
  rw [World.subIdOf, World.conns_setConn]
  split <;> rfl

theorem World.subIdOf_keep {w₁ : World} {c c' : Conn} (hconns : w₁.conns = w.conns)
    (hc : w.conns conn = some c) (hname : c'.subId = c.subId) (n : Nat) :
    (w₁.setConn conn (some c')).subIdOf n = w.subIdOf n := by
  rw [World.subIdOf_setConn, World.subIdOf, World.subIdOf, hconns]
  split
  · next heq => rw [heq, hc, map_some, map_some, hname]
  · rfl

section

variable {w : World} {a : Action} {conn : Nat} {c₀ c : Conn}

theorem effect_keep {w₁ : World} (hc : w.conns conn = some c₀) (hname : c.subId = c₀.subId)
    (hconns : w₁.conns = w.conns) (hsubs : w₁.relay.subs = w.relay.subs)
    (hdelivered : w₁.relay.delivered = w.relay.delivered) (hwritten : w₁.written = w.written)
    (hnow : w₁.now = w.now) (hnext : w₁.nextConnId = w.nextConnId) :
    Effect w a (w₁.setConn conn (some c)) :=
  .quiet hsubs hdelivered hwritten (Nat.le_of_eq hnow.symm) (Nat.le_of_eq hnext.symm)
    fun n => .inl (World.subIdOf_keep hconns hc hname n)

theorem effect_drop (hacts : a.conn = some conn) (hc : w.conns conn = some c) :
    Effect w a (w.drop conn) := by
  refine .leave conn hacts rfl rfl rfl rfl (by simp [World.subIdOf, hc]) (.inl ?_) fun n hn => ?_
  · simp [World.drop, World.subIdOf_setConn]
  · rw [World.drop, World.subIdOf_setConn, if_neg hn]
    rfl

theorem effect_onFrame {w' : World} {handle : Conn → World} (hacts : a.conn = some conn)
    (hs : onFrame w conn handle = some w')
    (hhandle : ∀ c₀ c, w.conns conn = some c₀ → c.subId = c₀.subId → Effect w a (handle c)) :
    Effect w a w' := by
  unfold onFrame at hs
  split at hs
  · next c₀ hc₀ =>
    obtain ⟨-, hs⟩ := ite_none_right_eq_some.mp hs
    split at hs
    · next c hc =>
      obtain ⟨-, hsome⟩ := ite_none_left_eq_some.mp hc
      cases hsome
      cases hs
      exact hhandle c₀ _ hc₀ rfl
    · cases hs
      exact effect_drop hacts hc₀
  · nomatch hs

variable {pValue : Bytes32}

theorem effect_handleReq {subId : String} {sent : Bool} (hc : w.conns conn = some c₀)
    (hname : c.subId = c₀.subId) :
    Effect w (.req conn subId pValue sent) (handleReq w conn c subId pValue sent) := by
  unfold handleReq
  split
  · exact effect_keep hc hname rfl rfl rfl rfl rfl rfl
  next hfirst =>
  split
  · exact effect_keep hc hname rfl rfl rfl rfl rfl rfl
  next hfree =>
  split
  · exact effect_drop rfl hc
  next hsent =>
  obtain rfl : sent = true := by simpa using hsent
  have hnone : c₀.subId = none := by
    rw [← hname]
    simpa using (not_or.mp hfirst).2
  refine .join ⟨conn, subId, pValue⟩ rfl (fun s hs heq => hfree ?_) ?_ rfl rfl rfl rfl ?_
    fun n hn => ?_
  · exact any_eq_true.mpr ⟨s, hs, beq_iff_eq.mpr heq⟩
  · simp [World.subIdOf, hc, hnone]
  · simp [World.subIdOf_setConn]
  · rw [World.subIdOf_setConn, if_neg hn]
    rfl

theorem effect_handleEvent {ev : Json} {wall : Nat} (hc : w.conns conn = some c₀)
    (hname : c.subId = c₀.subId) :
    Effect w (.event conn ev wall) (handleEvent P w conn c ev wall) := by
  unfold handleEvent
  dsimp only
  split
  · exact effect_keep hc hname rfl rfl rfl rfl rfl rfl
  split
  · exact effect_keep hc hname rfl rfl rfl rfl rfl rfl
  · exact effect_keep hc hname rfl rfl rfl rfl rfl rfl

theorem effect_handleReserve {ev : Json} {id : Bytes32} {wall : Nat} (hc : w.conns conn = some c) :
    Effect w (.reserve conn) (handleReserve w conn c ev id pValue wall) := by
  unfold handleReserve
  obtain hdup | hfull | ⟨-, hok⟩ := reserveId_cases w.relay id w.now
  · rw [hdup]
    exact effect_keep hc rfl rfl rfl rfl rfl rfl rfl
  · rw [hfull]
    exact effect_keep hc rfl rfl rfl rfl rfl rfl rfl
  · rw [hok]
    exact effect_keep hc rfl rfl rfl rfl rfl rfl rfl

theorem effect_handleDeliver {id : Bytes32} {sent : Bool} (hc : w.conns conn = some c)
    (hphase : c.phase = .reserved id pValue) :
    Effect w (.deliver conn sent) (handleDeliver w conn c id pValue sent) := by
  have hids : ∀ (w₁ : World) (phase : Phase), w₁.conns = w.conns → ∀ n,
      (w₁.setConn conn (some { c with phase := phase })).subIdOf n = w.subIdOf n := by
    intro w₁ phase hconns n
    refine World.subIdOf_keep hconns hc ?_ n
    rfl
  unfold handleDeliver
  split
  · next relay sub heq =>
    refine .deliver conn c id pValue sent rfl hc hphase (by rw [heq]; rfl) (.inl ⟨sub, ?_, rfl⟩) rfl
      rfl (hids _ _ rfl)
    rw [heq]
  · next relay result hnone heq =>
    refine .deliver conn c id pValue sent rfl hc hphase (by rw [heq]; rfl) (.inr ⟨?_, rfl⟩) rfl
      rfl (hids _ _ rfl)
    rwa [heq]

/-- **Effects.** What any step does. -/
theorem effect_of_step {w' : World} (hs : w.step P a = some w') : Effect w a w' := by
  cases a with
  | connect =>
    cases hs
    refine .quiet rfl rfl rfl (Nat.le_refl _) (Nat.le_succ _) fun n => ?_
    rw [World.subIdOf_setConn]
    split
    · next heq => exact .inr ⟨Nat.le_of_eq heq.symm, heq ▸ Nat.lt_succ_self _, rfl⟩
    · exact .inl rfl
  | frame conn =>
    exact effect_onFrame rfl hs fun c₀ c hc hname => effect_keep hc hname rfl rfl rfl rfl rfl rfl
  | req conn subId pValue sent =>
    exact effect_onFrame rfl hs fun c₀ c hc hname => effect_handleReq hc hname
  | close conn subId =>
    refine effect_onFrame rfl hs fun c₀ c hc hname => ?_
    split
    · refine .leave conn rfl rfl rfl rfl rfl (by simp [World.subIdOf, hc]) (.inr ?_) fun n hn => ?_
      · simp [World.subIdOf_setConn]
      · rw [World.subIdOf_setConn, if_neg hn]
        rfl
    · exact effect_keep hc hname rfl rfl rfl rfl rfl rfl
  | event conn ev wall =>
    exact effect_onFrame rfl hs fun c₀ c hc hname => effect_handleEvent hc hname
  | reserve conn =>
    obtain ⟨c, hc, hs⟩ := bind_eq_some_iff.mp hs
    split at hs
    · cases hs
      exact effect_handleReserve hc
    · nomatch hs
  | deliver conn sent =>
    obtain ⟨c, hc, hs⟩ := bind_eq_some_iff.mp hs
    split at hs
    · next hphase =>
      cases hs
      exact effect_handleDeliver hc hphase
    · nomatch hs
  | unreserve conn =>
    obtain ⟨c, hc, hs⟩ := bind_eq_some_iff.mp hs
    split at hs
    · next id hphase =>
      cases hs
      refine effect_keep hc rfl rfl ?_ ?_ rfl rfl rfl
      · unfold Relay.unreserveId
        split <;> rfl
      · unfold Relay.unreserveId
        split <;> rfl
    · nomatch hs
  | disconnect conn =>
    obtain ⟨c, hc, hs⟩ := bind_eq_some_iff.mp hs
    obtain ⟨-, hsome⟩ := ite_none_right_eq_some.mp hs
    cases hsome
    exact effect_drop rfl hc
  | tick elapsed =>
    cases hs
    exact .quiet rfl rfl rfl (Nat.le_add_right _ _) (Nat.le_refl _) fun n => .inl rfl

end

/-! ### Owners -/

/-- Connections are numbered in order, every subscription is that of a live connection under the
name that it registered, and a key and a connection have one subscription at most. -/
structure World.Owned (w : World) : Prop where
  known : ∀ n, w.subIdOf n ≠ none → n < w.nextConnId
  owner : ∀ s ∈ w.relay.subs, w.subIdOf s.connId = some (some s.subId)
  keys : (w.relay.subs.map Sub.pValue).Nodup
  conns : (w.relay.subs.map Sub.connId).Nodup

theorem mem_removeSub {r : Relay} {s : Sub} :
    s ∈ (r.removeSub conn).subs ↔ s ∈ r.subs ∧ s.connId ≠ conn := by
  simp [Relay.removeSub]

theorem deliverSingle_subs (r : Relay) (pValue : Bytes32) (sent : Bool) (now : Nat) :
    (r.deliverSingle pValue sent now).1.subs = r.subs := by
  unfold Relay.deliverSingle
  split
  · rfl
  · dsimp only
    split
    · rfl
    split
    · rfl
    split <;> rfl
  · rfl

variable {a : Action}

theorem World.Owned.step {w' : World} (h : w.Owned) (he : Effect w a w') : w'.Owned := by
  cases he with
  | quiet subs _ _ _ next ids =>
    refine ⟨fun n hn => ?_, fun s hs => ?_, by rw [subs]; exact h.keys, by rw [subs]; exact h.conns⟩
    · rcases ids n with heq | ⟨-, hlt, -⟩
      · exact Nat.lt_of_lt_of_le (h.known n (heq ▸ hn)) next
      · exact hlt
    · rw [subs] at hs
      have howner := h.owner s hs
      rcases ids s.connId with heq | ⟨hle, -, -⟩
      · exact heq.trans howner
      · have hlt := h.known s.connId (by rw [howner]; exact nofun)
        exact absurd hlt (Nat.not_lt.mpr hle)
  | leave conn _ relay _ _ next live _ ids =>
    refine ⟨fun n hn => ?_, fun s hs => ?_, ?_, ?_⟩
    · rw [next]
      rcases eq_or_ne n conn with rfl | hne
      · exact h.known n live
      · exact h.known n (ids n hne ▸ hn)
    · rw [relay] at hs
      obtain ⟨hmem, hne⟩ := mem_removeSub.mp hs
      exact (ids s.connId hne).trans (h.owner s hmem)
    · rw [relay]
      exact h.keys.sublist (filter_sublist.map _)
    · rw [relay]
      exact h.conns.sublist (filter_sublist.map _)
  | join sub _ free idle relay _ _ next registered ids =>
    have hother : ∀ s ∈ w.relay.subs, s.connId ≠ sub.connId := by
      intro s hs heq
      have howner := h.owner s hs
      rw [heq, idle] at howner
      cases howner
    refine ⟨fun n hn => ?_, fun s hs => ?_, ?_, ?_⟩
    · rw [next]
      rcases eq_or_ne n sub.connId with rfl | hne
      · exact h.known _ (by rw [idle]; exact nofun)
      · exact h.known n (ids n hne ▸ hn)
    · rw [relay] at hs
      rcases mem_append.mp hs with hs | hs
      · exact (ids _ (hother s hs)).trans (h.owner s hs)
      · obtain rfl := mem_singleton.mp hs
        exact registered
    · rw [relay, Relay.addSub, map_append, nodup_append]
      refine ⟨h.keys, nodup_singleton _, fun p hp q hq => ?_⟩
      obtain ⟨s, hs, rfl⟩ := mem_map.mp hp
      obtain rfl := mem_singleton.mp hq
      exact free s hs
    · rw [relay, Relay.addSub, map_append, nodup_append]
      refine ⟨h.conns, nodup_singleton _, fun p hp q hq => ?_⟩
      obtain ⟨s, hs, rfl⟩ := mem_map.mp hp
      obtain rfl := mem_singleton.mp hq
      exact hother s hs
  | deliver conn c id pValue sent _ _ _ relay _ _ next ids =>
    have hsubs : w'.relay.subs = w.relay.subs := by rw [relay, deliverSingle_subs]
    refine ⟨fun n hn => ?_, fun s hs => ?_, by rw [hsubs]; exact h.keys, by rw [hsubs]; exact h.conns⟩
    · exact next ▸ h.known n (ids n ▸ hn)
    · exact (ids _).trans (h.owner s (hsubs ▸ hs))

/-! ### Budgets -/

/-- The deliveries for a key from an instant on. -/
def World.since (w : World) (pValue : Bytes32) (start : Nat) : Nat :=
  w.written.countP fun x => x.pValue == pValue && decide (start ≤ x.writtenAt)

/-- The deliveries for a key in the time that a counter lives, from an instant on. -/
def World.within (w : World) (pValue : Bytes32) (start : Nat) : Nat :=
  w.written.countP fun x =>
    x.pValue == pValue && decide (start ≤ x.writtenAt) && decide (x.writtenAt < start + entryTtl)

/-- The counters bound what was delivered to a key. -/
structure World.Counted (w : World) : Prop where
  /-- A counter is within the budget, and was last changed in the past. -/
  bound : ∀ e ∈ w.relay.delivered, e.count ≤ maxDeliveredPerP ∧ e.lastAt ≤ w.now
  latest : ∀ e ∈ w.relay.delivered, ∀ x ∈ w.written, x.pValue = e.pValue → x.writtenAt ≤ e.lastAt
  /-- It has counted the deliveries that are not older than it lives. -/
  counted : ∀ e ∈ w.relay.delivered, ∀ start, e.lastAt < start + entryTtl →
    w.since e.pValue start ≤ e.count
  expired : ∀ x ∈ w.written, (∃ e ∈ w.relay.delivered, e.pValue = x.pValue) ∨
    x.writtenAt + entryTtl ≤ w.now
  windows : ∀ pValue start, w.within pValue start ≤ maxDeliveredPerP

/-- The count of a key whose counter has not expired. -/
def Relay.countOf (r : Relay) (pValue : Bytes32) (now : Nat) : Nat :=
  (((r.liveDelivered now).find? fun e => e.pValue == pValue).map Delivered.count).getD 0

theorem deliverSingle_cases (r : Relay) (pValue : Bytes32) (sent : Bool) (now : Nat) :
    (∃ delivered result, (delivered = r.delivered ∨ delivered = r.liveDelivered now) ∧
        (∀ sub, result ≠ .ok (some sub)) ∧
        r.deliverSingle pValue sent now = ({ r with delivered := delivered }, result)) ∨
      ∃ sub, (r.subs.filter fun s => s.pValue == pValue) = [sub] ∧
        r.countOf pValue now < maxDeliveredPerP ∧
        r.deliverSingle pValue sent now =
          ({ r with
            delivered := ⟨pValue, r.countOf pValue now + 1, now⟩ ::
              (r.liveDelivered now).filter fun e => e.pValue != pValue }, .ok (some sub)) := by
  unfold Relay.deliverSingle
  split
  · exact .inl ⟨_, _, .inl rfl, by simp, rfl⟩
  · next sub hsubs =>
    dsimp only
    split
    · exact .inl ⟨_, _, .inr rfl, by simp, rfl⟩
    next hcount =>
    split
    · exact .inl ⟨_, _, .inr rfl, by simp, rfl⟩
    split
    · exact .inr ⟨sub, hsubs, Nat.lt_of_not_le hcount, rfl⟩
    · exact .inl ⟨_, _, .inr rfl, by simp, rfl⟩
  · exact .inl ⟨_, _, .inl rfl, by simp, rfl⟩

theorem mem_liveDelivered {r : Relay} {now : Nat} {e : Delivered} :
    e ∈ r.liveDelivered now ↔ e ∈ r.delivered ∧ now - e.lastAt < entryTtl := by
  simp [Relay.liveDelivered]

theorem within_le_since (w : World) (pValue : Bytes32) (start : Nat) :
    w.within pValue start ≤ w.since pValue start := by
  refine countP_mono_left fun x _ hx => ?_
  rw [Bool.and_eq_true] at hx
  exact hx.1

section

variable {w w' : World} (h : w.Counted)

include h

theorem World.Counted.past {x : Written} (hx : x ∈ w.written) : x.writtenAt ≤ w.now := by
  rcases h.expired x hx with ⟨e, he, heq⟩ | hold
  · exact Nat.le_trans (h.latest e he x hx heq.symm) (h.bound e he).2
  · exact Nat.le_trans (Nat.le_add_right _ _) hold

theorem World.Counted.quiet (hdelivered : w'.relay.delivered = w.relay.delivered)
    (hwritten : w'.written = w.written) (hnow : w.now ≤ w'.now) : w'.Counted := by
  refine ⟨fun e he => ?_, fun e he x hx => ?_, fun e he start => ?_, fun x hx => ?_, ?_⟩
  · have hbound := h.bound e (hdelivered ▸ he)
    exact ⟨hbound.1, Nat.le_trans hbound.2 hnow⟩
  · exact h.latest e (hdelivered ▸ he) x (hwritten ▸ hx)
  · unfold World.since
    rw [hwritten]
    exact h.counted e (hdelivered ▸ he) start
  · rw [hwritten] at hx
    rw [hdelivered]
    exact (h.expired x hx).imp_right fun hold => Nat.le_trans hold hnow
  · unfold World.within
    rw [hwritten]
    exact h.windows

theorem World.Counted.live {x : Written} (hx : x ∈ w.written) :
    (∃ e ∈ w.relay.liveDelivered w.now, e.pValue = x.pValue) ∨ x.writtenAt + entryTtl ≤ w.now := by
  rcases h.expired x hx with ⟨e, he, heq⟩ | hold
  · by_cases hlive : w.now - e.lastAt < entryTtl
    · exact .inl ⟨e, mem_liveDelivered.mpr ⟨he, hlive⟩, heq⟩
    · have hlatest := h.latest e he x hx heq.symm
      exact .inr (by unfold entryTtl at *; omega)
  · exact .inr hold

theorem World.Counted.sweep (hdelivered : w'.relay.delivered = w.relay.liveDelivered w.now)
    (hwritten : w'.written = w.written) (hnow : w'.now = w.now) : w'.Counted := by
  have hsub : ∀ e ∈ w'.relay.delivered, e ∈ w.relay.delivered := by
    intro e he
    rw [hdelivered] at he
    exact (mem_liveDelivered.mp he).1
  refine ⟨fun e he => hnow ▸ h.bound e (hsub e he), fun e he x hx => ?_, fun e he start => ?_,
    fun x hx => ?_, ?_⟩
  · exact h.latest e (hsub e he) x (hwritten ▸ hx)
  · unfold World.since
    rw [hwritten]
    exact h.counted e (hsub e he) start
  · rw [hwritten] at hx
    rw [hdelivered, hnow]
    exact h.live hx
  · unfold World.within
    rw [hwritten]
    exact h.windows

theorem World.Counted.since_le_countOf {pValue : Bytes32} {start : Nat}
    (hstart : w.now < start + entryTtl) :
    w.since pValue start ≤ w.relay.countOf pValue w.now := by
  rw [Relay.countOf]
  cases hfind : (w.relay.liveDelivered w.now).find? fun e => e.pValue == pValue with
  | some e =>
    obtain ⟨he, -⟩ := mem_liveDelivered.mp (mem_of_find?_eq_some hfind)
    have hkey := find?_some hfind
    obtain rfl : e.pValue = pValue := beq_iff_eq.mp hkey
    have hbound := h.bound e he
    exact h.counted e he start (by omega)
  | none =>
    refine Nat.le_of_eq (countP_eq_zero.mpr fun x hx hmatch => ?_)
    rw [Bool.and_eq_true, beq_iff_eq, decide_eq_true_eq] at hmatch
    obtain ⟨rfl, hle⟩ := hmatch
    rcases h.live hx with ⟨e, he, heq⟩ | hold
    · exact find?_eq_none.mp hfind e he (beq_iff_eq.mpr heq)
    · omega

theorem World.Counted.deliver {id pValue : Bytes32} {sub : Sub}
    (hcount : w.relay.countOf pValue w.now < maxDeliveredPerP)
    (hdelivered : w'.relay.delivered = ⟨pValue, w.relay.countOf pValue w.now + 1, w.now⟩ ::
      (w.relay.liveDelivered w.now).filter fun e => e.pValue != pValue)
    (hwritten : w'.written = ⟨id, pValue, sub, w.now⟩ :: w.written) (hnow : w'.now = w.now) :
    w'.Counted := by
  have hother : ∀ e ∈ (w.relay.liveDelivered w.now).filter fun e => e.pValue != pValue,
      e ∈ w.relay.delivered ∧ e.pValue ≠ pValue := by
    intro e he
    obtain ⟨he, hne⟩ := mem_filter.mp he
    exact ⟨(mem_liveDelivered.mp he).1, bne_iff_ne.mp hne⟩
  have hsince : ∀ start, w'.since pValue start ≤ w.since pValue start + 1 := by
    intro start
    rw [World.since, hwritten, countP_cons, World.since]
    split <;> omega
  have hkeep : ∀ p start, p ≠ pValue → w'.since p start = w.since p start := by
    intro p start hne
    rw [World.since, hwritten, countP_cons_of_neg, World.since]
    simp [hne.symm]
  refine ⟨fun e he => ?_, fun e he x hx hkey => ?_, fun e he start hstart => ?_, fun x hx => ?_,
    fun p start => ?_⟩
  · rw [hdelivered] at he
    rw [hnow]
    rcases mem_cons.mp he with rfl | he
    · exact ⟨hcount, Nat.le_refl _⟩
    · exact h.bound e (hother e he).1
  · rw [hdelivered] at he
    rw [hwritten] at hx
    rcases mem_cons.mp he with rfl | he
    · rcases mem_cons.mp hx with rfl | hx
      · exact Nat.le_refl _
      · exact h.past hx
    · rcases mem_cons.mp hx with rfl | hx
      · exact absurd hkey.symm (hother e he).2
      · exact h.latest e (hother e he).1 x hx hkey
  · rw [hdelivered] at he
    rcases mem_cons.mp he with rfl | he
    · exact Nat.le_trans (hsince start) (Nat.succ_le_succ (h.since_le_countOf hstart))
    · rw [hkeep _ _ (hother e he).2]
      exact h.counted e (hother e he).1 start hstart
  · rw [hwritten] at hx
    rw [hdelivered, hnow]
    by_cases hkey : pValue = x.pValue
    · exact .inl ⟨_, mem_cons_self, hkey⟩
    · rcases mem_cons.mp hx with rfl | hx
      · exact absurd rfl hkey
      · refine (h.live hx).imp_left fun ⟨e, he, heq⟩ => ⟨e, mem_cons_of_mem _ ?_, heq⟩
        exact mem_filter.mpr ⟨he, bne_iff_ne.mpr fun hsame => hkey (hsame.symm.trans heq)⟩
  · -- a window that has the new delivery ends after this instant
    have hold := h.windows p start
    by_cases hin : p = pValue ∧ start ≤ w.now ∧ w.now < start + entryTtl
    · obtain ⟨rfl, -, hlt⟩ := hin
      have hcounted : w.since p start ≤ _ := h.since_le_countOf hlt
      exact Nat.le_trans (within_le_since _ _ _) (Nat.le_trans (hsince start) (by omega))
    · rw [World.within, hwritten, countP_cons_of_neg]
      · exact hold
      · rw [Bool.and_eq_true, Bool.and_eq_true, beq_iff_eq, decide_eq_true_eq, decide_eq_true_eq]
        rintro ⟨⟨rfl, hle⟩, hlt⟩
        exact hin ⟨rfl, hle, hlt⟩

theorem World.Counted.step {a : Action} (he : Effect w a w') : w'.Counted := by
  cases he with
  | quiet _ delivered written now _ _ => exact h.quiet delivered written now
  | leave conn _ relay written now _ _ _ _ | join sub _ _ _ relay written now _ _ _ =>
    exact h.quiet (by rw [relay]; rfl) written (Nat.le_of_eq now.symm)
  | deliver conn c id pValue sent _ _ _ relay written now _ _ =>
    obtain ⟨delivered, result, hdelivered, hresult, heq⟩ | ⟨sub, -, hcount, heq⟩ :=
      deliverSingle_cases w.relay pValue sent w.now
    · rw [heq] at relay written
      obtain ⟨sub, hsub, -⟩ | ⟨-, written⟩ := written
      · exact absurd hsub (hresult sub)
      · rcases hdelivered with rfl | rfl
        · exact h.quiet (by rw [relay]) written (Nat.le_of_eq now.symm)
        · exact h.sweep (by rw [relay]) written now
    · rw [heq] at relay written
      obtain ⟨sub', hsub', written⟩ | ⟨hnone, -⟩ := written
      · exact h.deliver hcount (by rw [relay]) written now
      · exact absurd rfl (hnone sub)

end

/-! ### Keys of events -/

/-- Handlers work on events that they have checked. -/
def World.Targets (P : Platform) (w : World) : Prop :=
  ∀ conn c id pValue, w.conns conn = some c → c.phase.target = some (id, pValue) → Keyed P id pValue

theorem World.Targets.setConn {w₁ : World} {c : Option Conn} (h : w.Targets P)
    (hconns : w₁.conns = w.conns)
    (hc : ∀ c₁ id pValue, c = some c₁ → c₁.phase.target = some (id, pValue) → Keyed P id pValue) :
    (w₁.setConn conn c).Targets P := by
  intro n c₁ id pValue hc₁ htarget
  rw [World.conns_setConn] at hc₁
  split at hc₁
  · exact hc c₁ id pValue hc₁ htarget
  · exact h n c₁ id pValue (hconns ▸ hc₁) htarget

theorem World.Targets.idle {w₁ : World} {c : Conn} (h : w.Targets P) (hconns : w₁.conns = w.conns)
    (hidle : c.phase.target = none) : (w₁.setConn conn (some c)).Targets P := by
  refine h.setConn hconns fun c₁ id pValue hc₁ htarget => ?_
  cases hc₁
  rw [hidle] at htarget
  cases htarget

theorem World.Targets.drop (h : w.Targets P) (conn : Nat) : (w.drop conn).Targets P :=
  h.setConn rfl nofun

section

variable {w : World} {conn : Nat} {c : Conn} (h : w.Targets P) (hidle : c.phase = .idle)

include h hidle

theorem targets_handleReq (subId : String) (pValue : Bytes32) (sent : Bool) :
    (handleReq w conn c subId pValue sent).Targets P := by
  have hnone : c.phase.target = none := by rw [hidle]; rfl
  unfold handleReq
  split
  · exact h.idle rfl hnone
  split
  · exact h.idle rfl hnone
  split
  · exact h.drop conn
  · exact h.idle rfl hnone

theorem targets_handleEvent (ev : Json) (wall : Nat) :
    (handleEvent P w conn c ev wall).Targets P := by
  have hnone : c.phase.target = none := by rw [hidle]; rfl
  unfold handleEvent
  dsimp only
  split
  · exact h.idle rfl hnone
  split
  · next eventId id pValue text hvalid htext hsig =>
    refine h.setConn rfl fun c₁ id₁ pValue₁ hc₁ htarget => ?_
    cases hc₁
    obtain ⟨rfl, rfl⟩ := Prod.mk.inj (some.inj htarget)
    exact ⟨ev, wall, _, hvalid, hsig⟩
  · exact h.idle rfl hnone

end

theorem targets_onFrame {w' : World} {handle : Conn → World} (h : w.Targets P)
    (hs : onFrame w conn handle = some w') (hhandle : ∀ c, c.phase = .idle → (handle c).Targets P) :
    w'.Targets P := by
  obtain ⟨c₀, -, -, rfl | ⟨c, hidle, rfl⟩⟩ := onFrame_cases hs
  · exact h.drop conn
  · exact hhandle c hidle

theorem World.Targets.step {w' : World} (h : w.Targets P) (hs : w.step P a = some w') :
    w'.Targets P := by
  cases a with
  | connect =>
    cases hs
    exact h.idle rfl rfl
  | frame conn =>
    exact targets_onFrame h hs fun c hidle => h.idle rfl (by rw [hidle]; rfl)
  | req conn subId pValue sent =>
    exact targets_onFrame h hs fun c hidle => targets_handleReq h hidle subId pValue sent
  | close conn subId =>
    refine targets_onFrame h hs fun c hidle => ?_
    have hnone : c.phase.target = none := by rw [hidle]; rfl
    split
    · exact h.idle rfl hnone
    · exact h.idle rfl hnone
  | event conn ev wall =>
    exact targets_onFrame h hs fun c hidle => targets_handleEvent h hidle ev wall
  | reserve conn =>
    obtain ⟨c, hc, hs⟩ := bind_eq_some_iff.mp hs
    split at hs
    · next ev id pValue wall hphase =>
      cases hs
      unfold handleReserve
      split
      · refine h.setConn rfl fun c₁ id₁ pValue₁ hc₁ htarget => ?_
        cases hc₁
        exact h conn c id₁ pValue₁ hc (by rw [hphase]; exact htarget)
      · exact h.idle rfl rfl
    · nomatch hs
  | deliver conn sent =>
    obtain ⟨c, hc, hs⟩ := bind_eq_some_iff.mp hs
    split at hs
    · cases hs
      unfold handleDeliver
      split
      · exact h.idle rfl rfl
      · exact h.idle rfl rfl
    · nomatch hs
  | unreserve conn =>
    obtain ⟨c, hc, hs⟩ := bind_eq_some_iff.mp hs
    split at hs
    · cases hs
      exact h.idle rfl rfl
    · nomatch hs
  | disconnect conn =>
    obtain ⟨c, hc, hs⟩ := bind_eq_some_iff.mp hs
    obtain ⟨-, hsome⟩ := ite_none_right_eq_some.mp hs
    cases hsome
    exact h.drop conn
  | tick elapsed =>
    cases hs
    exact h

/-! ### Main result -/

/-- What holds of a step: an event is written to the one subscriber of its key, a subscription is
removed by its connection, and made by a request for it. -/
structure StepSound (P : Platform) (w : World) (a : Action) (w' : World) : Prop where
  /-- A delivery is to the subscriber of the key, and counted at this instant. -/
  written : w'.written = w.written ∨ ∃ x, w'.written = x :: w.written ∧ x.writtenAt = w.now ∧
    Keyed P x.id x.pValue ∧ ∀ s, s ∈ w.relay.subs ∧ s.pValue = x.pValue ↔ s = x.sub
  /-- A subscription that is removed is that of the connection that acts. -/
  removed : ∀ s ∈ w.relay.subs, s ∉ w'.relay.subs → a.conn = some s.connId
  added : ∀ s ∈ w'.relay.subs, s ∉ w.relay.subs → a = .req s.connId s.subId s.pValue true

theorem stepSound_of_effect {w' : World} (htargets : w.Targets P) (he : Effect w a w') :
    StepSound P w a w' := by
  cases he with
  | quiet subs _ written _ _ _ =>
    exact ⟨.inl written, fun s hs hnot => absurd (subs ▸ hs) hnot,
      fun s hs hnot => absurd (subs ▸ hs) hnot⟩
  | leave conn acts relay written _ _ _ _ _ =>
    refine ⟨.inl written, fun s hs hnot => ?_, fun s hs hnot => ?_⟩
    · rw [relay, mem_removeSub, not_and, not_not] at hnot
      rw [acts, hnot hs]
    · rw [relay, mem_removeSub] at hs
      exact absurd hs.1 hnot
  | join sub acts _ _ relay written _ _ _ _ =>
    refine ⟨.inl written, fun s hs hnot => ?_, fun s hs hnot => ?_⟩
    · rw [relay] at hnot
      exact absurd (mem_append_left _ hs) hnot
    · rw [relay] at hs
      rcases mem_append.mp hs with hs | hs
      · exact absurd hs hnot
      · rw [mem_singleton.mp hs, acts]
  | deliver conn c id pValue sent _ live phase relay written _ _ _ =>
    have hsubs : w'.relay.subs = w.relay.subs := by rw [relay, deliverSingle_subs]
    refine ⟨?_, fun s hs hnot => absurd (hsubs ▸ hs) hnot, fun s hs hnot => absurd (hsubs ▸ hs) hnot⟩
    obtain ⟨sub, hresult, written⟩ | ⟨-, written⟩ := written
    · refine .inr ⟨_, written, rfl, htargets conn c id pValue live (by rw [phase]; rfl), fun s => ?_⟩
      obtain ⟨delivered, result, -, hnone, heq⟩ | ⟨sub', hone, -, heq⟩ :=
        deliverSingle_cases w.relay pValue sent w.now
      · rw [heq] at hresult
        exact absurd hresult (hnone sub)
      · rw [heq] at hresult
        obtain rfl := some.inj (Except.ok.inj hresult)
        have hmem : s ∈ w.relay.subs.filter (fun s => s.pValue == pValue) ↔ s = sub' := by
          simp [hone]
        rwa [mem_filter, beq_iff_eq] at hmem
    · exact .inl written

theorem owned_of_reachable (h : (pairRelay P).Reachable w) :
    w.Owned ∧ w.Counted ∧ w.Targets P := by
  refine h.invariant (I := fun w => w.Owned ∧ w.Counted ∧ w.Targets P) ?_ ?_
  · rintro w ⟨now, rfl⟩
    refine ⟨⟨fun n hn => absurd rfl hn, nofun, nodup_nil, nodup_nil⟩,
      ⟨nofun, nofun, nofun, nofun, fun _ _ => Nat.zero_le _⟩, nofun⟩
  · rintro w a w' - ⟨howned, hcounted, htargets⟩ hs
    have heffect := effect_of_step hs
    exact ⟨howned.step heffect, hcounted.step heffect, htargets.step hs⟩

/-- **Subscriptions.** In every run, a key has one subscriber at most, a connection that is gone has
nothing left to remove, and no window as long as a counter lives has more deliveries for a key than
its budget. Every step writes to the subscriber of the key, and removes what is its own. -/
theorem subscriptions_sound {w : World} (h : (pairRelay P).Reachable w) :
    (∀ pValue, (w.relay.subs.filter fun s => s.pValue == pValue).length ≤ 1) ∧
    (∀ conn, w.conns conn = none → w.relay.removeSub conn = w.relay) ∧
    (∀ pValue start, w.within pValue start ≤ maxDeliveredPerP) ∧
    ∀ a w', (pairRelay P).step w a = some w' → StepSound P w a w' := by
  obtain ⟨howned, hcounted, htargets⟩ := owned_of_reachable h
  refine ⟨fun pValue => ?_, fun conn hconn => ?_, hcounted.windows,
    fun a w' hs => stepSound_of_effect htargets (effect_of_step hs)⟩
  · have hcount := nodup_iff_count_le_one.mp howned.keys pValue
    rwa [count, countP_map, countP_eq_length_filter] at hcount
  · rw [Relay.removeSub, filter_eq_self.mpr]
    intro s hs
    refine bne_iff_ne.mpr fun heq => ?_
    have howner := howned.owner s hs
    rw [heq, World.subIdOf, hconn] at howner
    cases howner

def oneKey : Bytes32 := replicate 32 7

/-- A connection subscribes and closes, another one takes its place, and the first one is about to
disconnect. -/
def successionRun : List Action :=
  [.connect, .connect, .req 0 "first" oneKey true, .req 1 "early" oneKey true, .close 0 "first",
    .req 1 "second" oneKey true]

/-- The second subscription is kept when the first connection disconnects. -/
theorem subscriptions_sound_successionRun : ∃ w w',
    (pairRelay wirePlatform).run quietRelay successionRun = some w ∧
    (pairRelay wirePlatform).step w (.disconnect 0) = some w' ∧
    w'.relay.subs = [⟨1, "second", oneKey⟩] ∧ StepSound wirePlatform w (.disconnect 0) w' := by
  have hany : ((pairRelay wirePlatform).run quietRelay successionRun).any (fun w =>
        ((pairRelay wirePlatform).step w (.disconnect 0)).any fun w' =>
          decide (w'.relay.subs = [⟨1, "second", oneKey⟩])) = true := by
    decide +kernel
  obtain ⟨w, hrun, hw⟩ := (any_eq_true _ _).mp hany
  obtain ⟨w', hstep, hsubs⟩ := (any_eq_true _ _).mp hw
  have hreach : (pairRelay wirePlatform).Reachable w := ⟨_, successionRun, ⟨0, rfl⟩, hrun⟩
  exact ⟨w, w', hrun, hstep, of_decide_eq_true hsubs,
    (subscriptions_sound hreach).2.2.2 _ w' hstep⟩

end Buzz.PairRelay
