import Buzz.Relay.Tunnel.Reliable

/-!
# Fenced delivery

A frame reaches the session in two steps, and only a frame that passes the local checks waits for
the directory. The fence of the stream never changes, and its community changes once, so the frames
that were handed over all have both. What waits, together with what is handed over, is what arrived,
in order, without the frames that were rejected.
-/

namespace Buzz.Tunnel

open List Option Function

/-- The local checks that a mesh frame passes, and what is left of it then. -/
def ReliableMeshStream.Admits (t : ReliableMeshStream) (frame : MeshStreamFrame)
    (p : FencedFrame) : Prop :=
  (∃ payload, frame = .data t.fenced payload ∧ ReliableWireFrame.decode payload = .ok p.frame) ∧
    p.fenced = t.fenced ∧ ∀ c, t.communityId = some c → c = p.frame.communityId

def FencedFrame.payload (p : FencedFrame) : List UInt8 :=
  match p.frame with
  | .data _ payload => payload
  | .goodbye _ _ => []

/-- A mesh frame taken apart, without any check. -/
def MeshStreamFrame.fencedFrame : MeshStreamFrame → Option FencedFrame
  | .data fenced payload =>
    match ReliableWireFrame.decode payload with
    | .ok frame => some ⟨fenced, frame⟩
    | .error _ => none
  | _ => none

def TunnelAction.received : TunnelAction → Option MeshStreamFrame
  | .recv (.ok (some frame)) => some frame
  | _ => none

variable {t t' : ReliableMeshStream} {p : FencedFrame} {s s' : TunnelState}

/-! ### The checks -/

variable {communityId : CommunityId}

theorem checkFrameFence_eq_ok {fenced : FencedHeader} :
    t.checkFrameFence communityId fenced = .ok () ↔
      fenced = t.fenced ∧ ∀ c, t.communityId = some c → c = communityId := by
  rw [ReliableMeshStream.checkFrameFence]
  split
  · next hne => exact ⟨nofun, fun h => absurd h.1 hne⟩
  · next heq =>
    rw [ne_eq, not_not] at heq
    cases hc : t.communityId with
    | none => exact ⟨fun _ => ⟨heq, nofun⟩, fun _ => rfl⟩
    | some expected =>
      show (if expected ≠ communityId then
        Except.error (ReliableStreamError.communityMismatch expected communityId)
        else Except.ok ()) = Except.ok () ↔ _
      split
      · next hne => exact ⟨nofun, fun h => absurd (h.2 expected rfl) hne⟩
      · next hc' =>
        rw [ne_eq, not_not] at hc'
        exact ⟨fun _ => ⟨heq, fun c h => (some.inj h).symm.trans hc'⟩, fun _ => rfl⟩

variable {frame : MeshStreamFrame}

theorem recvStart_eq_ok : t.recvStart frame = .ok p ↔ t.Admits frame p := by
  cases frame with
  | data fenced payload =>
    rw [ReliableMeshStream.recvStart, bind_eq_ok_iff]
    constructor
    · rintro ⟨frame, hdecode, h⟩
      obtain ⟨_, hcheck, h⟩ := bind_eq_ok_iff.mp h
      cases h
      obtain ⟨rfl, hcommunity⟩ := checkFrameFence_eq_ok.mp hcheck
      exact ⟨⟨payload, rfl, hdecode⟩, rfl, hcommunity⟩
    · rintro ⟨⟨payload', hframe, hdecode⟩, hfenced, hcommunity⟩
      obtain ⟨rfl, rfl⟩ := MeshStreamFrame.data.inj hframe
      refine ⟨p.frame, hdecode,
        bind_eq_ok_iff.mpr ⟨(), checkFrameFence_eq_ok.mpr ⟨rfl, hcommunity⟩, ?_⟩⟩
      rw [← hfenced]
      rfl
  | hello hello | goodbye fenced reason | gossip payload =>
      exact ⟨nofun, fun ⟨⟨_, h, _⟩, _⟩ => nomatch h⟩

theorem fencedFrame_of_admits (h : t.Admits frame p) : frame.fencedFrame = some p := by
  obtain ⟨⟨payload, rfl, hdecode⟩, hfenced, -⟩ := h
  show (match ReliableWireFrame.decode payload with
    | .ok frame => some (FencedFrame.mk t.fenced frame)
    | .error _ => none) = some p
  rw [hdecode, ← hfenced]

theorem afterValidate_of_ok
    (hok : validateFencedHeader p.frame.communityId p.fenced
      (s.directory p.frame.communityId).redis = .ok ())
    (hlatch : ∀ c, s.stream.communityId = some c → c = p.frame.communityId) :
    s.afterValidate p =
      { s with
        stream := { s.stream with communityId := some p.frame.communityId }
        pending := none
        delivered := s.delivered ++ [p] } := by
  rw [TunnelState.afterValidate, ReliableMeshStream.recvFinish, hok]
  obtain ⟨⟨fenced, communityId⟩, pending, delivered, errors, sent, directory⟩ := s
  cases communityId with
  | none => rfl
  | some c =>
    obtain rfl : c = p.frame.communityId := hlatch c rfl
    rfl

theorem afterValidate_of_error {e : MeshError}
    (herr : validateFencedHeader p.frame.communityId p.fenced
      (s.directory p.frame.communityId).redis = .error e) :
    s.afterValidate p = { s with pending := none, errors := s.errors ++ [.mesh e] } := by
  rw [TunnelState.afterValidate, ReliableMeshStream.recvFinish, herr]

theorem ensureOutboundCommunity_eq_ok (h : t.ensureOutboundCommunity communityId = .ok t') :
    t'.fenced = t.fenced ∧ ∀ c, t.communityId = some c → t'.communityId = some c := by
  rw [ReliableMeshStream.ensureOutboundCommunity] at h
  split at h
  · split at h
    · nomatch h
    · cases h
      exact ⟨rfl, fun _ hc => hc⟩
  · next hnone =>
    cases h
    exact ⟨rfl, fun c hc => nomatch hnone.symm.trans hc⟩

theorem sendBytes_stream (communityId : CommunityId) (bytes : List UInt8) (writes : Writes) :
    (t.sendBytes communityId bytes writes).1.fenced = t.fenced ∧
      ∀ c, t.communityId = some c →
        (t.sendBytes communityId bytes writes).1.communityId = some c := by
  rw [ReliableMeshStream.sendBytes]
  split
  · exact ⟨rfl, fun _ hc => hc⟩
  · next t' h => exact ensureOutboundCommunity_eq_ok h

theorem sendGoodbye_stream (communityId : CommunityId) (reason : GoodbyeReason) (writes : Writes) :
    (t.sendGoodbye communityId reason writes).1.fenced = t.fenced ∧
      ∀ c, t.communityId = some c →
        (t.sendGoodbye communityId reason writes).1.communityId = some c := by
  rw [ReliableMeshStream.sendGoodbye]
  split
  · exact ⟨rfl, fun _ hc => hc⟩
  · next t' h => exact ensureOutboundCommunity_eq_ok h

/-! ### One step -/

theorem afterRecv_cases (next : Except String (Option MeshStreamFrame)) :
    (∃ frame p, next = .ok (some frame) ∧ s.stream.Admits frame p ∧
        s.afterRecv next = { s with pending := some p }) ∨
      (∀ frame p, next = .ok (some frame) → ¬ s.stream.Admits frame p) ∧
        ∃ es, s.afterRecv next = { s with errors := s.errors ++ es } ∧
          (TunnelAction.received (.recv next)).toList.length ≤ es.length := by
  match next with
  | .error message =>
    exact .inr ⟨nofun, [.transport message], rfl, Nat.zero_le 1⟩
  | .ok none =>
    refine .inr ⟨nofun, [], ?_, Nat.le_refl 0⟩
    rw [append_nil]
    rfl
  | .ok (some frame) =>
    cases hstart : s.stream.recvStart frame with
    | ok p =>
      refine .inl ⟨frame, p, rfl, recvStart_eq_ok.mp hstart, ?_⟩
      simp only [TunnelState.afterRecv, hstart]
    | error e =>
      refine .inr ⟨?_, [e], ?_, Nat.le_refl 1⟩
      · rintro frame' p h hadmits
        obtain rfl := some.inj (Except.ok.inj h)
        nomatch hstart.symm.trans (recvStart_eq_ok.mpr hadmits)
      · simp only [TunnelState.afterRecv, hstart]

theorem afterValidate_cases (s : TunnelState) (p : FencedFrame) :
    (∃ t, (∀ c, s.stream.communityId = some c → t.communityId = some c) ∧
        t.fenced = s.stream.fenced ∧
        s.afterValidate p =
          { s with stream := t, pending := none, delivered := s.delivered ++ [p] }) ∨
      ∃ e, s.afterValidate p = { s with pending := none, errors := s.errors ++ [e] } := by
  cases hvalid : validateFencedHeader p.frame.communityId p.fenced
      (s.directory p.frame.communityId).redis with
  | error e => exact .inr ⟨_, afterValidate_of_error hvalid⟩
  | ok u =>
    refine .inl ⟨if s.stream.communityId.isNone then
      { s.stream with communityId := some p.frame.communityId } else s.stream, ?_, ?_, ?_⟩
    · intro c hc
      rwa [hc]
    · split <;> rfl
    · rw [TunnelState.afterValidate, ReliableMeshStream.recvFinish, hvalid]

variable {a : TunnelAction}

/-- The fence of the stream stays, and a community that is known stays. -/
theorem step_stream (h : s.step a = some s') :
    s'.stream.fenced = s.stream.fenced ∧
      ∀ c, s.stream.communityId = some c → s'.stream.communityId = some c := by
  cases a with
  | recv next =>
    obtain rfl := some.inj (ite_none_right_eq_some.mp h).2
    obtain ⟨_, _, -, -, heq⟩ | ⟨-, _, heq, -⟩ := afterRecv_cases (s := s) next
    · rw [heq]
      exact ⟨rfl, fun _ hc => hc⟩
    · rw [heq]
      exact ⟨rfl, fun _ hc => hc⟩
  | validate =>
    obtain ⟨p, -, rfl⟩ := map_eq_some_iff.mp h
    obtain ⟨t, hcommunity, hfenced, heq⟩ | ⟨_, heq⟩ := afterValidate_cases s p
    · rw [heq]
      exact ⟨hfenced, hcommunity⟩
    · rw [heq]
      exact ⟨rfl, fun _ hc => hc⟩
  | drop =>
    obtain rfl := some.inj (ite_none_left_eq_some.mp h).2
    exact ⟨rfl, fun _ hc => hc⟩
  | sendBytes communityId bytes writes =>
    obtain rfl := some.inj (ite_none_right_eq_some.mp h).2
    exact sendBytes_stream communityId bytes writes
  | sendGoodbye communityId reason writes =>
    obtain rfl := some.inj (ite_none_right_eq_some.mp h).2
    exact sendGoodbye_stream communityId reason writes
  | directory communityId action =>
    obtain ⟨d, -, rfl⟩ := map_eq_some_iff.mp h
    exact ⟨rfl, fun _ hc => hc⟩

/-- What a step hands over waited before, and what waits afterwards waited before or arrived. Unless
the call is dropped, whatever is gone left an error. -/
theorem step_ledger (h : s.step a = some s') :
    ∃ l es, s'.delivered = s.delivered ++ l ∧ s'.errors = s.errors ++ es ∧
      (l ++ s'.pending.toList).Sublist
        (s.pending.toList ++ (a.received.bind MeshStreamFrame.fencedFrame).toList) ∧
      (a ≠ .drop → s.pending.toList.length + a.received.toList.length ≤
        l.length + s'.pending.toList.length + es.length) := by
  cases a with
  | recv next =>
    obtain ⟨hpending, h⟩ := ite_none_right_eq_some.mp h
    cases h
    obtain ⟨frame, p, rfl, hadmits, heq⟩ | ⟨-, es, heq, hlen⟩ := afterRecv_cases (s := s) next
    · rw [heq, hpending]
      refine ⟨[], [], (append_nil _).symm, (append_nil _).symm, ?_, fun _ => by simp⟩
      show List.Sublist [p] (frame.fencedFrame.toList)
      rw [fencedFrame_of_admits hadmits]
      exact List.Sublist.refl _
    · rw [heq, hpending]
      refine ⟨[], es, (append_nil _).symm, rfl, nil_sublist _, fun _ => ?_⟩
      show 0 + _ ≤ 0 + 0 + es.length
      omega
  | validate =>
    obtain ⟨p, hpending, rfl⟩ := map_eq_some_iff.mp h
    obtain ⟨t, -, -, heq⟩ | ⟨e, heq⟩ := afterValidate_cases s p
    · rw [heq, hpending]
      exact ⟨[p], [], rfl, (append_nil _).symm, List.Sublist.refl _, fun _ => Nat.le_refl 1⟩
    · rw [heq, hpending]
      exact ⟨[], [e], (append_nil _).symm, rfl, nil_sublist _, fun _ => Nat.le_refl 1⟩
  | drop =>
    obtain rfl := some.inj (ite_none_left_eq_some.mp h).2
    exact ⟨[], [], (append_nil _).symm, (append_nil _).symm, nil_sublist _,
      fun hne => absurd rfl hne⟩
  | sendBytes communityId bytes writes | sendGoodbye communityId reason writes =>
    obtain rfl := some.inj (ite_none_right_eq_some.mp h).2
    exact ⟨[], [], (append_nil _).symm, (append_nil _).symm,
      sublist_append_left _ _, fun _ => by simp [TunnelState.afterSend, TunnelAction.received]⟩
  | directory communityId action =>
    obtain ⟨d, -, rfl⟩ := map_eq_some_iff.mp h
    exact ⟨[], [], (append_nil _).symm, (append_nil _).symm,
      sublist_append_left _ _, fun _ => by simp [TunnelAction.received]⟩

/-! ### Runs -/

variable {as : List TunnelAction}

/-- What is handed over along a run, together with what waits at its end, is what waited at its
beginning and what arrived, in order. When nothing failed and no call was dropped, every frame that
was taken is there. -/
theorem run_ledger {fenced : FencedHeader} (h : (tunnel fenced).run s as = some s') :
    ∃ l es, s'.delivered = s.delivered ++ l ∧ s'.errors = s.errors ++ es ∧
      (l ++ s'.pending.toList).Sublist (s.pending.toList ++
        (as.filterMap TunnelAction.received).filterMap MeshStreamFrame.fencedFrame) ∧
      ((∀ a ∈ as, a ≠ .drop) →
        s.pending.toList.length + (as.filterMap TunnelAction.received).length ≤
          l.length + s'.pending.toList.length + es.length) := by
  induction as generalizing s with
  | nil =>
    obtain rfl : s = s' := some.inj h
    exact ⟨[], [], (append_nil _).symm, (append_nil _).symm,
      sublist_append_left _ _, fun _ => by simp⟩
  | cons a as ih =>
    obtain ⟨s₁, hs, hr⟩ := (tunnel fenced).run_cons_eq_some.mp h
    obtain ⟨l₁, es₁, hdel₁, herr₁, hsub₁, hlen₁⟩ := step_ledger hs
    obtain ⟨l₂, es₂, hdel₂, herr₂, hsub₂, hlen₂⟩ := ih hr
    have harrived : ((a :: as).filterMap TunnelAction.received) =
        a.received.toList ++ as.filterMap TunnelAction.received := by
      rw [filterMap_cons]
      cases a.received <;> rfl
    refine ⟨l₁ ++ l₂, es₁ ++ es₂, ?_, ?_, ?_, fun hdrop => ?_⟩
    · simp [hdel₂, hdel₁]
    · simp [herr₂, herr₁]
    · have hone : (a.received.bind MeshStreamFrame.fencedFrame).toList =
          a.received.toList.filterMap MeshStreamFrame.fencedFrame := by
        cases a.received with
        | none => rfl
        | some frame =>
          show frame.fencedFrame.toList = [frame].filterMap MeshStreamFrame.fencedFrame
          rw [filterMap_cons]
          cases frame.fencedFrame <;> rfl
      rw [harrived, filterMap_append, ← hone, append_assoc]
      calc (l₁ ++ (l₂ ++ s'.pending.toList)).Sublist _ := hsub₂.append_left l₁
        _ = _ := (append_assoc _ _ _).symm
        List.Sublist _ _ := hsub₁.append_right _
        _ = _ := append_assoc _ _ _
    · have h₁ := hlen₁ (hdrop a mem_cons_self)
      have h₂ := hlen₂ fun b hb => hdrop b (mem_cons_of_mem a hb)
      rw [harrived, length_append, length_append, length_append]
      omega

/-! ### The invariant -/

/-- What was handed over has the fence and the community of the stream, and so does what waits, once
the community is known. -/
structure TunnelInv (fenced : FencedHeader) (s : TunnelState) : Prop where
  pinned : s.stream.fenced = fenced
  waiting : ∀ p, s.pending = some p →
    p.fenced = fenced ∧ ∀ c, s.stream.communityId = some c → c = p.frame.communityId
  handed : ∀ p ∈ s.delivered,
    p.fenced = fenced ∧ s.stream.communityId = some p.frame.communityId
  used : ∀ c, (directory c fenced.sessionId).Reachable (s.directory c)

variable {fenced : FencedHeader}

theorem tunnelInv_init (h : (tunnel fenced).Init s) : TunnelInv fenced s := by
  obtain ⟨hfenced, hpending, hdelivered, -, -, hused⟩ := h
  refine ⟨hfenced, fun p hp => ?_, fun p hp => ?_, hused⟩
  · nomatch hpending.symm.trans hp
  · rw [hdelivered] at hp
    nomatch hp

theorem step_of_ne_validate (h : s.step a = some s') (ha : a ≠ .validate) :
    s'.delivered = s.delivered ∧
      ((s'.pending = s.pending ∧ (s.pending = none ∨ s'.stream = s.stream)) ∨ s'.pending = none ∨
        ∃ frame p, s.stream.Admits frame p ∧ s'.pending = some p ∧ s'.stream = s.stream) := by
  cases a with
  | recv next =>
    obtain ⟨hpending, h⟩ := ite_none_right_eq_some.mp h
    cases h
    obtain ⟨frame, p, -, hadmits, heq⟩ | ⟨-, _, heq, -⟩ := afterRecv_cases (s := s) next
    · rw [heq]
      exact ⟨rfl, .inr (.inr ⟨frame, p, hadmits, rfl, rfl⟩)⟩
    · rw [heq]
      exact ⟨rfl, .inl ⟨rfl, .inr rfl⟩⟩
  | validate => exact absurd rfl ha
  | drop =>
    obtain rfl := some.inj (ite_none_left_eq_some.mp h).2
    exact ⟨rfl, .inr (.inl rfl)⟩
  | sendBytes communityId bytes writes | sendGoodbye communityId reason writes =>
    obtain ⟨hpending, h⟩ := ite_none_right_eq_some.mp h
    cases h
    exact ⟨rfl, .inl ⟨rfl, .inl hpending⟩⟩
  | directory communityId action =>
    obtain ⟨d, -, rfl⟩ := map_eq_some_iff.mp h
    exact ⟨rfl, .inl ⟨rfl, .inr rfl⟩⟩

theorem step_directory (h : s.step a = some s') (c : CommunityId) :
    s'.directory c = s.directory c ∨
      ∃ action, step c s.stream.fenced.sessionId (s.directory c) action = some (s'.directory c) := by
  cases a with
  | recv next =>
    obtain rfl := some.inj (ite_none_right_eq_some.mp h).2
    obtain ⟨_, _, -, -, heq⟩ | ⟨-, _, heq, -⟩ := afterRecv_cases (s := s) next
    · exact .inl (by rw [heq])
    · exact .inl (by rw [heq])
  | validate =>
    obtain ⟨p, -, rfl⟩ := map_eq_some_iff.mp h
    obtain ⟨_, -, -, heq⟩ | ⟨_, heq⟩ := afterValidate_cases s p
    · exact .inl (by rw [heq])
    · exact .inl (by rw [heq])
  | drop =>
    obtain rfl := some.inj (ite_none_left_eq_some.mp h).2
    exact .inl rfl
  | sendBytes communityId bytes writes | sendGoodbye communityId reason writes =>
    obtain rfl := some.inj (ite_none_right_eq_some.mp h).2
    exact .inl rfl
  | directory communityId action =>
    obtain ⟨d, hd, rfl⟩ := map_eq_some_iff.mp h
    by_cases hc : c = communityId
    · subst hc
      refine .inr ⟨action, ?_⟩
      show _ = some (update s.directory c d c)
      simpa using hd
    · exact .inl (update_of_ne hc d s.directory)

theorem TunnelInv.validate_step (hI : TunnelInv fenced s) {p : FencedFrame}
    (hp : s.pending = some p) (h : s.step .validate = some s') :
    (validateFencedHeader p.frame.communityId fenced
        (s.directory p.frame.communityId).redis = .ok () →
      s' = { s with
        stream := { s.stream with communityId := some p.frame.communityId }
        pending := none
        delivered := s.delivered ++ [p] }) ∧
    (∀ e, validateFencedHeader p.frame.communityId fenced
        (s.directory p.frame.communityId).redis = .error e →
      s' = { s with pending := none, errors := s.errors ++ [.mesh e] }) := by
  obtain ⟨hfenced, hcommunity⟩ := hI.waiting p hp
  obtain ⟨p', hp', rfl⟩ := map_eq_some_iff.mp h
  obtain rfl := some.inj (hp.symm.trans hp')
  rw [← hfenced]
  exact ⟨fun hok => afterValidate_of_ok hok hcommunity, fun e herr => afterValidate_of_error herr⟩

theorem tunnelInv_step (hI : TunnelInv fenced s) (h : s.step a = some s') :
    TunnelInv fenced s' := by
  obtain ⟨hstream, hlatch⟩ := step_stream h
  have hpinned : s'.stream.fenced = fenced := hstream.trans hI.pinned
  have hused : ∀ c, (directory c fenced.sessionId).Reachable (s'.directory c) := by
    intro c
    obtain heq | ⟨action, hs⟩ := step_directory h c
    · rw [heq]
      exact hI.used c
    · rw [hI.pinned] at hs
      exact (hI.used c).step hs
  have hkept : ∀ p ∈ s.delivered,
      p.fenced = fenced ∧ s'.stream.communityId = some p.frame.communityId :=
    fun p hp => ⟨(hI.handed p hp).1, hlatch _ (hI.handed p hp).2⟩
  by_cases ha : a = .validate
  · subst ha
    obtain ⟨p, hp, -⟩ := map_eq_some_iff.mp h
    obtain ⟨hok, herror⟩ := hI.validate_step hp h
    cases hvalid : validateFencedHeader p.frame.communityId fenced
        (s.directory p.frame.communityId).redis with
    | ok u =>
      obtain rfl := hok hvalid
      refine ⟨hpinned, nofun, fun q hq => ?_, hused⟩
      obtain hq | hq := mem_append.mp hq
      · exact hkept q hq
      · obtain rfl := mem_singleton.mp hq
        exact ⟨(hI.waiting q hp).1, rfl⟩
    | error e =>
      obtain rfl := herror e hvalid
      exact ⟨hpinned, nofun, hkept, hused⟩
  · obtain ⟨hdelivered, hwait⟩ := step_of_ne_validate h ha
    refine ⟨hpinned, fun p hp => ?_, ?_, hused⟩
    · obtain ⟨heq, hnone | hsame⟩ | hnone | ⟨frame, q, hadmits, hq, hsame⟩ := hwait
      · nomatch (heq.trans hnone).symm.trans hp
      · rw [hsame]
        exact hI.waiting p (heq.symm.trans hp)
      · nomatch hnone.symm.trans hp
      · obtain rfl := some.inj (hq.symm.trans hp)
        rw [hsame]
        exact ⟨hadmits.2.1.trans hI.pinned, hadmits.2.2⟩
    · rwa [hdelivered]

theorem tunnelInv_of_reachable (h : (tunnel fenced).Reachable s) : TunnelInv fenced s :=
  h.invariant (I := TunnelInv fenced) (fun _ => tunnelInv_init)
    fun _ _ _ _ hI hs => tunnelInv_step hI hs

/-! ### The transfer of one call -/

theorem fencedFrame_meshFrame (t : ReliableMeshStream) (frame : ReliableWireFrame) :
    (t.meshFrame frame).fencedFrame = some ⟨t.fenced, frame⟩ := by
  simp only [ReliableMeshStream.meshFrame, MeshStreamFrame.fencedFrame, decode_encode]

theorem sendBytes_frames (t : ReliableMeshStream) (communityId : CommunityId) (bytes : List UInt8)
    (writes : Writes) :
    ∃ frames : List FencedFrame,
      (t.sendBytes communityId bytes writes).2.1.filterMap MeshStreamFrame.fencedFrame = frames ∧
      frames.length = (t.sendBytes communityId bytes writes).2.1.length ∧
      (frames.map FencedFrame.payload).Sublist (chunks maxReliablePayloadBytes bytes) ∧
      ((t.sendBytes communityId bytes writes).2.2 = .ok () →
        frames.map FencedFrame.payload = chunks maxReliablePayloadBytes bytes) := by
  have hmap : ∀ (t' : ReliableMeshStream) (l : List (List UInt8)),
      (l.map fun chunk => t'.meshFrame (.data communityId chunk)).filterMap
        MeshStreamFrame.fencedFrame =
      l.map fun chunk => FencedFrame.mk t'.fenced (.data communityId chunk) := by
    intro t' l
    rw [filterMap_map, ← filterMap_eq_map]
    refine congrArg (l.filterMap) (funext fun chunk => ?_)
    rw [comp_apply, comp_apply, fencedFrame_meshFrame]
  have hpayload : ∀ (t' : ReliableMeshStream) (l : List (List UInt8)),
      (l.map fun chunk => FencedFrame.mk t'.fenced (.data communityId chunk)).map
        FencedFrame.payload = l := by
    intro t' l
    rw [List.map_map]
    exact map_id l
  rw [ReliableMeshStream.sendBytes]
  split
  · exact ⟨[], rfl, rfl, nil_sublist _, nofun⟩
  · next t' _ =>
    cases writes with
    | none =>
      rw [sendFrames.eq_1]
      exact ⟨_, hmap t' _, by rw [length_map, length_map],
        (hpayload t' _).symm ▸ List.Sublist.refl _, fun _ => hpayload t' _⟩
    | some w =>
      obtain ⟨n, message⟩ := w
      rw [sendFrames]
      split
      · rw [← map_take]
        exact ⟨_, hmap t' _, by rw [length_map, length_map],
          (hpayload t' _).symm ▸ take_sublist n _, nofun⟩
      · exact ⟨_, hmap t' _, by rw [length_map, length_map],
          (hpayload t' _).symm ▸ List.Sublist.refl _, fun _ => hpayload t' _⟩

theorem run_of_sendBytes (h : (tunnel fenced).run s as = some s') (hpending : s.pending = none)
    (t : ReliableMeshStream) (communityId : CommunityId) (bytes : List UInt8) (writes : Writes)
    (hreceived : as.filterMap TunnelAction.received = (t.sendBytes communityId bytes writes).2.1) :
    ∃ l, s'.delivered = s.delivered ++ l ∧
      (l.map FencedFrame.payload).Sublist (chunks maxReliablePayloadBytes bytes) ∧
      ((t.sendBytes communityId bytes writes).2.2 = .ok () → (∀ a ∈ as, a ≠ .drop) →
        s'.errors = s.errors → s'.pending = none →
          (l.map FencedFrame.payload).flatten = bytes) := by
  obtain ⟨l, es, hdelivered, herrors, hsub, hlen⟩ := run_ledger h
  obtain ⟨frames, hframes, hcount, hpieces, hall⟩ := sendBytes_frames t communityId bytes writes
  rw [hreceived, hframes, hpending] at hsub
  have hsub' : l.Sublist frames := (sublist_append_left _ _).trans hsub
  refine ⟨l, hdelivered, (hsub'.map FencedFrame.payload).trans hpieces, ?_⟩
  intro hok hdrop hsame hdone
  have hnil : es = [] := append_right_eq_self.mp (herrors.symm.trans hsame)
  have hle := hlen hdrop
  rw [hreceived, hpending, hdone, hnil] at hle
  have heq : l = frames := by
    refine hsub'.eq_of_length_le ?_
    rw [hcount]
    simpa using hle
  rw [heq, hall hok]
  exact flatten_chunks (by decide) bytes

/-- **Fenced delivery.** At every moment of every run of one end of a tunnel:

* every frame that was handed to the session has the fence that the tunnel is pinned to, and the one
  community of the stream;
* a step hands over nothing, or the frame that waits, and then the directory accepts its fence at
  this moment: the fence is that of the live lease;
* when the directory does not accept it, the frame is gone, and the stream and what was handed over
  stay as they are;
* a frame that arrives changes neither of them, and waits exactly when it passes the local checks;
* what one call of `send_bytes` puts into the session consists of pieces of its input, in order, and
  together they are its input when nothing fails. -/
theorem fenced_delivery (fenced : FencedHeader) {s : TunnelState}
    (h : (tunnel fenced).Reachable s) :
    (∀ p ∈ s.delivered, p.fenced = fenced ∧
      s.stream.communityId = some p.frame.communityId) ∧
    (∀ a s', s.step a = some s' → s'.delivered ≠ s.delivered →
      ∃ p, a = .validate ∧ s.pending = some p ∧ s'.delivered = s.delivered ++ [p] ∧
        s'.stream.communityId = some p.frame.communityId ∧
        validateFencedHeader p.frame.communityId p.fenced
          (s.directory p.frame.communityId).redis = .ok () ∧
        ∃ lease ∈ (s.directory p.frame.communityId).handedOut,
          lookup p.frame.communityId fenced.sessionId
            (s.directory p.frame.communityId).redis = .ok (some lease) ∧
          p.fenced = lease.fencedHeader) ∧
    (∀ p s', s.pending = some p → s.step .validate = some s' →
      validateFencedHeader p.frame.communityId p.fenced
          (s.directory p.frame.communityId).redis ≠ .ok () →
        s'.delivered = s.delivered ∧ s'.stream = s.stream ∧ s'.pending = none) ∧
    (∀ frame s', s.step (.recv (.ok (some frame))) = some s' →
      s'.delivered = s.delivered ∧ s'.stream = s.stream ∧
        ∀ p, s'.pending = some p ↔ s.stream.Admits frame p) ∧
    (∀ as s', (tunnel fenced).run s as = some s' → s.pending = none →
      ∀ (t : ReliableMeshStream) communityId bytes writes,
        as.filterMap TunnelAction.received = (t.sendBytes communityId bytes writes).2.1 →
        ∃ l, s'.delivered = s.delivered ++ l ∧
          (l.map FencedFrame.payload).Sublist (chunks maxReliablePayloadBytes bytes) ∧
          ((t.sendBytes communityId bytes writes).2.2 = .ok () → (∀ a ∈ as, a ≠ .drop) →
            s'.errors = s.errors → s'.pending = none →
              (l.map FencedFrame.payload).flatten = bytes)) := by
  have hI := tunnelInv_of_reachable h
  refine ⟨hI.handed, fun a s' hs hne => ?_, fun p s' hp hs hreject => ?_, fun frame s' hs => ?_,
    fun as s' hr hpending t communityId bytes writes hreceived =>
      run_of_sendBytes hr hpending t communityId bytes writes hreceived⟩
  · by_cases ha : a = .validate
    · subst ha
      obtain ⟨p, hp, -⟩ := map_eq_some_iff.mp hs
      obtain ⟨hok, herror⟩ := hI.validate_step hp hs
      obtain ⟨hfenced, -⟩ := hI.waiting p hp
      cases hvalid : validateFencedHeader p.frame.communityId fenced
          (s.directory p.frame.communityId).redis with
      | ok u =>
        obtain rfl := hok hvalid
        have hlive := (session_fencing p.frame.communityId fenced.sessionId
          (hI.used p.frame.communityId)).2.1 fenced rfl
        obtain ⟨lease, hout, hlookup, heq⟩ := hlive.mp hvalid
        rw [← hfenced] at hvalid
        exact ⟨p, rfl, hp, rfl, rfl, hvalid, lease, hout, hlookup, hfenced.trans heq⟩
      | error e =>
        obtain rfl := herror e hvalid
        exact absurd rfl hne
    · exact absurd (step_of_ne_validate hs ha).1 hne
  · obtain ⟨-, herror⟩ := hI.validate_step hp hs
    rw [(hI.waiting p hp).1] at hreject
    cases hvalid : validateFencedHeader p.frame.communityId fenced
        (s.directory p.frame.communityId).redis with
    | ok u => exact absurd hvalid hreject
    | error e =>
      obtain rfl := herror e hvalid
      exact ⟨rfl, rfl, rfl⟩
  · obtain ⟨hpending, hs⟩ := ite_none_right_eq_some.mp hs
    obtain rfl := some.inj hs
    obtain ⟨frame', p, hframe, hadmits, heq⟩ | ⟨hnone, es, heq, -⟩ :=
      afterRecv_cases (s := s) (.ok (some frame))
    · obtain rfl := some.inj (Except.ok.inj hframe)
      rw [heq]
      refine ⟨rfl, rfl, fun q => ⟨fun hq => ?_, fun hq => ?_⟩⟩
      · obtain rfl := some.inj hq
        exact hadmits
      · exact (fencedFrame_of_admits hadmits).symm.trans (fencedFrame_of_admits hq)
    · rw [heq]
      refine ⟨rfl, rfl, fun q => ⟨fun hq => ?_, fun hq => absurd hq (hnone frame q rfl)⟩⟩
      nomatch hpending.symm.trans hq

/-- The fence of the first lease of a session. -/
def firstFence : FencedHeader := ⟨2, 1, runtime 1⟩

/-- A frame is handed over, the lease changes hands, and the next frame is rejected. -/
def supersededRun : List TunnelAction :=
  [.directory 7 (.acquire (runtime 1) .reliableStream 30000),
    .recv (.ok (some (.data firstFence (ReliableWireFrame.data 7 [104, 105]).encode))), .validate,
    .directory 7 (.advance 30001), .directory 7 (.acquire (runtime 2) .reliableStream 30000),
    .recv (.ok (some (.data firstFence (ReliableWireFrame.data 7 [33]).encode))), .validate]

def freshTunnel : TunnelState :=
  ⟨⟨firstFence, none⟩, none, [], [], [], fun _ => ⟨⟨none, none, 0⟩, []⟩⟩

theorem fenced_delivery_superseded : ∃ s, (tunnel firstFence).run freshTunnel supersededRun = some s ∧
    s.delivered.map FencedFrame.payload = [[104, 105]] ∧ s.errors.length = 1 ∧
      ∀ p ∈ s.delivered, p.fenced = firstFence ∧
        s.stream.communityId = some p.frame.communityId := by
  have hrun : ((tunnel firstFence).run freshTunnel supersededRun).any (fun s =>
      decide (s.delivered.map FencedFrame.payload = [[104, 105]] ∧ s.errors.length = 1)) = true := by
    decide +kernel
  obtain ⟨s, hs, hcheck⟩ := (any_eq_true _ _).mp hrun
  obtain ⟨hdelivered, herrors⟩ := of_decide_eq_true hcheck
  have hinit : (tunnel firstFence).Init freshTunnel :=
    ⟨rfl, rfl, rfl, rfl, rfl, fun c => StateMachine.Reachable.init ⟨rfl, rfl, rfl⟩⟩
  exact ⟨s, hs, hdelivered, herrors, (fenced_delivery firstFence ⟨_, _, hinit, hs⟩).1⟩

end Buzz.Tunnel
