import Buzz.Core.Pairing.Authenticity

/-!
# Failures of a pairing session

A handler that fails leaves the session as it was, and so does a builder; only a target that sees
another transcript and a source that hears of a failure abort and report an error. The handlers have
fallbacks for a session that does not know its peer or its code where it should. What a session knows
in each state shows that they are never reached.

A session is what its constructors, handlers and builders make of it, on any events and in any order.
-/

namespace Buzz.Pairing

/-- The error of a fallback for a peer or a code that is missing. -/
def PairingError.isFallback : PairingError → Bool
  | .sasMismatch => true
  | .invalidPubkey message => message == "no peer" || message == "no peer pubkey set"
  | _ => false

inductive Input (Key : Type) where
  | event (handler : Handler) (event : PairingEvent Key) (now : Nat)
  | call (c : Call) (fresh : Fresh) (now : Nat)

namespace PairingSession

variable {Key : Type} [DecidableEq Key] (C : Crypto Key) (s : PairingSession Key)

/-- The session after a handler, and whether it succeeded. -/
def handleResult (handler : Handler) (event : PairingEvent Key) (now : Nat) :
    PairingSession Key × Except PairingError Unit :=
  match handler with
  | .offer => (s.handleOffer C event now).map id (Except.map fun _ => ())
  | .sasConfirm => (s.handleSasConfirm C event now).map id (Except.map fun _ => ())
  | .payload => (s.handlePayload C event now).map id (Except.map fun _ => ())
  | .complete => s.handleComplete C event now
  | .abort => (s.handleAbort C event).map id (Except.map fun _ => ())

/-- The session after a call, and whether it succeeded. -/
def callResult (c : Call) (fresh : Fresh) (now : Nat) :
    PairingSession Key × Except PairingError Unit :=
  match c with
  | .confirmSas => (s.confirmSas C fresh now).map id (Except.map fun _ => ())
  | .confirmTargetSas => s.confirmTargetSas now
  | .sendPayload payloadType payload =>
    (s.sendPayload C payloadType payload fresh now).map id (Except.map fun _ => ())
  | .sendComplete => (s.sendComplete C fresh now).map id (Except.map fun _ => ())
  | .abort reason => (s.abort C reason fresh).map id (Except.map fun _ => ())

/-- The aborts that are reported as errors: a source hears that the target failed, and a target sees
a transcript that is not its own. -/
def ReportedAbort (handler : Handler) (event : PairingEvent Key) (s' : PairingSession Key)
    (e : PairingError) : Prop :=
  s' = { s with state := .aborted } ∧
    ((handler = .complete ∧ s.role = .source ∧ s.decryptMessage C event = .ok (.complete false) ∧
        e = .unexpectedMessage "complete(success=true)" "complete(success=false)") ∨
      (handler = .sasConfirm ∧ s.role = .target ∧ e = .transcriptMismatch ∧
        ∃ hash sasInput peer, s.decryptMessage C event = .ok (.sasConfirm hash) ∧
          s.sasInput = some sasInput ∧ s.peerPubkey = some peer ∧
          bytes32FromHex hash ≠ some (s.transcriptHash C peer s.keys sasInput)))

/-- A session knows the code when it knows its peer, which it does once it is neither waiting nor
aborted. -/
structure Informed : Prop where
  sasCode : s.sasCode.isSome = s.peerPubkey.isSome
  sasInput : s.sasInput.isSome = s.peerPubkey.isSome
  peerPubkey : s.state ≠ .waiting → s.state ≠ .aborted → s.peerPubkey.isSome = true

end PairingSession

section

variable {Key : Type} [DecidableEq Key] (C : Crypto Key)

def sessions : StateMachine (PairingSession Key) (Input Key) where
  Init s :=
    (∃ keys sessionSecret relayUrl now,
      s = (PairingSession.newSource C keys sessionSecret relayUrl now).1) ∨
    ∃ keys qr fresh now offer, PairingSession.newTarget C keys qr fresh now = .ok (s, offer)
  step s
    | .event handler event now => some (s.handleResult C handler event now).1
    | .call c fresh now => some (s.callResult C c fresh now).1

end

namespace PairingSession

variable {Key : Type} {C : Crypto Key} {s s' : PairingSession Key}

/-! ### What a session knows -/

theorem Informed.moves {heard said : Option (PairingEvent Key)} {mark : Option (Mark Key)}
    (hs : s.Informed) (h : s.Moves C heard s' said mark) : s'.Informed := by
  have hlater : ∀ {st}, s.state = st → st ≠ .waiting → st ≠ .aborted →
      s.peerPubkey.isSome = true := by
    rintro st rfl
    exact hs.peerPubkey
  cases h with
  | stay => exact hs
  | lock hstate hrole hheard hid => exact ⟨rfl, rfl, fun _ _ => rfl⟩
  | confirm hstate | matched hstate | confirmTarget hstate | transfer hstate | accept hstate
  | report hstate | finish hstate =>
    exact ⟨hs.sasCode, hs.sasInput, fun _ _ => hlater hstate nofun nofun⟩
  | abandon => exact ⟨hs.sasCode, hs.sasInput, fun _ h => absurd rfl h⟩

variable {st : SessionState}

theorem Informed.peer_of_ready (hs : s.Informed) {r : Role} {now : Nat}
    (h : s.ready st r now = .ok ()) (hwaiting : st ≠ .waiting) (haborted : st ≠ .aborted) :
    s.peerPubkey.isSome = true := by
  obtain ⟨rfl, -⟩ := of_ready h
  exact hs.peerPubkey hwaiting haborted

/-! ### Errors that are no fallbacks -/

/-- The error, if there is one, is not that of a fallback. -/
def NoFallback {α : Type} (x : Except PairingError α) : Prop :=
  ∀ e, x = .error e → e.isFallback = false

theorem NoFallback.ok {α : Type} (a : α) : NoFallback (.ok a) := nofun

variable {e : PairingError}

theorem NoFallback.error {α : Type} (h : e.isFallback = false) :
    NoFallback (.error e : Except PairingError α) := by
  rintro e' he
  exact Except.error.inj he ▸ h

theorem NoFallback.bind {α β : Type} {x : Except PairingError α} {f : α → Except PairingError β}
    (hx : NoFallback x) (hf : ∀ a, NoFallback (f a)) : NoFallback (x >>= f) := by
  cases x with
  | error e => exact .error (hx e rfl)
  | ok a => exact hf a

theorem noFallback_checkExpired (now : Nat) : NoFallback (s.checkExpired now) := by
  unfold checkExpired
  split
  · exact .error rfl
  · exact .ok ()

theorem noFallback_expectState (st : SessionState) : NoFallback (s.expectState st) := by
  unfold expectState
  split
  · exact .error rfl
  · exact .ok ()

theorem noFallback_expectRole (r : Role) : NoFallback (s.expectRole r) := by
  unfold expectRole
  split
  · exact .error rfl
  · exact .ok ()

theorem noFallback_ready (st : SessionState) (r : Role) (now : Nat) :
    NoFallback (s.ready st r now) :=
  (noFallback_checkExpired now).bind fun _ =>
    (noFallback_expectState st).bind fun _ => noFallback_expectRole r

theorem noFallback_validateEventBasics (event : PairingEvent Key) :
    NoFallback (s.validateEventBasics C event) := by
  unfold validateEventBasics
  split
  · exact .error (by decide)
  split
  · exact .error rfl
  split
  · exact .error rfl
  split
  · exact .error (by decide)
  · exact .ok ()

theorem noFallback_buildEvent (hpeer : s.peerPubkey.isSome = true) (message : PairingMessage)
    (fresh : Fresh) : NoFallback (s.buildEvent C message fresh) := by
  obtain ⟨peer, hpeer⟩ := Option.isSome_iff_exists.mp hpeer
  unfold buildEvent
  rw [hpeer]
  dsimp only
  split
  · exact .error rfl
  · exact .error rfl
  · exact .ok _

/-! ### Builders -/

/-- A result that is an error is not that of a fallback, and it leaves the session alone or is one of
`R`. -/
def FailsOnly (s : PairingSession Key) (R : PairingSession Key → PairingError → Prop) {α : Type}
    (result : PairingSession Key × Except PairingError α) : Prop :=
  ∀ e, result.2 = .error e → e.isFallback = false ∧ (result.1 = s ∨ R result.1 e)

variable {R : PairingSession Key → PairingError → Prop} {α : Type}

theorem FailsOnly.ok {a : α} : s.FailsOnly R (s', .ok a) := nofun

theorem FailsOnly.stay (h : e.isFallback = false) :
    s.FailsOnly R (s, (.error e : Except PairingError α)) := by
  rintro e' he
  exact ⟨Except.error.inj he ▸ h, Or.inl rfl⟩

theorem FailsOnly.leave (h : e.isFallback = false) (hR : R s' e) :
    s.FailsOnly R (s', (.error e : Except PairingError α)) := by
  rintro e' he
  cases he
  exact ⟨h, Or.inr hR⟩

theorem FailsOnly.map {result : PairingSession Key × Except PairingError α}
    (h : s.FailsOnly R result) {β : Type} (f : α → β) :
    s.FailsOnly R (result.map id (Except.map f)) := by
  obtain ⟨s₁, e | a⟩ := result
  · rintro e' he
    cases he
    exact h e rfl
  · exact .ok

theorem send_fails (hpeer : s.peerPubkey.isSome = true) (next : SessionState)
    (message : PairingMessage) (fresh : Fresh) : s.FailsOnly R (s.send C next message fresh) := by
  unfold send
  split
  · next e hbuild => exact .stay (noFallback_buildEvent hpeer message fresh e hbuild)
  · exact .ok

theorem confirmSas_fails (hs : s.Informed) (fresh : Fresh) (now : Nat) :
    s.FailsOnly R (s.confirmSas C fresh now) := by
  unfold confirmSas
  split
  · next e hready => exact .stay (noFallback_ready _ _ now e hready)
  · next hready =>
    have hpeer := hs.peer_of_ready hready nofun nofun
    have hinput := hs.sasInput.trans hpeer
    split
    · next hnone =>
      rw [hnone] at hinput
      cases hinput
    · next hnone =>
      rw [hnone] at hpeer
      cases hpeer
    · exact send_fails hpeer _ _ fresh

theorem confirmTargetSas_fails (now : Nat) : s.FailsOnly R (s.confirmTargetSas now) := by
  unfold confirmTargetSas
  split
  · next e hready => exact .stay (noFallback_ready _ _ now e hready)
  · exact .ok

theorem sendPayload_fails (hs : s.Informed) (payloadType : PayloadType) (payload : String)
    (fresh : Fresh) (now : Nat) :
    s.FailsOnly R (s.sendPayload C payloadType payload fresh now) := by
  unfold sendPayload
  split
  · next e hready => exact .stay (noFallback_ready _ _ now e hready)
  · next hready => exact send_fails (hs.peer_of_ready hready nofun nofun) _ _ fresh

theorem sendComplete_fails (hs : s.Informed) (fresh : Fresh) (now : Nat) :
    s.FailsOnly R (s.sendComplete C fresh now) := by
  unfold sendComplete
  split
  · next e hready => exact .stay (noFallback_ready _ _ now e hready)
  · next hready => exact send_fails (hs.peer_of_ready hready nofun nofun) _ _ fresh

theorem abort_fails (reason : AbortReason) (fresh : Fresh) :
    s.FailsOnly R (s.abort C reason fresh) := by
  unfold abort
  split
  · exact .stay rfl
  split
  · exact .ok
  · next hpeer =>
    exact (send_fails (Option.isSome_iff_ne_none.mpr hpeer) _ _ fresh).map some

/-- **Builders.** -/
theorem callResult_fails (hs : s.Informed) (c : Call) (fresh : Fresh) (now : Nat) :
    s.FailsOnly R (s.callResult C c fresh now) := by
  cases c with
  | confirmSas => exact (confirmSas_fails hs fresh now).map _
  | confirmTargetSas => exact confirmTargetSas_fails now
  | sendPayload payloadType payload =>
    exact (sendPayload_fails hs payloadType payload fresh now).map _
  | sendComplete => exact (sendComplete_fails hs fresh now).map _
  | abort reason => exact (abort_fails reason fresh).map _

theorem expectState_of_terminal (h : s.state.isTerminal = true) (hst : st.isTerminal = false) :
    ∃ e, s.expectState st = .error e := by
  have hne : s.state ≠ st := by
    rintro rfl
    cases h.symm.trans hst
  exact ⟨_, if_pos hne⟩

theorem ready_of_terminal (h : s.state.isTerminal = true) (st : SessionState)
    (hst : st.isTerminal = false) (r : Role) (now : Nat) : ∃ e, s.ready st r now = .error e := by
  obtain ⟨e, he⟩ := expectState_of_terminal h hst
  unfold ready
  cases s.checkExpired now with
  | error e' => exact ⟨e', rfl⟩
  | ok => exact ⟨e, by rw [he]; rfl⟩

theorem callResult_of_terminal (h : s.state.isTerminal = true) (c : Call) (fresh : Fresh)
    (now : Nat) : ∃ e, s.callResult C c fresh now = (s, .error e) := by
  cases c with
  | confirmSas =>
    obtain ⟨e, he⟩ := ready_of_terminal h .confirming rfl .source now
    exact ⟨e, by rw [callResult, confirmSas, he]; rfl⟩
  | confirmTargetSas =>
    obtain ⟨e, he⟩ := ready_of_terminal h .awaitingConfirmation rfl .target now
    exact ⟨e, by rw [callResult, confirmTargetSas, he]⟩
  | sendPayload payloadType payload =>
    obtain ⟨e, he⟩ := ready_of_terminal h .transferring rfl .source now
    exact ⟨e, by rw [callResult, sendPayload, he]; rfl⟩
  | sendComplete =>
    obtain ⟨e, he⟩ := ready_of_terminal h .payloadExchanged rfl .target now
    exact ⟨e, by rw [callResult, sendComplete, he]; rfl⟩
  | abort reason => exact ⟨_, by rw [callResult, abort, if_pos h]; rfl⟩

/-! ### Handlers -/

variable [DecidableEq Key]

theorem noFallback_validateEventFromPeer (event : PairingEvent Key) :
    NoFallback (s.validateEventFromPeer C event) := by
  refine (noFallback_validateEventBasics event).bind fun _ => ?_
  split
  · split
    · -- the message begins with "event from"
      refine .error ?_
      simp [PairingError.isFallback, String.ext_iff]
    · exact .ok ()
  · exact .ok ()

theorem noFallback_decryptMessage (event : PairingEvent Key) :
    NoFallback (s.decryptMessage C event) := by
  unfold decryptMessage
  dsimp only
  split
  · exact .error rfl
  split
  · exact .error rfl
  split
  · exact .error rfl
  split
  · exact .error rfl
  · exact .ok _

theorem noFallback_receive {r : Role} {validate : Except PairingError Unit}
    (hv : NoFallback validate) (event : PairingEvent Key) (now : Nat) :
    NoFallback (s.receive C st r validate event now) :=
  (noFallback_checkExpired now).bind fun _ =>
    (noFallback_expectState st).bind fun _ =>
      (noFallback_expectRole r).bind fun _ => hv.bind fun _ => noFallback_decryptMessage event

theorem handleOffer_fails (event : PairingEvent Key) (now : Nat) :
    s.FailsOnly R (s.handleOffer C event now) := by
  unfold handleOffer
  split
  · next e hrec =>
    exact .stay (noFallback_receive (noFallback_validateEventBasics event) event now e hrec)
  · next sessionIdHex version hmsg =>
    split
    · exact .stay rfl
    split
    · exact .stay rfl
    · -- what opened has an ECDH secret, so that the peer is not set in vain
      rw [generateSharedKey_of_decryptMessage (decryptMessage_of_receive hmsg)]
      exact .ok
  · exact .stay rfl

theorem handleSasConfirm_fails (hs : s.Informed) (event : PairingEvent Key) (now : Nat) :
    s.FailsOnly (s.ReportedAbort C .sasConfirm event) (s.handleSasConfirm C event now) := by
  unfold handleSasConfirm
  split
  · next e hrec =>
    exact .stay (noFallback_receive (noFallback_validateEventFromPeer event) event now e hrec)
  · next receivedHash hmsg =>
    obtain ⟨hstate, hrole, -, -⟩ :=
      hears_of_receive hmsg fun hv => (fromPeer_of_validateEventFromPeer hv).1
    have hpeer := hs.peerPubkey (by rw [hstate]; nofun) (by rw [hstate]; nofun)
    have hinput := hs.sasInput.trans hpeer
    have hcode := hs.sasCode.trans hpeer
    split
    · next hnone =>
      rw [hnone] at hinput
      cases hinput
    · next hnone =>
      rw [hnone] at hpeer
      cases hpeer
    · next sasInput peer hsas hpeer' =>
      dsimp only
      split
      · next hhash =>
        exact .leave rfl ⟨rfl, Or.inr ⟨rfl, hrole, rfl, receivedHash, sasInput, peer,
          decryptMessage_of_receive hmsg, hsas, hpeer', hhash⟩⟩
      · obtain ⟨code, hcode⟩ := Option.isSome_iff_exists.mp hcode
        rw [hcode]
        exact .ok
  · exact .stay rfl

theorem handlePayload_fails (event : PairingEvent Key) (now : Nat) :
    s.FailsOnly R (s.handlePayload C event now) := by
  unfold handlePayload
  split
  · next e hrec =>
    exact .stay (noFallback_receive (noFallback_validateEventFromPeer event) event now e hrec)
  · exact .ok
  · exact .stay rfl

theorem handleComplete_fails (event : PairingEvent Key) (now : Nat) :
    s.FailsOnly (s.ReportedAbort C .complete event) (s.handleComplete C event now) := by
  unfold handleComplete
  split
  · next e hrec =>
    exact .stay (noFallback_receive (noFallback_validateEventFromPeer event) event now e hrec)
  · exact .ok
  · next hmsg =>
    obtain ⟨-, hrole, -, -⟩ :=
      hears_of_receive hmsg fun hv => (fromPeer_of_validateEventFromPeer hv).1
    exact .leave rfl ⟨rfl, Or.inl ⟨rfl, hrole, decryptMessage_of_receive hmsg, rfl⟩⟩
  · exact .stay rfl

theorem handleAbort_fails (event : PairingEvent Key) : s.FailsOnly R (s.handleAbort C event) := by
  unfold handleAbort
  split
  · exact .stay rfl
  split
  · exact .stay (by decide)
  split
  · next e hrec =>
    refine .stay (NoFallback.bind (noFallback_validateEventFromPeer event) (fun _ => ?_) e hrec)
    exact noFallback_decryptMessage event
  · exact .ok
  · exact .stay rfl

/-- **Handlers.** -/
theorem handleResult_fails (hs : s.Informed) (handler : Handler) (event : PairingEvent Key)
    (now : Nat) :
    s.FailsOnly (s.ReportedAbort C handler event) (s.handleResult C handler event now) := by
  cases handler with
  | offer => exact (handleOffer_fails event now).map _
  | sasConfirm => exact (handleSasConfirm_fails hs event now).map _
  | payload => exact (handlePayload_fails event now).map _
  | complete => exact handleComplete_fails event now
  | abort => exact (handleAbort_fails event).map _

theorem receive_of_terminal (h : s.state.isTerminal = true) (st : SessionState)
    (hst : st.isTerminal = false) (r : Role) (validate : Except PairingError Unit)
    (event : PairingEvent Key) (now : Nat) : ∃ e, s.receive C st r validate event now = .error e := by
  obtain ⟨e, he⟩ := expectState_of_terminal h hst
  unfold receive
  cases s.checkExpired now with
  | error e' => exact ⟨e', rfl⟩
  | ok => exact ⟨e, by rw [he]; rfl⟩

theorem handleResult_of_terminal (h : s.state.isTerminal = true) (handler : Handler)
    (event : PairingEvent Key) (now : Nat) :
    ∃ e, s.handleResult C handler event now = (s, .error e) := by
  cases handler with
  | offer =>
    obtain ⟨e, he⟩ := receive_of_terminal (C := C) h .waiting rfl .source
      (s.validateEventBasics C event) event now
    exact ⟨e, by rw [handleResult, handleOffer, he]; rfl⟩
  | sasConfirm =>
    obtain ⟨e, he⟩ := receive_of_terminal (C := C) h .confirming rfl .target
      (s.validateEventFromPeer C event) event now
    exact ⟨e, by rw [handleResult, handleSasConfirm, he]; rfl⟩
  | payload =>
    obtain ⟨e, he⟩ := receive_of_terminal (C := C) h .transferring rfl .target
      (s.validateEventFromPeer C event) event now
    exact ⟨e, by rw [handleResult, handlePayload, he]; rfl⟩
  | complete =>
    obtain ⟨e, he⟩ := receive_of_terminal (C := C) h .payloadExchanged rfl .source
      (s.validateEventFromPeer C event) event now
    exact ⟨e, by rw [handleResult, handleComplete, he]⟩
  | abort => exact ⟨_, by rw [handleResult, handleAbort, if_pos h]; rfl⟩

/-! ### Runs -/

omit [DecidableEq Key] in
theorem callResult_fst (c : Call) (fresh : Fresh) (now : Nat) :
    (s.callResult C c fresh now).1 = (s.call C c fresh now).1 := by
  cases c <;> rfl

theorem handleResult_fst (handler : Handler) (event : PairingEvent Key) (now : Nat) :
    (s.handleResult C handler event now).1 = (s.handle C handler event now).1 := by
  cases handler <;> rfl

/-- A session knows its peer and its code when it needs them. -/
theorem informed_of_reachable (h : (sessions C).Reachable s) : s.Informed := by
  refine StateMachine.Reachable.invariant ?_ ?_ h
  · rintro s (⟨keys, sessionSecret, relayUrl, now, rfl⟩ | ⟨keys, qr, fresh, now, offer, hnew⟩)
    · exact ⟨rfl, rfl, fun h => absurd rfl h⟩
    · obtain ⟨⟨sas, -, rfl⟩, -⟩ := newTarget_ok hnew
      exact ⟨rfl, rfl, fun _ _ => rfl⟩
  · intro s input s' _ hs hstep
    cases input with
    | event handler event now =>
      cases hstep
      rw [handleResult_fst]
      exact hs.moves (handle_moves C s handler event now)
    | call c fresh now =>
      cases hstep
      rw [callResult_fst]
      exact hs.moves (call_moves C s c fresh now)

/-- **Atomicity.** A handler that fails leaves the session as it was or is one of the two reported
aborts; a builder that fails leaves it as it was; in a terminal state nothing succeeds or changes;
and a session that is neither waiting nor aborted knows its peer and its code, so that no error is
that of a fallback. -/
theorem session_atomic (h : (sessions C).Reachable s) :
    (∀ handler event now s' e, s.handleResult C handler event now = (s', .error e) →
      s' = s ∨ s.ReportedAbort C handler event s' e) ∧
    (∀ c fresh now s' e, s.callResult C c fresh now = (s', .error e) → s' = s) ∧
    (s.state.isTerminal = true →
      (∀ handler event now, ∃ e, s.handleResult C handler event now = (s, .error e)) ∧
        ∀ c fresh now, ∃ e, s.callResult C c fresh now = (s, .error e)) ∧
    (s.state ≠ .waiting → s.state ≠ .aborted →
      s.peerPubkey.isSome = true ∧ s.sasInput.isSome = true ∧ s.sasCode.isSome = true) ∧
    (∀ handler event now s' e, s.handleResult C handler event now = (s', .error e) →
      e.isFallback = false) ∧
    ∀ c fresh now s' e, s.callResult C c fresh now = (s', .error e) → e.isFallback = false := by
  have hs := informed_of_reachable h
  have hhandle : ∀ handler event now s' e, s.handleResult C handler event now = (s', .error e) →
      e.isFallback = false ∧ (s' = s ∨ s.ReportedAbort C handler event s' e) := by
    intro handler event now s' e hres
    have hfails := handleResult_fails (C := C) hs handler event now e
    rw [hres] at hfails
    exact hfails rfl
  have hcall : ∀ c fresh now s' e, s.callResult C c fresh now = (s', .error e) →
      e.isFallback = false ∧ (s' = s ∨ False) := by
    intro c fresh now s' e hres
    have hfails := callResult_fails (C := C) (R := fun _ _ => False) hs c fresh now e
    rw [hres] at hfails
    exact hfails rfl
  refine ⟨fun handler event now s' e hres => (hhandle handler event now s' e hres).2,
    fun c fresh now s' e hres => (hcall c fresh now s' e hres).2.resolve_right id,
    fun hterminal => ⟨handleResult_of_terminal hterminal, callResult_of_terminal hterminal⟩, ?_,
    fun handler event now s' e hres => (hhandle handler event now s' e hres).1,
    fun c fresh now s' e hres => (hcall c fresh now s' e hres).1⟩
  intro hwaiting haborted
  have hpeer := hs.peerPubkey hwaiting haborted
  exact ⟨hpeer, hs.sasInput.trans hpeer, hs.sasCode.trans hpeer⟩

end PairingSession

/-- A source is offered a code, confirms it and sends its payload. -/
def sourceInputs : List (Input Agent) :=
  [.event .offer (runEvent (.target 0) .source 0
      (.offer (hexOfBytes32 (deriveSessionId checksumCrypto runSecret)) 1)) 1,
    .call .confirmSas ⟨1, 1, 0, none⟩ 2, .call (.sendPayload .nsec "nsec1") ⟨2, 2, 0, none⟩ 3]

/-- A stranger tells a source that has sent its payload that all is done, and it stays as it is. -/
theorem session_atomic_stranger : ∃ s e,
    (sessions checksumCrypto).run (PairingSession.newSource checksumCrypto .source runSecret
      "wss://relay" 0).1 sourceInputs = some s ∧ s.state = .payloadExchanged ∧
    s.handleResult checksumCrypto .complete
      (runEvent (.adversary 0) .source 3 (.complete true)) 4 = (s, .error e) := by
  have hany : ((sessions checksumCrypto).run (PairingSession.newSource checksumCrypto .source
      runSecret "wss://relay" 0).1 sourceInputs).any (fun s => s.state == .payloadExchanged &&
        (fun r : PairingSession Agent × Except PairingError Unit =>
          r.1.state != .aborted && !r.2.isOk) (s.handleResult checksumCrypto .complete
            (runEvent (.adversary 0) .source 3 (.complete true)) 4)) = true := by
    decide +kernel
  obtain ⟨s, hrun, hs⟩ := (Option.any_eq_true _ _).mp hany
  obtain ⟨hstate, hfails⟩ := (Bool.and_eq_true _ _).mp hs
  have hreach : (sessions checksumCrypto).Reachable s :=
    ⟨_, sourceInputs, Or.inl ⟨.source, runSecret, "wss://relay", 0, rfl⟩, hrun⟩
  obtain ⟨⟨s', result⟩, hres⟩ : ∃ r, s.handleResult checksumCrypto .complete
      (runEvent (.adversary 0) .source 3 (.complete true)) 4 = r := ⟨_, rfl⟩
  rw [hres] at hfails
  cases result with
  | ok => exact absurd hfails (by simp [Except.isOk, Except.toBool])
  | error e =>
    obtain rfl | haborted := (PairingSession.session_atomic hreach).1 _ _ _ _ _ hres
    · exact ⟨_, e, hrun, beq_iff_eq.mp hstate, hres⟩
    · exact absurd hfails (by simp [haborted.1])
end Buzz.Pairing
