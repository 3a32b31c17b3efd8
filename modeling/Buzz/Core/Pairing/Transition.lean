import Buzz.Core.Pairing.Session

/-!
# What a pairing session can do

A session has few transitions. `Moves` lists them, with what each one hears, says and records. Every
handler and every builder leaves the session alone or makes one of them, and the handler's checks
are the hypotheses of the transition: who signed the event, who it is encrypted to, which session and
which transcript it names. Later proofs use the list and not the handlers.
-/

namespace Buzz.Pairing

/-- What the log of a world records. -/
inductive Mark (Key : Type) where
  /-- `confirm_sas`: the source's user confirmed the code displayed for this peer. -/
  | sourceConfirmed (source : Key) (sessionId : Bytes32) (peer : Option Key) (sasCode : Option Nat)
  /-- `handle_sas_confirm`: the transcript hash in the event is the target's own. -/
  | transcriptMatched (target : Key) (event : PairingEvent Key)
  /-- `confirm_target_sas`: the target's user confirmed the code displayed. -/
  | targetConfirmed (target : Key) (sasCode : Option Nat)
  | payloadSent (source : Key) (peer : Option Key) (payload : PayloadType × String)
  | payloadAccepted (target : Key) (payload : PayloadType × String)
  | completeSent (target : Key)

/-- The handlers of events. -/
inductive Handler where
  | offer
  | sasConfirm
  | payload
  | complete
  | abort

/-- What a user does. -/
inductive Call where
  | confirmSas
  | confirmTargetSas
  | sendPayload (payloadType : PayloadType) (payload : String)
  | sendComplete
  | abort (reason : AbortReason)

namespace PairingSession

variable {Key : Type} [DecidableEq Key] (C : Crypto Key) (s : PairingSession Key)

def handle (handler : Handler) (event : PairingEvent Key) (now : Nat) :
    PairingSession Key × Option (Mark Key) :=
  match handler with
  | .offer => ((s.handleOffer C event now).1, none)
  | .sasConfirm =>
    let (s', result) := s.handleSasConfirm C event now
    (s', result.toOption.map fun _ => .transcriptMatched s.keys event)
  | .payload =>
    let (s', result) := s.handlePayload C event now
    (s', result.toOption.map fun payload => .payloadAccepted s.keys payload)
  | .complete => ((s.handleComplete C event now).1, none)
  | .abort => ((s.handleAbort C event).1, none)

/-- Make a call of the user, which may build an event. -/
def call (c : Call) (fresh : Fresh) (now : Nat) :
    PairingSession Key × Option (PairingEvent Key) × Option (Mark Key) :=
  match c with
  | .confirmSas =>
    let (s', result) := s.confirmSas C fresh now
    (s', result.toOption,
      result.toOption.map fun _ => .sourceConfirmed s.keys s.sessionId s.peerPubkey s.sasCode)
  | .confirmTargetSas =>
    let (s', result) := s.confirmTargetSas now
    (s', none, result.toOption.map fun _ => .targetConfirmed s.keys s.sasCode)
  | .sendPayload payloadType payload =>
    let (s', result) := s.sendPayload C payloadType payload fresh now
    (s', result.toOption,
      result.toOption.map fun _ => .payloadSent s.keys s.peerPubkey (payloadType, payload))
  | .sendComplete =>
    let (s', result) := s.sendComplete C fresh now
    (s', result.toOption, result.toOption.map fun _ => .completeSent s.keys)
  | .abort reason =>
    let (s', result) := s.abort C reason fresh
    (s', result.toOption.join, none)

/-! ### Transitions -/

/-- The author sealed this message for the session's key, and signed it. -/
def Hears (event : PairingEvent Key) (message : PairingMessage) : Prop :=
  event.verifies = true ∧ event.kind = pairingKind ∧
    ∃ nonce plaintext, event.content = .sealed s(s.keys, event.pubkey) nonce plaintext ∧
      plaintext.parsed = some message

/-- The session sealed this message for its peer, and signed it. -/
def Says (message : PairingMessage) (event : PairingEvent Key) : Prop :=
  event.verifies = true ∧ event.kind = pairingKind ∧ event.pubkey = s.keys ∧
    ∃ peer nonce, s.peerPubkey = some peer ∧
      event.content = .sealed s(s.keys, peer) nonce message.plaintext

/-- The transcript hash of a session with a peer, from a source's key and a target's. -/
def transcriptHash (source target : Key) (sasInput : Bytes32) : Bytes32 :=
  deriveTranscriptHash C s.sessionId (C.toBytes source) (C.toBytes target) sasInput s.sessionSecret

/-- The transitions of a session: what it hears, what becomes of it, what it says and records. -/
inductive Moves : Option (PairingEvent Key) → PairingSession Key → Option (PairingEvent Key) →
    Option (Mark Key) → Prop where
  | stay {heard} : Moves heard s none none
  | lock {event sessionIdHex} (hstate : s.state = .waiting) (hrole : s.role = .source)
      (hheard : s.Hears event (.offer sessionIdHex 1))
      (hid : bytes32FromHex sessionIdHex = some s.sessionId) :
      Moves (some event)
        ((s.lockToPeer C event.pubkey (C.sharedKey s.keys event.pubkey)).recordEvent event) none none
  | confirm {event peer sasInput} (hstate : s.state = .confirming) (hrole : s.role = .source)
      (hpeer : s.peerPubkey = some peer) (hsas : s.sasInput = some sasInput)
      (hsaid : s.Says (.sasConfirm (hexOfBytes32 (s.transcriptHash C s.keys peer sasInput))) event) :
      Moves none { s with state := .transferring } (some event)
        (some (.sourceConfirmed s.keys s.sessionId s.peerPubkey s.sasCode))
  | matched {event hash peer sasInput} (hstate : s.state = .confirming) (hrole : s.role = .target)
      (hheard : s.Hears event (.sasConfirm hash)) (hpeer : s.peerPubkey = some peer)
      (hfrom : event.pubkey = peer) (hsas : s.sasInput = some sasInput)
      (hhash : bytes32FromHex hash = some (s.transcriptHash C peer s.keys sasInput)) :
      Moves (some event) ({ s with state := .awaitingConfirmation }.recordEvent event) none
        (s.sasCode.map fun _ => .transcriptMatched s.keys event)
  | confirmTarget (hstate : s.state = .awaitingConfirmation) (hrole : s.role = .target) :
      Moves none { s with state := .transferring } none (some (.targetConfirmed s.keys s.sasCode))
  | transfer {event payloadType payload} (hstate : s.state = .transferring)
      (hrole : s.role = .source) (hsaid : s.Says (.payload payloadType payload) event) :
      Moves none { s with state := .payloadExchanged } (some event)
        (some (.payloadSent s.keys s.peerPubkey (payloadType, payload)))
  | accept {event payloadType payload} (hstate : s.state = .transferring)
      (hrole : s.role = .target) (hheard : s.Hears event (.payload payloadType payload))
      (hfrom : ∀ peer, s.peerPubkey = some peer → event.pubkey = peer) :
      Moves (some event) ({ s with state := .payloadExchanged }.recordEvent event) none
        (some (.payloadAccepted s.keys (payloadType, payload)))
  | report {event} (hstate : s.state = .payloadExchanged) (hrole : s.role = .target)
      (hsaid : s.Says (.complete true) event) :
      Moves none { s with state := .completed } (some event) (some (.completeSent s.keys))
  | finish {event} (hstate : s.state = .payloadExchanged) (hrole : s.role = .source)
      (hheard : s.Hears event (.complete true))
      (hfrom : ∀ peer, s.peerPubkey = some peer → event.pubkey = peer) :
      Moves (some event) ({ s with state := .completed }.recordEvent event) none none
  /-- The session ends early: because the user or the peer says so, because the peer failed, or
  because the transcripts differ. -/
  | abandon {heard said ids} (hstate : s.state.isTerminal = false)
      (hsaid : ∀ event ∈ said, ∃ reason, s.Says (.abort reason) event) :
      Moves heard { s with state := .aborted, processedIds := ids } said none

/-! ### What the checks say -/

variable {C} {s}

variable {st : SessionState}

omit [DecidableEq Key] in
theorem state_of_expectState (h : s.expectState st = .ok ()) : s.state = st := by
  unfold expectState at h
  split at h
  · nomatch h
  · next hst => exact not_not.mp hst

variable {r : Role}

omit [DecidableEq Key] in
theorem role_of_expectRole (h : s.expectRole r = .ok ()) : s.role = r := by
  unfold expectRole at h
  split at h
  · nomatch h
  · next hr => exact not_not.mp hr

variable {event : PairingEvent Key}

omit [DecidableEq Key] in
theorem basics_of_validateEventBasics (h : s.validateEventBasics C event = .ok ()) :
    event.verifies = true ∧ event.kind = pairingKind := by
  unfold validateEventBasics at h
  split at h
  · nomatch h
  · next hverifies =>
    split at h
    · nomatch h
    · split at h
      · nomatch h
      · next hkind => exact ⟨by simpa using hverifies, not_not.mp hkind⟩

theorem fromPeer_of_validateEventFromPeer (h : s.validateEventFromPeer C event = .ok ()) :
    s.validateEventBasics C event = .ok () ∧
      ∀ peer, s.peerPubkey = some peer → event.pubkey = peer := by
  obtain ⟨⟨⟩, hbasics, hpeer⟩ := bind_eq_ok_iff.mp h
  refine ⟨hbasics, fun peer hp => ?_⟩
  rw [hp] at hpeer
  by_contra hne
  nomatch (if_pos hne).symm.trans hpeer

variable {m : PairingMessage}

theorem decrypt_of_decryptMessage (h : s.decryptMessage C event = .ok m) :
    ∃ plaintext, decrypt C s.keys event.pubkey event.content = some plaintext ∧
      plaintext.parsed = some m := by
  unfold decryptMessage at h
  dsimp only at h
  split at h
  · nomatch h
  · split at h
    · nomatch h
    · next decrypted hdec =>
      refine ⟨decrypted, hdec, ?_⟩
      split at h
      · nomatch h
      · split at h
        · nomatch h
        · next message hparsed => rw [hparsed, Except.ok.inj h]

theorem generateSharedKey_of_decryptMessage (h : s.decryptMessage C event = .ok m) :
    C.generateSharedKey s.keys event.pubkey = .ok (C.sharedKey s.keys event.pubkey) := by
  obtain ⟨plaintext, hdec, -⟩ := decrypt_of_decryptMessage h
  rw [Crypto.generateSharedKey, (decrypt_eq_some hdec).1]

variable {validate : Except PairingError Unit} {now : Nat}

theorem decryptMessage_of_receive (h : s.receive C st r validate event now = .ok m) :
    s.decryptMessage C event = .ok m := by
  obtain ⟨⟨⟩, -, h⟩ := bind_eq_ok_iff.mp h
  obtain ⟨⟨⟩, -, h⟩ := bind_eq_ok_iff.mp h
  obtain ⟨⟨⟩, -, h⟩ := bind_eq_ok_iff.mp h
  obtain ⟨⟨⟩, -, hdec⟩ := bind_eq_ok_iff.mp h
  exact hdec

theorem hears_of_receive (h : s.receive C st r validate event now = .ok m)
    (hv : validate = .ok () → s.validateEventBasics C event = .ok ()) :
    s.state = st ∧ s.role = r ∧ validate = .ok () ∧ s.Hears event m := by
  obtain ⟨⟨⟩, -, h⟩ := bind_eq_ok_iff.mp h
  obtain ⟨⟨⟩, hstate, h⟩ := bind_eq_ok_iff.mp h
  obtain ⟨⟨⟩, hrole, h⟩ := bind_eq_ok_iff.mp h
  obtain ⟨⟨⟩, hval, hdec⟩ := bind_eq_ok_iff.mp h
  obtain ⟨hverifies, hkind⟩ := basics_of_validateEventBasics (hv hval)
  obtain ⟨plaintext, hdec, hparsed⟩ := decrypt_of_decryptMessage hdec
  obtain ⟨-, nonce, hcontent⟩ := decrypt_eq_some hdec
  exact ⟨state_of_expectState hstate, role_of_expectRole hrole, hval, hverifies, hkind,
    nonce, plaintext, hcontent, hparsed⟩

omit [DecidableEq Key] in
theorem of_ready (h : s.ready st r now = .ok ()) : s.state = st ∧ s.role = r := by
  obtain ⟨⟨⟩, -, h⟩ := bind_eq_ok_iff.mp h
  obtain ⟨⟨⟩, hstate, hrole⟩ := bind_eq_ok_iff.mp h
  exact ⟨state_of_expectState hstate, role_of_expectRole hrole⟩

omit [DecidableEq Key] in
theorem says_of_buildEvent {message : PairingMessage} {fresh : Fresh}
    (h : s.buildEvent C message fresh = .ok event) : s.Says message event := by
  unfold buildEvent at h
  split at h
  · nomatch h
  · next peer hpeer =>
    split at h
    · nomatch h
    · nomatch h
    · next content hcontent _ =>
      rw [← Except.ok.inj h, encrypt_eq_some hcontent]
      exact ⟨rfl, rfl, rfl, peer, fresh.nonce, hpeer, rfl⟩

omit [DecidableEq Key] in
theorem send_cases (next : SessionState) (message : PairingMessage) (fresh : Fresh) :
    (∃ e, s.send C next message fresh = (s, .error e)) ∨
      ∃ event, s.Says message event ∧
        s.send C next message fresh = ({ s with state := next }, .ok event) := by
  unfold send
  split
  · next e _ => exact .inl ⟨e, rfl⟩
  · next event hevent => exact .inr ⟨event, says_of_buildEvent hevent, rfl⟩

omit [DecidableEq Key] in
theorem newTarget_ok {keys : Key} {qr : QrPayload Key} {fresh : Fresh} {t : PairingSession Key}
    {offer : PairingEvent Key} (h : newTarget C keys qr fresh now = .ok (t, offer)) :
    (∃ sas, sas = deriveSas C (C.sharedKey keys qr.sourcePubkey) qr.sessionSecret ∧
      t = ⟨.target, .confirming, keys, qr.sessionSecret, qr.relays, some qr.sourcePubkey,
        deriveSessionId C qr.sessionSecret, some sas.1, some sas.2, ∅, now, defaultTimeout⟩) ∧
      t.Says (.offer (hexOfBytes32 (deriveSessionId C qr.sessionSecret)) 1) offer := by
  obtain ⟨ecdh, hecdh, h⟩ := bind_eq_ok_iff.mp h
  obtain rfl := eq_sharedKey_of_generateSharedKey (mapError_ok_iff.mp hecdh)
  dsimp only at h
  generalize hbuilt : buildEvent C _ _ _ = built at h
  cases built with
  | error e => nomatch h
  | ok event =>
    obtain ⟨rfl, rfl⟩ := Prod.mk.inj (Except.ok.inj h)
    exact ⟨⟨_, rfl, rfl⟩, says_of_buildEvent hbuilt⟩

/-! ### Handlers and builders make these transitions -/

variable (C) (s)

theorem handleOffer_moves (event : PairingEvent Key) (now : Nat) :
    s.Moves C (some event) (s.handleOffer C event now).1 none none := by
  unfold handleOffer
  split
  · exact .stay
  · next sessionIdHex version hmsg =>
    obtain ⟨hstate, hrole, -, hheard⟩ := hears_of_receive hmsg id
    split
    · exact .stay
    · next hversion =>
      obtain rfl : version = 1 := not_not.mp hversion
      split
      · exact .stay
      · next hid =>
        rw [generateSharedKey_of_decryptMessage (decryptMessage_of_receive hmsg)]
        exact .lock hstate hrole hheard (not_not.mp hid)
  · exact .stay

theorem handleSasConfirm_moves (event : PairingEvent Key) (now : Nat) :
    s.Moves C (some event) (s.handleSasConfirm C event now).1 none
      ((s.handleSasConfirm C event now).2.toOption.map fun _ =>
        .transcriptMatched s.keys event) := by
  unfold handleSasConfirm
  split
  · exact .stay
  · next receivedHash hmsg =>
    obtain ⟨hstate, hrole, hval, hheard⟩ :=
      hears_of_receive hmsg fun hv => (fromPeer_of_validateEventFromPeer hv).1
    have hfrom := (fromPeer_of_validateEventFromPeer hval).2
    split
    · exact .stay
    · exact .stay
    · next sasInput peer hsas hpeer =>
      dsimp only
      split
      · exact .abandon (by rw [hstate]; rfl) nofun
      · next hhash =>
        have hmoves := Moves.matched hstate hrole hheard hpeer (hfrom peer hpeer) hsas
          (not_not.mp hhash)
        cases hcode : s.sasCode with
        | none | some code =>
          rw [hcode] at hmoves
          exact hmoves
  · exact .stay

theorem handlePayload_moves (event : PairingEvent Key) (now : Nat) :
    s.Moves C (some event) (s.handlePayload C event now).1 none
      ((s.handlePayload C event now).2.toOption.map fun payload =>
        .payloadAccepted s.keys payload) := by
  unfold handlePayload
  split
  · exact .stay
  · next payloadType payload hmsg =>
    obtain ⟨hstate, hrole, hval, hheard⟩ :=
      hears_of_receive hmsg fun hv => (fromPeer_of_validateEventFromPeer hv).1
    exact .accept hstate hrole hheard (fromPeer_of_validateEventFromPeer hval).2
  · exact .stay

theorem handleComplete_moves (event : PairingEvent Key) (now : Nat) :
    s.Moves C (some event) (s.handleComplete C event now).1 none none := by
  unfold handleComplete
  split
  · exact .stay
  · next hmsg =>
    obtain ⟨hstate, hrole, hval, hheard⟩ :=
      hears_of_receive hmsg fun hv => (fromPeer_of_validateEventFromPeer hv).1
    exact .finish hstate hrole hheard (fromPeer_of_validateEventFromPeer hval).2
  · next hmsg =>
    obtain ⟨hstate, -, -, -⟩ :=
      hears_of_receive hmsg fun hv => (fromPeer_of_validateEventFromPeer hv).1
    exact .abandon (by rw [hstate]; rfl) nofun
  · exact .stay

theorem handleAbort_moves (event : PairingEvent Key) :
    s.Moves C (some event) (s.handleAbort C event).1 none none := by
  unfold handleAbort
  split
  · exact .stay
  · next hstate =>
    split
    · exact .stay
    · split
      · exact .stay
      · exact .abandon (Bool.eq_false_iff.mpr hstate) nofun
      · exact .stay

/-- **Handlers.** A handler makes one of the transitions. -/
theorem handle_moves (handler : Handler) (event : PairingEvent Key) (now : Nat) :
    s.Moves C (some event) (s.handle C handler event now).1 none
      (s.handle C handler event now).2 := by
  cases handler with
  | offer => exact handleOffer_moves C s event now
  | sasConfirm => exact handleSasConfirm_moves C s event now
  | payload => exact handlePayload_moves C s event now
  | complete => exact handleComplete_moves C s event now
  | abort => exact handleAbort_moves C s event

omit [DecidableEq Key] in
theorem confirmSas_moves (fresh : Fresh) (now : Nat) :
    s.Moves C none (s.confirmSas C fresh now).1 (s.confirmSas C fresh now).2.toOption
      ((s.confirmSas C fresh now).2.toOption.map fun _ =>
        .sourceConfirmed s.keys s.sessionId s.peerPubkey s.sasCode) := by
  unfold confirmSas
  split
  · exact .stay
  · next hready =>
    obtain ⟨hstate, hrole⟩ := of_ready hready
    split
    · exact .stay
    · exact .stay
    · next sasInput peer hsas hpeer =>
      obtain ⟨e, hsend⟩ | ⟨event, hsaid, hsend⟩ := send_cases (C := C) (s := s) .transferring
        (.sasConfirm (hexOfBytes32 (s.transcriptHash C s.keys peer sasInput))) fresh
      · exact hsend ▸ .stay
      · exact hsend ▸ .confirm hstate hrole hpeer hsas hsaid

omit [DecidableEq Key] in
/-- **Builders.** A call of the user makes one of the transitions. -/
theorem call_moves (c : Call) (fresh : Fresh) (now : Nat) :
    s.Moves C none (s.call C c fresh now).1 (s.call C c fresh now).2.1
      (s.call C c fresh now).2.2 := by
  cases c with
  | confirmSas => exact confirmSas_moves C s fresh now
  | confirmTargetSas =>
    dsimp only [call, confirmTargetSas]
    split
    · exact .stay
    · next hready => exact .confirmTarget (of_ready hready).1 (of_ready hready).2
  | sendPayload payloadType payload =>
    dsimp only [call, sendPayload]
    split
    · exact .stay
    · next hready =>
      obtain ⟨e, hsend⟩ | ⟨event, hsaid, hsend⟩ := send_cases (C := C) (s := s) .payloadExchanged
        (.payload payloadType payload) fresh
      · exact hsend ▸ .stay
      · exact hsend ▸ .transfer (of_ready hready).1 (of_ready hready).2 hsaid
  | sendComplete =>
    dsimp only [call, sendComplete]
    split
    · exact .stay
    · next hready =>
      obtain ⟨e, hsend⟩ | ⟨event, hsaid, hsend⟩ := send_cases (C := C) (s := s) .completed
        (.complete true) fresh
      · exact hsend ▸ .stay
      · exact hsend ▸ .report (of_ready hready).1 (of_ready hready).2 hsaid
  | abort reason =>
    dsimp only [call, abort]
    split
    · exact .stay
    · next hstate =>
      have hlive : s.state.isTerminal = false := Bool.eq_false_iff.mpr hstate
      split
      · exact .abandon hlive nofun
      · obtain ⟨e, hsend⟩ | ⟨event, hsaid, hsend⟩ := send_cases (C := C) (s := s) .aborted
          (.abort reason) fresh
        · rw [hsend]
          exact .stay
        · rw [hsend]
          exact .abandon hlive fun e he => ⟨reason, Option.some.inj he ▸ hsaid⟩

end PairingSession

end Buzz.Pairing
