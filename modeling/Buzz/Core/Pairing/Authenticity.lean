import Buzz.Core.Pairing.Protocol

/-!
# Pairing is authentic

Every ciphertext that a device accepts was sealed by the key that signed the event, for the device's
own key. So what a source or a target hears was said by the other, and nothing is said without a
reason that the log shows: a transcript hash is sent after the source's user confirmed the code, a
payload after that, a success after a payload was accepted. This is an invariant of the events on the
relay (`EventOk`), and the sessions only have to be compared with it.

The source locks to whoever offers the session id. Only a device that scanned the QR code does: no
ciphertext that the adversary can open names the session, because no device ever encrypts to the
adversary, because the source never locks to it.
-/

namespace Buzz.Pairing

open List Option
open PairingSession

variable (C : Crypto Agent) (secret : Bytes32)

/-- The code that a target and the source derive from each other's keys, and its raw input. -/
def sasOf (n : Nat) : Nat × Bytes32 := deriveSas C (C.sharedKey .source (.target n)) secret

/-- The transcript hash of the source with a target. -/
def transcriptOf (n : Nat) : Bytes32 :=
  deriveTranscriptHash C (deriveSessionId C secret) (C.toBytes .source) (C.toBytes (.target n))
    (sasOf C secret n).2 secret

/-- The event carries this transcript hash from the source to a target. -/
def CarriesTranscript (n : Nat) (event : PairingEvent Agent) (hash : Bytes32) : Prop :=
  event.verifies = true ∧ event.pubkey = .source ∧
    ∃ nonce plaintext text, event.content = .sealed s(.target n, .source) nonce plaintext ∧
      plaintext.parsed = some (.sasConfirm text) ∧ bytes32FromHex text = some hash

/-- The source's user confirmed the code shared with a target. -/
def Confirmed (n : Nat) (log : List (Mark Agent)) : Prop :=
  .sourceConfirmed .source (deriveSessionId C secret) (some (.target n))
    (some (sasOf C secret n).1) ∈ log

/-- The target received the transcript hash that is its own. -/
def Matched (n : Nat) (log : List (Mark Agent)) : Prop :=
  ∃ event, .transcriptMatched (.target n) event ∈ log ∧
    CarriesTranscript n event (transcriptOf C secret n)

/-- The target's user confirmed the code. -/
def TargetConfirmed (n : Nat) (log : List (Mark Agent)) : Prop :=
  .targetConfirmed (.target n) (some (sasOf C secret n).1) ∈ log

/-- The source sent a payload to a target. -/
def Sent (n : Nat) (payload : PayloadType × String) (log : List (Mark Agent)) : Prop :=
  .payloadSent .source (some (.target n)) payload ∈ log

/-- What precedes a payload that a target accepts. -/
structure Authentic (n : Nat) (payload : PayloadType × String) (log : List (Mark Agent)) : Prop where
  targetConfirmed : TargetConfirmed C secret n log
  matched : Matched C secret n log
  sourceConfirmed : Confirmed C secret n log
  sent : Sent n payload log

/-- Is this a payload that the target accepted? -/
def Mark.accepts (n : Nat) : Mark Agent → Bool
  | .payloadAccepted target _ => target == .target n
  | _ => false

theorem Mark.accepts_self (n : Nat) (payload : PayloadType × String) :
    Mark.accepts n (.payloadAccepted (.target n) payload) = true := beq_self_eq_true _

/-! ### The invariant -/

/-- What a device had reason to say to the source or to a target. -/
def Backed (log : List (Mark Agent)) (n : Nat) : Agent → PairingMessage → Prop
  | .source, .sasConfirm _ => Confirmed C secret n log
  | .source, .payload payloadType payload => Sent n (payloadType, payload) log
  | .source, .abort _ => True
  | .target _, .offer .. => True
  | .target _, .complete success =>
    success = true ∧ .completeSent (.target n) ∈ log ∧
      ∃ payload, .payloadAccepted (.target n) payload ∈ log
  | .target _, .abort _ => True
  | _, _ => False

/-- What holds of every event on the relay. -/
structure EventOk (log : List (Mark Agent)) (event : PairingEvent Agent) : Prop where
  /-- What a device signs it seals between the source and a target, with reason. -/
  honest : event.verifies = true → event.kind = pairingKind → event.pubkey.isAdversary = false →
    ∃ n nonce message, event.content = .sealed s(.source, .target n) nonce message.plaintext ∧
      (event.pubkey = .source ∨ event.pubkey = .target n) ∧
      Backed C secret log n event.pubkey message
  notLeaked : event.verifies = true → event.pubkey.isAdversary = false →
    event.content.leaks = false
  secretive : ∀ conversation nonce plaintext, event.content = .sealed conversation nonce plaintext →
    conversationLeaks conversation = true → plaintext.offers (deriveSessionId C secret) = false

/-- What holds of the source that displays the QR code. -/
structure SourceOk (log : List (Mark Agent)) (s : PairingSession Agent) : Prop where
  role : s.role = .source
  keys : s.keys = .source
  sessionSecret : s.sessionSecret = secret
  sessionId : s.sessionId = deriveSessionId C secret
  /-- It is waiting for an offer, or locked to a target, or was aborted before. -/
  peer : s.peerPubkey = none ∧ (s.state = .waiting ∨ s.state = .aborted) ∨
    ∃ n, s.peerPubkey = some (.target n) ∧ s.state ≠ .waiting ∧
      s.sasCode = some (sasOf C secret n).1 ∧ s.sasInput = some (sasOf C secret n).2
  completed : s.state = .completed → ∃ n, s.peerPubkey = some (.target n) ∧
    .completeSent (.target n) ∈ log ∧ ∃ payload, .payloadAccepted (.target n) payload ∈ log

/-- What holds of the `n`th device that scanned it. -/
structure TargetOk (n : Nat) (log : List (Mark Agent)) (t : PairingSession Agent) : Prop where
  role : t.role = .target
  keys : t.keys = .target n
  sessionSecret : t.sessionSecret = secret
  sessionId : t.sessionId = deriveSessionId C secret
  peer : t.peerPubkey = some .source
  sasCode : t.sasCode = some (sasOf C secret n).1
  sasInput : t.sasInput = some (sasOf C secret n).2
  matched : t.state = .awaitingConfirmation ∨ t.state = .transferring →
    Confirmed C secret n log ∧ Matched C secret n log
  targetConfirmed : t.state = .transferring → TargetConfirmed C secret n log
  accepted : t.state = .payloadExchanged → ∃ payload, .payloadAccepted (.target n) payload ∈ log
  notYet : log.countP (Mark.accepts n) = 0 ∨
    log.countP (Mark.accepts n) = 1 ∧ t.state ∈ [.payloadExchanged, .completed, .aborted]

variable {C} {secret} {log log' : List (Mark Agent)}

/-! ### The log only grows -/

variable {n : Nat} {message : PairingMessage}

theorem Backed.mono (hlog : log ⊆ log') {author : Agent}
    (h : Backed C secret log n author message) : Backed C secret log' n author message := by
  cases author with
  | source =>
    cases message with
    | sasConfirm hash | payload payloadType payload => exact hlog h
    | abort reason => trivial
    | offer | complete => exact h.elim
  | target k =>
    cases message with
    | offer | abort reason => trivial
    | complete success =>
      obtain ⟨hsuccess, hsent, payload, haccepted⟩ := h
      exact ⟨hsuccess, hlog hsent, payload, hlog haccepted⟩
    | sasConfirm | payload => exact h.elim
  | adversary a => exact h.elim

variable {event : PairingEvent Agent}

theorem EventOk.mono (hlog : log ⊆ log') (h : EventOk C secret log event) :
    EventOk C secret log' event where
  honest hverifies hkind hpub :=
    have ⟨n, nonce, message, hcontent, hauthor, hbacked⟩ := h.honest hverifies hkind hpub
    ⟨n, nonce, message, hcontent, hauthor, hbacked.mono hlog⟩
  notLeaked := h.notLeaked
  secretive := h.secretive

variable {s : PairingSession Agent}

theorem SourceOk.mono (hlog : log ⊆ log') (h : SourceOk C secret log s) :
    SourceOk C secret log' s where
  __ := h
  completed hstate :=
    have ⟨n, hpeer, hsent, payload, haccepted⟩ := h.completed hstate
    ⟨n, hpeer, hlog hsent, payload, hlog haccepted⟩

theorem Matched.mono (hlog : log ⊆ log') (h : Matched C secret n log) : Matched C secret n log' :=
  have ⟨event, hmark, hcarries⟩ := h
  ⟨event, hlog hmark, hcarries⟩

variable {t : PairingSession Agent}

theorem TargetOk.mono (hlog : log ⊆ log')
    (hcount : log'.countP (Mark.accepts n) = log.countP (Mark.accepts n))
    (h : TargetOk C secret n log t) : TargetOk C secret n log' t where
  __ := h
  matched hstate := ⟨hlog (h.matched hstate).1, (h.matched hstate).2.mono hlog⟩
  targetConfirmed hstate := hlog (h.targetConfirmed hstate)
  accepted hstate :=
    have ⟨payload, haccepted⟩ := h.accepted hstate
    ⟨payload, hlog haccepted⟩
  notYet := by
    rw [hcount]
    exact h.notYet

/-! ### What is heard and said -/

theorem EventOk.of_hears (h : EventOk C secret log event) (hheard : s.Hears event message)
    (hpub : event.pubkey.isAdversary = false) :
    ∃ n, s(s.keys, event.pubkey) = s(.source, .target n) ∧
      (event.pubkey = .source ∨ event.pubkey = .target n) ∧
      Backed C secret log n event.pubkey message := by
  obtain ⟨hverifies, hkind, nonce, plaintext, hcontent, hparsed⟩ := hheard
  obtain ⟨n, nonce', message', hcontent', hauthor, hbacked⟩ := h.honest hverifies hkind hpub
  rw [hcontent] at hcontent'
  injection hcontent' with hconv _ hplain
  obtain rfl : message' = message := by
    rw [hplain] at hparsed
    exact some.inj hparsed
  exact ⟨n, hconv, hauthor, hbacked⟩

theorem EventOk.of_hears_target (h : EventOk C secret log event) (hheard : s.Hears event message)
    (hkeys : s.keys = .source) (hpub : event.pubkey.isAdversary = false) :
    ∃ n, event.pubkey = .target n ∧ Backed C secret log n (.target n) message := by
  obtain ⟨n, hconv, -, hbacked⟩ := h.of_hears hheard hpub
  rw [hkeys] at hconv
  have hpubkey := Sym2.congr_right.mp hconv
  exact ⟨n, hpubkey, hpubkey ▸ hbacked⟩

theorem EventOk.of_hears_source (h : EventOk C secret log event) (hheard : s.Hears event message)
    (hkeys : s.keys = .target n) (hpub : event.pubkey = .source) :
    Backed C secret log n .source message := by
  obtain ⟨k, hconv, -, hbacked⟩ := h.of_hears hheard (by rw [hpub]; rfl)
  rw [hkeys, hpub, Sym2.eq_swap] at hconv
  obtain rfl := Agent.target.inj (Sym2.congr_right.mp hconv)
  exact hpub ▸ hbacked

theorem EventOk.isAdversary_of_offer (h : EventOk C secret log event) {text : String}
    {version : Nat} (hheard : s.Hears event (.offer text version))
    (hid : bytes32FromHex text = some (deriveSessionId C secret)) :
    event.pubkey.isAdversary = false := by
  obtain ⟨-, -, nonce, plaintext, hcontent, hparsed⟩ := hheard
  by_contra hadv
  have hleaks : conversationLeaks s(s.keys, event.pubkey) = true := by
    show (s.keys.isAdversary || event.pubkey.isAdversary) = true
    rw [Bool.not_eq_false] at hadv
    rw [hadv, Bool.or_true]
  have hoffers : plaintext.offers (deriveSessionId C secret) = true := by
    rw [Plaintext.offers, hparsed]
    exact beq_iff_eq.mpr hid
  rw [h.secretive _ _ _ hcontent hleaks] at hoffers
  nomatch hoffers

theorem EventOk.of_says (hsaid : s.Says message event) {peer : Agent}
    (hpeer : s.peerPubkey = some peer) (hconv : s(s.keys, peer) = s(.source, .target n))
    (hkeys : s.keys = .source ∨ s.keys = .target n)
    (hbacked : Backed C secret log n s.keys message) : EventOk C secret log event := by
  obtain ⟨-, -, hpubkey, peer', nonce, hpeer', hcontent⟩ := hsaid
  obtain rfl : peer' = peer := some.inj (hpeer'.symm.trans hpeer)
  rw [hconv] at hcontent
  rw [← hpubkey] at hkeys hbacked
  refine ⟨fun _ _ _ => ⟨n, nonce, message, hcontent, hkeys, hbacked⟩, fun _ _ => ?_,
    fun conversation nonce' plaintext hsealed hleaks => ?_⟩
  · rw [hcontent]
    rfl
  · rw [hcontent] at hsealed
    injection hsealed with hc
    rw [← hc] at hleaks
    nomatch hleaks

/-! ### The source -/

theorem SourceOk.of_says (h : SourceOk C secret log s) (hsaid : s.Says message event)
    (hbacked : ∀ n, s.peerPubkey = some (.target n) → Backed C secret log' n .source message) :
    EventOk C secret log' event := by
  obtain ⟨-, -, -, peer, nonce, hpeer, -⟩ := id hsaid
  obtain ⟨hnone, -⟩ | ⟨n, hsome, -⟩ := h.peer
  · nomatch hnone.symm.trans hpeer
  · exact EventOk.of_says hsaid hsome (by rw [h.keys]) (.inl h.keys) (h.keys ▸ hbacked n hsome)

variable {heard said : Option (PairingEvent Agent)} {mark : Option (Mark Agent)}

theorem accepts_none (n : Nat) : ∀ m ∈ (none : Option (Mark Agent)), m.accepts n = false :=
  fun m hm => absurd hm (not_mem_none m)

theorem SourceOk.moves {s' : PairingSession Agent} (h : SourceOk C secret log s)
    (hheard : ∀ event ∈ heard, EventOk C secret log event) (hm : s.Moves C heard s' said mark) :
    SourceOk C secret (mark.toList ++ log) s' ∧
      (∀ event ∈ said, EventOk C secret (mark.toList ++ log) event) ∧
      ∀ n, ∀ m ∈ mark, m.accepts n = false := by
  have hlog : log ⊆ mark.toList ++ log := subset_append_right _ _
  cases hm with
  | stay => exact ⟨h, nofun, accepts_none⟩
  | @lock event text hstate hrole hhears hid =>
    have hok := hheard event rfl
    rw [h.sessionId] at hid
    obtain ⟨n, hpubkey, -⟩ := hok.of_hears_target hhears h.keys (hok.isAdversary_of_offer hhears hid)
    refine ⟨⟨h.role, h.keys, h.sessionSecret, h.sessionId, .inr ⟨n, ?_⟩, nofun⟩, nofun,
      accepts_none⟩
    rw [hpubkey]
    exact ⟨rfl, nofun, by rw [sasOf, ← h.keys, ← h.sessionSecret]; rfl,
      by rw [sasOf, ← h.keys, ← h.sessionSecret]; rfl⟩
  | @confirm event peer sasInput hstate hrole hpeer hsas hsaid =>
    obtain ⟨-, hw | ha⟩ | ⟨n, hsome, hne, hcode, hinput⟩ := h.peer
    · nomatch hstate.symm.trans hw
    · nomatch hstate.symm.trans ha
    · refine ⟨⟨h.role, h.keys, h.sessionSecret, h.sessionId, .inr ⟨n, hsome, nofun, hcode, hinput⟩,
        nofun⟩, fun e he => ?_, ?_⟩
      · cases he
        refine h.of_says hsaid fun k hk => ?_
        rw [hk, h.keys, h.sessionId, hcode]
        obtain rfl := Agent.target.inj (some.inj (hsome.symm.trans hk))
        exact mem_cons_self
      · rintro k m ⟨⟩
        rfl
  | @transfer event payloadType payload hstate hrole hsaid =>
    obtain ⟨-, hw | ha⟩ | ⟨n, hsome, hne, hsas⟩ := h.peer
    · nomatch hstate.symm.trans hw
    · nomatch hstate.symm.trans ha
    · refine ⟨⟨h.role, h.keys, h.sessionSecret, h.sessionId, .inr ⟨n, hsome, nofun, hsas⟩, nofun⟩,
        fun e he => ?_, ?_⟩
      · cases he
        refine h.of_says hsaid fun k hk => ?_
        rw [hk, h.keys]
        exact mem_cons_self
      · rintro k m ⟨⟩
        rfl
  | @finish event hstate hrole hhears hfrom =>
    obtain ⟨-, hw | ha⟩ | ⟨n, hsome, hne, hsas⟩ := h.peer
    · nomatch hstate.symm.trans hw
    · nomatch hstate.symm.trans ha
    · have hpubkey := hfrom _ hsome
      obtain ⟨k, hk, -, hbacked⟩ :=
        (hheard event rfl).of_hears_target hhears h.keys (by rw [hpubkey]; rfl)
      obtain rfl := Agent.target.inj (hpubkey.symm.trans hk)
      exact ⟨⟨h.role, h.keys, h.sessionSecret, h.sessionId, .inr ⟨n, hsome, nofun, hsas⟩,
        fun _ => ⟨n, hsome, hbacked⟩⟩, nofun, accepts_none⟩
  | @abandon _ _ ids hstate hsaid =>
    refine ⟨⟨h.role, h.keys, h.sessionSecret, h.sessionId, ?_, nofun⟩, fun e he => ?_,
      accepts_none⟩
    · obtain ⟨hnone, -⟩ | ⟨n, hsome, -, hsas⟩ := h.peer
      · exact .inl ⟨hnone, .inr rfl⟩
      · exact .inr ⟨n, hsome, nofun, hsas⟩
    · obtain ⟨reason, hsaid⟩ := hsaid e he
      exact h.of_says hsaid fun _ _ => trivial
  | matched hstate hrole | confirmTarget hstate hrole | accept hstate hrole
  | report hstate hrole => nomatch h.role.symm.trans hrole

/-! ### The targets -/

theorem TargetOk.of_says (h : TargetOk C secret n log t) (hsaid : t.Says message event)
    (hbacked : Backed C secret log' n (.target n) message) : EventOk C secret log' event :=
  EventOk.of_says hsaid h.peer (by rw [h.keys, Sym2.eq_swap]) (.inr h.keys) (h.keys ▸ hbacked)

theorem TargetOk.notYet_of_mem (h : TargetOk C secret n log t) {st : SessionState}
    (hstate : t.state = st) (hst : st ∉ [.payloadExchanged, .completed, .aborted] := by decide) :
    log.countP (Mark.accepts n) = 0 := by
  obtain hzero | ⟨-, hmem⟩ := h.notYet
  · exact hzero
  · exact absurd (hstate ▸ hmem) hst

theorem TargetOk.moves {t' : PairingSession Agent} (h : TargetOk C secret n log t)
    (hheard : ∀ event ∈ heard, EventOk C secret log event) (hm : t.Moves C heard t' said mark) :
    TargetOk C secret n (mark.toList ++ log) t' ∧
      (∀ event ∈ said, EventOk C secret (mark.toList ++ log) event) ∧
      (∀ k ≠ n, ∀ m ∈ mark, m.accepts k = false) ∧
      ∀ k payload, .payloadAccepted (.target k) payload ∈ mark →
        Authentic C secret k payload log := by
  cases hm with
  | stay => exact ⟨h, nofun, fun k _ => accepts_none k, nofun⟩
  | @matched event hash peer sasInput hstate hrole hhears hpeer hfrom hsas hhash =>
    obtain rfl := some.inj (h.peer.symm.trans hpeer)
    have hconfirmed := (hheard event rfl).of_hears_source hhears h.keys hfrom
    obtain rfl := some.inj (h.sasInput.symm.trans hsas)
    have hcarries : CarriesTranscript n event (transcriptOf C secret n) := by
      obtain ⟨hverifies, -, nonce, plaintext, hcontent, hparsed⟩ := hhears
      rw [h.keys, hfrom] at hcontent
      refine ⟨hverifies, hfrom, nonce, plaintext, hash, hcontent, hparsed, ?_⟩
      rw [hhash, transcriptHash, h.keys, h.sessionId, h.sessionSecret]
      rfl
    have hmark : (t.sasCode.map fun _ => Mark.transcriptMatched t.keys event) =
        some (.transcriptMatched (.target n) event) := by
      rw [h.sasCode, h.keys]
      rfl
    rw [hmark]
    refine ⟨⟨h.role, h.keys, h.sessionSecret, h.sessionId, h.peer, h.sasCode, h.sasInput,
      fun _ => ⟨mem_cons_of_mem _ hconfirmed, event, mem_cons_self, hcarries⟩, nofun,
      nofun, .inl (h.notYet_of_mem hstate)⟩, nofun, ?_, nofun⟩
    rintro k hk m ⟨⟩
    rfl
  | confirmTarget hstate hrole =>
    have hagreed := h.matched (.inl hstate)
    refine ⟨⟨h.role, h.keys, h.sessionSecret, h.sessionId, h.peer, h.sasCode, h.sasInput,
      fun _ => ⟨mem_cons_of_mem _ hagreed.1, hagreed.2.mono (subset_cons_self _ _)⟩,
      fun _ => ?_, nofun, .inl (h.notYet_of_mem hstate)⟩, nofun, ?_, nofun⟩
    · rw [h.keys, h.sasCode]
      exact mem_cons_self
    · rintro k hk m ⟨⟩
      rfl
  | @accept event payloadType payload hstate hrole hhears hfrom =>
    have hsent := (hheard event rfl).of_hears_source hhears h.keys (hfrom _ h.peer)
    have hagreed := h.matched (.inr hstate)
    have hzero := h.notYet_of_mem hstate
    rw [h.keys]
    refine ⟨⟨h.role, rfl, h.sessionSecret, h.sessionId, h.peer, h.sasCode, h.sasInput,
      nofun, nofun, fun _ => ⟨_, mem_cons_self⟩, .inr ⟨?_, mem_cons_self⟩⟩, nofun, ?_, ?_⟩
    · simp [toList_some, countP_cons_of_pos (Mark.accepts_self n (payloadType,
        payload)), hzero]
    · rintro k hk m ⟨⟩
      exact beq_eq_false_iff_ne.mpr fun h => hk (Agent.target.inj h).symm
    · rintro k p ⟨⟩
      exact ⟨h.targetConfirmed hstate, hagreed.2, hagreed.1, hsent⟩
  | @report event hstate hrole hsaid =>
    obtain ⟨payload, haccepted⟩ := h.accepted hstate
    refine ⟨⟨h.role, h.keys, h.sessionSecret, h.sessionId, h.peer, h.sasCode, h.sasInput,
      nofun, nofun, nofun, ?_⟩, fun e he => ?_, ?_, nofun⟩
    · exact h.notYet.imp id fun hone => ⟨hone.1, mem_cons_of_mem _ mem_cons_self⟩
    · cases he
      refine h.of_says hsaid ⟨rfl, ?_, payload, mem_cons_of_mem _ haccepted⟩
      rw [h.keys]
      exact mem_cons_self
    · rintro k hk m ⟨⟩
      rfl
  | @abandon _ _ ids hstate hsaid =>
    refine ⟨⟨h.role, h.keys, h.sessionSecret, h.sessionId, h.peer, h.sasCode, h.sasInput,
      nofun, nofun, nofun, ?_⟩, fun e he => ?_, fun k _ => accepts_none k, nofun⟩
    · exact h.notYet.imp id fun hone => ⟨hone.1, by simp⟩
    · obtain ⟨reason, hsaid⟩ := hsaid e he
      exact h.of_says hsaid trivial
  | lock hstate hrole | confirm hstate hrole | transfer hstate hrole | finish hstate hrole =>
      nomatch h.role.symm.trans hrole

/-! ### The world -/

variable (C) (secret)

/-- The invariant of a pairing. -/
structure Inv (w : World) : Prop where
  source : ∃ s, w.sessions .source = some s ∧ SourceOk C secret w.log s
  target : ∀ n t, w.sessions (.target n) = some t → TargetOk C secret n w.log t
  absent : ∀ n, w.sessions (.target n) = none → w.log.countP (Mark.accepts n) = 0
  adversary : ∀ n, w.sessions (.adversary n) = none
  network : ∀ event ∈ w.network, EventOk C secret w.log event
  log : ∀ n payload later earlier, w.log = later ++ .payloadAccepted (.target n) payload :: earlier →
    Authentic C secret n payload earlier

variable {C} {secret}

theorem countP_accepts_append (h : ∀ m ∈ mark, m.accepts n = false) :
    (mark.toList ++ log).countP (Mark.accepts n) = log.countP (Mark.accepts n) := by
  cases mark with
  | none => rfl
  | some m =>
    have hm : ¬ m.accepts n = true := by rw [h m rfl]; exact Bool.false_ne_true
    exact countP_cons_of_neg hm

theorem authentic_append
    (hlog : ∀ n payload later earlier,
      log = later ++ .payloadAccepted (.target n) payload :: earlier →
      Authentic C secret n payload earlier)
    (hmark : ∀ n payload, .payloadAccepted (.target n) payload ∈ mark →
      Authentic C secret n payload log)
    (n : Nat) (payload : PayloadType × String) (later earlier : List (Mark Agent))
    (h : mark.toList ++ log = later ++ .payloadAccepted (.target n) payload :: earlier) :
    Authentic C secret n payload earlier := by
  cases mark with
  | none => exact hlog n payload later earlier h
  | some m =>
    obtain ⟨-, heq⟩ | ⟨later', -, heq⟩ := cons_eq_append_iff.mp h
    · injection heq with hm hearlier
      exact hearlier ▸ hmark n payload (congrArg some hm.symm)
    · exact hlog n payload later' earlier heq

variable {w : World}

theorem eventOk_append (hnetwork : ∀ event ∈ w.network, EventOk C secret log event)
    (hlog : log ⊆ log') (hsaid : ∀ event ∈ said, EventOk C secret log' event) :
    ∀ event ∈ said.toList ++ w.network, EventOk C secret log' event := by
  intro event hevent
  obtain hnew | hold := mem_append.mp hevent
  · exact hsaid event (mem_toList.mp hnew)
  · exact (hnetwork event hold).mono hlog

theorem Inv.update_target (h : Inv C secret w) (ht : TargetOk C secret n (mark.toList ++ w.log) t)
    (hsaid : ∀ event ∈ said, EventOk C secret (mark.toList ++ w.log) event)
    (hmark : ∀ k ≠ n, ∀ m ∈ mark, m.accepts k = false)
    (hauthentic : ∀ k payload, .payloadAccepted (.target k) payload ∈ mark →
      Authentic C secret k payload w.log) :
    Inv C secret (w.update (.target n) t said mark) := by
  have hlog : w.log ⊆ mark.toList ++ w.log := subset_append_right _ _
  obtain ⟨s₀, hs₀, hsource⟩ := h.source
  refine ⟨⟨s₀, (World.sessions_update_of_ne Agent.noConfusion).trans hs₀, hsource.mono hlog⟩,
    fun k t' ht' => ?_, fun k hk => ?_, fun k => ?_, eventOk_append h.network hlog hsaid,
    authentic_append h.log hauthentic⟩
  · by_cases hkn : k = n
    · subst hkn
      rw [World.sessions_update_self] at ht'
      exact some.inj ht' ▸ ht
    · rw [World.sessions_update_of_ne fun h => hkn (Agent.target.inj h)] at ht'
      exact (h.target k t' ht').mono hlog (countP_accepts_append (hmark k hkn))
  · by_cases hkn : k = n
    · subst hkn
      rw [World.sessions_update_self] at hk
      nomatch hk
    · rw [World.sessions_update_of_ne fun h => hkn (Agent.target.inj h)] at hk
      exact (countP_accepts_append (hmark k hkn)).trans (h.absent k hk)
  · exact (World.sessions_update_of_ne Agent.noConfusion).trans (h.adversary k)

theorem Inv.update_source (h : Inv C secret w) (hs : SourceOk C secret (mark.toList ++ w.log) s)
    (hsaid : ∀ event ∈ said, EventOk C secret (mark.toList ++ w.log) event)
    (hmark : ∀ n, ∀ m ∈ mark, m.accepts n = false) :
    Inv C secret (w.update .source s said mark) := by
  have hlog : w.log ⊆ mark.toList ++ w.log := subset_append_right _ _
  refine ⟨⟨s, World.sessions_update_self, hs⟩, fun n t ht => ?_, fun n hn => ?_,
    fun n => ?_, eventOk_append h.network hlog hsaid, authentic_append h.log fun n payload hp => ?_⟩
  · rw [World.sessions_update_of_ne Agent.noConfusion] at ht
    exact (h.target n t ht).mono hlog (countP_accepts_append (hmark n))
  · rw [World.sessions_update_of_ne Agent.noConfusion] at hn
    exact (countP_accepts_append (hmark n)).trans (h.absent n hn)
  · exact (World.sessions_update_of_ne Agent.noConfusion).trans (h.adversary n)
  · exact absurd (hmark n _ hp) (by simp [Mark.accepts])

theorem Inv.update (h : Inv C secret w) {who : Agent} {s' : PairingSession Agent}
    (hs : w.sessions who = some s) (hheard : ∀ event ∈ heard, event ∈ w.network)
    (hm : s.Moves C heard s' said mark) : Inv C secret (w.update who s' said mark) := by
  have hok : ∀ event ∈ heard, EventOk C secret w.log event := fun e he =>
    h.network e (hheard e he)
  cases who with
  | source =>
    obtain ⟨s₀, hs₀, hsource⟩ := h.source
    obtain rfl := some.inj (hs₀.symm.trans hs)
    obtain ⟨hsource', hsaid, hmark⟩ := hsource.moves hok hm
    exact h.update_source hsource' hsaid hmark
  | target n =>
    obtain ⟨htarget', hsaid, hmark, hauthentic⟩ := (h.target n s hs).moves hok hm
    exact h.update_target htarget' hsaid hmark hauthentic
  | adversary n => nomatch (h.adversary n).symm.trans hs

theorem targetOk_newTarget {fresh : Fresh} {now : Nat} {offer : PairingEvent Agent}
    (hs : SourceOk C secret log s) (hzero : log.countP (Mark.accepts n) = 0)
    (h : PairingSession.newTarget C (.target n) s.qrPayload fresh now = .ok (t, offer)) :
    TargetOk C secret n log t ∧ EventOk C secret log offer := by
  obtain ⟨⟨sas, rfl, rfl⟩, hsays⟩ := newTarget_ok h
  have hsas : deriveSas C (C.sharedKey (.target n) s.keys) s.sessionSecret = sasOf C secret n := by
    rw [hs.keys, hs.sessionSecret, C.sharedKey_comm]
    rfl
  refine ⟨⟨rfl, rfl, hs.sessionSecret, congrArg (deriveSessionId C) hs.sessionSecret,
    congrArg some hs.keys, ?_, ?_, nofun, nofun, nofun, .inl hzero⟩, ?_⟩
  · rw [← hsas]
    rfl
  · rw [← hsas]
    rfl
  · refine EventOk.of_says (n := n) hsays rfl ?_ (.inr rfl) trivial
    show s(Agent.target n, s.keys) = s(.source, .target n)
    rw [hs.keys, Sym2.eq_swap]

theorem eventOk_inject (h : Inv C secret w)
    (hi : w.injectable (deriveSessionId C secret) event = true) : EventOk C secret w.log event := by
  obtain ⟨hauthor, hwritable⟩ := Bool.and_eq_true_iff.mp hi
  have hdishonest : event.verifies = true → event.pubkey.isAdversary = true := fun hv => by
    rw [hv] at hauthor
    exact hauthor
  have hleaked : w.leaked = false := by
    refine any_eq_false.mpr fun e he => ?_
    rw [Bool.and_eq_true_iff, Bool.and_eq_true_iff]
    rintro ⟨⟨hverifies, hhonest⟩, hleaks⟩
    have hclosed := (h.network e he).notLeaked hverifies (Bool.not_eq_true' _ ▸ hhonest)
    nomatch (hclosed.symm.trans hleaks)
  refine ⟨fun hv _ hpub => ?_, fun hv hpub => ?_, fun conversation nonce plaintext hcontent hl => ?_⟩
  · nomatch (hpub.symm.trans (hdishonest hv))
  · nomatch (hpub.symm.trans (hdishonest hv))
  · rw [hcontent] at hwritable
    obtain hcopied | hsealed := Bool.or_eq_true_iff.mp hwritable
    · obtain ⟨e, he, hsame⟩ := any_eq_true.mp hcopied
      exact (h.network e he).secretive _ _ _ (beq_iff_eq.mp hsame) hl
    · have hoffers := (Bool.and_eq_true_iff.mp hsealed).2
      rw [hleaked, Bool.or_false, Bool.not_eq_true'] at hoffers
      exact hoffers

theorem Inv.cons_network (h : Inv C secret w) (hevent : EventOk C secret w.log event) :
    Inv C secret { w with network := event :: w.network } where
  __ := h
  network e he := by
    obtain rfl | he := mem_cons.mp he
    · exact hevent
    · exact h.network e he

theorem eventOk_authEvent {keys : Agent} {challenge relayUrl : String} {fresh : Fresh} :
    EventOk C secret log (authEvent keys challenge relayUrl fresh) where
  honest _ hkind :=
    have hne : authKind ≠ pairingKind := by decide
    absurd hkind hne
  notLeaked _ _ := rfl
  secretive _ _ _ := nofun

theorem inv_of_init (h : (protocol C secret).Init w) : Inv C secret w := by
  obtain ⟨relayUrl, now, rfl⟩ := h
  have hsource : SourceOk C secret [] (PairingSession.newSource C .source secret relayUrl now).1 :=
    ⟨rfl, rfl, rfl, rfl, .inl ⟨rfl, .inl rfl⟩, nofun⟩
  refine ⟨⟨_, rfl, hsource⟩,
    fun n t ht => ?_, fun _ _ => rfl, fun n => ?_, nofun, fun n payload later earlier hlog => ?_⟩
  · dsimp only at ht
    rw [Function.update_of_ne Agent.noConfusion] at ht
    nomatch ht
  · simp
  · exact absurd hlog.symm (append_ne_nil_of_right_ne_nil _ (cons_ne_nil _ _))

theorem Inv.step {w' : World} {a : Action} (h : Inv C secret w)
    (hs : (protocol C secret).step w a = some w') : Inv C secret w' := by
  cases a with
  | newTarget n fresh now =>
    obtain ⟨s₀, hs₀, hsource⟩ := h.source
    dsimp only [protocol, World.step] at hs
    rw [hs₀] at hs
    split at hs
    · next source hsome hnone =>
      cases hsome
      split at hs
      · nomatch hs
      · next session offer hnew =>
        cases hs
        obtain ⟨htarget, hoffer⟩ := targetOk_newTarget hsource (h.absent n hnone) hnew
        exact h.update_target htarget (fun e he => some.inj he ▸ hoffer)
          (fun k _ => accepts_none k) nofun
    · nomatch hs
  | call who c fresh now =>
    obtain ⟨s, hsession, rfl⟩ := map_eq_some_iff.mp hs
    have hheard : ∀ e ∈ (none : Option (PairingEvent Agent)), e ∈ w.network := nofun
    exact h.update hsession hheard (call_moves C s c fresh now)
  | deliver who handler event now =>
    obtain ⟨hmem, hs⟩ := ite_none_right_eq_some.mp hs
    obtain ⟨s, hsession, rfl⟩ := map_eq_some_iff.mp hs
    have hheard : ∀ e ∈ some event, e ∈ w.network := fun e he => some.inj he ▸ hmem
    exact h.update hsession hheard (handle_moves C s handler event now)
  | authenticate who challenge relayUrl fresh =>
    obtain ⟨s, hsession, rfl⟩ := map_eq_some_iff.mp hs
    exact h.cons_network eventOk_authEvent
  | inject event =>
    obtain ⟨hi, hs⟩ := ite_none_right_eq_some.mp hs
    cases hs
    exact h.cons_network (eventOk_inject h hi)

theorem inv_of_reachable (h : (protocol C secret).Reachable w) : Inv C secret w :=
  h.invariant (I := Inv C secret) (fun _ => inv_of_init) fun _ _ _ _ hI hs => hI.step hs

/-! ### Authenticity -/

/-- **Authenticity.** Whatever the relay does, and whenever the users of the devices act: before a
target accepts a payload its own user confirmed the code, the transcript hash it received from the
key in the QR code was its own, the source's user confirmed the same code for the same session and
this target, and the source sent this payload to this target. A target accepts one payload at most,
and the source completes only when the target it is locked to accepted a payload and reported
success. -/
theorem pairing_authentic {w : World} (h : (protocol C secret).Reachable w) :
    (∀ n payload later earlier,
      w.log = later ++ .payloadAccepted (.target n) payload :: earlier →
      ∃ target sasInput event, w.sessions (.target n) = some target ∧
        target.peerPubkey = some .source ∧ target.sasInput = some sasInput ∧
        .targetConfirmed (.target n) target.sasCode ∈ earlier ∧
        .transcriptMatched (.target n) event ∈ earlier ∧
        CarriesTranscript n event (target.transcriptHash C .source (.target n) sasInput) ∧
        .sourceConfirmed .source target.sessionId (some (.target n)) target.sasCode ∈ earlier ∧
        .payloadSent .source (some (.target n)) payload ∈ earlier) ∧
    (∀ n, w.log.countP (Mark.accepts n) ≤ 1) ∧
    ∀ source, w.sessions .source = some source → source.state = .completed →
      ∃ n, source.peerPubkey = some (.target n) ∧ .completeSent (.target n) ∈ w.log ∧
        ∃ payload, .payloadAccepted (.target n) payload ∈ w.log := by
  have hinv := inv_of_reachable h
  refine ⟨fun n payload later earlier hlog => ?_, fun n => ?_, fun source hs hcompleted => ?_⟩
  · have hauthentic := hinv.log n payload later earlier hlog
    obtain ⟨event, hmatched, hcarries⟩ := hauthentic.matched
    cases htarget : w.sessions (.target n) with
    | none =>
      have hzero := hinv.absent n htarget
      rw [hlog, countP_append, countP_cons_of_pos (Mark.accepts_self n payload)] at hzero
      omega
    | some target =>
      have hok := hinv.target n target htarget
      refine ⟨target, (sasOf C secret n).2, event, rfl, hok.peer, hok.sasInput, ?_, hmatched, ?_, ?_,
        hauthentic.sent⟩
      · rw [hok.sasCode]
        exact hauthentic.targetConfirmed
      · rwa [PairingSession.transcriptHash, hok.sessionId, hok.sessionSecret]
      · rw [hok.sessionId, hok.sasCode]
        exact hauthentic.sourceConfirmed
  · cases htarget : w.sessions (.target n) with
    | none => exact (hinv.absent n htarget).trans_le (Nat.zero_le 1)
    | some target =>
      obtain hzero | ⟨hone, -⟩ := (hinv.target n target htarget).notYet
      · exact hzero.trans_le (Nat.zero_le 1)
      · exact hone.le
  · obtain ⟨s₀, hs₀, hsource⟩ := hinv.source
    obtain rfl := some.inj (hs₀.symm.trans hs)
    exact hsource.completed hcompleted

/-- Key material for a run: bytes that tell the agents apart, and a checksum in the place of HKDF. -/
def checksumCrypto : Crypto Agent where
  toBytes
    | .source => .replicate 32 1
    | .target n => .replicate 32 (UInt8.ofNat (2 + 2 * n))
    | .adversary n => .replicate 32 (UInt8.ofNat (3 + 2 * n))
  sharedKey a b := .replicate 32 <|
    match a, b with
    | .source, .target n | .target n, .source => UInt8.ofNat n
    | _, _ => 255
  sharedKey_comm a b := by cases a <;> cases b <;> rfl
  sharedKeyError _ _ := none
  hkdf32 salt ikm info :=
    .replicate 32 (UInt8.ofNat ((salt ++ ikm).foldl (fun n b => 3 * n + b.toNat) info.length))

def runSecret : Bytes32 := .replicate 32 7

def runEvent (author peer : Agent) (id : Nat) (message : PairingMessage) : PairingEvent Agent :=
  ⟨id, author, 0, pairingKind, [["p", checksumCrypto.toHex peer]],
    .sealed s(author, peer) id message.plaintext, true⟩

/-- A device pairs, while the adversary signs its offer again and replays the payload. -/
def runActions : List Action :=
  let offer := runEvent (.target 0) .source 0
    (.offer (hexOfBytes32 (deriveSessionId checksumCrypto runSecret)) 1)
  let resigned := { offer with id := 9, pubkey := .adversary 0 }
  let confirm := runEvent .source (.target 0) 1
    (.sasConfirm (hexOfBytes32 (transcriptOf checksumCrypto runSecret 0)))
  let payload := runEvent .source (.target 0) 2 (.payload .nsec "nsec1")
  let complete := runEvent (.target 0) .source 3 (.complete true)
  [.newTarget 0 ⟨0, 0, 0, none⟩ 0, .inject resigned, .deliver .source .offer resigned 0,
    .deliver .source .offer offer 1, .call .source .confirmSas ⟨1, 1, 0, none⟩ 2,
    .deliver (.target 0) .sasConfirm confirm 3, .call (.target 0) .confirmTargetSas ⟨0, 0, 0, none⟩ 4,
    .call .source (.sendPayload .nsec "nsec1") ⟨2, 2, 0, none⟩ 5,
    .deliver (.target 0) .payload payload 6, .deliver (.target 0) .payload payload 7,
    .call (.target 0) .sendComplete ⟨3, 3, 0, none⟩ 8, .deliver .source .complete complete 9]

/-- The source of the run completes with the device that reported success. -/
theorem pairing_authentic_resignedRun :
    ∃ (w : World) (source : PairingSession Agent) (n : Nat), w.sessions .source = some source ∧
      source.state = .completed ∧ source.peerPubkey = some (.target n) ∧
      .completeSent (.target n) ∈ w.log := by
  let init : World := ⟨Function.update (fun _ => none) .source
    (some (PairingSession.newSource checksumCrypto .source runSecret "wss://relay" 0).1), [], []⟩
  have hany : ((protocol checksumCrypto runSecret).run init runActions).any (fun w =>
      (w.sessions .source).any fun source => source.state == .completed) = true := by
    decide +kernel
  obtain ⟨w, hrun, hw⟩ := (any_eq_true _ _).mp hany
  obtain ⟨source, hs, hcompleted⟩ := (any_eq_true _ _).mp hw
  have hreach : (protocol checksumCrypto runSecret).Reachable w :=
    ⟨init, runActions, ⟨"wss://relay", 0, rfl⟩, hrun⟩
  have hstate : source.state = .completed := beq_iff_eq.mp hcompleted
  obtain ⟨n, hpeer, hsent, -⟩ := (pairing_authentic hreach).2.2 source hs hstate
  exact ⟨w, source, n, hs, hstate, hpeer, hsent⟩

end Buzz.Pairing
