import Buzz.EvmAuth.SiweLayout
import Buzz.Relay.Evm.Steps
import Mathlib.Data.List.Perm.Subperm

/-!
# Bindings are for good

What a nonce is good for, who writes a binding, and what a revocation leaves behind, however
requests interleave.
-/

namespace Buzz.Evm

open EvmAuth

variable {Sig VerifyingKey : Type} (R : Relay Sig VerifyingKey)

/-! ### What is asked for -/

def issued (nonce : String) : (i : Statement) → Reply i → Bool
  | .setNonce n, stored => n == nonce && stored
  | _, _ => false

def taken (nonce : String) : (i : Statement) → Reply i → Bool
  | .takeNonce n, existed => n == nonce && existed
  | _, _ => false

/-- The nonce of the message in a registration. -/
def siweNonce : Request → Option String
  | .register arrival =>
    (arrival.body.toOption.bind fun body =>
      (SiweMessage.parse R.platform body.message).toOption).map (·.nonce)
  | _ => none

def Response.isRegistered : Response → Bool
  | .registered _ _ _ _ _ => true
  | _ => false

/-- The answer completes a registration with the nonce. -/
def completes (nonce : String) (y : Answered Request Response) : Bool :=
  y.result.isRegistered && siweNonce R y.request == some nonce

/-- The registrations that were completed with the nonce. -/
def completions (x : Execution Reply Store Request Response) (nonce : String) : Nat :=
  x.answers.countP (completes R nonce)

def issuances (x : Execution Reply Store Request Response) (nonce : String) : Nat :=
  x.trace.countP fun e => issued nonce e.statement e.reply

/-- The configured verifier accepts the signature for the account. -/
def VerifierAccepts (config : EvmAuthConfig) (body : SiweRegisterRequest) (account : EvmAddress) :
    Prop :=
  match config.rpcUrl with
  | none => recoverSiweSigner R.platform body.message body.signature = .ok account
  | some _ => ∃ validator, validatorOf config = .ok validator ∧
    R.platform.verifyPersonalSign validator account body.message body.signature = .ok true

/-- What a registration carries that binds the key to the account. -/
structure Carries (arrival : Registration) (body : SiweRegisterRequest) (siwe : SiweMessage)
    (npub : String) (account : EvmAddress) : Prop where
  wellFormed : arrival.body = .ok body
  author : hexEncode body.nostrProof.pubkey.toList = npub
  kind : body.nostrProof.kind = nostrProofKind
  signed : R.verifyEvent body.nostrProof = .ok ()
  fresh : absDiff arrival.proofNow.toNat body.nostrProof.createdAt ≤ nostrProofMaxAgeSecs
  tag : ["u", nostrProofUri] ∈ body.nostrProof.tags
  content : EvmAddress.parse (trim body.nostrProof.content) = .ok account
  parsed : SiweMessage.parse R.platform body.message = .ok siwe
  address : siwe.address = account
  accepted : ∃ config, R.config = some config ∧ VerifierAccepts R config body account
  domain : siwe.domain = hostDomain R.toLowercase (normalizeHost arrival.rawHost)
  resource : "nostr:" ++ npub ∈ siwe.resources
  window : siwe.validateWindow arrival.siweNow = .ok ()

/-- The invariant of the endpoints. -/
structure Sound (s₀ : Store) (x : Execution Reply Store Request Response) : Prop where
  nonces : ∀ nonce, completions R x nonce ≤ issuances x nonce
  /-- The account of a binding was there at first, or was written. -/
  written : ∀ c npub row, x.store.identities c npub = some row →
    (∃ row₀, s₀.identities c npub = some row₀ ∧ row₀.evmAddress = row.evmAddress) ∨
      ∃ e ∈ x.trace, ∃ att, e.statement = .upsertIdentity c npub row.evmAddress att
  carried : ∀ e ∈ x.trace, ∀ c npub account att,
    e.statement = .upsertIdentity c npub account att →
      ∃ arrival body siwe, e.request = .register arrival ∧
        Carries R arrival body siwe npub account ∧
        x.store.hosts (normalizeHost arrival.rawHost) = some c
  revoked : ∀ y ∈ x.answers, ∀ c npub account, y.result = .revoked c npub account →
    ∃ row, x.store.identities c npub = some row ∧ row.isRevoked = true

/-- What a revocation leaves behind, and which host a message names. -/
structure Final (x : Execution Reply Store Request Response) : Prop where
  gone : ∀ y ∈ x.answers, ∀ c npub account, y.result = .revoked c npub account →
    ∀ row, x.store.members c npub = some row → row.role = "owner"
  /-- The message of who writes a binding names the host of the community. -/
  named : ∀ e ∈ x.trace, ∀ c npub account att,
    e.statement = .upsertIdentity c npub account att →
      ∃ arrival body siwe, e.request = .register arrival ∧
        Carries R arrival body siwe npub account ∧ siwe.domain = normalizeHost arrival.rawHost

/-- The look at the binding has let the registration pass. -/
def passed (c : CommunityId) (npub : String) : (i : Statement) → Reply i → Bool
  | .isRevoked c' n, revoked => c' == c && n == npub && revoked != some true
  | _, _ => false

def removes (c : CommunityId) (npub : String) : Statement → Bool
  | .deleteMember c' n => c' == c && n == npub
  | _ => false

/-- Since this registration has passed the look at the binding, the membership was removed. -/
def removedSince (id : Nat) (c : CommunityId) (npub : String) :
    List (Performed Reply Request) → Bool
  | [] => false
  | e :: es =>
    (removes c npub e.statement && es.any fun f => f.id == id && passed c npub f.statement f.reply)
      || removedSince id c npub es

/-- The membership that a program is about to claim. -/
def claims : Handler → Option (CommunityId × String)
  | .perform (.claimMembership c npub _) _ => some (c, npub)
  | _ => none

/-- No registration claims a membership that was removed since it has passed the look at the
binding; and hosts have no port. -/
def inTurn (x : Execution Reply Store Request Response) : ProgramAction Request Outside → Bool
  | .start _ (.register arrival) =>
    hostDomain R.toLowercase (normalizeHost arrival.rawHost) == normalizeHost arrival.rawHost
  | .advance id =>
    x.running.all fun r =>
      r.id != id || (claims r.todo).all fun k => !removedSince id k.1 k.2 x.trace
  | _ => true

/-! ### What a registration carries -/

variable {R}

variable {account : EvmAddress}

theorem verifyNostrProof_ok {event : NostrEvent} {uri : String} {now : Int}
    (h : verifyNostrProof R event uri now = .ok account) :
    event.kind = nostrProofKind ∧ R.verifyEvent event = .ok () ∧
      absDiff now.toNat event.createdAt ≤ nostrProofMaxAgeSecs ∧ ["u", uri] ∈ event.tags ∧
      EvmAddress.parse (trim event.content) = .ok account := by
  rw [verifyNostrProof] at h
  split at h
  · cases h
  next hkind =>
  split at h
  · cases h
  next _ hsigned =>
  split at h
  · cases h
  split at h
  · cases h
  next hfresh =>
  split at h
  · cases h
  next htag =>
  refine ⟨not_ne_iff.mp hkind, hsigned, by omega, not_not.mp htag, ?_⟩
  cases hparse : EvmAddress.parse (trim event.content) with
  | error e =>
    rw [hparse] at h
    cases h
  | ok address =>
    rw [hparse] at h
    rw [Except.ok.inj h]

variable {siwe : SiweMessage}

theorem checkRequirements_ok {requirements : SiweRequirements}
    (h : siwe.checkRequirements requirements = .ok ()) : siwe.domain = requirements.domain := by
  rw [SiweMessage.checkRequirements] at h
  split at h
  · cases h
  · next hdomain => exact not_ne_iff.mp hdomain

variable {body : SiweRegisterRequest}

theorem verifyMessage_ok {host : String} {now : Int}
    (h : verifyMessage R host body now = .ok siwe) :
    SiweMessage.parse R.platform body.message = .ok siwe ∧
      (∃ config, R.config = some config ∧ VerifierAccepts R config body siwe.address) ∧
      siwe.domain = hostDomain R.toLowercase host ∧ siwe.validateWindow now = .ok () := by
  rw [verifyMessage] at h
  split at h
  · cases h
  next config hconfig =>
  split at h
  · next url hurl =>
    obtain ⟨validator, hvalidator, hverify⟩ := bind_ok_iff.mp h
    obtain ⟨message, hparse, hrest⟩ := bind_ok_iff.mp (mapError_ok_iff.mp hverify)
    obtain ⟨⟨⟩, hrequired, hrest⟩ := bind_ok_iff.mp hrest
    obtain ⟨accepted, hsigned, hrest⟩ := bind_ok_iff.mp hrest
    cases accepted with
    | false => cases hrest
    | true =>
      obtain ⟨⟨⟩, hwindow, hsame⟩ := bind_ok_iff.mp hrest
      cases hsame
      refine ⟨hparse, ⟨config, hconfig, ?_⟩, checkRequirements_ok hrequired, hwindow⟩
      rw [VerifierAccepts, hurl]
      exact ⟨validator, hvalidator, hsigned⟩
  · next hurl =>
    obtain ⟨message, hparse, hrest⟩ := bind_ok_iff.mp (mapError_ok_iff.mp h)
    obtain ⟨⟨⟩, hrequired, hrest⟩ := bind_ok_iff.mp hrest
    obtain ⟨recovered, hsigned, hrest⟩ := bind_ok_iff.mp hrest
    split at hrest
    · cases hrest
    next hsigner =>
    obtain ⟨⟨⟩, hwindow, hsame⟩ := bind_ok_iff.mp hrest
    cases hsame
    refine ⟨hparse, ⟨config, hconfig, ?_⟩, checkRequirements_ok hrequired, hwindow⟩
    rwa [VerifierAccepts, hurl, ← not_ne_iff.mp hsigner]

theorem carries_of_checkProofs {arrival : Registration} (hbody : arrival.body = .ok body)
    (h : checkProofs R (normalizeHost arrival.rawHost) body arrival = .ok siwe) :
    Carries R arrival body siwe (hexEncode body.nostrProof.pubkey.toList) siwe.address := by
  obtain ⟨account, hproof, hrest⟩ := bind_ok_iff.mp h
  obtain ⟨message, hmessage, hrest⟩ := bind_ok_iff.mp hrest
  split at hrest
  · cases hrest
  next haddress =>
  split at hrest
  · cases hrest
  next hresource =>
  cases hrest
  obtain ⟨hkind, hsigned, hfresh, htag, hcontent⟩ := verifyNostrProof_ok (mapError_ok_iff.mp hproof)
  obtain ⟨hparsed, haccepted, hdomain, hwindow⟩ := verifyMessage_ok hmessage
  rw [not_ne_iff.mp haddress] at hcontent
  exact ⟨hbody, rfl, hkind, hsigned, hfresh, htag, hcontent, hparsed, rfl, haccepted, hdomain,
    not_not.mp hresource, hwindow⟩

/-! ### What the requests do -/

-- Programs are compared without looking into the host.
attribute [local irreducible] normalizeHost

def finds (c : CommunityId) (npub : String) : (i : Statement) → Reply i → Bool
  | .getIdentity c' n, binding => c' == c && n == npub && binding.isSome
  | _, _ => false

def revokes (c : CommunityId) (npub : String) : Statement → Bool
  | .revokeIdentity c' n _ _ => c' == c && n == npub
  | _ => false

def claimsMember (c : CommunityId) (npub : String) : Statement → Bool
  | .claimMembership c' n _ => c' == c && n == npub
  | _ => false

theorem until_taken (nonce : String) (b : Request) :
    (handler R b).Until (fun i reply => taken nonce i reply = true) (fun _ => True)
      (fun result => result.isRegistered = true → siweNonce R b ≠ some nonce) := by
  cases b with
  | issueNonce n =>
    refine ⟨trivial, fun stored => .inr fun h => ?_⟩
    cases stored <;> cases h
  | revoke arrival =>
    refine until_revoke (fun _ h => ?_) (fun _ => trivial) (fun _ _ => trivial)
      fun c npub row account => .inr ?_
    · cases h
    · refine until_revokeBinding trivial (.inr ⟨trivial, .inr ⟨trivial, fun h => ?_⟩⟩)
      cases h
  | register arrival =>
    have hrefused : ∀ e, (Response.refused e).isRegistered = true →
        siweNonce R (.register arrival) ≠ some nonce := by
      intro e h
      cases h
    refine until_register hrefused (fun _ => trivial) (fun _ => trivial) (fun _ => trivial)
      fun c body siwe hbody hchecked => .inr ?_
    refine until_registerProven hrefused (fun _ => trivial) trivial fun _ handle _ => .inr ?_
    have hnonce : siweNonce R (.register arrival) = some siwe.nonce := by
      rw [siweNonce, hbody]
      have hparsed := (carries_of_checkProofs hbody hchecked).parsed
      simp [Except.toOption, hparsed]
    by_cases hsame : siwe.nonce = nonce
    · exact .inl (by rw [taken, hsame, beq_self_eq_true]; rfl)
    · refine .inr (until_provision (fun _ => trivial) trivial (fun _ _ => trivial) ?_)
      intro _ _ _ h
      rw [hnonce, Option.some.injEq] at h
      exact hsame h

theorem until_carries (b : Request) :
    (handler R b).Until (fun _ _ => False)
      (fun i => ∀ c npub account att, i = .upsertIdentity c npub account att →
        ∃ arrival body siwe, b = .register arrival ∧ Carries R arrival body siwe npub account)
      (fun _ => True) := by
  cases b with
  | issueNonce n => exact ⟨by simp, fun _ => .inr trivial⟩
  | revoke arrival =>
    refine until_revoke (fun _ => trivial) (by simp) (by simp) fun c npub row account => .inr ?_
    exact until_revokeBinding (by simp) (.inr ⟨by simp, .inr ⟨by simp, trivial⟩⟩)
  | register arrival =>
    refine until_register (fun _ => trivial) (by simp) (by simp) (by simp)
      fun c body siwe hbody hchecked => .inr ?_
    refine until_registerProven (fun _ => trivial) (by simp) (by simp) fun _ handle _ =>
      .inr (.inr (until_provision (by simp) ?_ (by simp) fun _ _ => trivial))
    intro c' npub account att hi
    obtain ⟨rfl, rfl, rfl, rfl⟩ := Statement.upsertIdentity.inj hi
    exact ⟨arrival, body, siwe, rfl, carries_of_checkProofs hbody hchecked⟩

/-- The host that a registration comes in on. -/
def hostOf : Request → String
  | .register arrival => normalizeHost arrival.rawHost
  | _ => ""

/-- The host was found to be that of the community. -/
def resolved (host : String) (c : CommunityId) : (i : Statement) → Reply i → Bool
  | .resolveHost h, community => h == host && community == some c
  | _, _ => false

theorem until_resolved (c : CommunityId) (b : Request) :
    (handler R b).Until (fun i reply => resolved (hostOf b) c i reply = true)
      (fun i => ∀ npub account att, i ≠ .upsertIdentity c npub account att) (fun _ => True) := by
  cases b with
  | issueNonce n => exact ⟨by simp, fun _ => .inr trivial⟩
  | revoke arrival =>
    refine until_revoke (fun _ => trivial) (by simp) (by simp) fun c npub row account => .inr ?_
    exact until_revokeBinding (by simp) (.inr ⟨by simp, .inr ⟨by simp, trivial⟩⟩)
  | register arrival =>
    refine until_register (fun _ => trivial) (by simp) (by simp) (by simp)
      fun c' body siwe hbody hchecked => ?_
    by_cases hc : c' = c
    · exact .inl (by simp [resolved, hostOf, hc])
    · refine .inr (until_registerProven (fun _ => trivial) (by simp) (by simp) fun _ handle _ =>
        .inr (.inr (until_provision (by simp) ?_ (by simp) fun _ _ => trivial)))
      intro npub account att hi
      exact hc (Statement.upsertIdentity.inj hi).1

theorem until_passed (c : CommunityId) (npub : String) (b : Request) :
    (handler R b).Until (fun i reply => passed c npub i reply = true)
      (fun i => claimsMember c npub i = false) (fun _ => True) := by
  cases b with
  | issueNonce n => exact ⟨rfl, fun _ => .inr trivial⟩
  | revoke arrival =>
    refine until_revoke (fun _ => trivial) (fun _ => rfl) (fun _ _ => rfl)
      fun c npub row account => .inr ?_
    exact until_revokeBinding rfl (.inr ⟨rfl, .inr ⟨rfl, trivial⟩⟩)
  | register arrival =>
    refine until_register (fun _ => trivial) (fun _ => rfl) (fun _ => rfl) (fun _ => rfl)
      fun c' body siwe hbody hchecked => .inr ?_
    refine until_registerProven (fun _ => trivial) (fun _ => rfl) rfl fun revoked handle hrevoked => ?_
    by_cases hkey : c' = c ∧ hexEncode body.nostrProof.pubkey.toList = npub
    · exact .inl (by simp [passed, hkey, hrevoked])
    · refine .inr (.inr ⟨?_, fun _ => .inr ⟨rfl, fun _ => .inr ?_⟩⟩)
      · show (c' == c && hexEncode body.nostrProof.pubkey.toList == npub) = false
        rw [Bool.and_eq_false_iff, beq_eq_false_iff_ne, beq_eq_false_iff_ne]
        exact not_and_or.mp hkey
      · cases handle with
        | none => trivial
        | some handle => exact ⟨rfl, fun _ => .inr trivial⟩

theorem until_found (c : CommunityId) (npub : String) (b : Request) :
    (handler R b).Until (fun i reply => finds c npub i reply = true)
      (fun i => revokes c npub i = false) (fun _ => True) := by
  cases b with
  | issueNonce n => exact ⟨rfl, fun _ => .inr trivial⟩
  | revoke arrival =>
    refine until_revoke (fun _ => trivial) (fun _ => rfl) (fun _ _ => rfl)
      fun c' npub' row account => ?_
    by_cases hkey : c' = c ∧ npub' = npub
    · exact .inl (by simp [finds, hkey])
    · refine .inr (until_revokeBinding ?_ (.inr ⟨rfl, .inr ⟨rfl, trivial⟩⟩))
      rw [revokes, Bool.and_eq_false_iff, beq_eq_false_iff_ne, beq_eq_false_iff_ne]
      exact not_and_or.mp hkey
  | register arrival =>
    refine until_register (fun _ => trivial) (fun _ => rfl) (fun _ => rfl) (fun _ => rfl)
      fun c' body siwe hbody hchecked => .inr ?_
    refine until_registerProven (fun _ => trivial) (fun _ => rfl) rfl fun _ handle _ => .inr (.inr ?_)
    exact until_provision (fun _ => rfl) rfl (fun _ _ => rfl) fun _ _ => trivial

theorem until_revokes (c : CommunityId) (npub : String) (b : Request) :
    (handler R b).Until (fun i _ => revokes c npub i = true)
      (fun i => removes c npub i = false) (fun _ => True) := by
  cases b with
  | issueNonce n => exact ⟨rfl, fun _ => .inr trivial⟩
  | revoke arrival =>
    refine until_revoke (fun _ => trivial) (fun _ => rfl) (fun _ _ => rfl)
      fun c' npub' row account => .inr ?_
    by_cases hkey : c' = c ∧ npub' = npub
    · exact until_revokeBinding rfl (.inl fun _ => by simp [revokes, hkey])
    · refine until_revokeBinding rfl (.inr ⟨?_, .inr ⟨rfl, trivial⟩⟩)
      rw [removes, Bool.and_eq_false_iff, beq_eq_false_iff_ne, beq_eq_false_iff_ne]
      exact not_and_or.mp hkey
  | register arrival =>
    refine until_register (fun _ => trivial) (fun _ => rfl) (fun _ => rfl) (fun _ => rfl)
      fun c' body siwe hbody hchecked => .inr ?_
    refine until_registerProven (fun _ => trivial) (fun _ => rfl) rfl fun _ handle _ => .inr (.inr ?_)
    exact until_provision (fun _ => rfl) rfl (fun _ _ => rfl) fun _ _ => trivial

theorem until_removes (c : CommunityId) (npub : String) (b : Request) :
    (handler R b).Until (fun i _ => removes c npub i = true) (fun _ => True)
      (fun result => ∀ account, result ≠ .revoked c npub account) := by
  cases b with
  | issueNonce n =>
    refine ⟨trivial, fun stored => .inr fun account h => ?_⟩
    cases stored <;> cases h
  | revoke arrival =>
    refine until_revoke nofun (fun _ => trivial) (fun _ _ => trivial)
      fun c' npub' row account => .inr (until_revokeBinding trivial (.inr ⟨trivial, ?_⟩))
    by_cases hkey : c' = c ∧ npub' = npub
    · exact .inl fun _ => by simp [removes, hkey]
    · refine .inr ⟨trivial, fun account' h => ?_⟩
      obtain ⟨rfl, rfl, -⟩ := Response.revoked.inj h
      exact hkey ⟨rfl, rfl⟩
  | register arrival =>
    refine until_register nofun (fun _ => trivial) (fun _ => trivial)
      (fun _ => trivial) fun c' body siwe hbody hchecked => .inr ?_
    refine until_registerProven nofun (fun _ => trivial) trivial
      fun _ handle _ => .inr (.inr ?_)
    exact until_provision (fun _ => trivial) trivial (fun _ _ => trivial) nofun

/-! ### Nonces -/

/-- A nonce is consumed only while it is there, and is there only once it was issued. -/
theorem nonces_exec (i : Statement) (s : Store) (nonce : String) :
    (taken nonce i (exec i s).2).toNat + ((exec i s).1.nonces nonce).toNat ≤
      (issued nonce i (exec i s).2).toNat + (s.nonces nonce).toNat := by
  have hkept : ∀ {s' : Store}, s'.nonces = s.nonces →
      false.toNat + (s'.nonces nonce).toNat ≤ false.toNat + (s.nonces nonce).toNat := by
    intro s' h
    rw [h]
  cases i with
  | takeNonce n =>
    by_cases hn : n = nonce
    · subst hn
      simp [exec, taken, issued, Store.setNonce]
    · simp [exec, taken, issued, Store.setNonce, hn, Ne.symm hn]
  | setNonce n =>
    by_cases hthere : s.nonces n = true
    · simp [exec, taken, issued, hthere]
    · by_cases hn : n = nonce
      · subst hn
        simp [exec, taken, issued, hthere, Store.setNonce]
      · simp [exec, taken, issued, hthere, Store.setNonce, Ne.symm hn]
  | claimMembership c npub role =>
    refine hkept ?_
    rw [exec, Store.claimMembership]
    split <;> rfl
  | upsertIdentity c npub address att =>
    refine hkept ?_
    dsimp only [exec, Store.upsertIdentity]
    split <;> rfl
  | revokeIdentity c npub revokedBy reason =>
    refine hkept ?_
    rw [exec, Store.revokeIdentity]
    split
    · rfl
    · split <;> rfl
  | deleteMember c npub =>
    refine hkept ?_
    rw [exec, Store.deleteMember]
    split
    · rfl
    · split <;> rfl
  | _ => exact hkept rfl

def takings (x : Execution Reply Store Request Response) (nonce : String) : Nat :=
  x.trace.countP fun e => taken nonce e.statement e.reply

variable {x x' : Execution Reply Store Request Response}

variable {a : ProgramAction Request Outside} {nonce : String}

theorem takings_step (h : takings x nonce + (x.store.nonces nonce).toNat ≤ issuances x nonce)
    (hs : x.step semantics (handler R) a = some x') :
    takings x' nonce + (x'.store.nonces nonce).toNat ≤ issuances x' nonce := by
  obtain ⟨id, request, -, -, rfl⟩ | ⟨r, -, -, result, -, rfl⟩ | ⟨r, -, -, i, next, -, rfl⟩ |
    ⟨id, -, rfl⟩ | ⟨event, -, rfl⟩ := Execution.step_cases hs
  · exact h
  · exact h
  · have hexec : (taken nonce i (semantics.exec i x.store).2).toNat +
          ((semantics.exec i x.store).1.nonces nonce).toNat ≤
        (issued nonce i (semantics.exec i x.store).2).toNat + (x.store.nonces nonce).toNat :=
      nonces_exec i x.store nonce
    have hcount : ∀ b : Bool, (if b = true then 1 else 0) = b.toNat := by decide
    rw [takings, issuances] at h ⊢
    simp only [Execution.performs, List.countP_cons, hcount]
    omega
  · exact h
  · cases event with
    | expireNonce n =>
      have hless : ((x.store.setNonce n false).nonces nonce).toNat ≤
          (x.store.nonces nonce).toNat := by
        by_cases hn : nonce = n
        · simp [Store.setNonce, hn]
        · simp [Store.setNonce, hn]
      exact (Nat.add_le_add_left hless _).trans h
    | expireRate npub | tick now => exact h

theorem completions_le_takings (h : (evm R).Reachable x) (nonce : String) :
    completions R x nonce ≤ takings x nonce := by
  have hkept := abides_of_reachable (until_taken (R := R) nonce) h
  have hapart := apart_of_reachable h
  have hids : (x.answers.filter (completes R nonce)).map Answered.id ⊆
      (x.trace.filter fun e => taken nonce e.statement e.reply).map Performed.id := by
    intro id hid
    obtain ⟨y, hy, rfl⟩ := List.mem_map.mp hid
    obtain ⟨hy, hregistered⟩ := List.mem_filter.mp hy
    rw [completes, Bool.and_eq_true, beq_iff_eq] at hregistered
    obtain ⟨e, he, hid, htaken⟩ :=
      (hkept.answers y hy).resolve_right fun hno => hno hregistered.1 hregistered.2
    exact List.mem_map.mpr ⟨e, List.mem_filter.mpr ⟨he, htaken⟩, hid⟩
  have hnodup : ((x.answers.filter (completes R nonce)).map Answered.id).Nodup :=
    (List.nodup_append.mp hapart.nodup).2.1.sublist (List.filter_sublist.map _)
  have hlength := (hnodup.subperm hids).length_le
  rw [List.length_map, List.length_map] at hlength
  rwa [completions, takings, List.countP_eq_length_filter, List.countP_eq_length_filter]

/-- **Nonces** complete one registration at most each time they are issued. -/
theorem completions_le_issuances (h : (evm R).Reachable x) (nonce : String) :
    completions R x nonce ≤ issuances x nonce := by
  have hissued : takings x nonce + (x.store.nonces nonce).toNat ≤ issuances x nonce := by
    refine h.invariant (I := fun y => takings y nonce + (y.store.nonces nonce).toNat ≤
      issuances y nonce) (fun y hinit => ?_) fun y a y' _ hy hs => takings_step hy hs
    obtain ⟨hnonces, -, htrace, -, -⟩ := hinit
    rw [takings, issuances, htrace, hnonces]
    exact Nat.le_refl _
  have htaken := completions_le_takings h nonce
  omega

/-! ### Bindings -/

/-- What the statements that were performed say about the rows. -/
structure Rows (x : Execution Reply Store Request Response) : Prop where
  hosts : ∀ e ∈ x.trace, ∀ host c, resolved host c e.statement e.reply = true →
    x.store.hosts host = some c
  found : ∀ e ∈ x.trace, ∀ c npub, finds c npub e.statement e.reply = true →
    ∃ row, x.store.identities c npub = some row
  revoked : ∀ e ∈ x.trace, ∀ c npub, revokes c npub e.statement = true →
    ∃ row, x.store.identities c npub = some row ∧ row.isRevoked = true

variable {i : Statement} {s : Store} {c : CommunityId}

theorem hosts_of_resolved {host : String} (h : resolved host c i (exec i s).2 = true) :
    s.hosts host = some c := by
  cases i with
  | resolveHost h' =>
    have hboth : (h' == host && s.hosts h' == some c) = true := h
    rw [Bool.and_eq_true, beq_iff_eq, beq_iff_eq] at hboth
    rw [← hboth.1]
    exact hboth.2
  | _ => cases h

variable {npub : String}

theorem identities_of_found (h : finds c npub i (exec i s).2 = true) :
    ∃ row, (exec i s).1.identities c npub = some row := by
  cases i with
  | getIdentity c' n =>
    have hall : (c' == c && n == npub && (s.identities c' n).isSome) = true := h
    rw [Bool.and_eq_true, Bool.and_eq_true, beq_iff_eq, beq_iff_eq] at hall
    obtain ⟨⟨rfl, rfl⟩, hsome⟩ := hall
    exact Option.isSome_iff_exists.mp hsome
  | _ => cases h

theorem eq_of_revokes (h : revokes c npub i = true) :
    ∃ revokedBy reason, i = .revokeIdentity c npub revokedBy reason := by
  cases i with
  | revokeIdentity c' n revokedBy reason =>
    have hboth : (c' == c && n == npub) = true := h
    rw [Bool.and_eq_true, beq_iff_eq, beq_iff_eq] at hboth
    obtain ⟨rfl, rfl⟩ := hboth
    exact ⟨revokedBy, reason, rfl⟩
  | _ => cases h

theorem eq_of_removes (h : removes c npub i = true) : i = .deleteMember c npub := by
  cases i with
  | deleteMember c' n =>
    have hboth : (c' == c && n == npub) = true := h
    rw [Bool.and_eq_true, beq_iff_eq, beq_iff_eq] at hboth
    obtain ⟨rfl, rfl⟩ := hboth
    rfl
  | _ => cases h

theorem Rows.step (h : Rows x)
    (hfound : ∀ c npub, Abides (fun _ i reply => finds c npub i reply = true)
      (fun _ i => revokes c npub i = false) (fun _ _ => True) x)
    (hs : x.step semantics (handler R) a = some x') : Rows x' := by
  obtain ⟨id, request, -, -, rfl⟩ | ⟨r, -, -, result, -, rfl⟩ | ⟨r, hr, -, i, next, htodo, rfl⟩ |
    ⟨id, -, rfl⟩ | ⟨event, -, rfl⟩ := Execution.step_cases hs
  · exact ⟨h.hosts, h.found, h.revoked⟩
  · exact ⟨h.hosts, h.found, h.revoked⟩
  · refine ⟨fun e he host c hresolved => ?_, fun e he c npub hf => ?_, fun e he c npub hrev => ?_⟩
    · show (exec i x.store).1.hosts host = some c
      rw [hosts_exec]
      obtain rfl | he := List.mem_cons.mp he
      · exact hosts_of_resolved hresolved
      · exact h.hosts e he host c hresolved
    · obtain rfl | he := List.mem_cons.mp he
      · exact identities_of_found hf
      · obtain ⟨row, hrow⟩ := h.found e he c npub hf
        obtain ⟨row', hrow', -⟩ := identity_kept hrow i
        exact ⟨row', hrow'⟩
    · obtain rfl | he := List.mem_cons.mp he
      · obtain ⟨revokedBy, reason, rfl⟩ := eq_of_revokes hrev
        have hnext := (hfound c npub).running r hr
        rw [htodo] at hnext
        obtain ⟨f, hf, -, hfound⟩ := hnext.resolve_right fun hno =>
          nomatch (hno.1.symm.trans hrev)
        obtain ⟨row, hrow⟩ := h.found f hf c npub hfound
        exact revoked_revokeIdentity hrow revokedBy reason
      · obtain ⟨row, hrow, hrevoked⟩ := h.revoked e he c npub hrev
        obtain ⟨row', hrow', hkept⟩ := identity_kept hrow i
        exact ⟨row', hrow', hkept hrevoked⟩
  · exact ⟨h.hosts, h.found, h.revoked⟩
  · cases event with
    | expireNonce n | expireRate npub | tick now => exact ⟨h.hosts, h.found, h.revoked⟩

theorem rows_of_reachable (h : (evm R).Reachable x) : Rows x := by
  refine h.invariant (I := Rows) (fun y hinit => ?_) fun y a y' hreach hy hs =>
    hy.step (fun c npub => abides_of_reachable (until_found (R := R) c npub) hreach) hs
  obtain ⟨-, -, htrace, -, -⟩ := hinit
  have hno : ∀ e, e ∉ y.trace := fun e he => nomatch (htrace ▸ he)
  exact ⟨fun e he => absurd he (hno e), fun e he => absurd he (hno e),
    fun e he => absurd he (hno e)⟩

variable {e : Performed Reply Request}

theorem revoked_of_removes (h : (evm R).Reachable x) (he : e ∈ x.trace)
    (hremoves : removes c npub e.statement = true) :
    ∃ row, x.store.identities c npub = some row ∧ row.isRevoked = true := by
  have hkept := abides_of_reachable (until_revokes (R := R) c npub) h
  obtain ⟨f, hf, -, hrevokes⟩ := (hkept.trace e he).resolve_right fun hno =>
    nomatch (hno.symm.trans hremoves)
  exact (rows_of_reachable h).revoked f hf c npub hrevokes

theorem removes_of_answer (h : (evm R).Reachable x) {y : Answered Request Response}
    (hy : y ∈ x.answers) (hresult : y.result = .revoked c npub account) :
    ∃ e ∈ x.trace, removes c npub e.statement = true := by
  have hkept := abides_of_reachable (until_removes (R := R) c npub) h
  obtain ⟨e, he, -, hremoves⟩ := (hkept.answers y hy).resolve_right fun hno => hno account hresult
  exact ⟨e, he, hremoves⟩

theorem written_step {s₀ : Store}
    (h : ∀ c npub row, x.store.identities c npub = some row →
      (∃ row₀, s₀.identities c npub = some row₀ ∧ row₀.evmAddress = row.evmAddress) ∨
      ∃ e ∈ x.trace, ∃ att, e.statement = .upsertIdentity c npub row.evmAddress att)
    (hs : x.step semantics (handler R) a = some x') (c : CommunityId) (npub : String)
    (row : EvmIdentity) (hrow : x'.store.identities c npub = some row) :
    (∃ row₀, s₀.identities c npub = some row₀ ∧ row₀.evmAddress = row.evmAddress) ∨
      ∃ e ∈ x'.trace, ∃ att, e.statement = .upsertIdentity c npub row.evmAddress att := by
  have hgrow : ∀ {row : EvmIdentity},
      (∃ e ∈ x.trace, ∃ att, e.statement = .upsertIdentity c npub row.evmAddress att) →
        ∃ e ∈ x'.trace, ∃ att, e.statement = .upsertIdentity c npub row.evmAddress att :=
    fun ⟨e, he, hatt⟩ => ⟨e, trace_subset hs he, hatt⟩
  obtain ⟨id, request, -, -, rfl⟩ | ⟨r, -, -, result, -, rfl⟩ | ⟨r, -, -, i, next, -, rfl⟩ |
    ⟨id, -, rfl⟩ | ⟨event, -, rfl⟩ := Execution.step_cases hs
  · exact h c npub row hrow
  · exact h c npub row hrow
  · obtain hsame | ⟨account, att, rfl, row', hrow', rfl, -⟩ |
      ⟨_, _, old, row', -, hold, hrow', haddress, -⟩ := identities_exec i x.store c npub
    · exact (h c npub row (hsame.symm.trans hrow)).imp_right hgrow
    · obtain rfl := Option.some.inj (hrow'.symm.trans hrow)
      exact .inr ⟨_, List.mem_cons_self, att, rfl⟩
    · obtain rfl := Option.some.inj (hrow'.symm.trans hrow)
      rw [haddress]
      exact (h c npub old hold).imp_right hgrow
  · exact h c npub row hrow
  · cases event with
    | expireNonce n | expireRate n | tick now => exact h c npub row hrow

theorem carried_of_reachable (h : (evm R).Reachable x) (he : e ∈ x.trace) {att : Option Json}
    (hstatement : e.statement = .upsertIdentity c npub account att) :
    ∃ arrival body siwe, e.request = .register arrival ∧
      Carries R arrival body siwe npub account := by
  have hkept := abides_of_reachable (until_carries (R := R)) h
  obtain ⟨-, -, -, hfalse⟩ | hcarries := hkept.trace e he
  · exact hfalse.elim
  · exact hcarries c npub account att hstatement

/-- **Every run is sound.** -/
theorem sound {x₀ : Execution Reply Store Request Response}
    {as : List (ProgramAction Request Outside)} (h0 : (evm R).Init x₀)
    (h : (evm R).run x₀ as = some x) : Sound R x₀.store x := by
  have hreach : (evm R).Reachable x := ⟨x₀, as, h0, h⟩
  refine ⟨completions_le_issuances hreach, ?_, fun e he c npub account att hstatement => ?_,
    fun y hy c npub account hresult => ?_⟩
  · refine StateMachine.run_preserves (M := evm R) (I := fun y => ∀ c npub row,
      y.store.identities c npub = some row →
        (∃ row₀, x₀.store.identities c npub = some row₀ ∧ row₀.evmAddress = row.evmAddress) ∨
          ∃ e ∈ y.trace, ∃ att, e.statement = .upsertIdentity c npub row.evmAddress att)
      (fun y a y' hy hs => written_step hy hs) h ?_
    exact fun c npub row hrow => .inl ⟨row, hrow, rfl⟩
  · obtain ⟨arrival, body, siwe, hrequest, hcarries⟩ := carried_of_reachable hreach he hstatement
    have hkept := abides_of_reachable (until_resolved (R := R) c) hreach
    obtain ⟨f, hf, -, hresolved⟩ := (hkept.trace e he).resolve_right fun hno =>
      hno npub account att hstatement
    have hhost := (rows_of_reachable hreach).hosts f hf _ c hresolved
    rw [hrequest] at hhost
    exact ⟨arrival, body, siwe, hrequest, hcarries, hhost⟩
  · obtain ⟨e, he, hremoves⟩ := removes_of_answer hreach hy hresult
    exact revoked_of_removes hreach he hremoves

/-! ### Runs that are in turn -/

/-- Once the membership was removed, it is gone, and no registration is on its way to claim it
again. -/
def Gone (c : CommunityId) (npub : String) (x : Execution Reply Store Request Response) : Prop :=
  (∃ e ∈ x.trace, removes c npub e.statement = true) →
    (∀ row, x.store.members c npub = some row → row.role = "owner") ∧
    ∀ r ∈ x.running,
      r.todo.Until (fun i reply => passed c npub i reply = true)
          (fun i => claimsMember c npub i = false) (fun _ => True) ∨
        removedSince r.id c npub x.trace = true

theorem removedSince_cons {id : Nat} {es : List (Performed Reply Request)}
    (h : removedSince id c npub es = true) : removedSince id c npub (e :: es) = true := by
  rw [removedSince, h, Bool.or_true]

variable {r : Running Reply Request Response} {next : Bool → Handler}

theorem not_claims_of_inTurn {role : String} (h : inTurn R x (.advance r.id) = true)
    (hr : r ∈ x.running) (htodo : r.todo = .perform (.claimMembership c npub role) next) :
    removedSince r.id c npub x.trace = false := by
  have hall := List.all_eq_true.mp h r hr
  rw [bne_self_eq_false, Bool.false_or, htodo] at hall
  exact Bool.not_eq_true' _ |>.mp hall

theorem not_passed {row : EvmIdentity} (hrow : s.identities c npub = some row)
    (hrevoked : row.isRevoked = true) : passed c npub i (exec i s).2 = false := by
  cases i with
  | isRevoked c' n =>
    show (c' == c && n == npub && (s.identities c' n).map (·.isRevoked) != some true) = false
    by_cases hkey : c' = c ∧ n = npub
    · obtain ⟨rfl, rfl⟩ := hkey
      rw [hrow, Option.map_some, hrevoked]
      simp
    · have hother : (c' == c && n == npub) = false := by
        rw [Bool.and_eq_false_iff, beq_eq_false_iff_ne, beq_eq_false_iff_ne]
        exact not_and_or.mp hkey
      simp [hother]
  | _ => rfl

theorem Gone.removed
    (hkept : Abides (fun _ i reply => passed c npub i reply = true)
      (fun _ i => claimsMember c npub i = false) (fun _ _ => True)
      (x.performs semantics r (.deleteMember c npub) next)) :
    Gone c npub (x.performs semantics r (.deleteMember c npub) next) := by
  refine fun _ => ⟨fun row hrow => members_deleteMember hrow, fun s hs => ?_⟩
  obtain ⟨f, hf, hid, hpassed⟩ | huntil := hkept.running s hs
  · right
    have hf : f ∈ x.trace := by
      obtain rfl | hf := List.mem_cons.mp hf
      · cases hpassed
      · exact hf
    have hany : (x.trace.any fun f => f.id == s.id && passed c npub f.statement f.reply) = true :=
      List.any_eq_true.mpr ⟨f, hf, by rw [hid, beq_self_eq_true, hpassed]; rfl⟩
    rw [Execution.performs, removedSince, hany]
    simp [removes]
  · exact .inl huntil

theorem Gone.step (hreach : (evm R).Reachable x) (h : Gone c npub x) (hturn : inTurn R x a = true)
    (hs : (evm R).step x a = some x') : Gone c npub x' := by
  have hkept := abides_of_reachable (until_passed (R := R) c npub) (hreach.step hs)
  obtain ⟨id, request, -, -, rfl⟩ | ⟨r, -, -, result, -, rfl⟩ | ⟨r, hr, rfl, i, next, htodo, rfl⟩ |
    ⟨id, -, rfl⟩ | ⟨event, -, rfl⟩ := Execution.step_cases hs
  · intro hremoved
    obtain ⟨hmembers, hrunning⟩ := h hremoved
    refine ⟨hmembers, fun s hs => ?_⟩
    obtain rfl | hs := List.mem_cons.mp hs
    · exact .inl (until_passed c npub request)
    · exact hrunning s hs
  · intro hremoved
    obtain ⟨hmembers, hrunning⟩ := h hremoved
    exact ⟨hmembers, fun s hs => hrunning s (Execution.mem_others.mp hs).1⟩
  · by_cases hremoves : removes c npub i = true
    · obtain rfl := eq_of_removes hremoves
      exact Gone.removed hkept
    · intro hremoved
      have hbefore : ∃ e ∈ x.trace, removes c npub e.statement = true := by
        obtain ⟨e, he, hremoved⟩ := hremoved
        obtain rfl | he := List.mem_cons.mp he
        · exact absurd hremoved hremoves
        · exact ⟨e, he, hremoved⟩
      obtain ⟨hmembers, hrunning⟩ := h hbefore
      obtain ⟨e, he, hremoved⟩ := hbefore
      obtain ⟨row, hrow, hrevoked⟩ := revoked_of_removes hreach he hremoved
      refine ⟨fun member hmember => ?_, fun s hs => ?_⟩
      · obtain hsame | ⟨role, rfl⟩ | ⟨rfl, -⟩ := members_exec i x.store c npub
        · exact hmembers member (hsame.symm.trans hmember)
        · have hsince := not_claims_of_inTurn hturn hr htodo
          have huntil := (hrunning r hr).resolve_right fun hno =>
            nomatch (hsince.symm.trans hno)
          rw [htodo] at huntil
          have hclaims : claimsMember c npub (.claimMembership c npub role) = true := by
            simp [claimsMember]
          nomatch (huntil.1.symm.trans hclaims)
        · exact absurd (by simp [removes]) hremoves
      · obtain rfl | hs := List.mem_cons.mp hs
        · obtain huntil | hsince := hrunning r hr
          · rw [htodo] at huntil
            refine .inl ((huntil.2 _).resolve_left fun hpassed => ?_)
            nomatch ((not_passed hrow hrevoked).symm.trans hpassed)
          · exact .inr (removedSince_cons hsince)
        · exact (hrunning s (Execution.mem_others.mp hs).1).imp_right removedSince_cons
  · intro hremoved
    obtain ⟨hmembers, hrunning⟩ := h hremoved
    exact ⟨hmembers, fun s hs => hrunning s (Execution.mem_others.mp hs).1⟩
  · cases event with
    | expireNonce n | expireRate n | tick now => exact h

/-- The host of a registration has no port. -/
def Portless (R : Relay Sig VerifyingKey) (b : Request) : Prop :=
  ∀ arrival, b = .register arrival →
    hostDomain R.toLowercase (normalizeHost arrival.rawHost) = normalizeHost arrival.rawHost

/-- The hosts of all registrations have no port. -/
structure AllPortless (R : Relay Sig VerifyingKey)
    (x : Execution Reply Store Request Response) : Prop where
  running : ∀ r ∈ x.running, Portless R r.request
  trace : ∀ e ∈ x.trace, Portless R e.request

theorem AllPortless.step (h : AllPortless R x) (hturn : inTurn R x a = true)
    (hs : x.step semantics (handler R) a = some x') : AllPortless R x' := by
  obtain ⟨id, request, rfl, -, rfl⟩ | ⟨r, -, -, result, -, rfl⟩ | ⟨r, hr, -, i, next, -, rfl⟩ |
    ⟨id, -, rfl⟩ | ⟨event, -, rfl⟩ := Execution.step_cases hs
  · refine ⟨fun s hs => ?_, h.trace⟩
    obtain rfl | hs := List.mem_cons.mp hs
    · rintro arrival rfl
      exact eq_of_beq hturn
    · exact h.running s hs
  · exact ⟨fun s hs => h.running s (Execution.mem_others.mp hs).1, h.trace⟩
  · refine ⟨fun s hs => ?_, fun e he => ?_⟩
    · obtain rfl | hs := List.mem_cons.mp hs
      · exact h.running r hr
      · exact h.running s (Execution.mem_others.mp hs).1
    · obtain rfl | he := List.mem_cons.mp he
      · exact h.running r hr
      · exact h.trace e he
  · exact ⟨fun s hs => h.running s (Execution.mem_others.mp hs).1, h.trace⟩
  · exact ⟨h.running, h.trace⟩

theorem final_of_inTurn (h : ((evm R).guard fun x a => inTurn R x a = true).Reachable x) :
    Final R x := by
  have hall : (evm R).Reachable x ∧ AllPortless R x ∧ ∀ c npub, Gone c npub x := by
    refine StateMachine.reachable_guard (M := evm R)
      (I := fun y => (evm R).Reachable y ∧ AllPortless R y ∧ ∀ c npub, Gone c npub y)
      (fun y hinit => ?_) (fun y a y' hy hturn hs => ?_) h
    · obtain ⟨-, hrunning, htrace, -, -⟩ := id hinit
      have hnotrace : ∀ e, e ∉ y.trace := fun e he => nomatch (htrace ▸ he)
      refine ⟨.init hinit, ⟨fun r hr => absurd (hrunning ▸ hr) List.not_mem_nil,
        fun e he => absurd he (hnotrace e)⟩, fun c npub hremoved => ?_⟩
      obtain ⟨e, he, -⟩ := hremoved
      exact absurd he (hnotrace e)
    · obtain ⟨hreach, hportless, hgone⟩ := hy
      exact ⟨hreach.step hs, hportless.step hturn hs,
        fun c npub => Gone.step hreach (hgone c npub) hturn hs⟩
  obtain ⟨hreach, hportless, hgone⟩ := hall
  refine ⟨fun y hy c npub account hresult => ?_, fun e he c npub account att hstatement => ?_⟩
  · exact (hgone c npub (removes_of_answer hreach hy hresult)).1
  · obtain ⟨arrival, body, siwe, hrequest, hcarries⟩ := carried_of_reachable hreach he hstatement
    refine ⟨arrival, body, siwe, hrequest, hcarries, ?_⟩
    rw [hcarries.domain]
    exact hportless.trace e he arrival hrequest

/-- **Bindings are for good.** In every run, nonces are good for one registration, a binding is
written only by who carries what it takes, and a revoked one stays revoked. In every run in which no
registration claims a membership that was removed since it passed the look at the binding, and in
which hosts have no port, a revocation leaves no membership behind, and messages name the host. -/
theorem bindings_final {x₀ : Execution Reply Store Request Response}
    {as : List (ProgramAction Request Outside)} (h0 : (evm R).Init x₀)
    (h : (evm R).run x₀ as = some x) :
    Sound R x₀.store x ∧
      (((evm R).guard fun x a => inTurn R x a = true).run x₀ as = some x → Final R x) :=
  ⟨sound h0 h, fun hturn => final_of_inTurn ⟨x₀, as, h0, hturn⟩⟩

/-! ### A key that was revoked is a member again -/

def onePlatform : Platform (List UInt8) Unit :=
  { examplePlatform (Vector.replicate 32 0) with
    parseRfc3339 := fun _ => some 0
    recoverFromPrehash := fun _ sig _ => if sig = exampleSig then .ok () else .error "no signature" }

def oneRelay : Relay (List UInt8) Unit where
  config := some ⟨some 8453, none, none, false⟩
  platform := onePlatform
  verifyEvent _ := .ok ()
  fromValue _ := .error "no attestation"
  toLowercase := toAsciiLowercase

def oneKey : Vector UInt8 32 := Vector.replicate 32 42

/-- The lines of a message of the account, with this nonce. -/
def scanWith (nonce : String) : Scan where
  domain := "relay.example"
  line := exampleAccount.toHex
  statement := []
  uri := "https://relay.example"
  version := "1"
  chain := "8453"
  nonce := nonce
  issued := "1970-01-01T00:00:00Z"
  tail := resourceLines (some ["nostr:" ++ hexEncode oneKey.toList])

def messageWith (nonce : String) : String := joinLines (scanWith nonce).lines

def proofFor (uri : String) : NostrEvent :=
  ⟨"event", oneKey, 0, nostrProofKind, [["u", uri]], exampleAccount.toHex, "signature"⟩

def registerWith (nonce : String) : Request :=
  .register ⟨"relay.example", .ok ⟨messageWith nonce, hexEncode (exampleSig ++ [27]),
    proofFor nostrProofUri, none, none⟩, 0, 0, 0⟩

def revokeKey : Request := .revoke ⟨"relay.example", .ok (proofFor revokeProofUri), 0⟩

def oneStart : Execution Reply Store Request Response where
  store :=
    { hosts := fun host => if host = "relay.example" then some 0 else none
      members := fun _ _ => none
      identities := fun _ _ => none
      nip05 := fun _ _ => none
      nonces := fun _ => false
      rate := fun _ => 0
      clock := 0 }
  running := []
  trace := []
  answers := []
  begun := []

/-- A request comes in and takes so many steps. -/
def handled (id : Nat) (request : Request) (steps : Nat) : List (ProgramAction Request Outside) :=
  .start id request :: List.replicate steps (.advance id)

/-- The key registers, and is revoked. -/
def calmRun : List (ProgramAction Request Outside) :=
  handled 0 (.issueNonce "firstnonce") 2 ++ handled 1 (registerWith "firstnonce") 8 ++
    handled 2 revokeKey 5

/-- The key registers again. This passes the look at the binding, and goes on after the
revocation. -/
def racingRun : List (ProgramAction Request Outside) :=
  handled 0 (.issueNonce "firstnonce") 2 ++ handled 1 (registerWith "firstnonce") 8 ++
    handled 2 (.issueNonce "secondnonce") 2 ++ handled 3 (registerWith "secondnonce") 3 ++
    handled 4 revokeKey 5 ++ List.replicate 4 (.advance 3)

/-- The revocation of the key was answered. -/
def keyRevoked (x : Execution Reply Store Request Response) : Bool :=
  x.answers.any fun y =>
    match y.result with
    | .revoked c npub account =>
      c == 0 && npub == hexEncode oneKey.toList && account == exampleAccount
    | _ => false

def keyMember (x : Execution Reply Store Request Response) : Bool :=
  x.store.members 0 (hexEncode oneKey.toList) == some ⟨"member", some "evm_siwe"⟩

/-- The body of the registration with a nonce. -/
def bodyWith (nonce : String) : SiweRegisterRequest :=
  ⟨messageWith nonce, hexEncode (exampleSig ++ [27]), proofFor nostrProofUri, none, none⟩

def arrivalWith (nonce : String) : Registration := ⟨"relay.example", .ok (bodyWith nonce), 0, 0, 0⟩

def siweWith (nonce : String) : SiweMessage :=
  ⟨"relay.example", exampleAccount, none, "https://relay.example", 1, 8453, nonce, 0, none, none, none,
    ["nostr:" ++ hexEncode oneKey.toList]⟩

theorem texts_one :
    EvmAddress.parse exampleAccount.toHex = .ok exampleAccount ∧
    normalizeHost "relay.example" = "relay.example" ∧
    hostDomain toAsciiLowercase "relay.example" = "relay.example" ∧
    verifyNostrProof oneRelay (proofFor nostrProofUri) nostrProofUri 0 = .ok exampleAccount := by
  decide +kernel

/-- The lines with the nonce are those of a message. -/
structure IsNonce (nonce : String) : Prop where
  reads : (scanWith nonce).Reads onePlatform exampleAccount 8453 0
  oneLine : ∀ l ∈ (scanWith nonce).lines, OneLine l

theorem parse_messageWith (h : IsNonce nonce) :
    SiweMessage.parse onePlatform (messageWith nonce) = .ok (siweWith nonce) :=
  parse_eq_ok_iff.mpr ⟨scanWith nonce, exampleAccount, 8453, 0,
    (splitLines_joinLines (List.cons_ne_nil _ _)).trans (flatMap_splitLines h.oneLine), h.reads,
    takeOptional_resource onePlatform _ _⟩

theorem recoverSiweSigner_one (message : String) :
    recoverSiweSigner onePlatform message (hexEncode (exampleSig ++ [27])) = .ok exampleAccount := by
  have hpre : stripPrefix (hexEncode (exampleSig ++ [27])) "0x" = none := by
    rw [stripPrefix, hexEncode, String.toList_ofList]
    decide
  have hsignature : parseSignature (hexEncode (exampleSig ++ [27])) =
      .ok ⟨(exampleSig ++ [27]).toArray, rfl⟩ := by
    rw [parseSignature, hpre, Option.getD_none, hexDecode_hexEncode]
    rfl
  rw [recoverSiweSigner, hsignature]
  rfl

theorem verifyMessage_bodyWith (h : IsNonce nonce) :
    verifyMessage oneRelay "relay.example" (bodyWith nonce) 0 = .ok (siweWith nonce) := by
  have hdomain : hostDomain oneRelay.toLowercase "relay.example" = "relay.example" :=
    texts_one.2.2.1
  have hrequired : (siweWith nonce).checkRequirements
      ⟨hostDomain oneRelay.toLowercase "relay.example", some 8453⟩ = .ok () := by
    rw [hdomain]
    rfl
  have hparse : SiweMessage.parse oneRelay.platform (bodyWith nonce).message =
      .ok (siweWith nonce) := parse_messageWith h
  have hsigned : recoverSiweSigner oneRelay.platform (bodyWith nonce).message
      (bodyWith nonce).signature = .ok (siweWith nonce).address := recoverSiweSigner_one _
  have hconfig : oneRelay.config = some ⟨some 8453, none, none, false⟩ := rfl
  have hwindow : (siweWith nonce).validateWindow 0 = .ok () := rfl
  exact verifyMessage_eq_ok hconfig rfl hparse hrequired hsigned hwindow

theorem handler_registerWith (h : IsNonce nonce) :
    handler oneRelay (registerWith nonce) =
      registerChecked oneRelay "relay.example" (bodyWith nonce) (arrivalWith nonce)
        (siweWith nonce) := by
  obtain ⟨-, hnormal, -, hverified⟩ := texts_one
  have hhost : normalizeHost (arrivalWith nonce).rawHost = "relay.example" := hnormal
  have hnonempty : "relay.example".isEmpty = false := by decide
  have hproof : verifyNostrProof oneRelay (bodyWith nonce).nostrProof nostrProofUri
      (arrivalWith nonce).proofNow = .ok (siweWith nonce).address := hverified
  have hresource : "nostr:" ++ hexEncode (bodyWith nonce).nostrProof.pubkey.toList ∈
      (siweWith nonce).resources := List.mem_cons_self
  have hbody : (arrivalWith nonce).body = .ok (bodyWith nonce) := rfl
  have hrequest : registerWith nonce = .register (arrivalWith nonce) := rfl
  rw [hrequest, handler]
  exact register_eq_registerChecked hbody hhost hnonempty
    (checkProofs_eq_ok hproof (verifyMessage_bodyWith h) hresource)

/-- The key's registration has come in, its proofs checked. -/
def started (x : Execution Reply Store Request Response) (id : Nat) (nonce : String) :
    Option (Execution Reply Store Request Response) :=
  if id ∈ x.begun then none
  else
    some
      { x with
        running := ⟨id, registerWith nonce, registerChecked oneRelay "relay.example"
          (bodyWith nonce) (arrivalWith nonce) (siweWith nonce)⟩ :: x.running
        begun := id :: x.begun }

theorem step_registerWith (h : IsNonce nonce) (x : Execution Reply Store Request Response)
    (id : Nat) : (evm oneRelay).step x (.start id (registerWith nonce)) = started x id nonce := by
  rw [started, ← handler_registerWith h]
  rfl

theorem guard_step_registerWith (h : IsNonce nonce) (x : Execution Reply Store Request Response)
    (id : Nat) :
    ((evm oneRelay).guard fun x a => inTurn oneRelay x a = true).step x
      (.start id (registerWith nonce)) = started x id nonce := by
  obtain ⟨-, hnormal, hdomain, -⟩ := texts_one
  have hhost : (hostDomain toAsciiLowercase (normalizeHost "relay.example") ==
      normalizeHost "relay.example") = true := by
    rw [hnormal, hdomain]
    rfl
  have hturn : inTurn oneRelay x (.start id (registerWith nonce)) = true := hhost
  rw [← step_registerWith h]
  exact if_pos hturn

theorem run_handled
    {M : StateMachine (Execution Reply Store Request Response) (ProgramAction Request Outside)}
    {id steps : Nat} (h : ∀ x, M.step x (.start id (registerWith nonce)) = started x id nonce)
    (x : Execution Reply Store Request Response) :
    M.run x (handled id (registerWith nonce) steps) =
      (started x id nonce).bind fun y => M.run y (List.replicate steps (.advance id)) := by
  rw [handled, StateMachine.run_cons, h]

theorem isNonce_first : IsNonce "firstnonce" where
  reads := ⟨by decide, texts_one.1, by decide, by decide, by decide, by decide, by decide, rfl⟩
  oneLine := by decide +kernel

theorem isNonce_second : IsNonce "secondnonce" where
  reads := ⟨by decide, texts_one.1, by decide, by decide, by decide, by decide, by decide, rfl⟩
  oneLine := by decide +kernel

theorem init_oneStart : (evm oneRelay).Init oneStart :=
  ⟨fun _ => rfl, rfl, rfl, rfl, rfl⟩

theorem inTurn_calmRun :
    ∃ x, ((evm oneRelay).guard fun x a => inTurn oneRelay x a = true).run oneStart calmRun =
      some x ∧ keyRevoked x = true := by
  have hrun : (((evm oneRelay).guard fun x a => inTurn oneRelay x a = true).run oneStart
      calmRun).any keyRevoked = true := by
    simp only [calmRun, StateMachine.run_append,
      run_handled fun x => guard_step_registerWith isNonce_first x 1]
    decide +kernel
  exact (Option.any_eq_true _ _).mp hrun

/-- A key that registers, and is revoked. -/
theorem bindings_final_calmRun :
    ∃ x, (evm oneRelay).run oneStart calmRun = some x ∧ keyRevoked x = true ∧
      Sound oneRelay oneStart.store x ∧ Final oneRelay x := by
  obtain ⟨x, hturn, hrevoked⟩ := inTurn_calmRun
  have hrun := StateMachine.run_of_guard hturn
  obtain ⟨hsound, hfinal⟩ := bindings_final init_oneStart hrun
  exact ⟨x, hrun, hrevoked, hsound, hfinal hturn⟩

/-- The key was revoked, and is a member all the same. -/
theorem not_bindings_final :
    ∃ x, (evm oneRelay).Init oneStart ∧ (evm oneRelay).run oneStart racingRun = some x ∧
      keyRevoked x = true ∧ keyMember x = true ∧ ¬Final oneRelay x := by
  have hrun : ((evm oneRelay).run oneStart racingRun).any
      (fun x => keyRevoked x && keyMember x) = true := by
    simp only [racingRun, StateMachine.run_append,
      run_handled fun x => step_registerWith isNonce_first x 1,
      run_handled fun x => step_registerWith isNonce_second x 3]
    decide +kernel
  obtain ⟨x, hx, hboth⟩ := (Option.any_eq_true _ _).mp hrun
  rw [Bool.and_eq_true] at hboth
  refine ⟨x, init_oneStart, hx, hboth.1, hboth.2, fun hfinal => ?_⟩
  obtain ⟨y, hy, hresult⟩ := List.any_eq_true.mp hboth.1
  split at hresult
  · next c npub account heq =>
    rw [Bool.and_eq_true, Bool.and_eq_true, beq_iff_eq, beq_iff_eq] at hresult
    obtain ⟨⟨rfl, rfl⟩, -⟩ := hresult
    exact absurd (hfinal.gone y hy _ _ _ heq _ (eq_of_beq hboth.2)) (by decide)
  · cases hresult

end Buzz.Evm
