import Buzz.Relay.Evm.Revocation

/-!
# Registrations that fail half-way

A registration writes the membership, the binding and the alias in three statements, without a
transaction. When the second or the third of them fails, for example because the alias is taken, the
request is refused and what was written before stays.
-/

namespace Buzz.Evm

open EvmAuth

/-! ### What a registration should do -/

/-- The tables of a registration are as they were. -/
structure Untouched (s s' : Store) : Prop where
  members : s'.members = s.members
  identities : s'.identities = s.identities
  nip05 : s'.nip05 = s.nip05

/-- The alias that was claimed is written. -/
def withHandle (s : Store) (c : CommunityId) (npub : String) : Option String → Store
  | none => s
  | some handle => s.setUserNip05 c npub handle

/-- The membership, the binding and the alias are written. -/
structure Provisioned (s s' : Store) (c : CommunityId) (npub : String) (address : EvmAddress)
    (attestation : Option Json) (handle : Option String) : Prop where
  members : s'.members = (s.claimMembership c npub "member").1.members
  identities : s'.identities = (s.upsertIdentity c npub address attestation).identities
  nip05 : s'.nip05 = (withHandle s c npub handle).nip05

variable {Sig VerifyingKey : Type} (R : Relay Sig VerifyingKey)

/-- Nothing is written where the request is refused, and everything where it is not. -/
structure AllOrNothing (arrival : Registration) (s s' : Store) (response : Response) : Prop where
  refused : ∀ e, response = .refused e → Untouched s s'
  registered : ∀ inserted c host npub address,
    response = .registered inserted c host npub address →
      ∃ body handle, arrival.body = .ok body ∧ claimedHandle R host body = .ok handle ∧
        Provisioned s s' c npub address body.attestation handle

/-! ### Statements that fail -/

/-- The answer when a statement fails. -/
def failure : Statement → Response
  | .resolveHost _ => .refused ⟨404, "unknown_host"⟩
  | _ => .refused internalError

variable (outcome : Statement → Outcome)

/-- A registration alone: the store after it, and its answer. -/
def registerAlone (arrival : Registration) (s : Store) : Store × Response :=
  (register R arrival).alone exec outcome failure s

/-- The checks of a registration pass, and no statement before the writes fails. -/
structure Passes (arrival : Registration) (s : Store) (c : CommunityId)
    (body : SiweRegisterRequest) (siwe : SiweMessage) (handle : Option String) : Prop where
  host : (normalizeHost arrival.rawHost).isEmpty = false
  resolve : outcome (.resolveHost (normalizeHost arrival.rawHost)) = .done
  community : s.hosts (normalizeHost arrival.rawHost) = some c
  parsed : arrival.body = .ok body
  incr : outcome (.incrRate (hexEncode body.nostrProof.pubkey.toList)) = .done
  expire : s.rate (hexEncode body.nostrProof.pubkey.toList) = 0 →
    outcome (.expireRate (hexEncode body.nostrProof.pubkey.toList)) = .done
  rate : s.rate (hexEncode body.nostrProof.pubkey.toList) < rateMaxAttempts
  proofs : checkProofs R (normalizeHost arrival.rawHost) body arrival = .ok siwe
  look : outcome (.isRevoked c (hexEncode body.nostrProof.pubkey.toList)) = .done
  notRevoked : (s.identities c (hexEncode body.nostrProof.pubkey.toList)).map (·.isRevoked) ≠
    some true
  extras : checkExtras R (normalizeHost arrival.rawHost) body arrival siwe = .ok handle
  take : outcome (.takeNonce siwe.nonce) = .done
  nonce : s.nonces siwe.nonce = true

def writes (c : CommunityId) (npub : String) (address : EvmAddress) (attestation : Option Json)
    (handle : Option String) : List Statement :=
  .claimMembership c npub "member" :: .upsertIdentity c npub address attestation ::
    (handle.map (.setUserNip05 c npub)).toList

def Changes (s : Store) : Statement → Prop
  | .claimMembership c npub _ => s.members c npub = none
  | .upsertIdentity c npub address attestation =>
    ¬ ∃ row, s.identities c npub = some row ∧ row.evmAddress = address ∧
      row.attestation = attestation
  | .setUserNip05 c npub handle =>
    s.nip05 c npub ≠ if handle.isEmpty then none else some handle
  | _ => False

/-- A write changes something, and then, or with it, one fails. `dirty` says that something has
changed before. -/
def FailsDirty (s : Store) : Prop → List Statement → Prop
  | _, [] => False
  | dirty, i :: is =>
    match outcome i with
    | .done => FailsDirty s (dirty ∨ Changes s i) is
    | .failed => dirty
    | .unsure => dirty ∨ Changes s i

/-- The checks pass, and a write fails after something has changed. -/
def Torn (arrival : Registration) (s : Store) : Prop :=
  ∃ c body siwe handle, Passes R outcome arrival s c body siwe handle ∧
    FailsDirty outcome s False (writes c (hexEncode body.nostrProof.pubkey.toList) siwe.address
      body.attestation handle)

/-! ### What the writes change -/

section Writes

variable {s : Store} {c : CommunityId} {npub : String}

theorem update_update_eq_iff {κ ι α : Type} [DecidableEq κ] [DecidableEq ι] {f : κ → ι → α} {k : κ}
    {i : ι} {a : α} :
    Function.update f k (Function.update (f k) i a) = f ↔ a = f k i := by
  rw [Function.update_eq_self_iff, Function.update_eq_self_iff]

theorem members_claimMembership_eq_iff (role : String) :
    (s.claimMembership c npub role).1.members = s.members ↔ s.members c npub ≠ none := by
  rw [Store.claimMembership]
  cases hrow : s.members c npub with
  | none =>
    rw [Store.setMember, update_update_eq_iff, hrow]
    simp
  | some row => simp

theorem identities_claimMembership (role : String) :
    (s.claimMembership c npub role).1.identities = s.identities := by
  rw [Store.claimMembership]
  split <;> rfl

theorem nip05_claimMembership (role : String) :
    (s.claimMembership c npub role).1.nip05 = s.nip05 := by
  rw [Store.claimMembership]
  split <;> rfl

variable (address : EvmAddress) (attestation : Option Json)

theorem members_upsertIdentity :
    (s.upsertIdentity c npub address attestation).members = s.members := by
  rw [Store.upsertIdentity]
  split <;> rfl

theorem nip05_upsertIdentity : (s.upsertIdentity c npub address attestation).nip05 = s.nip05 := by
  rw [Store.upsertIdentity]
  split <;> rfl

theorem identities_upsertIdentity_congr {s' : Store} (h : s'.identities = s.identities) :
    (s'.upsertIdentity c npub address attestation).identities =
      (s.upsertIdentity c npub address attestation).identities := by
  rw [Store.upsertIdentity, Store.upsertIdentity, h]
  cases s.identities c npub with
  | none | some row =>
    simp [Store.setIdentity, h]

theorem identities_upsertIdentity_eq_iff :
    (s.upsertIdentity c npub address attestation).identities = s.identities ↔
      ∃ row, s.identities c npub = some row ∧ row.evmAddress = address ∧
        row.attestation = attestation := by
  rw [Store.upsertIdentity]
  cases hrow : s.identities c npub with
  | none =>
    rw [Store.setIdentity, update_update_eq_iff, hrow]
    simp
  | some row =>
    dsimp only
    rw [Store.setIdentity, update_update_eq_iff, hrow]
    constructor
    · intro h
      have hsame := Option.some.inj h
      exact ⟨row, rfl, (congrArg EvmIdentity.evmAddress hsame).symm,
        (congrArg EvmIdentity.attestation hsame).symm⟩
    · rintro ⟨row', hrow', rfl, rfl⟩
      cases hrow'
      rfl

theorem nip05_setUserNip05_eq_iff (handle : String) :
    (s.setUserNip05 c npub handle).nip05 = s.nip05 ↔
      s.nip05 c npub = if handle.isEmpty then none else some handle := by
  rw [Store.setUserNip05, update_update_eq_iff]
  exact eq_comm

/-- The store after the first two writes. -/
def claimAndBind (s : Store) (c : CommunityId) (npub : String) (address : EvmAddress)
    (attestation : Option Json) : Store :=
  (s.claimMembership c npub "member").1.upsertIdentity c npub address attestation

theorem provisioned_claimAndBind :
    Provisioned s (claimAndBind s c npub address attestation) c npub address attestation none where
  members := members_upsertIdentity address attestation
  identities := identities_upsertIdentity_congr address attestation (identities_claimMembership _)
  nip05 := (nip05_upsertIdentity address attestation).trans (nip05_claimMembership _)

theorem provisioned_withHandle (handle : Option String) :
    Provisioned s (withHandle (claimAndBind s c npub address attestation) c npub handle) c npub
      address attestation handle := by
  have hbound : Provisioned s (claimAndBind s c npub address attestation) c npub address attestation
      none := provisioned_claimAndBind address attestation
  obtain ⟨hmembers, hidentities, hnip05⟩ := hbound
  cases handle with
  | none => exact ⟨hmembers, hidentities, hnip05⟩
  | some handle =>
    refine ⟨hmembers, hidentities, ?_⟩
    simp [withHandle, Store.setUserNip05, hnip05]

end Writes

/-! ### The writes, some of which fail -/

section Provision

variable {s s' : Store} {c : CommunityId} {npub : String} {address : EvmAddress}
  {attestation : Option Json} {handle : Option String}

theorem untouched_claimMembership_iff (role : String) :
    Untouched s (s.claimMembership c npub role).1 ↔
      ¬ Changes s (.claimMembership c npub role) := by
  constructor
  · intro h
    exact (members_claimMembership_eq_iff role).mp h.members
  · intro h
    exact ⟨(members_claimMembership_eq_iff role).mpr h, identities_claimMembership role,
      nip05_claimMembership role⟩

theorem Provisioned.untouched_iff (h : Provisioned s s' c npub address attestation handle) :
    Untouched s s' ↔ ¬ Changes s (.claimMembership c npub "member") ∧
      ¬ Changes s (.upsertIdentity c npub address attestation) ∧
        ∀ v ∈ handle, ¬ Changes s (.setUserNip05 c npub v) := by
  have hmembers : s'.members = s.members ↔ ¬ Changes s (.claimMembership c npub "member") := by
    rw [h.members]
    exact members_claimMembership_eq_iff "member"
  have hidentities : s'.identities = s.identities ↔
      ¬ Changes s (.upsertIdentity c npub address attestation) := by
    rw [h.identities, identities_upsertIdentity_eq_iff, Changes, not_not]
  have hnip05 : s'.nip05 = s.nip05 ↔ ∀ v ∈ handle, ¬ Changes s (.setUserNip05 c npub v) := by
    rw [h.nip05]
    cases handle with
    | none => simp [withHandle]
    | some v =>
      rw [withHandle, nip05_setUserNip05_eq_iff]
      simp [Changes]
  constructor
  · intro hsame
    exact ⟨hmembers.mp hsame.members, hidentities.mp hsame.identities, hnip05.mp hsame.nip05⟩
  · rintro ⟨hclaim, hupsert, hset⟩
    exact ⟨hmembers.mpr hclaim, hidentities.mpr hupsert, hnip05.mpr hset⟩

/-- The writes are refused, and nothing is written unless one fails after a change, or all of them
are done. -/
inductive Written (s : Store) (c : CommunityId) (host npub : String) (address : EvmAddress)
    (attestation : Option Json) (handle : Option String) (result : Store × Response) : Prop
  | refused {e : ApiError} (hresponse : result.2 = .refused e)
      (hstore : Untouched s result.1 ↔
        ¬ FailsDirty outcome s False (writes c npub address attestation handle))
  | registered {inserted : Bool}
      (hresponse : result.2 = .registered inserted c host npub address)
      (hstore : Provisioned s result.1 c npub address attestation handle)
      (hclean : ¬ FailsDirty outcome s False (writes c npub address attestation handle))

variable {outcome}

theorem written_provision (s : Store) (c : CommunityId) (host : String)
    (body : SiweRegisterRequest) (siwe : SiweMessage) (handle : Option String) :
    Written outcome s c host (hexEncode body.nostrProof.pubkey.toList) siwe.address
      body.attestation handle
      ((provision c host body siwe handle).alone exec outcome failure s) := by
  rw [provision]
  generalize hexEncode body.nostrProof.pubkey.toList = npub
  have hbound : Provisioned s (claimAndBind s c npub siwe.address body.attestation) c npub
      siwe.address body.attestation none := provisioned_claimAndBind _ _
  cases hclaim : outcome (.claimMembership c npub "member") with
  | failed =>
    rw [Program.alone_failed hclaim]
    refine .refused rfl ?_
    simp [writes, FailsDirty, hclaim, Untouched.mk]
  | unsure =>
    rw [Program.alone_unsure hclaim]
    refine .refused rfl ((untouched_claimMembership_iff "member").trans ?_)
    simp [writes, FailsDirty, hclaim]
  | done =>
    rw [Program.alone_done hclaim]
    cases hupsert : outcome (.upsertIdentity c npub siwe.address body.attestation) with
    | failed =>
      rw [Program.alone_failed hupsert]
      refine .refused rfl ((untouched_claimMembership_iff "member").trans ?_)
      simp [writes, FailsDirty, hclaim, hupsert]
    | unsure =>
      rw [Program.alone_unsure hupsert]
      refine .refused rfl (hbound.untouched_iff.trans ?_)
      simp [writes, FailsDirty, hclaim, hupsert]
    | done =>
      rw [Program.alone_done hupsert, bindHandle.eq_def]
      cases handle with
      | none =>
        refine .registered rfl hbound ?_
        simp [writes, FailsDirty, hclaim, hupsert]
      | some v =>
        have hwritten : Provisioned s
            (withHandle (claimAndBind s c npub siwe.address body.attestation) c npub (some v))
              c npub siwe.address body.attestation (some v) := provisioned_withHandle _ _ _
        cases hset : outcome (.setUserNip05 c npub v) with
        | failed =>
          rw [Program.alone_failed hset]
          refine .refused rfl (hbound.untouched_iff.trans ?_)
          simp [writes, FailsDirty, hclaim, hupsert, hset]
        | unsure =>
          rw [Program.alone_unsure hset]
          refine .refused rfl (hwritten.untouched_iff.trans ?_)
          simp [writes, FailsDirty, hclaim, hupsert, hset, and_assoc]
        | done =>
          rw [Program.alone_done hset]
          refine .registered rfl hwritten ?_
          simp [writes, FailsDirty, hclaim, hupsert, hset]

end Provision

/-! ### The checks -/

section Checks

variable {R} {outcome} {arrival : Registration} {s : Store}

/-- The request is refused, and nothing is written. -/
def Stops (s : Store) (result : Store × Response) : Prop :=
  Untouched s result.1 ∧ ∃ e, result.2 = .refused e

theorem exec_resolveHost (host : String) (s : Store) :
    exec (.resolveHost host) s = (s, s.hosts host) := rfl

theorem exec_isRevoked (c : CommunityId) (npub : String) (s : Store) :
    exec (.isRevoked c npub) s = (s, (s.identities c npub).map (·.isRevoked)) := rfl

theorem exec_takeNonce (nonce : String) (s : Store) :
    exec (.takeNonce nonce) s = (s.setNonce nonce false, s.nonces nonce) := rfl

theorem exec_incrRate (npub : String) (s : Store) :
    exec (.incrRate npub) s = (s.setRate npub (s.rate npub + 1), s.rate npub + 1) := rfl

theorem exists_failure_eq (i : Statement) : ∃ e, failure i = .refused e := by
  cases i <;> exact ⟨_, rfl⟩

variable {s' : Store}

theorem stops_or {G : Prop} {i : Statement} {next : Reply i → Handler} (hs : Untouched s s')
    (hi : Untouched s (exec i s').1)
    (hnext : outcome i = .done →
      Stops s ((next (exec i s').2).alone exec outcome failure (exec i s').1) ∨ G) :
    Stops s ((Program.perform i next).alone exec outcome failure s') ∨ G := by
  have hend : Stops s ((Program.perform i next).alone exec outcome failure s') ∨
      outcome i = .done :=
    Program.alone_perform (I := Untouched s) (T := fun r : Response => ∃ e, r = .refused e) hs hi
      (exists_failure_eq i)
  obtain hstop | hdone := hend
  · exact .inl hstop
  · rw [Program.alone_done hdone]
    exact hnext hdone

theorem stops_refused (hs : Untouched s s') (e : ApiError) :
    Stops s ((Program.answer (Response.refused e) : Handler).alone exec outcome failure s') :=
  ⟨hs, e, rfl⟩

variable {next : Bool → Handler}

theorem alone_rateLimited {npub : String} (hincr : outcome (.incrRate npub) = .done)
    (hexpire : s.rate npub = 0 → outcome (.expireRate npub) = .done) :
    (rateLimited npub next).alone exec outcome failure s =
      (next (decide (rateMaxAttempts < s.rate npub + 1))).alone exec outcome failure
        (s.setRate npub (s.rate npub + 1)) := by
  rw [rateLimited, Program.alone_done hincr, exec_incrRate]
  by_cases hfirst : s.rate npub + 1 = 1
  · rw [if_pos hfirst, Program.alone_done (hexpire (by omega))]
    rfl
  · rw [if_neg hfirst]

variable {c : CommunityId} {body : SiweRegisterRequest} {siwe : SiweMessage}
  {handle : Option String}

theorem alone_registerProven {host : String}
    (hlook : outcome (.isRevoked c (hexEncode body.nostrProof.pubkey.toList)) = .done)
    (hrevoked :
      (s.identities c (hexEncode body.nostrProof.pubkey.toList)).map (·.isRevoked) ≠ some true)
    (hextras : checkExtras R host body arrival siwe = .ok handle)
    (htake : outcome (.takeNonce siwe.nonce) = .done) (hnonce : s.nonces siwe.nonce = true) :
    (registerProven R c host body arrival siwe).alone exec outcome failure s =
      (provision c host body siwe handle).alone exec outcome failure
        (s.setNonce siwe.nonce false) := by
  rw [registerProven, Program.alone_done hlook, exec_isRevoked, if_neg hrevoked, hextras]
  dsimp only [orRefuse]
  rw [consumeNonce, Program.alone_done htake, exec_takeNonce, if_pos hnonce]

/-- The store when the writes begin. -/
def counted (s : Store) (npub nonce : String) : Store :=
  (s.setRate npub (s.rate npub + 1)).setNonce nonce false

theorem registerAlone_of_passes (h : Passes R outcome arrival s c body siwe handle) :
    registerAlone R outcome arrival s =
      (provision c (normalizeHost arrival.rawHost) body siwe handle).alone exec outcome failure
        (counted s (hexEncode body.nostrProof.pubkey.toList) siwe.nonce) := by
  have hlimit : ¬ rateMaxAttempts < s.rate (hexEncode body.nostrProof.pubkey.toList) + 1 := by
    have hrate := h.rate
    omega
  rw [registerAlone, register, bindCommunity, if_neg (by simp [h.host]),
    Program.alone_done h.resolve, exec_resolveHost, h.community]
  rw [h.parsed]
  dsimp only [parseBody, Except.mapError, orRefuse]
  rw [alone_rateLimited h.incr h.expire, decide_eq_false hlimit, if_neg Bool.false_ne_true,
    h.proofs]
  exact alone_registerProven h.look h.notRevoked h.extras h.take h.nonce

theorem stops_or_rateLimited {G : Prop} {npub : String}
    (hnext : outcome (.incrRate npub) = .done →
      (s.rate npub = 0 → outcome (.expireRate npub) = .done) →
      Stops s ((next (decide (rateMaxAttempts < s.rate npub + 1))).alone exec outcome failure
        (s.setRate npub (s.rate npub + 1))) ∨ G) :
    Stops s ((rateLimited npub next).alone exec outcome failure s) ∨ G := by
  have hsame : Untouched s (s.setRate npub (s.rate npub + 1)) := ⟨rfl, rfl, rfl⟩
  refine stops_or ⟨rfl, rfl, rfl⟩ hsame fun hincr => ?_
  rw [exec_incrRate]
  by_cases hfirst : s.rate npub + 1 = 1
  · rw [if_pos hfirst]
    exact stops_or hsame hsame fun hexpire => hnext hincr fun _ => hexpire
  · rw [if_neg hfirst]
    exact hnext hincr fun hzero => absurd (by rw [hzero]) hfirst

theorem stops_or_registerProven {host : String} (hs : Untouched s s') :
    Stops s ((registerProven R c host body arrival siwe).alone exec outcome failure s') ∨
      ∃ handle, outcome (.isRevoked c (hexEncode body.nostrProof.pubkey.toList)) = .done ∧
        (s.identities c (hexEncode body.nostrProof.pubkey.toList)).map (·.isRevoked) ≠ some true ∧
        checkExtras R host body arrival siwe = .ok handle ∧
        outcome (.takeNonce siwe.nonce) = .done ∧ s'.nonces siwe.nonce = true := by
  have htaken : Untouched s (s'.setNonce siwe.nonce false) :=
    ⟨hs.members, hs.identities, hs.nip05⟩
  rw [registerProven]
  refine stops_or hs hs fun hlook => ?_
  rw [exec_isRevoked, hs.identities]
  by_cases hrevoked : (s.identities c (hexEncode body.nostrProof.pubkey.toList)).map (·.isRevoked) =
      some true
  · rw [if_pos hrevoked]
    exact .inl (stops_refused hs _)
  · rw [if_neg hrevoked]
    cases hextras : checkExtras R host body arrival siwe with
    | error e => exact .inl (stops_refused hs _)
    | ok handle =>
      refine stops_or hs htaken fun htake => ?_
      rw [exec_takeNonce]
      cases hnonce : s'.nonces siwe.nonce with
      | false => exact .inl (stops_refused htaken _)
      | true => exact .inr ⟨handle, hlook, hrevoked, rfl, htake, rfl⟩

theorem stops_or_passes (arrival : Registration) (s : Store) :
    Stops s (registerAlone R outcome arrival s) ∨
      ∃ c body siwe handle, Passes R outcome arrival s c body siwe handle := by
  have hsame : Untouched s s := ⟨rfl, rfl, rfl⟩
  rw [registerAlone, register, bindCommunity]
  split
  · exact .inl (stops_refused hsame _)
  next hempty =>
  have hhost : (normalizeHost arrival.rawHost).isEmpty = false := by simpa using hempty
  refine stops_or hsame hsame fun hresolve => ?_
  rw [exec_resolveHost]
  cases hcommunity : s.hosts (normalizeHost arrival.rawHost) with
  | none => exact .inl (stops_refused hsame _)
  | some c =>
    cases hparsed : arrival.body with
    | error e => exact .inl (stops_refused hsame _)
    | ok body =>
      dsimp only [parseBody, Except.mapError, orRefuse]
      refine stops_or_rateLimited fun hincr hexpire => ?_
      have hcounted : Untouched s (s.setRate (hexEncode body.nostrProof.pubkey.toList)
          (s.rate (hexEncode body.nostrProof.pubkey.toList) + 1)) := ⟨rfl, rfl, rfl⟩
      by_cases hrate : rateMaxAttempts < s.rate (hexEncode body.nostrProof.pubkey.toList) + 1
      · rw [decide_eq_true hrate]
        exact .inl (stops_refused hcounted _)
      rw [decide_eq_false hrate, if_neg Bool.false_ne_true]
      cases hproofs : checkProofs R (normalizeHost arrival.rawHost) body arrival with
      | error e => exact .inl (stops_refused hcounted _)
      | ok siwe =>
        refine (stops_or_registerProven hcounted).imp_right ?_
        rintro ⟨handle, hlook, hrevoked, hextras, htake, hnonce⟩
        exact ⟨c, body, siwe, handle, hhost, hresolve, hcommunity, hparsed, hincr, hexpire,
          by omega, hproofs, hlook, hrevoked, hextras, htake, hnonce⟩

end Checks

/-! ### Counting an attempt leaves the tables alone -/

section Counted

variable {s s' : Store} {npub nonce : String}

theorem changes_counted_iff (i : Statement) : Changes (counted s npub nonce) i ↔ Changes s i := by
  cases i <;> exact Iff.rfl

theorem failsDirty_counted_iff (dirty : Prop) (is : List Statement) :
    FailsDirty outcome (counted s npub nonce) dirty is ↔ FailsDirty outcome s dirty is := by
  induction is generalizing dirty with
  | nil => exact Iff.rfl
  | cons i is ih =>
    rw [FailsDirty, FailsDirty, changes_counted_iff]
    cases outcome i with
    | done => exact ih _
    | failed | unsure => exact Iff.rfl

theorem untouched_counted_iff : Untouched (counted s npub nonce) s' ↔ Untouched s s' :=
  ⟨fun h => ⟨h.members, h.identities, h.nip05⟩, fun h => ⟨h.members, h.identities, h.nip05⟩⟩

theorem provisioned_of_counted {c : CommunityId} {key : String} {address : EvmAddress}
    {attestation : Option Json} {handle : Option String}
    (h : Provisioned (counted s npub nonce) s' c key address attestation handle) :
    Provisioned s s' c key address attestation handle where
  members := by
    rw [h.members, Store.claimMembership, Store.claimMembership]
    cases hrow : s.members c key <;> simp [counted, Store.setRate, Store.setNonce, hrow,
      Store.setMember]
  identities := h.identities.trans (identities_upsertIdentity_congr address attestation rfl)
  nip05 := by
    rw [h.nip05]
    cases handle <;> rfl

end Counted

/-! ### Registrations -/

variable {R} {outcome} {arrival : Registration} {s : Store}

variable {body : SiweRegisterRequest} {siwe : SiweMessage} {handle : Option String}

theorem written_of_passes {c : CommunityId} (h : Passes R outcome arrival s c body siwe handle) :
    Written outcome s c (normalizeHost arrival.rawHost)
      (hexEncode body.nostrProof.pubkey.toList) siwe.address body.attestation handle
      (registerAlone R outcome arrival s) := by
  rw [registerAlone_of_passes h]
  obtain ⟨hresponse, hstore⟩ | ⟨hresponse, hstore, hclean⟩ :=
    written_provision (counted s (hexEncode body.nostrProof.pubkey.toList)
      siwe.nonce) c (normalizeHost arrival.rawHost) body siwe handle
  · rw [untouched_counted_iff, failsDirty_counted_iff] at hstore
    exact .refused hresponse hstore
  · rw [failsDirty_counted_iff] at hclean
    exact .registered hresponse (provisioned_of_counted hstore) hclean

theorem claimedHandle_of_checkExtras {host : String}
    (h : checkExtras R host body arrival siwe = .ok handle) :
    claimedHandle R host body = .ok handle := by
  rw [checkExtras] at h
  cases hattested : checkAttestation R.platform R.fromValue body.attestation
      (hexEncode body.nostrProof.pubkey.toList) siwe.address arrival.attestationNow with
  | error e =>
    rw [hattested] at h
    cases h
  | ok u =>
    rw [hattested] at h
    exact h

/-- **A registration is all or nothing unless it is torn.** Whichever statements fail, and however,
a registration that is refused has written nothing, and one that is answered has written everything,
exactly when no write fails after one that changed something. -/
theorem allOrNothing_iff (arrival : Registration) (s : Store) :
    AllOrNothing R arrival s (registerAlone R outcome arrival s).1
        (registerAlone R outcome arrival s).2 ↔
      ¬ Torn R outcome arrival s := by
  constructor
  · rintro hall ⟨c, body, siwe, handle, hpasses, hdirty⟩
    obtain ⟨hresponse, hstore⟩ | ⟨-, -, hclean⟩ := written_of_passes hpasses
    · exact hstore.mp (hall.refused _ hresponse) hdirty
    · exact hclean hdirty
  · intro hwhole
    obtain ⟨hsame, e, hresponse⟩ | ⟨c, body, siwe, handle, hpasses⟩ :=
      stops_or_passes arrival s
    · refine ⟨fun _ _ => hsame, fun inserted c host npub address hregistered => ?_⟩
      rw [hresponse] at hregistered
      cases hregistered
    have hclean : ¬ FailsDirty outcome s False
        (writes c (hexEncode body.nostrProof.pubkey.toList) siwe.address body.attestation handle) :=
      fun hdirty => hwhole ⟨c, body, siwe, handle, hpasses, hdirty⟩
    obtain ⟨hresponse, hstore⟩ | ⟨hresponse, hstore, -⟩ := written_of_passes hpasses
    · refine ⟨fun _ _ => hstore.mpr hclean, fun inserted c host npub address hregistered => ?_⟩
      rw [hresponse] at hregistered
      cases hregistered
    · refine ⟨fun e hrefused => ?_, fun inserted c' host npub address hregistered => ?_⟩
      · rw [hresponse] at hrefused
        cases hrefused
      · rw [hresponse] at hregistered
        cases hregistered
        exact ⟨body, handle, hpasses.parsed, claimedHandle_of_checkExtras hpasses.extras, hstore⟩

/-! ### An alias that is taken -/

/-- The body of a registration that claims an alias. -/
def aliasBody : SiweRegisterRequest :=
  { bodyWith "firstnonce" with nip05Handle := some "alice@relay.example" }

def aliasArrival : Registration := ⟨"relay.example", .ok aliasBody, 0, 0, 0⟩

def aliasTaken : Store :=
  { oneStart.store with
    nonces := fun nonce => nonce == "firstnonce"
    nip05 := fun c npub =>
      if c = 0 ∧ npub = "another key" then some "alice@relay.example" else none }

/-- Aliases are unique: the statement that writes this one fails. -/
def uniqueAlias : Statement → Outcome
  | .setUserNip05 _ _ _ => .failed
  | _ => .done

theorem checkExtras_aliasBody :
    checkExtras oneRelay "relay.example" aliasBody aliasArrival (siweWith "firstnonce") =
      .ok (some "alice@relay.example") := by
  decide +kernel

theorem passes_aliasArrival :
    Passes oneRelay uniqueAlias aliasArrival aliasTaken 0 aliasBody (siweWith "firstnonce")
      (some "alice@relay.example") := by
  obtain ⟨-, hnormal, -, hverified⟩ := texts_one
  have hhost : normalizeHost aliasArrival.rawHost = "relay.example" := hnormal
  have hmessage : verifyMessage oneRelay "relay.example" aliasBody 0 =
      .ok (siweWith "firstnonce") := verifyMessage_bodyWith isNonce_first
  have hproofs : checkProofs oneRelay "relay.example" aliasBody aliasArrival =
      .ok (siweWith "firstnonce") := checkProofs_eq_ok hverified hmessage List.mem_cons_self
  exact {
    host := by
      rw [hhost]
      decide
    resolve := rfl
    community := by
      rw [hhost]
      rfl
    parsed := rfl
    incr := rfl
    expire := fun _ => rfl
    rate := by decide
    proofs := by
      rwa [hhost]
    look := rfl
    notRevoked := by simp [aliasTaken, oneStart]
    extras := by
      rw [hhost]
      exact checkExtras_aliasBody
    take := rfl
    nonce := rfl }

/-- The registration is refused, and the key is a member, bound to the account. -/
theorem aliasArrival_torn :
    ∃ s, registerAlone oneRelay uniqueAlias aliasArrival aliasTaken = (s, .refused internalError) ∧
      aliasTaken.members 0 (hexEncode oneKey.toList) = none ∧
      s.members 0 (hexEncode oneKey.toList) = some ⟨"member", some "evm_siwe"⟩ ∧
      s.identities 0 (hexEncode oneKey.toList) = some ⟨exampleAccount, none, none, none, none⟩ ∧
      ¬ AllOrNothing oneRelay aliasArrival aliasTaken s (.refused internalError) := by
  have hmember : (claimAndBind (counted aliasTaken (hexEncode oneKey.toList) "firstnonce") 0
      (hexEncode oneKey.toList) exampleAccount none).members 0 (hexEncode oneKey.toList) =
        some ⟨"member", some "evm_siwe"⟩ := by
    rw [claimAndBind, members_upsertIdentity]
    simp [Store.claimMembership, Store.setMember, counted, Store.setRate, Store.setNonce,
      aliasTaken, oneStart]
  refine ⟨claimAndBind (counted aliasTaken (hexEncode oneKey.toList) "firstnonce") 0
    (hexEncode oneKey.toList) exampleAccount none, ?_, rfl, hmember, ?_, fun hall => ?_⟩
  · rw [registerAlone_of_passes passes_aliasArrival, provision, Program.alone_done rfl,
      Program.alone_done rfl, bindHandle, Program.alone_failed rfl]
    rfl
  · simp [claimAndBind, Store.claimMembership, Store.upsertIdentity, Store.setMember,
      Store.setIdentity, counted, Store.setRate, Store.setNonce, aliasTaken, oneStart]
  · rw [(hall.refused _ rfl).members] at hmember
    cases hmember

end Buzz.Evm
