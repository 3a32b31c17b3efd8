import Buzz.Relay.Evm.Register

/-!
# What registering and revoking do

What each statement does to the tables, and what a request does until a statement has had a certain
reply.
-/

namespace Buzz.Evm

open EvmAuth

/-! ### What a statement writes -/

section Store

variable {s : Store} {i : Statement} {c : CommunityId} {npub : String}

theorem identities_setIdentity (c' : CommunityId) (npub' : String) (row : EvmIdentity) :
    (s.setIdentity c npub row).identities c' npub' =
      if c' = c ∧ npub' = npub then some row else s.identities c' npub' := by
  rw [Store.setIdentity]
  by_cases hc : c' = c
  · subst hc
    by_cases hn : npub' = npub
    · subst hn
      simp
    · simp [hn]
  · simp [hc]

theorem members_setMember (c' : CommunityId) (npub' : String) (row : Option Member) :
    (s.setMember c npub row).members c' npub' =
      if c' = c ∧ npub' = npub then row else s.members c' npub' := by
  rw [Store.setMember]
  by_cases hc : c' = c
  · subst hc
    by_cases hn : npub' = npub
    · subst hn
      simp
    · simp [hn]
  · simp [hc]

theorem hosts_exec (i : Statement) (s : Store) : (exec i s).1.hosts = s.hosts := by
  cases i with
  | claimMembership c npub role =>
    rw [exec, Store.claimMembership]
    split <;> rfl
  | upsertIdentity c npub address att =>
    dsimp only [exec, Store.upsertIdentity]
    split <;> rfl
  | setNonce nonce =>
    rw [exec]
    split <;> rfl
  | revokeIdentity c npub revokedBy reason =>
    rw [exec, Store.revokeIdentity]
    split
    · rfl
    · split <;> rfl
  | deleteMember c npub =>
    rw [exec, Store.deleteMember]
    split
    · rfl
    · split <;> rfl
  | _ => rfl

/-- What becomes of a binding: it stays, it gets an account, or it is revoked. -/
theorem identities_exec (i : Statement) (s : Store) (c : CommunityId) (npub : String) :
    (exec i s).1.identities c npub = s.identities c npub ∨
      (∃ account att, i = .upsertIdentity c npub account att ∧ ∃ row,
        (exec i s).1.identities c npub = some row ∧ row.evmAddress = account ∧
          row.revokedAt = (s.identities c npub).bind (·.revokedAt)) ∨
      ∃ revokedBy reason row row', i = .revokeIdentity c npub revokedBy reason ∧
        s.identities c npub = some row ∧ (exec i s).1.identities c npub = some row' ∧
          row'.evmAddress = row.evmAddress ∧ row'.isRevoked = true := by
  cases i with
  | upsertIdentity c' npub' address att =>
    by_cases hkey : c = c' ∧ npub = npub'
    · obtain ⟨rfl, rfl⟩ := hkey
      refine .inr (.inl ⟨address, att, rfl, ?_⟩)
      dsimp only [exec, Store.upsertIdentity]
      cases s.identities c npub with
      | none | some row =>
          exact ⟨_, (identities_setIdentity _ _ _).trans (if_pos ⟨rfl, rfl⟩), rfl, rfl⟩
    · left
      dsimp only [exec, Store.upsertIdentity]
      cases s.identities c' npub' with
      | none | some row => exact (identities_setIdentity _ _ _).trans (if_neg hkey)
  | revokeIdentity c' npub' revokedBy reason =>
    by_cases hkey : c = c' ∧ npub = npub'
    · obtain ⟨rfl, rfl⟩ := hkey
      rw [exec, Store.revokeIdentity]
      cases hrow : s.identities c npub with
      | none => exact .inl hrow
      | some row =>
        dsimp only
        split
        · exact .inl hrow
        · exact .inr (.inr ⟨revokedBy, reason, row, _, rfl, rfl,
            (identities_setIdentity _ _ _).trans (if_pos ⟨rfl, rfl⟩), rfl, rfl⟩)
    · left
      rw [exec, Store.revokeIdentity]
      cases s.identities c' npub' with
      | none => rfl
      | some row =>
        dsimp only
        split
        · rfl
        · exact (identities_setIdentity _ _ _).trans (if_neg hkey)
  | claimMembership c' npub' role =>
    left
    rw [exec, Store.claimMembership]
    split <;> rfl
  | setNonce nonce =>
    left
    rw [exec]
    split <;> rfl
  | deleteMember c' npub' =>
    left
    rw [exec, Store.deleteMember]
    split
    · rfl
    · split <;> rfl
  | _ => exact .inl rfl

variable {row : EvmIdentity}

theorem identity_kept (h : s.identities c npub = some row) (i : Statement) :
    ∃ row', (exec i s).1.identities c npub = some row' ∧
      (row.isRevoked = true → row'.isRevoked = true) := by
  obtain hsame | ⟨account, att, -, row', hrow', -, hrevoked⟩ |
    ⟨_, _, _, row', -, -, hrow', -, hrevoked⟩ := identities_exec i s c npub
  · exact ⟨row, hsame.trans h, id⟩
  · refine ⟨row', hrow', fun hrow => ?_⟩
    rwa [EvmIdentity.isRevoked, hrevoked, h]
  · exact ⟨row', hrow', fun _ => hrevoked⟩

theorem revoked_revokeIdentity (h : s.identities c npub = some row) (revokedBy : String)
    (reason : Option String) :
    ∃ row', (exec (.revokeIdentity c npub revokedBy reason) s).1.identities c npub = some row' ∧
      row'.isRevoked = true := by
  rw [exec, Store.revokeIdentity, h]
  dsimp only
  split
  · next hrevoked => exact ⟨row, h, hrevoked⟩
  · exact ⟨_, (identities_setIdentity _ _ _).trans (if_pos ⟨rfl, rfl⟩), rfl⟩

/-- Who writes a membership: a registration that claims it, or a revocation. -/
theorem members_exec (i : Statement) (s : Store) (c : CommunityId) (npub : String) :
    (exec i s).1.members c npub = s.members c npub ∨
      (∃ role, i = .claimMembership c npub role) ∨
      (i = .deleteMember c npub ∧ (exec i s).1.members c npub = none) := by
  cases i with
  | claimMembership c' npub' role =>
    by_cases hkey : c = c' ∧ npub = npub'
    · obtain ⟨rfl, rfl⟩ := hkey
      exact .inr (.inl ⟨role, rfl⟩)
    · left
      rw [exec, Store.claimMembership]
      split
      · rfl
      · exact (members_setMember _ _ _).trans (if_neg hkey)
  | deleteMember c' npub' =>
    rw [exec, Store.deleteMember]
    split
    · exact .inl rfl
    · split
      · exact .inl rfl
      · by_cases hkey : c = c' ∧ npub = npub'
        · obtain ⟨rfl, rfl⟩ := hkey
          exact .inr (.inr ⟨rfl, (members_setMember _ _ _).trans (if_pos ⟨rfl, rfl⟩)⟩)
        · exact .inl ((members_setMember _ _ _).trans (if_neg hkey))
  | upsertIdentity c' npub' address att =>
    left
    dsimp only [exec, Store.upsertIdentity]
    split <;> rfl
  | setNonce nonce =>
    left
    rw [exec]
    split <;> rfl
  | revokeIdentity c' npub' revokedBy reason =>
    left
    rw [exec, Store.revokeIdentity]
    split
    · rfl
    · split <;> rfl
  | _ => exact .inl rfl

theorem members_deleteMember {row : Member}
    (h : (exec (.deleteMember c npub) s).1.members c npub = some row) : row.role = "owner" := by
  rw [exec, Store.deleteMember] at h
  split at h
  · next hnone =>
    rw [hnone] at h
    cases h
  · next member hmember =>
    split at h
    · next howner =>
      rw [hmember] at h
      cases h
      exact howner
    · have hgone := h.symm.trans ((members_setMember _ _ _).trans (if_pos ⟨rfl, rfl⟩))
      cases hgone

end Store

/-! ### What the requests do -/

section Until

-- Programs are compared without looking into the host.
attribute [local irreducible] normalizeHost

variable {E : (i : Statement) → Reply i → Prop} {Q : Statement → Prop} {T : Response → Prop}

theorem until_orRefuse {γ : Type} {check : Except ApiError γ} {next : γ → Handler}
    (hT : ∀ e, T (.refused e)) (h : ∀ v, check = .ok v → (next v).Until E Q T) :
    (orRefuse check next).Until E Q T := by
  cases check with
  | error e => exact hT e
  | ok v => exact h v rfl

theorem until_bindCommunity {rawHost : String} {next : CommunityId → String → Handler}
    (hT : ∀ e, T (.refused e)) (hQ : ∀ host, Q (.resolveHost host))
    (h : ∀ c, E (.resolveHost (normalizeHost rawHost)) (some c) ∨
      (next c (normalizeHost rawHost)).Until E Q T) :
    (bindCommunity rawHost next).Until E Q T := by
  refine Program.until_ite (fun _ => hT _) fun _ => ⟨hQ _, fun found => ?_⟩
  cases found with
  | none => exact .inr (hT _)
  | some c => exact h c

theorem until_rateLimited {npubHex : String} {next : Bool → Handler}
    (hincr : ∀ npub, Q (.incrRate npub)) (hexpire : ∀ npub, Q (.expireRate npub))
    (h : ∀ limited, (next limited).Until E Q T) : (rateLimited npubHex next).Until E Q T := by
  refine ⟨hincr _, fun count => .inr (Program.until_ite (fun _ => ?_) fun _ => h _)⟩
  exact ⟨hexpire _, fun _ => .inr (h _)⟩

variable {Sig VerifyingKey : Type} {R : Relay Sig VerifyingKey}

variable {arrival : Registration}

/-- What a registration does: what it does once its proofs are checked. -/
theorem until_register (hT : ∀ e, T (.refused e)) (hhost : ∀ host, Q (.resolveHost host))
    (hincr : ∀ npub, Q (.incrRate npub)) (hexpire : ∀ npub, Q (.expireRate npub))
    (h : ∀ c body siwe, arrival.body = .ok body →
      checkProofs R (normalizeHost arrival.rawHost) body arrival = .ok siwe →
      E (.resolveHost (normalizeHost arrival.rawHost)) (some c) ∨
        (registerProven R c (normalizeHost arrival.rawHost) body arrival siwe).Until E Q T) :
    (register R arrival).Until E Q T := by
  refine until_bindCommunity hT hhost fun c => ?_
  by_cases hE : E (.resolveHost (normalizeHost arrival.rawHost)) (some c)
  · exact .inl hE
  · refine .inr (until_orRefuse hT fun body hbody => ?_)
    refine until_rateLimited hincr hexpire fun limited => ?_
    refine Program.until_ite (fun _ => hT _) fun _ => ?_
    refine until_orRefuse hT fun siwe hsiwe => ?_
    have hparsed : arrival.body = .ok body := by
      cases hraw : arrival.body with
      | error e =>
        rw [parseBody, hraw] at hbody
        cases hbody
      | ok body' =>
        rw [parseBody, hraw] at hbody
        rw [Except.ok.inj hbody]
    exact (h c body siwe hparsed hsiwe).resolve_left hE

variable {c : CommunityId} {body : SiweRegisterRequest} {siwe : SiweMessage}

theorem until_registerProven {host : String} (hT : ∀ e, T (.refused e))
    (hrevoked : ∀ npub, Q (.isRevoked c npub)) (hnonce : Q (.takeNonce siwe.nonce))
    (h : ∀ revoked handle, revoked ≠ some true →
      E (.isRevoked c (hexEncode body.nostrProof.pubkey.toList)) revoked ∨
        E (.takeNonce siwe.nonce) true ∨ (provision c host body siwe handle).Until E Q T) :
    (registerProven R c host body arrival siwe).Until E Q T := by
  refine ⟨hrevoked _, fun revoked => ?_⟩
  by_cases hE : E (.isRevoked c (hexEncode body.nostrProof.pubkey.toList)) revoked
  · exact .inl hE
  · refine .inr (Program.until_ite (fun _ => hT _) fun hpassed => ?_)
    refine until_orRefuse hT fun handle _ => ⟨hnonce, fun existed => ?_⟩
    cases existed with
    | false => exact .inr (hT _)
    | true => exact (h revoked handle hpassed).resolve_left hE

theorem until_provision {host : String} {handle : Option String}
    (hclaim : ∀ npub, Q (.claimMembership c npub "member"))
    (hupsert : Q (.upsertIdentity c (hexEncode body.nostrProof.pubkey.toList) siwe.address
      body.attestation))
    (hnip05 : ∀ npub handle, Q (.setUserNip05 c npub handle))
    (hT : ∀ inserted npub, T (.registered inserted c host npub siwe.address)) :
    (provision c host body siwe handle).Until E Q T := by
  refine ⟨hclaim _, fun inserted => .inr ⟨hupsert, fun _ => .inr ?_⟩⟩
  cases handle with
  | none => exact hT _ _
  | some handle => exact ⟨hnip05 _ _, fun _ => .inr (hT _ _)⟩

/-- What a revocation does: what it does once the binding is read. -/
theorem until_revoke {arrival : Revocation} (hT : ∀ e, T (.refused e))
    (hhost : ∀ host, Q (.resolveHost host)) (hget : ∀ c npub, Q (.getIdentity c npub))
    (h : ∀ c npub row account,
      E (.getIdentity c npub) (some row) ∨ (revokeBinding c npub account).Until E Q T) :
    (revoke R arrival).Until E Q T := by
  refine until_bindCommunity hT hhost fun c => .inr ?_
  refine until_orRefuse hT fun proof _ => until_orRefuse hT fun proofAddress _ => ?_
  refine ⟨hget _ _, fun binding => ?_⟩
  cases binding with
  | none => exact .inr (hT _)
  | some row =>
    by_cases hE : E (.getIdentity c (hexEncode proof.pubkey.toList)) (some row)
    · exact .inl hE
    · exact .inr (until_orRefuse hT fun account _ => (h _ _ _ account).resolve_left hE)

theorem until_revokeBinding {npub : String} {account : EvmAddress}
    (hrevoke : Q (.revokeIdentity c npub npub none))
    (h : (∀ revoked, E (.revokeIdentity c npub npub none) revoked) ∨
      Q (.deleteMember c npub) ∧ ((∀ deleted, E (.deleteMember c npub) deleted) ∨
        Q (.memberExists c npub) ∧ T (.revoked c npub account))) :
    (revokeBinding c npub account).Until E Q T := by
  refine ⟨hrevoke, fun revoked => ?_⟩
  obtain hE | ⟨hdelete, hrest⟩ := h
  · exact .inl (hE revoked)
  · refine .inr ⟨hdelete, fun deleted => ?_⟩
    obtain hE | ⟨hexists, hanswer⟩ := hrest
    · exact .inl (hE deleted)
    · exact .inr (Program.until_ite (fun _ => hanswer) fun _ => ⟨hexists, fun _ => .inr hanswer⟩)

end Until

end Buzz.Evm
