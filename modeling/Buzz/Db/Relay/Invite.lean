import Buzz.Core.Basic
import Buzz.Lib.RowLocks

/-!
# Relay invites

The transaction that claims an invite, statement by statement. The row of the invite is locked first,
so claims of one invite wait for each other. Claims of different invites may admit the same claimant:
the primary key of the membership decides which of them does.

The rows of `relay_invites` are found by their token hash, which is unique, and are kept under it. The
id that the `UPDATE` names is that of the row that was locked.
-/

namespace Buzz.Invite

open Function

/-! ### The tables -/

/-- `SHA-256(code)`. -/
abbrev TokenHash := BitVec 256

abbrev InviteKey := CommunityId × TokenHash

/-- The primary key of `relay_members`. -/
abbrev MemberKey := CommunityId × String

/-- A row of `relay_invites`. -/
structure InviteRow where
  maxUses : Option Nat
  useCount : Nat
  expiresAt : Int

/-- A row of `relay_members`. -/
structure MemberRow where
  role : String
  addedBy : Option String

/-- The tables of invites, members and acceptances. -/
structure InviteDb where
  invites : InviteKey → Option InviteRow
  members : MemberKey → Option MemberRow
  acceptances : MemberKey → String → Bool

namespace InviteDb

variable (db : InviteDb)

/-- `INSERT INTO relay_members ... ON CONFLICT DO NOTHING`. -/
def insertMember (k : MemberKey) (r : MemberRow) : InviteDb :=
  { db with
    members := update db.members k (some ((db.members k).getD r)) }

/-- `INSERT INTO join_policy_acceptances ... ON CONFLICT DO NOTHING`. -/
def accept (k : MemberKey) (version : String) : InviteDb :=
  { db with
    acceptances := update db.acceptances k
      (update (db.acceptances k) version true) }

/-- `UPDATE relay_invites SET use_count`. -/
def setUseCount (k : InviteKey) (n : Nat) : InviteDb :=
  { db with
    invites := update db.invites k
      ((db.invites k).map fun r => { r with useCount := n }) }

end InviteDb

/-! ### Answers -/

inductive ClaimOutcome where
  | joined (useCount : Nat) (usesRemaining : Option Int)
  | alreadyMember (useCount : Nat) (usesRemaining : Option Int)
  | expired
  | exhausted
  | invalid
  deriving DecidableEq

inductive Reply where
  | ok (outcome : ClaimOutcome)
  | checkViolation
  deriving DecidableEq

inductive LockKey where
  | invite (k : InviteKey)
  | member (k : MemberKey)
  deriving DecidableEq

abbrev InviteTxn := Txn InviteDb LockKey Reply

/-! ### The claim -/

/-- What `claim_relay_invite` is called with. -/
structure Claim where
  community : CommunityId
  tokenHash : TokenHash
  claimerPubkey : String
  policyVersion : Option String
  now : Int
  deriving DecidableEq

namespace Claim

variable (q : Claim)

def inviteKey : InviteKey := (q.community, q.tokenHash)

def memberKey : MemberKey := (q.community, q.claimerPubkey)

def memberRow : MemberRow := ⟨"member", some "invite"⟩

/-- What is left of the budget after `useCount` uses. -/
def usesRemaining (invite : InviteRow) (useCount : Nat) : Option Int :=
  invite.maxUses.map fun maxUses => (maxUses : Int) - useCount

/-- Insert join-policy evidence, if there is a policy. Versions have 64 characters. -/
def evidence (next : InviteTxn) : InviteTxn :=
  match q.policyVersion with
  | none => next
  | some version =>
    if version.length ≠ 64 then .rollback .checkViolation
    else .write (fun _ => ()) (fun _ db => db.accept q.memberKey version) next

def alreadyMember (invite : InviteRow) : InviteTxn :=
  q.evidence (.commit (.ok (.alreadyMember invite.useCount (usesRemaining invite invite.useCount))))

def isExhausted (invite : InviteRow) : Bool :=
  invite.maxUses.any fun maxUses => invite.useCount ≥ maxUses

/-- Increment the counter, an `INTEGER` that must not be negative. -/
def increment (invite : InviteRow) : InviteTxn :=
  if invite.useCount + 1 < 2 ^ 31 then
    .write (fun _ => ()) (fun _ db => db.setUseCount q.inviteKey (invite.useCount + 1)) <|
      .commit (.ok (.joined (invite.useCount + 1) (usesRemaining invite (invite.useCount + 1))))
  else .rollback .checkViolation

/-- Insert the member. Only the transaction that does may consume the invite. -/
def insert (invite : InviteRow) : InviteTxn :=
  .lock ⟨.member q.memberKey, .exclusive⟩ <|
    .query (fun _ db => db.insertMember q.memberKey memberRow) fun view =>
      if (view.members q.memberKey).isNone then q.evidence (q.increment invite)
      else q.alreadyMember invite

/-- The part of the claim under the lock of the invite. -/
def locked : InviteTxn :=
  .lock ⟨.invite q.inviteKey, .exclusive⟩ <|
    .read (fun db => db.invites q.inviteKey) fun
      | none => .rollback (.ok .invalid)
      | some invite =>
        if invite.expiresAt ≤ q.now then .rollback (.ok .expired)
        else
          .read (fun db => (db.members q.memberKey).isSome) fun existing =>
            if existing then q.alreadyMember invite
            else if isExhausted invite then .rollback (.ok .exhausted)
            else q.insert invite

end Claim

/-- `claim_relay_invite`. A `SELECT ... FOR UPDATE` that finds no row locks none. -/
def claimRelayInvite (q : Claim) : InviteTxn :=
  .read (fun db => (db.invites q.inviteKey).isSome) fun found =>
    if found then q.locked else .rollback (.ok .invalid)

/-! ### Claims are serial -/

/-- A locked invite stays as it is, and members stay members. -/
def cells : Cells InviteDb LockKey where
  Keeps
    | .invite k, a, b => b.invites k = a.invites k ∧
        ∀ m, (a.members m).isSome = true → (b.members m).isSome = true
    | .member m, a, b => b.members m = a.members m
  refl k db := by
    cases k with
    | invite k => exact ⟨rfl, fun _ hm => hm⟩
    | member m => rfl
  trans {k a b c} hab hbc := by
    cases k with
    | invite k => exact ⟨hbc.1.trans hab.1, fun m hm => hbc.2 m (hab.2 m hm)⟩
    | member m => exact hbc.trans hab

/-- What a claim answers that is rolled back. -/
def Reply.IsRefusal : Reply → Prop
  | .ok (.joined _ _) => False
  | .ok (.alreadyMember _ _) => False
  | _ => True

section Serial

variable {held : List (Lock LockKey)} {db : InviteDb} {q : Claim} {next : InviteTxn}

theorem insertMember_isSome (k m : MemberKey) (r : MemberRow) :
    ((db.insertMember k r).members m).isSome = (decide (m = k) || (db.members m).isSome) := by
  rw [InviteDb.insertMember]
  by_cases hm : m = k
  · subst hm
    simp
  · simp [hm]

theorem local_insertMember {m : MemberKey} (hm : ⟨.member m, .exclusive⟩ ∈ held) (r : MemberRow) :
    cells.Local held (InviteDb.insertMember · m r) where
  footprint k a hk := by
    cases k with
    | invite k =>
      refine ⟨rfl, fun m' hsome => ?_⟩
      rw [insertMember_isSome, hsome, Bool.or_true]
    | member m' =>
      refine update_of_ne (fun heq => ?_) _ _
      subst heq
      exact hk hm
  congr k a b h := by
    cases k with
    | invite k =>
      refine ⟨h.1, fun m' hsome => ?_⟩
      rw [insertMember_isSome] at hsome ⊢
      obtain heq | hsome := (Bool.or_eq_true _ _).mp hsome
      · rw [heq, Bool.true_or]
      · rw [h.2 m' hsome, Bool.or_true]
    | member m' =>
      show update b.members m _ m' = update a.members m _ m'
      have h : b.members m' = a.members m' := h
      by_cases heq : m' = m
      · subst heq
        simp [h]
      · simp [heq, h]

theorem local_setUseCount {k : InviteKey} (hk : ⟨.invite k, .exclusive⟩ ∈ held) (n : Nat) :
    cells.Local held (InviteDb.setUseCount · k n) where
  footprint j a hj := by
    cases j with
    | invite k' =>
      refine ⟨update_of_ne (fun heq => ?_) _ _, fun _ hm => hm⟩
      subst heq
      exact hj hk
    | member m => rfl
  congr j a b h := by
    cases j with
    | invite k' =>
      refine ⟨?_, h.2⟩
      show update b.invites k _ k' = update a.invites k _ k'
      by_cases heq : k' = k
      · subst heq
        simp [h.1]
      · simp [heq, h.1]
    | member m => exact h

theorem local_accept (k : MemberKey) (version : String) :
    cells.Local held (InviteDb.accept · k version) where
  footprint j a _ := by
    cases j with
    | invite k' => exact ⟨rfl, fun _ hm => hm⟩
    | member m => rfl
  congr j a b h := by
    cases j with
    | invite k' | member m => exact h

/-- Writes are under their locks, and refusals write nothing. -/
abbrev Guarded (held : List (Lock LockKey)) (p : InviteTxn) : Prop :=
  p.Guarded cells (fun _ => True) Reply.IsRefusal held

theorem guarded_write {change : InviteDb → InviteDb} (hlocal : cells.Local held change)
    (hnext : Guarded held next) : Guarded held (.write (fun _ => ()) (fun _ => change) next) :=
  Txn.guarded_write (fun _ _ _ _ _ => rfl) (fun _ _ => hlocal) (fun _ _ _ _ _ => trivial) hnext

theorem guarded_evidence (hnext : Guarded held next) : Guarded held (q.evidence next) := by
  rw [Claim.evidence]
  cases q.policyVersion with
  | none => exact hnext
  | some version =>
    dsimp only
    split
    · trivial
    · exact guarded_write (local_accept _ _) hnext

variable {invite : InviteRow}

theorem guarded_increment (hk : ⟨.invite q.inviteKey, .exclusive⟩ ∈ held) :
    Guarded held (q.increment invite) := by
  rw [Claim.increment]
  split
  · exact guarded_write (local_setUseCount hk _) trivial
  · trivial

theorem guarded_insert (hk : ⟨.invite q.inviteKey, .exclusive⟩ ∈ held) :
    Guarded held (q.insert invite) := by
  have hm : (⟨.member q.memberKey, .exclusive⟩ : Lock LockKey) ∈
      ⟨.member q.memberKey, .exclusive⟩ :: held := List.mem_cons_self
  refine Txn.guarded_lock fun view _ => ⟨local_insertMember hm _, ?_, fun db _ hagree => ?_⟩
  · dsimp only
    split
    · exact guarded_evidence (guarded_increment (List.mem_cons_of_mem _ hk))
    · exact guarded_evidence trivial
  · refine ⟨trivial, fun _ => ?_⟩
    have hrow : db.members q.memberKey = view.members q.memberKey := hagree _ hm
    dsimp only
    rw [hrow]

theorem exec_insert_of_isSome (h : (db.members q.memberKey).isSome = true) :
    (q.insert invite).exec db = (q.alreadyMember invite).exec db := by
  obtain ⟨row, hrow⟩ := Option.isSome_iff_exists.mp h
  have hsame : db.insertMember q.memberKey Claim.memberRow = db := by
    rw [InviteDb.insertMember, hrow, Option.getD_some, ← hrow, update_eq_self]
  rw [Claim.insert, Txn.exec_lock, Txn.exec, hsame, hrow]
  rfl

theorem guarded_existing (hk : ⟨.invite q.inviteKey, .exclusive⟩ ∈ held) :
    Guarded held (.read (fun db => (db.members q.memberKey).isSome) fun existing =>
      if existing then q.alreadyMember invite
      else if Claim.isExhausted invite then .rollback (.ok .exhausted)
      else q.insert invite) := by
  refine fun view _ => ⟨.id, ?_, fun db _ hagree => ⟨trivial, fun hcommits => ?_⟩⟩
  · dsimp only
    split
    · exact guarded_evidence trivial
    · split
      · trivial
      · exact guarded_insert hk
  · have hgrow := (hagree _ hk).2 q.memberKey
    dsimp only at hcommits ⊢
    cases hview : (view.members q.memberKey).isSome with
    | true => rw [hgrow hview]
    | false =>
      rw [hview] at hcommits
      cases hlater : (db.members q.memberKey).isSome with
      | false => rfl
      | true =>
        rw [if_neg Bool.false_ne_true, if_pos rfl]
        rw [if_neg Bool.false_ne_true] at hcommits
        split at hcommits
        · nomatch hcommits
        · next hroom =>
          rw [if_neg hroom]
          exact exec_insert_of_isSome hlater

theorem guarded_locked : Guarded held q.locked := by
  have hk : (⟨.invite q.inviteKey, .exclusive⟩ : Lock LockKey) ∈
      ⟨.invite q.inviteKey, .exclusive⟩ :: held := List.mem_cons_self
  refine Txn.guarded_lock (Txn.guarded_read (fun a b _ _ hagree => ?_) fun view _ => ?_)
  · exact (hagree _ hk).1.symm
  · cases view.invites q.inviteKey with
    | none => trivial
    | some invite =>
      dsimp only
      split
      · trivial
      · exact guarded_existing hk

/-- **Claims are serial.** -/
theorem guarded_claimRelayInvite (q : Claim) : Guarded [] (claimRelayInvite q) := by
  refine Txn.guarded_guess (fun view db _ _ _ hcommits => ?_) fun view _ => ?_
  · cases hview : (view.invites q.inviteKey).isSome with
    | false =>
      rw [hview] at hcommits
      nomatch hcommits
    | true =>
      rw [hview, if_pos rfl] at hcommits
      cases hinvite : db.invites q.inviteKey with
      | none =>
        rw [Claim.locked, Txn.Commits, Txn.exec_lock, Txn.exec_read, hinvite] at hcommits
        nomatch hcommits
      | some invite => rfl
  · split
    · exact guarded_locked
    · trivial

end Serial

/-! ### What a claim does -/

/-- The evidence of the join policy, if there is one. -/
def Claim.accepted (q : Claim) (db : InviteDb) : InviteDb :=
  match q.policyVersion with
  | none => db
  | some version => db.accept q.memberKey version

/-- The member joins, and uses the invite once. -/
def Claim.joining (q : Claim) (invite : InviteRow) (db : InviteDb) : InviteDb :=
  (q.accepted (db.insertMember q.memberKey Claim.memberRow)).setUseCount q.inviteKey
    (invite.useCount + 1)

/-- What a claim that commits does, and answers. -/
inductive Claimed (q : Claim) (db : InviteDb) : ClaimOutcome → InviteDb → Prop where
  | joined {invite : InviteRow} (hinvite : db.invites q.inviteKey = some invite)
      (hlive : q.now < invite.expiresAt) (hroom : ∀ n, invite.maxUses = some n → invite.useCount < n)
      (hnew : db.members q.memberKey = none) :
      Claimed q db (.joined (invite.useCount + 1)
        (Claim.usesRemaining invite (invite.useCount + 1))) (q.joining invite db)
  | alreadyMember {invite : InviteRow} (hinvite : db.invites q.inviteKey = some invite)
      (hlive : q.now < invite.expiresAt) (hmember : (db.members q.memberKey).isSome = true) :
      Claimed q db (.alreadyMember invite.useCount (Claim.usesRemaining invite invite.useCount))
        (q.accepted db)

section Exec

variable {q : Claim} {db db' : InviteDb} {r : Reply} {next : InviteTxn} {invite : InviteRow}

theorem exec_evidence (h : (q.evidence next).exec db = (db', true, r)) :
    next.exec (q.accepted db) = (db', true, r) := by
  rw [Claim.evidence] at h
  rw [Claim.accepted]
  cases hpolicy : q.policyVersion with
  | none =>
    rw [hpolicy] at h
    exact h
  | some version =>
    rw [hpolicy] at h
    dsimp only at h ⊢
    split at h
    · cases congrArg (fun x => x.2.1) h
    · exact h

theorem exec_alreadyMember (hinvite : db.invites q.inviteKey = some invite)
    (hlive : q.now < invite.expiresAt) (hmember : (db.members q.memberKey).isSome = true)
    (h : (q.alreadyMember invite).exec db = (db', true, r)) :
    ∃ o, r = .ok o ∧ Claimed q db o db' := by
  obtain ⟨rfl, -, rfl⟩ := exec_evidence h
  exact ⟨_, rfl, .alreadyMember hinvite hlive hmember⟩

theorem exec_insert_of_none (hinvite : db.invites q.inviteKey = some invite)
    (hlive : q.now < invite.expiresAt) (hroom : ¬Claim.isExhausted invite = true)
    (hnew : db.members q.memberKey = none) (h : (q.insert invite).exec db = (db', true, r)) :
    ∃ o, r = .ok o ∧ Claimed q db o db' := by
  rw [Claim.insert, Txn.exec_lock, Txn.exec, hnew] at h
  have h := exec_evidence h
  rw [Claim.increment] at h
  split at h
  · obtain ⟨rfl, -, rfl⟩ := h
    refine ⟨_, rfl, .joined hinvite hlive (fun n hn => ?_) hnew⟩
    rw [Claim.isExhausted, hn, Option.any_some, decide_eq_true_eq] at hroom
    omega
  · exact absurd (congrArg (fun x => x.2.1) h) Bool.false_ne_true

/-- **What a claim does** that runs alone and commits. -/
theorem exec_claimRelayInvite (h : (claimRelayInvite q).exec db = (db', true, r)) :
    ∃ o, r = .ok o ∧ Claimed q db o db' := by
  have hrefused : ∀ r', (Txn.rollback r' : InviteTxn).exec db ≠ (db', true, r) :=
    fun r' heq => nomatch (congrArg (fun x => x.2.1) heq)
  rw [claimRelayInvite, Txn.exec_read] at h
  split at h
  · rw [Claim.locked, Txn.exec_lock, Txn.exec_read] at h
    cases hinvite : db.invites q.inviteKey with
    | none =>
      rw [hinvite] at h
      exact absurd h (hrefused _)
    | some invite =>
      rw [hinvite] at h
      dsimp only at h
      split at h
      · exact absurd h (hrefused _)
      · next hlive =>
        rw [Txn.exec_read] at h
        split at h
        · next hmember => exact exec_alreadyMember hinvite (by omega) hmember h
        · next hmember =>
          split at h
          · exact absurd h (hrefused _)
          · next hroom =>
            exact exec_insert_of_none hinvite (by omega) hroom
              (Option.not_isSome_iff_eq_none.mp hmember) h
  · exact absurd h (hrefused _)

end Exec

end Buzz.Invite
