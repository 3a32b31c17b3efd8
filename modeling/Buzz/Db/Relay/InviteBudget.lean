import Buzz.Db.Relay.Invite

/-!
# The budget of an invite

Claims of invites by any claimants, in any interleaving of their statements. The counter of an invite
is the number of claims that joined by it, and stays within the budget. A claim that does not join
leaves invites and memberships alone; of a member, it keeps the evidence of the join policy.
-/

namespace Buzz.Invite

open Function

abbrev ClaimWorld := World InviteDb Claim LockKey Reply

def ClaimOutcome.isJoined : ClaimOutcome → Bool
  | .joined _ _ => true
  | _ => false

/-- The answer is that the claim has joined. -/
def Reply.isJoined : Reply → Bool
  | .ok o => o.isJoined
  | .checkViolation => false

/-- How many claims of an invite have joined. -/
def joins (k : InviteKey) (log : List (Answer Claim Reply)) : Nat :=
  log.countP fun a => a.request.inviteKey == k && a.committed && a.result.isJoined

def InviteDb.useCount (db : InviteDb) (k : InviteKey) : Nat :=
  ((db.invites k).map InviteRow.useCount).getD 0

/-- No counter exceeds its budget. -/
def WithinBudget (db : InviteDb) : Prop :=
  ∀ k r n, db.invites k = some r → r.maxUses = some n → r.useCount ≤ n

/-- What a step of a claim does to tables and answers. -/
inductive Settles (w w' : ClaimWorld) : Prop where
  | quiet (hdb : w'.db = w.db) (hanswers : w'.answers = w.answers)
  | refused (q : Claim) (r : Reply) (hrefusal : r.IsRefusal) (hdb : w'.db = w.db)
      (hanswers : w'.answers = ⟨q, false, r⟩ :: w.answers)
  /-- A claim has joined, or found its claimer a member. It has joined exactly if it has inserted the
  membership. -/
  | claimed (q : Claim) (o : ClaimOutcome) (hclaimed : Claimed q w.db o w'.db)
      (hjoined : o.isJoined = true ↔
        w.db.members q.memberKey = none ∧ (w'.db.members q.memberKey).isSome = true)
      (hkept : o.isJoined = false → w'.db.invites = w.db.invites ∧ w'.db.members = w.db.members)
      (hanswers : w'.answers = ⟨q, true, .ok o⟩ :: w.answers)

/-! ### One claim -/

section Claimed

variable {q : Claim} {db db' : InviteDb} {o : ClaimOutcome}

theorem accepted_invites (q : Claim) (db : InviteDb) : (q.accepted db).invites = db.invites := by
  rw [Claim.accepted]
  cases q.policyVersion with
  | none => rfl
  | some version => rfl

theorem accepted_members (q : Claim) (db : InviteDb) : (q.accepted db).members = db.members := by
  rw [Claim.accepted]
  cases q.policyVersion with
  | none => rfl
  | some version => rfl

theorem joining_members (q : Claim) (invite : InviteRow) (db : InviteDb) :
    (q.joining invite db).members = (db.insertMember q.memberKey Claim.memberRow).members :=
  accepted_members q _

theorem joining_invites {invite : InviteRow} (h : db.invites q.inviteKey = some invite) :
    (q.joining invite db).invites = update db.invites q.inviteKey
      (some { invite with useCount := invite.useCount + 1 }) := by
  have hinvites : (q.accepted (db.insertMember q.memberKey Claim.memberRow)).invites = db.invites :=
    accepted_invites q _
  simp [Claim.joining, InviteDb.setUseCount, hinvites, h]

theorem Claimed.isJoined_iff (h : Claimed q db o db') : o.isJoined = true ↔
    db.members q.memberKey = none ∧ (db'.members q.memberKey).isSome = true := by
  cases h with
  | joined hinvite hlive hroom hnew =>
    refine ⟨fun _ => ⟨hnew, ?_⟩, fun _ => rfl⟩
    rw [joining_members, insertMember_isSome]
    simp
  | alreadyMember hinvite hlive hmember =>
    refine ⟨fun h => absurd h Bool.false_ne_true, fun ⟨hnone, _⟩ => ?_⟩
    rw [hnone] at hmember
    nomatch hmember

theorem Claimed.kept (h : Claimed q db o db') (hjoined : o.isJoined = false) :
    db'.invites = db.invites ∧ db'.members = db.members := by
  cases h with
  | joined hinvite hlive hroom hnew => exact absurd hjoined.symm Bool.false_ne_true
  | alreadyMember hinvite hlive hmember => exact ⟨accepted_invites q db, accepted_members q db⟩

theorem Claimed.useCount (h : Claimed q db o db') (k : InviteKey) :
    db'.useCount k = db.useCount k + if q.inviteKey = k ∧ o.isJoined = true then 1 else 0 := by
  cases h with
  | joined hinvite hlive hroom hnew =>
    rw [InviteDb.useCount, InviteDb.useCount, joining_invites hinvite]
    by_cases hk : q.inviteKey = k
    · subst hk
      rw [update_self, hinvite, if_pos ⟨rfl, rfl⟩]
      rfl
    · rw [update_of_ne (Ne.symm hk), if_neg fun h => hk h.1]
      rfl
  | alreadyMember hinvite hlive hmember =>
    rw [InviteDb.useCount, InviteDb.useCount, accepted_invites,
      if_neg fun h => Bool.false_ne_true h.2]
    rfl

theorem Claimed.withinBudget (h : Claimed q db o db') (hdb : WithinBudget db) :
    WithinBudget db' := by
  intro k r n hr hn
  cases h with
  | @joined invite hinvite hlive hroom hnew =>
    rw [joining_invites hinvite] at hr
    by_cases hk : k = q.inviteKey
    · subst hk
      rw [update_self] at hr
      cases hr
      exact hroom n hn
    · rw [update_of_ne hk] at hr
      exact hdb k r n hr hn
  | alreadyMember hinvite hlive hmember =>
    rw [accepted_invites] at hr
    exact hdb k r n hr hn

end Claimed

/-! ### Runs -/

section Runs

variable {w₀ w w' : ClaimWorld} {a : SessionAction Claim}

/-- The invariant: every use is a joiner's. -/
structure Accounted (w₀ w : ClaimWorld) : Prop where
  standing : Standing cells (fun _ => True) Reply.IsRefusal claimRelayInvite w
  count : ∀ k, w.db.useCount k = w₀.db.useCount k + joins k w.answers
  budget : WithinBudget w.db

theorem settles_step (h : Standing cells (fun _ => True) Reply.IsRefusal claimRelayInvite w)
    (hs : w.step claimRelayInvite a = some w') : Settles w w' := by
  obtain ⟨-, ⟨hdb, hanswers | ⟨q, r, hrefusal, hanswers⟩⟩ |
    ⟨s, -, -, -, result, hexec, hanswers⟩⟩ :=
    h.step (fun _ q _ => guarded_claimRelayInvite q) hs
  · exact .quiet hdb hanswers
  · exact .refused q r hrefusal hdb hanswers
  · obtain ⟨o, rfl, hclaimed⟩ := exec_claimRelayInvite hexec
    exact .claimed s.request o hclaimed hclaimed.isJoined_iff hclaimed.kept hanswers

theorem joins_cons (k : InviteKey) (q : Claim) (committed : Bool) (r : Reply)
    (log : List (Answer Claim Reply)) : joins k (⟨q, committed, r⟩ :: log) =
      joins k log + if q.inviteKey = k ∧ committed = true ∧ r.isJoined = true then 1 else 0 := by
  rw [joins, joins, List.countP_cons]
  simp [and_assoc]

theorem Accounted.step (h : Accounted w₀ w) (hs : w.step claimRelayInvite a = some w') :
    Accounted w₀ w' := by
  have hstanding := (h.standing.step (fun _ q _ => guarded_claimRelayInvite q) hs).1
  cases settles_step h.standing hs with
  | quiet hdb hanswers =>
    refine ⟨hstanding, ?_, ?_⟩
    · rw [hdb, hanswers]
      exact h.count
    · rw [hdb]
      exact h.budget
  | refused q r hrefusal hdb hanswers =>
    refine ⟨hstanding, fun k => ?_, ?_⟩
    · rw [hdb, hanswers, joins_cons, if_neg fun h => Bool.false_ne_true h.2.1]
      exact h.count k
    · rw [hdb]
      exact h.budget
  | claimed q o hclaimed hjoined hkept hanswers =>
    refine ⟨hstanding, fun k => ?_, hclaimed.withinBudget h.budget⟩
    rw [hclaimed.useCount, h.count k, hanswers, joins_cons, Nat.add_assoc]
    simp [Reply.isJoined]

end Runs

/-- **The budget is respected.** In every run of claims, in any interleaving: the counter of an invite
is what it was plus the number of claims that have joined, it does not exceed the budget, and every
step settles at most one claim, which joins exactly if it inserts the membership, and otherwise leaves
invites and memberships alone. -/
theorem budget_respected {w₀ w : ClaimWorld} {as : List (SessionAction Claim)}
    (hinit : (sessions claimRelayInvite WithinBudget).Init w₀)
    (hrun : (sessions claimRelayInvite WithinBudget).run w₀ as = some w) :
    (∀ k, w.db.useCount k = w₀.db.useCount k + joins k w.answers) ∧ WithinBudget w.db ∧
      ∀ a w', (sessions claimRelayInvite WithinBudget).step w a = some w' → Settles w w' := by
  have hstart : Accounted w₀ w₀ := by
    refine ⟨(Standing.init (fun _ _ => trivial) hinit).1, fun k => ?_, hinit.1⟩
    rw [hinit.2.2]
    rfl
  have h : Accounted w₀ w :=
    StateMachine.run_preserves (I := Accounted w₀) (fun w a w' hw hs => hw.step hs) hrun hstart
  exact ⟨h.count, h.budget, fun a w' hs => settles_step h.standing hs⟩

/-! ### A member claims -/

/-- Every invite has one use, and everybody is a member or nobody. -/
def claimWorld (member : Option MemberRow) : ClaimWorld :=
  ⟨⟨fun _ => some ⟨some 1, 0, 10⟩, fun _ => member, fun _ _ => false⟩, [], []⟩

theorem init_claimWorld (member : Option MemberRow) :
    (sessions claimRelayInvite WithinBudget).Init (claimWorld member) :=
  ⟨fun _ r n hr _ => by rw [← Option.some.inj hr]; exact Nat.zero_le n, rfl, rfl⟩

def policyVersion : String := String.ofList (List.replicate 64 'a')

def policyClaim : Claim := ⟨0, 0, "b", some policyVersion, 5⟩

def untilCommit (n : Nat) : List (SessionAction Claim) :=
  .start 0 policyClaim :: List.replicate n (.step 0)

theorem budget_respected_joined : ∃ w, (sessions claimRelayInvite WithinBudget).run
    (claimWorld none) (untilCommit 9) = some w ∧ w.db.useCount policyClaim.inviteKey = 1 ∧
      w.db.useCount policyClaim.inviteKey =
        (claimWorld none).db.useCount policyClaim.inviteKey +
          joins policyClaim.inviteKey w.answers := by
  have hsome : ((sessions claimRelayInvite WithinBudget).run (claimWorld none)
      (untilCommit 9)).isSome = true := by decide +kernel
  have hcount : ∀ w ∈ (sessions claimRelayInvite WithinBudget).run (claimWorld none)
      (untilCommit 9), w.db.useCount policyClaim.inviteKey = 1 := by decide +kernel
  obtain ⟨w, hrun⟩ := Option.isSome_iff_exists.mp hsome
  exact ⟨w, hrun, hcount w hrun, (budget_respected (init_claimWorld none) hrun).1 _⟩

/-- **Evidence is kept.** The claim of a member adds a row, that of its acceptance of the policy. -/
theorem not_unchanged : ¬∀ (w₀ w w' : ClaimWorld) (as : List (SessionAction Claim))
    (a : SessionAction Claim) (q : Claim) (o : ClaimOutcome),
    (sessions claimRelayInvite WithinBudget).Init w₀ →
    (sessions claimRelayInvite WithinBudget).run w₀ as = some w →
    (sessions claimRelayInvite WithinBudget).step w a = some w' →
    w'.answers = ⟨q, true, .ok o⟩ :: w.answers → o.isJoined = false → w'.db = w.db := by
  intro hunchanged
  let world := claimWorld (some ⟨"member", none⟩)
  have hsome : (((sessions claimRelayInvite WithinBudget).run world (untilCommit 5)).bind
      fun w => (sessions claimRelayInvite WithinBudget).step w (.step 0)).isSome = true := by
    decide +kernel
  have hfacts : ∀ w ∈ (sessions claimRelayInvite WithinBudget).run world (untilCommit 5),
      ∀ w' ∈ (sessions claimRelayInvite WithinBudget).step w (.step 0),
        w.answers = [] ∧ w'.answers = [⟨policyClaim, true, .ok (.alreadyMember 0 (some 1))⟩] ∧
          w.db.acceptances policyClaim.memberKey policyVersion = false ∧
          w'.db.acceptances policyClaim.memberKey policyVersion = true := by
    decide +kernel
  obtain ⟨w', hw'⟩ := Option.isSome_iff_exists.mp hsome
  obtain ⟨w, hrun, hstep⟩ := Option.bind_eq_some_iff.mp hw'
  obtain ⟨hbefore, hanswer, hnone, hevidence⟩ := hfacts w hrun w' hstep
  have hsame := hunchanged world w w' (untilCommit 5) (.step 0) policyClaim
    (.alreadyMember 0 (some 1)) (init_claimWorld _) hrun hstep (by rw [hanswer, hbefore]) rfl
  rw [hsame, hnone] at hevidence
  exact Bool.false_ne_true hevidence

end Buzz.Invite
