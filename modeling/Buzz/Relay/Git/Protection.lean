import Buzz.Db.Channel.Members
import Buzz.Relay.Git.Patterns

/-!
# Protected refs

Protection rules add constraints to refs, and the constraints of all matching rules are united: the
strictest role, and every flag that one of them sets. A ref that no rule matches has a built-in
minimum role, which depends on the kind of the update; a rule never goes below it.

So a rule is best read as a set of pushes that it permits. An update is allowed when the pusher has
the built-in role and every matching rule permits it, and all that is said about adding rules,
raising roles and reordering follows from that.
-/

namespace Buzz.Channel.MemberRole

/-- Canonical string representation. -/
def asStr : MemberRole → String
  | owner => "owner"
  | admin => "admin"
  | member => "member"
  | guest => "guest"
  | bot => "bot"

/-- Numeric permission level for authorization comparisons. -/
def permissionLevel : MemberRole → Nat
  | owner => 4
  | admin => 3
  | member => 2
  | guest => 1
  | bot => 0

/-- Does this role meet or exceed the required one? -/
def hasAtLeast (role required : MemberRole) : Bool :=
  decide (required.permissionLevel ≤ role.permissionLevel)

theorem hasAtLeast_iff {role required : MemberRole} :
    role.hasAtLeast required = true ↔ required.permissionLevel ≤ role.permissionLevel := by
  simp [hasAtLeast]

/-- The stricter of two roles, the first one if they are of one level. -/
def stricter (existing role : MemberRole) : MemberRole :=
  if existing.permissionLevel < role.permissionLevel then role else existing

theorem permissionLevel_stricter (existing role : MemberRole) :
    (stricter existing role).permissionLevel =
      max existing.permissionLevel role.permissionLevel := by
  rw [stricter]
  split
  · omega
  · omega

theorem permissionLevel_injective : Function.Injective permissionLevel := by
  intro a b h
  cases a <;> cases b <;> first | rfl | exact absurd h (by decide)

theorem hasAtLeast_stricter {role a b : MemberRole} :
    role.hasAtLeast (stricter a b) = true ↔
      role.hasAtLeast a = true ∧ role.hasAtLeast b = true := by
  simp only [hasAtLeast_iff, permissionLevel_stricter]
  omega

end Buzz.Channel.MemberRole

namespace Buzz.Git

open Channel (MemberRole)

inductive UpdateKind where
  | create
  | fastForward
  | nonFastForward
  | delete
  deriving DecidableEq

def zeroOid : String := "0000000000000000000000000000000000000000"

/-- Classify a ref update from its object ids. -/
def UpdateKind.classify (oldOid newOid : String) (isAncestor : Bool) : UpdateKind :=
  if oldOid = zeroOid then .create
  else if newOid = zeroOid then .delete
  else if isAncestor then .fastForward
  else .nonFastForward

/-- The update of a ref in a push. -/
structure RefUpdate where
  refName : String
  kind : UpdateKind
  oldOid : String
  newOid : String

structure ProtectionRule where
  pattern : RefPattern
  pushRole : Option MemberRole
  noForcePush : Bool
  noDelete : Bool
  requirePatch : Bool

/-- Built-in minimum role for an operation. -/
def defaultMinRole (refName : String) (kind : UpdateKind) : MemberRole :=
  let isBranch := startsWith refName "refs/heads/"
  let isTag := startsWith refName "refs/tags/"
  match kind with
  | .create => if isBranch || isTag then .member else .admin
  -- a tag that is moved takes an admin, as any other ref does
  | .fastForward => if isBranch then .member else .admin
  | .nonFastForward => .admin
  | .delete => .admin

/-- The effective constraints for a ref after uniting all matching rules. -/
structure EffectiveRules where
  pushRole : Option MemberRole
  noForcePush : Bool
  noDelete : Bool
  requirePatch : Bool
  hasExplicitMatch : Bool

namespace EffectiveRules

def initial : EffectiveRules := ⟨none, false, false, false, false⟩

def union (e : EffectiveRules) (rule : ProtectionRule) : EffectiveRules where
  pushRole :=
    match rule.pushRole with
    | none => e.pushRole
    | some role =>
      match e.pushRole with
      | none => some role
      | some existing => some (existing.stricter role)
  noForcePush := e.noForcePush || rule.noForcePush
  noDelete := e.noDelete || rule.noDelete
  requirePatch := e.requirePatch || rule.requirePatch
  hasExplicitMatch := true

def step (refName : String) (e : EffectiveRules) (rule : ProtectionRule) : EffectiveRules :=
  if !rule.pattern.matchesRef refName then e else e.union rule

/-- Compute effective rules by uniting all protection rules that match a ref. -/
def forRef (refName : String) (rules : List ProtectionRule) : EffectiveRules :=
  rules.foldl (step refName) initial

end EffectiveRules

/-- Why an update is refused. -/
structure Denial where
  refName : String
  reason : String

/-- The role that is required: an explicit one can never weaken the built-in one. -/
def minRole (pushRole : Option MemberRole) (defaultRole : MemberRole) : MemberRole :=
  match pushRole with
  | some explicit =>
    if defaultRole.permissionLevel ≤ explicit.permissionLevel then explicit else defaultRole
  | none => defaultRole

/-- Evaluate a single ref update against effective rules and the pusher's role. -/
def evaluateRefUpdate (update : RefUpdate) (role : MemberRole) (rules : List ProtectionRule) :
    Except Denial Unit :=
  let effective := EffectiveRules.forRef update.refName rules
  let defaultRole := defaultMinRole update.refName update.kind
  if !effective.hasExplicitMatch then
    if !role.hasAtLeast defaultRole then
      .error ⟨update.refName, s!"requires {defaultRole.asStr} role (you have {role.asStr}), " ++
        "using built-in defaults"⟩
    else .ok ()
  else if effective.requirePatch then
    .error ⟨update.refName,
      "direct push denied: require-patch is set, submit a NIP-34 patch"⟩
  else
    let minRole := minRole effective.pushRole defaultRole
    if !role.hasAtLeast minRole then
      .error ⟨update.refName, s!"requires {minRole.asStr} role (you have {role.asStr})"⟩
    else if effective.noForcePush ∧ update.kind = .nonFastForward then
      .error ⟨update.refName, "non-fast-forward update denied: no-force-push is set"⟩
    else if effective.noDelete ∧ update.kind = .delete then
      .error ⟨update.refName, "ref deletion denied: no-delete is set"⟩
    else .ok ()

def Denial.ofResult : Except Denial Unit → Option Denial
  | .ok () => none
  | .error denial => some denial

/-- Evaluate an entire push against protection rules. -/
def evaluatePush (updates : List RefUpdate) (role : MemberRole) (rules : List ProtectionRule) :
    Except (List Denial) Unit :=
  let denials := updates.filterMap fun update =>
    Denial.ofResult (evaluateRefUpdate update role rules)
  if denials.isEmpty then .ok () else .error denials

/-! ### What rules permit -/

/-- A rule that applies permits an update of this kind by this role. -/
structure ProtectionRule.Permits (rule : ProtectionRule) (kind : UpdateKind) (role : MemberRole) :
    Prop where
  patch : rule.requirePatch = false
  role : ∀ required ∈ rule.pushRole, role.hasAtLeast required = true
  force : rule.noForcePush = true → kind ≠ .nonFastForward
  delete : rule.noDelete = true → kind ≠ .delete

/-- What the rules ask of an update. -/
structure EffectiveRules.Permits (e : EffectiveRules) (kind : UpdateKind) (role : MemberRole) :
    Prop where
  patch : e.requirePatch = false
  role : ∀ required ∈ e.pushRole, role.hasAtLeast required = true
  force : e.noForcePush = true → kind ≠ .nonFastForward
  delete : e.noDelete = true → kind ≠ .delete

namespace EffectiveRules

variable {e : EffectiveRules} {rule : ProtectionRule} {kind : UpdateKind} {role : MemberRole}

theorem permits_initial : initial.Permits kind role where
  patch := rfl
  role _ h := nomatch h
  force h := nomatch h
  delete h := nomatch h

theorem role_union (e : EffectiveRules) (rule : ProtectionRule) (role : MemberRole) :
    (∀ required ∈ (e.union rule).pushRole, role.hasAtLeast required = true) ↔
      (∀ required ∈ e.pushRole, role.hasAtLeast required = true) ∧
        ∀ required ∈ rule.pushRole, role.hasAtLeast required = true := by
  rw [union]
  cases hrule : rule.pushRole with
  | none => simp
  | some required =>
    cases hrole : e.pushRole with
    | none => simp
    | some existing => simp [MemberRole.hasAtLeast_stricter]

theorem permits_union : (e.union rule).Permits kind role ↔
    e.Permits kind role ∧ rule.Permits kind role := by
  constructor
  · rintro ⟨hpatch, hrole, hforce, hdelete⟩
    obtain ⟨hrole, hrole'⟩ := (role_union e rule role).mp hrole
    obtain ⟨hpatch, hpatch'⟩ := Bool.or_eq_false_iff.mp hpatch
    refine ⟨⟨hpatch, hrole, fun h => hforce ?_, fun h => hdelete ?_⟩,
      ⟨hpatch', hrole', fun h => hforce ?_, fun h => hdelete ?_⟩⟩
    · exact Bool.or_eq_true_iff.mpr (Or.inl h)
    · exact Bool.or_eq_true_iff.mpr (Or.inl h)
    · exact Bool.or_eq_true_iff.mpr (Or.inr h)
    · exact Bool.or_eq_true_iff.mpr (Or.inr h)
  · rintro ⟨h, h'⟩
    refine ⟨Bool.or_eq_false_iff.mpr ⟨h.patch, h'.patch⟩,
      (role_union e rule role).mpr ⟨h.role, h'.role⟩, ?_, ?_⟩
    · intro hforce
      exact (Bool.or_eq_true_iff.mp hforce).elim h.force h'.force
    · intro hdelete
      exact (Bool.or_eq_true_iff.mp hdelete).elim h.delete h'.delete

theorem permits_foldl (refName : String) (rules : List ProtectionRule) :
    (rules.foldl (step refName) e).Permits kind role ↔ e.Permits kind role ∧
      ∀ rule ∈ rules, rule.pattern.matchesRef refName = true → rule.Permits kind role := by
  induction rules generalizing e with
  | nil => simp
  | cons rule rules ih =>
    rw [List.foldl_cons, ih, step]
    by_cases hmatch : rule.pattern.matchesRef refName = true
    · simp [hmatch, permits_union, and_assoc]
    · simp [hmatch]

variable {refName : String} {rules : List ProtectionRule}

theorem permits_forRef :
    (forRef refName rules).Permits kind role ↔
      ∀ rule ∈ rules, rule.pattern.matchesRef refName = true → rule.Permits kind role := by
  rw [forRef, permits_foldl]
  exact and_iff_right permits_initial

theorem hasExplicitMatch_foldl (refName : String) (rules : List ProtectionRule) :
    (rules.foldl (step refName) e).hasExplicitMatch = true ↔ e.hasExplicitMatch = true ∨
      ∃ rule ∈ rules, rule.pattern.matchesRef refName = true := by
  induction rules generalizing e with
  | nil => simp
  | cons rule rules ih =>
    rw [List.foldl_cons, ih, step]
    by_cases hmatch : rule.pattern.matchesRef refName = true
    · simp [hmatch, union]
    · simp [hmatch]

theorem hasExplicitMatch_forRef :
    (forRef refName rules).hasExplicitMatch = true ↔
      ∃ rule ∈ rules, rule.pattern.matchesRef refName = true := by
  rw [forRef, hasExplicitMatch_foldl]
  simp [initial]

/-! ### The order of rules -/

theorem stricter_right_comm (a b c : MemberRole) :
    (a.stricter b).stricter c = (a.stricter c).stricter b := by
  apply MemberRole.permissionLevel_injective
  simp only [MemberRole.permissionLevel_stricter]
  omega

theorem stricter_comm (a b : MemberRole) : a.stricter b = b.stricter a := by
  apply MemberRole.permissionLevel_injective
  simp only [MemberRole.permissionLevel_stricter]
  omega

theorem pushRole_union_right_comm (e : EffectiveRules) (r r' : ProtectionRule) :
    ((e.union r).union r').pushRole = ((e.union r').union r).pushRole := by
  simp only [union]
  cases hr : r.pushRole with
  | none => rfl
  | some a =>
    cases hr' : r'.pushRole with
    | none => rfl
    | some b =>
      cases he : e.pushRole with
      | none => exact congrArg some (stricter_comm a b)
      | some c => exact congrArg some (stricter_right_comm c a b)

theorem union_right_comm (e : EffectiveRules) (r r' : ProtectionRule) :
    (e.union r).union r' = (e.union r').union r := by
  have hrole := pushRole_union_right_comm e r r'
  simp only [union, EffectiveRules.mk.injEq, and_true, Bool.or_right_comm] at hrole ⊢
  exact hrole

theorem step_right_comm (refName : String) (e : EffectiveRules) (r r' : ProtectionRule) :
    step refName (step refName e r) r' = step refName (step refName e r') r := by
  simp only [step]
  split <;> split <;> first | rfl | exact union_right_comm e r r'

theorem forRef_perm {rules' : List ProtectionRule} (h : rules.Perm rules') :
    forRef refName rules = forRef refName rules' :=
  h.foldl_eq' (fun r _ r' _ e => step_right_comm refName e r r') initial

end EffectiveRules

/-! ### The verdict -/

variable {role : MemberRole}

theorem hasAtLeast_minRole {defaultRole : MemberRole} {pushRole : Option MemberRole} :
    role.hasAtLeast (minRole pushRole defaultRole) = true ↔ role.hasAtLeast defaultRole = true ∧
      ∀ required ∈ pushRole, role.hasAtLeast required = true := by
  cases pushRole with
  | none => simp [minRole]
  | some explicit =>
    simp only [minRole, Option.mem_def, Option.some.injEq, forall_eq', MemberRole.hasAtLeast_iff]
    split
    · omega
    · omega

variable {rules : List ProtectionRule}

/-- **An update is allowed** when the pusher has the built-in role and every matching rule permits
it. -/
theorem evaluateRefUpdate_ok_iff {update : RefUpdate} :
    evaluateRefUpdate update role rules = .ok () ↔
      role.hasAtLeast (defaultMinRole update.refName update.kind) = true ∧
        ∀ rule ∈ rules, rule.pattern.matchesRef update.refName = true →
          rule.Permits update.kind role := by
  rw [evaluateRefUpdate]
  dsimp only
  by_cases hexplicit : (EffectiveRules.forRef update.refName rules).hasExplicitMatch = true
  · rw [← EffectiveRules.permits_forRef, if_neg (by simp [hexplicit])]
    constructor
    · intro h
      split at h
      · nomatch h
      next hpatch =>
      split at h
      · nomatch h
      next hrole =>
      split at h
      · nomatch h
      next hforce =>
      split at h
      · nomatch h
      next hdelete =>
      rw [Bool.not_eq_true', Bool.not_eq_false, hasAtLeast_minRole] at hrole
      exact ⟨hrole.1, Bool.eq_false_iff.mpr hpatch, hrole.2, fun hset hkind => hforce ⟨hset, hkind⟩,
        fun hset hkind => hdelete ⟨hset, hkind⟩⟩
    · rintro ⟨hdefault, hpatch, hrole, hforce, hdelete⟩
      rw [if_neg (by simp [hpatch]), hasAtLeast_minRole.mpr ⟨hdefault, hrole⟩,
        if_neg (by simp), if_neg fun h => hforce h.1 h.2, if_neg fun h => hdelete h.1 h.2]
  · have hnone : ∀ rule ∈ rules, rule.pattern.matchesRef update.refName = true →
        rule.Permits update.kind role := by
      intro rule hrule hmatch
      exact absurd (EffectiveRules.hasExplicitMatch_forRef.mpr ⟨rule, hrule, hmatch⟩) hexplicit
    rw [if_pos (by simpa using hexplicit), and_iff_left hnone]
    split
    · next hrole => simpa using hrole
    · next hrole => simpa using hrole

theorem evaluatePush_ok_iff {updates : List RefUpdate} : evaluatePush updates role rules = .ok () ↔
      ∀ update ∈ updates, evaluateRefUpdate update role rules = .ok () := by
  have hnone : ∀ result : Except Denial Unit, Denial.ofResult result = none ↔ result = .ok () := by
    intro result
    cases result <;> simp [Denial.ofResult]
  rw [evaluatePush]
  split
  · next hempty =>
    rw [List.isEmpty_iff, List.filterMap_eq_nil_iff] at hempty
    simpa [hnone] using hempty
  · next hne =>
    rw [List.isEmpty_iff, List.filterMap_eq_nil_iff] at hne
    simpa [hnone] using hne

theorem denials_perm {updates updates' : List RefUpdate} (h : updates.Perm updates')
    {denials denials' : List Denial} (hd : evaluatePush updates role rules = .error denials)
    (hd' : evaluatePush updates' role rules = .error denials') : denials.Perm denials' := by
  rw [evaluatePush] at hd hd'
  split at hd
  · nomatch hd
  split at hd'
  · nomatch hd'
  · cases hd
    cases hd'
    exact h.filterMap _

/-- **Protected-ref rules are monotone.** Adding a rule and lowering the role only deny, the order of
rules changes nothing and that of updates only the order of the denials, a push is the conjunction of
its updates, and explicit rules never go below the built-in minimum role. -/
theorem protection_monotone (updates : List RefUpdate) (role : MemberRole)
    (rules : List ProtectionRule) :
    (∀ rule before after, rules = before ++ after →
      evaluatePush updates role (before ++ rule :: after) = .ok () →
        evaluatePush updates role rules = .ok ()) ∧
    (∀ raised : MemberRole, role.permissionLevel ≤ raised.permissionLevel →
      evaluatePush updates role rules = .ok () → evaluatePush updates raised rules = .ok ()) ∧
    (∀ rules', rules.Perm rules' →
      evaluatePush updates role rules = evaluatePush updates role rules') ∧
    (∀ updates', updates.Perm updates' →
      (evaluatePush updates role rules = .ok () ↔ evaluatePush updates' role rules = .ok ()) ∧
        ∀ denials denials', evaluatePush updates role rules = .error denials →
          evaluatePush updates' role rules = .error denials' → denials.Perm denials') ∧
    (evaluatePush updates role rules = .ok () ↔
      ∀ update ∈ updates, evaluatePush [update] role rules = .ok ()) ∧
    (evaluatePush updates role rules = .ok () → evaluatePush updates role [] = .ok () ∧
      ∀ update ∈ updates,
        role.hasAtLeast (defaultMinRole update.refName update.kind) = true) := by
  refine ⟨?_, ?_, ?_, ?_, ?_, ?_⟩
  · rintro rule before after rfl
    simp only [evaluatePush_ok_iff, evaluateRefUpdate_ok_iff]
    intro h update hupdate
    obtain ⟨hdefault, hrules⟩ := h update hupdate
    refine ⟨hdefault, fun r hr => hrules r ?_⟩
    rw [List.mem_append] at hr
    rw [List.mem_append, List.mem_cons]
    exact hr.imp_right Or.inr
  · intro raised hraised
    have hle : ∀ required, role.hasAtLeast required = true → raised.hasAtLeast required = true := by
      intro required
      simp only [MemberRole.hasAtLeast_iff]
      omega
    simp only [evaluatePush_ok_iff, evaluateRefUpdate_ok_iff]
    intro h update hupdate
    obtain ⟨hdefault, hrules⟩ := h update hupdate
    refine ⟨hle _ hdefault, fun r hr hmatch => ?_⟩
    obtain ⟨hpatch, hrole, hforce, hdelete⟩ := hrules r hr hmatch
    exact ⟨hpatch, fun required hrequired => hle required (hrole required hrequired), hforce, hdelete⟩
  · intro rules' hperm
    simp only [evaluatePush, evaluateRefUpdate, EffectiveRules.forRef_perm hperm]
  · intro updates' hperm
    refine ⟨?_, fun denials denials' => denials_perm hperm⟩
    simp only [evaluatePush_ok_iff, hperm.mem_iff]
  · simp [evaluatePush_ok_iff, forall_eq]
  · simp only [evaluatePush_ok_iff, evaluateRefUpdate_ok_iff]
    intro h
    exact ⟨fun update hupdate => ⟨(h update hupdate).1, nofun⟩,
      fun update hupdate => (h update hupdate).1⟩

end Buzz.Git
