import Buzz.Kubernetes.Attempts

/-!
# One attempt per call

A deploy that succeeds has read, under the deadline and last of all, a pod of the agent that runs. A
deploy that has created a pod deletes none. Both hold whatever the cluster replies.

Two things do not. A deploy that has lost the race for the name of the pod looks if the pod runs before
it looks if it is marked for deletion. And a deploy whose pod has vanished creates another one, with
another Secret, though it is to make one attempt.

A pod is deleted only if it was read last and found not to run. The fence is that of what was read.
-/

namespace Buzz.Kubernetes

open List Option
open Program

variable {a : AgentIdentity} {past past' : Past Reply}

/-! ### In every run -/

/-- No pod is deleted after one was created. -/
def NeverDeletesOwn (past : Past Reply) : Prop :=
  ∀ later e earlier, past = later ++ e :: earlier → isCreation e = true →
    ∀ d ∈ later, ∀ name fence, d.1 ≠ .deletePod name fence

theorem neverDeletesOwn (h : Heeds (May a) past) : NeverDeletesOwn past := by
  rintro later e earlier rfl hcreation d hd name fence hdelete
  obtain ⟨l, l', rfl⟩ := append_of_mem hd
  rw [append_assoc, cons_append] at h
  have hnone := h.of_append.delete name fence hdelete
  rw [any_append, any_cons, hcreation, Bool.true_or, Bool.or_true] at hnone
  exact Bool.false_ne_true hnone.symm

/-- The pod that was read last passes, runs, and is not marked for deletion. -/
def ShowsRunning (a : AgentIdentity) (agentId : String) (past : Past Reply) : Prop :=
  ∃ reader pod v before rest, Shows a reader pod v before rest past ∧ v.name = agentId ∧
    v.deletionMarked = false

/-- Of these Secrets, those that the deploy has created and to which none of these pods refers. -/
def litter (pods : List Pod) (secrets : List Secret) (past : Past Reply) : List String :=
  (secretsMade past).filter fun name =>
    (secrets.any fun secret => secret.metadata.name == some name) &&
      !pods.any fun pod => referencedSecret pod == some name

variable {result : Except Stop String}

/-- **A deploy names a pod that runs and stays**, unless it adopts one that is marked. -/
theorem showsRunning_iff (h : Ends a past result) :
    (∀ agentId, result = .ok agentId → ShowsRunning a agentId past) ↔
      ∀ e ∈ past, adoptsMarked a e = false := by
  cases result with
  | error e => exact iff_of_true nofun h.unmarked
  | ok agentId =>
    obtain ⟨reader, pod, v, before, rest, hshows, rfl, hmarked, hfair⟩ := h
    have hread : adoptsMarked a ⟨.getPod .adopting a.podName, .ok (some pod)⟩ =
        v.deletionMarked := by
      rw [adoptsMarked, decide_eq_true hshows.started, hshows.verified, Bool.true_and,
        any_some]
    constructor
    · intro hall e he
      obtain ⟨reader', pod', v', before', rest', hshows', -, hunmarked⟩ := hall v.name rfl
      have hsame := hshows.past.symm.trans hshows'.past
      obtain ⟨hhead, -⟩ := cons.inj hsame
      cases hhead
      obtain rfl := some.inj (hshows.verified.symm.trans hshows'.verified)
      rw [hshows.past] at he
      rcases mem_cons.mp he with rfl | he
      · cases reader with
        | adopting => rw [hread, hunmarked]
        | _ => rfl
      · rcases mem_cons.mp he with rfl | he
        · rfl
        · exact hfair.unmarked e he
    · rintro hall agentId heq
      cases heq
      refine ⟨reader, pod, v, before, rest, hshows, rfl, ?_⟩
      cases hv : v.deletionMarked with
      | false => rfl
      | true =>
        obtain rfl := hmarked hv
        have hone := hall ⟨.getPod .adopting a.podName, .ok (some pod)⟩
          (hshows.past ▸ mem_cons_self)
        rw [hread, hv] at hone
        cases hone

theorem length_litter_le (h : Ends a past result) (pods : List Pod) (secrets : List Secret) :
    (litter pods secrets past).length ≤ 1 + repeats a past := by
  refine le_trans (length_filter_le _ _) ?_
  cases result with
  | error e => exact h.secrets
  | ok agentId =>
    obtain ⟨reader, pod, v, before, rest, hshows, -, -, hfair⟩ := h
    have hsecrets := hfair.secrets
    rw [secretsMade, repeats] at hsecrets
    rw [hshows.past, secretsMade, filterMap_cons_none rfl, filterMap_cons_none rfl,
      repeats, countP_cons, countP_cons]
    omega

variable {σ η : Type}

/-- **What deploys do**, whatever the cluster replies and whatever happens between two calls: a deploy
that succeeds has read, under the deadline and last of all, a pod of the agent that runs. The pod is
not marked for deletion, exactly if the loop of `adopt_winner` has not found one that runs and is
marked. Of the Secrets that the deploy has created and that exist, all but one have a pod that refers
to them, but for one more each time that its loop has found nothing, having created a pod. Having
created a pod, it deletes none. -/
theorem deploy_exact (S : Semantics Reply σ η) (fingerprint : IntentTemplate → String) (turns : Nat)
    (Init : σ → Prop) {x : Execution Reply σ DeployRequest (Except Stop String)}
    (h : (programs S (deploy fingerprint turns) Init).Reachable x) :
    (∀ r ∈ x.running, NeverDeletesOwn (x.past r.id)) ∧
    ∀ y ∈ x.answers, NeverDeletesOwn (x.past y.id) ∧
      (∀ agentId, y.result = .ok agentId → ∃ reader pod v before rest,
        Shows y.request.identity reader pod v before rest (x.past y.id) ∧ v.name = agentId) ∧
      ((∀ agentId, y.result = .ok agentId →
          ShowsRunning y.request.identity agentId (x.past y.id)) ↔
        ∀ e ∈ x.past y.id, adoptsMarked y.request.identity e = false) ∧
      ∀ pods secrets, (litter pods secrets (x.past y.id)).length ≤
        1 + repeats y.request.identity (x.past y.id) := by
  have htold := told_of_reachable (follows_deploy fingerprint turns) h
  refine ⟨fun r hr => neverDeletesOwn (htold.running r hr).1, fun y hy => ?_⟩
  obtain ⟨hheeds, hends⟩ := htold.answers y hy
  refine ⟨neverDeletesOwn hheeds, fun agentId hok => ?_, showsRunning_iff hends,
    length_litter_le hends⟩
  rw [hok] at hends
  obtain ⟨reader, pod, v, before, rest, hshows, hname, -⟩ := hends
  exact ⟨reader, pod, v, before, rest, hshows, hname⟩

/-! ### What is deleted -/

/-- The pod was read last; if it waits for its Secret, that was looked up since. -/
inductive JustRead (reader : Reader) (name : String) (pod : Pod) (rest : Past Reply) :
    Startup → Past Reply → Prop where
  | resolved {startup : Startup} (h : decodeStartup pod = .resolved startup) :
      JustRead reader name pod rest startup (⟨.getPod reader name, .ok (some pod)⟩ :: rest)
  | lookedUp {secretName : String} (found : Bool)
      (h : decodeStartup pod = .configErrorPendingSecretCheck secretName) :
      JustRead reader name pod rest
        (if found then .neverStartedRecoverable else .neverStartedProvablyBroken)
        (⟨.secretExists secretName, .ok found⟩ :: ⟨.getPod reader name, .ok (some pod)⟩ :: rest)

/-- A pod of the agent, of this name, was listed. -/
def Listed (a : AgentIdentity) (name : String) (past : Past Reply) : Prop :=
  ∃ pods now, ⟨.listPods a.selector, .ok (pods, now)⟩ ∈ past ∧
    ∃ pod ∈ pods, pod.metadata.name = some name ∧ (verify pod a .started).isSome = true

/-- The loop of `deploy` replaces such a pod. -/
def IsReplaced (desired : String) (v : VerifiedPod) : Prop :=
  v.deletionMarked = false ∧ (v.startup = .terminated ∨ v.startup = .neverStartedProvablyBroken ∨
    v.startup = .neverStartedRecoverable ∧ v.recordedIntent ≠ some desired)

/-- What the deletion of a pod rests on: the pod was read last and carries the fence. It has
terminated, and its name was listed; or it is one that the loop replaces. -/
def Warranted (a : AgentIdentity) (desired : String) (past : Past Reply) (name : String)
    (fence : Fence) : Prop :=
  ∃ pod startup rest, pod.metadata.uid = some fence.uid ∧
    pod.metadata.resourceVersion = some fence.resourceVersion ∧
    (JustRead .other name pod rest startup past ∧ startup = .terminated ∧ Listed a name rest ∨
      JustRead (.deploying false) a.podName pod rest startup past ∧
        ∃ v, verify pod a startup = some v ∧ v.name = name ∧ v.fence = fence ∧
          IsReplaced desired v)

variable {desired : String}

/-- A deletion is warranted by what was read before. -/
abbrev Deletes (a : AgentIdentity) (desired : String) (past : Past Reply) (i : Statement) : Prop :=
  ∀ name fence, i = .deletePod name fence → Warranted a desired past name fence

def Spares : Statement → Prop
  | .deletePod _ _ => False
  | _ => True

theorem Quiet.spares {i : Statement} (h : Quiet i) : Spares i := by
  cases i with
  | deletePod name fence => exact h
  | _ => trivial

theorem deletes_of_spares {i : Statement} (h : Spares i) : Deletes a desired past i := by
  rintro name fence rfl
  exact h.elim

theorem follows_of_spares {ρ : Type} {p : Program Reply ρ} (h : p.Only Spares)
    {T : Past Reply → ρ → Prop} (hT : ∀ new result, T (new ++ past) result) :
    p.Follows (Deletes a desired) past T :=
  h.follows (fun _ _ _ => deletes_of_spares) fun new _ result => hT new result

theorem follows_of_quiet {ρ : Type} {p : Program Reply ρ} (h : p.Only Quiet)
    {T : Past Reply → ρ → Prop} (hT : ∀ new result, T (new ++ past) result) :
    p.Follows (Deletes a desired) past T :=
  follows_of_spares (h.mono fun _ => Quiet.spares) hT

theorem isReplaced_of_classify {observed : Option VerifiedPod} {name : String} {fence : Fence}
    (h : classify observed desired = .delete name fence) :
    ∃ v, observed = some v ∧ v.name = name ∧ v.fence = fence ∧ IsReplaced desired v := by
  cases observed with
  | none => cases h
  | some v =>
    rw [classify] at h
    split at h
    · cases h
    · next hmarked =>
      have hunmarked := Bool.eq_false_iff.mpr hmarked
      cases hstartup : v.startup with
      | terminated =>
        simp only [hstartup, Action.delete.injEq] at h
        exact ⟨v, rfl, h.1, h.2, hunmarked, .inl hstartup⟩
      | neverStartedProvablyBroken =>
        simp only [hstartup, Action.delete.injEq] at h
        exact ⟨v, rfl, h.1, h.2, hunmarked, .inr (.inl hstartup)⟩
      | neverStartedRecoverable =>
        simp only [hstartup] at h
        split at h
        · cases h
        · next hintent =>
          obtain ⟨hname, hfence⟩ := Action.delete.inj h
          exact ⟨v, rfl, hname, hfence, hunmarked, .inr (.inr ⟨hstartup, hintent⟩)⟩
      | started | neverStartedPullFailing failure =>
        rw [hstartup] at h
        cases h

theorem fence_of_verify {pod : Pod} {startup : Startup} {v : VerifiedPod}
    (h : verify pod a startup = some v) : v.startup = startup ∧
      pod.metadata.uid = some v.fence.uid ∧
      pod.metadata.resourceVersion = some v.fence.resourceVersion := by
  rw [verify] at h
  split at h
  · cases h
  · split at h
    · cases h
    · obtain ⟨name, -, h⟩ := bind_eq_some_iff.mp h
      obtain ⟨uid, huid, h⟩ := bind_eq_some_iff.mp h
      obtain ⟨resourceVersion, hversion, h⟩ := bind_eq_some_iff.mp h
      cases h
      exact ⟨rfl, huid, hversion⟩

theorem follows_settle {reader : Reader} {name : String} {pod : Pod}
    {T : Past Reply → Except String Startup → Prop}
    (hok : ∀ startup past', JustRead reader name pod past startup past' → T past' (.ok startup))
    (herror : ∀ past' e, T past' (.error e)) :
    (settle pod).Follows (Deletes a desired) (⟨.getPod reader name, .ok (some pod)⟩ :: past) T := by
  rw [settle]
  cases hdecode : decodeStartup pod with
  | resolved startup => exact hok _ _ (.resolved hdecode)
  | configErrorPendingSecretCheck secretName =>
    rw [follows_attempt, follows_call]
    refine ⟨deletes_of_spares trivial, fun reply => ?_⟩
    cases reply with
    | error e => exact herror _ e
    | ok found => exact hok _ _ (.lookedUp found hdecode)

/-! ### Collecting -/

theorem Listed.mono {name : String} (h : Listed a name past) (hsub : past ⊆ past') :
    Listed a name past' := by
  obtain ⟨pods, now, hmem, hpod⟩ := h
  exact ⟨pods, now, hsub hmem, hpod⟩

theorem listed_of_mem_plan {pods : List Pod} {secrets : List Secret} {terminated : Pod → Bool}
    {now : Option Int} {name : String} (h : name ∈ (plan a pods secrets terminated now).pods)
    (hpast : ⟨.listPods a.selector, .ok (pods, now)⟩ ∈ past) : Listed a name past := by
  obtain ⟨pod, hpod, hname⟩ := mem_filterMap.mp h
  obtain ⟨hours, -⟩ := mem_filter.mp hpod
  obtain ⟨hpod, hverify⟩ := mem_filter.mp hours
  exact ⟨pods, now, hpast, pod, hpod, hname, hverify⟩

theorem follows_collectPod {name : String} (h : Listed a name past) :
    (collectPod name).Follows (Deletes a desired) past fun _ _ => True := by
  rw [collectPod, follows_attempt, follows_call]
  refine ⟨deletes_of_spares trivial, fun reply => ?_⟩
  rcases reply with e | _ | pod
  · trivial
  · trivial
  · rw [onExcept_ok]
    dsimp only
    split
    · next uid resourceVersion huid hversion =>
      rw [follows_attempt]
      refine follows_settle (fun startup past' hread => ?_) fun _ _ => trivial
      show Program.Follows _ (if startup ≠ .terminated then _ else _) _ _
      split
      · trivial
      · next hterminated =>
        rw [follows_bind, follows_call]
        refine ⟨fun name' fence heq => ?_, fun _ => trivial⟩
        cases heq
        exact ⟨pod, startup, past, huid, hversion, .inl ⟨hread, not_not.mp hterminated, h⟩⟩
    · trivial

theorem follows_collectPods {names : List String} (h : ∀ name ∈ names, Listed a name past) :
    (collectPods names).Follows (Deletes a desired) past fun _ _ => True := by
  induction names generalizing past with
  | nil => trivial
  | cons name names ih =>
    rw [forall_mem_cons] at h
    rw [collectPods, follows_attempt]
    refine (follows_collectPod h.1).grows.imp fun past' result hgrown => ?_
    cases result with
    | error e => trivial
    | ok _ => exact ih fun name' hname => (h.2 name' hname).mono hgrown.1

theorem only_collectSecrets (names : List String) : (collectSecrets names).Only Quiet := by
  induction names with
  | nil => trivial
  | cons name names ih => exact only_bind (only_call.mpr trivial) fun _ => ih

theorem follows_preflightGc (a : AgentIdentity) (desired : String) (past : Past Reply) :
    (preflightGc a).Follows (Deletes a desired) past fun _ _ => True := by
  rw [preflightGc, follows_bind, tryPreflightGc, follows_attempt, follows_call]
  refine ⟨deletes_of_spares trivial, fun reply => ?_⟩
  rcases reply with e | ⟨pods, serverNow⟩
  · trivial
  rw [onExcept_ok, follows_attempt, follows_call]
  refine ⟨deletes_of_spares trivial, fun reply => ?_⟩
  rcases reply with e | secrets
  · trivial
  rw [onExcept_ok, follows_attempt]
  refine follows_of_quiet (only_terminatedNames pods) fun new result => ?_
  rcases result with e | terminated
  · trivial
  rw [onExcept_ok, follows_attempt]
  refine (follows_collectPods fun name hname => listed_of_mem_plan hname ?_).imp
    fun past' result _ => ?_
  · exact mem_append_right _ (mem_cons_of_mem _ mem_cons_self)
  · rcases result with e | _
    · trivial
    · exact follows_of_quiet (only_collectSecrets _) fun _ _ => trivial

/-! ### The loop -/

theorem only_failWithCondition {τ : Type} (a : AgentIdentity) (text : String → String) :
    (failWithCondition a text : Program Reply (Except Stop τ)).Only Quiet :=
  only_bind (only_latestCondition a) fun _ => trivial

theorem spares_adoptWinner (turns : Nat) (a : AgentIdentity) (ownSecret : String) :
    (adoptWinner turns a ownSecret).Only Spares := by
  have hsleep := (only_sleepAndGoOn (τ := String) ()).mono fun _ => Quiet.spares
  refine only_attempt ((only_verifyWinner a ownSecret).mono fun _ => Quiet.spares) fun _ => ?_
  refine only_bind ((only_dropOwnSecret a ownSecret).mono fun _ => Quiet.spares) fun _ => ?_
  refine only_loop (fun _ => only_bind (only_call.mpr trivial) fun elapsed => ?_) turns ()
  split
  · exact (only_failWithCondition a _).mono fun _ => Quiet.spares
  refine only_attempt (only_mapError (only_attempt (only_call.mpr trivial) ?_)) ?_
  · rintro (_ | pod)
    · trivial
    · exact only_attempt ((only_settle pod).mono fun _ => Quiet.spares) fun _ => trivial
  · rintro (_ | pod)
    · exact hsleep
    · dsimp only
      split
      · trivial
      split
      · trivial
      split
      · exact (only_failWithCondition a _).mono fun _ => Quiet.spares
      · exact hsleep

theorem spares_create (turns : Nat) (r : DeployRequest) (desired : String) :
    (create turns r desired).Only Spares := by
  refine only_bind (only_call.mpr trivial) fun n => ?_
  refine only_attempt (only_mapError (only_call.mpr trivial)) fun _ => ?_
  refine only_attempt (only_mapError (only_call.mpr trivial)) fun outcome => ?_
  cases outcome with
  | created => exact (only_sleepAndGoOn true).mono fun _ => Quiet.spares
  | alreadyExists => exact only_attempt (spares_adoptWinner turns _ _) fun _ => trivial

variable {r : DeployRequest}

theorem follows_act (turns : Nat) {createdThisCall : Bool} {observed : Option VerifiedPod}
    (h : ∀ v, observed = some v → createdThisCall = false → IsReplaced desired v →
      Warranted r.identity desired past v.name v.fence) :
    (act turns r desired createdThisCall (classify observed desired)).Follows
      (Deletes r.identity desired) past fun _ _ => True := by
  cases haction : classify observed desired with
  | noOp agentId | report name failure => trivial
  | observe name => exact follows_of_quiet (only_sleepAndGoOn _) fun _ _ => trivial
  | awaitDisappearance name =>
    refine follows_of_quiet (only_attempt (only_awaitDisappearance turns name) fun _ => ?_)
      fun _ _ => trivial
    trivial
  | create => exact follows_of_spares (spares_create turns r desired) fun _ _ => trivial
  | delete name fence =>
    obtain ⟨v, hv, rfl, rfl, hreplaced⟩ := isReplaced_of_classify haction
    show Program.Follows _ (replace turns r createdThisCall v.name v.fence) _ _
    rw [replace]
    split
    · exact follows_of_quiet (only_failWithCondition _ _) fun _ _ => trivial
    · next hcreated =>
      rw [follows_attempt_mapError, follows_call]
      refine ⟨fun name fence heq => ?_, fun reply => ?_⟩
      · cases heq
        exact h v hv (Bool.eq_false_iff.mpr hcreated) hreplaced
      · rcases reply with e | outcome
        · trivial
        · refine follows_of_quiet ?_ fun _ _ => trivial
          cases outcome with
          | preconditionFailed => exact only_sleepAndGoOn _
          | _ => exact only_attempt (only_awaitDisappearance turns v.name) fun _ => by trivial

theorem follows_deployTurn_deletes (turns : Nat) (createdThisCall : Bool) :
    (deployTurn turns r desired createdThisCall).Follows (Deletes r.identity desired) past
      fun _ _ => True := by
  rw [deployTurn, follows_bind, follows_call]
  refine ⟨deletes_of_spares trivial, fun elapsed => ?_⟩
  split
  · exact follows_of_quiet (only_failWithCondition _ _) fun _ _ => trivial
  rw [follows_attempt_mapError, observePod, follows_attempt, follows_call]
  refine ⟨deletes_of_spares trivial, fun reply => ?_⟩
  rcases reply with e | _ | pod
  · trivial
  · refine follows_act turns fun v hv => ?_
    cases hv
  · rw [onExcept_ok, follows_attempt]
    refine follows_settle (fun startup past' hread => ?_) fun _ _ => trivial
    refine follows_act turns fun v hv hcreated hreplaced => ?_
    obtain ⟨-, huid, hversion⟩ := fence_of_verify hv
    subst hcreated
    exact ⟨pod, startup, _, huid, hversion, .inr ⟨hread, v, hv, rfl, rfl, hreplaced⟩⟩

/-- **A deploy deletes** what it has reason to. -/
theorem follows_deploy_deletes (fingerprint : IntentTemplate → String) (turns : Nat)
    (r : DeployRequest) :
    (deploy fingerprint turns r).Follows
      (Deletes r.identity (fingerprint (intentTemplate r.cfg (r.env.map Prod.fst)))) []
      fun _ _ => True := by
  rw [deploy, follows_attempt_mapError, follows_call]
  refine ⟨deletes_of_spares trivial, fun reply => ?_⟩
  cases reply with
  | error e => trivial
  | ok _ =>
    rw [onExcept_ok, follows_bind]
    refine (follows_preflightGc _ _ _).imp fun past' _ _ => ?_
    refine follows_loop (I := fun _ _ => True) (fun past createdThisCall _ => ?_)
      (fun _ _ _ => trivial) turns trivial
    refine (follows_deployTurn_deletes turns createdThisCall).imp fun past' result _ => ?_
    rcases result with e | _ | _ <;> trivial

/-- **Pods that deploys delete**, whatever the cluster replies, in any order of the calls of any number
of deploys: a deploy has created no pod so far, it has read the pod last, its fence is that of what it
read, and what it read does not run: it was collected, having terminated, or replaced. -/
theorem deletes_warranted (S : Semantics Reply σ η) (fingerprint : IntentTemplate → String)
    (turns : Nat) (Init : σ → Prop) {x : Execution Reply σ DeployRequest (Except Stop String)}
    (h : (programs S (deploy fingerprint turns) Init).Reachable x) {id : Nat} {r : DeployRequest}
    (hr : (∃ s ∈ x.running, s.id = id ∧ s.request = r) ∨ ∃ y ∈ x.answers, y.id = id ∧ y.request = r)
    {later earlier : Past Reply} {name : String} {fence : Fence} {reply : Except String DeleteOutcome}
    (hpast : x.past id = later ++ ⟨.deletePod name fence, reply⟩ :: earlier) :
    earlier.any isCreation = false ∧
      Warranted r.identity (fingerprint (intentTemplate r.cfg (r.env.map Prod.fst))) earlier name
        fence := by
  have htold := told_of_reachable (follows_deploy_deletes fingerprint turns) h
  have hmay := told_of_reachable (follows_deploy fingerprint turns) h
  obtain ⟨s, hs, rfl, rfl⟩ | ⟨y, hy, rfl, rfl⟩ := hr
  · have hheeds := And.intro (hmay.running s hs).1 (htold.running s hs).1
    rw [hpast] at hheeds
    exact ⟨hheeds.1.of_append.delete name fence rfl, hheeds.2.of_append name fence rfl⟩
  · have hheeds := And.intro (hmay.answers y hy).1 (htold.answers y hy).1
    rw [hpast] at hheeds
    exact ⟨hheeds.1.of_append.delete name fence rfl, hheeds.2.of_append name fence rfl⟩

/-! ### Examples -/

def exampleAgent : AgentIdentity := ⟨String.ofList (replicate 64 'a'), by simp⟩

def exampleRequest : DeployRequest :=
  ⟨exampleAgent, ⟨"agents", "image", ⟨"1", "2Gi", "2", "4Gi"⟩, none⟩, []⟩

abbrev exampleDeploys : StateMachine (Execution Reply Cluster DeployRequest (Except Stop String))
    (ProgramAction DeployRequest Outside) :=
  programs semantics (deploy (fun _ => "intent") 3) fun _ => True

def exampleStart : Execution Reply Cluster DeployRequest (Except Stop String) :=
  ⟨⟨[], [], 0, 0, none⟩, [], [], [], []⟩

def exampleRunning (number : UInt32) (deletionTimestamp : Option Int) : Pod :=
  let pod := buildPod exampleAgent exampleRequest.cfg (newGeneration number) "intent"
  { pod with
    metadata := { pod.metadata with uid := some "u", resourceVersion := some "2", deletionTimestamp }
    status := some ⟨some "Running", some [⟨containerName, some ⟨true, none, none⟩⟩], none⟩ }

abbrev advances (n : Nat) : List (ProgramAction DeployRequest Outside) :=
  replicate n (.advance 0)

def podStarts : List (ProgramAction DeployRequest Outside) :=
  .start 0 exampleRequest :: advances 9 ++
    .environment (.setPods [exampleRunning 0 none]) :: advances 3

/-- The pod that was created vanishes, and so does the one after it. Then time is up. -/
def podsVanish : List (ProgramAction DeployRequest Outside) :=
  .start 0 exampleRequest :: advances 9 ++ .environment (.setPods []) :: advances 6 ++
    .environment (.setPods []) :: .environment (.pass deadline) :: advances 3

/-- Another deploy has created a pod, which is being deleted. -/
def winnerDies : List (ProgramAction DeployRequest Outside) :=
  .start 0 exampleRequest :: advances 7 ++
    .environment (.setPods [exampleRunning 7 (some 0)]) :: advances 7

def succeeded : (i : Statement) × Reply i → Bool
  | ⟨.ensureNamespace _, .error _⟩ => false
  | ⟨.listPods _, .error _⟩ => false
  | ⟨.listSecrets _, .error _⟩ => false
  | ⟨.secretExists _, .error _⟩ => false
  | ⟨.createSecret _, .error _⟩ => false
  | ⟨.createPod _, .error _⟩ => false
  | ⟨.deletePod _ _, .error _⟩ => false
  | ⟨.deleteSecret _, .error _⟩ => false
  | ⟨.getPod _ _, .error _⟩ => false
  | _ => true

theorem exists_answer {γ : Type} (as : List (ProgramAction DeployRequest Outside)) {value : γ}
    (f : Execution Reply Cluster DeployRequest (Except Stop String) → γ)
    (h : (exampleDeploys.run exampleStart as).map
        (fun x => (x.answers.map fun y => (y.id, y.request.identity, y.result), f x)) =
      some ([(0, exampleAgent, result)], value)) :
    ∃ x y, exampleDeploys.Reachable x ∧ y ∈ x.answers ∧ y.id = 0 ∧
      y.request.identity = exampleAgent ∧ y.result = result ∧ f x = value := by
  obtain ⟨x, hrun, hx⟩ := map_eq_some_iff.mp h
  obtain ⟨hanswers, hvalue⟩ := Prod.mk.inj hx
  obtain ⟨y, ys, hys, hy, -⟩ := map_eq_cons_iff.mp hanswers
  obtain ⟨hid, hrest⟩ := Prod.mk.inj hy
  obtain ⟨hidentity, hresult⟩ := Prod.mk.inj hrest
  exact ⟨x, y, ⟨exampleStart, as, ⟨trivial, rfl, rfl, rfl, rfl⟩, hrun⟩, hys ▸ mem_cons_self,
    hid, hidentity, hresult, hvalue⟩

/-- A deploy whose pod starts. -/
theorem deploy_exact_podStarts :
    ∃ x y, exampleDeploys.Reachable x ∧ y ∈ x.answers ∧ y.result = .ok "buzz-agent-aaaaaaaaaaaa" ∧
      ShowsRunning y.request.identity "buzz-agent-aaaaaaaaaaaa" (x.past y.id) := by
  obtain ⟨x, y, hx, hy, hid, hidentity, hresult, hvalue⟩ := exists_answer
    podStarts (fun x => (x.past 0).any (adoptsMarked exampleAgent))
    (show _ = some ([(0, exampleAgent, .ok "buzz-agent-aaaaaaaaaaaa")], false) by decide +kernel)
  have hexact := (deploy_exact semantics (fun _ => "intent") 3 (fun _ => True) hx).2 y hy
  refine ⟨x, y, hx, hy, hresult, hexact.2.2.1.mpr (fun e he => ?_) _ hresult⟩
  rw [hid] at he
  rw [hidentity]
  exact Bool.eq_false_iff.mpr (any_eq_false.mp hvalue e he)

/-- **A deploy leaves two Secrets** to which no pod refers, though no call has failed: the pod that it
has created vanishes, it creates another one, and that one vanishes as well. **And a deploy succeeds
with a pod that is being deleted**: another one has created it. -/
theorem orphans_and_marked :
    (∃ x y, exampleDeploys.Reachable x ∧ y ∈ x.answers ∧ (∃ text, y.result = .error (.error text)) ∧
      (∀ e ∈ x.past y.id, succeeded e = true) ∧
      (litter x.store.pods x.store.secrets (x.past y.id)).length = 2) ∧
    ∃ x y agentId, exampleDeploys.Reachable x ∧ y ∈ x.answers ∧ y.result = .ok agentId ∧
      (∀ pod ∈ x.store.pods, pod.metadata.deletionTimestamp.isSome = true) ∧
      ¬ShowsRunning y.request.identity agentId (x.past y.id) := by
  constructor
  · obtain ⟨x, y, hx, hy, hid, -, hresult, hvalue⟩ := exists_answer podsVanish
      (fun x => ((x.past 0).all succeeded,
        (litter x.store.pods x.store.secrets (x.past 0)).length))
      (show _ = some ([(0, exampleAgent, .error (.error
        ("startup not confirmed within 600s for buzz-agent-aaaaaaaaaaaa: the pod no longer " ++
          "exists")))], (true, 2)) by decide +kernel)
    obtain ⟨hsucceeded, hlitter⟩ := Prod.mk.inj hvalue
    rw [← hid] at hsucceeded hlitter
    exact ⟨x, y, hx, hy, ⟨_, hresult⟩, all_eq_true.mp hsucceeded, hlitter⟩
  · obtain ⟨x, y, hx, hy, hid, hidentity, hresult, hvalue⟩ := exists_answer winnerDies
      (fun x => ((x.past 0).any (adoptsMarked exampleAgent),
        x.store.pods.all fun pod => pod.metadata.deletionTimestamp.isSome))
      (show _ = some ([(0, exampleAgent, .ok "buzz-agent-aaaaaaaaaaaa")], (true, true)) by
        decide +kernel)
    obtain ⟨hmarked, hpods⟩ := Prod.mk.inj hvalue
    refine ⟨x, y, _, hx, hy, hresult, all_eq_true.mp hpods, fun hshows => ?_⟩
    have hends := ((told_of_reachable (follows_deploy (fun _ => "intent") 3) hx).answers y hy).2
    have hnone := (showsRunning_iff hends).mp fun agentId hok => by
      rw [hresult] at hok
      exact Except.ok.inj hok ▸ hshows
    obtain ⟨e, he, hone⟩ := any_eq_true.mp hmarked
    rw [← hid] at he
    rw [hidentity] at hnone
    exact Bool.false_ne_true ((hnone e he).symm.trans hone)

/-- The pod of an earlier deploy has terminated. -/
def exampleTerminated : Pod :=
  { exampleRunning 0 none with
    status := some ⟨some "Failed", some [⟨containerName, some ⟨false, some ⟨1, none⟩, none⟩⟩], none⟩ }

def deletion : Statement → Option (String × Fence)
  | .deletePod name fence => some (name, fence)
  | _ => none

theorem exists_deletion {name : String} {fence : Fence}
    (h : past.head?.bind (fun e => deletion e.1) = some (name, fence)) :
    ∃ reply earlier, past = ⟨.deletePod name fence, reply⟩ :: earlier := by
  obtain _ | ⟨⟨i, reply⟩, earlier⟩ := past
  · cases h
  · cases i with
    | deletePod name' fence' =>
      cases h
      exact ⟨reply, earlier, rfl⟩
    | _ => cases h

/-- A deploy collects it. -/
theorem deletes_warranted_terminated :
    ∃ x r reply earlier, exampleDeploys.Reachable x ∧ r ∈ x.running ∧
      x.past r.id = ⟨.deletePod "buzz-agent-aaaaaaaaaaaa" ⟨"u", "2"⟩, reply⟩ :: earlier ∧
      earlier.any isCreation = false ∧
      Warranted exampleAgent "intent" earlier "buzz-agent-aaaaaaaaaaaa" ⟨"u", "2"⟩ := by
  have hrun : (exampleDeploys.run exampleStart (.environment (.setPods [exampleTerminated]) ::
      .start 0 exampleRequest :: advances 5)).map (fun x =>
        (x.running.map fun r => (r.id, r.request.identity),
          (x.past 0).head?.bind fun e => deletion e.1)) =
      some ([(0, exampleAgent)], some ("buzz-agent-aaaaaaaaaaaa", ⟨"u", "2"⟩)) := by
    decide +kernel
  obtain ⟨x, hrun, hx⟩ := map_eq_some_iff.mp hrun
  obtain ⟨hrunning, hhead⟩ := Prod.mk.inj hx
  obtain ⟨r, rs, hrs, hr, -⟩ := map_eq_cons_iff.mp hrunning
  obtain ⟨hid, hidentity⟩ := Prod.mk.inj hr
  obtain ⟨reply, earlier, hpast⟩ := exists_deletion hhead
  have hx : exampleDeploys.Reachable x := ⟨exampleStart, _, ⟨trivial, rfl, rfl, rfl, rfl⟩, hrun⟩
  have hmem : r ∈ x.running := hrs ▸ mem_cons_self
  rw [← hid] at hpast
  have hwarranted := deletes_warranted semantics (fun _ => "intent") 3 (fun _ => True) hx
    (.inl ⟨r, hmem, rfl, rfl⟩) (show x.past r.id = [] ++ _ from hpast)
  rw [hidentity] at hwarranted
  exact ⟨x, r, reply, earlier, hx, hmem, hpast, hwarranted⟩

end Buzz.Kubernetes
