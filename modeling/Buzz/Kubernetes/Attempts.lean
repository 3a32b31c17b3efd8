import Buzz.Kubernetes.Deploy

/-!
# The parts of a deploy

What a deploy has done tells if it has created a pod, which Secrets it has made, and what its loops
have found. Most parts of it only read, wait, and delete Secrets, which changes nothing about that.

Its loop keeps that it knows if it has created a pod, and that there is one Secret at most, and one
more for each time that it has found no pod of the agent after it had created one. It deletes pods
only before.
-/

namespace Buzz.Kubernetes

open List Option
open Program

variable {a : AgentIdentity} {past past' : Past Reply} {createdThisCall : Bool}

/-! ### What a call tells -/

def isCreation : (i : Statement) × Reply i → Bool
  | ⟨.createPod _, .ok .created⟩ => true
  | _ => false

def secretMade : (i : Statement) × Reply i → Option String
  | ⟨.createSecret secret, .ok ()⟩ => secret.metadata.name
  | _ => none

/-- The loop of `deploy` finds no pod of the agent, after it has created one. -/
def findsNothing (a : AgentIdentity) : (i : Statement) × Reply i → Bool
  | ⟨.getPod (.deploying true) _, .ok found⟩ => (found.bind fun pod => verify pod a .started).isNone
  | _ => false

/-- The loop of `adopt_winner` finds a pod of the agent that runs and is marked for deletion. -/
def adoptsMarked (a : AgentIdentity) : (i : Statement) × Reply i → Bool
  | ⟨.getPod .adopting _, .ok (some pod)⟩ => decide (decodeStartup pod = .resolved .started) &&
    (verify pod a .started).any fun v => v.deletionMarked
  | _ => false

/-- A statement that creates nothing, deletes no pod and is not a read of one of the two loops. -/
def Quiet : Statement → Prop
  | .createSecret _ => False
  | .createPod _ => False
  | .deletePod _ _ => False
  | .getPod reader _ => reader = .other
  | _ => True

variable {e : (i : Statement) × Reply i}

theorem quiet_event (a : AgentIdentity) (h : Quiet e.1) :
    isCreation e = false ∧ secretMade e = none ∧ findsNothing a e = false ∧
      adoptsMarked a e = false := by
  obtain ⟨i, reply⟩ := e
  cases i with
  | createSecret secret | createPod pod | deletePod name fence => exact h.elim
  | getPod reader name =>
    obtain rfl : reader = .other := h
    exact ⟨rfl, rfl, rfl, rfl⟩
  | _ => exact ⟨rfl, rfl, rfl, rfl⟩

/-! ### Quiet parts -/

theorem only_settle (pod : Pod) : (settle pod).Only Quiet := by
  rw [settle]
  split
  · trivial
  · exact only_attempt (only_call.mpr trivial) fun found => trivial

theorem only_latestCondition (a : AgentIdentity) : (latestCondition a).Only Quiet := by
  refine only_bind (only_call.mpr rfl) fun found => ?_
  rcases found with e | _ | pod <;> trivial

theorem only_sleepAndGoOn {α τ : Type} (b : α) :
    (sleepAndGoOn b : Program Reply (Except Stop (α ⊕ τ))).Only Quiet :=
  only_bind (only_call.mpr trivial) fun _ => trivial

theorem only_awaitDisappearance (turns : Nat) (name : String) :
    (awaitDisappearance turns name).Only Quiet := by
  refine only_loop (fun _ => only_bind (only_call.mpr trivial) fun elapsed => ?_) turns ()
  split
  · refine only_attempt (only_mapError (only_call.mpr rfl)) fun found => ?_
    cases found with
    | none => trivial
    | some pod => exact only_sleepAndGoOn ()
  · trivial

theorem only_dropOwnSecret (a : AgentIdentity) (secret : String) :
    (dropOwnSecret a secret).Only Quiet := by
  refine only_bind (only_attempt (only_call.mpr trivial) fun _ => trivial) fun found => ?_
  rcases found with e | _ | _
  · trivial
  · exact only_bind (only_call.mpr trivial) fun _ => trivial
  · trivial

theorem only_verifyWinner (a : AgentIdentity) (secret : String) :
    (verifyWinner a secret).Only Quiet := by
  refine only_attempt (only_mapError (only_call.mpr rfl)) fun found => ?_
  cases found with
  | none => trivial
  | some pod =>
    refine only_attempt (only_mapError (only_settle pod)) fun startup => ?_
    split
    · exact only_bind (only_dropOwnSecret a secret) fun _ => trivial
    · trivial

def Collects (i : Statement) : Prop := Quiet i ∨ ∃ name fence, i = .deletePod name fence

theorem only_terminatedNames (pods : List Pod) : (terminatedNames pods).Only Quiet := by
  induction pods with
  | nil => trivial
  | cons pod pods ih =>
    exact only_attempt (only_settle pod) fun startup => only_attempt ih fun names => trivial

theorem only_collectPod (name : String) : (collectPod name).Only Collects := by
  refine only_attempt (only_call.mpr (.inl rfl)) fun found => ?_
  cases found with
  | none => trivial
  | some pod =>
    dsimp only
    split
    · refine only_attempt ((only_settle pod).mono fun i => .inl) fun startup => ?_
      split
      · trivial
      · exact only_bind (only_call.mpr (.inr ⟨_, _, rfl⟩)) fun _ => trivial
    · trivial

theorem only_preflightGc (a : AgentIdentity) : (preflightGc a).Only Collects := by
  have hpods : ∀ names, (collectPods names).Only Collects := by
    intro names
    induction names with
    | nil => trivial
    | cons name names ih => exact only_attempt (only_collectPod name) fun _ => ih
  have hsecrets : ∀ names, (collectSecrets names).Only Collects := by
    intro names
    induction names with
    | nil => trivial
    | cons name names ih => exact only_bind (only_call.mpr (.inl trivial)) fun _ => ih
  refine only_bind (only_attempt (only_call.mpr (.inl trivial)) fun listed => ?_) fun _ => trivial
  refine only_attempt (only_call.mpr (.inl trivial)) fun secrets => ?_
  exact only_attempt ((only_terminatedNames _).mono fun i => .inl) fun terminated =>
    only_attempt (hpods _) fun _ => hsecrets _

/-! ### What a deploy keeps -/

def secretsMade (past : Past Reply) : List String := past.filterMap secretMade

/-- How often the loop of `deploy` has found nothing, after it had created a pod. -/
def repeats (a : AgentIdentity) (past : Past Reply) : Nat := past.countP (findsNothing a)

/-- What may be performed: no pod is deleted once one was created, and nothing is done after the loop
of `adopt_winner` has found a pod that runs and is marked. -/
structure May (a : AgentIdentity) (past : Past Reply) (i : Statement) : Prop where
  unmarked : ∀ e ∈ past, adoptsMarked a e = false
  delete : ∀ name fence, i = .deletePod name fence → past.any isCreation = false

/-- What holds when a deploy fails, and while it waits for the pod of another one. -/
structure Fair (a : AgentIdentity) (past : Past Reply) : Prop where
  unmarked : ∀ e ∈ past, adoptsMarked a e = false
  secrets : (secretsMade past).length ≤ 1 + repeats a past

/-- What the loop of `deploy` keeps. -/
structure Kept (a : AgentIdentity) (past : Past Reply) (createdThisCall : Bool) : Prop where
  unmarked : ∀ e ∈ past, adoptsMarked a e = false
  created : past.any isCreation = createdThisCall
  secrets : (secretsMade past).length ≤ createdThisCall.toNat + repeats a past

theorem Kept.fair (h : Kept a past createdThisCall) : Fair a past := by
  refine ⟨h.unmarked, le_trans h.secrets ?_⟩
  have hle := Bool.toNat_le createdThisCall
  omega

/-- What is no such read and makes no Secret changes nothing. -/
theorem Fair.cons (h : Fair a past) (hmarked : adoptsMarked a e = false)
    (hmade : secretMade e = none) : Fair a (e :: past) := by
  refine ⟨forall_mem_cons.mpr ⟨hmarked, h.unmarked⟩, ?_⟩
  have hsecrets := h.secrets
  rw [secretsMade, repeats] at hsecrets
  rw [secretsMade, filterMap_cons_none hmade, repeats, countP_cons]
  omega

theorem Kept.cons (h : Kept a past createdThisCall) (hmarked : adoptsMarked a e = false)
    (hmade : secretMade e = none) (hcreation : isCreation e = false) :
    Kept a (e :: past) createdThisCall := by
  refine ⟨forall_mem_cons.mpr ⟨hmarked, h.unmarked⟩, ?_, ?_⟩
  · simp [hcreation, h.created]
  · have hsecrets := h.secrets
    rw [secretsMade, repeats] at hsecrets
    rw [secretsMade, filterMap_cons_none hmade, repeats, countP_cons]
    omega

variable {new : Past Reply}

theorem Fair.append (h : Fair a past)
    (hnew : ∀ e ∈ new, adoptsMarked a e = false ∧ secretMade e = none) : Fair a (new ++ past) := by
  induction new with
  | nil => exact h
  | cons e new ih =>
    rw [forall_mem_cons] at hnew
    exact (ih hnew.2).cons hnew.1.1 hnew.1.2

theorem Fair.append_quiet (h : Fair a past) (hnew : ∀ e ∈ new, Quiet e.1) : Fair a (new ++ past) :=
  h.append fun e he => ⟨(quiet_event a (hnew e he)).2.2.2, (quiet_event a (hnew e he)).2.1⟩

theorem Kept.append_quiet (h : Kept a past createdThisCall) (hnew : ∀ e ∈ new, Quiet e.1) :
    Kept a (new ++ past) createdThisCall := by
  induction new with
  | nil => exact h
  | cons e new ih =>
    rw [forall_mem_cons] at hnew
    obtain ⟨hcreation, hmade, -, hmarked⟩ := quiet_event a hnew.1
    exact (ih hnew.2).cons hmarked hmade hcreation

/-- **A quiet part** may be performed. -/
theorem follows_quiet {ρ : Type} {p : Program Reply ρ} (h : p.Only Quiet)
    (hunmarked : ∀ e ∈ past, adoptsMarked a e = false) {T : Past Reply → ρ → Prop}
    (hT : ∀ new : Past Reply, (∀ e ∈ new, Quiet e.1) → ∀ result, T (new ++ past) result) :
    p.Follows (May a) past T := by
  refine h.follows (fun new hnew i hi => ⟨fun e he => ?_, ?_⟩) hT
  · rcases mem_append.mp he with he | he
    · exact (quiet_event a (hnew e he)).2.2.2
    · exact hunmarked e he
  · rintro name fence rfl
    exact hi.elim

/-- After the read of a pod: what was observed of what was found. -/
structure Observed (a : AgentIdentity) (reader : Reader) (past past' : Past Reply)
    (found : Option Pod) (extra : Past Reply) (observed : Option VerifiedPod) : Prop where
  past : past' = extra ++ ⟨.getPod reader a.podName, .ok found⟩ :: past
  quiet : ∀ e ∈ extra, Quiet e.1
  isNone : observed.isNone = (found.bind fun pod => verify pod a .started).isNone
  started : ∀ v, observed = some v → v.startup = .started → extra = [] ∧
    ∃ pod, found = some pod ∧ decodeStartup pod = .resolved .started ∧
      verify pod a .started = some v
  notStarted : (∀ v, observed = some v → v.startup ≠ .started) → ∀ pod, found = some pod →
    decodeStartup pod = .resolved .started → verify pod a .started = none

/-- **What is observed.** -/
theorem follows_observePod {reader : Reader} (hunmarked : ∀ e ∈ past, adoptsMarked a e = false) :
    (observePod reader a).Follows (May a) past fun past' => OnExcept
      (fun _ => ∃ new, past' = new ++ past ∧
        ∀ e ∈ new, adoptsMarked a e = false ∧ secretMade e = none)
      fun observed => ∃ found extra, Observed a reader past past' found extra observed := by
  have hsecret : ∀ reply, secretMade ⟨.getPod reader a.podName, reply⟩ = none := fun _ => rfl
  rw [observePod, follows_attempt, follows_call]
  refine ⟨⟨hunmarked, nofun⟩, fun reply => ?_⟩
  rcases reply with e | _ | pod
  · refine ⟨[⟨.getPod reader a.podName, .error e⟩], rfl, fun b hb => ?_⟩
    rw [mem_singleton.mp hb]
    exact ⟨by cases reader <;> rfl, rfl⟩
  · exact ⟨none, [], rfl, fun _ h => (nomatch h), rfl, fun v h => (nomatch h), fun _ pod h => nomatch h⟩
  · rw [onExcept_ok, follows_attempt, settle]
    cases hdecode : decodeStartup pod with
    | resolved startup =>
      have hverify := verify_startup pod a startup
      rw [follows_answer, onExcept_ok, follows_answer]
      refine ⟨some pod, [], rfl, fun _ h => (nomatch h), ?_, fun v hv hstarted => ?_,
        fun hnot pod' hpod hstarted => ?_⟩
      · simp [hverify]
      · rw [hverify] at hv
        obtain ⟨w, hw, rfl⟩ := map_eq_some_iff.mp hv
        obtain rfl : startup = .started := hstarted
        rw [hverify, hw] at hv
        exact ⟨rfl, pod, rfl, hdecode, by rw [hverify, hw, map_some]⟩
      · cases hpod
        rw [hdecode] at hstarted
        obtain rfl := StartupObservation.resolved.inj hstarted
        rw [eq_none_iff_forall_ne_some]
        intro v hv
        have hstartup : v.startup = .started := by
          rw [hverify] at hv
          obtain ⟨w, -, rfl⟩ := map_eq_some_iff.mp hv
          rfl
        exact hnot v hv hstartup
    | configErrorPendingSecretCheck secretName =>
      have hmarked : adoptsMarked a ⟨.getPod reader a.podName, .ok (some pod)⟩ = false := by
        cases reader with
        | adopting => simp [adoptsMarked, hdecode]
        | _ => rfl
      rw [follows_attempt, follows_call]
      refine ⟨⟨fun e he => ?_, nofun⟩, fun reply => ?_⟩
      · rcases mem_cons.mp he with rfl | he
        · exact hmarked
        · exact hunmarked e he
      · cases reply with
        | error e =>
          refine ⟨[⟨.secretExists secretName, .error e⟩,
            ⟨.getPod reader a.podName, .ok (some pod)⟩], rfl, fun b hb => ?_⟩
          rcases mem_cons.mp hb with rfl | hb
          · exact ⟨rfl, rfl⟩
          · rw [mem_singleton.mp hb]
            exact ⟨hmarked, rfl⟩
        | ok found =>
          have hverify := verify_startup pod a
            (if found then .neverStartedRecoverable else .neverStartedProvablyBroken)
          rw [onExcept_ok, follows_answer, onExcept_ok, follows_answer]
          refine ⟨some pod, [⟨.secretExists secretName, .ok found⟩], rfl, fun b hb => ?_, ?_,
            fun v hv hstarted => ?_, fun _ pod' hpod hstarted => ?_⟩
          · rw [mem_singleton.mp hb]
            trivial
          · simp [hverify]
          · rw [hverify] at hv
            obtain ⟨w, -, rfl⟩ := map_eq_some_iff.mp hv
            cases found <;> nomatch hstarted
          · cases hpod
            rw [hdecode] at hstarted
            nomatch hstarted

namespace Observed

variable {reader : Reader} {found : Option Pod} {extra : Past Reply}
  {observed : Option VerifiedPod}

theorem unmarked (h : Observed a reader past past' found extra observed)
    (hnot : reader = .adopting → ∀ v, observed = some v → v.startup = .started →
      v.deletionMarked = false) :
    adoptsMarked a ⟨.getPod reader a.podName, .ok found⟩ = false := by
  cases reader with
  | deploying createdThisCall => rfl
  | other => rfl
  | adopting =>
    cases found with
    | none => rfl
    | some pod =>
      rw [adoptsMarked, Bool.and_eq_false_iff, decide_eq_false_iff_not]
      by_cases hstarted : ∃ v, observed = some v ∧ v.startup = .started
      · obtain ⟨v, hv, hstartup⟩ := hstarted
        obtain ⟨-, pod', hpod, -, hverify⟩ := h.started v hv hstartup
        cases hpod
        rw [hverify, any_some, hnot rfl v hv hstartup]
        exact .inr rfl
      · by_cases hdecode : decodeStartup pod = .resolved .started
        · rw [h.notStarted (fun v hv hstartup => hstarted ⟨v, hv, hstartup⟩) pod rfl hdecode]
          exact .inr rfl
        · exact .inl hdecode

theorem fair (h : Observed a reader past past' found extra observed) (hfair : Fair a past)
    (hnot : reader = .adopting → ∀ v, observed = some v → v.startup = .started →
      v.deletionMarked = false) : Fair a past' := by
  rw [h.past]
  exact (hfair.cons (h.unmarked hnot) rfl).append_quiet h.quiet

theorem kept (h : Observed a (.deploying createdThisCall) past past' found extra observed)
    (hkept : Kept a past createdThisCall) : Kept a past' createdThisCall ∧
      (observed = none → (secretsMade past').length ≤ repeats a past') := by
  have hread : Kept a (⟨.getPod (.deploying createdThisCall) a.podName, .ok found⟩ :: past)
      createdThisCall := hkept.cons rfl rfl rfl
  have hafter := hread.append_quiet h.quiet
  rw [← h.past] at hafter
  refine ⟨hafter, fun hnone => ?_⟩
  have hnothing := h.isNone
  rw [hnone, isNone_none] at hnothing
  have hmade : secretsMade past' = secretsMade past := by
    have hextra : extra.filterMap secretMade = [] :=
      filterMap_eq_nil_iff.mpr fun e he => (quiet_event a (h.quiet e he)).2.1
    rw [h.past, secretsMade, filterMap_append, hextra, nil_append,
      filterMap_cons_none rfl, secretsMade]
  have hcount : createdThisCall.toNat + repeats a past ≤ repeats a past' := by
    rw [h.past, repeats, repeats, countP_append, countP_cons]
    cases createdThisCall with
    | false => rw [Bool.toNat_false]; omega
    | true =>
      have hfinds : findsNothing a ⟨.getPod (.deploying true) a.podName, .ok found⟩ = true :=
        hnothing.symm
      rw [hfinds, if_pos rfl, Bool.toNat_true]
      omega
  rw [hmade]
  exact le_trans hkept.secrets hcount

end Observed

/-! ### What a deploy ends with -/

/-- The last thing was to read, under the deadline, a pod of the agent that has started. -/
structure Shows (a : AgentIdentity) (reader : Reader) (pod : Pod) (v : VerifiedPod) (before : Nat)
    (rest past : Past Reply) : Prop where
  past : past = ⟨.getPod reader a.podName, .ok (some pod)⟩ :: ⟨.elapsed, before⟩ :: rest
  before : before < deadline
  started : decodeStartup pod = .resolved .started
  verified : verify pod a .started = some v

/-- A deploy that succeeds: a pod that is marked for deletion was found by `adopt_winner`. -/
def Succeeds (a : AgentIdentity) (past : Past Reply) (agentId : String) : Prop :=
  ∃ reader pod v before rest, Shows a reader pod v before rest past ∧ v.name = agentId ∧
    (v.deletionMarked = true → reader = .adopting) ∧ Fair a rest

def Ends (a : AgentIdentity) (past : Past Reply) : Except Stop String → Prop :=
  OnExcept (fun _ => Fair a past) (Succeeds a past)

/-- A turn of the loop of `deploy`, or of a part of it, that ends. -/
def TurnEnds (a : AgentIdentity) (past : Past Reply) : Except Stop (Bool ⊕ String) → Prop :=
  OnExcept (fun _ => Fair a past) (Sum.elim (Kept a past) (Succeeds a past))

theorem succeeds_of_observed {reader : Reader} {found : Option Pod} {extra : Past Reply}
    {v : VerifiedPod} {elapsed : Nat} (hfair : Fair a past) (hlt : elapsed < deadline)
    (h : Observed a reader (⟨.elapsed, elapsed⟩ :: past) past' found extra (some v))
    (hstarted : v.startup = .started) (hmarked : v.deletionMarked = true → reader = .adopting) :
    Succeeds a past' v.name := by
  obtain ⟨rfl, pod, rfl, hdecode, hverify⟩ := h.started v rfl hstarted
  exact ⟨reader, pod, v, elapsed, past, ⟨h.past, hlt, hdecode, hverify⟩, rfl, hmarked, hfair⟩

theorem follows_failWithCondition {τ : Type} {T : Past Reply → Except Stop τ → Prop}
    (h : Fair a past) (text : String → String) (hT : ∀ past e, Fair a past → T past (.error e)) :
    (failWithCondition a text).Follows (May a) past T := by
  rw [failWithCondition, follows_bind]
  exact follows_quiet (only_latestCondition a) h.unmarked fun new hnew _ =>
    hT _ _ (h.append_quiet hnew)

theorem follows_sleepAndGoOn {α τ : Type} {b : α} {T : Past Reply → Except Stop (α ⊕ τ) → Prop}
    (hunmarked : ∀ e ∈ past, adoptsMarked a e = false)
    (hT : T (⟨.sleep pollInterval, ()⟩ :: past) (.ok (.inl b))) :
    (sleepAndGoOn b).Follows (May a) past T := by
  rw [sleepAndGoOn, follows_bind, follows_call]
  exact ⟨⟨hunmarked, fun name fence h => nomatch h⟩, fun _ => hT⟩

/-- **A turn of the loop of `adopt_winner`.** -/
theorem follows_adoptTurn (h : Fair a past) :
    (adoptTurn a).Follows (May a) past fun past => OnExcept (fun _ => Fair a past)
      (Sum.elim (fun _ => Fair a past) (Succeeds a past)) := by
  rw [adoptTurn, follows_bind, follows_call]
  refine ⟨⟨h.unmarked, nofun⟩, fun elapsed => ?_⟩
  have helapsed : Fair a (⟨.elapsed, elapsed⟩ :: past) := h.cons rfl rfl
  split
  · exact follows_failWithCondition helapsed _ fun _ _ hfair => hfair
  · next hlt =>
    rw [follows_attempt_mapError]
    refine (follows_observePod helapsed.unmarked).imp fun past' result hresult => ?_
    rcases result with e | _ | v
    · obtain ⟨new, rfl, hnew⟩ := hresult
      exact helapsed.append hnew
    · obtain ⟨found, extra, hobserved⟩ := hresult
      have hfair := hobserved.fair helapsed nofun
      exact follows_sleepAndGoOn hfair.unmarked (hfair.cons rfl rfl)
    · obtain ⟨found, extra, hobserved⟩ := hresult
      show Program.Follows (May a) (if v.startup = .started then _ else _) past' _
      split
      · next hstarted =>
        exact succeeds_of_observed h (not_le.mp hlt) hobserved hstarted fun _ => rfl
      · next hnot =>
        have hfair := hobserved.fair helapsed fun _ w hw hstarted => by
          rw [← some.inj hw] at hstarted
          exact absurd hstarted hnot
        split
        · exact hfair
        · split
          · exact follows_failWithCondition hfair _ fun _ _ hfair => hfair
          · exact follows_sleepAndGoOn hfair.unmarked (hfair.cons rfl rfl)

/-- **The loser of a race** waits, and drops its Secret before. -/
theorem follows_adoptWinner (h : Fair a past) (turns : Nat) (ownSecret : String) :
    (adoptWinner turns a ownSecret).Follows (May a) past (Ends a) := by
  rw [adoptWinner, follows_attempt]
  refine follows_quiet (only_verifyWinner a ownSecret) h.unmarked fun new hnew result => ?_
  have hverified := h.append_quiet hnew
  cases result with
  | error e => exact hverified
  | ok _ =>
    rw [onExcept_ok, follows_bind]
    refine follows_quiet (only_dropOwnSecret a ownSecret) hverified.unmarked fun new' hnew' _ => ?_
    exact follows_loop (I := fun past _ => Fair a past) (fun _ _ hfair => follows_adoptTurn hfair)
      (fun _ _ hfair => hfair) turns (hverified.append_quiet hnew')

variable {r : DeployRequest}

/-- **An attempt to create.** -/
theorem follows_create {desired : String}
    (hunmarked : ∀ e ∈ past, adoptsMarked r.identity e = false)
    (hsecrets : (secretsMade past).length ≤ repeats r.identity past) (turns : Nat) :
    (create turns r desired).Follows (May r.identity) past (TurnEnds r.identity) := by
  have hfair : Fair r.identity past := ⟨hunmarked, le_trans hsecrets (Nat.le_add_left _ _)⟩
  rw [create, follows_bind, follows_call]
  refine ⟨⟨hunmarked, nofun⟩, fun n => ?_⟩
  have hrandom : Fair r.identity (⟨.random, n⟩ :: past) := hfair.cons rfl rfl
  rw [follows_attempt_mapError, follows_call]
  refine ⟨⟨hrandom.unmarked, nofun⟩, fun reply => ?_⟩
  rcases reply with e | _
  · exact hrandom.cons rfl rfl
  -- there was no more than one Secret for each time that nothing was found; now there is one more
  generalize buildSecret r.identity r.cfg.namespaceName (newGeneration n)
    (insertEnv startNonceKey (newGeneration n) r.env) = secret
  have hmade : Fair r.identity (⟨.createSecret secret, .ok ()⟩ :: ⟨.random, n⟩ :: past) := by
    refine ⟨forall_mem_cons.mpr ⟨rfl, hrandom.unmarked⟩, ?_⟩
    have hone : (secretsMade (⟨.createSecret secret, .ok ()⟩ :: ⟨.random, n⟩ :: past)).length ≤
        (secretsMade past).length + 1 := by
      rw [secretsMade, filterMap_cons, filterMap_cons_none rfl]
      split
      · exact Nat.le_succ _
      · exact le_rfl
    have hsame : repeats r.identity (⟨.createSecret secret, .ok ()⟩ :: ⟨.random, n⟩ :: past) =
        repeats r.identity past := rfl
    rw [hsame]
    omega
  rw [onExcept_ok, follows_attempt_mapError, follows_call]
  refine ⟨⟨hmade.unmarked, nofun⟩, fun reply => ?_⟩
  rcases reply with e | _ | _
  · exact hmade.cons rfl rfl
  · have hcreated := hmade.cons (e := ⟨.createPod (buildPod r.identity r.cfg (newGeneration n)
      desired), .ok .created⟩) rfl rfl
    have hkept : Kept r.identity (⟨.createPod (buildPod r.identity r.cfg (newGeneration n) desired),
        .ok .created⟩ :: ⟨.createSecret secret, .ok ()⟩ :: ⟨.random, n⟩ :: past) true :=
      ⟨hcreated.unmarked, rfl, hcreated.secrets⟩
    exact follows_sleepAndGoOn hkept.unmarked (hkept.cons rfl rfl rfl)
  · rw [onExcept_ok, follows_attempt]
    refine (follows_adoptWinner (hmade.cons rfl rfl) turns _).imp fun past' result hresult => ?_
    cases result with
    | error e | ok name => exact hresult

theorem follows_awaitDisappearance (h : Kept a past createdThisCall) (turns : Nat) (name : String) :
    ((awaitDisappearance turns name).attempt fun _ =>
      .answer (.ok (.inl createdThisCall))).Follows (May a) past (TurnEnds a) := by
  rw [follows_attempt]
  refine follows_quiet (only_awaitDisappearance turns name) h.unmarked fun new hnew result => ?_
  have hafter := h.append_quiet hnew
  cases result with
  | error e => exact hafter.fair
  | ok _ => exact hafter

/-- **A pod is replaced**, unless this call has created one. -/
theorem follows_replace (h : Kept r.identity past createdThisCall) (turns : Nat) (name : String)
    (fence : Fence) :
    (replace turns r createdThisCall name fence).Follows (May r.identity) past
      (TurnEnds r.identity) := by
  rw [replace]
  split
  · exact follows_failWithCondition h.fair _ fun _ _ hfair => hfair
  · next hnot =>
    have hnone : past.any isCreation = false := h.created.trans (Bool.eq_false_iff.mpr hnot)
    rw [follows_attempt_mapError, follows_call]
    refine ⟨⟨h.unmarked, fun _ _ _ => hnone⟩, fun reply => ?_⟩
    have hafter : Kept r.identity (⟨.deletePod name fence, reply⟩ :: past) createdThisCall :=
      h.cons rfl rfl rfl
    rcases reply with e | _ | _ | _
    · exact hafter.fair
    · exact follows_awaitDisappearance hafter turns name
    · exact follows_awaitDisappearance hafter turns name
    · exact follows_sleepAndGoOn hafter.unmarked (hafter.cons rfl rfl rfl)

/-- **A turn of the loop of `deploy`.** -/
theorem follows_deployTurn (h : Kept r.identity past createdThisCall) (turns : Nat)
    (desired : String) :
    (deployTurn turns r desired createdThisCall).Follows (May r.identity) past
      (TurnEnds r.identity) := by
  rw [deployTurn, follows_bind, follows_call]
  refine ⟨⟨h.unmarked, nofun⟩, fun elapsed => ?_⟩
  have helapsed : Kept r.identity (⟨.elapsed, elapsed⟩ :: past) createdThisCall :=
    h.cons rfl rfl rfl
  split
  · exact follows_failWithCondition helapsed.fair _ fun _ _ hfair => hfair
  · next hlt =>
    rw [follows_attempt_mapError]
    refine (follows_observePod helapsed.unmarked).imp fun past' result hresult => ?_
    cases result with
    | error e =>
      obtain ⟨new, rfl, hnew⟩ := hresult
      exact helapsed.fair.append hnew
    | ok observed =>
      obtain ⟨found, extra, hobserved⟩ := hresult
      obtain ⟨hkept, hready⟩ := hobserved.kept helapsed
      show Program.Follows (May r.identity) (act turns r desired createdThisCall _) past' _
      cases haction : classify observed desired with
      | create =>
        exact follows_create hkept.unmarked (hready (classify_eq_create_iff.mp haction)) turns
      | delete name fence => exact follows_replace hkept turns name fence
      | awaitDisappearance name => exact follows_awaitDisappearance hkept turns name
      | noOp agentId =>
        obtain ⟨v, rfl, hunmarked, hstarted, rfl⟩ := classify_eq_noOp_iff.mp haction
        exact succeeds_of_observed h.fair (not_le.mp hlt) hobserved hstarted fun hmarked =>
          nomatch (hunmarked.symm.trans hmarked)
      | observe name => exact follows_sleepAndGoOn hkept.unmarked (hkept.cons rfl rfl rfl)
      | report name failure => exact hkept.fair

/-- **A deploy.** -/
theorem follows_deploy (fingerprint : IntentTemplate → String) (turns : Nat) (r : DeployRequest) :
    (deploy fingerprint turns r).Follows (May r.identity) [] (Ends r.identity) := by
  have hnil : Kept r.identity [] false := ⟨fun _ he => absurd he not_mem_nil, rfl, le_rfl⟩
  rw [deploy, follows_attempt_mapError, follows_call]
  refine ⟨⟨hnil.unmarked, nofun⟩, fun reply => ?_⟩
  have hnamespace : Kept r.identity [⟨.ensureNamespace r.cfg.namespaceName, reply⟩] false :=
    hnil.cons rfl rfl rfl
  cases reply with
  | error e => exact hnamespace.fair
  | ok _ =>
    -- what is left of earlier deploys is collected before anything is created
    have hcollects : ∀ e : (i : Statement) × Reply i, Collects e.1 → isCreation e = false ∧
        secretMade e = none ∧ adoptsMarked r.identity e = false := by
      rintro ⟨i, reply⟩ (hi | ⟨name, fence, rfl⟩)
      · have hquiet := quiet_event r.identity (e := ⟨i, reply⟩) hi
        exact ⟨hquiet.1, hquiet.2.1, hquiet.2.2.2⟩
      · exact ⟨rfl, rfl, rfl⟩
    have hkept : ∀ new : Past Reply, (∀ e ∈ new, Collects e.1) →
        Kept r.identity (new ++ [⟨.ensureNamespace r.cfg.namespaceName, .ok ()⟩]) false := by
      intro new hnew
      induction new with
      | nil => exact hnamespace
      | cons e new ih =>
        rw [forall_mem_cons] at hnew
        obtain ⟨hcreation, hmade, hmarked⟩ := hcollects e hnew.1
        exact (ih hnew.2).cons hmarked hmade hcreation
    rw [onExcept_ok, follows_bind]
    refine (only_preflightGc r.identity).follows (fun new hnew i _ => ?_) fun new hnew _ => ?_
    · exact ⟨(hkept new hnew).unmarked, fun _ _ _ => (hkept new hnew).created⟩
    · exact follows_loop (I := Kept r.identity) (fun _ _ h => follows_deployTurn h turns _)
        (fun _ _ h => h.fair) turns (hkept new hnew)

end Buzz.Kubernetes
