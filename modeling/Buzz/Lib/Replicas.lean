import Buzz.Lib.StateMachine
import Mathlib.Logic.Function.Basic

/-!
# State-based replication with causal histories

Replicas act on their own state, publish a summary of it, and receive published summaries. A summary
may be received late, often, or never, and in any order. Every action is recorded in a log, together
with its causal past: the actions that its replica knew of. The histories are ghosts; no replica reads
them.
-/

namespace Buzz

open List Function

/-- The operations of a replica with states of type `σ`, published summaries of type `β`, actions of
type `α` and records of actions of type `ε`. -/
structure Replication (σ β α ε : Type*) where
  act : α → σ → σ
  record : α → σ → ε
  publish : σ → β
  receive : β → σ → σ

/-- An event with what its replica knew of. -/
structure Recorded (ε : Type*) where
  event : ε
  /-- Where the actions stand in the log that its replica knew of. -/
  past : List ℕ

/-- A published summary, with the causal past of its publisher. -/
structure Packet (β : Type*) where
  blob : β
  /-- Where the actions stand in the log that its publisher knew of. -/
  past : List ℕ

/-- The replicas, the log of their actions, and the packets sent. -/
structure Replicated (ι σ β ε : Type*) where
  replica : ι → σ
  past : ι → List ℕ
  log : List (Recorded ε)
  network : List (Packet β)

/-- A step of a replica. -/
inductive ReplicaAction (ι α : Type*) where
  | act (i : ι) (a : α)
  | publish (i : ι)
  | receive (i : ι) (n : ℕ)

variable {ι σ β α ε : Type*}

namespace Replicated

variable [DecidableEq ι]

def setReplica (w : Replicated ι σ β ε) (i : ι) (s : σ) (past : List ℕ) : Replicated ι σ β ε :=
  { w with
    replica := update w.replica i s
    past := update w.past i past }

/-- The action at `u` is one that replica `i` knows of, and no action of kind `K` that it knows of
follows it causally. -/
def Unanswered (w : Replicated ι σ β ε) (K : ε → Prop) (i : ι) (u : ℕ) : Prop :=
  u ∈ w.past i ∧ ∀ r ∈ w.past i, ∀ e, w.log[r]? = some e → K e.event → u ∉ e.past

end Replicated

/-! ### What is known -/

section Known

variable {log : List (Recorded ε)} {past past' : List ℕ} {P : ε → Prop} {x : Recorded ε} {n : ℕ}

/-- An action with this property is in the past. -/
def Knows (log : List (Recorded ε)) (past : List ℕ) (P : ε → Prop) : Prop :=
  ∃ u ∈ past, ∃ e, log[u]? = some e ∧ P e.event

/-- All actions of the past have this property. -/
def AllKnown (log : List (Recorded ε)) (past : List ℕ) (P : ε → Prop) : Prop :=
  ∀ u ∈ past, ∀ e, log[u]? = some e → P e.event

theorem Knows.grow (h : Knows log past P) : Knows (log ++ [x]) past P := by
  obtain ⟨u, hu, e, he, hP⟩ := h
  exact ⟨u, hu, e, by rw [List.getElem?_append_left (List.getElem?_eq_some_iff.mp he).1, he], hP⟩

theorem Knows.mono (h : Knows log past P) (hsub : past ⊆ past') : Knows log past' P := by
  obtain ⟨u, hu, hrest⟩ := h
  exact ⟨u, hsub hu, hrest⟩

theorem knows_self (hP : P x.event) : Knows (log ++ [x]) (log.length :: past) P :=
  ⟨log.length, mem_cons_self .., x, by simp, hP⟩

theorem AllKnown.grow (h : AllKnown log past P) (hpast : ∀ n ∈ past, n < log.length) :
    AllKnown (log ++ [x]) past P := by
  intro u hu e he
  rw [getElem?_append_left (hpast u hu)] at he
  exact h u hu e he

theorem AllKnown.append (h : AllKnown log past P) (h' : AllKnown log past' P) :
    AllKnown log (past ++ past') P := by
  intro u hu e he
  obtain hu | hu := mem_append.mp hu
  · exact h u hu e he
  · exact h' u hu e he

theorem AllKnown.imp {Q : ε → Prop} (h : AllKnown log past P) (himp : ∀ e, P e → Q e) :
    AllKnown log past Q :=
  fun u hu e he => himp _ (h u hu e he)

theorem AllKnown.cons (h : AllKnown log past P) (hpast : ∀ n ∈ past, n < log.length)
    (hP : P x.event) : AllKnown (log ++ [x]) (log.length :: past) P := by
  intro u hu e he
  obtain rfl | hu := mem_cons.mp hu
  · rw [getElem?_concat_length] at he
    rwa [← Option.some.inj he]
  · exact h.grow hpast u hu e he

end Known

namespace Replication

variable (R : Replication σ β α ε) [DecidableEq ι]

def next (w : Replicated ι σ β ε) : ReplicaAction ι α → Option (Replicated ι σ β ε)
  | .act i a =>
    some { w.setReplica i (R.act a (w.replica i)) (w.log.length :: w.past i) with
      log := w.log ++ [⟨R.record a (w.replica i), w.past i⟩] }
  | .publish i => some { w with network := w.network ++ [⟨R.publish (w.replica i), w.past i⟩] }
  | .receive i n =>
    w.network[n]?.map fun p => w.setReplica i (R.receive p.blob (w.replica i)) (p.past ++ w.past i)

/-- The replicas, from these states. -/
def machine (init : ι → σ) : StateMachine (Replicated ι σ β ε) (ReplicaAction ι α) where
  Init w := w = ⟨init, fun _ => [], [], []⟩
  step := R.next

end Replication

/-- A condition on what is received, as one on the steps. -/
def ReceivesOnly (G : σ → β → Prop) (w : Replicated ι σ β ε) : ReplicaAction ι α → Prop
  | .act .. => True
  | .publish _ => True
  | .receive i n => ∀ p ∈ w.network[n]?, G (w.replica i) p.blob

instance (G : σ → β → Prop) [∀ s b, Decidable (G s b)] (w : Replicated ι σ β ε)
    (a : ReplicaAction ι α) : Decidable (ReceivesOnly G w a) :=
  match a with
  | .act .. => isTrue trivial
  | .publish _ => isTrue trivial
  | .receive i n => inferInstanceAs (Decidable (∀ p ∈ w.network[n]?, G (w.replica i) p.blob))

/-! ### Invariants -/

/-- A property `I` of a state and a property `J` of a published summary, each with its causal past,
and a property `L` of recorded actions, that the operations keep when what is received meets `G`. -/
structure Keeps (R : Replication σ β α ε) (G : σ → β → Prop)
    (I : List (Recorded ε) → List ℕ → σ → Prop)
    (J : List (Recorded ε) → List ℕ → β → Prop) (L : List (Recorded ε) → Recorded ε → Prop) :
    Prop where
  grow : ∀ log e past s, (∀ n ∈ past, n < log.length) → I log past s → I (log ++ [e]) past s
  growBlob : ∀ log e past b, (∀ n ∈ past, n < log.length) → J log past b → J (log ++ [e]) past b
  growRecord : ∀ log e r, (∀ n ∈ r.past, n < log.length) → L log r → L (log ++ [e]) r
  record : ∀ log past s a, (∀ n ∈ past, n < log.length) → (∀ r ∈ log, L log r) → I log past s →
    L log ⟨R.record a s, past⟩
  act : ∀ log past s a, (∀ n ∈ past, n < log.length) → (∀ r ∈ log, L log r) → I log past s →
    I (log ++ [⟨R.record a s, past⟩]) (log.length :: past) (R.act a s)
  publish : ∀ log past s, I log past s → J log past (R.publish s)
  receive : ∀ log past past' s b, G s b → (∀ r ∈ log, L log r) → I log past s → J log past' b →
    I log (past' ++ past) (R.receive b s)

section Invariant

variable {R : Replication σ β α ε} {G : σ → β → Prop} [DecidableEq ι]
  {I : List (Recorded ε) → List ℕ → σ → Prop} {J : List (Recorded ε) → List ℕ → β → Prop}
  {L : List (Recorded ε) → Recorded ε → Prop} {w w' : Replicated ι σ β ε} {init : ι → σ}

/-- Every replica, every published summary and every recorded action is good, and knows of actions
that were made. -/
structure Kept (I : List (Recorded ε) → List ℕ → σ → Prop)
    (J : List (Recorded ε) → List ℕ → β → Prop) (L : List (Recorded ε) → Recorded ε → Prop)
    (w : Replicated ι σ β ε) : Prop where
  replica : ∀ i, I w.log (w.past i) (w.replica i)
  past : ∀ i, ∀ n ∈ w.past i, n < w.log.length
  blob : ∀ p ∈ w.network, J w.log p.past p.blob
  blobPast : ∀ p ∈ w.network, ∀ n ∈ p.past, n < w.log.length
  record : ∀ r ∈ w.log, L w.log r
  recordPast : ∀ r ∈ w.log, ∀ n ∈ r.past, n < w.log.length

theorem Kept.step (hkeeps : Keeps R G I J L) (h : Kept I J L w) {a : ReplicaAction ι α}
    (hg : ReceivesOnly G w a) (hs : R.next w a = some w') : Kept I J L w' := by
  cases a with
  | act i a =>
    cases hs
    have hlt : ∀ n, n < w.log.length →
        n < (w.log ++ [Recorded.mk (R.record a (w.replica i)) (w.past i)]).length := by
      intro n hn
      rw [length_append]
      exact Nat.lt_add_right _ hn
    refine ⟨fun j => ?_, fun j => ?_, fun p hp => ?_, fun p hp n hn => hlt n (h.blobPast p hp n hn),
      fun r hr => ?_, fun r hr n hn => hlt n ?_⟩
    · show I (w.log ++ [_]) (update w.past i (w.log.length :: w.past i) j)
        (update w.replica i (R.act a (w.replica i)) j)
      by_cases hj : j = i
      · subst hj
        rw [update_self, update_self]
        exact hkeeps.act _ _ _ a (h.past j) h.record (h.replica j)
      · rw [update_of_ne hj, update_of_ne hj]
        exact hkeeps.grow _ _ _ _ (h.past j) (h.replica j)
    · intro n hn
      replace hn : n ∈ update w.past i (w.log.length :: w.past i) j := hn
      by_cases hj : j = i
      · subst hj
        rw [update_self] at hn
        obtain rfl | hn := mem_cons.mp hn
        · show w.log.length < (w.log ++ [_]).length
          simp
        · exact hlt n (h.past j n hn)
      · rw [update_of_ne hj] at hn
        exact hlt n (h.past j n hn)
    · exact hkeeps.growBlob _ _ _ _ (h.blobPast p hp) (h.blob p hp)
    · obtain hr | hr := mem_append.mp hr
      · exact hkeeps.growRecord _ _ _ (h.recordPast r hr) (h.record r hr)
      · obtain rfl := mem_singleton.mp hr
        exact hkeeps.growRecord _ _ _ (h.past i)
          (hkeeps.record _ _ _ a (h.past i) h.record (h.replica i))
    · obtain hr | hr := mem_append.mp hr
      · exact h.recordPast r hr n hn
      · obtain rfl := mem_singleton.mp hr
        exact h.past i n hn
  | publish i =>
    cases hs
    refine ⟨h.replica, h.past, fun p hp => ?_, fun p hp => ?_, h.record, h.recordPast⟩
    · obtain hp | hp := mem_append.mp hp
      · exact h.blob p hp
      · obtain rfl := mem_singleton.mp hp
        exact hkeeps.publish _ _ _ (h.replica i)
    · obtain hp | hp := mem_append.mp hp
      · exact h.blobPast p hp
      · obtain rfl := mem_singleton.mp hp
        exact h.past i
  | receive i n =>
    obtain ⟨p, hp, rfl⟩ := Option.map_eq_some_iff.mp hs
    have hmem : p ∈ w.network := mem_of_getElem? hp
    refine ⟨fun j => ?_, fun j => ?_, h.blob, h.blobPast, h.record, h.recordPast⟩
    · show I w.log (update w.past i (p.past ++ w.past i) j)
        (update w.replica i (R.receive p.blob (w.replica i)) j)
      by_cases hj : j = i
      · subst hj
        rw [update_self, update_self]
        exact hkeeps.receive _ _ _ _ _ (hg p hp) h.record (h.replica j) (h.blob p hmem)
      · rw [update_of_ne hj, update_of_ne hj]
        exact h.replica j
    · intro n hn
      replace hn : n ∈ update w.past i (p.past ++ w.past i) j := hn
      by_cases hj : j = i
      · subst hj
        rw [update_self] at hn
        exact (mem_append.mp hn).elim (h.blobPast p hmem n) (h.past j n)
      · rw [update_of_ne hj] at hn
        exact h.past j n hn

/-- **The invariant of replicas.** A property that holds of the initial states and is kept by the
operations holds of every replica, every published summary and every recorded action, in every run
whose receptions meet the condition. -/
theorem Keeps.of_reachable [∀ w a, Decidable (ReceivesOnly (ι := ι) (ε := ε) (α := α) G w a)]
    (hkeeps : Keeps R G I J L) (hinit : ∀ i, I [] [] (init i))
    (h : ((R.machine init).guard (ReceivesOnly G)).Reachable w) : Kept I J L w := by
  refine StateMachine.reachable_guard (fun w hw => ?_)
    (fun w a w' hw hg hs => hw.step hkeeps hg hs) h
  obtain rfl := hw
  exact ⟨hinit, nofun, nofun,
    nofun, nofun,
    nofun⟩

end Invariant

end Buzz
