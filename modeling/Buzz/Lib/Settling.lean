import Buzz.Lib.Replicas
import Mathlib.Algebra.BigOperators.Group.Finset.Basic
import Mathlib.Algebra.Order.BigOperators.Group.Finset
import Mathlib.Data.Fintype.Prod

/-!
# Exchanges that settle

Replicas that no longer act exchange what they publish, round after round. When a reception raises a
bounded potential of the receiver unless it changes nothing, some round changes nothing at all, and
after it no replica has anything to learn from what another one would publish.
-/

namespace Buzz

open List Option Function

variable {ι σ β α ε : Type*}

def ReplicaAction.Quiet : ReplicaAction ι α → Prop
  | .act .. => False
  | .publish _ => True
  | .receive .. => True

namespace Replication

variable (R : Replication σ β α ε) [DecidableEq ι] (init : ι → σ)

/-- A round: there are no local actions, and every replica receives something that every other one
has published in this round. -/
def Round (w w' : Replicated ι σ β ε) : Prop :=
  ∃ as : List (ReplicaAction ι α), (∀ a ∈ as, a.Quiet) ∧ (R.machine init).run w as = some w' ∧
    ∀ i j, i ≠ j → ∃ before between after w₁, (R.machine init).run w before = some w₁ ∧
      as = before ++ .publish j :: (between ++ .receive i w₁.network.length :: after)

variable {R init} {w w' : Replicated ι σ β ε} {as : List (ReplicaAction ι α)}

theorem run_network (h : (R.machine init).run w as = some w') : w.network <+: w'.network := by
  refine StateMachine.run_le (R := fun w w' => w.network <+: w'.network)
    (fun w => prefix_rfl)
    (fun w₁ w₂ w₃ (h : w₁.network <+: w₂.network) (h' : w₂.network <+: w₃.network) => h.trans h')
    (fun w a w' hs => ?_) h
  cases a with
  | act i a =>
    cases hs
    exact prefix_rfl
  | publish i =>
    cases hs
    exact prefix_append _ _
  | receive i n =>
    obtain ⟨p, -, rfl⟩ := map_eq_some_iff.mp hs
    exact prefix_rfl

/-! ### There is always a round -/

/-- For each pair, the second replica publishes and the first one receives it. -/
def exchange (n : ℕ) : List (ι × ι) → List (ReplicaAction ι α)
  | [] => []
  | (i, j) :: ps => .publish j :: .receive i n :: exchange (n + 1) ps

omit [DecidableEq ι] in
theorem quiet_exchange (n : ℕ) (ps : List (ι × ι)) :
    ∀ a ∈ exchange (α := α) n ps, a.Quiet := by
  induction ps generalizing n with
  | nil => exact nofun
  | cons p ps ih =>
    intro a ha
    obtain rfl | ha := mem_cons.mp ha
    · exact trivial
    · obtain rfl | ha := mem_cons.mp ha
      · exact trivial
      · exact ih (n + 1) a ha

theorem run_publish_receive (R : Replication σ β α ε) (init : ι → σ) (w : Replicated ι σ β ε)
    (i j : ι) : ∃ w₂, (R.machine init).run w [.publish j, .receive i w.network.length] = some w₂ ∧
      w₂.network.length = w.network.length + 1 := by
  have hreceive : ∀ v : Replicated ι σ β ε, v.network.length = w.network.length + 1 →
      ∃ w₂, R.next v (.receive i w.network.length) = some w₂ ∧
        w₂.network.length = w.network.length + 1 := by
    intro v hv
    have hp : ∃ p, v.network[w.network.length]? = some p :=
      ⟨_, getElem?_eq_getElem (by omega)⟩
    obtain ⟨p, hp⟩ := hp
    exact ⟨v.setReplica i (R.receive p.blob (v.replica i)) (p.past ++ v.past i),
      map_eq_some_iff.mpr ⟨p, hp, rfl⟩, hv⟩
  obtain ⟨w₂, hw₂, hlen⟩ :=
    hreceive { w with network := w.network ++ [⟨R.publish (w.replica j), w.past j⟩] } (by simp)
  exact ⟨w₂, StateMachine.run_cons_eq_some _ |>.mpr
    ⟨_, rfl, StateMachine.run_cons_eq_some _ |>.mpr ⟨w₂, hw₂, rfl⟩⟩, hlen⟩

theorem run_exchange (R : Replication σ β α ε) (init : ι → σ) (w : Replicated ι σ β ε)
    (ps : List (ι × ι)) : ∃ w', (R.machine init).run w (exchange w.network.length ps) = some w' ∧
      ∀ p ∈ ps, ∃ before after w₁, (R.machine init).run w before = some w₁ ∧
        exchange w.network.length ps =
          before ++ .publish p.2 :: .receive p.1 w₁.network.length :: after := by
  induction ps generalizing w with
  | nil => exact ⟨w, rfl, nofun⟩
  | cons q ps ih =>
    obtain ⟨i, j⟩ := q
    obtain ⟨w₂, hw₂, hlen⟩ := run_publish_receive R init w i j
    obtain ⟨w', hw', hpairs⟩ := ih w₂
    have happend : exchange (α := α) w.network.length ((i, j) :: ps) =
        [.publish j, .receive i w.network.length] ++ exchange w₂.network.length ps := by
      rw [hlen]
      rfl
    refine ⟨w', ?_, fun p hp => ?_⟩
    · rwa [happend, StateMachine.run_append, hw₂]
    · obtain rfl | hp := mem_cons.mp hp
      · exact ⟨[], _, w, rfl, rfl⟩
      · obtain ⟨before, after, w₁, hbefore, hsplit⟩ := hpairs p hp
        refine ⟨[.publish j, .receive i w.network.length] ++ before, after, w₁, ?_, ?_⟩
        · rwa [StateMachine.run_append, hw₂]
        · simp [happend, hsplit]

theorem exists_round [Fintype ι] (R : Replication σ β α ε) (init : ι → σ)
    (w : Replicated ι σ β ε) : ∃ w', R.Round init w w' := by
  obtain ⟨w', hw', hpairs⟩ := run_exchange R init w Finset.univ.toList
  refine ⟨w', _, quiet_exchange _ _, hw', fun i j _ => ?_⟩
  obtain ⟨before, after, w₁, hbefore, hsplit⟩ :=
    hpairs (i, j) (Finset.mem_toList.mpr (Finset.mem_univ _))
  exact ⟨before, [], after, w₁, hbefore, hsplit⟩

theorem exists_rounds [Fintype ι] (R : Replication σ β α ε) (init : ι → σ)
    (w : Replicated ι σ β ε) : ∃ v : ℕ → Replicated ι σ β ε, v 0 = w ∧
      ∀ n, R.Round init (v n) (v (n + 1)) := by
  choose f hf using exists_round R init
  refine ⟨fun n => f^[n] w, rfl, fun n => ?_⟩
  show R.Round init (f^[n] w) (f^[n + 1] w)
  rw [iterate_succ_apply']
  exact hf _

end Replication

/-! ### Coming to rest -/

/-- A potential `φ` of good states, with a bound `B`, that a reception of what a good state publishes
raises, unless it leaves a state that is the same for all that matters. -/
structure Settles (R : Replication σ β α ε) (I : σ → Prop) (Same : σ → σ → Prop) (φ : σ → ℕ)
    (B : ℕ) : Prop where
  receive : ∀ s t, I s → I t → I (R.receive (R.publish t) s)
  raise : ∀ s t, I s → I t → φ s ≤ φ (R.receive (R.publish t) s)
  rest : ∀ s t, I s → I t → φ (R.receive (R.publish t) s) = φ s →
    Same (R.receive (R.publish t) s) s
  bound : ∀ s, I s → φ s ≤ B
  equiv : Equivalence Same
  congr : ∀ s s' t t', I s → I s' → I t → I t' → Same s s' → Same t t' →
    Same (R.receive (R.publish t) s) (R.receive (R.publish t') s')

namespace Settles

variable {R : Replication σ β α ε} [DecidableEq ι] [Fintype ι] {init : ι → σ} {I : σ → Prop}
  {Same : σ → σ → Prop} {φ : σ → ℕ} {B : ℕ} {w w' : Replicated ι σ β ε}
  {as : List (ReplicaAction ι α)}

/-- All replicas are good, and all summaries were published by good ones. -/
def Good (R : Replication σ β α ε) (I : σ → Prop) (w : Replicated ι σ β ε) : Prop :=
  (∀ i, I (w.replica i)) ∧ ∀ p ∈ w.network, ∃ t, I t ∧ p.blob = R.publish t

/-- The potential of all replicas. -/
def total (φ : σ → ℕ) (w : Replicated ι σ β ε) : ℕ := ∑ i, φ (w.replica i)

theorem step (hset : Settles R I Same φ B) (hgood : Good R I w) {a : ReplicaAction ι α}
    (hquiet : a.Quiet) (hs : R.next w a = some w') :
    Good R I w' ∧ total φ w ≤ total φ w' ∧
      (total φ w' = total φ w → ∀ i, Same (w'.replica i) (w.replica i)) := by
  obtain ⟨hI, hP⟩ := hgood
  cases a with
  | act i a => exact hquiet.elim
  | publish i =>
    cases hs
    refine ⟨⟨hI, fun p hp => ?_⟩, Nat.le_refl _, fun _ j => hset.equiv.refl _⟩
    obtain hp | hp := mem_append.mp hp
    · exact hP p hp
    · obtain rfl := mem_singleton.mp hp
      exact ⟨_, hI i, rfl⟩
  | receive i n =>
    obtain ⟨p, hp, rfl⟩ := map_eq_some_iff.mp hs
    obtain ⟨t, ht, hblob⟩ := hP p (mem_of_getElem? hp)
    rw [hblob]
    -- Only the receiver changes.
    have hreplica : ∀ j, (w.setReplica i (R.receive (R.publish t) (w.replica i))
          (p.past ++ w.past i)).replica j = w.replica j ∨
        (w.setReplica i (R.receive (R.publish t) (w.replica i)) (p.past ++ w.past i)).replica j =
          R.receive (R.publish t) (w.replica j) := by
      intro j
      by_cases hj : j = i
      · subst hj
        exact .inr (update_self ..)
      · exact .inl (update_of_ne hj ..)
    have hle : ∀ j, φ (w.replica j) ≤ φ ((w.setReplica i (R.receive (R.publish t) (w.replica i))
        (p.past ++ w.past i)).replica j) := by
      intro j
      obtain hj | hj := hreplica j
      · rw [hj]
      · rw [hj]
        exact hset.raise _ _ (hI j) ht
    refine ⟨⟨fun j => ?_, hP⟩, Finset.sum_le_sum fun j _ => hle j, fun heq j => ?_⟩
    · obtain hj | hj := hreplica j
      · rw [hj]
        exact hI j
      · rw [hj]
        exact hset.receive _ _ (hI j) ht
    · have hj := (Finset.sum_eq_sum_iff_of_le fun j _ => hle j).mp heq.symm j (Finset.mem_univ j)
      obtain hsame | hsame := hreplica j
      · rw [hsame]
        exact hset.equiv.refl _
      · rw [hsame] at hj ⊢
        exact hset.rest _ _ (hI j) ht hj.symm

theorem run (hset : Settles R I Same φ B) (hgood : Good R I w) (hquiet : ∀ a ∈ as, a.Quiet)
    (hr : (R.machine init).run w as = some w') :
    Good R I w' ∧ total φ w ≤ total φ w' ∧
      (total φ w' = total φ w → ∀ i, Same (w'.replica i) (w.replica i)) := by
  induction as generalizing w with
  | nil =>
    cases hr
    exact ⟨hgood, Nat.le_refl _, fun _ i => hset.equiv.refl _⟩
  | cons a as ih =>
    obtain ⟨w₁, hs, hr⟩ := (R.machine init).run_cons_eq_some.mp hr
    obtain ⟨hgood₁, hle₁, hsame₁⟩ := hset.step hgood (hquiet a (mem_cons_self ..)) hs
    obtain ⟨hgood', hle, hsame⟩ :=
      ih hgood₁ (fun a ha => hquiet a (mem_cons_of_mem _ ha)) hr
    refine ⟨hgood', hle₁.trans hle, fun heq i => ?_⟩
    exact hset.equiv.trans (hsame (by omega) i) (hsame₁ (by omega) i)

theorem quiescent_of_round (hset : Settles R I Same φ B) (hgood : Good R I w)
    (hround : R.Round init w w') (heq : total φ w' = total φ w) {i j : ι} (hij : i ≠ j) :
    Same (R.receive (R.publish (w.replica j)) (w.replica i)) (w.replica i) := by
  obtain ⟨as, hquiet, hr, hpairs⟩ := hround
  obtain ⟨before, between, after, w₁, hbefore, rfl⟩ := hpairs i j hij
  rw [StateMachine.run_append, hbefore, bind_some] at hr
  obtain ⟨w₂, hpublish, hr⟩ := (R.machine init).run_cons_eq_some.mp hr
  rw [StateMachine.run_append] at hr
  obtain ⟨w₃, hbetween, hr⟩ := bind_eq_some_iff.mp hr
  obtain ⟨w₄, hreceive, hafter⟩ := (R.machine init).run_cons_eq_some.mp hr
  have hmem : ∀ {a}, a ∈ between → a ∈ before ++ .publish j :: (between ++
      .receive i w₁.network.length :: after) := fun ha =>
    mem_append_right _ (mem_cons_of_mem _ (mem_append_left _ ha))
  have hmem' : ∀ {a}, a ∈ after → a ∈ before ++ .publish j :: (between ++
      .receive i w₁.network.length :: after) := fun ha =>
    mem_append_right _ (mem_cons_of_mem _
      (mem_append_right _ (mem_cons_of_mem _ ha)))
  obtain ⟨hgood₁, hle₁, hsame₁⟩ :=
    hset.run hgood (fun a ha => hquiet a (mem_append_left _ ha)) hbefore
  obtain ⟨hgood₂, hle₂, -⟩ := hset.step (a := .publish j) hgood₁ trivial hpublish
  obtain ⟨hgood₃, hle₃, hsame₃⟩ := hset.run hgood₂ (fun a ha => hquiet a (hmem ha)) hbetween
  obtain ⟨hgood₄, hle₄, hsame₄⟩ :=
    hset.step (a := .receive i w₁.network.length) hgood₃ trivial hreceive
  obtain ⟨-, hle', -⟩ := hset.run hgood₄ (fun a ha => hquiet a (hmem' ha)) hafter
  -- What is received is what was published in this round.
  have hnetwork : w₃.network[w₁.network.length]? =
      some ⟨R.publish (w₁.replica j), w₁.past j⟩ := by
    cases hpublish
    obtain ⟨rest, hrest⟩ := Replication.run_network hbetween
    simp [← hrest]
  have hreplica : w₄.replica i = R.receive (R.publish (w₁.replica j)) (w₃.replica i) := by
    obtain ⟨p, hp, rfl⟩ := map_eq_some_iff.mp hreceive
    obtain rfl := some.inj (hnetwork.symm.trans hp)
    exact update_self ..
  have hw₂ : w₂.replica = w₁.replica := by
    cases hpublish
    rfl
  have hi₁ : Same (w₁.replica i) (w.replica i) := hsame₁ (by omega) i
  have hj₁ : Same (w₁.replica j) (w.replica j) := hsame₁ (by omega) j
  have hi₃ : Same (w₃.replica i) (w.replica i) := by
    have h := hsame₃ (by omega) i
    rw [hw₂] at h
    exact hset.equiv.trans h hi₁
  have hi₄ : Same (w₄.replica i) (w.replica i) :=
    hset.equiv.trans (hsame₄ (by omega) i) hi₃
  refine hset.equiv.trans (hset.congr _ _ _ _ (hgood.1 i) (hgood₃.1 i) (hgood.1 j)
    (hgood₁.1 j) (hset.equiv.symm hi₃) (hset.equiv.symm hj₁)) ?_
  rwa [← hreplica]

/-- **Coming to rest.** Every infinite sequence of rounds reaches a state in which no replica learns
from what another one would publish. -/
theorem exists_quiescent (hset : Settles R I Same φ B) {v : ℕ → Replicated ι σ β ε}
    (hgood : Good R I (v 0)) (hrounds : ∀ n, R.Round init (v n) (v (n + 1))) :
    ∃ n, ∀ i j, i ≠ j → Same (R.receive (R.publish ((v n).replica j)) ((v n).replica i))
      ((v n).replica i) := by
  have hall : ∀ n, Good R I (v n) := by
    intro n
    induction n with
    | zero => exact hgood
    | succ n ih =>
      obtain ⟨as, hquiet, hr, -⟩ := hrounds n
      exact (hset.run ih hquiet hr).1
  have hmono : ∀ n, total φ (v n) ≤ total φ (v (n + 1)) := by
    intro n
    obtain ⟨as, hquiet, hr, -⟩ := hrounds n
    exact (hset.run (hall n) hquiet hr).2.1
  -- A potential that every round raises grows beyond its bound.
  have hrest : ∃ n, total φ (v (n + 1)) = total φ (v n) := by
    by_contra hgrow
    have hstrict : ∀ n, total φ (v n) < total φ (v (n + 1)) := fun n =>
      Nat.lt_of_le_of_ne (hmono n) fun h => hgrow ⟨n, h.symm⟩
    have hge : ∀ n, n ≤ total φ (v n) := by
      intro n
      induction n with
      | zero => exact Nat.zero_le _
      | succ n ih => exact Nat.succ_le_of_lt (ih.trans_lt (hstrict n))
    have hbound : ∀ n, total φ (v n) ≤ Fintype.card ι * B := by
      intro n
      refine (Finset.sum_le_sum fun i _ => hset.bound _ ((hall n).1 i)).trans ?_
      exact (Finset.sum_const_nat fun _ _ => rfl).le
    have hfar := hge (Fintype.card ι * B + 1)
    have hnear := hbound (Fintype.card ι * B + 1)
    omega
  obtain ⟨n, hn⟩ := hrest
  exact ⟨n, fun i j hij => hset.quiescent_of_round (hall n) (hrounds n) hn hij⟩

end Settles

end Buzz
