import Mathlib.Data.List.Basic
import Mathlib.Data.List.Induction

/-!
# State machines with explicit nondeterminism

A machine is a set of initial states and a *partial function* from a state and an action to the
next state. Everything that is not determined by the state — which party moves, what a clock
reads, which fresh name is drawn, whether a message is lost — sits in the action, so a run is
nothing but a list of actions and every step can be evaluated.

`none` means that the action is not enabled. An interleaving is therefore an arbitrary list of
actions whose steps are all defined, and "for every interleaving" is a quantifier over lists.

A machine with its history records what a state was reached by: the steps taken so far, each with the
state after it, the latest first. A property of the past of a run becomes a property of one state of
the recorded machine, and is proved as an invariant.
-/

/-! ## Machines and runs -/

/-- Initial states, and a partial step function. -/
structure StateMachine (σ : Type*) (α : Type*) where
  Init : σ → Prop
  /-- The state after an action, or `none` when the action is not enabled. -/
  step : σ → α → Option σ

namespace StateMachine

variable {σ α : Type*} (M : StateMachine σ α)

/-- The state after a list of actions, or `none` as soon as one of them is not enabled. -/
def run (s : σ) : List α → Option σ
  | [] => some s
  | a :: as => (M.step s a).bind fun s' => run s' as

@[simp] theorem run_nil (s : σ) : M.run s [] = some s := rfl

theorem run_cons (s : σ) (a : α) (as : List α) :
    M.run s (a :: as) = (M.step s a).bind fun s' => M.run s' as := rfl

variable {s : σ} {as : List α}

theorem run_cons_eq_some {s'' : σ} {a : α} :
    M.run s (a :: as) = some s'' ↔ ∃ s', M.step s a = some s' ∧ M.run s' as = some s'' := by
  rw [run_cons, Option.bind_eq_some_iff]

theorem run_append (s : σ) (as bs : List α) :
    M.run s (as ++ bs) = (M.run s as).bind fun s' => M.run s' bs := by
  induction as generalizing s with
  | nil => rfl
  | cons a as ih =>
    rw [List.cons_append, run_cons, run_cons, Option.bind_assoc]
    exact congrArg _ (funext ih)

/-- Some run from an initial state ends in `s`. -/
def Reachable (s : σ) : Prop := ∃ s₀ as, M.Init s₀ ∧ M.run s₀ as = some s

variable {M}

theorem Reachable.init (h : M.Init s) : M.Reachable s := ⟨s, [], h, rfl⟩

variable {s' : σ}

theorem Reachable.run (h : M.Reachable s) (hr : M.run s as = some s') : M.Reachable s' := by
  obtain ⟨s₀, bs, h₀, hb⟩ := h
  exact ⟨s₀, bs ++ as, h₀, by rw [run_append, hb]; exact hr⟩

theorem Reachable.step (h : M.Reachable s) {a : α} (hs : M.step s a = some s') : M.Reachable s' :=
  have hr : M.run s [a] = some s' := by rw [run_cons, hs]; rfl
  h.run hr

/-! ### Invariants -/

variable {I : σ → Prop}

/-- A property that every step from a reachable state preserves is preserved by runs. -/
theorem Reachable.run_preserves
    (hstep : ∀ s a s', M.Reachable s → I s → M.step s a = some s' → I s') (h : M.Reachable s)
    (hr : M.run s as = some s') (hI : I s) : I s' := by
  induction as generalizing s with
  | nil => obtain rfl : s = s' := by simpa using hr
           exact hI
  | cons a as ih =>
    obtain ⟨s₁, hs, hr⟩ := M.run_cons_eq_some.mp hr
    exact ih (h.step hs) hr (hstep s a s₁ h hI hs)

/-- **Invariance.** A property that holds initially and is preserved by every step from a
reachable state holds in every reachable state. -/
theorem Reachable.invariant (hinit : ∀ s, M.Init s → I s)
    (hstep : ∀ s a s', M.Reachable s → I s → M.step s a = some s' → I s') (h : M.Reachable s) :
    I s := by
  obtain ⟨s₀, as, h₀, hr⟩ := h
  exact Reachable.run_preserves hstep (Reachable.init h₀) hr (hinit s₀ h₀)

/-- A property that every step preserves is preserved by runs from any state. -/
theorem run_preserves (hstep : ∀ s a s', I s → M.step s a = some s' → I s')
    (hr : M.run s as = some s') (hI : I s) : I s' := by
  induction as generalizing s with
  | nil => obtain rfl : s = s' := by simpa using hr
           exact hI
  | cons a as ih =>
    obtain ⟨s₁, hs, hr⟩ := M.run_cons_eq_some.mp hr
    exact ih hr (hstep s a s₁ hI hs)

/-- A reflexive and transitive relation that contains every step contains every run. -/
theorem run_le {R : σ → σ → Prop} (hrefl : ∀ s, R s s)
    (htrans : ∀ s₁ s₂ s₃, R s₁ s₂ → R s₂ s₃ → R s₁ s₃)
    (hstep : ∀ s a s', M.step s a = some s' → R s s') (hr : M.run s as = some s') : R s s' :=
  run_preserves (I := R s) (fun s₁ a s₂ h hs => htrans s s₁ s₂ h (hstep s₁ a s₂ hs)) hr (hrefl s)

/-! ### Leaving steps out -/

/-- When the steps outside `p` do not show in the image under `f`, and the others are steps of the
image, a run without the steps outside `p` is a run of the image. -/
theorem run_filter (f : σ → σ) (p : α → Bool)
    (hstep : ∀ s a s', M.step s a = some s' → if p a then M.step (f s) a = some (f s') else f s' = f s)
    (hr : M.run s as = some s') : M.run (f s) (as.filter p) = some (f s') := by
  induction as generalizing s with
  | nil =>
    obtain rfl : s = s' := by simpa using hr
    rfl
  | cons a as ih =>
    obtain ⟨s₁, hs, hr⟩ := M.run_cons_eq_some.mp hr
    have hone := hstep s a s₁ hs
    cases hp : p a with
    | true =>
      rw [hp, if_pos rfl] at hone
      rw [List.filter_cons_of_pos hp]
      exact M.run_cons_eq_some.mpr ⟨f s₁, hone, ih hr⟩
    | false =>
      rw [hp, if_neg Bool.false_ne_true] at hone
      rw [List.filter_cons_of_neg (by rw [hp]; exact Bool.false_ne_true), ← hone]
      exact ih hr

/-! ### Runs whose steps meet a condition -/

/-- The machine whose steps are those of `M` that meet `G`. -/
def guard (M : StateMachine σ α) (G : σ → α → Prop) [∀ s a, Decidable (G s a)] :
    StateMachine σ α where
  Init := M.Init
  step s a := if G s a then M.step s a else none

variable {G : σ → α → Prop}

theorem guard_step [∀ s a, Decidable (G s a)] {a : α} :
    (M.guard G).step s a = some s' ↔ G s a ∧ M.step s a = some s' := by
  by_cases h : G s a <;> simp [guard, h]

theorem run_of_guard [∀ s a, Decidable (G s a)] (h : (M.guard G).run s as = some s') :
    M.run s as = some s' := by
  induction as generalizing s with
  | nil => exact h
  | cons a as ih =>
    obtain ⟨s₁, hs, hr⟩ := (M.guard G).run_cons_eq_some.mp h
    exact M.run_cons_eq_some.mpr ⟨s₁, (guard_step.mp hs).2, ih hr⟩

theorem run_guard {P : α → Prop} [DecidablePred P] (h : M.run s as = some s')
    (hall : ∀ a ∈ as, P a) : (M.guard fun _ a => P a).run s as = some s' := by
  induction as generalizing s with
  | nil => exact h
  | cons a as ih =>
    obtain ⟨s₁, hs, hr⟩ := M.run_cons_eq_some.mp h
    obtain ⟨ha, hrest⟩ := List.forall_mem_cons.mp hall
    exact (M.guard _).run_cons_eq_some.mpr ⟨s₁, guard_step.mpr ⟨ha, hs⟩, ih hr hrest⟩

/-- What holds initially and is preserved by the steps that meet `G` holds in every state that a
run meeting `G` reaches. -/
theorem reachable_guard [∀ s a, Decidable (G s a)] (hinit : ∀ s, M.Init s → I s)
    (hstep : ∀ s a s', I s → G s a → M.step s a = some s' → I s') (h : (M.guard G).Reachable s) :
    I s := by
  refine Reachable.invariant (M := M.guard G) hinit (fun s a s' _ hI hs => ?_) h
  rw [guard_step] at hs
  exact hstep s a s' hI hs.1 hs.2

end StateMachine

/-! ## Machines with their history -/

/-- An action with the state after it. -/
structure Moment (σ α : Type*) where
  action : α
  after : σ

def StateMachine.recorded {σ α : Type*} (M : StateMachine σ α) :
    StateMachine (σ × List (Moment σ α)) α where
  Init p := M.Init p.1 ∧ p.2 = []
  step p a := (M.step p.1 a).map fun s => (s, ⟨a, s⟩ :: p.2)

variable {σ α : Type*} {M : StateMachine σ α}

namespace StateMachine

theorem recorded_step {p p' : σ × List (Moment σ α)} {a : α} :
    M.recorded.step p a = some p' ↔
      ∃ s, M.step p.1 a = some s ∧ p' = (s, ⟨a, s⟩ :: p.2) := by
  show (M.step p.1 a).map _ = some p' ↔ _
  rw [Option.map_eq_some_iff]
  constructor
  · rintro ⟨s, hs, rfl⟩
    exact ⟨s, hs, rfl⟩
  · rintro ⟨s, hs, rfl⟩
    exact ⟨s, hs, rfl⟩

end StateMachine

/-! ### What has happened since -/

/-- `A` has happened, and `B` with it or after it. -/
def Since (A B : Moment σ α → Prop) (past : List (Moment σ α)) : Prop :=
  ∃ newer m older, past = newer ++ m :: older ∧ A m ∧ ∃ n ∈ newer ++ [m], B n

variable {A B : Moment σ α → Prop} {past : List (Moment σ α)} {m : Moment σ α}

theorem Since.cons (h : Since A B past) : Since A B (m :: past) := by
  obtain ⟨newer, c, older, rfl, hc, n, hn, hB⟩ := h
  exact ⟨m :: newer, c, older, rfl, hc, n, List.mem_cons_of_mem m hn, hB⟩

/-- What happens now happens after all that has happened. -/
theorem Since.now (hpast : ∃ c ∈ m :: past, A c) (h : B m) : Since A B (m :: past) := by
  obtain ⟨c, hc, hA⟩ := hpast
  obtain ⟨newer, older, heq⟩ := List.append_of_mem hc
  refine ⟨newer, c, older, heq, hA, m, ?_, h⟩
  cases newer with
  | nil | cons d newer =>
    rw [(List.cons.inj heq).1]
    exact List.mem_cons_self

theorem since_cons : Since A B (m :: past) ↔
    Since A B past ∨ (A m ∧ B m) ∨ ((∃ c ∈ past, A c) ∧ B m) := by
  constructor
  · rintro ⟨newer, c, older, heq, hA, n, hn, hB⟩
    cases newer with
    | nil =>
      obtain ⟨rfl, rfl⟩ := List.cons.inj heq
      obtain rfl := List.mem_singleton.mp hn
      exact .inr (.inl ⟨hA, hB⟩)
    | cons d newer =>
      obtain ⟨rfl, rfl⟩ := List.cons.inj heq
      obtain rfl | hn := List.mem_cons.mp hn
      · exact .inr (.inr ⟨⟨c, List.mem_append_right _ List.mem_cons_self, hA⟩, hB⟩)
      · exact .inl ⟨newer, c, older, rfl, hA, n, hn, hB⟩
  · rintro (h | ⟨hA, hB⟩ | ⟨⟨c, hc, hA⟩, hB⟩)
    · exact h.cons
    · exact Since.now ⟨m, List.mem_cons_self, hA⟩ hB
    · exact Since.now ⟨c, List.mem_cons_of_mem m hc, hA⟩ hB

theorem Since.exists_left (h : Since A B past) : ∃ c ∈ past, A c := by
  obtain ⟨newer, c, older, rfl, hA, -⟩ := h
  exact ⟨c, List.mem_append_right _ List.mem_cons_self, hA⟩

theorem Since.exists_right (h : Since A B past) : ∃ n ∈ past, B n := by
  obtain ⟨newer, c, older, rfl, -, n, hn, hB⟩ := h
  refine ⟨n, ?_, hB⟩
  rw [List.append_cons]
  exact List.mem_append_left _ hn

/-! ### The step since which something has held -/

namespace StateMachine

/-- In the run of `as` from `s₀`, a step `A` was taken, and in all states from it on `P` holds. -/
def HoldsSince (M : StateMachine σ α) (A : σ → α → Prop) (P : σ → Prop) (s₀ : σ) (as : List α) :
    Prop :=
  ∃ earlier a later s, as = earlier ++ a :: later ∧ M.run s₀ earlier = some s ∧ A s a ∧
    ∀ part rest, later = part ++ rest → ∃ s', M.run s (a :: part) = some s' ∧ P s'

variable {A : σ → α → Prop} {P I : σ → Prop} {s₀ s s' : σ} {as : List α} {a : α}

theorem HoldsSince.snoc (h : M.HoldsSince A P s₀ as) (hr : M.run s₀ (as ++ [a]) = some s')
    (hP : P s') : M.HoldsSince A P s₀ (as ++ [a]) := by
  obtain ⟨earlier, b, later, t, rfl, ht, hA, hheld⟩ := h
  refine ⟨earlier, b, later ++ [a], t, List.append_assoc .., ht, hA, fun part rest heq => ?_⟩
  obtain rfl | ⟨rest, c, rfl⟩ := rest.eq_nil_or_concat'
  · rw [List.append_nil] at heq
    refine ⟨s', ?_, hP⟩
    rw [List.append_assoc, run_append, ht, Option.bind_some, List.cons_append, heq] at hr
    exact hr
  · rw [← List.append_assoc] at heq
    exact hheld part rest (List.append_inj_left' heq rfl)

theorem HoldsSince.of_guard {G : σ → α → Prop} [∀ s a, Decidable (G s a)]
    (h : (M.guard G).HoldsSince A P s₀ as) : M.HoldsSince A P s₀ as := by
  obtain ⟨earlier, a, later, s, heq, hs, hA, hheld⟩ := h
  refine ⟨earlier, a, later, s, heq, run_of_guard hs, hA, fun part rest hpart => ?_⟩
  obtain ⟨s', hs', hP⟩ := hheld part rest hpart
  exact ⟨s', run_of_guard hs', hP⟩

/-- **The onset.** What holds after a run, and did not before it, has held since a step that could
make it hold. -/
theorem holdsSince (hinv : ∀ s a s', I s → M.step s a = some s' → I s')
    (hstep : ∀ s a s', I s → M.step s a = some s' → P s' → P s ∨ A s a)
    (hI : I s₀) (hnot : ¬P s₀) (hr : M.run s₀ as = some s) (hP : P s) :
    M.HoldsSince A P s₀ as := by
  induction as using List.reverseRecOn generalizing s with
  | nil =>
    obtain rfl : s₀ = s := by simpa using hr
    exact absurd hP hnot
  | append_singleton as a ih =>
    have hlast := hr
    rw [run_append] at hlast
    obtain ⟨t, ht, hta⟩ := Option.bind_eq_some_iff.mp hlast
    obtain ⟨s', hs, hs'⟩ := M.run_cons_eq_some.mp hta
    obtain rfl : s' = s := by simpa using hs'
    obtain hPt | hA := hstep t a s' (M.run_preserves hinv ht hI) hs hP
    · exact (ih ht hPt).snoc hr hP
    · refine ⟨as, a, [], t, rfl, ht, hA, fun part rest heq => ?_⟩
      obtain ⟨rfl, -⟩ := List.nil_eq_append_iff.mp heq
      exact ⟨s', hta, hP⟩

/-- Between a state that is not of some kind and one that is, a step leads into the kind. -/
theorem exists_onset (hr : M.run s as = some s') (hnot : ¬P s) (hP : P s') :
    ∃ earlier a later t t', as = earlier ++ a :: later ∧ M.run s earlier = some t ∧
      M.step t a = some t' ∧ ¬P t ∧ P t' := by
  have hsince := holdsSince (M := M) (I := fun _ => True)
    (A := fun t a => ∃ t', M.step t a = some t' ∧ ¬P t ∧ P t') (fun _ _ _ _ _ => trivial)
    (fun t a t' _ hs hP' => (em (P t)).imp_right fun hnot => ⟨t', hs, hnot, hP'⟩)
    trivial hnot hr hP
  obtain ⟨earlier, a, later, t, heq, ht, ⟨t', hs, hnot, hP'⟩, -⟩ := hsince
  exact ⟨earlier, a, later, t, t', heq, ht, hs, hnot, hP'⟩

/-- What a log holds, and did not hold at first, was put there by a step. -/
theorem exists_logged {β : Type*} (log : σ → List β) {Q : σ → σ → β → Prop}
    (hinv : ∀ s a s', I s → M.step s a = some s' → I s')
    (hstep : ∀ s a s', I s → M.step s a = some s' →
      log s' = log s ∨ ∃ b, log s' = b :: log s ∧ Q s s' b)
    (hI : I s₀) (hr : M.run s₀ as = some s) {b : β} (hnot : b ∉ log s₀) (hb : b ∈ log s) :
    ∃ earlier a later t t', as = earlier ++ a :: later ∧ M.run s₀ earlier = some t ∧
      M.step t a = some t' ∧ log t' = b :: log t ∧ Q t t' b := by
  obtain ⟨earlier, a, later, t, t', heq, ht, hs, hbefore, hafter⟩ :=
    exists_onset (P := fun s => b ∈ log s) hr hnot hb
  obtain hsame | ⟨c, hlog, hQ⟩ := hstep t a t' (M.run_preserves hinv ht hI) hs
  · rw [hsame] at hafter
    exact absurd hafter hbefore
  · rw [hlog] at hafter
    obtain rfl := (List.mem_cons.mp hafter).resolve_right hbefore
    exact ⟨earlier, a, later, t, t', heq, ht, hs, hlog, hQ⟩

end StateMachine
