import Buzz.Lib.Programs

/-!
# Programs with a past

What a program may do and answer can depend on its past, which is what it has performed, with the
replies. A statement that was performed was performed at a moment of the run, and its reply is about
the store at that moment.

Programs are put together: one after another, where the second one is left out if the first one has
failed, and in loops, which are left with a result or go on for a number of turns. There is a rule
for each way to put programs together, and what they say holds in every run of concurrent requests.
-/

/-! ## Moments of a run -/

namespace Buzz

variable {ι : Type} {β : ι → Type} {σ ε α ρ : Type} {S : Semantics β σ ε}
  {program : α → Program β ρ} {Init : σ → Prop} {x₀ x x' : Execution β σ α ρ}
  {as : List (ProgramAction α ε)} {a : ProgramAction α ε}

/-! ### When a statement was performed -/

/-- In the run of `as` from `x₀`, the program took a step that made of the store what `P` says. -/
def SeenBy (M : StateMachine (Execution β σ α ρ) (ProgramAction α ε)) (x₀ : Execution β σ α ρ)
    (as : List (ProgramAction α ε)) (id : Nat) (P : σ → σ → Prop) : Prop :=
  ∃ earlier later y y', as = earlier ++ .advance id :: later ∧ M.run x₀ earlier = some y ∧
    M.step y (.advance id) = some y' ∧ P y.store y'.store

section SeenBy

variable {M : StateMachine (Execution β σ α ρ) (ProgramAction α ε)} {id : Nat}
  {P Q : σ → σ → Prop}

theorem SeenBy.imp (h : SeenBy M x₀ as id P) (himp : ∀ s s', P s s' → Q s s') :
    SeenBy M x₀ as id Q := by
  obtain ⟨earlier, later, y, y', heq, hrun, hs, hP⟩ := h
  exact ⟨earlier, later, y, y', heq, hrun, hs, himp y.store y'.store hP⟩

theorem SeenBy.append (h : SeenBy M x₀ as id P) (bs : List (ProgramAction α ε)) :
    SeenBy M x₀ (as ++ bs) id P := by
  obtain ⟨earlier, later, y, y', rfl, hrun, hs, hP⟩ := h
  exact ⟨earlier, later ++ bs, y, y', by simp, hrun, hs, hP⟩

end SeenBy

/-- **A statement is performed at a moment**, on the store of that moment. -/
theorem seenBy_of_mem_trace (hinit : x₀.trace = [])
    (hr : (programs S program Init).run x₀ as = some x) {e : Performed β α} (he : e ∈ x.trace) :
    SeenBy (programs S program Init) x₀ as e.id fun s s' =>
      S.exec e.statement s = (s', e.reply) := by
  induction as using List.reverseRecOn generalizing x with
  | nil =>
    obtain rfl : x₀ = x := by simpa using hr
    rw [hinit] at he
    nomatch he
  | append_singleton as a ih =>
    rw [StateMachine.run_append] at hr
    obtain ⟨y, hy, hlast⟩ := Option.bind_eq_some_iff.mp hr
    obtain ⟨z, hs, hz⟩ := (programs S program Init).run_cons_eq_some.mp hlast
    obtain rfl : z = x := by simpa using hz
    obtain ⟨id, request, -, -, rfl⟩ | ⟨r, -, -, result, -, rfl⟩ | ⟨r, -, rfl, i, next, -, rfl⟩ |
      ⟨id, -, rfl⟩ | ⟨event, -, rfl⟩ := Execution.step_cases hs
    · exact (ih hy he).append _
    · exact (ih hy he).append _
    · obtain rfl | he := List.mem_cons.mp he
      · exact ⟨as, [], y, _, rfl, hy, hs, rfl⟩
      · exact (ih hy he).append _
    · exact (ih hy he).append _
    · exact (ih hy he).append _

theorem trace_subset_of_run (hr : (programs S program Init).run x as = some x') :
    x.trace ⊆ x'.trace := by
  refine StateMachine.run_le (R := fun y z : Execution β σ α ρ => y.trace ⊆ z.trace)
    (fun y => List.Subset.refl _) (fun _ _ _ h h' => List.Subset.trans h h') ?_ hr
  intro y a y' hs
  exact trace_subset hs

/-! ### What is answered after a reply -/

namespace Program

variable {E : (i : ι) → β i → Prop} {T : ρ → Prop}

/-- Only results in `T` are given. -/
def Results (T : ρ → Prop) : Program β ρ → Prop
  | .answer result => T result
  | .perform _ next => ∀ reply, (next reply).Results T

/-- Once a statement has had a reply in `E`, only results in `T` are given. -/
def After (E : (i : ι) → β i → Prop) (T : ρ → Prop) : Program β ρ → Prop
  | .answer _ => True
  | .perform i next => ∀ reply, (next reply).After E T ∧ (E i reply → (next reply).Results T)

@[simp] theorem results_perform {i : ι} {next : β i → Program β ρ} :
    (Program.perform i next).Results T ↔ ∀ reply, (next reply).Results T := Iff.rfl

@[simp] theorem after_perform {i : ι} {next : β i → Program β ρ} :
    (Program.perform i next).After E T ↔
      ∀ reply, (next reply).After E T ∧ (E i reply → (next reply).Results T) := Iff.rfl

variable {p : Program β ρ}

theorem Results.imp {T' : ρ → Prop} (h : p.Results T) (himp : ∀ result, T result → T' result) :
    p.Results T' := by
  induction p with
  | answer result => exact himp result h
  | perform i next ih => exact fun reply => ih reply (h reply)

theorem results_of_forall (h : ∀ result, T result) (p : Program β ρ) : p.Results T := by
  induction p with
  | answer result => exact h result
  | perform i next ih => exact ih

theorem until_of_results (h : p.Results T) : p.Until E (fun _ => True) T := by
  induction p with
  | answer result => exact h
  | perform i next ih => exact ⟨trivial, fun reply => Or.inr (ih reply (h reply))⟩

theorem after_of_results (h : p.Results T) : p.After E T := by
  induction p with
  | answer result => trivial
  | perform i next ih => exact fun reply => ⟨ih reply (h reply), fun _ => h reply⟩

theorem after_ite {c : Prop} [Decidable c] {q : Program β ρ} (hp : p.After E T) (hq : q.After E T) :
    (if c then p else q).After E T := by
  split
  · exact hp
  · exact hq

end Program

/-- Programs that have had a reply answer as they may. -/
structure Concludes (E : α → (i : ι) → β i → Prop) (T : α → ρ → Prop) (x : Execution β σ α ρ) :
    Prop where
  running : ∀ r ∈ x.running, r.todo.After (E r.request) (T r.request) ∧
    (x.Had r.id (E r.request) → r.todo.Results (T r.request))
  answers : ∀ y ∈ x.answers, x.Had y.id (E y.request) → T y.request y.result
  begun : ∀ e ∈ x.trace, e.id ∈ x.begun

section Concludes

variable {E : α → (i : ι) → β i → Prop} {T : α → ρ → Prop}

theorem had_of_had_cons {id : Nat} {F : (i : ι) → β i → Prop} {e : Performed β α}
    {trace : List (Performed β α)} (hne : e.id ≠ id)
    (h : ∃ e' ∈ e :: trace, e'.id = id ∧ F e'.statement e'.reply) :
    ∃ e' ∈ trace, e'.id = id ∧ F e'.statement e'.reply := by
  obtain ⟨e', he', hid, hF⟩ := h
  obtain rfl | he' := List.mem_cons.mp he'
  · exact absurd hid hne
  · exact ⟨e', he', hid, hF⟩

theorem Concludes.step (hprogram : ∀ b, (program b).After (E b) (T b)) (hapart : Apart x)
    (h : Concludes E T x) (hs : x.step S program a = some x') : Concludes E T x' := by
  obtain ⟨id, request, -, hnew, rfl⟩ | ⟨r, hr, -, result, htodo, rfl⟩ |
    ⟨r, hr, -, i, next, htodo, rfl⟩ | ⟨id, -, rfl⟩ | ⟨event, -, rfl⟩ := Execution.step_cases hs
  · refine ⟨fun s hs => ?_, h.answers, fun e he => List.mem_cons_of_mem _ (h.begun e he)⟩
    obtain rfl | hs := List.mem_cons.mp hs
    · refine ⟨hprogram request, ?_⟩
      rintro ⟨e, he, rfl, -⟩
      exact absurd (h.begun e he) hnew
    · exact h.running s hs
  · refine ⟨fun s hs => h.running s (Execution.mem_others.mp hs).1, fun y hy => ?_, h.begun⟩
    obtain rfl | hy := List.mem_cons.mp hy
    · intro hhad
      have hresults := (h.running r hr).2 hhad
      rw [htodo] at hresults
      exact hresults
    · exact h.answers y hy
  · have hafter := (h.running r hr).1
    rw [htodo, Program.after_perform] at hafter
    obtain ⟨hrest, hE⟩ := hafter (S.exec i x.store).2
    refine ⟨fun s hs => ?_, fun y hy hhad => ?_, fun e he => ?_⟩
    · obtain rfl | hs := List.mem_cons.mp hs
      · refine ⟨hrest, ?_⟩
        rintro ⟨e, he, hid, heE⟩
        obtain rfl | he := List.mem_cons.mp he
        · exact hE heE
        · have hresults := (h.running r hr).2 ⟨e, he, hid, heE⟩
          rw [htodo, Program.results_perform] at hresults
          exact hresults _
      · obtain ⟨hs, hne⟩ := Execution.mem_others.mp hs
        exact ⟨(h.running s hs).1, fun hhad =>
          (h.running s hs).2 (had_of_had_cons (Ne.symm hne) hhad)⟩
    · have hne : r.id ≠ y.id := by
        intro hid
        refine hapart.notMem hr (List.mem_append_right _ ?_)
        rw [hid]
        exact List.mem_map_of_mem hy
      exact h.answers y hy (had_of_had_cons hne hhad)
    · obtain rfl | he := List.mem_cons.mp he
      · exact hapart.begun r.id (List.mem_append_left _ (List.mem_map_of_mem hr))
      · exact h.begun e he
  · exact ⟨fun s hs => h.running s (Execution.mem_others.mp hs).1, h.answers, h.begun⟩
  · exact ⟨h.running, h.answers, h.begun⟩

/-- **Answers after a reply.** -/
theorem concludes_of_reachable (hprogram : ∀ b, (program b).After (E b) (T b))
    (h : (programs S program Init).Reachable x) : Concludes E T x := by
  refine h.invariant (I := Concludes E T) ?_ fun y a y' hreach hkept hs =>
    Concludes.step hprogram (apart_of_reachable hreach) hkept hs
  rintro y ⟨-, hrunning, htrace, hanswers, -⟩
  refine ⟨fun r hr => ?_, fun z hz => ?_, fun e he => ?_⟩
  · nomatch (hrunning ▸ hr)
  · nomatch (hanswers ▸ hz)
  · nomatch (htrace ▸ he)

end Concludes

end Buzz

/-! ## Rules for programs that are put together -/

namespace Buzz

variable {ι : Type} {β : ι → Type} {σ η α γ ρ τ ε ε' : Type}

/-- What a program has performed, the last statement first. -/
abbrev Past {ι : Type} (β : ι → Type) := List ((i : ι) × β i)

/-- What is asked of a failure, and of a result. -/
def OnExcept (E : ε → Prop) (A : α → Prop) : Except ε α → Prop
  | .error e => E e
  | .ok a => A a

@[simp] theorem onExcept_ok {E : ε → Prop} {A : α → Prop} {a : α} :
    OnExcept E A (.ok a) ↔ A a := Iff.rfl

namespace Program

/-! ### Programs are put together -/

def bind : Program β ρ → (ρ → Program β τ) → Program β τ
  | .answer result, f => f result
  | .perform i next, f => .perform i fun reply => (next reply).bind f

def call (i : ι) : Program β (β i) := .perform i .answer

/-- One program after another, unless the first one has failed. -/
def attempt (p : Program β (Except ε α)) (f : α → Program β (Except ε τ)) :
    Program β (Except ε τ) :=
  p.bind fun
    | .error e => .answer (.error e)
    | .ok a => f a

def mapError (f : ε → ε') (p : Program β (Except ε α)) : Program β (Except ε' α) :=
  p.bind fun result => .answer (result.mapError f)

/-- A loop: every turn fails, or goes on, or has the result. After so many turns it is not finished. -/
def loop (unfinished : ε) (turn : α → Program β (Except ε (α ⊕ τ))) :
    Nat → α → Program β (Except ε τ)
  | 0, _ => .answer (.error unfinished)
  | n + 1, a => (turn a).attempt fun
    | .inl a => loop unfinished turn n a
    | .inr result => .answer (.ok result)

/-! ### What a program does after a past -/

/-- After this past, only statements in `Q` are performed, and only results in `T` are given. -/
def Follows (Q : Past β → ι → Prop) : Program β ρ → Past β → (Past β → ρ → Prop) → Prop
  | .answer result, past, T => T past result
  | .perform i next, past, T => Q past i ∧ ∀ reply, (next reply).Follows Q (⟨i, reply⟩ :: past) T

variable {Q : Past β → ι → Prop} {T : Past β → ρ → Prop} {past : Past β}

@[simp] theorem follows_answer {result : ρ} :
    (Program.answer result : Program β ρ).Follows Q past T ↔ T past result := Iff.rfl

@[simp] theorem follows_perform {i : ι} {next : β i → Program β ρ} :
    (Program.perform i next).Follows Q past T ↔
      Q past i ∧ ∀ reply, (next reply).Follows Q (⟨i, reply⟩ :: past) T := Iff.rfl

@[simp] theorem follows_call {i : ι} {T : Past β → β i → Prop} :
    (Program.call i).Follows Q past T ↔ Q past i ∧ ∀ reply, T (⟨i, reply⟩ :: past) reply :=
  Iff.rfl

theorem Follows.imp {T' : Past β → ρ → Prop} {p : Program β ρ} (h : p.Follows Q past T)
    (himp : ∀ past result, T past result → T' past result) : p.Follows Q past T' := by
  induction p generalizing past with
  | answer result => exact himp past result h
  | perform i next ih => exact ⟨h.1, fun reply => ih reply (h.2 reply)⟩

theorem Follows.grows {p : Program β ρ} (h : p.Follows Q past T) :
    p.Follows Q past fun past' result => past ⊆ past' ∧ T past' result := by
  induction p generalizing past with
  | answer result => exact ⟨List.Subset.refl past, h⟩
  | perform i next ih =>
    refine ⟨h.1, fun reply => (ih reply (h.2 reply)).imp fun past' result hgrown => ?_⟩
    exact ⟨List.Subset.trans (List.subset_cons_self _ past) hgrown.1, hgrown.2⟩

theorem follows_bind {T : Past β → τ → Prop} {p : Program β ρ} {f : ρ → Program β τ} :
    (p.bind f).Follows Q past T ↔
      p.Follows Q past fun past result => (f result).Follows Q past T := by
  induction p generalizing past with
  | answer result => exact Iff.rfl
  | perform i next ih =>
    rw [bind, follows_perform, follows_perform]
    exact and_congr_right fun _ => forall_congr' fun reply => ih reply

variable {p : Program β (Except ε α)} {f : α → Program β (Except ε τ)}

theorem follows_attempt {T : Past β → Except ε τ → Prop} :
    (p.attempt f).Follows Q past T ↔ p.Follows Q past fun past =>
      OnExcept (fun e => T past (.error e)) fun a => (f a).Follows Q past T := by
  rw [attempt, follows_bind]
  refine iff_of_eq (congrArg _ (funext fun past => funext fun result => ?_))
  cases result <;> rfl

theorem follows_attempt_mapError {T : Past β → Except ε' τ → Prop} {f : ε → ε'}
    {g : α → Program β (Except ε' τ)} :
    ((p.mapError f).attempt g).Follows Q past T ↔ p.Follows Q past fun past =>
      OnExcept (fun e => T past (.error (f e))) fun a => (g a).Follows Q past T := by
  rw [follows_attempt, mapError, follows_bind]
  refine iff_of_eq (congrArg _ (funext fun past => funext fun result => ?_))
  cases result <;> rfl

variable {turn : α → Program β (Except ε (α ⊕ τ))}

/-- **A loop** that keeps `I` from turn to turn. -/
theorem follows_loop {T : Past β → Except ε τ → Prop} {I : Past β → α → Prop} {unfinished : ε}
    (hturn : ∀ past a, I past a → (turn a).Follows Q past fun past =>
      OnExcept (fun e => T past (.error e))
        (Sum.elim (I past) fun result => T past (.ok result)))
    (hunfinished : ∀ past a, I past a → T past (.error unfinished)) (n : Nat) {a : α}
    (ha : I past a) : (loop unfinished turn n a).Follows Q past T := by
  induction n generalizing past a with
  | zero => exact hunfinished past a ha
  | succ n ih =>
    rw [loop, follows_attempt]
    refine (hturn past a ha).imp fun past' result h => ?_
    rcases result with e | a' | result
    · exact h
    · exact ih h
    · exact h

/-! ### Parts that perform only certain statements -/

/-- Only statements in `P` are performed. -/
def Only (P : ι → Prop) : Program β ρ → Prop
  | .answer _ => True
  | .perform i next => P i ∧ ∀ reply, (next reply).Only P

variable {P : ι → Prop}

theorem Only.mono {P' : ι → Prop} {p : Program β ρ} (h : p.Only P) (himp : ∀ i, P i → P' i) :
    p.Only P' := by
  induction p with
  | answer result => trivial
  | perform i next ih => exact ⟨himp i h.1, fun reply => ih reply (h.2 reply)⟩

@[simp] theorem only_call {i : ι} : (Program.call i : Program β (β i)).Only P ↔ P i :=
  ⟨And.left, fun h => ⟨h, fun _ => trivial⟩⟩

theorem only_bind {p : Program β ρ} {f : ρ → Program β τ} (hp : p.Only P)
    (hf : ∀ result, (f result).Only P) : (p.bind f).Only P := by
  induction p with
  | answer result => exact hf result
  | perform i next ih => exact ⟨hp.1, fun reply => ih reply (hp.2 reply)⟩

theorem only_attempt (hp : p.Only P) (hf : ∀ a, (f a).Only P) : (p.attempt f).Only P := by
  refine only_bind hp fun result => ?_
  cases result with
  | error e => trivial
  | ok a => exact hf a

theorem only_mapError {f : ε → ε'} (hp : p.Only P) : (p.mapError f).Only P :=
  only_bind hp fun _ => trivial

theorem only_loop {unfinished : ε} (hturn : ∀ a, (turn a).Only P) (n : Nat) (a : α) :
    (loop unfinished turn n a).Only P := by
  induction n generalizing a with
  | zero => trivial
  | succ n ih =>
    refine only_attempt (hturn a) fun next => ?_
    cases next with
    | inl a => exact ih a
    | inr result => trivial

/-- **Such a part** adds such statements to the past. -/
theorem Only.follows {p : Program β ρ} (h : p.Only P)
    (hQ : ∀ new : Past β, (∀ e ∈ new, P e.1) → ∀ i, P i → Q (new ++ past) i)
    (hT : ∀ new : Past β, (∀ e ∈ new, P e.1) → ∀ result, T (new ++ past) result) :
    p.Follows Q past T := by
  induction p generalizing past with
  | answer result => exact hT [] (fun _ he => absurd he List.not_mem_nil) result
  | perform i next ih =>
    refine ⟨hQ [] (fun _ he => absurd he List.not_mem_nil) i h.1, fun reply => ?_⟩
    have hsnoc : ∀ new : Past β, (∀ e ∈ new, P e.1) → ∀ e ∈ new ++ [⟨i, reply⟩], P e.1 := by
      intro new hnew e he
      rcases List.mem_append.mp he with he | he
      · exact hnew e he
      · rw [List.mem_singleton.mp he]
        exact h.1
    refine ih reply (h.2 reply) (fun new hnew j hj => ?_) fun new hnew result => ?_
    · have hone := hQ (new ++ [⟨i, reply⟩]) (hsnoc new hnew) j hj
      rwa [List.append_assoc, List.singleton_append] at hone
    · have hone := hT (new ++ [⟨i, reply⟩]) (hsnoc new hnew) result
      rwa [List.append_assoc, List.singleton_append] at hone

end Program

/-! ### In a run -/

/-- Every statement was in `Q` when it was performed. -/
def Heeds (Q : Past β → ι → Prop) : Past β → Prop
  | [] => True
  | e :: past => Q past e.1 ∧ Heeds Q past

theorem Heeds.of_append {Q : Past β → ι → Prop} {later earlier : Past β} {e : (i : ι) × β i}
    (h : Heeds Q (later ++ e :: earlier)) : Q earlier e.1 := by
  induction later with
  | nil => exact h.1
  | cons d later ih => exact ih h.2

/-- What the program of this number has done. -/
def Execution.past (x : Execution β σ α ρ) (id : Nat) : Past β :=
  (x.trace.filter fun e => e.id == id).map fun e => ⟨e.statement, e.reply⟩

variable {S : Semantics β σ η} {program : α → Program β ρ} {Init : σ → Prop}
  {x x' : Execution β σ α ρ} {a : ProgramAction α η} {Q : α → Past β → ι → Prop}
  {T : α → Past β → ρ → Prop}

/-- Programs do and answer what they may. -/
structure Told (Q : α → Past β → ι → Prop) (T : α → Past β → ρ → Prop)
    (x : Execution β σ α ρ) : Prop where
  running : ∀ r ∈ x.running, Heeds (Q r.request) (x.past r.id) ∧
    r.todo.Follows (Q r.request) (x.past r.id) (T r.request)
  answers : ∀ y ∈ x.answers, Heeds (Q y.request) (x.past y.id) ∧
    T y.request (x.past y.id) y.result
  begun : ∀ e ∈ x.trace, e.id ∈ x.begun

theorem Execution.past_eq_nil {id : Nat} (h : ∀ e ∈ x.trace, e.id ≠ id) : x.past id = [] := by
  rw [past, List.filter_eq_nil_iff.mpr fun e he => by simpa using h e he, List.map_nil]

theorem Execution.past_performs_self (r : Running β α ρ) (i : ι) (next : β i → Program β ρ) :
    (x.performs S r i next).past r.id = ⟨i, (S.exec i x.store).2⟩ :: x.past r.id := by
  simp [past, performs]

theorem Execution.past_performs_of_ne (r : Running β α ρ) (i : ι) (next : β i → Program β ρ)
    {id : Nat} (h : id ≠ r.id) : (x.performs S r i next).past id = x.past id := by
  simp [past, performs, h.symm]

theorem Told.init (h : (programs S program Init).Init x) : Told Q T x := by
  obtain ⟨-, hrunning, htrace, hanswers, -⟩ := h
  refine ⟨fun r hr => ?_, fun y hy => ?_, fun e he => ?_⟩
  · nomatch (hrunning ▸ hr)
  · nomatch (hanswers ▸ hy)
  · nomatch (htrace ▸ he)

theorem Told.step (hprogram : ∀ b, (program b).Follows (Q b) [] (T b)) (hapart : Apart x)
    (h : Told Q T x) (hs : x.step S program a = some x') : Told Q T x' := by
  obtain ⟨id, request, -, hnew, rfl⟩ | ⟨r, hr, -, result, htodo, rfl⟩ |
    ⟨r, hr, -, i, next, htodo, rfl⟩ | ⟨id, -, rfl⟩ | ⟨event, -, rfl⟩ := Execution.step_cases hs
  · refine ⟨fun s hs => ?_, h.answers, fun e he => List.mem_cons_of_mem _ (h.begun e he)⟩
    obtain rfl | hs := List.mem_cons.mp hs
    · have hnil : x.past id = [] :=
        Execution.past_eq_nil fun e he hid => hnew (hid ▸ h.begun e he)
      show Heeds (Q request) (x.past id) ∧ (program request).Follows (Q request) (x.past id) _
      rw [hnil]
      exact ⟨trivial, hprogram request⟩
    · exact h.running s hs
  · refine ⟨fun s hs => h.running s (Execution.mem_others.mp hs).1, fun y hy => ?_, h.begun⟩
    obtain rfl | hy := List.mem_cons.mp hy
    · have hone := h.running r hr
      rw [htodo] at hone
      exact hone
    · exact h.answers y hy
  · refine ⟨fun s hs => ?_, fun y hy => ?_, fun e he => ?_⟩
    · obtain rfl | hs := List.mem_cons.mp hs
      · have hone := h.running r hr
        rw [htodo, Program.follows_perform] at hone
        rw [Execution.past_performs_self]
        exact ⟨⟨hone.2.1, hone.1⟩, hone.2.2 _⟩
      · obtain ⟨hs, hid⟩ := Execution.mem_others.mp hs
        rw [Execution.past_performs_of_ne r i next hid]
        exact h.running s hs
    · have hid : y.id ≠ r.id := fun hid => hapart.notMem hr
        (List.mem_append_right _ (hid ▸ List.mem_map_of_mem hy))
      rw [Execution.past_performs_of_ne r i next hid]
      exact h.answers y hy
    · obtain rfl | he := List.mem_cons.mp he
      · exact hapart.begun r.id (List.mem_append_left _ (List.mem_map_of_mem hr))
      · exact h.begun e he
  · exact ⟨fun s hs => h.running s (Execution.mem_others.mp hs).1, h.answers, h.begun⟩
  · exact ⟨h.running, h.answers, h.begun⟩

/-- **In every run**, programs do and answer what they may after their pasts. -/
theorem told_of_reachable (hprogram : ∀ b, (program b).Follows (Q b) [] (T b))
    (h : (programs S program Init).Reachable x) : Told Q T x := by
  have hboth : Apart x ∧ Told Q T x := by
    refine h.invariant (I := fun x => Apart x ∧ Told Q T x)
      (fun _ hinit => ⟨Apart.init hinit, Told.init hinit⟩) ?_
    intro y a y' _ hkept hs
    exact ⟨hkept.1.step hs, hkept.2.step hprogram hkept.1 hs⟩
  exact hboth.2

end Buzz
