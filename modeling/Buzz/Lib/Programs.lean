import Buzz.Lib.StateMachine

/-!
# Programs over a shared store

A request runs a program: statements, one after another, and a result. Every statement is atomic and
has a reply; between two statements of one program come those of others. A program may stop before
any of its statements, which is also what a statement that fails comes to.

The statements that were performed are recorded, with the request that performed them.
-/

namespace Buzz

open List

/-- A program: its next statement, and how it goes on after the reply. -/
inductive Program {ι : Type} (β : ι → Type) (ρ : Type) where
  | answer (result : ρ)
  | perform (statement : ι) (next : β statement → Program β ρ)

/-- What statements do to the store, and what may happen to it from outside. -/
structure Semantics {ι : Type} (β : ι → Type) (σ ε : Type) where
  exec : (statement : ι) → σ → σ × β statement
  env : ε → σ → σ

variable {ι : Type} {β : ι → Type} {σ ε α ρ : Type}

/-- A program that runs for a request. -/
structure Running (β : ι → Type) (α ρ : Type) where
  id : Nat
  request : α
  todo : Program β ρ

/-- A statement that a program has performed. -/
structure Performed (β : ι → Type) (α : Type) where
  id : Nat
  request : α
  statement : ι
  reply : β statement

/-- The result of a request. -/
structure Answered (α ρ : Type) where
  id : Nat
  request : α
  result : ρ

/-- Any number of programs on one store. -/
structure Execution (β : ι → Type) (σ α ρ : Type) where
  store : σ
  running : List (Running β α ρ)
  trace : List (Performed β α)
  answers : List (Answered α ρ)
  begun : List Nat

/-- A step of a program, or of its environment. -/
inductive ProgramAction (α ε : Type) where
  | start (id : Nat) (request : α)
  | advance (id : Nat)
  | stop (id : Nat)
  | environment (event : ε)

namespace Execution

def others (x : Execution β σ α ρ) (id : Nat) : List (Running β α ρ) :=
  x.running.filter fun r => r.id != id

/-- A program performs a statement. -/
def performs (S : Semantics β σ ε) (x : Execution β σ α ρ) (r : Running β α ρ) (i : ι)
    (next : β i → Program β ρ) : Execution β σ α ρ :=
  { x with
    store := (S.exec i x.store).1
    running := ⟨r.id, r.request, next (S.exec i x.store).2⟩ :: x.others r.id
    trace := ⟨r.id, r.request, i, (S.exec i x.store).2⟩ :: x.trace }

def finishes (x : Execution β σ α ρ) (r : Running β α ρ) (result : ρ) : Execution β σ α ρ :=
  { x with
    running := x.others r.id
    answers := ⟨r.id, r.request, result⟩ :: x.answers }

def advance (S : Semantics β σ ε) (x : Execution β σ α ρ) (r : Running β α ρ) :
    Execution β σ α ρ :=
  match r.todo with
  | .answer result => x.finishes r result
  | .perform i next => x.performs S r i next

def step (S : Semantics β σ ε) (program : α → Program β ρ) (x : Execution β σ α ρ) :
    ProgramAction α ε → Option (Execution β σ α ρ)
  | .start id request =>
    if id ∈ x.begun then none
    else some { x with running := ⟨id, request, program request⟩ :: x.running,
                       begun := id :: x.begun }
  | .advance id => (x.running.find? fun r => r.id == id).map (x.advance S)
  | .stop id => some { x with running := x.others id }
  | .environment event => some { x with store := S.env event x.store }

end Execution

/-- Concurrent requests. At first, none has come in. -/
def programs (S : Semantics β σ ε) (program : α → Program β ρ) (Init : σ → Prop) :
    StateMachine (Execution β σ α ρ) (ProgramAction α ε) where
  Init x := Init x.store ∧ x.running = [] ∧ x.trace = [] ∧ x.answers = [] ∧ x.begun = []
  step := Execution.step S program

variable {S : Semantics β σ ε} {program : α → Program β ρ} {x x' : Execution β σ α ρ}
  {a : ProgramAction α ε}

variable {r : Running β α ρ}

theorem Execution.mem_others {id : Nat} : r ∈ x.others id ↔ r ∈ x.running ∧ r.id ≠ id := by
  simp [others]

/-- **What one action does.** -/
theorem Execution.step_cases (h : x.step S program a = some x') :
    (∃ id request, a = .start id request ∧ id ∉ x.begun ∧
      x' = { x with running := ⟨id, request, program request⟩ :: x.running,
                    begun := id :: x.begun }) ∨
    (∃ r ∈ x.running, a = .advance r.id ∧ ∃ result, r.todo = .answer result ∧
      x' = x.finishes r result) ∨
    (∃ r ∈ x.running, a = .advance r.id ∧ ∃ i next, r.todo = .perform i next ∧
      x' = x.performs S r i next) ∨
    (∃ id, a = .stop id ∧ x' = { x with running := x.others id }) ∨
    ∃ event, a = .environment event ∧ x' = { x with store := S.env event x.store } := by
  cases a with
  | start id request =>
    rw [Execution.step] at h
    split at h
    · cases h
    · next hnew => exact .inl ⟨id, request, rfl, hnew, (Option.some.inj h).symm⟩
  | advance id =>
    obtain ⟨r, hfind, rfl⟩ := Option.map_eq_some_iff.mp h
    have hr := mem_of_find?_eq_some hfind
    have hid := find?_some hfind
    rw [beq_iff_eq] at hid
    subst hid
    cases htodo : r.todo with
    | answer result =>
      exact .inr (.inl ⟨r, hr, rfl, result, htodo, by rw [advance, htodo]⟩)
    | perform i next =>
      exact .inr (.inr (.inl ⟨r, hr, rfl, i, next, htodo, by rw [advance, htodo]⟩))
  | stop id => exact .inr (.inr (.inr (.inl ⟨id, rfl, (Option.some.inj h).symm⟩)))
  | environment event => exact .inr (.inr (.inr (.inr ⟨event, rfl, (Option.some.inj h).symm⟩)))

/-! ### What a program does until it has had a reply -/

namespace Program

/-- Until a statement has had a reply in `E`, only statements in `Q` are performed, and only results
in `T` are given. -/
def Until (E : (i : ι) → β i → Prop) (Q : ι → Prop) (T : ρ → Prop) : Program β ρ → Prop
  | .answer result => T result
  | .perform i next => Q i ∧ ∀ reply, E i reply ∨ (next reply).Until E Q T

variable {E : (i : ι) → β i → Prop} {Q : ι → Prop} {T : ρ → Prop}

@[simp] theorem until_perform {i : ι} {next : β i → Program β ρ} :
    (Program.perform i next).Until E Q T ↔
      Q i ∧ ∀ reply, E i reply ∨ (next reply).Until E Q T := Iff.rfl

theorem until_ite {c : Prop} [Decidable c] {p q : Program β ρ} (hp : c → p.Until E Q T)
    (hq : ¬c → q.Until E Q T) : (if c then p else q).Until E Q T := by
  split
  · next hc => exact hp hc
  · next hc => exact hq hc

end Program

/-- The program has had such a reply. -/
def Execution.Had (x : Execution β σ α ρ) (id : Nat) (E : (i : ι) → β i → Prop) : Prop :=
  ∃ e ∈ x.trace, e.id = id ∧ E e.statement e.reply

/-- Every program does what it may, until it has had the reply. -/
structure Abides (E : α → (i : ι) → β i → Prop) (Q : α → ι → Prop) (T : α → ρ → Prop)
    (x : Execution β σ α ρ) : Prop where
  running : ∀ r ∈ x.running, x.Had r.id (E r.request) ∨
    r.todo.Until (E r.request) (Q r.request) (T r.request)
  trace : ∀ e ∈ x.trace, x.Had e.id (E e.request) ∨ Q e.request e.statement
  answers : ∀ y ∈ x.answers, x.Had y.id (E y.request) ∨ T y.request y.result

section Abides

variable {E : α → (i : ι) → β i → Prop} {Q : α → ι → Prop} {T : α → ρ → Prop}

theorem Execution.Had.mono {id : Nat} {F : (i : ι) → β i → Prop} (h : x.Had id F)
    (hsub : x.trace ⊆ x'.trace) : x'.Had id F := by
  obtain ⟨e, he, hid, hF⟩ := h
  exact ⟨e, hsub he, hid, hF⟩

theorem trace_subset (h : x.step S program a = some x') : x.trace ⊆ x'.trace := by
  obtain ⟨id, request, -, -, rfl⟩ | ⟨r, -, -, result, -, rfl⟩ | ⟨r, -, -, i, next, -, rfl⟩ |
    ⟨id, -, rfl⟩ | ⟨event, -, rfl⟩ := Execution.step_cases h
  · exact List.Subset.refl _
  · exact List.Subset.refl _
  · exact subset_cons_self _ _
  · exact List.Subset.refl _
  · exact List.Subset.refl _

/-- **Every program does what it may**, until it has had the reply. -/
theorem Abides.step (hprogram : ∀ b, (program b).Until (E b) (Q b) (T b)) (h : Abides E Q T x)
    (hs : x.step S program a = some x') : Abides E Q T x' := by
  have hsub := trace_subset hs
  obtain ⟨id, request, -, -, rfl⟩ | ⟨r, hr, -, result, htodo, rfl⟩ |
    ⟨r, hr, -, i, next, htodo, rfl⟩ | ⟨id, -, rfl⟩ | ⟨event, -, rfl⟩ := Execution.step_cases hs
  · refine ⟨fun s hs => ?_, h.trace, h.answers⟩
    obtain rfl | hs := mem_cons.mp hs
    · exact .inr (hprogram request)
    · exact h.running s hs
  · refine ⟨fun s hs => h.running s (Execution.mem_others.mp hs).1, h.trace, fun y hy => ?_⟩
    obtain rfl | hy := mem_cons.mp hy
    · have hresult := h.running r hr
      rw [htodo] at hresult
      exact hresult
    · exact h.answers y hy
  · have hnext := h.running r hr
    rw [htodo, Program.until_perform] at hnext
    refine ⟨fun s hs => ?_, fun e he => ?_, fun y hy => (h.answers y hy).imp_left (·.mono hsub)⟩
    · obtain rfl | hs := mem_cons.mp hs
      · obtain hhad | ⟨-, hnext⟩ := hnext
        · exact .inl (hhad.mono hsub)
        · exact (hnext (S.exec i x.store).2).imp_left fun hE =>
            ⟨_, mem_cons_self, rfl, hE⟩
      · exact (h.running s (Execution.mem_others.mp hs).1).imp_left (·.mono hsub)
    · obtain rfl | he := mem_cons.mp he
      · exact hnext.imp (·.mono hsub) And.left
      · exact (h.trace e he).imp_left (·.mono hsub)
  · exact ⟨fun s hs => h.running s (Execution.mem_others.mp hs).1, h.trace, h.answers⟩
  · exact ⟨h.running, h.trace, h.answers⟩

variable {Init : σ → Prop}

theorem Abides.init (h : (programs S program Init).Init x) : Abides E Q T x := by
  obtain ⟨-, hrunning, htrace, hanswers, -⟩ := h
  refine ⟨fun r hr => ?_, fun e he => ?_, fun y hy => ?_⟩
  · nomatch (hrunning ▸ hr)
  · nomatch (htrace ▸ he)
  · nomatch (hanswers ▸ hy)

theorem abides_of_reachable (hprogram : ∀ b, (program b).Until (E b) (Q b) (T b))
    (h : (programs S program Init).Reachable x) : Abides E Q T x := by
  refine h.invariant (I := Abides E Q T) (fun _ hinit => Abides.init hinit) ?_
  intro y a y' _ hkept hs
  exact Abides.step hprogram hkept hs

end Abides

/-! ### Programs are told apart -/

/-- Programs, and their answers, are told apart by their numbers. -/
structure Apart (x : Execution β σ α ρ) : Prop where
  nodup : (x.running.map Running.id ++ x.answers.map Answered.id).Nodup
  begun : ∀ id ∈ x.running.map Running.id ++ x.answers.map Answered.id, id ∈ x.begun

variable {Init : σ → Prop}

theorem Apart.init (h : (programs S program Init).Init x) : Apart x := by
  obtain ⟨-, hrunning, -, hanswers, -⟩ := h
  constructor
  · rw [hrunning, hanswers]
    exact nodup_nil
  · rw [hrunning, hanswers]
    exact nofun

theorem Apart.others (h : Apart x) (id : Nat) :
    ((x.others id).map Running.id ++ x.answers.map Answered.id).Nodup ∧
      ∀ n ∈ (x.others id).map Running.id ++ x.answers.map Answered.id, n ∈ x.begun := by
  have hsub : ((x.others id).map Running.id ++ x.answers.map Answered.id).Sublist
      (x.running.map Running.id ++ x.answers.map Answered.id) :=
    (filter_sublist.map _).append_right _
  exact ⟨h.nodup.sublist hsub, fun n hn => h.begun n (hsub.subset hn)⟩

/-- The number of a program that runs is that of no other program, and of no answer. -/
theorem Apart.notMem (h : Apart x) (hr : r ∈ x.running) :
    r.id ∉ (x.others r.id).map Running.id ++ x.answers.map Answered.id := by
  intro hmem
  obtain hother | hanswer := mem_append.mp hmem
  · obtain ⟨s, hs, hid⟩ := mem_map.mp hother
    exact (Execution.mem_others.mp hs).2 hid
  · exact (nodup_append.mp h.nodup).2.2 r.id (mem_map_of_mem hr) r.id hanswer rfl

/-- **Programs are told apart.** -/
theorem Apart.step (h : Apart x) (hs : x.step S program a = some x') : Apart x' := by
  obtain ⟨id, request, -, hnew, rfl⟩ | ⟨r, hr, -, result, -, rfl⟩ | ⟨r, hr, -, i, next, -, rfl⟩ |
    ⟨id, -, rfl⟩ | ⟨event, -, rfl⟩ := Execution.step_cases hs
  · refine ⟨nodup_cons.mpr ⟨fun hid => hnew (h.begun id hid), h.nodup⟩, fun n hn => ?_⟩
    obtain rfl | hn := mem_cons.mp hn
    · exact mem_cons_self
    · exact mem_cons_of_mem _ (h.begun n hn)
  · obtain ⟨hnodup, hbegun⟩ := h.others r.id
    have hperm : ((x.others r.id).map Running.id ++ r.id :: x.answers.map Answered.id).Perm
        (r.id :: ((x.others r.id).map Running.id ++ x.answers.map Answered.id)) :=
      perm_middle
    refine ⟨hperm.nodup_iff.mpr (nodup_cons.mpr ⟨h.notMem hr, hnodup⟩), fun n hn => ?_⟩
    obtain rfl | hn := mem_cons.mp (hperm.subset hn)
    · exact h.begun _ (mem_append_left _ (mem_map_of_mem hr))
    · exact hbegun n hn
  · obtain ⟨hnodup, hbegun⟩ := h.others r.id
    have hmem : r.id ∈ x.running.map Running.id := mem_map_of_mem hr
    refine ⟨nodup_cons.mpr ⟨h.notMem hr, hnodup⟩, fun n hn => ?_⟩
    obtain rfl | hn := mem_cons.mp hn
    · exact h.begun _ (mem_append_left _ hmem)
    · exact hbegun n hn
  · obtain ⟨hnodup, hbegun⟩ := h.others id
    exact ⟨hnodup, hbegun⟩
  · exact ⟨h.nodup, h.begun⟩

theorem apart_of_reachable (h : (programs S program Init).Reachable x) : Apart x := by
  refine h.invariant (I := Apart) (fun _ hinit => Apart.init hinit) ?_
  intro y a y' _ hapart hs
  exact Apart.step hapart hs

/-! ### A program alone, with statements that fail -/

inductive Outcome where
  | done
  | failed
  | unsure

/-- A program alone: the store after it, and its result. A statement that fails ends it. -/
def Program.alone (exec : (i : ι) → σ → σ × β i) (outcome : ι → Outcome) (failure : ι → ρ) :
    Program β ρ → σ → σ × ρ
  | .answer result, s => (s, result)
  | .perform i next, s =>
    match outcome i with
    | .done => (next (exec i s).2).alone exec outcome failure (exec i s).1
    | .failed => (s, failure i)
    | .unsure => ((exec i s).1, failure i)

section Alone

variable {exec : (i : ι) → σ → σ × β i} {outcome : ι → Outcome} {failure : ι → ρ} {i : ι}
  {next : β i → Program β ρ} {s : σ}

theorem Program.alone_done (h : outcome i = .done) :
    (Program.perform i next).alone exec outcome failure s =
      (next (exec i s).2).alone exec outcome failure (exec i s).1 := by
  rw [alone, h]

theorem Program.alone_failed (h : outcome i = .failed) :
    (Program.perform i next).alone exec outcome failure s = (s, failure i) := by
  rw [alone, h]

theorem Program.alone_unsure (h : outcome i = .unsure) :
    (Program.perform i next).alone exec outcome failure s = ((exec i s).1, failure i) := by
  rw [alone, h]

theorem Program.alone_perform {I : σ → Prop} {T : ρ → Prop} (hs : I s) (hkeep : I (exec i s).1)
    (hfailure : T (failure i)) :
    (I ((Program.perform i next).alone exec outcome failure s).1 ∧
      T ((Program.perform i next).alone exec outcome failure s).2) ∨ outcome i = .done := by
  cases h : outcome i with
  | done => exact .inr rfl
  | failed =>
    rw [alone_failed h]
    exact .inl ⟨hs, hfailure⟩
  | unsure =>
    rw [alone_unsure h]
    exact .inl ⟨hkeep, hfailure⟩

end Alone

end Buzz
