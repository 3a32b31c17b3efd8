import Buzz.Lib.Transaction

/-!
# Row locks

When every statement of a transaction depends on what the transaction has locked, or is checked
again after the lock, the transaction commits as if it ran alone at that moment. One that is rolled
back has changed nothing; its answer may be about an earlier moment.

What others may do to a locked row while the lock is held is a preorder. Equality is the usual one; a
coarser one says which changes by others the holder can bear.
-/

namespace Buzz

open List

/-- What others may make of a row while it is locked. -/
structure Cells (δ κ : Type*) where
  Keeps : κ → δ → δ → Prop
  refl : ∀ k db, Keeps k db db
  trans : ∀ {k a b c}, Keeps k a b → Keeps k b c → Keeps k a c

variable {δ κ ρ α : Type*} (C : Cells δ κ)

/-- What may have come of a database while these locks were held. -/
def Cells.Agree (held : List (Lock κ)) (a b : δ) : Prop := ∀ l ∈ held, C.Keeps l.key a b

variable {C}

theorem Cells.Agree.refl (held : List (Lock κ)) (db : δ) : C.Agree held db db :=
  fun l _ => C.refl l.key db

theorem Cells.Agree.trans {held : List (Lock κ)} {a b c : δ} (hab : C.Agree held a b)
    (hbc : C.Agree held b c) : C.Agree held a c :=
  fun l hl => C.trans (hab l hl) (hbc l hl)

/-- A change of the rows that are locked exclusively, row by row. -/
structure Cells.Local (C : Cells δ κ) (held : List (Lock κ)) (change : δ → δ) : Prop where
  footprint : ∀ k a, ⟨k, .exclusive⟩ ∉ held → C.Keeps k a (change a)
  congr : ∀ k a b, C.Keeps k a b → C.Keeps k (change a) (change b)

namespace Cells.Local

variable {held : List (Lock κ)} {f g : δ → δ}

protected theorem id : C.Local held id := ⟨fun k a _ => C.refl k a, fun _ _ _ h => h⟩

theorem comp (hg : C.Local held g) (hf : C.Local held f) : C.Local held (g ∘ f) where
  footprint k a hk := C.trans (hf.footprint k a hk) (hg.footprint k (f a) hk)
  congr k a b h := hg.congr k _ _ (hf.congr k a b h)

theorem mono (h : C.Local held f) {more : List (Lock κ)} (hsub : held ⊆ more) :
    C.Local more f where
  footprint k a hk := h.footprint k a fun hmem => hk (hsub hmem)
  congr := h.congr

end Cells.Local

namespace Txn

/-- The transaction commits when it runs alone. -/
def Commits (p : Txn δ κ ρ) (db : δ) : Prop := (p.exec db).2.1 = true

variable (C) (I : δ → Prop) (R : ρ → Prop)

/-- With these locks held, every statement writes to locked rows only and keeps `I`, and if the
transaction goes on to commit from what the statement saw, it does the same from what is there
later. When it is rolled back, its answer is one of `R`. -/
def Guarded : List (Lock κ) → Txn δ κ ρ → Prop
  | held, .lock l next => next.Guarded (l :: held)
  | held, .query write next => ∀ view, I view →
    C.Local held (write view) ∧ (next view).Guarded held ∧
      ∀ db, I db → C.Agree held view db → I (write view db) ∧
        ((next view).Commits (write view db) →
          (next view).exec (write view db) = (next db).exec (write db db))
  | _, .commit _ => True
  | _, .rollback result => R result

variable {C I R} {held : List (Lock κ)}

variable {next : Txn δ κ ρ}

theorem guarded_lock {l : Lock κ} (h : next.Guarded C I R (l :: held)) :
    (lock l next).Guarded C I R held := h

theorem guarded_read {β : Type*} {select : δ → β} {next : β → Txn δ κ ρ}
    (hselect : ∀ a b, I a → I b → C.Agree held a b → select a = select b)
    (hnext : ∀ view, I view → (next (select view)).Guarded C I R held) :
    (read select next).Guarded C I R held := by
  refine fun view hview => ⟨.id, hnext view hview, fun db hdb hagree => ⟨hdb, fun _ => ?_⟩⟩
  show (next (select view)).exec db = (next (select db)).exec db
  rw [hselect view db hview hdb hagree]

/-- A `SELECT` whose result is checked again before the commit. -/
theorem guarded_guess {β : Type*} {select : δ → β} {next : β → Txn δ κ ρ}
    (hcheck : ∀ view db, I view → I db → C.Agree held view db →
      (next (select view)).Commits db → select view = select db)
    (hnext : ∀ view, I view → (next (select view)).Guarded C I R held) :
    (read select next).Guarded C I R held := by
  refine fun view hview => ⟨.id, hnext view hview, fun db hdb hagree => ⟨hdb, fun hcommits => ?_⟩⟩
  show (next (select view)).exec db = (next (select db)).exec db
  rw [hcheck view db hview hdb hagree hcommits]

theorem guarded_write {β : Type*} {select : δ → β} {change : β → δ → δ}
    (hselect : ∀ a b, I a → I b → C.Agree held a b → select a = select b)
    (hlocal : ∀ view, I view → C.Local held (change (select view)))
    (hinv : ∀ view db, I view → I db → C.Agree held view db → I (change (select view) db))
    (hnext : next.Guarded C I R held) : (write select change next).Guarded C I R held := by
  refine fun view hview => ⟨hlocal view hview, hnext,
    fun db hdb hagree => ⟨hinv view db hview hdb hagree, fun _ => ?_⟩⟩
  show next.exec (change (select view) db) = next.exec (change (select db) db)
  rw [hselect view db hview hdb hagree]

theorem Guarded.exec_inv {p : Txn δ κ ρ} (h : p.Guarded C I R held) {db db' : δ} (hdb : I db)
    {b : Bool} {r : ρ} (hexec : p.exec db = (db', b, r)) : I db' := by
  induction p generalizing held db with
  | lock l next ih => exact ih h hdb hexec
  | query write next ih =>
    obtain ⟨-, hnext, hsame⟩ := h db hdb
    exact ih db hnext (hsame db hdb (.refl held db)).1 hexec
  | commit result | rollback result =>
    obtain ⟨rfl, -⟩ := Prod.mk.inj hexec
    exact hdb

end Txn

/-! ### Sessions -/

/-- Where a session stands: from here it commits, if it does, as if it had run alone. -/
structure Stands (C : Cells δ κ) (I : δ → Prop) (R : ρ → Prop) (p : Txn δ κ ρ) (db : δ)
    (f : Frame δ κ ρ) : Prop where
  guarded : f.todo.Guarded C I R f.held
  change : C.Local f.held f.change
  inv : ∀ later, I later → C.Agree f.held db later → I (f.change later)
  exec : ∀ later, I later → C.Agree f.held db later → (f.exec later).2.1 = true →
    f.exec later = p.exec later

namespace Stands

variable {I : δ → Prop} {R : ρ → Prop} {p : Txn δ κ ρ} {db : δ} {f : Frame δ κ ρ}

theorem start (h : p.Guarded C I R []) : Stands C I R p db (.start p) :=
  ⟨h, .id, fun _ hlater _ => hlater, fun _ _ _ _ => rfl⟩

theorem next (h : Stands C I R p db f) (hdb : I db) : Stands C I R p db (f.next db) := by
  obtain ⟨change, held, todo⟩ := f
  obtain ⟨hguarded, hchange, hinv, hexec⟩ := h
  cases todo with
  | lock l todo =>
    have hsub : held ⊆ l :: held := subset_cons_self l held
    exact ⟨hguarded, hchange.mono hsub,
      fun later hlater hagree => hinv later hlater fun m hm => hagree m (hsub hm),
      fun later hlater hagree => hexec later hlater fun m hm => hagree m (hsub hm)⟩
  | query write todo =>
    have hview : ∀ later, C.Agree held db later → C.Agree held (change db) (change later) :=
      fun later hagree l hl => hchange.congr l.key _ _ (hagree l hl)
    obtain ⟨hwrite, hnext, hsame⟩ := hguarded (change db) (hinv db hdb (.refl held db))
    refine ⟨hnext, hwrite.comp hchange, fun later hlater hagree => ?_,
      fun later hlater hagree hcommits => ?_⟩
    · exact (hsame (change later) (hinv later hlater hagree) (hview later hagree)).1
    · have heq := (hsame (change later) (hinv later hlater hagree) (hview later hagree)).2 hcommits
      have hfrom : (⟨change, held, .query write todo⟩ : Frame δ κ ρ).exec later =
          (todo (change db)).exec (write (change db) (change later)) := heq.symm
      exact hfrom.symm.trans (hexec later hlater hagree (by rw [hfrom]; exact hcommits))
  | commit result | rollback result => exact ⟨hguarded, hchange, hinv, hexec⟩

theorem other (h : Stands C I R p db f) {g : Frame δ κ ρ} (hg : C.Local g.held g.change)
    (hfree : ∀ l ∈ f.held, ∀ m ∈ g.held, ¬l.Conflicts m) : Stands C I R p (g.change db) f := by
  have hkept : C.Agree f.held db (g.change db) := fun l hl =>
    hg.footprint l.key db fun hmem => hfree l hl _ hmem ⟨rfl, .inr rfl⟩
  exact ⟨h.guarded, h.change, fun later hlater hagree => h.inv later hlater (hkept.trans hagree),
    fun later hlater hagree => h.exec later hlater (hkept.trans hagree)⟩

end Stands

/-- Between the steps, every session stands, and locks exclude. -/
structure Standing (C : Cells δ κ) (I : δ → Prop) (R : ρ → Prop) (program : α → Txn δ κ ρ)
    (w : World δ α κ ρ) : Prop where
  db : I w.db
  stands : ∀ s ∈ w.sessions, Stands C I R (program s.request) w.db s.frame
  exclusive : Exclusive w

/-- A step in which nothing is committed. -/
def Uncommitted (R : ρ → Prop) (w w' : World δ α κ ρ) : Prop :=
  w'.db = w.db ∧ (w'.answers = w.answers ∨
    ∃ a result, R result ∧ w'.answers = ⟨a, false, result⟩ :: w.answers)

/-- A transaction commits, as if it had run alone at this moment. -/
def CommitsAlone (program : α → Txn δ κ ρ) (a : α) (w w' : World δ α κ ρ) : Prop :=
  ∃ result, (program a).exec w.db = (w'.db, true, result) ∧
    w'.answers = ⟨a, true, result⟩ :: w.answers

variable [DecidableEq κ] {I : δ → Prop} {R : ρ → Prop} {program : α → Txn δ κ ρ}

variable {w : World δ α κ ρ} {a : SessionAction α}

/-- **Guarded transactions are serial.** A step commits nothing, or one transaction as if it had run
alone. -/
theorem Standing.step {w' : World δ α κ ρ}
    (hguarded : ∀ id b, a = .start id b → (program b).Guarded C I R [])
    (h : Standing C I R program w) (hs : w.step program a = some w') :
    Standing C I R program w' ∧ (Uncommitted R w w' ∨
      ∃ s, w.session s.id = some s ∧ a = .step s.id ∧ (∃ result, s.frame.todo = .commit result) ∧
        CommitsAlone program s.request w w') := by
  have hexclusive := h.exclusive.step hs
  obtain ⟨id, request, rfl, hnone, rfl⟩ | ⟨s, hsession, -, rfl, hfree⟩ |
    ⟨s, hsession, result, ha, htodo, rfl⟩ | ⟨s, hsession, result, ha, htodo, rfl⟩ |
    ⟨s, -, -, rfl⟩ := World.step_cases hs
  · refine ⟨⟨h.db, fun s hs => ?_, hexclusive⟩, .inl ⟨rfl, .inl rfl⟩⟩
    obtain rfl | hs := mem_cons.mp hs
    · exact .start (hguarded id request rfl)
    · exact h.stands s hs
  · have hmem := (World.mem_of_session hsession).1
    refine ⟨⟨h.db, fun t ht => ?_, hexclusive⟩, .inl ⟨rfl, .inl rfl⟩⟩
    obtain rfl | ht := mem_cons.mp ht
    · exact (h.stands s hmem).next h.db
    · exact h.stands t (World.mem_others.mp ht).1
  · have hmem := (World.mem_of_session hsession).1
    have hstands := h.stands s hmem
    have hhere : s.frame.exec w.db = (s.frame.change w.db, true, result) := by
      rw [Frame.exec, htodo, Txn.exec]
    have halone : (program s.request).exec w.db = (s.frame.change w.db, true, result) := by
      rw [← hhere]
      exact (hstands.exec w.db h.db (.refl _ _) (by rw [hhere])).symm
    refine ⟨⟨hstands.inv _ h.db (.refl _ _), fun t ht => ?_, hexclusive⟩,
      .inr ⟨s, hsession, ha, ⟨result, htodo⟩, result, halone, rfl⟩⟩
    obtain ⟨ht, hne⟩ := World.mem_others.mp ht
    exact (h.stands t ht).other hstands.change (h.exclusive t ht s hmem hne)
  · have hrefuses := (h.stands s (World.mem_of_session hsession).1).guarded
    rw [htodo] at hrefuses
    exact ⟨⟨h.db, fun t ht => h.stands t (World.mem_others.mp ht).1, hexclusive⟩,
      .inl ⟨rfl, .inr ⟨s.request, result, hrefuses, rfl⟩⟩⟩
  · exact ⟨⟨h.db, fun t ht => h.stands t (World.mem_others.mp ht).1, hexclusive⟩,
      .inl ⟨rfl, .inl rfl⟩⟩

/-! ### Serial runs -/

/-- The database is what the committed transactions make of an initial one, one after another, and
the answers are theirs, the latest first. -/
inductive Replays (program : α → Txn δ κ ρ) (Init : δ → Prop) (R : ρ → Prop) :
    List (Answer α ρ) → δ → Prop
  | nil {db : δ} (hdb : Init db) : Replays program Init R [] db
  | rollback {log : List (Answer α ρ)} {db : δ} (a : α) {result : ρ}
      (h : Replays program Init R log db) (hresult : R result) :
      Replays program Init R (⟨a, false, result⟩ :: log) db
  | commit {log : List (Answer α ρ)} {db db' : δ} {a : α} {result : ρ}
      (h : Replays program Init R log db) (hexec : (program a).exec db = (db', true, result)) :
      Replays program Init R (⟨a, true, result⟩ :: log) db'

variable {Init : δ → Prop}

variable {log : List (Answer α ρ)} {db : δ}

omit [DecidableEq κ] in
theorem Replays.inv (hguarded : ∀ a, (program a).Guarded C I R []) (hinit : ∀ db, Init db → I db)
    (h : Replays program Init R log db) : I db := by
  induction h with
  | nil hdb => exact hinit _ hdb
  | rollback a h hresult ih => exact ih
  | commit h hexec ih => exact (hguarded _).exec_inv ih hexec

omit [DecidableEq κ] in
theorem Replays.split {newer older : List (Answer α ρ)} {a : α} {result : ρ}
    (h : Replays program Init R (newer ++ ⟨a, true, result⟩ :: older) db) :
    ∃ before after, Replays program Init R older before ∧
      (program a).exec before = (after, true, result) := by
  generalize hlog : newer ++ ⟨a, true, result⟩ :: older = log at h
  induction h generalizing newer with
  | nil hdb => exact absurd hlog (append_ne_nil_of_right_ne_nil newer (cons_ne_nil _ _))
  | rollback b h hresult ih =>
    cases newer with
    | nil => exact Bool.noConfusion (congrArg Answer.committed (cons.inj hlog).1)
    | cons x newer => exact ih (cons.inj hlog).2
  | commit h hexec ih =>
    cases newer with
    | nil =>
      obtain ⟨hx, rfl⟩ := cons.inj hlog
      obtain ⟨rfl, -, rfl⟩ := Answer.mk.inj hx
      exact ⟨_, _, h, hexec⟩
    | cons x newer => exact ih (cons.inj hlog).2

omit [DecidableEq κ] in
theorem Replays.committed (h : Replays program Init R log db) {x : Answer α ρ} (hx : x ∈ log)
    (hresult : ¬R x.result) : x.committed = true := by
  induction h with
  | nil hdb => nomatch hx
  | rollback a h hR ih =>
    obtain rfl | hx := mem_cons.mp hx
    · exact absurd hR hresult
    · exact ih hx
  | commit h hexec ih =>
    obtain rfl | hx := mem_cons.mp hx
    · rfl
    · exact ih hx

/-- **Serializability.** The answers are those of a serial run. -/
theorem Standing.replays {w' : World δ α κ ρ}
    (hguarded : ∀ id b, a = .start id b → (program b).Guarded C I R [])
    (h : Standing C I R program w) (hlog : Replays program Init R w.answers w.db)
    (hs : w.step program a = some w') : Replays program Init R w'.answers w'.db := by
  obtain ⟨-, ⟨hdb, hanswers | ⟨b, result, hresult, hanswers⟩⟩ |
    ⟨s, -, -, -, result, hexec, hanswers⟩⟩ :=
    h.step hguarded hs
  · rw [hdb, hanswers]
    exact hlog
  · rw [hdb, hanswers]
    exact .rollback b hlog hresult
  · rw [hanswers]
    exact .commit hlog hexec

theorem Standing.init (hinit : ∀ db, Init db → I db)
    (h : (sessions program Init : StateMachine (World δ α κ ρ) _).Init w) :
    Standing C I R program w ∧ Replays program Init R w.answers w.db := by
  obtain ⟨hdb, hnone, hanswers⟩ := h
  have hno : ∀ s, s ∉ w.sessions := fun s hs => nomatch (hnone ▸ hs)
  refine ⟨⟨hinit _ hdb, fun s hs => absurd hs (hno s), fun s hs => absurd hs (hno s)⟩, ?_⟩
  rw [hanswers]
  exact .nil hdb

theorem Standing.of_reachable (hguarded : ∀ a, (program a).Guarded C I R [])
    (hinit : ∀ db, Init db → I db) (h : (sessions program Init).Reachable w) :
    Standing C I R program w ∧ Replays program Init R w.answers w.db :=
  h.invariant (I := fun w => Standing C I R program w ∧ Replays program Init R w.answers w.db)
    (fun _ hw => Standing.init hinit hw) fun _ _ _ _ hw hs =>
    ⟨(hw.1.step (fun _ a _ => hguarded a) hs).1, hw.1.replays (fun _ a _ => hguarded a) hw.2 hs⟩

end Buzz
