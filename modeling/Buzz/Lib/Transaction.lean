import Buzz.Lib.StateMachine
import Mathlib.Logic.Function.Iterate

/-!
# Transactions under READ COMMITTED

A transaction is a sequence of lock requests and statements. A statement sees what is committed when
it starts, with the transaction's own writes on top, so two statements of one transaction may see
different databases. Locks are held to the end of the transaction, and a request that conflicts with
a lock of another session waits. Writes are nobody else's to see before the commit.

Sessions take their steps in any order, and may be rolled back at any point. When the locks that a
session holds protect what it has read so far, the database is what the committed transactions make
of it one after another, and every answer is the one that the transaction gives when it runs alone
at the moment it finishes.
-/

namespace Buzz

/-! ### Locks -/

/-- How a lock is taken. -/
inductive LockMode where
  | shared
  | exclusive
  deriving DecidableEq

/-- A lock, of a row, a unique key or an advisory number. -/
structure Lock (κ : Type*) where
  key : κ
  mode : LockMode

/-- Two locks that different transactions cannot hold together. -/
def Lock.Conflicts {κ : Type*} (l m : Lock κ) : Prop :=
  l.key = m.key ∧ (l.mode = .exclusive ∨ m.mode = .exclusive)

instance {κ : Type*} [DecidableEq κ] (l m : Lock κ) : Decidable (l.Conflicts m) :=
  inferInstanceAs (Decidable (_ ∧ _))

theorem Lock.Conflicts.symm {κ : Type*} {l m : Lock κ} (h : l.Conflicts m) : m.Conflicts l :=
  ⟨h.1.symm, h.2.symm⟩

/-! ### Transactions -/

/-- A transaction over databases of type `δ`, with locks on keys of type `κ` and answers of type
`ρ`. -/
inductive Txn (δ κ ρ : Type*) where
  | lock (l : Lock κ) (next : Txn δ κ ρ)
  /-- A statement: what it writes, as it sees the database, and how the transaction goes on. -/
  | query (write : δ → δ → δ) (next : δ → Txn δ κ ρ)
  | commit (result : ρ)
  | rollback (result : ρ)

variable {δ κ ρ α : Type*}

namespace Txn

/-- A `SELECT`. -/
def read {β : Type*} (select : δ → β) (next : β → Txn δ κ ρ) : Txn δ κ ρ :=
  .query (fun _ base => base) fun view => next (select view)

/-- An `UPDATE` or `INSERT` of rows that are determined by what the statement sees. -/
def write {β : Type*} (select : δ → β) (change : β → δ → δ) (next : Txn δ κ ρ) : Txn δ κ ρ :=
  .query (fun view => change (select view)) fun _ => next

/-- The transaction run alone: the database with its writes, whether it commits, and its answer. -/
def exec : Txn δ κ ρ → δ → δ × Bool × ρ
  | .lock _ next, db => next.exec db
  | .query write next, db => (next db).exec (write db db)
  | .commit result, db => (db, true, result)
  | .rollback result, db => (db, false, result)

@[simp] theorem exec_lock (l : Lock κ) (next : Txn δ κ ρ) (db : δ) :
    (lock l next).exec db = next.exec db := rfl

@[simp] theorem exec_read {β : Type*} (select : δ → β) (next : β → Txn δ κ ρ) (db : δ) :
    (read select next).exec db = (next (select db)).exec db := rfl

@[simp] theorem exec_write {β : Type*} (select : δ → β) (change : β → δ → δ) (next : Txn δ κ ρ)
    (db : δ) : (write select change next).exec db = next.exec (change (select db) db) := rfl

@[simp] theorem exec_commit (result : ρ) (db : δ) :
    (commit result : Txn δ κ ρ).exec db = (db, true, result) := rfl

@[simp] theorem exec_rollback (result : ρ) (db : δ) :
    (rollback result : Txn δ κ ρ).exec db = (db, false, result) := rfl

/-- What is committed when the transaction has run alone. -/
def effect (p : Txn δ κ ρ) (db : δ) : δ := if (p.exec db).2.1 then (p.exec db).1 else db

/-- What the transaction answers when it runs alone, and whether it commits. -/
def answer (p : Txn δ κ ρ) (db : δ) : Bool × ρ := (p.exec db).2

/-- The transaction cannot tell the two databases apart. -/
def Alike : Txn δ κ ρ → δ → δ → Prop
  | .lock _ next, db, db' => next.Alike db db'
  | .query write next, db, db' =>
    write db = write db' ∧ next db = next db' ∧ (next db).Alike (write db db) (write db db')
  | .commit _, _, _ => True
  | .rollback _, _, _ => True

variable {next : Txn δ κ ρ}

theorem alike_lock {l : Lock κ} {db db' : δ} (hnext : next.Alike db db') :
    (lock l next).Alike db db' := hnext

theorem alike_read {β : Type*} {select : δ → β} {next : β → Txn δ κ ρ} {db db' : δ}
    (hselect : select db = select db') (hnext : (next (select db)).Alike db db') :
    (read select next).Alike db db' :=
  ⟨rfl, congrArg next hselect, hnext⟩

theorem alike_write {β : Type*} {select : δ → β} {change : β → δ → δ} {db db' : δ}
    (hselect : select db = select db')
    (hnext : next.Alike (change (select db) db) (change (select db) db')) :
    (write select change next).Alike db db' :=
  ⟨congrArg change hselect, rfl, hnext⟩

end Txn

/-! ### Frames -/

/-- What a session has written, holds and has to do. -/
structure Frame (δ κ ρ : Type*) where
  change : δ → δ
  held : List (Lock κ)
  todo : Txn δ κ ρ

namespace Frame

def start (p : Txn δ κ ρ) : Frame δ κ ρ := ⟨id, [], p⟩

/-- The next lock or statement, when `db` is committed. -/
def next (db : δ) (f : Frame δ κ ρ) : Frame δ κ ρ :=
  match f.todo with
  | .lock l todo => ⟨f.change, l :: f.held, todo⟩
  | .query write todo =>
    ⟨fun base => write (f.change db) (f.change base), f.held, todo (f.change db)⟩
  | .commit _ => f
  | .rollback _ => f

def exec (f : Frame δ κ ρ) (db : δ) : δ × Bool × ρ := f.todo.exec (f.change db)

theorem exec_next (f : Frame δ κ ρ) (db : δ) : (f.next db).exec db = f.exec db := by
  obtain ⟨change, held, todo⟩ := f
  cases todo with
  | lock l todo => rfl
  | query write todo => rfl
  | commit result => rfl
  | rollback result => rfl

/-- `f` is where one gets from `f₀` while `db` is committed. -/
def Leads (db : δ) (f₀ f : Frame δ κ ρ) : Prop := ∃ n, (next db)^[n] f₀ = f

theorem Leads.refl (db : δ) (f : Frame δ κ ρ) : f.Leads db f := ⟨0, rfl⟩

variable {db : δ} {f₀ f : Frame δ κ ρ}

theorem Leads.next (h : Leads db f₀ f) : Leads db f₀ (f.next db) := by
  obtain ⟨n, rfl⟩ := h
  exact ⟨n + 1, Function.iterate_succ_apply' _ n f₀⟩

theorem Leads.cases (h : Leads db f₀ f) : f = f₀ ∨ Leads db (f₀.next db) f := by
  obtain ⟨n, rfl⟩ := h
  cases n with
  | zero => exact .inl rfl
  | succ n => exact .inr ⟨n, rfl⟩

theorem Leads.head (h : Leads db (f₀.next db) f) : Leads db f₀ f := by
  obtain ⟨n, rfl⟩ := h
  exact ⟨n + 1, rfl⟩

/-- What holds at a frame and is kept by the next step holds wherever one gets. -/
theorem Leads.invariant {P : Frame δ κ ρ → Prop} (hnext : ∀ f, P f → P (f.next db))
    (h : Leads db f₀ f) (hP : P f₀) : P f := by
  obtain ⟨n, rfl⟩ := h
  induction n with
  | zero => exact hP
  | succ n ih =>
    rw [Function.iterate_succ_apply']
    exact hnext _ ih

theorem Leads.exec_eq (h : Leads db f₀ f) : f.exec db = f₀.exec db :=
  h.invariant (P := fun f => f.exec db = f₀.exec db) (fun f hf => (exec_next f db).trans hf) rfl

theorem held_next_subset (db : δ) (f : Frame δ κ ρ) : f.held ⊆ (f.next db).held := by
  obtain ⟨change, held, todo⟩ := f
  cases todo with
  | lock l todo => exact List.subset_cons_self l held
  | query write todo | commit result | rollback result => exact List.Subset.refl held

theorem Leads.held_subset (h : Leads db f₀ f) : f₀.held ⊆ f.held :=
  h.invariant (P := fun f => f₀.held ⊆ f.held)
    (fun f hf => List.Subset.trans hf (held_next_subset db f)) (List.Subset.refl _)

theorem Leads.congr {db' : δ} {e : Frame δ κ ρ} (h : Leads db e f)
    (halike : e.todo.Alike (e.change db) (e.change db')) : Leads db' e f := by
  obtain ⟨n, rfl⟩ := h
  induction n generalizing e with
  | zero => exact Leads.refl db' e
  | succ n ih =>
    obtain ⟨change, held, todo⟩ := e
    cases todo with
    | lock l todo => exact (ih (e := ⟨change, l :: held, todo⟩) halike).head
    | query write todo =>
      obtain ⟨hwrite, htodo, halike⟩ := halike
      have heq : Frame.next db ⟨change, held, .query write todo⟩ =
          Frame.next db' ⟨change, held, .query write todo⟩ := by
        dsimp only [Frame.next]
        rw [show todo (change db) = todo (change db') from htodo,
          show write (change db) = write (change db') from hwrite]
      refine Leads.head ?_
      rw [← heq]
      exact ih (e := Frame.next db ⟨change, held, .query write todo⟩) halike
    | commit result => exact (ih (e := ⟨change, held, .commit result⟩) trivial).head
    | rollback result => exact (ih (e := ⟨change, held, .rollback result⟩) trivial).head

theorem Leads.of_lock {change : δ → δ} {held : List (Lock κ)} {l : Lock κ} {p : Txn δ κ ρ}
    (h : Leads db ⟨change, held, .lock l p⟩ f) :
    f = ⟨change, held, .lock l p⟩ ∨ Leads db ⟨change, l :: held, p⟩ f :=
  h.cases

end Frame

/-! ### What is true of a transaction's text -/

def Txn.AllWrites (P : (δ → δ) → Prop) : Txn δ κ ρ → Prop
  | .lock _ next => next.AllWrites P
  | .query write next => ∀ view, P (write view) ∧ (next view).AllWrites P
  | .commit _ => True
  | .rollback _ => True

def Txn.After (l : Lock κ) : Txn δ κ ρ → Prop
  | .lock m next => m = l ∨ next.After l
  | .query _ _ => False
  | .commit _ => True
  | .rollback _ => True

variable {P : (δ → δ) → Prop} {next : Txn δ κ ρ}

theorem Txn.allWrites_lock {l : Lock κ} (hnext : next.AllWrites P) :
    (lock l next).AllWrites P := hnext

theorem Txn.allWrites_read (hid : P id) {β : Type*} {select : δ → β} {next : β → Txn δ κ ρ}
    (hnext : ∀ b, (next b).AllWrites P) : (read select next).AllWrites P :=
  fun view => ⟨hid, hnext (select view)⟩

theorem Txn.allWrites_write {β : Type*} {select : δ → β} {change : β → δ → δ}
    (hchange : ∀ b, P (change b)) (hnext : next.AllWrites P) :
    (write select change next).AllWrites P :=
  fun view => ⟨hchange (select view), hnext⟩

namespace Frame

variable {f : Frame δ κ ρ}

theorem next_allWrites {P : (δ → δ) → Prop} (hcomp : ∀ f g, P f → P g → P (f ∘ g)) {db : δ}
    (h : P f.change ∧ f.todo.AllWrites P) :
    P (f.next db).change ∧ (f.next db).todo.AllWrites P := by
  obtain ⟨change, held, todo⟩ := f
  cases todo with
  | lock l todo | commit result | rollback result => exact h
  | query write todo =>
    exact ⟨hcomp (write (change db)) change (h.2 (change db)).1 h.1, (h.2 (change db)).2⟩

theorem next_after {l : Lock κ} {db : δ} (h : l ∈ f.held ∨ f.change = id ∧ f.todo.After l) :
    l ∈ (f.next db).held ∨ (f.next db).change = id ∧ (f.next db).todo.After l := by
  obtain hheld | ⟨hid, hafter⟩ := h
  · exact .inl (held_next_subset db f hheld)
  obtain ⟨change, held, todo⟩ := f
  cases todo with
  | lock m todo =>
    obtain rfl | hafter := hafter
    · exact .inl List.mem_cons_self
    · exact .inr ⟨hid, hafter⟩
  | query write todo => exact hafter.elim
  | commit result | rollback result => exact .inr ⟨hid, hafter⟩

end Frame

/-! ### Sessions -/

/-- A connection that runs a transaction. -/
structure Session (δ α κ ρ : Type*) where
  id : Nat
  request : α
  frame : Frame δ κ ρ

/-- The answer to a request, and whether it was committed. -/
structure Answer (α ρ : Type*) where
  request : α
  committed : Bool
  result : ρ
  deriving DecidableEq

/-- The database with its sessions and their answers. -/
structure World (δ α κ ρ : Type*) where
  db : δ
  sessions : List (Session δ α κ ρ)
  answers : List (Answer α ρ)

namespace World

/-- The transaction that is open on a connection. -/
def session (w : World δ α κ ρ) (id : Nat) : Option (Session δ α κ ρ) :=
  w.sessions.find? fun s => s.id == id

/-- The transactions on other connections. -/
def others (w : World δ α κ ρ) (id : Nat) : List (Session δ α κ ρ) :=
  w.sessions.filter fun s => s.id != id

/-- The session stands elsewhere now. -/
def move (w : World δ α κ ρ) (s : Session δ α κ ρ) (f : Frame δ κ ρ) : World δ α κ ρ :=
  { w with sessions := { s with frame := f } :: w.others s.id }

def finish (w : World δ α κ ρ) (s : Session δ α κ ρ) (db : δ) (committed : Bool) (result : ρ) :
    World δ α κ ρ where
  db := db
  sessions := w.others s.id
  answers := ⟨s.request, committed, result⟩ :: w.answers

variable {w : World δ α κ ρ} {s : Session δ α κ ρ}

theorem mem_of_session {id : Nat} (h : w.session id = some s) : s ∈ w.sessions ∧ s.id = id :=
  ⟨List.mem_of_find?_eq_some h,
    beq_iff_eq.mp (List.find?_some (p := fun s : Session δ α κ ρ => s.id == id) h)⟩

theorem mem_others {id : Nat} : s ∈ w.others id ↔ s ∈ w.sessions ∧ s.id ≠ id := by
  simp [others]

end World

/-- A step of a session. -/
inductive SessionAction (α : Type*) where
  | start (id : Nat) (request : α)
  /-- A connection takes its next lock, runs its next statement, commits or rolls back. -/
  | step (id : Nat)
  | abort (id : Nat)

variable [DecidableEq κ] (program : α → Txn δ κ ρ)

def World.advance (w : World δ α κ ρ) (s : Session δ α κ ρ) : Option (World δ α κ ρ) :=
  match s.frame.todo with
  | .lock l _ =>
    if (w.others s.id).all fun t => t.frame.held.all fun m => !decide (l.Conflicts m) then
      some (w.move s (s.frame.next w.db))
    else none
  | .query _ _ => some (w.move s (s.frame.next w.db))
  | .commit result => some (w.finish s (s.frame.change w.db) true result)
  | .rollback result => some (w.finish s w.db false result)

def World.step (w : World δ α κ ρ) : SessionAction α → Option (World δ α κ ρ)
  | .start id request =>
    if (w.session id).isNone then
      some { w with sessions := ⟨id, request, .start (program request)⟩ :: w.sessions }
    else none
  | .step id => (w.session id).bind w.advance
  | .abort id => (w.session id).map fun s => { w with sessions := w.others s.id }

/-- Sessions that begin on a database, with nothing open. -/
def sessions (Init : δ → Prop) : StateMachine (World δ α κ ρ) (SessionAction α) where
  Init w := Init w.db ∧ w.sessions = [] ∧ w.answers = []
  step w := w.step program

variable {program}

variable {w w' : World δ α κ ρ} {a : SessionAction α}

theorem World.step_cases (h : w.step program a = some w') :
    (∃ id request, a = .start id request ∧ w.session id = none ∧
      w' = { w with sessions := ⟨id, request, .start (program request)⟩ :: w.sessions }) ∨
    (∃ s, w.session s.id = some s ∧ a = .step s.id ∧ w' = w.move s (s.frame.next w.db) ∧
      ∀ l p, s.frame.todo = .lock l p → ∀ t ∈ w.others s.id, ∀ m ∈ t.frame.held,
        ¬l.Conflicts m) ∨
    (∃ s, w.session s.id = some s ∧ ∃ result, a = .step s.id ∧ s.frame.todo = .commit result ∧
      w' = w.finish s (s.frame.change w.db) true result) ∨
    (∃ s, w.session s.id = some s ∧ ∃ result, a = .step s.id ∧ s.frame.todo = .rollback result ∧
      w' = w.finish s w.db false result) ∨
    ∃ s, w.session s.id = some s ∧ a = .abort s.id ∧ w' = { w with sessions := w.others s.id } := by
  cases a with
  | start id request =>
    obtain ⟨hnone, h⟩ := Option.ite_none_right_eq_some.mp h
    exact .inl ⟨id, request, rfl, Option.isNone_iff_eq_none.mp hnone, (Option.some.inj h).symm⟩
  | step id =>
    obtain ⟨s, hs, hadvance⟩ := Option.bind_eq_some_iff.mp h
    obtain ⟨-, rfl⟩ := World.mem_of_session hs
    rw [World.advance] at hadvance
    split at hadvance
    · next l p htodo =>
      obtain ⟨hfree, hadvance⟩ := Option.ite_none_right_eq_some.mp hadvance
      refine .inr (.inl ⟨s, hs, rfl, (Option.some.inj hadvance).symm, fun l' p' hl t ht m hm => ?_⟩)
      obtain ⟨rfl, -⟩ := Txn.lock.inj (htodo.symm.trans hl)
      have hnot := List.all_eq_true.mp (List.all_eq_true.mp hfree t ht) m hm
      rwa [Bool.not_eq_true', decide_eq_false_iff_not] at hnot
    · next write p htodo =>
      refine .inr (.inl ⟨s, hs, rfl, (Option.some.inj hadvance).symm, fun l' p' hl => ?_⟩)
      exact absurd (htodo.symm.trans hl) nofun
    · next result htodo =>
      exact .inr (.inr (.inl ⟨s, hs, result, rfl, htodo, (Option.some.inj hadvance).symm⟩))
    · next result htodo =>
      exact .inr (.inr (.inr (.inl ⟨s, hs, result, rfl, htodo, (Option.some.inj hadvance).symm⟩)))
  | abort id =>
    obtain ⟨s, hs, rfl⟩ := Option.map_eq_some_iff.mp h
    obtain ⟨-, rfl⟩ := World.mem_of_session hs
    exact .inr (.inr (.inr (.inr ⟨s, hs, rfl, rfl⟩)))

/-! ### Locks exclude -/

/-- No two sessions hold conflicting locks. -/
def Exclusive (w : World δ α κ ρ) : Prop :=
  ∀ s ∈ w.sessions, ∀ t ∈ w.sessions, s.id ≠ t.id →
    ∀ l ∈ s.frame.held, ∀ m ∈ t.frame.held, ¬l.Conflicts m

omit [DecidableEq κ] in
theorem Exclusive.mono (h : Exclusive w) (hsub : w'.sessions ⊆ w.sessions) : Exclusive w' :=
  fun s hs t ht => h s (hsub hs) t (hsub ht)

omit [DecidableEq κ] in
/-- A new session holds the locks of the old one, and those it was given. -/
theorem Exclusive.cons (h : Exclusive w) {s : Session δ α κ ρ} {id : Nat}
    (hs : ∀ t ∈ w.others id, ∀ l ∈ s.frame.held, ∀ m ∈ t.frame.held, ¬l.Conflicts m) :
    Exclusive { w with sessions := s :: w.others id } := by
  intro a ha b hb hne l hl m hm
  rcases List.mem_cons.mp ha with rfl | ha'
  · rcases List.mem_cons.mp hb with rfl | hb'
    · exact absurd rfl hne
    · exact hs b hb' l hl m hm
  · rcases List.mem_cons.mp hb with rfl | hb'
    · exact fun hconf => hs a ha' m hm l hl hconf.symm
    · exact h a (World.mem_others.mp ha').1 b (World.mem_others.mp hb').1 hne l hl m hm

omit [DecidableEq κ] in
theorem others_subset (w : World δ α κ ρ) (id : Nat) : w.others id ⊆ w.sessions :=
  fun _ hs => (World.mem_others.mp hs).1

variable {db : δ} {f : Frame δ κ ρ}

omit [DecidableEq κ] in
theorem mem_held_next {l : Lock κ} (h : l ∈ (f.next db).held) :
    l ∈ f.held ∨ ∃ p, f.todo = .lock l p := by
  obtain ⟨change, held, todo⟩ := f
  cases todo with
  | lock m p =>
    obtain rfl | h := List.mem_cons.mp h
    · exact .inr ⟨p, rfl⟩
    · exact .inl h
  | query write p | commit result | rollback result => exact .inl h

theorem Exclusive.step (h : Exclusive w) (hs : w.step program a = some w') : Exclusive w' := by
  obtain ⟨id, request, -, hnone, rfl⟩ | ⟨s, hsession, -, rfl, hfree⟩ |
    ⟨s, -, result, -, -, rfl⟩ | ⟨s, -, result, -, -, rfl⟩ | ⟨s, -, -, rfl⟩ :=
    World.step_cases hs
  · intro a ha b hb hne l hl m hm
    obtain rfl | ha := List.mem_cons.mp ha
    · nomatch hl
    · obtain rfl | hb := List.mem_cons.mp hb
      · nomatch hm
      · exact h a ha b hb hne l hl m hm
  · have hmem := (World.mem_of_session hsession).1
    refine h.cons fun t ht l hl m hm => ?_
    obtain hl | ⟨p, htodo⟩ := mem_held_next hl
    · obtain ⟨ht, hne⟩ := World.mem_others.mp ht
      exact h s hmem t ht hne.symm l hl m hm
    · exact hfree l p htodo t ht m hm
  · exact h.mono (others_subset w s.id)
  · exact h.mono (others_subset w s.id)
  · exact h.mono (others_subset w s.id)

/-! ### Isolation -/

/-- What a session has read is not changed by the commits that its locks let through, on the
databases `I`. -/
structure Isolated (program : α → Txn δ κ ρ) (I : δ → Prop) : Prop where
  effect : ∀ a db, I db → I ((program a).effect db)
  stable : ∀ a b db f g, I db → Frame.Leads db (.start (program a)) f →
    Frame.Leads db (.start (program b)) g → (∃ result, g.todo = .commit result) →
    (∀ l ∈ f.held, ∀ m ∈ g.held, ¬l.Conflicts m) →
    Frame.Leads (g.change db) (.start (program a)) f

/-- What holds between the steps: every session stands where it would have got alone. -/
structure Serial (program : α → Txn δ κ ρ) (I : δ → Prop) (w : World δ α κ ρ) : Prop where
  db : I w.db
  leads : ∀ s ∈ w.sessions, Frame.Leads w.db (.start (program s.request)) s.frame
  exclusive : Exclusive w

variable {p : Txn δ κ ρ}

omit [DecidableEq κ] in
theorem Txn.effect_of_commit {result : ρ} (h : Frame.Leads db (.start p) f)
    (htodo : f.todo = .commit result) :
    p.effect db = f.change db ∧ p.answer db = (true, result) := by
  have hexec : p.exec db = (f.change db, true, result) := by
    rw [← show f.exec db = p.exec db from h.exec_eq, Frame.exec, htodo, Txn.exec]
  rw [Txn.effect, Txn.answer, hexec]
  exact ⟨if_pos rfl, rfl⟩

omit [DecidableEq κ] in
theorem Txn.effect_of_rollback {result : ρ} (h : Frame.Leads db (.start p) f)
    (htodo : f.todo = .rollback result) : p.effect db = db ∧ p.answer db = (false, result) := by
  have hexec : p.exec db = (f.change db, false, result) := by
    rw [← show f.exec db = p.exec db from h.exec_eq, Frame.exec, htodo, Txn.exec]
  rw [Txn.effect, Txn.answer, hexec]
  exact ⟨if_neg Bool.false_ne_true, rfl⟩

/-- A step that shows nowhere but in the sessions. -/
def Quiet (w w' : World δ α κ ρ) : Prop := w'.db = w.db ∧ w'.answers = w.answers

/-- A transaction finishes, as if it had run alone at this moment. -/
def Finishes (program : α → Txn δ κ ρ) (a : α) (w w' : World δ α κ ρ) : Prop :=
  w'.db = (program a).effect w.db ∧
    w'.answers = ⟨a, ((program a).answer w.db).1, ((program a).answer w.db).2⟩ :: w.answers

variable {I : δ → Prop}

/-- **Isolation.** A step of a session shows nowhere, or is its transaction run alone. -/
theorem Serial.step (hI : Isolated program I) (h : Serial program I w)
    (hs : w.step program a = some w') :
    Serial program I w' ∧
      (Quiet w w' ∨ ∃ s, w.session s.id = some s ∧ a = .step s.id ∧
        Finishes program s.request w w') := by
  have hexclusive := h.exclusive.step hs
  obtain ⟨id, request, rfl, hnone, rfl⟩ | ⟨s, hsession, -, rfl, hfree⟩ |
    ⟨s, hsession, result, ha, htodo, rfl⟩ | ⟨s, hsession, result, ha, htodo, rfl⟩ |
    ⟨s, -, -, rfl⟩ := World.step_cases hs
  · refine ⟨⟨h.db, fun s hs => ?_, hexclusive⟩, .inl ⟨rfl, rfl⟩⟩
    obtain rfl | hs := List.mem_cons.mp hs
    · exact .refl w.db _
    · exact h.leads s hs
  · have hmem := (World.mem_of_session hsession).1
    refine ⟨⟨h.db, fun t ht => ?_, hexclusive⟩, .inl ⟨rfl, rfl⟩⟩
    obtain rfl | ht := List.mem_cons.mp ht
    · exact (h.leads s hmem).next
    · exact h.leads t (World.mem_others.mp ht).1
  · have hmem := (World.mem_of_session hsession).1
    obtain ⟨heffect, hanswer⟩ := Txn.effect_of_commit (h.leads s hmem) htodo
    refine ⟨⟨?_, fun t ht => ?_, hexclusive⟩, .inr ⟨s, hsession, ha, heffect.symm, ?_⟩⟩
    · show I (s.frame.change w.db)
      rw [← heffect]
      exact hI.effect _ _ h.db
    · obtain ⟨ht, hne⟩ := World.mem_others.mp ht
      exact hI.stable _ _ _ _ _ h.db (h.leads t ht) (h.leads s hmem) ⟨result, htodo⟩
        (h.exclusive t ht s hmem hne)
    · rw [hanswer]
      rfl
  · have hmem := (World.mem_of_session hsession).1
    obtain ⟨heffect, hanswer⟩ := Txn.effect_of_rollback (h.leads s hmem) htodo
    refine ⟨⟨h.db, fun t ht => ?_, hexclusive⟩, .inr ⟨s, hsession, ha, heffect.symm, ?_⟩⟩
    · exact h.leads t (World.mem_others.mp ht).1
    · rw [hanswer]
      rfl
  · exact ⟨⟨h.db, fun t ht => h.leads t (World.mem_others.mp ht).1, hexclusive⟩,
      .inl ⟨rfl, rfl⟩⟩

theorem Serial.init {Init : δ → Prop} (hinit : ∀ db, Init db → I db)
    (h : (sessions program Init : StateMachine (World δ α κ ρ) _).Init w) : Serial program I w := by
  obtain ⟨hdb, hnone, -⟩ := h
  have hno : ∀ s, s ∉ w.sessions := fun s hs => nomatch (hnone ▸ hs)
  exact ⟨hinit _ hdb, fun s hs => absurd hs (hno s), fun s hs => absurd hs (hno s)⟩

end Buzz

/-! ## Requests that are begun once

When no session begins a request that was begun before, no two sessions and answers are for the same
request, so an answer says which request it is for. -/

namespace Buzz

variable {δ κ ρ α : Type*}

def World.Begun (w : World δ α κ ρ) (a : α) : Prop :=
  (∃ s ∈ w.sessions, s.request = a) ∨ ∃ x ∈ w.answers, x.request = a

instance [DecidableEq α] (w : World δ α κ ρ) (a : α) : Decidable (w.Begun a) :=
  inferInstanceAs (Decidable (_ ∨ _))

/-- Every request is made once. -/
structure Once (w : World δ α κ ρ) : Prop where
  sessions : ∀ s ∈ w.sessions, ∀ t ∈ w.sessions, s.request = t.request → s.id = t.id
  apart : ∀ s ∈ w.sessions, ∀ x ∈ w.answers, s.request ≠ x.request
  answers : w.answers.Pairwise fun x y => x.request ≠ y.request

variable [DecidableEq κ] {program : α → Txn δ κ ρ} {w w' : World δ α κ ρ} {a : SessionAction α}

variable {s : Session δ α κ ρ}

omit [DecidableEq κ] in
theorem mem_move {f : Frame δ κ ρ} {t : Session δ α κ ρ} (h : t ∈ (w.move s f).sessions)
    (hs : s ∈ w.sessions) : ∃ u ∈ w.sessions, u.id = t.id ∧ u.request = t.request := by
  obtain rfl | ht := List.mem_cons.mp h
  · exact ⟨s, hs, rfl, rfl⟩
  · exact ⟨t, (World.mem_others.mp ht).1, rfl, rfl⟩

omit [DecidableEq κ] in
theorem Once.move (h : Once w) (hs : s ∈ w.sessions) (f : Frame δ κ ρ) : Once (w.move s f) where
  sessions t ht u hu heq := by
    obtain ⟨t', ht', htid, htreq⟩ := mem_move ht hs
    obtain ⟨u', hu', huid, hureq⟩ := mem_move hu hs
    rw [← htid, ← huid]
    exact h.sessions t' ht' u' hu' (by rw [htreq, hureq, heq])
  apart t ht x hx := by
    obtain ⟨t', ht', -, htreq⟩ := mem_move ht hs
    rw [← htreq]
    exact h.apart t' ht' x hx
  answers := h.answers

omit [DecidableEq κ] in
theorem Once.finish (h : Once w) (hs : s ∈ w.sessions) (db : δ) (committed : Bool) (result : ρ) :
    Once (w.finish s db committed result) where
  sessions t ht u hu :=
    h.sessions t (World.mem_others.mp ht).1 u (World.mem_others.mp hu).1
  apart t ht x hx := by
    obtain ⟨ht, hne⟩ := World.mem_others.mp ht
    obtain rfl | hx := List.mem_cons.mp hx
    · exact fun heq => hne (h.sessions t ht s hs heq)
    · exact h.apart t ht x hx
  answers := List.pairwise_cons.mpr ⟨h.apart s hs, h.answers⟩

/-- **Requests are begun once**, when no action begins one again. -/
theorem Once.step (h : Once w) (hnew : ∀ id b, a = .start id b → ¬w.Begun b)
    (hs : w.step program a = some w') : Once w' := by
  obtain ⟨id, request, rfl, hnone, rfl⟩ | ⟨s, hsession, -, rfl, -⟩ |
    ⟨s, hsession, result, -, -, rfl⟩ | ⟨s, hsession, result, -, -, rfl⟩ |
    ⟨s, -, -, rfl⟩ := World.step_cases hs
  · have hbegun := hnew id request rfl
    refine ⟨fun s hs t ht heq => ?_, fun s hs x hx heq => ?_, h.answers⟩
    · obtain rfl | hs := List.mem_cons.mp hs
      · obtain rfl | ht := List.mem_cons.mp ht
        · rfl
        · exact absurd (.inl ⟨t, ht, heq.symm⟩) hbegun
      · obtain rfl | ht := List.mem_cons.mp ht
        · exact absurd (.inl ⟨s, hs, heq⟩) hbegun
        · exact h.sessions s hs t ht heq
    · obtain rfl | hs := List.mem_cons.mp hs
      · exact hbegun (.inr ⟨x, hx, heq.symm⟩)
      · exact h.apart s hs x hx heq
  · exact h.move (World.mem_of_session hsession).1 _
  · exact h.finish (World.mem_of_session hsession).1 _ _ _
  · exact h.finish (World.mem_of_session hsession).1 _ _ _
  · exact ⟨fun s hs t ht => h.sessions s (World.mem_others.mp hs).1 t (World.mem_others.mp ht).1,
      fun s hs => h.apart s (World.mem_others.mp hs).1, h.answers⟩

omit [DecidableEq κ] in
theorem Once.init {w : World δ α κ ρ} (hsessions : w.sessions = []) (hanswers : w.answers = []) :
    Once w := by
  have hno : ∀ s, s ∉ w.sessions := fun s hs => nomatch (hsessions ▸ hs)
  refine ⟨fun s hs => absurd hs (hno s), fun s hs => absurd hs (hno s), ?_⟩
  rw [hanswers]
  exact .nil

theorem begun_step {b : α} (hs : w.step program a = some w') (h : w'.Begun b) :
    w.Begun b ∨ ∃ id, a = .start id b := by
  obtain ⟨id, request, rfl, -, rfl⟩ | ⟨s, hsession, -, rfl, -⟩ |
    ⟨s, hsession, result, -, -, rfl⟩ | ⟨s, hsession, result, -, -, rfl⟩ |
    ⟨s, -, -, rfl⟩ := World.step_cases hs
  · obtain ⟨t, ht, rfl⟩ | h := h
    · obtain rfl | ht := List.mem_cons.mp ht
      · exact .inr ⟨id, rfl⟩
      · exact .inl (.inl ⟨t, ht, rfl⟩)
    · exact .inl (.inr h)
  · obtain ⟨t, ht, rfl⟩ | h := h
    · obtain ⟨u, hu, -, hreq⟩ := mem_move ht (World.mem_of_session hsession).1
      exact .inl (.inl ⟨u, hu, hreq⟩)
    · exact .inl (.inr h)
  · refine .inl ?_
    obtain ⟨t, ht, rfl⟩ | ⟨x, hx, rfl⟩ := h
    · exact .inl ⟨t, (World.mem_others.mp ht).1, rfl⟩
    · obtain rfl | hx := List.mem_cons.mp hx
      · exact .inl ⟨s, (World.mem_of_session hsession).1, rfl⟩
      · exact .inr ⟨x, hx, rfl⟩
  · refine .inl ?_
    obtain ⟨t, ht, rfl⟩ | ⟨x, hx, rfl⟩ := h
    · exact .inl ⟨t, (World.mem_others.mp ht).1, rfl⟩
    · obtain rfl | hx := List.mem_cons.mp hx
      · exact .inl ⟨s, (World.mem_of_session hsession).1, rfl⟩
      · exact .inr ⟨x, hx, rfl⟩
  · obtain ⟨t, ht, rfl⟩ | h := h
    · exact .inl (.inl ⟨t, (World.mem_others.mp ht).1, rfl⟩)
    · exact .inl (.inr h)

theorem answers_step (hs : w.step program a = some w') :
    w'.answers = w.answers ∨ ∃ x, w'.answers = x :: w.answers := by
  obtain ⟨id, request, rfl, -, rfl⟩ | ⟨s, -, -, rfl, -⟩ | ⟨s, -, result, -, -, rfl⟩ |
    ⟨s, -, result, -, -, rfl⟩ | ⟨s, -, -, rfl⟩ := World.step_cases hs
  · exact .inl rfl
  · exact .inl rfl
  · exact .inr ⟨_, rfl⟩
  · exact .inr ⟨_, rfl⟩
  · exact .inl rfl

end Buzz
