import Buzz.Lib.Transaction

/-!
# Transactions that others may doom

A transaction may read what no lock of its own protects, when the commit of another one can only turn
what it has found into a reason to give up. Such a transaction stands where it would have got alone, or
is doomed: however it goes on, it ends in a rollback. The database is still what the committed
transactions make of it one after another.
-/

namespace Buzz

variable {δ κ ρ α : Type*}

/-- The transaction ends in a rollback, whatever it sees. -/
def Txn.Doomed : Txn δ κ ρ → Prop
  | .lock _ next => next.Doomed
  | .query _ next => ∀ view, (next view).Doomed
  | .commit _ => False
  | .rollback _ => True

theorem Frame.doomed_next {f : Frame δ κ ρ} (h : f.todo.Doomed) (db : δ) :
    (f.next db).todo.Doomed := by
  obtain ⟨change, held, todo⟩ := f
  cases todo with
  | lock l todo | commit result | rollback result => exact h
  | query write todo => exact h (change db)

/-- The transaction stands where it would have got alone, or is doomed. -/
def StandsAlone (p : Txn δ κ ρ) (db : δ) (f : Frame δ κ ρ) : Prop :=
  Frame.Leads db (.start p) f ∨ f.todo.Doomed

variable [DecidableEq κ]

/-- In the steps that meet `G`, a commit leaves the others where they would have got alone, or dooms
them. Transactions that run alone keep the databases `I`. -/
structure Shelters (program : α → Txn δ κ ρ) (I : δ → Prop)
    (G : World δ α κ ρ → SessionAction α → Prop) : Prop where
  effect : ∀ a db, I db → I ((program a).effect db)
  /-- A commit leaves another session where it would have got alone, or dooms it. -/
  stable : ∀ (w : World δ α κ ρ) s t, I w.db → G w (.step s.id) → w.session s.id = some s →
    t ∈ w.others s.id → (∃ result, s.frame.todo = .commit result) →
    Frame.Leads w.db (.start (program s.request)) s.frame →
    Frame.Leads w.db (.start (program t.request)) t.frame →
    (∀ l ∈ t.frame.held, ∀ m ∈ s.frame.held, ¬l.Conflicts m) →
    StandsAlone (program t.request) (s.frame.change w.db) t.frame

/-- The invariant of sessions that shelter each other. -/
structure Sheltered (program : α → Txn δ κ ρ) (I : δ → Prop) (w : World δ α κ ρ) : Prop where
  db : I w.db
  /-- Every session stands where it would have got alone, or is doomed. -/
  stands : ∀ s ∈ w.sessions, StandsAlone (program s.request) w.db s.frame
  exclusive : Exclusive w

variable {program : α → Txn δ κ ρ} {I : δ → Prop} {G : World δ α κ ρ → SessionAction α → Prop}
  {w w' : World δ α κ ρ} {a : SessionAction α}

/-- **A step** leaves the database alone, or is one transaction run alone. -/
theorem Sheltered.step (hG : Shelters program I G) (h : Sheltered program I w) (hg : G w a)
    (hs : w.step program a = some w') : Sheltered program I w' ∧
      (w'.db = w.db ∨ ∃ s, w.session s.id = some s ∧ a = .step s.id ∧
        Finishes program s.request w w') := by
  have hexclusive := h.exclusive.step hs
  obtain ⟨id, request, rfl, hnone, rfl⟩ | ⟨s, hsession, -, rfl, hfree⟩ |
    ⟨s, hsession, result, ha, htodo, rfl⟩ | ⟨s, hsession, result, ha, htodo, rfl⟩ |
    ⟨s, -, -, rfl⟩ := World.step_cases hs
  · refine ⟨⟨h.db, fun s hs => ?_, hexclusive⟩, .inl rfl⟩
    obtain rfl | hs := List.mem_cons.mp hs
    · exact .inl (.refl w.db _)
    · exact h.stands s hs
  · have hmem := (World.mem_of_session hsession).1
    refine ⟨⟨h.db, fun t ht => ?_, hexclusive⟩, .inl rfl⟩
    obtain rfl | ht := List.mem_cons.mp ht
    · exact (h.stands s hmem).imp Frame.Leads.next fun hdoomed => Frame.doomed_next hdoomed w.db
    · exact h.stands t (World.mem_others.mp ht).1
  · have hmem := (World.mem_of_session hsession).1
    obtain hleads | hdoomed := h.stands s hmem
    · obtain ⟨heffect, hanswer⟩ := Txn.effect_of_commit hleads htodo
      refine ⟨⟨?_, fun t ht => ?_, hexclusive⟩, .inr ⟨s, hsession, ha, heffect.symm, ?_⟩⟩
      · show I (s.frame.change w.db)
        rw [← heffect]
        exact hG.effect _ _ h.db
      · obtain ⟨htmem, hne⟩ := World.mem_others.mp ht
        obtain hleads' | hdoomed := h.stands t htmem
        · exact hG.stable w s t h.db (ha ▸ hg) hsession ht ⟨result, htodo⟩ hleads hleads'
            (h.exclusive t htmem s hmem hne)
        · exact .inr hdoomed
      · rw [hanswer]
        rfl
    · rw [htodo] at hdoomed
      exact hdoomed.elim
  · exact ⟨⟨h.db, fun t ht => h.stands t (World.mem_others.mp ht).1, hexclusive⟩, .inl rfl⟩
  · exact ⟨⟨h.db, fun t ht => h.stands t (World.mem_others.mp ht).1, hexclusive⟩, .inl rfl⟩

/-- **The invariant.** What transactions that run alone keep holds of the database in every state that
a run meeting `G` reaches. -/
theorem Shelters.invariant [∀ w a, Decidable (G w a)] (hG : Shelters program I G)
    {Init : δ → Prop} (hinit : ∀ db, Init db → I db)
    (h : ((sessions program Init).guard G).Reachable w) : I w.db := by
  refine (StateMachine.reachable_guard (I := Sheltered program I) (fun w hw => ?_)
    (fun w a w' hw hg hs => (hw.step hG hg hs).1) h).db
  obtain ⟨hdb, hnone, -⟩ := hw
  have hno : ∀ s, s ∉ w.sessions := fun s hs => nomatch (hnone ▸ hs)
  exact ⟨hinit _ hdb, fun s hs => absurd hs (hno s), fun s hs => absurd hs (hno s)⟩

end Buzz
