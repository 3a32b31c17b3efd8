import Buzz.Db.Push.Gate

/-!
# No wake is lost to the gate

An activation holds the gate alone from before its first statement to its commit. While the trigger
of an insert holds it shared, no activation can commit, so a lease that is there when the insert
commits was there when the trigger looked. While an activation holds it, no push-eligible event of
the community can commit, so the events that it queues are all there are.
-/

namespace Buzz.Push

open List Option

variable {P : Platform} {maxActiveLeases : Nat}

/-! ### Activations -/

def exclusiveGate (P : Platform) (community : CommunityId) : Lock LockKey :=
  ⟨gateLock P community, .exclusive⟩

/-- The gate, held together with others. -/
def sharedGate (P : Platform) (community : CommunityId) : Lock LockKey :=
  ⟨gateLock P community, .shared⟩

theorem conflicts_gate (community : CommunityId) :
    (exclusiveGate P community).Conflicts (sharedGate P community) :=
  ⟨rfl, .inl rfl⟩

variable {request : GateRequest} {e : LeaseEvent} {now : Int}

theorem after_gate (h : request.Activates e now) :
    (transaction P maxActiveLeases request).After (exclusiveGate P e.address.community) := by
  cases request with
  | acceptLease e' now' =>
    obtain ⟨rfl, rfl, hactive⟩ := h
    rw [transaction, acceptLeaseEvent, if_pos hactive]
    exact .inr (.inr (.inl rfl))
  | replaceLease e' now' =>
    obtain ⟨rfl, rfl, hactive⟩ := h
    rw [transaction, replaceLease, if_pos hactive]
    exact .inl rfl
  | insertEvent row now' => exact h.elim

/-- The transaction queues the recent events last, or is not accepted. -/
def WillBackfill (community : CommunityId) (now : Int) : PushTxn → Prop
  | .lock _ next => WillBackfill community now next
  | .query write next => (∀ view, WillBackfill community now (next view)) ∨
    write = (fun view => Tables.enqueue (backfillKeys community now view)) ∧
      ∃ result, next = fun _ => .commit result
  | .commit result => ¬result.IsAccepted
  | .rollback _ => True

theorem willBackfill_backfill (community : CommunityId) (now : Int) (result : Reply) :
    WillBackfill community now (backfillPushMatchJobs community now (.commit result)) :=
  .inr ⟨rfl, result, rfl⟩

theorem willBackfill_writeLease (h : e.active.isSome = true) (now : Int) :
    WillBackfill e.address.community now (writeLease P e now) := by
  refine .inl fun view => ?_
  split
  · trivial
  refine .inl fun view => ?_
  dsimp only
  split
  · trivial
  refine .inl fun _ => .inl fun view => ?_
  dsimp only
  split
  · trivial
  refine .inl fun _ => ?_
  exact willBackfill_backfill _ now _

theorem willBackfill_acceptOrdered (h : e.active.isSome = true) (now : Int)
    (current : Option LeaseRow) :
    WillBackfill e.address.community now (acceptOrdered P maxActiveLeases e now current) := by
  rw [acceptOrdered]
  split
  · trivial
  refine .inl fun view => ?_
  dsimp only
  split
  · trivial
  refine .inl fun _ => .inl fun view => ?_
  dsimp only
  split
  · trivial
  · exact willBackfill_writeLease h now

theorem willBackfill_acceptUnderLock (h : e.active.isSome = true) (now : Int) :
    WillBackfill e.address.community now (acceptUnderLock P maxActiveLeases e now) := by
  refine .inl fun view => ?_
  dsimp only
  split
  · trivial
  refine .inl fun view => ?_
  dsimp only
  split
  · exact .inl fun view => willBackfill_acceptOrdered h now _
  · exact willBackfill_acceptOrdered h now _

theorem willBackfill_replaceUnderLock (h : e.active.isSome = true) (now : Int) :
    WillBackfill e.address.community now (replaceUnderLock e now) := by
  show WillBackfill _ _ (ite _ _ _)
  split
  · trivial
  refine .inl fun view => ?_
  dsimp only
  split
  · refine .inl fun view => ?_
    dsimp only
    split
    · trivial
    · rw [WillBackfill, Reply.IsAccepted]
      rintro (h | h)
      · nomatch h
      · split at h
        · nomatch h
        · nomatch h
  · trivial
  · refine .inl fun _ => ?_
    exact willBackfill_backfill _ now _

theorem willBackfill (h : request.Activates e now) :
    WillBackfill e.address.community now (transaction P maxActiveLeases request) := by
  cases request with
  | acceptLease e' now' =>
    obtain ⟨rfl, rfl, hactive⟩ := h
    rw [transaction, acceptLeaseEvent, if_pos hactive]
    exact willBackfill_acceptUnderLock hactive _
  | replaceLease e' now' =>
    obtain ⟨rfl, rfl, hactive⟩ := h
    rw [transaction, replaceLease, if_pos hactive]
    exact willBackfill_replaceUnderLock hactive _
  | insertEvent row now' => exact h.elim

/-- The event is one that an activation queues. -/
def Recent (community : CommunityId) (now : Int) (v : EventRow) : Prop :=
  v.community = community ∧ v.isPushKind = true ∧ v.deletedAt = none ∧
    v.receivedAt > now - seconds pushGateBackfillSecs

variable {v : EventRow}

theorem mem_backfillKeys {community : CommunityId} {t : Tables} (hv : v ∈ t.events)
    (hrecent : Recent community now v) : (v.community, v.id) ∈ backfillKeys community now t := by
  obtain ⟨hcommunity, hkind, hlive, hreceived⟩ := hrecent
  refine mem_map.mpr ⟨v, mem_filter.mpr ⟨hv, ?_⟩, rfl⟩
  rw [Bool.and_eq_true, Bool.and_eq_true, Bool.and_eq_true, beq_iff_eq, decide_eq_true_eq]
  exact ⟨⟨⟨hcommunity, hkind⟩, by rw [hlive]; rfl⟩, hreceived⟩

/-- The activation has queued the recent events of the database. -/
def Backfilled (community : CommunityId) (now : Int) (db : Tables) (change : Tables → Tables) :
    Prop :=
  ∀ v ∈ db.events, Recent community now v → ∀ t, (v.community, v.id) ∈ (change t).queue

/-! ### Inserts -/

/-- What is left of an insert when the row is written. -/
def insertChecked (P : Platform) (row : EventRow) (now : Int) : PushTxn :=
  .write (fun _ => ()) (fun _ => Tables.insertEvent row) <|
  enqueuePushMatchJob P row now (.commit (.inserted true))

/-- What is left of an insert when the gate is held. -/
def insertGated (row : EventRow) (now : Int) : PushTxn :=
  .read (anyEligible row.community now) fun found =>
  if found then .write (fun _ => [(row.community, row.id)]) Tables.enqueue
    (.commit (.inserted true))
  else .commit (.inserted true)

/-- How far the insert of a push-eligible event has got. -/
inductive InsertStage (P : Platform) (row : EventRow) (now : Int) (db : Tables) :
    Frame Tables LockKey Reply → Prop where
  | begun : InsertStage P row now db (.start (insertEvent P row now))
  | duplicate {change held} (hid : ∀ t, change t = t) :
    InsertStage P row now db ⟨change, held, .commit (.inserted false)⟩
  | checked {change held} (hid : ∀ t, change t = t) :
    InsertStage P row now db ⟨change, held, insertChecked P row now⟩
  | waiting {change held} (hleases : ∀ t, (change t).leases = t.leases)
    (hrow : ∀ t, row ∈ (change t).events) :
    InsertStage P row now db ⟨change, held, enqueuePushMatchJob P row now (.commit (.inserted true))⟩
  | gated {change held} (hleases : ∀ t, (change t).leases = t.leases)
    (hrow : ∀ t, row ∈ (change t).events) (hheld : sharedGate P row.community ∈ held) :
    InsertStage P row now db ⟨change, held, insertGated row now⟩
  | found {change held} (hrow : ∀ t, row ∈ (change t).events)
    (hheld : sharedGate P row.community ∈ held) :
    InsertStage P row now db ⟨change, held, .write (fun _ => [(row.community, row.id)])
      Tables.enqueue (.commit (.inserted true))⟩
  | done {change held} (hrow : ∀ t, row ∈ (change t).events)
    (hheld : sharedGate P row.community ∈ held)
    (hqueued : anyEligible row.community now db = true →
      ∀ t, (row.community, row.id) ∈ (change t).queue) :
    InsertStage P row now db ⟨change, held, .commit (.inserted true)⟩

variable {row : EventRow} {f : Frame Tables LockKey Reply}

theorem InsertStage.next {db : Tables} (hkind : row.isPushKind = true)
    (h : InsertStage P row now db f) : InsertStage P row now db (f.next db) := by
  cases h with
  | begun =>
    show InsertStage P row now db ⟨_, [], ite _ _ _⟩
    split
    · exact .duplicate fun _ => rfl
    · exact .checked fun _ => rfl
  | duplicate hid => exact .duplicate hid
  | @checked change held hid =>
    refine .waiting (fun t => ?_) fun t => mem_cons_self
    show (change t).leases = t.leases
    rw [hid]
  | @waiting change held hleases hrow =>
    rw [enqueuePushMatchJob, if_pos (show pushKinds.contains row.kind = true from hkind)]
    exact .gated hleases hrow mem_cons_self
  | @gated change held hleases hrow hheld =>
    show InsertStage P row now db ⟨_, held, ite (anyEligible row.community now (change db)) _ _⟩
    split
    · exact .found hrow hheld
    · next hnone =>
      refine .done hrow hheld fun hany => absurd ?_ hnone
      rwa [anyEligible, hleases]
  | found hrow hheld =>
    exact .done hrow hheld fun _ t => mem_enqueue.mpr (.inr mem_cons_self)
  | done hrow hheld hqueued => exact .done hrow hheld hqueued

variable {result : Reply}

theorem InsertStage.of_commit {db : Tables} (hkind : row.isPushKind = true)
    (h : InsertStage P row now db f) (hcommit : f.todo = .commit result) :
    (∀ t, f.change t = t) ∧ result = .inserted false ∨
      (∀ t, row ∈ (f.change t).events) ∧ sharedGate P row.community ∈ f.held ∧
        (anyEligible row.community now db = true →
          ∀ t, (row.community, row.id) ∈ (f.change t).queue) := by
  cases h with
  | begun | checked hid | gated hleases hrow hheld | found hrow hheld => nomatch hcommit
  | duplicate hid => exact .inl ⟨hid, (Txn.commit.inj hcommit).symm⟩
  | waiting hleases hrow =>
    rw [enqueuePushMatchJob, if_pos (show pushKinds.contains row.kind = true from hkind)] at hcommit
    nomatch hcommit
  | done hrow hheld hqueued => exact .inr ⟨hrow, hheld, hqueued⟩

/-! ### The invariant -/

/-- What holds of a session while `db` is committed. -/
structure SessionInv (P : Platform) (db : Tables) (request : GateRequest)
    (f : Frame Tables LockKey Reply) : Prop where
  writes : WritesOf request f.change ∧ f.todo.AllWrites (WritesOf request)
  gated : ∀ e now, request.Activates e now → exclusiveGate P e.address.community ∈ f.held ∨
    f.change = id ∧ f.todo.After (exclusiveGate P e.address.community)
  backfills : ∀ e now, request.Activates e now →
    WillBackfill e.address.community now f.todo ∨
      (∃ result, f.todo = .commit result) ∧ exclusiveGate P e.address.community ∈ f.held ∧
        Backfilled e.address.community now db f.change
  insert : ∀ row now, request = .insertEvent row now → row.isPushKind = true →
    InsertStage P row now db f

namespace SessionInv

variable {db : Tables} {request : GateRequest} {f : Frame Tables LockKey Reply}

theorem start : SessionInv P db request (.start (transaction P maxActiveLeases request)) := by
  refine ⟨⟨WritesOf.id, WritesOf.transaction request⟩, fun e now h => .inr ⟨rfl, after_gate h⟩,
    fun e now h => .inl (willBackfill h), ?_⟩
  rintro row now rfl -
  exact .begun

theorem backfills_next (h : SessionInv P db request f) {e : LeaseEvent} {now : Int}
    (hactivates : request.Activates e now) :
    WillBackfill e.address.community now (f.next db).todo ∨
      (∃ result, (f.next db).todo = .commit result) ∧
        exclusiveGate P e.address.community ∈ (f.next db).held ∧
          Backfilled e.address.community now db (f.next db).change := by
  have hgated := h.gated e now hactivates
  have hbackfills := h.backfills e now hactivates
  have hwrites := h.writes.1
  obtain ⟨change, held, todo⟩ := f
  cases todo with
  | lock l todo =>
    obtain hwill | ⟨⟨result, hcommit⟩, -⟩ := hbackfills
    · exact .inl hwill
    · nomatch hcommit
  | query write todo =>
    obtain (hwill | ⟨rfl, result, rfl⟩) | ⟨⟨result, hcommit⟩, -⟩ := hbackfills
    · exact .inl (hwill (change db))
    · refine .inr ⟨⟨result, rfl⟩, ?_, fun v hv hrecent t => ?_⟩
      · exact hgated.resolve_right fun hafter => hafter.2
      · exact mem_enqueue.mpr (.inr
          (mem_backfillKeys (hwrites.keeps db v hv hrecent.2.1) hrecent))
    · nomatch hcommit
  | commit result => exact hbackfills
  | rollback result =>
    obtain hwill | ⟨⟨result', hcommit⟩, -⟩ := hbackfills
    · exact .inl hwill
    · nomatch hcommit

theorem next (h : SessionInv P db request f) : SessionInv P db request (f.next db) where
  writes := Frame.next_allWrites (fun _ _ => WritesOf.comp) h.writes
  gated e now hactivates := Frame.next_after (h.gated e now hactivates)
  backfills _ _ hactivates := h.backfills_next hactivates
  insert row now hrequest hkind := (h.insert row now hrequest hkind).next hkind

theorem other (h : SessionInv P db request f) {request' : GateRequest}
    {g : Frame Tables LockKey Reply} (h' : SessionInv P db request' g) {result : Reply}
    (hcommit : g.todo = .commit result)
    (hfree : ∀ l ∈ f.held, ∀ m ∈ g.held, ¬l.Conflicts m) :
    SessionInv P (g.change db) request f where
  writes := h.writes
  gated := h.gated
  backfills e now hactivates := by
    refine (h.backfills e now hactivates).imp_right ?_
    rintro ⟨hresult, hheld, hback⟩
    refine ⟨hresult, hheld, fun v hv hrecent => ?_⟩
    obtain hv | ⟨now', rfl⟩ := h'.writes.1.event db v hv hrecent.2.1
    · exact hback v hv hrecent
    -- The insert of a push-eligible event commits with the gate, or has inserted nothing.
    obtain ⟨hid, -⟩ | ⟨-, hshared, -⟩ :=
      (h'.insert v now' rfl hrecent.2.1).of_commit hrecent.2.1 hcommit
    · rw [hid] at hv
      exact hback v hv hrecent
    · rw [hrecent.1] at hshared
      exact absurd (conflicts_gate e.address.community) (hfree _ hheld _ hshared)
  insert row now hrequest hkind := by
    have hstage := h.insert row now hrequest hkind
    obtain ⟨change, held, todo⟩ := f
    cases hstage with
    | begun => exact .begun
    | duplicate hid => exact .duplicate hid
    | checked hid => exact .checked hid
    | waiting hleases hrow => exact .waiting hleases hrow
    | gated hleases hrow hheld => exact .gated hleases hrow hheld
    | found hrow hheld => exact .found hrow hheld
    | done hrow hheld hqueued =>
      refine .done hrow hheld fun hany => hqueued ?_
      obtain ⟨r, hr, heligible⟩ := any_eq_true.mp hany
      refine any_eq_true.mpr ⟨r, ?_, heligible⟩
      have hactive : r.active = true := by
        rw [LeaseRow.eligible, Bool.and_eq_true, Bool.and_eq_true, Bool.and_eq_true] at heligible
        exact heligible.2.1.1
      obtain hr | ⟨e, now', hactivates, hcommunity⟩ := h'.writes.1.lease db r hr hactive
      · exact hr
      -- An activation that has written something holds the gate alone.
      obtain hgate | ⟨hid, -⟩ := h'.gated e now' hactivates
      · rw [Bool.and_eq_true, beq_iff_eq] at heligible
        rw [← hcommunity, heligible.1] at hgate
        exact absurd (conflicts_gate row.community).symm (hfree _ hheld _ hgate)
      · rwa [hid] at hr

end SessionInv

/-- The invariant of the writers of the match queue. -/
structure GateInv (P : Platform) (w : GateWorld) : Prop where
  exclusive : Exclusive w
  nodup : w.db.queue.Nodup
  session : ∀ s ∈ w.sessions, SessionInv P w.db s.request s.frame

variable {w w' : GateWorld} {a : SessionAction GateRequest}

theorem GateInv.step (h : GateInv P w) (hs : (gate P maxActiveLeases).step w a = some w') :
    GateInv P w' := by
  have hexclusive := h.exclusive.step hs
  obtain ⟨id, request, -, -, rfl⟩ | ⟨s, hsession, -, rfl, -⟩ | ⟨s, hsession, result, -, htodo, rfl⟩ |
    ⟨s, -, result, -, -, rfl⟩ | ⟨s, -, -, rfl⟩ := World.step_cases hs
  · refine ⟨hexclusive, h.nodup, fun t ht => ?_⟩
    obtain rfl | ht := mem_cons.mp ht
    · exact .start
    · exact h.session t ht
  · have hmem := (World.mem_of_session hsession).1
    refine ⟨hexclusive, h.nodup, fun t ht => ?_⟩
    obtain rfl | ht := mem_cons.mp ht
    · exact (h.session s hmem).next
    · exact h.session t (World.mem_others.mp ht).1
  · have hmem := (World.mem_of_session hsession).1
    have hsinv := h.session s hmem
    refine ⟨hexclusive, hsinv.writes.1.nodup _ h.nodup, fun t ht => ?_⟩
    obtain ⟨ht, hne⟩ := World.mem_others.mp ht
    exact (h.session t ht).other hsinv htodo (h.exclusive t ht s hmem hne)
  · exact ⟨hexclusive, h.nodup, fun t ht => h.session t (World.mem_others.mp ht).1⟩
  · exact ⟨hexclusive, h.nodup, fun t ht => h.session t (World.mem_others.mp ht).1⟩

theorem GateInv.init (h : (gate P maxActiveLeases).Init w) : GateInv P w := by
  obtain ⟨hnodup, hnone, -⟩ := h
  have hno : ∀ s, s ∉ w.sessions := fun s hs => nomatch (hnone ▸ hs)
  exact ⟨fun s hs => absurd hs (hno s), hnodup, fun s hs => absurd hs (hno s)⟩

theorem inv_of_gateReachable (h : (gate P maxActiveLeases).Reachable w) : GateInv P w :=
  h.invariant (fun _ hw => GateInv.init hw) fun _ _ _ _ hinv hs => hinv.step hs

/-! ### No wake is lost -/

/-- The step commits the insert of this event, begun at `now`. -/
def CommitsInsert (w : GateWorld) (a : SessionAction GateRequest) (row : EventRow) (now : Int) :
    Prop :=
  ∃ s, w.session s.id = some s ∧ a = .step s.id ∧ s.request = .insertEvent row now ∧
    s.frame.todo = .commit (.inserted true)

/-- The step commits the activation of this lease, begun at `now`. -/
def CommitsActivation (w : GateWorld) (a : SessionAction GateRequest) (e : LeaseEvent) (now : Int) :
    Prop :=
  ∃ s, w.session s.id = some s ∧ a = .step s.id ∧ s.request.Activates e now ∧
    ∃ result, result.IsAccepted ∧ s.frame.todo = .commit result

/-- The step gives the gate to the activation of this lease, begun at `now`. -/
def AcquiresGate (P : Platform) (w : GateWorld) (a : SessionAction GateRequest) (e : LeaseEvent)
    (now : Int) : Prop :=
  ∃ s, w.session s.id = some s ∧ a = .step s.id ∧ s.request.Activates e now ∧
    ∃ p, s.frame.todo = .lock (exclusiveGate P e.address.community) p

/-- The event has a row in `push_match_queue`. -/
def Queued (w : GateWorld) (row : EventRow) : Prop := (row.community, row.id) ∈ w.db.queue

theorem db_of_commit {s : Session Tables GateRequest LockKey Reply}
    (hsession : w.session s.id = some s) (ha : a = .step s.id)
    (htodo : s.frame.todo = .commit result) (hs : (gate P maxActiveLeases).step w a = some w') :
    w'.db = s.frame.change w.db := by
  obtain rfl := ha
  replace hs : (w.session s.id).bind w.advance = some w' := hs
  rw [hsession, bind_some, World.advance, htodo] at hs
  exact (congrArg World.db (some.inj hs)).symm

theorem queued_of_commitsInsert (h : GateInv P w) (hinsert : CommitsInsert w a row now)
    (hkind : row.isPushKind = true) (hs : (gate P maxActiveLeases).step w a = some w') :
    (∀ t ∈ w.sessions, a ≠ .step t.id → exclusiveGate P row.community ∉ t.frame.held) ∧
      (anyEligible row.community now w.db = true → Queued w' row) := by
  obtain ⟨s, hsession, ha, hrequest, htodo⟩ := hinsert
  have hmem := (World.mem_of_session hsession).1
  obtain ⟨-, hfalse⟩ | ⟨-, hshared, hqueued⟩ :=
    ((h.session s hmem).insert row now hrequest hkind).of_commit hkind htodo
  · exact absurd hfalse (by decide)
  refine ⟨fun t ht hne hheld => ?_, fun hany => ?_⟩
  · have hid : t.id ≠ s.id := fun heq => hne (by rw [ha, heq])
    exact h.exclusive t ht s hmem hid _ hheld _ hshared (conflicts_gate row.community)
  · rw [Queued, db_of_commit hsession ha htodo hs]
    exact hqueued hany w.db

theorem queued_of_commitsActivation (h : GateInv P w) (hactivation : CommitsActivation w a e now)
    (hs : (gate P maxActiveLeases).step w a = some w') (hv : v ∈ w.db.events)
    (hrecent : Recent e.address.community now v) : Queued w' v := by
  obtain ⟨s, hsession, ha, hactivates, result, haccepted, htodo⟩ := hactivation
  have hmem := (World.mem_of_session hsession).1
  rw [Queued, db_of_commit hsession ha htodo hs]
  obtain hwill | ⟨-, -, hback⟩ := (h.session s hmem).backfills e now hactivates
  · rw [htodo] at hwill
    exact absurd haccepted hwill
  · exact hback v hv hrecent w.db

theorem mem_events_step (h : GateInv P w) (hs : (gate P maxActiveLeases).step w a = some w')
    (hv : v ∈ w.db.events) (hkind : v.isPushKind = true) : v ∈ w'.db.events := by
  obtain ⟨id, request, -, -, rfl⟩ | ⟨s, -, -, rfl, -⟩ | ⟨s, hsession, result, -, -, rfl⟩ |
    ⟨s, -, result, -, -, rfl⟩ | ⟨s, -, -, rfl⟩ := World.step_cases hs
  · exact hv
  · exact hv
  · exact (h.session s (World.mem_of_session hsession).1).writes.1.keeps _ v hv hkind
  · exact hv
  · exact hv

theorem mem_events_run (h : (gate P maxActiveLeases).Reachable w)
    {as : List (SessionAction GateRequest)} (hr : (gate P maxActiveLeases).run w as = some w')
    (hv : v ∈ w.db.events) (hkind : v.isPushKind = true) : v ∈ w'.db.events :=
  h.run_preserves (I := fun w => v ∈ w.db.events)
    (fun _ _ _ hreach hv hs => mem_events_step (inv_of_gateReachable hreach) hs hv hkind) hr hv

theorem mem_events_of_commitsInsert (h : GateInv P w) (hinsert : CommitsInsert w a row now)
    (hkind : row.isPushKind = true) (hs : (gate P maxActiveLeases).step w a = some w') :
    row ∈ w'.db.events := by
  obtain ⟨s, hsession, ha, hrequest, htodo⟩ := hinsert
  have hmem := (World.mem_of_session hsession).1
  rw [db_of_commit hsession ha htodo hs]
  obtain ⟨-, hfalse⟩ | ⟨hrow, -, -⟩ :=
    ((h.session s hmem).insert row now hrequest hkind).of_commit hkind htodo
  · exact absurd hfalse (by decide)
  · exact hrow w.db

/-- **No wake is lost.** In every interleaving of inserts, activations and revocations:

* when an insert commits after an activation got the gate, no activation of the community is under
  way, and if the lease is still the effective one, active and not expired, the event is queued;
* an event that was committed before an activation, and received within the backfill window of its
  start, is queued when the activation commits;
* no event is queued twice. -/
theorem no_wake_lost :
    (∀ w₁ w₂ w₃ w₄ x as y e now row now', (gate P maxActiveLeases).Reachable w₁ →
      AcquiresGate P w₁ x e now → (gate P maxActiveLeases).step w₁ x = some w₂ →
      (gate P maxActiveLeases).run w₂ as = some w₃ → CommitsInsert w₃ y row now' →
      (gate P maxActiveLeases).step w₃ y = some w₄ → row.isPushKind = true →
      row.community = e.address.community →
      (∀ t ∈ w₃.sessions, y ≠ .step t.id → exclusiveGate P row.community ∉ t.frame.held) ∧
        (w₃.db.lease e.address = some e.row → e.row.eligible now' = true → Queued w₄ row)) ∧
    (∀ w₁ w₂ w₃ w₄ x as y e now row now', (gate P maxActiveLeases).Reachable w₁ →
      CommitsInsert w₁ x row now' → (gate P maxActiveLeases).step w₁ x = some w₂ →
      (gate P maxActiveLeases).run w₂ as = some w₃ → CommitsActivation w₃ y e now →
      (gate P maxActiveLeases).step w₃ y = some w₄ → Recent e.address.community now row →
      Queued w₄ row) ∧
    ∀ w, (gate P maxActiveLeases).Reachable w → w.db.queue.Nodup := by
  refine ⟨?_, ?_, fun w h => (inv_of_gateReachable h).nodup⟩
  · intro w₁ w₂ w₃ w₄ x as y e now row now' h₁ _ hx hrun hinsert hy hkind hcommunity
    have hinv := inv_of_gateReachable ((h₁.step hx).run hrun)
    obtain ⟨hfree, hqueued⟩ := queued_of_commitsInsert hinv hinsert hkind hy
    refine ⟨hfree, fun hlease heligible => hqueued ?_⟩
    refine any_eq_true.mpr ⟨e.row, (mem_of_lookupKey hlease).1, ?_⟩
    rw [heligible, Bool.and_true, beq_iff_eq]
    exact hcommunity.symm
  · intro w₁ w₂ w₃ w₄ x as y e now row now' h₁ hinsert hx hrun hactivation hy hrecent
    have h₂ := h₁.step hx
    have hrow := mem_events_of_commitsInsert (inv_of_gateReachable h₁) hinsert hrecent.2.1 hx
    have hrow' := mem_events_run h₂ hrun hrow hrecent.2.1
    exact queued_of_commitsActivation (inv_of_gateReachable (h₂.run hrun)) hactivation hy hrow'
      hrecent

/-! ### A message just before the first lease -/

/-- A platform whose locks are all one. -/
def gatePlatform : Platform where
  sha256 _ := 0
  hashtext _ := 1
  fromTimestamp seconds := some (seconds * 1000000)

def message : EventRow := ⟨1, 7, 8, 900000000, 9, none, 990000000, none⟩

def firstLease : LeaseEvent :=
  ⟨⟨1, 2, "phone"⟩, ⟨3, 1000, 1, 2000⟩,
    some ⟨"buzz-ios-production", 4, "grant", "default", .arr []⟩⟩

/-- The session on a connection is about to commit with this result. -/
def commits (request : GateRequest) (result : Reply) (id : Nat) (w : GateWorld) : Bool :=
  (w.session id).any fun s => s.request == request &&
    match s.frame.todo with
    | .commit result' => result' == result
    | _ => false

theorem session_of_commits {id : Nat} (h : commits request result id w = true) :
    ∃ s, w.session s.id = some s ∧ SessionAction.step (α := GateRequest) id = .step s.id ∧
      s.request = request ∧ s.frame.todo = .commit result := by
  obtain ⟨s, hs, hcommits⟩ := (any_eq_true _ _).mp h
  obtain ⟨hrequest, htodo⟩ := Bool.and_eq_true_iff.mp hcommits
  obtain ⟨-, rfl⟩ := World.mem_of_session hs
  refine ⟨s, hs, rfl, beq_iff_eq.mp hrequest, ?_⟩
  split at htodo
  · next result' heq => rw [heq, beq_iff_eq.mp htodo]
  · nomatch htodo

/-- The message finds no lease; the lease that comes after it queues it. -/
theorem no_wake_lost_firstLease : ∃ w, (gate gatePlatform 16).Reachable w ∧ Queued w message := by
  have hany : ((gate gatePlatform 16).run ⟨⟨[], [], []⟩, [], []⟩
      (.start 0 (.insertEvent message 980000000) :: replicate 4 (.step 0))).any (fun w₁ =>
        commits (.insertEvent message 980000000) (.inserted true) 0 w₁ &&
        ((gate gatePlatform 16).step w₁ (.step 0)).any fun w₂ =>
          ((gate gatePlatform 16).run w₂
            (.start 1 (.acceptLease firstLease 1000000000) :: replicate 15 (.step 1))).any
              fun w₃ => commits (.acceptLease firstLease 1000000000) (.lease .accepted) 1 w₃ &&
                ((gate gatePlatform 16).step w₃ (.step 1)).isSome) = true := by
    decide +kernel
  obtain ⟨w₁, h₁, hany⟩ := (any_eq_true _ _).mp hany
  obtain ⟨hinsert, hany⟩ := Bool.and_eq_true_iff.mp hany
  obtain ⟨w₂, h₂, hany⟩ := (any_eq_true _ _).mp hany
  obtain ⟨w₃, h₃, hany⟩ := (any_eq_true _ _).mp hany
  obtain ⟨hactivation, hsome⟩ := Bool.and_eq_true_iff.mp hany
  obtain ⟨w₄, h₄⟩ := isSome_iff_exists.mp hsome
  have hreach : (gate gatePlatform 16).Reachable w₁ := ⟨_, _, ⟨nodup_nil, rfl, rfl⟩, h₁⟩
  obtain ⟨s, hs, ha, hrequest, htodo⟩ := session_of_commits hinsert
  obtain ⟨t, ht, hb, hrequest', htodo'⟩ := session_of_commits hactivation
  refine ⟨w₄, ((hreach.step h₂).run h₃).step h₄, no_wake_lost.2.1 w₁ w₂ w₃ w₄ (.step 0) _
    (.step 1) firstLease 1000000000 message 980000000 hreach ⟨s, hs, ha, hrequest, htodo⟩ h₂ h₃
    ⟨t, ht, hb, ?_, _, .inl rfl, htodo'⟩ h₄ ⟨rfl, by decide, rfl, by decide⟩⟩
  rw [hrequest']
  exact ⟨rfl, rfl, rfl⟩

end Buzz.Push
