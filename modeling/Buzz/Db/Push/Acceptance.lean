import Buzz.Db.Push.Lease

/-!
# What an acceptance does

`accept_lease_event`, run alone. It accepts an event that wins both orders and passes the quota and
endpoint checks, unless a lease of the author is active and has run out: the clean-up takes such a
lease's `active` away and leaves its other columns, which the table's constraint forbids.
-/

namespace Buzz.Push

open List

/-- A lease event that is handed in, and the start of the transaction that accepts it. -/
structure Submission where
  event : LeaseEvent
  now : Int

/-! ### When an event is to be accepted -/

/-- The author's leases at other installations that are active and have not run out. -/
def othersInForce (s : Submission) (t : Tables) : List LeaseRow :=
  (otherActive s.event.address t).filter fun r => decide (epoch s.now < r.expiresAt)

/-- The event wins both orders against the stored lease. -/
def Wins (e : LeaseEvent) (t : Tables) : Prop :=
  ∀ r, t.lease e.address = some r →
    winsEvent e.version r = true ∧ r.generation < e.version.generation

/-- An active lease more is within the quota. -/
def WithinQuota (maxActiveLeases : Nat) (s : Submission) (t : Tables) : Prop :=
  s.event.active.isSome = true → (othersInForce s t).length < maxActiveLeases

/-- No other installation of the author has the endpoint. -/
def EndpointFree (s : Submission) (t : Tables) : Prop :=
  s.event.active.isSome = true → ∀ r ∈ othersInForce s t, s.event.row.sameEndpoint r = false

/-- The tables can hold the event. -/
def Storable (P : Platform) (e : LeaseEvent) : Prop :=
  e.row.check = true ∧ (P.fromTimestamp e.version.sourceCreatedAt).isSome = true

/-- The event wins both orders and passes the checks. -/
structure Acceptable (P : Platform) (maxActiveLeases : Nat) (s : Submission) (t : Tables) :
    Prop where
  storable : Storable P s.event
  wins : Wins s.event t
  quota : WithinQuota maxActiveLeases s t
  endpoint : EndpointFree s t

/-- The author has no active lease that has run out. -/
def NoneLapsed (s : Submission) (t : Tables) : Prop :=
  ∀ r ∈ t.leasesOf s.event.address, r.lapsed s.now = false

instance (s : Submission) (t : Tables) : Decidable (NoneLapsed s t) :=
  inferInstanceAs (Decidable (∀ r ∈ t.leasesOf s.event.address, r.lapsed s.now = false))

/-! ### The invariant of the tables -/

/-- The rows of `events` for an address that are not deleted. -/
def Tables.liveEvents (t : Tables) (a : Address) : List EventRow :=
  t.events.filter (EventRow.isSource a)

/-- The row of `events` is that of a lease event. -/
def EventRow.Of (v : EventRow) (e : LeaseEvent) : Prop :=
  v.community = e.address.community ∧ v.id = e.version.sourceEventId ∧
    v.pubkey = e.address.author ∧ v.kind = kindPushLease ∧
    v.dTag = some e.address.installationId

/-- The invariant of the lease tables. -/
structure Sound (Submitted : LeaseEvent → Prop) (maxActiveLeases : Nat) (t : Tables) : Prop where
  nodup : (t.leases.map LeaseRow.address).Nodup
  lease : ∀ r ∈ t.leases, ∃ e, Submitted e ∧ r = e.row
  /-- Every event was submitted, and does not win against the lease of its address. -/
  event : ∀ v ∈ t.events, ∃ e, Submitted e ∧ v.Of e ∧
    ∃ r, t.lease e.address = some r ∧ winsEvent e.version r = false
  /-- The live event of an address is the source event of its lease. -/
  live : ∀ a, (t.liveEvents a).map EventRow.id = ((t.lease a).map LeaseRow.sourceEventId).toList
  quota : ∀ a, ((t.leasesOf a).filter LeaseRow.active).length ≤ maxActiveLeases
  endpoint : ∀ r ∈ t.leases, ∀ s ∈ t.leases, r.active = true → s.active = true →
    r.address ≠ s.address → r.address.community = s.address.community →
    r.address.author = s.address.author → r.sameEndpoint s = false

/-- No two submitted events of a community have one id. -/
def CollisionFree (Submitted : LeaseEvent → Prop) : Prop :=
  ∀ d e, Submitted d → Submitted e → d.address.community = e.address.community →
    d.version.sourceEventId = e.version.sourceEventId → d = e

variable {P : Platform} {maxActiveLeases : Nat} {s : Submission} {t : Tables}

/-! ### Bookkeeping -/

variable {a : Address} {r : LeaseRow}

theorem mem_leasesOf :
    r ∈ t.leasesOf a ↔
      r ∈ t.leases ∧ r.address.community = a.community ∧ r.address.author = a.author := by
  simp [Tables.leasesOf]

theorem deactivate_nil : t.deactivate [] = t := by
  simp [Tables.deactivate, ↓reduceIte]

variable {e : LeaseEvent}

theorem check_deactivate (h : e.row.active = true) : e.row.deactivate.check = false := by
  obtain ⟨active, hactive⟩ := Option.isSome_iff_exists.mp (show e.active.isSome = true from h)
  simp [LeaseRow.check, LeaseRow.deactivate, LeaseEvent.row, hactive]

theorem otherActive_eq (h : NoneLapsed s t) : otherActive s.event.address t = othersInForce s t := by
  refine (filter_eq_self.mpr fun r hr => ?_).symm
  simp only [otherActive, mem_filter, Bool.and_eq_true] at hr
  have hlapsed := h r hr.1
  rw [LeaseRow.lapsed, hr.2.1, Bool.true_and, decide_eq_false_iff_not] at hlapsed
  rw [decide_eq_true_eq]
  omega

/-! ### The checks -/

theorem stale_eq_none_iff {v : LeaseVersion} {current : Option LeaseRow} :
    stale v current = none ↔
      ∀ r, current = some r → winsEvent v r = true ∧ r.generation < v.generation := by
  cases current with
  | none => exact ⟨fun _ r hr => absurd hr.symm (Option.some_ne_none r), fun _ => rfl⟩
  | some r =>
    rw [stale]
    cases hwins : winsEvent v r with
    | false =>
      rw [Bool.not_false, if_pos rfl]
      refine ⟨nofun, fun h => ?_⟩
      exact absurd ((h r rfl).1) (by rw [hwins]; exact Bool.false_ne_true)
    | true =>
      rw [Bool.not_true, if_neg Bool.false_ne_true]
      by_cases hgen : v.generation ≤ r.generation
      · rw [if_pos hgen]
        refine ⟨nofun, fun h => ?_⟩
        have := (h r rfl).2
        omega
      · rw [if_neg hgen]
        refine ⟨fun _ u hu => ?_, fun _ => rfl⟩
        cases hu
        exact ⟨hwins, by omega⟩

theorem blocked_eq_none_iff (h : NoneLapsed s t) :
    blocked maxActiveLeases s.event t = none ↔
      WithinQuota maxActiveLeases s t ∧ EndpointFree s t := by
  rw [blocked, otherActive_eq h]
  cases hactive : s.event.active with
  | none =>
    refine ⟨fun _ => ⟨fun hsome => ?_, fun hsome => ?_⟩, fun _ => rfl⟩
    · rw [hactive] at hsome
      nomatch hsome
    · rw [hactive] at hsome
      nomatch hsome
  | some active =>
    have hsome : s.event.active.isSome = true := by rw [hactive]; rfl
    by_cases hquota : maxActiveLeases ≤ (othersInForce s t).length
    · rw [if_pos hquota]
      refine ⟨nofun, fun h => ?_⟩
      have := h.1 hsome
      omega
    · rw [if_neg hquota]
      by_cases hany : (othersInForce s t).any (LeaseRow.sameEndpoint s.event.row) = true
      · rw [if_pos hany]
        refine ⟨nofun, fun h => ?_⟩
        obtain ⟨r, hr, hsame⟩ := any_eq_true.mp hany
        exact absurd (h.2 hsome r hr) (by rw [hsame]; exact Bool.true_eq_false.mp)
      · rw [if_neg hany]
        refine ⟨fun _ => ⟨fun _ => by omega, fun _ r hr => ?_⟩, fun _ => rfl⟩
        exact Bool.eq_false_iff.mpr fun hsame => hany (any_eq_true.mpr ⟨r, hr, hsame⟩)

/-! ### The transaction, run alone -/

/-- Run alone, the transaction is rolled back and does not answer that it accepted. -/
def Refuses (p : PushTxn) (t : Tables) : Prop :=
  ∃ reply, (p.exec t).2 = (false, reply) ∧ reply ≠ .lease .accepted

def Tables.accept (e : LeaseEvent) (createdAt now : Int) (t : Tables) : Tables where
  leases := e.row :: t.leases.filter fun r => r.address != e.address
  events := e.eventRow createdAt now ::
    (t.deleteEvents e.address now ((t.liveEvents e.address).map EventRow.key)).events
  queue := t.queue

theorem exec_selectForUpdate (a : Address) (next : Option LeaseRow → PushTxn) :
    (selectForUpdate a next).exec t = (next (t.lease a)).exec t := by
  rw [selectForUpdate, Txn.exec_read]
  split
  · rfl
  · next hnone =>
    rw [Option.not_isSome_iff_eq_none.mp hnone]

theorem exec_acceptLeaseEvent (e : LeaseEvent) (now : Int) :
    (acceptLeaseEvent P maxActiveLeases e now).exec t =
      (acceptUnderLock P maxActiveLeases e now).exec t := by
  rw [acceptLeaseEvent, Txn.exec_lock, Txn.exec_lock]
  split
  · rfl
  · rfl

theorem not_winsEvent_row (e : LeaseEvent) : winsEvent e.version e.row = false := by
  simp [winsEvent, LeaseEvent.row]

section Alone

variable {Submitted : LeaseEvent → Prop} (hfree : CollisionFree Submitted)
  (h : Sound Submitted maxActiveLeases t) (hsub : Submitted s.event)

include hfree h hsub

theorem eq_row_of_source {r : LeaseRow} (hr : r ∈ t.leases)
    (hcommunity : r.address.community = s.event.address.community)
    (hid : r.sourceEventId = s.event.version.sourceEventId) : r = s.event.row := by
  obtain ⟨d, hd, rfl⟩ := h.lease r hr
  rw [hfree d s.event hd hsub hcommunity hid]

theorem not_wins_of_leaseOfSource {r : LeaseRow}
    (hr : t.leaseOfSource s.event.address.community s.event.version.sourceEventId = some r) :
    ¬Wins s.event t := by
  have hmem := mem_of_find?_eq_some hr
  have hsource := find?_some (p := fun r : LeaseRow =>
    r.address.community == s.event.address.community &&
      r.sourceEventId == s.event.version.sourceEventId) hr
  rw [Bool.and_eq_true, beq_iff_eq, beq_iff_eq] at hsource
  obtain rfl := eq_row_of_source hfree h hsub hmem hsource.1 hsource.2
  intro hwins
  have hlease : t.lease s.event.address = some s.event.row :=
    (lookupKey_eq_some_iff h.nodup).mpr ⟨hmem, rfl⟩
  exact absurd (hwins _ hlease).1 (by rw [not_winsEvent_row]; exact Bool.false_ne_true)

theorem not_wins_of_event {v : EventRow} (hv : v ∈ t.events)
    (hcommunity : v.community = s.event.address.community)
    (hid : v.id = s.event.version.sourceEventId) : ¬Wins s.event t := by
  obtain ⟨d, hd, hof, r, hr, hloses⟩ := h.event v hv
  obtain rfl := hfree d s.event hd hsub (hof.1.symm.trans hcommunity) (hof.2.1.symm.trans hid)
  intro hwins
  exact absurd (hwins r hr).1 (by rw [hloses]; exact Bool.false_ne_true)

omit hfree hsub in
theorem violates_iff :
    (((t.leasesOf s.event.address).filter (LeaseRow.lapsed s.now)).any fun r =>
      !r.deactivate.check) = true ↔ ¬NoneLapsed s t := by
  rw [any_eq_true]
  constructor
  · rintro ⟨r, hr, -⟩ hnone
    obtain ⟨hr, hlapsed⟩ := mem_filter.mp hr
    rw [hnone r hr] at hlapsed
    nomatch hlapsed
  · intro hsome
    obtain ⟨r, hr⟩ := not_forall.mp hsome
    obtain ⟨hr, hlapsed⟩ := Classical.not_imp.mp hr
    rw [Bool.not_eq_false] at hlapsed
    refine ⟨r, mem_filter.mpr ⟨hr, hlapsed⟩, ?_⟩
    obtain ⟨d, -, rfl⟩ := h.lease r (mem_leasesOf.mp hr).1
    rw [LeaseRow.lapsed, Bool.and_eq_true] at hlapsed
    rw [check_deactivate hlapsed.1]
    rfl

theorem upsertViolation_eq_none (hcheck : s.event.row.check = true) (hnone : NoneLapsed s t)
    (hendpoint : EndpointFree s t) : upsertViolation s.event.row t = none := by
  have hsource : ((t.leases.filter fun r => r.address != s.event.row.address &&
      r.address.community == s.event.row.address.community).any fun r =>
        r.sourceEventId == s.event.row.sourceEventId) = false := by
    refine any_eq_false.mpr fun r hr hid => ?_
    obtain ⟨hr, hother⟩ := mem_filter.mp hr
    rw [Bool.and_eq_true, bne_iff_ne, beq_iff_eq] at hother
    exact hother.1 (congrArg LeaseRow.address
      (eq_row_of_source hfree h hsub hr hother.2 (beq_iff_eq.mp hid)))
  rw [upsertViolation, hcheck, Bool.not_true, if_neg Bool.false_ne_true, hsource,
    if_neg Bool.false_ne_true]
  refine if_neg fun hany => ?_
  obtain ⟨hactive, hany⟩ := Bool.and_eq_true_iff.mp hany
  obtain ⟨r, hr, hsame⟩ := any_eq_true.mp hany
  obtain ⟨hr, hother⟩ := mem_filter.mp hr
  rw [Bool.and_eq_true, bne_iff_ne, beq_iff_eq] at hother
  rw [Bool.and_eq_true, Bool.and_eq_true, beq_iff_eq] at hsame
  obtain ⟨⟨hractive, hauthor⟩, hsame⟩ := hsame
  have hmem : r ∈ othersInForce s t := by
    rw [← otherActive_eq hnone, otherActive, mem_filter, mem_leasesOf, Bool.and_eq_true,
      bne_iff_ne]
    refine ⟨⟨hr, hother.2, hauthor⟩, hractive, fun hinstallation => hother.1 ?_⟩
    show r.address = s.event.address
    calc r.address
        = ⟨r.address.community, r.address.author, r.address.installationId⟩ := rfl
      _ = s.event.address := by rw [hother.2, hauthor, hinstallation]; rfl
  exact absurd hsame (by rw [hendpoint hactive r hmem]; exact Bool.false_ne_true)

omit hfree h hsub in
theorem upsertViolation_ne_accepted {row : LeaseRow} :
    upsertViolation row t ≠ some .accepted := by
  rw [upsertViolation]
  split
  · exact nofun
  · split
    · exact nofun
    · split
      · exact nofun
      · exact nofun

omit hfree h hsub in
theorem stale_ne_accepted {v : LeaseVersion} {current : Option LeaseRow} :
    stale v current ≠ some .accepted := by
  cases current with
  | none => exact nofun
  | some r =>
    rw [stale]
    split
    · exact nofun
    · split
      · exact nofun
      · exact nofun

omit hfree h hsub in
theorem blocked_ne_accepted {e : LeaseEvent} :
    blocked maxActiveLeases e t ≠ some .accepted := by
  rw [blocked]
  split
  · exact nofun
  · split
    · exact nofun
    · split
      · exact nofun
      · exact nofun

omit hfree h hsub in
theorem backfillKeys_eq_nil {t : Tables} (hkind : ∀ v ∈ t.events, v.kind = kindPushLease)
    (community : CommunityId) (now : Int) : backfillKeys community now t = [] := by
  rw [backfillKeys, map_eq_nil_iff, filter_eq_nil_iff]
  intro v hv
  rw [hkind v hv]
  simp [pushKinds, kindPushLease]

omit hfree hsub in
theorem kind_of_mem_accept {createdAt now : Int} {v : EventRow}
    (hv : v ∈ (t.accept s.event createdAt now).events) : v.kind = kindPushLease := by
  obtain rfl | hv := mem_cons.mp hv
  · rfl
  · obtain ⟨u, hu, rfl⟩ := mem_map.mp hv
    obtain ⟨d, -, hof, -⟩ := h.event u hu
    split
    · exact hof.2.2.2.1
    · exact hof.2.2.2.1

/-- **Acceptance.** Run alone, the transaction accepts an event that is to be accepted when no
lease of the author has run out, and is rolled back otherwise. -/
theorem accept_cases :
    (Refuses (acceptLeaseEvent P maxActiveLeases s.event s.now) t ∧
      ¬(NoneLapsed s t ∧ Acceptable P maxActiveLeases s t)) ∨
    (NoneLapsed s t ∧ Acceptable P maxActiveLeases s t ∧
      ∃ createdAt, (acceptLeaseEvent P maxActiveLeases s.event s.now).exec t =
        (t.accept s.event createdAt s.now, true, .lease .accepted)) := by
  simp only [Refuses, exec_acceptLeaseEvent, acceptUnderLock, Txn.exec_read]
  cases hbound : t.leaseOfSource s.event.address.community s.event.version.sourceEventId with
  | some row =>
    refine .inl ⟨⟨_, rfl, ?_⟩, fun hacc => not_wins_of_leaseOfSource hfree h hsub hbound hacc.2.wins⟩
    split
    · exact nofun
    · exact nofun
  | none =>
  dsimp only
  rw [exec_selectForUpdate, acceptOrdered]
  cases hstale : stale s.event.version (t.lease s.event.address) with
  | some outcome =>
    refine .inl ⟨⟨_, rfl, fun h => ?_⟩, fun hacc => ?_⟩
    · obtain rfl := Reply.lease.inj h
      exact stale_ne_accepted hstale
    · rw [stale_eq_none_iff.mpr hacc.2.wins] at hstale
      nomatch hstale
  | none =>
  have hwins : Wins s.event t := stale_eq_none_iff.mp hstale
  rw [Txn.exec_read]
  by_cases hnone : NoneLapsed s t
  swap
  · rw [if_pos ((violates_iff h).mpr hnone)]
    exact .inl ⟨⟨_, rfl, nofun⟩, fun hacc => hnone hacc.1⟩
  have hempty : (t.leasesOf s.event.address).filter (LeaseRow.lapsed s.now) = [] := by
    refine filter_eq_nil_iff.mpr fun r hr => ?_
    rw [hnone r hr]
    exact Bool.false_ne_true
  rw [if_neg fun hviolates => (violates_iff h).mp hviolates hnone, Txn.exec_write, hempty,
    map_nil, deactivate_nil, Txn.exec_read]
  cases hblocked : blocked maxActiveLeases s.event t with
  | some outcome =>
    refine .inl ⟨⟨_, rfl, fun h => ?_⟩, fun hacc => ?_⟩
    · obtain rfl := Reply.lease.inj h
      exact blocked_ne_accepted hblocked
    · rw [(blocked_eq_none_iff hnone).mpr ⟨hacc.2.quota, hacc.2.endpoint⟩] at hblocked
      nomatch hblocked
  | none =>
  obtain ⟨hquota, hendpoint⟩ := (blocked_eq_none_iff hnone).mp hblocked
  rw [writeLease, Txn.exec_write]
  cases hcreated : P.fromTimestamp s.event.version.sourceCreatedAt with
  | none =>
    refine .inl ⟨⟨_, rfl, nofun⟩, fun hacc => ?_⟩
    have hsome := hacc.2.storable.2
    rw [hcreated] at hsome
    nomatch hsome
  | some createdAt =>
  rw [Txn.exec_read]
  split
  · next htaken =>
    refine .inl ⟨⟨_, rfl, nofun⟩, fun _ => ?_⟩
    obtain ⟨v, hv, hkey⟩ := any_eq_true.mp htaken
    obtain ⟨u, hu, rfl⟩ := mem_map.mp hv
    have hkey : u.key = (s.event.eventRow createdAt s.now).key := by
      rw [← beq_iff_eq.mp hkey]
      split
      · rfl
      · rfl
    exact not_wins_of_event hfree h hsub hu (congrArg (fun k => k.1) hkey)
      (congrArg (fun k => k.2.2) hkey) hwins
  rw [Txn.exec_write, Txn.exec_lock, Txn.exec_read]
  have hleases : ∀ t' : Tables, t'.leases = t.leases →
      upsertViolation s.event.row t' = upsertViolation s.event.row t := by
    intro t' heq
    rw [upsertViolation, upsertViolation, heq]
  rw [hleases (Tables.insertEvent (s.event.eventRow createdAt s.now)
    (t.deleteEvents s.event.address s.now
      ((t.events.filter (EventRow.isSource s.event.address)).map EventRow.key))) rfl]
  cases hviolation : upsertViolation s.event.row t with
  | some outcome =>
    refine .inl ⟨⟨_, rfl, fun h => ?_⟩, fun hacc => ?_⟩
    · obtain rfl := Reply.lease.inj h
      exact upsertViolation_ne_accepted hviolation
    · rw [upsertViolation_eq_none hfree h hsub hacc.2.storable.1 hnone hendpoint] at hviolation
      nomatch hviolation
  | none =>
    have hcheck : s.event.row.check = true := by
      cases hcheck : s.event.row.check with
      | true => rfl
      | false =>
        rw [upsertViolation, hcheck] at hviolation
        nomatch hviolation
    refine .inr ⟨hnone, ⟨⟨hcheck, ?_⟩, hwins, hquota, hendpoint⟩, createdAt, ?_⟩
    · rw [hcreated]
      rfl
    · rw [Txn.exec_write]
      split
      · show ((t.accept s.event createdAt s.now).enqueue
          (backfillKeys s.event.address.community s.now (t.accept s.event createdAt s.now)), true,
            Reply.lease AcceptLeaseOutcome.accepted) = _
        rw [backfillKeys_eq_nil fun v hv => kind_of_mem_accept h hv]
        rfl
      · rfl

end Alone

/-! ### The invariant is kept -/

theorem winsEvent_iff {v : LeaseVersion} :
    winsEvent v r = true ↔ r.sourceCreatedAt < v.sourceCreatedAt ∨
      v.sourceCreatedAt = r.sourceCreatedAt ∧ v.sourceEventId < r.sourceEventId := by
  simp [winsEvent]

theorem winsEvent_row_false {d : LeaseEvent} (hd : winsEvent d.version r = false)
    (he : winsEvent e.version r = true) : winsEvent d.version e.row = false := by
  refine Bool.eq_false_iff.mpr fun hwins => Bool.eq_false_iff.mp hd (winsEvent_iff.mpr ?_)
  have hcreated : e.row.sourceCreatedAt = e.version.sourceCreatedAt := rfl
  obtain hlt | ⟨heq, hid⟩ := winsEvent_iff.mp hwins
  · obtain hgt | ⟨heq', -⟩ := winsEvent_iff.mp he
    · exact .inl (by omega)
    · exact .inl (by omega)
  · obtain hgt | ⟨heq', hid'⟩ := winsEvent_iff.mp he
    · exact .inl (by omega)
    · exact .inr ⟨by omega, BitVec.lt_trans hid hid'⟩

theorem sameEndpoint_comm (r r' : LeaseRow) : r.sameEndpoint r' = r'.sameEndpoint r := by
  rw [LeaseRow.sameEndpoint, LeaseRow.sameEndpoint, BEq.comm,
    BEq.comm (a := r'.endpointHash)]

theorem address_ext {b : Address} (hcommunity : a.community = b.community)
    (hauthor : a.author = b.author) (hinstallation : a.installationId = b.installationId) :
    a = b := by
  cases a
  cases b
  simp only [Address.mk.injEq]
  exact ⟨hcommunity, hauthor, hinstallation⟩

theorem leases_accept (e : LeaseEvent) (createdAt now : Int) :
    (t.accept e createdAt now).leases =
      e.row :: t.leases.filter fun r => r.address != e.address := rfl

theorem lease_accept_self (e : LeaseEvent) (createdAt now : Int) :
    (t.accept e createdAt now).lease e.address = some e.row := by
  rw [Tables.lease, lookupKey, leases_accept]
  exact find?_cons_of_pos (beq_iff_eq.mpr rfl)

theorem lease_accept_of_ne (hne : a ≠ e.address) (createdAt now : Int) :
    (t.accept e createdAt now).lease a = t.lease a := by
  have hrow : ¬(e.row.address == a) = true := fun heq => hne (beq_iff_eq.mp heq).symm
  rw [Tables.lease, Tables.lease, lookupKey, lookupKey, leases_accept,
    find?_cons_of_neg (p := fun r : LeaseRow => r.address == a) hrow, find?_filter]
  congr 1
  funext r
  by_cases hr : r.address = a
  · simp [hr, hne]
  · simp [hr]

variable {v : EventRow}

theorem isSource_address (hof : v.Of e) (hsource : v.isSource a = true) : a = e.address := by
  simp only [EventRow.isSource, Bool.and_eq_true, beq_iff_eq] at hsource
  obtain ⟨⟨⟨⟨hcommunity, -⟩, hauthor⟩, htag⟩, -⟩ := hsource
  obtain ⟨hcommunity', -, hauthor', -, htag'⟩ := hof
  exact address_ext (hcommunity.symm.trans hcommunity') (hauthor.symm.trans hauthor')
    (Option.some.inj (htag.symm.trans htag'))

theorem isSource_unique {b : Address} (ha : v.isSource a = true) (hb : v.isSource b = true) :
    a = b := by
  simp only [EventRow.isSource, Bool.and_eq_true, beq_iff_eq] at ha hb
  exact address_ext (ha.1.1.1.1.symm.trans hb.1.1.1.1) (ha.1.1.2.symm.trans hb.1.1.2)
    (Option.some.inj (ha.1.2.symm.trans hb.1.2))

theorem isSource_of_deletedAt {now : Int} :
    ({ v with deletedAt := some now } : EventRow).isSource a = false := by
  simp [EventRow.isSource]

theorem liveEvents_deleteEvents_of_ne {b : Address} (hne : b ≠ a) (now : Int)
    (keys : List (CommunityId × Int × EventId)) :
    (t.deleteEvents a now keys).liveEvents b = t.liveEvents b := by
  rw [Tables.liveEvents, Tables.deleteEvents, filter_map]
  have hkeep : ∀ u ∈ t.events, (EventRow.isSource b ∘ fun r : EventRow =>
      if keys.contains r.key && r.isSource a then { r with deletedAt := some now } else r) u =
        u.isSource b := by
    intro u hu
    rw [Function.comp_apply]
    split
    · next hmem =>
      rw [isSource_of_deletedAt]
      refine (Bool.eq_false_iff.mpr fun hsource => ?_).symm
      exact hne (isSource_unique hsource (Bool.and_eq_true_iff.mp hmem).2)
    · rfl
  rw [filter_congr hkeep]
  have hid : ∀ u ∈ t.events.filter (EventRow.isSource b),
      (if keys.contains u.key && u.isSource a then { u with deletedAt := some now } else u) = u := by
    intro u hu
    obtain ⟨hu, hsource⟩ := mem_filter.mp hu
    exact if_neg fun hmem => hne (isSource_unique hsource (Bool.and_eq_true_iff.mp hmem).2)
  rw [map_congr_left hid, map_id', Tables.liveEvents]

theorem liveEvents_deleteEvents_self (a : Address) (now : Int) :
    (t.deleteEvents a now ((t.liveEvents a).map EventRow.key)).liveEvents a = [] := by
  refine filter_eq_nil_iff.mpr fun v hv hsource => ?_
  obtain ⟨u, hu, rfl⟩ := mem_map.mp hv
  split at hsource
  · rw [isSource_of_deletedAt] at hsource
    nomatch hsource
  · next hmem =>
    exact hmem (Bool.and_eq_true_iff.mpr ⟨contains_iff_mem.mpr
      (mem_map_of_mem (mem_filter.mpr ⟨hu, hsource⟩)), hsource⟩)

section Keep

variable {Submitted : LeaseEvent → Prop} (h : Sound Submitted maxActiveLeases t)

include h

theorem live_accept (createdAt now : Int) (e : LeaseEvent) (a : Address) :
    ((t.accept e createdAt now).liveEvents a).map EventRow.id =
      (((t.accept e createdAt now).lease a).map LeaseRow.sourceEventId).toList := by
  have hevents : (t.accept e createdAt now).liveEvents a =
      (if (e.eventRow createdAt now).isSource a then [e.eventRow createdAt now] else []) ++
        (t.deleteEvents e.address now ((t.liveEvents e.address).map EventRow.key)).liveEvents a := by
    rw [Tables.liveEvents, Tables.accept, filter_cons]
    split
    · rfl
    · rfl
  rw [hevents]
  by_cases ha : a = e.address
  · obtain rfl := ha
    have hsource : (e.eventRow createdAt now).isSource e.address = true := by
      simp [EventRow.isSource, LeaseEvent.eventRow]
    rw [lease_accept_self, if_pos hsource, liveEvents_deleteEvents_self]
    rfl
  · have hsource : ¬(e.eventRow createdAt now).isSource a = true := fun hsource =>
      ha (isSource_address (v := e.eventRow createdAt now) ⟨rfl, rfl, rfl, rfl, rfl⟩ hsource)
    rw [lease_accept_of_ne ha, if_neg hsource, nil_append,
      liveEvents_deleteEvents_of_ne ha]
    exact h.live a

omit h in
theorem mem_otherActive {r : LeaseRow} (hr : r ∈ t.leases) (hactive : r.active = true)
    (hne : r.address ≠ s.event.address)
    (hcommunity : r.address.community = s.event.address.community)
    (hauthor : r.address.author = s.event.address.author) :
    r ∈ otherActive s.event.address t := by
  rw [otherActive, mem_filter, mem_leasesOf, Bool.and_eq_true, bne_iff_ne]
  exact ⟨⟨hr, hcommunity, hauthor⟩, hactive,
    fun hinstallation => hne (address_ext hcommunity hauthor hinstallation)⟩

omit h in
theorem otherActive_eq_filter (a b : Address) (hcommunity : b.community = a.community)
    (hauthor : b.author = a.author) :
    (((t.leases.filter fun r => r.address != b).filter fun r =>
      r.address.community == a.community && r.address.author == a.author).filter
        LeaseRow.active) = otherActive b t := by
  rw [otherActive, Tables.leasesOf, filter_filter, filter_filter, filter_filter]
  refine filter_congr fun r _ => Bool.eq_iff_iff.mpr ?_
  simp only [Bool.and_eq_true, beq_iff_eq, bne_iff_ne, hcommunity, hauthor]
  constructor
  · rintro ⟨⟨hactive, hc, ha⟩, hne⟩
    refine ⟨⟨hactive, fun hinstallation => hne ?_⟩, hc, ha⟩
    exact address_ext (hc.trans hcommunity.symm) (ha.trans hauthor.symm) hinstallation
  · rintro ⟨⟨hactive, hne⟩, hc, ha⟩
    exact ⟨⟨hactive, hc, ha⟩, fun heq => hne (congrArg Address.installationId heq)⟩

theorem quota_accept (hnone : NoneLapsed s t) (hquota : WithinQuota maxActiveLeases s t)
    (createdAt : Int) (a : Address) :
    (((t.accept s.event createdAt s.now).leasesOf a).filter LeaseRow.active).length ≤
      maxActiveLeases := by
  have hold : (((t.leases.filter fun r => r.address != s.event.address).filter fun r =>
      r.address.community == a.community && r.address.author == a.author).filter
        LeaseRow.active).length ≤ maxActiveLeases :=
    Nat.le_trans (List.Sublist.length_le ((filter_sublist.filter _).filter _)) (h.quota a)
  rw [Tables.leasesOf, leases_accept, filter_cons]
  split
  · next hnear =>
    rw [filter_cons]
    split
    · next hactive =>
      obtain ⟨hcommunity, hauthor⟩ := Bool.and_eq_true_iff.mp hnear
      rw [length_cons, otherActive_eq_filter a s.event.address (beq_iff_eq.mp hcommunity)
        (beq_iff_eq.mp hauthor), otherActive_eq hnone]
      exact hquota hactive
    · exact hold
  · exact hold

omit h in
theorem endpoint_accept (hnone : NoneLapsed s t) (hendpoint : EndpointFree s t) {r : LeaseRow}
    (hr : r ∈ t.leases) (hactive : s.event.row.active = true) (hractive : r.active = true)
    (hne : r.address ≠ s.event.address)
    (hcommunity : r.address.community = s.event.address.community)
    (hauthor : r.address.author = s.event.address.author) :
    s.event.row.sameEndpoint r = false :=
  hendpoint hactive r (otherActive_eq hnone ▸ mem_otherActive hr hractive hne hcommunity hauthor)

theorem Sound.accept (hsub : Submitted s.event) (hnone : NoneLapsed s t)
    (hacc : Acceptable P maxActiveLeases s t) (createdAt : Int) :
    Sound Submitted maxActiveLeases (t.accept s.event createdAt s.now) := by
  have hmem : ∀ {r}, r ∈ (t.accept s.event createdAt s.now).leases →
      r = s.event.row ∨ r ∈ t.leases ∧ r.address ≠ s.event.address := by
    intro r hr
    obtain rfl | hr := mem_cons.mp hr
    · exact .inl rfl
    · rw [mem_filter, bne_iff_ne] at hr
      exact .inr hr
  refine ⟨?_, fun r hr => ?_, fun v hv => ?_, fun a => live_accept h createdAt s.now _ a,
    quota_accept h hnone hacc.quota createdAt, fun r hr r' hr' hactive hactive' hne hcommunity
      hauthor => ?_⟩
  · rw [leases_accept, map_cons, nodup_cons]
    refine ⟨fun hin => ?_, h.nodup.sublist (filter_sublist.map _)⟩
    obtain ⟨r, hr, heq⟩ := mem_map.mp hin
    rw [mem_filter, bne_iff_ne] at hr
    exact hr.2 heq
  · obtain rfl | ⟨hr, -⟩ := hmem hr
    · exact ⟨s.event, hsub, rfl⟩
    · exact h.lease r hr
  · obtain rfl | hv := mem_cons.mp hv
    · exact ⟨s.event, hsub, ⟨rfl, rfl, rfl, rfl, rfl⟩, s.event.row,
        lease_accept_self s.event createdAt s.now, not_winsEvent_row s.event⟩
    · obtain ⟨u, hu, rfl⟩ := mem_map.mp hv
      obtain ⟨d, hd, hof, r, hr, hloses⟩ := h.event u hu
      have hof' : (if ((t.liveEvents s.event.address).map EventRow.key).contains u.key &&
          u.isSource s.event.address then { u with deletedAt := some s.now } else u).Of d := by
        split
        · exact hof
        · exact hof
      by_cases ha : d.address = s.event.address
      · refine ⟨d, hd, hof', s.event.row, ?_, winsEvent_row_false hloses ?_⟩
        · rw [ha]
          exact lease_accept_self s.event createdAt s.now
        · exact (hacc.wins r (ha ▸ hr)).1
      · exact ⟨d, hd, hof', r, (lease_accept_of_ne ha createdAt s.now).trans hr, hloses⟩
  · obtain rfl | ⟨hr, hrne⟩ := hmem hr
    · obtain rfl | ⟨hr', hrne'⟩ := hmem hr'
      · exact absurd rfl hne
      · exact endpoint_accept hnone hacc.endpoint hr' hactive hactive' hrne' hcommunity.symm
          hauthor.symm
    · obtain rfl | ⟨hr', -⟩ := hmem hr'
      · rw [sameEndpoint_comm]
        exact endpoint_accept hnone hacc.endpoint hr hactive' hactive hrne hcommunity hauthor
      · exact h.endpoint r hr r' hr' hactive hactive' hne hcommunity hauthor

end Keep

end Buzz.Push
