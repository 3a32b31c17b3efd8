import Buzz.Db.Push.Acceptance

/-!
# Concurrent acceptances

`accept_lease_event` transactions of any authors and installations, in any interleaving. The lock of
the author keeps two acceptances of one author apart, and an acceptance reads and writes nothing but
its author's rows, so the transactions take effect one after another.
-/

namespace Buzz.Push

open List

/-! ### Lists, seen through a filter -/

section Filter

variable {β : Type} {l : List β} {p q : β → Bool} (h : ∀ x ∈ l, p x = true → q x = true)

include h

theorem filter_filter_of_imp : (l.filter q).filter p = l.filter p := by
  rw [filter_filter]
  refine filter_congr fun x hx => ?_
  cases hp : p x with
  | true => rw [h x hx hp]; rfl
  | false => rfl

theorem find?_filter_of_imp : (l.filter q).find? p = l.find? p := by
  rw [← head?_filter, ← head?_filter, filter_filter_of_imp h]

theorem any_filter_of_imp : (l.filter q).any p = l.any p := by
  rw [Bool.eq_iff_iff, any_eq_true, any_eq_true]
  constructor
  · rintro ⟨x, hx, hp⟩
    exact ⟨x, (mem_filter.mp hx).1, hp⟩
  · rintro ⟨x, hx, hp⟩
    exact ⟨x, mem_filter.mpr ⟨hx, h x hx hp⟩, hp⟩

end Filter

/-! ### What an acceptance finds -/

/-- The rows of `events` by an author. -/
def Tables.eventsOf (t : Tables) (a : Address) : List EventRow :=
  t.events.filter fun v => v.community == a.community && v.pubkey == a.author

/-- Rows with the event's id are its author's, and all events are lease events. -/
structure Own (e : LeaseEvent) (t : Tables) : Prop where
  lease : ∀ r ∈ t.leases, r.address.community = e.address.community →
    r.sourceEventId = e.version.sourceEventId → r.address.author = e.address.author
  event : ∀ v ∈ t.events, v.community = e.address.community →
    v.id = e.version.sourceEventId → v.pubkey = e.address.author
  kind : ∀ v ∈ t.events, v.kind = kindPushLease

/-- The event finds the same rows of its author. -/
structure Agree (e : LeaseEvent) (t t' : Tables) : Prop where
  leases : t.leasesOf e.address = t'.leasesOf e.address
  events : t.eventsOf e.address = t'.eventsOf e.address
  own : Own e t
  own' : Own e t'

section Seen

variable {e : LeaseEvent} {t : Tables}

theorem lease_eq_leasesOf (a : Address) :
    t.lease a = lookupKey LeaseRow.address (t.leasesOf a) a := by
  refine (find?_filter_of_imp fun r _ hr => ?_).symm
  rw [beq_iff_eq.mp hr, beq_self_eq_true, beq_self_eq_true]
  rfl

theorem leaseOfSource_eq_leasesOf (h : Own e t) :
    t.leaseOfSource e.address.community e.version.sourceEventId =
      (t.leasesOf e.address).find? fun r => r.address.community == e.address.community &&
        r.sourceEventId == e.version.sourceEventId := by
  refine (find?_filter_of_imp fun r hr hsource => ?_).symm
  rw [Bool.and_eq_true, beq_iff_eq, beq_iff_eq] at hsource ⊢
  exact ⟨hsource.1, h.lease r hr hsource.1 hsource.2⟩

theorem liveEvents_eq_eventsOf (a : Address) :
    t.liveEvents a = (t.eventsOf a).filter (EventRow.isSource a) := by
  refine (filter_filter_of_imp fun v _ hv => ?_).symm
  simp only [EventRow.isSource, Bool.and_eq_true] at hv
  rw [hv.1.1.1.1, hv.1.1.2]
  rfl

theorem taken_eq_eventsOf (h : Own e t) (createdAt now : Int) :
    (t.events.any fun v => v.key == (e.eventRow createdAt now).key) =
      (t.eventsOf e.address).any fun v => v.key == (e.eventRow createdAt now).key := by
  refine (any_filter_of_imp fun v hv hkey => ?_).symm
  have hcommunity : v.community = e.address.community :=
    congrArg (fun k => k.1) (beq_iff_eq.mp hkey)
  have hid : v.id = e.version.sourceEventId := congrArg (fun k => k.2.2) (beq_iff_eq.mp hkey)
  rw [Bool.and_eq_true, beq_iff_eq, beq_iff_eq]
  exact ⟨hcommunity, h.event v hv hcommunity hid⟩

theorem upsertViolation_eq_leasesOf (h : Own e t) :
    upsertViolation e.row t = upsertViolation e.row { t with leases := t.leasesOf e.address } := by
  let others := t.leases.filter fun r => r.address != e.row.address &&
    r.address.community == e.row.address.community
  have hcommute : ((t.leasesOf e.address).filter fun r => r.address != e.row.address &&
      r.address.community == e.row.address.community) =
      others.filter fun r => r.address.community == e.address.community &&
        r.address.author == e.address.author := by
    rw [Tables.leasesOf, filter_filter, filter_filter]
    exact filter_congr fun r _ => Bool.and_comm _ _
  have hsource : (others.filter fun r => r.address.community == e.address.community &&
      r.address.author == e.address.author).any (fun r => r.sourceEventId == e.row.sourceEventId) =
      others.any fun r => r.sourceEventId == e.row.sourceEventId := by
    refine any_filter_of_imp fun r hr hid => ?_
    rw [mem_filter, Bool.and_eq_true, beq_iff_eq] at hr
    rw [Bool.and_eq_true, beq_iff_eq, beq_iff_eq]
    exact ⟨hr.2.2, h.lease r hr.1 hr.2.2 (beq_iff_eq.mp hid)⟩
  have hendpoint : (others.filter fun r => r.address.community == e.address.community &&
      r.address.author == e.address.author).any (fun r =>
        r.active && r.address.author == e.row.address.author && e.row.sameEndpoint r) =
      others.any fun r =>
        r.active && r.address.author == e.row.address.author && e.row.sameEndpoint r := by
    refine any_filter_of_imp fun r hr hsame => ?_
    rw [mem_filter, Bool.and_eq_true] at hr
    rw [Bool.and_eq_true, Bool.and_eq_true] at hsame
    rw [Bool.and_eq_true]
    exact ⟨hr.2.2, hsame.1.2⟩
  rw [upsertViolation, upsertViolation, hcommute, hsource, hendpoint]

theorem leasesOf_map (f : LeaseRow → LeaseRow) (hf : ∀ r, (f r).address = r.address)
    (a : Address) : (t.leases.map f).filter (fun r => r.address.community == a.community &&
      r.address.author == a.author) = (t.leasesOf a).map f := by
  rw [filter_map, Tables.leasesOf]
  congr 1
  refine filter_congr fun r _ => ?_
  rw [Function.comp_apply, hf]

theorem eventsOf_map (f : EventRow → EventRow)
    (hf : ∀ v, (f v).community = v.community ∧ (f v).pubkey = v.pubkey) (a : Address) :
    (t.events.map f).filter (fun v => v.community == a.community && v.pubkey == a.author) =
      (t.eventsOf a).map f := by
  rw [filter_map, Tables.eventsOf]
  congr 1
  refine filter_congr fun v _ => ?_
  rw [Function.comp_apply, (hf v).1, (hf v).2]

end Seen

/-! ### Statements keep the agreement -/

variable {e : LeaseEvent} {t : Tables}

theorem Own.deactivate (h : Own e t) (keys : List Address) : Own e (t.deactivate keys) := by
  refine ⟨fun r hr hcommunity hid => ?_, h.event, h.kind⟩
  obtain ⟨u, hu, rfl⟩ := mem_map.mp hr
  have hsame : (if keys.contains u.address then u.deactivate else u).address = u.address ∧
      (if keys.contains u.address then u.deactivate else u).sourceEventId = u.sourceEventId := by
    split
    · exact ⟨rfl, rfl⟩
    · exact ⟨rfl, rfl⟩
  rw [hsame.1] at hcommunity ⊢
  exact h.lease u hu hcommunity (hsame.2.symm.trans hid)

theorem Own.deleteEvents (h : Own e t) (a : Address) (now : Int)
    (keys : List (CommunityId × Int × EventId)) : Own e (t.deleteEvents a now keys) := by
  have hsame : ∀ u : EventRow,
      (if keys.contains u.key && u.isSource a then { u with deletedAt := some now } else u) = u ∨
        (if keys.contains u.key && u.isSource a then { u with deletedAt := some now } else u) =
          { u with deletedAt := some now } := by
    intro u
    split
    · exact .inr rfl
    · exact .inl rfl
  refine ⟨h.lease, fun v hv hcommunity hid => ?_, fun v hv => ?_⟩
  · obtain ⟨u, hu, rfl⟩ := mem_map.mp hv
    obtain heq | heq := hsame u
    · rw [heq] at hcommunity hid ⊢
      exact h.event u hu hcommunity hid
    · rw [heq] at hcommunity hid ⊢
      exact h.event u hu hcommunity hid
  · obtain ⟨u, hu, rfl⟩ := mem_map.mp hv
    obtain heq | heq := hsame u
    · rw [heq]
      exact h.kind u hu
    · rw [heq]
      exact h.kind u hu

theorem Own.insertEvent (h : Own e t) (createdAt now : Int) :
    Own e (t.insertEvent (e.eventRow createdAt now)) := by
  refine ⟨h.lease, fun v hv hcommunity hid => ?_, fun v hv => ?_⟩
  · obtain rfl | hv := mem_cons.mp hv
    · rfl
    · exact h.event v hv hcommunity hid
  · obtain rfl | hv := mem_cons.mp hv
    · rfl
    · exact h.kind v hv

theorem Own.upsertLease (h : Own e t) : Own e (t.upsertLease e.row) := by
  refine ⟨fun r hr hcommunity hid => ?_, h.event, h.kind⟩
  obtain rfl | hr := mem_cons.mp hr
  · rfl
  · exact h.lease r (mem_filter.mp hr).1 hcommunity hid

namespace Agree

variable {e : LeaseEvent} {t t' : Tables} (h : Agree e t t')

include h

theorem lease_eq : t.lease e.address = t'.lease e.address := by
  rw [lease_eq_leasesOf, lease_eq_leasesOf, h.leases]

theorem deactivate (keys : List Address) : Agree e (t.deactivate keys) (t'.deactivate keys) := by
  have hf : ∀ r : LeaseRow,
      (if keys.contains r.address then r.deactivate else r).address = r.address := by
    intro r
    split
    · rfl
    · rfl
  refine ⟨?_, h.events, h.own.deactivate keys, h.own'.deactivate keys⟩
  show filter _ (map _ _) = filter _ (map _ _)
  rw [leasesOf_map _ hf, leasesOf_map _ hf, h.leases]

theorem deleteEvents (a : Address) (now : Int) (keys : List (CommunityId × Int × EventId)) :
    Agree e (t.deleteEvents a now keys) (t'.deleteEvents a now keys) := by
  have hf : ∀ v : EventRow,
      (if keys.contains v.key && v.isSource a then { v with deletedAt := some now }
        else v).community = v.community ∧
      (if keys.contains v.key && v.isSource a then { v with deletedAt := some now }
        else v).pubkey = v.pubkey := by
    intro v
    split
    · exact ⟨rfl, rfl⟩
    · exact ⟨rfl, rfl⟩
  refine ⟨h.leases, ?_, h.own.deleteEvents a now keys, h.own'.deleteEvents a now keys⟩
  show filter _ (map _ _) = filter _ (map _ _)
  rw [eventsOf_map _ hf, eventsOf_map _ hf, h.events]

theorem insertEvent (createdAt now : Int) :
    Agree e (t.insertEvent (e.eventRow createdAt now))
      (t'.insertEvent (e.eventRow createdAt now)) := by
  refine ⟨h.leases, ?_, h.own.insertEvent createdAt now, h.own'.insertEvent createdAt now⟩
  show filter _ (_ :: _) = filter _ (_ :: _)
  rw [filter_cons, filter_cons]
  have hevents : filter _ _ = filter _ _ := h.events
  rw [hevents]

theorem upsertLease : Agree e (t.upsertLease e.row) (t'.upsertLease e.row) := by
  refine ⟨?_, h.events, h.own.upsertLease, h.own'.upsertLease⟩
  have hrest : ∀ u : Tables, ((u.leases.filter fun r => r.address != e.row.address).filter
      fun r => r.address.community == e.address.community &&
        r.address.author == e.address.author) =
      (u.leasesOf e.address).filter fun r => r.address != e.row.address := by
    intro u
    rw [Tables.leasesOf, filter_filter, filter_filter]
    exact filter_congr fun r _ => Bool.and_comm _ _
  show filter _ (_ :: _) = filter _ (_ :: _)
  rw [filter_cons, filter_cons, hrest, hrest, h.leases]

end Agree

/-! ### An acceptance does not tell such tables apart -/

variable {P : Platform} {maxActiveLeases : Nat}

variable {now : Int}

theorem alike_writeLease {t' : Tables} (h : Agree e t t') : (writeLease P e now).Alike t t' := by
  have hlive : t.liveEvents e.address = t'.liveEvents e.address := by
    rw [liveEvents_eq_eventsOf, liveEvents_eq_eventsOf, h.events]
  refine Txn.alike_write (congrArg (map EventRow.key) hlive) ?_
  have h := h.deleteEvents e.address now
    ((t.events.filter (EventRow.isSource e.address)).map EventRow.key)
  cases hcreated : P.fromTimestamp e.version.sourceCreatedAt with
  | none => trivial
  | some createdAt =>
  refine @Txn.alike_read _ _ _ _ (fun t : Tables => t.events.any fun r =>
    r.key == (e.eventRow createdAt now).key) _ _ _ ?_ ?_
  · rw [taken_eq_eventsOf h.own, taken_eq_eventsOf h.own', h.events]
  split
  · trivial
  refine Txn.alike_write rfl (Txn.alike_lock ?_)
  have h := h.insertEvent createdAt now
  refine Txn.alike_read ?_ ?_
  · rw [upsertViolation_eq_leasesOf h.own, upsertViolation_eq_leasesOf h.own', h.leases]
    rfl
  split
  · trivial
  refine Txn.alike_write rfl ?_
  have h := h.upsertLease
  split
  · refine Txn.alike_write ?_ trivial
    show backfillKeys _ _ _ = backfillKeys _ _ _
    rw [backfillKeys_eq_nil h.own.kind, backfillKeys_eq_nil h.own'.kind]
  · trivial

theorem alike_selectForUpdate {next : Option LeaseRow → PushTxn} {t' : Tables} (h : Agree e t t')
    (hnext : (next (t.lease e.address)).Alike t t') :
    (selectForUpdate e.address next).Alike t t' := by
  refine Txn.alike_read (by rw [h.lease_eq]) ?_
  split
  · exact Txn.alike_lock (Txn.alike_read h.lease_eq hnext)
  · next hnone =>
    rwa [Option.not_isSome_iff_eq_none.mp hnone] at hnext

theorem alike_acceptUnderLock {t' : Tables} (h : Agree e t t') :
    (acceptUnderLock P maxActiveLeases e now).Alike t t' := by
  refine Txn.alike_read ?_ ?_
  · rw [leaseOfSource_eq_leasesOf h.own, leaseOfSource_eq_leasesOf h.own', h.leases]
  split
  · trivial
  refine alike_selectForUpdate h ?_
  rw [acceptOrdered]
  split
  · trivial
  refine Txn.alike_read (by rw [h.leases]) ?_
  split
  · trivial
  refine Txn.alike_write (by rw [h.leases]) ?_
  have h := h.deactivate
    (((t.leasesOf e.address).filter (LeaseRow.lapsed now)).map LeaseRow.address)
  refine Txn.alike_read ?_ ?_
  · rw [blocked, blocked, otherActive, otherActive, h.leases]
  split
  · trivial
  exact alike_writeLease h

theorem alike_acceptLeaseEvent {t' : Tables} (h : Agree e t t') :
    (acceptLeaseEvent P maxActiveLeases e now).Alike t t' := by
  show Txn.Alike (ite _ _ _) t t'
  split
  · exact alike_acceptUnderLock h
  · exact alike_acceptUnderLock h

/-! ### Isolation -/

variable {ι : Type} (submission : ι → Submission)

def Submitted (e : LeaseEvent) : Prop := ∃ i, (submission i).event = e

variable (P maxActiveLeases)

/-- The transaction that accepts what is handed in. -/
def acceptance (i : ι) : PushTxn :=
  acceptLeaseEvent P maxActiveLeases (submission i).event (submission i).now

/-- Acceptances, in any interleaving, on empty tables. -/
def acceptances : StateMachine (World Tables ι LockKey Reply) (SessionAction ι) :=
  sessions (acceptance P maxActiveLeases submission) fun t =>
    t.leases = [] ∧ t.events = [] ∧ t.queue = []

variable {P maxActiveLeases submission}

theorem Sound.own (hfree : CollisionFree (Submitted submission))
    (h : Sound (Submitted submission) maxActiveLeases t) (i : ι) : Own (submission i).event t := by
  refine ⟨fun r hr hcommunity hid => ?_, fun v hv hcommunity hid => ?_, fun v hv => ?_⟩
  · obtain ⟨d, hd, rfl⟩ := h.lease r hr
    rw [hfree d _ hd ⟨i, rfl⟩ hcommunity hid]
    rfl
  · obtain ⟨d, hd, hof, -⟩ := h.event v hv
    rw [hof.2.2.1, hfree d _ hd ⟨i, rfl⟩ (hof.1.symm.trans hcommunity) (hof.2.1.symm.trans hid)]
  · obtain ⟨d, -, hof, -⟩ := h.event v hv
    exact hof.2.2.2.1

/-- The addresses are those of two authors. -/
def Foreign (a b : Address) : Prop := ¬(b.community = a.community ∧ b.author = a.author)

variable {a : Address}

theorem leasesOf_accept_of_foreign (hforeign : Foreign a e.address) (createdAt now : Int) :
    (t.accept e createdAt now).leasesOf a = t.leasesOf a := by
  have hrow : ¬(e.row.address.community == a.community && e.row.address.author == a.author) =
      true := by
    rwa [Bool.and_eq_true, beq_iff_eq, beq_iff_eq]
  rw [Tables.leasesOf, Tables.leasesOf, leases_accept, filter_cons, if_neg hrow]
  refine filter_filter_of_imp fun r _ hr => bne_iff_ne.mpr fun heq => hforeign ?_
  rw [Bool.and_eq_true, beq_iff_eq, beq_iff_eq, heq] at hr
  exact hr

theorem eventsOf_accept_of_foreign (hforeign : Foreign a e.address) (createdAt now : Int) :
    (t.accept e createdAt now).eventsOf a = t.eventsOf a := by
  have hrow : ¬((e.eventRow createdAt now).community == a.community &&
      (e.eventRow createdAt now).pubkey == a.author) = true := by
    rwa [Bool.and_eq_true, beq_iff_eq, beq_iff_eq]
  have hevents : (t.accept e createdAt now).events = e.eventRow createdAt now ::
      t.events.map fun v => if ((t.liveEvents e.address).map EventRow.key).contains v.key &&
        v.isSource e.address then { v with deletedAt := some now } else v := rfl
  rw [Tables.eventsOf, hevents, filter_cons, if_neg hrow, eventsOf_map]
  · refine (map_congr_left (g := id) fun v hv => ?_).trans (map_id _)
    rw [Tables.eventsOf, mem_filter, Bool.and_eq_true, beq_iff_eq, beq_iff_eq] at hv
    refine if_neg fun hmem => hforeign ?_
    have hsource := (Bool.and_eq_true_iff.mp hmem).2
    simp only [EventRow.isSource, Bool.and_eq_true, beq_iff_eq] at hsource
    exact ⟨hsource.1.1.1.1.symm.trans hv.2.1, hsource.1.1.2.symm.trans hv.2.2⟩
  · intro v
    split
    · exact ⟨rfl, rfl⟩
    · exact ⟨rfl, rfl⟩

theorem held_or_leads {u : Tables} {i : ι} {f : Frame Tables LockKey Reply}
    (h : Frame.Leads t (.start (acceptance P maxActiveLeases submission i)) f) :
    Frame.Leads u (.start (acceptance P maxActiveLeases submission i)) f ∧
      (∃ l p, f.todo = .lock l p) ∨
    ⟨authorLock P (submission i).event.address, .exclusive⟩ ∈ f.held := by
  obtain rfl | h := Frame.Leads.of_lock h
  · exact .inl ⟨.refl u _, _, _, rfl⟩
  obtain rfl | h := Frame.Leads.of_lock h
  · exact .inl ⟨⟨1, rfl⟩, _, _, rfl⟩
  · exact .inr (h.held_subset mem_cons_self)

theorem authorLock_eq {b : Address} (h : ¬Foreign a b) : authorLock P a = authorLock P b := by
  obtain ⟨hcommunity, hauthor⟩ := Classical.not_not.mp h
  rw [authorLock, authorLock, hcommunity, hauthor]

theorem effect_cases (hfree : CollisionFree (Submitted submission))
    (h : Sound (Submitted submission) maxActiveLeases t) (i : ι) :
    ((acceptance P maxActiveLeases submission i).effect t = t ∧
      ((acceptance P maxActiveLeases submission i).answer t).1 = false ∧
      ((acceptance P maxActiveLeases submission i).answer t).2 ≠ .lease .accepted ∧
      ¬(NoneLapsed (submission i) t ∧ Acceptable P maxActiveLeases (submission i) t)) ∨
    (NoneLapsed (submission i) t ∧ Acceptable P maxActiveLeases (submission i) t ∧
      (acceptance P maxActiveLeases submission i).answer t = (true, .lease .accepted) ∧
      ∃ createdAt, (acceptance P maxActiveLeases submission i).effect t =
        t.accept (submission i).event createdAt (submission i).now) := by
  obtain ⟨⟨reply, hexec, hreply⟩, hnot⟩ | ⟨hnone, hacc, createdAt, hexec⟩ :=
    accept_cases (P := P) (s := submission i) hfree h ⟨i, rfl⟩
  · refine .inl ⟨if_neg ?_, ?_, ?_, hnot⟩
    · rw [acceptance, hexec]
      exact Bool.false_ne_true
    · rw [Txn.answer, acceptance, hexec]
    · rwa [Txn.answer, acceptance, hexec]
  · refine .inr ⟨hnone, hacc, ?_, createdAt, ?_⟩
    · rw [Txn.answer, acceptance, hexec]
    · rw [Txn.effect, acceptance, hexec]
      exact if_pos rfl

/-- **Isolation of acceptances.** What an acceptance has read does not change before it finishes. -/
theorem isolated (hfree : CollisionFree (Submitted submission)) :
    Isolated (acceptance P maxActiveLeases submission)
      (Sound (Submitted submission) maxActiveLeases) := by
  have heffect : ∀ i t, Sound (Submitted submission) maxActiveLeases t →
      Sound (Submitted submission) maxActiveLeases
        ((acceptance P maxActiveLeases submission i).effect t) := by
    intro i t h
    obtain ⟨heq, -⟩ | ⟨hnone, hacc, -, createdAt, heq⟩ := effect_cases (P := P) hfree h i
    · rwa [heq]
    · rw [heq]
      exact h.accept ⟨i, rfl⟩ hnone hacc createdAt
  refine ⟨heffect, fun i j t f g h hf hg hcommit hconflict => ?_⟩
  obtain ⟨result, hcommit⟩ := hcommit
  obtain ⟨hf', -⟩ | hheld := held_or_leads (u := g.change t) hf
  · exact hf'
  obtain ⟨-, l, p, hlock⟩ | hheld' := held_or_leads (u := t) hg
  · exact absurd (hlock.symm.trans hcommit) nofun
  have hforeign : Foreign (submission i).event.address (submission j).event.address := by
    by_contra hsame
    exact hconflict _ hheld _ hheld' ⟨authorLock_eq hsame, .inl rfl⟩
  obtain ⟨hchange, hanswer⟩ := Txn.effect_of_commit hg hcommit
  have hsound := heffect j t h
  obtain ⟨-, hfalse, -⟩ | ⟨-, -, -, createdAt, heq⟩ := effect_cases (P := P) hfree h j
  · rw [hanswer] at hfalse
    exact absurd hfalse.symm Bool.false_ne_true
  · refine hf.congr ?_
    show (acceptance P maxActiveLeases submission i).Alike t (g.change t)
    rw [← hchange, heq]
    rw [heq] at hsound
    exact alike_acceptLeaseEvent ⟨(leasesOf_accept_of_foreign hforeign _ _).symm,
      (eventsOf_accept_of_foreign hforeign _ _).symm, h.own hfree i, hsound.own hfree i⟩

end Buzz.Push
