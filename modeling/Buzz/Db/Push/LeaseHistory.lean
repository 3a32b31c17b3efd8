import Buzz.Db.Push.AcceptanceProtocol

/-!
# The history of a lease address

What concurrent acceptances make of an address: a chain of events that each win both orders against
the one before. The last one is the effective lease, and its event the one that is live.

An acceptance answers as it should unless a lease of the author is active and has run out. Then the
clean-up fails, and the author can neither renew nor revoke any lease.
-/

namespace Buzz.Push

open List

variable {P : Platform} {maxActiveLeases : Nat} {ι : Type} {submission : ι → Submission}

/-! ### What is claimed -/

/-- The events accepted for an address, the last one first. -/
def accepted (submission : ι → Submission) (w : World Tables ι LockKey Reply) (a : Address) :
    List LeaseEvent :=
  ((w.answers.filter fun answer => answer.result == .lease .accepted).map fun answer =>
    (submission answer.request).event).filter fun e => e.address == a

/-- The lease of each address is that of the last accepted event. -/
structure LeaseSafe (maxActiveLeases : Nat) (submission : ι → Submission)
    (w : World Tables ι LockKey Reply) : Prop where
  latest : ∀ a, w.db.lease a = (accepted submission w a).head?.map LeaseEvent.row
  ordered : ∀ a, (accepted submission w a).Pairwise fun later earlier =>
    winsEvent later.version earlier.row = true ∧
      earlier.version.generation < later.version.generation
  /-- The live event of an address is the source event of its effective lease. -/
  live : ∀ a, (w.db.liveEvents a).map EventRow.id =
    ((w.db.lease a).map LeaseRow.sourceEventId).toList
  quota : ∀ a, ((w.db.leasesOf a).filter LeaseRow.active).length ≤ maxActiveLeases
  endpoint : ∀ r ∈ w.db.leases, ∀ s ∈ w.db.leases, r.active = true → s.active = true →
    r.address ≠ s.address → r.address.community = s.address.community →
    r.address.author = s.address.author → r.sameEndpoint s = false

/-- An event is accepted exactly when it wins both orders and passes the checks, and nothing is
changed unless it is. -/
def Exact (P : Platform) (maxActiveLeases : Nat) (submission : ι → Submission)
    (w w' : World Tables ι LockKey Reply) : Prop :=
  (w'.answers = w.answers → w'.db = w.db) ∧
    ∀ i committed result, w'.answers = ⟨i, committed, result⟩ :: w.answers →
      (result = .lease .accepted ↔ Acceptable P maxActiveLeases (submission i) w.db) ∧
      (result ≠ .lease .accepted → w'.db = w.db)

/-- When a transaction finishes, no lease of its author has run out, or its event is not to be
accepted anyway. -/
def Spared (P : Platform) (maxActiveLeases : Nat) (submission : ι → Submission)
    (w w' : World Tables ι LockKey Reply) : Prop :=
  ∀ i committed result, w'.answers = ⟨i, committed, result⟩ :: w.answers →
    NoneLapsed (submission i) w.db ∨ ¬Acceptable P maxActiveLeases (submission i) w.db

/-! ### The order of acceptances -/

/-- The first event wins both orders against the second. -/
def Beats (later earlier : LeaseEvent) : Prop :=
  winsEvent later.version earlier.row = true ∧
    earlier.version.generation < later.version.generation

theorem Beats.trans {c d e : LeaseEvent} (hcd : Beats c d) (hde : Beats d e) : Beats c e := by
  refine ⟨?_, by have := hcd.2; have := hde.2; omega⟩
  have hc := winsEvent_iff.mp hcd.1
  have hd := winsEvent_iff.mp hde.1
  refine winsEvent_iff.mpr ?_
  have hrow : d.row.sourceCreatedAt = d.version.sourceCreatedAt := rfl
  obtain hc | ⟨hc, hcid⟩ := hc
  · obtain hd | ⟨hd, -⟩ := hd
    · exact .inl (by omega)
    · exact .inl (by omega)
  · obtain hd | ⟨hd, hdid⟩ := hd
    · exact .inl (by omega)
    · exact .inr ⟨by omega, BitVec.lt_trans hcid hdid⟩

theorem pairwise_cons_beats {e : LeaseEvent} {l : List LeaseEvent} (h : l.Pairwise Beats)
    (hhead : ∀ d, l.head? = some d → Beats e d) : (e :: l).Pairwise Beats := by
  refine pairwise_cons.mpr ⟨fun d hd => ?_, h⟩
  cases l with
  | nil => nomatch hd
  | cons c l =>
    obtain rfl | hd := mem_cons.mp hd
    · exact hhead d rfl
    · exact (hhead c rfl).trans ((pairwise_cons.mp h).1 d hd)

/-- The accepted events of an address, each winning over the one before. -/
structure History (submission : ι → Submission) (w : World Tables ι LockKey Reply) : Prop where
  latest : ∀ a, w.db.lease a = (accepted submission w a).head?.map LeaseEvent.row
  ordered : ∀ a, (accepted submission w a).Pairwise Beats

variable {w w' : World Tables ι LockKey Reply}

theorem History.refuse (h : History submission w) {answer : Answer ι Reply}
    (hresult : answer.result ≠ .lease .accepted) (hdb : w'.db = w.db)
    (hanswers : w'.answers = answer :: w.answers) : History submission w' := by
  have haccepted : ∀ a, accepted submission w' a = accepted submission w a := by
    intro a
    rw [accepted, accepted, hanswers, filter_cons, if_neg]
    exact fun heq => hresult (beq_iff_eq.mp heq)
  refine ⟨fun a => ?_, fun a => ?_⟩
  · rw [hdb, haccepted]
    exact h.latest a
  · rw [haccepted]
    exact h.ordered a

/-- An acceptance that wins is added to the history of its address. -/
theorem History.accept (h : History submission w) {i : ι} (hwins : Wins (submission i).event w.db)
    {createdAt : Int}
    (hdb : w'.db = w.db.accept (submission i).event createdAt (submission i).now)
    (hanswers : w'.answers = ⟨i, true, .lease .accepted⟩ :: w.answers) : History submission w' := by
  have haccepted : ∀ a, accepted submission w' a =
      if (submission i).event.address = a then (submission i).event :: accepted submission w a
      else accepted submission w a := by
    intro a
    rw [accepted, accepted, hanswers, filter_cons, if_pos (beq_self_eq_true _), map_cons,
      filter_cons]
    simp only [beq_iff_eq]
  refine ⟨fun a => ?_, fun a => ?_⟩
  · rw [hdb, haccepted]
    split
    · next ha =>
      rw [← ha, lease_accept_self]
      rfl
    · next ha =>
      rw [lease_accept_of_ne (Ne.symm ha)]
      exact h.latest a
  · rw [haccepted]
    split
    · next ha =>
      refine pairwise_cons_beats (h.ordered a) fun d hd => hwins d.row ?_
      rw [ha, h.latest, hd]
      rfl
    · exact h.ordered a

/-! ### Runs -/

/-- The invariant of the lease writers. -/
structure Inv (P : Platform) (maxActiveLeases : Nat) (submission : ι → Submission)
    (w : World Tables ι LockKey Reply) : Prop where
  serial : Serial (acceptance P maxActiveLeases submission)
    (Sound (Submitted submission) maxActiveLeases) w
  history : History submission w

variable (hfree : CollisionFree (Submitted submission))

include hfree

/-- A step keeps the invariant, and answers as it should exactly when it is spared. -/
theorem Inv.step (h : Inv P maxActiveLeases submission w) {a : SessionAction ι}
    (hs : (acceptances P maxActiveLeases submission).step w a = some w') :
    Inv P maxActiveLeases submission w' ∧
      (Exact P maxActiveLeases submission w w' ↔ Spared P maxActiveLeases submission w w') := by
  obtain ⟨hserial, ⟨hdb, hanswers⟩ | ⟨s, -, -, hdb, hanswers⟩⟩ := h.serial.step (isolated hfree) hs
  · have hne : ∀ answer, w'.answers ≠ answer :: w.answers := by
      intro answer heq
      rw [hanswers] at heq
      exact cons_ne_self answer w.answers heq.symm
    refine ⟨⟨hserial, ⟨fun a => ?_, fun a => ?_⟩⟩, iff_of_true ?_ ?_⟩
    · rw [hdb, accepted, hanswers]
      exact h.history.latest a
    · rw [accepted, hanswers]
      exact h.history.ordered a
    · exact ⟨fun _ => hdb, fun i committed result heq => absurd heq (hne _)⟩
    · exact fun i committed result heq => absurd heq (hne _)
  have hsame : ∀ {i committed result}, w'.answers = ⟨i, committed, result⟩ :: w.answers →
      i = s.request ∧
        ((acceptance P maxActiveLeases submission s.request).answer w.db).2 = result := by
    intro i committed result heq
    have hhead := (cons.inj (hanswers.symm.trans heq)).1
    exact ⟨(congrArg Answer.request hhead).symm, congrArg Answer.result hhead⟩
  have hne : w'.answers ≠ w.answers := by
    rw [hanswers]
    exact cons_ne_self _ _
  obtain ⟨heffect, -, hresult, hnot⟩ | ⟨hnone, hacc, hanswer, createdAt, heffect⟩ :=
    effect_cases (P := P) hfree h.serial.db s.request
  · rw [heffect] at hdb
    refine ⟨⟨hserial, h.history.refuse hresult hdb hanswers⟩, ?_, fun hspared => ?_⟩
    · rintro ⟨-, hexact⟩ i committed result heq
      obtain ⟨rfl, rfl⟩ := hsame heq
      exact .inr fun hacc => hresult ((hexact _ _ _ heq).1.mpr hacc)
    · refine ⟨fun heq => absurd heq hne, fun i committed result heq => ?_⟩
      obtain ⟨rfl, rfl⟩ := hsame heq
      refine ⟨⟨fun h => absurd h hresult, fun hacc => ?_⟩, fun _ => hdb⟩
      obtain hnone | hrefuse := hspared _ _ _ heq
      · exact absurd ⟨hnone, hacc⟩ hnot
      · exact absurd hacc hrefuse
  · rw [heffect] at hdb
    rw [hanswer] at hanswers hsame
    refine ⟨⟨hserial, h.history.accept hacc.wins hdb hanswers⟩, iff_of_true ?_ ?_⟩
    · refine ⟨fun heq => absurd heq hne, fun i committed result heq => ?_⟩
      obtain ⟨rfl, rfl⟩ := hsame heq
      exact ⟨iff_of_true rfl hacc, fun h => absurd rfl h⟩
    · intro i committed result heq
      obtain ⟨rfl, -⟩ := hsame heq
      exact .inl hnone

omit hfree in
theorem sound_of_empty {t : Tables} (hleases : t.leases = []) (hevents : t.events = []) :
    Sound (Submitted submission) maxActiveLeases t := by
  have hnone : ∀ r, r ∉ t.leases := fun r hr => nomatch (hleases ▸ hr)
  refine ⟨?_, fun r hr => absurd hr (hnone r), fun v hv => ?_, fun a => ?_, fun a => ?_,
    fun r hr => absurd hr (hnone r)⟩
  · rw [hleases]
    exact nodup_nil
  · nomatch (hevents ▸ hv)
  · rw [Tables.liveEvents, Tables.lease, hevents, hleases]
    rfl
  · rw [Tables.leasesOf, hleases]
    exact Nat.zero_le _

theorem inv_of_reachable (h : (acceptances P maxActiveLeases submission).Reachable w) :
    Inv P maxActiveLeases submission w := by
  refine h.invariant (fun w hw => ?_) fun w a w' _ hinv hs => (hinv.step hfree hs).1
  refine ⟨Serial.init (fun t ht => sound_of_empty ht.1 ht.2.1) hw, fun a => ?_, fun a => ?_⟩
  · rw [accepted, hw.2.2, Tables.lease, hw.1.1]
    rfl
  · rw [accepted, hw.2.2]
    exact List.Pairwise.nil

omit hfree in
theorem LeaseSafe.of_inv (h : Inv P maxActiveLeases submission w) :
    LeaseSafe maxActiveLeases submission w :=
  ⟨h.history.latest, h.history.ordered, h.serial.db.live, h.serial.db.quota,
    h.serial.db.endpoint⟩

/-- **Push leases never resurrect.** In every state of every run of concurrent acceptances, the
events accepted for an address each win both orders against the ones before, the last of them is the
effective lease and its event the live one, and quota and endpoints are respected. An event is
accepted exactly when it wins both orders and passes the checks, and nothing else is changed, exactly
when no lease of the author has run out or the event is not to be accepted anyway. -/
theorem lease_safety {w : World Tables ι LockKey Reply}
    (h : (acceptances P maxActiveLeases submission).Reachable w) :
    LeaseSafe maxActiveLeases submission w ∧
      ∀ a w', (acceptances P maxActiveLeases submission).step w a = some w' →
        (Exact P maxActiveLeases submission w w' ↔ Spared P maxActiveLeases submission w w') := by
  have hinv := inv_of_reachable hfree h
  exact ⟨LeaseSafe.of_inv hinv, fun a w' hs => (hinv.step hfree hs).2⟩

/-! ### A lease that has run out -/

omit hfree

def onePlatform : Platform where
  sha256 _ := 0
  hashtext _ := 0
  fromTimestamp seconds := some (seconds * 1000000)

/-- The lease of a phone, renewed once after it has run out. -/
def phone : Bool → Submission
  | false => ⟨⟨⟨1, 2, "phone"⟩, ⟨3, 1000, 1, 2000⟩,
      some ⟨"buzz-ios-production", 4, "grant", "default", .arr []⟩⟩, 1000000000⟩
  | true => ⟨⟨⟨1, 2, "phone"⟩, ⟨5, 3000, 2, 4000⟩,
      some ⟨"buzz-ios-production", 4, "grant", "default", .arr []⟩⟩, 3000000000⟩

theorem collisionFree_phone : CollisionFree (Submitted phone) := by
  rintro d e ⟨i, rfl⟩ ⟨j, rfl⟩ - hid
  cases i with
  | false =>
    cases j with
    | false => rfl
    | true => exact absurd hid (by decide)
  | true =>
    cases j with
    | false => exact absurd hid (by decide)
    | true => rfl

/-- The lease is accepted, and its renewal is about to answer. -/
def renewal : List (SessionAction Bool) :=
  .start 0 false :: replicate 16 (.step 0) ++ .start 1 true :: replicate 8 (.step 1)

def emptyWorld : World Tables Bool LockKey Reply := ⟨⟨[], [], []⟩, [], []⟩

/-- The renewal is to be accepted, and it is answered with a failed constraint. -/
def refusesRenewal (w : World Tables Bool LockKey Reply) : Bool :=
  w.db.leases == [(phone false).event.row] &&
    ((acceptances onePlatform 16 phone).step w (.step 1)).any fun w' =>
      w'.answers == ⟨true, false, .error .constraint⟩ :: w.answers

/-- The claim fails: a lease that has run out can not be renewed. -/
theorem not_exact_lapsedLease : ∃ w a w',
    (acceptances onePlatform 16 phone).Reachable w ∧
      (acceptances onePlatform 16 phone).step w a = some w' ∧
        ¬Exact onePlatform 16 phone w w' := by
  have hany : ((acceptances onePlatform 16 phone).run emptyWorld renewal).any refusesRenewal =
      true := by
    decide +kernel
  obtain ⟨w, hrun, hrefuses⟩ := (Option.any_eq_true _ _).mp hany
  obtain ⟨hleases, hstep⟩ := Bool.and_eq_true_iff.mp hrefuses
  obtain ⟨w', hstep, hanswers⟩ := (Option.any_eq_true _ _).mp hstep
  refine ⟨w, .step 1, w', ⟨emptyWorld, renewal, ⟨⟨rfl, rfl, rfl⟩, rfl, rfl⟩, hrun⟩, hstep,
    fun hexact => ?_⟩
  have hiff := ((hexact.2 true false (.error .constraint)) (beq_iff_eq.mp hanswers)).1
  refine absurd (hiff.mpr ?_) (by simp)
  replace hleases : w.db.leases = [(phone false).event.row] := beq_iff_eq.mp hleases
  have hothers : othersInForce (phone true) w.db = [] := by
    rw [othersInForce, otherActive, Tables.leasesOf, hleases]
    decide
  refine ⟨⟨by decide, rfl⟩, fun r hr => ?_, fun _ => ?_, fun _ r hr => ?_⟩
  · rw [Tables.lease, hleases] at hr
    obtain rfl := Option.some.inj hr
    decide
  · rw [hothers]
    decide
  · rw [hothers] at hr
    cases hr

/-- The lease of the phone, accepted. -/
theorem lease_safety_phone : ∃ w,
    (accepted phone w (phone false).event.address).length = 1 ∧
      LeaseSafe 16 phone w ∧
        ∀ a w', (acceptances onePlatform 16 phone).step w a = some w' →
          (Exact onePlatform 16 phone w w' ↔ Spared onePlatform 16 phone w w') := by
  have hany : ((acceptances onePlatform 16 phone).run emptyWorld renewal).any (fun w =>
      (accepted phone w (phone false).event.address).length == 1) = true := by
    decide +kernel
  obtain ⟨w, hrun, hlength⟩ := (Option.any_eq_true _ _).mp hany
  exact ⟨w, beq_iff_eq.mp hlength, lease_safety collisionFree_phone
    ⟨emptyWorld, renewal, ⟨⟨rfl, rfl, rfl⟩, rfl, rfl⟩, hrun⟩⟩

end Buzz.Push
