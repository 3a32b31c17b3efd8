import Buzz.PushGateway.AuthorityLocks

/-!
# The push gateway and its store

The handlers, the transport tasks and the reaper call the store from many connections. A run is given
by its calls; every call is made once. A transport task begins with a permit and ends with one call
of `finish_delivery`.
-/

namespace Buzz.PushGateway

/-- The calls that are made, by number. -/
structure Requests where
  call : Nat → Call
  /-- For a call of `finish_delivery`, the admission whose task makes it. -/
  admission : Nat → Nat

/-- An answer of the store. -/
abbrev StoreAnswer := Answer Nat Reply

abbrev Store := World Tables Nat LockKey Reply

namespace Requests

variable (q : Requests)

def operation (n : Nat) : Operation := (q.call n).operation

/-- The call ends the task of this admission. -/
def finishes (m n : Nat) : Bool :=
  match q.operation n with
  | .finishDelivery _ _ => q.admission n == m
  | _ => false

def begun (w : Store) : List Nat :=
  w.sessions.map Session.request ++ w.answers.map Answer.request

/-- A call may be made: once, and `finish_delivery` with the permit of its admission, once for an
admission. -/
def may (w : Store) (n : Nat) : Bool :=
  !(begun w).contains n &&
    match q.operation n with
    | .finishDelivery p _ =>
      w.answers.contains ⟨q.admission n, true, .permit p⟩ &&
        !(begun w).any (q.finishes (q.admission n))
    | _ => true

/-- An action of a connection may be taken. -/
def allows (w : Store) : SessionAction Nat → Bool
  | .start _ n => q.may w n
  | .step _ => true
  | .abort _ => true

/-- The ids of delegations and installations are drawn once. -/
structure Fresh : Prop where
  delegation : ∀ m n d e, q.operation m = .upsertDelegation d →
    q.operation n = .upsertDelegation e → d.id = e.id → m = n
  installation : ∀ m n i j, q.operation m = .createInstallation i →
    q.operation n = .createInstallation j → i.id = j.id → m = n

end Requests

variable (sha256 : BitVec 256 → BitVec 256) (q : Requests)

def gateway : StateMachine Store (SessionAction Nat) :=
  (sessions (fun n => (q.call n).txn sha256) fun t => t = .empty).guard
    fun w a => q.allows w a = true

variable {sha256 q}

variable {w : Store}

theorem begun_iff {n : Nat} : n ∈ Requests.begun w ↔ w.Begun n := by
  rw [Requests.begun, List.mem_append, List.mem_map, List.mem_map]
  rfl

theorem Requests.finishes_iff {m n : Nat} :
    q.finishes m n = true ↔ (∃ p d, q.operation n = .finishDelivery p d) ∧ q.admission n = m := by
  rw [Requests.finishes]
  split
  · next p d h => exact ⟨fun hm => ⟨⟨p, d, h⟩, beq_iff_eq.mp hm⟩, fun hm => beq_iff_eq.mpr hm.2⟩
  · next hne => exact ⟨fun h => absurd h Bool.false_ne_true, fun ⟨⟨p, d, h⟩, _⟩ => absurd h (hne p d)⟩

theorem Requests.may_iff {n : Nat} (h : q.may w n = true) :
    ¬w.Begun n ∧ ∀ p d, q.operation n = .finishDelivery p d →
      ⟨q.admission n, true, .permit p⟩ ∈ w.answers ∧
        ∀ m, w.Begun m → q.finishes (q.admission n) m = false := by
  rw [Requests.may, Bool.and_eq_true] at h
  refine ⟨fun hb => ?_, fun p d hop => ?_⟩
  · rw [List.contains_iff_mem.mpr (begun_iff.mpr hb)] at h
    exact absurd h.1 Bool.false_ne_true
  · have h' := h.2
    rw [hop, Bool.and_eq_true, Bool.not_eq_true', List.any_eq_false] at h'
    exact ⟨List.contains_iff_mem.mp h'.1, fun m hm => Bool.eq_false_iff.mpr (h'.2 m (begun_iff.mpr hm))⟩

/-- Where the ids of delegations were drawn for. -/
def Requests.Homes (q : Requests) (home : Uuid → DelegationKey) : Prop :=
  ∀ n d, q.operation n = .upsertDelegation d → home d.id = d.key

theorem Requests.Fresh.exists_home (h : q.Fresh) : ∃ home, q.Homes home := by
  have hkey : ∀ id, ∃ k, ∀ n d, q.operation n = .upsertDelegation d → d.id = id → d.key = k := by
    intro id
    by_cases hid : ∃ m e, q.operation m = .upsertDelegation e ∧ e.id = id
    · obtain ⟨m, e, he, rfl⟩ := hid
      refine ⟨e.key, fun n d hd heq => ?_⟩
      rw [h.delegation n m d e hd he heq, he] at hd
      rw [Operation.upsertDelegation.inj hd]
    · exact ⟨(id, 0), fun n d hd heq => absurd ⟨n, d, hd, heq⟩ hid⟩
  choose home hhome using hkey
  exact ⟨home, fun n d hd => (hhome d.id n d hd rfl).symm⟩

/-- The invariant of the store while its callers keep their protocol. -/
structure Serving (sha256 : BitVec 256 → BitVec 256) (q : Requests)
    (home : Uuid → DelegationKey) (w : Store) : Prop where
  standing : Standing cells (Sound home) Reply.IsRefusal (fun n => (q.call n).txn sha256) w
  replays : Replays (fun n => (q.call n).txn sha256) (fun t => t = .empty) Reply.IsRefusal
    w.answers w.db
  once : Once w
  admitted : ∀ n p d, w.Begun n → q.operation n = .finishDelivery p d →
    ⟨q.admission n, true, .permit p⟩ ∈ w.answers
  finished : ∀ m n k, w.Begun m → w.Begun n → q.finishes k m = true → q.finishes k n = true → m = n

variable {home : Uuid → DelegationKey}

theorem serving_guarded (hhome : q.Homes home) (n : Nat) :
    ((q.call n).txn sha256).Guarded cells (Sound home) Reply.IsRefusal [] := by
  refine Call.guarded sha256 ?_
  show (q.operation n).AtHome home
  cases hop : q.operation n with
  | upsertDelegation d => exact hhome n d hop
  | _ => trivial

theorem Serving.init (h : (gateway sha256 q).Init w) : Serving sha256 q home w := by
  have hinit : ∀ t : Tables, t = .empty → Sound home t := fun t ht => ht ▸ sound_empty home
  obtain ⟨hstanding, hreplays⟩ := Standing.init (C := cells) (R := Reply.IsRefusal) hinit h
  have hno : ∀ n, ¬w.Begun n := by
    rintro n (⟨s, hs, -⟩ | ⟨x, hx, -⟩)
    · nomatch (h.2.1 ▸ hs)
    · nomatch (h.2.2 ▸ hx)
  exact ⟨hstanding, hreplays, .init h.2.1 h.2.2, fun n _ _ hn => absurd hn (hno n),
    fun m _ _ hm => absurd hm (hno m)⟩

theorem Serving.step (hhome : q.Homes home) {w' : Store} {a : SessionAction Nat}
    (h : Serving sha256 q home w) (hallows : q.allows w a = true)
    (hs : w.step (fun n => (q.call n).txn sha256) a = some w') : Serving sha256 q home w' := by
  have hguarded : ∀ id n, a = .start id n →
      ((q.call n).txn sha256).Guarded cells (Sound home) Reply.IsRefusal [] :=
    fun _ n _ => serving_guarded hhome n
  have hmay : ∀ id n, a = .start id n → q.may w n = true := by
    rintro id n rfl
    exact hallows
  have hkept : w.answers ⊆ w'.answers := by
    obtain heq | ⟨x, heq⟩ := answers_step hs
    · rw [heq]
      exact List.Subset.refl _
    · rw [heq]
      exact List.subset_cons_self x w.answers
  refine ⟨(h.standing.step hguarded hs).1, h.standing.replays hguarded h.replays hs,
    h.once.step (fun id n ha => (Requests.may_iff (hmay id n ha)).1) hs, fun n p d hn hop => ?_,
    fun m n k hm hn hkm hkn => ?_⟩
  · obtain hn | ⟨id, ha⟩ := begun_step hs hn
    · exact hkept (h.admitted n p d hn hop)
    · exact hkept ((Requests.may_iff (hmay id n ha)).2 p d hop).1
  · have hnew : ∀ m n, w.Begun m → (∃ id, a = .start id n) → q.finishes k m = true →
        q.finishes k n = true → False := by
      rintro m n hm ⟨id, ha⟩ hkm hkn
      obtain ⟨⟨p, d, hop⟩, hk⟩ := Requests.finishes_iff.mp hkn
      have hnot := ((Requests.may_iff (hmay id n ha)).2 p d hop).2 m hm
      rw [hk, hkm] at hnot
      exact Bool.false_ne_true hnot.symm
    obtain hm | hm := begun_step hs hm
    · obtain hn | hn := begun_step hs hn
      · exact h.finished m n k hm hn hkm hkn
      · exact (hnew m n hm hn hkm hkn).elim
    · obtain hn | ⟨id', hn⟩ := begun_step hs hn
      · exact (hnew n m hn hm hkn hkm).elim
      · obtain ⟨id, hm⟩ := hm
        exact (SessionAction.start.inj (hm.symm.trans hn)).2

/-- **The calls are serial**, when ids are drawn once. -/
theorem Serving.of_reachable (hhome : q.Homes home) (h : (gateway sha256 q).Reachable w) :
    Serving sha256 q home w :=
  StateMachine.reachable_guard
    (M := sessions (fun n => (q.call n).txn sha256) fun t => t = .empty)
    (I := Serving sha256 q home) (fun _ hw => Serving.init hw)
    (fun _ _ _ hw hallows hs => hw.step hhome hallows hs) h

end Buzz.PushGateway
