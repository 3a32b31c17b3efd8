import Buzz.Db.Push.Wake
import Buzz.Lib.InsertIgnore

/-!
# Wakes enqueued together

`enqueue_wakes` enqueues the wakes of many requests in one transaction: one statement reads the
leases, one inserts the jobs, and one looks up the jobs that were there. `enqueue_wake` is the same
for one request.

A request comes with the id that is drawn for its job. The rows of the insertion are taken in the
order of its arrays. The order in which the lease rows are locked is left out, and so is which
statement fails: text with a zero character is not accepted, and a row that breaks a constraint is
not either.
-/

namespace Buzz.Push

open List Option

/-! ### Requests -/

/-- `WakeRequest`: one matcher-produced wake request inside a set-wise enqueue. -/
structure WakeRequest where
  author : List UInt8
  installationId : String
  leaseGeneration : Int
  eventId : List UInt8
  wakeClass : String
  expiresAt : Int

inductive EnqueueWakeOutcome where
  | enqueued (id : Uuid)
  | duplicate (id : Uuid)
  /-- No current active, unexpired lease matched the supplied generation. -/
  | inactiveLease
  deriving DecidableEq

inductive EnqueueError where
  | sqlx
  | invalidData (message : String)
  deriving DecidableEq

def WakeRequest.pair (r : WakeRequest) : List UInt8 × String := (r.author, r.installationId)

/-- The author and the installation of a lease. -/
def LeaseRow.pair (l : LeaseRow) : List UInt8 × String :=
  (keyBytes l.address.author, l.address.installationId)

/-- What `UNIQUE (community_id, endpoint_hash, event_id)` is about. -/
def WakeRow.dedupKey (r : WakeRow) : CommunityId × BitVec 256 × List UInt8 :=
  (r.community, r.endpointHash, bytesBE 32 r.eventId.toNat)

/-- A request with the hash of its endpoint and a fresh id. -/
structure Proposal where
  request : WakeRequest
  endpointHash : BitVec 256
  id : Uuid

/-- The key that maps a row back to its request. -/
def Proposal.dedupKey (community : CommunityId) (p : Proposal) :
    CommunityId × BitVec 256 × List UInt8 := (community, p.endpointHash, p.request.eventId)

/-- The new row, if it meets the `CHECK` constraints of `push_wake_outbox`. -/
def Proposal.row (community : CommunityId) (now : Int) (p : Proposal) : Option WakeRow :=
  if p.request.author.length = 32 ∧ p.request.eventId.length = 32 ∧ 0 < p.request.leaseGeneration ∧
      p.request.wakeClass ∈ ["silent", "default", "time_sensitive", "urgent"] then
    some
      { community := community
        id := p.id
        author := BitVec.ofNat 256 (ofBytesBE p.request.author)
        installationId := p.request.installationId
        leaseGeneration := p.request.leaseGeneration
        endpointHash := p.endpointHash
        eventId := BitVec.ofNat 256 (ofBytesBE p.request.eventId)
        wakeClass := p.request.wakeClass
        expiresAt := p.request.expiresAt
        state := .pending
        attempts := 0
        nextAttemptAt := now
        leaseUntil := none
        claimId := none
        createdAt := now }
  else none

def WakeRow.clash (outbox : List WakeRow) (r : WakeRow) : Bool := outbox.any fun s => s.key == r.key

/-! ### The transaction -/

section Transaction

variable (t : WakeTables) (community : CommunityId) (now : Int)

/-- The current lease rows of the requested addresses. -/
def currentLeases (requests : List WakeRequest) : List LeaseRow :=
  t.leases.filter fun l => l.address.community == community &&
    requests.any (fun r => r.pair == l.pair) && l.eligible now

/-- The statement on the leases fails: a text is not accepted, or a row has no endpoint. -/
def leasesFail (requests : List WakeRequest) : Bool :=
  requests.any (fun r => r.installationId.toList.contains '\x00') ||
    (currentLeases t community now requests).any fun l => l.endpointHash.isNone

/-- The endpoint of a request, whose generation has to be that of the lease. -/
def resolve (leases : List LeaseRow) (r : WakeRequest) : Option (BitVec 256) :=
  ((lookupKey LeaseRow.pair leases r.pair).filter fun l => l.generation == r.leaseGeneration).bind
    LeaseRow.endpointHash

def proposals (requests : List (WakeRequest × Uuid)) : List (Option Proposal) :=
  let leases := currentLeases t community now (requests.map Prod.fst)
  requests.map fun x => (resolve leases x.1).map fun hash => ⟨x.1, hash, x.2⟩

/-- The outcomes: of the requests with one key, the first one is told that its row was inserted. -/
def report (inserted jobs : List WakeRow) (reported : List (CommunityId × BitVec 256 × List UInt8)) :
    List (Option Proposal) → Except EnqueueError (List EnqueueWakeOutcome)
  | [] => .ok []
  | none :: rest => do
    let outcomes ← report inserted jobs reported rest
    return .inactiveLease :: outcomes
  | some p :: rest =>
    match lookupKey WakeRow.dedupKey jobs (p.dedupKey community) with
    | none => .error (.invalidData "wake enqueue resolved neither insert nor duplicate")
    | some job =>
      if (inserted.any fun r => r.dedupKey == p.dedupKey community) &&
          !reported.contains (p.dedupKey community) then do
        let outcomes ← report inserted jobs (p.dedupKey community :: reported) rest
        return .enqueued job.id :: outcomes
      else do
        let outcomes ← report inserted jobs reported rest
        return .duplicate job.id :: outcomes

/-- The jobs under the keys of the insertion: the new ones, and those that were there, which are
looked up when fewer rows came back than were put in. -/
def jobsOf (outbox inserted : List WakeRow) (proposed : List Proposal) : List WakeRow :=
  inserted ++ if inserted.length < proposed.length then
    outbox.filter fun r => proposed.any fun p => r.dedupKey == p.dedupKey community
  else []

def enqueueWakes (requests : List (WakeRequest × Uuid)) :
    Except EnqueueError (List EnqueueWakeOutcome) × WakeTables :=
  if requests = [] then (.ok [], t)
  else if leasesFail t community now (requests.map Prod.fst) then (.error .sqlx, t)
  else
    let resolved := proposals t community now requests
    let proposed := resolved.filterMap id
    match insertRows WakeRow.dedupKey (Proposal.row community now) WakeRow.clash t.outbox proposed with
    | none => (.error .sqlx, t)
    | some (outbox, inserted) =>
      (report community inserted (jobsOf community outbox inserted proposed) [] resolved,
        { t with outbox := outbox })

/-- `enqueue_wake`. The first outcome is expected to be there. -/
def enqueueWake (request : WakeRequest × Uuid) :
    Except EnqueueError (Option EnqueueWakeOutcome) × WakeTables :=
  let (outcomes, t) := enqueueWakes t community now [request]
  (outcomes.map head?, t)

end Transaction

def oneByOne (community : CommunityId) (now : Int) : WakeTables → List (WakeRequest × Uuid) →
    List (Except EnqueueError (Option EnqueueWakeOutcome)) × WakeTables
  | t, [] => ([], t)
  | t, request :: requests =>
    let (outcome, t') := enqueueWake t community now request
    let (outcomes, t'') := oneByOne community now t' requests
    (outcome :: outcomes, t'')

/-! ### One request -/

variable {t : WakeTables} {community : CommunityId} {now : Int}

variable {p : Proposal}

theorem dedupKey_of_row {r : WakeRow} (h : p.row community now = some r) :
    r.dedupKey = p.dedupKey community := by
  unfold Proposal.row at h
  split at h
  · next hchecks =>
    cases h
    obtain ⟨-, hlength, -, -⟩ := hchecks
    have hlt := ofBytesBE_lt p.request.eventId
    have hpow : 256 ^ 32 = 2 ^ 256 := by norm_num
    rw [hlength, hpow] at hlt
    have hbytes : bytesBE 32 (BitVec.ofNat 256 (ofBytesBE p.request.eventId)).toNat =
        p.request.eventId := by
      rw [BitVec.toNat_ofNat, Nat.mod_eq_of_lt hlt, ← hlength, bytesBE_ofBytesBE]
    rw [WakeRow.dedupKey, hbytes, Proposal.dedupKey]
  · cases h

theorem lookupKey_currentLeases {requests : List WakeRequest} {r : WakeRequest} (hr : r ∈ requests) :
    lookupKey LeaseRow.pair (currentLeases t community now requests) r.pair =
      lookupKey LeaseRow.pair (t.leases.filter fun l => l.address.community == community &&
        l.eligible now) r.pair := by
  have hsplit : currentLeases t community now requests =
      (t.leases.filter fun l => l.address.community == community && l.eligible now).filter
        fun l => requests.any fun r => r.pair == l.pair := by
    rw [List.filter_filter]
    refine filter_congr fun l _ => ?_
    rw [Bool.and_right_comm, Bool.and_comm]
  rw [hsplit]
  refine lookupKey_filter fun l _ hkey => any_eq_true.mpr ⟨r, hr, ?_⟩
  exact beq_iff_eq.mpr hkey.symm

def proposal (t : WakeTables) (community : CommunityId) (now : Int) (x : WakeRequest × Uuid) :
    Option Proposal :=
  (resolve (currentLeases t community now [x.1]) x.1).map fun hash => ⟨x.1, hash, x.2⟩

theorem proposals_eq (requests : List (WakeRequest × Uuid)) :
    proposals t community now requests = requests.map (proposal t community now) := by
  refine map_congr_left fun x hx => ?_
  rw [proposal, resolve, resolve, lookupKey_currentLeases (mem_map_of_mem hx),
    lookupKey_currentLeases (mem_singleton_self _)]

theorem leasesFail_eq (requests : List WakeRequest) :
    leasesFail t community now requests =
      requests.any fun r => leasesFail t community now [r] := by
  rw [Bool.eq_iff_iff]
  simp only [leasesFail, currentLeases, List.any_eq_true, Bool.or_eq_true, List.mem_filter,
    Bool.and_eq_true, List.mem_singleton]
  constructor
  · rintro (⟨r, hr, hzero⟩ | ⟨l, ⟨hl, ⟨hcomm, r, hr, hpair⟩, helig⟩, hnone⟩)
    · exact ⟨r, hr, .inl ⟨r, rfl, hzero⟩⟩
    · exact ⟨r, hr, .inr ⟨l, ⟨hl, ⟨hcomm, r, rfl, hpair⟩, helig⟩, hnone⟩⟩
  · rintro ⟨r, hr, ⟨_, rfl, hzero⟩ | ⟨l, ⟨hl, ⟨hcomm, _, rfl, hpair⟩, helig⟩, hnone⟩⟩
    · exact .inl ⟨_, hr, hzero⟩
    · exact .inr ⟨l, ⟨hl, ⟨hcomm, _, hr, hpair⟩, helig⟩, hnone⟩

abbrev insertJob (community : CommunityId) (now : Int) :=
  insertRow WakeRow.dedupKey (Proposal.row community now) WakeRow.clash

abbrev insertJobs (community : CommunityId) (now : Int) :=
  insertRows WakeRow.dedupKey (Proposal.row community now) WakeRow.clash

section Call

variable {x : WakeRequest × Uuid} {p : Proposal}

theorem enqueueWake_of_fail (h : leasesFail t community now [x.1] = true) :
    enqueueWake t community now x = (.error .sqlx, t) := by
  rw [enqueueWake, enqueueWakes, if_neg (cons_ne_nil _ _), map_singleton, if_pos h]
  rfl

theorem enqueueWake_inactive (h : leasesFail t community now [x.1] = false)
    (hp : proposal t community now x = none) :
    enqueueWake t community now x = (.ok (some .inactiveLease), t) := by
  rw [enqueueWake, enqueueWakes, if_neg (cons_ne_nil _ _), map_singleton,
    if_neg (Bool.eq_false_iff.mp h), proposals_eq, map_singleton, hp]
  rfl

theorem enqueueWake_refused (h : leasesFail t community now [x.1] = false)
    (hp : proposal t community now x = some p) (hrow : insertJob community now t.outbox p = none) :
    enqueueWake t community now x = (.error .sqlx, t) := by
  rw [enqueueWake, enqueueWakes, if_neg (cons_ne_nil _ _), map_singleton,
    if_neg (Bool.eq_false_iff.mp h), proposals_eq, map_singleton, hp]
  simp only [filterMap_cons, filterMap_nil, id, insertRows, hrow]
  rfl

theorem enqueueWake_placed (h : leasesFail t community now [x.1] = false)
    (hp : proposal t community now x = some p) {outbox new : List WakeRow}
    (hrow : insertJob community now t.outbox p = some (outbox, new)) :
    (∃ s, lookupKey WakeRow.dedupKey t.outbox (p.dedupKey community) = some s ∧ outbox = t.outbox ∧
      new = [] ∧ enqueueWake t community now x = (.ok (some (.duplicate s.id)), t)) ∨
    ∃ r, lookupKey WakeRow.dedupKey t.outbox (p.dedupKey community) = none ∧
      r.dedupKey = p.dedupKey community ∧ outbox = t.outbox ++ [r] ∧ new = [r] ∧
      enqueueWake t community now x =
        (.ok (some (.enqueued r.id)), { t with outbox := t.outbox ++ [r] }) := by
  obtain ⟨r, hr, hcases⟩ := insertRow_cases hrow
  have hkey := dedupKey_of_row hr
  rw [hkey] at hcases
  obtain ⟨s, hs, rfl, rfl⟩ | ⟨hnone, rfl, rfl⟩ := hcases
  · refine .inl ⟨s, hs, rfl, rfl, ?_⟩
    have hjobs : lookupKey WakeRow.dedupKey (jobsOf community t.outbox [] [p])
        (p.dedupKey community) = some s := by
      rw [jobsOf, if_pos (by simp), nil_append, lookupKey_filter, hs]
      intro a _ ha
      rw [any_cons, beq_iff_eq.mpr ha, Bool.true_or]
    rw [enqueueWake, enqueueWakes, if_neg (cons_ne_nil _ _), map_singleton,
      if_neg (Bool.eq_false_iff.mp h), proposals_eq, map_singleton, hp]
    simp only [filterMap_cons, filterMap_nil, id, insertRows, hrow, map_some,
      append_nil, report, hjobs]
    rfl
  · refine .inr ⟨r, hnone, hkey, rfl, rfl, ?_⟩
    have hjobs : lookupKey WakeRow.dedupKey (jobsOf community (t.outbox ++ [r]) [r] [p])
        (p.dedupKey community) = some r := by
      rw [jobsOf, singleton_append, lookupKey_cons, if_pos hkey]
    rw [enqueueWake, enqueueWakes, if_neg (cons_ne_nil _ _), map_singleton,
      if_neg (Bool.eq_false_iff.mp h), proposals_eq, map_singleton, hp]
    simp only [filterMap_cons, filterMap_nil, id, insertRows, hrow, map_some,
      append_nil, report, hjobs, any_cons, hkey, beq_self_eq_true, Bool.true_or,
      contains_nil, Bool.not_false, Bool.and_self, if_true]
    rfl

theorem enqueueWake_leases (t : WakeTables) (community : CommunityId) (now : Int)
    (x : WakeRequest × Uuid) :
    ∃ outbox, (enqueueWake t community now x).2 = { t with outbox := outbox } := by
  cases h : leasesFail t community now [x.1] with
  | true => exact ⟨t.outbox, by rw [enqueueWake_of_fail h]⟩
  | false =>
    cases hp : proposal t community now x with
    | none => exact ⟨t.outbox, by rw [enqueueWake_inactive h hp]⟩
    | some p =>
      cases hrow : insertJob community now t.outbox p with
      | none => exact ⟨t.outbox, by rw [enqueueWake_refused h hp hrow]⟩
      | some q =>
        obtain ⟨s, -, -, -, heq⟩ | ⟨r, -, -, -, -, heq⟩ := enqueueWake_placed h hp hrow
        · exact ⟨t.outbox, by rw [heq]⟩
        · exact ⟨_, congrArg Prod.snd heq⟩

end Call

/-! ### The requests in order -/

theorem proposal_outbox (outbox : List WakeRow) :
    proposal { t with outbox := outbox } community now = proposal t community now := rfl

theorem oneByOne_cons (x : WakeRequest × Uuid) (requests : List (WakeRequest × Uuid)) :
    oneByOne community now t (x :: requests) =
      ((enqueueWake t community now x).1 ::
          (oneByOne community now (enqueueWake t community now x).2 requests).1,
        (oneByOne community now (enqueueWake t community now x).2 requests).2) := rfl

variable {requests : List (WakeRequest × Uuid)} {x : WakeRequest × Uuid}

theorem mem_oneByOne_of_fail (hx : x ∈ requests) (h : leasesFail t community now [x.1] = true) :
    .error .sqlx ∈ (oneByOne community now t requests).1 := by
  induction requests generalizing t with
  | nil => nomatch hx
  | cons y requests ih =>
    obtain rfl | hx := mem_cons.mp hx
    · rw [oneByOne_cons, enqueueWake_of_fail h]
      exact mem_cons_self
    · obtain ⟨outbox, ho⟩ := enqueueWake_leases t community now y
      rw [oneByOne_cons, ho]
      exact mem_cons_of_mem _ (ih hx h)

theorem mem_oneByOne_of_refused (hfail : ∀ x ∈ requests, leasesFail t community now [x.1] = false)
    (h : insertJobs community now t.outbox
      ((requests.map (proposal t community now)).filterMap id) = none) :
    .error .sqlx ∈ (oneByOne community now t requests).1 := by
  induction requests generalizing t with
  | nil => cases h
  | cons x requests ih =>
    have hx := hfail x mem_cons_self
    have hrest := fun y hy => hfail y (mem_cons_of_mem x hy)
    cases hp : proposal t community now x with
    | none =>
      rw [map_cons, hp, filterMap_cons_none rfl] at h
      rw [oneByOne_cons, enqueueWake_inactive hx hp]
      exact mem_cons_of_mem _ (ih hrest h)
    | some p =>
      rw [map_cons, hp, filterMap_cons_some (f := id) (b := p) rfl, insertJobs, insertRows] at h
      cases hrow : insertJob community now t.outbox p with
      | none =>
        rw [oneByOne_cons, enqueueWake_refused hx hp hrow]
        exact mem_cons_self
      | some q =>
        obtain ⟨outbox, new⟩ := q
        rw [insertJob] at hrow
        rw [hrow] at h
        have hrows := map_eq_none_iff.mp h
        obtain ⟨s, -, rfl, -, heq⟩ | ⟨r, -, -, rfl, -, heq⟩ := enqueueWake_placed hx hp hrow
        · rw [oneByOne_cons, heq]
          exact mem_cons_of_mem _ (ih hrest hrows)
        · rw [oneByOne_cons, heq]
          exact mem_cons_of_mem _
            (ih (t := { t with outbox := t.outbox ++ [r] }) hrest hrows)

variable {reported : List (CommunityId × BitVec 256 × List UInt8)}

theorem inserted_iff_of_report {inserted outbox : List WakeRow} {r : WakeRow} {q : Proposal}
    (hkey : r.dedupKey = p.dedupKey community)
    (h : (inserted.any (fun r => r.dedupKey == q.dedupKey community) &&
        !reported.contains (q.dedupKey community)) = true ↔
      lookupKey WakeRow.dedupKey outbox (q.dedupKey community) = none) :
    (inserted.any (fun r => r.dedupKey == q.dedupKey community) &&
      !(p.dedupKey community :: reported).contains (q.dedupKey community)) = true ↔
        lookupKey WakeRow.dedupKey (outbox ++ [r]) (q.dedupKey community) = none := by
  rw [lookupKey, find?_append, or_eq_none_iff, ← lookupKey, ← lookupKey, lookupKey_cons,
    hkey, contains_cons]
  by_cases hpq : p.dedupKey community = q.dedupKey community
  · rw [hpq, beq_self_eq_true, Bool.true_or, Bool.not_true, Bool.and_false, if_pos rfl]
    exact ⟨fun hfalse => absurd hfalse Bool.false_ne_true, fun hnone => by cases hnone.2⟩
  · rw [if_neg hpq, beq_false_of_ne (Ne.symm hpq), Bool.false_or, h]
    exact ⟨fun hnone => ⟨hnone, rfl⟩, fun hnone => hnone.1⟩

/-- **The outcomes that are told afterwards are those of the requests in order.** What has been
reported are the keys that were inserted and are there by now. -/
theorem oneByOne_report {inserted jobs : List WakeRow} {outbox new : List WakeRow}
    (hfail : ∀ x ∈ requests, leasesFail t community now [x.1] = false)
    (h : insertJobs community now t.outbox
      ((requests.map (proposal t community now)).filterMap id) = some (outbox, new))
    (hjobs : ∀ x ∈ requests, ∀ p, proposal t community now x = some p →
      lookupKey WakeRow.dedupKey jobs (p.dedupKey community) =
        lookupKey WakeRow.dedupKey outbox (p.dedupKey community))
    (hinserted : ∀ x ∈ requests, ∀ p, proposal t community now x = some p →
      ((inserted.any (fun r => r.dedupKey == p.dedupKey community) &&
        !reported.contains (p.dedupKey community)) = true ↔
      lookupKey WakeRow.dedupKey t.outbox (p.dedupKey community) = none)) :
    ∃ outcomes, report community inserted jobs reported (requests.map (proposal t community now)) =
      .ok outcomes ∧
        oneByOne community now t requests =
          (outcomes.map fun o => .ok (some o), { t with outbox := outbox }) := by
  induction requests generalizing t new reported with
  | nil =>
    cases h
    exact ⟨[], rfl, rfl⟩
  | cons x requests ih =>
    have hx := hfail x mem_cons_self
    have hrest := fun y hy => hfail y (mem_cons_of_mem x hy)
    have hjobsRest := fun y hy => hjobs y (mem_cons_of_mem x hy)
    have hinsertedRest := fun y hy => hinserted y (mem_cons_of_mem x hy)
    cases hp : proposal t community now x with
    | none =>
      rw [map_cons, hp, filterMap_cons_none rfl] at h
      obtain ⟨outcomes, hreport, hseq⟩ := ih hrest h hjobsRest hinsertedRest
      refine ⟨.inactiveLease :: outcomes, ?_, ?_⟩
      · rw [map_cons, hp, report, hreport]
        rfl
      · rw [oneByOne_cons, enqueueWake_inactive hx hp]
        simp only [hseq, map_cons]
    | some p =>
      rw [map_cons, hp, filterMap_cons_some (f := id) (b := p) rfl] at h
      obtain ⟨mid, first, rest, hrow, hrows, -⟩ := insertRows_cons h
      have hjob := hjobs x mem_cons_self p hp
      have hins := hinserted x mem_cons_self p hp
      rw [map_cons, hp, report]
      obtain ⟨s, hs, rfl, -, heq⟩ | ⟨r, hnone, hkey, rfl, -, heq⟩ := enqueueWake_placed hx hp hrow
      · -- The key was there: its row is that of the outbox at the end.
        have hfound : lookupKey WakeRow.dedupKey jobs (p.dedupKey community) = some s := by
          rw [hjob, insertRows_append hrows, lookupKey, find?_append, ← lookupKey, hs,
            some_or]
        obtain ⟨outcomes, hreport, hseq⟩ := ih hrest hrows hjobsRest hinsertedRest
        rw [hs] at hins
        have hno := Bool.eq_false_iff.mpr fun hyes => by cases hins.mp hyes
        refine ⟨.duplicate s.id :: outcomes, ?_, ?_⟩
        · simp only [hfound, hno, hreport]
          rfl
        · rw [oneByOne_cons, heq]
          simp only [hseq, map_cons]
      · have hfound : lookupKey WakeRow.dedupKey jobs (p.dedupKey community) = some r := by
          rw [hjob, insertRows_append hrows, append_assoc, lookupKey, find?_append,
            ← lookupKey, hnone, none_or, singleton_append, ← lookupKey, lookupKey_cons,
            if_pos hkey]
        have hyes := hins.mpr hnone
        have hinsertedNext := fun y hy q hq =>
          inserted_iff_of_report hkey (hinsertedRest y hy q hq)
        obtain ⟨outcomes, hreport, hseq⟩ := ih (t := { t with outbox := t.outbox ++ [r] }) hrest
          hrows hjobsRest hinsertedNext
        refine ⟨.enqueued r.id :: outcomes, ?_, ?_⟩
        · rw [proposal_outbox] at hreport
          simp only [hfound, hyes, hreport, if_true]
          rfl
        · simp [oneByOne_cons, heq, hseq]

theorem mem_proposed (hx : x ∈ requests) (hp : proposal t community now x = some p) :
    p ∈ (requests.map (proposal t community now)).filterMap id :=
  mem_filterMap.mpr ⟨some p, mem_map.mpr ⟨x, hx, hp⟩, rfl⟩

section Statement

variable {outbox outbox' inserted : List WakeRow} {ps : List Proposal} {p : Proposal}
  (h : insertJobs community now outbox ps = some (outbox', inserted)) (hp : p ∈ ps)

include h hp

theorem row_of_insertJobs : ∃ r, p.row community now = some r := row_of_insertRows h hp

theorem lookupKey_after : ∃ s,
    lookupKey WakeRow.dedupKey outbox' (p.dedupKey community) = some s := by
  obtain ⟨r, hr⟩ := row_of_insertJobs h hp
  rw [← dedupKey_of_row hr]
  exact lookupKey_of_insertRows h hp hr

theorem inserted_iff :
    (inserted.any (fun r => r.dedupKey == p.dedupKey community) &&
      !([] : List (CommunityId × BitVec 256 × List UInt8)).contains (p.dedupKey community)) = true ↔
        lookupKey WakeRow.dedupKey outbox (p.dedupKey community) = none := by
  rw [List.contains_nil, Bool.not_false, Bool.and_true, List.any_eq_true]
  constructor
  · rintro ⟨r, hr, hkey⟩
    rw [← beq_iff_eq.mp hkey]
    exact key_of_returned h hr
  · intro hnone
    obtain ⟨s, hs⟩ := lookupKey_after h hp
    rw [insertRows_append h, lookupKey, find?_append, ← lookupKey, hnone, none_or] at hs
    obtain ⟨hmem, hkey⟩ := @mem_of_lookupKey _ _ _ WakeRow.dedupKey _ _ _ hs
    exact ⟨s, hmem, beq_iff_eq.mpr hkey⟩

theorem lookupKey_jobsOf :
    lookupKey WakeRow.dedupKey (jobsOf community outbox' inserted ps) (p.dedupKey community) =
      lookupKey WakeRow.dedupKey outbox' (p.dedupKey community) := by
  obtain ⟨r, hr⟩ := row_of_insertJobs h hp
  have hkey := dedupKey_of_row hr
  rw [jobsOf, lookupKey, find?_append, ← lookupKey, ← lookupKey]
  cases hfound : lookupKey WakeRow.dedupKey inserted (p.dedupKey community) with
  | some s =>
    obtain ⟨hs, hskey⟩ := mem_of_lookupKey hfound
    have hnone := key_of_returned h hs
    rw [hskey] at hnone
    rw [some_or, insertRows_append h, lookupKey, find?_append, ← lookupKey, ← lookupKey,
      hnone, none_or, hfound]
  | none =>
    have hlt := length_lt_of_skipped h hp hr (hkey ▸ hfound)
    rw [none_or, if_pos hlt]
    refine lookupKey_filter fun a _ ha => any_eq_true.mpr ⟨p, hp, ?_⟩
    exact beq_iff_eq.mpr ha

end Statement

/-- **Together, requests get what they get one by one.** The outcomes are the same, and the jobs. A
request that fails in its turn fails all of them, and the outbox stays as it is. -/
theorem enqueueWakes_oneByOne (t : WakeTables) (community : CommunityId) (now : Int)
    (requests : List (WakeRequest × Uuid)) :
    (∃ outcomes, enqueueWakes t community now requests =
        (.ok outcomes, (oneByOne community now t requests).2) ∧
      (oneByOne community now t requests).1 = outcomes.map fun o => .ok (some o)) ∨
    enqueueWakes t community now requests = (.error .sqlx, t) ∧
      .error .sqlx ∈ (oneByOne community now t requests).1 := by
  rw [enqueueWakes]
  by_cases hnil : requests = []
  · subst hnil
    exact .inl ⟨[], rfl, rfl⟩
  · rw [if_neg hnil]
    cases hfail : leasesFail t community now (requests.map Prod.fst) with
    | true =>
      rw [leasesFail_eq, List.any_map, List.any_eq_true] at hfail
      obtain ⟨x, hx, hxfail⟩ := hfail
      exact .inr ⟨rfl, mem_oneByOne_of_fail hx hxfail⟩
    | false =>
      have hfine : ∀ x ∈ requests, leasesFail t community now [x.1] = false := by
        rw [leasesFail_eq, List.any_map, List.any_eq_false] at hfail
        exact fun x hx => Bool.eq_false_iff.mpr (hfail x hx)
      rw [if_neg Bool.false_ne_true, proposals_eq]
      dsimp only
      cases hrows : insertJobs community now t.outbox
        ((requests.map (proposal t community now)).filterMap id) with
      | none =>
        rw [insertJobs] at hrows
        rw [hrows]
        exact .inr ⟨rfl, mem_oneByOne_of_refused hfine hrows⟩
      | some q =>
        obtain ⟨outbox, inserted⟩ := q
        obtain ⟨outcomes, hreport, hseq⟩ := oneByOne_report hfine hrows
          (fun x hx p hp => lookupKey_jobsOf hrows (mem_proposed hx hp))
          (fun x hx p hp => inserted_iff hrows (mem_proposed hx hp))
        rw [insertJobs] at hrows
        rw [hrows]
        dsimp only
        rw [hreport, hseq]
        exact .inl ⟨outcomes, rfl, rfl⟩

def phoneLease : LeaseRow where
  address := ⟨1, 7, "phone"⟩
  sourceEventId := 5
  sourceCreatedAt := 1
  generation := 1
  active := true
  endpointEnabled := true
  appProfile := some "buzz-ios-production"
  endpointHash := some 9
  endpointGrant := some "grant"
  maxClass := some "default"
  subscriptions := some (.arr [])
  expiresAt := 1000

def phoneRequest (eventId : EventId) (wakeClass : String) : WakeRequest where
  author := keyBytes 7
  installationId := "phone"
  leaseGeneration := 1
  eventId := bytesBE 32 eventId.toNat
  wakeClass := wakeClass
  expiresAt := 1000

/-- A class that the outbox does not know fails the other request with it. -/
theorem unknown_class_fails_all :
    (enqueueWakes ⟨[phoneLease], [], [], []⟩ 1 0
      [(phoneRequest 3 "default", 100), (phoneRequest 4 "loud", 101)]).1 = .error .sqlx ∧
    (enqueueWakes ⟨[phoneLease], [], [], []⟩ 1 0
      [(phoneRequest 3 "default", 100), (phoneRequest 4 "loud", 101)]).2.outbox = [] ∧
    (oneByOne 1 0 ⟨[phoneLease], [], [], []⟩
      [(phoneRequest 3 "default", 100), (phoneRequest 4 "loud", 101)]).1 =
        [.ok (some (.enqueued 100)), .error .sqlx] ∧
    (oneByOne 1 0 ⟨[phoneLease], [], [], []⟩
      [(phoneRequest 3 "default", 100), (phoneRequest 4 "loud", 101)]).2.outbox.length = 1 := by
  refine ⟨?_, ?_, ?_, ?_⟩
  · decide
  · decide
  · decide
  · decide

end Buzz.Push
