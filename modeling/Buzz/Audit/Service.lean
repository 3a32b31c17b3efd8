import Buzz.Audit.Entry
import Buzz.Lib.StateMachine
import Mathlib.Logic.Function.Basic

/-!
# The audit service

`log` takes the advisory lock of the community, reads the head of its chain and inserts the next
row in a transaction, and gives the lock back. Each of these is a statement of its own, so every one
of them is a step, and any number of sessions take their steps in any order. A session may also be
cut off: its task is dropped, and the connection goes back to the pool with the lock still held, or
its connection is lost, and with it the transaction and every lock.

Advisory locks belong to a session and count: a session that holds one may take it again. They are
kept here as the list of grants. Two communities whose names hash alike share a lock.
-/

namespace Buzz.Audit

variable (P : Platform)

/-! ### Reading the log -/

def rowsOf (community : CommunityId) (table : List AuditRow) : List AuditRow :=
  table.filter fun row => row.communityId == community

/-- `ORDER BY seq DESC LIMIT 1`. -/
def headOf (community : CommunityId) (table : List AuditRow) : Option (Int × Bytes) :=
  (((rowsOf community table).insertionSort fun a b => b.seq ≤ a.seq).head?).map fun row =>
    (row.seq, row.hash)

/-- The loop of `verify_chain`. -/
def verifyRows : Option Bytes → List AuditRow → Except AuditError Bool
  | _, [] => .ok true
  | expectedPrev, row :: rows => do
    let entry ← rowToAuditEntry row
    if expectedPrev.isSome ∧ entry.prevHash ≠ expectedPrev then
      .error (.chainViolation entry.seq)
    else if computeHash P entry ≠ entry.hash then .error (.hashMismatch entry.seq)
    else verifyRows (some entry.hash) rows

def verifyChain (table : List AuditRow) (community : CommunityId) (fromSeq toSeq : Int) :
    Except AuditError Bool :=
  let rows := (table.filter fun row =>
    row.communityId == community && (decide (fromSeq ≤ row.seq) && decide (row.seq ≤ toSeq))
    ).insertionSort fun a b => a.seq ≤ b.seq
  if rows.isEmpty then .ok false else verifyRows P none rows

/-! ### Writing to the log -/

def logTimestamp (now : Int) : Int := toStoragePrecision now

/-- The entry that `log_inner` builds after it has read the head. -/
def nextEntry (entry : NewAuditEntry) (head : Option (Int × Bytes)) (now : Int) : AuditEntry :=
  let unhashed : AuditEntry :=
    { communityId := entry.communityId
      seq := (head.elim 0 Prod.fst) + 1
      hash := []
      prevHash := head.map Prod.snd
      action := entry.action
      actorPubkey := entry.actorPubkey
      objectId := entry.objectId
      detail := entry.detail
      createdAt := logTimestamp now }
  { unhashed with hash := computeHash P unhashed }

/-- The constraints of `audit_log`: one row for each number, and one for each hash. -/
def insertable (table : List AuditRow) (row : AuditRow) : Bool :=
  (rowsOf row.communityId table).all fun other => other.seq != row.seq && other.hash != row.hash

/-- Where a call of `log` is. -/
inductive Phase where
  | idle
  | waiting (entry : NewAuditEntry)
  | locked (entry : NewAuditEntry)
  | read (entry : NewAuditEntry) (head : Option (Int × Bytes))
  | inserted (row : AuditRow)
  | ended (community : CommunityId)
  deriving DecidableEq

def Phase.community : Phase → Option CommunityId
  | .idle => none
  | .waiting entry => some entry.communityId
  | .locked entry => some entry.communityId
  | .read entry _ => some entry.communityId
  | .inserted row => some row.communityId
  | .ended community => some community

def Phase.holds : Phase → Bool
  | .idle => false
  | .waiting _ => false
  | _ => true

/-- The table, the locks granted, and the sessions. -/
structure World where
  table : List AuditRow
  grants : List (Nat × CommunityId)
  phase : Nat → Phase

/-- A step of a session. -/
inductive Action where
  | call (session : Nat) (entry : NewAuditEntry)
  | lock (session : Nat) (community : CommunityId)
  | readHead (session : Nat) (community : CommunityId)
  | insert (session : Nat) (community : CommunityId) (now : Int)
  | commit (session : Nat) (community : CommunityId)
  | fail (session : Nat) (community : CommunityId)
  | unlock (session : Nat) (community : CommunityId)
  | cancel (session : Nat) (community : CommunityId)
  | grantLate (session : Nat) (community : CommunityId)
  | disconnect (session : Nat)

/-- The community that a step is for. A lost connection is every community's. -/
def Action.community : Action → Option CommunityId
  | .call _ entry => some entry.communityId
  | .lock _ community => some community
  | .readHead _ community => some community
  | .insert _ community _ => some community
  | .commit _ community => some community
  | .fail _ community => some community
  | .unlock _ community => some community
  | .cancel _ community => some community
  | .grantLate _ community => some community
  | .disconnect _ => none

def lockKey (community : CommunityId) : Int := P.hashtext ("buzz_audit:" ++ community.toHyphenated)

/-- Can the session have the lock of the community? -/
def lockable (grants : List (Nat × CommunityId)) (session : Nat) (community : CommunityId) : Bool :=
  grants.all fun grant => lockKey P grant.2 != lockKey P community || grant.1 == session

namespace World

/-- The world after a session's step. -/
def setPhase (w : World) (session : Nat) (phase : Phase) : World :=
  { w with phase := Function.update w.phase session phase }

def step (w : World) : Action → Option World
  | .call session entry =>
    if w.phase session = .idle then some (w.setPhase session (.waiting entry)) else none
  | .lock session community =>
    match w.phase session with
    | .waiting entry =>
      if entry.communityId = community ∧ lockable P w.grants session community then
        some ({ w with grants := (session, community) :: w.grants }.setPhase session (.locked entry))
      else none
    | _ => none
  | .readHead session community =>
    match w.phase session with
    | .locked entry =>
      if entry.communityId = community then
        some (w.setPhase session (.read entry (headOf community w.table)))
      else none
    | _ => none
  | .insert session community now =>
    match w.phase session with
    | .read entry head =>
      let row := storeRow P (nextEntry P entry head now)
      if entry.communityId = community ∧ insertable w.table row then
        some (w.setPhase session (.inserted row))
      else none
    | _ => none
  | .commit session community =>
    match w.phase session with
    | .inserted row =>
      if row.communityId = community then
        some ({ w with table := w.table ++ [row] }.setPhase session (.ended community))
      else none
    | _ => none
  | .fail session community =>
    if (w.phase session).holds ∧ (w.phase session).community = some community then
      some (w.setPhase session (.ended community))
    else none
  | .unlock session community =>
    if w.phase session = .ended community then
      some ({ w with grants := w.grants.erase (session, community) }.setPhase session .idle)
    else none
  | .cancel session community =>
    if (w.phase session).community = some community then some (w.setPhase session .idle) else none
  | .grantLate session community =>
    if lockable P w.grants session community then
      some { w with grants := (session, community) :: w.grants }
    else none
  | .disconnect session =>
    some ({ w with grants := w.grants.filter fun grant => grant.1 != session }.setPhase session .idle)

end World

def auditService : StateMachine World Action where
  Init w := w = ⟨[], [], fun _ => .idle⟩
  step := World.step P

end Buzz.Audit
