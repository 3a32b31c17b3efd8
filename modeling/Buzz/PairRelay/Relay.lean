import Buzz.PairRelay.Event
import Mathlib.Data.List.Nodup

/-!
# The state of the pair relay

The subscriptions, the ids seen, and the deliveries counted, each behind a lock of its own. Expired
entries are dropped whenever the structure is looked at. Instants are nanoseconds.
-/

namespace Buzz.PairRelay

open List

/-- Entries of `seen_ids` and `delivered` live this long: 300 seconds. -/
def entryTtl : Nat := 300 * 1000000000

/-- The dedup table rejects new events at this size. -/
def dedupCap : Nat := 1024

/-- Deliveries for one key before its budget is used up. -/
def maxDeliveredPerP : Nat := 12

/-- The delivery counters reject new keys at this size. -/
def deliveredMapCap : Nat := 4096

/-- A subscription of a connection. -/
structure Sub where
  connId : Nat
  subId : String
  pValue : Bytes32
  deriving DecidableEq

structure Delivered where
  pValue : Bytes32
  count : Nat
  lastAt : Nat

/-- The state that connections share. -/
structure Relay where
  subs : List Sub
  seenIds : List (Bytes32 × Nat)
  delivered : List Delivered

/-- `Vec::swap_remove`: the last element takes the place of the removed one. -/
def swapRemove {α : Type*} (l : List α) (i : Nat) : List α :=
  match l.getLast? with
  | none => []
  | some last => (l.set i last).dropLast

namespace Relay

variable (r : Relay)

def liveIds (now : Nat) : List (Bytes32 × Nat) :=
  r.seenIds.filter fun entry => decide (now - entry.2 < entryTtl)

/-- `reserve_id`: `ok true` for a duplicate, `ok false` when the id is reserved, and an error when
the table is full. -/
def reserveId (id : Bytes32) (now : Nat) : Relay × Except Unit Bool :=
  if (r.liveIds now).any fun entry => entry.1 == id then
    ({ r with seenIds := r.liveIds now }, .ok true)
  else if dedupCap ≤ (r.liveIds now).length then ({ r with seenIds := r.liveIds now }, .error ())
  else ({ r with seenIds := r.liveIds now ++ [(id, now)] }, .ok false)

def unreserveId (id : Bytes32) : Relay :=
  match r.seenIds.findIdx? fun entry => entry.1 == id with
  | none => r
  | some pos => { r with seenIds := swapRemove r.seenIds pos }

def liveDelivered (now : Nat) : List Delivered :=
  r.delivered.filter fun entry => decide (now - entry.lastAt < entryTtl)

/-- `deliver_single`, when `try_send` answers `sent`: the subscription that was written to, or
`none` when sending failed. -/
def deliverSingle (pValue : Bytes32) (sent : Bool) (now : Nat) :
    Relay × Except String (Option Sub) :=
  match r.subs.filter fun s => s.pValue == pValue with
  | [] => (r, .error "no live subscriber")
  | [sub] =>
    let live := r.liveDelivered now
    let count := ((live.find? fun entry => entry.pValue == pValue).map Delivered.count).getD 0
    if maxDeliveredPerP ≤ count then
      ({ r with delivered := live }, .error "recipient session budget exhausted")
    else if deliveredMapCap ≤ live.length ∧ ¬ live.any (fun entry => entry.pValue == pValue) then
      ({ r with delivered := live }, .error "relay at capacity")
    else if sent then
      ({ r with
        delivered := ⟨pValue, count + 1, now⟩ :: live.filter fun entry => entry.pValue != pValue },
        .ok (some sub))
    else ({ r with delivered := live }, .ok none)
  | _ => (r, .error "ambiguous recipient")

def addSub (sub : Sub) : Relay := { r with subs := r.subs ++ [sub] }

def removeSub (connId : Nat) : Relay :=
  { r with subs := r.subs.filter fun s => s.connId != connId }

end Relay

/-! ### The dedup table -/

theorem swapRemove_perm {α : Type*} (l : List α) {i : Nat} (hi : i < l.length) :
    (swapRemove l i).Perm (l.eraseIdx i) := by
  rcases eq_nil_or_concat l with rfl | ⟨init, last, rfl⟩
  · exact absurd hi (Nat.not_lt_zero i)
  rw [concat_eq_append] at hi ⊢
  rw [swapRemove, getLast?_concat]
  dsimp only
  by_cases hlt : i < init.length
  · rw [set_append_left _ _ hlt, dropLast_concat, eraseIdx_append_of_lt_length hlt,
      set_eq_take_append_cons_drop, if_pos hlt, eraseIdx_eq_take_drop_succ,
      append_assoc]
    exact (perm_append_singleton _ _).symm.append_left _
  · have hlen : i = init.length := by
      rw [length_append, length_singleton] at hi
      omega
    subst hlen
    rw [set_append_right _ _ (Nat.le_refl _), Nat.sub_self,
      eraseIdx_append_of_length_le (Nat.le_refl _), Nat.sub_self]
    simp

variable {r : Relay} {entry : Bytes32 × Nat}

theorem mem_liveIds {now : Nat} :
    entry ∈ r.liveIds now ↔ entry ∈ r.seenIds ∧ now - entry.2 < entryTtl := by
  simp [Relay.liveIds]

/-- What a reservation does: a duplicate, a full table, or a new entry for an id that has none. -/
theorem reserveId_cases (r : Relay) (id : Bytes32) (now : Nat) :
    r.reserveId id now = ({ r with seenIds := r.liveIds now }, .ok true) ∨
      r.reserveId id now = ({ r with seenIds := r.liveIds now }, .error ()) ∨
      (∀ entry ∈ r.liveIds now, entry.1 ≠ id) ∧
        r.reserveId id now = ({ r with seenIds := r.liveIds now ++ [(id, now)] }, .ok false) := by
  unfold Relay.reserveId
  split
  · exact .inl rfl
  · next hnone =>
    split
    · exact .inr (.inl rfl)
    · refine .inr (.inr ⟨fun entry hentry heq => hnone ?_, rfl⟩)
      exact any_eq_true.mpr ⟨entry, hentry, beq_iff_eq.mpr heq⟩

theorem deliverSingle_seenIds (r : Relay) (pValue : Bytes32) (sent : Bool) (now : Nat) :
    (r.deliverSingle pValue sent now).1.seenIds = r.seenIds := by
  unfold Relay.deliverSingle
  split
  · rfl
  · dsimp only
    split
    · rfl
    split
    · rfl
    split <;> rfl
  · rfl

theorem deliverSingle_snd (r : Relay) (seenIds : List (Bytes32 × Nat)) (pValue : Bytes32)
    (sent : Bool) (now : Nat) : ({ r with seenIds := seenIds }.deliverSingle pValue sent now).2 =
      (r.deliverSingle pValue sent now).2 := by
  unfold Relay.deliverSingle Relay.liveDelivered
  dsimp only
  split
  · rfl
  · split
    · rfl
    split
    · rfl
    split <;> rfl
  · rfl

variable {id : Bytes32}

theorem mem_unreserveId_of_ne (h : entry ∈ r.seenIds) (hne : entry.1 ≠ id) :
    entry ∈ (r.unreserveId id).seenIds := by
  unfold Relay.unreserveId
  split
  · exact h
  · next pos hpos =>
    obtain ⟨hlt, hid, -⟩ := findIdx?_eq_some_iff_getElem.mp hpos
    refine (swapRemove_perm _ hlt).mem_iff.mpr ?_
    obtain ⟨i, hi, rfl⟩ := mem_iff_getElem.mp h
    refine mem_eraseIdx_iff_getElem.mpr ⟨i, hi, ?_, rfl⟩
    rintro rfl
    exact hne (beq_iff_eq.mp hid)

theorem mem_of_mem_unreserveId (h : entry ∈ (r.unreserveId id).seenIds) : entry ∈ r.seenIds := by
  unfold Relay.unreserveId at h
  split at h
  · exact h
  · next pos hpos =>
    obtain ⟨hlt, -, -⟩ := findIdx?_eq_some_iff_getElem.mp hpos
    exact mem_of_mem_eraseIdx ((swapRemove_perm _ hlt).mem_iff.mp h)

/-- The ids of the table stay distinct when one is released, and that one is gone. -/
theorem nodup_unreserveId (h : (r.seenIds.map Prod.fst).Nodup) :
    ((r.unreserveId id).seenIds.map Prod.fst).Nodup ∧
      ∀ entry ∈ (r.unreserveId id).seenIds, entry.1 ≠ id := by
  unfold Relay.unreserveId
  split
  · next hnone =>
    refine ⟨h, fun entry hentry heq => ?_⟩
    exact absurd (beq_iff_eq.mpr heq)
      (Bool.not_eq_true _ ▸ findIdx?_eq_none_iff.mp hnone entry hentry)
  · next pos hpos =>
    obtain ⟨hlt, hid, -⟩ := findIdx?_eq_some_iff_getElem.mp hpos
    have hperm := swapRemove_perm r.seenIds hlt
    refine ⟨(hperm.map Prod.fst).nodup_iff.mpr ?_, fun entry hentry heq => ?_⟩
    · exact h.sublist ((eraseIdx_sublist _ _).map Prod.fst)
    · obtain ⟨i, hi, hne, rfl⟩ := mem_eraseIdx_iff_getElem.mp (hperm.mem_iff.mp hentry)
      have hi' : i < (r.seenIds.map Prod.fst).length := by rwa [length_map]
      have hlt' : pos < (r.seenIds.map Prod.fst).length := by rwa [length_map]
      have hsame : (r.seenIds.map Prod.fst)[i] = (r.seenIds.map Prod.fst)[pos] := by
        rw [getElem_map, getElem_map, heq, beq_iff_eq.mp hid]
      exact hne ((h.getElem_inj_iff).mp hsame)

end Buzz.PairRelay
