import Buzz.Core.Basic
import Buzz.Core.Text
import Buzz.Lib.RowLocks
import Mathlib.Algebra.Order.Group.Int
import Mathlib.Data.List.MinMax
import Mathlib.Data.Prod.Lex

/-!
# Replaceable events

An author replaces an event by a later one of the same kind and with the same `d` tag. A transaction
takes a lock for the coordinate, compares the new version with the live one, retires that, and inserts.
A tombstone deletes the live version unless it is later. Versions of read state are also compared with
a watermark, which stays when a version is deleted.

The id of an event is the hash of the rest, so what an event says is a function of its id, and a table
is kept by coordinates. Row locks are those of a coordinate. The index of mentions is left out.
-/

namespace Buzz.Replaceable

open List
open Txn

/-- What an event says. -/
structure Content where
  pubkey : PublicKey
  createdAt : Timestamp
  kind : Kind
  tags : List (List String)

/-- The coordinate of a parameterized replaceable event. -/
structure Coordinate where
  community : CommunityId
  kind : Kind
  pubkey : PublicKey
  dTag : String
  deriving DecidableEq

/-- `event_replacement_lock_key`. -/
def eventReplacementLockKey (k : Coordinate) : UInt64 :=
  (bytesBE 16 k.community.toNat ++ (bytesBE 4 k.kind.toNat).reverse ++ bytesBE 32 k.pubkey.toNat ++
    utf8 k.dTag).foldl (fun hash byte => (hash ^^^ byte.toUInt64) * 0x100000001b3)
      0xcbf29ce484222325

def extractDTag (e : Content) : String :=
  ((e.tags.find? fun parts => parts.head? == some "d" && 2 ≤ parts.length).bind (·[1]?)).getD ""

def kindReadState : Kind := 30078

def kindBookmarkSet : Kind := 30003

def isNipRs (e : Content) : Bool :=
  e.kind == kindReadState && (e.tags.filter fun parts => parts.head? == some "d").length == 1 &&
    (e.tags.any fun parts => parts.take 2 == ["d", extractDTag e]) &&
    ((stripPrefix (extractDTag e) "read-state:").any fun slot =>
      slot.utf8ByteSize == 32 && slot.toList.all isLowerHex) &&
    (e.tags.filter fun parts => parts == ["t", "read-state"]).length == 1

def isBuzzMeshStatus (e : Content) : Bool :=
  e.kind == kindBookmarkSet && startsWith (extractDTag e) "buzz-mesh-member-status:" &&
    e.tags.any fun parts => parts == ["k", "buzz-mesh-status"]

/-! ### Tables -/

/-- The rows of a coordinate, live and deleted, and its watermark. -/
structure Slot where
  live : List EventId
  deleted : List EventId
  watermark : Option EventId

/-- The versions of every coordinate. -/
abbrev Tables := Coordinate → Slot

def Tables.change (k : Coordinate) (f : Slot → Slot) (t : Tables) : Tables :=
  Function.update t k (f (t k))

@[simp] theorem Tables.change_self (k : Coordinate) (f : Slot → Slot) (t : Tables) :
    t.change k f k = f (t k) := Function.update_self ..

theorem Tables.change_of_ne {k k' : Coordinate} (h : k' ≠ k) (f : Slot → Slot) (t : Tables) :
    t.change k f k' = t k' := Function.update_of_ne h ..

variable (content : EventId → Content)

/-- `created_at`, in seconds. -/
def secs (id : EventId) : Int := (content id).createdAt.toInt64.toInt

-- Mathlib also orders `ℤ` as a complete lattice, which is not computable.
abbrev intPreorder : Preorder ℤ := Int.instLinearOrder.toPreorder

attribute [local instance] intPreorder

/-- The order of versions: later ones, then lower ids. -/
def rank (id : EventId) : ℤ ×ₗ ℕᵒᵈ := toLex (secs content id, OrderDual.toDual id.toNat)

/-- A version that was accepted dominates this one. -/
def dominated (id accepted : EventId) : Bool :=
  secs content id < secs content accepted ||
    (secs content id == secs content accepted && accepted ≤ id)

def coordinate (community : CommunityId) (id : EventId) : Coordinate :=
  ⟨community, (content id).kind, (content id).pubkey, extractDTag (content id)⟩

namespace Slot

variable (s : Slot)

/-- `ORDER BY created_at DESC, id ASC LIMIT 1`. -/
def head : Option EventId := s.live.argmax (rank content)

/-- The watermark, if the version is one of read state. -/
def mark (id : EventId) : Option EventId := if isNipRs (content id) then s.watermark else none

/-- The `UPDATE` or `DELETE` of what there is to supersede. -/
def supersede (hard : Bool) (existing : Option EventId) : Slot :=
  if existing.isSome then
    { s with live := [], deleted := if hard then s.deleted else s.live ++ s.deleted }
  else s

/-- `ON CONFLICT DO NOTHING`. -/
def insert (id : EventId) : Slot :=
  if id ∈ s.live ++ s.deleted then s else { s with live := s.live ++ [id] }

/-- The `UPDATE` of a tombstone, whose snapshot shows these rows. -/
def bury (at_ : Int) (seen : List EventId) : Slot :=
  { s with
    live := s.live.filter fun id => ¬(secs content id ≤ at_ ∧ id ∈ seen)
    deleted := s.deleted ++ s.live.filter fun id => secs content id ≤ at_ ∧ id ∈ seen }

end Slot

/-! ### Transactions -/

inductive LockKey where
  | advisory (key : UInt64)
  | rows (k : Coordinate)
  deriving DecidableEq

inductive Outcome where
  | inserted
  | stale
  | duplicate
  | deleted (any : Bool)
  | invalidTimestamp
  deriving DecidableEq

abbrev HeadTxn := Txn Tables LockKey Outcome

abbrev coordinateLock (k : Coordinate) : Lock LockKey :=
  ⟨.advisory (eventReplacementLockKey k), .exclusive⟩

abbrev rowsLock (k : Coordinate) : Lock LockKey := ⟨.rows k, .exclusive⟩

def insertVersion (k : Coordinate) (id : EventId) : HeadTxn :=
  .query (fun _ => Tables.change k (·.insert id)) fun view =>
    if id ∈ (view k).live ++ (view k).deleted then .rollback .duplicate
    else if isNipRs (content id) then
      .query (fun _ => Tables.change k ({ · with watermark := some id })) fun _ => .commit .inserted
    else .commit .inserted

/-- What follows the check. -/
def install (k : Coordinate) (id : EventId) (existing : Option EventId) : HeadTxn :=
  let hard := isNipRs (content id) || isBuzzMeshStatus (content id)
  .lock (rowsLock k) <| .query (fun _ => Tables.change k (·.supersede hard existing)) fun _ =>
    insertVersion content k id

/-- The check, and what follows it. -/
def judge (k : Coordinate) (id : EventId) (existing : Option EventId) : HeadTxn :=
  .read (fun t => (t k).mark content id) fun watermark =>
    if existing.any (dominated content id) || watermark.any (dominated content id) then
      .rollback .stale
    else install content k id existing

def replaceParameterizedEvent (community : CommunityId) (id : EventId) : HeadTxn :=
  let k := coordinate content community id
  if !isUtcSecs (secs content id) then .rollback .invalidTimestamp
  else
    .lock (coordinateLock k) <| .read (fun t => (t k).head content) (judge content k id)

/-- The rows that the snapshot of the statement shows are given: it may be older than the lock. -/
def softDeleteByCoordinate (k : Coordinate) (deletionCreatedAtSecs : Int) (seen : List EventId) :
    HeadTxn :=
  if !isUtcSecs deletionCreatedAtSecs then .rollback .invalidTimestamp
  else
    .lock (rowsLock k) <|
      .query (fun _ => Tables.change k (·.bury content deletionCreatedAtSecs seen)) fun view =>
        .commit (.deleted ((view k).live.any fun id =>
          secs content id ≤ deletionCreatedAtSecs ∧ id ∈ seen))

inductive Request where
  | replace (community : CommunityId) (id : EventId)
  | delete (k : Coordinate) (deletionCreatedAtSecs : Int) (seen : List EventId)
  deriving DecidableEq

def transaction : Request → HeadTxn
  | .replace community id => replaceParameterizedEvent content community id
  | .delete k deletionCreatedAtSecs seen =>
    softDeleteByCoordinate content k deletionCreatedAtSecs seen

/-! ### Transactions are serial -/

/-- What tombstones make of the rows of a coordinate. -/
structure Aged (s t : Slot) : Prop where
  watermark : t.watermark = s.watermark
  live : t.live ⊆ s.live
  deleted : s.deleted ⊆ t.deleted
  rows : s.live ⊆ t.live ++ t.deleted

theorem Aged.refl (s : Slot) : Aged s s :=
  ⟨rfl, List.Subset.refl _, List.Subset.refl _, subset_append_left _ _⟩

theorem Aged.trans {s t u : Slot} (h : Aged s t) (h' : Aged t u) : Aged s u where
  watermark := h'.watermark.trans h.watermark
  live := List.Subset.trans h'.live h.live
  deleted := List.Subset.trans h.deleted h'.deleted
  rows id hid := by
    rcases mem_append.mp (h.rows hid) with hlive | hdeleted
    · exact h'.rows hlive
    · exact mem_append_right _ (h'.deleted hdeleted)

/-- A lock for a coordinate lets tombstones through, and a row lock nothing. -/
def cells : Cells Tables LockKey where
  Keeps
    | .advisory n, a, b => ∀ k, eventReplacementLockKey k = n → Aged (a k) (b k)
    | .rows k, a, b => b k = a k
  refl key t := by
    cases key with
    | advisory n => exact fun k _ => .refl (t k)
    | rows k => rfl
  trans {key a b c} hab hbc := by
    cases key with
    | advisory n => exact fun k hk => (hab k hk).trans (hbc k hk)
    | rows k => exact hbc.trans hab

variable {content} {k : Coordinate} {id : EventId} {held : List (Lock LockKey)} {f : Slot → Slot}
  {s t : Slot}

theorem local_change (hrows : rowsLock k ∈ held)
    (hlock : coordinateLock k ∈ held ∨ ∀ s, Aged s (f s))
    (hf : ∀ s t, Aged s t → Aged (f s) (f t)) : cells.Local held (Tables.change k f) where
  footprint key a hkey := by
    cases key with
    | advisory n =>
      intro k' hk'
      by_cases heq : k' = k
      · subst heq hk'
        rw [Tables.change_self]
        exact hlock.resolve_left hkey (a k')
      · rw [Tables.change_of_ne heq]
        exact .refl _
    | rows k' => exact Tables.change_of_ne (fun heq : k' = k => hkey (heq ▸ hrows)) f a
  congr key a b h := by
    cases key with
    | advisory n =>
      intro k' hk'
      by_cases heq : k' = k
      · rw [heq, Tables.change_self, Tables.change_self]
        exact hf _ _ (h k (heq ▸ hk'))
      · rw [Tables.change_of_ne heq, Tables.change_of_ne heq]
        exact h k' hk'
    | rows k' =>
      show b.change k f k' = a.change k f k'
      by_cases heq : k' = k
      · rw [heq, Tables.change_self, Tables.change_self, ← heq, show b k' = a k' from h]
      · rw [Tables.change_of_ne heq, Tables.change_of_ne heq, show b k' = a k' from h]

theorem Aged.supersede (h : Aged s t) (hard : Bool) (existing : Option EventId) :
    Aged (s.supersede hard existing) (t.supersede hard existing) := by
  cases existing with
  | none => exact h
  | some _ =>
    refine ⟨h.watermark, List.Subset.refl _, ?_, nil_subset _⟩
    cases hard with
    | true => exact h.deleted
    | false =>
      exact append_subset.mpr
        ⟨h.rows, List.Subset.trans h.deleted (subset_append_right _ _)⟩

theorem Aged.insert (h : Aged s t) (id : EventId) : Aged (s.insert id) (t.insert id) := by
  have hkept : id ∈ s.live ++ s.deleted → id ∈ t.live ++ t.deleted := fun hid =>
    (mem_append.mp hid).elim (fun hlive => h.rows hlive)
      fun hdeleted => mem_append_right _ (h.deleted hdeleted)
  rw [Slot.insert, Slot.insert]
  by_cases hs : id ∈ s.live ++ s.deleted
  · rwa [if_pos hs, if_pos (hkept hs)]
  · rw [if_neg hs]
    split
    · next ht =>
      exact ⟨h.watermark, subset_append_of_subset_left _ h.live, h.deleted,
        append_subset.mpr ⟨h.rows, cons_subset.mpr ⟨ht, nil_subset _⟩⟩⟩
    · refine ⟨h.watermark, fun x hx => ?_, h.deleted, fun x hx => ?_⟩
      · have hlive := @h.live x
        simp only [mem_append] at hx ⊢
        tauto
      · have hrows := @h.rows x
        simp only [mem_append] at hx hrows ⊢
        tauto

variable {at_ : Int} {seen : List EventId}

theorem Aged.bury (h : Aged s t) : Aged (s.bury content at_ seen) (t.bury content at_ seen) where
  watermark := h.watermark
  live := filter_subset _ h.live
  deleted x hx := by
    have hrows := @h.rows x
    have hdeleted := @h.deleted x
    simp only [Slot.bury, mem_append, mem_filter] at hx hrows ⊢
    tauto
  rows x hx := by
    have hrows := @h.rows x
    simp only [Slot.bury, mem_append, mem_filter] at hx hrows ⊢
    tauto

theorem aged_bury (s : Slot) : Aged s (s.bury content at_ seen) where
  watermark := rfl
  live := filter_sublist.subset
  deleted := subset_append_left _ _
  rows x hx := by
    simp only [Slot.bury, mem_append, mem_filter, decide_eq_true_eq]
    tauto

def Outcome.IsRefusal : Outcome → Prop
  | .stale | .duplicate | .invalidTimestamp => True
  | .inserted | .deleted _ => False

/-- Writes are under their locks, and refusals write nothing. -/
abbrev Guarded (held : List (Lock LockKey)) (p : HeadTxn) : Prop :=
  p.Guarded cells (fun _ => True) Outcome.IsRefusal held

theorem dominated_iff {x : EventId} :
    dominated content id x = true ↔ rank content id ≤ rank content x := by
  rw [rank, rank, Prod.Lex.toLex_le_toLex, dominated, Bool.or_eq_true, Bool.and_eq_true,
    decide_eq_true_iff, decide_eq_true_iff, beq_iff_eq]
  rfl

theorem le_head {x : EventId} (h : x ∈ s.live) :
    ∃ y ∈ s.head content, y ∈ s.live ∧ rank content x ≤ rank content y := by
  cases hhead : s.head content with
  | none =>
    rw [Slot.head, argmax_eq_none] at hhead
    rw [hhead] at h
    cases h
  | some y => exact ⟨y, rfl, argmax_mem hhead, le_of_mem_argmax h hhead⟩

theorem any_dominated {o : Option EventId} :
    o.any (dominated content id) = false ↔ ∀ x ∈ o, rank content x < rank content id := by
  simp only [← not_le, ← dominated_iff, Bool.not_eq_true]
  cases o with
  | none => simp
  | some x => simp

/-- A check that passes also passes when tombstones have taken versions. -/
theorem any_head_of_aged (h : Aged s t) (hs : (s.head content).any (dominated content id) = false) :
    (t.head content).any (dominated content id) = false := by
  rw [any_dominated] at hs ⊢
  intro x hx
  obtain ⟨y, hy, -, hle⟩ := le_head (h.live (argmax_mem hx))
  exact hle.trans_lt (hs y hy)

theorem supersede_head (h : Aged s t) (hard : Bool) :
    t.supersede hard (s.head content) = t.supersede hard (t.head content) := by
  cases hhead : t.head content with
  | none =>
    have hnone : t.live = [] := argmax_eq_none.mp hhead
    obtain ⟨live, deleted, watermark⟩ := t
    cases hnone
    cases s.head content <;> cases hard <;> rfl
  | some x =>
    obtain ⟨y, hy, -⟩ := le_head (h.live (argmax_mem hhead))
    rw [Option.mem_def.mp hy]
    rfl

variable {existing watermark : Option EventId} {community : CommunityId}

theorem guarded_insertVersion (k : Coordinate) (id : EventId) :
    Guarded [rowsLock k, coordinateLock k] (insertVersion content k id) := by
  have hrows : rowsLock k ∈ [rowsLock k, coordinateLock k] := mem_cons_self
  have hlock : coordinateLock k ∈ [rowsLock k, coordinateLock k] :=
    mem_cons_of_mem _ (mem_singleton_self _)
  refine fun view _ => ⟨local_change hrows (.inl hlock) fun _ _ h => h.insert id, ?_,
    fun db _ hagree => ⟨trivial, fun _ => ?_⟩⟩
  · dsimp only
    split
    · trivial
    · split
      · refine fun _ _ => ⟨local_change hrows (.inl hlock) fun _ _ h => ?_, trivial,
          fun _ _ _ => ⟨trivial, fun _ => rfl⟩⟩
        exact ⟨rfl, h.live, h.deleted, h.rows⟩
      · trivial
  · dsimp only
    rw [show db k = view k from hagree _ hrows]

theorem guarded_install (k : Coordinate) (id : EventId) (existing : Option EventId) :
    Guarded [coordinateLock k] (install content k id existing) := by
  refine guarded_lock fun view _ => ⟨local_change mem_cons_self
    (.inl (mem_cons_of_mem _ (mem_singleton_self _))) fun _ _ h => h.supersede _ existing,
      guarded_insertVersion k id, fun _ _ _ => ⟨trivial, fun _ => rfl⟩⟩

theorem guarded_judge (k : Coordinate) (id : EventId) (existing : Option EventId) :
    Guarded [coordinateLock k] (judge content k id existing) := by
  refine guarded_read (fun a b _ _ hagree => ?_) fun view _ => ?_
  · rw [Slot.mark, Slot.mark, (hagree _ mem_cons_self k rfl).watermark]
  · split
    · trivial
    · exact guarded_install k id existing

/-- The live version that was read may be gone when the transaction commits. -/
theorem exec_judge {view db : Tables} (h : Aged (view k) (db k))
    (hcommits : (judge content k id ((view k).head content)).Commits db) :
    (judge content k id ((view k).head content)).exec db =
      (judge content k id ((db k).head content)).exec db := by
  rw [Commits, judge, exec_read] at hcommits
  rw [judge, judge, exec_read, exec_read]
  split at hcommits
  · cases hcommits
  · next hfresh =>
    have hpass := Bool.or_eq_false_iff.mp (Bool.eq_false_iff.mpr hfresh)
    rw [if_neg hfresh, any_head_of_aged h hpass.1, hpass.2, Bool.or_false,
      if_neg Bool.false_ne_true]
    show (insertVersion content k id).exec (Tables.change k _ db) =
      (insertVersion content k id).exec (Tables.change k _ db)
    rw [Tables.change, Tables.change, supersede_head h]

theorem guarded_replace (community : CommunityId) (id : EventId) :
    Guarded [] (replaceParameterizedEvent content community id) := by
  rw [replaceParameterizedEvent]
  split
  · trivial
  · exact guarded_lock fun view _ => ⟨.id, guarded_judge _ id _, fun db _ hagree =>
      ⟨trivial, exec_judge (hagree _ mem_cons_self _ rfl)⟩⟩

theorem guarded (r : Request) : Guarded [] (transaction content r) := by
  cases r with
  | replace community id => exact guarded_replace community id
  | delete k deletionCreatedAtSecs seen =>
    rw [transaction, softDeleteByCoordinate]
    split
    · trivial
    refine guarded_lock fun view _ => ⟨local_change mem_cons_self (.inr aged_bury)
      fun _ _ h => h.bury, trivial, fun db _ hagree => ⟨trivial, fun _ => ?_⟩⟩
    dsimp only
    rw [show db k = view k from hagree _ mem_cons_self]

/-! ### What commits -/

variable {t t' : Tables} {result : Outcome}

/-- What a replacement that commits makes of the rows of its coordinate. -/
structure Replaced (content : EventId → Content) (id : EventId) (s s' : Slot) : Prop where
  live : s'.live = [id]
  head : ∀ x ∈ s.live, rank content x < rank content id
  mark : ∀ x ∈ s.mark content id, rank content x < rank content id
  watermark : s'.watermark = if isNipRs (content id) then some id else s.watermark

theorem live_supersede (content : EventId → Content) (s : Slot) (hard : Bool) :
    (s.supersede hard (s.head content)).live = [] ∧
      (s.supersede hard (s.head content)).watermark = s.watermark := by
  cases hhead : s.head content with
  | none => exact ⟨argmax_eq_none.mp hhead, rfl⟩
  | some _ => exact ⟨rfl, rfl⟩

theorem exec_insertVersion (hlive : (t k).live = [])
    (h : (insertVersion content k id).exec t = (t', true, result)) :
    (t' k).live = [id] ∧
      (t' k).watermark = (if isNipRs (content id) then some id else (t k).watermark) ∧
      ∀ k' ≠ k, t' k' = t k' := by
  change (if id ∈ (t k).live ++ (t k).deleted then _ else _ : HeadTxn).exec (t.change k _) = _ at h
  split at h
  · cases h
  next hnew =>
  have hinserted : (t k).insert id = { t k with live := [id] } := by
    rw [Slot.insert, if_neg hnew, hlive, nil_append]
  split at h
  · next hnip =>
    obtain ⟨rfl, -⟩ := Prod.mk.inj h
    refine ⟨?_, ?_, fun k' hk' => ?_⟩
    · simp [hinserted]
    · simp [hnip]
    · exact (Tables.change_of_ne hk' _ _).trans (Tables.change_of_ne hk' _ _)
  · next hnip =>
    obtain ⟨rfl, -⟩ := Prod.mk.inj h
    refine ⟨?_, ?_, fun k' hk' => Tables.change_of_ne hk' _ _⟩
    · simp [hinserted]
    · simp [hinserted, hnip]

theorem replaced_of_exec
    (h : (replaceParameterizedEvent content community id).exec t = (t', true, result)) :
    Replaced content id (t (coordinate content community id))
      (t' (coordinate content community id)) ∧
      ∀ k ≠ coordinate content community id, t' k = t k := by
  rw [replaceParameterizedEvent] at h
  split at h
  · cases h
  generalize coordinate content community id = k at *
  rw [exec_lock, exec_read, judge, exec_read] at h
  split at h
  · cases h
  next hfresh =>
  obtain ⟨hhead, hmark⟩ := Bool.or_eq_false_iff.mp (Bool.eq_false_iff.mpr hfresh)
  rw [any_dominated] at hhead hmark
  obtain ⟨hlive, hwatermark⟩ := live_supersede content (t k)
    (isNipRs (content id) || isBuzzMeshStatus (content id))
  obtain ⟨hlive', hwatermark', hother⟩ :=
    exec_insertVersion (by rw [Tables.change_self]; exact hlive) h
  rw [Tables.change_self, hwatermark] at hwatermark'
  refine ⟨⟨hlive', fun x hx => ?_, hmark, hwatermark'⟩, fun k' hk' => ?_⟩
  · obtain ⟨y, hy, -, hle⟩ := le_head hx
    exact hle.trans_lt (hhead y hy)
  · rw [hother k' hk', Tables.change_of_ne hk']

/-! ### In every run -/

/-- The answers given, the last one first. -/
abbrev Log := List (Answer Request Outcome)

/-- A version of the coordinate is accepted. -/
def Accepts (content : EventId → Content) (x : Answer Request Outcome) (k : Coordinate)
    (id : EventId) : Prop :=
  x.committed = true ∧ ∃ community, x.request = .replace community id ∧
    coordinate content community id = k

/-- A tombstone covers the version. -/
def Buries (content : EventId → Content) (x : Answer Request Outcome) (k : Coordinate)
    (id : EventId) : Prop :=
  x.committed = true ∧ ∃ at_ seen, x.request = .delete k at_ seen ∧ secs content id ≤ at_

/-- The version was accepted, and no tombstone has covered it since. -/
def Stands (content : EventId → Content) : Log → Coordinate → EventId → Prop
  | [], _, _ => False
  | x :: log, k, id =>
    Accepts content x k id ∨ Stands content log k id ∧ ¬Buries content x k id

/-- What holds of the rows of a coordinate, after these answers. -/
structure Headed (content : EventId → Content) (log : Log) (k : Coordinate) (s : Slot) : Prop where
  single : s.live.length ≤ 1
  head : ∀ id, Stands content log k id → ∃ y ∈ s.live, rank content id ≤ rank content y
  mark : ∀ x ∈ log, ∀ id, Accepts content x k id → isNipRs (content id) = true →
    ∃ y ∈ s.watermark, rank content id ≤ rank content y

variable {log : Log} {x : Answer Request Outcome}

theorem Headed.other (h : Headed content log k s) (hx : ∀ id, ¬Accepts content x k id) :
    Headed content (x :: log) k s where
  single := h.single
  head id hstands := h.head id (hstands.resolve_left (hx id)).1
  mark y hy id haccepts := by
    obtain rfl | hy := mem_cons.mp hy
    · exact absurd haccepts (hx id)
    · exact h.mark y hy id haccepts

theorem Headed.replace (h : Headed content log k (t k))
    (hexec : (replaceParameterizedEvent content community id).exec t = (t', true, result)) :
    Headed content (⟨.replace community id, true, result⟩ :: log) k (t' k) := by
  obtain ⟨hreplaced, hother⟩ := replaced_of_exec hexec
  by_cases hk : k = coordinate content community id
  · rw [← hk] at hreplaced
    refine ⟨by rw [hreplaced.live]; rfl, fun id' hstands => ⟨id, ?_, ?_⟩,
      fun x hx id' haccepts hnip => ?_⟩
    · rw [hreplaced.live]
      exact mem_singleton_self id
    · obtain ⟨-, _, heq, -⟩ | ⟨hstands, -⟩ := hstands
      · cases heq
        exact le_rfl
      · obtain ⟨y, hy, hle⟩ := h.head id' hstands
        exact hle.trans (hreplaced.head y hy).le
    · rw [hreplaced.watermark]
      obtain rfl | hx := mem_cons.mp hx
      · obtain ⟨-, _, heq, -⟩ := haccepts
        cases heq
        exact ⟨id, by rw [if_pos hnip]; rfl, le_rfl⟩
      · obtain ⟨y, hy, hle⟩ := h.mark x hx id' haccepts hnip
        split
        · next hid =>
          exact ⟨id, rfl, hle.trans (hreplaced.mark y (by rwa [Slot.mark, if_pos hid])).le⟩
        · exact ⟨y, hy, hle⟩
  · rw [hother k hk]
    refine h.other ?_
    rintro id' ⟨-, _, heq, rfl⟩
    cases heq
    exact hk rfl

theorem Headed.delete (h : Headed content log k (t k)) {k' : Coordinate}
    (hexec : (softDeleteByCoordinate content k' at_ seen).exec t = (t', true, result)) :
    Headed content (⟨.delete k' at_ seen, true, result⟩ :: log) k (t' k) := by
  obtain rfl : t.change k' (·.bury content at_ seen) = t' := by
    rw [softDeleteByCoordinate] at hexec
    split at hexec
    · cases hexec
    · exact (Prod.mk.inj hexec).1
  have hsame : Headed content (⟨.delete k' at_ seen, true, result⟩ :: log) k (t k) :=
    h.other fun id ⟨_, _, heq, _⟩ => Request.noConfusion heq
  by_cases hk : k = k'
  · subst hk
    rw [Tables.change_self]
    refine ⟨(length_filter_le _ _).trans h.single, fun id hstands => ?_, hsame.mark⟩
    obtain ⟨y, hy, hle⟩ := hsame.head id hstands
    have hsecs : secs content id ≤ secs content y :=
      (Prod.Lex.toLex_le_toLex.mp hle).elim le_of_lt fun heq => heq.1.le
    refine ⟨y, mem_filter.mpr ⟨hy, decide_eq_true fun htakes => ?_⟩, hle⟩
    obtain ⟨-, _, heq, -⟩ | ⟨-, hburies⟩ := hstands
    · cases heq
    · exact hburies ⟨rfl, at_, seen, rfl, hsecs.trans htakes.1⟩
  · rwa [Tables.change_of_ne hk]

/-- At first, no coordinate has two live versions. -/
def Single (t : Tables) : Prop := ∀ k, (t k).live.length ≤ 1

theorem headed_of_replays (h : Replays (transaction content) Single Outcome.IsRefusal log t) :
    Headed content log k (t k) := by
  induction h with
  | nil hsingle => exact ⟨hsingle k, fun id h => h.elim, nofun⟩
  | rollback a h hresult ih => exact ih.other fun id haccepts => Bool.noConfusion haccepts.1
  | @commit log db db' a result h hexec ih =>
    cases a with
    | replace community id => exact ih.replace hexec
    | delete k' at_ seen => exact ih.delete hexec

/-- **Replaceable versions advance**, in any order of the statements of replacements and tombstones. A
coordinate has at most one live version. That is at or above each version that was accepted, unless a
tombstone has covered it since. So a version is accepted above all those, and one of read state above
every other one that was accepted, deleted or not. -/
theorem versions_advance {w : World Tables Request LockKey Outcome}
    (h : (sessions (transaction content) Single).Reachable w) :
    (∀ k, (w.db k).live.length ≤ 1) ∧
    (∀ k id, Stands content w.answers k id →
      ∃ y ∈ (w.db k).live, rank content id ≤ rank content y) ∧
    ∀ newer x older k id, w.answers = newer ++ x :: older → Accepts content x k id →
      (∀ id', Stands content older k id' → rank content id' < rank content id) ∧
      (isNipRs (content id) = true → ∀ y ∈ older, ∀ id', Accepts content y k id' →
        isNipRs (content id') = true → rank content id' < rank content id) := by
  have hreplays := (Standing.of_reachable guarded (fun _ _ => trivial) h).2
  refine ⟨fun k => (headed_of_replays hreplays).single,
    fun k id => (headed_of_replays hreplays).head id, ?_⟩
  rintro newer ⟨request, committed, result⟩ older k id hanswers ⟨hcommitted, community, heq, rfl⟩
  cases hcommitted
  cases heq
  rw [hanswers] at hreplays
  obtain ⟨before, after, hbefore, hexec⟩ := hreplays.split
  obtain ⟨hreplaced, -⟩ := replaced_of_exec hexec
  refine ⟨fun id' hstands => ?_, fun hid y hy id' haccepts hnip => ?_⟩
  · obtain ⟨y, hy, hle⟩ := (headed_of_replays hbefore).head id' hstands
    exact hle.trans_lt (hreplaced.head y hy)
  · obtain ⟨z, hz, hle⟩ := (headed_of_replays hbefore).mark y hy id' haccepts hnip
    exact hle.trans_lt (hreplaced.mark z (by rwa [Slot.mark, if_pos hid]))

/-! ### An example -/

def exampleContent (id : EventId) : Content :=
  ⟨0, UInt64.ofNat id.toNat, kindReadState,
    [["d", "read-state:" ++ String.ofList (List.replicate 32 'a')], ["t", "read-state"]]⟩

/-- A version replaces another one. -/
theorem versions_advance_twice : ∃ w, (sessions (transaction exampleContent) Single).Reachable w ∧
    w.answers = [⟨.replace 0 2, true, .inserted⟩, ⟨.replace 0 1, true, .inserted⟩] ∧
      rank exampleContent 1 < rank exampleContent 2 := by
  have hrun : ((sessions (transaction exampleContent) Single).run ⟨fun _ => ⟨[], [], none⟩, [], []⟩
      ([1, 2].flatMap fun id => .start 0 (.replace 0 id) :: replicate 8 (.step 0))).map
        World.answers =
      some [⟨.replace 0 2, true, .inserted⟩, ⟨.replace 0 1, true, .inserted⟩] := by decide +kernel
  obtain ⟨w, hw, hanswers⟩ := Option.map_eq_some_iff.mp hrun
  have hreachable : (sessions (transaction exampleContent) Single).Reachable w :=
    ⟨⟨fun _ => ⟨[], [], none⟩, [], []⟩, _, ⟨fun _ => Nat.zero_le 1, rfl, rfl⟩, hw⟩
  refine ⟨w, hreachable, hanswers, ?_⟩
  exact ((versions_advance hreachable).2.2 [] _ _ _ 2 hanswers ⟨rfl, 0, rfl, rfl⟩).2
    (by decide +kernel) _ mem_cons_self 1 ⟨rfl, 0, rfl, by decide +kernel⟩ (by decide +kernel)

end Buzz.Replaceable
