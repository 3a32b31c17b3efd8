import Buzz.Core.Basic
import Mathlib.Data.List.MinMax
import Mathlib.Data.Prod.Lex

/-!
# Heads

Of the events that are written to one slug the head counts: the latest by its timestamp, and of
several with one timestamp the one with the least id. A writer that reads the head dates the next
event after it, whatever its clock says, so that what is written becomes the head.

Timestamps end at the largest `u64`. After an event with that timestamp the next one can only be
dated the same, and then the ids decide.
-/

namespace Buzz.Engram

open List

/-- `to_hex`, of an id. -/
def idHex (id : EventId) : String := hexEncode (bytesBE 32 id.toNat)

/-- The later of two events; of two with one timestamp, the one with the lower id. -/
def laterOf (a b : Event) : Event :=
  if a.createdAt < b.createdAt then b
  else if b.createdAt < a.createdAt then a
  -- lower id wins, compared as hexadecimal texts
  else if idHex b.id < idHex a.id then b
  else a

/-- Pick the head from a set of events targeting the same slug. -/
def selectHead : List Event → Option Event
  | [] => none
  | e :: events => some (events.foldl laterOf e)

/-- `u64::MAX`. -/
def maxTimestamp : Timestamp := 0xffffffffffffffff

/-- `saturating_add(1)`. -/
def saturatingSucc (t : Timestamp) : Timestamp := if t = maxTimestamp then t else t + 1

/-- Compute `created_at` for a new write: `max(now, prior_head_created_at + 1)`. -/
def monotonicCreatedAt (now : Timestamp) (priorHead : Option Timestamp) : Timestamp :=
  match priorHead with
  | some t => if now < saturatingSucc t then saturatingSucc t else now
  | none => now

/-! ### The order of events -/

/-- The rank of an event: later events first, then lower ids. -/
def rank (e : Event) : ℕᵒᵈ ×ₗ ℕ := toLex (OrderDual.toDual e.createdAt.toNat, e.id.toNat)

theorem rank_lt_iff {a b : Event} : rank a < rank b ↔
    b.createdAt < a.createdAt ∨ a.createdAt = b.createdAt ∧ a.id < b.id := by
  rw [rank, rank, Prod.Lex.toLex_lt_toLex, OrderDual.toDual_lt_toDual, OrderDual.toDual_inj,
    UInt64.lt_iff_toNat_lt, UInt64.toNat_inj, BitVec.lt_def]

theorem rank_inj_iff {a b : Event} : rank a = rank b ↔
    a.createdAt = b.createdAt ∧ a.id = b.id := by
  simp [rank, EmbeddingLike.apply_eq_iff_eq, UInt64.toNat_inj,
    BitVec.toNat_inj]

theorem idHex_lt_iff {i j : EventId} : idHex i < idHex j ↔ i < j := by
  have hsize : (2 : ℕ) ^ 256 = 256 ^ 32 := by norm_num
  rw [idHex, idHex, hexEncode_bytesBE_lt_iff (hsize ▸ i.isLt) (hsize ▸ j.isLt), BitVec.lt_def]

theorem laterOf_eq (a b : Event) : laterOf a b = if rank b < rank a then b else a := by
  simp only [laterOf, idHex_lt_iff]
  by_cases hlt : a.createdAt < b.createdAt
  · rw [if_pos hlt, if_pos (rank_lt_iff.mpr (Or.inl hlt))]
  · rw [if_neg hlt]
    by_cases hgt : b.createdAt < a.createdAt
    · have hno : ¬ rank b < rank a := by
        rw [rank_lt_iff]
        rintro (h | ⟨h, -⟩)
        · exact hlt h
        · rw [h] at hgt
          exact absurd hgt (UInt64.lt_irrefl _)
      rw [if_pos hgt, if_neg hno]
    · have heq : b.createdAt = a.createdAt :=
        UInt64.le_antisymm (UInt64.not_lt.mp hlt) (UInt64.not_lt.mp hgt)
      have hiff : rank b < rank a ↔ b.id < a.id := by
        rw [rank_lt_iff, or_iff_right hlt, and_iff_right heq]
      rw [if_neg hgt]
      simp only [hiff]

/-- The head is the first of the events in their order. -/
theorem selectHead_eq_argmin (events : List Event) : selectHead events = events.argmin rank := by
  have hfold : ∀ (events : List Event) (e : Event),
      events.foldl (argAux fun b c => rank b < rank c) (some e) =
        some (events.foldl laterOf e) := by
    intro events
    induction events with
    | nil => exact fun e => rfl
    | cons e events ih =>
      intro a
      rw [foldl_cons, foldl_cons, ← ih, laterOf_eq]
      congr 1
      show (if rank e < rank a then some e else some a) = _
      split <;> rfl
  cases events with
  | nil => rfl
  | cons e events => exact (hfold events e).symm

variable {events : List Event} {e : Event}

theorem rank_le_of_selectHead {head : Event} (h : selectHead events = some head) (he : e ∈ events) :
    rank head ≤ rank e := by
  rw [selectHead_eq_argmin] at h
  exact le_of_mem_argmin he h

theorem mem_of_selectHead {head : Event} (h : selectHead events = some head) : head ∈ events := by
  rw [selectHead_eq_argmin] at h
  exact argmin_mem h

theorem exists_selectHead (h : events ≠ []) : ∃ head, selectHead events = some head := by
  rw [selectHead_eq_argmin]
  exact Option.ne_none_iff_exists'.mp (mt argmin_eq_none.mp h)

/-- The head has the greatest timestamp and, among the events with it, the least id. -/
def IsHead (events : List Event) (head : Event) : Prop :=
  head ∈ events ∧ ∀ e ∈ events,
    e.createdAt < head.createdAt ∨ e.createdAt = head.createdAt ∧ head.id ≤ e.id

theorem isHead_of_selectHead {head : Event} (h : selectHead events = some head) :
    IsHead events head := by
  refine ⟨mem_of_selectHead h, fun e he => ?_⟩
  rcases (rank_le_of_selectHead h he).lt_or_eq with hlt | heq
  · rcases rank_lt_iff.mp hlt with hlater | ⟨htime, hid⟩
    · exact Or.inl hlater
    · exact Or.inr ⟨htime.symm, BitVec.le_of_lt hid⟩
  · obtain ⟨htime, hid⟩ := rank_inj_iff.mp heq
    exact Or.inr ⟨htime.symm, BitVec.le_of_eq hid⟩

variable {events' : List Event}

theorem rank_eq_of_selectHead (hsame : ∀ e, e ∈ events ↔ e ∈ events') {head head' : Event}
    (h : selectHead events = some head) (h' : selectHead events' = some head') :
    rank head = rank head' :=
  le_antisymm (rank_le_of_selectHead h ((hsame head').mpr (mem_of_selectHead h')))
    (rank_le_of_selectHead h' ((hsame head).mp (mem_of_selectHead h)))

/-! ### Writes -/

/-- An event that is dated after reading the head. -/
def WrittenTo (events : List Event) (now : Timestamp) (e : Event) : Prop :=
  e.createdAt = monotonicCreatedAt now ((selectHead events).map Event.createdAt)

/-- The head is not at the end of time. -/
def BelowLimit (events : List Event) : Prop :=
  ∀ head, selectHead events = some head → head.createdAt ≠ maxTimestamp

theorem lt_monotonicCreatedAt (now : Timestamp) {t : Timestamp} (h : t ≠ maxTimestamp) :
    t < monotonicCreatedAt now (some t) := by
  have hmax : t.toNat ≠ 2 ^ 64 - 1 := fun heq => h (UInt64.toNat_inj.mp heq)
  have hlt := t.toNat_lt
  have hsucc : t < t + 1 := by
    rw [UInt64.lt_iff_toNat_lt, UInt64.toNat_add]
    simp
    omega
  rw [monotonicCreatedAt, saturatingSucc, if_neg h]
  split
  · exact hsucc
  · next hle => exact UInt64.lt_of_lt_of_le hsucc (UInt64.not_lt.mp hle)

theorem WrittenTo.later {now : Timestamp} {f : Event} (h : WrittenTo events now e)
    (hlimit : BelowLimit events) (hf : f ∈ events) : f.createdAt < e.createdAt := by
  obtain ⟨head, hhead⟩ := exists_selectHead (ne_nil_of_mem hf)
  have hlt : head.createdAt < e.createdAt := by
    rw [h, hhead]
    exact lt_monotonicCreatedAt now (hlimit head hhead)
  rcases (isHead_of_selectHead hhead).2 f hf with hbefore | ⟨hsame, -⟩
  · exact UInt64.lt_trans hbefore hlt
  · rwa [hsame]

theorem selectHead_of_rank_lt (hlt : ∀ f ∈ events, rank e < rank f)
    (hsame : ∀ f, f ∈ events' ↔ f ∈ events ∨ f = e) : selectHead events' = some e := by
  have hmem : e ∈ events' := (hsame e).mpr (Or.inr rfl)
  obtain ⟨head, hhead⟩ := exists_selectHead (ne_nil_of_mem hmem)
  rcases (hsame head).mp (mem_of_selectHead hhead) with hold | rfl
  · exact absurd (rank_le_of_selectHead hhead hmem) (not_le.mpr (hlt head hold))
  · exact hhead

theorem monotonicCreatedAt_limit (now : Timestamp) :
    monotonicCreatedAt now (some maxTimestamp) = maxTimestamp := by
  have hle : now.toNat ≤ maxTimestamp.toNat := Nat.le_of_lt_succ now.toNat_lt
  rw [monotonicCreatedAt, saturatingSucc, if_pos rfl]
  split
  · rfl
  · next hlt =>
    rw [UInt64.lt_iff_toNat_lt] at hlt
    exact UInt64.toNat_inj.mp (by omega)

theorem WrittenTo.head_iff {now : Timestamp} (h : WrittenTo events now e) (hnew : e ∉ events) :
    (∀ events', (∀ f, f ∈ events' ↔ f ∈ events ∨ f = e) → selectHead events' = some e) ↔
      BelowLimit events ∨ ∃ head, selectHead events = some head ∧ e.id < head.id := by
  constructor
  · intro hall
    by_cases hlimit : BelowLimit events
    · exact Or.inl hlimit
    · obtain ⟨head, hmax⟩ := not_forall.mp hlimit
      obtain ⟨hhead, hmax⟩ := Classical.not_imp.mp hmax
      have hselect := hall (events ++ [e]) (by simp)
      rw [selectHead_eq_argmin, argmin_concat, ← selectHead_eq_argmin, hhead] at hselect
      have htime : e.createdAt = head.createdAt := by
        rw [h, hhead, Option.map_some, not_not.mp hmax, monotonicCreatedAt_limit]
      by_cases hlt : rank e < rank head
      · rcases rank_lt_iff.mp hlt with hlater | ⟨-, hid⟩
        · rw [htime] at hlater
          exact absurd hlater (UInt64.lt_irrefl _)
        · exact Or.inr ⟨head, hhead, hid⟩
      · obtain rfl : head = e := by simpa [hlt] using hselect
        exact absurd (mem_of_selectHead hhead) hnew
  · rintro hcond events' hsame
    refine selectHead_of_rank_lt (fun f hf => ?_) hsame
    by_cases hlimit : BelowLimit events
    · exact rank_lt_iff.mpr (Or.inl (h.later hlimit hf))
    · obtain ⟨head, hhead, hid⟩ := hcond.resolve_left hlimit
      obtain ⟨head', hmax⟩ := not_forall.mp hlimit
      obtain ⟨hhead', hmax⟩ := Classical.not_imp.mp hmax
      obtain rfl := Option.some.inj (hhead.symm.trans hhead')
      have htime : e.createdAt = head.createdAt := by
        rw [h, hhead, Option.map_some, not_not.mp hmax, monotonicCreatedAt_limit]
      exact (rank_lt_iff.mpr (Or.inr ⟨htime, hid⟩)).trans_le (rank_le_of_selectHead hhead hf)

/-- Writes, each dated after reading the head of what was there before, at any reading of the
clock. -/
inductive Chain : List Event → List Event → Prop where
  | nil (events : List Event) : Chain events []
  | cons {events : List Event} {now : Timestamp} {e : Event} {later : List Event}
      (written : WrittenTo events now e) (limit : BelowLimit events)
      (rest : Chain (e :: events) later) : Chain events (e :: later)

theorem Chain.later {writes : List Event} (h : Chain events writes) :
    (∀ f ∈ events, ∀ e ∈ writes, f.createdAt < e.createdAt) ∧
      writes.Pairwise fun e f => e.createdAt < f.createdAt := by
  induction h with
  | nil events => exact ⟨nofun, List.Pairwise.nil⟩
  | @cons events now e later written limit rest ih =>
    refine ⟨fun f hf w hw => ?_, List.Pairwise.cons (ih.1 e mem_cons_self) ih.2⟩
    rcases mem_cons.mp hw with rfl | hw
    · exact written.later limit hf
    · exact ih.1 f (mem_cons_of_mem e hf) w hw

/-- The last write of a chain is the head of everything. -/
theorem Chain.head {writes : List Event} (h : Chain events (writes ++ [e]))
    (hsame : ∀ f, f ∈ events' ↔ f ∈ events ∨ f ∈ writes ∨ f = e) : selectHead events' = some e := by
  obtain ⟨hold, hpairwise⟩ := h.later
  have hlater : ∀ f ∈ events ++ writes, f.createdAt < e.createdAt := by
    intro f hf
    rcases mem_append.mp hf with hf | hf
    · exact hold f hf e (by simp)
    · exact (pairwise_append.mp hpairwise).2.2 f hf e (mem_singleton_self e)
  refine selectHead_of_rank_lt (fun f hf => rank_lt_iff.mpr (Or.inl (hlater f hf))) ?_
  intro f
  simp [hsame, or_assoc]

/-! ### Main results -/

/-- **Head selection.** The head has the greatest timestamp and the least id with it, whatever the
order and the multiplicity of the events: among events told apart by their ids it is one event. A
write becomes the head, except at the end of time, where the ids decide; and the last write of a
chain is the head of everything. -/
theorem head_selection :
    (∀ events, events ≠ [] → ∃ head, selectHead events = some head ∧ IsHead events head) ∧
    (∀ events events', (∀ e, e ∈ events ↔ e ∈ events') →
      (selectHead events).map (fun e => (e.createdAt, e.id)) =
        (selectHead events').map (fun e => (e.createdAt, e.id)) ∧
      ((∀ e ∈ events, ∀ f ∈ events, e.id = f.id → e = f) →
        selectHead events = selectHead events')) ∧
    (∀ events now e, WrittenTo events now e → e ∉ events →
      ((∀ events', (∀ f, f ∈ events' ↔ f ∈ events ∨ f = e) → selectHead events' = some e) ↔
        BelowLimit events ∨ ∃ head, selectHead events = some head ∧ e.id < head.id)) ∧
    (∀ events writes e, Chain events (writes ++ [e]) →
      ∀ events', (∀ f, f ∈ events' ↔ f ∈ events ∨ f ∈ writes ∨ f = e) →
        selectHead events' = some e) := by
  refine ⟨fun events hne => ?_, fun events events' hsame => ?_, fun events now e h hnew => ?_,
    fun events writes e h events' hsame => ?_⟩
  · obtain ⟨head, hhead⟩ := exists_selectHead hne
    exact ⟨head, hhead, isHead_of_selectHead hhead⟩
  · cases h : selectHead events with
    | none =>
      rw [selectHead_eq_argmin, argmin_eq_none] at h
      subst h
      obtain rfl : events' = [] := eq_nil_iff_forall_not_mem.mpr fun e he =>
        not_mem_nil ((hsame e).mpr he)
      exact ⟨rfl, fun _ => rfl⟩
    | some head =>
      obtain ⟨head', h'⟩ :=
        exists_selectHead (ne_nil_of_mem ((hsame head).mp (mem_of_selectHead h)))
      obtain ⟨htime, hid⟩ := rank_inj_iff.mp (rank_eq_of_selectHead hsame h h')
      refine ⟨by rw [h', Option.map_some, Option.map_some, htime, hid], fun hids => ?_⟩
      rw [h', hids head (mem_of_selectHead h) head' ((hsame head').mpr (mem_of_selectHead h')) hid]
  · exact h.head_iff hnew
  · exact h.head hsame

def eventAt (id : EventId) (createdAt : Timestamp) : Event := ⟨id, 1, createdAt, 30174, []⟩

/-- After an event at the end of time a write is not the head when its id is greater. -/
theorem not_always_head : ¬ ∀ events now e, WrittenTo events now e →
    selectHead (events ++ [e]) = some e := by
  intro hall
  have hwritten : WrittenTo [eventAt 0 maxTimestamp] 0 (eventAt 1 maxTimestamp) := by
    rw [WrittenTo]
    decide +kernel
  exact absurd (hall _ _ _ hwritten) (by decide +kernel)

end Buzz.Engram
