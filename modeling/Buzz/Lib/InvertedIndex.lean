import Buzz.Lib.OrderedSet
import Mathlib.Data.List.AList
import Mathlib.Logic.Function.Basic

/-!
# Inverted indexes

A store of live records, each placed under some keys, and for every key the list of the records
placed there. A query looks at a few lists and checks each candidate against the store. The answer
is that of a scan over the whole store when two things hold: the lists are *exact* for the store,
and every record that the query accepts is placed under one of the keys it looks at.
-/

namespace Buzz

/-! ### Lists by key -/

/-- Lists of records by key. A list that runs empty is dropped with its key. -/
structure Multimap (κ ρ : Type*) [DecidableEq κ] where
  lists : AList fun _ : κ => List ρ
  ne_nil : ∀ k, lists.lookup k ≠ some []

namespace Multimap

variable {κ ρ : Type*} [DecidableEq κ]

instance : EmptyCollection (Multimap κ ρ) := ⟨⟨∅, fun k => by simp⟩⟩

def get (m : Multimap κ ρ) (k : κ) : List ρ := (m.lists.lookup k).getD []

@[simp] theorem get_empty (k : κ) : (∅ : Multimap κ ρ).get k = [] := rfl

def set (m : Multimap κ ρ) (k : κ) (l : List ρ) : Multimap κ ρ :=
  if h : l = [] then
    ⟨m.lists.erase k, fun k' => by
      by_cases hk : k' = k
      · rw [hk, AList.lookup_erase]
        exact nofun
      · rw [AList.lookup_erase_ne hk]
        exact m.ne_nil k'⟩
  else
    ⟨m.lists.insert k l, fun k' => by
      by_cases hk : k' = k
      · rw [hk, AList.lookup_insert]
        exact fun he => h (Option.some.inj he)
      · rw [AList.lookup_insert_ne hk]
        exact m.ne_nil k'⟩

@[simp] theorem get_set_self (m : Multimap κ ρ) (k : κ) (l : List ρ) : (m.set k l).get k = l := by
  rw [set]
  split
  · next h => simp [get, h]
  · simp [get]

variable {k' : κ}

theorem get_set_of_ne (m : Multimap κ ρ) {k : κ} (h : k' ≠ k) (l : List ρ) :
    (m.set k l).get k' = m.get k' := by
  rw [set]
  split
  · rw [get, AList.lookup_erase_ne h, get]
  · rw [get, AList.lookup_insert_ne h, get]

/-- Append a record to the list under a key. -/
def push (m : Multimap κ ρ) (k : κ) (r : ρ) : Multimap κ ρ := m.set k (m.get k ++ [r])

variable {m : Multimap κ ρ}

theorem mem_get_push {k : κ} {r r' : ρ} :
    r' ∈ (m.push k r).get k' ↔ r' ∈ m.get k' ∨ k' = k ∧ r' = r := by
  by_cases hk : k' = k
  · subst hk
    simp [push]
  · rw [push, get_set_of_ne m hk]
    simp [hk]

/-- Append a record to the lists under several keys. -/
def pushAll (m : Multimap κ ρ) (ks : List κ) (r : ρ) : Multimap κ ρ :=
  ks.foldl (fun m k => m.push k r) m

theorem mem_get_pushAll {ks : List κ} {r r' : ρ} :
    r' ∈ (m.pushAll ks r).get k' ↔ r' ∈ m.get k' ∨ k' ∈ ks ∧ r' = r := by
  induction ks generalizing m with
  | nil => simp [pushAll]
  | cons k ks ih =>
    show r' ∈ ((m.push k r).pushAll ks r).get k' ↔ _
    rw [ih, mem_get_push, List.mem_cons]
    tauto

variable [DecidableEq ρ]

/-- Drop a record from the list under a key. -/
def discard (m : Multimap κ ρ) (k : κ) (r : ρ) : Multimap κ ρ :=
  m.set k ((m.get k).filter fun r' => r' ≠ r)

theorem mem_get_discard {k : κ} {r r' : ρ} :
    r' ∈ (m.discard k r).get k' ↔ r' ∈ m.get k' ∧ ¬ (k' = k ∧ r' = r) := by
  by_cases hk : k' = k
  · subst hk
    simp [discard]
  · rw [discard, get_set_of_ne m hk]
    simp [hk]

/-- Drop a record from the lists under several keys. -/
def discardAll (m : Multimap κ ρ) (ks : List κ) (r : ρ) : Multimap κ ρ :=
  ks.foldl (fun m k => m.discard k r) m

theorem mem_get_discardAll {ks : List κ} {r r' : ρ} :
    r' ∈ (m.discardAll ks r).get k' ↔ r' ∈ m.get k' ∧ ¬ (k' ∈ ks ∧ r' = r) := by
  induction ks generalizing m with
  | nil => simp [discardAll]
  | cons k ks ih =>
    show r' ∈ ((m.discard k r).discardAll ks r).get k' ↔ _
    rw [ih, mem_get_discard, List.mem_cons]
    tauto

end Multimap

/-! ### Exact indexes -/

section

variable {κ ρ ε : Type*}

/-- Every list holds the live records that are placed under its key, and nothing else. -/
def Exact (list : κ → List ρ) (live : ρ → Option ε) (place : ε → List κ) : Prop :=
  ∀ k r, r ∈ list k ↔ ∃ e, live r = some e ∧ k ∈ place e

variable [DecidableEq ρ] {list list' : κ → List ρ} {live : ρ → Option ε} {place : ε → List κ}

variable {r : ρ}

/-- Placing a new record under its keys keeps the lists exact. -/
theorem Exact.insert (h : Exact list live place) {e : ε} (hr : live r = none)
    (hlist : ∀ k r', r' ∈ list' k ↔ r' ∈ list k ∨ k ∈ place e ∧ r' = r) :
    Exact list' (Function.update live r (some e)) place := by
  intro k r'
  rw [hlist, h k r']
  by_cases hr' : r' = r
  · subst hr'
    simp [hr]
  · simp [hr']

/-- Dropping a record from the keys it was placed under keeps the lists exact. -/
theorem Exact.remove (h : Exact list live place) {e : ε} (hr : live r = some e)
    (hlist : ∀ k r', r' ∈ list' k ↔ r' ∈ list k ∧ ¬ (k ∈ place e ∧ r' = r)) :
    Exact list' (Function.update live r none) place := by
  intro k r'
  rw [hlist, h k r']
  by_cases hr' : r' = r
  · subst hr'
    simp [hr]
  · simp [hr']

/-- Add the candidates that are accepted, in order, each once. -/
def scan (accept : ρ → Bool) (s : OrderedSet ρ) (candidates : List ρ) : OrderedSet ρ :=
  candidates.foldl (fun s r => if accept r then s.insert r else s) s

variable {accept : ρ → Bool}

theorem mem_scan {s : OrderedSet ρ} {candidates : List ρ} :
    r ∈ scan accept s candidates ↔ r ∈ s ∨ r ∈ candidates ∧ accept r = true := by
  induction candidates generalizing s with
  | nil => simp [scan]
  | cons c cs ih =>
    show r ∈ scan accept (if accept c then s.insert c else s) cs ↔ _
    rw [ih]
    by_cases hc : accept c = true
    · rw [if_pos hc, OrderedSet.mem_insert, List.mem_cons]
      constructor
      · rintro ((hs | rfl) | ⟨hcs, hr⟩)
        · exact Or.inl hs
        · exact Or.inr ⟨Or.inl rfl, hc⟩
        · exact Or.inr ⟨Or.inr hcs, hr⟩
      · rintro (hs | ⟨rfl | hcs, hr⟩)
        · exact Or.inl (Or.inl hs)
        · exact Or.inl (Or.inr rfl)
        · exact Or.inr ⟨hcs, hr⟩
    · rw [if_neg hc, List.mem_cons]
      constructor
      · rintro (hs | ⟨hcs, hr⟩)
        · exact Or.inl hs
        · exact Or.inr ⟨Or.inr hcs, hr⟩
      · rintro (hs | ⟨rfl | hcs, hr⟩)
        · exact Or.inl hs
        · exact absurd hr hc
        · exact Or.inr ⟨hcs, hr⟩

theorem scan_append (accept : ρ → Bool) (s : OrderedSet ρ) (l₁ l₂ : List ρ) :
    scan accept s (l₁ ++ l₂) = scan accept (scan accept s l₁) l₂ :=
  List.foldl_append

/-- **A query over exact lists misses nothing.** If every record the query accepts is live and
placed under one of the keys it looks at, then it finds exactly the records it accepts. -/
theorem Exact.mem_scan_iff (h : Exact list live place) {keys : List κ}
    (hkeys : ∀ r, accept r = true → ∃ e, live r = some e ∧ ∃ k ∈ keys, k ∈ place e) :
    r ∈ scan accept ∅ (keys.flatMap list) ↔ accept r = true := by
  rw [mem_scan]
  constructor
  · rintro (hr | ⟨-, hr⟩)
    · exact absurd hr (OrderedSet.notMem_empty r)
    · exact hr
  · intro hr
    obtain ⟨e, hlive, k, hk, hplace⟩ := hkeys r hr
    exact Or.inr ⟨List.mem_flatMap.mpr ⟨k, hk, (h k r).mpr ⟨e, hlive, hplace⟩⟩, hr⟩

end

end Buzz
