import Mathlib.Order.Lattice
import Mathlib.Data.List.AList
import Mathlib.Data.List.Nodup
import Mathlib.Data.List.Perm.Basic
import Mathlib.Order.Defs.LinearOrder

/-!
# Hash maps keyed by a field

A hash map whose keys are a field of its values is the list of its values, in the order of the map,
with distinct keys.

Such a map may keep the latest element of each key: an element is put into it unless it is no later
than the one that is there. After a list, the map has for each key an element that none of that key
is later than. Where elements of a key are told apart by their ranks, it is determined by which
elements occur.

A store may also keep a list under every key. Its contents are all items with their keys. Replacing
the list of one key changes the number of occurrences of an item by what was there and what is put
there. Stated with counts, a step that moves items between stores is a linear equation.
-/

/-! ## Values by key -/

namespace Buzz

variable {α κ : Type*} [DecidableEq κ] (key : α → κ)

def lookupKey (l : List α) (k : κ) : Option α := l.find? fun a => key a == k

/-- Update the value under a key, or insert a new one. -/
def upsertKey (k : κ) (update : α → α) (new : α) (l : List α) : List α :=
  match lookupKey key l k with
  | some _ => l.map fun a => if key a = k then update a else a
  | none => l ++ [new]

variable {key}

variable {l : List α} {k : κ}

theorem mem_of_lookupKey {a : α} (h : lookupKey key l k = some a) : a ∈ l ∧ key a = k :=
  ⟨List.mem_of_find?_eq_some h, beq_iff_eq.mp (List.find?_some (p := fun a => key a == k) h)⟩

theorem lookupKey_eq_none_iff : lookupKey key l k = none ↔ ∀ a ∈ l, key a ≠ k := by
  simp [lookupKey]

theorem lookupKey_eq_some_iff (h : (l.map key).Nodup) {a : α} :
    lookupKey key l k = some a ↔ a ∈ l ∧ key a = k := by
  refine ⟨mem_of_lookupKey, ?_⟩
  rintro ⟨ha, rfl⟩
  cases hfind : lookupKey key l (key a) with
  | none => exact absurd rfl (lookupKey_eq_none_iff.mp hfind a ha)
  | some b =>
    obtain ⟨hb, hkey⟩ := mem_of_lookupKey hfind
    rw [List.inj_on_of_nodup_map h hb ha hkey]

theorem lookupKey_cons (a : α) (l : List α) (k : κ) :
    lookupKey key (a :: l) k = if key a = k then some a else lookupKey key l k := by
  rw [lookupKey, List.find?_cons]
  by_cases hk : key a = k
  · simp [hk]
  · rw [if_neg hk, beq_false_of_ne hk]
    rfl

theorem lookupKey_map {f : α → α} (hf : ∀ a, key (f a) = key a) (l : List α) (k : κ) :
    lookupKey key (l.map f) k = (lookupKey key l k).map f := by
  induction l with
  | nil => rfl
  | cons a l ih =>
    rw [List.map_cons, lookupKey_cons, lookupKey_cons, hf, ih]
    split
    · rfl
    · rfl

theorem lookupKey_filter_of_ne {j : κ} (hne : j ≠ k) :
    lookupKey key (l.filter fun a => key a != j) k = lookupKey key l k := by
  induction l with
  | nil => rfl
  | cons a l ih =>
    rw [List.filter_cons, lookupKey_cons]
    split
    · rw [lookupKey_cons, ih]
    · next hj =>
      have hkey : key a = j := by simpa using hj
      rw [ih, hkey, if_neg hne]

theorem lookupKey_filter {keep : α → Bool} (hkeep : ∀ a ∈ l, key a = k → keep a = true) :
    lookupKey key (l.filter keep) k = lookupKey key l k := by
  induction l with
  | nil => rfl
  | cons a l ih =>
    have hrest := ih fun b hb => hkeep b (List.mem_cons_of_mem _ hb)
    rw [List.filter_cons, lookupKey_cons]
    split
    · rw [lookupKey_cons, hrest]
    · next hdrop =>
      rw [hrest, if_neg fun hkey => hdrop (hkeep a List.mem_cons_self hkey)]

theorem perm_cons_filter_key (h : (l.map key).Nodup) {a : α} (ha : a ∈ l) :
    l.Perm (a :: l.filter fun b => key b != key a) := by
  induction l with
  | nil => nomatch ha
  | cons b l ih =>
    rw [List.map_cons, List.nodup_cons] at h
    obtain rfl | ha := List.mem_cons.mp ha
    · have hkeep : l.filter (fun b => key b != key a) = l := by
        refine List.filter_eq_self.mpr fun c hc => bne_iff_ne.mpr fun hkey => h.1 ?_
        exact hkey ▸ List.mem_map_of_mem hc
      simp [hkeep]
    · have hne : key b ≠ key a := fun hkey => h.1 (hkey ▸ List.mem_map_of_mem ha)
      have hkeep : (key b != key a) = true := bne_iff_ne.mpr hne
      rw [List.filter_cons, if_pos hkeep]
      exact ((ih h.2 ha).cons b).trans (.swap a b _)

section Upsert

variable {k : κ} {update : α → α} {new : α} (hupdate : ∀ a, key a = k → key (update a) = k)
  (hnew : key new = k)

include hupdate

theorem map_key_update (l : List α) :
    (l.map fun a => if key a = k then update a else a).map key = l.map key := by
  rw [List.map_map]
  refine List.map_congr_left fun a _ => ?_
  rw [Function.comp_apply]
  split
  · next hk => rw [hupdate a hk, hk]
  · rfl

include hnew

variable {l : List α}

theorem nodup_upsertKey (h : (l.map key).Nodup) :
    ((upsertKey key k update new l).map key).Nodup := by
  unfold upsertKey
  split
  · rwa [map_key_update hupdate]
  · next hnone =>
    rw [List.map_append, List.map_singleton, hnew]
    refine List.nodup_append.mpr ⟨h, List.nodup_singleton k, fun a ha b hb => ?_⟩
    obtain ⟨x, hx, rfl⟩ := List.mem_map.mp ha
    obtain rfl := List.mem_singleton.mp hb
    exact lookupKey_eq_none_iff.mp hnone x hx

theorem mem_upsertKey {b : α} (hb : b ∈ upsertKey key k update new l) :
    key b = k ∧ (b = new ∨ ∃ a ∈ l, key a = k ∧ b = update a) ∨ key b ≠ k ∧ b ∈ l := by
  unfold upsertKey at hb
  split at hb
  · obtain ⟨a, ha, rfl⟩ := List.mem_map.mp hb
    split
    · next hk => exact .inl ⟨hupdate a hk, .inr ⟨a, ha, hk, rfl⟩⟩
    · next hk => exact .inr ⟨hk, ha⟩
  · next hnone =>
    obtain hb | hb := List.mem_append.mp hb
    · exact .inr ⟨lookupKey_eq_none_iff.mp hnone b hb, hb⟩
    · obtain rfl := List.mem_singleton.mp hb
      exact .inl ⟨hnew, .inl rfl⟩

theorem lookupKey_upsertKey_self (h : (l.map key).Nodup) :
    lookupKey key (upsertKey key k update new l) k =
      some (((lookupKey key l k).map update).getD new) := by
  refine (lookupKey_eq_some_iff (nodup_upsertKey hupdate hnew h)).mpr ?_
  unfold upsertKey
  cases hfind : lookupKey key l k with
  | some a =>
    obtain ⟨ha, hk⟩ := mem_of_lookupKey hfind
    exact ⟨List.mem_map.mpr ⟨a, ha, if_pos hk⟩, hupdate a hk⟩
  | none => exact ⟨List.mem_append_right l List.mem_cons_self, hnew⟩

theorem lookupKey_upsertKey_of_ne (h : (l.map key).Nodup) {j : κ} (hne : j ≠ k) :
    lookupKey key (upsertKey key k update new l) j = lookupKey key l j := by
  refine Option.ext fun b => ?_
  rw [lookupKey_eq_some_iff (nodup_upsertKey hupdate hnew h), lookupKey_eq_some_iff h]
  refine ⟨fun ⟨hb, hkey⟩ => ⟨?_, hkey⟩, fun ⟨hb, hkey⟩ => ⟨?_, hkey⟩⟩
  · obtain ⟨hk, -⟩ | ⟨-, hb⟩ := mem_upsertKey hupdate hnew hb
    · exact absurd (hkey.symm.trans hk) hne
    · exact hb
  · unfold upsertKey
    split
    · refine List.mem_map.mpr ⟨b, hb, if_neg ?_⟩
      rwa [hkey]
    · exact List.mem_append_left _ hb

end Upsert

end Buzz

/-! ## The latest element of each key -/

namespace Buzz

variable {α κ ρ : Type*} [DecidableEq κ] [LinearOrder ρ] (key : α → κ) (rank : α → ρ)

/-- The element replaces the one of its key, if it is later. -/
def keepLatest (kept : List α) (a : α) : List α :=
  upsertKey key (key a) (fun b => if rank b < rank a then a else b) a kept

def latestPerKey (l : List α) : List α := l.foldl (keepLatest key rank) []

variable {key rank} {l kept : List α} {a b : α}

omit [DecidableEq κ] in
theorem key_update (a b : α) (h : key b = key a) :
    key (if rank b < rank a then a else b) = key a := by
  split
  · rfl
  · exact h

/-- What is kept of the elements so far. -/
structure Latest (key : α → κ) (rank : α → ρ) (l kept : List α) : Prop where
  nodup : (kept.map key).Nodup
  mem : ∀ a ∈ kept, a ∈ l
  le : ∀ a ∈ kept, ∀ b ∈ l, key b = key a → rank b ≤ rank a
  covers : ∀ b ∈ l, ∃ a ∈ kept, key a = key b

theorem Latest.snoc (h : Latest key rank l kept) (a : α) :
    Latest key rank (l ++ [a]) (keepLatest key rank kept a) := by
  have hupdate : ∀ b, key b = key a → key (if rank b < rank a then a else b) = key a :=
    fun b hb => key_update a b hb
  have hnodup : ((keepLatest key rank kept a).map key).Nodup :=
    nodup_upsertKey hupdate rfl h.nodup
  have hself : lookupKey key (keepLatest key rank kept a) (key a) =
      some (((lookupKey key kept (key a)).map fun b => if rank b < rank a then a else b).getD a) :=
    lookupKey_upsertKey_self hupdate rfl h.nodup
  -- what an element is, that is kept afterwards
  have hcases : ∀ c ∈ keepLatest key rank kept a, key c = key a ∧
      (c = a ∧ (∀ b ∈ l, key b = key a → rank b ≤ rank a) ∨ c ∈ kept ∧ rank a ≤ rank c) ∨
        key c ≠ key a ∧ c ∈ kept := by
    intro c hc
    rcases mem_upsertKey hupdate rfl hc with ⟨hkey, -⟩ | hother
    · refine .inl ⟨hkey, ?_⟩
      have hfound := (lookupKey_eq_some_iff hnodup).mpr ⟨hc, hkey⟩
      rw [hself, Option.some.injEq] at hfound
      cases hlookup : lookupKey key kept (key a) with
      | none =>
        rw [hlookup] at hfound
        refine .inl ⟨hfound.symm, fun b hb hkey => ?_⟩
        obtain ⟨d, hd, hdkey⟩ := h.covers b hb
        exact absurd (hdkey.trans hkey) (lookupKey_eq_none_iff.mp hlookup d hd)
      | some d =>
        rw [hlookup] at hfound
        obtain ⟨hd, hdkey⟩ := mem_of_lookupKey hlookup
        have hvalue : (if rank d < rank a then a else d) = c := hfound
        split at hvalue
        · next hlt =>
          refine .inl ⟨hvalue.symm, fun b hb hkey => ?_⟩
          exact le_trans (h.le d hd b hb (hkey.trans hdkey.symm)) (le_of_lt hlt)
        · next hle =>
          subst hvalue
          exact .inr ⟨hd, not_lt.mp hle⟩
    · exact .inr hother
  refine ⟨hnodup, fun c hc => ?_, fun c hc b hb hkey => ?_,
    fun b hb => ?_⟩
  · rcases hcases c hc with ⟨-, ⟨rfl, -⟩ | ⟨hkept, -⟩⟩ | ⟨-, hkept⟩
    · simp
    · exact List.mem_append_left _ (h.mem c hkept)
    · exact List.mem_append_left _ (h.mem c hkept)
  · rw [List.mem_append, List.mem_singleton] at hb
    rcases hcases c hc with ⟨hc', ⟨rfl, hle⟩ | ⟨hkept, hle⟩⟩ | ⟨hc', hkept⟩
    · rcases hb with hb | rfl
      · exact hle b hb hkey
      · exact le_rfl
    · rcases hb with hb | rfl
      · exact h.le c hkept b hb hkey
      · exact hle
    · rcases hb with hb | rfl
      · exact h.le c hkept b hb hkey
      · exact absurd hkey.symm hc'
  · by_cases hkey : key b = key a
    · obtain ⟨hmem, hfound⟩ := mem_of_lookupKey hself
      exact ⟨_, hmem, hfound.trans hkey.symm⟩
    · rw [List.mem_append, List.mem_singleton] at hb
      obtain ⟨d, hd, hdkey⟩ := h.covers b (hb.resolve_right fun heq => hkey (congrArg key heq))
      have hother : lookupKey key (keepLatest key rank kept a) (key b) = lookupKey key kept (key b) :=
        lookupKey_upsertKey_of_ne hupdate rfl h.nodup hkey
      rw [(lookupKey_eq_some_iff h.nodup).mpr ⟨hd, hdkey⟩] at hother
      exact ⟨d, (mem_of_lookupKey hother).1, hdkey⟩

/-- **What is kept** of a list. -/
theorem latest_latestPerKey (key : α → κ) (rank : α → ρ) (l : List α) :
    Latest key rank l (latestPerKey key rank l) := by
  have hgeneral : ∀ done kept, Latest key rank done kept →
      Latest key rank (done ++ l) (l.foldl (keepLatest key rank) kept) := by
    induction l with
    | nil => exact fun done kept h => by rwa [List.append_nil]
    | cons a l ih =>
      intro done kept h
      have hnext := ih (done ++ [a]) _ (h.snoc a)
      rwa [List.append_assoc, List.singleton_append] at hnext
  exact hgeneral [] [] ⟨List.nodup_nil, fun _ h => (nomatch h), fun _ h => (nomatch h),
    nofun⟩

/-- **The latest element of each key**, where its rank tells it apart. -/
theorem mem_latestPerKey_iff
    (hrank : ∀ a ∈ l, ∀ b ∈ l, key a = key b → rank a = rank b → a = b) :
    a ∈ latestPerKey key rank l ↔ a ∈ l ∧ ∀ b ∈ l, key b = key a → rank b ≤ rank a := by
  have h := latest_latestPerKey key rank l
  refine ⟨fun ha => ⟨h.mem a ha, h.le a ha⟩, ?_⟩
  rintro ⟨ha, hle⟩
  obtain ⟨b, hb, hkey⟩ := h.covers a ha
  have heq : rank a = rank b :=
    le_antisymm (h.le b hb a ha hkey.symm) (hle b (h.mem b hb) hkey)
  rwa [hrank a ha b (h.mem b hb) hkey.symm heq]

theorem nodup_latestPerKey (l : List α) : (latestPerKey key rank l).Nodup :=
  (latest_latestPerKey key rank l).nodup.of_map key

end Buzz

/-! ## Lists by key -/

namespace Buzz

variable {κ α β : Type*}

/-- Items together with the key they are kept under. -/
def placed (f : α → β) (k : κ) (l : List α) : List (κ × β) := l.map fun a => (k, f a)

def contents (f : α → β) (m : AList fun _ : κ => List α) : List (κ × β) :=
  m.entries.flatMap fun e => placed f e.1 e.2

@[simp] theorem contents_empty (f : α → β) : contents f (∅ : AList fun _ : κ => List α) = [] := rfl

@[simp] theorem placed_nil (f : α → β) (k : κ) : placed f k [] = [] := rfl

@[simp] theorem placed_append (f : α → β) (k : κ) (l₁ l₂ : List α) :
    placed f k (l₁ ++ l₂) = placed f k l₁ ++ placed f k l₂ := List.map_append

@[simp] theorem placed_cons (f : α → β) (k : κ) (a : α) (l : List α) :
    placed f k (a :: l) = (k, f a) :: placed f k l := rfl

theorem placed_map {γ : Type*} (f : α → β) (g : γ → α) (k : κ) (l : List γ) :
    placed f k (l.map g) = placed (f ∘ g) k l := by
  simp [placed]

variable [DecidableEq κ]

def listAt (m : AList fun _ : κ => List α) (k : κ) : List α := (m.lookup k).getD []

variable {m : AList fun _ : κ => List α} {k : κ}

theorem listAt_of_lookup_eq_none (h : m.lookup k = none) : listAt m k = [] := by
  rw [listAt, h]
  rfl

theorem listAt_of_lookup_eq_some {l : List α} (h : m.lookup k = some l) : listAt m k = l := by
  rw [listAt, h]
  rfl

@[simp] theorem listAt_insert_self (m : AList fun _ : κ => List α) (k : κ) (l : List α) :
    listAt (m.insert k l) k = l :=
  listAt_of_lookup_eq_some (AList.lookup_insert m)

theorem listAt_insert_of_ne (m : AList fun _ : κ => List α) {k' : κ} (h : k' ≠ k) (l : List α) :
    listAt (m.insert k l) k' = listAt m k' := by
  rw [listAt, AList.lookup_insert_ne h, listAt]

@[simp] theorem listAt_erase_self (m : AList fun _ : κ => List α) (k : κ) :
    listAt (m.erase k) k = [] :=
  listAt_of_lookup_eq_none (AList.lookup_erase k m)

theorem listAt_erase_of_ne (m : AList fun _ : κ => List α) {k' : κ} (h : k' ≠ k) :
    listAt (m.erase k) k' = listAt m k' := by
  rw [listAt, AList.lookup_erase_ne h, listAt]

theorem lookup_filter (m : AList fun _ : κ => α) (p : (Σ _ : κ, α) → Bool) (k : κ) :
    (m.entries.filter p).toAList.lookup k = (m.lookup k).filter fun a => p ⟨k, a⟩ := by
  have hnodup : (m.entries.filter p).NodupKeys := m.nodupKeys.sublist List.filter_sublist
  rw [AList.lookup_to_alist]
  ext a
  rw [← Option.mem_def, List.mem_dlookup_iff hnodup, List.mem_filter, ← AList.mem_lookup_iff,
    ← Option.mem_def, Option.mem_filter_iff]

/-! ### A property of every stored list -/

/-- Every stored list has a property that may mention its key. -/
def EachList (P : κ → List α → Prop) (m : AList fun _ : κ => List α) : Prop :=
  ∀ k l, m.lookup k = some l → P k l

theorem eachList_empty (P : κ → List α → Prop) : EachList P ∅ := by
  intro k l hl
  rw [AList.lookup_empty] at hl
  nomatch hl

variable {P : κ → List α → Prop}

theorem EachList.insert (h : EachList P m) {l : List α} (hl : P k l) :
    EachList P (m.insert k l) := by
  intro k' l' hlookup
  by_cases hk : k' = k
  · subst hk
    rw [AList.lookup_insert] at hlookup
    cases hlookup
    exact hl
  · rw [AList.lookup_insert_ne hk] at hlookup
    exact h k' l' hlookup

theorem EachList.erase (h : EachList P m) (k : κ) : EachList P (m.erase k) := by
  intro k' l' hlookup
  by_cases hk : k' = k
  · subst hk
    rw [AList.lookup_erase] at hlookup
    nomatch hlookup
  · rw [AList.lookup_erase_ne hk] at hlookup
    exact h k' l' hlookup

theorem EachList.at (h : EachList P m) (hne : listAt m k ≠ []) : P k (listAt m k) := by
  cases hlookup : m.lookup k with
  | none => exact absurd (listAt_of_lookup_eq_none hlookup) hne
  | some l =>
    rw [listAt_of_lookup_eq_some hlookup]
    exact h k l hlookup

variable [DecidableEq β]

theorem count_contents_erase (f : α → β) (m : AList fun _ : κ => List α) (k : κ) (x : κ × β) :
    (contents f (m.erase k)).count x + (placed f k (listAt m k)).count x =
      (contents f m).count x := by
  show ((m.entries.kerase k).flatMap fun e => placed f e.1 e.2).count x + _ = _
  by_cases hk : k ∈ m.entries.keys
  · obtain ⟨l, l₁, l₂, -, hentries, hkerase⟩ := List.exists_of_kerase hk
    have hmem : (⟨k, l⟩ : Sigma fun _ : κ => List α) ∈ m.entries := by simp [hentries]
    rw [listAt_of_lookup_eq_some (AList.mem_lookup_iff.mpr hmem), hkerase, contents, hentries]
    simp only [List.flatMap_append, List.flatMap_cons, List.count_append]
    omega
  · have hnone : m.lookup k = none := AList.lookup_eq_none.mpr hk
    rw [listAt_of_lookup_eq_none hnone, List.kerase_of_notMem_keys hk, placed_nil, List.count_nil]
    rfl

/-- Putting a list under a key takes the old one out of the store. -/
theorem count_contents_insert (f : α → β) (m : AList fun _ : κ => List α) (k : κ) (l : List α)
    (x : κ × β) :
    (contents f (m.insert k l)).count x + (placed f k (listAt m k)).count x =
      (contents f m).count x + (placed f k l).count x := by
  have herase := count_contents_erase f m k x
  have hinsert : contents f (m.insert k l) = placed f k l ++ contents f (m.erase k) := by
    rw [contents, AList.entries_insert, List.flatMap_cons]
    rfl
  rw [hinsert, List.count_append]
  omega

end Buzz
