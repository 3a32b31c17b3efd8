import Buzz.Db.Dm.OpenDm

/-!
# Sets of participants, and what is written for them

A set of participants and its hash determine each other, so the unique index on hashes is one on
sets. The rows that a transaction has written make a DM of the whole set when it commits.
-/

namespace Buzz.Dm

open List
open Channel (Pubkey ChannelKey)

variable {Digest : Type} {sha256 : List UInt8 → Digest}

/-! ### Sets of participants and their hashes -/

namespace Request

variable (q : Request)

theorem mem_all {pk : Pubkey} : pk ∈ q.all ↔ pk ∈ q.createdBy :: q.pubkeys := by
  rw [all]
  split
  · next h =>
    rw [mem_cons]
    exact ⟨Or.inr, fun hpk => hpk.elim (fun heq => heq ▸ h) id⟩
  · simp [or_comm]

@[simp] theorem mem_participants {pk : Pubkey} : pk ∈ q.participants ↔ pk ∈ q.all := by
  simp [participants, mem_all]

theorem participants_eq : q.participants = q.all.toFinset := by
  ext pk
  simp [mem_participants]

theorem length_eq_of_mem_all {pk : Pubkey} (h : pk ∈ q.all) : pk.length = 32 :=
  q.length_eq pk (q.mem_all.mp h)

theorem card_le_length : q.participants.card ≤ q.all.length := by
  rw [participants_eq]
  exact q.all.toFinset_card_le

end Request

theorem flatten_inj_of_length {n : Nat} (hn : 0 < n) {l m : List (List UInt8)}
    (hl : ∀ bs ∈ l, bs.length = n) (hm : ∀ bs ∈ m, bs.length = n) (h : l.flatten = m.flatten) :
    l = m := by
  have hconst : ∀ k : List (List UInt8), (∀ bs ∈ k, bs.length = n) →
      k.map length = replicate k.length n := fun k hk => map_eq_replicate_iff.mpr hk
  have hlength := congrArg length h
  rw [length_flatten, length_flatten, hconst l hl, hconst m hm, sum_replicate_nat,
    sum_replicate_nat] at hlength
  refine eq_iff_flatten_eq.mpr ⟨h, ?_⟩
  rw [hconst l hl, hconst m hm, Nat.eq_of_mul_eq_mul_right hn hlength]

theorem mem_iff_of_hashed_eq {l m : List Pubkey} (hl : ∀ pk ∈ l, pk.length = 32)
    (hm : ∀ pk ∈ m, pk.length = 32) (h : hashed l = hashed m) (pk : Pubkey) :
    pk ∈ l ↔ pk ∈ m := by
  have heq : sortDedup l = sortDedup m :=
    flatten_inj_of_length (n := 32) (by decide) (fun bs hbs => hl bs (mem_sortDedup.mp hbs))
      (fun bs hbs => hm bs (mem_sortDedup.mp hbs)) h
  exact sortDedup_eq_iff.mp heq pk

theorem hashed_congr {l m : List Pubkey} (h : ∀ pk, pk ∈ l ↔ pk ∈ m) : hashed l = hashed m := by
  rw [hashed, hashed, sortDedup_eq_iff.mpr h]

theorem computeParticipantHash_congr {l m : List Pubkey} (h : ∀ pk, pk ∈ l ↔ pk ∈ m) :
    computeParticipantHash sha256 l = computeParticipantHash sha256 m := by
  rw [computeParticipantHash, computeParticipantHash, hashed_congr h]

theorem ChannelRow.Conflicts.symm {r s : ChannelRow Digest} (h : r.Conflicts s) :
    s.Conflicts r := by
  obtain hkey | ⟨hcommunity, hhash, hsome⟩ := h
  · exact .inl hkey.symm
  · exact .inr ⟨hcommunity.symm, hhash.symm, hhash ▸ hsome⟩

/-! ### Members -/

theorem mem_insertMember {members : List MemberRow} {m : MemberRow} (hself : m.rejoin m = m)
    (honly : ∀ old ∈ members, old.key = m.key → old = m) (n : MemberRow) :
    n ∈ insertMember members m ↔ n ∈ members ∨ n = m := by
  have hmap : ∀ old ∈ members, (if old.key = m.key then m.rejoin old else old) = old := by
    intro old hold
    split
    · next hkey => rw [honly old hold hkey, hself]
    · rfl
  rw [insertMember]
  split
  · next hany =>
    obtain ⟨old, hold, hkey⟩ := any_eq_true.mp hany
    rw [map_congr_left hmap, map_id']
    refine ⟨Or.inl, fun h => h.elim id ?_⟩
    rintro rfl
    rwa [← honly old hold (of_decide_eq_true hkey)]
  · simp

theorem mem_foldl_insertMember {added members : List MemberRow}
    (hself : ∀ m ∈ added, m.rejoin m = m)
    (honly : ∀ m ∈ added, ∀ old ∈ members ++ added, old.key = m.key → old = m) (n : MemberRow) :
    n ∈ added.foldl insertMember members ↔ n ∈ members ∨ n ∈ added := by
  induction added generalizing members with
  | nil => simp
  | cons m added ih =>
    have hhead := mem_insertMember (hself m mem_cons_self) fun old hold =>
      honly m mem_cons_self old (mem_append_left _ hold)
    rw [foldl_cons, ih (fun k hk => hself k (mem_cons_of_mem m hk)), hhead, mem_cons,
      or_assoc]
    intro k hk old hold
    refine honly k (mem_cons_of_mem m hk) old ?_
    rw [mem_append, hhead, or_assoc] at hold
    simpa using hold

namespace Db

variable (db : Db Digest)

@[simp] theorem active_setHidden {k j : ChannelKey} {pk pk' : Pubkey} {t : Option Int} :
    (db.setHidden k pk t).1.Active j pk' ↔ db.Active j pk' := by
  constructor
  · rintro ⟨m, hm, hkey, hremoved⟩
    obtain ⟨old, hold, rfl⟩ := mem_map.mp hm
    refine ⟨old, hold, ?_⟩
    split at hkey <;> split at hremoved <;> exact ⟨hkey, hremoved⟩
  · rintro ⟨m, hm, hkey, hremoved⟩
    refine ⟨_, mem_map_of_mem hm, ?_⟩
    split
    · exact ⟨hkey, hremoved⟩
    · exact ⟨hkey, hremoved⟩

/-- The active members of a channel. -/
def activeMembers (k : ChannelKey) : List Pubkey :=
  (db.members.filter fun m => m.key.1 = k ∧ m.removedAt = none).map MemberRow.pubkey

/-- The texts behind the hashes of the live DMs. -/
def texts : List (List UInt8) :=
  (db.channels.filter fun r => r.Live).map fun r => hashed (db.activeMembers r.key)

variable {db}

@[simp] theorem mem_activeMembers {k : ChannelKey} {pk : Pubkey} :
    pk ∈ db.activeMembers k ↔ db.Active k pk := by
  simp [activeMembers, Active, MemberRow.key, and_comm, and_left_comm]

theorem mem_texts {t : List UInt8} :
    t ∈ db.texts ↔ ∃ r ∈ db.channels, r.Live ∧ hashed (db.activeMembers r.key) = t := by
  simp [texts, and_assoc]

theorem texts_setHidden (k : ChannelKey) (pk : Pubkey) (t : Option Int) :
    (db.setHidden k pk t).1.texts = db.texts :=
  map_congr_left fun r _ => hashed_congr fun pk' => by simp

variable (db)

theorem not_hidden_setHidden_none (k : ChannelKey) (pk : Pubkey) :
    ¬(db.setHidden k pk none).1.Hidden k pk := by
  rintro ⟨m, hm, hkey, hremoved, hhidden⟩
  obtain ⟨old, hold, rfl⟩ := mem_map.mp hm
  split at hhidden
  · exact hhidden rfl
  · next hmiss =>
    rw [if_neg hmiss] at hkey hremoved
    exact hmiss (decide_eq_true ⟨hkey, hremoved⟩)

end Db

namespace Sound

variable {db : Db Digest}

theorem setHidden (h : Sound sha256 db) (k : ChannelKey) (pk : Pubkey) (t : Option Int) :
    Sound sha256 (db.setHidden k pk t).1 where
  unique := h.unique
  foreign m hm := by
    obtain ⟨old, hold, rfl⟩ := mem_map.mp hm
    obtain ⟨r, hr, hkey⟩ := h.foreign old hold
    refine ⟨r, hr, ?_⟩
    split
    · exact hkey
    · exact hkey
  live r hr hlive := by
    obtain ⟨pubkeys, hlength, htwo, hnine, hhash, hmembers⟩ := h.live r hr hlive
    exact ⟨pubkeys, hlength, htwo, hnine, hhash, fun pk' =>
      (db.active_setHidden).trans (hmembers pk')⟩

theorem ne_key (h : Sound sha256 db) {row : ChannelRow Digest}
    (hnew : ∀ r ∈ db.channels, ¬r.Conflicts row) {m : MemberRow} (hm : m ∈ db.members) :
    m.key.1 ≠ row.key := by
  intro heq
  obtain ⟨r, hr, hkey⟩ := h.foreign m hm
  exact hnew r hr (.inl (hkey.trans heq))

end Sound

/-! ### What a transaction has written -/

/-- The tables after the commit of a transaction that creates a DM. -/
def Db.committed (db : Db Digest) (row : ChannelRow Digest) (added : List MemberRow) : Db Digest :=
  ⟨db.channels ++ [row], added.foldl insertMember db.members⟩

/-- The rows of a transaction that creates a DM, with the participants that are still to come. -/
structure Staged (sha256 : List UInt8 → Digest) (db : Db Digest) (q : Request)
    (row : ChannelRow Digest) (added : List MemberRow) (rest : List Pubkey) : Prop where
  two_le : 2 ≤ q.all.length
  row_eq : ∃ id, row = q.newRow sha256 id
  unique : ∀ r ∈ db.channels, ¬r.Conflicts row
  added_eq : ∀ m ∈ added, ∃ pk ∈ q.all, m = q.newMember row.id pk
  rest_subset : rest ⊆ q.all
  complete : ∀ pk ∈ q.all, pk ∈ rest ∨ q.newMember row.id pk ∈ added

namespace Staged

variable {db : Db Digest} {q : Request} {row : ChannelRow Digest} {added : List MemberRow}
  {rest : List Pubkey} {pk : Pubkey}

theorem key_newMember (q : Request) (id : Uuid) (pk : Pubkey) :
    (q.newMember id pk).key = ((q.community, id), pk) := rfl

theorem key_eq (h : Staged sha256 db q row added rest) : row.key = (q.community, row.id) := by
  obtain ⟨id, rfl⟩ := h.row_eq
  rfl

theorem eq_of_key (h : Staged sha256 db q row added rest) {m : MemberRow} (hm : m ∈ added)
    (hkey : m.key = ((q.community, row.id), pk)) : m = q.newMember row.id pk := by
  obtain ⟨pk', -, rfl⟩ := h.added_eq m hm
  rw [key_newMember, Prod.mk.injEq] at hkey
  rw [hkey.2]

theorem insertMember (h : Staged sha256 db q row added (pk :: rest)) :
    Staged sha256 db q row (insertMember added (q.newMember row.id pk)) rest := by
  have hmem : ∀ m, m ∈ Dm.insertMember added (q.newMember row.id pk) ↔
      m ∈ added ∨ m = q.newMember row.id pk :=
    mem_insertMember rfl fun old hold hkey => h.eq_of_key hold hkey
  obtain ⟨hpk, hrest⟩ := cons_subset.mp h.rest_subset
  refine ⟨h.two_le, h.row_eq, h.unique, fun m hm => ?_, hrest, fun pk' hpk' => ?_⟩
  · obtain hm | rfl := (hmem m).mp hm
    · exact h.added_eq m hm
    · exact ⟨pk, hpk, rfl⟩
  · rw [hmem]
    obtain hrest | hadded := h.complete pk' hpk'
    · obtain rfl | hrest := mem_cons.mp hrest
      · exact .inr (.inr rfl)
      · exact .inl hrest
    · exact .inr (.inl hadded)

variable (h : Staged sha256 db q row added []) (hsound : Sound sha256 db)
include h hsound

theorem mem_committed (m : MemberRow) :
    m ∈ (db.committed row added).members ↔
      m ∈ db.members ∨ ∃ pk ∈ q.all, m = q.newMember row.id pk := by
  rw [Db.committed, mem_foldl_insertMember]
  · refine or_congr_right ⟨h.added_eq m, ?_⟩
    rintro ⟨pk, hpk, rfl⟩
    exact (h.complete pk hpk).resolve_left not_mem_nil
  · intro n hn
    obtain ⟨pk, -, rfl⟩ := h.added_eq n hn
    rfl
  · intro n hn old hold hkey
    obtain ⟨pk, -, rfl⟩ := h.added_eq n hn
    obtain hold | hold := mem_append.mp hold
    · refine absurd ?_ (hsound.ne_key h.unique hold)
      rw [hkey, h.key_eq, key_newMember]
    · exact h.eq_of_key hold hkey

theorem active_committed {k : ChannelKey} :
    (db.committed row added).Active k pk ↔ db.Active k pk ∨ (k = row.key ∧ pk ∈ q.all) := by
  constructor
  · rintro ⟨m, hm, hkey, hremoved⟩
    obtain hm | ⟨pk', hpk', rfl⟩ := (h.mem_committed hsound m).mp hm
    · exact .inl ⟨m, hm, hkey, hremoved⟩
    · rw [key_newMember, Prod.mk.injEq] at hkey
      exact .inr ⟨by rw [h.key_eq, hkey.1], hkey.2 ▸ hpk'⟩
  · rintro (⟨m, hm, hkey, hremoved⟩ | ⟨rfl, hpk⟩)
    · exact ⟨m, (h.mem_committed hsound m).mpr (.inl hm), hkey, hremoved⟩
    · refine ⟨_, (h.mem_committed hsound _).mpr (.inr ⟨pk, hpk, rfl⟩), ?_, rfl⟩
      rw [h.key_eq, key_newMember]

/-- The members of a channel that was there stay. -/
theorem active_committed_of_mem {r : ChannelRow Digest} (hr : r ∈ db.channels) :
    (db.committed row added).Active r.key pk ↔ db.Active r.key pk := by
  rw [h.active_committed hsound]
  exact or_iff_left fun hnew => h.unique r hr (.inl hnew.1)

/-- The members of the new channel are the participants. -/
theorem active_committed_key : (db.committed row added).Active row.key pk ↔ pk ∈ q.all := by
  rw [h.active_committed hsound]
  refine ⟨fun hpk => hpk.elim ?_ And.right, fun hpk => .inr ⟨rfl, hpk⟩⟩
  rintro ⟨m, hm, hkey, -⟩
  exact absurd (by rw [hkey]) (hsound.ne_key h.unique hm)

theorem texts_committed_subset : (db.committed row added).texts ⊆ hashed q.all :: db.texts := by
  intro t ht
  obtain ⟨r, hr, hlive, rfl⟩ := Db.mem_texts.mp ht
  obtain hr | hr := mem_append.mp hr
  · refine mem_cons_of_mem _ (Db.mem_texts.mpr ⟨r, hr, hlive, hashed_congr fun pk => ?_⟩)
    rw [Db.mem_activeMembers, Db.mem_activeMembers, h.active_committed_of_mem hsound hr]
  · obtain rfl := mem_singleton.mp hr
    refine mem_cons.mpr (.inl (hashed_congr fun pk => ?_))
    rw [Db.mem_activeMembers, h.active_committed_key hsound]

theorem not_hidden_committed : ¬(db.committed row added).Hidden row.key pk := by
  rintro ⟨m, hm, hkey, -, hhidden⟩
  obtain hm | ⟨pk', -, rfl⟩ := (h.mem_committed hsound m).mp hm
  · refine absurd ?_ (hsound.ne_key h.unique hm)
    rw [hkey]
  · exact hhidden rfl

theorem sound_committed (hrange : q.InRange) : Sound sha256 (db.committed row added) where
  unique r hr s hs hrs := by
    obtain hr | hr := mem_append.mp hr
    · obtain hs | hs := mem_append.mp hs
      · exact hsound.unique r hr s hs hrs
      · exact absurd (mem_singleton.mp hs ▸ hrs) (h.unique r hr)
    · have hrow := mem_singleton.mp hr
      obtain hs | hs := mem_append.mp hs
      · exact absurd (hrow ▸ hrs.symm) (h.unique s hs)
      · exact hrow.trans (mem_singleton.mp hs).symm
  foreign m hm := by
    obtain hm | ⟨pk, -, rfl⟩ := (h.mem_committed hsound m).mp hm
    · obtain ⟨r, hr, hkey⟩ := hsound.foreign m hm
      exact ⟨r, mem_append_left _ hr, hkey⟩
    · exact ⟨row, mem_append_right _ mem_cons_self, h.key_eq⟩
  live r hr hlive := by
    obtain hr | hr := mem_append.mp hr
    · obtain ⟨pubkeys, hlength, htwo, hnine, hhash, hmembers⟩ := hsound.live r hr hlive
      exact ⟨pubkeys, hlength, htwo, hnine, hhash, fun pk =>
        (h.active_committed_of_mem hsound hr).trans (hmembers pk)⟩
    · obtain rfl := mem_singleton.mp hr
      rw [Request.InRange, q.participants_eq] at hrange
      refine ⟨q.all, fun pk hpk => q.length_eq_of_mem_all hpk, hrange.1, hrange.2, ?_, fun pk =>
        h.active_committed_key hsound⟩
      obtain ⟨id, rfl⟩ := h.row_eq
      rfl

end Staged

end Buzz.Dm
