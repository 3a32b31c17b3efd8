import Buzz.Db.Channel.Rows
import Buzz.Lib.Sheltered

/-!
# The owners of a channel

Calls on one channel, in any interleaving of their statements. Additions and removals of members
exclude each other by the lock of the channel, and both refuse to take its last owner away. A
creation does not take the lock. A member that removes itself reads its role first and writes
afterwards: when the creation of the channel commits between the two, the role that it has read is
that of nobody, and the row that it removes is that of the only owner.
-/

namespace Buzz.Channel

open List Option

abbrev ChannelWorld := World ChannelDb Call LockKey Reply

abbrev ChannelSession := Session ChannelDb Call LockKey Reply

variable {db db' : ChannelDb} {k : ChannelKey} {next : ChannelTxn}

/-! ### What a call sees of a channel -/

/-- The same rows of a channel, and the same users. -/
structure Same (k : ChannelKey) (db db' : ChannelDb) : Prop where
  channel : lookupKey ChannelRow.key db.channels k = lookupKey ChannelRow.key db'.channels k
  members : db.membersOf k = db'.membersOf k
  users : db.users = db'.users

theorem Same.getChannel (h : Same k db db') : db.getChannel k = db'.getChannel k := by
  rw [ChannelDb.getChannel, h.channel]
  rfl

theorem Same.lookup (h : Same k db db') (pubkey : Pubkey) :
    lookupKey MemberRow.key db.members (k, pubkey) =
      lookupKey MemberRow.key db'.members (k, pubkey) := by
  rw [← ChannelDb.lookup_membersOf, h.members, ChannelDb.lookup_membersOf]

theorem Same.role (h : Same k db db') (pubkey : Pubkey) :
    db.getActiveRole k pubkey = db'.getActiveRole k pubkey := by
  rw [ChannelDb.getActiveRole, h.lookup]
  rfl

theorem Same.count (h : Same k db db') : db.ownerCount k = db'.ownerCount k := by
  rw [ChannelDb.ownerCount_eq_membersOf, h.members, ← ChannelDb.ownerCount_eq_membersOf]

theorem alike_fails (e : DbError) : (fails e).Alike db db' := trivial

theorem alike_ite {c : Prop} [Decidable c] {p p' : ChannelTxn} (hp : p.Alike db db')
    (hp' : p'.Alike db db') : (if c then p else p').Alike db db' := by
  split
  · exact hp
  · exact hp'

theorem alike_role (h : Same k db db') {pubkey : Pubkey} {f : Option MemberRole → ChannelTxn}
    (hf : (f (db.getActiveRole k pubkey)).Alike db db') :
    (getActiveRoleTx k pubkey f).Alike db db' :=
  Txn.alike_read (h.role pubkey) hf

theorem alike_unlessLastOwner (h : Same k db db') {reason : String} (hnext : next.Alike db db') :
    (unlessLastOwner k reason next).Alike db db' := by
  refine Txn.alike_read h.count ?_
  split
  · exact alike_fails _
  · exact hnext

/-! ### Additions see the channel -/

section Add

variable {q : AddMember}

theorem alike_effectiveRole (h : Same q.key db db') {channel : ChannelRow}
    (hnext : next.Alike db db') : (q.effectiveRole channel next).Alike db db' := by
  rw [AddMember.effectiveRole]
  split
  · cases q.invitedBy with
    | none => exact alike_fails _
    | some inviter =>
      dsimp only
      split
      · exact hnext
      · refine alike_role h ?_
        cases db.getActiveRole q.key inviter with
        | none => exact alike_fails _
        | some r =>
          dsimp only
          split
          · exact alike_fails _
          · exact hnext
  · split
    · cases q.invitedBy with
      | none => exact alike_fails _
      | some inviter =>
        refine alike_role h ?_
        split
        · exact hnext
        · exact hnext
        · exact alike_fails _
    · exact hnext

theorem alike_guardChange (h : Same q.key db db') (hnext : next.Alike db db') :
    (q.guardChange next).Alike db db' := by
  refine alike_role h ?_
  cases (db.getActiveRole q.key q.pubkey).filter fun r => r != q.role with
  | none => exact hnext
  | some current =>
    cases q.invitedBy with
    | none => exact alike_fails _
    | some inviter =>
      refine alike_role h ?_
      split
      · split
        · exact alike_unlessLastOwner h hnext
        · exact hnext
      · exact alike_fails _

theorem alike_upsert (h : Same q.key db db') (hdb : Keyed db) (hdb' : Keyed db') :
    q.upsert.Alike db db' := by
  refine Txn.alike_write rfl (Txn.alike_read ?_ ?_)
  · rw [ChannelDb.upsertMember, ChannelDb.upsertMember]
    show lookupKey MemberRow.key (upsertKey MemberRow.key q.row.key _ _ _) q.row.key =
      lookupKey MemberRow.key (upsertKey MemberRow.key q.row.key _ _ _) q.row.key
    rw [lookupKey_upsertKey_self key_rejoin rfl hdb.nodup,
      lookupKey_upsertKey_self key_rejoin rfl hdb'.nodup]
    exact congrArg (fun o : Option MemberRow => some ((o.map q.row.rejoin).getD q.row))
      (h.lookup q.pubkey)
  · split
    · exact alike_fails _
    · trivial

theorem alike_addMember (h : Same q.key db db') (hdb : Keyed db) (hdb' : Keyed db') :
    (addMember q).Alike db db' := by
  rw [addMember]
  split
  · exact alike_fails _
  · refine Txn.alike_lock (Txn.alike_read h.getChannel ?_)
    cases db.getChannel q.key with
    | none => exact alike_fails _
    | some channel =>
      exact alike_effectiveRole h (alike_guardChange h (alike_upsert h hdb hdb'))

end Add

/-! ### Removals see the channel -/

section Remove

variable {q : RemoveMember}

theorem alike_locked (h : Same q.key db db') (b : Bool) : (q.locked b).Alike db db' := by
  have hupdate : q.update.Alike db db' := by
    refine ⟨rfl, ?_, ?_⟩
    · simp [h.role]
    · exact alike_ite (alike_fails _) trivial
  have howner : (q.guardOwner q.update).Alike db db' := by
    refine alike_role h ?_
    split
    · exact alike_unlessLastOwner h hupdate
    · exact hupdate
  refine Txn.alike_lock ?_
  rw [RemoveMember.authorize]
  split
  · exact howner
  · refine alike_role h ?_
    cases db.getActiveRole q.key q.actor with
    | none => exact alike_fails _
    | some r =>
      dsimp only
      split
      · exact alike_fails _
      · exact howner

theorem alike_removeMember (h : Same q.key db db') : (removeMember q).Alike db db' := by
  rw [removeMember]
  split
  · exact alike_locked h false
  · refine Txn.alike_read ?_ (alike_locked h _)
    rw [ChannelDb.isAgentOwner, h.users]
    rfl

end Remove

/-! ### Creations see the channel -/

section Create

variable {q : CreateChannel}

theorem alike_record (h : lookupKey ChannelRow.key db.channels q.key =
    lookupKey ChannelRow.key db'.channels q.key) (b : Bool) : (q.record b).Alike db db' := by
  refine Txn.alike_read h ?_
  split
  · exact alike_fails _
  · trivial

theorem alike_insert (h : lookupKey ChannelRow.key db.channels q.key =
      lookupKey ChannelRow.key db'.channels q.key) {conflict : ChannelTxn}
    (hconflict : conflict.Alike db db') :
    (q.insert conflict (q.insertOwner (q.record true))).Alike db db' := by
  refine Txn.alike_lock (Txn.alike_read (congrArg isSome h) ?_)
  split
  · exact hconflict
  · refine Txn.alike_write rfl (Txn.alike_write rfl (alike_record ?_ true))
    show lookupKey ChannelRow.key (db.insertChannel q.row).channels q.key =
      lookupKey ChannelRow.key (db'.insertChannel q.row).channels q.key
    rw [lookup_insertChannel, lookup_insertChannel, h]

theorem alike_createChannel (h : lookupKey ChannelRow.key db.channels q.key =
    lookupKey ChannelRow.key db'.channels q.key) : (createChannel q).Alike db db' := by
  rw [createChannel]
  generalize (trim (canonicalChannelName q.name)).isEmpty = unnamed
  refine alike_ite (alike_fails _) ?_
  refine alike_ite (alike_fails _) ?_
  exact alike_insert h (alike_fails _)

theorem alike_createChannelWithId (h : lookupKey ChannelRow.key db.channels q.key =
    lookupKey ChannelRow.key db'.channels q.key) : (createChannelWithId q).Alike db db' := by
  rw [createChannelWithId]
  generalize (trim (canonicalChannelName q.name)).isEmpty = unnamed
  refine alike_ite (alike_fails _) ?_
  refine alike_ite (alike_fails _) ?_
  refine alike_ite (alike_fails _) ?_
  exact alike_insert h (alike_record h false)

end Create

/-! ### Where a call stands -/

section Stands

variable {f f₀ : Frame ChannelDb LockKey Reply} {l : Lock LockKey} {p : ChannelTxn}

theorem doomed_of_leads (h : Frame.Leads db f₀ f) (hdoomed : f₀.todo.Doomed) : f.todo.Doomed :=
  h.invariant (P := fun f => f.todo.Doomed) (fun _ hf => Frame.doomed_next hf db) hdoomed

/-- The transaction fails at once, or begins with the lock. -/
def Locks (l : Lock LockKey) (p : ChannelTxn) : Prop :=
  (∃ e, p = fails e) ∨ ∃ next, p = .lock l next

theorem Locks.cases {held : List (Lock LockKey)} {change : ChannelDb → ChannelDb} (hp : Locks l p)
    (h : Frame.Leads db ⟨change, held, p⟩ f) : f = ⟨change, held, p⟩ ∨ l ∈ f.held := by
  obtain ⟨e, rfl⟩ | ⟨next, rfl⟩ := hp
  · exact .inl (h.invariant (P := fun f => f = ⟨change, held, fails e⟩)
      (fun f hf => by rw [hf]; rfl) rfl)
  · obtain rfl | hnext := h.of_lock
    · exact .inl rfl
    · exact .inr (hnext.held_subset (mem_cons_self ..))

theorem locks_addMember (q : AddMember) : Locks ⟨.membership q.key, .exclusive⟩ (addMember q) := by
  rw [addMember]
  split
  · exact .inl ⟨_, rfl⟩
  · exact .inr ⟨_, rfl⟩

theorem locks_locked (q : RemoveMember) (b : Bool) :
    Locks ⟨.membership q.key, .exclusive⟩ (q.locked b) := .inr ⟨_, rfl⟩

theorem locks_createChannel (q : CreateChannel) :
    Locks ⟨.channel q.key, .exclusive⟩ (createChannel q) := by
  rw [createChannel]
  split
  · exact .inl ⟨_, rfl⟩
  · split
    · exact .inl ⟨_, rfl⟩
    · exact .inr ⟨_, rfl⟩

theorem locks_createChannelWithId (q : CreateChannel) :
    Locks ⟨.channel q.key, .exclusive⟩ (createChannelWithId q) := by
  rw [createChannelWithId]
  split
  · exact .inl ⟨_, rfl⟩
  · split
    · exact .inl ⟨_, rfl⟩
    · split
      · exact .inl ⟨_, rfl⟩
      · exact .inr ⟨_, rfl⟩

variable {q : RemoveMember}

theorem removeMember_cases (h : Frame.Leads db (.start (removeMember q)) f) :
    f = .start (removeMember q) ∨ f = (Frame.start (removeMember q)).next db ∨
      ⟨.membership q.key, .exclusive⟩ ∈ f.held := by
  by_cases hself : q.pubkey = q.actor
  · rw [removeMember, if_pos hself] at h ⊢
    exact ((locks_locked q false).cases h).imp id .inr
  · rw [removeMember, if_neg hself] at h ⊢
    obtain rfl | hnext := h.cases
    · exact .inl rfl
    · exact .inr ((locks_locked q _).cases hnext)

theorem Locks.mem_of_commit (hp : Locks l p) (h : Frame.Leads db (.start p) f) {result : Reply}
    (hcommit : f.todo = .commit result) : l ∈ f.held := by
  obtain rfl | hmem := hp.cases h
  · obtain ⟨e, rfl⟩ | ⟨next, rfl⟩ := hp
    · cases hcommit
    · cases hcommit
  · exact hmem

theorem mem_of_commit_removeMember (h : Frame.Leads db (.start (removeMember q)) f)
    {result : Reply} (hcommit : f.todo = .commit result) :
    ⟨.membership q.key, .exclusive⟩ ∈ f.held := by
  by_cases hself : q.pubkey = q.actor
  · rw [removeMember, if_pos hself] at h
    exact (locks_locked q false).mem_of_commit h hcommit
  · rw [removeMember, if_neg hself] at h
    obtain rfl | hnext := h.cases
    · cases hcommit
    · obtain rfl | hmem := (locks_locked q _).cases hnext
      · cases hcommit
      · exact hmem

theorem removeMember_next (husers : db.users = db'.users) (q : RemoveMember) :
    (Frame.start (removeMember q)).next db = (Frame.start (removeMember q)).next db' := by
  by_cases hself : q.pubkey = q.actor
  · rw [removeMember, if_pos hself]
    rfl
  · rw [removeMember, if_neg hself]
    show (⟨_, _, q.locked (db.isAgentOwner _ _ _)⟩ : Frame ChannelDb LockKey Reply) =
      ⟨_, _, q.locked (db'.isAgentOwner _ _ _)⟩
    rw [ChannelDb.isAgentOwner, husers]
    rfl

theorem removeMember_stays (husers : db.users = db'.users)
    (h : Frame.Leads db (.start (removeMember q)) f)
    (hfree : ⟨.membership q.key, .exclusive⟩ ∉ f.held) :
    Frame.Leads db' (.start (removeMember q)) f := by
  obtain rfl | rfl | hheld := removeMember_cases h
  · exact .refl db' _
  · rw [removeMember_next husers]
    exact (Frame.Leads.refl db' _).next
  · exact absurd hheld hfree

end Stands

/-! ### Creations that overtake a removal -/

def done : ChannelTxn → Bool
  | .lock _ _ => false
  | .query _ _ => false
  | .commit _ => true
  | .rollback _ => true

/-- The next statement is the last one. A removal has then made its checks, and its `UPDATE` is
next. -/
def atLastStatement (db : ChannelDb) (f : Frame ChannelDb LockKey Reply) : Bool :=
  match f.todo with
  | .lock _ _ => false
  | .query _ rest => done (rest (f.change db))
  | .commit _ => false
  | .rollback _ => false

/-- A creator is being removed from the channel by itself: the call has read its role, and has not
removed its row. -/
def removesCreator (db : ChannelDb) (q : CreateChannel) (c : Call)
    (f : Frame ChannelDb LockKey Reply) : Bool :=
  match c with
  | .removeMember r =>
    r.key == q.key && r.pubkey == q.createdBy && r.actor == q.createdBy && atLastStatement db f
  | _ => false

def Call.creation : Call → Option CreateChannel
  | .createChannel q => some q
  | .createChannelWithId q => some q
  | .addMember _ => none
  | .removeMember _ => none

/-- The call creates a channel that is new while its creator is being removed from it. -/
def Overtakes (w : ChannelWorld) (s : ChannelSession) : Prop :=
  ∃ q ∈ s.request.creation, done s.frame.todo = true ∧ q.Creates w.db ∧
    ∃ t ∈ w.others s.id, removesCreator w.db q t.request t.frame = true

/-- The step is not the end of a creation that overtakes a removal. -/
def OvertakesNoRemoval (w : ChannelWorld) : SessionAction Call → Prop
  | .step id => ∀ s ∈ w.session id, ¬Overtakes w s
  | _ => True

instance (q : CreateChannel) (db : ChannelDb) : Decidable (q.Creates db) :=
  inferInstanceAs (Decidable (_ = _))

instance (w : ChannelWorld) (s : ChannelSession) : Decidable (Overtakes w s) :=
  match h : s.request.creation with
  | none => .isFalse fun ⟨q, hq, _⟩ => absurd (h ▸ hq) (not_mem_none q)
  | some q =>
    decidable_of_iff (done s.frame.todo = true ∧ q.Creates w.db ∧
      ∃ t ∈ w.others s.id, removesCreator w.db q t.request t.frame = true)
      ⟨fun hq => ⟨q, h, hq⟩, fun ⟨_, hq, hover⟩ => some.inj (h.symm.trans hq) ▸ hover⟩

instance (w : ChannelWorld) (a : SessionAction Call) : Decidable (OvertakesNoRemoval w a) :=
  match a with
  | .start _ _ => .isTrue trivial
  | .abort _ => .isTrue trivial
  | .step id => inferInstanceAs (Decidable (∀ s ∈ w.session id, ¬Overtakes w s))

/-! ### Where others stand after a commit -/

section Stable

variable {c : Call} {f : Frame ChannelDb LockKey Reply}

theorem stands_of_members (hkeyed : Keyed db) (hkeyed' : Keyed db')
    (hchannels : db.channels = db'.channels) (husers : db.users = db'.users)
    (hother : ∀ k', k ≠ k' → db.membersOf k' = db'.membersOf k')
    (h : Frame.Leads db (.start c.program) f) (hfree : ⟨.membership k, .exclusive⟩ ∉ f.held) :
    Frame.Leads db' (.start c.program) f := by
  have hsame : ∀ k', k ≠ k' → Same k' db db' := fun k' hne =>
    ⟨congrArg (lookupKey ChannelRow.key · k') hchannels, hother k' hne, husers⟩
  cases c with
  | createChannel q =>
    exact h.congr (alike_createChannel (congrArg (lookupKey ChannelRow.key · q.key) hchannels))
  | createChannelWithId q =>
    exact h.congr
      (alike_createChannelWithId (congrArg (lookupKey ChannelRow.key · q.key) hchannels))
  | addMember q =>
    by_cases hk : k = q.key
    · obtain rfl | hheld := (locks_addMember q).cases h
      · exact .refl db' _
      · exact absurd (hk ▸ hheld) hfree
    · exact h.congr (alike_addMember (hsame _ hk) hkeyed hkeyed')
  | removeMember q =>
    by_cases hk : k = q.key
    · exact removeMember_stays husers h (hk ▸ hfree)
    · exact h.congr (alike_removeMember (hsame _ hk))

variable {q : CreateChannel}

theorem same_created (hne : q.key ≠ k) : Same k db (q.created db) where
  channel := by
    have hlookup := lookup_insertChannel db k q.row
    rw [if_neg (show q.row.key ≠ k from hne), or_none] at hlookup
    exact hlookup.symm
  members := (ChannelDb.membersOf_upsertMember hne).symm
  users := rfl

theorem role_of_creates (hkeyed : Keyed db) (hq : q.Creates db) (pubkey : Pubkey) :
    db.getActiveRole q.key pubkey = none := by
  rw [ChannelDb.getActiveRole, ← ChannelDb.lookup_membersOf, hkeyed.membersOf_eq_nil hq]
  rfl

theorem role_created (hkeyed : Keyed db) (hq : q.Creates db) {pubkey : Pubkey}
    (hne : pubkey ≠ q.createdBy) : (q.created db).getActiveRole q.key pubkey = none := by
  have hrow : (q.key, pubkey) ≠ q.ownerRow.key := fun heq => hne (congrArg Prod.snd heq)
  have hlookup : lookupKey MemberRow.key (q.created db).members (q.key, pubkey) =
      lookupKey MemberRow.key db.members (q.key, pubkey) :=
    lookupKey_upsertKey_of_ne key_rejoin rfl hkeyed.nodup hrow
  have hnone := role_of_creates hkeyed hq pubkey
  rw [ChannelDb.getActiveRole] at hnone ⊢
  rwa [hlookup]

theorem addMember_created {q' : AddMember} (hq : q.Creates db) (hk : q.key = q'.key)
    (h : Frame.Leads db (.start (addMember q')) f) :
    StandsAlone (addMember q') (q.created db) f := by
  by_cases hlength : q'.pubkey.length ≠ 32
  · rw [addMember, if_pos hlength] at h ⊢
    exact .inl (h.congr (alike_fails _))
  · rw [addMember, if_neg hlength] at h ⊢
    obtain rfl | h := h.of_lock
    · exact .inl (.refl _ _)
    obtain rfl | h := h.cases
    · exact .inl (Frame.Leads.refl _ _).next
    · have hnone : db.getChannel q'.key = none := by
        have hlookup : lookupKey ChannelRow.key db.channels q.key = none := hq
        rw [ChannelDb.getChannel, ← hk, hlookup]
        rfl
      refine .inr (doomed_of_leads h ?_)
      dsimp only [Frame.next, Txn.read, id_eq]
      rw [hnone]
      trivial

variable {r : RemoveMember}

theorem removeMember_created_other (hkeyed : Keyed db) (hq : q.Creates db) (hk : q.key = r.key)
    (hself : r.pubkey ≠ r.actor) (h : Frame.Leads db (.start (removeMember r)) f) :
    StandsAlone (removeMember r) (q.created db) f := by
  have husers : db.users = (q.created db).users := rfl
  have hnext := removeMember_next husers r
  obtain rfl | h := h.cases
  · exact .inl (.refl _ _)
  obtain rfl | h := h.cases
  · rw [hnext]
    exact .inl (Frame.Leads.refl _ _).next
  rw [removeMember, if_neg hself] at h hnext ⊢
  obtain rfl | h := h.cases
  · have hheld : ((Frame.start (.read (fun db => db.isAgentOwner r.community r.pubkey r.actor)
        r.locked)).next db).next db =
        ((Frame.start (.read (fun db => db.isAgentOwner r.community r.pubkey r.actor)
          r.locked)).next db).next (q.created db) := rfl
    rw [hheld, hnext]
    exact .inl (Frame.Leads.refl _ _).next.next
  · refine .inr (doomed_of_leads h ?_)
    dsimp only [Frame.start, Frame.next, Txn.read, RemoveMember.locked,
      acquireChannelMembershipLock, id_eq]
    rw [RemoveMember.authorize, if_neg hself]
    dsimp only [getActiveRoleTx, Txn.read]
    rw [← hk, role_of_creates hkeyed hq]
    trivial

theorem removeMember_created_self (hkeyed : Keyed db) (hq : q.Creates db) (hk : q.key = r.key)
    (hself : r.pubkey = r.actor) (hno : removesCreator db q (.removeMember r) f = false)
    (h : Frame.Leads db (.start (removeMember r)) f) :
    StandsAlone (removeMember r) (q.created db) f := by
  have hrole := role_of_creates hkeyed hq r.pubkey
  rw [hk] at hrole
  have hlocked : removeMember r = acquireChannelMembershipLock r.key (r.guardOwner r.update) := by
    rw [removeMember, if_pos hself, RemoveMember.locked, RemoveMember.authorize, if_pos hself]
  rw [hlocked] at h ⊢
  -- It has read its role: nobody's.
  have hread : ∀ base : ChannelDb, base.getActiveRole r.key r.pubkey = none →
      (⟨id, [⟨.membership r.key, .exclusive⟩], r.guardOwner r.update⟩ :
        Frame ChannelDb LockKey Reply).next base =
      ⟨id, [⟨.membership r.key, .exclusive⟩], r.update⟩ := by
    intro base hbase
    dsimp only [Frame.next, RemoveMember.guardOwner, getActiveRoleTx, Txn.read, id_eq]
    rw [hbase]
    rfl
  obtain rfl | h := h.of_lock
  · exact .inl (.refl _ _)
  obtain rfl | h := h.cases
  · exact .inl (Frame.Leads.refl _ _).next
  rw [hread db hrole] at h
  obtain rfl | h := h.cases
  · by_cases hcreator : r.pubkey = q.createdBy
    · refine absurd hno ?_
      rw [removesCreator, atLastStatement, RemoveMember.update]
      dsimp only [id_eq]
      rw [hrole, hk, ← hself, hcreator]
      simp [done, fails]
    · have hrole' := role_created hkeyed hq hcreator
      rw [hk] at hrole'
      refine .inl ?_
      rw [← hread (q.created db) hrole']
      exact (Frame.Leads.refl _ _).next.next
  · refine .inr (doomed_of_leads h ?_)
    dsimp only [Frame.next, RemoveMember.update, id_eq]
    rw [hrole]
    trivial

theorem stands_of_created (hkeyed : Keyed db) (hq : q.Creates db)
    (hno : removesCreator db q c f = false) (h : Frame.Leads db (.start c.program) f)
    (hfree : ⟨.channel q.key, .exclusive⟩ ∉ f.held) :
    StandsAlone c.program (q.created db) f := by
  have hkeyed' : Keyed (q.created db) := hkeyed.change (.create q hq)
  cases c with
  | createChannel q' =>
    by_cases hk : q.key = q'.key
    · obtain rfl | hheld := (locks_createChannel q').cases h
      · exact .inl (.refl _ _)
      · exact absurd (hk ▸ hheld) hfree
    · exact .inl (h.congr (alike_createChannel (same_created hk).channel))
  | createChannelWithId q' =>
    by_cases hk : q.key = q'.key
    · obtain rfl | hheld := (locks_createChannelWithId q').cases h
      · exact .inl (.refl _ _)
      · exact absurd (hk ▸ hheld) hfree
    · exact .inl (h.congr (alike_createChannelWithId (same_created hk).channel))
  | addMember q' =>
    by_cases hk : q.key = q'.key
    · exact addMember_created hq hk h
    · exact .inl (h.congr (alike_addMember (same_created hk) hkeyed hkeyed'))
  | removeMember r =>
    by_cases hk : q.key = r.key
    · by_cases hself : r.pubkey = r.actor
      · exact removeMember_created_self hkeyed hq hk hself hno h
      · exact removeMember_created_other hkeyed hq hk hself h
    · exact .inl (h.congr (alike_removeMember (same_created hk)))

end Stable

/-! ### Runs -/

theorem not_mem_held {f g : Frame ChannelDb LockKey Reply}
    (hfree : ∀ l ∈ f.held, ∀ m ∈ g.held, ¬l.Conflicts m) {l : LockKey}
    (hg : ⟨l, .exclusive⟩ ∈ g.held) : ⟨l, .exclusive⟩ ∉ f.held :=
  fun hf => hfree _ hf _ hg ⟨rfl, .inl rfl⟩

/-- **Commits leave other calls alone**, or doom them, when no creation overtakes a removal. -/
theorem shelters :
    Shelters Call.program (fun db => Keyed db ∧ ∀ k, Owned k db) OvertakesNoRemoval where
  effect c db hdb := by
    obtain hsame | hchange := effect_call db c
    · rwa [hsame]
    · exact ⟨hdb.1.change hchange, fun k => (hdb.2 k).change hdb.1 hchange⟩
  stable w s t hdb hg hsession ht hcommit hs hleads hfree := by
    obtain ⟨result, htodo⟩ := hcommit
    have hno : ∀ q ∈ s.request.creation, q.Creates w.db →
        removesCreator w.db q t.request t.frame = false := by
      intro q hq hcreates
      refine Bool.eq_false_iff.mpr fun hremoves =>
        hg s hsession ⟨q, hq, ?_, hcreates, t, ht, hremoves⟩
      rw [htodo]
      rfl
    have heffect := (Txn.effect_of_commit hs htodo).1
    obtain hsame | hchange := effect_call w.db s.request
    · rw [← heffect, hsame]
      exact .inl hleads
    have hkeyed := hdb.1
    have hkeyed' := hkeyed.change hchange
    rw [heffect] at hchange hkeyed'
    generalize s.frame.change w.db = db' at hchange hkeyed' ⊢
    cases hrequest : s.request with
    | createChannel q =>
      rw [hrequest] at hchange hs hno
      cases hchange with
      | create _ hq =>
        exact stands_of_created hkeyed hq (hno q rfl hq) hleads
          (not_mem_held hfree ((locks_createChannel q).mem_of_commit hs htodo))
    | createChannelWithId q =>
      rw [hrequest] at hchange hs hno
      cases hchange with
      | createWithId _ hq =>
        exact stands_of_created hkeyed hq (hno q rfl hq) hleads
          (not_mem_held hfree ((locks_createChannelWithId q).mem_of_commit hs htodo))
    | addMember q =>
      rw [hrequest] at hchange hs
      cases hchange
      exact .inl (stands_of_members hkeyed hkeyed' rfl rfl
        (fun k' hne => (ChannelDb.membersOf_upsertMember hne).symm) hleads
        (not_mem_held hfree ((locks_addMember q).mem_of_commit hs htodo)))
    | removeMember q =>
      rw [hrequest] at hchange hs
      cases hchange
      exact .inl (stands_of_members hkeyed hkeyed' rfl rfl
        (fun k' hne => (ChannelDb.membersOf_setRemoved hne).symm) hleads
        (not_mem_held hfree (mem_of_commit_removeMember hs htodo)))

/-- Tables as their keys want them, with an owner in every channel. -/
def Sound (db : ChannelDb) : Prop := Keyed db ∧ ∀ k, Owned k db

/-- **Every channel keeps an owner**, in every run in which no creation overtakes the removal of its
own creator. -/
theorem owner_kept {w : ChannelWorld}
    (h : ((sessions Call.program Sound).guard OvertakesNoRemoval).Reachable w) (k : ChannelKey) :
    Owned k w.db :=
  (shelters.invariant (fun _ hdb => hdb) h).2 k

/-! ### A creator that leaves before it is there -/

def emptyWorld : ChannelWorld := ⟨⟨[], [], []⟩, [], []⟩

theorem init_emptyWorld : (sessions Call.program Sound).Init emptyWorld :=
  ⟨⟨⟨nodup_nil, nofun⟩,
    fun _ hsome => nomatch hsome⟩, rfl, rfl⟩

def creator : Pubkey := replicate 32 1

def creation : CreateChannel where
  community := 0
  id := 7
  name := "general"
  channelType := .stream
  visibility := .private_
  description := none
  createdBy := creator
  ttlSeconds := none
  now := 0

def leaving : RemoveMember where
  community := 0
  channelId := 7
  pubkey := creator
  actor := creator
  now := 1

/-- The creation begins, and ends, before the removal does anything. -/
def inTurn : List (SessionAction Call) :=
  .start 0 (.createChannelWithId creation) :: replicate 6 (.step 0) ++
    .start 1 (.removeMember leaving) :: replicate 4 (.step 1)

/-- The removal reads, then the creation ends, then the removal writes. -/
def overtaken : List (SessionAction Call) :=
  .start 0 (.createChannelWithId creation) :: .start 1 (.removeMember leaving) ::
    replicate 2 (.step 1) ++ replicate 6 (.step 0) ++ replicate 2 (.step 1)

theorem owner_kept_inTurn : ∃ w : ChannelWorld,
    ((sessions Call.program Sound).guard OvertakesNoRemoval).run emptyWorld inTurn = some w ∧
      Owned creation.key w.db := by
  have hsome : (((sessions Call.program Sound).guard OvertakesNoRemoval).run emptyWorld
      inTurn).isSome = true := by decide +kernel
  obtain ⟨w, hrun⟩ := isSome_iff_exists.mp hsome
  exact ⟨w, hrun, owner_kept ⟨emptyWorld, inTurn, init_emptyWorld, hrun⟩ creation.key⟩

/-- **The race.** The creation commits after the removal has found no role of the creator, and the
removal then removes the only owner. -/
theorem not_owner_kept : ¬∀ w : ChannelWorld, (sessions Call.program Sound).Reachable w →
    ∀ k, Owned k w.db := by
  intro hkept
  have hsome : ((sessions Call.program Sound).run emptyWorld overtaken).isSome = true := by
    decide +kernel
  obtain ⟨w, hrun⟩ := isSome_iff_exists.mp hsome
  have hownerless : ∀ w ∈ (sessions Call.program Sound).run emptyWorld overtaken,
      (lookupKey ChannelRow.key w.db.channels creation.key).isSome = true ∧
        w.db.ownerCount creation.key = 0 := by decide +kernel
  obtain ⟨hchannel, hcount⟩ := hownerless w hrun
  have hpos := hkept w ⟨emptyWorld, overtaken, init_emptyWorld, hrun⟩ creation.key hchannel
  omega

end Buzz.Channel
