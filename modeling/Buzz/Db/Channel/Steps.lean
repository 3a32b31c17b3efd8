import Buzz.Db.Channel.Members

/-!
# What a call does

A call that runs alone changes nothing, or makes one change for which its checks have found reason.
-/

namespace Buzz.Channel

variable {db : ChannelDb} {next p q' : ChannelTxn} {P Q : Prop}

/-! ### Checks -/

/-- A check: it lets `next` go on for a reason, or fails. -/
def Checks (p next : ChannelTxn) (db : ChannelDb) (P : Prop) : Prop :=
  P ∧ p.exec db = next.exec db ∨ ∃ e, p.exec db = (db, false, .error e)

theorem checks_self (hP : P) : Checks p p db P := .inl ⟨hP, rfl⟩

theorem checks_fails (e : DbError) : Checks (fails e) next db P := .inr ⟨e, rfl⟩

theorem Checks.mono (h : Checks p next db P) (himp : P → Q) : Checks p next db Q := by
  obtain ⟨hP, hexec⟩ | hfails := h
  · exact .inl ⟨himp hP, hexec⟩
  · exact .inr hfails

theorem checks_read {β : Type} {select : ChannelDb → β} {k : β → ChannelTxn}
    (h : Checks (k (select db)) next db P) : Checks (.read select k) next db P := h

theorem Checks.trans (h : Checks p q' db P) (h' : Checks q' next db Q) :
    Checks p next db (P ∧ Q) := by
  obtain ⟨hP, hexec⟩ | hfails := h
  · obtain ⟨hQ, hexec'⟩ | ⟨e, hfails⟩ := h'
    · exact .inl ⟨⟨hP, hQ⟩, hexec.trans hexec'⟩
    · exact .inr ⟨e, hexec.trans hfails⟩
  · exact .inr hfails

theorem Checks.effect (h : Checks p next db P) :
    p.effect db = db ∨ P ∧ p.effect db = next.effect db := by
  obtain ⟨hP, hexec⟩ | ⟨e, hfails⟩ := h
  · refine .inr ⟨hP, ?_⟩
    rw [Txn.effect, Txn.effect, hexec]
  · refine .inl ?_
    rw [Txn.effect, hfails]
    exact if_neg Bool.false_ne_true

theorem checks_role {k : ChannelKey} {pubkey : Pubkey} {f : Option MemberRole → ChannelTxn}
    (h : Checks (f (db.getActiveRole k pubkey)) next db P) :
    Checks (getActiveRoleTx k pubkey f) next db P := h

theorem checks_lock {k : ChannelKey} (h : Checks p next db P) :
    Checks (acquireChannelMembershipLock k p) next db P := h

theorem checks_unlessLastOwner (k : ChannelKey) (reason : String) :
    Checks (unlessLastOwner k reason next) next db (2 ≤ db.ownerCount k) := by
  refine checks_read ?_
  split
  · exact checks_fails _
  · next hcount => exact checks_self (by omega)

/-! ### Additions -/

namespace AddMember

variable (q : AddMember)

/-- The one who asks is an active owner or admin. -/
def ByElevated (db : ChannelDb) : Prop :=
  ∃ inviter, q.invitedBy = some inviter ∧
    ∃ r, db.getActiveRole q.key inviter = some r ∧ r.isElevated = true

def Bootstraps (channel : ChannelRow) : Prop :=
  q.invitedBy = some q.pubkey ∧ q.pubkey = channel.createdBy

def Entitled (channel : ChannelRow) (db : ChannelDb) : Prop :=
  channel.visibility = .private_ ∧ q.Bootstraps channel ∨
    (q.role.isElevated = true → q.ByElevated db)

/-- The role of an active member may be changed. -/
def MayChange (db : ChannelDb) : Prop :=
  ∀ r, db.getActiveRole q.key q.pubkey = some r → r ≠ q.role →
    q.ByElevated db ∧ (r = .owner → 2 ≤ db.ownerCount q.key)

/-- There is reason to add the member. -/
def Adds (db : ChannelDb) : Prop :=
  (∃ channel, db.getChannel q.key = some channel ∧ q.Entitled channel db) ∧ q.MayChange db

variable {q}

theorem checks_effectiveRole (channel : ChannelRow) :
    Checks (q.effectiveRole channel next) next db (q.Entitled channel db) := by
  rw [effectiveRole]
  split
  · next hprivate =>
    cases hinviter : q.invitedBy with
    | none => exact checks_fails _
    | some inviter =>
      dsimp only
      split
      · next hboot =>
        obtain ⟨rfl, hcreator⟩ := hboot
        exact checks_self (.inl ⟨hprivate, hinviter, hcreator⟩)
      · refine checks_role ?_
        cases hrole : db.getActiveRole q.key inviter with
        | none => exact checks_fails _
        | some r =>
          dsimp only
          split
          · exact checks_fails _
          · next hgranted =>
            refine checks_self (.inr fun helevated => ⟨inviter, hinviter, r, hrole, ?_⟩)
            simpa [helevated] using hgranted
  · split
    · cases hinviter : q.invitedBy with
      | none => exact checks_fails _
      | some inviter =>
        refine checks_role ?_
        have hby : ∀ r, db.getActiveRole q.key inviter = some r → r.isElevated = true →
            q.Entitled channel db :=
          fun r hrole hr => .inr fun _ => ⟨inviter, hinviter, r, hrole, hr⟩
        cases hrole : db.getActiveRole q.key inviter with
        | none => exact checks_fails _
        | some r =>
          cases r with
          | owner | admin => exact checks_self (hby _ hrole rfl)
          | member | guest | bot => exact checks_fails _
    · next hplain => exact checks_self (.inr fun helevated => absurd helevated hplain)

theorem checks_guardChange : Checks (q.guardChange next) next db (q.MayChange db) := by
  refine checks_role ?_
  cases hcurrent : db.getActiveRole q.key q.pubkey with
  | none =>
    refine checks_self fun r hr => ?_
    rw [hcurrent] at hr
    nomatch hr
  | some current =>
    have hmay : (current ≠ q.role →
        q.ByElevated db ∧ (current = .owner → 2 ≤ db.ownerCount q.key)) → q.MayChange db := by
      intro h r hr hne
      rw [hcurrent] at hr
      cases hr
      exact h hne
    by_cases hsame : current = q.role
    · rw [Option.filter_some, if_neg (by simp [hsame])]
      exact checks_self (hmay fun hne => absurd hsame hne)
    · rw [Option.filter_some, if_pos (by simpa using hsame)]
      cases hinviter : q.invitedBy with
      | none => exact checks_fails _
      | some inviter =>
        refine checks_role ?_
        split
        · next helevated =>
          have hby : q.ByElevated db := by
            cases hrole : db.getActiveRole q.key inviter with
            | none =>
              rw [hrole] at helevated
              nomatch helevated
            | some r =>
              rw [hrole] at helevated
              exact ⟨inviter, hinviter, r, hrole, helevated⟩
          split
          · exact (checks_unlessLastOwner _ _).mono fun hcount =>
              hmay fun _ => ⟨hby, fun _ => hcount⟩
          · next hother =>
            refine checks_self (hmay fun hne => ⟨hby, fun howner => ?_⟩)
            exact absurd ⟨howner, fun hrole => hne (howner.trans hrole.symm)⟩ hother
        · exact checks_fails _

theorem effect_upsert : q.upsert.effect db = db ∨ q.upsert.effect db = db.upsertMember q.row := by
  rw [Txn.effect, upsert, Txn.exec_write, Txn.exec_read]
  cases lookupKey MemberRow.key (db.upsertMember q.row).members (q.key, q.pubkey) with
  | none => exact .inl rfl
  | some r => exact .inr rfl

end AddMember

/-- **An addition.** -/
theorem effect_addMember (q : AddMember) : (addMember q).effect db = db ∨
    q.Adds db ∧ (addMember q).effect db = db.upsertMember q.row := by
  have hchecks : Checks (addMember q) q.upsert db (q.Adds db) := by
    rw [addMember]
    split
    · exact checks_fails _
    · refine checks_lock (checks_read ?_)
      cases hchannel : db.getChannel q.key with
      | none => exact checks_fails _
      | some channel =>
        exact ((AddMember.checks_effectiveRole channel).trans AddMember.checks_guardChange).mono
          fun ⟨hentitled, hmay⟩ => ⟨⟨channel, hchannel, hentitled⟩, hmay⟩
  obtain hsame | ⟨hadds, heffect⟩ := hchecks.effect
  · exact .inl hsame
  · rw [heffect]
    exact AddMember.effect_upsert.imp_right fun h => ⟨hadds, h⟩

/-! ### Removals -/

namespace RemoveMember

variable (q : RemoveMember)

/-- There is reason to remove the member. -/
def Removes (db : ChannelDb) : Prop :=
  (q.pubkey ≠ q.actor → ∃ r, db.getActiveRole q.key q.actor = some r ∧
    (r.isElevated = true ∨ db.isAgentOwner q.community q.pubkey q.actor = true)) ∧
  (db.getActiveRole q.key q.pubkey = some .owner → 2 ≤ db.ownerCount q.key)

variable {q}

theorem checks_authorize {actorIsAgentOwner : Bool} :
    Checks (q.authorize actorIsAgentOwner next) next db
      (q.pubkey ≠ q.actor → ∃ r, db.getActiveRole q.key q.actor = some r ∧
        (r.isElevated = true ∨ actorIsAgentOwner = true)) := by
  rw [authorize]
  split
  · next hself => exact checks_self fun hne => absurd hself hne
  · refine checks_role ?_
    cases hrole : db.getActiveRole q.key q.actor with
    | none => exact checks_fails _
    | some r =>
      dsimp only
      split
      · exact checks_fails _
      · next hgranted =>
        refine checks_self fun _ => ⟨r, rfl, ?_⟩
        cases hr : r.isElevated with
        | true => exact .inl rfl
        | false => exact .inr (by simpa [hr] using hgranted)

theorem checks_guardOwner : Checks (q.guardOwner next) next db
    (db.getActiveRole q.key q.pubkey = some .owner → 2 ≤ db.ownerCount q.key) := by
  refine checks_role ?_
  split
  · exact (checks_unlessLastOwner _ _).mono fun hcount _ => hcount
  · next hother => exact checks_self fun howner => absurd howner hother

theorem effect_update : q.update.effect db = db ∨
    q.update.effect db = db.setRemoved q.key q.pubkey q.actor q.now := by
  rw [Txn.effect, update, Txn.exec]
  by_cases hrole : (db.getActiveRole q.key q.pubkey).isNone = true
  · rw [if_pos hrole]
    exact .inl rfl
  · rw [if_neg hrole]
    exact .inr rfl

end RemoveMember

/-- **A removal.** -/
theorem effect_removeMember (q : RemoveMember) : (removeMember q).effect db = db ∨
    q.Removes db ∧ (removeMember q).effect db = db.setRemoved q.key q.pubkey q.actor q.now := by
  have hlocked : ∀ b, Checks (q.locked b) q.update db
      ((q.pubkey ≠ q.actor → ∃ r, db.getActiveRole q.key q.actor = some r ∧
        (r.isElevated = true ∨ b = true)) ∧
        (db.getActiveRole q.key q.pubkey = some .owner → 2 ≤ db.ownerCount q.key)) := fun b =>
    checks_lock (RemoveMember.checks_authorize.trans RemoveMember.checks_guardOwner)
  have hchecks : Checks (removeMember q) q.update db (q.Removes db) := by
    rw [removeMember]
    split
    · next hself =>
      exact (hlocked false).mono fun ⟨_, howner⟩ => ⟨fun hne => absurd hself hne, howner⟩
    · exact checks_read (hlocked (db.isAgentOwner q.community q.pubkey q.actor))
  obtain hsame | ⟨hremoves, heffect⟩ := hchecks.effect
  · exact .inl hsame
  · rw [heffect]
    exact RemoveMember.effect_update.imp_right fun h => ⟨hremoves, h⟩

/-! ### Creations -/

namespace CreateChannel

variable (q : CreateChannel)

def Creates (db : ChannelDb) : Prop := lookupKey ChannelRow.key db.channels q.key = none

/-- The channel and its owner are there. -/
def created (db : ChannelDb) : ChannelDb := (db.insertChannel q.row).upsertMember q.ownerRow

variable {q}

theorem effect_record (b : Bool) : (q.record b).effect db = db := by
  rw [Txn.effect, record, Txn.exec_read]
  cases lookupKey ChannelRow.key db.channels q.key with
  | none => rfl
  | some r => rfl

theorem effect_insert {conflict : ChannelTxn} (hconflict : conflict.effect db = db) :
    (q.insert conflict (q.insertOwner (q.record true))).effect db = db ∨
      q.Creates db ∧
        (q.insert conflict (q.insertOwner (q.record true))).effect db = q.created db := by
  have hexec : (q.insert conflict (q.insertOwner (q.record true))).exec db =
      (if (lookupKey ChannelRow.key db.channels q.key).isSome then conflict
        else .write (fun _ => ()) (fun _ db => db.insertChannel q.row)
          (q.insertOwner (q.record true))).exec db := rfl
  cases hlookup : lookupKey ChannelRow.key db.channels q.key with
  | some r =>
    refine .inl ?_
    rw [hlookup, Option.isSome_some, if_pos rfl] at hexec
    rwa [Txn.effect, hexec]
  | none =>
    rw [hlookup, Option.isSome_none, if_neg Bool.false_ne_true] at hexec
    have hwritten : (q.insert conflict (q.insertOwner (q.record true))).exec db =
        (q.record true).exec (q.created db) := hexec
    have hrecord : (q.record true).effect (q.created db) = q.created db := effect_record true
    rw [Txn.effect] at hrecord
    rw [Txn.effect, hwritten]
    by_cases hcommits : ((q.record true).exec (q.created db)).2.1 = true
    · rw [if_pos hcommits] at hrecord ⊢
      exact .inr ⟨hlookup, hrecord⟩
    · rw [if_neg hcommits]
      exact .inl rfl

end CreateChannel

/-- **A creation**, with an identifier that was drawn. -/
theorem effect_createChannel (q : CreateChannel) : (createChannel q).effect db = db ∨
    q.Creates db ∧ (createChannel q).effect db = q.created db := by
  rw [createChannel]
  split
  · exact .inl rfl
  · split
    · exact .inl rfl
    · exact CreateChannel.effect_insert rfl

/-- **A creation**, with an identifier that was given. -/
theorem effect_createChannelWithId (q : CreateChannel) :
    (createChannelWithId q).effect db = db ∨
      q.Creates db ∧ (createChannelWithId q).effect db = q.created db := by
  rw [createChannelWithId]
  split
  · exact .inl rfl
  · split
    · exact .inl rfl
    · split
      · exact .inl rfl
      · exact CreateChannel.effect_insert (CreateChannel.effect_record false)

/-- What a call does to the tables, on the databases where it finds reason to. -/
inductive Change (db : ChannelDb) : Call → ChannelDb → Prop where
  | create (q : CreateChannel) (h : q.Creates db) : Change db (.createChannel q) (q.created db)
  | createWithId (q : CreateChannel) (h : q.Creates db) :
    Change db (.createChannelWithId q) (q.created db)
  | add (q : AddMember) (h : q.Adds db) : Change db (.addMember q) (db.upsertMember q.row)
  | remove (q : RemoveMember) (h : q.Removes db) :
    Change db (.removeMember q) (db.setRemoved q.key q.pubkey q.actor q.now)

/-- **What a call does**: nothing, or its change. -/
theorem effect_call (db : ChannelDb) (c : Call) :
    c.program.effect db = db ∨ Change db c (c.program.effect db) := by
  cases c with
  | createChannel q =>
    refine (effect_createChannel q).imp id fun ⟨h, heffect⟩ => ?_
    show Change db _ ((createChannel q).effect db)
    rw [heffect]
    exact .create q h
  | createChannelWithId q =>
    refine (effect_createChannelWithId q).imp id fun ⟨h, heffect⟩ => ?_
    show Change db _ ((createChannelWithId q).effect db)
    rw [heffect]
    exact .createWithId q h
  | addMember q =>
    refine (effect_addMember q).imp id fun ⟨h, heffect⟩ => ?_
    show Change db _ ((addMember q).effect db)
    rw [heffect]
    exact .add q h
  | removeMember q =>
    refine (effect_removeMember q).imp id fun ⟨h, heffect⟩ => ?_
    show Change db _ ((removeMember q).effect db)
    rw [heffect]
    exact .remove q h

end Buzz.Channel
