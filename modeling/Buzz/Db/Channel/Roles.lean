import Buzz.Db.Channel.Rows

/-!
# Elevated roles

Calls on a channel, one after another. An owner or an admin has its role from the creation of the
channel, or from an addition that was asked for by one who was an owner or an admin at that moment.
There is one exception: on a private channel, the creator may add itself. It was a member from the
start, so it comes to that only when it has been removed, and then it may ask for any role.
-/

namespace Buzz.Channel

open Option

variable {db db' : ChannelDb} {k : ChannelKey} {c : Call} {pubkey : Pubkey} {r : MemberRole}

/-! ### Roles after a change -/

theorem role_upsertMember (h : Keyed db) {row : MemberRow} (hactive : row.removedAt = none) :
    (db.upsertMember row).getActiveRole k pubkey =
      if row.key = (k, pubkey) then some row.role else db.getActiveRole k pubkey := by
  rw [ChannelDb.getActiveRole, ChannelDb.upsertMember]
  by_cases hkey : row.key = (k, pubkey)
  · rw [if_pos hkey, ← hkey, lookupKey_upsertKey_self key_rejoin rfl h.nodup]
    cases lookupKey MemberRow.key db.members row.key with
    | none => simp [hactive]
    | some old => rfl
  · rw [if_neg hkey, lookupKey_upsertKey_of_ne key_rejoin rfl h.nodup (Ne.symm hkey)]
    rfl

theorem role_of_setRemoved {k' : ChannelKey} {target actor : Pubkey} {now : Int}
    (h : (db.setRemoved k' target actor now).getActiveRole k pubkey = some r) :
    db.getActiveRole k pubkey = some r := by
  have hkey : ∀ row : MemberRow, (if row.key = (k', target) ∧ row.removedAt = none then
      { row with removedAt := some now, removedBy := some actor } else row).key = row.key := by
    intro row
    split <;> rfl
  rw [ChannelDb.getActiveRole, ChannelDb.setRemoved] at h
  rw [lookupKey_map hkey] at h
  rw [ChannelDb.getActiveRole]
  cases hlookup : lookupKey MemberRow.key db.members (k, pubkey) with
  | none =>
    rw [hlookup] at h
    exact h
  | some row =>
    rw [hlookup, map_some] at h
    split at h
    · cases h
    · exact h

/-! ### Who grants a role -/

/-- The call gives the member its role: it creates the channel, or its actor is an active owner or
admin. -/
def Grants (k : ChannelKey) (pubkey : Pubkey) (r : MemberRole) (db : ChannelDb) : Call → Prop
  | .createChannel q => q.key = k ∧ q.createdBy = pubkey ∧ r = .owner ∧ q.Creates db
  | .createChannelWithId q => q.key = k ∧ q.createdBy = pubkey ∧ r = .owner ∧ q.Creates db
  | .addMember q => q.key = k ∧ q.pubkey = pubkey ∧ q.role = r ∧ q.ByElevated db
  | .removeMember _ => False

/-- The creator of a private channel, who is no member any more, asks for an elevated role. -/
def resurrects (db : ChannelDb) (q : AddMember) : Bool :=
  (db.getChannel q.key).any fun channel =>
    channel.visibility == .private_ && q.invitedBy == some q.pubkey &&
      q.pubkey == channel.createdBy && q.role.isElevated &&
      (db.getActiveRole q.key q.pubkey).isNone

/-- No creator comes back with an elevated role of its own choice. -/
def NoResurrection (db : ChannelDb) : Call → Prop
  | .addMember q => resurrects db q = false
  | _ => True

instance (db : ChannelDb) (c : Call) : Decidable (NoResurrection db c) :=
  match c with
  | .createChannel _ => .isTrue trivial
  | .createChannelWithId _ => .isTrue trivial
  | .addMember q => inferInstanceAs (Decidable (resurrects db q = false))
  | .removeMember _ => .isTrue trivial

theorem byElevated_of_adds {q : AddMember} (hq : q.Adds db) (hno : resurrects db q = false)
    (helevated : q.role.isElevated = true) (hnew : db.getActiveRole q.key q.pubkey ≠ some q.role) :
    q.ByElevated db := by
  obtain ⟨⟨channel, hchannel, hentitled⟩, hmay⟩ := hq
  obtain ⟨hprivate, hself, hcreator⟩ | hby := hentitled
  · cases hcurrent : db.getActiveRole q.key q.pubkey with
    | none =>
      refine absurd hno ?_
      rw [resurrects, hchannel, hcurrent]
      simp [hprivate, hself, hcreator, helevated]
    | some current =>
      have hne : current ≠ q.role := fun heq => hnew (by rw [hcurrent, heq])
      exact (hmay current hcurrent hne).1
  · exact hby helevated

/-- **One call.** An elevated role after a call was there before it, or is granted by it. -/
theorem elevated_step (hkeyed : Keyed db) (hno : NoResurrection db c)
    (hrole : (c.program.effect db).getActiveRole k pubkey = some r)
    (helevated : r.isElevated = true) :
    db.getActiveRole k pubkey = some r ∨ Grants k pubkey r db c := by
  have hcreated : ∀ q : CreateChannel, (q.created db).getActiveRole k pubkey = some r →
      db.getActiveRole k pubkey = some r ∨ q.key = k ∧ q.createdBy = pubkey ∧ r = .owner := by
    intro q hq
    rw [CreateChannel.created, role_upsertMember hkeyed.insertChannel rfl] at hq
    split at hq
    · next hkey =>
      obtain ⟨hk, hpubkey⟩ := Prod.mk.inj hkey
      exact .inr ⟨hk, hpubkey, (some.inj hq).symm⟩
    · exact .inl hq
  obtain hsame | hchange := effect_call db c
  · rw [hsame] at hrole
    exact .inl hrole
  generalize c.program.effect db = db' at hrole hchange
  cases hchange with
  | create q hq | createWithId q hq =>
      exact (hcreated q hrole).imp_right fun ⟨hk, hp, hr⟩ => ⟨hk, hp, hr, hq⟩
  | add q hq =>
    rw [role_upsertMember hkeyed rfl] at hrole
    split at hrole
    · next hkey =>
      obtain ⟨hk, hpubkey⟩ := Prod.mk.inj hkey
      have hk : q.key = k := hk
      have hpubkey : q.pubkey = pubkey := hpubkey
      have hr : q.role = r := some.inj hrole
      subst hk hpubkey hr
      by_cases hnew : db.getActiveRole q.key q.pubkey = some q.role
      · exact .inl hnew
      · exact .inr ⟨rfl, rfl, rfl, byElevated_of_adds hq hno helevated hnew⟩
    · exact .inl hrole
  | remove q hq => exact .inl (role_of_setRemoved hrole)

/-! ### Calls one after another -/

/-- Calls one after another, on tables in which the channel does not exist yet. -/
def calls (k : ChannelKey) : StateMachine ChannelDb Call where
  Init db := Keyed db ∧ lookupKey ChannelRow.key db.channels k = none
  step db c := some (c.program.effect db)

def Elevated (k : ChannelKey) (pubkey : Pubkey) (db : ChannelDb) : Prop :=
  ∃ r, db.getActiveRole k pubkey = some r ∧ r.isElevated = true

theorem Keyed.effect (h : Keyed db) (c : Call) : Keyed (c.program.effect db) := by
  obtain hsame | hchange := effect_call db c
  · rwa [hsame]
  · exact h.change hchange

/-- **Nobody raises its own role.** In every run of calls in which no removed creator of a private
channel asks for an elevated role, every owner and admin has its role since a call that granted it.
One who asks for itself is an owner or an admin afterwards only if it was one before. -/
theorem elevated_granted {db₀ : ChannelDb} {cs : List Call} (hinit : (calls k).Init db₀)
    (hrun : ((calls k).guard NoResurrection).run db₀ cs = some db) :
    (∀ pubkey r, db.getActiveRole k pubkey = some r → r.isElevated = true →
      (calls k).HoldsSince (fun db c => Grants k pubkey r db c)
        (fun db => db.getActiveRole k pubkey = some r) db₀ cs) ∧
    ∀ q : AddMember, NoResurrection db (.addMember q) → q.key = k → q.invitedBy = some q.pubkey →
      Elevated k q.pubkey ((addMember q).effect db) → Elevated k q.pubkey db := by
  obtain ⟨hkeyed₀, hnone⟩ := hinit
  have hinv : ∀ db c db', Keyed db → ((calls k).guard NoResurrection).step db c = some db' →
      Keyed db' := by
    intro db c db' hkeyed hs
    obtain ⟨-, hs⟩ := StateMachine.guard_step.mp hs
    obtain rfl : c.program.effect db = db' := some.inj hs
    exact hkeyed.effect c
  constructor
  · intro pubkey r hrole helevated
    have hnot : db₀.getActiveRole k pubkey ≠ some r := by
      rw [ChannelDb.getActiveRole, ← ChannelDb.lookup_membersOf, hkeyed₀.membersOf_eq_nil hnone]
      exact (some_ne_none r).symm
    refine StateMachine.HoldsSince.of_guard (G := NoResurrection) ?_
    refine StateMachine.holdsSince (I := Keyed) hinv (fun db c db' hkeyed hs hafter => ?_) hkeyed₀
      hnot hrun hrole
    obtain ⟨hno, hs⟩ := StateMachine.guard_step.mp hs
    obtain rfl : c.program.effect db = db' := some.inj hs
    exact elevated_step hkeyed hno hafter helevated
  · intro q hno hk hself helevated
    obtain ⟨r, hrole, hr⟩ := helevated
    have hkeyed := StateMachine.run_preserves hinv hrun hkeyed₀
    obtain hbefore | ⟨-, -, -, hby⟩ := elevated_step (c := .addMember q) hkeyed hno hrole hr
    · exact ⟨r, hbefore, hr⟩
    · obtain ⟨inviter, hinviter, r', hrole', hr'⟩ := hby
      obtain rfl : q.pubkey = inviter := some.inj (hself.symm.trans hinviter)
      exact ⟨r', hk ▸ hrole', hr'⟩

/-! ### A creator that comes back -/

def noChannels : ChannelDb := ⟨[], [], []⟩

theorem init_noChannels : (calls k).Init noChannels :=
  ⟨⟨List.nodup_nil, nofun⟩, rfl⟩

def founder : Pubkey := List.replicate 32 1

def successor : Pubkey := List.replicate 32 2

def founding : CreateChannel where
  community := 0
  id := 7
  name := "general"
  channelType := .stream
  visibility := .private_
  description := none
  createdBy := founder
  ttlSeconds := none
  now := 0

def promotion (pubkey by_ : Pubkey) : AddMember where
  community := 0
  channelId := 7
  pubkey := pubkey
  role := .owner
  invitedBy := some by_
  now := 1

def removal : RemoveMember where
  community := 0
  channelId := 7
  pubkey := founder
  actor := successor
  now := 2

def handover : List Call :=
  [.createChannelWithId founding, .addMember (promotion successor founder), .removeMember removal]

theorem elevated_granted_handover : ∃ db,
    ((calls founding.key).guard NoResurrection).run noChannels handover = some db ∧
      db.getActiveRole founding.key successor = some .owner ∧
      (calls founding.key).HoldsSince (fun db c => Grants founding.key successor .owner db c)
        (fun db => db.getActiveRole founding.key successor = some .owner) noChannels handover := by
  have hsome : (((calls founding.key).guard NoResurrection).run noChannels
      handover).isSome = true := by decide +kernel
  have howner : ∀ db ∈ ((calls founding.key).guard NoResurrection).run noChannels handover,
      db.getActiveRole founding.key successor = some .owner := by decide +kernel
  obtain ⟨db, hrun⟩ := isSome_iff_exists.mp hsome
  exact ⟨db, hrun, howner db hrun,
    (elevated_granted init_noChannels hrun).1 successor .owner (howner db hrun) rfl⟩

/-- **The way back.** The founder, who was removed, makes itself an owner again. -/
theorem not_elevated_granted : ¬∀ (k : ChannelKey) (db₀ db : ChannelDb) (cs : List Call),
    (calls k).Init db₀ → (calls k).run db₀ cs = some db →
    (∀ pubkey r, db.getActiveRole k pubkey = some r → r.isElevated = true →
      (calls k).HoldsSince (fun db c => Grants k pubkey r db c)
        (fun db => db.getActiveRole k pubkey = some r) db₀ cs) ∧
    ∀ q : AddMember, q.key = k → q.invitedBy = some q.pubkey →
      Elevated k q.pubkey ((addMember q).effect db) → Elevated k q.pubkey db := by
  intro hgranted
  have hsome : ((calls founding.key).run noChannels handover).isSome = true := by decide +kernel
  have hroles : ∀ db ∈ (calls founding.key).run noChannels handover,
      ((addMember (promotion founder founder)).effect db).getActiveRole founding.key founder =
        some .owner ∧ db.getActiveRole founding.key founder = none := by decide +kernel
  obtain ⟨db, hrun⟩ := isSome_iff_exists.mp hsome
  obtain ⟨hafter, hbefore⟩ := hroles db hrun
  obtain ⟨-, hown⟩ := hgranted founding.key noChannels db handover init_noChannels hrun
  obtain ⟨r, hr, -⟩ := hown (promotion founder founder) rfl rfl ⟨.owner, hafter, rfl⟩
  nomatch (hbefore.symm.trans hr)

end Buzz.Channel
