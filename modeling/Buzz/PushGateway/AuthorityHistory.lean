import Buzz.PushGateway.Gateway

/-!
# What the rows say about the past

The row of an installation carries what was committed last for it, and the row of a delegation in
force was granted by the last call that concerns it. When generations are offered forward, it also
has the highest one.
-/

namespace Buzz.PushGateway

open List Function

/-! ### What operations set -/

def Operation.setsCounter (id : Uuid) : Operation → Option UInt32
  | .createInstallation n => if n.id = id then some n.assertionCounter else none
  | .advanceAssertionCounter i _ next => if i = id then some next else none
  | _ => none

def Operation.setsEpoch (id : Uuid) : Operation → Option Int
  | .createInstallation n => if n.id = id then some n.endpointEpoch else none
  | .rotateEndpoint i _ new _ _ => if i = id then some new else none
  | .revokeInstallation i _ new => if i = id then some new else none
  | _ => none

def Operation.setsToken (id : Uuid) : Operation → Option (List UInt8)
  | .createInstallation n => if n.id = id then some n.tokenCiphertext else none
  | .rotateEndpoint i _ _ ciphertext _ => if i = id then some ciphertext else none
  | _ => none

def Operation.revokes (id : Uuid) : Operation → Option Unit
  | .revokeInstallation i _ _ => if i = id then some () else none
  | _ => none

def Operation.creates (id : Uuid) : Operation → Option Unit
  | .createInstallation n => if n.id = id then some () else none
  | _ => none

/-- The generation that is granted or revoked for this installation and relay. -/
def Operation.generationOf (k : DelegationKey) : Operation → Option Int
  | .upsertDelegation d => if d.key = k then some d.generation else none
  | .revokeDelegation id relay generation => if (id, relay) = k then some generation else none
  | _ => none

/-- What the committed calls have set, the latest first. -/
def Requests.history {β : Type*} (q : Requests) (f : Operation → Option β)
    (log : List StoreAnswer) : List β :=
  log.filterMap fun x => if x.committed then f (q.operation x.request) else none

variable {q : Requests} {β : Type*} {f : Operation → Option β} {log : List StoreAnswer}

theorem history_cons_none {n : Nat} {r : Reply} (h : f (q.operation n) = none) :
    q.history f (⟨n, true, r⟩ :: log) = q.history f log :=
  filterMap_cons_none (by simpa using h)

theorem history_cons_some {n : Nat} {r : Reply} {b : β} (h : f (q.operation n) = some b) :
    q.history f (⟨n, true, r⟩ :: log) = b :: q.history f log :=
  filterMap_cons_some (by simpa using h)

theorem history_rollback {n : Nat} {r : Reply} :
    q.history f (⟨n, false, r⟩ :: log) = q.history f log :=
  filterMap_cons_none (by simp)

theorem mem_history {b : β} {x : StoreAnswer} (hx : x ∈ log) (hc : x.committed = true)
    (hf : f (q.operation x.request) = some b) : b ∈ q.history f log :=
  mem_filterMap.mpr ⟨x, hx, by rw [if_pos hc, hf]⟩

/-! ### Installations -/

/-- What a commit does to the row of one installation. -/
inductive InstallationStep (id : Uuid) :
    Operation → Option InstallationRow → Option InstallationRow → Prop
  | kept {op : Operation} (row : Option InstallationRow) (hcounter : op.setsCounter id = none)
      (hepoch : op.setsEpoch id = none) (htoken : op.setsToken id = none)
      (hrevokes : op.revokes id = none) (hcreates : op.creates id = none) :
    InstallationStep id op row row
  | gone {now : Int} {found : Found} (row : Option InstallationRow) :
    InstallationStep id (.reapExpired now found) row none
  | created {n : NewInstallation} (hid : n.id = id) :
    InstallationStep id (.createInstallation n) none (some n.row)
  | advanced {previous next : UInt32} {i : InstallationRow} (hlt : previous < next)
      (hcounter : i.assertionCounter = previous) :
    InstallationStep id (.advanceAssertionCounter id previous next) (some i)
      (some { i with assertionCounter := next })
  | rotated {expected : Int} {ciphertext : List UInt8} {fingerprint : Fingerprint}
      {i : InstallationRow} (hepoch : i.endpointEpoch = expected) :
    InstallationStep id (.rotateEndpoint id expected (expected + 1) ciphertext fingerprint) (some i)
      (some (i.rotate (expected + 1) ciphertext fingerprint))
  | revoked (clock : Int) {expected : Int} {i : InstallationRow}
      (hepoch : i.endpointEpoch = expected) :
    InstallationStep id (.revokeInstallation id expected (expected + 1)) (some i)
      (some (i.revoke clock (expected + 1)))

variable {clock : Int} {t t' : Tables} {op : Operation} {r : Reply}

variable {i : InstallationRow}

theorem modifyInstallation_apply {id id' : Uuid} {g : InstallationRow → InstallationRow}
    (hi : t.installations id' = some i) :
    (t.modifyInstallation id' g).installations id =
      if id = id' then some (g i) else t.installations id := by
  simp [Tables.modifyInstallation, update_apply, hi]

theorem Effect.installation (h : Effect clock t op t' r) (id : Uuid) :
    InstallationStep id op (t.installations id) (t'.installations id) := by
  cases h with
  | createInstallation hid =>
    rename_i n
    by_cases heq : n.id = id
    · subst heq
      rw [hid, show (t.insertInstallation n).installations n.id = some n.row from
        update_self _ _ _]
      exact .created rfl
    · rw [show (t.insertInstallation n).installations id = t.installations id from
        update_of_ne (Ne.symm heq) _ _]
      exact .kept _ (if_neg heq) (if_neg heq) (if_neg heq) rfl (if_neg heq)
  | advanceAssertionCounter hlt hi hcounter =>
    rename_i id' previous next i
    rw [modifyInstallation_apply hi]
    by_cases heq : id = id'
    · subst heq
      rw [if_pos rfl, hi]
      exact .advanced hlt hcounter
    · rw [if_neg heq]
      exact .kept _ (if_neg (Ne.symm heq)) rfl rfl rfl rfl
  | rotateEndpoint hi hepoch =>
    rename_i id' expected ciphertext fingerprint i
    rw [show (((t.modifyInstallation id' (InstallationRow.rotate (expected + 1) ciphertext
      fingerprint)).moveToken id' i.appProfile i.tokenFingerprint fingerprint).installations id) =
      _ from modifyInstallation_apply hi]
    by_cases heq : id = id'
    · subst heq
      rw [if_pos rfl, hi]
      exact .rotated hepoch
    · rw [if_neg heq]
      exact .kept _ rfl (if_neg (Ne.symm heq)) (if_neg (Ne.symm heq)) rfl rfl
  | revokeInstallation hi hepoch =>
    rename_i id' expected i
    rw [modifyInstallation_apply hi]
    by_cases heq : id = id'
    · subst heq
      rw [if_pos rfl, hi]
      exact .revoked clock hepoch
    · rw [if_neg heq]
      exact .kept _ rfl (if_neg (Ne.symm heq)) rfl (if_neg (Ne.symm heq)) rfl
  | reapExpired hreaps =>
    obtain hkept | hgone := hreaps.installations id
    · rw [hkept]
      exact .kept _ rfl rfl rfl rfl rfl
    · rw [hgone]
      exact .gone _
  | _ => exact .kept _ rfl rfl rfl rfl rfl

/-- What was committed for an installation, and its row. -/
structure Tracked (q : Requests) (id : Uuid) (log : List StoreAnswer)
    (row : Option InstallationRow) : Prop where
  counters : (q.history (Operation.setsCounter id) log).Pairwise (· > ·)
  epochs : (q.history (Operation.setsEpoch id) log).Pairwise (· > ·)
  counter : ∀ i, row = some i →
    (q.history (Operation.setsCounter id) log).head? = some i.assertionCounter
  epoch : ∀ i, row = some i →
    (q.history (Operation.setsEpoch id) log).head? = some i.endpointEpoch
  token : ∀ i, row = some i →
    (q.history (Operation.setsToken id) log).head? = some i.tokenCiphertext
  revoked : ∀ i, row = some i → i.revokedAt = none → q.history (Operation.revokes id) log = []
  created : q.history (Operation.creates id) log = [] → row = none ∧
    q.history (Operation.setsCounter id) log = [] ∧ q.history (Operation.setsEpoch id) log = [] ∧
    q.history (Operation.revokes id) log = []

theorem pairwise_cons_of_head? {α : Type*} [LT α] (htrans : ∀ {a b c : α}, a < b → b < c → a < c)
    {l : List α} {a b : α} (hl : l.Pairwise (· > ·)) (ha : l.head? = some a) (hb : a < b) :
    (b :: l).Pairwise (· > ·) := by
  refine pairwise_cons.mpr ⟨fun c hc => ?_, hl⟩
  cases l with
  | nil => nomatch ha
  | cons d l =>
    cases ha
    obtain rfl | hc := mem_cons.mp hc
    · exact hb
    · exact htrans ((pairwise_cons.mp hl).1 c hc) hb

theorem Tracked.nil (q : Requests) (id : Uuid) : Tracked q id [] none :=
  ⟨.nil, .nil, nofun, nofun, nofun, nofun, fun _ => ⟨rfl, rfl, rfl, rfl⟩⟩

variable {id : Uuid} {row row' : Option InstallationRow} {n : Nat}

theorem Tracked.created_ne_nil (h : Tracked q id log row) (hi : row = some i) :
    q.history (Operation.creates id) log ≠ [] := by
  intro hnone
  nomatch ((h.created hnone).1.symm.trans hi)

theorem Tracked.kept (h : Tracked q id log row)
    (hcounter : (q.operation n).setsCounter id = none)
    (hepoch : (q.operation n).setsEpoch id = none) (htoken : (q.operation n).setsToken id = none)
    (hrevokes : (q.operation n).revokes id = none) (hcreates : (q.operation n).creates id = none) :
    Tracked q id (⟨n, true, r⟩ :: log) row := by
  have hkept : ∀ {β : Type} {f : Operation → Option β}, f (q.operation n) = none →
      q.history f (⟨n, true, r⟩ :: log) = q.history f log := history_cons_none
  have hc := hkept hcounter
  have he := hkept hepoch
  have ht := hkept htoken
  have hr := hkept hrevokes
  have hn := hkept hcreates
  exact ⟨hc ▸ h.counters, he ▸ h.epochs, hc ▸ h.counter, he ▸ h.epoch, ht ▸ h.token,
    hr ▸ h.revoked, by rw [hn, hc, he, hr]; exact h.created⟩

theorem Tracked.gone (h : Tracked q id log row) : Tracked q id log none :=
  ⟨h.counters, h.epochs, nofun, nofun, nofun, nofun, fun hnone => ⟨rfl, (h.created hnone).2⟩⟩

theorem Tracked.create (h : Tracked q id log none) {i : NewInstallation} (hid : i.id = id)
    (hop : q.operation n = .createInstallation i)
    (hfresh : q.history (Operation.creates id) log = []) :
    Tracked q id (⟨n, true, r⟩ :: log) (some i.row) := by
  obtain ⟨-, hcounters, hepochs, hrevokes⟩ := h.created hfresh
  have hc : q.history (Operation.setsCounter id) (⟨n, true, r⟩ :: log) = [i.assertionCounter] := by
    rw [history_cons_some (by rw [hop]; exact if_pos hid), hcounters]
  have he : q.history (Operation.setsEpoch id) (⟨n, true, r⟩ :: log) = [i.endpointEpoch] := by
    rw [history_cons_some (by rw [hop]; exact if_pos hid), hepochs]
  have ht : (q.history (Operation.setsToken id) (⟨n, true, r⟩ :: log)).head? =
      some i.tokenCiphertext := by
    rw [history_cons_some (by rw [hop]; exact if_pos hid), head?_cons]
  have hr : q.history (Operation.revokes id) (⟨n, true, r⟩ :: log) = [] := by
    rw [history_cons_none (by rw [hop]; rfl), hrevokes]
  have hn : q.history (Operation.creates id) (⟨n, true, r⟩ :: log) ≠ [] := by
    rw [history_cons_some (by rw [hop]; exact if_pos hid)]
    exact cons_ne_nil _ _
  constructor
  · rw [hc]
    exact pairwise_singleton _ _
  · rw [he]
    exact pairwise_singleton _ _
  · rintro j ⟨⟩
    rw [hc]
    rfl
  · rintro j ⟨⟩
    rw [he]
    rfl
  · rintro j ⟨⟩
    exact ht
  · exact fun _ _ _ => hr
  · exact fun hnil => absurd hnil hn

/-- What an operation sets goes forward, and is then the latest. -/
theorem history_moved {α : Type} [LT α] {g : Operation → Option α} {a b : α}
    (htrans : ∀ {a b c : α}, a < b → b < c → a < c) (hl : (q.history g log).Pairwise (· > ·))
    (ha : (q.history g log).head? = some a)
    (h : g (q.operation n) = none ∧ b = a ∨ g (q.operation n) = some b ∧ a < b) :
    (q.history g (⟨n, true, r⟩ :: log)).Pairwise (· > ·) ∧
      (q.history g (⟨n, true, r⟩ :: log)).head? = some b := by
  obtain ⟨hnone, rfl⟩ | ⟨hsome, hlt⟩ := h
  · rw [history_cons_none hnone]
    exact ⟨hl, ha⟩
  · rw [history_cons_some hsome]
    exact ⟨pairwise_cons_of_head? htrans hl ha hlt, rfl⟩

theorem Tracked.moved (h : Tracked q id log (some i)) {j : InstallationRow}
    (hop : q.operation n = op)
    (hcounter : op.setsCounter id = none ∧ j.assertionCounter = i.assertionCounter ∨
      op.setsCounter id = some j.assertionCounter ∧ i.assertionCounter < j.assertionCounter)
    (hepoch : op.setsEpoch id = none ∧ j.endpointEpoch = i.endpointEpoch ∨
      op.setsEpoch id = some j.endpointEpoch ∧ i.endpointEpoch < j.endpointEpoch)
    (htoken : op.setsToken id = none ∧ j.tokenCiphertext = i.tokenCiphertext ∨
      op.setsToken id = some j.tokenCiphertext)
    (hrevoked : j.revokedAt = none → op.revokes id = none ∧ i.revokedAt = none)
    (hcreates : op.creates id = none) : Tracked q id (⟨n, true, r⟩ :: log) (some j) := by
  subst hop
  obtain ⟨hcounters, hc⟩ := history_moved UInt32.lt_trans h.counters (h.counter i rfl) hcounter
  obtain ⟨hepochs, he⟩ := history_moved Int.lt_trans h.epochs (h.epoch i rfl) hepoch
  have hn : q.history (Operation.creates id) (⟨n, true, r⟩ :: log) ≠ [] := by
    rw [history_cons_none hcreates]
    exact h.created_ne_nil rfl
  refine ⟨hcounters, hepochs, ?_, ?_, ?_, ?_, fun hnil => absurd hnil hn⟩
  · rintro _ ⟨⟩
    exact hc
  · rintro _ ⟨⟩
    exact he
  · rintro _ ⟨⟩
    obtain ⟨hnone, heq⟩ | hsome := htoken
    · rw [history_cons_none hnone, heq]
      exact h.token i rfl
    · rw [history_cons_some hsome]
      rfl
  · rintro _ ⟨⟩ hj
    obtain ⟨hnone, hi⟩ := hrevoked hj
    rw [history_cons_none hnone]
    exact h.revoked i rfl hi

/-- **Rows carry what was set last.** A commit keeps it, when no installation is created again. -/
theorem Tracked.step (h : Tracked q id log row)
    (hstep : InstallationStep id (q.operation n) row row')
    (hfresh : ((q.operation n).creates id).isSome →
      q.history (Operation.creates id) log = []) :
    Tracked q id (⟨n, true, r⟩ :: log) row' := by
  generalize hop : q.operation n = op at hstep hfresh
  cases hstep with
  | kept row hcounter hepoch htoken hrevokes hcreates =>
    subst hop
    exact h.kept hcounter hepoch htoken hrevokes hcreates
  | gone row =>
    exact (h.kept (by rw [hop]; rfl) (by rw [hop]; rfl) (by rw [hop]; rfl) (by rw [hop]; rfl)
      (by rw [hop]; rfl)).gone
  | created hid =>
    exact h.create hid hop (hfresh (Option.isSome_iff_exists.mpr ⟨(), if_pos hid⟩))
  | advanced hlt hcounter =>
    exact h.moved hop (.inr ⟨if_pos rfl, hcounter ▸ hlt⟩) (.inl ⟨rfl, rfl⟩) (.inl ⟨rfl, rfl⟩)
      (fun hj => ⟨rfl, hj⟩) rfl
  | rotated hepoch =>
    exact h.moved hop (.inl ⟨rfl, rfl⟩) (.inr ⟨if_pos rfl, hepoch ▸ Int.lt_succ _⟩)
      (.inr (if_pos rfl)) (fun hj => ⟨rfl, hj⟩) rfl
  | revoked clock hepoch =>
    exact h.moved hop (.inl ⟨rfl, rfl⟩) (.inr ⟨if_pos rfl, hepoch ▸ Int.lt_succ _⟩)
      (.inl ⟨rfl, rfl⟩) nofun rfl

/-! ### Delegations -/

/-- The operation is about the delegation of this installation to this relay. -/
def Operation.Concerns (k : DelegationKey) : Operation → Prop
  | .upsertDelegation d => d.key = k
  | .revokeDelegation id relay _ => (id, relay) = k
  | _ => False

/-- What a commit does to the row of one delegation. -/
inductive DelegationStep (k : DelegationKey) :
    Operation → Option DelegationRow → Option DelegationRow → Prop
  | kept {op : Operation} (row : Option DelegationRow) (hop : ¬op.Concerns k) :
    DelegationStep k op row row
  | gone {now : Int} {found : Found} (row : Option DelegationRow) :
    DelegationStep k (.reapExpired now found) row none
  | put {d : Delegation} {row : Option DelegationRow} (hk : d.key = k)
      (hlt : ∀ o, row = some o → o.generation < d.generation) :
    DelegationStep k (.upsertDelegation d) row (some d.row)
  | revoked (clock : Int) {generation : Int} {d : DelegationRow} (hlt : d.generation < generation) :
    DelegationStep k (.revokeDelegation k.1 k.2 generation) (some d)
      (some (d.revoke clock generation))

theorem Effect.delegation (h : Effect clock t op t' r) (k : DelegationKey) :
    DelegationStep k op (t.delegations k) (t'.delegations k) := by
  cases h with
  | upsertDelegation hi hgeneration =>
    rename_i d i
    by_cases heq : d.key = k
    · subst heq
      rw [show (t.putDelegation d _).delegations d.key = some d.row from
        update_self _ _ _]
      exact .put rfl hgeneration
    · rw [show (t.putDelegation d _).delegations k = t.delegations k from
        update_of_ne (Ne.symm heq) _ _]
      exact .kept _ heq
  | revokeDelegation hd hlt =>
    rename_i id relay generation d
    by_cases heq : (id, relay) = k
    · subst heq
      rw [show (t.modifyDelegation (id, relay) (DelegationRow.revoke clock generation)).delegations
        (id, relay) = some (d.revoke clock generation) by
          refine (update_self _ _ _).trans ?_
          rw [hd, Option.map_some], hd]
      exact .revoked clock hlt
    · rw [show (t.modifyDelegation (id, relay) (DelegationRow.revoke clock generation)).delegations
        k = t.delegations k from update_of_ne (Ne.symm heq) _ _]
      exact .kept _ heq
  | reapExpired hreaps =>
    obtain hkept | ⟨hgone, -⟩ := hreaps.delegations k
    · rw [hkept]
      exact .kept _ id
    · rw [hgone]
      exact .gone _
  | _ => exact .kept _ id

theorem Operation.generationOf_eq_none {k : DelegationKey} (h : ¬op.Concerns k) :
    op.generationOf k = none := by
  cases op with
  | upsertDelegation d | revokeDelegation id relay generation => exact if_neg h
  | _ => rfl

/-- A row in force was granted by the last call that concerns it. -/
def Granted (q : Requests) (k : DelegationKey) (log : List StoreAnswer)
    (row : Option DelegationRow) : Prop :=
  ∀ d, row = some d → d.revokedAt = none → ∃ newer y older e, log = newer ++ y :: older ∧
    y.committed = true ∧ q.operation y.request = .upsertDelegation e ∧ e.key = k ∧ e.row = d ∧
      ∀ z ∈ newer, z.committed = true → ¬(q.operation z.request).Concerns k

variable {k : DelegationKey} {drow drow' : Option DelegationRow}

theorem Granted.nil (q : Requests) (k : DelegationKey) : Granted q k [] none :=
  nofun

theorem Granted.cons (h : Granted q k log drow) {x : StoreAnswer}
    (hx : x.committed = true → ¬(q.operation x.request).Concerns k) :
    Granted q k (x :: log) drow := by
  intro d hd hrevoked
  obtain ⟨newer, y, older, e, rfl, hy, hop, hkey, hrow, hno⟩ := h d hd hrevoked
  refine ⟨x :: newer, y, older, e, rfl, hy, hop, hkey, hrow, fun z hz => ?_⟩
  obtain rfl | hz := mem_cons.mp hz
  · exact hx
  · exact hno z hz

theorem Granted.step (h : Granted q k log drow)
    (hstep : DelegationStep k (q.operation n) drow drow') :
    Granted q k (⟨n, true, r⟩ :: log) drow' := by
  generalize hop : q.operation n = op at hstep
  cases hstep with
  | kept row hnot => exact h.cons fun _ => hop ▸ hnot
  | gone row => exact nofun
  | put hk hlt =>
    rintro d ⟨⟩ -
    exact ⟨[], _, log, _, rfl, rfl, hop, hk, rfl, nofun⟩
  | revoked clock hlt =>
    rintro d ⟨⟩ hrevoked
    nomatch hrevoked

/-- Every delegation was granted with a generation above those committed before. -/
def Requests.Forward (q : Requests) : List StoreAnswer → Prop
  | [] => True
  | x :: older => q.Forward older ∧ (x.committed = true → ∀ d,
      q.operation x.request = .upsertDelegation d →
        ∀ g ∈ q.history (Operation.generationOf d.key) older, g < d.generation)

theorem Requests.Forward.of_append {newer older : List StoreAnswer}
    (h : q.Forward (newer ++ older)) : q.Forward older := by
  induction newer with
  | nil => exact h
  | cons x newer ih => exact ih h.1

/-- The row has the highest generation that was committed for its pair. -/
def Topmost (q : Requests) (k : DelegationKey) (log : List StoreAnswer)
    (row : Option DelegationRow) : Prop :=
  ∀ d, row = some d → ∀ g ∈ q.history (Operation.generationOf k) log, g ≤ d.generation

/-- **The compare-and-swap keeps the highest generation**, as long as the row stays. -/
theorem Topmost.step (h : Topmost q k log drow)
    (hstep : DelegationStep k (q.operation n) drow drow')
    (hforward : q.Forward (⟨n, true, r⟩ :: log)) : Topmost q k (⟨n, true, r⟩ :: log) drow' := by
  have hnew := hforward.2 rfl
  generalize hop : q.operation n = op at hstep
  cases hstep with
  | kept row hnot =>
    intro d hd
    rw [history_cons_none (hop ▸ Operation.generationOf_eq_none hnot)]
    exact h d hd
  | gone row => exact nofun
  | put hk hlt =>
    rename_i d
    rintro - ⟨⟩ g hg
    subst hk
    rw [history_cons_some (b := d.generation) (by rw [hop]; exact if_pos rfl)] at hg
    obtain rfl | hg := mem_cons.mp hg
    · exact Int.le_refl _
    · exact Int.le_of_lt (hnew d hop g hg)
  | revoked clock hlt =>
    rename_i generation d
    rintro - ⟨⟩ g hg
    rw [history_cons_some (b := generation) (by rw [hop]; exact if_pos rfl)] at hg
    obtain rfl | hg := mem_cons.mp hg
    · exact Int.le_refl _
    · exact Int.le_of_lt (Int.lt_of_le_of_lt (h d rfl g hg) hlt)

end Buzz.PushGateway
