import Buzz.Mesh.Convergence

/-!
# What a version of a record stands for

Digests have versions only, so a difference between two records of one version is never made up for.
A runtime does not use a version of its own record twice, before the versions are exhausted. But a
ready record enters a table as a first version that the runtime has not made itself: the reader puts
its own clock into it, and leaves an address or a capability as the registry has it.
-/

namespace Buzz.Mesh

open List Option
open Tunnel (RuntimeId)

/-- A runtime has the record, or it is under way. -/
def Occurs (w : World) (r : GossipRecord) : Prop :=
  (∃ id m, w.nodes id = some m ∧ r ∈ m.records) ∨
    ∃ message ∈ w.sent, ∃ records, message.records? = some records ∧ r ∈ records

/-- The action is the reading of a ready record that stands for the record. -/
def Action.Seeds (r : GossipRecord) : Action → Prop
  | .ready _ record nowMillis => r = record.seed nowMillis
  | _ => False

/-- Where a record that did not occur comes from. -/
inductive Origin (w : World) (a : Action) (r : GossipRecord) : Prop where
  | start (absent : w.nodes r.runtimeId = none) (version : r.version = 1) (load : r.load = 0)
      (draining : r.draining = false)
  | update (m : MeshMembership) (present : w.nodes r.runtimeId = some m)
      (version : r.version = bumpVersion m.localRecord.version)
  | seed (seeds : a.Seeds r)

variable {verify : VerifyAttestation} {w w' : World} {a : Action} {id : RuntimeId}
  {m : MeshMembership} {r r' : GossipRecord}

/-! ### Records that occur -/

theorem Inv.produced (h : Inv w) (hr : Occurs w r) : Produced w r := by
  obtain ⟨id, m, hm, hmem⟩ | ⟨message, hmessage, records, hrecords, hmem⟩ := hr
  · exact h.known id m hm r hmem
  · exact h.sent message hmessage records hrecords r hmem

theorem occurs_of_mem (hm : w.nodes id = some m) (hr : r ∈ m.records) : Occurs w r :=
  .inl ⟨id, m, hm, hr⟩

theorem occurs_setNode (h : Occurs (w.setNode id m) r) : Occurs w r ∨ r ∈ m.records := by
  obtain ⟨other, n, hn, hmem⟩ | hsent := h
  · rw [World.nodes_setNode] at hn
    split at hn
    · cases hn
      exact .inr hmem
    · exact .inl (occurs_of_mem hn hmem)
  · exact .inl (.inr hsent)

theorem occurs_send {message : GossipMessage} (h : Occurs (w.send message) r) :
    Occurs w r ∨ ∃ records, message.records? = some records ∧ r ∈ records := by
  obtain hknown | ⟨other, hother, hrecords⟩ := h
  · exact .inl (.inl hknown)
  · obtain hother | hother := mem_append.mp hother
    · exact .inl (.inr ⟨other, hother, hrecords⟩)
    · obtain rfl := mem_singleton.mp hother
      exact .inr hrecords

theorem mem_records_applyGossipRecord {record : GossipRecord}
    (h : r ∈ (m.applyGossipRecord record).1.records) : r ∈ m.records ∨ r = record := by
  obtain ⟨hsame, -⟩ | ⟨-, -, hown, hpeer⟩ := m.applyGossipRecord_cases record
  · rw [hsame] at h
    exact .inl h
  · obtain hr | hr := mem_append.mp h
    · obtain ⟨p, hp, rfl⟩ := mem_map.mp hr
      have hrecord := peerRecord_of_mem hp
      rw [hpeer] at hrecord
      split at hrecord
      · exact .inr (some.inj hrecord).symm
      · exact .inl (mem_records_of_peerRecord hrecord).1
    · rw [hown] at hr
      exact .inl (mem_append_right _ hr)

theorem mem_records_updateLocal {update : LocalUpdate} {nowMillis : Nat}
    (h : r ∈ (m.updateLocal update nowMillis).records) :
    r ∈ m.records ∨ r = update.apply nowMillis m.localRecord := by
  obtain hr | hr := mem_append.mp h
  · exact .inl (mem_append_left _ hr)
  · exact .inr (mem_singleton.mp hr)

/-- **A step brings up one record at most.** -/
theorem occurs_step (h : Inv w) (hs : w.step verify a = some w') :
    (∀ r, Occurs w' r → Occurs w r) ∨
      ∃ fresh, Origin w a fresh ∧ ∀ r, Occurs w' r → Occurs w r ∨ r = fresh := by
  cases a with
  | start id endpointAddrs protoVersion capabilities expectedRelayPubkey nowMillis =>
    dsimp only [World.step] at hs
    split at hs
    · next hnone =>
      cases hs
      refine .inr ⟨{ GossipRecord.new id endpointAddrs protoVersion nowMillis with
        capabilities := capabilities }, .start hnone rfl rfl rfl, fun r hr => ?_⟩
      exact (occurs_setNode hr).imp_right mem_singleton.mp
    · cases hs
  | update id update nowMillis =>
    obtain ⟨m, hm, rfl⟩ := map_eq_some_iff.mp hs
    have hid : m.localRecord.runtimeId = id := h.ids id m hm
    refine .inr ⟨update.apply nowMillis m.localRecord, .update m (hid.symm ▸ hm) rfl, fun r hr => ?_⟩
    obtain hold | hmem := occurs_setNode hr
    · exact .inl hold
    · exact (mem_records_updateLocal hmem).imp_left (occurs_of_mem hm)
  | drain id nowMillis =>
    obtain ⟨m, hm, rfl⟩ := map_eq_some_iff.mp hs
    have hid : m.localRecord.runtimeId = id := h.ids id m hm
    refine .inr ⟨LocalUpdate.apply ⟨none, none, some true, none⟩ nowMillis m.localRecord,
      .update m (hid.symm ▸ hm) rfl, fun r hr => ?_⟩
    obtain hold | hmem := occurs_setNode hr
    · exact .inl hold
    · exact (mem_records_updateLocal (m := m) hmem).imp_left (occurs_of_mem hm)
  | ready id record nowMillis =>
    obtain ⟨m, hm, hs⟩ := bind_eq_some_iff.mp hs
    obtain ⟨-, hs⟩ := ite_none_right_eq_some.mp hs
    cases hs
    refine .inr ⟨record.seed nowMillis, .seed rfl, fun r hr => ?_⟩
    obtain hold | hmem := occurs_setNode hr
    · exact .inl hold
    · obtain ⟨hown, hpeers⟩ | ⟨-, heq⟩ := applyReadyRecord_cases m verify nowMillis record
      · rw [MeshMembership.records, hown, hpeers] at hmem
        exact .inl (occurs_of_mem hm hmem)
      · rw [heq] at hmem
        exact (mem_records_applyGossipRecord hmem).imp_left (occurs_of_mem hm)
  | digest id =>
    obtain ⟨m, -, rfl⟩ := map_eq_some_iff.mp hs
    refine .inl fun r hr => ?_
    obtain hold | ⟨records, hrecords, -⟩ := occurs_send hr
    · exact hold
    · cases hrecords
  | answer id message =>
    obtain ⟨m, hm, hs⟩ := bind_eq_some_iff.mp hs
    obtain ⟨entries, -, rfl⟩ := map_eq_some_iff.mp hs
    refine .inl fun r hr => ?_
    obtain hold | ⟨records, hrecords, hmem⟩ := occurs_send hr
    · exact hold
    · exact occurs_of_mem hm (mem_deltaOf hrecords hmem)
  | receive id message record =>
    obtain ⟨m, hm, hs⟩ := bind_eq_some_iff.mp hs
    obtain ⟨r₀, hr₀, rfl⟩ := map_eq_some_iff.mp hs
    obtain ⟨records, hrecords, hr₀⟩ := bind_eq_some_iff.mp hr₀
    obtain ⟨delta, hdelta, hrecords⟩ := bind_eq_some_iff.mp hrecords
    have hoccurs : Occurs w r₀ :=
      .inr ⟨delta, mem_of_getElem? hdelta, records, hrecords, mem_of_getElem? hr₀⟩
    refine .inl fun r hr => ?_
    obtain hold | hmem := occurs_setNode hr
    · exact hold
    · obtain hmem | rfl := mem_records_applyGossipRecord hmem
      · exact occurs_of_mem hm hmem
      · exact hoccurs

/-! ### Every run -/

/-- Two records of one version differ at most in this way: the version is the last one, or they are
first records and one of them is a seed. -/
def SameOrSeeded (past : List Action) (r r' : GossipRecord) : Prop :=
  r = r' ∨ r.version = u64Max ∨
    r.version = 1 ∧ r.load = r'.load ∧ r.draining = r'.draining ∧
      ∃ a ∈ past, a.Seeds r ∨ a.Seeds r'

/-- What holds after the actions of a run. -/
structure Coherent (past : List Action) (w : World) : Prop where
  inv : Inv w
  bound : ∀ r, Occurs w r → r.version ≤ u64Max
  first : ∀ r, Occurs w r → r.version = 1 → r.load = 0 ∧ r.draining = false
  same : ∀ r r', Occurs w r → Occurs w r' → r.runtimeId = r'.runtimeId → r.version = r'.version →
    r = r' ∨ r.version = u64Max ∨ r.version = 1 ∧ ∃ a ∈ past, a.Seeds r ∨ a.Seeds r'

theorem Action.Seeds.eq_seed (h : a.Seeds r) :
    r.version = 1 ∧ r.load = 0 ∧ r.draining = false := by
  cases a with
  | ready id record nowMillis =>
    obtain rfl : r = record.seed nowMillis := h
    exact ⟨rfl, rfl, rfl⟩
  | _ => exact h.elim

theorem bumpVersion_cases (version : Nat) :
    version < u64Max ∧ bumpVersion version = version + 1 ∨
      u64Max ≤ version ∧ bumpVersion version = version := by
  unfold bumpVersion
  split
  · next hlt => exact .inl ⟨hlt, rfl⟩
  · next hge => exact .inr ⟨Nat.le_of_not_lt hge, rfl⟩

variable {past : List Action}

theorem Origin.version_eq (h : Origin w a r) (hw : Coherent past w) (hold : Occurs w r')
    (hid : r.runtimeId = r'.runtimeId) (hversion : r.version = r'.version) :
    r.version = u64Max ∨ r.version = 1 ∧ a.Seeds r := by
  obtain ⟨owner, howner, hle⟩ := hw.inv.produced hold
  cases h with
  | start absent =>
    rw [hid, howner] at absent
    cases absent
  | update m present version =>
    rw [hid, howner] at present
    cases present
    have hbound := hw.bound r' hold
    obtain ⟨-, hbump⟩ | ⟨hlast, hbump⟩ := bumpVersion_cases owner.localRecord.version
    · omega
    · exact .inl (by omega)
  | seed seeds => exact .inr ⟨seeds.eq_seed.1, seeds⟩

theorem Origin.first (h : Origin w a r) (hw : Coherent past w) :
    r.version ≤ u64Max ∧ (r.version = 1 → r.load = 0 ∧ r.draining = false) := by
  cases h with
  | start absent version load draining =>
    exact ⟨version ▸ (by decide : 1 ≤ u64Max), fun _ => ⟨load, draining⟩⟩
  | update m present version =>
    have hlocal : Occurs w m.localRecord :=
      occurs_of_mem present (mem_append_right _ mem_cons_self)
    have hbound := hw.bound _ hlocal
    have hstarted := hw.inv.started _ m present
    have hlast : 1 < u64Max := by decide
    obtain ⟨hlt, hbump⟩ | ⟨hge, hbump⟩ := bumpVersion_cases m.localRecord.version
    · exact ⟨by omega, fun hone => by omega⟩
    · exact ⟨by omega, fun hone => by omega⟩
  | seed seeds =>
    obtain ⟨hversion, hfirst⟩ := seeds.eq_seed
    exact ⟨hversion ▸ (by decide : 1 ≤ u64Max), fun _ => hfirst⟩

theorem Coherent.step (h : Coherent past w) (hs : w.step verify a = some w') :
    Coherent (past ++ [a]) w' := by
  have hinv := h.inv.step hs
  have hgrown : ∀ r r', Occurs w r → Occurs w r' → r.runtimeId = r'.runtimeId →
      r.version = r'.version → r = r' ∨ r.version = u64Max ∨
        r.version = 1 ∧ ∃ a' ∈ past ++ [a], a'.Seeds r ∨ a'.Seeds r' := by
    intro r r' hr hr' hid hversion
    refine (h.same r r' hr hr' hid hversion).imp_right (Or.imp_right ?_)
    rintro ⟨hone, a', ha', hseeds⟩
    exact ⟨hone, a', mem_append_left _ ha', hseeds⟩
  have hlast : a ∈ past ++ [a] := mem_append_right _ mem_cons_self
  obtain hkeep | ⟨fresh, horigin, hkeep⟩ := occurs_step h.inv hs
  · exact ⟨hinv, fun r hr => h.bound r (hkeep r hr), fun r hr => h.first r (hkeep r hr),
      fun r r' hr hr' => hgrown r r' (hkeep r hr) (hkeep r' hr')⟩
  · obtain ⟨hbound, hfirst⟩ := horigin.first h
    refine ⟨hinv, fun r hr => ?_, fun r hr => ?_, fun r r' hr hr' hid hversion => ?_⟩
    · obtain hold | rfl := hkeep r hr
      · exact h.bound r hold
      · exact hbound
    · obtain hold | rfl := hkeep r hr
      · exact h.first r hold
      · exact hfirst
    · obtain hold | rfl := hkeep r hr
      · obtain hold' | rfl := hkeep r' hr'
        · exact hgrown r r' hold hold' hid hversion
        · -- the second one is new
          refine .inr ((horigin.version_eq h hold hid.symm hversion.symm).imp ?_ ?_)
          · exact hversion.trans
          · exact fun hseeds => ⟨hversion.trans hseeds.1, a, hlast, .inr hseeds.2⟩
      · obtain hold' | rfl := hkeep r' hr'
        · refine .inr ((horigin.version_eq h hold' hid hversion).imp_right fun hseeds => ?_)
          exact ⟨hseeds.1, a, hlast, .inl hseeds.2⟩
        · exact .inl rfl

theorem coherent_run {as : List Action} (h : Coherent past w)
    (hr : (mesh verify).run w as = some w') : Coherent (past ++ as) w' := by
  induction as generalizing w past with
  | nil =>
    cases hr
    simpa using h
  | cons a as ih =>
    obtain ⟨w₁, hs, hr⟩ := (mesh verify).run_cons_eq_some.mp hr
    have hrun := ih (h.step hs) hr
    rwa [append_assoc, singleton_append] at hrun

theorem coherent_init (h : (mesh verify).Init w) : Coherent [] w := by
  have hinv := Inv.init h
  have hnone : ∀ r, ¬Occurs w r := by
    obtain rfl := h
    rintro r (⟨id, m, hm, -⟩ | ⟨message, hmessage, -⟩)
    · cases hm
    · cases hmessage
  exact ⟨hinv, fun r hr => absurd hr (hnone r), fun r hr => absurd hr (hnone r),
    fun r _ hr => absurd hr (hnone r)⟩

theorem Coherent.sameOrSeeded (h : Coherent past w) (hr : Occurs w r) (hr' : Occurs w r')
    (hid : r.runtimeId = r'.runtimeId) (hversion : r.version = r'.version) :
    SameOrSeeded past r r' := by
  refine (h.same r r' hr hr' hid hversion).imp_right (Or.imp_right ?_)
  rintro ⟨hone, hseeds⟩
  obtain ⟨hload, hdraining⟩ := h.first r hr hone
  obtain ⟨hload', hdraining'⟩ := h.first r' hr' (hversion ▸ hone)
  exact ⟨hone, hload.trans hload'.symm, hdraining.trans hdraining'.symm, hseeds⟩

theorem exists_of_notMem_deltaOf {records others delta : List GossipRecord}
    {entries : List GossipDigestEntry} (hothers : DistinctIds others)
    (hentries : (digestOf others).entries? = some entries)
    (hdelta : (deltaOf records entries).records? = some delta) (hr : r ∈ records)
    (hnot : r ∉ delta) :
    ∃ r' ∈ others, r'.runtimeId = r.runtimeId ∧ r.version ≤ r'.version := by
  cases hdelta
  have hbehind : ¬(remoteVersion entries r.runtimeId).all
      (fun remote => decide (remote < r.version)) = true := by
    intro hall
    exact hnot (mem_sortByHex.mpr (mem_filter.mpr ⟨hr, hall⟩))
  cases hremote : remoteVersion entries r.runtimeId with
  | none =>
    rw [hremote] at hbehind
    exact absurd rfl hbehind
  | some remote =>
    rw [hremote, all_some, decide_eq_true_eq] at hbehind
    obtain ⟨r', hr', hid, hversion⟩ :=
      mem_of_versionOf (remoteVersion_digestOf hothers hentries hremote)
    exact ⟨r', hr', hid, by omega⟩

/-- **A version of a record names it.** Two runtimes that have records of one life of a runtime, of
one version, have the same record, unless these are first records and one of them is a seed, or the
version is the last one. So a delta leaves out records that the other side has, or has newer ones of,
with the same exceptions. -/
theorem version_names_record {as : List Action}
    (hr : (mesh verify).run ⟨fun _ => none, []⟩ as = some w) {id other : RuntimeId}
    {m n : MeshMembership} (hm : w.nodes id = some m) (hn : w.nodes other = some n) :
    (∀ r ∈ m.records, ∀ r' ∈ n.records, r.runtimeId = r'.runtimeId → r.version = r'.version →
      SameOrSeeded as r r') ∧
    ∀ entries, n.digest.entries? = some entries →
      ∀ delta, (m.deltaFor entries).records? = some delta → ∀ r ∈ m.records, r ∉ delta →
        ∃ r' ∈ n.records, r'.runtimeId = r.runtimeId ∧
          (r.version < r'.version ∨ SameOrSeeded as r r') := by
  have hinit : (mesh verify).Init ⟨fun _ => none, []⟩ := rfl
  have hcoherent : Coherent as w := coherent_run (coherent_init hinit) hr
  have hsame : ∀ r ∈ m.records, ∀ r' ∈ n.records, r.runtimeId = r'.runtimeId →
      r.version = r'.version → SameOrSeeded as r r' := fun r hr r' hr' =>
    hcoherent.sameOrSeeded (occurs_of_mem hm hr) (occurs_of_mem hn hr')
  refine ⟨hsame, fun entries hentries delta hdelta r hmem hnot => ?_⟩
  obtain ⟨r', hr', hid, hle⟩ :=
    exists_of_notMem_deltaOf n.distinctIds_records hentries hdelta hmem hnot
  refine ⟨r', hr', hid, ?_⟩
  rcases Nat.lt_or_eq_of_le hle with hlt | heq
  · exact .inl hlt
  · exact .inr (hsame r hmem r' hr' hid.symm heq)

/-- Two runtimes start, and one of them reads the ready record of the other. -/
def seedActions : List Action :=
  [.start (byteId 1) ["10.0.0.1:7001"] 1 [] (some "r") 0, .start (byteId 2) [] 1 [] (some "r") 0,
    .ready (byteId 2) (readyOf 1) 5]

/-- After an update and an exchange of messages, the reader has the record of the other one. -/
theorem version_names_record_seed : ∃ w m n, (mesh fun _ _ _ => true).run ⟨fun _ => none, []⟩
    (seedActions ++ [.update (byteId 1) ⟨none, none, none, none⟩ 10, .digest (byteId 2),
      .answer (byteId 1) 0, .receive (byteId 2) 1 0]) = some w ∧
    w.nodes (byteId 1) = some m ∧ w.nodes (byteId 2) = some n ∧
    m.localRecord ∈ n.records ∧ m.localRecord.version = 2 ∧
    ∀ r ∈ m.records, ∀ r' ∈ n.records, r.runtimeId = r'.runtimeId → r.version = r'.version →
      SameOrSeeded (seedActions ++ [.update (byteId 1) ⟨none, none, none, none⟩ 10,
        .digest (byteId 2), .answer (byteId 1) 0, .receive (byteId 2) 1 0]) r r' := by
  have hany : ((mesh fun _ _ _ => true).run ⟨fun _ => none, []⟩
      (seedActions ++ [.update (byteId 1) ⟨none, none, none, none⟩ 10, .digest (byteId 2),
        .answer (byteId 1) 0, .receive (byteId 2) 1 0])).any (fun w =>
      (w.nodes (byteId 1)).any fun m => (w.nodes (byteId 2)).any fun n =>
        decide (m.localRecord ∈ n.records ∧ m.localRecord.version = 2)) = true := by
    decide +kernel
  obtain ⟨w, hrun, hw⟩ := (any_eq_true _ _).mp hany
  obtain ⟨m, hm, hw⟩ := (any_eq_true _ _).mp hw
  obtain ⟨n, hn, hw⟩ := (any_eq_true _ _).mp hw
  obtain ⟨hmem, hversion⟩ := of_decide_eq_true hw
  exact ⟨w, m, n, hrun, hm, hn, hmem, hversion, (version_names_record hrun hm hn).1⟩

/-- The reader of a ready record has a first record with its own clock in it, and the runtime itself
another one. -/
theorem not_version_names_record : ¬∀ w, (mesh fun _ _ _ => true).Reachable w →
    ∀ id other m n, w.nodes id = some m → w.nodes other = some n →
      ∀ r ∈ m.records, ∀ r' ∈ n.records, r.runtimeId = r'.runtimeId → r.version = r'.version →
        r = r' := by
  intro hclaim
  have hany : ((mesh fun _ _ _ => true).run ⟨fun _ => none, []⟩ seedActions).any (fun w =>
      (w.nodes (byteId 1)).any fun m => (w.nodes (byteId 2)).any fun n =>
        decide (∃ r ∈ m.records, ∃ r' ∈ n.records, r.runtimeId = r'.runtimeId ∧
          r.version = r'.version ∧ r ≠ r')) = true := by
    decide +kernel
  obtain ⟨w, hrun, hw⟩ := (any_eq_true _ _).mp hany
  obtain ⟨m, hm, hw⟩ := (any_eq_true _ _).mp hw
  obtain ⟨n, hn, hw⟩ := (any_eq_true _ _).mp hw
  obtain ⟨r, hr, r', hr', hid, hversion, hne⟩ := of_decide_eq_true hw
  exact hne (hclaim w ⟨_, _, rfl, hrun⟩ _ _ m n hm hn r hr r' hr' hid hversion)

end Buzz.Mesh
