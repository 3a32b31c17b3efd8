import Buzz.Audit.Integrity

/-!
# Communities do not see each other

What a run leaves in the chain of one community is what the run leaves there without the steps for
all others: the head is read, and the constraints are checked, among the community's own rows, and
another community's locks can only stand in the way.
-/

namespace Buzz.Audit

open List Option

variable {P : Platform}

def World.restrict (community : CommunityId) (w : World) : World where
  table := rowsOf community w.table
  grants := w.grants.filter fun grant => grant.2 == community
  phase session :=
    if (w.phase session).community = some community then w.phase session else .idle

def Action.concerns (community : CommunityId) (a : Action) : Bool :=
  a.community.all fun other => other == community

theorem rowsOf_rowsOf (community : CommunityId) (table : List AuditRow) :
    rowsOf community (rowsOf community table) = rowsOf community table := by
  rw [rowsOf, rowsOf, List.filter_filter]
  exact List.filter_congr fun _ _ => Bool.and_self _

namespace World

variable {w : World} {community : CommunityId} {session : Nat} {phase : Phase}

theorem restrict_setPhase : (w.setPhase session phase).restrict community =
    (w.restrict community).setPhase session
      (if phase.community = some community then phase else .idle) := by
  refine congrArg (World.mk _ _) (funext fun other => ?_)
  rw [phase_setPhase, Function.update_apply]
  split <;> rfl

theorem setPhase_self (h : w.phase session = phase) : w.setPhase session phase = w := by
  rw [setPhase, ← h, Function.update_eq_self]

theorem restrict_phase (h : (w.phase session).community = some community) :
    (w.restrict community).phase session = w.phase session := if_pos h

theorem restrict_phase_idle (h : (w.phase session).community ≠ some community) :
    (w.restrict community).phase session = .idle := if_neg h

theorem restrict_setPhase_own (h : phase.community = some community) :
    (w.setPhase session phase).restrict community =
      (w.restrict community).setPhase session phase := by
  rw [restrict_setPhase, if_pos h]

theorem restrict_setPhase_other {v : World} (hbefore : (v.phase session).community ≠ some community)
    (hafter : phase.community ≠ some community) (hv : v.restrict community = w.restrict community) :
    (v.setPhase session phase).restrict community = w.restrict community := by
  rw [restrict_setPhase, if_neg hafter, setPhase_self (restrict_phase_idle hbefore), hv]

theorem restrict_setPhase_idle : (w.setPhase session .idle).restrict community =
    (w.restrict community).setPhase session .idle := by
  rw [restrict_setPhase]
  rfl

end World

/-! ### What a community sees of the locks and of the table -/

variable {w : World} {community : CommunityId} {session : Nat} {grants : List (Nat × CommunityId)}

theorem lockable_filter (h : lockable P grants session community = true) :
    lockable P (grants.filter fun grant => grant.2 == community) session community = true :=
  all_eq_true.mpr fun grant hgrant =>
    all_eq_true.mp h grant (mem_filter.mp hgrant).1

theorem filter_grant_own :
    ((session, community) :: grants).filter (fun grant => grant.2 == community) =
      (session, community) :: grants.filter fun grant => grant.2 == community :=
  filter_cons_of_pos (p := fun grant : Nat × CommunityId => grant.2 == community)
     (beq_self_eq_true community)

variable {other : CommunityId}

theorem filter_grant_other (h : other ≠ community) :
    ((session, other) :: grants).filter (fun grant => grant.2 == community) =
      grants.filter fun grant => grant.2 == community :=
  filter_cons_of_neg (p := fun grant : Nat × CommunityId => grant.2 == community)
    fun heq => h (beq_iff_eq.mp heq)

theorem filter_erase_own :
    (grants.erase (session, community)).filter (fun grant => grant.2 == community) =
      (grants.filter fun grant => grant.2 == community).erase (session, community) :=
  erase_filter.symm

theorem filter_erase_other (h : other ≠ community) :
    (grants.erase (session, other)).filter (fun grant => grant.2 == community) =
      grants.filter fun grant => grant.2 == community := by
  rw [← erase_filter, erase_of_not_mem fun hmem => ?_]
  exact h (beq_iff_eq.mp (mem_filter.mp hmem).2)

theorem headOf_rowsOf (table : List AuditRow) :
    headOf community (rowsOf community table) = headOf community table := by
  rw [headOf, headOf, rowsOf_rowsOf]

theorem insertable_rowsOf {table : List AuditRow} {row : AuditRow}
    (h : row.communityId = community) :
    insertable (rowsOf community table) row = insertable table row := by
  rw [insertable, insertable, h, rowsOf_rowsOf]

variable {w' : World}

theorem restrict_step_other {a : Action} (ha : a.concerns community = false)
    (hs : (auditService P).step w a = some w') : w'.restrict community = w.restrict community := by
  cases a with
  | call session entry =>
    obtain ⟨hidle, hs⟩ := ite_none_right_eq_some.mp hs
    cases hs
    have hother : entry.communityId ≠ community := beq_eq_false_iff_ne.mp ha
    exact World.restrict_setPhase_other (by rw [hidle]; nofun)
      (fun h => hother (some.inj h)) rfl
  | lock session other =>
    dsimp only [auditService, World.step] at hs
    split at hs
    · next entry hphase =>
      obtain ⟨⟨rfl, -⟩, hs⟩ := ite_none_right_eq_some.mp hs
      cases hs
      have hother : entry.communityId ≠ community := beq_eq_false_iff_ne.mp ha
      exact World.restrict_setPhase_other
        (by rw [hphase]; exact fun h => hother (some.inj h))
        (fun h => hother (some.inj h))
        (congrArg (fun g => World.mk _ g _) (filter_grant_other hother))
    · nomatch hs
  | readHead session other =>
    dsimp only [auditService, World.step] at hs
    split at hs
    · next entry hphase =>
      obtain ⟨rfl, hs⟩ := ite_none_right_eq_some.mp hs
      cases hs
      have hother : entry.communityId ≠ community := beq_eq_false_iff_ne.mp ha
      exact World.restrict_setPhase_other
        (by rw [hphase]; exact fun h => hother (some.inj h))
        (fun h => hother (some.inj h)) rfl
    · nomatch hs
  | insert session other now =>
    dsimp only [auditService, World.step] at hs
    split at hs
    · next entry head hphase =>
      obtain ⟨⟨rfl, -⟩, hw⟩ := ite_none_right_eq_some.mp hs
      cases hw
      have hother : entry.communityId ≠ community := beq_eq_false_iff_ne.mp ha
      exact World.restrict_setPhase_other
        (by rw [hphase]; exact fun h => hother (some.inj h))
        (fun h => hother (some.inj h)) rfl
    · nomatch hs
  | commit session other =>
    dsimp only [auditService, World.step] at hs
    split at hs
    · next row hphase =>
      obtain ⟨rfl, hs⟩ := ite_none_right_eq_some.mp hs
      cases hs
      have hother : row.communityId ≠ community := beq_eq_false_iff_ne.mp ha
      have htable : rowsOf community (w.table ++ [row]) = rowsOf community w.table := by
        simp [rowsOf_append, hother]
      exact World.restrict_setPhase_other
        (by rw [hphase]; exact fun h => hother (some.inj h))
        (fun h => hother (some.inj h)) (congrArg (fun t => World.mk t _ _) htable)
    · nomatch hs
  | fail session other =>
    obtain ⟨⟨-, hcommunity⟩, hs⟩ := ite_none_right_eq_some.mp hs
    cases hs
    have hother : other ≠ community := beq_eq_false_iff_ne.mp ha
    exact World.restrict_setPhase_other
      (by rw [hcommunity]; exact fun h => hother (some.inj h))
      (fun h => hother (some.inj h)) rfl
  | unlock session other =>
    obtain ⟨hphase, hs⟩ := ite_none_right_eq_some.mp hs
    cases hs
    have hother : other ≠ community := beq_eq_false_iff_ne.mp ha
    exact World.restrict_setPhase_other
      (by rw [hphase]; exact fun h => hother (some.inj h)) nofun
      (congrArg (fun g => World.mk _ g _) (filter_erase_other hother))
  | cancel session other =>
    obtain ⟨hcommunity, hs⟩ := ite_none_right_eq_some.mp hs
    cases hs
    have hother : other ≠ community := beq_eq_false_iff_ne.mp ha
    exact World.restrict_setPhase_other
      (by rw [hcommunity]; exact fun h => hother (some.inj h)) nofun rfl
  | grantLate session other =>
    obtain ⟨-, hs⟩ := ite_none_right_eq_some.mp hs
    cases hs
    have hother : other ≠ community := beq_eq_false_iff_ne.mp ha
    exact congrArg (fun g => World.mk _ g _) (filter_grant_other hother)
  | disconnect session => nomatch ha

theorem restrict_step_own {a : Action} (ha : a.concerns community = true)
    (hs : (auditService P).step w a = some w') :
    (auditService P).step (w.restrict community) a = some (w'.restrict community) := by
  cases a with
  | call session entry =>
    obtain ⟨hidle, hs⟩ := ite_none_right_eq_some.mp hs
    cases hs
    obtain rfl : entry.communityId = community := beq_iff_eq.mp ha
    rw [World.restrict_setPhase_own rfl]
    exact if_pos (World.restrict_phase_idle (by rw [hidle]; nofun))
  | lock session other =>
    obtain rfl : other = community := beq_iff_eq.mp ha
    dsimp only [auditService, World.step] at hs ⊢
    split at hs
    · next entry hphase =>
      obtain ⟨⟨rfl, hlock⟩, hs⟩ := ite_none_right_eq_some.mp hs
      cases hs
      rw [World.restrict_phase (by rw [hphase]; rfl), hphase, World.restrict_setPhase_own rfl]
      refine (if_pos ⟨rfl, lockable_filter hlock⟩).trans (congrArg some ?_)
      exact congrArg (fun g => (World.mk _ g _).setPhase _ _) filter_grant_own.symm
    · nomatch hs
  | readHead session other =>
    obtain rfl : other = community := beq_iff_eq.mp ha
    dsimp only [auditService, World.step] at hs ⊢
    split at hs
    · next entry hphase =>
      obtain ⟨rfl, hs⟩ := ite_none_right_eq_some.mp hs
      cases hs
      rw [World.restrict_phase (by rw [hphase]; rfl), hphase, World.restrict_setPhase_own rfl]
      refine (if_pos rfl).trans (congrArg some ?_)
      exact congrArg (fun h => World.setPhase _ _ (.read entry h)) (headOf_rowsOf w.table)
    · nomatch hs
  | insert session other now =>
    obtain rfl : other = community := beq_iff_eq.mp ha
    dsimp only [auditService, World.step] at hs ⊢
    split at hs
    · next entry head hphase =>
      obtain ⟨⟨rfl, hinsert⟩, hw⟩ := ite_none_right_eq_some.mp hs
      cases hw
      rw [World.restrict_phase (by rw [hphase]; rfl), hphase, World.restrict_setPhase_own rfl]
      exact if_pos ⟨rfl, (insertable_rowsOf rfl).trans hinsert⟩
    · nomatch hs
  | commit session other =>
    obtain rfl : other = community := beq_iff_eq.mp ha
    dsimp only [auditService, World.step] at hs ⊢
    split at hs
    · next row hphase =>
      obtain ⟨rfl, hs⟩ := ite_none_right_eq_some.mp hs
      cases hs
      rw [World.restrict_phase (by rw [hphase]; rfl), hphase, World.restrict_setPhase_own rfl]
      refine (if_pos rfl).trans (congrArg some ?_)
      have htable : rowsOf row.communityId (w.table ++ [row]) =
          rowsOf row.communityId w.table ++ [row] := by
        rw [rowsOf_append, if_pos rfl]
      exact congrArg (fun t => (World.mk t _ _).setPhase _ _) htable.symm
    · nomatch hs
  | fail session other =>
    obtain rfl : other = community := beq_iff_eq.mp ha
    obtain ⟨⟨hholds, hcommunity⟩, hs⟩ := ite_none_right_eq_some.mp hs
    cases hs
    rw [World.restrict_setPhase_own rfl]
    refine if_pos ?_
    rw [World.restrict_phase hcommunity]
    exact ⟨hholds, hcommunity⟩
  | unlock session other =>
    obtain rfl : other = community := beq_iff_eq.mp ha
    obtain ⟨hphase, hs⟩ := ite_none_right_eq_some.mp hs
    cases hs
    rw [World.restrict_setPhase_idle]
    refine (if_pos ?_).trans (congrArg some ?_)
    · rw [World.restrict_phase (by rw [hphase]; rfl), hphase]
    · exact congrArg (fun g => (World.mk _ g _).setPhase _ _) filter_erase_own.symm
  | cancel session other =>
    obtain rfl : other = community := beq_iff_eq.mp ha
    obtain ⟨hcommunity, hs⟩ := ite_none_right_eq_some.mp hs
    cases hs
    rw [World.restrict_setPhase_idle]
    exact if_pos (by rw [World.restrict_phase hcommunity]; exact hcommunity)
  | grantLate session other =>
    obtain rfl : other = community := beq_iff_eq.mp ha
    obtain ⟨hlock, hs⟩ := ite_none_right_eq_some.mp hs
    cases hs
    refine (if_pos (lockable_filter hlock)).trans (congrArg some ?_)
    exact congrArg (fun g => World.mk _ g _) filter_grant_own.symm
  | disconnect session =>
    cases hs
    rw [World.restrict_setPhase_idle]
    have hgrants : (w.grants.filter fun grant => grant.2 == community).filter
        (fun grant => grant.1 != session) =
        (w.grants.filter fun grant => grant.1 != session).filter
          fun grant => grant.2 == community := by
      rw [List.filter_filter, List.filter_filter]
      exact filter_congr fun _ _ => Bool.and_comm _ _
    exact congrArg some (congrArg (fun g => (World.mk _ g _).setPhase _ _) hgrants)

variable {as : List Action}

theorem restrict_run (hr : (auditService P).run w as = some w') :
    (auditService P).run (w.restrict community) (as.filter (Action.concerns community)) =
      some (w'.restrict community) := by
  refine StateMachine.run_filter (World.restrict community) _ (fun s a s' hs => ?_) hr
  split
  · next ha => exact restrict_step_own ha hs
  · next ha => exact restrict_step_other (Bool.not_eq_true _ ▸ ha) hs

/-! ### Integrity -/

variable {Q : Json → Prop} {rows : List AuditRow}

theorem Chain.seq_getElem (h : Chain P Q rows) (i : Nat) (hi : i < rows.length) :
    rows[i].seq = i + 1 := by
  rw [h.seqs.getElem i hi, Int.add_comm]

theorem Chain.prevHash_getElem (h : Chain P Q rows) (i : Nat) (hi : i < rows.length) :
    rows[i].prevHash = if i = 0 then none else (rows[i - 1]?).map AuditRow.hash := by
  cases i with
  | zero => exact h.linked.link_zero hi
  | succ i =>
    have hi' : i < rows.length := Nat.lt_of_succ_lt hi
    rw [h.linked.link_succ i hi, if_neg (Nat.succ_ne_zero i), Nat.add_sub_cancel,
      getElem?_eq_getElem hi', map_some]

/-- The world that a run starts in. -/
def World.empty : World := ⟨[], [], fun _ => .idle⟩

/-- Whatever is logged: the rows of a community are numbered from one, each names the hash of the
one before, and they are what the community's own steps leave. -/
theorem chain_linked {w : World} (hr : (auditService P).run World.empty as = some w)
    (community : CommunityId) : let rows := rowsOf community w.table
    (∀ i (hi : i < rows.length), rows[i].seq = i + 1 ∧
      rows[i].prevHash = if i = 0 then none else (rows[i - 1]?).map AuditRow.hash) ∧
    ∃ w', (auditService P).run World.empty (as.filter (Action.concerns community)) = some w' ∧
      w'.table = rows := by
  have hinv : Inv P (fun _ => True) w :=
    StateMachine.run_preserves (I := Inv P fun _ => True)
      (fun s a s' hI hs => hI.step (by cases a <;> trivial) hs) hr (inv_of_init rfl)
  have hchain := hinv.chain community
  exact ⟨fun i hi => ⟨hchain.seq_getElem i hi, hchain.prevHash_getElem i hi⟩,
    w.restrict community, restrict_run hr, rfl⟩

/-- **Integrity.** When only documents are logged that the database gives back as they were hashed,
the rows of every community are numbered from one without a gap, each names the hash of the one
before, every range that contains a row verifies, and the rows are what the community's own steps
leave when all others are left out. -/
theorem chain_integrity {w : World} {as : List Action}
    (hr : ((auditService P).guard (Logs (StoredUnchanged P))).run World.empty as = some w)
    (community : CommunityId) :
    let rows := rowsOf community w.table
    (∀ i (hi : i < rows.length), rows[i].seq = i + 1 ∧
      rows[i].prevHash = if i = 0 then none else (rows[i - 1]?).map AuditRow.hash) ∧
    (∀ fromSeq toSeq, (∃ row ∈ rows, fromSeq ≤ row.seq ∧ row.seq ≤ toSeq) →
      verifyChain P w.table community fromSeq toSeq = .ok true) ∧
    ∃ w', (auditService P).run World.empty (as.filter (Action.concerns community)) = some w' ∧
      w'.table = rows := by
  have hinv : Inv P (StoredUnchanged P) w := inv_of_reachable ⟨World.empty, as, rfl, hr⟩
  obtain ⟨hrows, hown⟩ := chain_linked (StateMachine.run_of_guard hr) community
  exact ⟨hrows, fun _ _ hsome => (hinv.chain community).verifyChain hsome, hown⟩

/-! ### A document that does not come back as it was hashed -/

/-- A number in a `JSONB` column: the exponent of a whole number is written out. -/
def numericToken (n : NumToken) : NumToken :=
  match n.chars.splitOn 'e' with
  | [mantissa, exponent] =>
    let power := (exponent.dropPrefix? ['+']).getD exponent
    if mantissa.all Char.isDigit && power.all Char.isDigit then
      NumToken.ofNat (Nat.ofDigitChars 10 mantissa 0 * 10 ^ Nat.ofDigitChars 10 power 0)
    else n
  | _ => n

/-- A platform for runs: numbers are stored as Postgres stores them, and a checksum stands for the
digest. -/
def checksumPlatform : Platform where
  sha256 bytes := .replicate 32 (UInt8.ofNat (bytes.foldl (fun n b => 3 * n + b.toNat) 0))
  rfc3339 t := Nat.repr t.toNat
  jsonb
    | .num n => .num (numericToken n)
    | value => value
  hashtext s := s.length

/-- The float `1e16`, as `serde_json` writes it. -/
def tenQuadrillion : Json :=
  .num ⟨"1e+16".toList, ⟨'1', _, rfl, .inl rfl⟩, List.all_eq_true.mp (by decide)⟩

/-- Two sessions log documents for a community; one of them is cut off with the lock. -/
def logActions (detail : Json) : List Action :=
  [.call 0 ⟨7, .eventCreated, some [1], some "a", detail⟩,
    .call 1 ⟨7, .mediaUploaded, none, none, detail⟩, .lock 0 7, .readHead 0 7, .insert 0 7 1234567,
    .cancel 0 7, .disconnect 0, .lock 1 7, .readHead 1 7, .insert 1 7 2345678, .commit 1 7,
    .unlock 1 7, .call 0 ⟨7, .eventDeleted, some [2], none, .null⟩, .lock 0 7, .readHead 0 7,
    .insert 0 7 3456789, .commit 0 7]

/-- Both rows of a run verify. -/
theorem chain_integrity_cutOffRun : ∃ w,
    (auditService checksumPlatform).run World.empty (logActions (.str "ok")) = some w ∧
      verifyChain checksumPlatform w.table 7 1 2 = .ok true := by
  have hany : (((auditService checksumPlatform).guard
      (Logs (StoredUnchanged checksumPlatform))).run World.empty (logActions (.str "ok"))).any
      (fun w => (rowsOf 7 w.table).any fun row => decide (1 ≤ row.seq) && decide (row.seq ≤ 2)) =
      true := by
    decide +kernel
  obtain ⟨w, hrun, hw⟩ := (any_eq_true _ _).mp hany
  obtain ⟨row, hrow, hseq⟩ := any_eq_true.mp hw
  have hrange := Bool.and_eq_true_iff.mp hseq
  exact ⟨w, StateMachine.run_of_guard hrun, (chain_integrity hrun 7).2.1 1 2
    ⟨row, hrow, of_decide_eq_true hrange.1, of_decide_eq_true hrange.2⟩⟩

/-- Not every committed chain verifies: `1e+16` is hashed as it is written, and read back as
`10000000000000000`. -/
theorem not_chain_integrity_tenQuadrillion :
    ∃ w, (auditService checksumPlatform).run World.empty (logActions tenQuadrillion) = some w ∧
      (∃ row ∈ rowsOf 7 w.table, row.seq = 1) ∧
      verifyChain checksumPlatform w.table 7 1 1 = .error (.hashMismatch 1) := by
  have hany : ((auditService checksumPlatform).run World.empty (logActions tenQuadrillion)).any
      (fun w => ((rowsOf 7 w.table).any fun row => row.seq == 1) &&
        decide (verifyChain checksumPlatform w.table 7 1 1 = .error (.hashMismatch 1))) = true := by
    decide +kernel
  obtain ⟨w, hrun, hw⟩ := (any_eq_true _ _).mp hany
  obtain ⟨hrow, hverify⟩ := Bool.and_eq_true_iff.mp hw
  obtain ⟨row, hmem, hseq⟩ := any_eq_true.mp hrow
  exact ⟨w, hrun, ⟨row, hmem, beq_iff_eq.mp hseq⟩, of_decide_eq_true hverify⟩

end Buzz.Audit
