import Buzz.Audit.Isolation

/-!
# What the audit chain says about edited rows

A chain that verifies and ends in the hash it ended in before was hashed from the same bytes, row by
row, when the digest has no collision among them. The bytes do not determine the fields: nothing says
where the actor ends and the object begins, nor where the object ends and the document begins, and a
first row that names 32 zero bytes hashes as one that names nothing.
-/

namespace Buzz.Audit

open List

variable {P : Platform}

/-- No edit of the rows of a community keeps the last hash and verifies. -/
def TamperEvident (P : Platform) (community : CommunityId) (rows : List AuditRow) : Prop :=
  ∀ edited : List AuditRow, edited.length = rows.length →
    (∀ row ∈ edited, row.communityId = community) →
    edited.getLast?.map AuditRow.hash = rows.getLast?.map AuditRow.hash →
    verifyChain P edited community 1 rows.length = .ok true → edited = rows

variable {community : CommunityId} {rows : List AuditRow}

theorem rowsOf_eq_self (h : ∀ row ∈ rows, row.communityId = community) :
    rowsOf community rows = rows :=
  filter_eq_self.mpr fun row hrow => beq_iff_eq.mpr (h row hrow)

variable {row : AuditRow}

theorem communityId_of_mem_rowsOf {table : List AuditRow} (h : row ∈ rowsOf community table) :
    row.communityId = community :=
  beq_iff_eq.mp (mem_filter.mp h).2

/-! ### What an edit leaves -/

/-- The bytes that the hash of a row is taken of, when it is read. -/
def rowInput (P : Platform) (row : AuditRow) : Option Bytes :=
  (rowToAuditEntry row).toOption.map (hashInput P)

/-- Rows that verify and have one hash were hashed from the same bytes, and name the same hash
before, when the digest has no collision among them and both name 32 bytes. -/
theorem rowInput_of_hash {row' : AuditRow} (hok : RowOk P row) (hok' : RowOk P row')
    (hinj : ∀ bytes ∈ rowInput P row, ∀ bytes' ∈ rowInput P row',
      P.sha256 bytes = P.sha256 bytes' → bytes = bytes')
    (hhash : row.hash = row'.hash) :
    rowInput P row = rowInput P row' ∧ ∀ prev prev', row.prevHash = some prev →
      row'.prevHash = some prev' → prev.length = prev'.length → prev = prev' := by
  obtain ⟨entry, hread, hentry⟩ := hok
  obtain ⟨entry', hread', hentry'⟩ := hok'
  have hinput : rowInput P row = some (hashInput P entry) := by rw [rowInput, hread]; rfl
  have hinput' : rowInput P row' = some (hashInput P entry') := by rw [rowInput, hread']; rfl
  have hdigest : P.sha256 (hashInput P entry) = P.sha256 (hashInput P entry') :=
    Vector.toList_inj.mp (hentry.trans (hhash.trans hentry'.symm))
  have heq := hinj _ hinput _ hinput' hdigest
  refine ⟨by rw [hinput, hinput', heq], fun prev prev' hprev hprev' hlen => ?_⟩
  rw [← (rowToAuditEntry_eq_ok hread).2.2] at hprev
  rw [← (rowToAuditEntry_eq_ok hread').2.2] at hprev'
  unfold hashInput at heq
  rw [hprev, hprev'] at heq
  exact (append_inj' heq hlen).2

theorem RowOk.length_hash (h : RowOk P row) : row.hash.length = 32 := by
  obtain ⟨entry, -, hhash⟩ := h
  rw [← hhash, computeHash, Vector.length_toList]

theorem of_verifyRows {expected : Option Bytes} (h : verifyRows P expected rows = .ok true) :
    (∀ row ∈ rows, RowOk P row) ∧ ∃ prev, LinkedFrom AuditRow.prevHash AuditRow.hash prev rows ∧
      (expected = none ∨ rows = [] ∨ prev = expected) := by
  induction rows generalizing expected with
  | nil => exact ⟨nofun, none, trivial, .inr (.inl rfl)⟩
  | cons row rows ih =>
    obtain ⟨entry, hread, h⟩ := bind_eq_ok_iff.mp h
    obtain ⟨-, hhash, hprev⟩ := rowToAuditEntry_eq_ok hread
    split at h
    · nomatch h
    · next hexpected =>
      split at h
      · nomatch h
      · next hcomputed =>
        obtain ⟨hrest, prev, hlinked, hprev'⟩ := ih h
        have hok : RowOk P row := ⟨entry, hread, (not_not.mp hcomputed).trans hhash⟩
        refine ⟨forall_mem_cons.mpr ⟨hok, hrest⟩, row.prevHash, ⟨rfl, ?_⟩, ?_⟩
        · obtain hnone | rfl | rfl := hprev'
          · nomatch hnone
          · trivial
          · exact hhash ▸ hlinked
        · cases expected with
          | none => exact .inl rfl
          | some e =>
            refine .inr (.inr ?_)
            rw [← hprev]
            by_contra hne
            exact hexpected ⟨rfl, hne⟩

theorem SeqsFrom.congr {edited : List AuditRow} {k : Int} (h : SeqsFrom k rows)
    (hseqs : edited.map AuditRow.seq = rows.map AuditRow.seq) : SeqsFrom k edited := by
  induction rows generalizing k edited with
  | nil =>
    rw [map_eq_nil_iff.mp hseqs]
    trivial
  | cons row rows ih =>
    obtain ⟨row', edited, rfl, hrow, hrest⟩ := map_eq_cons_iff.mp hseqs
    exact ⟨hrow.trans h.1, ih h.2 hrest⟩

theorem verifyChain_full (h : SeqsFrom 1 rows)
    (hcommunity : ∀ row ∈ rows, row.communityId = community) (hne : rows ≠ []) :
    verifyChain P rows community 1 rows.length = verifyRows P none rows := by
  have hfilter : (rows.filter fun row => row.communityId == community &&
      (decide (1 ≤ row.seq) && decide (row.seq ≤ (rows.length : Int)))) = rows := by
    refine filter_eq_self.mpr fun row hrow => ?_
    obtain ⟨i, hi, rfl⟩ := mem_iff_getElem.mp hrow
    have hseq := h.getElem i hi
    rw [beq_iff_eq.mpr (hcommunity _ hrow), decide_eq_true (by omega), decide_eq_true (by omega)]
    rfl
  have hsorted : rows.Pairwise fun a b => a.seq ≤ b.seq :=
    h.pairwise.imp Int.le_of_lt
  have hempty : rows.isEmpty = false := isEmpty_eq_false_iff.mpr hne
  simp [verifyChain, hfilter, hsorted.insertionSort_eq, hempty]

/-- **What an edit cannot change.** When the edited rows verify and end in the hash that the chain
ended in, every row is hashed from the bytes it was hashed from before. -/
theorem hashInput_of_undetected {edited : List AuditRow} (h : Chain P (StoredUnchanged P) rows)
    (hne : rows ≠ []) (hseqs : edited.map AuditRow.seq = rows.map AuditRow.seq)
    (hcommunity : ∀ row ∈ edited, row.communityId = community)
    (hlast : edited.getLast?.map AuditRow.hash = rows.getLast?.map AuditRow.hash)
    (hverify : verifyChain P edited community 1 rows.length = .ok true)
    (hinj : ∀ row ∈ edited, ∀ row' ∈ rows, ∀ bytes ∈ rowInput P row, ∀ bytes' ∈ rowInput P row',
      P.sha256 bytes = P.sha256 bytes' → bytes = bytes') :
    List.Forall₂ (fun row row' => rowInput P row = rowInput P row') edited rows := by
  have hlen : edited.length = rows.length := by
    simpa using congrArg length hseqs
  have hseqs' : SeqsFrom 1 edited := h.seqs.congr hseqs
  have hne' : edited ≠ [] := fun hnil => by
    rw [hnil] at hlen
    exact hne (length_eq_zero_iff.mp hlen.symm)
  rw [← hlen, verifyChain_full hseqs' hcommunity hne'] at hverify
  obtain ⟨hok, prev, hlinked, -⟩ := of_verifyRows hverify
  have hok' : ∀ row ∈ rows, RowOk P row := fun row hrow => (h.hashed row hrow).rowOk
  refine hlinked.forall₂_of_last h.linked hlen hlast fun row hrow row' hrow' hhash => ?_
  obtain ⟨hinput, hprev⟩ := rowInput_of_hash (hok row hrow) (hok' row' hrow')
    (hinj row hrow row' hrow') hhash
  refine ⟨hinput, fun d hd e he hlink hlink' => hprev d e hlink hlink' ?_⟩
  obtain ⟨r, hr, rfl⟩ := mem_map.mp hd
  obtain ⟨r', hr', rfl⟩ := mem_map.mp he
  rw [(hok r hr).length_hash, (hok' r' hr').length_hash]

/-! ### Edits that do not show -/

/-- A first row that names nothing, and one that names 32 zero bytes. -/
def nameGenesis : List AuditRow → List AuditRow
  | [] => []
  | row :: rows => { row with prevHash := some genesisHash } :: rows

theorem RowOk.nameGenesis (h : RowOk P row) (hnone : row.prevHash = none) :
    RowOk P { row with prevHash := some genesisHash } := by
  obtain ⟨entry, hread, hhash⟩ := h
  unfold rowToAuditEntry at hread
  split at hread
  · nomatch hread
  · next action haction =>
    cases hread
    refine ⟨_, by rw [rowToAuditEntry, haction], ?_⟩
    rw [← hhash, computeHash, computeHash, hashInput, hashInput, hnone]
    rfl

/-- **The chain is not tamper evident.** Unless a community has no rows, they can be edited so that
they verify, and end in the same hash. -/
theorem tamperEvident_iff {w : World}
    (h : ((auditService P).guard (Logs (StoredUnchanged P))).Reachable w)
    (community : CommunityId) :
    TamperEvident P community (rowsOf community w.table) ↔ rowsOf community w.table = [] := by
  have hchain := (inv_of_reachable h).chain community
  have hmine : ∀ row ∈ rowsOf community w.table, row.communityId = community := fun row hrow =>
    communityId_of_mem_rowsOf hrow
  constructor
  · intro hevident
    generalize rowsOf community w.table = rows at hchain hmine hevident
    cases rows with
    | nil => rfl
    | cons row rows =>
      have hmine' : ∀ row' ∈ nameGenesis (row :: rows), row'.communityId = community := by
        rw [nameGenesis, forall_mem_cons]
        exact forall_mem_cons.mp hmine
      have hseqs : SeqsFrom 1 (nameGenesis (row :: rows)) := hchain.seqs
      have hlinked : LinkedFrom AuditRow.prevHash AuditRow.hash (some genesisHash)
          (nameGenesis (row :: rows)) := ⟨rfl, hchain.linked.2⟩
      have hok : ∀ row' ∈ nameGenesis (row :: rows), RowOk P row' := by
        rw [nameGenesis, forall_mem_cons]
        refine ⟨(hchain.hashed row mem_cons_self).rowOk.nameGenesis hchain.linked.1, ?_⟩
        exact fun row' hrow' => (hchain.hashed row' (mem_cons_of_mem _ hrow')).rowOk
      have hsame := hevident (nameGenesis (row :: rows)) rfl hmine'
        (by cases rows <;> rfl) ?_
      · have hprev : some genesisHash = row.prevHash :=
          congrArg AuditRow.prevHash (cons.inj hsame).1
        nomatch hprev.trans hchain.linked.1
      · rw [← rowsOf_eq_self hmine'] at hseqs hlinked hok
        refine verifyChain_of_linked hseqs hlinked hok
          ⟨{ row with prevHash := some genesisHash }, ?_, ?_⟩
        · rw [rowsOf_eq_self hmine']
          exact mem_cons_self
        · rw [hchain.seqs.1, length_cons]
          omega
  · intro hnil edited hlen _ _ _
    rw [hnil] at hlen ⊢
    exact length_eq_zero_iff.mp hlen

/-- A run that leaves a community two rows. -/
def twoRowActions : List Action :=
  [.call 0 ⟨7, .eventCreated, some [1], none, .null⟩, .lock 0 7, .readHead 0 7, .insert 0 7 1234567,
    .commit 0 7, .unlock 0 7,
    .call 1 ⟨7, .eventDeleted, some [2], some "a", .num (NumToken.ofNat 12)⟩, .lock 1 7,
    .readHead 1 7, .insert 1 7 3456789, .commit 1 7]

/-- The two rows can be edited. -/
theorem tamperEvident_iff_twoRows : ∃ w,
    ((auditService checksumPlatform).guard (Logs (StoredUnchanged checksumPlatform))).run
      World.empty twoRowActions = some w ∧
    ¬ TamperEvident checksumPlatform 7 (rowsOf 7 w.table) := by
  have hany : (((auditService checksumPlatform).guard
      (Logs (StoredUnchanged checksumPlatform))).run World.empty twoRowActions).any
      (fun w => !(rowsOf 7 w.table).isEmpty) = true := by
    decide +kernel
  obtain ⟨w, hrun, hw⟩ := (Option.any_eq_true _ _).mp hany
  refine ⟨w, hrun, fun hevident => ?_⟩
  rw [(tamperEvident_iff ⟨World.empty, twoRowActions, rfl, hrun⟩ 7).mp hevident] at hw
  exact absurd hw (by decide)

/-- The object `a` with the document `12`, and the object `a1` with the document `2`. -/
def moveBoundary (row : AuditRow) : AuditRow :=
  if row.seq = 2 then { row with objectId := some "a1", detail := .num (NumToken.ofNat 2) } else row

/-- A digit can be moved from the document to the object, and nothing shows. -/
theorem not_tamperEvident_moveBoundary : ∃ w,
    (auditService checksumPlatform).run World.empty twoRowActions = some w ∧
      (rowsOf 7 w.table).map moveBoundary ≠ rowsOf 7 w.table ∧
      ((rowsOf 7 w.table).map moveBoundary).map AuditRow.hash = (rowsOf 7 w.table).map AuditRow.hash ∧
      verifyChain checksumPlatform ((rowsOf 7 w.table).map moveBoundary) 7 1 2 = .ok true ∧
      ¬ TamperEvident checksumPlatform 7 (rowsOf 7 w.table) := by
  have hany : ((auditService checksumPlatform).run World.empty twoRowActions).any (fun w =>
      decide ((rowsOf 7 w.table).map moveBoundary ≠ rowsOf 7 w.table ∧
        ((rowsOf 7 w.table).map moveBoundary).map AuditRow.hash =
          (rowsOf 7 w.table).map AuditRow.hash ∧
        verifyChain checksumPlatform ((rowsOf 7 w.table).map moveBoundary) 7 1 2 = .ok true ∧
        (rowsOf 7 w.table).length = 2)) = true := by
    decide +kernel
  obtain ⟨w, hrun, hw⟩ := (Option.any_eq_true _ _).mp hany
  obtain ⟨hne, hhash, hverify, hlen⟩ := of_decide_eq_true hw
  refine ⟨w, hrun, hne, hhash, hverify, fun hevident => hne ?_⟩
  refine hevident _ (length_map _) (fun row hrow => ?_) ?_ (by rw [hlen]; exact hverify)
  · obtain ⟨row', hrow', rfl⟩ := mem_map.mp hrow
    have hmine : row'.communityId = 7 := communityId_of_mem_rowsOf hrow'
    rw [moveBoundary]
    split
    · exact hmine
    · exact hmine
  · rw [← getLast?_map, hhash, getLast?_map]

/-- Every row is hashed from the same bytes then. -/
theorem hashInput_of_undetected_moveBoundary : ∃ w,
    (auditService checksumPlatform).run World.empty twoRowActions = some w ∧
      List.Forall₂ (fun row row' => rowInput checksumPlatform row = rowInput checksumPlatform row')
        ((rowsOf 7 w.table).map moveBoundary) (rowsOf 7 w.table) := by
  have hany : (((auditService checksumPlatform).guard
      (Logs (StoredUnchanged checksumPlatform))).run World.empty twoRowActions).any (fun w =>
        let rows := rowsOf 7 w.table
        let edited := rows.map moveBoundary
        decide (rows ≠ [] ∧ edited.map AuditRow.seq = rows.map AuditRow.seq ∧
          (∀ row ∈ edited, row.communityId = 7) ∧
          edited.getLast?.map AuditRow.hash = rows.getLast?.map AuditRow.hash ∧
          verifyChain checksumPlatform edited 7 1 rows.length = .ok true ∧
          ∀ row ∈ edited, ∀ row' ∈ rows, ∀ bytes ∈ rowInput checksumPlatform row,
            ∀ bytes' ∈ rowInput checksumPlatform row',
              checksumPlatform.sha256 bytes = checksumPlatform.sha256 bytes' → bytes = bytes')) =
      true := by
    decide +kernel
  obtain ⟨w, hrun, hw⟩ := (Option.any_eq_true _ _).mp hany
  obtain ⟨hne, hseqs, hmine, hlast, hverify, hinj⟩ := of_decide_eq_true hw
  have hchain := (inv_of_reachable ⟨World.empty, twoRowActions, rfl, hrun⟩).chain 7
  exact ⟨w, StateMachine.run_of_guard hrun,
    hashInput_of_undetected hchain hne hseqs hmine hlast hverify hinj⟩

end Buzz.Audit
