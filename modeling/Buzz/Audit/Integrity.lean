import Buzz.Audit.Service
import Buzz.Lib.HashChain

/-!
# The audit chain is intact

Whoever holds the lock of a community is alone in its chain: between the read of the head and the
commit nobody appends to it, so the row that is appended continues the chain (`Chain`). A row
verifies when what is read back hashes to what was hashed before it was stored. Timestamps were
truncated to what the column keeps; documents are only what they were if Postgres gives back the
text that was hashed.
-/

namespace Buzz.Audit

open List Option

variable {P : Platform}

/-! ### Chains -/

/-- Numbers one after the other, from `k` on. -/
def SeqsFrom : Int → List AuditRow → Prop
  | _, [] => True
  | k, row :: rows => row.seq = k ∧ SeqsFrom (k + 1) rows

/-- The stored hash is the hash of what is read back. -/
def RowOk (P : Platform) (row : AuditRow) : Prop :=
  ∃ entry, rowToAuditEntry row = .ok entry ∧ computeHash P entry = row.hash

/-- The row of an entry that was hashed, with a document of some sort. -/
def RowOf (P : Platform) (Q : Json → Prop) (row : AuditRow) : Prop :=
  ∃ entry, row = storeRow P entry ∧ entry.hash = computeHash P entry ∧ Q entry.detail

variable {row : AuditRow}

theorem RowOf.rowOk (h : RowOf P (StoredUnchanged P) row) : RowOk P row := by
  obtain ⟨entry, rfl, hhash, hdetail⟩ := h
  obtain ⟨read, hread, -, -, heq⟩ := computeHash_storeRow hdetail
  exact ⟨read, hread, heq.trans hhash.symm⟩

/-- The rows of one community, in the order of their commits. -/
structure Chain (P : Platform) (Q : Json → Prop) (rows : List AuditRow) : Prop where
  seqs : SeqsFrom 1 rows
  /-- Each names the hash of its predecessor, and the first one names none. -/
  linked : LinkedFrom AuditRow.prevHash AuditRow.hash none rows
  hashed : ∀ row ∈ rows, RowOf P Q row

theorem rowToAuditEntry_eq_ok {entry : AuditEntry} (h : rowToAuditEntry row = .ok entry) :
    entry.seq = row.seq ∧ entry.hash = row.hash ∧ entry.prevHash = row.prevHash := by
  unfold rowToAuditEntry at h
  split at h
  · nomatch h
  · cases h
    exact ⟨rfl, rfl, rfl⟩

variable {k : Int} {rows : List AuditRow}

theorem seqsFrom_append {rows' : List AuditRow} :
    SeqsFrom k (rows ++ rows') ↔ SeqsFrom k rows ∧ SeqsFrom (k + rows.length) rows' := by
  induction rows generalizing k with
  | nil => simp [SeqsFrom]
  | cons row rows ih =>
    rw [cons_append, SeqsFrom, SeqsFrom, ih, and_assoc, length_cons]
    have hk : k + 1 + (rows.length : Int) = k + ((rows.length + 1 : Nat) : Int) := by omega
    rw [hk]

theorem SeqsFrom.getElem (h : SeqsFrom k rows) (i : Nat) (hi : i < rows.length) :
    rows[i].seq = k + i := by
  induction rows generalizing k i with
  | nil => exact absurd hi (Nat.not_lt_zero i)
  | cons row rows ih =>
    cases i with
    | zero => simpa using h.1
    | succ i =>
      have hi' : i < rows.length := Nat.lt_of_succ_lt_succ hi
      have hrec := ih h.2 i hi'
      rw [getElem_cons_succ, hrec]
      omega

theorem SeqsFrom.le_of_mem (h : SeqsFrom k rows) (hrow : row ∈ rows) : k ≤ row.seq := by
  obtain ⟨i, hi, rfl⟩ := mem_iff_getElem.mp hrow
  rw [h.getElem i hi]
  omega

theorem SeqsFrom.pairwise (h : SeqsFrom k rows) : rows.Pairwise fun a b => a.seq < b.seq := by
  induction rows generalizing k with
  | nil => exact .nil
  | cons row rows ih =>
    refine .cons (fun b hb => ?_) (ih h.2)
    have hle := h.2.le_of_mem hb
    rw [h.1]
    omega

variable {table : List AuditRow} {community : CommunityId}

theorem headOf_eq (h : SeqsFrom k (rowsOf community table)) :
    headOf community table = ((rowsOf community table).getLast?).map fun row =>
      (row.seq, row.hash) := by
  have hlt := h.pairwise
  have hreverse : (rowsOf community table).reverse.Pairwise fun a b => b.seq ≤ a.seq :=
    pairwise_reverse.mpr (hlt.imp Int.le_of_lt)
  have hinj : ∀ a b, a ∈ rowsOf community table → b ∈ rowsOf community table → a.seq = b.seq →
      a = b := by
    intro a b ha hb hab
    obtain ⟨i, hi, rfl⟩ := mem_iff_getElem.mp ha
    obtain ⟨j, hj, rfl⟩ := mem_iff_getElem.mp hb
    rw [h.getElem i hi, h.getElem j hj] at hab
    obtain rfl : i = j := by omega
    rfl
  have hsort : (rowsOf community table).insertionSort (fun a b => b.seq ≤ a.seq) =
      (rowsOf community table).reverse := by
    have : Std.Total fun a b : AuditRow => b.seq ≤ a.seq := ⟨fun a b => Int.le_total b.seq a.seq⟩
    have : IsTrans AuditRow fun a b => b.seq ≤ a.seq := ⟨fun a b c hab hbc => Int.le_trans hbc hab⟩
    refine List.Perm.eq_of_pairwise (fun a b ha hb hab hba => ?_) (pairwise_insertionSort _ _)
      hreverse ((perm_insertionSort _ _).trans (reverse_perm _).symm)
    exact hinj a b ((perm_insertionSort _ _).mem_iff.mp ha) (mem_reverse.mp hb)
      (Int.le_antisymm hba hab)
  simp [headOf, hsort]

/-! ### Verification -/

def inRange (fromSeq toSeq : Int) (row : AuditRow) : Bool :=
  decide (fromSeq ≤ row.seq) && decide (row.seq ≤ toSeq)

theorem verifyRows_filter {fromSeq toSeq : Int} {prev expected : Option Bytes}
    (hseqs : SeqsFrom k rows) (hlinked : LinkedFrom AuditRow.prevHash AuditRow.hash prev rows)
    (hok : ∀ row ∈ rows, RowOk P row)
    (hexpected : expected = none ∨ expected = prev ∧ fromSeq ≤ k) :
    verifyRows P expected (rows.filter (inRange fromSeq toSeq)) = .ok true := by
  induction rows generalizing k prev expected with
  | nil => rfl
  | cons row rows ih =>
    have hok' : ∀ row' ∈ rows, RowOk P row' := fun row' h => hok row' (mem_cons_of_mem _ h)
    by_cases hin : inRange fromSeq toSeq row = true
    · obtain ⟨entry, hread, hhash⟩ := hok row mem_cons_self
      obtain ⟨-, hentry, hprev⟩ := rowToAuditEntry_eq_ok hread
      have hlink : ¬ (expected.isSome = true ∧ entry.prevHash ≠ expected) := by
        rintro ⟨hsome, hne⟩
        obtain rfl | ⟨rfl, -⟩ := hexpected
        · nomatch hsome
        · exact hne (hprev.trans hlinked.1)
      rw [filter_cons_of_pos hin, verifyRows, hread]
      change (if _ then _ else _) = _
      rw [if_neg hlink, if_neg (by rw [hentry]; exact not_not.mpr hhash), hentry]
      have hfrom : fromSeq ≤ row.seq := of_decide_eq_true (Bool.and_eq_true_iff.mp hin).1
      rw [hseqs.1] at hfrom
      exact ih hseqs.2 hlinked.2 hok' (.inr ⟨rfl, by omega⟩)
    · rw [filter_cons_of_neg hin]
      obtain rfl | ⟨-, hfrom⟩ := hexpected
      · exact ih hseqs.2 hlinked.2 hok' (.inl rfl)
      · -- the range lies behind
        have hnil : rows.filter (inRange fromSeq toSeq) = [] := by
          refine filter_eq_nil_iff.mpr fun row' hrow' hin' => hin ?_
          have hle := hseqs.2.le_of_mem hrow'
          have hto : row'.seq ≤ toSeq := of_decide_eq_true (Bool.and_eq_true_iff.mp hin').2
          rw [inRange, hseqs.1, Bool.and_eq_true, decide_eq_true_eq, decide_eq_true_eq]
          omega
        rw [hnil]
        rfl

theorem verifyChain_of_linked {prev : Option Bytes} (hseqs : SeqsFrom 1 (rowsOf community table))
    (hlinked : LinkedFrom AuditRow.prevHash AuditRow.hash prev (rowsOf community table))
    (hok : ∀ row ∈ rowsOf community table, RowOk P row) {fromSeq toSeq : Int}
    (hsome : ∃ row ∈ rowsOf community table, fromSeq ≤ row.seq ∧ row.seq ≤ toSeq) :
    verifyChain P table community fromSeq toSeq = .ok true := by
  have hfilter : (table.filter fun row => row.communityId == community &&
      (decide (fromSeq ≤ row.seq) && decide (row.seq ≤ toSeq))) =
      (rowsOf community table).filter (inRange fromSeq toSeq) := by
    rw [rowsOf, List.filter_filter]
    exact filter_congr fun row _ => Bool.and_comm _ _
  have hsorted : ((rowsOf community table).filter (inRange fromSeq toSeq)).Pairwise
      fun a b => a.seq ≤ b.seq :=
    (hseqs.pairwise.imp Int.le_of_lt).filter _
  have hne : ((rowsOf community table).filter (inRange fromSeq toSeq)).isEmpty = false := by
    obtain ⟨row, hrow, hfrom, hto⟩ := hsome
    refine isEmpty_eq_false_iff_exists_mem.mpr ⟨row, mem_filter.mpr ⟨hrow, ?_⟩⟩
    rw [inRange, decide_eq_true hfrom, decide_eq_true hto]
    rfl
  rw [verifyChain, hfilter, hsorted.insertionSort_eq, hne, if_neg Bool.false_ne_true]
  exact verifyRows_filter hseqs hlinked hok (.inl rfl)

theorem Chain.verifyChain (h : Chain P (StoredUnchanged P) (rowsOf community table))
    {fromSeq toSeq : Int}
    (hsome : ∃ row ∈ rowsOf community table, fromSeq ≤ row.seq ∧ row.seq ≤ toSeq) :
    verifyChain P table community fromSeq toSeq = .ok true :=
  verifyChain_of_linked h.seqs h.linked (fun row hrow => (h.hashed row hrow).rowOk) hsome

/-! ### The invariant -/

/-- The entry that a call has yet to hash. -/
def Phase.entry : Phase → Option NewAuditEntry
  | .waiting entry => some entry
  | .locked entry => some entry
  | .read entry _ => some entry
  | _ => none

/-- Only documents of some sort are logged. -/
def Logs (Q : Json → Prop) (_ : World) : Action → Prop
  | .call _ entry => Q entry.detail
  | _ => True

instance (Q : Json → Prop) [DecidablePred Q] (w : World) (a : Action) : Decidable (Logs Q w a) := by
  cases a <;> unfold Logs <;> infer_instance

variable {Q : Json → Prop}

variable (P Q) in
/-- The invariant of the sessions: who holds the lock of a chain has read its head. -/
structure Inv (w : World) : Prop where
  holds : ∀ session community, (w.phase session).holds = true →
    (w.phase session).community = some community → (session, community) ∈ w.grants
  exclusive : ∀ grant ∈ w.grants, ∀ grant' ∈ w.grants,
    lockKey P grant.2 = lockKey P grant'.2 → grant.1 = grant'.1
  chain : ∀ community, Chain P Q (rowsOf community w.table)
  read : ∀ session entry head, w.phase session = .read entry head →
    head = headOf entry.communityId w.table
  inserted : ∀ session row, w.phase session = .inserted row →
    Chain P Q (rowsOf row.communityId w.table ++ [row])
  logged : ∀ session entry, (w.phase session).entry = some entry →
    Q entry.detail

variable {w : World} {session : Nat}

theorem World.phase_setPhase {other : Nat} {phase : Phase} :
    (w.setPhase session phase).phase other = if other = session then phase else w.phase other := by
  exact Function.update_apply ..

theorem Inv.setPhase (h : Inv P Q w) {phase : Phase}
    (hholds : ∀ community, phase.holds = true → phase.community = some community →
      (session, community) ∈ w.grants)
    (hread : ∀ entry head, phase = .read entry head → head = headOf entry.communityId w.table)
    (hinserted : ∀ row, phase = .inserted row → Chain P Q (rowsOf row.communityId w.table ++ [row]))
    (hlogged : ∀ entry, phase.entry = some entry → Q entry.detail) :
    Inv P Q (w.setPhase session phase) where
  holds other community := by
    rw [World.phase_setPhase]
    split
    · next heq => exact fun hh hc => heq ▸ hholds community hh hc
    · exact h.holds other community
  exclusive := h.exclusive
  chain := h.chain
  read other entry head := by
    rw [World.phase_setPhase]
    split
    · exact hread entry head
    · exact h.read other entry head
  inserted other row := by
    rw [World.phase_setPhase]
    split
    · exact hinserted row
    · exact h.inserted other row
  logged other entry := by
    rw [World.phase_setPhase]
    split
    · exact hlogged entry
    · exact h.logged other entry

theorem Inv.grant (h : Inv P Q w) (hlock : lockable P w.grants session community = true) :
    Inv P Q { w with grants := (session, community) :: w.grants } where
  __ := h
  holds other community' hholds hcommunity :=
    mem_cons_of_mem _ (h.holds other community' hholds hcommunity)
  exclusive grant hgrant grant' hgrant' hkey := by
    have hfree : ∀ grant ∈ w.grants, lockKey P grant.2 = lockKey P community →
        grant.1 = session := fun grant hmem hk => by
      have hor := all_eq_true.mp hlock grant hmem
      rw [hk, bne_self_eq_false, Bool.false_or] at hor
      exact beq_iff_eq.mp hor
    obtain rfl | hold := mem_cons.mp hgrant
    · obtain rfl | hold' := mem_cons.mp hgrant'
      · rfl
      · exact (hfree grant' hold' hkey.symm).symm
    · obtain rfl | hold' := mem_cons.mp hgrant'
      · exact hfree grant hold hkey
      · exact h.exclusive grant hold grant' hold' hkey

theorem Inv.release (h : Inv P Q w) {grants : List (Nat × CommunityId)}
    (hidle : w.phase session = .idle) (hsub : grants ⊆ w.grants)
    (hkeep : ∀ grant ∈ w.grants, grant.1 ≠ session → grant ∈ grants) :
    Inv P Q { w with grants := grants } where
  __ := h
  holds other community hholds hcommunity := by
    refine hkeep _ (h.holds other community hholds hcommunity) ?_
    rintro rfl
    rw [hidle] at hholds
    nomatch hholds
  exclusive grant hgrant grant' hgrant' := h.exclusive grant (hsub hgrant) grant' (hsub hgrant')

theorem rowsOf_append (community : CommunityId) (table : List AuditRow) (row : AuditRow) :
    rowsOf community (table ++ [row]) =
      rowsOf community table ++ if row.communityId = community then [row] else [] := by
  rw [rowsOf, filter_append, ← rowsOf]
  by_cases h : row.communityId = community
  · have hmine : (row.communityId == community) = true := beq_iff_eq.mpr h
    simp [h]
  · have hother : ¬ (row.communityId == community) = true := fun heq => h (beq_iff_eq.mp heq)
    simp [h]

theorem Inv.commit (h : Inv P Q w) (hphase : w.phase session = .inserted row) :
    Inv P Q ({ w with table := w.table ++ [row] }.setPhase session (.ended row.communityId)) := by
  have hgrant : (session, row.communityId) ∈ w.grants :=
    h.holds session row.communityId (by rw [hphase]; rfl) (by rw [hphase]; rfl)
  have halone : ∀ other ≠ session, (w.phase other).holds = true →
      (w.phase other).community ≠ some row.communityId := fun other hne hholds hcommunity =>
    hne (h.exclusive _ (h.holds other row.communityId hholds hcommunity) _ hgrant rfl)
  refine ⟨fun other community => ?_, h.exclusive, fun community => ?_, fun other entry head => ?_,
    fun other row' => ?_, fun other entry => ?_⟩
  · rw [World.phase_setPhase]
    split
    · next heq =>
      intro _ hcommunity
      cases hcommunity
      exact heq ▸ hgrant
    · exact h.holds other community
  · change Chain P Q (rowsOf community (w.table ++ [row]))
    rw [rowsOf_append]
    split
    · next heq => exact heq ▸ h.inserted session row hphase
    · rw [append_nil]
      exact h.chain community
  · rw [World.phase_setPhase]
    split
    · nofun
    · next hne =>
      intro hread
      have hother := halone other hne (by rw [hread]; rfl)
      rw [hread] at hother
      change head = headOf entry.communityId (w.table ++ [row])
      rw [headOf, rowsOf_append, if_neg fun heq => hother (congrArg some heq.symm), append_nil]
      exact h.read other entry head hread
  · rw [World.phase_setPhase]
    split
    · nofun
    · next hne =>
      intro hinserted
      have hother := halone other hne (by rw [hinserted]; rfl)
      rw [hinserted] at hother
      change Chain P Q (rowsOf row'.communityId (w.table ++ [row]) ++ [row'])
      rw [rowsOf_append, if_neg fun heq => hother (congrArg some heq.symm), append_nil]
      exact h.inserted other row' hinserted
  · rw [World.phase_setPhase]
    split
    · nofun
    · exact h.logged other entry

theorem Chain.concat {entry : NewAuditEntry} {now : Int}
    (h : Chain P Q (rowsOf entry.communityId table)) (hdetail : Q entry.detail) :
    Chain P Q (rowsOf entry.communityId table ++
      [storeRow P (nextEntry P entry (headOf entry.communityId table) now)]) := by
  have hhead := headOf_eq h.seqs
  refine ⟨seqsFrom_append.mpr ⟨h.seqs, ?_, trivial⟩, linkedFrom_concat.mpr ⟨h.linked, ?_⟩,
    fun row hrow => ?_⟩
  · rw [hhead]
    cases hlast : (rowsOf entry.communityId table).getLast? with
    | none =>
      rw [getLast?_eq_none_iff.mp hlast]
      rfl
    | some row =>
      obtain ⟨init, hinit⟩ := getLast?_eq_some_iff.mp hlast
      have hseqs := h.seqs
      rw [hinit] at hseqs ⊢
      have hrow := (seqsFrom_append.mp hseqs).2.1
      change row.seq + 1 = _
      rw [hrow, length_append, length_singleton]
      omega
  · change (headOf entry.communityId table).map Prod.snd = _
    rw [hhead, Option.map_map, chainHead, Option.or_none]
    rfl
  · obtain hold | hnew := mem_append.mp hrow
    · exact h.hashed row hold
    · exact ⟨_, mem_singleton.mp hnew, rfl, hdetail⟩

theorem Inv.setIdle (h : Inv P Q w) : Inv P Q (w.setPhase session .idle) :=
  h.setPhase nofun (fun _ _ h => nomatch h) nofun nofun

theorem inv_of_init (h : (auditService P).Init w) : Inv P Q w := by
  obtain rfl := h
  exact ⟨nofun, nofun, fun _ => ⟨trivial, trivial, nofun⟩, fun _ _ _ h => (nomatch h), nofun,
    nofun⟩

theorem Inv.step {w' : World} {a : Action} (h : Inv P Q w) (hg : Logs Q w a)
    (hs : (auditService P).step w a = some w') : Inv P Q w' := by
  cases a with
  | call session entry =>
    obtain ⟨-, hs⟩ := ite_none_right_eq_some.mp hs
    cases hs
    refine h.setPhase nofun (fun _ _ h => nomatch h) nofun fun entry' hentry => ?_
    exact some.inj hentry ▸ hg
  | lock session community =>
    dsimp only [auditService, World.step] at hs
    split at hs
    · next entry hphase =>
      obtain ⟨⟨rfl, hlock⟩, hs⟩ := ite_none_right_eq_some.mp hs
      cases hs
      refine (h.grant hlock).setPhase (fun community' _ hcommunity => ?_)
        (fun _ _ h => nomatch h) nofun fun entry' hentry => ?_
      · exact some.inj hcommunity ▸ mem_cons_self
      · exact some.inj hentry ▸ h.logged session entry (by rw [hphase]; rfl)
    · nomatch hs
  | readHead session community =>
    dsimp only [auditService, World.step] at hs
    split at hs
    · next entry hphase =>
      obtain ⟨rfl, hs⟩ := ite_none_right_eq_some.mp hs
      cases hs
      refine h.setPhase (fun community' _ hcommunity => ?_) (fun entry' head hread => ?_) nofun
        fun entry' hentry => ?_
      · exact h.holds session community' (by rw [hphase]; rfl) (by rw [hphase]; exact hcommunity)
      · obtain ⟨rfl, rfl⟩ := Phase.read.inj hread
        rfl
      · exact some.inj hentry ▸ h.logged session entry (by rw [hphase]; rfl)
    · nomatch hs
  | insert session community now =>
    dsimp only [auditService, World.step] at hs
    split at hs
    · next entry head hphase =>
      obtain ⟨⟨rfl, -⟩, hw⟩ := ite_none_right_eq_some.mp hs
      cases hw
      obtain rfl := h.read session entry head hphase
      refine h.setPhase (fun community' _ hcommunity => ?_) (fun _ _ h => nomatch h)
        (fun row hrow => ?_) nofun
      · exact h.holds session community' (by rw [hphase]; rfl) (by rw [hphase]; exact hcommunity)
      · obtain rfl := Phase.inserted.inj hrow
        exact (h.chain entry.communityId).concat (h.logged session entry (by rw [hphase]; rfl))
    · nomatch hs
  | commit session community =>
    dsimp only [auditService, World.step] at hs
    split at hs
    · next row hphase =>
      obtain ⟨rfl, hs⟩ := ite_none_right_eq_some.mp hs
      cases hs
      exact h.commit hphase
    · nomatch hs
  | fail session community =>
    obtain ⟨⟨hholds, hcommunity⟩, hs⟩ := ite_none_right_eq_some.mp hs
    cases hs
    refine h.setPhase (fun community' _ hc => ?_) (fun _ _ h => nomatch h) nofun nofun
    exact some.inj hc ▸ h.holds session community hholds hcommunity
  | unlock session community =>
    obtain ⟨-, hs⟩ := ite_none_right_eq_some.mp hs
    cases hs
    refine h.setIdle.release (World.phase_setPhase.trans (if_pos rfl)) erase_subset
      fun grant hgrant hne => ?_
    exact (mem_erase_of_ne fun heq => hne (congrArg Prod.fst heq)).mpr hgrant
  | cancel session community =>
    obtain ⟨-, hs⟩ := ite_none_right_eq_some.mp hs
    cases hs
    exact h.setIdle
  | grantLate session community =>
    obtain ⟨hlock, hs⟩ := ite_none_right_eq_some.mp hs
    cases hs
    exact h.grant hlock
  | disconnect session =>
    cases hs
    refine h.setIdle.release (World.phase_setPhase.trans (if_pos rfl))
      (fun _ hgrant => (mem_filter.mp hgrant).1) fun grant hgrant hne => ?_
    exact mem_filter.mpr ⟨hgrant, bne_iff_ne.mpr hne⟩

theorem inv_of_reachable [DecidablePred Q] (h : ((auditService P).guard (Logs Q)).Reachable w) :
    Inv P Q w :=
  StateMachine.reachable_guard (fun _ => inv_of_init) (fun _ _ _ hI hg hs => hI.step hg hs) h

end Buzz.Audit
