import Buzz.Relay.IdentityArchive.Steps

/-!
# Who changes the archive, and how often

The archived set changes through requests that were fresh and had consent when the handler looked.
Nothing marks a request that was handled, so within its window a replay undoes the opposite request.
-/

namespace Buzz.IdentityArchive

open Option
open NipOa

variable {Sig Digest : Type} {R : Relay Sig Digest}

/-! ### Runs -/

/-- Any number of requests on one store. -/
abbrev Requests := Execution Reply Store Request (Except String Unit)

/-- A step of a request, or of others. -/
abbrev Action := ProgramAction Request Outside

/-- The program that handles a request archives its target, or takes it back. -/
structure Changes (x x' : Requests) (a : Action) (r : Running Reply Request (Except String Unit))
    (targetHex : String) (into : Bool) : Prop where
  advance : r ∈ x.running ∧ a = .advance r.id
  write : ∃ i next, r.todo = .perform i next ∧ isWrite i = true
  kind : r.request.event.kind = if into then kindIaArchiveRequest else kindIaUnarchiveRequest
  target : NamesTarget r.request.event targetHex
  flips : Flips x.store x'.store r.request.community targetHex into

/-- Whose consent the handler has found, when it looked. -/
inductive Consent (R : Relay Sig Digest) (x₀ : Requests) (as : List Action) (id : Nat)
    (b : Request) (targetHex : String) : Prop where
  | selfSigned (h : Pairing.hexOfBytes32 b.event.pubkey = targetHex)
  | admin (role : String) (h : role = "owner" ∨ role = "admin")
      (hseen : SeenBy (identityArchive R) x₀ as id fun s _ =>
        s.members b.community (Pairing.hexOfBytes32 b.event.pubkey) = some role)
  | owner (h : RequestConsent R b.event targetHex)
      (hseen : SeenBy (identityArchive R) x₀ as id fun s _ => ∃ profile,
        LatestProfile s b.community profile.pubkey profile ∧
          ProfileConsent R profile targetHex b.event.pubkey)

/-- What a run may do to the archived set. -/
structure Lawful (R : Relay Sig Digest) (x₀ x : Requests) (as : List Action) : Prop where
  /-- The archived set changes through a request that was fresh and had consent. -/
  consent : ∀ earlier a later y y', as = earlier ++ a :: later →
    (identityArchive R).run x₀ earlier = some y → (identityArchive R).step y a = some y' →
      y'.store.archived ≠ y.store.archived → ∃ r targetHex into, Changes y y' a r targetHex into ∧
        SeenBy (identityArchive R) x₀ earlier r.id
          (fun s _ => Fresh r.request.event.createdAt s.clock) ∧
        Consent R x₀ earlier r.id r.request targetHex
  /-- Between two changes by one request, a request of the other kind changes its target back. -/
  undone : ∀ earlier a between a' later y y' z z' r r' targetHex targetHex' into into',
    as = earlier ++ a :: (between ++ a' :: later) →
    (identityArchive R).run x₀ earlier = some y → (identityArchive R).step y a = some y' →
    (identityArchive R).run y' between = some z → (identityArchive R).step z a' = some z' →
    Changes y y' a r targetHex into → Changes z z' a' r' targetHex' into' →
    r.request = r'.request →
      ∃ part b rest w w' q, between = part ++ b :: rest ∧
        (identityArchive R).run y' part = some w ∧ (identityArchive R).step w b = some w' ∧
        Changes w w' b q targetHex (!into) ∧ q.request.community = r.request.community
  /-- A well-formed unarchive request signed by its target is refused only if it was late, or the
  database did not work. -/
  unrefused : ∀ y ∈ x.answers, SelfRequest y.request.event →
    y.request.event.kind = kindIaUnarchiveRequest → y.result = .ok () ∨
      SeenBy (identityArchive R) x₀ as y.id (fun s _ => ¬Fresh y.request.event.createdAt s.clock) ∨
      SeenBy (identityArchive R) x₀ as y.id fun s _ => s.fault ≠ none
  /-- The relay emits nothing unless the request has changed the archived set, and such a request is
  not rejected. -/
  silent : ∀ earlier a later y y', as = earlier ++ a :: later →
    (identityArchive R).run x₀ earlier = some y → (identityArchive R).step y a = some y' →
      y'.store.emitted ≠ y.store.emitted → ∃ r ∈ y.running, a = .advance r.id ∧
        SeenBy (identityArchive R) x₀ earlier r.id (fun s s' => s'.archived ≠ s.archived) ∧
        ∀ z ∈ x.answers, z.id = r.id → z.result = .ok ()

variable {x₀ x x' : Requests} {as : List Action} {a : Action}

theorem changes_of_step (hreach : (identityArchive R).Reachable x)
    (hs : (identityArchive R).step x a = some x') (hne : x'.store.archived ≠ x.store.archived) :
    ∃ r targetHex into, Changes x x' a r targetHex into := by
  have habides := abides_of_reachable (until_mayWrite (R := R)) hreach
  obtain ⟨id, request, -, -, rfl⟩ | ⟨r, -, -, result, -, rfl⟩ | ⟨r, hr, hadvance, i, next, htodo, rfl⟩ |
    ⟨id, -, rfl⟩ | ⟨event, -, rfl⟩ := Execution.step_cases hs
  · exact absurd rfl hne
  · exact absurd rfl hne
  · have hmay : MayWrite r.request i := by
      obtain ⟨e, -, -, hnever⟩ | huntil := habides.running r hr
      · exact hnever.elim
      · rw [htodo, Program.until_perform] at huntil
        exact huntil.1
    obtain ⟨c, pubkey, ⟨harchives, hflips⟩ | ⟨hunarchives, hflips⟩⟩ := archived_exec hne
    · cases i with
      | archive c' pubkey' path actor reason replacedBy id =>
        obtain ⟨rfl, rfl⟩ := harchives
        obtain ⟨rfl, htarget, hkind⟩ := hmay
        exact ⟨r, pubkey', true, ⟨hr, hadvance⟩, ⟨_, next, htodo, rfl⟩, hkind, htarget, hflips⟩
      | _ => exact harchives.elim
    · cases i with
      | unarchive c' pubkey' =>
        obtain ⟨rfl, rfl⟩ := hunarchives
        obtain ⟨rfl, htarget, hkind⟩ := hmay
        exact ⟨r, pubkey', false, ⟨hr, hadvance⟩, ⟨_, next, htodo, rfl⟩, hkind, htarget, hflips⟩
      | _ => exact hunarchives.elim
  · exact absurd rfl hne
  · refine absurd ?_ hne
    cases event <;> rfl

section Run

variable (hinit : (identityArchive R).Init x₀) (hr : (identityArchive R).run x₀ as = some x)
include hinit hr

theorem reachable_of_run : (identityArchive R).Reachable x := ⟨x₀, as, hinit, hr⟩

variable {r : Running Reply Request (Except String Unit)} {targetHex : String}

theorem seenBy_fresh {into : Bool} (h : Changes x x' a r targetHex into) :
    SeenBy (identityArchive R) x₀ as r.id
      fun s _ => Fresh r.request.event.createdAt s.clock := by
  obtain ⟨i, next, htodo, hwrite⟩ := h.write
  have habides := abides_of_reachable (until_readFresh (R := R)) (reachable_of_run hinit hr)
  obtain ⟨e, he, hid, hread⟩ | huntil := habides.running r h.advance.1
  · rw [← hid]
    refine (seenBy_of_mem_trace hinit.2.2.1 hr he).imp fun s s' hexec => ?_
    obtain ⟨id, request, statement, reply⟩ := e
    cases statement with
    | now =>
      obtain rfl : s.clock = reply := congrArg Prod.snd hexec
      exact hread
    | _ => exact hread.elim
  · rw [htodo, Program.until_perform, hwrite] at huntil
    cases huntil.1

theorem consent_of_changes {into : Bool} (h : Changes x x' a r targetHex into) :
    Consent R x₀ as r.id r.request targetHex := by
  obtain ⟨i, next, htodo, hwrite⟩ := h.write
  have habides := abides_of_reachable (until_readConsent (R := R)) (reachable_of_run hinit hr)
  obtain ⟨e, he, hid, hread⟩ | huntil := habides.running r h.advance.1
  · have hseen := seenBy_of_mem_trace hinit.2.2.1 hr he
    rw [hid] at hseen
    obtain ⟨id, request, statement, reply⟩ := e
    cases statement with
    | getRelayMember c pubkey =>
      cases reply with
      | error e => exact hread.elim
      | ok member =>
        cases member with
        | none => exact hread.elim
        | some role =>
          obtain ⟨rfl, rfl, hrole⟩ := hread
          refine .admin role hrole (hseen.imp fun s s' hexec => ?_)
          exact congrArg Prod.snd (attempt_eq_ok hexec)
    | queryProfile c author =>
      cases reply with
      | error e => exact hread.elim
      | ok found =>
        cases found with
        | none => exact hread.elim
        | some profile =>
          obtain ⟨rfl, targetHex', htarget, hrequest, hprofile⟩ := hread
          obtain rfl := htarget.unique h.target
          refine .owner hrequest (hseen.imp fun s s' hexec => ⟨profile, ?_, hprofile⟩)
          have hlatest := latestProfile_of_newest (congrArg Prod.snd (attempt_eq_ok hexec))
          obtain ⟨row, -, rfl, hlive⟩ := hlatest.live
          have hauthor : row.event.pubkey = author := by
            simp only [EventRow.isLive, Bool.and_eq_true, beq_iff_eq] at hlive
            exact hlive.2
          rwa [hauthor]
    | _ => exact hread.elim
  · rw [htodo, Program.until_perform] at huntil
    exact .selfSigned ((huntil.1 hwrite).unique h.target)

theorem unrefused_of_run {y : Answered Request (Except String Unit)} (hy : y ∈ x.answers)
    (hself : SelfRequest y.request.event) (hkind : y.request.event.kind = kindIaUnarchiveRequest) :
    y.result = .ok () ∨
      SeenBy (identityArchive R) x₀ as y.id (fun s _ => ¬Fresh y.request.event.createdAt s.clock) ∨
      SeenBy (identityArchive R) x₀ as y.id fun s _ => s.fault ≠ none := by
  have habides := abides_of_reachable (until_readObstacle (R := R)) (reachable_of_run hinit hr)
  obtain ⟨e, he, hid, hread⟩ | hok := habides.answers y hy
  · have hseen := seenBy_of_mem_trace hinit.2.2.1 hr he
    rw [hid] at hseen
    obtain ⟨id, request, statement, reply⟩ := e
    cases statement with
    | now =>
      refine Or.inr (Or.inl (hseen.imp fun s s' hexec => ?_))
      obtain rfl : s.clock = reply := congrArg Prod.snd hexec
      exact hread
    | unarchive c pubkey =>
      cases reply with
      | ok changed => exact hread.elim
      | error e => exact Or.inr (Or.inr (hseen.imp fun s s' => fault_of_attempt_eq_error))
    | _ => exact hread.elim
  · exact Or.inl (hok hself hkind)

theorem had_of_emission (hs : (identityArchive R).step x a = some x')
    (hne : x'.store.emitted ≠ x.store.emitted) :
    ∃ r ∈ x.running, a = .advance r.id ∧ x.Had r.id repliedChanged := by
  have habides := abides_of_reachable (until_repliedChanged (R := R)) (reachable_of_run hinit hr)
  obtain ⟨id, request, -, -, rfl⟩ | ⟨r, -, -, result, -, rfl⟩ |
    ⟨r, hrunning, hadvance, i, next, htodo, rfl⟩ | ⟨id, -, rfl⟩ | ⟨event, -, rfl⟩ :=
    Execution.step_cases hs
  · exact absurd rfl hne
  · exact absurd rfl hne
  · refine ⟨r, hrunning, hadvance, (habides.running r hrunning).resolve_right fun huntil => ?_⟩
    rw [htodo, Program.until_perform, emitted_exec hne] at huntil
    cases huntil.1
  · exact absurd rfl hne
  · refine absurd ?_ hne
    cases event <;> rfl

theorem seenBy_changed {id : Nat} (h : x.Had id repliedChanged) :
    SeenBy (identityArchive R) x₀ as id fun s s' => s'.archived ≠ s.archived := by
  obtain ⟨e, he, rfl, hchanged⟩ := h
  exact (seenBy_of_mem_trace hinit.2.2.1 hr he).imp fun s s' hexec =>
    archived_ne_of_repliedChanged hexec hchanged

end Run

variable {into : Bool}

theorem eq_of_flips {s s' : Store} {c c' : CommunityId} {pubkey pubkey' : String}
    (h : Flips s s' c pubkey into) (hne : s'.isArchived c' pubkey' ≠ s.isArchived c' pubkey') :
    c' = c ∧ pubkey' = pubkey := by
  by_contra hother
  have hrows := h.frame c' pubkey' hother
  have hany : ∀ t : Store, t.isArchived c' pubkey' = !(rowsOf t c' pubkey').isEmpty := by
    intro t
    rw [Bool.eq_iff_iff, isArchived_iff]
    simp [rowsOf]
  rw [hany, hany, hrows] at hne
  exact hne rfl

theorem changed_back {c : CommunityId} {targetHex : String}
    (hreach : (identityArchive R).Reachable x) (hr : (identityArchive R).run x as = some x')
    (hbefore : x.store.isArchived c targetHex = into)
    (hafter : x'.store.isArchived c targetHex = !into) :
    ∃ part b rest w w' q, as = part ++ b :: rest ∧ (identityArchive R).run x part = some w ∧
      (identityArchive R).step w b = some w' ∧ Changes w w' b q targetHex (!into) ∧
        q.request.community = c := by
  have hflip : ∀ v : Bool, v ≠ !v := by decide
  obtain ⟨part, b, rest, w, w', heq, hw, hs, hnot, hP⟩ := StateMachine.exists_onset
    (P := fun y : Requests => y.store.isArchived c targetHex = !into) hr
    (by rw [hbefore]; exact hflip into) hafter
  have hne : w'.store.isArchived c targetHex ≠ w.store.isArchived c targetHex := by
    rw [hP]
    exact fun h => hnot h.symm
  have hstore : w'.store.archived ≠ w.store.archived := by
    intro hsame
    exact hne (by rw [Store.isArchived, Store.isArchived, hsame])
  obtain ⟨q, targetHex', into', hchanges⟩ := changes_of_step (hreach.run hw) hs hstore
  obtain ⟨rfl, rfl⟩ := eq_of_flips hchanges.flips hne
  obtain rfl : into' = !into := hchanges.flips.after.symm.trans hP
  exact ⟨part, b, rest, w, w', q, heq, hw, hs, hchanges, rfl⟩

/-- **Every run is lawful.** -/
theorem requests_lawful (hinit : (identityArchive R).Init x₀)
    (hr : (identityArchive R).run x₀ as = some x) : Lawful R x₀ x as where
  consent earlier a later y y' heq hy hs hne := by
    obtain ⟨r, targetHex, into, hchanges⟩ :=
      changes_of_step (reachable_of_run hinit hy) hs hne
    exact ⟨r, targetHex, into, hchanges, seenBy_fresh hinit hy hchanges,
      consent_of_changes hinit hy hchanges⟩
  undone earlier a between a' later y y' z z' r r' targetHex targetHex' into into' heq hy hs hz hs'
      hchanges hchanges' hsame := by
    obtain rfl : into = into' := by
      have hkind := hchanges.kind
      rw [hsame, hchanges'.kind] at hkind
      cases into <;> cases into' <;> first | rfl | exact absurd hkind (by decide)
    have htarget := hchanges.target
    rw [hsame] at htarget
    obtain rfl := htarget.unique hchanges'.target
    have hbefore := hchanges'.flips.before
    rw [← hsame] at hbefore
    exact changed_back ((reachable_of_run hinit hy).step hs) hz hchanges.flips.after hbefore
  unrefused y hy hself hkind := unrefused_of_run hinit hr hy hself hkind
  silent earlier a later y y' heq hy hs hne := by
    obtain ⟨r, hrunning, hadvance, hhad⟩ := had_of_emission hinit hy hs hne
    refine ⟨r, hrunning, hadvance, seenBy_changed hinit hy hhad, fun z hz hid => ?_⟩
    have hconcludes := concludes_of_reachable (after_repliedChanged (R := R))
      (reachable_of_run hinit hr)
    refine hconcludes.answers z hz ?_
    rw [heq, StateMachine.run_append, hy, bind_some] at hr
    rw [hid]
    exact hhad.mono (trace_subset_of_run hr)

/-! ### A replay within the window -/

/-- No request changes the archived set twice. -/
def OnceEach (R : Relay Sig Digest) (x₀ : Requests) (as : List Action) : Prop :=
  ∀ earlier a between a' later y y' z z' r r' targetHex targetHex' into into',
    as = earlier ++ a :: (between ++ a' :: later) →
    (identityArchive R).run x₀ earlier = some y → (identityArchive R).step y a = some y' →
    (identityArchive R).run y' between = some z → (identityArchive R).step z a' = some z' →
    Changes y y' a r targetHex into → Changes z z' a' r' targetHex' into' →
    r.request ≠ r'.request

deriving instance DecidableEq for NostrEvent, Request

/-- A request whose step archives its target changes the archived set. -/
theorem changes_of_archived {y y' : Requests} {id : Nat} {b : Request} {targetHex : String}
    (hreach : (identityArchive R).Reachable y)
    (hs : (identityArchive R).step y (.advance id) = some y')
    (hrunning : ∀ r ∈ y.running, r.id = id → r.request = b)
    (hkind : b.event.kind = kindIaArchiveRequest)
    (hbefore : y.store.isArchived b.community targetHex = false)
    (hafter : y'.store.isArchived b.community targetHex = true) :
    ∃ r targetHex', Changes y y' (.advance id) r targetHex' true ∧ r.request = b := by
  have hne : y'.store.archived ≠ y.store.archived := by
    intro heq
    rw [Store.isArchived, heq, ← Store.isArchived, hbefore] at hafter
    cases hafter
  obtain ⟨r, targetHex', into, hchanges⟩ := changes_of_step hreach hs hne
  have hr : r.request = b :=
    hrunning r hchanges.advance.1 (ProgramAction.advance.inj hchanges.advance.2).symm
  obtain rfl : into = true := by
    have hinto := hchanges.kind
    rw [hr, hkind] at hinto
    cases into with
    | true => rfl
    | false => exact absurd hinto (by decide)
  exact ⟨r, targetHex', hchanges, hr⟩

/-- A relay whose libraries accept nothing. -/
def quietRelay : Relay Unit Unit where
  crypto := ⟨fun _ => none, fun _ => none, fun _ => false, fun _ => none, fun _ => (),
    fun _ _ _ => false⟩
  keyError s := s
  jsonError s := s
  sdkError _ := ""
  relayPubkey := Vector.replicate 32 1
  eventId _ _ _ _ _ := Vector.replicate 32 2

def ownRequest (id : UInt8) (kind : UInt16) : Request :=
  ⟨1, ⟨Vector.replicate 32 id, Vector.replicate 32 42, 1000, kind,
    [["-"], ["p", Pairing.hexOfBytes32 (Vector.replicate 32 42)]], ""⟩⟩

/-- Nothing is archived, and no request has come in. -/
def noRequests : Requests :=
  ⟨⟨1000, 0, fun _ _ => none, fun _ => [], fun _ => [], [], none⟩, [], [], [], []⟩

/-- The steps of a request up to its write. -/
def handled (id : Nat) (b : Request) : List Action := [.start id b, .advance id]

/-- An identity takes itself back. -/
def takenBack : List Action := handled 1 (ownRequest 2 kindIaUnarchiveRequest) ++ [.advance 1]

/-- It archives itself before, and the same request is sent again afterwards. -/
def replay : List Action :=
  handled 0 (ownRequest 1 kindIaArchiveRequest) ++ .advance 0 ::
    ((takenBack ++ handled 2 (ownRequest 1 kindIaArchiveRequest)) ++ .advance 2 :: [])

def isOwnArchived (x : Requests) : Bool :=
  x.store.isArchived 1 (Pairing.hexOfBytes32 (Vector.replicate 32 42))

/-- What runs under an id is the identity's request to archive itself. -/
def runsOwn (x : Requests) (id : Nat) : Bool :=
  x.running.all fun r => decide (r.id = id → r.request = ownRequest 1 kindIaArchiveRequest)

/-- **The replay is handled like the request.** -/
theorem run_replay : ∃ y y' z z' r r' targetHex targetHex',
    (identityArchive quietRelay).run noRequests (handled 0 (ownRequest 1 kindIaArchiveRequest)) =
      some y ∧
    (identityArchive quietRelay).step y (.advance 0) = some y' ∧
    (identityArchive quietRelay).run y'
      (takenBack ++ handled 2 (ownRequest 1 kindIaArchiveRequest)) = some z ∧
    (identityArchive quietRelay).step z (.advance 2) = some z' ∧
    (identityArchive quietRelay).run noRequests replay = some z' ∧
    Changes y y' (.advance 0) r targetHex true ∧ Changes z z' (.advance 2) r' targetHex' true ∧
    r.request = r'.request := by
  have hruns : ((identityArchive quietRelay).run noRequests
      (handled 0 (ownRequest 1 kindIaArchiveRequest))).any (fun y =>
        ((identityArchive quietRelay).step y (.advance 0)).any fun y' =>
          ((identityArchive quietRelay).run y'
            (takenBack ++ handled 2 (ownRequest 1 kindIaArchiveRequest))).any fun z =>
              ((identityArchive quietRelay).step z (.advance 2)).any fun z' =>
                runsOwn y 0 && runsOwn z 2 && !isOwnArchived y && isOwnArchived y' &&
                  !isOwnArchived z && isOwnArchived z') = true := by
    decide +kernel
  simp only [any_eq_true, runsOwn, Bool.and_eq_true, List.all_eq_true, decide_eq_true_eq,
    Bool.not_eq_true'] at hruns
  obtain ⟨y, hy, y', hs, z, hz, z', hs', ⟨⟨⟨⟨hfirst, hagain⟩, hfree⟩, hin⟩, hout⟩, hback⟩ := hruns
  have hinit : (identityArchive quietRelay).Init noRequests := ⟨trivial, rfl, rfl, rfl, rfl⟩
  have hreach := reachable_of_run hinit hy
  have hwhole : (identityArchive quietRelay).run noRequests
      (handled 0 (ownRequest 1 kindIaArchiveRequest) ++ .advance 0 ::
        (takenBack ++ handled 2 (ownRequest 1 kindIaArchiveRequest))) = some z := by
    rw [StateMachine.run_append, hy, bind_some, StateMachine.run_cons, hs, bind_some, hz]
  obtain ⟨r, targetHex, hchanges, hr⟩ := changes_of_archived hreach hs hfirst rfl hfree hin
  obtain ⟨r', targetHex', hchanges', hr'⟩ :=
    changes_of_archived (reachable_of_run hinit hwhole) hs' hagain rfl hout hback
  refine ⟨y, y', z, z', r, r', _, _, hy, hs, hz, hs', ?_, hchanges, hchanges', hr.trans hr'.symm⟩
  rw [replay, ← List.cons_append, ← List.append_assoc, StateMachine.run_append, hwhole, bind_some,
    StateMachine.run_cons, hs', bind_some, StateMachine.run_nil]

/-- Nothing marks a request that was handled, so its replay changes the archived set again. -/
theorem not_onceEach : ∃ x₀ x as, (identityArchive quietRelay).Init x₀ ∧
    (identityArchive quietRelay).run x₀ as = some x ∧ ¬OnceEach quietRelay x₀ as := by
  obtain ⟨y, y', z, z', r, r', targetHex, targetHex', hy, hs, hz, hs', hrun, hchanges, hchanges',
    hsame⟩ := run_replay
  refine ⟨noRequests, z', replay, ⟨trivial, rfl, rfl, rfl, rfl⟩, hrun, fun honce => ?_⟩
  exact honce _ _ _ _ _ y y' z z' r r' targetHex targetHex' true true rfl hy hs hz hs' hchanges
    hchanges' hsame

/-- The run with the replay is lawful all the same. -/
theorem requests_lawful_replay : ∃ x, (identityArchive quietRelay).run noRequests replay = some x ∧
    Lawful quietRelay noRequests x replay := by
  obtain ⟨-, -, -, x, -, -, -, -, -, -, -, -, hrun, -⟩ := run_replay
  exact ⟨x, hrun, requests_lawful ⟨trivial, rfl, rfl, rfl, rfl⟩ hrun⟩

end Buzz.IdentityArchive
