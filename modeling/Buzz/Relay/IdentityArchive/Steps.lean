import Buzz.Lib.Pasts
import Buzz.Relay.IdentityArchive.Consent

/-!
# What the handler of the identity archive does

What a request may do until a statement has had a certain reply, and what each statement makes of the
archived set.
-/

namespace Buzz.IdentityArchive

open NipOa

variable {Sig Digest : Type} {R : Relay Sig Digest}

/-! ### What the handler does -/

def isWrite : Statement → Bool
  | .archive _ _ _ _ _ _ _ => true
  | .unarchive _ _ => true
  | _ => false

/-- The statement stores an event of the relay. -/
def isEmission : Statement → Bool
  | .insertEvent _ _ => true
  | .replaceAddressableEvent _ _ => true
  | _ => false

/-- The clock was close to the time of the request. -/
def readFresh (b : Request) : (i : Statement) → Reply i → Prop
  | .now, clock => Fresh b.event.createdAt clock
  | _, _ => False

def readConsent (R : Relay Sig Digest) (b : Request) : (i : Statement) → Reply i → Prop
  | .getRelayMember c pubkey, .ok (some role) =>
    c = b.community ∧ pubkey = Pairing.hexOfBytes32 b.event.pubkey ∧
      (role = "owner" ∨ role = "admin")
  | .queryProfile c _, .ok (some profile) =>
    c = b.community ∧ ∃ targetHex, NamesTarget b.event targetHex ∧
      RequestConsent R b.event targetHex ∧ ProfileConsent R profile targetHex b.event.pubkey
  | _, _ => False

def repliedChanged : (i : Statement) → Reply i → Prop
  | .archive _ _ _ _ _ _ _, .ok true => True
  | .unarchive _ _, .ok true => True
  | _, _ => False

/-- The request was late, or the database did not work. -/
def readObstacle (b : Request) : (i : Statement) → Reply i → Prop
  | .now, clock => ¬Fresh b.event.createdAt clock
  | .unarchive _ _, .error _ => True
  | _, _ => False

/-- A request writes its target, in its community. -/
def MayWrite (b : Request) : Statement → Prop
  | .archive c pubkey _ _ _ _ _ =>
    c = b.community ∧ NamesTarget b.event pubkey ∧ b.event.kind = kindIaArchiveRequest
  | .unarchive c pubkey =>
    c = b.community ∧ NamesTarget b.event pubkey ∧ b.event.kind = kindIaUnarchiveRequest
  | _ => True

section Until

variable {E : (i : Statement) → Reply i → Prop} {Q : Statement → Prop}
  {T : Except String Unit → Prop}

theorem until_orReject {γ : Type} {check : Except String γ} {next : γ → Handler}
    (hT : ∀ e, T (.error e)) (h : ∀ v, check = .ok v → (next v).Until E Q T) :
    (orReject check next).Until E Q T := by
  cases check with
  | error e => exact hT e
  | ok v => exact h v rfl

variable {b : Request}

theorem until_publish {kind : UInt16} {tags : List (List String)} {reply : Except String Bool}
    (hT : ∀ e, T (.error e)) (hok : T (.ok ()))
    (hother : ∀ i, isWrite i = false → isEmission i = false → Q i)
    (hemission : reply = .ok true → ∀ i, isEmission i = true → Q i) :
    (publish R b kind tags reply).Until E Q T := by
  refine until_orReject hT fun changed hchanged => Program.until_ite (fun _ => hok) fun hset => ?_
  have htrue : reply = .ok true := by
    rw [databaseError, mapError_ok_iff] at hchanged
    rw [hchanged]
    simpa using hset
  have hemission := hemission htrue
  refine ⟨hother _ rfl rfl, fun now => Or.inr ⟨hemission _ rfl, fun _ => Or.inr ?_⟩⟩
  refine ⟨hother _ rfl rfl, fun archived => Or.inr ?_⟩
  cases archived with
  | error e => exact hok
  | ok rows =>
    exact ⟨hother _ rfl rfl, fun now => Or.inr ⟨hemission _ rfl, fun _ => Or.inr hok⟩⟩

variable {targetHex : String}

theorem until_applyRequest {replacedBy : Option String} {path : ConsentPath}
    (hT : ∀ e, T (.error e)) (hok : T (.ok ()))
    (hkind : b.event.kind = kindIaArchiveRequest ∨ b.event.kind = kindIaUnarchiveRequest)
    (htarget : NamesTarget b.event targetHex)
    (hother : ∀ i, isWrite i = false → isEmission i = false → Q i)
    (hwrite : ∀ i, isWrite i = true → MayWrite b i → Q i)
    (hemission : ∀ i reply, repliedChanged i reply → E i reply ∨ ∀ j, isEmission j = true → Q j) :
    (applyRequest R b targetHex replacedBy path).Until E Q T := by
  refine Program.until_ite (fun harchive => ?_) fun hnot => ?_
  · refine ⟨hwrite _ rfl ⟨rfl, htarget, harchive⟩, fun reply => ?_⟩
    by_cases hE : E (.archive b.community targetHex path.asStr (Pairing.hexOfBytes32 b.event.pubkey)
        (extractTagValue b.event "reason") replacedBy (Pairing.hexOfBytes32 b.event.id)) reply
    · exact Or.inl hE
    · refine Or.inr (until_publish hT hok hother fun htrue => ?_)
      subst htrue
      exact (hemission _ _ (show repliedChanged (.archive b.community _ _ _ _ _ _) (.ok true) from
        trivial)).resolve_left hE
  · have hunarchive := hkind.resolve_left hnot
    refine ⟨hwrite _ rfl ⟨rfl, htarget, hunarchive⟩, fun reply => ?_⟩
    by_cases hE : E (.unarchive b.community targetHex) reply
    · exact Or.inl hE
    · refine Or.inr (until_publish hT hok hother fun htrue => ?_)
      subst htrue
      exact (hemission _ _ (show repliedChanged (.unarchive b.community _) (.ok true) from
        trivial)).resolve_left hE

theorem until_determineConsentPath {next : ConsentPath → Handler} (hT : ∀ e, T (.error e))
    (hother : ∀ i, isWrite i = false → isEmission i = false → Q i)
    (hself : Pairing.hexOfBytes32 b.event.pubkey = targetHex → (next .selfSigned).Until E Q T)
    (hadmin : ∀ role, role = "owner" ∨ role = "admin" →
      E (.getRelayMember b.community (Pairing.hexOfBytes32 b.event.pubkey)) (.ok (some role)) ∨
        (next .admin).Until E Q T)
    (howner : ∀ author profile, RequestConsent R b.event targetHex →
      ProfileConsent R profile targetHex b.event.pubkey →
      E (.queryProfile b.community author) (.ok (some profile)) ∨ (next .owner).Until E Q T) :
    (determineConsentPath R b.community b.event targetHex (Pairing.hexOfBytes32 b.event.pubkey)
      next).Until E Q T := by
  refine Program.until_ite hself fun _ => ⟨hother _ rfl rfl, fun reply => ?_⟩
  by_cases hE : E (.getRelayMember b.community (Pairing.hexOfBytes32 b.event.pubkey)) reply
  · exact Or.inl hE
  refine Or.inr (until_orReject hT fun member hmember => Program.until_ite (fun hrole => ?_) fun _ =>
    until_orReject hT fun _ hrequest => until_orReject hT fun author _ => ?_)
  · obtain rfl := mapError_ok_iff.mp hmember
    cases member with
    | none => exact absurd hrole (by decide)
    | some role => exact (hadmin role hrole).resolve_left hE
  · refine ⟨hother _ rfl rfl, fun found => ?_⟩
    by_cases hEfound : E (.queryProfile b.community author) found
    · exact Or.inl hEfound
    · refine Or.inr (until_orReject hT fun profile hprofile => ?_)
      obtain rfl := mapError_ok_iff.mp hprofile
      cases profile with
      | none => exact hT _
      | some profile =>
        refine until_orReject hT fun _ hcheck => ?_
        exact (howner author profile (requestConsent_of_check hrequest)
          (profileConsent_of_check hcheck)).resolve_left hEfound

theorem until_handle (hT : ∀ e, T (.error e))
    (hother : ∀ i, isWrite i = false → isEmission i = false → Q i)
    (h : ∀ clock, Fresh b.event.createdAt clock → E .now clock ∨ ∀ targetHex replacedBy,
      NamesTarget b.event targetHex →
      b.event.kind = kindIaArchiveRequest ∨ b.event.kind = kindIaUnarchiveRequest →
      (determineConsentPath R b.community b.event targetHex (Pairing.hexOfBytes32 b.event.pubkey)
        fun path => applyRequest R b targetHex replacedBy path).Until E Q T) :
    (handleIdentityArchiveEvent R b).Until E Q T := by
  refine Program.until_ite (fun _ => hT _) fun hkind => ⟨hother _ rfl rfl, fun clock => ?_⟩
  by_cases hE : E .now clock
  · exact Or.inl hE
  refine Or.inr (until_orReject hT fun _ hfresh => ?_)
  have hnext := (h clock (enforceFreshness_ok_iff.mp hfresh)).resolve_left hE
  refine until_orReject hT fun _ _ => until_orReject hT fun p hp => ?_
  have hfound : extractSinglePTagHex b.event = some p := by
    cases hextracted : extractSinglePTagHex b.event with
    | none =>
      rw [hextracted] at hp
      cases hp
    | some q =>
      rw [hextracted] at hp
      rw [Except.ok.inj hp]
  obtain ⟨rest, htags, hhex⟩ := extractSinglePTagHex_eq_some_iff.mp hfound
  refine until_orReject hT fun replacedBy _ => Program.until_ite (fun _ => hT _) fun _ => ?_
  refine hnext (toAsciiLowercase p) replacedBy ⟨p, rest, htags, hhex, rfl⟩ ?_
  by_contra hother
  exact hkind ⟨fun h => hother (Or.inl h), fun h => hother (Or.inr h)⟩

end Until

theorem until_mayWrite (b : Request) : (handleIdentityArchiveEvent R b).Until (fun _ _ => False)
    (MayWrite b) fun _ => True := by
  have hother : ∀ i, isWrite i = false → MayWrite b i := by
    intro i hi
    cases i <;> trivial
  have hemission : ∀ i, isEmission i = true → MayWrite b i := by
    intro i hi
    cases i <;> trivial
  refine until_handle (fun _ => trivial) (fun i hi _ => hother i hi) fun clock _ => Or.inr ?_
  intro targetHex replacedBy htarget hkind
  have hnext : ∀ path, (applyRequest R b targetHex replacedBy path).Until (fun _ _ => False)
      (MayWrite b) fun _ => True := fun path =>
    until_applyRequest (fun _ => trivial) trivial hkind htarget (fun i hi _ => hother i hi)
      (fun i _ hmay => hmay) fun _ _ _ => Or.inr hemission
  exact until_determineConsentPath (fun _ => trivial) (fun i hi _ => hother i hi)
    (fun _ => hnext _) (fun _ _ => Or.inr (hnext _)) fun _ _ _ _ => Or.inr (hnext _)

/-- Nothing is written before the clock was found to be close. -/
theorem until_readFresh (b : Request) : (handleIdentityArchiveEvent R b).Until (readFresh b)
    (fun i => isWrite i = false) fun _ => True := by
  refine until_handle (fun _ => trivial) (fun i hi _ => hi) fun clock hfresh => Or.inl ?_
  exact hfresh

/-- Nothing is written for another identity before consent was read. -/
theorem until_readConsent (b : Request) : (handleIdentityArchiveEvent R b).Until (readConsent R b)
    (fun i => isWrite i = true → NamesTarget b.event (Pairing.hexOfBytes32 b.event.pubkey))
    fun _ => True := by
  have hother : ∀ i, isWrite i = false → isWrite i = true →
      NamesTarget b.event (Pairing.hexOfBytes32 b.event.pubkey) := by
    intro i hi hi'
    rw [hi] at hi'
    cases hi'
  refine until_handle (fun _ => trivial) (fun i hi _ => hother i hi) fun clock _ => Or.inr ?_
  intro targetHex replacedBy htarget hkind
  refine until_determineConsentPath (fun _ => trivial) (fun i hi _ => hother i hi) ?_ ?_ ?_
  · rintro rfl
    exact until_applyRequest (fun _ => trivial) trivial hkind htarget (fun i hi _ => hother i hi)
      (fun _ _ _ _ => htarget) fun _ _ _ => Or.inr fun _ _ _ => htarget
  · intro role hrole
    exact Or.inl ⟨rfl, rfl, hrole⟩
  · intro author profile hrequest hprofile
    exact Or.inl ⟨rfl, targetHex, htarget, hrequest, hprofile⟩

theorem until_repliedChanged (b : Request) :
    (handleIdentityArchiveEvent R b).Until repliedChanged (fun i => isEmission i = false)
      fun _ => True := by
  have hwrite : ∀ i, isWrite i = true → isEmission i = false := by
    intro i hi
    cases i <;> first | rfl | cases hi
  refine until_handle (fun _ => trivial) (fun i _ hi => hi) fun clock _ => Or.inr ?_
  intro targetHex replacedBy htarget hkind
  have hnext : ∀ path, (applyRequest R b targetHex replacedBy path).Until repliedChanged
      (fun i => isEmission i = false) fun _ => True := fun path =>
    until_applyRequest (fun _ => trivial) trivial hkind htarget (fun i _ hi => hi)
      (fun i hi _ => hwrite i hi) fun _ _ hchanged => Or.inl hchanged
  exact until_determineConsentPath (fun _ => trivial) (fun i _ hi => hi) (fun _ => hnext _)
    (fun _ _ => Or.inr (hnext _)) fun _ _ _ _ => Or.inr (hnext _)

/-! ### Requests about oneself -/

/-- A well-formed request about the identity of its signer. -/
structure SelfRequest (event : NostrEvent) : Prop where
  kind : event.kind = kindIaArchiveRequest ∨ event.kind = kindIaUnarchiveRequest
  single : (tagsNamed "-" event.tags).length = 1
  target : NamesTarget event (Pairing.hexOfBytes32 event.pubkey)
  plain : tagsNamed "replaced-by" event.tags = []

theorem handle_of_selfRequest {b : Request} (h : SelfRequest b.event) :
    handleIdentityArchiveEvent R b = .perform .now fun now =>
      orReject (enforceFreshness b.event now) fun _ =>
        applyRequest R b (Pairing.hexOfBytes32 b.event.pubkey) none .selfSigned := by
  obtain ⟨v, rest, htags, hhex, hself⟩ := h.target
  have hkind : ¬(b.event.kind ≠ kindIaArchiveRequest ∧ b.event.kind ≠ kindIaUnarchiveRequest) := by
    rintro ⟨hne, hne'⟩
    exact h.kind.elim hne hne'
  rw [handleIdentityArchiveEvent, if_neg hkind]
  refine congrArg _ (funext fun now => congrArg _ (funext fun _ => ?_))
  rw [handleFresh, requireSingleProtectedTag_ok_iff.mpr h.single, orReject,
    extractSinglePTagHex_eq_some_iff.mpr ⟨rest, htags, hhex⟩]
  show orReject (extractOptionalReplacedBy b.event (toAsciiLowercase v)) _ = _
  rw [extractOptionalReplacedBy, findReplacedBy_of_none h.plain, ← hself, orReject,
    if_neg (by simp), determineConsentPath, if_pos rfl]

theorem results_publish (b : Request) (kind : UInt16) (tags : List (List String)) (changed : Bool) :
    (publish R b kind tags (.ok changed)).Results fun result => result = .ok () := by
  cases changed with
  | false => exact rfl
  | true =>
    intro now inserted archived
    cases archived with
    | error e => exact rfl
    | ok rows => exact fun now inserted => rfl

/-- A self-signed unarchive is refused for an obstacle only. -/
theorem until_readObstacle (b : Request) : (handleIdentityArchiveEvent R b).Until (readObstacle b)
    (fun _ => True) fun result =>
      SelfRequest b.event → b.event.kind = kindIaUnarchiveRequest → result = .ok () := by
  by_cases hself : SelfRequest b.event ∧ b.event.kind = kindIaUnarchiveRequest
  · obtain ⟨hself, hkind⟩ := hself
    have hnot : b.event.kind ≠ kindIaArchiveRequest := by
      rw [hkind]
      decide
    rw [handle_of_selfRequest hself]
    refine ⟨trivial, fun now => ?_⟩
    by_cases hfresh : Fresh b.event.createdAt now
    · refine Or.inr ?_
      dsimp only
      rw [enforceFreshness_ok_iff.mpr hfresh, orReject, applyRequest, if_neg hnot]
      refine ⟨trivial, fun reply => ?_⟩
      cases reply with
      | error e => exact Or.inl trivial
      | ok changed =>
        refine Or.inr (Program.until_of_results ?_)
        have hresults := results_publish (R := R) b kindIaUnarchived
          (deltaTags (Pairing.hexOfBytes32 b.event.pubkey) ConsentPath.selfSigned.asStr
            (Pairing.hexOfBytes32 b.event.pubkey) (Pairing.hexOfBytes32 b.event.id)
            (extractTagValue b.event "reason") none) changed
        exact hresults.imp fun _ hok _ _ => hok
    · exact Or.inl hfresh
  · refine Program.until_of_results ?_
    exact Program.results_of_forall (fun _ hreq hkind => absurd ⟨hreq, hkind⟩ hself) _

section After

variable {T : Except String Unit → Prop}

theorem after_orReject {γ : Type} {check : Except String γ} {next : γ → Handler}
    (h : ∀ v, (next v).After repliedChanged T) : (orReject check next).After repliedChanged T := by
  cases check with
  | error e => trivial
  | ok v => exact h v

theorem after_applyRequest (b : Request) (targetHex : String) (replacedBy : Option String)
    (path : ConsentPath) : (applyRequest R b targetHex replacedBy path).After repliedChanged
      fun result => result = .ok () := by
  refine Program.after_ite (fun reply => ?_) fun reply => ?_
  · cases reply with
    | error e => exact ⟨trivial, fun hchanged => hchanged.elim⟩
    | ok changed =>
      exact ⟨Program.after_of_results (results_publish _ _ _ changed),
        fun _ => results_publish _ _ _ changed⟩
  · cases reply with
    | error e => exact ⟨trivial, fun hchanged => hchanged.elim⟩
    | ok changed =>
      exact ⟨Program.after_of_results (results_publish _ _ _ changed),
        fun _ => results_publish _ _ _ changed⟩

theorem after_determineConsentPath {b : Request} {targetHex actorHex : String}
    {next : ConsentPath → Handler} (h : ∀ path, (next path).After repliedChanged T) :
    (determineConsentPath R b.community b.event targetHex actorHex next).After repliedChanged T := by
  refine Program.after_ite (h _) fun reply => ⟨?_, fun hchanged => hchanged.elim⟩
  refine after_orReject fun member => Program.after_ite (h _) ?_
  refine after_orReject fun _ => after_orReject fun author => fun found => ?_
  refine ⟨after_orReject fun profile => ?_, fun hchanged => hchanged.elim⟩
  cases profile with
  | none => trivial
  | some profile => exact after_orReject fun _ => h _

end After

/-- Once a row was changed, the request is not rejected. -/
theorem after_repliedChanged (b : Request) : (handleIdentityArchiveEvent R b).After repliedChanged
    fun result => result = .ok () := by
  refine Program.after_ite trivial fun now => ⟨?_, fun hchanged => hchanged.elim⟩
  refine after_orReject fun _ => after_orReject fun _ => after_orReject fun p => ?_
  refine after_orReject fun replacedBy => Program.after_ite trivial ?_
  exact after_determineConsentPath fun path => after_applyRequest b _ _ path

/-! ### What a statement writes -/

def rowsOf (s : Store) (c : CommunityId) (pubkey : String) : List ArchivedIdentity :=
  (s.archived c).filter fun row => row.pubkey == pubkey

variable {s : Store} {c : CommunityId} {pubkey : String}

theorem isArchived_iff :
    s.isArchived c pubkey = true ↔ ∃ row ∈ s.archived c, row.pubkey = pubkey := by
  simp [Store.isArchived]

def archives (c : CommunityId) (pubkey : String) : Statement → Prop
  | .archive c' pubkey' _ _ _ _ _ => c' = c ∧ pubkey' = pubkey
  | _ => False

/-- The statement takes this identity back. -/
def unarchives (c : CommunityId) (pubkey : String) : Statement → Prop
  | .unarchive c' pubkey' => c' = c ∧ pubkey' = pubkey
  | _ => False

/-- One identity was archived or taken back, and nothing else was changed. -/
structure Flips (s s' : Store) (c : CommunityId) (pubkey : String) (into : Bool) : Prop where
  before : s.isArchived c pubkey = !into
  after : s'.isArchived c pubkey = into
  frame : ∀ c' pubkey', ¬(c' = c ∧ pubkey' = pubkey) → rowsOf s' c' pubkey' = rowsOf s c' pubkey'

theorem flips_archive {path actor id : String} {reason replacedBy : Option String}
    (h : s.isArchived c pubkey = false) :
    Flips s (s.archive c pubkey path actor reason replacedBy id).1 c pubkey true := by
  rw [Store.archive, if_neg (by rw [h]; exact Bool.false_ne_true)]
  refine ⟨h, isArchived_iff.mpr ?_, fun c' pubkey' hne => ?_⟩
  · refine ⟨⟨pubkey, path, actor, reason, replacedBy, id, s.dbClock⟩, ?_, rfl⟩
    simp [Store.setArchived]
  · by_cases hc : c' = c
    · subst hc
      have hkey : ¬pubkey = pubkey' := fun heq => hne ⟨rfl, heq.symm⟩
      simp [rowsOf, Store.setArchived, hkey]
    · simp [rowsOf, Store.setArchived, hc]

theorem flips_unarchive (h : s.isArchived c pubkey = true) :
    Flips s (s.unarchive c pubkey).1 c pubkey false := by
  rw [Store.unarchive, if_pos h]
  refine ⟨h, ?_, fun c' pubkey' hne => ?_⟩
  · rw [Bool.eq_false_iff]
    intro hstill
    obtain ⟨row, hrow, hkey⟩ := isArchived_iff.mp hstill
    simp [Store.setArchived, hkey] at hrow
  · by_cases hc : c' = c
    · subst hc
      have hkey : pubkey' ≠ pubkey := fun heq => hne ⟨rfl, heq⟩
      simp only [rowsOf, Store.setArchived, Function.update_self, List.filter_filter]
      refine List.filter_congr fun row _ => ?_
      by_cases hrow : row.pubkey = pubkey'
      · simp [hrow, hkey]
      · simp [hrow]
    · simp [rowsOf, Store.setArchived, hc]

theorem archive_cases {path actor id : String} {reason replacedBy : Option String} :
    s.archive c pubkey path actor reason replacedBy id = (s, false) ∨
      Flips s (s.archive c pubkey path actor reason replacedBy id).1 c pubkey true := by
  cases harchived : s.isArchived c pubkey with
  | true => exact .inl (if_pos harchived)
  | false => exact .inr (flips_archive harchived)

theorem unarchive_cases : s.unarchive c pubkey = (s, false) ∨
    Flips s (s.unarchive c pubkey).1 c pubkey false := by
  cases harchived : s.isArchived c pubkey with
  | true => exact .inr (flips_unarchive harchived)
  | false => exact .inl (if_neg (by simp [harchived]))

theorem attempt_cases {γ : Type} (s : Store) (r : Store × γ) :
    (s.attempt r).1 = r.1 ∨ (s.attempt r).1 = s := by
  rw [Store.attempt]
  cases s.fault with
  | none => exact Or.inl rfl
  | some f =>
    cases hexecuted : f.executed with
    | true => exact Or.inl (if_pos hexecuted)
    | false => exact Or.inr (if_neg (by simp [hexecuted]))

/-- What a statement keeps is kept when the database does not work, too. -/
theorem attempt_keeps {α γ : Type} (field : Store → α) {r : Store × γ}
    (h : field r.1 = field s) : field (s.attempt r).1 = field s := by
  obtain hdone | hnot := attempt_cases s r
  · rw [hdone, h]
  · rw [hnot]

theorem Flips.of_attempt {γ : Type} {r : Store × γ} {into : Bool} {none : γ}
    (hcases : r = (s, none) ∨ Flips s r.1 c pubkey into)
    (h : (s.attempt r).1.archived ≠ s.archived) : Flips s (s.attempt r).1 c pubkey into := by
  obtain hsame | hflips := hcases
  · exact absurd (attempt_keeps Store.archived (by rw [hsame])) h
  · obtain hdone | hnot := attempt_cases s r
    · rwa [hdone]
    · exact absurd (congrArg Store.archived hnot) h

variable {i : Statement}

/-- **What a statement makes of the archived set.** -/
theorem archived_exec (h : (exec i s).1.archived ≠ s.archived) :
    ∃ c pubkey, (archives c pubkey i ∧ Flips s (exec i s).1 c pubkey true) ∨
      (unarchives c pubkey i ∧ Flips s (exec i s).1 c pubkey false) := by
  cases i with
  | archive c pubkey path actor reason replacedBy id =>
    exact ⟨c, pubkey, .inl ⟨⟨rfl, rfl⟩, .of_attempt archive_cases h⟩⟩
  | unarchive c pubkey =>
    exact ⟨c, pubkey, .inr ⟨⟨rfl, rfl⟩, .of_attempt unarchive_cases h⟩⟩
  | insertEvent c event =>
    refine absurd (attempt_keeps Store.archived ?_) h
    rw [Store.insertEvent]
    split <;> rfl
  | replaceAddressableEvent c event =>
    refine absurd (attempt_keeps Store.archived ?_) h
    rw [Store.replaceAddressableEvent]
    split <;> split <;> rfl
  | now => exact absurd rfl h
  | getRelayMember c pubkey | queryProfile c author | listArchived c =>
      exact absurd (attempt_keeps Store.archived (r := (s, _)) rfl) h

theorem emitted_exec (h : (exec i s).1.emitted ≠ s.emitted) : isEmission i = true := by
  cases i with
  | insertEvent c event => rfl
  | replaceAddressableEvent c event => rfl
  | now => exact absurd rfl h
  | getRelayMember c pubkey | queryProfile c author | listArchived c =>
      exact absurd (attempt_keeps Store.emitted (r := (s, _)) rfl) h
  | archive c pubkey path actor reason replacedBy id =>
    refine absurd (attempt_keeps Store.emitted ?_) h
    rw [Store.archive]
    split <;> rfl
  | unarchive c pubkey =>
    refine absurd (attempt_keeps Store.emitted ?_) h
    rw [Store.unarchive]
    split <;> rfl

theorem Flips.ne {s' : Store} {into : Bool} (h : Flips s s' c pubkey into) :
    s'.archived ≠ s.archived := by
  intro heq
  have hsame : s'.isArchived c pubkey = s.isArchived c pubkey := by
    rw [Store.isArchived, Store.isArchived, heq]
  rw [h.after, h.before] at hsame
  cases into <;> cases hsame

theorem attempt_eq_ok {γ : Type} {s' : Store} {r : Store × γ} {v : γ}
    (h : s.attempt r = (s', .ok v)) : r = (s', v) := by
  rw [Store.attempt] at h
  cases hfault : s.fault with
  | none =>
    rw [hfault] at h
    obtain ⟨hstore, hvalue⟩ := Prod.mk.inj h
    exact Prod.ext hstore (Except.ok.inj hvalue)
  | some f =>
    rw [hfault] at h
    cases (Prod.mk.inj h).2

theorem fault_of_attempt_eq_error {γ : Type} {s' : Store} {r : Store × γ} {e : String}
    (h : s.attempt r = (s', .error e)) : s.fault ≠ none := by
  intro hfault
  rw [Store.attempt, hfault] at h
  cases (Prod.mk.inj h).2

/-- A change that was answered is a change. -/
theorem archived_ne_of_attempt {s' : Store} {r : Store × Bool} {into : Bool}
    (hcases : r = (s, false) ∨ Flips s r.1 c pubkey into)
    (h : s.attempt r = (s', .ok true)) : s'.archived ≠ s.archived := by
  rw [attempt_eq_ok h] at hcases
  exact hcases.elim (fun hsame => nomatch (Prod.mk.inj hsame).2) Flips.ne

theorem archived_ne_of_repliedChanged {s' : Store} {reply : Reply i}
    (hexec : exec i s = (s', reply)) (h : repliedChanged i reply) : s'.archived ≠ s.archived := by
  cases i with
  | archive c pubkey path actor reason replacedBy id =>
    match reply, h with
    | .ok true, _ => exact archived_ne_of_attempt archive_cases hexec
  | unarchive c pubkey =>
    match reply, h with
    | .ok true, _ => exact archived_ne_of_attempt unarchive_cases hexec
  | _ => exact h.elim

end Buzz.IdentityArchive
