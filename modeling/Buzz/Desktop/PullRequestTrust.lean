import Buzz.Desktop.PullRequests

/-!
# What a pull request depends on

Events of others than the author and the owner change neither the status nor the commit, and comments
of others than these two and the reviewers change no review. A review that is listed is the latest
one of its author for the current commit, and the author lists none.

In which order events arrive does matter. The newest update and the newest status event are the first
ones after sorting by the time, and events of one second stay in the order of arrival. Reviews of one
second are told apart by their ids instead.
-/

namespace Buzz.PullRequests

open List

variable {toLowerCase : JsString → JsString} {localeCompare : JsString → JsString → Int}
  {root e e' : RelayEvent} {u u' c c' s s' l l' : List RelayEvent}

/-- The same events, in any order and any number. -/
def SameEvents (l l' : List RelayEvent) : Prop := ∀ e, e ∈ l ↔ e ∈ l'

theorem SameEvents.filter (h : SameEvents l l') (p : RelayEvent → Bool) :
    SameEvents (l.filter p) (l'.filter p) := by
  intro e
  simp [h e]

theorem sameEvents_cons (h : e ∈ l) : SameEvents l (e :: l) := by
  intro b
  rw [mem_cons]
  exact ⟨.inr, fun hor => hor.elim (fun heq => heq ▸ h) id⟩

/-! ### Sorting by the time -/

theorem newestFirst_trans (a b c : RelayEvent) (hab : newestFirst a b = true)
    (hbc : newestFirst b c = true) : newestFirst a c = true := by
  simp only [newestFirst, decide_eq_true_eq] at hab hbc ⊢
  omega

theorem newestFirst_total (a b : RelayEvent) : (newestFirst a b || newestFirst b a) = true := by
  simp only [newestFirst, Bool.or_eq_true, decide_eq_true_eq]
  omega

theorem oldestFirst_trans (a b c : RelayEvent) (hab : oldestFirst a b = true)
    (hbc : oldestFirst b c = true) : oldestFirst a c = true := by
  simp only [oldestFirst, decide_eq_true_eq] at hab hbc ⊢
  omega

theorem oldestFirst_total (a b : RelayEvent) : (oldestFirst a b || oldestFirst b a) = true := by
  simp only [oldestFirst, Bool.or_eq_true, decide_eq_true_eq]
  omega

theorem mem_eventsForPullRequest {id : JsString} :
    e ∈ eventsForPullRequest id l ↔ e ∈ l ∧ refersTo id e = true := by
  simp [eventsForPullRequest]

theorem filter_eventsForPullRequest (id : JsString) (l : List RelayEvent)
    (p : RelayEvent → Bool) :
    (eventsForPullRequest id l).filter p = eventsForPullRequest id (l.filter p) := by
  rw [eventsForPullRequest, filter_mergeSort oldestFirst_trans oldestFirst_total,
    filter_filter, eventsForPullRequest, filter_filter]
  refine congrArg (fun l => mergeSort l oldestFirst) (filter_congr fun b _ => ?_)
  exact Bool.and_comm ..

/-! ### Updates and status events -/

theorem trustedUpdates_congr (h : u'.filter (isTrusted toLowerCase root) =
      u.filter (isTrusted toLowerCase root)) :
    trustedUpdatesForPullRequest toLowerCase root u' =
      trustedUpdatesForPullRequest toLowerCase root u := by
  have hsplit : ∀ l, trustedUpdatesForPullRequest toLowerCase root l =
      (l.filter (isTrusted toLowerCase root)).filter fun e => getTag e "E" == some root.id := by
    intro l
    rw [filter_filter]
    exact filter_congr fun b _ => Bool.and_comm ..
  rw [hsplit, hsplit, h]

theorem trustedStatuses_congr (h : s'.filter (isTrusted toLowerCase root) =
      s.filter (isTrusted toLowerCase root)) :
    trustedStatuses toLowerCase root s' = trustedStatuses toLowerCase root s := by
  have hsplit : ∀ l, trustedStatuses toLowerCase root l =
      (l.filter (isTrusted toLowerCase root)).filter (refersTo root.id) := by
    intro l
    rw [filter_filter]
    exact filter_congr fun b _ => Bool.and_comm ..
  rw [hsplit, hsplit, h]

/-! ### Reviewers -/

def commentsOn (toLowerCase : JsString → JsString) (root : RelayEvent) (c : List RelayEvent) :
    List Comment :=
  (eventsForPullRequest root.id c).map (eventToPullRequestComment toLowerCase)

/-- **Who is asked for a review**: those named by the pull request, and those named by requests of the
author and the owner; never the author. -/
theorem mem_reviewersForPullRequest {comments : List Comment} {r : JsString} :
    r ∈ reviewersForPullRequest toLowerCase root comments ↔
      r ≠ toLowerCase root.pubkey ∧ (r ∈ (getAllTags root "p").map toLowerCase ∨
        ∃ comment ∈ comments, comment.isReviewRequest = true ∧
          toLowerCase comment.author ∈ allowedActorsForRoot toLowerCase root ∧
            r ∈ comment.reviewerPubkeys) := by
  have hfold : ∀ acc : List JsString, r ∈ comments.foldl (fun reviewers comment =>
      if comment.isReviewRequest &&
          (allowedActorsForRoot toLowerCase root).contains (toLowerCase comment.author) then
        comment.reviewerPubkeys.foldl pushNew reviewers
      else reviewers) acc ↔ r ∈ acc ∨ ∃ comment ∈ comments, comment.isReviewRequest = true ∧
        toLowerCase comment.author ∈ allowedActorsForRoot toLowerCase root ∧
          r ∈ comment.reviewerPubkeys := by
    induction comments with
    | nil => simp
    | cons comment comments ih =>
      intro acc
      rw [foldl_cons, ih]
      have hhead : r ∈ (if comment.isReviewRequest &&
          (allowedActorsForRoot toLowerCase root).contains (toLowerCase comment.author) then
            comment.reviewerPubkeys.foldl pushNew acc else acc) ↔
          r ∈ acc ∨ (comment.isReviewRequest = true ∧
            toLowerCase comment.author ∈ allowedActorsForRoot toLowerCase root ∧
              r ∈ comment.reviewerPubkeys) := by
        split
        · next h =>
          rw [Bool.and_eq_true, contains_iff_mem] at h
          simp [mem_foldl_pushNew, h.1, h.2]
        · next h =>
          rw [Bool.and_eq_true, contains_iff_mem] at h
          exact ⟨.inl, fun hor => hor.elim id fun hand => absurd ⟨hand.1, hand.2.1⟩ h⟩
      rw [hhead, exists_mem_cons_iff, or_assoc]
  rw [reviewersForPullRequest, mem_filter, hfold, mem_foldl_pushNew, decide_eq_true_eq]
  simp only [not_mem_nil, false_or]
  exact and_comm

variable {reviewers : List JsString}

/-- **Whose reviews count**: the reviewers, and the owner unless it is the author. -/
theorem mem_trustedReviewActors {a : JsString} :
    a ∈ trustedReviewActors toLowerCase root reviewers ↔ a ∈ reviewers ∨
      a ∈ allowedActorsForRoot toLowerCase root ∧ a ≠ toLowerCase root.pubkey := by
  simp [trustedReviewActors, mem_foldl_pushNew]

theorem author_not_mem_trustedReviewActors (comments : List Comment) :
    toLowerCase root.pubkey ∉ trustedReviewActors toLowerCase root
      (reviewersForPullRequest toLowerCase root comments) := by
  intro h
  rcases mem_trustedReviewActors.mp h with h | h
  · exact (mem_reviewersForPullRequest.mp h).1 rfl
  · exact h.2 rfl

theorem reviewers_filter (c : List RelayEvent) :
    reviewersForPullRequest toLowerCase root (commentsOn toLowerCase root c) =
      reviewersForPullRequest toLowerCase root
        (commentsOn toLowerCase root (c.filter (isTrusted toLowerCase root))) := by
  have hskip : ∀ (f : List JsString → Comment → List JsString),
      (∀ acc e, isTrusted toLowerCase root e = false →
        f acc (eventToPullRequestComment toLowerCase e) = acc) → ∀ (l : List RelayEvent) acc,
        (l.map (eventToPullRequestComment toLowerCase)).foldl f acc =
          ((l.filter (isTrusted toLowerCase root)).map
            (eventToPullRequestComment toLowerCase)).foldl f acc := by
    intro f hf l
    induction l with
    | nil => exact fun acc => rfl
    | cons b l ih =>
      intro acc
      rw [filter_cons]
      split
      · rw [map_cons, map_cons, foldl_cons, foldl_cons, ih]
      · next hb => rw [map_cons, foldl_cons, hf acc b (Bool.not_eq_true _ ▸ hb), ih]
  have hcomments : commentsOn toLowerCase root (c.filter (isTrusted toLowerCase root)) =
      ((eventsForPullRequest root.id c).filter (isTrusted toLowerCase root)).map
        (eventToPullRequestComment toLowerCase) := by
    rw [commentsOn, filter_eventsForPullRequest]
  rw [hcomments, commentsOn, reviewersForPullRequest, reviewersForPullRequest]
  refine congrArg (filter _) (hskip _ (fun acc e he => ?_) _ _)
  have hauthor : (allowedActorsForRoot toLowerCase root).contains
      (toLowerCase (eventToPullRequestComment toLowerCase e).author) = false := he
  rw [hauthor, Bool.and_false, if_neg Bool.false_ne_true]

/-- Does the author of the event count for reviews? -/
def isReviewActor (toLowerCase : JsString → JsString) (root : RelayEvent)
    (reviewers : List JsString) (event : RelayEvent) : Bool :=
  isTrusted toLowerCase root event || reviewers.contains (toLowerCase event.pubkey)

/-- **Comments of others name no reviewers.** -/
theorem reviewers_congr
    (h : c'.filter (isReviewActor toLowerCase root reviewers) =
      c.filter (isReviewActor toLowerCase root reviewers)) :
    reviewersForPullRequest toLowerCase root (commentsOn toLowerCase root c') =
      reviewersForPullRequest toLowerCase root (commentsOn toLowerCase root c) := by
  have hsplit : ∀ l : List RelayEvent, l.filter (isTrusted toLowerCase root) =
      (l.filter (isReviewActor toLowerCase root reviewers)).filter (isTrusted toLowerCase root) := by
    intro l
    rw [filter_filter]
    refine filter_congr fun b _ => ?_
    rw [isReviewActor]
    cases isTrusted toLowerCase root b <;> simp
  rw [reviewers_filter c', reviewers_filter c, hsplit c', hsplit c, h]

/-! ### Decisions -/

/-- The decisions on a commit that count. -/
def decisionsOn (toLowerCase : JsString → JsString) (localeCompare : JsString → JsString → Int)
    (root : RelayEvent) (c : List RelayEvent) (commit : Option JsString) : List Decision :=
  reviewDecisionsForPullRequest toLowerCase localeCompare (commentsOn toLowerCase root c)
    (trustedReviewActors toLowerCase root
      (reviewersForPullRequest toLowerCase root (commentsOn toLowerCase root c)))
    (getTag root "c") commit

variable {trusted : List JsString} {commit : Option JsString} {d : Decision}

theorem decisionOf_eq_some {initial : Option JsString} {comment : Comment}
    (h : decisionOf toLowerCase trusted initial commit comment = some d) :
    toLowerCase comment.author ∈ trusted ∧ comment.reviewDecision.isSome = true ∧
      commit.all isEmpty = false ∧ reviewDecisionCommit comment initial = commit ∧
        d = ⟨comment.id, comment.author, comment.createdAt, commit, comment.reviewDecision⟩ := by
  rw [decisionOf] at h
  split at h
  · nomatch h
  · next hdecides =>
    split at h
    · nomatch h
    · next htrusted =>
      rw [Bool.not_eq_true', Bool.not_eq_false, contains_iff_mem] at htrusted
      dsimp only at h
      split at h
      · nomatch h
      · next hcommit =>
        rw [ne_eq, not_not] at hcommit
        simp only [Bool.or_eq_true, Option.isNone_iff_eq_none, not_or, Bool.not_eq_true] at hdecides
        refine ⟨htrusted, Option.isSome_iff_ne_none.mpr hdecides.1, hdecides.2, hcommit, ?_⟩
        rw [← hcommit]
        exact (Option.some.inj h).symm

theorem filterMap_decisionOf_filter {initial : Option JsString} (l : List RelayEvent)
    (p : RelayEvent → Bool) (hp : ∀ e, toLowerCase e.pubkey ∈ trusted → p e = true) :
    (l.map (eventToPullRequestComment toLowerCase)).filterMap
        (decisionOf toLowerCase trusted initial commit) =
      ((l.filter p).map (eventToPullRequestComment toLowerCase)).filterMap
        (decisionOf toLowerCase trusted initial commit) := by
  induction l with
  | nil => rfl
  | cons b l ih =>
    rw [map_cons, filter_cons]
    split
    · rw [map_cons, filterMap_cons, filterMap_cons, ih]
    · next hb =>
      have hnone : decisionOf toLowerCase trusted initial commit
          (eventToPullRequestComment toLowerCase b) = none := by
        rw [Option.eq_none_iff_forall_ne_some]
        intro d hd
        exact hb (hp b (decisionOf_eq_some hd).1)
      rw [filterMap_cons_none hnone, ih]

/-- **Comments of others than the author, the owner and the reviewers** decide nothing. -/
theorem decisions_congr
    (h : c'.filter (isReviewActor toLowerCase root
        (reviewersForPullRequest toLowerCase root (commentsOn toLowerCase root c))) =
      c.filter (isReviewActor toLowerCase root
        (reviewersForPullRequest toLowerCase root (commentsOn toLowerCase root c)))) :
    decisionsOn toLowerCase localeCompare root c' commit =
      decisionsOn toLowerCase localeCompare root c commit := by
  have hreviewers := reviewers_congr h
  have hactors : ∀ e, toLowerCase e.pubkey ∈ trustedReviewActors toLowerCase root
      (reviewersForPullRequest toLowerCase root (commentsOn toLowerCase root c)) →
      isReviewActor toLowerCase root
        (reviewersForPullRequest toLowerCase root (commentsOn toLowerCase root c)) e = true := by
    intro e he
    rw [isReviewActor, isTrusted, Bool.or_eq_true, contains_iff_mem, contains_iff_mem]
    exact (mem_trustedReviewActors.mp he).symm.imp_left And.left
  rw [decisionsOn, decisionsOn, hreviewers]
  generalize htrusted : trustedReviewActors toLowerCase root
    (reviewersForPullRequest toLowerCase root (commentsOn toLowerCase root c)) = trusted at hactors ⊢
  have hfilter : ∀ l : List RelayEvent, (commentsOn toLowerCase root l).filterMap
      (decisionOf toLowerCase trusted (getTag root "c") commit) =
        ((eventsForPullRequest root.id (l.filter (isReviewActor toLowerCase root
          (reviewersForPullRequest toLowerCase root (commentsOn toLowerCase root c))))).map
            (eventToPullRequestComment toLowerCase)).filterMap
          (decisionOf toLowerCase trusted (getTag root "c") commit) := by
    intro l
    rw [← filter_eventsForPullRequest]
    exact filterMap_decisionOf_filter _ _ hactors
  rw [reviewDecisionsForPullRequest, reviewDecisionsForPullRequest, byAuthor, byAuthor, hfilter c',
    hfilter c, h]

/-- A review by which an event decides on the commit. -/
def Decides (toLowerCase : JsString → JsString) (root : RelayEvent) (trusted : List JsString)
    (commit : Option JsString) (c : List RelayEvent) (e : RelayEvent) (d : Decision) : Prop :=
  e ∈ c ∧ refersTo root.id e = true ∧
    decisionOf toLowerCase trusted (getTag root "c") commit (eventToPullRequestComment toLowerCase e) =
      some d

/-- Whose reviews count, given these comments. -/
def reviewActors (toLowerCase : JsString → JsString) (root : RelayEvent) (c : List RelayEvent) :
    List JsString :=
  trustedReviewActors toLowerCase root
    (reviewersForPullRequest toLowerCase root (commentsOn toLowerCase root c))

/-- All decisions on a commit that count, as the comments come. -/
def decisionsMade (toLowerCase : JsString → JsString) (root : RelayEvent) (c : List RelayEvent)
    (commit : Option JsString) : List Decision :=
  (commentsOn toLowerCase root c).filterMap
    (decisionOf toLowerCase (reviewActors toLowerCase root c) (getTag root "c") commit)

theorem decisionsOn_eq (commit : Option JsString) :
    decisionsOn toLowerCase localeCompare root c commit =
      (latestPerKey (fun d => toLowerCase d.author) Decision.rank
        (decisionsMade toLowerCase root c commit)).mergeSort
          fun left right => decide (left.compare localeCompare right ≤ 0) :=
  rfl

theorem mem_decisionsMade :
    d ∈ decisionsMade toLowerCase root c commit ↔
      ∃ e, Decides toLowerCase root (reviewActors toLowerCase root c) commit c e d := by
  rw [decisionsMade, mem_filterMap, commentsOn]
  constructor
  · rintro ⟨comment, hcomment, hd⟩
    obtain ⟨e, he, rfl⟩ := mem_map.mp hcomment
    exact ⟨e, (mem_eventsForPullRequest.mp he).1, (mem_eventsForPullRequest.mp he).2, hd⟩
  · rintro ⟨e, he, hrefers, hd⟩
    exact ⟨_, mem_map_of_mem (mem_eventsForPullRequest.mpr ⟨he, hrefers⟩), hd⟩

/-- A review that is the latest one of its author on the commit: of two in one second, the one with
the greater id. -/
structure LatestDecision (toLowerCase : JsString → JsString) (root : RelayEvent)
    (c : List RelayEvent) (commit : Option JsString) (d : Decision) : Prop where
  decides : ∃ e, Decides toLowerCase root (reviewActors toLowerCase root c) commit c e d
  current : d.commit = commit
  counts : toLowerCase d.author ∈ reviewActors toLowerCase root c
  latest : ∀ e b, Decides toLowerCase root (reviewActors toLowerCase root c) commit c e b →
    toLowerCase b.author = toLowerCase d.author → b.rank ≤ d.rank

/-- **What is listed** are latest reviews. -/
theorem latestDecision_of_mem (h : d ∈ decisionsOn toLowerCase localeCompare root c commit) :
    LatestDecision toLowerCase root c commit d := by
  rw [decisionsOn_eq, mem_mergeSort] at h
  have hkept := latest_latestPerKey (fun d : Decision => toLowerCase d.author) Decision.rank
    (decisionsMade toLowerCase root c commit)
  obtain ⟨e, he⟩ := mem_decisionsMade.mp (hkept.mem d h)
  obtain ⟨htrusted, -, -, -, rfl⟩ := decisionOf_eq_some he.2.2
  exact ⟨⟨e, he⟩, rfl, htrusted, fun e' b hb hkey =>
    hkept.le _ h b (mem_decisionsMade.mpr ⟨e', hb⟩) hkey⟩

/-! ### The order of comments -/

theorem mem_commentsOn_congr (h : SameEvents c c') (comment : Comment) :
    comment ∈ commentsOn toLowerCase root c ↔ comment ∈ commentsOn toLowerCase root c' := by
  simp [commentsOn, mem_eventsForPullRequest, h _]

theorem mem_reviewers_congr (h : SameEvents c c') (r : JsString) :
    r ∈ reviewersForPullRequest toLowerCase root (commentsOn toLowerCase root c) ↔
      r ∈ reviewersForPullRequest toLowerCase root (commentsOn toLowerCase root c') := by
  simp only [mem_reviewersForPullRequest, mem_commentsOn_congr h]

theorem mem_reviewActors_congr (h : SameEvents c c') (a : JsString) :
    a ∈ reviewActors toLowerCase root c ↔ a ∈ reviewActors toLowerCase root c' := by
  simp only [reviewActors, mem_trustedReviewActors, mem_reviewers_congr h]

theorem decisionOf_congr {trusted' : List JsString} (h : ∀ a, a ∈ trusted ↔ a ∈ trusted')
    (initial commit : Option JsString) :
    decisionOf toLowerCase trusted initial commit =
      decisionOf toLowerCase trusted' initial commit := by
  funext comment
  have hcontains : trusted.contains (toLowerCase comment.author) =
      trusted'.contains (toLowerCase comment.author) := by
    simp [h]
  rw [decisionOf, decisionOf, hcontains]

/-- What is relied on of the comparison of texts and of ids: it is an order, and it tells the ids of
different events apart. -/
structure Compares (localeCompare : JsString → JsString → Int) (c : List RelayEvent) : Prop where
  total : ∀ a b, localeCompare a b ≤ 0 ∨ localeCompare b a ≤ 0
  trans : ∀ a b d, localeCompare a b ≤ 0 → localeCompare b d ≤ 0 → localeCompare a d ≤ 0
  tells : ∀ e ∈ c, ∀ e' ∈ c, localeCompare e.id e'.id ≤ 0 → localeCompare e'.id e.id ≤ 0 →
    e.id = e'.id
  unique : ∀ e ∈ c, ∀ e' ∈ c, e.id = e'.id → e = e'

theorem Decision.compare_nonpos_iff {left right : Decision} :
    left.compare localeCompare right ≤ 0 ↔ left.createdAt < right.createdAt ∨
      left.createdAt = right.createdAt ∧ localeCompare left.id right.id ≤ 0 := by
  rw [Decision.compare]
  split <;> omega

theorem compare_trans (h : Compares localeCompare c) (a b d : Decision)
    (hab : decide (a.compare localeCompare b ≤ 0) = true)
    (hbd : decide (b.compare localeCompare d ≤ 0) = true) :
    decide (a.compare localeCompare d ≤ 0) = true := by
  rw [decide_eq_true_eq, Decision.compare_nonpos_iff] at *
  rcases hab with hab | ⟨hab, hids⟩
  · exact .inl (by omega)
  · rcases hbd with hbd | ⟨hbd, hids'⟩
    · exact .inl (by omega)
    · exact .inr ⟨hab.trans hbd, h.trans _ _ _ hids hids'⟩

theorem compare_total (h : Compares localeCompare c) (a b : Decision) :
    (decide (a.compare localeCompare b ≤ 0) || decide (b.compare localeCompare a ≤ 0)) = true := by
  rw [Bool.or_eq_true, decide_eq_true_eq, decide_eq_true_eq, Decision.compare_nonpos_iff,
    Decision.compare_nonpos_iff]
  rcases lt_trichotomy a.createdAt b.createdAt with hlt | heq | hgt
  · exact .inl (.inl hlt)
  · exact (h.total a.id b.id).imp (fun hids => .inr ⟨heq, hids⟩) fun hids => .inr ⟨heq.symm, hids⟩
  · exact .inr (.inl hgt)

theorem decides_inj (h : Compares localeCompare c) {b : Decision}
    (hd : Decides toLowerCase root trusted commit c e d)
    (hb : Decides toLowerCase root trusted commit c e' b) (hid : d.id = b.id) : d = b := by
  obtain ⟨-, -, -, -, rfl⟩ := decisionOf_eq_some hd.2.2
  obtain ⟨-, -, -, -, rfl⟩ := decisionOf_eq_some hb.2.2
  obtain rfl := h.unique e hd.1 e' hb.1 hid
  rfl

theorem rank_eq_iff {b : Decision} : d.rank = b.rank ↔ d.createdAt = b.createdAt ∧ d.id = b.id := by
  have hinj : Function.Injective UInt16.toNat := fun _ _ => UInt16.toNat_inj.mp
  simp [Decision.rank, (map_injective_iff.mpr hinj).eq_iff]

theorem mem_decisionsMade_congr (h : SameEvents c c') (commit : Option JsString) (d : Decision) :
    d ∈ decisionsMade toLowerCase root c commit ↔ d ∈ decisionsMade toLowerCase root c' commit := by
  simp [decisionsMade, decisionOf_congr (mem_reviewActors_congr h), mem_commentsOn_congr h]

theorem compare_antisymm (h : Compares localeCompare c) {b : Decision}
    (hd : d ∈ decisionsMade toLowerCase root c commit)
    (hb : b ∈ decisionsMade toLowerCase root c commit) (hdb : d.compare localeCompare b ≤ 0)
    (hbd : b.compare localeCompare d ≤ 0) : d = b := by
  obtain ⟨e, he⟩ := mem_decisionsMade.mp hd
  obtain ⟨e', he'⟩ := mem_decisionsMade.mp hb
  have hdid : d.id = e.id := by
    obtain ⟨-, -, -, -, rfl⟩ := decisionOf_eq_some he.2.2
    rfl
  have hbid : b.id = e'.id := by
    obtain ⟨-, -, -, -, rfl⟩ := decisionOf_eq_some he'.2.2
    rfl
  rw [Decision.compare_nonpos_iff] at hdb hbd
  refine decides_inj h he he' ?_
  rw [hdid, hbid] at hdb hbd ⊢
  exact h.tells e he.1 e' he'.1 (hdb.resolve_left fun hlt => by omega).2
    (hbd.resolve_left fun hlt => by omega).2

/-- **The order of comments** does not matter, and neither does their number. -/
theorem decisions_eq_of_sameEvents (hcompares : Compares localeCompare c) (h : SameEvents c c')
    (commit : Option JsString) :
    decisionsOn toLowerCase localeCompare root c' commit =
      decisionsOn toLowerCase localeCompare root c commit := by
  have hmem : ∀ d, d ∈ decisionsMade toLowerCase root c commit ↔
      d ∈ decisionsMade toLowerCase root c' commit := mem_decisionsMade_congr h commit
  have hranks : ∀ d ∈ decisionsMade toLowerCase root c commit,
      ∀ b ∈ decisionsMade toLowerCase root c commit, toLowerCase d.author = toLowerCase b.author →
        d.rank = b.rank → d = b := by
    intro d hd b hb _ hrank
    obtain ⟨e, he⟩ := mem_decisionsMade.mp hd
    obtain ⟨e', he'⟩ := mem_decisionsMade.mp hb
    exact decides_inj hcompares he he' (rank_eq_iff.mp hrank).2
  have hkept : ∀ d, d ∈ latestPerKey (fun d => toLowerCase d.author) Decision.rank
        (decisionsMade toLowerCase root c commit) ↔
      d ∈ latestPerKey (fun d => toLowerCase d.author) Decision.rank
        (decisionsMade toLowerCase root c' commit) := by
    intro d
    rw [mem_latestPerKey_iff hranks, mem_latestPerKey_iff fun d hd b hb =>
      hranks d ((hmem d).mpr hd) b ((hmem b).mpr hb)]
    simp only [hmem]
  rw [decisionsOn_eq, decisionsOn_eq]
  refine (mergeSort_eq_of_mem_iff (compare_trans hcompares) (compare_total hcompares)
    (nodup_latestPerKey _) (nodup_latestPerKey _) hkept fun d hd b hb hdb hbd => ?_).symm
  rw [mem_latestPerKey_iff hranks] at hd hb
  rw [decide_eq_true_eq] at hdb hbd
  exact compare_antisymm hcompares hd.1 hb.1 hdb hbd

/-! ### The view -/

theorem view_commit : (eventToProjectPullRequest toLowerCase localeCompare root u c s).commit =
    getTag ((latestUpdateForPullRequest toLowerCase root u).getD root) "c" :=
  rfl

theorem view_cloneUrls :
    (eventToProjectPullRequest toLowerCase localeCompare root u c s).cloneUrls =
      getCloneUrls ((latestUpdateForPullRequest toLowerCase root u).getD root) :=
  rfl

theorem view_status : (eventToProjectPullRequest toLowerCase localeCompare root u c s).status =
    statusFromEvent toLowerCase root (latestStatusForPullRequest toLowerCase root s) :=
  rfl

theorem view_reviewers :
    (eventToProjectPullRequest toLowerCase localeCompare root u c s).reviewers =
      reviewersForPullRequest toLowerCase root (commentsOn toLowerCase root c) :=
  rfl

theorem map_toComment (trusted : List JsString) (initial commit : Option JsString)
    (comments : List Comment) :
    (comments.map (viewComment toLowerCase root trusted initial commit)).map
      CommentView.toComment = comments := by
  rw [map_map]
  exact (map_congr_left fun comment _ => rfl).trans (map_id comments)

theorem view_approvals :
    (eventToProjectPullRequest toLowerCase localeCompare root u c s).approvals =
      (decisionsOn toLowerCase localeCompare root c
        (eventToProjectPullRequest toLowerCase localeCompare root u c s).commit).filter
          fun d => d.reviewDecision == some .approved := by
  rw [decisionsOn, eventToProjectPullRequest]
  rw [map_toComment]
  rfl

theorem view_changeRequests :
    (eventToProjectPullRequest toLowerCase localeCompare root u c s).changeRequests =
      (decisionsOn toLowerCase localeCompare root c
        (eventToProjectPullRequest toLowerCase localeCompare root u c s).commit).filter
          fun d => d.reviewDecision == some .changesRequested := by
  rw [decisionsOn, eventToProjectPullRequest]
  rw [map_toComment]
  rfl

/-- What two views have in common, for those who look at the reviews and at the state. -/
structure SameView (v v' : ProjectPullRequest) : Prop where
  status : v'.status = v.status
  commit : v'.commit = v.commit
  cloneUrls : v'.cloneUrls = v.cloneUrls
  reviewers : ∀ r, r ∈ v'.reviewers ↔ r ∈ v.reviewers
  approvals : v'.approvals = v.approvals
  changeRequests : v'.changeRequests = v.changeRequests

/-- **No two newest events disagree**: not the updates of the last second about the commit and the
URLs, and not the status events of the last second about the status. -/
structure TiesAgree (toLowerCase : JsString → JsString) (root : RelayEvent)
    (u s : List RelayEvent) : Prop where
  updates : ∀ a b, IsFirst newestFirst (trustedUpdatesForPullRequest toLowerCase root u) a →
    IsFirst newestFirst (trustedUpdatesForPullRequest toLowerCase root u) b →
      (getTag a "c", getCloneUrls a) = (getTag b "c", getCloneUrls b)
  statuses : ∀ a b, IsFirst newestFirst (trustedStatuses toLowerCase root s) a →
    IsFirst newestFirst (trustedStatuses toLowerCase root s) b →
      statusFromEvent toLowerCase root (some a) = statusFromEvent toLowerCase root (some b)

theorem latestUpdate_cons
    (h : IsFirst newestFirst (trustedUpdatesForPullRequest toLowerCase root u) e) :
    latestUpdateForPullRequest toLowerCase root (e :: u) = some e := by
  have htrusted := (mem_filter.mp h.1).2
  rw [latestUpdateForPullRequest, trustedUpdatesForPullRequest, filter_cons, if_pos htrusted]
  exact head?_mergeSort_cons newestFirst_trans newestFirst_total h.2

theorem latestStatus_cons (h : IsFirst newestFirst (trustedStatuses toLowerCase root s) e) :
    latestStatusForPullRequest toLowerCase root (e :: s) = some e := by
  have htrusted := (mem_filter.mp h.1).2
  rw [latestStatusForPullRequest, trustedStatuses, filter_cons, if_pos htrusted]
  exact head?_mergeSort_cons newestFirst_trans newestFirst_total h.2

theorem latestUpdate_congr (hties : TiesAgree toLowerCase root u s) (h : SameEvents u u') :
    (latestUpdateForPullRequest toLowerCase root u').map (fun a => (getTag a "c", getCloneUrls a)) =
      (latestUpdateForPullRequest toLowerCase root u).map
        fun a => (getTag a "c", getCloneUrls a) :=
  (map_head?_mergeSort_iff newestFirst_trans newestFirst_total _ _).mpr hties.updates _ (h.filter _)

theorem latestStatus_congr (hties : TiesAgree toLowerCase root u s) (h : SameEvents s s') :
    (latestStatusForPullRequest toLowerCase root s').map
        (fun a => statusFromEvent toLowerCase root (some a)) =
      (latestStatusForPullRequest toLowerCase root s).map
        fun a => statusFromEvent toLowerCase root (some a) :=
  (map_head?_mergeSort_iff newestFirst_trans newestFirst_total _ _).mpr hties.statuses _ (h.filter _)

/-- **Where the newest events agree**, the order of events does not matter. -/
theorem sameView_of_tiesAgree (hcompares : Compares localeCompare c)
    (hties : TiesAgree toLowerCase root u s) (hu : SameEvents u u') (hc : SameEvents c c')
    (hs : SameEvents s s') :
    SameView (eventToProjectPullRequest toLowerCase localeCompare root u c s)
      (eventToProjectPullRequest toLowerCase localeCompare root u' c' s') := by
  have hlatest : ∀ latest latest' : Option RelayEvent,
      latest'.map (fun a => (getTag a "c", getCloneUrls a)) =
        latest.map (fun a => (getTag a "c", getCloneUrls a)) →
      (getTag (latest'.getD root) "c", getCloneUrls (latest'.getD root)) =
        (getTag (latest.getD root) "c", getCloneUrls (latest.getD root)) := by
    intro latest latest' hmap
    have hgetD := congrArg (fun o => o.getD (getTag root "c", getCloneUrls root)) hmap
    simpa only [Option.getD_map] using hgetD
  have hupdate := Prod.mk.inj (hlatest _ _ (latestUpdate_congr hties hu))
  have hstatus : ∀ o : Option RelayEvent, statusFromEvent toLowerCase root o =
      (o.map fun a => statusFromEvent toLowerCase root (some a)).getD
        (statusFromEvent toLowerCase root none) := by
    rintro (_ | a) <;> rfl
  have hcommit : (eventToProjectPullRequest toLowerCase localeCompare root u' c' s').commit =
      (eventToProjectPullRequest toLowerCase localeCompare root u c s).commit := hupdate.1
  refine ⟨?_, hcommit, hupdate.2, fun r => (mem_reviewers_congr hc r).symm, ?_, ?_⟩
  · rw [view_status, view_status, hstatus, latestStatus_congr hties hs, ← hstatus]
  · rw [view_approvals, view_approvals, hcommit, decisions_eq_of_sameEvents hcompares hc]
  · rw [view_changeRequests, view_changeRequests, hcommit, decisions_eq_of_sameEvents hcompares hc]

theorem tiesAgree_of_sameView
    (h : ∀ u' c' s', SameEvents u u' → SameEvents c c' → SameEvents s s' →
      SameView (eventToProjectPullRequest toLowerCase localeCompare root u c s)
        (eventToProjectPullRequest toLowerCase localeCompare root u' c' s')) :
    TiesAgree toLowerCase root u s := by
  have hupdate : ∀ a, IsFirst newestFirst (trustedUpdatesForPullRequest toLowerCase root u) a →
      (getTag a "c", getCloneUrls a) =
        ((eventToProjectPullRequest toLowerCase localeCompare root u c s).commit,
          (eventToProjectPullRequest toLowerCase localeCompare root u c s).cloneUrls) := by
    intro a ha
    have hsame := h (a :: u) c s (sameEvents_cons (mem_filter.mp ha.1).1)
      (fun _ => Iff.rfl) fun _ => Iff.rfl
    simp [← hsame.commit, ← hsame.cloneUrls, view_commit, view_cloneUrls, latestUpdate_cons ha]
  have hstatus : ∀ a, IsFirst newestFirst (trustedStatuses toLowerCase root s) a →
      statusFromEvent toLowerCase root (some a) =
        (eventToProjectPullRequest toLowerCase localeCompare root u c s).status := by
    intro a ha
    have hsame := h u c (a :: s) (fun _ => Iff.rfl) (fun _ => Iff.rfl)
      (sameEvents_cons (mem_filter.mp ha.1).1)
    rw [← hsame.status, view_status, latestStatus_cons ha]
  exact ⟨fun a b ha hb => (hupdate a ha).trans (hupdate b hb).symm,
    fun a b ha hb => (hstatus a ha).trans (hstatus b hb).symm⟩

/-- **What a view depends on.** Events of strangers do not change it; comments of those who were not
asked change no review. What is listed are latest reviews, and none of the author. The order of events
and their number do not matter exactly if the newest updates and the newest status events agree. -/
theorem view_exact (toLowerCase : JsString → JsString)
    (localeCompare : JsString → JsString → Int) (root : RelayEvent) (u c s : List RelayEvent) :
    (∀ u' c' s', u'.filter (isTrusted toLowerCase root) = u.filter (isTrusted toLowerCase root) →
      s'.filter (isTrusted toLowerCase root) = s.filter (isTrusted toLowerCase root) →
      let v := eventToProjectPullRequest toLowerCase localeCompare root u c s
      let v' := eventToProjectPullRequest toLowerCase localeCompare root u' c' s'
      v'.status = v.status ∧ v'.commit = v.commit ∧ v'.cloneUrls = v.cloneUrls ∧
        v'.updates = v.updates ∧
        (c'.filter (isReviewActor toLowerCase root v.reviewers) =
            c.filter (isReviewActor toLowerCase root v.reviewers) →
          v'.reviewers = v.reviewers ∧ v'.approvals = v.approvals ∧
            v'.changeRequests = v.changeRequests)) ∧
    (∀ d, d ∈ (eventToProjectPullRequest toLowerCase localeCompare root u c s).approvals ++
        (eventToProjectPullRequest toLowerCase localeCompare root u c s).changeRequests →
      toLowerCase d.author ≠ toLowerCase root.pubkey ∧ LatestDecision toLowerCase root c
        (eventToProjectPullRequest toLowerCase localeCompare root u c s).commit d) ∧
    (Compares localeCompare c →
      ((∀ u' c' s', SameEvents u u' → SameEvents c c' → SameEvents s s' →
        SameView (eventToProjectPullRequest toLowerCase localeCompare root u c s)
          (eventToProjectPullRequest toLowerCase localeCompare root u' c' s')) ↔
        TiesAgree toLowerCase root u s)) := by
  refine ⟨fun u' c' s' hu hs => ?_, fun d hd => ?_, fun hcompares => ⟨tiesAgree_of_sameView,
    fun hties u' c' s' => sameView_of_tiesAgree hcompares hties⟩⟩
  · have hupdates := trustedUpdates_congr hu
    have hlatest : latestUpdateForPullRequest toLowerCase root u' =
        latestUpdateForPullRequest toLowerCase root u := by
      rw [latestUpdateForPullRequest, latestUpdateForPullRequest, hupdates]
    have hcommit : (eventToProjectPullRequest toLowerCase localeCompare root u' c' s').commit =
        (eventToProjectPullRequest toLowerCase localeCompare root u c s).commit := by
      rw [view_commit, view_commit, hlatest]
    refine ⟨?_, hcommit, ?_, ?_, fun hc => ⟨?_, ?_, ?_⟩⟩
    · rw [view_status, view_status, latestStatusForPullRequest, latestStatusForPullRequest,
        trustedStatuses_congr hs]
    · rw [view_cloneUrls, view_cloneUrls, hlatest]
    · show (eventsForPullRequest root.id (trustedUpdatesForPullRequest toLowerCase root u')).map
        eventToPullRequestUpdate = (eventsForPullRequest root.id
          (trustedUpdatesForPullRequest toLowerCase root u)).map eventToPullRequestUpdate
      rw [hupdates]
    · rw [view_reviewers, view_reviewers, reviewers_congr hc]
    · rw [view_approvals, view_approvals, hcommit, decisions_congr hc]
    · rw [view_changeRequests, view_changeRequests, hcommit, decisions_congr hc]
  · have hlisted : d ∈ decisionsOn toLowerCase localeCompare root c
        (eventToProjectPullRequest toLowerCase localeCompare root u c s).commit := by
      rw [view_approvals, view_changeRequests, mem_append] at hd
      exact hd.elim (fun hd => (mem_filter.mp hd).1) fun hd => (mem_filter.mp hd).1
    have hlatest := latestDecision_of_mem hlisted
    refine ⟨fun hauthor => ?_, hlatest⟩
    exact author_not_mem_trustedReviewActors _ (hauthor ▸ hlatest.counts)

/-! ### An example -/

/-- Texts in the order of their units. -/
def unitCompare (a b : JsString) : Int :=
  if a.map UInt16.toNat = b.map UInt16.toNat then 0
  else if a.map UInt16.toNat < b.map UInt16.toNat then -1
  else 1

theorem unitCompare_nonpos_iff {a b : JsString} :
    unitCompare a b ≤ 0 ↔ a.map UInt16.toNat ≤ b.map UInt16.toNat := by
  rw [unitCompare]
  split_ifs with heq hlt
  · exact iff_of_true le_rfl heq.le
  · exact iff_of_true (by decide) hlt.le
  · exact iff_of_false (by decide) fun hle => hlt (lt_of_le_of_ne hle heq)

theorem compares_unitCompare (hunique : ∀ e ∈ c, ∀ e' ∈ c, e.id = e'.id → e = e') :
    Compares unitCompare c where
  total a b := by
    rw [unitCompare_nonpos_iff, unitCompare_nonpos_iff]
    exact le_total _ _
  trans a b d := by
    rw [unitCompare_nonpos_iff, unitCompare_nonpos_iff, unitCompare_nonpos_iff]
    exact le_trans
  tells e _ e' _ hle hge := by
    rw [unitCompare_nonpos_iff] at hle hge
    exact map_injective_iff.mpr (fun _ _ => UInt16.toNat_inj.mp) (le_antisymm hle hge)
  unique := hunique

/-- A pull request that asks one for a review. -/
def exampleRoot : RelayEvent :=
  ⟨.ofAscii "r", .ofAscii "author", 10, 1618, [[.ofAscii "p", .ofAscii "reviewer"],
    [.ofAscii "c", .ofAscii "tip"]], []⟩

def exampleStatus (id : String) (kind : Nat) : RelayEvent :=
  ⟨.ofAscii id, .ofAscii "author", 20, kind, [[.ofAscii "e", .ofAscii "r"]], []⟩

/-- A review of the second 15. -/
def exampleReview (id author label : String) : RelayEvent :=
  ⟨.ofAscii id, .ofAscii author, 15, 1, [[.ofAscii "e", .ofAscii "r"],
    [.ofAscii "t", .ofAscii label]], []⟩

/-- Two reviews of the reviewer. -/
def exampleReviews : List RelayEvent :=
  [exampleReview "a" "reviewer" "approval", exampleReview "b" "reviewer" "changes-requested"]

/-- The same reviews, in another order and one of them twice. -/
def shuffledReviews : List RelayEvent :=
  [exampleReview "b" "reviewer" "changes-requested", exampleReview "a" "reviewer" "approval",
    exampleReview "b" "reviewer" "changes-requested"]

def strangersStatus : RelayEvent :=
  { exampleStatus "x" 1632 with pubkey := .ofAscii "stranger" }

def exampleView (c s : List RelayEvent) : ProjectPullRequest :=
  eventToProjectPullRequest id unitCompare exampleRoot [] c s

theorem exampleView_reviewers (s : List RelayEvent) :
    (exampleView exampleReviews s).reviewers = [.ofAscii "reviewer"] := by
  have hnone : exampleReviews.filter (isTrusted id exampleRoot) = [] := by decide
  rw [exampleView, view_reviewers, reviewers_filter, hnone, commentsOn, eventsForPullRequest,
    filter_nil, mergeSort_nil]
  decide

/-- Two reviews of one second count in any order and number. A review and a status event of a
stranger change nothing. -/
theorem view_exact_example :
    SameView (exampleView exampleReviews [exampleStatus "m" 1631])
        (exampleView shuffledReviews [exampleStatus "m" 1631, exampleStatus "m" 1631]) ∧
      let v := exampleView exampleReviews [exampleStatus "m" 1631]
      let v' := exampleView (exampleReview "c" "stranger" "approval" :: exampleReviews)
        [strangersStatus, exampleStatus "m" 1631]
      v'.status = v.status ∧ v'.approvals = v.approvals ∧ v'.changeRequests = v.changeRequests := by
  have hunique : ∀ e ∈ exampleReviews, ∀ e' ∈ exampleReviews, e.id = e'.id → e = e' := by
    simp [exampleReviews, exampleReview, JsString.ofAscii]
  obtain ⟨hothers, -, horder⟩ := view_exact id unitCompare exampleRoot [] exampleReviews
    [exampleStatus "m" 1631]
  refine ⟨(horder (compares_unitCompare hunique)).mpr ⟨?_, ?_⟩ _ _ _ (fun _ => Iff.rfl)
    (fun e => ?_) (sameEvents_cons mem_cons_self), ?_⟩
  · intro a b ha
    cases ha.1
  · intro a b ha hb
    have hone := mem_singleton.mp (mem_filter.mp ha.1).1
    rw [hone, ← mem_singleton.mp (mem_filter.mp hb.1).1]
  · simp [exampleReviews, shuffledReviews]
    tauto
  · obtain ⟨hstatus, -, -, -, hreviews⟩ := hothers [] (exampleReview "c" "stranger" "approval" ::
      exampleReviews) [strangersStatus, exampleStatus "m" 1631] rfl rfl
    have hreviewers := exampleView_reviewers [exampleStatus "m" 1631]
    rw [exampleView] at hreviewers
    rw [hreviewers] at hreviews
    exact ⟨hstatus, (hreviews rfl).2⟩

/-- **Two status events of one second**: the pull request is merged or closed, as they arrive. -/
theorem two_statuses :
    (exampleStatus "m" 1631).createdAt = (exampleStatus "x" 1632).createdAt ∧
      SameEvents [exampleStatus "m" 1631, exampleStatus "x" 1632]
        [exampleStatus "x" 1632, exampleStatus "m" 1631] ∧
      (eventToProjectPullRequest id unitCompare exampleRoot [] []
        [exampleStatus "m" 1631, exampleStatus "x" 1632]).status = .merged ∧
      (eventToProjectPullRequest id unitCompare exampleRoot [] []
        [exampleStatus "x" 1632, exampleStatus "m" 1631]).status = .closed := by
  have hfirst : ∀ a ∈ [exampleStatus "m" 1631, exampleStatus "x" 1632],
      ∀ b ∈ [exampleStatus "m" 1631, exampleStatus "x" 1632],
        latestStatusForPullRequest id exampleRoot [a, b] = some a := by
    intro a ha b hb
    have hall : ∀ e ∈ [exampleStatus "m" 1631, exampleStatus "x" 1632],
        (isTrusted id exampleRoot e && refersTo exampleRoot.id e) = true ∧ e.createdAt = 20 := by
      decide
    rw [latestStatusForPullRequest, trustedStatuses, filter_cons, if_pos (hall a ha).1,
      filter_cons, if_pos (hall b hb).1, filter_nil]
    refine head?_mergeSort_cons newestFirst_trans newestFirst_total fun e he => ?_
    rw [mem_singleton.mp he, newestFirst, decide_eq_true_eq, (hall a ha).2, (hall b hb).2]
  have hm : exampleStatus "m" 1631 ∈ [exampleStatus "m" 1631, exampleStatus "x" 1632] :=
    mem_cons_self
  have hx : exampleStatus "x" 1632 ∈ [exampleStatus "m" 1631, exampleStatus "x" 1632] :=
    mem_cons_of_mem _ mem_cons_self
  refine ⟨rfl, fun e => ?_, ?_, ?_⟩
  · simpa [not_mem_nil, or_false] using or_comm
  · rw [view_status, hfirst _ hm _ hx]
    rfl
  · rw [view_status, hfirst _ hx _ hm]
    rfl

end Buzz.PullRequests
