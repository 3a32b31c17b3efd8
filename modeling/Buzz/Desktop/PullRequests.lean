import Buzz.Lib.OrderedSet
import Buzz.Lib.JsString
import Buzz.Lib.KeyMap
import Buzz.Lib.Sorting
import Mathlib.Algebra.Order.Ring.Int
import Mathlib.Data.List.Lex
import Mathlib.Data.Prod.Lex

/-!
# Pull requests of a project

The view of a pull request is computed from its root event and from lists of updates, comments and
status events, which come from relays in any order. Updates and status events count when their author
is that of the pull request or the owner of its repository; a review counts when its author was asked
for it by one of these two, or is the owner.

Timestamps are whole seconds, so events may have the same one. Sorting is stable.

`toLowerCase` and `localeCompare` are those of JavaScript, parameters here.
-/

namespace Buzz.PullRequests

structure RelayEvent where
  id : JsString
  pubkey : JsString
  createdAt : Int
  kind : Nat
  tags : List (List JsString)
  content : JsString

/-! ### Tags -/

def getTag (event : RelayEvent) (name : String) : Option JsString :=
  ((event.tags.find? fun tag => tag[0]? == some (.ofAscii name)).bind fun tag => tag[1]?).filter
    fun value => !value.isEmpty

def getAllTags (event : RelayEvent) (name : String) : List JsString :=
  (event.tags.filter fun tag => tag[0]? == some (.ofAscii name)).filterMap fun tag =>
    tag[1]?.filter fun value => !value.isEmpty

def getImetaTags (event : RelayEvent) : List (List JsString) :=
  event.tags.filter fun tag => tag[0]? == some (.ofAscii "imeta")

def getCloneUrls (event : RelayEvent) : List JsString :=
  ((event.tags.filter fun tag => tag[0]? == some (.ofAscii "clone")).flatMap fun tag =>
    tag.drop 1).filter fun url => !url.isEmpty

def refersTo (id : JsString) (event : RelayEvent) : Bool :=
  event.tags.any fun tag =>
    (tag[0]? == some (.ofAscii "e") || tag[0]? == some (.ofAscii "E")) && tag[1]? == some id

/-! ### Who may change a pull request -/

/-- `[a-fA-F0-9]`. -/
def isHexUnit (u : UInt16) : Bool :=
  (48 ≤ u && u ≤ 57) || (65 ≤ u && u ≤ 70) || (97 ≤ u && u ≤ 102)

section

variable (toLowerCase : JsString → JsString)

def repoOwnerFromAddress (repoAddress : Option JsString) : Option JsString :=
  let owner := ((repoAddress.getD []).splitOn 58)[1]?.getD []
  if owner.length = 64 && owner.all isHexUnit then some (toLowerCase owner) else none

def allowedActorsForRoot (root : RelayEvent) : List JsString :=
  let allowed := [toLowerCase root.pubkey]
  (repoOwnerFromAddress toLowerCase (getTag root "a")).elim allowed fun owner =>
    pushNew allowed owner

/-- Is the author of the event one of them? -/
def isTrusted (root event : RelayEvent) : Bool :=
  (allowedActorsForRoot toLowerCase root).contains (toLowerCase event.pubkey)

/-! ### What is the newest -/

/-- `right.created_at - left.created_at`. -/
def newestFirst (left right : RelayEvent) : Bool := decide (right.createdAt ≤ left.createdAt)

/-- `left.created_at - right.created_at`. -/
def oldestFirst (left right : RelayEvent) : Bool := decide (left.createdAt ≤ right.createdAt)

def trustedUpdatesForPullRequest (root : RelayEvent) (updateEvents : List RelayEvent) :
    List RelayEvent :=
  updateEvents.filter fun event => isTrusted toLowerCase root event && getTag event "E" == some root.id

def latestUpdateForPullRequest (root : RelayEvent) (updateEvents : List RelayEvent) :
    Option RelayEvent :=
  ((trustedUpdatesForPullRequest toLowerCase root updateEvents).mergeSort newestFirst).head?

def trustedStatuses (root : RelayEvent) (statusEvents : List RelayEvent) : List RelayEvent :=
  statusEvents.filter fun event => isTrusted toLowerCase root event && refersTo root.id event

def latestStatusForPullRequest (root : RelayEvent) (statusEvents : List RelayEvent) :
    Option RelayEvent :=
  ((trustedStatuses toLowerCase root statusEvents).mergeSort newestFirst).head?

def eventsForPullRequest (id : JsString) (events : List RelayEvent) : List RelayEvent :=
  (events.filter (refersTo id)).mergeSort oldestFirst

inductive Status where
  | opened
  | merged
  | closed
  | draft

def statusFromEvent (root : RelayEvent) (statusEvent : Option RelayEvent) : Status :=
  match statusEvent.map RelayEvent.kind with
  | some 1630 => .opened
  | some 1631 => .merged
  | some 1632 => .closed
  | some 1633 => .draft
  | _ =>
    if ((getAllTags root "t").map toLowerCase).contains (.ofAscii "draft") then .draft else .opened

/-! ### Updates and comments -/

structure PullRequestUpdate where
  id : JsString
  content : JsString
  tags : List (List JsString)
  author : JsString
  createdAt : Int
  commit : Option JsString
  cloneUrls : List JsString

def eventToPullRequestUpdate (event : RelayEvent) : PullRequestUpdate :=
  ⟨event.id, event.content, getImetaTags event, event.pubkey, event.createdAt, getTag event "c",
    getCloneUrls event⟩

/-- A line of a file, before or after the change. -/
structure Anchor where
  line : Nat
  path : JsString
  side : JsString

/-- `Number.MAX_SAFE_INTEGER`. -/
def maxSafeInteger : Nat := 9007199254740991

/-- `normalizeProjectPullRequestCommentAnchor`. A line that is no number is `none`. -/
def normalizeAnchor (line : Option Nat) (path side : Option JsString) : Option Anchor := do
  let path ← path
  if path.length = 0 || decide (4096 < path.length) || path.head? == some 47 || path.contains 92 ||
      path.contains 0 || (path.splitOn 47).any fun segment =>
        segment.isEmpty || segment == JsString.ofAscii "." || segment == JsString.ofAscii ".."
  then none
  else
    let side ← side
    if side ≠ .ofAscii "old" ∧ side ≠ .ofAscii "new" then none
    else
      let line ← line
      if maxSafeInteger < line ∨ line < 1 then none else some ⟨line, path, side⟩

/-- `\d`. -/
def isDigitUnit (u : UInt16) : Bool := 48 ≤ u && u ≤ 57

/-- The number of a `line` tag: `/^[1-9]\d*$/`. -/
def parsedLine (lineTag : Option JsString) : Option Nat :=
  lineTag.bind fun text =>
    if text.head?.any (fun u => 49 ≤ u && u ≤ 57) && text.all isDigitUnit then
      some (text.foldl (fun n u => n * 10 + (u.toNat - 48)) 0)
    else none

inductive ReviewDecision where
  | approved
  | changesRequested
  deriving DecidableEq

structure Comment where
  id : JsString
  content : JsString
  tags : List (List JsString)
  author : JsString
  createdAt : Int
  commit : Option JsString
  anchor : Option Anchor
  isInlineComment : Bool
  isApproval : Bool
  isChangeRequest : Bool
  isReviewRequest : Bool
  reviewDecision : Option ReviewDecision
  reviewerPubkeys : List JsString

def eventToPullRequestComment (event : RelayEvent) : Comment :=
  let labels := (getAllTags event "t").map toLowerCase
  let isReviewRequest := labels.contains (.ofAscii "review-request")
  let isApproval := labels.contains (.ofAscii "approval")
  let isChangeRequest := labels.contains (.ofAscii "changes-requested")
  let anchor := if isReviewRequest || isApproval then none
    else normalizeAnchor (parsedLine (getTag event "line")) (getTag event "file") (getTag event "side")
  { id := event.id
    content := event.content
    tags := getImetaTags event
    author := event.pubkey
    createdAt := event.createdAt
    commit := getTag event "c"
    anchor
    isInlineComment := anchor.isSome || labels.contains (.ofAscii "inline-comment")
    isApproval
    isChangeRequest
    isReviewRequest
    reviewDecision := if isApproval = isChangeRequest then none
      else if isApproval then some .approved else some .changesRequested
    reviewerPubkeys := if isReviewRequest then (getAllTags event "p").map toLowerCase else [] }

/-! ### Reviews -/

/-- `reviewersForPullRequest`: a set, in the order of insertion. -/
def reviewersForPullRequest (root : RelayEvent) (comments : List Comment) : List JsString :=
  let reviewers := ((getAllTags root "p").map toLowerCase).foldl pushNew []
  let reviewers := comments.foldl (fun reviewers comment =>
    if comment.isReviewRequest &&
        (allowedActorsForRoot toLowerCase root).contains (toLowerCase comment.author) then
      comment.reviewerPubkeys.foldl pushNew reviewers
    else reviewers) reviewers
  reviewers.filter fun reviewer => reviewer ≠ toLowerCase root.pubkey

def trustedReviewActors (root : RelayEvent) (reviewers : List JsString) : List JsString :=
  ((allowedActorsForRoot toLowerCase root).filter fun actor => actor ≠ toLowerCase root.pubkey).foldl
    pushNew reviewers

/-- What is read of a comment to find the decisions. -/
structure Decision where
  id : JsString
  author : JsString
  createdAt : Int
  commit : Option JsString
  reviewDecision : Option ReviewDecision

def reviewDecisionCommit (comment : Comment) (initialCommit : Option JsString) : Option JsString :=
  comment.commit.orElse fun _ => initialCommit

/-- The decision of a comment, unless the loop goes on with the next one. -/
def decisionOf (trustedActors : List JsString) (initialCommit currentCommit : Option JsString)
    (comment : Comment) : Option Decision :=
  if comment.reviewDecision.isNone || currentCommit.all List.isEmpty then none
  else if !trustedActors.contains (toLowerCase comment.author) then none
  else
    let commit := reviewDecisionCommit comment initialCommit
    if commit ≠ currentCommit then none
    else some ⟨comment.id, comment.author, comment.createdAt, commit, comment.reviewDecision⟩

/-- What is compared of two decisions: the time, and then the units of the id. -/
def Decision.rank (d : Decision) : ℤ ×ₗ List ℕ := toLex (d.createdAt, d.id.map UInt16.toNat)

/-- `left.createdAt - right.createdAt || left.id.localeCompare(right.id)`. -/
def Decision.compare (localeCompare : JsString → JsString → Int) (left right : Decision) : Int :=
  if left.createdAt - right.createdAt ≠ 0 then left.createdAt - right.createdAt
  else localeCompare left.id right.id

/-- `byAuthor`, after the loop. -/
def byAuthor (trustedActors : List JsString) (initialCommit currentCommit : Option JsString)
    (comments : List Comment) : List Decision :=
  latestPerKey (fun d => toLowerCase d.author) Decision.rank
    (comments.filterMap (decisionOf toLowerCase trustedActors initialCommit currentCommit))

/-- `reviewDecisionsForPullRequest`, before approvals and change requests are told apart. -/
def reviewDecisionsForPullRequest (localeCompare : JsString → JsString → Int)
    (comments : List Comment) (trustedActors : List JsString)
    (initialCommit currentCommit : Option JsString) : List Decision :=
  (byAuthor toLowerCase trustedActors initialCommit currentCommit comments).mergeSort
    fun left right => decide (left.compare localeCompare right ≤ 0)

/-! ### The view -/

/-- Is a comment about the current commit? -/
inductive CommitStatus where
  | current
  | earlier

structure CommentView extends Comment where
  inlineCommentStatus : Option CommitStatus
  isTrustedReviewDecision : Bool
  reviewDecisionStatus : Option CommitStatus
  isTrustedReviewRequest : Bool

structure ProjectPullRequest where
  id : JsString
  title : JsString
  content : JsString
  tags : List (List JsString)
  author : JsString
  createdAt : Int
  repoAddress : Option JsString
  channelId : Option JsString
  labels : List JsString
  recipients : List JsString
  reviewers : List JsString
  approvals : List Decision
  changeRequests : List Decision
  status : Status
  statusEventId : Option JsString
  statusCreatedAt : Option Int
  branchName : Option JsString
  targetBranch : Option JsString
  initialCommit : Option JsString
  commit : Option JsString
  cloneUrls : List JsString
  updateCount : Nat
  updatedAt : Int
  updates : List PullRequestUpdate
  comments : List CommentView

/-- `commit === latestCommit`, where there is one. -/
def commitStatus (latestCommit commit : Option JsString) : CommitStatus :=
  if !latestCommit.all List.isEmpty && commit == latestCommit then .current else .earlier

def viewComment (root : RelayEvent) (trustedActors : List JsString)
    (initialCommit latestCommit : Option JsString) (comment : Comment) : CommentView :=
  let trusted := comment.reviewDecision.isSome && trustedActors.contains (toLowerCase comment.author)
  let status := commitStatus latestCommit (reviewDecisionCommit comment initialCommit)
  { comment with
    inlineCommentStatus := comment.anchor.map fun _ => status
    isTrustedReviewDecision := trusted
    reviewDecisionStatus := if trusted then some status else none
    isTrustedReviewRequest := comment.isReviewRequest &&
      (allowedActorsForRoot toLowerCase root).contains (toLowerCase comment.author) }

/-- The title: the subject, or the first line, or a text for neither. -/
def titleOf (root : RelayEvent) : JsString :=
  let firstLine := root.content.takeWhile (· != 10)
  (getTag root "subject").getD (if firstLine.isEmpty then .ofAscii "Untitled pull request" else firstLine)

def eventToProjectPullRequest (localeCompare : JsString → JsString → Int) (root : RelayEvent)
    (updateEvents commentEvents statusEvents : List RelayEvent) : ProjectPullRequest :=
  let latestUpdate := latestUpdateForPullRequest toLowerCase root updateEvents
  let latestStatus := latestStatusForPullRequest toLowerCase root statusEvents
  let updates := (eventsForPullRequest root.id
    (trustedUpdatesForPullRequest toLowerCase root updateEvents)).map eventToPullRequestUpdate
  let parsedComments := (eventsForPullRequest root.id commentEvents).map
    (eventToPullRequestComment toLowerCase)
  let reviewers := reviewersForPullRequest toLowerCase root parsedComments
  let trustedActors := trustedReviewActors toLowerCase root reviewers
  let latestCommit := getTag (latestUpdate.getD root) "c"
  let initialCommit := getTag root "c"
  let comments := parsedComments.map
    (viewComment toLowerCase root trustedActors initialCommit latestCommit)
  let decisions := reviewDecisionsForPullRequest toLowerCase localeCompare
    (comments.map CommentView.toComment) trustedActors initialCommit latestCommit
  let times := updates.map PullRequestUpdate.createdAt ++
    comments.map (fun comment => comment.createdAt) ++
      (latestStatus.map RelayEvent.createdAt).toList
  { id := root.id
    title := titleOf root
    content := root.content
    tags := getImetaTags root
    author := root.pubkey
    createdAt := root.createdAt
    repoAddress := getTag root "a"
    channelId := getTag root "h"
    labels := getAllTags root "t"
    recipients := getAllTags root "p"
    reviewers
    approvals := decisions.filter fun d => d.reviewDecision == some .approved
    changeRequests := decisions.filter fun d => d.reviewDecision == some .changesRequested
    status := statusFromEvent toLowerCase root latestStatus
    statusEventId := latestStatus.map RelayEvent.id
    statusCreatedAt := latestStatus.map RelayEvent.createdAt
    branchName := getTag root "branch-name"
    targetBranch := getTag root "target-branch"
    initialCommit
    commit := latestCommit
    cloneUrls := getCloneUrls (latestUpdate.getD root)
    updateCount := updates.length
    updatedAt := ((times.mergeSort fun left right => decide (right ≤ left)).head?.orElse fun _ =>
      latestUpdate.map RelayEvent.createdAt).getD root.createdAt
    updates
    comments }

end

end Buzz.PullRequests
