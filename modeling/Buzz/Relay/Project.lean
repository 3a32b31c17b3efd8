import Buzz.Core.Text
import Buzz.Lib.Splitting
import Mathlib.Data.List.Nodup

/-!
# The envelope of a project

A project names the repositories that belong to it. What a relay accepts is given by eight rules
over the tags, which have an order; the check goes through the tags in several passes and answers
with the first rule that a pass finds broken. Coordinates are parsed and compared in one pass, so a
repetition may be found before a malformed coordinate that comes later.

How a text is shown for debugging, in the messages, is a parameter.
-/

namespace Buzz.Project

open List

structure ProjectEvent where
  tags : List (List String)
  content : String

inductive Rule where
  | dCardinality
  | dEmpty
  | memberCap
  | memberTagArity
  | memberCoordinateMalformed
  | memberDuplicate
  | metadataCardinality
  | metadataLength
  deriving DecidableEq

def Rule.id : Rule → String
  | dCardinality => "d-cardinality"
  | dEmpty => "d-empty"
  | memberCap => "member-cap"
  | memberTagArity => "member-tag-arity"
  | memberCoordinateMalformed => "member-coordinate-malformed"
  | memberDuplicate => "member-duplicate"
  | metadataCardinality => "metadata-cardinality"
  | metadataLength => "metadata-length"

/-- The rule that is broken, and the message. -/
structure ProjectRejection where
  rule : Rule
  message : String
  deriving DecidableEq

def projectMemberCap : Nat := 64

def projectNameMaxLen : Nat := 256

def projectDescriptionMaxLen : Nat := 2048

def projectMetadataTagMaxLen : Nat := 256

def projectMemberKindSegment : String := "30617"

/-- The tags with a single value. -/
inductive Metadata where
  | name
  | description
  | buzzChannel
  | buzzVisibility
  deriving DecidableEq

namespace Metadata

def tagName : Metadata → String
  | name => "name"
  | description => "description"
  | buzzChannel => "buzz-channel"
  | buzzVisibility => "buzz-visibility"

/-- How many bytes the value may have. -/
def maxLen : Metadata → Nat
  | name => projectNameMaxLen
  | description => projectDescriptionMaxLen
  | buzzChannel => projectMetadataTagMaxLen
  | buzzVisibility => projectMetadataTagMaxLen

end Metadata

def projectSingletonMetadataTags : List Metadata :=
  [.name, .description, .buzzChannel, .buzzVisibility]

/-! ### The check -/

/-- What one pass over the tags collects. -/
structure Scan where
  dTags : List String
  members : List String
  /-- `name`, `description`, `buzz_channel` and `buzz_visibility`. -/
  values : Metadata → Option String
  counts : Metadata → Nat

def Scan.empty : Scan := ⟨[], [], fun _ => none, fun _ => 0⟩

def tagValue (tag : List String) : String := (tag[1]?).getD ""

def Scan.push (s : Scan) (tag : List String) : Scan :=
  match tag.head? with
  | none => s
  | some tagName =>
    if tagName = "d" then { s with dTags := s.dTags ++ [tagValue tag] }
    else if tagName = "a" then { s with members := s.members ++ [tagValue tag] }
    else
      match projectSingletonMetadataTags.find? fun m => m.tagName = tagName with
      | none => s
      | some m =>
        { s with
          values := fun m' => if m' = m then some (tagValue tag) else s.values m'
          counts := fun m' => if m' = m then s.counts m' + 1 else s.counts m' }

def scan (tags : List (List String)) : Scan := tags.foldl Scan.push .empty

def isMemberTag (tag : List String) : Bool := tag.head? == some "a"

/-- The pass over the lengths of the tags. -/
def checkArity : List (List String) → Except ProjectRejection Unit
  | [] => .ok ()
  | tag :: tags =>
    if isMemberTag tag ∧ ¬(2 ≤ tag.length ∧ tag.length ≤ 3) then
      .error ⟨.memberTagArity, "project event member `a` tag must have exactly 2 or 3 elements " ++
        "(got " ++ toString tag.length ++ ")"⟩
    else checkArity tags

/-- The parts of a coordinate: `splitn(3, ':')`, where there are three. -/
def coordinateParts (coordinate : String) : Option (String × String × String) :=
  (splitOnce ':' coordinate.toList).bind fun (kind, rest) =>
    (splitOnce ':' rest).map fun (owner, repoD) =>
      (String.ofList kind, String.ofList owner, String.ofList repoD)

variable (debug : String → String)

/-- `malformed`, of a coordinate. -/
def malformed (coordinate : String) : ProjectRejection :=
  ⟨.memberCoordinateMalformed, "project event member `a` tag must be `" ++
    projectMemberKindSegment ++ ":<lowercase-64-hex-owner>:<repo-d>` (got " ++
    debug coordinate ++ ")"⟩

def parseProjectMemberCoordinate (coordinate : String) : Except ProjectRejection Unit :=
  match coordinateParts coordinate with
  | none => .error (malformed debug coordinate)
  | some (kind, owner, repoD) =>
    if kind ≠ projectMemberKindSegment then .error (malformed debug coordinate)
    else if owner.utf8ByteSize ≠ 64 ∨ ¬owner.toList.all isLowerHex then
      .error (malformed debug coordinate)
    else if repoD.isEmpty then .error (malformed debug coordinate)
    else .ok ()

/-- The pass over the coordinates, of which some were seen. -/
def checkMembers : List String → List String → Except ProjectRejection Unit
  | _, [] => .ok ()
  | seen, member :: members =>
    (parseProjectMemberCoordinate debug member).bind fun _ =>
      if member ∈ seen then
        .error ⟨.memberDuplicate,
          "project event has duplicate member coordinate " ++ debug member⟩
      else checkMembers (member :: seen) members

def checkCounts (s : Scan) : List Metadata → Except ProjectRejection Unit
  | [] => .ok ()
  | m :: ms =>
    if s.counts m > 1 then
      .error ⟨.metadataCardinality, "project event must have at most one `" ++ m.tagName ++
        "` tag (got " ++ toString (s.counts m) ++ ")"⟩
    else checkCounts s ms

/-- The checks of the lengths of the metadata, one after another. -/
def checkLengths (s : Scan) : List Metadata → Except ProjectRejection Unit
  | [] => .ok ()
  | m :: ms =>
    match s.values m with
    | none => checkLengths s ms
    | some value =>
      if value.utf8ByteSize > m.maxLen then
        .error ⟨.metadataLength, "project event `" ++ m.tagName ++ "` tag too long (" ++
          toString value.utf8ByteSize ++ " bytes, max " ++ toString m.maxLen ++ ")"⟩
      else checkLengths s ms

/-- The checks of the `d` tag. -/
def checkD : List String → Except ProjectRejection Unit
  | [d] =>
    if d.isEmpty then .error ⟨.dEmpty, "project event `d` tag must not be empty"⟩ else .ok ()
  | ds =>
    .error ⟨.dCardinality,
      "project event must have exactly one `d` tag (got " ++ toString ds.length ++ ")"⟩

/-- The check of the number of members. -/
def checkCap (members : List String) : Except ProjectRejection Unit :=
  if members.length > projectMemberCap then
    .error ⟨.memberCap, "project event must have at most " ++ toString projectMemberCap ++
      " member `a` tags (got " ++ toString members.length ++ ")"⟩
  else .ok ()

def validateProjectEnvelope (event : ProjectEvent) : Except ProjectRejection Unit :=
  let s := scan event.tags
  (checkD s.dTags).bind fun _ =>
  (checkCap s.members).bind fun _ =>
  (checkArity event.tags).bind fun _ =>
  (checkMembers debug [] s.members).bind fun _ =>
  (checkCounts s projectSingletonMetadataTags).bind fun _ =>
  checkLengths s projectSingletonMetadataTags

/-! ### The rules -/

def Rule.number : Rule → Nat
  | dCardinality => 1
  | dEmpty => 2
  | memberCap => 3
  | memberTagArity => 4
  | memberCoordinateMalformed => 5
  | memberDuplicate => 6
  | metadataCardinality => 7
  | metadataLength => 8

def valuesOf (tags : List (List String)) (tagName : String) : List String :=
  (tags.filter fun tag => tag.head? == some tagName).map tagValue

/-- A coordinate of a repository announcement. What stands after the second colon may have colons
itself. -/
def IsCoordinate (c : String) : Prop :=
  ∃ owner repoD : String, c = projectMemberKindSegment ++ ":" ++ owner ++ ":" ++ repoD ∧
    owner.toList.length = 64 ∧ (∀ x ∈ owner.toList, isLowerHex x = true) ∧ repoD ≠ ""

def Meets (tags : List (List String)) : Rule → Prop
  | .dCardinality => (valuesOf tags "d").length = 1
  | .dEmpty => ∀ d ∈ valuesOf tags "d", d ≠ ""
  | .memberCap => (valuesOf tags "a").length ≤ 64
  | .memberTagArity => ∀ tag ∈ tags, isMemberTag tag = true → 2 ≤ tag.length ∧ tag.length ≤ 3
  | .memberCoordinateMalformed => ∀ c ∈ valuesOf tags "a", IsCoordinate c
  | .memberDuplicate => (valuesOf tags "a").Nodup
  | .metadataCardinality => ∀ m : Metadata, (valuesOf tags m.tagName).length ≤ 1
  | .metadataLength =>
    ∀ m : Metadata, ∀ value ∈ valuesOf tags m.tagName, value.utf8ByteSize ≤ m.maxLen

theorem mem_projectSingletonMetadataTags (m : Metadata) : m ∈ projectSingletonMetadataTags := by
  cases m <;> decide

theorem tagName_injective : Function.Injective Metadata.tagName := by
  intro m n h
  cases m <;> cases n <;> first | rfl | exact absurd h (by decide)

theorem tagName_ne (m : Metadata) : m.tagName ≠ "d" ∧ m.tagName ≠ "a" := by
  cases m <;> decide

/-! ### The first pass -/

theorem valuesOf_append (tags tags' : List (List String)) (tagName : String) :
    valuesOf (tags ++ tags') tagName = valuesOf tags tagName ++ valuesOf tags' tagName := by
  simp [valuesOf]

theorem valuesOf_singleton (tag : List String) (tagName : String) :
    valuesOf [tag] tagName = if tag.head? = some tagName then [tagValue tag] else [] := by
  rw [valuesOf, filter_singleton]
  by_cases h : tag.head? = some tagName
  · simp [h]
  · rw [if_neg h, beq_eq_false_iff_ne.mpr h]
    rfl

/-- The scan has collected these tags. -/
structure Collects (s : Scan) (tags : List (List String)) : Prop where
  dTags : s.dTags = valuesOf tags "d"
  members : s.members = valuesOf tags "a"
  values : ∀ m, s.values m = (valuesOf tags m.tagName).getLast?
  counts : ∀ m, s.counts m = (valuesOf tags m.tagName).length

variable {tagName : String}

theorem find_tagName {m : Metadata} :
    projectSingletonMetadataTags.find? (fun m => m.tagName = tagName) = some m ↔
      m.tagName = tagName := by
  constructor
  · intro h
    simpa using find?_some h
  · rintro rfl
    cases m <;> decide

theorem find_tagName_eq_none :
    projectSingletonMetadataTags.find? (fun m => m.tagName = tagName) = none ↔
      ∀ m : Metadata, m.tagName ≠ tagName := by
  rw [find?_eq_none]
  constructor
  · intro h m
    simpa using h m (mem_projectSingletonMetadataTags m)
  · intro h m _
    simpa using h m

variable {s : Scan} {tags : List (List String)} {tag : List String}

theorem Collects.ignore (h : Collects s tags) (hd : tag.head? ≠ some "d")
    (ha : tag.head? ≠ some "a") (hm : ∀ m : Metadata, tag.head? ≠ some m.tagName) :
    Collects s (tags ++ [tag]) := by
  have hsame : ∀ tagName, tag.head? ≠ some tagName →
      valuesOf (tags ++ [tag]) tagName = valuesOf tags tagName := by
    intro tagName hne
    simp [valuesOf_append, valuesOf_singleton, hne]
  refine ⟨?_, ?_, fun m => ?_, fun m => ?_⟩
  · rw [hsame _ hd, h.dTags]
  · rw [hsame _ ha, h.members]
  · rw [hsame _ (hm m), h.values]
  · rw [hsame _ (hm m), h.counts]

theorem Collects.push (h : Collects s tags) (tag : List String) :
    Collects (s.push tag) (tags ++ [tag]) := by
  have hvalues : ∀ tagName, valuesOf (tags ++ [tag]) tagName =
      valuesOf tags tagName ++ if tag.head? = some tagName then [tagValue tag] else [] := by
    intro tagName
    rw [valuesOf_append, valuesOf_singleton]
  rw [Scan.push]
  cases hhead : tag.head? with
  | none => exact h.ignore (by simp [hhead]) (by simp [hhead]) (by simp [hhead])
  | some tagName =>
    simp only [hhead, Option.some.injEq] at hvalues
    by_cases hd : tagName = "d"
    · subst hd
      simp only [if_true]
      refine ⟨?_, ?_, fun m => ?_, fun m => ?_⟩
      · rw [hvalues, if_pos rfl, h.dTags]
      · rw [hvalues, if_neg (by decide), append_nil, h.members]
      · simp [hvalues, if_neg (tagName_ne m).1.symm, h.values]
      · simp [hvalues, if_neg (tagName_ne m).1.symm, h.counts]
    by_cases ha : tagName = "a"
    · subst ha
      simp only [hd, if_false, if_true]
      refine ⟨?_, ?_, fun m => ?_, fun m => ?_⟩
      · rw [hvalues, if_neg (by decide), append_nil, h.dTags]
      · rw [hvalues, if_pos rfl, h.members]
      · simp [hvalues, if_neg (tagName_ne m).2.symm, h.values]
      · simp [hvalues, if_neg (tagName_ne m).2.symm, h.counts]
    simp only [hd, ha, if_false]
    cases hfind : projectSingletonMetadataTags.find? fun m => m.tagName = tagName with
    | none =>
      have hm := find_tagName_eq_none.mp hfind
      refine h.ignore (by simpa [hhead] using hd) (by simpa [hhead] using ha) fun m => ?_
      rw [hhead]
      exact fun heq => hm m (Option.some.inj heq).symm
    | some m =>
      obtain rfl := find_tagName.mp hfind
      refine ⟨?_, ?_, fun m' => ?_, fun m' => ?_⟩
      · simp [hvalues, hd, h.dTags]
      · simp [hvalues, ha, h.members]
      · by_cases hm : m' = m
        · subst hm
          rw [hvalues, if_pos rfl, getLast?_concat]
          exact if_pos rfl
        · rw [hvalues, if_neg fun heq => hm (tagName_injective heq.symm), append_nil,
            ← h.values]
          exact if_neg hm
      · by_cases hm : m' = m
        · subst hm
          rw [hvalues, if_pos rfl, length_append, ← h.counts]
          exact if_pos rfl
        · rw [hvalues, if_neg fun heq => hm (tagName_injective heq.symm), append_nil,
            ← h.counts]
          exact if_neg hm

theorem collects_scan (tags : List (List String)) : Collects (scan tags) tags := by
  induction tags using reverseRecOn with
  | nil => exact ⟨rfl, rfl, fun _ => rfl, fun _ => rfl⟩
  | append_singleton tags tag ih =>
    rw [scan, foldl_append]
    exact ih.push tag

/-! ### Coordinates -/

variable {c : String}

/-- The parts are cut at the first two colons; the last one may hold more of them. -/
theorem coordinateParts_eq_some_iff {kind owner repoD : String} :
    coordinateParts c = some (kind, owner, repoD) ↔
      ':' ∉ kind.toList ∧ ':' ∉ owner.toList ∧ c = kind ++ ":" ++ owner ++ ":" ++ repoD := by
  have hchars : (kind ++ ":" ++ owner ++ ":" ++ repoD).toList =
      kind.toList ++ ':' :: (owner.toList ++ ':' :: repoD.toList) := by
    simp [String.toList_append]
  rw [coordinateParts, Option.bind_eq_some_iff]
  constructor
  · rintro ⟨⟨k, rest⟩, hk, hrest⟩
    obtain ⟨⟨o, r⟩, ho, heq⟩ := Option.map_eq_some_iff.mp hrest
    obtain ⟨rfl, rfl, rfl⟩ : String.ofList k = kind ∧ String.ofList o = owner ∧
        String.ofList r = repoD := by simpa using heq
    obtain ⟨hkind, hc⟩ := splitOnce_eq_some_iff.mp hk
    obtain ⟨howner, rfl⟩ := splitOnce_eq_some_iff.mp ho
    refine ⟨by simpa using hkind, by simpa using howner, String.toList_inj.mp ?_⟩
    rw [hchars, hc]
    simp
  · rintro ⟨hkind, howner, rfl⟩
    refine ⟨(kind.toList, owner.toList ++ ':' :: repoD.toList), ?_, ?_⟩
    · rw [hchars, splitOnce_append hkind]
    · dsimp only
      rw [splitOnce_append howner]
      simp

theorem isLowerHex_spec {x : Char} (h : isLowerHex x = true) : x.val ≤ 127 ∧ x ≠ ':' := by
  have hrange := isLowerHex_iff.mp h
  refine ⟨UInt32.le_iff_toNat_le.mpr (show x.toNat ≤ 127 by omega), ?_⟩
  rintro rfl
  exact absurd hrange (by decide)

/-- **A coordinate is parsed** where it is one. -/
theorem parse_ok_iff : parseProjectMemberCoordinate debug c = .ok () ↔ IsCoordinate c := by
  have hsize : ∀ owner : String, (∀ x ∈ owner.toList, isLowerHex x = true) →
      owner.utf8ByteSize = owner.toList.length := fun owner hall =>
    utf8ByteSize_eq_length fun x hx => (isLowerHex_spec (hall x hx)).1
  rw [parseProjectMemberCoordinate]
  constructor
  · intro h
    split at h
    · cases h
    next kind owner repoD hparts =>
    obtain ⟨-, -, hc⟩ := coordinateParts_eq_some_iff.mp hparts
    split at h
    · cases h
    next hkind =>
    split at h
    · cases h
    next howner =>
    split at h
    · cases h
    next hrepo =>
    rw [not_or, not_not, not_not, all_eq_true] at howner
    refine ⟨owner, repoD, hc.trans (by rw [not_ne_iff.mp hkind]), ?_, howner.2, ?_⟩
    · rw [← hsize owner howner.2, howner.1]
    · rintro rfl
      exact hrepo rfl
  · rintro ⟨owner, repoD, hc, hlength, hall, hrepo⟩
    have hcolon : ':' ∉ owner.toList := fun hmem => (isLowerHex_spec (hall _ hmem)).2 rfl
    rw [coordinateParts_eq_some_iff.mpr ⟨by decide, hcolon, hc⟩]
    dsimp only
    rw [if_neg (not_ne_iff.mpr rfl), if_neg, if_neg]
    · rwa [String.isEmpty_iff]
    · rw [not_or, not_not, not_not, all_eq_true]
      exact ⟨(hsize owner hall).trans hlength, hall⟩

theorem parse_error {rej : ProjectRejection}
    (h : parseProjectMemberCoordinate debug c = .error rej) :
    rej.rule = .memberCoordinateMalformed ∧ ¬IsCoordinate c := by
  refine ⟨?_, fun hc => ?_⟩
  · rw [parseProjectMemberCoordinate] at h
    split at h
    · cases h
      rfl
    · split at h
      · cases h
        rfl
      · split at h
        · cases h
          rfl
        · split at h
          · cases h
            rfl
          · cases h
  · rw [(parse_ok_iff debug).mpr hc] at h
    cases h

/-! ### The passes -/

theorem check_bind_ok_iff {ε β : Type} {x : Except ε Unit} {f : Unit → Except ε β} {b : β} :
    x.bind f = .ok b ↔ x = .ok () ∧ f () = .ok b := by
  cases x <;> simp [Except.bind]

theorem check_bind_error_iff {ε β : Type} {x : Except ε Unit} {f : Unit → Except ε β} {e : ε} :
    x.bind f = .error e ↔ x = .error e ∨ x = .ok () ∧ f () = .error e := by
  cases x <;> simp [Except.bind]

variable {ds : List String}

theorem checkD_ok_iff : checkD ds = .ok () ↔ ds.length = 1 ∧ ∀ d ∈ ds, d ≠ "" := by
  match ds with
  | [] => simp [checkD]
  | [d] => by_cases hd : d = "" <;> simp [checkD, hd, String.isEmpty_iff]
  | d :: d' :: ds => simp [checkD]

theorem checkD_error {rej : ProjectRejection} (h : checkD ds = .error rej) :
    rej.rule = .dCardinality ∧ ds.length ≠ 1 ∨ rej.rule = .dEmpty ∧ ∃ d ∈ ds, d = "" := by
  match ds with
  | [] =>
    cases h
    exact .inl ⟨rfl, by simp⟩
  | [d] =>
    rw [checkD] at h
    split at h
    · next hd =>
      cases h
      exact .inr ⟨rfl, d, mem_singleton_self d, String.isEmpty_iff.mp hd⟩
    · cases h
  | d :: d' :: ds =>
    cases h
    exact .inl ⟨rfl, by simp⟩

variable {members : List String}

theorem checkCap_ok_iff : checkCap members = .ok () ↔ members.length ≤ 64 := by
  rw [checkCap, projectMemberCap]
  split <;> simp <;> omega

theorem checkCap_error {rej : ProjectRejection} (h : checkCap members = .error rej) :
    rej.rule = .memberCap ∧ ¬members.length ≤ 64 := by
  rw [checkCap, projectMemberCap] at h
  split at h
  · next hlength =>
    cases h
    exact ⟨rfl, by omega⟩
  · cases h

theorem checkArity_ok_iff :
    checkArity tags = .ok () ↔
      ∀ tag ∈ tags, isMemberTag tag = true → 2 ≤ tag.length ∧ tag.length ≤ 3 := by
  induction tags with
  | nil => simp [checkArity]
  | cons tag tags ih =>
    rw [checkArity, forall_mem_cons]
    split
    · next hbad =>
      simp only [reduceCtorEq, false_iff]
      exact fun h => hbad.2 (h.1 hbad.1)
    · next hgood =>
      rw [ih]
      exact (and_iff_right fun hmember => not_not.mp fun hlength => hgood ⟨hmember, hlength⟩).symm

theorem checkArity_error {rej : ProjectRejection} (h : checkArity tags = .error rej) :
    rej.rule = .memberTagArity := by
  induction tags with
  | nil => cases h
  | cons tag tags ih =>
    rw [checkArity] at h
    split at h
    · cases h
      rfl
    · exact ih h

variable {ms : List Metadata}

theorem checkCounts_ok_iff : checkCounts s ms = .ok () ↔ ∀ m ∈ ms, s.counts m ≤ 1 := by
  induction ms with
  | nil => simp [checkCounts]
  | cons m ms ih =>
    rw [checkCounts, forall_mem_cons]
    split
    · next hm =>
      simp only [reduceCtorEq, false_iff]
      omega
    · next hm =>
      rw [ih]
      exact (and_iff_right (by omega)).symm

theorem checkCounts_error {rej : ProjectRejection} (h : checkCounts s ms = .error rej) :
    rej.rule = .metadataCardinality := by
  induction ms with
  | nil => cases h
  | cons m ms ih =>
    rw [checkCounts] at h
    split at h
    · cases h
      rfl
    · exact ih h

theorem checkLengths_ok_iff :
    checkLengths s ms = .ok () ↔
      ∀ m ∈ ms, ∀ value ∈ s.values m, value.utf8ByteSize ≤ m.maxLen := by
  induction ms with
  | nil => simp [checkLengths]
  | cons m ms ih =>
    rw [checkLengths, forall_mem_cons]
    split
    · next hnone =>
      rw [ih, hnone]
      simp
    · next value hvalue =>
      rw [hvalue]
      split
      · next hlong =>
        simp only [reduceCtorEq, false_iff]
        exact fun h => absurd (h.1 value rfl) (by omega)
      · next hshort =>
        rw [ih]
        refine (and_iff_right ?_).symm
        rintro value' ⟨⟩
        omega

theorem checkLengths_error {rej : ProjectRejection} (h : checkLengths s ms = .error rej) :
    rej.rule = .metadataLength := by
  induction ms with
  | nil => cases h
  | cons m ms ih =>
    rw [checkLengths] at h
    split at h
    · exact ih h
    · split at h
      · cases h
        rfl
      · exact ih h

theorem checkMembers_ok_iff {seen : List String} :
    checkMembers debug seen members = .ok () ↔
      (∀ c ∈ members, IsCoordinate c) ∧ members.Nodup ∧ ∀ c ∈ members, c ∉ seen := by
  induction members generalizing seen with
  | nil => simp [checkMembers]
  | cons c members ih =>
    rw [checkMembers, check_bind_ok_iff, parse_ok_iff, forall_mem_cons, nodup_cons,
      forall_mem_cons]
    constructor
    · rintro ⟨hc, h⟩
      split at h
      · cases h
      · next hseen =>
        obtain ⟨hall, hnodup, hnew⟩ := ih.mp h
        refine ⟨⟨hc, hall⟩, ⟨fun hmem => hnew c hmem mem_cons_self, hnodup⟩, hseen, ?_⟩
        exact fun d hd hmem => hnew d hd (mem_cons_of_mem c hmem)
    · rintro ⟨⟨hc, hall⟩, ⟨hnot, hnodup⟩, hseen, hnew⟩
      refine ⟨hc, ?_⟩
      rw [if_neg hseen]
      refine ih.mpr ⟨hall, hnodup, fun d hd hmem => ?_⟩
      rcases mem_cons.mp hmem with rfl | hmem
      · exact hnot hd
      · exact hnew d hd hmem

theorem checkMembers_error {seen : List String} {rej : ProjectRejection} (hseen : seen.Nodup)
    (h : checkMembers debug seen members = .error rej) :
    ∃ before c after, members = before ++ c :: after ∧ (∀ d ∈ before, IsCoordinate d) ∧
      (before.reverse ++ seen).Nodup ∧
      (rej.rule = .memberCoordinateMalformed ∧ ¬IsCoordinate c ∨
        rej.rule = .memberDuplicate ∧ IsCoordinate c ∧ c ∈ before.reverse ++ seen) := by
  induction members generalizing seen with
  | nil => cases h
  | cons c members ih =>
    rw [checkMembers, check_bind_error_iff] at h
    rcases h with hbad | ⟨hc, h⟩
    · exact ⟨[], c, members, rfl, by simp, hseen, .inl (parse_error debug hbad)⟩
    · rw [parse_ok_iff] at hc
      split at h
      · next hmem =>
        cases h
        exact ⟨[], c, members, rfl, by simp, hseen, .inr ⟨rfl, hc, hmem⟩⟩
      · next hnew =>
        obtain ⟨before, d, after, rfl, hbefore, hnodup, hnamed⟩ :=
          ih (nodup_cons.mpr ⟨hnew, hseen⟩) h
        refine ⟨c :: before, d, after, rfl, forall_mem_cons.mpr ⟨hc, hbefore⟩, ?_, ?_⟩
        · simpa using hnodup
        · simpa using hnamed

/-! ### What is accepted -/

variable {debug} {event : ProjectEvent} {rej : ProjectRejection}

/-- **What is accepted** is what meets the rules. -/
theorem validate_ok_iff :
    validateProjectEnvelope debug event = .ok () ↔ ∀ r, Meets event.tags r := by
  obtain ⟨hd, ha, hvalues, hcounts⟩ := collects_scan event.tags
  have hcount : checkCounts (scan event.tags) projectSingletonMetadataTags = .ok () ↔
      Meets event.tags .metadataCardinality := by
    rw [checkCounts_ok_iff]
    simp only [hcounts]
    exact ⟨fun h m => h m (mem_projectSingletonMetadataTags m), fun h m _ => h m⟩
  -- Where there is at most one value, the last one is all there is.
  have hlength : Meets event.tags .metadataCardinality →
      (checkLengths (scan event.tags) projectSingletonMetadataTags = .ok () ↔
        Meets event.tags .metadataLength) := by
    intro hone
    rw [checkLengths_ok_iff]
    simp only [hvalues]
    constructor
    · intro h m value hvalue
      refine h m (mem_projectSingletonMetadataTags m) value ?_
      obtain ⟨v, hv⟩ : ∃ v, valuesOf event.tags m.tagName = [v] := by
        rw [← length_eq_one_iff]
        exact Nat.le_antisymm (hone m) (length_pos_of_mem hvalue)
      rw [hv] at hvalue ⊢
      rw [mem_singleton.mp hvalue]
      rfl
    · intro h m _ value hvalue
      exact h m value (mem_of_getLast? hvalue)
  simp only [validateProjectEnvelope, check_bind_ok_iff, checkD_ok_iff, checkCap_ok_iff,
    checkArity_ok_iff, checkMembers_ok_iff, hd, ha, hcount]
  constructor
  · rintro ⟨⟨hcard, hempty⟩, hcap, harity, ⟨hcoord, hnodup, -⟩, hone, hlong⟩ r
    cases r with
    | dCardinality => exact hcard
    | dEmpty => exact hempty
    | memberCap => exact hcap
    | memberTagArity => exact harity
    | memberCoordinateMalformed => exact hcoord
    | memberDuplicate => exact hnodup
    | metadataCardinality => exact hone
    | metadataLength => exact (hlength hone).mp hlong
  · intro h
    have hone := h .metadataCardinality
    exact ⟨⟨h .dCardinality, h .dEmpty⟩, h .memberCap, h .memberTagArity,
      ⟨h .memberCoordinateMalformed, h .memberDuplicate, by simp⟩, hone,
      (hlength hone).mpr (h .metadataLength)⟩

/-- What a rejection comes with: the rule is broken, and the rules about members that are checked in
an earlier pass are not. In the pass over the coordinates the first one that is malformed or
repeated decides. -/
theorem error_cases (h : validateProjectEnvelope debug event = .error rej) :
    rej.rule.number ≤ 2 ∧ ¬Meets event.tags rej.rule ∨
      rej.rule = .memberCap ∧ ¬Meets event.tags .memberCap ∨
      Meets event.tags .memberCap ∧ rej.rule = .memberTagArity ∧
        ¬Meets event.tags .memberTagArity ∨
      (∀ r : Rule, r.number ≤ 4 → Meets event.tags r) ∧
        (∃ before c after, valuesOf event.tags "a" = before ++ c :: after ∧
          (∀ d ∈ before, IsCoordinate d) ∧ before.Nodup ∧
          (rej.rule = .memberCoordinateMalformed ∧ ¬IsCoordinate c ∨
            rej.rule = .memberDuplicate ∧ IsCoordinate c ∧ c ∈ before)) ∨
      (∀ r : Rule, r.number ≤ 6 → Meets event.tags r) ∧ 7 ≤ rej.rule.number ∧
        ¬Meets event.tags rej.rule := by
  obtain ⟨hd, ha, hvalues, hcounts⟩ := collects_scan event.tags
  simp only [validateProjectEnvelope, check_bind_error_iff, hd, ha] at h
  rcases h with h | ⟨hdOk, h | ⟨hcapOk, h | ⟨harityOk, h | ⟨hmembersOk, h⟩⟩⟩⟩
  · rcases checkD_error h with ⟨hrule, hbad⟩ | ⟨hrule, d, hmem, hbad⟩
    · exact .inl ⟨by rw [hrule]; decide, by rw [hrule]; exact hbad⟩
    · exact .inl ⟨by rw [hrule]; decide, by rw [hrule]; exact fun hall => hall d hmem hbad⟩
  · obtain ⟨hrule, hbad⟩ := checkCap_error h
    exact .inr (.inl ⟨hrule, hbad⟩)
  · refine .inr (.inr (.inl ⟨checkCap_ok_iff.mp hcapOk, checkArity_error h, fun harity => ?_⟩))
    rw [checkArity_ok_iff.mpr harity] at h
    cases h
  · obtain ⟨hcard, hempty⟩ := checkD_ok_iff.mp hdOk
    have hfirst : ∀ r : Rule, r.number ≤ 4 → Meets event.tags r := by
      intro r hr
      cases r with
      | dCardinality => exact hcard
      | dEmpty => exact hempty
      | memberCap => exact checkCap_ok_iff.mp hcapOk
      | memberTagArity => exact checkArity_ok_iff.mp harityOk
      | _ => exact absurd hr (by decide)
    obtain ⟨before, c, after, hmembers, hgood, hnodup, hnamed⟩ :=
      checkMembers_error debug nodup_nil h
    rw [append_nil, nodup_reverse] at hnodup
    rw [append_nil, mem_reverse] at hnamed
    exact .inr (.inr (.inr (.inl ⟨hfirst, before, c, after, hmembers, hgood, hnodup, hnamed⟩)))
  · obtain ⟨hcard, hempty⟩ := checkD_ok_iff.mp hdOk
    obtain ⟨hcoord, hnodup, -⟩ := (checkMembers_ok_iff debug).mp hmembersOk
    have hfirst : ∀ r : Rule, r.number ≤ 6 → Meets event.tags r := by
      intro r hr
      cases r with
      | dCardinality => exact hcard
      | dEmpty => exact hempty
      | memberCap => exact checkCap_ok_iff.mp hcapOk
      | memberTagArity => exact checkArity_ok_iff.mp harityOk
      | memberCoordinateMalformed => exact hcoord
      | memberDuplicate => exact hnodup
      | _ => exact absurd hr (by decide)
    refine .inr (.inr (.inr (.inr ⟨hfirst, ?_⟩)))
    rcases h with h | ⟨-, h⟩
    · rw [checkCounts_error h]
      refine ⟨by decide, fun hone => ?_⟩
      have hok : checkCounts (scan event.tags) projectSingletonMetadataTags = .ok () :=
        checkCounts_ok_iff.mpr fun m _ => by rw [hcounts]; exact hone m
      rw [hok] at h
      cases h
    · rw [checkLengths_error h]
      refine ⟨by decide, fun hshort => ?_⟩
      have hok : checkLengths (scan event.tags) projectSingletonMetadataTags = .ok () :=
        checkLengths_ok_iff.mpr fun m _ value hvalue => by
          rw [hvalues] at hvalue
          exact hshort m value (mem_of_getLast? hvalue)
      rw [hok] at h
      cases h

/-- **A rejection names a rule that is broken.** -/
theorem not_meets_of_error (h : validateProjectEnvelope debug event = .error rej) :
    ¬Meets event.tags rej.rule := by
  rcases error_cases h with ⟨-, hbad⟩ | ⟨hrule, hbad⟩ | ⟨-, hrule, hbad⟩ |
    ⟨-, before, c, after, hmembers, -, -, hnamed⟩ | ⟨-, -, hbad⟩
  · exact hbad
  · rwa [hrule]
  · rwa [hrule]
  · rcases hnamed with ⟨hrule, hbad⟩ | ⟨hrule, -, hmem⟩
    · rw [hrule]
      refine fun hall => hbad (hall c ?_)
      rw [hmembers]
      exact mem_append_cons_self
    · rw [hrule, Meets, hmembers]
      intro hnodup
      exact (nodup_append.mp hnodup).2.2 c hmem c mem_cons_self rfl
  · exact hbad

/-! ### What does not matter -/

def isKnown (tag : List String) : Bool :=
  isMemberTag tag || tag.head? == some "d" ||
    projectSingletonMetadataTags.any fun m => tag.head? == some m.tagName

/-- The tag of a member without its relay hint. -/
def withoutHint (tag : List String) : List String :=
  if isMemberTag tag ∧ tag.length = 3 then tag.take 2 else tag

/-- The tags that are known, without relay hints. -/
def essence (tags : List (List String)) : List (List String) :=
  (tags.filter isKnown).map withoutHint

/-- Events that differ in the order of the tags, unknown tags, relay hints and the content. -/
def SameProject (e e' : ProjectEvent) : Prop := (essence e.tags).Perm (essence e'.tags)

theorem withoutHint_spec (tag : List String) :
    (withoutHint tag).head? = tag.head? ∧ tagValue (withoutHint tag) = tagValue tag := by
  rw [withoutHint]
  split
  · match tag with
    | [] => exact ⟨rfl, rfl⟩
    | [_] => exact ⟨rfl, rfl⟩
    | _ :: _ :: _ => exact ⟨rfl, rfl⟩
  · exact ⟨rfl, rfl⟩

theorem arity_withoutHint (tag : List String) :
    (isMemberTag (withoutHint tag) = true → 2 ≤ (withoutHint tag).length ∧
      (withoutHint tag).length ≤ 3) ↔
        (isMemberTag tag = true → 2 ≤ tag.length ∧ tag.length ≤ 3) := by
  have hmember : isMemberTag (withoutHint tag) = isMemberTag tag := by
    rw [isMemberTag, (withoutHint_spec tag).1, isMemberTag]
  rw [hmember]
  refine imp_congr_right fun hm => ?_
  rw [withoutHint]
  split
  · next h =>
    rw [length_take]
    omega
  · exact Iff.rfl

theorem valuesOf_essence (tags : List (List String))
    (hknown : ∀ tag : List String, tag.head? = some tagName → isKnown tag = true) :
    valuesOf (essence tags) tagName = valuesOf tags tagName := by
  induction tags with
  | nil => rfl
  | cons tag tags ih =>
    have hcons : valuesOf (tag :: tags) tagName =
        valuesOf [tag] tagName ++ valuesOf tags tagName := valuesOf_append [tag] tags tagName
    have hessence : essence (tag :: tags) =
        (if isKnown tag then [withoutHint tag] else []) ++ essence tags := by
      rw [essence, filter_cons]
      split <;> rfl
    rw [hcons, hessence, valuesOf_append, ih, valuesOf_singleton]
    refine congrArg (· ++ valuesOf tags tagName) ?_
    obtain ⟨hhead, hvalue⟩ := withoutHint_spec tag
    split
    · rw [valuesOf_singleton, hhead, hvalue]
    · next hunknown =>
      rw [if_neg fun h => hunknown (hknown tag h)]
      rfl

theorem isKnown_of_head :
    (tag.head? = some "d" → isKnown tag = true) ∧ (tag.head? = some "a" → isKnown tag = true) ∧
      ∀ m : Metadata, tag.head? = some m.tagName → isKnown tag = true := by
  refine ⟨fun h => ?_, fun h => ?_, fun m h => ?_⟩
  · simp [isKnown, h]
  · simp [isKnown, isMemberTag, h]
  · have hany : (projectSingletonMetadataTags.any fun m => tag.head? == some m.tagName) = true :=
      any_eq_true.mpr ⟨m, mem_projectSingletonMetadataTags m, by simp [h]⟩
    rw [isKnown, hany, Bool.or_true]

theorem meets_essence (tags : List (List String)) (r : Rule) :
    Meets (essence tags) r ↔ Meets tags r := by
  have hd := valuesOf_essence tags fun _ => isKnown_of_head.1
  have ha := valuesOf_essence tags fun _ => isKnown_of_head.2.1
  have hm := fun m : Metadata => valuesOf_essence tags fun _ => isKnown_of_head.2.2 m
  cases r with
  | memberTagArity =>
    simp only [Meets, essence, forall_mem_map, arity_withoutHint, mem_filter]
    constructor
    · intro h tag htag hmember
      exact h tag ⟨htag, by rw [isKnown, hmember]; rfl⟩ hmember
    · exact fun h tag htag => h tag htag.1
  | _ => simp only [Meets, hd, ha, hm]

theorem meets_perm {tags' : List (List String)} (h : tags.Perm tags') (r : Rule) :
    Meets tags r ↔ Meets tags' r := by
  have hvalues : ∀ tagName, (valuesOf tags tagName).Perm (valuesOf tags' tagName) :=
    fun tagName => (h.filter _).map _
  cases r with
  | dCardinality => rw [Meets, Meets, (hvalues "d").length_eq]
  | dEmpty => simp only [Meets, (hvalues "d").mem_iff]
  | memberCap => rw [Meets, Meets, (hvalues "a").length_eq]
  | memberTagArity => simp only [Meets, h.mem_iff]
  | memberCoordinateMalformed => simp only [Meets, (hvalues "a").mem_iff]
  | memberDuplicate => exact (hvalues "a").nodup_iff
  | metadataCardinality => simp only [Meets, fun m : Metadata => (hvalues m.tagName).length_eq]
  | metadataLength =>
    exact forall_congr' fun m => forall_congr' fun v => imp_congr_left (hvalues m.tagName).mem_iff

theorem verdict_congr {event' : ProjectEvent} (h : SameProject event event') :
    validateProjectEnvelope debug event = .ok () ↔
      validateProjectEnvelope debug event' = .ok () := by
  rw [validate_ok_iff, validate_ok_iff]
  refine forall_congr' fun r => ?_
  rw [← meets_essence event.tags, meets_perm h, meets_essence]

/-! ### The rule that is named -/

/-- The check of an event is what its documentation says. -/
structure Faithful (debug : String → String) (event : ProjectEvent) : Prop where
  accepts : validateProjectEnvelope debug event = .ok () ↔ ∀ r, Meets event.tags r
  broken : ∀ rej, validateProjectEnvelope debug event = .error rej → ¬Meets event.tags rej.rule
  first : ∀ rej, validateProjectEnvelope debug event = .error rej →
    ∀ r : Rule, 3 ≤ r.number → r.number ≤ 6 → r.number < rej.rule.number → Meets event.tags r
  unaffected : ∀ event', SameProject event event' →
    (validateProjectEnvelope debug event = .ok () ↔ validateProjectEnvelope debug event' = .ok ())

/-- No coordinate is repeated before the first malformed one. -/
def DistinctBeforeMalformed (tags : List (List String)) : Prop :=
  ∀ before c after, valuesOf tags "a" = before ++ c :: after →
    (∀ d ∈ before, IsCoordinate d) → ¬IsCoordinate c → before.Nodup

theorem rule_of_number {r r' : Rule} (h : r.number = r'.number) : r = r' := by
  cases r <;> cases r' <;> first | rfl | exact absurd h (by decide)

theorem exists_first_not {α : Type*} {Q : α → Prop} {l : List α} (h : ¬∀ x ∈ l, Q x) :
    ∃ before c after, l = before ++ c :: after ∧ (∀ d ∈ before, Q d) ∧ ¬Q c := by
  induction l with
  | nil => exact absurd (by simp) h
  | cons x l ih =>
    by_cases hx : Q x
    · obtain ⟨before, c, after, rfl, hbefore, hc⟩ :=
        ih fun hall => h (forall_mem_cons.mpr ⟨hx, hall⟩)
      exact ⟨x :: before, c, after, rfl, forall_mem_cons.mpr ⟨hx, hbefore⟩, hc⟩
    · exact ⟨[], x, l, rfl, by simp, hx⟩

theorem first_unique {α : Type*} {Q : α → Prop} {before before' after after' : List α} {c c' : α}
    (hgood : ∀ d ∈ before, Q d) (hbad : ¬Q c) (hgood' : ∀ d ∈ before', Q d) (hbad' : ¬Q c')
    (h : before ++ c :: after = before' ++ c' :: after') : before = before' := by
  induction before generalizing before' with
  | nil =>
    cases before' with
    | nil => rfl
    | cons d' before' =>
      obtain ⟨rfl, -⟩ := cons.inj h
      exact absurd (hgood' c mem_cons_self) hbad
  | cons d before ih =>
    cases before' with
    | nil =>
      obtain ⟨rfl, -⟩ := cons.inj h
      exact absurd (hgood d mem_cons_self) hbad'
    | cons d' before' =>
      obtain ⟨rfl, hrest⟩ := cons.inj h
      rw [ih (fun x hx => hgood x (mem_cons_of_mem d hx))
        (fun x hx => hgood' x (mem_cons_of_mem d hx)) hrest]

theorem not_nodup_of_repeated {α : Type*} {Q : α → Prop} {before after pre post : List α}
    {c bad : α} (hgood : ∀ d ∈ before, Q d) (hc : Q c) (hmem : c ∈ before) (hbad : ¬Q bad)
    (h : before ++ c :: after = pre ++ bad :: post) : ¬pre.Nodup := by
  rcases append_eq_append_iff.mp h with ⟨mid, rfl, hmid⟩ | ⟨mid, rfl, hmid⟩
  · cases mid with
    | nil =>
      obtain ⟨rfl, -⟩ := cons.inj hmid
      exact absurd hc hbad
    | cons x mid =>
      obtain ⟨rfl, -⟩ := cons.inj hmid
      intro hnodup
      exact (nodup_append.mp hnodup).2.2 c hmem c mem_cons_self rfl
  · cases mid with
    | nil =>
      obtain ⟨rfl, -⟩ := cons.inj hmid
      exact absurd hc hbad
    | cons x mid =>
      obtain ⟨rfl, -⟩ := cons.inj hmid
      exact absurd (hgood bad mem_append_cons_self) hbad

theorem distinct_of_first
    (h : ∀ rej, validateProjectEnvelope debug event = .error rej →
      ∀ r : Rule, 3 ≤ r.number → r.number ≤ 6 → r.number < rej.rule.number → Meets event.tags r)
    (hmet : ∀ r : Rule, r.number ≤ 4 → Meets event.tags r) :
    DistinctBeforeMalformed event.tags := by
  intro before c after hmembers hgood hbad
  have hmalformed : ¬Meets event.tags .memberCoordinateMalformed := by
    intro hall
    refine hbad (hall c ?_)
    rw [hmembers]
    exact mem_append_cons_self
  cases hresult : validateProjectEnvelope debug event with
  | ok u => exact absurd (validate_ok_iff.mp hresult .memberCoordinateMalformed) hmalformed
  | error rej =>
    have hnamed : rej.rule.number ≤ 5 := by
      by_contra hlate
      exact hmalformed (h rej hresult _ (by decide) (by decide) (Nat.lt_of_not_le hlate))
    have hbroken := not_meets_of_error hresult
    rcases error_cases hresult with ⟨hrule, -⟩ | ⟨hrule, -⟩ | ⟨-, hrule, -⟩ |
      ⟨-, before', c', after', hmembers', hgood', hnodup', hcase⟩ | ⟨-, hlate, -⟩
    · exact absurd (hmet _ (by omega)) hbroken
    · exact absurd (hmet _ (by rw [hrule]; decide)) hbroken
    · exact absurd (hmet _ (by rw [hrule]; decide)) hbroken
    · rcases hcase with ⟨-, hbad'⟩ | ⟨hrule, -⟩
      · -- Both are the first malformed coordinate.
        have hsame := first_unique hgood hbad hgood' hbad' (hmembers.symm.trans hmembers')
        rwa [hsame]
      · rw [hrule] at hnamed
        exact absurd hnamed (by decide)
    · omega

/-- **Exactly when the first broken rule is named**: unless the rules before the coordinates are met
and a coordinate is repeated before the first malformed one. -/
theorem faithful_iff : Faithful debug event ↔
    ((∀ r : Rule, r.number ≤ 4 → Meets event.tags r) → DistinctBeforeMalformed event.tags) := by
  refine ⟨fun h => distinct_of_first h.first, fun h => ?_⟩
  refine ⟨validate_ok_iff, fun _ => not_meets_of_error, fun rej hrej r hlow hhigh hlt => ?_,
    fun _ => verdict_congr⟩
  rcases error_cases hrej with ⟨hrule, -⟩ | ⟨hrule, -⟩ | ⟨hcap, hrule, -⟩ |
    ⟨hmet, before, c, after, hmembers, hgood, hnodup, hcase⟩ | ⟨hmet, -, -⟩
  · omega
  · rw [hrule] at hlt
    exact absurd hlow (Nat.not_le_of_lt hlt)
  · rw [hrule] at hlt
    have hr : r = .memberCap := rule_of_number (Nat.le_antisymm (Nat.le_of_lt_succ hlt) hlow)
    rwa [hr]
  · by_cases hearly : r.number ≤ 4
    · exact hmet r hearly
    · rcases hcase with ⟨hrule, -⟩ | ⟨hrule, hc, hmem⟩
      · rw [hrule] at hlt
        exact absurd (Nat.le_of_lt_succ hlt) hearly
      · -- Only the coordinates are left, and the one that is repeated comes after a malformed one.
        rw [hrule] at hlt
        have hr : r = .memberCoordinateMalformed :=
          rule_of_number (Nat.le_antisymm (Nat.le_of_lt_succ hlt) (Nat.lt_of_not_le hearly))
        rw [hr]
        by_contra hbad
        obtain ⟨pre, bad, post, hsplit, hpre, hmalformed⟩ := exists_first_not hbad
        exact not_nodup_of_repeated hgood hc hmem hmalformed (hmembers.symm.trans hsplit)
          (h hmet pre bad post hsplit hpre hmalformed)
  · exact hmet r hhigh

/-! ### A repetition before a malformed coordinate -/

def goodCoordinate : String :=
  "30617:aaaaaaaaaaaaaaaaaaaaaaaaaaaaaaaaaaaaaaaaaaaaaaaaaaaaaaaaaaaaaaaa:buzz"

/-- It is named twice, and then comes a coordinate of another kind. -/
def repeatedThenMalformed : ProjectEvent :=
  ⟨[["d", "platform"], ["a", goodCoordinate], ["a", goodCoordinate], ["a", "30618:x:y"]], ""⟩

/-- The repetition is named, though the rule about the coordinates comes first and is broken. -/
theorem repeatedThenMalformed_unfaithful : ¬Faithful id repeatedThenMalformed := by
  intro h
  have hresult : validateProjectEnvelope id repeatedThenMalformed = .error
      ⟨.memberDuplicate, "project event has duplicate member coordinate " ++ goodCoordinate⟩ := by
    decide
  have hmeets := h.first _ hresult .memberCoordinateMalformed (by decide) (by decide) (by decide)
  have hbad : parseProjectMemberCoordinate id "30618:x:y" ≠ .ok () := by decide
  exact hbad ((parse_ok_iff id).mpr (hmeets _ (by decide)))

end Buzz.Project
