import Buzz.EvmAuth.Siwe
import Buzz.Lib.Splitting

/-!
# The layout of a sign-in message

EIP-4361 fixes the layout of a message: a header, the account, a statement that may be missing, five
fields, three that may be missing, and resources. The parser reads the lines at the end in any order
and any number of times, and keeps the last one of each field; the line before the resources says
nothing to it.
-/

namespace Buzz.EvmAuth

open List Option

/-- The fields of a message, as they are written. -/
structure Layout where
  domain : String
  address : String
  statement : Option String
  uri : String
  version : String
  chainId : String
  nonce : String
  issuedAt : String
  expirationTime : Option String
  notBefore : Option String
  requestId : Option String
  resources : Option (List String)

/-! ### The lines at the end -/

def optionalLine (pre : String) (value : Option String) : List String :=
  (value.map (pre ++ ·)).toList

def resourceLines : Option (List String) → List String
  | none => []
  | some values => "Resources:" :: values.map ("- " ++ ·)

/-- The lines after the time of issue. -/
def optionalLines (expirationTime notBefore requestId : Option String)
    (resources : Option (List String)) : List String :=
  optionalLine "Expiration Time: " expirationTime ++ (optionalLine "Not Before: " notBefore ++
    (optionalLine "Request ID: " requestId ++ resourceLines resources))

/-- The lines behind one that may be missing. -/
def dropOptional (pre : String) : List String → List String
  | [] => []
  | line :: lines => if (stripPrefix line pre).isSome then lines else line :: lines

/-- There are resources, or nothing. -/
def isResourceLines : List String → Bool
  | [] => true
  | line :: lines =>
    line == "Resources:" && !lines.isEmpty && lines.all fun l => (stripPrefix l "- ").isSome

/-- The lines at the end are in order, none of them twice. -/
def isCanonicalTail (lines : List String) : Bool :=
  isResourceLines (dropOptional "Request ID: " (dropOptional "Not Before: "
    (dropOptional "Expiration Time: " lines)))

theorem exists_optionalLine (pre : String) (lines : List String) :
    ∃ value, lines = optionalLine pre value ++ dropOptional pre lines := by
  cases lines with
  | nil => exact ⟨none, rfl⟩
  | cons line lines =>
    rw [dropOptional]
    cases hvalue : stripPrefix line pre with
    | none => exact ⟨none, rfl⟩
    | some value =>
      rw [stripPrefix_eq_some_iff] at hvalue
      rw [hvalue]
      exact ⟨some value, rfl⟩

variable {pre : String} {value : Option String}

theorem mem_head_optionalLine {line : String} {lines : List String}
    (h : line ∈ (optionalLine pre value ++ lines).head?) :
    (∃ v, line = pre ++ v) ∨ line ∈ lines.head? := by
  cases value with
  | none => exact .inr h
  | some v => exact .inl ⟨v, (some.inj h).symm⟩

theorem dropOptional_append (value : Option String) {lines : List String}
    (h : ∀ line ∈ lines.head?, stripPrefix line pre = none) :
    dropOptional pre (optionalLine pre value ++ lines) = lines := by
  cases value with
  | some v =>
    have hline : optionalLine pre (some v) ++ lines = (pre ++ v) :: lines := rfl
    rw [hline, dropOptional, stripPrefix_append]
    rfl
  | none =>
    have hline : optionalLine pre none ++ lines = lines := rfl
    rw [hline]
    cases lines with
    | nil => rfl
    | cons line lines =>
      rw [dropOptional, h line rfl]
      rfl

theorem exists_entries {lines : List String}
    (h : ∀ l ∈ lines, (stripPrefix l "- ").isSome = true) :
    ∃ values : List String, lines = values.map ("- " ++ ·) := by
  induction lines with
  | nil => exact ⟨[], rfl⟩
  | cons line lines ih =>
    obtain ⟨hline, hlines⟩ := forall_mem_cons.mp h
    obtain ⟨value, hvalue⟩ := isSome_iff_exists.mp hline
    obtain ⟨values, rfl⟩ := ih hlines
    rw [stripPrefix_eq_some_iff] at hvalue
    exact ⟨value :: values, by rw [hvalue, map_cons]⟩

theorem isResourceLines_iff {lines : List String} :
    isResourceLines lines = true ↔ ∃ resources, resources ≠ some [] ∧
      lines = resourceLines resources := by
  constructor
  · intro h
    cases lines with
    | nil => exact ⟨none, by simp, rfl⟩
    | cons line lines =>
      simp only [isResourceLines, Bool.and_eq_true, beq_iff_eq, Bool.not_eq_true',
        List.isEmpty_eq_false_iff, List.all_eq_true] at h
      obtain ⟨⟨rfl, hne⟩, hentries⟩ := h
      obtain ⟨values, rfl⟩ := exists_entries hentries
      exact ⟨some values, by simpa using hne, rfl⟩
  · rintro ⟨resources, hne, rfl⟩
    cases resources with
    | none => rfl
    | some values =>
      have hvalues : values ≠ [] := by simpa using hne
      simp [resourceLines, isResourceLines, hvalues]

variable {resources : Option (List String)}

theorem mem_head_resourceLines {line : String} (h : line ∈ (resourceLines resources).head?) :
    line = "Resources:" := by
  cases resources with
  | none => cases h
  | some values => exact (some.inj h).symm

theorem isCanonicalTail_iff {lines : List String} :
    isCanonicalTail lines = true ↔ ∃ expirationTime notBefore requestId resources,
      resources ≠ some [] ∧
        lines = optionalLines expirationTime notBefore requestId resources := by
  rw [isCanonicalTail, isResourceLines_iff]
  constructor
  · rintro ⟨resources, hne, hlines⟩
    obtain ⟨expirationTime, hexpiration⟩ := exists_optionalLine "Expiration Time: " lines
    obtain ⟨notBefore, hbefore⟩ := exists_optionalLine "Not Before: "
      (dropOptional "Expiration Time: " lines)
    obtain ⟨requestId, hrequest⟩ := exists_optionalLine "Request ID: "
      (dropOptional "Not Before: " (dropOptional "Expiration Time: " lines))
    refine ⟨expirationTime, notBefore, requestId, resources, hne, ?_⟩
    rw [optionalLines, ← hlines, ← hrequest, ← hbefore, ← hexpiration]
  · rintro ⟨expirationTime, notBefore, requestId, resources, hne, rfl⟩
    have hresources : ∀ line ∈ (resourceLines resources).head?,
        stripPrefix line "Request ID: " = none := by
      intro line hline
      rw [mem_head_resourceLines hline]
      decide
    have hrequest : ∀ line ∈ (optionalLine "Request ID: " requestId ++
        resourceLines resources).head?, stripPrefix line "Not Before: " = none := by
      intro line hline
      obtain ⟨v, rfl⟩ | hline := mem_head_optionalLine hline
      · exact stripPrefix_append_eq_none (a := 'R') (b := 'N') (by decide) (by decide) (by decide)
      · rw [mem_head_resourceLines hline]
        decide
    have hbefore : ∀ line ∈ (optionalLine "Not Before: " notBefore ++
        (optionalLine "Request ID: " requestId ++ resourceLines resources)).head?,
          stripPrefix line "Expiration Time: " = none := by
      intro line hline
      obtain ⟨v, rfl⟩ | hline := mem_head_optionalLine hline
      · exact stripPrefix_append_eq_none (a := 'N') (b := 'E') (by decide) (by decide) (by decide)
      obtain ⟨v, rfl⟩ | hline := mem_head_optionalLine hline
      · exact stripPrefix_append_eq_none (a := 'R') (b := 'E') (by decide) (by decide) (by decide)
      · rw [mem_head_resourceLines hline]
        decide
    refine ⟨resources, hne, ?_⟩
    rw [optionalLines, dropOptional_append _ hbefore, dropOptional_append _ hrequest,
      dropOptional_append _ hresources]

/-! ### What is read at the end -/

variable {Sig VerifyingKey : Type} (P : Platform Sig VerifyingKey)

def parseOptionalTime : Option String → Except EvmAuthError (Option Int)
  | none => .ok none
  | some value => (parseTime P value).bind fun time => .ok (some time)

theorem parseOptionalTime_eq_ok_iff {time : Option Int} :
    parseOptionalTime P value = .ok time ↔ value.map P.parseRfc3339 = time.map some := by
  cases value with
  | none => cases time <;> simp [parseOptionalTime]
  | some v =>
    rw [parseOptionalTime, parseTime]
    cases hparse : P.parseRfc3339 v with
    | none | some t => cases time <;> simp [Except.bind, hparse]

theorem takeOptional_entries (message : SiweMessage) (values : List String) :
    takeOptional P message (values.map ("- " ++ ·)) =
      .ok { message with resources := message.resources ++ values } := by
  induction values generalizing message with
  | nil =>
    simp [takeOptional]
  | cons value values ih =>
    simp [takeOptional_entry, ih]

theorem takeOptional_resourceLines (message : SiweMessage) (resources : Option (List String)) :
    takeOptional P message (resourceLines resources) =
      .ok { message with resources := message.resources ++ resources.getD [] } := by
  cases resources with
  | none => rw [resourceLines, takeOptional, getD_none, append_nil]
  | some values => exact (takeOptional_marker P _ _).trans (takeOptional_entries P message values)

theorem takeOptional_optionalLines {message : SiweMessage}
    (expirationTime notBefore requestId : Option String) (resources : Option (List String))
    (hexpiration : message.expirationTime = none) (hbefore : message.notBefore = none)
    (hrequest : message.requestId = none) (hresources : message.resources = []) :
    takeOptional P message (optionalLines expirationTime notBefore requestId resources) =
      (parseOptionalTime P expirationTime).bind fun expirationTime =>
      (parseOptionalTime P notBefore).bind fun notBefore =>
        .ok { message with
          expirationTime := expirationTime
          notBefore := notBefore
          requestId := requestId
          resources := resources.getD [] } := by
  have hlast : ∀ message : SiweMessage, message.requestId = none → message.resources = [] →
      takeOptional P message (optionalLine "Request ID: " requestId ++ resourceLines resources) =
        .ok { message with requestId := requestId, resources := resources.getD [] } := by
    intro message hrequest hresources
    cases requestId with
    | none =>
      have hline : optionalLine "Request ID: " none ++ resourceLines resources =
          resourceLines resources := rfl
      rw [hline, takeOptional_resourceLines, hresources, ← hrequest]
      rfl
    | some v =>
      exact (takeOptional_requestId P message v _).trans
        ((takeOptional_resourceLines P _ resources).trans (by rw [hresources]; rfl))
  have hmiddle : ∀ message : SiweMessage, message.notBefore = none → message.requestId = none →
      message.resources = [] →
      takeOptional P message (optionalLine "Not Before: " notBefore ++
        (optionalLine "Request ID: " requestId ++ resourceLines resources)) =
        (parseOptionalTime P notBefore).bind fun notBefore =>
          .ok { message with
            notBefore := notBefore
            requestId := requestId
            resources := resources.getD [] } := by
    intro message hbefore hrequest hresources
    cases notBefore with
    | none =>
      refine (hlast message hrequest hresources).trans ?_
      rw [parseOptionalTime, Except.bind, ← hbefore]
    | some v =>
      refine (takeOptional_notBefore P message v _).trans ?_
      rw [parseOptionalTime]
      cases parseTime P v with
      | error e => rfl
      | ok time => exact hlast _ hrequest hresources
  cases expirationTime with
  | none =>
    refine (hmiddle message hbefore hrequest hresources).trans ?_
    rw [parseOptionalTime, Except.bind, ← hexpiration]
  | some v =>
    refine (takeOptional_expirationTime P message v _).trans ?_
    rw [parseOptionalTime]
    cases parseTime P v with
    | error e => rfl
    | ok time => exact hmiddle _ hbefore hrequest hresources

/-- The fields that are read before. -/
def SiweMessage.base (message : SiweMessage) : SiweMessage :=
  { message with expirationTime := none, notBefore := none, requestId := none, resources := [] }

theorem base_of_takeOptional {message message' : SiweMessage} {lines : List String}
    (h : takeOptional P message lines = .ok message') : message'.base = message.base := by
  induction lines generalizing message with
  | nil =>
    cases h
    rfl
  | cons line lines ih =>
    rw [takeOptional] at h
    split at h
    · obtain ⟨time, -, h⟩ := bind_eq_ok_iff.mp h
      exact (ih h).trans rfl
    · split at h
      · obtain ⟨time, -, h⟩ := bind_eq_ok_iff.mp h
        exact (ih h).trans rfl
      · split at h
        · exact (ih h).trans rfl
        · split at h
          · exact ih h
          · split at h
            · exact (ih h).trans rfl
            · cases h

/-! ### The statement -/

/-- A line that the statement goes on with. -/
def addLine (statement line : String) : String :=
  (if statement.isEmpty then statement else statement ++ "\n") ++ line

theorem joinLines_cons_cons (a b : String) (ls : List String) :
    joinLines (a :: b :: ls) = joinLines ((a ++ "\n" ++ b) :: ls) := by
  refine String.toList_inj.mp ?_
  simp [toList_joinLines, intercalate_cons_eq_flatMap, String.toList_append]

theorem foldl_addLine {statement : String} (h : statement ≠ "") (ls : List String) :
    ls.foldl addLine statement = joinLines (statement :: ls) := by
  induction ls generalizing statement with
  | nil => simp [joinLines]
  | cons line ls ih =>
    have hempty : ¬ statement.isEmpty = true := by simpa using h
    have hne : statement ++ "\n" ++ line ≠ "" := by simp
    simp [addLine, hempty, ih hne, joinLines_cons_cons]

variable {ls : List String}

theorem foldl_addLine_empty (h : ∀ l ∈ ls, l ≠ "") : ls.foldl addLine "" = joinLines ls := by
  cases ls with
  | nil => rfl
  | cons line ls =>
    have hline : line ≠ "" := h line List.mem_cons_self
    have hfirst : addLine "" line = line := by simp [addLine]
    simp [hfirst, foldl_addLine hline]

theorem takeStatement_append (statement : String) (h : ∀ l ∈ ls, l ≠ "") (lines : List String) :
    takeStatement statement (ls ++ "" :: lines) = (ls.foldl addLine statement, lines) := by
  induction ls generalizing statement with
  | nil => rfl
  | cons line ls ih =>
    obtain ⟨hline, hls⟩ := forall_mem_cons.mp h
    have hempty : ¬ line.isEmpty = true := by simpa using hline
    rw [cons_append, takeStatement, if_neg hempty, foldl_cons]
    exact ih (addLine statement line) hls

theorem exists_statement (statement : String) (lines : List String) :
    (∃ ls rest, (∀ l ∈ ls, l ≠ "") ∧ lines = ls ++ "" :: rest) ∨
      (takeStatement statement lines).2 = [] := by
  induction lines generalizing statement with
  | nil => exact .inr rfl
  | cons line lines ih =>
    by_cases hline : line = ""
    · exact .inl ⟨[], lines, by simp, by rw [hline]; rfl⟩
    · have hempty : ¬ line.isEmpty = true := by simpa using hline
      rw [takeStatement, if_neg hempty]
      obtain ⟨ls, rest, hls, rfl⟩ | hnil := ih (addLine statement line)
      · exact .inl ⟨line :: ls, rest, forall_mem_cons.mpr ⟨hline, hls⟩, rfl⟩
      · exact .inr hnil

/-! ### What the parser accepts -/

/-- The five fields, and the lines behind them. -/
def fieldLines (uri version chain nonce issued : String) (lines : List String) : List String :=
  ("URI: " ++ uri) :: ("Version: " ++ version) :: ("Chain ID: " ++ chain) :: ("Nonce: " ++ nonce) ::
    ("Issued At: " ++ issued) :: lines

/-- The texts that a reader of a message finds. -/
structure Scan where
  domain : String
  line : String
  statement : List String
  uri : String
  version : String
  chain : String
  nonce : String
  issued : String
  tail : List String

def Scan.lines (s : Scan) : List String :=
  (s.domain ++ headerSuffix) :: s.line :: "" ::
    (s.statement ++ "" :: fieldLines s.uri s.version s.chain s.nonce s.issued s.tail)

/-- The texts are those of an acceptable message. -/
structure Scan.Reads (s : Scan) (account : EvmAddress) (chainId : Nat) (issuedAt : Int) : Prop where
  domain : s.domain ≠ ""
  account : EvmAddress.parse s.line = .ok account
  statement : ∀ l ∈ s.statement, l ≠ ""
  version : parseU8 s.version = some 1
  chainId : parseU64 s.chain = some chainId
  length : 8 ≤ s.nonce.utf8ByteSize
  nonce : s.nonce.toList.all isAsciiAlphanumeric = true
  issuedAt : P.parseRfc3339 s.issued = some issuedAt

def Scan.statementText (s : Scan) : Option String :=
  if (joinLines s.statement).isEmpty then none else some (joinLines s.statement)

/-- The message, before the lines at the end are read. -/
def Scan.message (s : Scan) (account : EvmAddress) (chainId : Nat) (issuedAt : Int) : SiweMessage :=
  ⟨s.domain, account, s.statementText, s.uri, 1, chainId, s.nonce, issuedAt, none, none, none, []⟩

theorem takeField_eq_ok_iff {value : String} {lines rest : List String} :
    takeField pre lines = .ok (value, rest) ↔ lines = (pre ++ value) :: rest := by
  constructor
  · intro h
    cases lines with
    | nil => cases h
    | cons line lines =>
      rw [takeField] at h
      split at h
      · next hvalue =>
        obtain ⟨rfl, rfl⟩ := Prod.mk.inj (Except.ok.inj h)
        rw [stripPrefix_eq_some_iff.mp hvalue]
      · cases h
  · rintro rfl
    exact takeField_append pre value rest

variable {P}

variable {m : SiweMessage}

theorem exists_of_parseFields {domain : String} {account : EvmAddress} {statement : Option String}
    {lines : List String} (h : parseFields P domain account statement lines = .ok m) :
    ∃ uri version chain nonce issued tail chainId issuedAt,
      lines = fieldLines uri version chain nonce issued tail ∧ parseU8 version = some 1 ∧
      parseU64 chain = some chainId ∧ 8 ≤ nonce.utf8ByteSize ∧
      nonce.toList.all isAsciiAlphanumeric = true ∧ P.parseRfc3339 issued = some issuedAt ∧
      takeOptional P
        ⟨domain, account, statement, uri, 1, chainId, nonce, issuedAt, none, none, none, []⟩ tail =
          .ok m := by
  rw [parseFields] at h
  obtain ⟨⟨uri, lines1⟩, huri, h⟩ := bind_ok_iff.mp h
  obtain ⟨⟨version, lines2⟩, hversionLine, h⟩ := bind_ok_iff.mp h
  dsimp only at h
  split at h
  · cases h
  next n hversion =>
  split at h
  · cases h
  next hone =>
  obtain rfl : n = 1 := by simpa using hone
  obtain ⟨⟨chain, lines3⟩, hchainLine, h⟩ := bind_ok_iff.mp h
  dsimp only at h
  split at h
  · cases h
  next chainId hchain =>
  obtain ⟨⟨nonce, lines4⟩, hnonceLine, h⟩ := bind_ok_iff.mp h
  dsimp only at h
  split at h
  · cases h
  next hgood =>
  obtain ⟨⟨issued, tail⟩, hissuedLine, h⟩ := bind_ok_iff.mp h
  obtain ⟨issuedAt, hissued, h⟩ := bind_ok_iff.mp h
  rw [parseTime] at hissued
  split at hissued
  next time htime =>
    obtain rfl := Except.ok.inj hissued
    rw [takeField_eq_ok_iff] at huri hversionLine hchainLine hnonceLine hissuedLine
    simp only [Bool.or_eq_true, decide_eq_true_eq, Bool.not_eq_true', not_or, Nat.not_lt,
      Bool.not_eq_false] at hgood
    refine ⟨uri, version, chain, nonce, issued, tail, chainId, time, ?_, hversion, hchain, hgood.1,
      hgood.2, htime, h⟩
    rw [huri, hversionLine, hchainLine, hnonceLine, hissuedLine, fieldLines]
  · cases hissued

variable {t : String}

theorem parse_eq_ok_iff :
    SiweMessage.parse P t = .ok m ↔ ∃ s account chainId issuedAt, splitLines t = Scan.lines s ∧
      s.Reads P account chainId issuedAt ∧
        takeOptional P (s.message account chainId issuedAt) s.tail = .ok m := by
  constructor
  · intro h
    rw [SiweMessage.parse, ← splitLines] at h
    split at h
    · cases h
    next header lines hheader =>
    split at h
    · cases h
    next domain hdomain =>
    split at h
    · cases h
    next hne =>
    split at h
    · cases h
    next line lines =>
    obtain ⟨account, haccount, h⟩ := bind_ok_iff.mp h
    dsimp only at h
    split at h
    next lines _ =>
      obtain ⟨ls, rest, hls, rfl⟩ | hnil := exists_statement "" lines
      · rw [takeStatement_append "" hls, foldl_addLine_empty hls] at h
        obtain ⟨uri, version, chain, nonce, issued, tail, chainId, issuedAt, rfl, hversion, hchain,
          hlength, hnonce, hissued, h⟩ := exists_of_parseFields h
        refine ⟨⟨domain, line, ls, uri, version, chain, nonce, issued, tail⟩, account, chainId,
          issuedAt, ?_, ⟨by simpa using hne, haccount, hls, hversion, hchain, hlength, hnonce,
            hissued⟩, h⟩
        rw [hheader, stripSuffix_eq_some_iff.mp hdomain, Scan.lines]
      · rw [hnil] at h
        cases h
    · cases h
  · rintro ⟨s, account, chainId, issuedAt, hlines, hreads, h⟩
    have hfields : parseFields P s.domain account s.statementText
        (fieldLines s.uri s.version s.chain s.nonce s.issued s.tail) = .ok m := by
      rw [fieldLines, parseFields_of_lines P hreads.version hreads.chainId hreads.length
        hreads.nonce hreads.issuedAt]
      exact h
    have hstatement := takeStatement_append "" hreads.statement
      (fieldLines s.uri s.version s.chain s.nonce s.issued s.tail)
    rw [foldl_addLine_empty hreads.statement] at hstatement
    rw [SiweMessage.parse, ← splitLines, hlines, Scan.lines]
    dsimp only
    rw [stripSuffix_append]
    dsimp only
    rw [if_neg (by simpa using hreads.domain), hreads.account, Except.bind]
    split
    next lines hrest =>
      obtain rfl := (cons.inj hrest).2
      rwa [hstatement]
    next hblank => exact absurd rfl (hblank _)

/-! ### The text of a layout -/

def Layout.tail (l : Layout) : List String :=
  optionalLines l.expirationTime l.notBefore l.requestId l.resources

def Layout.text (l : Layout) : String :=
  joinLines ((l.domain ++ headerSuffix) :: l.address :: "" ::
    (l.statement.toList ++ "" ::
      fieldLines l.uri l.version l.chainId l.nonce l.issuedAt l.tail))

/-- What stands in lines of its own. -/
def Layout.parts (l : Layout) : List String :=
  [l.domain, l.address, l.uri, l.version, l.chainId, l.nonce, l.issuedAt] ++
    (l.expirationTime.toList ++ (l.notBefore.toList ++ (l.requestId.toList ++
      l.resources.getD [])))

theorem Layout.oneLine_parts_iff (l : Layout) : (∀ part ∈ l.parts, OneLine part) ↔
    OneLine l.domain ∧ OneLine l.address ∧ OneLine l.uri ∧ OneLine l.version ∧ OneLine l.chainId ∧
      OneLine l.nonce ∧ OneLine l.issuedAt ∧ (∀ v ∈ l.expirationTime, OneLine v) ∧
      (∀ v ∈ l.notBefore, OneLine v) ∧ (∀ v ∈ l.requestId, OneLine v) ∧
      ∀ v ∈ l.resources.getD [], OneLine v := by
  simp only [Layout.parts, forall_mem_append, forall_mem_cons, not_mem_nil,
    IsEmpty.forall_iff, implies_true, and_true, mem_toList, mem_def, and_assoc]

theorem oneLine_optionalLine_iff (hpre : OneLine pre) :
    (∀ line ∈ optionalLine pre value, OneLine line) ↔ ∀ v ∈ value, OneLine v := by
  cases value with
  | none => simp [optionalLine]
  | some v =>
    simp only [optionalLine, map_some, toList_some, mem_singleton, forall_eq,
      mem_some_iff, forall_eq']
    exact oneLine_append_iff.trans (and_iff_right hpre)

theorem oneLine_resourceLines_iff :
    (∀ line ∈ resourceLines resources, OneLine line) ↔ ∀ v ∈ resources.getD [], OneLine v := by
  cases resources with
  | none => simp [resourceLines]
  | some values =>
    have hmarker : OneLine "Resources:" := by decide
    have hentry : OneLine "- " := by decide
    simp only [resourceLines, List.forall_mem_cons, hmarker, true_and, List.forall_mem_map,
      Option.getD_some]
    exact forall₂_congr fun v _ => oneLine_append_iff.trans (and_iff_right hentry)

theorem oneLine_optionalLines_iff {expirationTime notBefore requestId : Option String} :
    (∀ line ∈ optionalLines expirationTime notBefore requestId resources, OneLine line) ↔
      (∀ v ∈ expirationTime, OneLine v) ∧ (∀ v ∈ notBefore, OneLine v) ∧
        (∀ v ∈ requestId, OneLine v) ∧ ∀ v ∈ resources.getD [], OneLine v := by
  rw [optionalLines, forall_mem_append, forall_mem_append, forall_mem_append,
    oneLine_optionalLine_iff (by decide), oneLine_optionalLine_iff (by decide),
    oneLine_optionalLine_iff (by decide), oneLine_resourceLines_iff]

theorem oneLine_fieldLines_iff {uri version chain nonce issued : String} {lines : List String} :
    (∀ line ∈ fieldLines uri version chain nonce issued lines, OneLine line) ↔
      OneLine uri ∧ OneLine version ∧ OneLine chain ∧ OneLine nonce ∧ OneLine issued ∧
        ∀ line ∈ lines, OneLine line := by
  have hfield : ∀ pre value : String, OneLine pre → (OneLine (pre ++ value) ↔ OneLine value) :=
    fun pre value hpre => oneLine_append_iff.trans (and_iff_right hpre)
  simp only [fieldLines, forall_mem_cons]
  rw [hfield "URI: " uri (by decide), hfield "Version: " version (by decide),
    hfield "Chain ID: " chain (by decide), hfield "Nonce: " nonce (by decide),
    hfield "Issued At: " issued (by decide)]

theorem Layout.splitLines_text {l : Layout} (h : ∀ part ∈ l.parts, OneLine part) :
    splitLines l.text = (l.domain ++ headerSuffix) :: l.address :: "" ::
      (l.statement.toList.flatMap splitLines ++ "" ::
        fieldLines l.uri l.version l.chainId l.nonce l.issuedAt l.tail) := by
  obtain ⟨hdomain, haddress, huri, hversion, hchain, hnonce, hissued, hexpiration, hbefore,
    hrequest, hresources⟩ := l.oneLine_parts_iff.mp h
  have hblank : OneLine "" := by decide
  have hheader : OneLine (l.domain ++ headerSuffix) :=
    oneLine_append_iff.mpr ⟨hdomain, by decide⟩
  have hfields : ∀ line ∈ fieldLines l.uri l.version l.chainId l.nonce l.issuedAt l.tail,
      OneLine line :=
    oneLine_fieldLines_iff.mpr ⟨huri, hversion, hchain, hnonce, hissued,
      oneLine_optionalLines_iff.mpr ⟨hexpiration, hbefore, hrequest, hresources⟩⟩
  simp [Layout.text, splitLines_joinLines (cons_ne_nil _ _), flatMap_splitLines hfields,
    hheader.splitLines, haddress.splitLines, hblank.splitLines]

/-! ### A text and what is parsed -/

variable (P) in
/-- The parts are those of the message, but for how numbers, times and the account are written. -/
structure Layout.Spells (l : Layout) (m : SiweMessage) : Prop where
  domain : l.domain = m.domain
  address : EvmAddress.parse l.address = .ok m.address
  statement : l.statement = m.statement
  uri : l.uri = m.uri
  version : parseU8 l.version = some m.version
  chainId : parseU64 l.chainId = some m.chainId
  nonce : l.nonce = m.nonce
  issuedAt : P.parseRfc3339 l.issuedAt = some m.issuedAt
  expirationTime : l.expirationTime.map P.parseRfc3339 = m.expirationTime.map some
  notBefore : l.notBefore.map P.parseRfc3339 = m.notBefore.map some
  requestId : l.requestId = m.requestId
  resources : l.resources = if m.resources = [] then none else some m.resources
  oneLine : ∀ part ∈ l.parts, OneLine part

variable (P) in
/-- The message, in the layout of the standard, is this text. -/
def Renders (m : SiweMessage) (t : String) : Prop := ∃ l : Layout, l.Spells P m ∧ l.text = t

/-- The lines at the end of a text: those after the first five behind the statement. -/
def tailOf (t : String) : List String :=
  (takeStatement "" ((splitLines t).drop 3)).2.drop 5

theorem tailOf_eq {s : Scan} (hlines : splitLines t = s.lines) (h : ∀ l ∈ s.statement, l ≠ "") :
    tailOf t = s.tail := by
  have hdrop : s.lines.drop 3 =
      s.statement ++ "" :: fieldLines s.uri s.version s.chain s.nonce s.issued s.tail := rfl
  rw [tailOf, hlines, hdrop, takeStatement_append "" h]
  rfl

theorem Scan.oneLine {s : Scan} (hlines : splitLines t = s.lines) :
    OneLine s.domain ∧ OneLine s.line ∧ (∀ l ∈ s.statement, OneLine l) ∧
      ∀ l ∈ fieldLines s.uri s.version s.chain s.nonce s.issued s.tail, OneLine l := by
  have hall : ∀ l ∈ s.lines, OneLine l := fun l hl => oneLine_of_mem_splitLines (hlines ▸ hl)
  simp only [Scan.lines, forall_mem_cons, forall_mem_append] at hall
  obtain ⟨hheader, hline, -, hstatement, -, hfields⟩ := hall
  exact ⟨(oneLine_append_iff.mp hheader).1, hline, hstatement, hfields⟩

theorem Scan.splitLines_statementText {s : Scan} (hne : ∀ l ∈ s.statement, l ≠ "")
    (hone : ∀ l ∈ s.statement, OneLine l) :
    s.statementText.toList.flatMap splitLines = s.statement := by
  by_cases hnil : s.statement = []
  · rw [Scan.statementText, hnil]
    rfl
  · have hlines : splitLines (joinLines s.statement) = s.statement := by
      rw [splitLines_joinLines hnil, flatMap_splitLines hone]
    have htext : ¬ (joinLines s.statement).isEmpty = true := by
      intro hempty
      have hblank : s.statement = [""] := by
        rw [← hlines, String.isEmpty_iff.mp hempty]
        rfl
      exact hne "" (by rw [hblank]; exact List.mem_singleton_self "") rfl
    simp [Scan.statementText, htext, toList_some, hlines]

theorem isCanonicalTail_of_renders (h : SiweMessage.parse P t = .ok m) (hrenders : Renders P m t) :
    isCanonicalTail (tailOf t) = true := by
  obtain ⟨s, account, chainId, issuedAt, hlines, hreads, htail⟩ := parse_eq_ok_iff.mp h
  obtain ⟨l, hspells, rfl⟩ := hrenders
  have hstatement : l.statement = s.statementText :=
    hspells.statement.trans (congrArg SiweMessage.statement (base_of_takeOptional P htail))
  have hone := Scan.oneLine hlines
  have hsame := (Layout.splitLines_text hspells.oneLine).symm.trans hlines
  rw [hstatement, Scan.splitLines_statementText hreads.statement hone.2.2.1, Scan.lines] at hsame
  have hfields := append_cancel_left
    (cons.inj (cons.inj (cons.inj hsame).2).2).2
  have htails : l.tail = s.tail := congrArg (drop 6) hfields
  rw [tailOf_eq hlines hreads.statement, ← htails]
  refine isCanonicalTail_iff.mpr ⟨_, _, _, _, ?_, rfl⟩
  rw [hspells.resources]
  split
  · simp
  · next hne => simpa using hne

theorem renders_of_isCanonicalTail (h : SiweMessage.parse P t = .ok m)
    (hcanonical : isCanonicalTail (tailOf t) = true) : Renders P m t := by
  obtain ⟨s, account, chainId, issuedAt, hlines, hreads, htail⟩ := parse_eq_ok_iff.mp h
  rw [tailOf_eq hlines hreads.statement] at hcanonical
  obtain ⟨expirationTime, notBefore, requestId, resources, hne, hs⟩ :=
    isCanonicalTail_iff.mp hcanonical
  obtain ⟨hdomain, hline, hstatement, hfields⟩ := Scan.oneLine hlines
  rw [hs] at htail hfields
  rw [takeOptional_optionalLines P _ _ _ _ rfl rfl rfl rfl] at htail
  obtain ⟨expiration, hexpiration, htail⟩ := bind_ok_iff.mp htail
  obtain ⟨before, hbefore, htail⟩ := bind_ok_iff.mp htail
  cases htail
  obtain ⟨huri, hversion, hchain, hnonce, hissued, hoptional⟩ := oneLine_fieldLines_iff.mp hfields
  obtain ⟨hexpirationLine, hbeforeLine, hrequestLine, hresourceLines⟩ :=
    oneLine_optionalLines_iff.mp hoptional
  let l : Layout := ⟨s.domain, s.line, s.statementText, s.uri, s.version, s.chain, s.nonce,
    s.issued, expirationTime, notBefore, requestId, resources⟩
  have hparts : ∀ part ∈ l.parts, OneLine part :=
    l.oneLine_parts_iff.mpr ⟨hdomain, hline, huri, hversion, hchain, hnonce, hissued,
      hexpirationLine, hbeforeLine, hrequestLine, hresourceLines⟩
  have hresources : resources =
      if resources.getD [] = [] then none else some (resources.getD []) := by
    cases resources with
    | none => rfl
    | some values =>
      have hvalues : values ≠ [] := by simpa using hne
      exact (if_neg hvalues).symm
  refine ⟨l, ⟨rfl, hreads.account, rfl, rfl, hreads.version, hreads.chainId, rfl, hreads.issuedAt,
    (parseOptionalTime_eq_ok_iff P).mp hexpiration, (parseOptionalTime_eq_ok_iff P).mp hbefore, rfl,
    hresources, hparts⟩, ?_⟩
  have hsame : splitLines l.text = splitLines t := by
    have hstatement' := Scan.splitLines_statementText hreads.statement hstatement
    rw [Layout.splitLines_text hparts, hlines, Scan.lines, hs]
    refine congrArg (fun ls => _ :: _ :: "" :: (ls ++ _)) hstatement'
  rw [← joinLines_splitLines l.text, hsame, joinLines_splitLines]

/-! ### What the standard allows -/

variable (P) in
/-- The texts that the standard allows, of version one and with a chain of 64 bits. The times are
those that the library reads. -/
structure Layout.Canonical (l : Layout) : Prop where
  domain : l.domain ≠ ""
  address : ∃ digits : String, l.address = "0x" ++ digits ∧ digits.toList.length = 40 ∧
    ∀ c ∈ digits.toList, isAsciiHexdigit c = true
  statement : ∀ statement ∈ l.statement, statement ≠ "" ∧ OneLine statement
  version : l.version = "1"
  chainId : l.chainId ≠ "" ∧ ∀ c ∈ l.chainId.toList, c.isDigit = true
  chainId_lt : Nat.ofDigitChars 10 l.chainId.toList 0 < 2 ^ 64
  nonce : 8 ≤ l.nonce.toList.length ∧ ∀ c ∈ l.nonce.toList, isAsciiAlphanumeric c = true
  issuedAt : (P.parseRfc3339 l.issuedAt).isSome = true
  expirationTime : ∀ time ∈ l.expirationTime, (P.parseRfc3339 time).isSome = true
  notBefore : ∀ time ∈ l.notBefore, (P.parseRfc3339 time).isSome = true
  oneLine : ∀ part ∈ l.parts, OneLine part

theorem exists_parse_address {digits : String} (hlength : digits.toList.length = 40)
    (hdigits : ∀ c ∈ digits.toList, isAsciiHexdigit c = true) :
    ∃ account, EvmAddress.parse ("0x" ++ digits) = .ok account := by
  obtain ⟨bs, hbs, hn⟩ := exists_hexDecodeChars (n := 20) hlength hdigits
  have hsize : digits.utf8ByteSize = 40 := by
    rw [← hlength]
    refine utf8ByteSize_eq_length fun c hc => ?_
    have hdigit := hdigits c hc
    simp only [isAsciiHexdigit, Char.isHexDigit, Char.isDigit, Bool.or_eq_true, Bool.and_eq_true,
      decide_eq_true_eq, ge_iff_le, UInt32.le_iff_toNat_le] at hdigit ⊢
    simp at hdigit ⊢
    omega
  rw [EvmAddress.parse, stripPrefix_append, getD_some, if_neg (by rw [hsize]; decide),
    hexDecode, hbs]
  dsimp only
  rw [dif_pos hn]
  exact ⟨_, rfl⟩

theorem parseU64_of_digits {s : String} (hne : s ≠ "") (hdigits : ∀ c ∈ s.toList, c.isDigit = true)
    (hlt : Nat.ofDigitChars 10 s.toList 0 < 2 ^ 64) :
    parseU64 s = some (Nat.ofDigitChars 10 s.toList 0) := by
  have hplus : s.toList.head? ≠ some '+' := fun hhead =>
    absurd (hdigits '+' (mem_of_mem_head? hhead)) (by decide)
  have hnil : s.toList ≠ [] := by simpa using hne
  rw [parseU64, if_neg hplus, if_neg (by simpa [hnil] using hdigits), if_pos hlt]

theorem utf8ByteSize_of_alphanumeric {s : String}
    (h : ∀ c ∈ s.toList, isAsciiAlphanumeric c = true) : s.utf8ByteSize = s.toList.length :=
  utf8ByteSize_eq_length fun c hc =>
    UInt32.le_iff_toNat_le.mpr (toNat_le_of_isAlphanum (h c hc))

theorem exists_parseOptionalTime {time : Option String}
    (h : ∀ t ∈ time, (P.parseRfc3339 t).isSome = true) :
    ∃ value, parseOptionalTime P time = .ok value := by
  cases time with
  | none => exact ⟨none, rfl⟩
  | some t =>
    obtain ⟨value, hvalue⟩ := isSome_iff_exists.mp (h t rfl)
    exact ⟨some value, by rw [parseOptionalTime, parseTime, hvalue, Except.bind]⟩

theorem parse_of_canonical {l : Layout} (h : l.Canonical P) :
    ∃ m, SiweMessage.parse P l.text = .ok m := by
  obtain ⟨digits, haddress, hlength, hdigits⟩ := h.address
  obtain ⟨account, haccount⟩ := exists_parse_address hlength hdigits
  obtain ⟨issuedAt, hissued⟩ := isSome_iff_exists.mp h.issuedAt
  obtain ⟨expiration, hexpiration⟩ := exists_parseOptionalTime h.expirationTime
  obtain ⟨before, hbefore⟩ := exists_parseOptionalTime h.notBefore
  have hline : EvmAddress.parse l.address = .ok account := by
    rw [haddress, haccount]
  let s : Scan := ⟨l.domain, l.address, l.statement.toList, l.uri, l.version, l.chainId, l.nonce,
    l.issuedAt, l.tail⟩
  have hstatement : ∀ line ∈ l.statement.toList, line ≠ "" ∧ OneLine line := by
    intro line hline
    exact h.statement line (mem_toList.mp hline)
  have hlines : splitLines l.text = s.lines := by
    rw [Layout.splitLines_text h.oneLine, flatMap_splitLines fun line hl => (hstatement line hl).2]
    rfl
  have hreads : s.Reads P account (Nat.ofDigitChars 10 l.chainId.toList 0) issuedAt :=
    { domain := h.domain
      account := hline
      statement := fun line hl => (hstatement line hl).1
      version := by
        have hone : s.version = "1" := h.version
        rw [hone]
        decide
      chainId := parseU64_of_digits h.chainId.1 h.chainId.2 h.chainId_lt
      length := by
        rw [utf8ByteSize_of_alphanumeric h.nonce.2]
        exact h.nonce.1
      nonce := all_eq_true.mpr h.nonce.2
      issuedAt := hissued }
  have htail : ∃ m, takeOptional P (s.message account (Nat.ofDigitChars 10 l.chainId.toList 0)
      issuedAt) l.tail = .ok m := by
    rw [Layout.tail, takeOptional_optionalLines P _ _ _ _ rfl rfl rfl rfl, hexpiration, Except.bind,
      hbefore, Except.bind]
    exact ⟨_, rfl⟩
  obtain ⟨m, hm⟩ := htail
  exact ⟨m, parse_eq_ok_iff.mpr ⟨s, account, _, issuedAt, hlines, hreads, hm⟩⟩

/-- **What is parsed says all that the text says exactly when the lines at the end are in order**,
and everything that the standard allows is accepted. -/
theorem parse_renders_iff (t : String) (l : Layout) :
    (∀ m, SiweMessage.parse P t = .ok m → (Renders P m t ↔ isCanonicalTail (tailOf t) = true)) ∧
      (l.Canonical P → ∃ m, SiweMessage.parse P l.text = .ok m) :=
  ⟨fun _ h => ⟨isCanonicalTail_of_renders h, renders_of_isCanonicalTail h⟩, parse_of_canonical⟩

def timelessPlatform : Platform Unit Unit where
  keccak256 _ := Vector.replicate 32 0
  parseRfc3339 _ := some 0
  debug s := s
  sigFromSlice _ := .ok ()
  normalizeS _ := none
  recoverFromPrehash _ _ _ := .ok ()
  point _ := []
  verifyPersonalSign _ _ _ _ := .ok false

def twoRequests : Scan where
  domain := "relay.example"
  line := "0x0123456789abcdefABCDEF012345678901234567"
  statement := []
  uri := "https://relay.example"
  version := "1"
  chain := "1"
  nonce := "abcdefgh"
  issued := "2026-01-01T00:00:00Z"
  tail := ["Request ID: first", "Request ID: second"]

/-- A text with two lines for the request is accepted, and one of them is dropped. -/
theorem twoRequests_dropped : ∃ m,
    SiweMessage.parse timelessPlatform (joinLines twoRequests.lines) = .ok m ∧
      m.requestId = some "second" ∧
      ¬ Renders timelessPlatform m (joinLines twoRequests.lines) := by
  have hone : ∀ l ∈ twoRequests.lines, OneLine l := by decide
  have hlines : splitLines (joinLines twoRequests.lines) = twoRequests.lines :=
    (splitLines_joinLines (cons_ne_nil _ _)).trans (flatMap_splitLines hone)
  have haddress : ∃ account,
      EvmAddress.parse ("0x" ++ "0123456789abcdefABCDEF012345678901234567") = .ok account :=
    exists_parse_address (by decide) (all_eq_true.mp (by decide))
  obtain ⟨account, haccount⟩ := haddress
  have hreads : twoRequests.Reads timelessPlatform account 1 0 :=
    ⟨by decide, haccount, by decide, by decide, by decide, by decide, by decide, rfl⟩
  have htail : takeOptional timelessPlatform (twoRequests.message account 1 0) twoRequests.tail =
      .ok { twoRequests.message account 1 0 with requestId := some "second" } :=
    (takeOptional_requestId _ _ "first" _).trans (takeOptional_requestId _ _ "second" _)
  have hparse := parse_eq_ok_iff.mpr ⟨twoRequests, account, 1, 0, hlines, hreads, htail⟩
  refine ⟨_, hparse, rfl, fun hrenders => ?_⟩
  have hcanonical := isCanonicalTail_of_renders hparse hrenders
  rw [tailOf_eq hlines hreads.statement] at hcanonical
  exact absurd hcanonical (by decide)

/-- Everything that may be missing is there. -/
def fullLayout : Layout where
  domain := "relay.example"
  address := "0x0123456789abcdefABCDEF012345678901234567"
  statement := some "Sign in."
  uri := "https://relay.example"
  version := "1"
  chainId := "1"
  nonce := "abcdefgh"
  issuedAt := "2026-01-01T00:00:00Z"
  expirationTime := some "2026-01-02T00:00:00Z"
  notBefore := some "2026-01-01T00:00:00Z"
  requestId := some "first"
  resources := some ["https://relay.example/a", "https://relay.example/b"]

/-- The layout with everything is accepted. -/
theorem parse_renders_demo : ∃ m, SiweMessage.parse timelessPlatform fullLayout.text = .ok m :=
  (parse_renders_iff (P := timelessPlatform) "" fullLayout).2
    { domain := by decide
      address := ⟨"0123456789abcdefABCDEF012345678901234567", by decide, by decide,
        all_eq_true.mp (by decide)⟩
      statement := by decide
      version := rfl
      chainId := ⟨by decide, all_eq_true.mp (by decide)⟩
      chainId_lt := by decide
      nonce := ⟨by decide, all_eq_true.mp (by decide)⟩
      issuedAt := rfl
      expirationTime := by decide
      notBefore := by decide
      oneLine := by decide }

end Buzz.EvmAuth
