import Buzz.Lib.Splitting
import Buzz.Lib.Utf8
import Buzz.Relay.Git.Publish
import Mathlib.Data.List.Dedup

/-!
# Reading a workspace

After a push the refs are read from the workspace: git lists them, one name and one object id in a
line, and the list becomes the refs of the next manifest. A line that is not a name and forty
hexadecimal digits is left out, and so is the whole list when it is not UTF-8.

What running git answers is a parameter.
-/

namespace Buzz.Git

open List

/-- `str::lines`: without the line breaks, and without an empty line after the last of them. -/
def lines (s : String) : List String :=
  let parts := s.toList.splitOn '\n'
  let ended := parts.dropLast.map fun line =>
    if line.getLast? = some '\r' then line.dropLast else line
  let last := (parts.getLast?.filter fun line => !line.isEmpty).toList
  (ended ++ last).map String.ofList

def maxRefSnapshotBytes : Nat := 4 * 1024 * 1024

structure GitRun where
  success : Bool
  code : Option Int
  stdout : List UInt8
  /-- The first 64 KiB of what it wrote to standard error. -/
  stderr : String

/-- The `Debug` form of an exit code. -/
def debugCode : Option Int → String
  | some code => "Some(" ++ toString code ++ ")"
  | none => "None"

/-- What the runs of git in a workspace answer. An error is that of a step around the run, with the
name of the step. -/
structure WorkspaceRuns where
  forEachRef : Except String GitRun
  readStdout : Option String
  symbolicRef : Except String GitRun

/-- A line of the list, if it is a name and an object id of forty digits. -/
def parseRefLine (line : String) : Option (String × String) :=
  (splitOnce ' ' line.toList).bind fun (name, oid) =>
    if (String.ofList oid).utf8ByteSize = 40 ∧ oid.all isAsciiHexdigit = true then
      some (String.ofList name, String.ofList oid)
    else none

def collectRefs : RefMap → List String → Except CasError RefMap
  | refs, [] => .ok refs
  | refs, line :: rest =>
    match parseRefLine line with
    -- a line without a space, or with a malformed object id, is skipped
    | none => collectRefs refs rest
    | some (name, oid) =>
      if maxManifestRefs ≤ refs.size ∧ !refs.contains name then
        .error (.resourceLimit ("workspace contains more than " ++ Nat.repr maxManifestRefs ++
          " refs"))
      else collectRefs (refs.insert name oid) rest

/-- Read the refs and the symbolic HEAD from the workspace. -/
def snapshotWorkspaceState (runs : WorkspaceRuns) : Except CasError (RefMap × String) := do
  let run ← runs.forEachRef.mapError .packCapture
  if !run.success then
    .error (.packCapture ("for-each-ref failed: status=" ++ debugCode run.code ++ " stderr=" ++
      run.stderr))
  else if maxRefSnapshotBytes < run.stdout.length then
    .error (.resourceLimit ("ref snapshot is " ++ Nat.repr run.stdout.length ++ " bytes (max " ++
      Nat.repr maxRefSnapshotBytes ++ ")"))
  else
    match runs.readStdout with
    | some e => .error (.packCapture e)
    | none => do
      -- output that is not UTF-8 is read as an empty list
      let refs ← collectRefs ∅ (lines ((ofUtf8 run.stdout).getD ""))
      let head ← runs.symbolicRef.mapError .packCapture
      return (refs, if head.success then trim (lossy head.stdout) else "")

/-! ### What the list says -/

def entries (text : String) : List (String × String) := (lines text).filterMap parseRefLine

/-- The refs have everything that the output lists. -/
def Complete (output : List UInt8) (refs : RefMap) : Prop :=
  ∃ text, utf8 text = output ∧ ∀ line ∈ lines text, ∃ name oid,
    line = name ++ " " ++ oid ∧ ' ' ∉ name.toList ∧ refs[name]? = some oid

/-- Whenever there is a snapshot it has everything that git lists, and so has every manifest that is
composed from it. -/
def PublishesAll (runs : WorkspaceRuns) : Prop :=
  ∀ run refs head, runs.forEachRef = .ok run → snapshotWorkspaceState runs = .ok (refs, head) →
    Complete run.stdout refs ∧
      ∀ (H : Sha256) threshold st limits ws c, ws.refsAfter = refs →
        casPublishInner H threshold st limits ws = .ok c → Complete run.stdout c.manifest.refs

/-- Git, or a step around it, fails, or its output is too large. -/
def GitFails (runs : WorkspaceRuns) : Prop :=
  (∃ e, runs.forEachRef = .error e) ∨ (∃ e, runs.symbolicRef = .error e) ∨
    runs.readStdout.isSome = true ∨
    ∃ run, runs.forEachRef = .ok run ∧
      (run.success = false ∨ maxRefSnapshotBytes < run.stdout.length)

/-- More refs are listed than a manifest may have. -/
def TooManyRefs (output : List UInt8) : Prop :=
  ∃ text, utf8 text = output ∧ maxManifestRefs < ((entries text).map Prod.fst).dedup.length

/-- The output is text, every line is a name and an object id of forty digits, and no name has two
of them. -/
def Readable (output : List UInt8) : Prop :=
  ∃ text, utf8 text = output ∧ (∀ line ∈ lines text, (parseRefLine line).isSome = true) ∧
    ∀ name oid oid', (name, oid) ∈ entries text → (name, oid') ∈ entries text → oid = oid'

/-! ### The loop over the lines -/

def insertRefs (refs : RefMap) (entries : List (String × String)) : RefMap :=
  entries.foldl (fun refs e => refs.insert e.1 e.2) refs

theorem getElem?_insert_ref (refs : RefMap) (name oid key : String) :
    (refs.insert name oid)[key]? = if name = key then some oid else refs[key]? := by
  rw [Std.ExtTreeMap.getElem?_insert]
  simp

variable {refs : RefMap} {name : String}

theorem mem_of_getElem?_insertRefs {entries : List (String × String)} {oid : String}
    (h : (insertRefs refs entries)[name]? = some oid) :
    (name, oid) ∈ entries ∨ refs[name]? = some oid := by
  induction entries generalizing refs with
  | nil => exact Or.inr h
  | cons e entries ih =>
    rcases ih h with hmem | hold
    · exact Or.inl (mem_cons_of_mem e hmem)
    · rw [getElem?_insert_ref] at hold
      split at hold
      · next hname =>
        cases hold
        exact Or.inl (hname ▸ mem_cons_self)
      · exact Or.inr hold

theorem mem_insertRefs {entries : List (String × String)} :
    name ∈ insertRefs refs entries ↔ name ∈ entries.map Prod.fst ∨ name ∈ refs := by
  induction entries generalizing refs with
  | nil => simp [insertRefs]
  | cons e entries ih =>
    show name ∈ insertRefs (refs.insert e.1 e.2) entries ↔ _
    rw [ih, Std.ExtTreeMap.mem_insert, map_cons, mem_cons]
    simp
    tauto

theorem size_insertRefs (entries : List (String × String)) :
    (insertRefs ∅ entries).size = (entries.map Prod.fst).dedup.length := by
  rw [← Std.ExtTreeMap.length_keys]
  refine ((perm_ext_iff_of_nodup Std.ExtTreeMap.nodup_keys (nodup_dedup _)).mpr ?_).length_eq
  intro name
  rw [Std.ExtTreeMap.mem_keys, mem_insertRefs, mem_dedup]
  simp

theorem size_le_insertRefs (refs : RefMap) (entries : List (String × String)) :
    refs.size ≤ (insertRefs refs entries).size := by
  induction entries generalizing refs with
  | nil => exact le_rfl
  | cons e entries ih =>
    refine le_trans ?_ (ih (refs.insert e.1 e.2))
    rw [Std.ExtTreeMap.size_insert]
    split <;> omega

theorem collectRefs_ok_iff {r : RefMap} {lines : List String}
    (hsize : refs.size ≤ maxManifestRefs) : collectRefs refs lines = .ok r ↔
      r = insertRefs refs (lines.filterMap parseRefLine) ∧ r.size ≤ maxManifestRefs := by
  induction lines generalizing refs with
  | nil =>
    rw [collectRefs, Except.ok.injEq]
    constructor
    · rintro rfl
      exact ⟨rfl, hsize⟩
    · rintro ⟨rfl, -⟩
      rfl
  | cons line lines ih =>
    rw [collectRefs, filterMap_cons]
    cases hparse : parseRefLine line with
    | none => exact ih hsize
    | some e =>
      obtain ⟨name, oid⟩ := e
      show (if _ then _ else _) = _ ↔ r = insertRefs (refs.insert name oid) _ ∧ _
      have hins := Std.ExtTreeMap.size_insert (t := refs) (k := name) (v := oid)
      cases hold : refs.contains name with
      | true =>
        rw [hold, if_pos rfl] at hins
        rw [if_neg (by simp)]
        exact ih (hins ▸ hsize)
      | false =>
        rw [hold, if_neg Bool.false_ne_true] at hins
        split
        · next hfull =>
          refine iff_of_false nofun ?_
          rintro ⟨rfl, hle⟩
          have hmono := size_le_insertRefs (refs.insert name oid) (lines.filterMap parseRefLine)
          omega
        · next hroom =>
          have hlt : refs.size < maxManifestRefs :=
            Nat.lt_of_not_le fun hle => hroom ⟨hle, rfl⟩
          exact ih (by omega)

/-! ### Entries -/

theorem parseRefLine_eq_some_iff {line oid : String} : parseRefLine line = some (name, oid) ↔
    line = name ++ " " ++ oid ∧ ' ' ∉ name.toList ∧
      oid.utf8ByteSize = 40 ∧ oid.toList.all isAsciiHexdigit = true := by
  rw [parseRefLine, Option.bind_eq_some_iff]
  constructor
  · rintro ⟨⟨pre, post⟩, hsplit, h⟩
    obtain ⟨hpre, hline⟩ := splitOnce_eq_some_iff.mp hsplit
    simp only at h
    split at h
    · next hoid =>
      cases h
      rw [String.toList_ofList, String.toList_ofList]
      refine ⟨String.toList_inj.mp ?_, hpre, hoid⟩
      rw [hline]
      simp
    · cases h
  · rintro ⟨rfl, hname, hoid⟩
    refine ⟨(name.toList, oid.toList), splitOnce_eq_some_iff.mpr ⟨hname, by simp⟩, ?_⟩
    simp only
    rw [String.ofList_toList, String.ofList_toList, if_pos hoid]

variable {text : String}

theorem mem_entries_iff {oid : String} : (name, oid) ∈ entries text ↔
    ∃ line ∈ lines text, parseRefLine line = some (name, oid) := mem_filterMap

theorem complete_insertRefs_iff :
    Complete (utf8 text) (insertRefs ∅ (entries text)) ↔ Readable (utf8 text) := by
  have hentry : ∀ {name oid : String}, (insertRefs ∅ (entries text))[name]? = some oid →
      (name, oid) ∈ entries text := fun h =>
    (mem_of_getElem?_insertRefs h).resolve_right (by simp)
  constructor
  · rintro ⟨text', htext, hall⟩
    obtain rfl := utf8_injective htext
    have hline : ∀ line ∈ lines text', ∃ name oid, parseRefLine line = some (name, oid) ∧
        (insertRefs ∅ (entries text'))[name]? = some oid := by
      intro line hline
      obtain ⟨name, oid, rfl, hname, hoid⟩ := hall line hline
      obtain ⟨line', -, hparse⟩ := mem_entries_iff.mp (hentry hoid)
      obtain ⟨-, -, hdigits⟩ := parseRefLine_eq_some_iff.mp hparse
      exact ⟨name, oid, parseRefLine_eq_some_iff.mpr ⟨rfl, hname, hdigits⟩, hoid⟩
    have hget : ∀ {name oid : String}, (name, oid) ∈ entries text' →
        (insertRefs ∅ (entries text'))[name]? = some oid := by
      intro name oid hmem
      obtain ⟨line, hmem, hparse⟩ := mem_entries_iff.mp hmem
      obtain ⟨name', oid', hparse', hoid⟩ := hline line hmem
      cases hparse.symm.trans hparse'
      exact hoid
    refine ⟨text', rfl, fun line hmem => ?_, fun name oid oid' h h' => ?_⟩
    · obtain ⟨name, oid, hparse, -⟩ := hline line hmem
      rw [hparse]
      rfl
    · exact Option.some.inj ((hget h).symm.trans (hget h'))
  · rintro ⟨text', htext, hparse, hunique⟩
    obtain rfl := utf8_injective htext
    refine ⟨text', rfl, fun line hmem => ?_⟩
    obtain ⟨⟨name, oid⟩, he⟩ := Option.isSome_iff_exists.mp (hparse line hmem)
    obtain ⟨hline, hname, -⟩ := parseRefLine_eq_some_iff.mp he
    have hmem : (name, oid) ∈ entries text' := mem_entries_iff.mpr ⟨line, hmem, he⟩
    have hthere : name ∈ insertRefs ∅ (entries text') :=
      mem_insertRefs.mpr (Or.inl (mem_map_of_mem hmem))
    obtain ⟨oid', hoid'⟩ := Option.isSome_iff_exists.mp
      (Std.ExtTreeMap.isSome_getElem?_iff_mem.mpr hthere)
    obtain rfl := hunique name oid oid' hmem (hentry hoid')
    exact ⟨name, oid, hline, hname, hoid'⟩

/-! ### The snapshot -/

variable {runs : WorkspaceRuns}

theorem snapshot_ok_iff {head : String} :
    snapshotWorkspaceState runs = .ok (refs, head) ↔ ∃ run headRun,
      runs.forEachRef = .ok run ∧ runs.symbolicRef = .ok headRun ∧ ¬ GitFails runs ∧
      collectRefs ∅ (lines ((ofUtf8 run.stdout).getD "")) = .ok refs ∧
      head = if headRun.success then trim (lossy headRun.stdout) else "" := by
  constructor
  · intro h
    obtain ⟨run, hrun, h⟩ := bind_eq_ok_iff.mp h
    rw [mapError_ok_iff] at hrun
    split at h
    · cases h
    next hsuccess =>
    split at h
    · cases h
    next hsize =>
    split at h
    · cases h
    next hread =>
    obtain ⟨refs', hcollect, h⟩ := bind_eq_ok_iff.mp h
    obtain ⟨headRun, hhead, h⟩ := bind_eq_ok_iff.mp h
    rw [mapError_ok_iff] at hhead
    cases h
    refine ⟨run, headRun, hrun, hhead, ?_, hcollect, rfl⟩
    rintro (⟨e, he⟩ | ⟨e, he⟩ | he | ⟨run', hrun', hfail⟩)
    · cases hrun.symm.trans he
    · cases hhead.symm.trans he
    · rw [hread] at he
      cases he
    · cases hrun.symm.trans hrun'
      rcases hfail with hfail | hfail
      · rw [hfail] at hsuccess
        exact hsuccess rfl
      · exact hsize hfail
  · rintro ⟨run, headRun, hrun, hhead, hgit, hcollect, rfl⟩
    have hsuccess : run.success = true := by
      by_contra hfail
      exact hgit (Or.inr (Or.inr (Or.inr ⟨run, hrun, Or.inl (Bool.eq_false_iff.mpr hfail)⟩)))
    have hsize : ¬ maxRefSnapshotBytes < run.stdout.length := fun hlarge =>
      hgit (Or.inr (Or.inr (Or.inr ⟨run, hrun, Or.inr hlarge⟩)))
    have hread : runs.readStdout = none := by
      cases hread : runs.readStdout with
      | none => rfl
      | some e => exact absurd (Or.inr (Or.inr (Or.inl (by rw [hread]; rfl)))) hgit
    refine bind_eq_ok_iff.mpr ⟨run, mapError_ok_iff.mpr hrun, ?_⟩
    rw [hsuccess, hread, if_neg (by simp), if_neg hsize]
    refine bind_eq_ok_iff.mpr ⟨refs, hcollect, ?_⟩
    exact bind_eq_ok_iff.mpr ⟨headRun, mapError_ok_iff.mpr hhead, rfl⟩

theorem refs_of_casPublishInner {H : Sha256} {threshold : Nat} {st : ParentState}
    {limits : PublishLimits} {ws : Workspace} {c : Composed}
    (h : casPublishInner H threshold st limits ws = .ok c) : c.manifest.refs = ws.refsAfter :=
  composeManifest_refs (casPublishInner_ok h).1

theorem size_collected_le_iff :
    (insertRefs ∅ (entries text)).size ≤ maxManifestRefs ↔ ¬ TooManyRefs (utf8 text) := by
  rw [size_insertRefs, ← Nat.not_lt, not_iff_not]
  constructor
  · exact fun h => ⟨text, rfl, h⟩
  · rintro ⟨text', htext, h⟩
    exact utf8_injective htext ▸ h

theorem collectRefs_text :
    collectRefs ∅ (lines ((ofUtf8 (utf8 text)).getD "")) = .ok refs ↔
      refs = insertRefs ∅ (entries text) ∧ ¬ TooManyRefs (utf8 text) := by
  rw [ofUtf8_eq_some_iff.mpr rfl, Option.getD_some, collectRefs_ok_iff (Nat.zero_le _),
    ← size_collected_le_iff]
  refine and_congr_right ?_
  rintro rfl
  rfl

theorem collectRefs_of_not_text {output : List UInt8} (h : ofUtf8 output = none) :
    collectRefs ∅ (lines ((ofUtf8 output).getD "")) = .ok ∅ := by
  rw [h]
  rfl

theorem publishesAll_iff : PublishesAll runs ↔
    GitFails runs ∨ ∃ run, runs.forEachRef = .ok run ∧
      (TooManyRefs run.stdout ∨ Readable run.stdout) := by
  by_cases hgit : GitFails runs
  · refine iff_of_true (fun run refs head _ h => ?_) (Or.inl hgit)
    obtain ⟨-, -, -, -, hok, -⟩ := snapshot_ok_iff.mp h
    exact absurd hgit hok
  rw [or_iff_right hgit]
  cases hrun : runs.forEachRef with
  | error e => exact absurd (Or.inl ⟨e, hrun⟩) hgit
  | ok run =>
  cases hhead : runs.symbolicRef with
  | error e => exact absurd (Or.inr (Or.inl ⟨e, hhead⟩)) hgit
  | ok headRun =>
  cases htext : ofUtf8 run.stdout with
  | none =>
    have hno : ∀ text, utf8 text ≠ run.stdout := by
      intro text h
      rw [ofUtf8_eq_some_iff.mpr h] at htext
      cases htext
    refine iff_of_false (fun h => ?_) ?_
    · have hsnap := snapshot_ok_iff.mpr
        ⟨run, headRun, hrun, hhead, hgit, collectRefs_of_not_text htext, rfl⟩
      obtain ⟨⟨text, hutf8, -⟩, -⟩ := h run _ _ hrun hsnap
      exact hno text hutf8
    · rintro ⟨run', hrun', ⟨text, hutf8, -⟩ | ⟨text, hutf8, -⟩⟩
      all_goals
        cases hrun'
        exact hno text hutf8
  | some text =>
    obtain ⟨success, code, stdout, stderr⟩ := run
    obtain rfl : utf8 text = stdout := ofUtf8_eq_some_iff.mp htext
    constructor
    · intro h
      refine ⟨_, rfl, or_iff_not_imp_left.mpr fun hfew => ?_⟩
      have hsnap := snapshot_ok_iff.mpr
        ⟨_, headRun, hrun, hhead, hgit, collectRefs_text.mpr ⟨rfl, hfew⟩, rfl⟩
      exact complete_insertRefs_iff.mp (h _ _ _ hrun hsnap).1
    · rintro ⟨run', hrun', hout⟩ run'' refs head hrun'' hsnap
      cases hrun'
      cases hrun.symm.trans hrun''
      obtain ⟨run₀, headRun', hrun₀, -, -, hcollect, -⟩ := snapshot_ok_iff.mp hsnap
      cases hrun.symm.trans hrun₀
      obtain ⟨rfl, hfew⟩ := collectRefs_text.mp hcollect
      have hall := complete_insertRefs_iff.mpr (hout.resolve_left hfew)
      refine ⟨hall, fun H threshold st limits ws c hws hpub => ?_⟩
      rwa [refs_of_casPublishInner hpub, hws]

/-! ### The head -/

theorem isPublishedBranch_iff :
    isPublishedBranch refs name = true ↔ startsWith name "refs/heads/" = true ∧ name ∈ refs := by
  simp [isPublishedBranch, Std.ExtTreeMap.contains_iff_mem]

theorem isPublishedBranch_resolvePublishedHead (h : isPublishedBranch refs name = true)
    (observedHead parentHead : String) :
    isPublishedBranch refs (resolvePublishedHead refs observedHead parentHead) = true := by
  obtain ⟨hbranch, hmem⟩ := isPublishedBranch_iff.mp h
  unfold resolvePublishedHead
  split
  · assumption
  split
  · assumption
  split
  · next preferred hfind =>
    refine isPublishedBranch_iff.mpr
      ⟨?_, Std.ExtTreeMap.contains_iff_mem.mp (find?_some hfind)⟩
    rcases mem_cons.mp (mem_of_find?_eq_some hfind) with rfl | hmaster
    · decide
    · rw [mem_singleton.mp hmaster]
      decide
  split
  · next branch hfind =>
    have hstarts := find?_some hfind
    have hkey := Std.ExtTreeMap.mem_keys.mp (mem_of_find?_eq_some hfind)
    exact isPublishedBranch_iff.mpr ⟨hstarts, hkey⟩
  · next hfind =>
    have hnone := find?_eq_none.mp hfind name (Std.ExtTreeMap.mem_keys.mpr hmem)
    exact absurd hbranch hnone

/-- Nothing of the list is lost exactly when git fails, the list is too long or it is readable, and
the head is a branch whenever there is one. -/
theorem snapshot_faithful (runs : WorkspaceRuns) :
    (PublishesAll runs ↔
      GitFails runs ∨ ∃ run, runs.forEachRef = .ok run ∧
        (TooManyRefs run.stdout ∨ Readable run.stdout)) ∧
    ∀ refs observedHead parentHead, (∃ name, isPublishedBranch refs name = true) →
      isPublishedBranch refs (resolvePublishedHead refs observedHead parentHead) = true :=
  ⟨publishesAll_iff, fun _ observedHead parentHead ⟨_, h⟩ =>
    isPublishedBranch_resolvePublishedHead h observedHead parentHead⟩

/-! ### A branch with a name in Latin-1 -/

/-- Git lists a branch `main` and a branch `café` whose name is in Latin-1. -/
def latin1Runs : WorkspaceRuns where
  forEachRef := .ok
    { success := true
      code := some 0
      stdout := utf8 "refs/heads/main 1111111111111111111111111111111111111111\nrefs/heads/caf" ++
        0xe9 :: utf8 " 2222222222222222222222222222222222222222\n"
      stderr := "" }
  readStdout := none
  symbolicRef := .ok
    { success := true, code := some 0, stdout := utf8 "refs/heads/main\n", stderr := "" }

theorem latin1_not_text : ofUtf8 (utf8
    "refs/heads/main 1111111111111111111111111111111111111111\nrefs/heads/caf" ++
      0xe9 :: utf8 " 2222222222222222222222222222222222222222\n") = none := by
  have hbefore : "refs/heads/main 1111111111111111111111111111111111111111\nrefs/heads/caf" =
      "refs/heads/main 1111111111111111111111111111111111111111\nrefs/heads/ca" ++ "f" := by decide
  have hafter : " 2222222222222222222222222222222222222222\n" =
      " " ++ "2222222222222222222222222222222222222222\n" := by decide
  rw [hbefore, hafter, utf8_append, utf8_append, append_assoc]
  exact @ofUtf8_between _ _ [0xe9] 0x66 0x20 (by decide) (by decide) (by decide)

/-- Both branches are lost. -/
theorem not_publishesAll_latin1 : snapshotWorkspaceState latin1Runs = .ok (∅, "refs/heads/main") ∧
    ¬ PublishesAll latin1Runs := by
  have hgit : ¬ GitFails latin1Runs := by
    rintro (⟨_, h⟩ | ⟨_, h⟩ | h | ⟨run, hrun, h⟩)
    · cases h
    · cases h
    · cases h
    · cases hrun
      rcases h with h | h
      · cases h
      · exact absurd h (by decide)
  constructor
  · refine snapshot_ok_iff.mpr
      ⟨_, _, rfl, rfl, hgit, collectRefs_of_not_text latin1_not_text, ?_⟩
    rw [if_pos rfl, lossy_utf8]
    decide
  · rw [publishesAll_iff]
    rintro (h | ⟨run, hrun, ⟨text, htext, -⟩ | ⟨text, htext, -⟩⟩)
    · exact hgit h
    all_goals
      cases hrun
      cases latin1_not_text.symm.trans (ofUtf8_eq_some_iff.mpr htext)

end Buzz.Git
