import Buzz.Lib.Occurrences
import Buzz.Lib.Utf8

/-!
# Replacing a string in a file

The tool replaces one string by another in a text file, everywhere or at the one place where it
occurs. It counts, it checks the size that the file is going to have, and it writes the file in one
step, through a temporary file.

What the operating system and the libraries for texts answer is given. A file is its bytes, under its
resolved path.
-/

namespace Buzz.StrReplace

open Function

/-! ### The tool -/

def maxInputBytes : Nat := 1024 * 1024

def maxFileBytes : Nat := 10 * 1024 * 1024

structure StrReplaceParams where
  path : String
  oldStr : String
  newStr : String
  replaceAll : Bool
  /-- The directory of the path, if it is not the one of the tool. -/
  workdir : Option String

inductive ErrorData where
  | invalidParams (message : String)
  | internalError (message : String)
  deriving DecidableEq

abbrev Files := String → Option (List UInt8)

/-- What the operating system and the libraries answer. -/
structure Os where
  /-- `resolve_path`, in the directory of the parameters or in the one of the tool. -/
  resolvePath : Option String → String → Except String String
  statError : Option String
  openError : Option String
  readError : Option String
  utf8Error : List UInt8 → String
  createError : Option String
  writeError : Option String
  flushError : Option String
  persistError : Option String
  debug : String → String
  nearestLineHint : String → String → Option String
  unifiedDiff : String → String → String → String

/-- `str::len`: the bytes of a text. -/
def len (s : String) : Nat := (utf8 s).length

/-- `read_text_file`: the resolved path, and the text. -/
def readTextFile (os : Os) (files : Files) (path : String) (workdir : Option String) :
    Except ErrorData (String × String) :=
  match os.resolvePath workdir path with
  | .error e => .error (.invalidParams e)
  | .ok target =>
    match os.statError with
    | some e => .error (.internalError ("cannot stat " ++ target ++ ": " ++ e))
    | none =>
      match files target with
      | none => .error (.invalidParams ("not a regular file: " ++ target))
      | some bytes =>
        if maxFileBytes < bytes.length then
          .error (.invalidParams ("file too large: " ++ target ++ " is " ++ toString bytes.length ++
            " bytes (limit " ++ toString maxFileBytes ++ " bytes)"))
        else
          match os.openError, os.readError with
          | some e, _ => .error (.internalError ("cannot open " ++ target ++ ": " ++ e))
          | none, some e => .error (.internalError ("cannot read " ++ target ++ ": " ++ e))
          | none, none =>
            match ofUtf8 bytes with
            | none => .error (.internalError ("not valid UTF-8: " ++ target ++ ": " ++
                os.utf8Error bytes))
            | some content => .ok (target, content)

/-- `str::matches`, counted. -/
def matchCount (pat text : List Char) : Nat :=
  if h : pat = [] then 0 else (segments pat h text).length - 1

/-- The occurrences that are found one behind the other, up to a number of them. -/
def countUpTo (pat : List Char) : Nat → List Char → Nat
  | 0, _ => 0
  | n + 1, text =>
    match cutAt pat text with
    | none => 0
    | some (_, rest) => countUpTo pat n rest + 1

/-- `count_occurrences_capped`: the loop is left at the second occurrence. -/
def countOccurrencesCapped (text pat : List Char) : Nat :=
  if pat = [] then 0 else countUpTo pat 2 text

/-- `str::replace`. -/
def replaceEvery (text pat new : List Char) : List Char :=
  if h : pat = [] then text else new.intercalate (segments pat h text)

/-- `str::replacen` with a count of one. -/
def replaceFirst (text pat new : List Char) : List Char :=
  match cutAt pat text with
  | none => text
  | some (pre, post) => pre ++ (new ++ post)

/-- How often the tool finds the text. -/
def occurrenceCount (p : StrReplaceParams) (content : String) : Nat :=
  if p.replaceAll then matchCount p.oldStr.toList content.toList
  else countOccurrencesCapped content.toList p.oldStr.toList

def newContent (p : StrReplaceParams) (content : String) : String :=
  String.ofList (if p.replaceAll then
    replaceEvery content.toList p.oldStr.toList p.newStr.toList
  else replaceFirst content.toList p.oldStr.toList p.newStr.toList)

/-- A number that does not fit 64 bits becomes the nearest one that does. -/
def saturate (n : Int) : Int := max (-9223372036854775808) (min n 9223372036854775807)

/-- The size that the file is going to have. -/
def projectedSize (p : StrReplaceParams) (content : String) (count : Nat) : Int :=
  saturate (len content + saturate (((len p.newStr : Int) - len p.oldStr) * count))

def truncate (s : String) (maxChars : Nat) : String :=
  if s.length ≤ maxChars then s else String.ofList (s.toList.take maxChars) ++ "…"

/-- The write that `run` is to make. -/
structure Plan where
  target : String
  content : String
  count : Nat
  newContent : String

/-- `run`, up to the write. -/
def plan (os : Os) (files : Files) (p : StrReplaceParams) : Except ErrorData Plan :=
  if p.oldStr = "" then .error (.invalidParams "old_str must not be empty")
  else if len p.oldStr > maxInputBytes ∨ len p.newStr > maxInputBytes then
    .error (.invalidParams ("old_str/new_str exceeds " ++ toString maxInputBytes ++ " byte limit"))
  else
    match readTextFile os files p.path p.workdir with
    | .error e => .error e
    | .ok (target, content) =>
      let count := occurrenceCount p content
      if count = 0 then
        .error (.invalidParams ("old_str not found in " ++ target ++ ".\nold_str (truncated): " ++
          os.debug (truncate p.oldStr 80) ++
          (os.nearestLineHint content p.oldStr).elim "" fun hint => "\n" ++ hint))
      else if p.replaceAll = false ∧ count > 1 then
        .error (.invalidParams ("old_str matched multiple locations in " ++ target ++
          "; provide more surrounding context to make the match unique."))
      else if projectedSize p content count < 0 ∨ projectedSize p content count > maxFileBytes then
        .error (.invalidParams ("result would exceed " ++ toString maxFileBytes ++ " byte limit (" ++
          toString (projectedSize p content count) ++ " bytes projected)"))
      else .ok ⟨target, content, count, newContent p content⟩

/-- Why the temporary file does not come to take the place of the file. -/
def Os.writeFailure (os : Os) : Option String :=
  os.createError <|> os.writeError <|> os.flushError <|> os.persistError

/-- `atomic_write`. The file is replaced in the last step that may fail. -/
def atomicWrite (os : Os) (files : Files) (target content : String) : Except String Unit × Files :=
  match os.writeFailure with
  | some e => (.error e, files)
  | none => (.ok (), update files target (some (utf8 content)))

def run (os : Os) (files : Files) (p : StrReplaceParams) : Except ErrorData String × Files :=
  match plan os files p with
  | .error e => (.error e, files)
  | .ok plan =>
    match atomicWrite os files plan.target plan.newContent with
    | (.error e, files) =>
      (.error (.internalError ("failed to write " ++ plan.target ++ ": " ++ e)), files)
    | (.ok (), files) =>
      let label := if plan.count = 1 then "1 occurrence"
        else toString plan.count ++ " occurrence(s)"
      (.ok ("Replaced " ++ label ++ " in " ++ plan.target ++ ".\n\n" ++
        os.unifiedDiff plan.content plan.newContent plan.target), files)

/-! ### What the tool is to do -/

/-- What the tool is to do with the files. -/
structure Faithful (os : Os) (files : Files) (p : StrReplaceParams) : Prop where
  /-- Without `replace_all` the text occurs once, and this occurrence is replaced. -/
  once : p.replaceAll = false → ∀ output, (run os files p).1 = .ok output →
    ∃ target content i, readTextFile os files p.path p.workdir = .ok (target, content) ∧
      OccursOnce p.oldStr.toList content.toList i ∧
      (run os files p).2 = update files target (some (utf8 (String.ofList
        (content.toList.take i ++ (p.newStr.toList ++
          content.toList.drop (i + p.oldStr.toList.length))))))
  /-- With `replace_all` the occurrences from the left are replaced. -/
  every : p.replaceAll = true → ∀ output, (run os files p).1 = .ok output →
    ∃ target content parts, readTextFile os files p.path p.workdir = .ok (target, content) ∧
      Leftmost p.oldStr.toList content.toList parts ∧ 2 ≤ parts.length ∧
      (run os files p).2 = update files target
        (some (utf8 (String.ofList (p.newStr.toList.intercalate parts))))
  size : ∀ plan', plan os files p = .ok plan' →
    projectedSize p plan'.content plan'.count = len plan'.newContent
  unchanged : ∀ e, (run os files p).1 = .error e → (run os files p).2 = files

/-- The edit goes through although the old text occurs more than once: `replace_all` is not set, the
parameters, the file and the sizes are within the limits, nothing fails, and the old text has further
occurrences, all of which begin inside the first one. -/
def Slips (os : Os) (files : Files) (p : StrReplaceParams) : Prop :=
  p.replaceAll = false ∧ p.oldStr ≠ "" ∧ len p.oldStr ≤ maxInputBytes ∧
    len p.newStr ≤ maxInputBytes ∧ os.writeFailure = none ∧
    ∃ target content, readTextFile os files p.path p.workdir = .ok (target, content) ∧
      len content + len p.newStr ≤ maxFileBytes + len p.oldStr ∧
      Overlapping p.oldStr.toList content.toList

/-! ### The size -/

variable {os : Os} {files : Files} {p : StrReplaceParams} {content : String}

theorem len_eq (s : String) : len s = utf8Length s.toList :=
  congrArg List.length (utf8_eq_encode s)

theorem len_ofList (cs : List Char) : len (String.ofList cs) = utf8Length cs := by
  rw [len_eq, String.toList_ofList]

theorem len_pos {s : String} (h : s ≠ "") : 0 < len s := by
  have hpos := List.length_pos_iff.mpr fun hnil => h (String.toList_eq_nil_iff.mp hnil)
  rw [len_eq]
  exact hpos.trans_le (length_le_utf8Length _)

theorem le_of_readTextFile {target : String}
    (h : readTextFile os files p.path p.workdir = .ok (target, content)) :
    len content ≤ maxFileBytes := by
  unfold readTextFile at h
  split at h
  · cases h
  · split at h
    · cases h
    · split at h
      · cases h
      · split at h
        · cases h
        · next hsize =>
          split at h
          · cases h
          · cases h
          · split at h
            · cases h
            · next hread =>
              cases h
              rw [len, ofUtf8_eq_some_iff.mp hread]
              exact Nat.le_of_not_lt hsize

variable {plan' : Plan}

theorem plan_ok (h : plan os files p = .ok plan') :
    p.oldStr ≠ "" ∧ len p.oldStr ≤ maxInputBytes ∧ len p.newStr ≤ maxInputBytes ∧
      readTextFile os files p.path p.workdir = .ok (plan'.target, plan'.content) ∧
      plan'.count = occurrenceCount p plan'.content ∧ plan'.count ≠ 0 ∧
      (p.replaceAll = false → plan'.count ≤ 1) ∧
      projectedSize p plan'.content plan'.count ≤ maxFileBytes ∧
      plan'.newContent = newContent p plan'.content := by
  unfold plan at h
  split at h
  · cases h
  · next hold =>
    split at h
    · cases h
    · next hsizes =>
      split at h
      · cases h
      · next target content hread =>
        dsimp only at h
        split at h
        · cases h
        · next hcount =>
          split at h
          · cases h
          · next hone =>
            split at h
            · cases h
            · next hprojected =>
              cases h
              obtain ⟨-, hle⟩ := not_or.mp hprojected
              obtain ⟨hold', hnew'⟩ := not_or.mp hsizes
              exact ⟨hold, Nat.le_of_not_lt hold', Nat.le_of_not_lt hnew', hread, rfl, hcount,
                fun hall => Nat.le_of_not_lt fun hlt => hone ⟨hall, hlt⟩, Int.not_lt.mp hle, rfl⟩

theorem countOccurrencesCapped_eq_one_iff {text pat : List Char} (hpat : pat ≠ []) :
    countOccurrencesCapped text pat = 1 ↔
      ∃ pre post, cutAt pat text = some (pre, post) ∧ cutAt pat post = none := by
  rw [countOccurrencesCapped, if_neg hpat]
  cases hcut : cutAt pat text with
  | none => simp [countUpTo, hcut]
  | some parts =>
    obtain ⟨pre, post⟩ := parts
    cases hrest : cutAt pat post with
    | none | some => simp [countUpTo, hcut, hrest]

theorem len_newContent (content : String) (hold : p.oldStr ≠ "")
    (hcount : occurrenceCount p content ≠ 0)
    (hone : p.replaceAll = false → occurrenceCount p content ≤ 1) :
    ∃ kept, len content = kept + occurrenceCount p content * len p.oldStr ∧
      len (newContent p content) = kept + occurrenceCount p content * len p.newStr := by
  have hpat : p.oldStr.toList ≠ [] := fun h => hold (String.toList_eq_nil_iff.mp h)
  rw [newContent, len_ofList]
  cases hall : p.replaceAll with
  | true =>
    obtain ⟨-, hparts⟩ := (segments_leftmost hpat content.toList).eq_intercalate
    have hweight := weight_intercalate utf8Length_nil utf8Length_append
    rw [if_pos rfl, replaceEvery, dif_neg hpat, occurrenceCount, if_pos hall, matchCount,
      dif_neg hpat, hweight, len_eq, len_eq, len_eq]
    refine ⟨_, ?_, rfl⟩
    conv_lhs => rw [hparts]
    exact hweight ..
  | false =>
    rw [if_neg Bool.false_ne_true]
    have hle := hone hall
    have heq : occurrenceCount p content = 1 := by omega
    rw [heq]
    rw [occurrenceCount, if_neg (by rw [hall]; exact Bool.false_ne_true),
      countOccurrencesCapped_eq_one_iff hpat] at heq
    obtain ⟨pre, post, hcut, -⟩ := heq
    refine ⟨utf8Length pre + utf8Length post, ?_, ?_⟩
    · rw [len_eq, eq_of_cutAt hcut, utf8Length_append, utf8Length_append, len_eq]
      omega
    · rw [replaceFirst, hcut, utf8Length_append, utf8Length_append, len_eq]
      omega

theorem saturate_of_le {n : Int} (hlower : -9223372036854775808 ≤ n)
    (hupper : n ≤ 9223372036854775807) : saturate n = n := by
  rw [saturate, min_eq_left hupper, max_eq_right hlower]

/-- **The size that is checked is the size of the new text.** -/
theorem projectedSize_eq (content : String) (hold : p.oldStr ≠ "")
    (hnewLen : len p.newStr ≤ maxInputBytes) (hlen : len content ≤ maxFileBytes)
    (hcount : occurrenceCount p content ≠ 0)
    (hone : p.replaceAll = false → occurrenceCount p content ≤ 1) :
    projectedSize p content (occurrenceCount p content) = len (newContent p content) := by
  obtain ⟨kept, hcontent, hnew⟩ := len_newContent content hold hcount hone
  have hpos := len_pos hold
  -- The old text is not empty, so the occurrences are no more than the bytes of the file.
  have hcountLen : occurrenceCount p content ≤ len content :=
    calc occurrenceCount p content
        ≤ occurrenceCount p content * len p.oldStr := Nat.le_mul_of_pos_right _ hpos
      _ ≤ len content := by omega
  have hnewSize : occurrenceCount p content * len p.newStr ≤ maxFileBytes * maxInputBytes :=
    Nat.mul_le_mul (hcountLen.trans hlen) hnewLen
  have hfile : maxFileBytes = 10485760 := rfl
  have hinput : maxInputBytes = 1048576 := rfl
  rw [hfile, hinput] at hnewSize
  have hdelta : ((len p.newStr : Int) - len p.oldStr) * occurrenceCount p content =
      (occurrenceCount p content * len p.newStr : Nat) -
        (occurrenceCount p content * len p.oldStr : Nat) := by
    push_cast
    ring
  have hinner := saturate_of_le (n := (occurrenceCount p content * len p.newStr : Nat) -
    (occurrenceCount p content * len p.oldStr : Nat)) (by omega) (by omega)
  rw [projectedSize, hdelta, hinner, saturate_of_le (by omega) (by omega), hnew]
  omega

/-! ### The edit -/

theorem plan_size (h : plan os files p = .ok plan') :
    projectedSize p plan'.content plan'.count = len plan'.newContent := by
  obtain ⟨hold, -, hnewLen, hread, hcount, hpos, hone, -, hnew⟩ := plan_ok h
  rw [hcount] at hpos hone
  rw [hcount, hnew]
  exact projectedSize_eq _ hold hnewLen (le_of_readTextFile hread) hpos hone

variable {output : String}

theorem run_ok (h : (run os files p).1 = .ok output) :
    os.writeFailure = none ∧ ∃ plan', plan os files p = .ok plan' ∧
      (run os files p).2 = update files plan'.target (some (utf8 plan'.newContent)) := by
  unfold run at h ⊢
  split at h
  · cases h
  · next plan' hplan =>
    rw [atomicWrite] at h
    cases hfail : os.writeFailure with
    | some e =>
      rw [hfail] at h
      cases h
    | none =>
      refine ⟨rfl, plan', hplan, ?_⟩
      simp only [atomicWrite, hfail]

theorem run_of_plan (hfail : os.writeFailure = none) (hplan : plan os files p = .ok plan') :
    ∃ output, (run os files p).1 = .ok output := by
  simp only [run, hplan, atomicWrite, hfail]
  exact ⟨_, rfl⟩

theorem run_error {e : ErrorData} (h : (run os files p).1 = .error e) :
    (run os files p).2 = files := by
  unfold run at h ⊢
  cases hplan : plan os files p with
  | error => rfl
  | ok plan' =>
    rw [hplan] at h
    cases hfail : os.writeFailure with
    | some => simp only [atomicWrite, hfail]
    | none =>
      simp only [atomicWrite, hfail] at h
      cases h

theorem run_every (hall : p.replaceAll = true) (h : (run os files p).1 = .ok output) :
    ∃ target content parts, readTextFile os files p.path p.workdir = .ok (target, content) ∧
      Leftmost p.oldStr.toList content.toList parts ∧ 2 ≤ parts.length ∧
      (run os files p).2 = update files target
        (some (utf8 (String.ofList (p.newStr.toList.intercalate parts)))) := by
  obtain ⟨-, plan', hplan, hfiles⟩ := run_ok h
  obtain ⟨hold, -, -, hread, hcount, hpos, -, -, hnew⟩ := plan_ok hplan
  have hpat : p.oldStr.toList ≠ [] := fun h => hold (String.toList_eq_nil_iff.mp h)
  refine ⟨plan'.target, plan'.content, _, hread, segments_leftmost hpat _, ?_, ?_⟩
  · rw [hcount, occurrenceCount, if_pos hall, matchCount, dif_neg hpat] at hpos
    omega
  · rw [hfiles, hnew, newContent, if_pos hall, replaceEvery, dif_neg hpat]

theorem run_cut (hall : p.replaceAll = false) (h : (run os files p).1 = .ok output) :
    ∃ target content pre post, readTextFile os files p.path p.workdir = .ok (target, content) ∧
      cutAt p.oldStr.toList content.toList = some (pre, post) ∧
      cutAt p.oldStr.toList post = none ∧ (run os files p).2 =
        update files target (some (utf8 (String.ofList (pre ++ (p.newStr.toList ++ post)))))
    := by
  obtain ⟨-, plan', hplan, hfiles⟩ := run_ok h
  obtain ⟨hold, -, -, hread, hcount, hpos, hone, -, hnew⟩ := plan_ok hplan
  have hpat : p.oldStr.toList ≠ [] := fun h => hold (String.toList_eq_nil_iff.mp h)
  have heq : plan'.count = 1 := by
    have hle := hone hall
    omega
  have hfalse : ¬p.replaceAll = true := by rw [hall]; exact Bool.false_ne_true
  rw [hcount, occurrenceCount, if_neg hfalse, countOccurrencesCapped_eq_one_iff hpat] at heq
  obtain ⟨pre, post, hcut, hrest⟩ := heq
  refine ⟨plan'.target, plan'.content, pre, post, hread, hcut, hrest, ?_⟩
  rw [hfiles, hnew, newContent, if_neg hfalse, replaceFirst, hcut]

theorem run_of_slips (h : Slips os files p) : ∃ output, (run os files p).1 = .ok output := by
  obtain ⟨hall, hold, holdLen, hnewLen, hfail, target, content, hread, hsize, hover⟩ := h
  have hpat : p.oldStr.toList ≠ [] := fun h => hold (String.toList_eq_nil_iff.mp h)
  have hfalse : ¬p.replaceAll = true := by rw [hall]; exact Bool.false_ne_true
  have hone : occurrenceCount p content = 1 := by
    rw [occurrenceCount, if_neg hfalse, countOccurrencesCapped_eq_one_iff hpat]
    exact cut_of_overlapping hover
  have hprojected := projectedSize_eq content hold hnewLen
    (le_of_readTextFile hread) (by omega) (by omega)
  obtain ⟨kept, hkept, hnew⟩ := len_newContent content hold (by omega) (by omega)
  rw [hone] at hkept hnew
  have hplan : plan os files p =
      .ok ⟨target, content, occurrenceCount p content, newContent p content⟩ := by
    unfold plan
    rw [if_neg hold, if_neg (by omega), hread]
    dsimp only
    rw [if_neg (by omega), if_neg (by omega), if_neg (by omega)]
  exact run_of_plan hfail hplan

theorem slips_of_run (hall : p.replaceAll = false) {target : String}
    (hrun : (run os files p).1 = .ok output)
    (hread : readTextFile os files p.path p.workdir = .ok (target, content))
    (hover : Overlapping p.oldStr.toList content.toList) : Slips os files p := by
  obtain ⟨hfail, plan', hplan, -⟩ := run_ok hrun
  have hsize := plan_size hplan
  obtain ⟨hold, holdLen, hnewLen, hread', hcount, hpos, hone, hprojected, hnew⟩ := plan_ok hplan
  cases hread.symm.trans hread'
  refine ⟨hall, hold, holdLen, hnewLen, hfail, _, _, hread, ?_, hover⟩
  have heq : occurrenceCount p plan'.content = 1 := by
    have hle := hone hall
    omega
  obtain ⟨kept, hkept, hlen⟩ := len_newContent _ hold (heq ▸ Nat.one_ne_zero) fun _ => heq.le
  rw [hnew] at hsize
  rw [heq] at hkept hlen
  omega

/-- **When the tool does what it is to do.** -/
theorem run_faithful_iff (os : Os) (files : Files) (p : StrReplaceParams) :
    Faithful os files p ↔ ¬Slips os files p := by
  constructor
  · intro hfaithful hslips
    obtain ⟨output, hrun⟩ := run_of_slips hslips
    obtain ⟨hall, -, -, -, -, target, content, hread, -, i, j, hi, -, hlt, hj, -⟩ := hslips
    obtain ⟨_, _, k, hread', ⟨-, honce⟩, -⟩ := hfaithful.once hall output hrun
    cases hread.symm.trans hread'
    have heq := (honce i hi).trans (honce j hj).symm
    omega
  · intro hslips
    refine ⟨fun hall output hrun => ?_, fun hall output hrun => run_every hall hrun,
      fun plan' hplan => plan_size hplan, fun e hrun => run_error hrun⟩
    obtain ⟨target, content, pre, post, hread, hcut, hrest, hfiles⟩ := run_cut hall hrun
    refine ⟨target, content, pre.length, hread, ?_, ?_⟩
    · refine (unique_iff_not_overlapping hcut hrest).mpr fun hover => hslips ?_
      exact slips_of_run hall hrun hread hover
    · have hdrop : content.toList.drop (pre.length + p.oldStr.toList.length) = post := by
        simp [eq_of_cutAt hcut, ← List.append_assoc, ← List.length_append]
      simp [hfiles, eq_of_cutAt hcut]

/-- Nothing fails, and paths are what they are. -/
def quietOs : Os where
  resolvePath _ path := .ok path
  statError := none
  openError := none
  readError := none
  utf8Error _ := ""
  createError := none
  writeError := none
  flushError := none
  persistError := none
  debug s := s
  nearestLineHint _ _ := none
  unifiedDiff _ _ _ := ""

/-- One of two overlapping occurrences is replaced, and the tool says that it was the only one. -/
theorem overlapping_replaced :
    OccursAt "aa".toList "aaa".toList 0 ∧ OccursAt "aa".toList "aaa".toList 1 ∧
      (run quietOs (fun _ => some (utf8 "aaa")) ⟨"/notes.txt", "aa", "b", false, none⟩).1 =
        .ok "Replaced 1 occurrence in /notes.txt.\n\n" ∧
      (run quietOs (fun _ => some (utf8 "aaa")) ⟨"/notes.txt", "aa", "b", false, none⟩).2
        "/notes.txt" = some (utf8 "ba") := by
  refine ⟨by decide, by decide, by decide, by decide⟩

end Buzz.StrReplace
