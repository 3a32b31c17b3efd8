import Buzz.Core.Text
import Buzz.Lib.Json
import Buzz.Lib.Placeholders
import Buzz.Lib.Splitting

/-!
# Templates

The texts of a workflow step hold placeholders in double braces: a field of the trigger, or a field
of what an earlier step put out, with a filter after a bar. A placeholder that names nothing is
written as it stands, except that the whitespace inside its braces is not.

Hash maps are lists of pairs. The encoding of public keys is a parameter.
-/

namespace Buzz.Workflow

/-! ### Variables -/

structure TriggerContext where
  text : String
  author : String
  channelId : String
  timestamp : String
  emoji : String
  messageId : String
  webhookFields : List (String × String)

/-- The variants of `WorkflowError` that templates and conditions use. -/
inductive WorkflowError where
  | conditionError (message : String)
  | templateError (message : String)
  deriving DecidableEq

def TriggerContext.getField (t : TriggerContext) (name : String) : Option String :=
  match name with
  | "text" => some t.text
  | "author" => some t.author
  | "channel_id" => some t.channelId
  | "timestamp" => some t.timestamp
  | "emoji" => some t.emoji
  | "message_id" => some t.messageId
  | other => t.webhookFields.lookup other

def jsonToString : Json → String
  | .str s => s
  | .null => ""
  | other => String.ofList other.render

def jsonGetStr (value : Json) (key : String) : Option String :=
  match value with
  | .obj members => (Json.member members key).map jsonToString
  | _ => none

def resolveVariable (path : String) (t : TriggerContext) (outputs : List (String × Json)) :
    Option String :=
  match stripPrefix path "trigger." with
  | some field => t.getField field
  | none =>
    match stripPrefix path "steps." with
    | none => none
    | some rest =>
      match splitOnce '.' rest.toList with
      | none => none
      | some (stepId, rest) =>
        match splitOnce '.' rest with
        | none => none
        | some (middle, field) =>
          if String.ofList middle ≠ "output" then none
          else
            match outputs.lookup (String.ofList stepId) with
            | none => none
            | some output => jsonGetStr output (String.ofList field)

def applyFilter (npub : String → Option String) (value filter : String) :
    Except WorkflowError String :=
  let filter := trim filter
  match (stripPrefix filter "truncate(").bind fun s => stripSuffixChar s ')' with
  | some inner =>
    match parseU64 (trim inner) with
    | none => .error (.templateError ("truncate() requires a number, got: " ++ inner))
    | some n => .ok (String.ofList (value.toList.take n))
  | none =>
    if filter = "npub" ∨ filter = "truncate_pubkey" then .ok ((npub value).getD value)
    else .error (.templateError ("unknown filter: " ++ filter))

/-! ### The loop -/

def openBraces : List Char := ['{', '{']

def closeBraces : List Char := ['}', '}']

theorem openBraces_ne_nil : openBraces ≠ [] := List.cons_ne_nil _ _

theorem lt_of_cutAt_openBraces {l text rest : List Char}
    (h : cutAt openBraces l = some (text, rest)) : rest.length < l.length := by
  have hlt := length_of_cutAt h
  have hlen : openBraces.length = 2 := rfl
  omega

theorem le_of_cutAt_closeBraces {l body rest : List Char}
    (h : cutAt closeBraces l = some (body, rest)) : rest.length ≤ l.length := by
  have hle := length_of_cutAt h
  omega

/-- The loop of `resolve_template`, for what is written for a placeholder. -/
def resolveLoop (emit : List Char → Except WorkflowError (List Char))
    (result remaining : List Char) : Except WorkflowError (List Char) :=
  match _hopen : cutAt openBraces remaining with
  | none => .ok (result ++ remaining)
  | some (text, rest) =>
    match _hclose : cutAt closeBraces rest with
    -- unclosed braces are emitted, and the loop stops
    | none => .ok (result ++ text ++ openBraces ++ rest)
    | some (body, remaining) =>
      match emit body with
      | .error e => .error e
      | .ok written => resolveLoop emit (result ++ text ++ written) remaining
termination_by remaining.length
decreasing_by
  have hlt := lt_of_cutAt_openBraces _hopen
  have hle := le_of_cutAt_closeBraces _hclose
  omega

theorem resolveLoop_eq (emit : List Char → Except WorkflowError (List Char))
    (result remaining : List Char) : resolveLoop emit result remaining =
      (fill emit (pieces openBraces closeBraces openBraces_ne_nil remaining)).map (result ++ ·) := by
  induction hn : remaining.length using Nat.strong_induction_on generalizing result remaining with
  | _ n ih =>
    rw [resolveLoop]
    split
    · next hopen =>
      rw [pieces_plain _ hopen]
      simp [fill, Except.map]
    · next text rest hopen =>
      have hlt := lt_of_cutAt_openBraces hopen
      split
      · next hclose =>
        rw [pieces_unclosed _ hopen hclose]
        simp [fill, Except.map]
      · next body remaining' hclose =>
        have hle := le_of_cutAt_closeBraces hclose
        rw [pieces_closed _ hopen hclose, fill, fill]
        split
        · next e hbody =>
          rw [hbody]
          rfl
        · next written hbody =>
          rw [hbody, ih remaining'.length (by omega) _ remaining' rfl]
          cases fill emit (pieces openBraces closeBraces _ remaining') with
          | error e => rfl
          | ok out => simp [Except.map]

/-- The variable and the filter of an expression. -/
def splitFilter (expr : String) : String × Option String :=
  match splitOnce '|' expr.toList with
  | none => (trim expr, none)
  | some (varPath, filter) =>
    (trim (String.ofList varPath), some (trim (String.ofList filter)))

section

variable (npub : String → Option String) (t : TriggerContext) (outputs : List (String × Json))

/-- What stands between braces, resolved and filtered; `none` when the variable is unknown. -/
def resolveExpr (expr : String) : Except WorkflowError (Option String) :=
  let (varPath, filter) := splitFilter expr
  match resolveVariable varPath t outputs, filter with
  | some v, some f => (applyFilter npub v f).map some
  | some v, none => .ok (some v)
  | none, _ => .ok none

/-- What the loop writes for what stands between braces. -/
def emitted (body : List Char) : Except WorkflowError (List Char) :=
  let expr := trim (String.ofList body)
  (resolveExpr npub t outputs expr).map fun
    | some value => value.toList
    -- an unknown variable: the expression, trimmed, in braces
    | none => openBraces ++ (expr.toList ++ closeBraces)

def resolveTemplate (template : String) : Except WorkflowError String :=
  if ¬ containsStr template "\x7b\x7b" then .ok template
  else (resolveLoop (emitted npub t outputs) [] template.toList).map String.ofList

/-! ### What the loop computes -/

def templatePieces (template : String) : List (Piece Char) :=
  pieces openBraces closeBraces openBraces_ne_nil template.toList

/-- The placeholders of a template: what stands between their braces. -/
def placeholders (template : String) : List String :=
  (bodies (templatePieces template)).map String.ofList

/-- A placeholder's value, or the placeholder as it is written. -/
def literally (body : List Char) : Except WorkflowError (List Char) :=
  (resolveExpr npub t outputs (trim (String.ofList body))).map fun
    | some value => value.toList
    | none => openBraces ++ (body ++ closeBraces)

theorem resolveTemplate_eq (template : String) : resolveTemplate npub t outputs template =
    (fill (emitted npub t outputs) (templatePieces template)).map String.ofList := by
  rw [resolveTemplate]
  split
  · next hplain =>
    have hcut : cutAt openBraces template.toList = none := by
      rw [cutAt_eq_none_iff]
      simpa [containsStr, openBraces] using hplain
    rw [templatePieces, pieces_plain _ hcut]
    simp [fill, Except.map]
  · rw [resolveLoop_eq, templatePieces]
    cases fill (emitted npub t outputs) (pieces openBraces closeBraces _ template.toList) with
    | error e => rfl
    | ok out => rfl

/-! ### What is not substituted -/

/-- A placeholder names nothing that is there. -/
def Unknown (placeholder : String) : Prop :=
  resolveVariable (splitFilter (trim placeholder)).1 t outputs = none

instance (placeholder : String) : Decidable (Unknown t outputs placeholder) :=
  inferInstanceAs (Decidable (_ = none))

/-- The template is cut into pieces, and what comes out is its literal pieces, the values of the
placeholders that are known, and the others as they are written. -/
def IsLiteral (template out : String) : Prop :=
  (templatePieces template).flatMap (Piece.source openBraces closeBraces) = template.toList ∧
    fill (literally npub t outputs) (templatePieces template) = .ok out.toList

variable {t outputs}

theorem resolveExpr_eq_none_iff {expr : String} : resolveExpr npub t outputs expr = .ok none ↔
    resolveVariable (splitFilter expr).1 t outputs = none := by
  rw [resolveExpr]
  obtain ⟨varPath, filter⟩ := splitFilter expr
  dsimp only
  cases resolveVariable varPath t outputs with
  | none => simp
  | some v =>
    cases filter with
    | none => simp
    | some f =>
      dsimp only
      generalize applyFilter npub v f = filtered
      cases filtered <;> simp [Except.map]

theorem emitted_known {body : List Char} (h : ¬ Unknown t outputs (String.ofList body)) :
    emitted npub t outputs body = literally npub t outputs body := by
  rw [Unknown, ← resolveExpr_eq_none_iff npub] at h
  rw [emitted, literally]
  generalize resolveExpr npub t outputs (trim (String.ofList body)) = resolved at h ⊢
  cases resolved with
  | error e => simp only [Except.map]
  | ok value =>
    cases value with
    | none => exact absurd rfl h
    | some value => simp only [Except.map]

theorem emitted_unknown {body : List Char} (h : Unknown t outputs (String.ofList body)) :
    emitted npub t outputs body =
        .ok (openBraces ++ ((trim (String.ofList body)).toList ++ closeBraces)) ∧
      literally npub t outputs body = .ok (openBraces ++ (body ++ closeBraces)) := by
  rw [emitted, literally, (resolveExpr_eq_none_iff npub).mpr h]
  exact ⟨rfl, rfl⟩

theorem emitted_eq_literally_iff (body : List Char) :
    emitted npub t outputs body = literally npub t outputs body ↔
      (Unknown t outputs (String.ofList body) → trim (String.ofList body) = String.ofList body) := by
  by_cases h : Unknown t outputs (String.ofList body)
  · obtain ⟨hemitted, hliterally⟩ := emitted_unknown npub h
    rw [hemitted, hliterally]
    simp [h, String.ext_iff]
  · simp [h, emitted_known npub h]

theorem shorter_emitted : Shorter (emitted npub t outputs) (literally npub t outputs) := by
  intro body
  by_cases h : Unknown t outputs (String.ofList body)
  · by_cases htrim : trim (String.ofList body) = String.ofList body
    · exact .inl ((emitted_eq_literally_iff npub body).mpr fun _ => htrim)
    · obtain ⟨hemitted, hliterally⟩ := emitted_unknown npub h
      have hlt := length_trim_lt htrim
      rw [String.toList_ofList] at hlt
      refine .inr ⟨_, _, hemitted, hliterally, ?_⟩
      simp only [List.length_append]
      omega
  · exact .inl (emitted_known npub h)

/-- **Templates.** What comes out is the template with its known placeholders substituted, and
nothing else changed, exactly when no unknown placeholder has whitespace just inside its braces. -/
theorem isLiteral_iff {template out : String}
    (h : resolveTemplate npub t outputs template = .ok out) :
    IsLiteral npub t outputs template out ↔
      ∀ p ∈ placeholders template, Unknown t outputs p → trim p = p := by
  have hfill : fill (emitted npub t outputs) (templatePieces template) = .ok out.toList := by
    rw [resolveTemplate_eq] at h
    cases hfill : fill (emitted npub t outputs) (templatePieces template) with
    | error e =>
      rw [hfill] at h
      cases h
    | ok cs =>
      rw [hfill] at h
      rw [← Except.ok.inj h, String.toList_ofList]
  have hsource : (templatePieces template).flatMap (Piece.source openBraces closeBraces) =
      template.toList := source_pieces _ _
  rw [IsLiteral, and_iff_right hsource, fill_eq_iff (shorter_emitted npub) hfill, placeholders,
    List.forall_mem_map]
  simp only [emitted_eq_literally_iff]

end

/-! ### Whitespace inside braces -/

def emptyTrigger : TriggerContext := ⟨"", "", "", "", "", "", []⟩

theorem mem_splitFilter {expr : String} {a : Char} (h : a ∈ (splitFilter expr).1.toList) :
    a ∈ expr.toList := by
  rw [splitFilter] at h
  split at h
  · exact (trim_sublist expr).subset h
  · next varPath filter hsplit =>
    have hvar := (trim_sublist _).subset h
    rw [String.toList_ofList] at hvar
    rw [(splitOnce_eq_some_iff.mp hsplit).2]
    exact List.mem_append_left _ hvar

theorem resolveVariable_of_notMem {path : String} (h : 't' ∉ path.toList) (t : TriggerContext)
    (outputs : List (String × Json)) : resolveVariable path t outputs = none := by
  have hnone : ∀ pre : String, 't' ∈ pre.toList → stripPrefix path pre = none := by
    intro pre hpre
    refine Option.eq_none_iff_forall_ne_some.mpr fun rest hrest => h ?_
    rw [stripPrefix_eq_some_iff.mp hrest, String.toList_append]
    exact List.mem_append_left _ hpre
  rw [resolveVariable, hnone "trigger." (by decide), hnone "steps." (by decide)]

theorem unknown_of_notMem {body : List Char} (h : 't' ∉ body) (t : TriggerContext)
    (outputs : List (String × Json)) : Unknown t outputs (String.ofList body) := by
  refine resolveVariable_of_notMem (fun hmem => h ?_) t outputs
  have htrim := (trim_sublist _).subset (mem_splitFilter hmem)
  rwa [String.toList_ofList] at htrim

/-- A placeholder with spaces inside its braces. -/
def spacedTemplate : String := "\x7b\x7b foo \x7d\x7d"

/-- The placeholder is written without its spaces, and no way to cut the template accounts for
that. -/
theorem not_isLiteral_spaced :
    resolveTemplate (fun _ => none) emptyTrigger [] spacedTemplate =
        .ok "\x7b\x7bfoo\x7d\x7d" ∧
      ∀ ps : List (Piece Char),
        ps.flatMap (Piece.source openBraces closeBraces) = spacedTemplate.toList →
        fill (literally (fun _ => none) emptyTrigger []) ps ≠
          .ok "\x7b\x7bfoo\x7d\x7d".toList := by
  constructor
  · have hopen : cutAt openBraces spacedTemplate.toList =
        some ([], " foo \x7d\x7d".toList) := by decide
    have hclose : cutAt closeBraces " foo \x7d\x7d".toList = some (" foo ".toList, []) := by decide
    have hrest : cutAt openBraces [] = none := rfl
    have hunknown : Unknown emptyTrigger [] (String.ofList " foo ".toList) :=
      unknown_of_notMem (by decide) _ _
    have hbody := (emitted_unknown (fun _ => none) hunknown).1
    rw [resolveTemplate_eq, templatePieces, pieces_closed _ hopen hclose, pieces_plain _ hrest,
      fill, fill, hbody, fill, fill]
    decide
  · intro ps hps
    have hunknown : ∀ body ∈ bodies ps, Unknown emptyTrigger [] (String.ofList body) := by
      intro body hbody
      refine unknown_of_notMem (fun hmem => ?_) _ _
      have hsource : 't' ∈ ps.flatMap (Piece.source openBraces closeBraces) :=
        List.mem_flatMap.mpr ⟨_, mem_bodies_iff.mp hbody,
          List.mem_append_right _ (List.mem_append_left _ hmem)⟩
      rw [hps] at hsource
      exact absurd hsource (by decide)
    rw [fill_source fun body hbody => (emitted_unknown _ (hunknown body hbody)).2, hps]
    decide

/-- A trigger with a text that has braces of its own. -/
def bracedTrigger : TriggerContext := { emptyTrigger with text := "\x7b\x7ba\x7d\x7d" }

/-- A template with the text of the trigger. -/
def textTemplate : String := "<\x7b\x7b trigger.text \x7d\x7d>"

/-- The braces of the text are not scanned. -/
theorem isLiteral_iff_braces :
    resolveTemplate (fun _ => none) bracedTrigger [] textTemplate = .ok "<\x7b\x7ba\x7d\x7d>" ∧
      IsLiteral (fun _ => none) bracedTrigger [] textTemplate "<\x7b\x7ba\x7d\x7d>" := by
  have hopen : cutAt openBraces textTemplate.toList =
      some (['<'], " trigger.text \x7d\x7d>".toList) := by decide
  have hclose : cutAt closeBraces " trigger.text \x7d\x7d>".toList =
      some (" trigger.text ".toList, ['>']) := by decide
  have hrest : cutAt openBraces ['>'] = none := by decide
  have hpieces : templatePieces textTemplate =
      [.literal ['<'], .placeholder " trigger.text ".toList, .literal ['>']] := by
    rw [templatePieces, pieces_closed _ hopen hclose, pieces_plain _ hrest]
  have hresolve : resolveTemplate (fun _ => none) bracedTrigger [] textTemplate =
      .ok "<\x7b\x7ba\x7d\x7d>" := by
    rw [resolveTemplate_eq, hpieces]
    decide +kernel
  refine ⟨hresolve, (isLiteral_iff _ hresolve).mpr ?_⟩
  intro p hp hunknown
  rw [placeholders, hpieces] at hp
  obtain rfl : " trigger.text " = p := by simpa [bodies, Piece.body?] using hp
  have hknown : ¬ Unknown bracedTrigger [] " trigger.text " := by decide +kernel
  exact absurd hunknown hknown

end Buzz.Workflow
