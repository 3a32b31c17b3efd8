import Buzz.Workflow.Template
import Mathlib.Logic.Function.Basic

/-!
# Conditions

The condition of a workflow step is evaluated over variables whose names are made of the trigger's
fields and of what earlier steps put out. Whoever calls a webhook chooses the fields of its body, so
they are set first: what is set later under the same name replaces them.

The expression library is a parameter, and so is how its task ends. What is assumed of it is that a
variable can be set when it is new or keeps its type, and that an evaluation depends on the
functions and on the variables that occur in the expression.
-/

namespace Buzz.Workflow

open List Function

/-! ### The expression library -/

/-- `evalexpr::Value`. -/
inductive Value (φ : Type) where
  | string (s : String)
  | float (f : φ)
  | int (i : Int)
  | boolean (b : Bool)
  | tuple (vs : List (Value φ))
  | empty

def Value.type {φ : Type} : Value φ → Nat
  | .string _ => 0
  | .float _ => 1
  | .int _ => 2
  | .boolean _ => 3
  | .tuple _ => 4
  | .empty => 5

/-- What is used of the expression library, and of the numbers of the JSON library. -/
structure Evalexpr (φ κ ε : Type) where
  asF64 : NumToken → Option φ
  new : κ
  setFunction : κ → String → (Value φ → Except ε (Value φ)) → Except ε κ
  setValue : κ → String → Value φ → Except ε κ
  getValue : κ → String → Option (Value φ)
  getFunction : κ → String → Option (Value φ → Except ε (Value φ))
  asPair : Value φ → Except ε (Value φ × Value φ)
  asString : Value φ → Except ε String
  evalBoolean : String → κ → Except ε Bool
  Uses : String → String → Prop
  toText : ε → String

section

variable {φ κ ε : Type} (E : Evalexpr φ κ ε)

/-- What is assumed of the expression library. -/
structure Evalexpr.Lawful : Prop where
  getValue_new : ∀ name, E.getValue E.new name = none
  getValue_setFunction : ∀ {c c' name f}, E.setFunction c name f = .ok c' →
    ∀ n, E.getValue c' n = E.getValue c n
  setValue_ok : ∀ {c name v}, (∀ old, E.getValue c name = some old → old.type = v.type) →
    ∃ c', E.setValue c name v = .ok c'
  setValue_error : ∀ {c d name v e}, E.getValue c name = E.getValue d name →
    E.setValue c name v = .error e → E.setValue d name v = .error e
  getValue_setValue : ∀ {c c' name v}, E.setValue c name v = .ok c' →
    ∀ n, E.getValue c' n = if n = name then some v else E.getValue c n
  getFunction_setValue : ∀ {c c' name v}, E.setValue c name v = .ok c' →
    ∀ n, E.getFunction c' n = E.getFunction c n
  /-- An evaluation reads the functions, and the variables that occur. -/
  evalBoolean_congr : ∀ {c d expr}, (∀ n, E.Uses expr n → E.getValue c n = E.getValue d n) →
    (∀ n, E.getFunction c n = E.getFunction d n) → E.evalBoolean expr c = E.evalBoolean expr d

/-! ### The variables -/

def jsonValueToEval : Json → Value φ
  | .str s => .string s
  | .bool b => .boolean b
  | .num n =>
    match (Json.num n).asI64 with
    | some i => .int i
    | none =>
      match E.asF64 n with
      | some f => .float f
      | none => .string (String.ofList n.chars)
  | .null => .empty
  | other => .string (String.ofList other.render)

def stringTest (test : String → String → Bool) (args : Value φ) : Except ε (Value φ) :=
  match E.asPair args with
  | .error e => .error e
  | .ok (first, second) =>
    match E.asString first with
    | .error e => .error e
    | .ok s =>
      match E.asString second with
      | .error e => .error e
      | .ok s' => .ok (.boolean (test s s'))

def conditionFunctions : List (String × (Value φ → Except ε (Value φ))) :=
  [("str_contains", stringTest E containsStr), ("str_starts_with", stringTest E startsWith),
    ("str_ends_with", stringTest E endsWith),
    ("str_len", fun arg => (E.asString arg).map fun s => .int s.utf8ByteSize)]

/-- Register functions, one after the other. -/
def setFunctions : κ → List (String × (Value φ → Except ε (Value φ))) → Except WorkflowError κ
  | c, [] => .ok c
  | c, (name, f) :: fs =>
    match E.setFunction c name f with
    | .error e => .error (.conditionError (E.toText e))
    | .ok c => setFunctions c fs

/-- Set variables, one after the other. -/
def setValues : κ → List (String × Value φ) → Except WorkflowError κ
  | c, [] => .ok c
  | c, (name, v) :: vars =>
    match E.setValue c name v with
    | .error e => .error (.conditionError (E.toText e))
    | .ok c => setValues c vars

/-- The variables of the webhook fields. A key that looks like another variable is skipped. -/
def webhookVars (t : TriggerContext) : List (String × Value φ) :=
  t.webhookFields.filterMap fun (key, val) =>
    if startsWith key "trigger_" || startsWith key "steps_" then none
    else some ("trigger_" ++ key, .string val)

def triggerVars (t : TriggerContext) : List (String × Value φ) :=
  [("trigger_text", .string t.text), ("trigger_author", .string t.author),
    ("trigger_channel_id", .string t.channelId), ("trigger_timestamp", .string t.timestamp),
    ("trigger_emoji", .string t.emoji), ("trigger_message_id", .string t.messageId)]

/-- The variables of the outputs of the steps. -/
def stepVars (outputs : List (String × Json)) : List (String × Value φ) :=
  outputs.flatMap fun (stepId, output) =>
    match output with
    | .obj members => members.map fun (field, val) =>
      ("steps_" ++ stepId ++ "_output_" ++ field, jsonValueToEval E val)
    | _ => []

def buildEvalContext (t : TriggerContext) (outputs : List (String × Json)) :
    Except WorkflowError κ :=
  match setFunctions E E.new (conditionFunctions E) with
  | .error e => .error e
  | .ok ctx =>
    -- the webhook fields come first, so that the standard fields replace them
    match setValues E ctx (webhookVars t) with
    | .error e => .error e
    | .ok ctx =>
      match setValues E ctx (triggerVars t) with
      | .error e => .error e
      | .ok ctx => setValues E ctx (stepVars E outputs)

/-- How the evaluation of a condition ends. -/
inductive Task where
  | finished
  | timedOut
  | panicked (message : String)

def maxExprLen : Nat := 4096

def evaluateCondition (expr : String) (t : TriggerContext) (outputs : List (String × Json))
    (task : Task) : Except WorkflowError Bool :=
  match buildEvalContext E t outputs with
  | .error e => .error e
  | .ok ctx =>
    if maxExprLen < expr.utf8ByteSize then
      .error (.conditionError "condition expression exceeds 4096 byte limit")
    else
      match task with
      | .timedOut => .error (.conditionError ("'" ++ expr ++ "': evaluation timed out after 100ms"))
      | .panicked message =>
        .error (.conditionError ("'" ++ expr ++ "': eval task panicked: " ++ message))
      | .finished =>
        match E.evalBoolean expr ctx with
        | .error e => .error (.conditionError ("'" ++ expr ++ "': " ++ E.toText e))
        | .ok b => .ok b

/-! ### Variables that are set -/

variable {E}

/-- Two contexts have the same functions, and the same variables of some names. -/
def Agree (E : Evalexpr φ κ ε) (S : String → Prop) (c d : κ) : Prop :=
  (∀ n, S n → E.getValue c n = E.getValue d n) ∧ ∀ n, E.getFunction c n = E.getFunction d n

variable {vars : List (String × Value φ)} {c : κ}

theorem setValues_agree (hE : E.Lawful) {S : String → Prop} (hvars : ∀ x ∈ vars, S x.1) {d : κ}
    (h : Agree E S c d) :
    (∃ e, setValues E c vars = .error e ∧ setValues E d vars = .error e) ∨
      ∃ c' d', setValues E c vars = .ok c' ∧ setValues E d vars = .ok d' ∧ Agree E S c' d' := by
  induction vars generalizing c d with
  | nil => exact .inr ⟨c, d, rfl, rfl, h⟩
  | cons x vars ih =>
    obtain ⟨name, v⟩ := x
    have hname : E.getValue c name = E.getValue d name := h.1 name (hvars _ mem_cons_self)
    rw [setValues, setValues]
    cases hc : E.setValue c name v with
    | error e =>
      rw [hE.setValue_error hname hc]
      exact .inl ⟨_, rfl, rfl⟩
    | ok c' =>
      cases hd : E.setValue d name v with
      | error e =>
        rw [hE.setValue_error hname.symm hd] at hc
        cases hc
      | ok d' =>
        refine ih (fun x hx => hvars x (mem_cons_of_mem _ hx)) ⟨fun n hn => ?_, fun n => ?_⟩
        · rw [hE.getValue_setValue hc, hE.getValue_setValue hd, h.1 n hn]
        · rw [hE.getFunction_setValue hc, hE.getFunction_setValue hd, h.2 n]

/-- Variables of the trigger are strings, and there are no others. -/
def TriggerStrings (E : Evalexpr φ κ ε) (c : κ) : Prop :=
  ∀ n v, E.getValue c n = some v → startsWith n "trigger_" = true ∧ v.type = 0

theorem setValues_strings (hE : E.Lawful)
    (hvars : ∀ x ∈ vars, startsWith x.1 "trigger_" = true ∧ x.2.type = 0) (h : TriggerStrings E c) :
    ∃ c', setValues E c vars = .ok c' ∧ TriggerStrings E c' ∧
      ∀ n, E.getFunction c' n = E.getFunction c n := by
  induction vars generalizing c with
  | nil => exact ⟨c, rfl, h, fun _ => rfl⟩
  | cons x vars ih =>
    obtain ⟨name, v⟩ := x
    obtain ⟨hname, htype⟩ := hvars _ mem_cons_self
    obtain ⟨c₁, hc₁⟩ : ∃ c₁, E.setValue c name v = .ok c₁ :=
      hE.setValue_ok fun old hold => (h name old hold).2.trans htype.symm
    have hstrings : TriggerStrings E c₁ := by
      intro n w hw
      rw [hE.getValue_setValue hc₁] at hw
      split at hw
      · next heq =>
        cases hw
        exact ⟨heq ▸ hname, htype⟩
      · exact h n w hw
    obtain ⟨c', hc', hstrings', hfunctions⟩ :=
      ih (fun x hx => hvars x (mem_cons_of_mem _ hx)) hstrings
    refine ⟨c', ?_, hstrings', fun n => ?_⟩
    · rwa [setValues, hc₁]
    · rw [hfunctions, hE.getFunction_setValue hc₁]

theorem getValue_setValues_of_ne (hE : E.Lawful) {n : String} (hn : ∀ x ∈ vars, x.1 ≠ n) {c' : κ}
    (h : setValues E c vars = .ok c') : E.getValue c' n = E.getValue c n := by
  induction vars generalizing c with
  | nil =>
    cases h
    rfl
  | cons x vars ih =>
    obtain ⟨name, v⟩ := x
    rw [setValues] at h
    cases hc₁ : E.setValue c name v with
    | error e =>
      rw [hc₁] at h
      cases h
    | ok c₁ =>
      rw [hc₁] at h
      rw [ih (fun x hx => hn x (mem_cons_of_mem _ hx)) h, hE.getValue_setValue hc₁,
        if_neg (hn _ mem_cons_self).symm]

theorem getValue_setValues (hE : E.Lawful) (hnodup : (vars.map Prod.fst).Nodup) {c' : κ}
    (h : setValues E c vars = .ok c') : ∀ x ∈ vars, E.getValue c' x.1 = some x.2 := by
  induction vars generalizing c with
  | nil => exact nofun
  | cons x vars ih =>
    obtain ⟨name, v⟩ := x
    rw [setValues] at h
    cases hc₁ : E.setValue c name v with
    | error e =>
      rw [hc₁] at h
      cases h
    | ok c₁ =>
      rw [hc₁] at h
      rw [map_cons, nodup_cons] at hnodup
      intro x hx
      rcases mem_cons.mp hx with rfl | hx
      · have hne : ∀ y ∈ vars, y.1 ≠ name :=
          fun y hy heq => hnodup.1 (mem_map.mpr ⟨y, hy, heq⟩)
        rw [getValue_setValues_of_ne hE hne h, hE.getValue_setValue hc₁, if_pos rfl]
      · exact ih hnodup.2 h x hx

theorem getValue_setFunctions (hE : E.Lawful)
    {fs : List (String × (Value φ → Except ε (Value φ)))} {c' : κ}
    (h : setFunctions E c fs = .ok c') (n : String) : E.getValue c' n = E.getValue c n := by
  induction fs generalizing c with
  | nil =>
    cases h
    rfl
  | cons x fs ih =>
    obtain ⟨name, f⟩ := x
    rw [setFunctions] at h
    cases hc₁ : E.setFunction c name f with
    | error e =>
      rw [hc₁] at h
      cases h
    | ok c₁ =>
      rw [hc₁] at h
      rw [ih h, hE.getValue_setFunction hc₁]

/-! ### Names -/

def standardNames : List String :=
  ["trigger_text", "trigger_author", "trigger_channel_id", "trigger_timestamp", "trigger_emoji",
    "trigger_message_id"]

/-- A variable that the caller of a webhook has no say in: a standard field, or a step's. -/
def Trusted (name : String) : Prop := name ∈ standardNames ∨ startsWith name "steps_" = true

theorem startsWith_append (pre t : String) : startsWith (pre ++ t) pre = true := by
  simp [startsWith]

theorem not_startsWith_trigger {name : String} (h : startsWith name "steps_" = true) :
    startsWith name "trigger_" = false := by
  have hsteps : "steps_".toList = ['s', 't', 'e', 'p', 's', '_'] := by decide
  have htrigger : "trigger_".toList = ['t', 'r', 'i', 'g', 'g', 'e', 'r', '_'] := by decide
  rw [startsWith, hsteps] at h
  rw [startsWith, htrigger]
  cases hname : name.toList with
  | nil => rfl
  | cons a cs =>
    rw [hname] at h
    simp only [isPrefixOf, Bool.and_eq_true, beq_iff_eq] at h
    rw [← h.1]
    rfl

theorem webhookVars_strings (t : TriggerContext) :
    ∀ x ∈ (webhookVars t : List (String × Value φ)),
      startsWith x.1 "trigger_" = true ∧ x.2.type = 0 := by
  intro x hx
  obtain ⟨⟨key, val⟩, -, hsome⟩ := mem_filterMap.mp hx
  dsimp only at hsome
  split at hsome
  · cases hsome
  · cases hsome
    exact ⟨startsWith_append _ key, rfl⟩

theorem triggerVars_strings (t : TriggerContext) :
    ∀ x ∈ (triggerVars t : List (String × Value φ)),
      startsWith x.1 "trigger_" = true ∧ x.2.type = 0 := by
  have hnames : ∀ n ∈ standardNames, startsWith n "trigger_" = true := by decide
  intro x hx
  refine ⟨hnames x.1 (mem_map_of_mem hx), ?_⟩
  simp only [triggerVars, mem_cons, not_mem_nil, or_false] at hx
  rcases hx with rfl | rfl | rfl | rfl | rfl | rfl <;> rfl

theorem stepVars_startsWith (outputs : List (String × Json)) :
    ∀ x ∈ stepVars E outputs, startsWith x.1 "steps_" = true := by
  intro x hx
  obtain ⟨⟨stepId, output⟩, -, hx⟩ := mem_flatMap.mp hx
  dsimp only at hx
  split at hx
  · obtain ⟨⟨field, val⟩, -, rfl⟩ := mem_map.mp hx
    dsimp only
    rw [String.append_assoc, String.append_assoc]
    exact startsWith_append _ _
  · cases hx

/-! ### The two lookups -/

theorem buildEvalContext_trigger (hE : E.Lawful) (t : TriggerContext) {c₀ : κ}
    (h₀ : setFunctions E E.new (conditionFunctions E) = .ok c₀) :
    ∃ c, (∀ outputs, buildEvalContext E t outputs = setValues E c (stepVars E outputs)) ∧
      TriggerStrings E c ∧ (∀ n, E.getFunction c n = E.getFunction c₀ n) ∧
      ∀ x ∈ triggerVars t, E.getValue c x.1 = some x.2 := by
  have hstrings₀ : TriggerStrings E c₀ := by
    intro n v hv
    rw [getValue_setFunctions hE h₀, hE.getValue_new] at hv
    cases hv
  obtain ⟨c₁, hc₁, hstrings₁, hfunctions₁⟩ :=
    setValues_strings hE (webhookVars_strings t) hstrings₀
  obtain ⟨c₂, hc₂, hstrings₂, hfunctions₂⟩ :=
    setValues_strings hE (triggerVars_strings t) hstrings₁
  have hnodup : ((triggerVars t : List (String × Value φ)).map Prod.fst).Nodup := by
    have hnames : standardNames.Nodup := by decide
    exact hnames
  refine ⟨c₂, fun outputs => ?_, hstrings₂, fun n => ?_, getValue_setValues hE hnodup hc₂⟩
  · simp only [buildEvalContext, h₀, hc₁, hc₂]
  · rw [hfunctions₂, hfunctions₁]

theorem buildEvalContext_agree (hE : E.Lawful) (t : TriggerContext)
    (fields : List (String × String)) (outputs : List (String × Json)) :
    (∃ e, buildEvalContext E t outputs = .error e ∧
        buildEvalContext E { t with webhookFields := fields } outputs = .error e) ∨
      ∃ c d, buildEvalContext E t outputs = .ok c ∧
        buildEvalContext E { t with webhookFields := fields } outputs = .ok d ∧
        Agree E Trusted c d := by
  cases h₀ : setFunctions E E.new (conditionFunctions E) with
  | error e =>
    refine .inl ⟨e, ?_, ?_⟩
    · simp only [buildEvalContext, h₀]
    · simp only [buildEvalContext, h₀]
  | ok c₀ =>
    obtain ⟨c, hc, hcstrings, hcfunctions, hcvalues⟩ := buildEvalContext_trigger hE t h₀
    obtain ⟨d, hd, hdstrings, hdfunctions, hdvalues⟩ :=
      buildEvalContext_trigger hE { t with webhookFields := fields } h₀
    have hnone : ∀ {c : κ}, TriggerStrings E c → ∀ n, startsWith n "steps_" = true →
        E.getValue c n = none := by
      intro c hstrings n hn
      refine Option.eq_none_iff_forall_ne_some.mpr fun v hv => ?_
      have htrigger := (hstrings n v hv).1
      rw [not_startsWith_trigger hn] at htrigger
      cases htrigger
    have hagree : Agree E Trusted c d := by
      refine ⟨fun n hn => ?_, fun n => (hcfunctions n).trans (hdfunctions n).symm⟩
      obtain hstandard | hsteps := hn
      · obtain ⟨x, hx, rfl⟩ : ∃ x ∈ (triggerVars t : List (String × Value φ)), x.1 = n :=
          mem_map.mp hstandard
        rw [hcvalues x hx, hdvalues x hx]
      · rw [hnone hcstrings n hsteps, hnone hdstrings n hsteps]
    have hsteps : ∀ x ∈ stepVars E outputs, Trusted x.1 :=
      fun x hx => .inr (stepVars_startsWith outputs x hx)
    rw [hc, hd]
    exact setValues_agree hE hsteps hagree

def standardPaths : List String :=
  ["trigger.text", "trigger.author", "trigger.channel_id", "trigger.timestamp", "trigger.emoji",
    "trigger.message_id"]

/-- A path that the caller of a webhook has no say in: that of a standard field, or of no field of
the trigger. -/
def TrustedPath (path : String) : Prop :=
  path ∈ standardPaths ∨ startsWith path "trigger." = false

theorem resolveVariable_webhookFields {path : String} (h : TrustedPath path) (t : TriggerContext)
    (fields : List (String × String)) (outputs : List (String × Json)) :
    resolveVariable path { t with webhookFields := fields } outputs =
      resolveVariable path t outputs := by
  obtain hstandard | hother := h
  · obtain ⟨name, hname, rfl⟩ : ∃ name ∈ ["text", "author", "channel_id", "timestamp", "emoji",
        "message_id"], "trigger." ++ name = path := List.mem_map.mp hstandard
    rw [resolveVariable, resolveVariable, stripPrefix_append]
    simp only [mem_cons, not_mem_nil, or_false] at hname
    rcases hname with rfl | rfl | rfl | rfl | rfl | rfl <;> rfl
  · have hnone : stripPrefix path "trigger." = none := by
      refine Option.eq_none_iff_forall_ne_some.mpr fun rest hrest => ?_
      rw [stripPrefix_eq_some_iff.mp hrest, startsWith_append] at hother
      cases hother
    rw [resolveVariable, resolveVariable, hnone]

theorem resolveTemplate_webhookFields (npub : String → Option String) {template : String}
    (h : ∀ p ∈ placeholders template, TrustedPath (splitFilter (trim p)).1) (t : TriggerContext)
    (fields : List (String × String)) (outputs : List (String × Json)) :
    resolveTemplate npub { t with webhookFields := fields } outputs template =
      resolveTemplate npub t outputs template := by
  have hfill : ∀ body ∈ bodies (templatePieces template),
      emitted npub { t with webhookFields := fields } outputs body =
        emitted npub t outputs body := by
    intro body hbody
    have hpath := h (String.ofList body) (mem_map_of_mem hbody)
    have hvar := resolveVariable_webhookFields hpath t fields outputs
    simp only [emitted, resolveExpr, hvar]
  rw [resolveTemplate_eq, resolveTemplate_eq, fill_congr hfill]

/-! ### Main result -/

/-- **The fields of a webhook do not matter to what is trusted.** Whatever they are, the trusted
paths and the trusted variables have the same values, and the context is built or fails in the same
way; so templates and conditions that use nothing else come out the same. -/
theorem webhook_noninterference (hE : E.Lawful) (npub : String → Option String)
    (t : TriggerContext) (fields : List (String × String)) (outputs : List (String × Json)) :
    (∀ path, TrustedPath path → resolveVariable path { t with webhookFields := fields } outputs =
      resolveVariable path t outputs) ∧
    (∀ template, (∀ p ∈ placeholders template, TrustedPath (splitFilter (trim p)).1) →
      resolveTemplate npub { t with webhookFields := fields } outputs template =
        resolveTemplate npub t outputs template) ∧
    ((∃ e, buildEvalContext E t outputs = .error e ∧
        buildEvalContext E { t with webhookFields := fields } outputs = .error e) ∨
      ∃ c d, buildEvalContext E t outputs = .ok c ∧
        buildEvalContext E { t with webhookFields := fields } outputs = .ok d ∧
        ∀ name, Trusted name → E.getValue c name = E.getValue d name) ∧
    ∀ expr task, (∀ name, E.Uses expr name → Trusted name) →
      evaluateCondition E expr { t with webhookFields := fields } outputs task =
        evaluateCondition E expr t outputs task := by
  refine ⟨fun path h => resolveVariable_webhookFields h t fields outputs,
    fun template h => resolveTemplate_webhookFields npub h t fields outputs, ?_, ?_⟩
  · obtain hfails | ⟨c, d, hc, hd, hvalues, -⟩ := buildEvalContext_agree hE t fields outputs
    · exact .inl hfails
    · exact .inr ⟨c, d, hc, hd, hvalues⟩
  · intro expr task huses
    obtain ⟨e, hc, hd⟩ | ⟨c, d, hc, hd, hvalues, hfunctions⟩ :=
      buildEvalContext_agree hE t fields outputs
    · simp only [evaluateCondition, hc, hd]
    · have heval : E.evalBoolean expr c = E.evalBoolean expr d :=
        hE.evalBoolean_congr (fun n hn => hvalues n (huses n hn)) hfunctions
      simp only [evaluateCondition, hc, hd, heval]

end

/-- The contexts of a library whose expressions are names of variables. -/
structure PlainContext where
  values : String → Option (Value Unit)
  functions : String → Option (Value Unit → Except String (Value Unit))

/-- A library whose expressions are names of variables. -/
def plainEvalexpr : Evalexpr Unit PlainContext String where
  asF64 _ := some ()
  new := ⟨fun _ => none, fun _ => none⟩
  setFunction c name f := .ok { c with functions := update c.functions name (some f) }
  setValue c name v :=
    match c.values name with
    | none => .ok { c with values := update c.values name (some v) }
    | some old =>
      if old.type = v.type then .ok { c with values := update c.values name (some v) }
      else .error "the type has changed"
  getValue c := c.values
  getFunction c := c.functions
  asPair
    | .tuple [a, b] => .ok (a, b)
    | _ => .error "expected a tuple of length 2"
  asString
    | .string s => .ok s
    | _ => .error "expected a string"
  evalBoolean expr c :=
    match c.values expr with
    | some (.boolean b) => .ok b
    | some _ => .error "expected a boolean"
    | none => .error "the variable is not bound"
  Uses expr name := name = expr
  toText e := e

theorem plainEvalexpr_setValue (c : PlainContext) (name : String) (v : Value Unit) :
    plainEvalexpr.setValue c name v =
      if ∀ old, c.values name = some old → old.type = v.type then
        .ok { c with values := update c.values name (some v) }
      else .error "the type has changed" := by
  cases hold : c.values name with
  | none | some old => simp [plainEvalexpr, hold]

theorem lawful_plainEvalexpr : plainEvalexpr.Lawful where
  getValue_new _ := rfl
  getValue_setFunction h n := by
    cases h
    rfl
  setValue_ok h := ⟨_, (plainEvalexpr_setValue _ _ _).trans (if_pos h)⟩
  setValue_error {c d name v e} hvalue h := by
    have hsame : c.values name = d.values name := hvalue
    rw [plainEvalexpr_setValue] at h ⊢
    rw [← hsame]
    split at h
    · cases h
    · next hother =>
      rwa [if_neg hother]
  getValue_setValue h n := by
    rw [plainEvalexpr_setValue] at h
    split at h
    · cases h
      exact update_apply _ _ _ _
    · cases h
  getFunction_setValue h n := by
    rw [plainEvalexpr_setValue] at h
    split at h
    · cases h
      rfl
    · cases h
  evalBoolean_congr hvalues _ := by
    have hvalue := hvalues _ rfl
    simp only [plainEvalexpr] at hvalue ⊢
    rw [hvalue]

/-- The body of a webhook that tries to look like other variables. -/
def spoofingFields : List (String × String) :=
  [("text", "spoofed"), ("trigger_text", "spoofed"), ("steps_ask_output_approved", "true")]

def askOutputs : List (String × Json) := [("ask", .obj [("approved", .bool false)])]

/-- The answer of the step counts. -/
theorem webhook_noninterference_spoofing :
    evaluateCondition plainEvalexpr "steps_ask_output_approved"
      { bracedTrigger with webhookFields := spoofingFields } askOutputs .finished = .ok false := by
  have huses : ∀ name, plainEvalexpr.Uses "steps_ask_output_approved" name → Trusted name := by
    rintro name rfl
    exact .inr (by decide)
  rw [(webhook_noninterference lawful_plainEvalexpr (fun _ => none) bracedTrigger spoofingFields
    askOutputs).2.2.2 _ _ huses]
  decide +kernel

end Buzz.Workflow
