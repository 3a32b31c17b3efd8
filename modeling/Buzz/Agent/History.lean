import Mathlib.Algebra.GroupWithZero.Nat
import Buzz.Core.Text
import Buzz.Lib.Replied
import Buzz.Lib.Json

/-!
# The transcript of the agent

What a session keeps of its conversation, and the functions that write it: the results of a batch of
tool calls, hook outputs as synthetic calls, and the truncation to a size. A provider refuses a
request whose tool calls are not directly followed by their results.
-/

namespace Buzz.Agent

open List

inductive ToolResultContent where
  | text (s : String)
  | image (data mimeType : String)

/-- A tool call of the model. -/
structure ToolCall where
  providerId : String
  name : String
  arguments : Json
  providerExtra : List (String × Json)

/-- What a tool has given back. -/
structure ToolResult where
  providerId : String
  content : List ToolResultContent
  isError : Bool

/-- An item of the history. -/
inductive HistoryItem where
  | user (text : String)
  | assistant (text : String) (toolCalls : List ToolCall) (reasoningDetails : Option Json)
  | toolResult (r : ToolResult)

/-! ### Sizes -/

def imageContextTokenEquiv : Nat := 16 * 1024

/-- `str::len`. -/
def byteLen (s : String) : Nat := s.utf8ByteSize

/-- The length of `serde_json::to_vec`. -/
def jsonLen (v : Json) : Nat := byteLen (String.ofList v.render)

def ToolResultContent.estimatedBytes : ToolResultContent → Nat
  | text s => byteLen s
  | image data mimeType => byteLen data + byteLen mimeType

def ToolResultContent.contextPressureBytes : ToolResultContent → Nat
  | text s => byteLen s
  | image _ mimeType => imageContextTokenEquiv + byteLen mimeType

namespace HistoryItem

def sizeWith (contentSize : ToolResultContent → Nat) : HistoryItem → Nat
  | user s => byteLen s
  | assistant text toolCalls reasoningDetails =>
    byteLen text +
      (toolCalls.map fun c => byteLen c.providerId + byteLen c.name + jsonLen c.arguments +
        jsonLen (.obj c.providerExtra)).sum +
      (reasoningDetails.map jsonLen).getD 0
  | toolResult r => byteLen r.providerId + (r.content.map contentSize).sum

def estimatedBytes : HistoryItem → Nat := sizeWith ToolResultContent.estimatedBytes

def contextPressureBytes : HistoryItem → Nat := sizeWith ToolResultContent.contextPressureBytes

def isUser : HistoryItem → Bool
  | user _ => true
  | _ => false

/-- The ids of the calls that an item makes. -/
def announces : HistoryItem → List String
  | assistant _ toolCalls _ => toolCalls.map ToolCall.providerId
  | _ => []

/-- The id of the call that an item is the result of. -/
def repliesTo : HistoryItem → Option String
  | toolResult r => some r.providerId
  | _ => none

end HistoryItem

/-! ### What a provider accepts -/

/-- Every call is directly followed by its result, and every result belongs to a call. -/
structure Paired (history : List HistoryItem) : Prop where
  /-- An item with tool calls is followed by exactly their results, in order. -/
  results : ∀ before text calls details after,
    history = before ++ .assistant text calls details :: after →
      ∃ (rs : List ToolResult) (rest : List HistoryItem),
        after = rs.map HistoryItem.toolResult ++ rest ∧
        rs.map ToolResult.providerId = calls.map ToolCall.providerId ∧
        ∀ item ∈ rest.head?, ∀ r, item ≠ .toolResult r
  /-- A result stands among the results of an item with tool calls. -/
  calls : ∀ before r after, history = before ++ .toolResult r :: after →
    ∃ first text calls details, ∃ rs : List ToolResult,
      before = first ++ .assistant text calls details :: rs.map HistoryItem.toolResult ∧
        rs.length < calls.length

/-- A transcript that a provider accepts. -/
structure Valid (history : List HistoryItem) : Prop where
  begins : ∃ text rest, history = .user text :: rest
  paired : Paired history

/-- Every call of a turn is answered before the next turn. -/
abbrev Grammatical (history : List HistoryItem) : Prop :=
  Replied HistoryItem.announces HistoryItem.repliesTo history

theorem exists_results {block : List HistoryItem} {ids : List String}
    (h : block.map HistoryItem.repliesTo = ids.map some) :
    ∃ rs : List ToolResult, block = rs.map HistoryItem.toolResult ∧
      rs.map ToolResult.providerId = ids := by
  induction block generalizing ids with
  | nil =>
    cases ids with
    | nil => exact ⟨[], rfl, rfl⟩
    | cons id ids => simp at h
  | cons item block ih =>
    cases ids with
    | nil => simp at h
    | cons id ids =>
      rw [map_cons, map_cons] at h
      obtain ⟨hitem, hblock⟩ := cons.inj h
      obtain ⟨rs, rfl, rfl⟩ := ih hblock
      cases item with
      | user text | assistant text calls details => simp [HistoryItem.repliesTo] at hitem
      | toolResult r =>
        cases hitem
        exact ⟨r :: rs, rfl, rfl⟩

variable {history : List HistoryItem}

theorem paired_of_grammatical (h : Grammatical history) : Paired history where
  results := by
    rintro before text calls details after rfl
    obtain ⟨block, rest, rfl, hblock, hrest⟩ := h.after rfl
    obtain ⟨rs, rfl, hids⟩ := exists_results hblock
    refine ⟨rs, rest, rfl, hids, ?_⟩
    rintro item hitem r rfl
    nomatch hrest _ hitem
  calls := by
    intro before r after hsplit
    obtain ⟨first, a, block, block', rfl, hitem, hmap⟩ := h.before hsplit (Option.some_ne_none _)
    obtain ⟨rs, hrs, hids⟩ := exists_results hmap
    have hlength : (block ++ .toolResult r :: block').length = a.announces.length := by
      have := congrArg length hids
      rw [length_map] at this
      simp [hrs, this]
    obtain ⟨rs₁, rs₂, rfl, rfl, -⟩ := append_eq_map_iff.mp hrs
    cases a with
    | user text => simp [HistoryItem.announces] at hlength
    | assistant text calls details =>
      refine ⟨first, text, calls, details, rs₁, rfl, ?_⟩
      simp only [HistoryItem.announces, length_append, length_map, length_cons]
        at hlength
      omega
    | toolResult r' => nomatch hitem

/-! ### The writers -/

def errorReflectionSuffix : String :=
  "\n\n[Reflect] Before retrying, identify the cause and change your approach."

def syntheticToolResult (call : ToolCall) (msg : String) : ToolResult :=
  ⟨call.providerId, [.text msg], true⟩

/-- The result that goes into the history for a call and its slot. -/
def slotResult (call : ToolCall) (slot : Option ToolResult) : ToolResult :=
  let result := slot.getD ⟨call.providerId, [.text "internal error: missing result"], true⟩
  if result.isError then
    { result with content := result.content ++ [.text errorReflectionSuffix] }
  else result

def appendResults (history : List HistoryItem) (calls : List ToolCall)
    (results : List (Option ToolResult)) : List HistoryItem :=
  history ++ (zipWith slotResult calls results).map HistoryItem.toolResult

def formatHookOutputBody (hook server text : String) : String :=
  String.ofList (Json.obj [("hook", .str hook), ("server", .str server), ("text", .str text)]).render

def syntheticHookId (hook server : String) (ordinal : Nat) : String :=
  s!"buzz_hook_{hook}_{server}_{ordinal}"

/-- The synthetic call and the result for one hook output. -/
def hookOutputItems (hook server text : String) (ordinal : Nat) : List HistoryItem :=
  let providerId := syntheticHookId hook server ordinal
  [.assistant "" [⟨providerId, s!"{server}__{hook}", .obj [], []⟩] none,
    .toolResult ⟨providerId, [.text (formatHookOutputBody hook server text)], false⟩]

/-- `push_hook_outputs_as_tool_results`; the ordinals come from a counter of the process. -/
def pushHookOutputs (history : List HistoryItem) (hook : String) (ordinals : Nat → Nat)
    (outputs : List (String × String)) : List HistoryItem :=
  history ++ outputs.zipIdx.flatMap fun o => hookOutputItems hook o.1.1 o.1.2 (ordinals o.2)

/-- The loop of `truncate_history`: drop the first turn while the total is too large and another turn
of the user follows. -/
def truncateLoop (maxBytes : Nat) : Nat → List HistoryItem → List HistoryItem
  | _, [] => []
  | total, item :: rest =>
    if total ≤ maxBytes then item :: rest
    else if rest.dropWhile (fun i => !i.isUser) = [] then item :: rest
    else
      truncateLoop maxBytes
        (total - ((item :: rest.takeWhile fun i => !i.isUser).map HistoryItem.estimatedBytes).sum)
        (rest.dropWhile fun i => !i.isUser)
termination_by _ history => history.length
decreasing_by
  exact Nat.lt_succ_of_le (dropWhile_suffix _).length_le

def truncateHistory (history : List HistoryItem) (maxBytes : Nat) : List HistoryItem :=
  truncateLoop maxBytes (history.map HistoryItem.estimatedBytes).sum history

theorem truncateHistory_of_le {maxBytes : Nat}
    (h : (history.map HistoryItem.estimatedBytes).sum ≤ maxBytes) :
    truncateHistory history maxBytes = history := by
  rw [truncateHistory]
  cases history with
  | nil => rw [truncateLoop]
  | cons item rest => rw [truncateLoop, if_pos h]

/-! ### The writers keep the transcript -/

/-- A transcript that begins with a turn of the user and follows the grammar. -/
structure Sound (history : List HistoryItem) : Prop where
  begins : ∃ text rest, history = .user text :: rest
  grammatical : Grammatical history

theorem Sound.valid (h : Sound history) : Valid history :=
  ⟨h.begins, paired_of_grammatical h.grammatical⟩

theorem grammatical_user (text : String) : Grammatical [.user text] := .single rfl rfl

theorem grammatical_assistant (text : String) (details : Option Json) :
    Grammatical [.assistant text [] details] := .single rfl rfl

theorem Sound.append {items : List HistoryItem} (h : Sound history) (hitems : Grammatical items) :
    Sound (history ++ items) := by
  obtain ⟨text, rest, rfl⟩ := h.begins
  exact ⟨⟨text, rest ++ items, rfl⟩, h.grammatical.append hitems⟩

theorem sound_append_user (h : history = [] ∨ Sound history) (text : String) :
    Sound (history ++ [.user text]) := by
  rcases h with rfl | h
  · exact ⟨⟨text, [], rfl⟩, grammatical_user text⟩
  · exact h.append (grammatical_user text)

/-- Slots that hold nothing, or the result of their call. -/
def Slots (calls : List ToolCall) (results : List (Option ToolResult)) : Prop :=
  List.Forall₂ (fun call slot => ∀ r ∈ slot, r.providerId = call.providerId) calls results

theorem slots_none (calls : List ToolCall) : Slots calls (calls.map fun _ => none) := by
  induction calls with
  | nil => exact .nil
  | cons call calls ih =>
    refine .cons ?_ ih
    intro r hr
    nomatch hr

variable {calls : List ToolCall} {results : List (Option ToolResult)}

theorem Slots.set (h : Slots calls results) {i : Nat} {call : ToolCall}
    (hcall : calls[i]? = some call) {r : ToolResult} (hr : r.providerId = call.providerId) :
    Slots calls (results.set i (some r)) := by
  induction h generalizing i with
  | nil => exact .nil
  | @cons first slot calls results hslot hslots ih =>
    cases i with
    | zero =>
      obtain rfl : first = call := Option.some.inj hcall
      refine .cons ?_ hslots
      intro r' hr'
      cases hr'
      exact hr
    | succ i => exact .cons hslot (ih hcall)

@[simp] theorem providerId_slotResult {call : ToolCall} {slot : Option ToolResult}
    (h : ∀ r ∈ slot, r.providerId = call.providerId) :
    (slotResult call slot).providerId = call.providerId := by
  rw [slotResult]
  cases slot with
  | none => rfl
  | some r =>
    have hr := h r rfl
    split
    · exact hr
    · exact hr

theorem map_slotResult (h : Slots calls results) :
    (zipWith slotResult calls results).map ToolResult.providerId =
      calls.map ToolCall.providerId := by
  induction h with
  | nil => rfl
  | cons hslot _ ih =>
    simp [zipWith_cons_cons, ih, providerId_slotResult hslot]

theorem grammatical_results (h : Slots calls results) (text : String) (details : Option Json) :
    Grammatical (.assistant text calls details ::
      (zipWith slotResult calls results).map HistoryItem.toolResult) := by
  refine .block rfl ?_
  have hids := congrArg (map some) (map_slotResult h)
  rw [map_map] at hids ⊢
  exact hids

theorem Sound.appendResults (h : Sound history) (hslots : Slots calls results) (text : String)
    (details : Option Json) :
    Sound (appendResults (history ++ [.assistant text calls details]) calls results) := by
  rw [Agent.appendResults, append_assoc]
  exact h.append (grammatical_results hslots text details)

theorem Sound.pushHookOutputs (h : Sound history) (hook : String) (ordinals : Nat → Nat)
    (outputs : List (String × String)) : Sound (pushHookOutputs history hook ordinals outputs) := by
  refine h.append ?_
  generalize outputs.zipIdx = indexed
  induction indexed with
  | nil => exact .nil
  | cons o indexed ih =>
    have hpair : Grammatical (hookOutputItems hook o.1.1 o.1.2 (ordinals o.2)) := .block rfl rfl
    exact hpair.append ih

theorem Sound.truncateLoop {maxBytes total : Nat} (h : Sound history) :
    Sound (truncateLoop maxBytes total history) := by
  induction total, history using truncateLoop.induct maxBytes with
  | case1 total => nomatch h.begins
  | case2 total item rest hfits =>
    rwa [Agent.truncateLoop, if_pos hfits]
  | case3 total item rest hbig hlast =>
    rwa [Agent.truncateLoop, if_neg hbig, if_pos hlast]
  | case4 total item rest hbig hnext ih =>
    rw [Agent.truncateLoop, if_neg hbig, if_neg hnext]
    refine ih ?_
    obtain ⟨next, kept, hkept⟩ := exists_cons_of_ne_nil hnext
    have huser : next.isUser = true := by
      have := head?_dropWhile_not (fun i : HistoryItem => !i.isUser) rest
      rw [hkept] at this
      simpa using this
    cases next with
    | assistant text calls details | toolResult r => nomatch huser
    | user text =>
      have hcut := h.grammatical
      rw [← takeWhile_append_dropWhile (p := fun i : HistoryItem => !i.isUser) (l := rest),
        hkept, ← cons_append] at hcut
      rw [hkept]
      exact ⟨⟨text, kept, rfl⟩, hcut.of_append_cons rfl⟩

theorem Sound.truncateHistory (h : Sound history) (maxBytes : Nat) :
    Sound (truncateHistory history maxBytes) := h.truncateLoop

end Buzz.Agent
