import Buzz.Agent.History
import Buzz.Lib.Utf8
import Buzz.Lib.Fitting

/-!
# The handoff prompt

When the context of an agent is nearly full, the model is asked for a summary of the session. The
prompt consists of fixed parts and of the history, item by item, newest first, as long as items fit
into what the budget leaves. An item that does not fit is passed over and counted; the newest one is
clamped instead. A line that says how many were passed over is put before the history.
-/

namespace Buzz.Agent

open List Option

/-! ### Texts that are shortened -/

/-- The mark of a text that was shortened. -/
def ellipsis : String := "…"

/-- `&s[..n]`, which panics inside a character. -/
def sliceTo (s : String) (n : Nat) : Option String := (takeBytes s.toList n).map String.ofList

/-- `clamp_bytes`; `none` when it panics. -/
def clampBytes (s : String) (maxBytes : Nat) : Option String :=
  if byteLen s ≤ maxBytes then some s
  else if maxBytes < 4 then sliceTo s (floorBoundary s.toList (min maxBytes (byteLen s)))
  else
    (sliceTo s (floorBoundary s.toList (maxBytes - byteLen ellipsis))).map (· ++ ellipsis)

/-! ### The fixed parts -/

def handoffMaxOutputTokens : UInt32 := 8192

def handoffOriginalTaskMaxBytes : Nat := 16 * 1024

def handoffMaxToolNames : Nat := 20

def conservativeBytesPerToken : Nat := 1

/-- What a handoff reads of its session. -/
structure Handoff where
  maxContextTokens : UInt64
  handoffCount : Nat
  originalTask : Option String
  tools : List String

/-- The names of the tools, up to a number. -/
def toolList (tools : List String) : String :=
  if tools.length = 0 then "(none)\n"
  else
    let shown := min tools.length handoffMaxToolNames
    ", ".intercalate (tools.take shown) ++
      (if shown < tools.length then ", … (+" ++ toString (tools.length - shown) ++ " more)" else "")
      ++ "\n"

/-- What stands before the history; `none` when it panics. -/
def Handoff.head (h : Handoff) : Option String :=
  (clampBytes (h.originalTask.getD "(unknown)") handoffOriginalTaskMaxBytes).map fun task =>
    "[Internal handoff #" ++ toString (h.handoffCount + 1) ++ " — context reset]\n\n" ++
      "# Original Task\n" ++ task ++ "\n\n# Available Tools\n" ++ toolList h.tools

/-- What stands after the history. -/
def tailText : String :=
  "\n# Instructions\nProduce a context handoff summary covering: (1) original task, " ++
    "(2) what was accomplished, (3) key decisions, (4) what remains, " ++
    "(5) one concrete next step. " ++
    "Be concise but thorough. Plain text.\n"

def historyHeader : String := "\n# Session History (oldest first)\n"

/-- `handoff_prompt_budget_bytes`. The upper bounds of the types are never reached. -/
def handoffPromptBudgetBytes (maxContextTokens : UInt64) (maxOutputTokens : UInt32)
    (fixedPromptBytes : Nat) : Nat :=
  (maxContextTokens.toNat - maxOutputTokens.toNat) * conservativeBytesPerToken - fixedPromptBytes

def Handoff.limit (h : Handoff) : Nat :=
  (h.maxContextTokens.toNat - handoffMaxOutputTokens.toNat) * conservativeBytesPerToken

def fixedBytes (head : String) : Nat := byteLen head + byteLen historyHeader + byteLen tailText

/-! ### The history -/

def ToolResultContent.asTextLossy : ToolResultContent → String
  | text s => s
  | image data mimeType =>
    "[image: " ++ mimeType ++ ", " ++ toString (byteLen data) ++ " base64 bytes]"

def ToolResult.text (r : ToolResult) : String :=
  "\n".intercalate (r.content.map ToolResultContent.asTextLossy)

def concat (ss : List String) : String := ss.foldr (· ++ ·) ""

/-- `push_history_snippet`. -/
def historySnippet : HistoryItem → String
  | .user s => "[user] " ++ s ++ "\n"
  | .assistant text toolCalls _ =>
    "[assistant] " ++ text ++ concat (toolCalls.map fun c => " tool:" ++ c.name) ++ "\n"
  | .toolResult r => (if r.isError then "[tool_err] " else "[tool] ") ++ r.text ++ "\n"

def snippetBytes (item : HistoryItem) : Nat := byteLen (historySnippet item)

/-- The snippets taken so far, and how many were dropped. -/
structure Selection where
  snippets : List String
  bytes : Nat
  dropped : Nat

def Selection.push (promptBudget : Nat) (s : Selection) (item : HistoryItem) : Option Selection :=
  let snippet := historySnippet item
  if s.bytes + byteLen snippet > promptBudget then
    if s.snippets.isEmpty then
      (clampBytes snippet promptBudget).map fun clamped =>
        ⟨s.snippets ++ [clamped], promptBudget, s.dropped + 1⟩
    else some { s with dropped := s.dropped + 1 }
  else some ⟨s.snippets ++ [snippet], s.bytes + byteLen snippet, s.dropped⟩

/-- The loop, over the items from the newest one on. -/
def select (promptBudget : Nat) (history : List HistoryItem) : Option Selection :=
  history.reverse.foldlM (Selection.push promptBudget) ⟨[], 0, 0⟩

/-- The line about the items that were passed over. -/
def omissionLine (dropped : Nat) : String :=
  if dropped > 0 then "(… " ++ toString dropped ++ " older items omitted)\n" else ""

def render (head : String) (s : Selection) : String :=
  head ++ historyHeader ++ omissionLine s.dropped ++ concat s.snippets.reverse ++ tailText

/-- `build_handoff_prompt`; `none` when it panics. -/
def buildHandoffPrompt (h : Handoff) (history : List HistoryItem) : Option String :=
  h.head.bind fun head =>
    let promptBudget :=
      handoffPromptBudgetBytes h.maxContextTokens handoffMaxOutputTokens (fixedBytes head)
    (select promptBudget history).map (render head)

/-! ### Shortened texts are texts -/

theorem byteLen_append (s t : String) : byteLen (s ++ t) = byteLen s + byteLen t :=
  String.utf8ByteSize_append

theorem byteLen_ellipsis : byteLen ellipsis = 3 := by decide

variable {n : Nat}

theorem sliceTo_eq_some {s t : String} (h : sliceTo s n = some t) :
    t.toList <+: s.toList ∧ byteLen t = n := by
  obtain ⟨pre, hpre, rfl⟩ := map_eq_some_iff.mp h
  obtain ⟨hpart, hlength⟩ := takeBytes_eq_some_iff.mp hpre
  rw [byteLen, utf8ByteSize_eq, String.toList_ofList]
  exact ⟨hpart, hlength⟩

theorem exists_sliceTo (s : String) (n : Nat) :
    ∃ t, sliceTo s (floorBoundary s.toList n) = some t := by
  obtain ⟨pre, hpre⟩ := exists_takeBytes_floorBoundary s.toList n
  exact ⟨String.ofList pre, by rw [sliceTo, hpre]; rfl⟩

/-- **A text is shortened at a character**: what is left of it is its beginning, of at most as many
bytes as are asked for, with a mark where there is room for one. -/
theorem clampBytes_spec (s : String) (maxBytes : Nat) : ∃ c, clampBytes s maxBytes = some c ∧
    byteLen c ≤ maxBytes ∧
      (c = s ∨ ∃ pre : String, pre.toList <+: s.toList ∧ (c = pre ∨ c = pre ++ ellipsis)) := by
  rw [clampBytes]
  split
  · next h => exact ⟨s, rfl, h, .inl rfl⟩
  · split
    · obtain ⟨t, ht⟩ := exists_sliceTo s (min maxBytes (byteLen s))
      obtain ⟨hpart, hlength⟩ := sliceTo_eq_some ht
      have hle := floorBoundary_le s.toList (min maxBytes (byteLen s))
      exact ⟨t, ht, by omega, .inr ⟨t, hpart, .inl rfl⟩⟩
    · next hlong =>
      obtain ⟨t, ht⟩ := exists_sliceTo s (maxBytes - byteLen ellipsis)
      obtain ⟨hpart, hlength⟩ := sliceTo_eq_some ht
      have hle := floorBoundary_le s.toList (maxBytes - byteLen ellipsis)
      refine ⟨t ++ ellipsis, by rw [ht]; rfl, ?_, .inr ⟨t, hpart, .inr rfl⟩⟩
      rw [byteLen_append]
      rw [byteLen_ellipsis] at hle hlength ⊢
      omega

theorem historySnippet_shape (item : HistoryItem) :
    (∃ cs, (historySnippet item).toList = '[' :: cs) ∧ 4 ≤ snippetBytes item ∧
      (historySnippet item).toList.getLast? = some '\n' := by
  have hshape : ∀ pre body : String, (∃ cs, pre.toList = '[' :: cs) → 3 ≤ byteLen pre →
      (∃ cs, (pre ++ body ++ "\n").toList = '[' :: cs) ∧ 4 ≤ byteLen (pre ++ body ++ "\n") ∧
        (pre ++ body ++ "\n").toList.getLast? = some '\n' := by
    rintro pre body ⟨cs, hcs⟩ hlength
    have hend : byteLen "\n" = 1 := by decide
    refine ⟨⟨cs ++ (body.toList ++ "\n".toList), ?_⟩, ?_, ?_⟩
    · simp [String.toList_append, hcs]
    · rw [byteLen_append, byteLen_append, hend]
      omega
    · rw [String.toList_append]
      exact getLast?_concat
  cases item with
  | user s => exact hshape "[user] " s ⟨_, rfl⟩ (by decide)
  | assistant text toolCalls details =>
    have h := hshape "[assistant] " (text ++ concat (toolCalls.map fun c => " tool:" ++ c.name))
      ⟨_, rfl⟩ (by decide)
    rw [← String.append_assoc] at h
    exact h
  | toolResult r =>
    have hsnippet : historySnippet (.toolResult r) =
        (if r.isError then "[tool_err] " else "[tool] ") ++ r.text ++ "\n" := rfl
    rw [snippetBytes, hsnippet]
    cases r.isError with
    | true => exact hshape "[tool_err] " r.text ⟨_, rfl⟩ (by decide)
    | false => exact hshape "[tool] " r.text ⟨_, rfl⟩ (by decide)

variable {item : HistoryItem}

theorem clampBytes_historySnippet {c : String} (h : clampBytes (historySnippet item) n = some c)
    (hlong : n < snippetBytes item) : (∀ item', c ≠ historySnippet item') ∧ (c = "" ↔ n = 0) := by
  obtain ⟨⟨cs, hcs⟩, hfour, -⟩ := historySnippet_shape item
  have hempty : ∀ t : String, t = "" ↔ byteLen t = 0 := fun t =>
    String.utf8ByteSize_eq_zero_iff.symm
  rw [snippetBytes] at hlong
  rw [clampBytes, if_neg (Nat.not_le_of_lt hlong)] at h
  split at h
  · next hsmall =>
    obtain ⟨-, hlength⟩ := sliceTo_eq_some h
    rw [Nat.min_eq_left (Nat.le_of_lt hlong)] at hlength
    have hle := floorBoundary_le (historySnippet item).toList n
    refine ⟨fun item' heq => ?_, ?_⟩
    · have hfour' := (historySnippet_shape item').2.1
      rw [snippetBytes, ← heq] at hfour'
      omega
    · rw [hempty, hlength]
      refine ⟨fun hzero => ?_, fun hzero => by omega⟩
      -- The bracket is a byte of its own, so a cut behind it is not moved back past it.
      by_contra hn
      have hone : isCharBoundary (historySnippet item).toList 1 = true := by
        have hbracket : takeBytes ('[' :: cs) 1 = some ['['] :=
          takeBytes_eq_some_iff.mpr ⟨⟨cs, rfl⟩, by decide⟩
        rw [hcs, isCharBoundary, hbracket]
        rfl
      have hpos := le_floorBoundary (Nat.one_le_iff_ne_zero.mpr hn) hone
      omega
  · next hlarge =>
    obtain ⟨t, -, rfl⟩ := map_eq_some_iff.mp h
    refine ⟨fun item' heq => ?_, ?_⟩
    · have hend := (historySnippet_shape item').2.2
      rw [← heq, String.toList_append] at hend
      have hmark : (t.toList ++ ellipsis.toList).getLast? = some '…' := getLast?_concat
      exact absurd (some.inj (hmark.symm.trans hend)) (by decide)
    · rw [hempty, byteLen_append, byteLen_ellipsis]
      omega

/-! ### What is selected -/

variable {promptBudget : Nat}

theorem foldlM_push {s : Selection} (hne : s.snippets ≠ []) (hle : s.bytes ≤ promptBudget)
    (items : List HistoryItem) :
    items.foldlM (Selection.push promptBudget) s =
      let kept := greedy snippetBytes (promptBudget - s.bytes) items
      some ⟨s.snippets ++ kept.map historySnippet, s.bytes + weight snippetBytes kept,
        s.dropped + (items.length - kept.length)⟩ := by
  induction items generalizing s with
  | nil => simp [greedy]
  | cons item items ih =>
    rw [foldlM_cons, Selection.push]
    split
    · next hbig =>
      have hlt : promptBudget - s.bytes < snippetBytes item := by
        rw [snippetBytes]
        omega
      rw [if_neg (by simpa using hne), greedy_cons_of_lt hlt]
      have hkept : (greedy snippetBytes (promptBudget - s.bytes) items).length ≤ items.length :=
        (greedy_sublist _ _).length_le
      refine (ih (s := { s with dropped := s.dropped + 1 }) hne hle).trans ?_
      simp only [length_cons, some.injEq, Selection.mk.injEq, true_and]
      omega
    · next hfits =>
      have hle' : snippetBytes item ≤ promptBudget - s.bytes := by
        rw [snippetBytes]
        omega
      rw [greedy_cons_of_le hle']
      refine (ih (s := ⟨s.snippets ++ [historySnippet item],
        s.bytes + byteLen (historySnippet item), s.dropped⟩) (by simp)
        (by dsimp only; omega)).trans ?_
      simp only [Nat.sub_sub, snippetBytes, map_cons, append_assoc, singleton_append,
        weight_cons, Nat.add_assoc, length_cons, Nat.add_sub_add_right]

/-- **What is selected** where the newest item fits: greedily, from the newest item on. -/
theorem select_eq_greedy {history : List HistoryItem}
    (h : ∀ item ∈ history.getLast?, snippetBytes item ≤ promptBudget) :
    select promptBudget history =
      let kept := greedy snippetBytes promptBudget history.reverse
      some ⟨kept.map historySnippet, weight snippetBytes kept, history.length - kept.length⟩ := by
  rw [select, ← length_reverse]
  rw [getLast?_eq_head?_reverse] at h
  cases hrev : history.reverse with
  | nil => rfl
  | cons item items =>
    have hle : snippetBytes item ≤ promptBudget := h item (by rw [hrev]; rfl)
    have hpush : Selection.push promptBudget ⟨[], 0, 0⟩ item =
        some ⟨[historySnippet item], snippetBytes item, 0⟩ := by
      rw [Selection.push]
      rw [snippetBytes] at hle
      rw [Nat.zero_add, if_neg (Nat.not_lt.mpr hle)]
      rfl
    rw [foldlM_cons, hpush, greedy_cons_of_le hle]
    refine (foldlM_push (by simp) hle items).trans ?_
    simp

theorem select_eq_clamped {history : List HistoryItem} (hitem : history.getLast? = some item)
    (hlong : promptBudget < snippetBytes item) :
    ∃ c, clampBytes (historySnippet item) promptBudget = some c ∧
      select promptBudget history = some ⟨[c], promptBudget, history.length⟩ := by
  obtain ⟨c, hc, -, -⟩ := clampBytes_spec (historySnippet item) promptBudget
  refine ⟨c, hc, ?_⟩
  rw [getLast?_eq_head?_reverse] at hitem
  rw [select, ← length_reverse]
  cases hrev : history.reverse with
  | nil =>
    rw [hrev] at hitem
    cases hitem
  | cons item' items =>
    rw [hrev] at hitem
    obtain rfl := some.inj hitem
    have hpush : Selection.push promptBudget ⟨[], 0, 0⟩ item' = some ⟨[c], promptBudget, 1⟩ := by
      rw [Selection.push]
      rw [snippetBytes] at hlong
      simp [hlong, isEmpty_nil, hc]
    have hnone : greedy snippetBytes 0 items = [] :=
      greedy_eq_nil_iff.mpr fun x _ => Nat.lt_of_lt_of_le (by decide) (historySnippet_shape x).2.1
    rw [foldlM_cons, hpush]
    refine (foldlM_push (by simp) (Nat.le_refl promptBudget) items).trans ?_
    simp [hnone, Nat.add_comm]

/-! ### When the most recent items are shown -/

/-- Items, from the newest one on, and what is shown of them: every snippet, of which the last one
may be shortened. -/
inductive Shown : List HistoryItem → List String → Prop where
  | nil : Shown [] []
  | clamped {item : HistoryItem} {n : Nat} {c : String}
      (h : clampBytes (historySnippet item) n = some c) : Shown [item] [c]
  | cons {items : List HistoryItem} {snippets : List String} (item : HistoryItem)
      (h : Shown items snippets) : Shown (item :: items) (historySnippet item :: snippets)

def Selection.shown (s : Selection) : List String := s.snippets.filter (· ≠ "")

/-- The prompt fits where its fixed parts do, the items that are shown are the most recent ones, and
those that are not are counted. -/
structure Faithful (h : Handoff) (history : List HistoryItem) (head : String) (s : Selection) :
    Prop where
  fits : fixedBytes head ≤ h.limit → byteLen (render head s) ≤ h.limit
  recent : ∃ before after, history = before ++ after ∧ Shown after.reverse s.shown ∧
    s.dropped = before.length

/-- The history ends with items that fit together with the line about the others, none of which
would fit beside them. -/
def Splits (room : Nat) (history : List HistoryItem) : Prop :=
  ∃ before after, history = before ++ after ∧ (after = [] → before = []) ∧
    weight snippetBytes after + byteLen (omissionLine before.length) ≤ room ∧
      ∀ item ∈ before, room - weight snippetBytes after < snippetBytes item

theorem weight_snippets (items : List HistoryItem) :
    byteLen (concat (items.map historySnippet)) = weight snippetBytes items := by
  induction items with
  | nil => rfl
  | cons item items ih =>
    rw [weight_cons, ← ih, map_cons, concat, foldr_cons, byteLen_append]
    rfl

theorem byteLen_render (head : String) (s : Selection) : byteLen (render head s) =
    fixedBytes head + byteLen (omissionLine s.dropped) + byteLen (concat s.snippets.reverse) := by
  rw [render, byteLen_append, byteLen_append, byteLen_append, byteLen_append, fixedBytes]
  omega

theorem omissionLine_pos (h : 0 < n) : 0 < byteLen (omissionLine n) := by
  have hopen : 0 < byteLen "(… " := by decide
  rw [omissionLine, if_pos h, byteLen_append, byteLen_append]
  omega

theorem shown_map (items : List HistoryItem) (n m : Nat) :
    Selection.shown ⟨items.map historySnippet, n, m⟩ = items.map historySnippet := by
  rw [Selection.shown, filter_eq_self]
  intro snippet hmem
  obtain ⟨item, -, rfl⟩ := mem_map.mp hmem
  obtain ⟨cs, hcs⟩ := (historySnippet_shape item).1
  rw [decide_eq_true_eq]
  intro hempty
  rw [hempty] at hcs
  cases hcs

theorem shown_of_map (items : List HistoryItem) : Shown items (items.map historySnippet) := by
  induction items with
  | nil => exact .nil
  | cons item items ih => exact .cons item ih

variable {items : List HistoryItem}

theorem Shown.of_cons {snippet : String} {snippets : List String}
    (h : Shown (item :: items) (snippet :: snippets)) :
    Shown items snippets ∧ (snippet = historySnippet item ∨
      ∃ n, clampBytes (historySnippet item) n = some snippet) := by
  cases h with
  | clamped hc => exact ⟨.nil, .inr ⟨_, hc⟩⟩
  | cons _ hrest => exact ⟨hrest, .inl rfl⟩

theorem greedy_of_shown {room : Nat}
    (h : Shown (items.take (greedy snippetBytes room items).length)
      ((greedy snippetBytes room items).map historySnippet)) :
    greedy snippetBytes room items = items.take (greedy snippetBytes room items).length := by
  induction items generalizing room with
  | nil => rfl
  | cons item items ih =>
    by_cases hfits : snippetBytes item ≤ room
    · rw [greedy_cons_of_le hfits] at h ⊢
      rw [length_cons, take_succ_cons]
      refine congrArg (item :: ·) (ih ?_)
      rw [length_cons, take_succ_cons, map_cons] at h
      exact h.of_cons.1
    · rw [greedy_cons_of_lt (Nat.lt_of_not_le hfits)] at h ⊢
      -- An item that did not fit would have to be shown in the place of a smaller one.
      cases hkept : greedy snippetBytes room items with
      | nil => rfl
      | cons kept rest =>
        have hmem : kept ∈ greedy snippetBytes room items := by
          rw [hkept]
          exact mem_cons_self
        have hsmall : snippetBytes kept ≤ room := size_le_of_mem_greedy hmem
        have hsize : historySnippet kept = historySnippet item → False := fun heq =>
          hfits (le_of_eq_of_le (congrArg byteLen heq.symm) hsmall)
        rw [hkept, length_cons, take_succ_cons, map_cons] at h
        rcases h.of_cons.2 with heq | ⟨n, hc⟩
        · exact absurd heq hsize
        · by_cases hlong : n < snippetBytes item
          · exact absurd rfl ((clampBytes_historySnippet hc hlong).1 kept)
          · rw [snippetBytes] at hlong
            rw [clampBytes, if_pos (Nat.le_of_not_lt hlong)] at hc
            exact absurd (some.inj hc).symm hsize

/-! ### The two directions -/

variable {h : Handoff} {history : List HistoryItem} {head : String} {s : Selection}

theorem budget_eq (h : Handoff) (head : String) :
    handoffPromptBudgetBytes h.maxContextTokens handoffMaxOutputTokens (fixedBytes head) =
      h.limit - fixedBytes head := rfl

theorem not_faithful_of_long (hfixed : fixedBytes head ≤ h.limit)
    (hitem : history.getLast? = some item) (hlong : h.limit - fixedBytes head < snippetBytes item)
    (hs : select (h.limit - fixedBytes head) history = some s) : ¬Faithful h history head s := by
  obtain ⟨c, hc, hselect⟩ := select_eq_clamped hitem hlong
  obtain rfl := some.inj (hselect.symm.trans hs)
  obtain ⟨-, hempty⟩ := clampBytes_historySnippet hc hlong
  rintro ⟨hfits, before, after, rfl, hshown, hdropped⟩
  have hafter : after = [] := by
    rw [← length_eq_zero_iff]
    rw [length_append] at hdropped
    exact Nat.add_eq_left.mp hdropped
  subst hafter
  have hnothing : c = "" := by
    by_contra hne
    have hone : Selection.shown ⟨[c], h.limit - fixedBytes head, (before ++ []).length⟩ = [c] := by
      simp [Selection.shown, hne]
    rw [hone] at hshown
    cases hshown
  have hroom := hempty.mp hnothing
  have hpos : 0 < before.length := by
    rw [length_pos_iff]
    rintro rfl
    cases hitem
  have hline := omissionLine_pos hpos
  have hle := hfits hfixed
  rw [byteLen_render] at hle
  dsimp only at hle
  rw [append_nil] at hle
  omega

theorem faithful_iff_of_fits (hfixed : fixedBytes head ≤ h.limit)
    (hnewest : ∀ item ∈ history.getLast?, snippetBytes item ≤ h.limit - fixedBytes head)
    (hs : select (h.limit - fixedBytes head) history = some s) :
    Faithful h history head s ↔ Splits (h.limit - fixedBytes head) history := by
  have hselect := select_eq_greedy hnewest
  obtain rfl := some.inj (hselect.symm.trans hs)
  set room := h.limit - fixedBytes head with hroom
  set kept := greedy snippetBytes room history.reverse with hkept
  have hsize : byteLen (render head ⟨kept.map historySnippet, weight snippetBytes kept,
      history.length - kept.length⟩) =
        fixedBytes head + byteLen (omissionLine (history.length - kept.length)) +
          weight snippetBytes kept := by
    simp [byteLen_render, ← map_reverse, weight_snippets, weight_reverse]
  constructor
  · rintro ⟨hfits, before, after, hsplit, hshown, hdropped⟩
    dsimp only at hdropped
    rw [shown_map] at hshown
    have hlength : kept.length = after.length := by
      have hsub : kept.length ≤ history.length := by
        have hle : kept.length ≤ history.reverse.length := (greedy_sublist _ _).length_le
        rwa [length_reverse] at hle
      have htotal := congrArg length hsplit
      rw [length_append] at htotal
      omega
    have htake : history.reverse.take kept.length = after.reverse := by
      rw [hsplit, reverse_append, hlength, ← length_reverse, take_left]
    have hall : kept = after.reverse := by
      rw [← htake]
      exact greedy_of_shown (by rw [← hkept, htake]; exact hshown)
    have hweight : weight snippetBytes kept = weight snippetBytes after := by
      rw [hall, weight_reverse]
    have hroomy : weight snippetBytes kept ≤ room := weight_greedy_le _ _
    rw [hweight] at hroomy
    -- Behind the items that are kept there is nothing that would fit.
    have hnone : greedy snippetBytes (room - weight snippetBytes after) before.reverse = [] := by
      have hreversed : weight snippetBytes after.reverse ≤ room := by rwa [weight_reverse]
      have happend : greedy snippetBytes room (after.reverse ++ before.reverse) = _ :=
        greedy_append hreversed
      rw [← reverse_append, ← hsplit, ← hkept, hall, weight_reverse] at happend
      exact self_eq_append_right.mp happend
    refine ⟨before, after, hsplit, ?_, ?_, ?_⟩
    · rintro rfl
      cases hlast : history.getLast? with
      | none =>
        rw [getLast?_eq_none_iff] at hlast
        rw [hlast, append_nil] at hsplit
        exact hsplit.symm
      | some item =>
        have hle := hnewest item hlast
        rw [hsplit, append_nil] at hlast
        have hlt := greedy_eq_nil_iff.mp hnone item
          (mem_reverse.mpr (mem_of_getLast? hlast))
        rw [weight_nil] at hlt
        omega
    · have hle := hfits hfixed
      rw [hsize, hdropped, hweight] at hle
      omega
    · exact fun item hitem => greedy_eq_nil_iff.mp hnone item (mem_reverse.mpr hitem)
  · rintro ⟨before, after, hsplit, -, hle, hnone⟩
    have hall : kept = after.reverse := by
      rw [hkept, hsplit, reverse_append, greedy_append (by rw [weight_reverse]; omega),
        weight_reverse, greedy_eq_nil_iff.mpr fun x hx => hnone x (mem_reverse.mp hx),
        append_nil]
    have hdropped : history.length - kept.length = before.length := by
      simp [hall, hsplit]
    refine ⟨fun _ => ?_, before, after, hsplit, ?_, hdropped⟩
    · rw [hsize, hdropped, hall, weight_reverse]
      omega
    · rw [shown_map, hall]
      exact shown_of_map _

theorem faithful_of_overfull (hfixed : h.limit < fixedBytes head)
    (hs : select (h.limit - fixedBytes head) history = some s) : Faithful h history head s := by
  rw [Nat.sub_eq_zero_of_le (Nat.le_of_lt hfixed)] at hs
  refine ⟨fun hle => absurd hfixed (Nat.not_lt.mpr hle), history, [], (append_nil _).symm, ?_⟩
  cases hlast : history.getLast? with
  | none =>
    rw [getLast?_eq_none_iff] at hlast
    subst hlast
    cases hs
    exact ⟨.nil, rfl⟩
  | some item =>
    have hlong : 0 < snippetBytes item :=
      Nat.lt_of_lt_of_le (by decide) (historySnippet_shape item).2.1
    obtain ⟨c, hc, hselect⟩ := select_eq_clamped hlast hlong
    obtain rfl := some.inj (hselect.symm.trans hs)
    obtain rfl := (clampBytes_historySnippet hc hlong).2.mpr rfl
    exact ⟨.nil, rfl⟩

/-- **Exactly when the prompt is what it should be**: when the history ends with items that fit
together with the line about the others, none of which would fit beside them, or when not even the
fixed parts fit. Texts are never cut inside a character. -/
theorem prompt_faithful_iff (h : Handoff) (history : List HistoryItem) :
    (∀ (text : String) (maxBytes : Nat), ∃ c, clampBytes text maxBytes = some c ∧
      byteLen c ≤ maxBytes ∧
        (c = text ∨ ∃ pre : String, pre.toList <+: text.toList ∧ (c = pre ∨ c = pre ++ ellipsis))) ∧
      ∃ head s, h.head = some head ∧
        select (handoffPromptBudgetBytes h.maxContextTokens handoffMaxOutputTokens
          (fixedBytes head)) history = some s ∧
        buildHandoffPrompt h history = some (render head s) ∧
        (Faithful h history head s ↔
          (fixedBytes head ≤ h.limit → Splits (h.limit - fixedBytes head) history)) := by
  refine ⟨clampBytes_spec, ?_⟩
  obtain ⟨task, htask, -, -⟩ :=
    clampBytes_spec (h.originalTask.getD "(unknown)") handoffOriginalTaskMaxBytes
  obtain ⟨head, hhead⟩ : ∃ head, h.head = some head := by
    rw [Handoff.head, htask]
    exact ⟨_, rfl⟩
  obtain ⟨s, hs⟩ : ∃ s, select (h.limit - fixedBytes head) history = some s := by
    by_cases hnewest : ∀ item ∈ history.getLast?, snippetBytes item ≤ h.limit - fixedBytes head
    · exact ⟨_, select_eq_greedy hnewest⟩
    · push Not at hnewest
      obtain ⟨item, hitem, hlong⟩ := hnewest
      obtain ⟨c, -, hselect⟩ := select_eq_clamped hitem hlong
      exact ⟨_, hselect⟩
  refine ⟨head, s, hhead, hs, ?_, ?_⟩
  · simp [buildHandoffPrompt, hhead, budget_eq, hs]
  · by_cases hfixed : fixedBytes head ≤ h.limit
    · rw [imp_iff_right hfixed]
      by_cases hnewest : ∀ item ∈ history.getLast?, snippetBytes item ≤ h.limit - fixedBytes head
      · exact faithful_iff_of_fits hfixed hnewest hs
      · push Not at hnewest
        obtain ⟨item, hitem, hlong⟩ := hnewest
        refine iff_of_false (not_faithful_of_long hfixed hitem hlong hs) ?_
        rintro ⟨before, after, rfl, hempty, hle, -⟩
        -- The newest item is among those that are to fit.
        have hmem : item ∈ after := by
          cases hafter : after.getLast? with
          | none =>
            rw [getLast?_eq_none_iff] at hafter
            rw [hafter, hempty hafter] at hitem
            cases hitem
          | some last =>
            have hsame : (before ++ after).getLast? = some last := by
              rw [getLast?_append, hafter]
              rfl
            rw [some.inj (hitem.symm.trans hsame)]
            exact mem_of_getLast? hafter
        have hsize : snippetBytes item ≤ weight snippetBytes after := size_le_weight hmem
        omega
    · exact iff_of_true (faithful_of_overfull (Nat.lt_of_not_le hfixed) hs)
        fun hle => absurd hle hfixed

/-! ### A message that is too long -/

/-- A context of a thousand tokens beside the answer. -/
def smallContext : Handoff := ⟨9192, 0, none, []⟩

def longMessage : HistoryItem := .user (String.ofList (replicate 2000 'a'))

/-- What stands before the history there. -/
def smallHead : String :=
  "[Internal handoff #1 — context reset]\n\n# Original Task\n(unknown)\n\n" ++
    "# Available Tools\n(none)\n"

theorem lt_snippetBytes_longMessage : 1000 < snippetBytes longMessage := by
  have hsize : byteLen (String.ofList (replicate 2000 'a')) = 2000 := by
    rw [byteLen, utf8ByteSize_eq, String.toList_ofList, utf8Length_ascii, length_replicate]
    intro c hc
    rw [eq_of_mem_replicate hc]
    decide
  rw [snippetBytes, longMessage, historySnippet, byteLen_append, byteLen_append, hsize]
  omega

/-- It is shown, shortened, and counted as left out, and the prompt is too long. -/
theorem longMessage_unfaithful : ∃ s, smallContext.head = some smallHead ∧
    select (handoffPromptBudgetBytes smallContext.maxContextTokens handoffMaxOutputTokens
      (fixedBytes smallHead)) [longMessage] = some s ∧
    ¬Faithful smallContext [longMessage] smallHead s := by
  have hfixed : fixedBytes smallHead ≤ smallContext.limit := by decide +kernel
  have hlimit : smallContext.limit = 1000 := by decide
  have hlong : smallContext.limit - fixedBytes smallHead < snippetBytes longMessage :=
    Nat.lt_of_le_of_lt (Nat.sub_le _ _) (hlimit ▸ lt_snippetBytes_longMessage)
  obtain ⟨c, -, hselect⟩ := select_eq_clamped (show [longMessage].getLast? = _ from rfl) hlong
  refine ⟨_, by decide +kernel, ?_, not_faithful_of_long hfixed rfl hlong hselect⟩
  rwa [budget_eq]

end Buzz.Agent
