import Mathlib.Algebra.GroupWithZero.Nat
import Mathlib.Algebra.Order.BigOperators.Group.List
import Mathlib.Data.List.AList
import Mathlib.Data.List.Chain
import Buzz.Lib.StateMachine

/-!
# Usage of a turn

An agent reports what its session used so far. The tracker keeps the counters as they were when a
turn was last published for a session, and what a turn used is the difference to them. A report
that arrives when no turn is in flight moves these counters, so that what was used in between is
not in the turn that is published next.
-/

namespace Buzz.Acp

open List

/-! ### Differences that add up -/

section

variable {α : Type*} {R : α → α → Prop} {total delta : α → ℕ}

theorem add_sum_of_isChain {x : α} {xs : List α} (h : (x :: xs).IsChain R)
    (hstep : ∀ a, ∀ b ∈ xs, R a b → total a + delta b = total b) :
    total x + (xs.map delta).sum = total ((x :: xs).getLast (cons_ne_nil _ _)) := by
  induction xs generalizing x with
  | nil => simp
  | cons y ys ih =>
    rw [isChain_cons_cons] at h
    have hfirst := hstep x y mem_cons_self h.1
    have hrest := ih h.2 fun a b hb => hstep a b (mem_cons_of_mem y hb)
    simp [sum_cons, ← Nat.add_assoc, hfirst, hrest, getLast_cons (cons_ne_nil y ys)]

end

/-! ### The tracker -/

variable {κ : Type}

/-- `UsageUpdatePayload`: what a session used so far. Costs are of a type of their own. -/
structure UsageUpdatePayload (κ : Type) where
  accumulatedInputTokens : UInt64
  accumulatedOutputTokens : UInt64
  accumulatedCachedInputTokens : Option UInt64
  accumulatedCost : Option κ
  accumulatedTotalTokens : Option UInt64
  model : Option String

/-- `SessionState`: the counters a turn is measured from. -/
structure SessionState (κ : Type) where
  publishedSeq : Nat
  lastInput : UInt64
  lastOutput : UInt64
  lastCost : Option κ
  lastTotal : Option UInt64
  lastCachedInput : Option UInt64
  deriving DecidableEq

/-- What one turn has used. -/
structure TurnUsage (κ : Type) where
  sessionId : String
  turnSeq : Nat
  deltaReliable : Bool
  turnInputTokens : Option UInt64
  turnOutputTokens : Option UInt64
  turnTotalTokens : Option UInt64
  turnCostUsd : Option κ
  turnCacheReadTokens : Option UInt64
  cumulativeInputTokens : UInt64
  cumulativeOutputTokens : UInt64
  cumulativeTotalTokens : Option UInt64
  cumulativeCostUsd : Option κ
  cumulativeCacheReadTokens : Option UInt64
  model : Option String
  deriving DecidableEq

/-- The sessions known, and the turn being measured. -/
structure UsageTracker (κ : Type) where
  sessions : AList fun _ : String => SessionState κ
  inFlightSession : Option String
  pending : Option (TurnUsage κ)

/-- `UsageTracker::default`. -/
def UsageTracker.new : UsageTracker κ := ⟨∅, none, none⟩

def UsageTracker.beginTurn (t : UsageTracker κ) (sessionId : String) : UsageTracker κ :=
  { t with inFlightSession := some sessionId, pending := none }

/-- The five values that depend on whether the difference is reliable: whether it is, what was used
of the input, of the output and of the money, and the number of the turn. -/
def reliableDelta [LE κ] [DecidableLE κ] [Sub κ] (prev : Option (SessionState κ))
    (payload : UsageUpdatePayload κ) :
    Bool × Option UInt64 × Option UInt64 × Option κ × Nat :=
  match prev with
  | none => (false, none, none, none, 1)
  | some prev =>
    let seq := prev.publishedSeq + 1
    if payload.accumulatedInputTokens < prev.lastInput ∨
        payload.accumulatedOutputTokens < prev.lastOutput then
      (false, none, none, none, seq)
    else
      let di := payload.accumulatedInputTokens - prev.lastInput
      let dout := payload.accumulatedOutputTokens - prev.lastOutput
      match payload.accumulatedCost, prev.lastCost with
      | some c, some p =>
        -- A cost that decreased makes all of it unreliable.
        if p ≤ c then (true, some di, some dout, some (c - p), seq)
        else (false, none, none, none, seq)
      | _, _ => (true, some di, some dout, none, seq)

/-- The difference of a counter that need not be reported. -/
def optionalDelta : Option UInt64 → Option UInt64 → Option UInt64
  | some cur, some p => if p ≤ cur then some (cur - p) else none
  | _, _ => none

/-- The turn as far as it was reported, measured from the counters of its session. -/
def turnUsage [LE κ] [DecidableLE κ] [Sub κ] (prev : Option (SessionState κ)) (sessionId : String)
    (payload : UsageUpdatePayload κ) : TurnUsage κ :=
  let (deltaReliable, turnInput, turnOutput, turnCost, turnSeq) := reliableDelta prev payload
  { sessionId
    turnSeq
    deltaReliable
    turnInputTokens := turnInput
    turnOutputTokens := turnOutput
    turnTotalTokens :=
      optionalDelta payload.accumulatedTotalTokens (prev.bind SessionState.lastTotal)
    turnCostUsd := turnCost
    turnCacheReadTokens :=
      optionalDelta payload.accumulatedCachedInputTokens (prev.bind SessionState.lastCachedInput)
    cumulativeInputTokens := payload.accumulatedInputTokens
    cumulativeOutputTokens := payload.accumulatedOutputTokens
    cumulativeTotalTokens := payload.accumulatedTotalTokens
    cumulativeCostUsd := payload.accumulatedCost
    cumulativeCacheReadTokens := payload.accumulatedCachedInputTokens
    model := payload.model }

def UsageUpdatePayload.state (payload : UsageUpdatePayload κ) (publishedSeq : Nat) :
    SessionState κ where
  publishedSeq := publishedSeq
  lastInput := payload.accumulatedInputTokens
  lastOutput := payload.accumulatedOutputTokens
  lastCost := payload.accumulatedCost
  lastTotal := payload.accumulatedTotalTokens
  lastCachedInput := payload.accumulatedCachedInputTokens

def UsageTracker.record [LE κ] [DecidableLE κ] [Sub κ] (t : UsageTracker κ) (sessionId : String)
    (payload : UsageUpdatePayload κ) : UsageTracker κ :=
  let prev := t.sessions.lookup sessionId
  if t.inFlightSession = some sessionId then
    { t with pending := some (turnUsage prev sessionId payload) }
  else if t.inFlightSession = none then
    -- A report outside of a turn moves the counters.
    let publishedSeq := (prev.map SessionState.publishedSeq).getD 0
    { t with sessions := t.sessions.insert sessionId (payload.state publishedSeq) }
  else t

/-- The counters after a turn is published. -/
def TurnUsage.state (r : TurnUsage κ) : SessionState κ where
  publishedSeq := r.turnSeq
  lastInput := r.cumulativeInputTokens
  lastOutput := r.cumulativeOutputTokens
  lastCost := r.cumulativeCostUsd
  lastTotal := r.cumulativeTotalTokens
  lastCachedInput := r.cumulativeCacheReadTokens

def UsageTracker.take (t : UsageTracker κ) : Option (TurnUsage κ) × UsageTracker κ :=
  match t.pending with
  | none => (none, { t with inFlightSession := none })
  | some r =>
    (some r, ⟨t.sessions.insert r.sessionId r.state, none, none⟩)

/-! ### Runs -/

inductive UsageCall (κ : Type) where
  | beginTurn (sessionId : String)
  | record (sessionId : String) (payload : UsageUpdatePayload κ)
  | take

/-- The tracker, and what was published, oldest first. -/
structure UsageHistory (κ : Type) where
  tracker : UsageTracker κ
  published : List (TurnUsage κ)

def UsageHistory.of (h : UsageHistory κ) (sessionId : String) : List (TurnUsage κ) :=
  h.published.filter (·.sessionId = sessionId)

def usage (κ : Type) [LE κ] [DecidableLE κ] [Sub κ] :
    StateMachine (UsageHistory κ) (UsageCall κ) where
  Init h := h = ⟨.new, []⟩
  step h
    | .beginTurn sessionId => some { h with tracker := h.tracker.beginTurn sessionId }
    | .record sessionId payload => some { h with tracker := h.tracker.record sessionId payload }
    | .take =>
      some ⟨h.tracker.take.2, h.published ++ h.tracker.take.1.toList⟩

/-! ### What is published adds up -/

/-- The cumulative counters of a session. -/
inductive TokenCounter where
  | input | output | total | cacheRead

/-- What a counter was when a session last published. -/
def SessionState.counter (st : SessionState κ) : TokenCounter → Option UInt64
  | .input => some st.lastInput
  | .output => some st.lastOutput
  | .total => st.lastTotal
  | .cacheRead => st.lastCachedInput

/-- What a counter is at the end of a turn. -/
def TurnUsage.cumulative (r : TurnUsage κ) : TokenCounter → Option UInt64
  | .input => some r.cumulativeInputTokens
  | .output => some r.cumulativeOutputTokens
  | .total => r.cumulativeTotalTokens
  | .cacheRead => r.cumulativeCacheReadTokens

def TurnUsage.turn (r : TurnUsage κ) : TokenCounter → Option UInt64
  | .input => r.turnInputTokens
  | .output => r.turnOutputTokens
  | .total => r.turnTotalTokens
  | .cacheRead => r.turnCacheReadTokens

/-- A turn is measured from the one that was published before it. -/
structure Follows [Sub κ] (r r' : TurnUsage κ) : Prop where
  reliable : r'.deltaReliable = true → r'.turn .input ≠ none ∧ r'.turn .output ≠ none
  tokens : ∀ c d, r'.turn c = some d → ∃ p q, r.cumulative c = some p ∧
    r'.cumulative c = some q ∧ p.toNat + d.toNat = q.toNat
  cost : ∀ d, r'.turnCostUsd = some d → ∃ p q, r.cumulativeCostUsd = some p ∧
    r'.cumulativeCostUsd = some q ∧ d = q - p

/-- Nothing a turn used is negative: no subtraction wraps. -/
structure NonNegative [LE κ] [Zero κ] (r : TurnUsage κ) : Prop where
  tokens : ∀ c d, r.turn c = some d → ∃ q, r.cumulative c = some q ∧ d ≤ q
  cost : ∀ d, r.turnCostUsd = some d → 0 ≤ d

/-- A number of tokens, zero where there is none. -/
def tokenCount (o : Option UInt64) : Nat := (o.getD 0).toNat

/-- What is published for a session adds up. -/
structure Telescopes [Sub κ] (rs : List (TurnUsage κ)) : Prop where
  follows : rs.IsChain Follows
  /-- Over a stretch on which a counter is known, what the turns used is what was added to it. -/
  adds : ∀ c r mid, r :: mid <:+: rs → (∀ m ∈ mid, m.turn c ≠ none) →
    tokenCount (r.cumulative c) + (mid.map fun m => tokenCount (m.turn c)).sum =
      tokenCount (((r :: mid).getLast (cons_ne_nil _ _)).cumulative c)

/-- No report moves the counters of a session that has published, unless a turn is in flight. -/
def Undisturbed (h : UsageHistory κ) : UsageCall κ → Prop
  | .record sessionId payload => h.tracker.inFlightSession = none →
    ∀ st ∈ h.tracker.sessions.lookup sessionId, 0 < st.publishedSeq →
      payload.state st.publishedSeq = st
  | _ => True

instance [DecidableEq κ] (h : UsageHistory κ) (call : UsageCall κ) :
    Decidable (Undisturbed h call) :=
  match call with
  | .beginTurn _ => inferInstanceAs (Decidable True)
  | .take => inferInstanceAs (Decidable True)
  | .record sessionId payload =>
    match hst : h.tracker.sessions.lookup sessionId with
    | none => .isTrue (by simp [Undisturbed, hst])
    | some st => decidable_of_iff (h.tracker.inFlightSession = none → 0 < st.publishedSeq →
        payload.state st.publishedSeq = st) (by simp [Undisturbed, hst])

theorem tokenCount_add_of_follows [Sub κ] {c : TokenCounter} {r r' : TurnUsage κ}
    (hf : Follows r r') (hc : r'.turn c ≠ none) :
    tokenCount (r.cumulative c) + tokenCount (r'.turn c) = tokenCount (r'.cumulative c) := by
  obtain ⟨d, hd⟩ := Option.ne_none_iff_exists'.mp hc
  obtain ⟨p, q, hp, hq, hsum⟩ := hf.tokens c d hd
  rwa [hp, hd, hq]

theorem telescopes_of_follows [Sub κ] {rs : List (TurnUsage κ)} (hf : rs.IsChain Follows) :
    Telescopes rs where
  follows := hf
  adds _ _ _ hinfix hknown := by
    have hstretch := List.IsChain.infix hf hinfix
    exact add_sum_of_isChain hstretch fun _ m hm hfollows =>
      tokenCount_add_of_follows hfollows (hknown m hm)

/-! ### What a turn is measured from -/

theorem counter_state (r : TurnUsage κ) (c : TokenCounter) :
    r.state.counter c = r.cumulative c := by
  cases c with
  | input => rfl
  | output => rfl
  | total => rfl
  | cacheRead => rfl

theorem sub_add_toNat {p q : UInt64} (h : p ≤ q) : p.toNat + (q - p).toNat = q.toNat := by
  rw [UInt64.toNat_sub_of_le _ _ h]
  exact Nat.add_sub_cancel' (UInt64.le_iff_toNat_le.mp h)

theorem sub_le_of_le {p q : UInt64} (h : p ≤ q) : q - p ≤ q := by
  rw [UInt64.le_iff_toNat_le, UInt64.toNat_sub_of_le _ _ h]
  exact Nat.sub_le _ _

theorem optionalDelta_eq_some {cur prev : Option UInt64} {d : UInt64}
    (h : optionalDelta cur prev = some d) :
    ∃ p q, prev = some p ∧ cur = some q ∧ p ≤ q ∧ d = q - p := by
  cases cur with
  | none => cases h
  | some q =>
    cases prev with
    | none => cases h
    | some p =>
      rw [optionalDelta] at h
      split at h
      · next hle => exact ⟨p, q, rfl, rfl, hle, (Option.some.inj h).symm⟩
      · cases h

section Measure

variable [LE κ] [DecidableLE κ] [Sub κ] {prev : Option (SessionState κ)} {sessionId : String}
  {payload : UsageUpdatePayload κ}

theorem reliableDelta_cases (prev : Option (SessionState κ)) (payload : UsageUpdatePayload κ) :
    ∃ reliable input output cost,
      reliableDelta prev payload =
        (reliable, input, output, cost, (prev.map SessionState.publishedSeq).getD 0 + 1) ∧
      (reliable = true → input ≠ none ∧ output ≠ none) ∧
      (∀ d, input = some d → ∃ st, prev = some st ∧ st.lastInput ≤ payload.accumulatedInputTokens ∧
        d = payload.accumulatedInputTokens - st.lastInput) ∧
      (∀ d, output = some d → ∃ st, prev = some st ∧
        st.lastOutput ≤ payload.accumulatedOutputTokens ∧
        d = payload.accumulatedOutputTokens - st.lastOutput) ∧
      ∀ d, cost = some d → ∃ st p q, prev = some st ∧ st.lastCost = some p ∧
        payload.accumulatedCost = some q ∧ p ≤ q ∧ d = q - p := by
  cases prev with
  | none => exact ⟨_, _, _, _, rfl, by simp, by simp, by simp, by simp⟩
  | some st =>
    rw [reliableDelta]
    split
    · exact ⟨_, _, _, _, rfl, by simp, by simp, by simp, by simp⟩
    · next hfell =>
      rw [not_or, UInt64.not_lt, UInt64.not_lt] at hfell
      obtain ⟨hin, hout⟩ := hfell
      split
      · next c p hcost hlast =>
        split
        · next hle =>
          refine ⟨_, _, _, _, rfl, by simp, ?_, ?_, ?_⟩
          · rintro d ⟨⟩
            exact ⟨st, rfl, hin, rfl⟩
          · rintro d ⟨⟩
            exact ⟨st, rfl, hout, rfl⟩
          · rintro d ⟨⟩
            exact ⟨st, p, c, rfl, hlast, hcost, hle, rfl⟩
        · exact ⟨_, _, _, _, rfl, by simp, by simp, by simp, by simp⟩
      · refine ⟨_, _, _, _, rfl, by simp, ?_, ?_, by simp⟩
        · rintro d ⟨⟩
          exact ⟨st, rfl, hin, rfl⟩
        · rintro d ⟨⟩
          exact ⟨st, rfl, hout, rfl⟩

theorem turnSeq_turnUsage : (turnUsage prev sessionId payload).turnSeq =
    (prev.map SessionState.publishedSeq).getD 0 + 1 := by
  obtain ⟨_, _, _, _, hdelta, -⟩ := reliableDelta_cases prev payload
  rw [turnUsage, hdelta]

theorem reliable_turnUsage (h : (turnUsage prev sessionId payload).deltaReliable = true) :
    (turnUsage prev sessionId payload).turn .input ≠ none ∧
      (turnUsage prev sessionId payload).turn .output ≠ none := by
  obtain ⟨_, _, _, _, hdelta, hreliable, -⟩ := reliableDelta_cases prev payload
  rw [turnUsage, hdelta] at h ⊢
  exact hreliable h

theorem turn_turnUsage {c : TokenCounter} {d : UInt64}
    (h : (turnUsage prev sessionId payload).turn c = some d) :
    ∃ st p q, prev = some st ∧ st.counter c = some p ∧
      (turnUsage prev sessionId payload).cumulative c = some q ∧ p ≤ q ∧ d = q - p := by
  obtain ⟨_, _, _, _, hdelta, -, hinput, houtput, -⟩ := reliableDelta_cases prev payload
  rw [turnUsage, hdelta] at h
  cases c with
  | input =>
    obtain ⟨st, hprev, hle, hd⟩ := hinput d h
    exact ⟨st, _, _, hprev, rfl, rfl, hle, hd⟩
  | output =>
    obtain ⟨st, hprev, hle, hd⟩ := houtput d h
    exact ⟨st, _, _, hprev, rfl, rfl, hle, hd⟩
  | total | cacheRead =>
    obtain ⟨p, q, hp, hq, hle, hd⟩ := optionalDelta_eq_some h
    obtain ⟨st, hprev, hst⟩ := Option.bind_eq_some_iff.mp hp
    exact ⟨st, p, q, hprev, hst, hq, hle, hd⟩

theorem cost_turnUsage {d : κ} (h : (turnUsage prev sessionId payload).turnCostUsd = some d) :
    ∃ st p q, prev = some st ∧ st.lastCost = some p ∧
      (turnUsage prev sessionId payload).cumulativeCostUsd = some q ∧ p ≤ q ∧ d = q - p := by
  obtain ⟨_, _, _, _, hdelta, -, -, -, hcost⟩ := reliableDelta_cases prev payload
  rw [turnUsage, hdelta] at h
  exact hcost d h

theorem follows_turnUsage (r : TurnUsage κ) :
    Follows r (turnUsage (some r.state) sessionId payload) where
  reliable := reliable_turnUsage
  tokens c d h := by
    obtain ⟨st, p, q, hprev, hp, hq, hle, rfl⟩ := turn_turnUsage h
    cases hprev
    exact ⟨p, q, (counter_state r c).symm.trans hp, hq, sub_add_toNat hle⟩
  cost d h := by
    obtain ⟨st, p, q, hprev, hp, hq, -, hd⟩ := cost_turnUsage h
    cases hprev
    exact ⟨p, q, hp, hq, hd⟩

theorem nonNegative_turnUsage [Zero κ] (hsub : ∀ p q : κ, p ≤ q → 0 ≤ q - p) :
    NonNegative (turnUsage prev sessionId payload) where
  tokens c d h := by
    obtain ⟨-, p, q, -, -, hq, hle, rfl⟩ := turn_turnUsage h
    exact ⟨q, hq, sub_le_of_le hle⟩
  cost d h := by
    obtain ⟨-, p, q, -, -, -, hle, rfl⟩ := cost_turnUsage h
    exact hsub p q hle

end Measure

/-! ### Invariants of a run -/

/-- How many turns of a session were published, as far as the tracker knows. -/
def UsageTracker.count (t : UsageTracker κ) (sessionId : String) : Nat :=
  ((t.sessions.lookup sessionId).map SessionState.publishedSeq).getD 0

variable {h h' : UsageHistory κ}

theorem count_of_sessions {t t' : UsageTracker κ} (ht : t'.sessions = t.sessions)
    (sessionId : String) : t'.count sessionId = t.count sessionId := by
  rw [UsageTracker.count, UsageTracker.count, ht]

theorem of_of_published (hp : h'.published = h.published) (sessionId : String) :
    h'.of sessionId = h.of sessionId := by
  rw [UsageHistory.of, UsageHistory.of, hp]

theorem of_publish {r : TurnUsage κ} (hp : h'.published = h.published ++ [r])
    (sessionId : String) :
    h'.of sessionId = h.of sessionId ++ if r.sessionId = sessionId then [r] else [] := by
  rw [UsageHistory.of, hp, filter_append, UsageHistory.of, filter_singleton]
  simp

theorem count_insert {t t' : UsageTracker κ} {k : String} {st : SessionState κ}
    (ht : t'.sessions = t.sessions.insert k st) (sessionId : String) :
    t'.count sessionId = if k = sessionId then st.publishedSeq else t.count sessionId := by
  rw [UsageTracker.count, ht]
  by_cases hk : k = sessionId
  · rw [if_pos hk, hk, AList.lookup_insert]
    rfl
  · rw [if_neg hk, AList.lookup_insert_ne (Ne.symm hk), UsageTracker.count]

section Run

variable [LE κ] [DecidableLE κ] [Sub κ]

/-- What is pending is measured from the counters of the session in flight. -/
def UsageTracker.Measured (t : UsageTracker κ) : Prop :=
  ∀ r ∈ t.pending, t.inFlightSession = some r.sessionId ∧
    ∃ payload, r = turnUsage (t.sessions.lookup r.sessionId) r.sessionId payload

/-- What holds of every history: turns are numbered from one on, without a gap. -/
structure UsageHistory.Numbered [Zero κ] (h : UsageHistory κ) : Prop where
  measured : h.tracker.Measured
  numbered : ∀ sessionId, (h.of sessionId).map TurnUsage.turnSeq =
    range' 1 (h.of sessionId).length
  counted : ∀ sessionId, h.tracker.count sessionId = (h.of sessionId).length
  nonNegative : ∀ r ∈ h.published, NonNegative r

/-- What holds while no call disturbs a turn. -/
structure UsageHistory.Kept (h : UsageHistory κ) : Prop where
  /-- The counters of a session are those of the last turn that was published for it. -/
  baseline : ∀ sessionId, ∀ r ∈ (h.of sessionId).getLast?,
    h.tracker.sessions.lookup sessionId = some r.state
  follows : ∀ sessionId, (h.of sessionId).IsChain Follows

variable {call : UsageCall κ}

theorem usage_step_cases (hm : h.tracker.Measured) (hs : (usage κ).step h call = some h') :
    h'.tracker.Measured ∧
    ((h'.published = h.published ∧ h'.tracker.sessions = h.tracker.sessions) ∨
    (∃ sessionId payload, call = .record sessionId payload ∧ h.tracker.inFlightSession = none ∧
      h'.published = h.published ∧ h'.tracker.sessions = h.tracker.sessions.insert sessionId
        (payload.state (h.tracker.count sessionId))) ∨
    ∃ r payload, r = turnUsage (h.tracker.sessions.lookup r.sessionId) r.sessionId payload ∧
      h'.published = h.published ++ [r] ∧
      h'.tracker.sessions = h.tracker.sessions.insert r.sessionId r.state) := by
  cases call with
  | beginTurn sessionId =>
    cases hs
    exact ⟨by rintro r ⟨⟩, .inl ⟨rfl, rfl⟩⟩
  | record sessionId payload =>
    cases hs
    rw [UsageTracker.record]
    split
    · next hflight =>
      refine ⟨?_, .inl ⟨rfl, rfl⟩⟩
      rintro r ⟨⟩
      exact ⟨hflight, payload, rfl⟩
    · split
      · next hidle =>
        refine ⟨fun r hr => ?_, .inr (.inl ⟨sessionId, payload, rfl, hidle, rfl, rfl⟩)⟩
        have hflight := (hm r hr).1
        rw [hidle] at hflight
        cases hflight
      · exact ⟨hm, .inl ⟨rfl, rfl⟩⟩
  | take =>
    cases hs
    cases hpending : h.tracker.pending with
    | none =>
      have htake : h.tracker.take = (none, ⟨h.tracker.sessions, none, none⟩) := by
        rw [UsageTracker.take, hpending]
      rw [htake]
      exact ⟨by rintro r ⟨⟩, .inl ⟨append_nil _, rfl⟩⟩
    | some r =>
      have htake : h.tracker.take =
          (some r, ⟨h.tracker.sessions.insert r.sessionId r.state, none, none⟩) := by
        rw [UsageTracker.take, hpending]
      rw [htake]
      obtain ⟨payload, hr⟩ := (hm r hpending).2
      exact ⟨by rintro r ⟨⟩, .inr (.inr ⟨r, payload, hr, rfl, rfl⟩)⟩

theorem UsageHistory.Numbered.step [Zero κ] (hsub : ∀ p q : κ, p ≤ q → 0 ≤ q - p)
    (hn : h.Numbered) (hs : (usage κ).step h call = some h') : h'.Numbered := by
  obtain ⟨hm, ⟨hp, ht⟩ | ⟨s, payload, -, -, hp, ht⟩ | ⟨r, payload, hr, hp, ht⟩⟩ :=
    usage_step_cases hn.measured hs
  · refine ⟨hm, fun sessionId => ?_, fun sessionId => ?_, fun r hr => ?_⟩
    · rw [of_of_published hp]
      exact hn.numbered sessionId
    · rw [of_of_published hp, count_of_sessions ht]
      exact hn.counted sessionId
    · exact hn.nonNegative r (hp ▸ hr)
  · refine ⟨hm, fun sessionId => ?_, fun sessionId => ?_, fun r hr => ?_⟩
    · rw [of_of_published hp]
      exact hn.numbered sessionId
    · rw [of_of_published hp, count_insert ht]
      split
      · next hk => exact hk ▸ hn.counted s
      · exact hn.counted sessionId
    · exact hn.nonNegative r (hp ▸ hr)
  · have hseq : r.turnSeq = (h.of r.sessionId).length + 1 := by
      rw [hr, turnSeq_turnUsage, ← hr, ← hn.counted r.sessionId, UsageTracker.count]
    refine ⟨hm, fun sessionId => ?_, fun sessionId => ?_, fun r' hr' => ?_⟩
    · rw [of_publish hp]
      split
      · next hk =>
        subst hk
        rw [map_append, hn.numbered, length_append, map_singleton, hseq,
          length_singleton, range'_concat]
        simp [Nat.add_comm]
      · rw [append_nil]
        exact hn.numbered sessionId
    · rw [of_publish hp, count_insert ht]
      split
      · next hk =>
        subst hk
        rwa [length_append, length_singleton]
      · rw [append_nil]
        exact hn.counted sessionId
    · rw [hp, mem_append, mem_singleton] at hr'
      obtain hr' | rfl := hr'
      · exact hn.nonNegative r' hr'
      · rw [hr]
        exact nonNegative_turnUsage hsub

theorem UsageHistory.Numbered.turnSeq_pos [Zero κ] (hn : h.Numbered) {sessionId : String}
    {r : TurnUsage κ} (hr : r ∈ h.of sessionId) : 0 < r.turnSeq := by
  have hmem := mem_map_of_mem (f := TurnUsage.turnSeq) hr
  rw [hn.numbered, mem_range'_1] at hmem
  exact hmem.1

theorem UsageHistory.Kept.step [Zero κ] (hn : h.Numbered) (hk : h.Kept)
    (hquiet : Undisturbed h call) (hs : (usage κ).step h call = some h') : h'.Kept := by
  obtain ⟨-, ⟨hp, ht⟩ | ⟨s, payload, rfl, hidle, hp, ht⟩ | ⟨r, payload, hr, hp, ht⟩⟩ :=
    usage_step_cases hn.measured hs
  · refine ⟨fun sessionId r hr => ?_, fun sessionId => ?_⟩
    · rw [of_of_published hp] at hr
      rw [ht]
      exact hk.baseline sessionId r hr
    · rw [of_of_published hp]
      exact hk.follows sessionId
  · refine ⟨fun sessionId r hr => ?_, fun sessionId => ?_⟩
    · rw [of_of_published hp] at hr
      have hlast := hk.baseline sessionId r hr
      rw [ht]
      by_cases hsame : sessionId = s
      · -- The report repeats the counters of the turn that was published last.
        subst hsame
        have hpos := hn.turnSeq_pos (mem_of_getLast? hr)
        have hcount : h.tracker.count sessionId = r.turnSeq := by
          rw [UsageTracker.count, hlast]
          rfl
        rw [AList.lookup_insert, hcount]
        exact congrArg some (hquiet hidle r.state hlast hpos)
      · rwa [AList.lookup_insert_ne hsame]
    · rw [of_of_published hp]
      exact hk.follows sessionId
  · refine ⟨fun sessionId r' hr' => ?_, fun sessionId => ?_⟩
    · rw [of_publish hp] at hr'
      rw [ht]
      split at hr'
      · next hsame =>
        rw [getLast?_concat] at hr'
        cases hr'
        rw [← hsame, AList.lookup_insert]
      · next hother =>
        rw [append_nil] at hr'
        rw [AList.lookup_insert_ne (Ne.symm hother)]
        exact hk.baseline sessionId r' hr'
    · rw [of_publish hp]
      split
      · next hsame =>
        refine isChain_append.mpr ⟨hk.follows sessionId, isChain_singleton r, ?_⟩
        rintro last hlast _ ⟨⟩
        rw [hsame, hk.baseline sessionId last hlast] at hr
        rw [hr]
        exact follows_turnUsage last
      · rw [append_nil]
        exact hk.follows sessionId

/-! ### Main results -/

theorem usage_init [Zero κ] {h : UsageHistory κ} (hi : (usage κ).Init h) :
    h.Numbered ∧ h.Kept := by
  obtain rfl : h = ⟨.new, []⟩ := hi
  refine ⟨⟨?_, fun _ => rfl, fun _ => rfl, ?_⟩, ⟨?_, fun _ => isChain_nil⟩⟩
  · rintro r ⟨⟩
  · rintro r ⟨⟩
  · rintro _ r ⟨⟩

/-- **What is published adds up.** In every run the turns of a session are numbered one after
another from one on, and nothing is negative. In a run in which no report moves the counters of a
session that has published, unless a turn is in flight, every turn is the difference to the one
before. -/
theorem telescopes_of_undisturbed [Zero κ] [DecidableEq κ] (hsub : ∀ p q : κ, p ≤ q → 0 ≤ q - p) :
    (∀ h, (usage κ).Reachable h → ∀ sessionId,
      (h.of sessionId).map TurnUsage.turnSeq = range' 1 (h.of sessionId).length ∧
      ∀ r ∈ h.of sessionId, NonNegative r) ∧
    ∀ h, ((usage κ).guard Undisturbed).Reachable h → ∀ sessionId, Telescopes (h.of sessionId) := by
  refine ⟨fun h hr sessionId => ?_, fun h hr sessionId => ?_⟩
  · have hn : h.Numbered := StateMachine.Reachable.invariant (fun _ hi => (usage_init hi).1)
      (fun _ _ _ _ hn hs => hn.step hsub hs) hr
    exact ⟨hn.numbered sessionId, fun r hmem => hn.nonNegative r (mem_of_mem_filter hmem)⟩
  · have hboth : h.Numbered ∧ h.Kept := StateMachine.reachable_guard
      (I := fun h : UsageHistory κ => h.Numbered ∧ h.Kept) (fun _ hi => usage_init hi)
      (fun _ _ _ hI hquiet hs => ⟨hI.1.step hsub hs, hI.2.step hI.1 hquiet hs⟩) hr
    exact telescopes_of_follows (hboth.2.follows sessionId)

end Run

/-! ### A report between two turns -/

/-- A report of a number of tokens of input and of output. -/
def report (input output : UInt64) : UsageUpdatePayload Int :=
  ⟨input, output, none, none, none, none⟩

/-- A session publishes three turns, and repeats what it published in between. -/
def quietRun : List (UsageCall Int) :=
  [.record "s" (report 10 1), .beginTurn "s", .record "s" (report 100 10), .take,
    .record "s" (report 100 10), .beginTurn "s", .record "s" (report 120 15),
    .record "s" (report 150 20), .take, .beginTurn "s", .record "s" (report 150 20), .take]

/-- A report arrives after a turn was published, before the next one begins. -/
def lateRun : List (UsageCall Int) :=
  [.beginTurn "s", .record "s" (report 1000 100), .take, .record "s" (report 1500 150),
    .beginTurn "s", .record "s" (report 1600 160), .take]

/-- Where a run of the calls ends. -/
def usageAfter (calls : List (UsageCall Int)) : UsageHistory Int :=
  calls.foldl (fun h call => ((usage Int).step h call).getD h) ⟨.new, []⟩

theorem telescopes_quietRun : ((usage Int).guard Undisturbed).Reachable (usageAfter quietRun) ∧
    (usageAfter quietRun).of "s" ≠ [] ∧ Telescopes ((usageAfter quietRun).of "s") := by
  have hr : ((usage Int).guard Undisturbed).Reachable (usageAfter quietRun) :=
    ⟨⟨.new, []⟩, quietRun, rfl, by rfl⟩
  exact ⟨hr, by decide, (telescopes_of_undisturbed fun p q h => Int.sub_nonneg.mpr h).2 _ hr "s"⟩

/-- The second turn used six hundred tokens of input, and says a hundred. -/
theorem not_telescopes_lateRun : ¬∀ h, (usage Int).Reachable h → ∀ sessionId,
    Telescopes (h.of sessionId) := by
  intro h
  have hr : (usage Int).Reachable (usageAfter lateRun) := ⟨⟨.new, []⟩, lateRun, rfl, by rfl⟩
  have hof : (usageAfter lateRun).of "s" = [turnUsage none "s" (report 1000 100),
      turnUsage (some ((report 1500 150).state 1)) "s" (report 1600 160)] := by decide
  have htelescopes := h _ hr "s"
  rw [hof] at htelescopes
  have hadds := htelescopes.adds .input _ _ (infix_refl _) (by decide)
  exact absurd hadds (by decide)

end Buzz.Acp
