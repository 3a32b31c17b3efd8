import Mathlib.Algebra.Order.Ring.Int
import Buzz.Relay.Push.Runtime

/-!
# Every answer settles the wake

After the call of the gateway a delivery completes its wake, retries it later or fails it. The delay
of a retry is taken from the answer, multiplied by a power of two and added to the clock, and none
of these stays in its range for every answer.
-/

namespace Buzz.Push

def Statement.finishes : Statement → Bool
  | .complete => true
  | .retry _ => true
  | .fail => true
  | .disableEndpoint _ => false

/-- The delay that an answer asks for. -/
def answeredDelay (status : Nat) (body : Option DeliveryResponse) : Option Int :=
  if status = 503 then some (retryDelay body) else if status = 429 then some 2 else none

/-- The delay after which this result has the delivery tried again, below the last attempt. -/
def GatewayResult.askedDelay : GatewayResult → Option Int
  | .answer status body => answeredDelay status body
  | .cutOff status => answeredDelay status none
  | .unreachable => some 2
  | .unsent => none
  | .broken => none

def backoff (attempt : Nat) (delay : Int) : Int := delay * 2 ^ min (attempt - 1) 6

/-- The updates settle the wake as the answer asks. -/
structure Settles (wake : ClaimedWake) (utcNow : Int) (result : GatewayResult) : Prop where
  once : ∃ todo, disposition wake utcNow result = some todo ∧
    (todo.filter Statement.finishes).length = 1
  exact : ∀ delay, result.askedDelay = some delay → wake.attempt < maxAttempts →
    (backoff wake.attempt delay).bmod (2 ^ 64) = backoff wake.attempt delay
  later : ∀ todo t, disposition wake utcNow result = some todo → .retry t ∈ todo →
    utcNow < t ∧ wake.attempt < maxAttempts
  /-- A retry waits longer than at earlier attempts with the same delay. -/
  grows : ∀ (wake' : ClaimedWake) (result' : GatewayResult), 1 ≤ wake'.attempt →
    wake'.attempt < wake.attempt → result'.askedDelay = result.askedDelay →
    ∀ todo t todo' t', disposition wake utcNow result = some todo → .retry t ∈ todo →
      disposition wake' utcNow result' = some todo' → .retry t' ∈ todo' → t' < t
  goesOn : ∀ (w : DeliveryWorld) (i : Nat), (w.workers i).phase = .send wake →
    ∃ s todo, w.workerStep i (.gateway wake result utcNow) =
      some (w.proceed i (.finish wake (s :: todo)))

/-- The time of the next attempt is one that can be written, below the last attempt. -/
def Fits (wake : ClaimedWake) (utcNow : Int) (result : GatewayResult) : Prop :=
  ∀ delay, result.askedDelay = some delay → wake.attempt < maxAttempts →
    utcNow + seconds (backoff wake.attempt delay) < seconds (maxUtcSecs + 1)

/-! ### One call -/

variable {wake : ClaimedWake} {utcNow : Int} {result : GatewayResult}

variable {delay : Int}

theorem answeredDelay_pos {status : Nat} {body : Option DeliveryResponse}
    (h : answeredDelay status body = some delay) : 0 < delay := by
  rw [answeredDelay] at h
  split at h
  · cases h
    rw [retryDelay.eq_def]
    split
    · split
      · assumption
      · decide
    · decide
  · split at h
    · cases h
      decide
    · cases h

theorem askedDelay_pos (h : result.askedDelay = some delay) : 0 < delay := by
  cases result with
  | unsent | broken => cases h
  | unreachable =>
    cases h
    decide
  | answer status body | cutOff status => exact answeredDelay_pos h

theorem answered_of_answeredDelay {status : Nat} {body : Option DeliveryResponse}
    (h : answeredDelay status body = some delay) :
    answered wake utcNow status body = retryOrFail wake utcNow delay := by
  rw [answeredDelay] at h
  split at h
  · next hstatus =>
    cases h
    subst hstatus
    rfl
  · split at h
    · next hstatus =>
      cases h
      subst hstatus
      rfl
    · cases h

theorem disposition_of_askedDelay (h : result.askedDelay = some delay) :
    disposition wake utcNow result = retryOrFail wake utcNow delay := by
  cases result with
  | unsent | broken => cases h
  | unreachable =>
    cases h
    rfl
  | answer status body | cutOff status => exact answered_of_answeredDelay h

/-- An answer that asks for no delay settles the wake at once. -/
theorem answered_of_answeredDelay_eq_none {status : Nat} {body : Option DeliveryResponse}
    (h : answeredDelay status body = none) : ∃ todo, answered wake utcNow status body = some todo ∧
      (todo.filter Statement.finishes).length = 1 ∧ ∀ t, .retry t ∉ todo := by
  rw [answeredDelay] at h
  split at h
  · cases h
  next h503 =>
  split at h
  · cases h
  next h429 =>
  unfold answered
  split
  · split
    · exact ⟨_, rfl, rfl, by simp⟩
    · exact ⟨_, rfl, rfl, by simp⟩
  · split
    · split
      · split
        · exact ⟨_, rfl, rfl, by simp⟩
        · exact ⟨_, rfl, rfl, by simp⟩
      · exact ⟨_, rfl, rfl, by simp⟩
    · split
      · exact ⟨_, rfl, rfl, by simp⟩
      · exact ⟨_, rfl, rfl, by simp⟩

theorem disposition_of_askedDelay_eq_none (hsent : result ≠ .unsent)
    (h : result.askedDelay = none) : ∃ todo, disposition wake utcNow result = some todo ∧
      (todo.filter Statement.finishes).length = 1 ∧ ∀ t, .retry t ∉ todo := by
  cases result with
  | unsent => exact absurd rfl hsent
  | unreachable => cases h
  | broken => exact ⟨_, rfl, rfl, by simp⟩
  | answer status body | cutOff status => exact answered_of_answeredDelay_eq_none h

/-! ### Retries -/

theorem backoff_mono {a a' : Nat} (hdelay : 0 < delay) (ha : 1 ≤ a) (hlt : a < a')
    (ha' : a' < maxAttempts) : backoff a delay < backoff a' delay := by
  have hpow : (2 : Int) ^ min (a - 1) 6 < 2 ^ min (a' - 1) 6 := by
    refine pow_lt_pow_right₀ (by decide) ?_
    rw [maxAttempts] at ha'
    omega
  exact Int.mul_lt_mul_of_pos_left hpow hdelay

theorem backoff_pos (a : Nat) (hdelay : 0 < delay) : 0 < backoff a delay :=
  Int.mul_pos hdelay (Int.pow_pos (by decide))

theorem bmod_of_fits {b : Int} (hnow : seconds minUtcSecs ≤ utcNow) (hpos : 0 < b)
    (hfits : utcNow + seconds b < seconds (maxUtcSecs + 1)) : b.bmod (2 ^ 64) = b := by
  rw [seconds, minUtcSecs] at hnow
  rw [seconds, seconds, maxUtcSecs] at hfits
  refine Int.bmod_eq_of_le ?_ ?_
  · omega
  · omega

theorem afterSecs_eq_some_iff {secs t : Int} : afterSecs utcNow secs = some t ↔
    seconds minUtcSecs ≤ t ∧ t < seconds (maxUtcSecs + 1) ∧ t = utcNow + seconds secs := by
  rw [afterSecs]
  split
  · next h =>
    constructor
    · rintro ⟨⟩
      exact ⟨h.1, h.2, rfl⟩
    · rintro ⟨-, -, rfl⟩
      rfl
  · next h =>
    refine iff_of_false nofun ?_
    rintro ⟨hlow, hhigh, rfl⟩
    exact h ⟨hlow, hhigh⟩

variable {todo : List Statement}

theorem of_retry_mem (hsent : result ≠ .unsent) {t : Int}
    (h : disposition wake utcNow result = some todo) (ht : .retry t ∈ todo) :
    ∃ delay, result.askedDelay = some delay ∧ wake.attempt < maxAttempts ∧
      afterSecs utcNow ((backoff wake.attempt delay).bmod (2 ^ 64)) = some t := by
  cases hasked : result.askedDelay with
  | none =>
    obtain ⟨todo', h', -, hno⟩ := disposition_of_askedDelay_eq_none hsent hasked
    rw [h] at h'
    cases h'
    exact absurd ht (hno t)
  | some delay =>
    rw [disposition_of_askedDelay hasked, retryOrFail] at h
    split at h
    · cases h
      simp at ht
    · next hattempt =>
      obtain ⟨t', ht', rfl⟩ := Option.map_eq_some_iff.mp h
      obtain rfl : t = t' := by simpa using ht
      exact ⟨delay, rfl, Nat.lt_of_not_le hattempt, ht'⟩

theorem afterSecs_of_fits {b : Int} (hnow : seconds minUtcSecs ≤ utcNow) (hpos : 0 < b)
    (hfits : utcNow + seconds b < seconds (maxUtcSecs + 1)) :
    afterSecs utcNow (b.bmod (2 ^ 64)) = some (utcNow + seconds b) := by
  have hlow : seconds minUtcSecs ≤ utcNow + seconds b := by
    rw [seconds] at hnow ⊢
    rw [seconds]
    omega
  rw [bmod_of_fits hnow hpos hfits]
  exact afterSecs_eq_some_iff.mpr ⟨hlow, hfits, rfl⟩

theorem goesOn_of_once (h : disposition wake utcNow result = some todo)
    (honce : (todo.filter Statement.finishes).length = 1) (w : DeliveryWorld) (i : Nat)
    (hphase : (w.workers i).phase = .send wake) :
    ∃ s rest, w.workerStep i (.gateway wake result utcNow) =
      some (w.proceed i (.finish wake (s :: rest))) := by
  cases todo with
  | nil => cases honce
  | cons s rest =>
    refine ⟨s, rest, ?_⟩
    rw [DeliveryWorld.workerStep, if_pos hphase, h]
    rfl

/-! ### Main results -/

/-- **Exactly when an answer settles the wake**: when it does not ask for a retry below the last
attempt at a time that cannot be written. -/
theorem settles_iff_fits (hnow : seconds minUtcSecs ≤ utcNow) (hsent : result ≠ .unsent) :
    Settles wake utcNow result ↔ Fits wake utcNow result := by
  constructor
  · intro h delay hasked hlt
    obtain ⟨todo, htodo, -⟩ := h.once
    rw [disposition_of_askedDelay hasked, retryOrFail, if_neg (Nat.not_le.mpr hlt)] at htodo
    obtain ⟨t, ht, -⟩ := Option.map_eq_some_iff.mp htodo
    have hexact := h.exact delay hasked hlt
    rw [backoff] at hexact
    rw [hexact, afterSecs_eq_some_iff] at ht
    obtain ⟨-, hhigh, rfl⟩ := ht
    exact hhigh
  · intro h
    have hretry : ∀ todo t, disposition wake utcNow result = some todo → .retry t ∈ todo →
        ∃ delay, result.askedDelay = some delay ∧ wake.attempt < maxAttempts ∧
          t = utcNow + seconds (backoff wake.attempt delay) := by
      intro todo t htodo ht
      obtain ⟨delay, hasked, hlt, hafter⟩ := of_retry_mem hsent htodo ht
      rw [afterSecs_of_fits hnow (backoff_pos _ (askedDelay_pos hasked)) (h delay hasked hlt)]
        at hafter
      exact ⟨delay, hasked, hlt, (Option.some.inj hafter).symm⟩
    have honce : ∃ todo, disposition wake utcNow result = some todo ∧
        (todo.filter Statement.finishes).length = 1 := by
      cases hasked : result.askedDelay with
      | none =>
        obtain ⟨todo, htodo, hone, -⟩ := disposition_of_askedDelay_eq_none hsent hasked
        exact ⟨todo, htodo, hone⟩
      | some delay =>
        rw [disposition_of_askedDelay hasked, retryOrFail]
        split
        · exact ⟨_, rfl, rfl⟩
        · next hlast =>
          have hfits := h delay hasked (Nat.lt_of_not_le hlast)
          have hafter := afterSecs_of_fits hnow (backoff_pos _ (askedDelay_pos hasked)) hfits
          rw [backoff] at hafter
          rw [hafter]
          exact ⟨_, rfl, rfl⟩
    refine ⟨honce, fun delay hasked hlt => ?_, fun todo t htodo ht => ?_, ?_, fun w i hphase => ?_⟩
    · exact bmod_of_fits hnow (backoff_pos _ (askedDelay_pos hasked)) (h delay hasked hlt)
    · obtain ⟨delay, hasked, hlt, rfl⟩ := hretry todo t htodo ht
      have hpos := backoff_pos wake.attempt (askedDelay_pos hasked)
      rw [seconds]
      exact ⟨by omega, hlt⟩
    · intro wake' result' hattempt' hlt' hsame todo t todo' t' htodo ht htodo' ht'
      obtain ⟨delay, hasked, hlt, rfl⟩ := hretry todo t htodo ht
      rw [hasked] at hsame
      have hsent' : result' ≠ .unsent := by
        rintro rfl
        cases hsame
      obtain ⟨delay', hasked', -, hafter⟩ := of_retry_mem hsent' htodo' ht'
      obtain rfl := Option.some.inj (hsame.symm.trans hasked')
      have hpos := askedDelay_pos hasked
      have hless := backoff_mono hpos hattempt' hlt' hlt
      have hfits := h delay hasked hlt
      -- The earlier attempt waits for less, so that its time can be written as well.
      have hfits' : utcNow + seconds (backoff wake'.attempt delay) < seconds (maxUtcSecs + 1) := by
        rw [seconds, seconds] at hfits ⊢
        omega
      rw [afterSecs_of_fits hnow (backoff_pos _ hpos) hfits'] at hafter
      obtain rfl := Option.some.inj hafter
      rw [seconds, seconds]
      omega
    · obtain ⟨todo, htodo, hone⟩ := honce
      exact goesOn_of_once htodo hone w i hphase

/-! ### A delay that cannot be written -/

def firstAttempt : ClaimedWake where
  community := 1
  id := 2
  claimId := 3
  eventId := 4
  channelId := none
  author := 5
  installationId := "phone"
  leaseGeneration := 1
  endpointGrant := some "grant"
  wakeClass := "message"
  expiresAt := 1700003600
  attempt := 1

/-- The answer that asks for as long a delay as can be asked for. -/
def endlessRetry : GatewayResult := .answer 503 (some (.retry (some i64Max)))

/-- The delivery panics. -/
theorem endlessRetry_unsettled : ¬Settles firstAttempt (seconds 1700000000) endlessRetry := by
  intro h
  obtain ⟨todo, htodo, -⟩ := h.once
  have hpanic : disposition firstAttempt (seconds 1700000000) endlessRetry = none := by decide
  rw [hpanic] at htodo
  cases htodo

theorem settles_later : Settles firstAttempt (seconds 1700000000)
    (.answer 503 (some (.retry (some 30)))) :=
  (settles_iff_fits (by decide) (by decide)).mpr fun delay hasked _ => by
    obtain rfl := Option.some.inj hasked
    decide

end Buzz.Push
