import Buzz.Lib.StateMachine
import Mathlib.Order.Lattice.Nat
import Mathlib.Order.WithBot

/-!
# Anti-entropy by digest and delta

A replica holds at most one record for a key, with a version. It sends a digest of what it holds, and
is answered with the records that the digest lacks or is behind on. A replica may own keys, whose
records nobody else overrides.

An exchange is one digest and one delta in both directions. Its steps are interleaved in any order,
and a delta is applied one record at a time. When it is complete, both replicas hold the maximum of
what they held before, at every key.
-/

namespace Buzz

/-- Replicas of type `σ` that hold records of type `ρ` for keys of type `κ`, with digests of type
`δ`. -/
structure Replica (σ ρ κ δ : Type*) where
  version : σ → κ → WithBot ℕ
  Owns : σ → κ → Prop
  key : ρ → κ
  rank : ρ → ℕ
  digest : σ → δ
  delta : σ → δ → List ρ
  apply : σ → ρ → σ
  version_of_mem_delta : ∀ s d r, r ∈ delta s d → version s (key r) = WithBot.some (rank r)
  mem_delta : ∀ s t k (n : ℕ), version s k = WithBot.some n → version t k < WithBot.some n →
    ∃ r ∈ delta s (digest t), key r = k ∧ rank r = n
  /-- The record of a key that the replica owns is not taken over. -/
  apply_of_owns : ∀ s r, Owns s (key r) → apply s r = s
  version_apply_self : ∀ s r, ¬ Owns s (key r) →
    version (apply s r) (key r) = max (version s (key r)) (WithBot.some (rank r))
  version_apply_of_ne : ∀ s r k, k ≠ key r → version (apply s r) k = version s k
  owns_apply : ∀ s r k, Owns (apply s r) k ↔ Owns s k

structure Side (σ ρ δ : Type*) where
  state : σ
  asked : Option δ
  inbox : Option (List ρ)

/-- A step of a side. -/
inductive ExchangeAction where
  | ask (side : Bool)
  | answer (side : Bool)
  | apply (side : Bool)

variable {σ ρ κ δ : Type*} (R : Replica σ ρ κ δ)

abbrev Sides (σ ρ δ : Type*) := Bool → Side σ ρ δ

def Sides.set (x : Sides σ ρ δ) (side : Bool) (s : Side σ ρ δ) : Sides σ ρ δ :=
  fun other => if other = side then s else x other

def exchangeStep (x : Sides σ ρ δ) : ExchangeAction → Option (Sides σ ρ δ)
  | .ask side =>
    match (x side).asked with
    | none => some (x.set side { x side with asked := some (R.digest (x side).state) })
    | some _ => none
  | .answer side =>
    match (x !side).asked, (x !side).inbox with
    | some digest, none =>
      some (x.set (!side) { x !side with inbox := some (R.delta (x side).state digest) })
    | _, _ => none
  | .apply side =>
    match (x side).inbox with
    | some (r :: records) =>
      some (x.set side
        { x side with state := R.apply (x side).state r, inbox := some records })
    | _ => none

/-- An exchange between two replicas that nobody else talks to. -/
def exchange (initial : Bool → σ) : StateMachine (Sides σ ρ δ) ExchangeAction where
  Init x := x = fun side => ⟨initial side, none, none⟩
  step := exchangeStep R

/-- Both sides have applied the answer to their digest. -/
def Sides.Complete (x : Sides σ ρ δ) : Prop := ∀ side, (x side).inbox = some []

namespace Exchange

/-- One side of an exchange, compared with where both started. -/
structure SideInv (initial : Bool → σ) (side : Bool) (s : Side σ ρ δ) : Prop where
  lower : ∀ k, R.version (initial side) k ≤ R.version s.state k
  upper : ∀ k, R.version s.state k ≤
    max (R.version (initial side) k) (R.version (initial !side) k)
  owns : ∀ k, R.Owns s.state k ↔ R.Owns (initial side) k
  asked : ∀ digest, s.asked = some digest → digest = R.digest (initial side)
  before : s.inbox = none → s.state = initial side
  records : ∀ inbox, s.inbox = some inbox → ∀ r ∈ inbox, WithBot.some (R.rank r) ≤
    max (R.version (initial side) (R.key r)) (R.version (initial !side) (R.key r))
  covered : ∀ inbox, s.inbox = some inbox → ∀ k,
    R.version (initial !side) k ≤ R.version s.state k ∨
      ∃ r ∈ inbox, R.key r = k ∧ R.version (initial !side) k ≤ WithBot.some (R.rank r)

/-- Nobody holds a newer record of what another one owns. -/
def Owned (initial : Bool → σ) : Prop :=
  ∀ side k, R.Owns (initial side) k →
    R.version (initial !side) k ≤ R.version (initial side) k

variable {R} {initial : Bool → σ} {side : Bool} {s : Side σ ρ δ}

theorem SideInv.ask (h : SideInv R initial side s) (hasked : s.asked = none)
    (hinbox : s.asked = none → s.inbox = none) :
    SideInv R initial side { s with asked := some (R.digest s.state) } where
  __ := h
  asked digest hdigest := by
    rw [← Option.some.inj hdigest, h.before (hinbox hasked)]

theorem SideInv.answer (h : SideInv R initial side s) {t : Side σ ρ δ}
    (ht : SideInv R initial (!side) t) (hinbox : s.inbox = none) :
    SideInv R initial side { s with inbox := some (R.delta t.state (R.digest (initial side))) } where
  __ := h
  before hnone := nomatch hnone
  records inbox hinbox' r hr := by
    cases hinbox'
    have hupper := ht.upper (R.key r)
    rw [R.version_of_mem_delta _ _ r hr, Bool.not_not, max_comm] at hupper
    exact hupper
  covered inbox hinbox' k := by
    cases hinbox'
    have hlower := ht.lower k
    rw [h.before hinbox]
    by_cases hle : R.version t.state k ≤ R.version (initial side) k
    · exact .inl (hlower.trans hle)
    · have hlt : R.version (initial side) k < R.version t.state k := lt_of_not_ge hle
      obtain ⟨n, hn⟩ := WithBot.ne_bot_iff_exists.mp (ne_bot_of_gt hlt)
      obtain ⟨r, hr, hkey, hrank⟩ := R.mem_delta t.state (initial side) k n hn.symm (hn ▸ hlt)
      exact .inr ⟨r, hr, hkey, (hlower.trans hn.ge).trans (le_of_eq (congrArg _ hrank.symm))⟩

theorem SideInv.apply (h : SideInv R initial side s) (howned : Owned R initial) {r : ρ}
    {records : List ρ} (hinbox : s.inbox = some (r :: records)) :
    SideInv R initial side { s with state := R.apply s.state r, inbox := some records } := by
  have hrank := h.records _ hinbox r List.mem_cons_self
  have hgrow : ∀ k, R.version s.state k ≤ R.version (R.apply s.state r) k := by
    intro k
    by_cases howns : R.Owns s.state (R.key r)
    · rw [R.apply_of_owns _ _ howns]
    · by_cases hk : k = R.key r
      · rw [hk, R.version_apply_self _ _ howns]
        exact le_max_left _ _
      · rw [R.version_apply_of_ne _ _ _ hk]
  refine ⟨fun k => (h.lower k).trans (hgrow k), fun k => ?_, fun k => ?_, h.asked,
    nofun, fun inbox hinbox' r' hr' => ?_, fun inbox hinbox' k => ?_⟩
  · by_cases howns : R.Owns s.state (R.key r)
    · rw [R.apply_of_owns _ _ howns]
      exact h.upper k
    · by_cases hk : k = R.key r
      · rw [hk, R.version_apply_self _ _ howns]
        exact max_le (h.upper _) hrank
      · rw [R.version_apply_of_ne _ _ _ hk]
        exact h.upper k
  · rw [R.owns_apply]
    exact h.owns k
  · cases hinbox'
    exact h.records _ hinbox r' (List.mem_cons_of_mem _ hr')
  · cases hinbox'
    obtain hheld | ⟨r', hr', hkey, hle⟩ := h.covered _ hinbox k
    · exact .inl (hheld.trans (hgrow k))
    obtain rfl | hr' := List.mem_cons.mp hr'
    · left
      by_cases howns : R.Owns s.state (R.key r')
      · -- Its own record: the other side was not ahead.
        rw [R.apply_of_owns _ _ howns, ← hkey]
        exact (howned side _ ((h.owns _).mp howns)).trans (h.lower _)
      · rw [← hkey, R.version_apply_self _ _ howns, hkey]
        exact hle.trans (le_max_right _ _)
    · exact .inr ⟨r', hr', hkey, hle⟩

variable (R initial) in
/-- The invariant of the exchange. -/
structure Inv (x : Sides σ ρ δ) : Prop where
  side : ∀ side, SideInv R initial side (x side)
  asked : ∀ side, (x side).asked = none → (x side).inbox = none

theorem Inv.set {x : Sides σ ρ δ} (h : Inv R initial x) (hs : SideInv R initial side s)
    (hasked : s.asked = none → s.inbox = none) : Inv R initial (x.set side s) := by
  refine ⟨fun other => ?_, fun other => ?_⟩
  · unfold Sides.set
    split
    · next heq => exact heq ▸ hs
    · exact h.side other
  · unfold Sides.set
    split
    · exact hasked
    · exact h.asked other

theorem Inv.step {x x' : Sides σ ρ δ} (h : Inv R initial x) (howned : Owned R initial)
    {a : ExchangeAction} (hs : exchangeStep R x a = some x') : Inv R initial x' := by
  cases a with
  | ask side =>
    dsimp only [exchangeStep] at hs
    split at hs
    · next hasked =>
      cases hs
      exact h.set ((h.side side).ask hasked (h.asked side)) nofun
    · nomatch hs
  | answer side =>
    dsimp only [exchangeStep] at hs
    split at hs
    · next digest hasked hinbox =>
      cases hs
      obtain rfl := (h.side !side).asked digest hasked
      have ht : SideInv R initial (!!side) (x side) := (Bool.not_not side).symm ▸ h.side side
      refine h.set ((h.side !side).answer ht hinbox) fun hnone => ?_
      nomatch hasked.symm.trans hnone
    · nomatch hs
  | apply side =>
    dsimp only [exchangeStep] at hs
    split at hs
    · next r records hinbox =>
      cases hs
      refine h.set ((h.side side).apply howned hinbox) fun hnone => ?_
      nomatch hinbox.symm.trans (h.asked side hnone)
    · nomatch hs

theorem Inv.init : Inv R initial fun side => ⟨initial side, none, none⟩ where
  side _ :=
    { lower := fun _ => le_rfl
      upper := fun _ => le_max_left _ _
      owns := fun _ => Iff.rfl
      asked := nofun
      before := fun _ => rfl
      records := nofun
      covered := nofun }
  asked _ _ := rfl

end Exchange

/-- **Convergence.** A complete exchange leaves the maximum of what both sides held on both sides. -/
theorem version_of_complete {R : Replica σ ρ κ δ} {initial : Bool → σ}
    (howned : Exchange.Owned R initial) {x : Sides σ ρ δ} (h : (exchange R initial).Reachable x)
    (hcomplete : x.Complete) (side : Bool) (k : κ) : R.version (x side).state k =
      max (R.version (initial side) k) (R.version (initial !side) k) := by
  have hinv : Exchange.Inv R initial x := by
    refine h.invariant (fun x hx => ?_) fun x a x' _ hI hs => hI.step howned hs
    obtain rfl := hx
    exact Exchange.Inv.init
  have hside := hinv.side side
  refine le_antisymm (hside.upper k) (max_le (hside.lower k) ?_)
  obtain hheld | ⟨r, hr, -⟩ := hside.covered _ (hcomplete side) k
  · exact hheld
  · nomatch hr

end Buzz
