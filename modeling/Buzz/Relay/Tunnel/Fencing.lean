import Buzz.Lib.StateMachine
import Buzz.Relay.Tunnel.Directory

/-!
# Session fencing

Any number of runtimes acquire, renew, release and validate on one session, in any order, while
leases expire. Safety rests on two keys: the lease is written together with the counter it was
numbered from, and the counter is never lowered. So a live lease always carries the value of the
counter, and every generation handed out is at most that.

From `10 ^ 14` on a lease string cannot be parsed. Then `acquire` hands nothing out and no header is
accepted: the directory fails closed.
-/

namespace Buzz.Tunnel

open List Option

/-! ### Lease strings -/

theorem parseU64_luaToString (n : Nat) :
    parseU64 (luaToString n) = if n < 10 ^ 14 then some n else none := by
  by_cases h : n < 10 ^ 14
  · rw [luaToString_of_lt h, parseU64_repr (by omega), if_pos h]
  · rw [if_neg h]
    exact parseU64_eq_none (e_mem_luaToString (Nat.le_of_not_lt h)) (by decide) (by decide)

variable {n : Nat}

theorem eq_of_repr_eq_luaToString {m : Nat} (h : luaToString n = Nat.repr m) : n = m := by
  by_cases hn : n < 10 ^ 14
  · rw [luaToString_of_lt hn] at h
    exact repr_injective h
  · have he := e_mem_luaToString (Nat.le_of_not_lt hn)
    rw [h] at he
    exact absurd (isDigit_of_mem_repr he) (by decide)

/-- The string that `ACQUIRE_SCRIPT` writes. -/
def leaseValue (owner : RuntimeId) (n : Nat) (profile : Profile) : String :=
  owner.toHex ++ "|" ++ luaToString n ++ "|" ++ profile.asWireStr

theorem bar_notMem_toHex (owner : RuntimeId) : '|' ∉ owner.toHex.toList := by
  intro h
  obtain ⟨n, hn, hc⟩ := exists_digitChar_of_mem_hexEncode h
  have hall : ∀ k : Fin 16, '|' ≠ Nat.digitChar k := by decide
  exact hall ⟨n, hn⟩ hc

theorem bar_notMem_luaToString (n : Nat) : '|' ∉ (luaToString n).toList := by
  intro h
  rcases mem_luaToString h with h | h | h | h
  · exact absurd h (by decide)
  all_goals exact absurd h (by decide)

theorem bar_notMem_asWireStr (profile : Profile) : '|' ∉ profile.asWireStr.toList := by
  cases profile <;> decide

theorem splitOn_leaseValue (owner : RuntimeId) (n : Nat) (profile : Profile) :
    (leaseValue owner n profile).toList.splitOn '|' =
      [owner.toHex.toList, (luaToString n).toList, profile.asWireStr.toList] := by
  have hvalue : (leaseValue owner n profile).toList =
      owner.toHex.toList ++ '|' :: ((luaToString n).toList ++ '|' :: profile.asWireStr.toList) := by
    simp [leaseValue]
  rw [hvalue, splitOn_append_cons_self_of_not_mem (bar_notMem_toHex owner),
    splitOn_append_cons_self_of_not_mem (bar_notMem_luaToString n),
    splitOn_eq_singleton (bar_notMem_asWireStr profile)]

theorem profileFromWire_asWireStr (profile : Profile) :
    profileFromWire profile.asWireStr = some profile := by
  cases profile <;> decide

theorem runtimeIdFromHex_toHex (owner : RuntimeId) :
    runtimeIdFromHex owner.toHex = some owner := by
  simp [runtimeIdFromHex, RuntimeId.toHex, hexDecode_hexEncode, owner.length_eq]

/-- A lease string parses to what it was written from, or not at all. -/
theorem parseLease_leaseValue (communityId : CommunityId) (sessionId : Uuid) (owner : RuntimeId)
    (hn : n ≠ 0) (profile : Profile) :
    parseLease communityId sessionId (leaseValue owner n profile) =
      if n < 10 ^ 14 then .ok ⟨communityId, sessionId, owner, n, profile⟩
      else .error (.malformedLease communityId sessionId (leaseValue owner n profile)) := by
  simp only [parseLease, splitOn_leaseValue, String.ofList_toList, parseU64_luaToString,
    profileFromWire_asWireStr, runtimeIdFromHex_toHex]
  by_cases h : n < 10 ^ 14
  · simp only [if_pos h, if_neg hn]
  · simp only [if_neg h]

theorem leaseValue_ne_empty (owner : RuntimeId) (n : Nat) (profile : Profile) :
    leaseValue owner n profile ≠ "" := by
  intro h
  have hsplit := splitOn_leaseValue owner n profile
  rw [h] at hsplit
  exact absurd hsplit (by simp)

/-- The scripts take a lease for the caller's only if the generation is the one it was written
from. -/
theorem generation_eq_of_isCurrent {owner : RuntimeId} {m : Nat} {profile : Profile}
    {callerOwner : String}
    (h : isCurrent (leaseValue owner n profile) callerOwner (Nat.repr m) = true) : n = m := by
  rw [isCurrent, matchLease, splitOn_leaseValue] at h
  by_cases hempty : owner.toHex.toList = [] ∨ (luaToString n).toList = [] ∨
      profile.asWireStr.toList = []
  · simp only [if_pos hempty] at h
    nomatch h
  · simp only [if_neg hempty, String.ofList_toList, Bool.and_eq_true, beq_iff_eq] at h
    exact eq_of_repr_eq_luaToString h.2

/-! ### What a call does to the keys -/

/-- The lease that a reply of `acquire` hands out. -/
def granted : Except DirectoryError AcquireResult → Option SessionLease
  | .ok (.acquired lease) => some lease
  | _ => none

/-- The counter is untouched, and whatever lease is live was live before. -/
def KeepsCounter (r r' : Redis) : Prop :=
  r'.generationKey = r.generationKey ∧ ∀ value, r'.getLease = some value → r.getLease = some value

theorem keepsCounter_refl (r : Redis) : KeepsCounter r r := ⟨rfl, fun _ h => h⟩

theorem incrGeneration_eq_ok {r : Redis} (h : r.incrGeneration = .ok n) :
    n = r.generationKey.getD 0 + 1 ∧ n < 2 ^ 63 := by
  rw [Redis.incrGeneration] at h
  split at h
  · next hlt =>
    cases h
    exact ⟨rfl, hlt⟩
  · nomatch h

theorem acquire_cases (communityId : CommunityId) (sessionId : Uuid) (owner : RuntimeId)
    (profile : Profile) (leaseTtl : Nat) (r : Redis) :
    ((acquire communityId sessionId owner profile leaseTtl r).1 = r ∧
      granted (acquire communityId sessionId owner profile leaseTtl r).2 = none) ∨
    ∃ n, n = r.generationKey.getD 0 + 1 ∧ n < 2 ^ 63 ∧ r.getLease = none ∧
      ((acquire communityId sessionId owner profile leaseTtl r =
          ({ r with generationKey := some n }, .error (.redis
            "ERR value is not an integer or out of range"))) ∨
        ∃ expiry, acquire communityId sessionId owner profile leaseTtl r =
          ({ r with generationKey := some n, leaseKey := some (leaseValue owner n profile, expiry) },
            if n < 10 ^ 14 then .ok (.acquired ⟨communityId, sessionId, owner, n, profile⟩)
            else .error (.malformedLease communityId sessionId (leaseValue owner n profile)))) := by
  rw [acquire]
  cases httl : ttlMs leaseTtl with
  | error e => exact Or.inl ⟨rfl, rfl⟩
  | ok ttl =>
    simp only [acquireScript]
    cases hlease : r.getLease with
    | some current =>
      refine Or.inl ⟨rfl, ?_⟩
      simp only
      cases parseLease communityId sessionId current <;> rfl
    | none =>
      cases hincr : r.incrGeneration with
      | error e => exact Or.inl ⟨rfl, rfl⟩
      | ok n =>
        obtain ⟨hn, hlt⟩ := incrGeneration_eq_ok hincr
        refine Or.inr ⟨n, hn, hlt, rfl, ?_⟩
        simp only [Redis.expiryAt]
        by_cases hrange : luaNumber ttl < 10 ^ 17 ∧ r.now + luaNumber ttl < 2 ^ 63
        · refine Or.inr ⟨r.now + luaNumber ttl, ?_⟩
          have hparse := parseLease_leaseValue communityId sessionId owner
            (show n ≠ 0 by omega) profile
          simp only [if_pos hrange]
          rw [← leaseValue, hparse]
          by_cases hbig : n < 10 ^ 14
          · simp only [if_pos hbig, if_true]
          · simp only [if_neg hbig]
        · simp only [if_neg hrange]
          exact Or.inl trivial

theorem renew_cases (lease : SessionLease) (leaseTtl : Nat) (r : Redis) :
    (renew lease leaseTtl r).1 = r ∨ ∃ current expiry, r.getLease = some current ∧
      isCurrent current lease.ownerRuntimeId.toHex (Nat.repr lease.generation) = true ∧
        (renew lease leaseTtl r).1 = { r with leaseKey := some (current, expiry) } := by
  rw [renew]
  cases ttlMs leaseTtl with
  | error e => exact Or.inl (rfl)
  | ok ttl =>
    simp only [renewScript]
    cases hlease : r.getLease with
    | none => exact Or.inl (rfl)
    | some current =>
      by_cases hcur : isCurrent current lease.ownerRuntimeId.toHex (Nat.repr lease.generation) = true
      · simp only [if_pos hcur]
        cases hexp : r.expiryAt ttl with
        | error e => exact Or.inl (rfl)
        | ok expiry => exact Or.inr ⟨current, expiry, rfl, hcur, rfl⟩
      · simp only [if_neg hcur]
        exact Or.inl trivial

theorem release_cases (lease : SessionLease) (r : Redis) :
    (release lease r).1 = r ∨ ∃ current, r.getLease = some current ∧
      isCurrent current lease.ownerRuntimeId.toHex (Nat.repr lease.generation) = true ∧
        (release lease r).1 = { r with leaseKey := none } := by
  simp only [release, releaseScript]
  cases hlease : r.getLease with
  | none => exact Or.inl (rfl)
  | some current =>
    by_cases hcur : isCurrent current lease.ownerRuntimeId.toHex (Nat.repr lease.generation) = true
    · simp only [if_pos hcur]
      exact Or.inr ⟨current, rfl, hcur, trivial⟩
    · simp only [if_neg hcur]
      exact Or.inl trivial

theorem renew_keepsCounter (lease : SessionLease) (leaseTtl : Nat) (r : Redis) :
    KeepsCounter r (renew lease leaseTtl r).1 := by
  rcases renew_cases lease leaseTtl r with h | ⟨current, expiry, hlive, -, h⟩
  · rw [h]
    exact keepsCounter_refl _
  · rw [h]
    refine ⟨rfl, fun value hvalue => ?_⟩
    obtain ⟨v, hv, hif⟩ := bind_eq_some_iff.mp hvalue
    cases hv
    obtain ⟨-, hcur⟩ := ite_none_right_eq_some.mp hif
    rwa [hlive]

theorem release_keepsCounter (lease : SessionLease) (r : Redis) :
    KeepsCounter r (release lease r).1 := by
  rcases release_cases lease r with h | ⟨current, -, -, h⟩
  · rw [h]
    exact keepsCounter_refl _
  · rw [h]
    exact ⟨rfl, nofun⟩

theorem advance_keepsCounter (r : Redis) (ms : Nat) :
    KeepsCounter r { r with now := r.now + ms } := by
  refine ⟨rfl, fun value hvalue => ?_⟩
  obtain ⟨v, hv, hif⟩ := bind_eq_some_iff.mp hvalue
  obtain ⟨hlive, hval⟩ := ite_none_right_eq_some.mp hif
  simpa [Redis.getLease, show r.leaseKey = some v from hv,
    if_pos (Nat.le_trans (Nat.le_add_right _ _) hlive)] using hval

/-! ### Runs -/

/-- The session, and the leases handed out so far, the latest first. -/
structure DirectoryState where
  redis : Redis
  handedOut : List SessionLease

/-- A call of the directory, or time passing. -/
inductive Action where
  | acquire (ownerRuntimeId : RuntimeId) (profile : Profile) (leaseTtl : Nat)
  | renew (lease : SessionLease) (leaseTtl : Nat)
  | release (lease : SessionLease)
  | validate (fenced : FencedHeader)
  | advance (ms : Nat)

def step (communityId : CommunityId) (sessionId : Uuid) (s : DirectoryState) :
    Action → Option DirectoryState
  | .acquire owner profile leaseTtl =>
    let (redis, result) := Tunnel.acquire communityId sessionId owner profile leaseTtl s.redis
    some ⟨redis, (granted result).toList ++ s.handedOut⟩
  | .renew lease leaseTtl =>
    if lease.communityId = communityId ∧ lease.sessionId = sessionId then
      some { s with redis := (Tunnel.renew lease leaseTtl s.redis).1 }
    else none
  | .release lease =>
    if lease.communityId = communityId ∧ lease.sessionId = sessionId then
      some { s with redis := (Tunnel.release lease s.redis).1 }
    else none
  | .validate fenced => if fenced.sessionId = sessionId then some s else none
  | .advance ms => some { s with redis := { s.redis with now := s.redis.now + ms } }

/-- All interleavings on one session, from its first use on. -/
def directory (communityId : CommunityId) (sessionId : Uuid) :
    StateMachine DirectoryState Action where
  Init s := s.redis.leaseKey = none ∧ s.redis.generationKey = none ∧ s.handedOut = []
  step := step communityId sessionId

variable {communityId : CommunityId} {sessionId : Uuid} {s : DirectoryState}

/-- What a step does: raise the counter, with a fresh lease or without one, or keep the counter. -/
theorem step_cases {s' : DirectoryState} {a : Action}
    (h : step communityId sessionId s a = some s') :
    (KeepsCounter s.redis s'.redis ∧ s'.handedOut = s.handedOut) ∨
    ∃ n, n = s.redis.generationKey.getD 0 + 1 ∧ n < 2 ^ 63 ∧ s.redis.getLease = none ∧
      s'.redis.generationKey = some n ∧
      ((s'.redis.leaseKey = s.redis.leaseKey ∧ s'.redis.now = s.redis.now ∧
          s'.handedOut = s.handedOut) ∨
        ∃ owner profile expiry, s'.redis.leaseKey = some (leaseValue owner n profile, expiry) ∧
          s'.handedOut = (if n < 10 ^ 14 then
            [(⟨communityId, sessionId, owner, n, profile⟩ : SessionLease)] else []) ++
              s.handedOut) := by
  cases a with
  | acquire owner profile leaseTtl =>
    obtain rfl : ⟨(Tunnel.acquire communityId sessionId owner profile leaseTtl s.redis).1,
      (granted (Tunnel.acquire communityId sessionId owner profile leaseTtl s.redis).2).toList ++
        s.handedOut⟩ = s' := some.inj h
    rcases acquire_cases communityId sessionId owner profile leaseTtl s.redis with
      ⟨hr, hg⟩ | ⟨n, hn, hlt, hnone, hacq | ⟨expiry, hacq⟩⟩
    · refine Or.inl ⟨?_, ?_⟩
      · simp only [hr]
        exact keepsCounter_refl _
      · simp [hg, toList_none]
    · refine Or.inr ⟨n, hn, hlt, hnone, ?_, Or.inl ⟨?_, ?_, ?_⟩⟩
      all_goals rw [hacq]
      rfl
    · refine Or.inr ⟨n, hn, hlt, hnone, ?_, Or.inr ⟨owner, profile, expiry, ?_, ?_⟩⟩
      · rw [hacq]
      · rw [hacq]
      · simp only [hacq]
        by_cases hbig : n < 10 ^ 14
        · simp only [if_pos hbig, granted, toList_some]
        · simp only [if_neg hbig, granted, toList_none]
  | renew lease leaseTtl =>
    obtain ⟨-, hs⟩ := ite_none_right_eq_some.mp h
    cases hs
    exact Or.inl ⟨renew_keepsCounter lease leaseTtl s.redis, rfl⟩
  | release lease =>
    obtain ⟨-, hs⟩ := ite_none_right_eq_some.mp h
    cases hs
    exact Or.inl ⟨release_keepsCounter lease s.redis, rfl⟩
  | validate fenced =>
    obtain ⟨-, hs⟩ := ite_none_right_eq_some.mp h
    cases hs
    exact Or.inl ⟨keepsCounter_refl _, rfl⟩
  | advance ms =>
    cases h
    exact Or.inl ⟨advance_keepsCounter s.redis ms, rfl⟩

/-! ### The invariant -/

/-- A live lease carries the counter, and nothing above the counter was handed out. -/
structure Inv (communityId : CommunityId) (sessionId : Uuid) (s : DirectoryState) : Prop where
  bound : ∀ l ∈ s.handedOut, l.generation ≤ s.redis.generationKey.getD 0
  /-- The counter is a positive `i64`. -/
  range : ∀ n, s.redis.generationKey = some n → 0 < n ∧ n < 2 ^ 63
  /-- A live lease was written with the counter, and handed out if it can be parsed. -/
  live : ∀ value, s.redis.getLease = some value → ∃ owner n profile,
    value = leaseValue owner n profile ∧ s.redis.generationKey = some n ∧
      (n < 10 ^ 14 → ⟨communityId, sessionId, owner, n, profile⟩ ∈ s.handedOut)

theorem inv_init (h : (directory communityId sessionId).Init s) : Inv communityId sessionId s := by
  obtain ⟨hlease, hgen, hout⟩ := h
  refine ⟨fun l hl => ?_, fun n hn => ?_, fun value hvalue => ?_⟩
  · rw [hout] at hl
    nomatch hl
  · rw [hgen] at hn
    nomatch hn
  · rw [Redis.getLease, hlease] at hvalue
    nomatch hvalue

theorem inv_step {s' : DirectoryState} {a : Action} (h : Inv communityId sessionId s)
    (hs : step communityId sessionId s a = some s') : Inv communityId sessionId s' := by
  rcases step_cases hs with ⟨⟨hgen, hlive⟩, hout⟩ | ⟨n, hn, hlt, hnone, hgen, hrest⟩
  · refine ⟨?_, ?_, fun value hvalue => ?_⟩
    · rw [hgen, hout]
      exact h.bound
    · rw [hgen]
      exact h.range
    · rw [hgen, hout]
      exact h.live value (hlive value hvalue)
  · -- the counter goes up by one, so the old bound still holds
    have hrange : ∀ m, s'.redis.generationKey = some m → 0 < m ∧ m < 2 ^ 63 := by
      intro m hm
      obtain rfl : n = m := some.inj (hgen.symm.trans hm)
      omega
    have hbound : ∀ l ∈ s.handedOut, l.generation ≤ s'.redis.generationKey.getD 0 := by
      intro l hl
      have := h.bound l hl
      rw [hgen, getD_some]
      omega
    rcases hrest with ⟨hkey, hnow, hout⟩ | ⟨owner, profile, expiry, hkey, hout⟩
    · refine ⟨?_, hrange, fun value hvalue => ?_⟩
      · rwa [hout]
      · rw [Redis.getLease, hkey, hnow, ← Redis.getLease, hnone] at hvalue
        nomatch hvalue
    · refine ⟨fun l hl => ?_, hrange, fun value hvalue => ?_⟩
      · rw [hout] at hl
        rcases mem_append.mp hl with hl | hl
        · by_cases hbig : n < 10 ^ 14
          · rw [if_pos hbig] at hl
            obtain rfl := mem_singleton.mp hl
            rw [hgen]
            exact Nat.le_refl n
          · rw [if_neg hbig] at hl
            nomatch hl
        · exact hbound l hl
      · rw [Redis.getLease, hkey] at hvalue
        obtain ⟨-, hval⟩ := ite_none_right_eq_some.mp hvalue
        refine ⟨owner, n, profile, (some.inj hval).symm, hgen, fun hbig => ?_⟩
        rw [hout, if_pos hbig]
        exact mem_append_left _ (mem_singleton_self _)

theorem inv_of_reachable (h : (directory communityId sessionId).Reachable s) :
    Inv communityId sessionId s :=
  h.invariant (I := Inv communityId sessionId) (fun _ => inv_init)
    fun _ _ _ _ hI hs => inv_step hI hs

theorem handedOut_run {s' : DirectoryState} {as : List Action}
    (h : (directory communityId sessionId).run s as = some s') : s.handedOut ⊆ s'.handedOut := by
  refine StateMachine.run_le (R := fun s s' => s.handedOut ⊆ s'.handedOut)
    (fun _ => List.Subset.refl _) (fun _ _ _ => List.Subset.trans) (fun s a s' hs => ?_) h
  rcases step_cases hs with ⟨-, hout⟩ | ⟨n, -, -, -, -, ⟨-, -, hout⟩ | ⟨owner, profile, -, -, hout⟩⟩
  · exact hout ▸ List.Subset.refl _
  · exact hout ▸ List.Subset.refl _
  · rw [hout]
    exact subset_append_right _ _

/-! ### What the scripts' readers see -/

section

variable {communityId : CommunityId} {sessionId : Uuid} {s : DirectoryState}

theorem Inv.parseGeneration (h : Inv communityId sessionId s) (id : Uuid) :
    parseOptionalGeneration communityId id (s.redis.getGeneration.getD "") =
      .ok s.redis.generationKey := by
  cases hgen : s.redis.generationKey with
  | none => simp [Redis.getGeneration, hgen, parseOptionalGeneration]
  | some n =>
    obtain ⟨hpos, hlt⟩ := h.range n hgen
    simp [Redis.getGeneration, hgen, parseOptionalGeneration,
      parseU64_repr (show n < 2 ^ 64 by omega), if_neg (show n ≠ 0 by omega)]

theorem Inv.of_lookup (h : Inv communityId sessionId s) {lease : SessionLease}
    (hl : lookup communityId sessionId s.redis = .ok (some lease)) :
    lease ∈ s.handedOut ∧ s.redis.generationKey = some lease.generation ∧
      lease.sessionId = sessionId := by
  rw [lookup] at hl
  cases hlive : s.redis.getLease with
  | none => simp [hlive] at hl
  | some value =>
    obtain ⟨owner, n, profile, rfl, hgen, hout⟩ := h.live value hlive
    have hn : n ≠ 0 := by have := (h.range n hgen).1; omega
    simp only [hlive, parseLease_leaseValue communityId sessionId owner hn profile] at hl
    by_cases hbig : n < 10 ^ 14
    · rw [if_pos hbig] at hl
      obtain rfl := some.inj (Except.ok.inj hl)
      exact ⟨hout hbig, hgen, rfl⟩
    · rw [if_neg hbig] at hl
      nomatch hl

theorem Inv.validate_iff (h : Inv communityId sessionId s) {fenced : FencedHeader}
    (hid : fenced.sessionId = sessionId) :
    validateFencedHeader communityId fenced s.redis = .ok () ↔
      ∃ lease, lookup communityId sessionId s.redis = .ok (some lease) ∧
        fenced = lease.fencedHeader := by
  simp only [validateFencedHeader, validateScript, h.parseGeneration, lookup]
  cases hlive : s.redis.getLease with
  | none =>
    simp only [getD_none, parseOptionalLease, if_true, checkFence, map_none]
    split <;> simp
  | some value =>
    obtain ⟨owner, n, profile, rfl, hgen, -⟩ := h.live value hlive
    have hn : n ≠ 0 := by have := (h.range n hgen).1; omega
    simp only [getD_some, parseOptionalLease, if_neg (leaseValue_ne_empty owner n profile),
      hid, parseLease_leaseValue communityId sessionId owner hn profile, hgen]
    by_cases hbig : n < 10 ^ 14
    · simp only [if_pos hbig, Except.map, checkFence, map_some, getD_some,
        Nat.max_self, Except.ok.injEq, some.injEq, exists_eq_left', SessionLease.fencedHeader]
      obtain ⟨fid, fgen, fowner⟩ := fenced
      subst hid
      constructor
      · intro hok
        split at hok
        · nomatch hok
        · split at hok
          · nomatch hok
          · next hne =>
            split at hok
            · nomatch hok
            · next hne' => simp_all
      · intro heq
        cases heq
        simp
    · simp only [if_neg hbig, Except.map]
      constructor
      · exact nofun
      · rintro ⟨lease, hlookup, -⟩
        nomatch hlookup

end

/-- **Session fencing.** At every moment of every interleaving on one session:

* a lease that `acquire` returns as acquired has a generation above all those handed out before;
* a header is accepted exactly when it is that of the live lease, which was handed out;
* `renew` and `release` with a superseded lease leave the session as it is;
* once a generation was handed out, no header below it is accepted in any later state. -/
theorem session_fencing (communityId : CommunityId) (sessionId : Uuid) {s : DirectoryState}
    (h : (directory communityId sessionId).Reachable s) :
    (∀ owner profile leaseTtl redis lease,
      acquire communityId sessionId owner profile leaseTtl s.redis = (redis, .ok (.acquired lease)) →
        ∀ l ∈ s.handedOut, l.generation < lease.generation) ∧
    (∀ fenced : FencedHeader, fenced.sessionId = sessionId →
      (validateFencedHeader communityId fenced s.redis = .ok () ↔
        ∃ lease ∈ s.handedOut, lookup communityId sessionId s.redis = .ok (some lease) ∧
          fenced = lease.fencedHeader)) ∧
    (∀ old : SessionLease, (∃ l ∈ s.handedOut, old.generation < l.generation) →
      (∀ leaseTtl, (renew old leaseTtl s.redis).1 = s.redis) ∧ (release old s.redis).1 = s.redis) ∧
    (∀ as s', (directory communityId sessionId).run s as = some s' →
      ∀ l ∈ s.handedOut, ∀ fenced : FencedHeader, fenced.sessionId = sessionId →
        fenced.generation < l.generation →
          validateFencedHeader communityId fenced s'.redis ≠ .ok ()) := by
  have hinv := inv_of_reachable h
  refine ⟨fun owner profile leaseTtl redis lease hacq l hl => ?_, fun fenced hid => ?_,
    fun old hold => ?_, fun as s' hrun l hl fenced hid hlt hok => ?_⟩
  · have hbound := hinv.bound l hl
    rcases acquire_cases communityId sessionId owner profile leaseTtl s.redis with
      ⟨-, hg⟩ | ⟨n, hn, -, -, heq | ⟨expiry, heq⟩⟩
    · rw [hacq] at hg
      nomatch hg
    · rw [hacq] at heq
      nomatch (Prod.ext_iff.mp heq).2
    · rw [hacq] at heq
      have hres := (Prod.ext_iff.mp heq).2
      by_cases hbig : n < 10 ^ 14
      · simp only [if_pos hbig, Except.ok.injEq, AcquireResult.acquired.injEq] at hres
        rw [hres]
        show l.generation < n
        omega
      · simp only [if_neg hbig] at hres
        nomatch hres
  · rw [hinv.validate_iff hid]
    constructor
    · rintro ⟨lease, hlookup, heq⟩
      exact ⟨lease, (hinv.of_lookup hlookup).1, hlookup, heq⟩
    · rintro ⟨lease, -, hlookup, heq⟩
      exact ⟨lease, hlookup, heq⟩
  · -- a live lease carries the counter, which is above the superseded generation
    obtain ⟨l, hl, hlt⟩ := hold
    have hnot : ∀ current, s.redis.getLease = some current →
        isCurrent current old.ownerRuntimeId.toHex (Nat.repr old.generation) ≠ true := by
      intro current hlive hcur
      obtain ⟨owner, n, profile, rfl, hgen, -⟩ := hinv.live current hlive
      have hbound := hinv.bound l hl
      have heq := generation_eq_of_isCurrent hcur
      rw [hgen, getD_some] at hbound
      omega
    constructor
    · intro leaseTtl
      rcases renew_cases old leaseTtl s.redis with h | ⟨current, -, hlive, hcur, -⟩
      · exact h
      · exact absurd hcur (hnot current hlive)
    · rcases release_cases old s.redis with h | ⟨current, hlive, hcur, -⟩
      · exact h
      · exact absurd hcur (hnot current hlive)
  · have hinv' := inv_of_reachable (h.run hrun)
    obtain ⟨lease, hlookup, heq⟩ := (hinv'.validate_iff hid).mp hok
    have hbound := hinv'.bound l (handedOut_run hrun hl)
    rw [(hinv'.of_lookup hlookup).2.1, getD_some] at hbound
    have hgen : fenced.generation = lease.generation := congrArg FencedHeader.generation heq
    omega

theorem length_replicate_runtime (b : UInt8) : (replicate 32 b).length = 32 :=
  length_replicate

/-- A runtime whose 32 bytes are all equal. -/
def runtime (b : UInt8) : RuntimeId := ⟨replicate 32 b, length_replicate_runtime b⟩

/-- The first runtime's lease expires and the second one takes over. -/
def takeoverRun : List Action :=
  [.acquire (runtime 1) .reliableStream 30000, .advance 30001,
    .acquire (runtime 2) .reliableStream 30000]

theorem session_fencing_takeover : ∃ s,
    (directory 1 2).run ⟨⟨none, none, 0⟩, []⟩ takeoverRun = some s ∧
      (release ⟨1, 2, runtime 1, 1, .reliableStream⟩ s.redis).1 = s.redis ∧
      validateFencedHeader 1 ⟨2, 1, runtime 1⟩ s.redis ≠ .ok () := by
  have hrun : ((directory 1 2).run ⟨⟨none, none, 0⟩, []⟩ takeoverRun).any (fun s =>
      decide (s.handedOut.map SessionLease.generation = [2, 1])) = true := by decide +kernel
  obtain ⟨s, hs, hcheck⟩ := (any_eq_true _ _).mp hrun
  have hgens : s.handedOut.map SessionLease.generation = [2, 1] := of_decide_eq_true hcheck
  have hreach : (directory 1 2).Reachable s := ⟨_, _, ⟨rfl, rfl, rfl⟩, hs⟩
  obtain ⟨l, hl, hgen⟩ : ∃ l ∈ s.handedOut, l.generation = 2 :=
    mem_map.mp (hgens ▸ mem_cons_self)
  obtain ⟨-, -, hsuperseded, hbelow⟩ := session_fencing 1 2 hreach
  refine ⟨s, hs, (hsuperseded _ ⟨l, hl, ?_⟩).2, hbelow [] s rfl l hl _ rfl ?_⟩
  · rw [hgen]
    exact Nat.lt_succ_self 1
  · rw [hgen]
    exact Nat.lt_succ_self 1

end Buzz.Tunnel
