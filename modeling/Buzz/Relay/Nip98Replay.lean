import Buzz.Core.Basic
import Buzz.Lib.StateMachine
import Mathlib.Data.List.AList
import Mathlib.Data.Rat.Floor
import Mathlib.Tactic.Linarith

/-!
# Replays of signed HTTP requests

A request to the bridge carries a signed event. A pod verifies the event, with a window of sixty
seconds around the time the event says it was made, and then marks its id in a store that all pods
share, for 120 seconds. Verification reads the clock in whole seconds, so the window is 121 seconds
long, and nothing bounds the time between the two steps; the mark may be gone while the event is
still fresh.

Time is an ordered field with a floor, so it may be real or rational. JSON, signatures, URLs and the
hash are those of their libraries, parameters here.
-/

namespace Buzz.Nip98

open List Option

/-! ### Verification -/

structure ParsedUrl where
  path : String
  withPath : String → String

structure Libraries where
  fromStr : String → Except String Event
  /-- `buzz_core::verify_event`: are id and signature those of the event? -/
  verifyEvent : Event → Bool
  parseUrl : String → Option ParsedUrl
  toLowercase : String → String
  sha256 : List UInt8 → List UInt8

def timestampToleranceSecs : Nat := 60

/-- `Kind::HttpAuth`. -/
def httpAuth : Kind := 27235

/-- `u64::abs_diff`. -/
def absDiff (a b : Nat) : Nat := if a < b then b - a else a - b

variable (L : Libraries)

def normalizeUrl (raw : String) : String :=
  match L.parseUrl raw with
  | none => L.toLowercase raw
  | some parsed =>
    parsed.withPath (String.ofList (parsed.path.toList.reverse.dropWhile (· == '/')).reverse)

/-- The content of the first tag of a kind. -/
def tagContent (event : Event) (kind : String) : Option String :=
  (event.tags.find? fun t => t.kind == kind).bind Tag.content

/-- `str::eq_ignore_ascii_case`. -/
def eqIgnoreAsciiCase (a b : String) : Bool := a.toList.map Char.toLower == b.toList.map Char.toLower

def ensure {ε : Type} (holds : Bool) (error : ε) : Except ε Unit :=
  if holds then .ok () else .error error

@[simp] theorem ensure_eq_ok {ε : Type} {holds : Bool} {error : ε} {u : Unit} :
    ensure holds error = .ok u ↔ holds = true := by
  cases holds <;> simp [ensure]

/-- The payload tag, when there is one and the handler passes the body on, has the hash of the
body. -/
def payloadMatches (event : Event) (body : Option (List UInt8)) : Bool :=
  match tagContent event "payload", body with
  | some payloadHex, some bodyBytes => hexEncode (L.sha256 bodyBytes) == payloadHex
  | _, _ => true

/-- `verify_nip98_event`, when the clock of the pod reads `now` seconds. An error is the text of
`AuthError::Nip98Invalid`. -/
def verifyNip98Event (now : Nat) (eventJson expectedUrl expectedMethod : String)
    (body : Option (List UInt8)) : Except String PublicKey := do
  let event ← (L.fromStr eventJson).mapError fun e => s!"event JSON parse error: {e}"
  ensure (event.kind == httpAuth) s!"expected kind 27235, got {event.kind.toNat}"
  ensure (L.verifyEvent event) "invalid Schnorr signature"
  let delta := absDiff now event.createdAt.toNat
  ensure (delta ≤ timestampToleranceSecs)
    s!"event timestamp outside ±{timestampToleranceSecs}s window (delta: {delta}s)"
  let uTag ← (tagContent event "u").elim (.error "missing \x60u\x60 tag") .ok
  ensure (normalizeUrl L uTag == normalizeUrl L expectedUrl)
    s!"URL mismatch: event has \x60{uTag}\x60, expected \x60{expectedUrl}\x60"
  let methodTag ← (tagContent event "method").elim (.error "missing \x60method\x60 tag") .ok
  ensure (eqIgnoreAsciiCase methodTag expectedMethod)
    s!"method mismatch: event has \x60{methodTag}\x60, expected \x60{expectedMethod}\x60"
  ensure (payloadMatches L event body)
    "payload tag SHA-256 mismatch: request body does not match signed hash"
  return event.pubkey

structure ApiError where
  status : Nat
  message : String
  deriving DecidableEq

/-- A request that carries a signed event, the header decoded. -/
structure Request where
  community : CommunityId
  eventJson : String
  url : String
  method : String
  body : Option (List UInt8)
  requirePayload : Bool

/-- `verify_bridge_auth_with_options` for a request with a signed event. -/
def verifyBridgeAuth (now : Nat) (r : Request) : Except ApiError (PublicKey × EventId) := do
  let event ← (L.fromStr r.eventJson).mapError fun _ => ⟨401, "invalid NIP-98 event JSON"⟩
  ensure (!r.requirePayload || event.tags.any fun t => t.kind == "payload")
    (⟨401, "NIP-98: missing payload tag"⟩ : ApiError)
  let pubkey ← (verifyNip98Event L now r.eventJson r.url r.method r.body).mapError
    fun e => ⟨401, s!"NIP-98: {e}"⟩
  return (pubkey, event.id)

/-! ### The seen-set -/

def defaultReplayTtlSecs : Nat := 120

def maxReplayTtlSecs : Nat := 3600

def nip98ReplayKeyForScope (scope : String) (eventId : EventId) : String :=
  s!"buzz:{scope}:nip98:{toHex eventId}"

/-- A mark in the shared store. -/
structure Mark (K : Type*) where
  setAt : K
  ttl : Nat

/-- What the store holds; a key that no longer exists stays until it is set again. -/
abbrev ReplayStore (K : Type*) := AList fun _ : String => Mark K

theorem ttl_insert {K : Type*} {store : ReplayStore K}
    (h : ∀ key, ∀ m ∈ store.lookup key, m.ttl = defaultReplayTtlSecs) (key : String) (now : K) :
    ∀ key', ∀ m ∈ (store.insert key ⟨now, defaultReplayTtlSecs⟩).lookup key',
      m.ttl = defaultReplayTtlSecs := by
  intro key' m hm
  by_cases hkey : key' = key
  · subst hkey
    rw [AList.lookup_insert] at hm
    obtain rfl := mem_some_iff.mp hm
    rfl
  · rw [AList.lookup_insert_ne hkey] at hm
    exact h key' m hm

/-- `AuthError`, as far as the guard returns it. -/
inductive AuthError where
  | internal (message : String)

/-- What may go wrong on the way to the store. -/
inductive StoreFault where
  | pool (error : String)
  | command (error : String) (executed : Bool)
  | reply (other : String)

variable {K : Type*} [Field K] [LinearOrder K]

/-- `SET key 1 NX EX ttl`: set the key unless it exists. -/
def setNxEx (store : ReplayStore K) (key : String) (ttl : Nat) (now : K) :
    ReplayStore K × Option String :=
  if ∃ m ∈ store.lookup key, now < m.setAt + m.ttl then (store, none)
  else (store.insert key ⟨now, ttl⟩, some "OK")

/-- `RedisNip98ReplayGuard::try_mark_in_scope`. -/
def tryMarkInScope (store : ReplayStore K) (scope : String) (eventId : EventId) (ttlSecs : Nat)
    (now : K) (fault : Option StoreFault) : ReplayStore K × Except AuthError Bool :=
  let ttl := Nat.min (Nat.max ttlSecs defaultReplayTtlSecs) maxReplayTtlSecs
  let key := nip98ReplayKeyForScope scope eventId
  let (after, reply) := setNxEx store key ttl now
  match fault with
  | some (.pool e) => (store, .error (.internal s!"Redis pool: {e}"))
  | some (.command e executed) =>
    (if executed then after else store, .error (.internal s!"Redis SET NX EX: {e}"))
  | some (.reply other) =>
    (after, .error (.internal s!"unexpected SET NX EX reply: {other}"))
  | none => (after, .ok (reply == some "OK"))

def checkNip98Replay (store : ReplayStore K) (community : CommunityId) (eventId : EventId) (now : K)
    (fault : Option StoreFault) : ReplayStore K × Except ApiError Unit :=
  -- the zero hash stands for a request without an event
  if eventId = 0 then (store, .ok ())
  else
    match tryMarkInScope store (Uuid.toHyphenated community) eventId defaultReplayTtlSecs now fault with
    | (after, .ok true) => (after, .ok ())
    | (after, .ok false) => (after, .error ⟨401, "NIP-98: replay detected"⟩)
    | (after, .error _) => (after, .error ⟨401, "NIP-98: replay check unavailable"⟩)

def Marks (store : ReplayStore K) (key : String) (now : K) : Prop :=
  ∃ m ∈ store.lookup key, now < m.setAt + m.ttl

variable {store : ReplayStore K} {now : K}

theorem setNxEx_of_marks {key : String} (h : Marks store key now) (ttl : Nat) :
    setNxEx store key ttl now = (store, none) :=
  if_pos h

theorem setNxEx_of_not_marks {key : String} (h : ¬ Marks store key now) (ttl : Nat) :
    setNxEx store key ttl now = (store.insert key ⟨now, ttl⟩, some "OK") :=
  if_neg h

section Mark

variable (store : ReplayStore K) (scope : String) (eventId : EventId) (now : K)

theorem tryMarkInScope_of_marks
    (h : Marks store (nip98ReplayKeyForScope scope eventId) now) (ttlSecs : Nat) :
    tryMarkInScope store scope eventId ttlSecs now none = (store, .ok false) := by
  rw [tryMarkInScope, setNxEx_of_marks h]
  rfl

theorem tryMarkInScope_of_not_marks
    (h : ¬ Marks store (nip98ReplayKeyForScope scope eventId) now) :
    tryMarkInScope store scope eventId defaultReplayTtlSecs now none =
      (store.insert (nip98ReplayKeyForScope scope eventId) ⟨now, defaultReplayTtlSecs⟩,
        .ok true) := by
  rw [tryMarkInScope, setNxEx_of_not_marks h]
  rfl

theorem tryMarkInScope_some (fault : StoreFault) :
    ∃ e, (tryMarkInScope store scope eventId defaultReplayTtlSecs now (some fault)).2 = .error e ∧
      ((tryMarkInScope store scope eventId defaultReplayTtlSecs now (some fault)).1 = store ∨
        (tryMarkInScope store scope eventId defaultReplayTtlSecs now (some fault)).1 =
          store.insert (nip98ReplayKeyForScope scope eventId) ⟨now, defaultReplayTtlSecs⟩) := by
  have hset : (setNxEx store (nip98ReplayKeyForScope scope eventId) defaultReplayTtlSecs now).1 =
        store ∨
      (setNxEx store (nip98ReplayKeyForScope scope eventId) defaultReplayTtlSecs now).1 =
        store.insert (nip98ReplayKeyForScope scope eventId) ⟨now, defaultReplayTtlSecs⟩ := by
    by_cases hmarks : Marks store (nip98ReplayKeyForScope scope eventId) now
    · exact Or.inl (by rw [setNxEx_of_marks hmarks])
    · exact Or.inr (by rw [setNxEx_of_not_marks hmarks])
  cases fault with
  | pool e => exact ⟨_, rfl, Or.inl rfl⟩
  | reply other => exact ⟨_, rfl, hset⟩
  | command e executed =>
    cases executed with
    | false => exact ⟨_, rfl, Or.inl rfl⟩
    | true => exact ⟨_, rfl, hset⟩

theorem checkNip98Replay_of_marks (community : CommunityId) (hne : eventId ≠ 0)
    (h : Marks store (nip98ReplayKeyForScope (Uuid.toHyphenated community) eventId) now) :
    checkNip98Replay store community eventId now none =
      (store, .error ⟨401, "NIP-98: replay detected"⟩) := by
  rw [checkNip98Replay, if_neg hne, tryMarkInScope_of_marks store _ eventId now h]

theorem checkNip98Replay_of_not_marks (community : CommunityId) (hne : eventId ≠ 0)
    (h : ¬ Marks store (nip98ReplayKeyForScope (Uuid.toHyphenated community) eventId) now) :
    checkNip98Replay store community eventId now none =
      (store.insert (nip98ReplayKeyForScope (Uuid.toHyphenated community) eventId)
        ⟨now, defaultReplayTtlSecs⟩, .ok ()) := by
  rw [checkNip98Replay, if_neg hne, tryMarkInScope_of_not_marks store _ eventId now h]

/-- **What the second step does.** It admits without a look at the store for the zero id; otherwise it
admits exactly when the store answers and the key did not exist, and then it has set the key. -/
theorem checkNip98Replay_cases (community : CommunityId) (fault : Option StoreFault)
    {r : ReplayStore K × Except ApiError Unit}
    (hr : checkNip98Replay store community eventId now fault = r) {key : String}
    (hkey : nip98ReplayKeyForScope (Uuid.toHyphenated community) eventId = key) :
    (eventId = 0 ∧ r = (store, .ok ())) ∨
      (eventId ≠ 0 ∧ fault = none ∧ ¬ Marks store key now ∧
        r = (store.insert key ⟨now, defaultReplayTtlSecs⟩, .ok ())) ∨
      (eventId ≠ 0 ∧ (fault = none → Marks store key now) ∧
        (r.1 = store ∨ r.1 = store.insert key ⟨now, defaultReplayTtlSecs⟩) ∧
        ∃ e, r.2 = .error e) := by
  subst hr hkey
  by_cases hzero : eventId = 0
  · exact Or.inl ⟨hzero, by rw [checkNip98Replay, if_pos hzero]⟩
  · refine Or.inr ?_
    cases fault with
    | none =>
      by_cases hmarks : Marks store
          (nip98ReplayKeyForScope (Uuid.toHyphenated community) eventId) now
      · rw [checkNip98Replay_of_marks store eventId now _ hzero hmarks]
        exact Or.inr ⟨hzero, fun _ => hmarks, Or.inl rfl, _, rfl⟩
      · exact Or.inl ⟨hzero, rfl, hmarks,
          checkNip98Replay_of_not_marks store eventId now _ hzero hmarks⟩
    | some fault =>
      obtain ⟨e, herror, hstore⟩ := tryMarkInScope_some store (Uuid.toHyphenated community) eventId
        now fault
      rw [checkNip98Replay, if_neg hzero]
      generalize tryMarkInScope store (Uuid.toHyphenated community) eventId defaultReplayTtlSecs now
        (some fault) = r at herror hstore
      obtain ⟨after, answer⟩ := r
      obtain rfl : answer = .error e := herror
      refine Or.inr ⟨hzero, ?_, hstore, _, rfl⟩
      intro hfault
      nomatch hfault

end Mark

/-! ### Pods -/

/-- A verified request, between its two steps or after them. -/
structure Verified where
  number : Nat
  community : CommunityId
  eventId : EventId
  deriving DecidableEq

def Verified.event (v : Verified) : CommunityId × EventId := (v.community, v.eventId)

def Verified.key (v : Verified) : String :=
  nip98ReplayKeyForScope (Uuid.toHyphenated v.community) v.eventId

/-- The pods with their store and their requests. Which pod serves a request makes no difference. -/
structure Pods (K : Type*) where
  clock : K
  store : ReplayStore K
  arrived : Nat
  verified : List Verified
  admitted : List Verified
  erred : List Nat

inductive Act (K : Type*) where
  | arrive (r : Request) (now : K)
  | check (v : Verified) (now : K) (fault : Option StoreFault)

variable [FloorSemiring K]

/-- A step; the clock does not go back. -/
def podStep (s : Pods K) : Act K → Option (Pods K)
  | .arrive r now =>
    if s.clock ≤ now then
      some { s with
        clock := now
        arrived := s.arrived + 1
        verified := match verifyBridgeAuth L ⌊now⌋₊ r with
          | .ok (_, eventId) => ⟨s.arrived, r.community, eventId⟩ :: s.verified
          | .error _ => s.verified }
    else none
  | .check v now fault =>
    -- the store cannot fail where it is not asked
    if s.clock ≤ now ∧ v ∈ s.verified ∧ (v.eventId = 0 → fault = none) then
      let (store, answer) := checkNip98Replay s.store v.community v.eventId now fault
      some { s with
        clock := now
        store := store
        verified := s.verified.erase v
        admitted := match answer with
          | .ok _ => v :: s.admitted
          | .error _ => s.admitted
        erred := if fault = none then s.erred else v.number :: s.erred }
    else none

def pods : StateMachine (Pods K) (Act K) where
  Init s := s.store = ∅ ∧ s.arrived = 0 ∧ s.verified = [] ∧ s.admitted = [] ∧ s.erred = []
  step := podStep L

/-- No community has admitted an event twice. -/
def Pods.AtMostOnce (s : Pods K) : Prop := (s.admitted.map Verified.event).Nodup

/-- An event that was admitted is checked again, by a store that answers, only with an id other than
zero and less than 120 seconds after its mark was last set. -/
def Timely (s : Pods K) : Act K → Prop
  | .arrive _ _ => True
  | .check v now fault =>
    fault = none → v.event ∈ s.admitted.map Verified.event →
      v.eventId ≠ 0 ∧ ∀ m ∈ s.store.lookup v.key, now < m.setAt + defaultReplayTtlSecs

instance (s : Pods K) : ∀ a, Decidable (Timely s a)
  | .arrive _ _ => inferInstanceAs (Decidable True)
  | .check _ _ _ => inferInstanceAs (Decidable (_ → _ → _ ∧ _))

/-! ### One step -/

/-- The marks of this guard, all for 120 seconds, one for every admitted event. -/
structure Pods.Marked (s : Pods K) : Prop where
  ttl : ∀ key, ∀ m ∈ s.store.lookup key, m.ttl = defaultReplayTtlSecs
  admitted : ∀ v ∈ s.admitted, v.eventId ≠ 0 → v.key ∈ s.store

/-- Requests are numbered as they arrive. -/
structure Pods.Numbered (s : Pods K) : Prop where
  nodup : (s.verified.map Verified.number ++ (s.admitted.map Verified.number ++ s.erred)).Nodup
  lt : ∀ n ∈ s.verified.map Verified.number ++ (s.admitted.map Verified.number ++ s.erred),
    n < s.arrived

variable {L}

variable {s s' : Pods K} {r : Request}

theorem podStep_arrive (h : podStep L s (.arrive r now) = some s') :
    ∃ verified, s' = { s with clock := now, arrived := s.arrived + 1, verified := verified } ∧
      (verified = s.verified ∨
        ∃ eventId, verified = ⟨s.arrived, r.community, eventId⟩ :: s.verified) := by
  obtain ⟨-, h⟩ := ite_none_right_eq_some.mp h
  cases h
  refine ⟨_, rfl, ?_⟩
  split
  · exact Or.inr ⟨_, rfl⟩
  · exact Or.inl rfl

theorem podStep_check {v : Verified} {fault : Option StoreFault}
    (h : podStep L s (.check v now fault) = some s') :
    v ∈ s.verified ∧
      ((v.eventId = 0 ∧ fault = none ∧
          s' = { s with
            clock := now
            verified := s.verified.erase v
            admitted := v :: s.admitted }) ∨
        (v.eventId ≠ 0 ∧ fault = none ∧ ¬ Marks s.store v.key now ∧
          s' = { s with
            clock := now
            store := s.store.insert v.key ⟨now, defaultReplayTtlSecs⟩
            verified := s.verified.erase v
            admitted := v :: s.admitted }) ∨
        (v.eventId ≠ 0 ∧ (fault = none → Marks s.store v.key now) ∧
          ∃ store, (store = s.store ∨ store = s.store.insert v.key ⟨now, defaultReplayTtlSecs⟩) ∧
            s' = { s with
              clock := now
              store := store
              verified := s.verified.erase v
              erred := if fault = none then s.erred else v.number :: s.erred })) := by
  simp only [podStep, ite_none_right_eq_some] at h
  obtain ⟨⟨-, hv, hfault⟩, h⟩ := h
  refine ⟨hv, ?_⟩
  generalize hr : checkNip98Replay s.store v.community v.eventId now fault = r at h
  have hkey : nip98ReplayKeyForScope (Uuid.toHyphenated v.community) v.eventId = v.key := rfl
  rcases checkNip98Replay_cases s.store v.eventId now v.community fault hr hkey with
    ⟨hzero, rfl⟩ | ⟨hzero, rfl, hmarks, rfl⟩ | ⟨hzero, hmarks, hstore, e, herror⟩
  · cases h
    refine Or.inl ⟨hzero, hfault hzero, ?_⟩
    rw [if_pos (hfault hzero)]
  · cases h
    exact Or.inr (Or.inl ⟨hzero, rfl, hmarks, rfl⟩)
  · obtain ⟨store, answer⟩ := r
    obtain rfl : answer = .error e := herror
    cases h
    exact Or.inr (Or.inr ⟨hzero, hmarks, store, hstore, rfl⟩)

variable {a : Act K}

theorem Pods.Marked.step (h : s.Marked) (hs : podStep L s a = some s') : s'.Marked := by
  cases a with
  | arrive r now =>
    obtain ⟨verified, rfl, -⟩ := podStep_arrive hs
    exact ⟨h.ttl, h.admitted⟩
  | check v now fault =>
    obtain ⟨-, ⟨hzero, -, rfl⟩ | ⟨-, -, -, rfl⟩ | ⟨-, -, store, hstore, rfl⟩⟩ := podStep_check hs
    · refine ⟨h.ttl, ?_⟩
      intro w hw hne
      rcases mem_cons.mp hw with rfl | hw
      · exact absurd hzero hne
      · exact h.admitted w hw hne
    · refine ⟨ttl_insert h.ttl v.key now, ?_⟩
      intro w hw hne
      rw [AList.mem_insert]
      rcases mem_cons.mp hw with rfl | hw
      · exact Or.inl rfl
      · exact Or.inr (h.admitted w hw hne)
    · rcases hstore with rfl | rfl
      · exact ⟨h.ttl, h.admitted⟩
      · refine ⟨ttl_insert h.ttl v.key now, ?_⟩
        intro w hw hne
        exact (AList.mem_insert _).mpr (Or.inr (h.admitted w hw hne))

theorem numbers_perm {verified : List Verified} {v : Verified} (hv : v ∈ verified) (rest : List Nat) :
    (verified.map Verified.number ++ rest).Perm
      ((verified.erase v).map Verified.number ++ v.number :: rest) := by
  have herase := (perm_cons_erase hv).map Verified.number
  exact (herase.append_right rest).trans perm_middle.symm

theorem Pods.Numbered.step (h : s.Numbered) (hs : podStep L s a = some s') : s'.Numbered := by
  cases a with
  | arrive r now =>
    obtain ⟨verified, rfl, rfl | ⟨eventId, rfl⟩⟩ := podStep_arrive hs
    · exact ⟨h.nodup, fun n hn => (h.lt n hn).trans (Nat.lt_succ_self _)⟩
    · refine ⟨?_, ?_⟩
      · show (s.arrived :: _).Nodup
        refine nodup_cons.mpr ⟨?_, h.nodup⟩
        intro hmem
        exact absurd (h.lt _ hmem) (Nat.lt_irrefl _)
      · intro n hn
        rcases mem_cons.mp hn with rfl | hn
        · exact Nat.lt_succ_self _
        · exact (h.lt n hn).trans (Nat.lt_succ_self _)
  | check v now fault =>
    obtain ⟨hv, hcases⟩ := podStep_check hs
    have hperm := numbers_perm hv (s.admitted.map Verified.number ++ s.erred)
    have hadmitted : ∀ store : ReplayStore K, Pods.Numbered { s with
        clock := now
        store := store
        verified := s.verified.erase v
        admitted := v :: s.admitted } := by
      intro store
      exact ⟨hperm.nodup_iff.mp h.nodup, fun n hn => h.lt n (hperm.mem_iff.mpr hn)⟩
    rcases hcases with ⟨-, -, rfl⟩ | ⟨-, -, -, rfl⟩ | ⟨-, -, store, -, rfl⟩
    · exact hadmitted s.store
    · exact hadmitted _
    · by_cases hfault : fault = none
      · rw [if_pos hfault]
        have hsub : ((s.verified.erase v).map Verified.number ++
            (s.admitted.map Verified.number ++ s.erred)).Sublist
              (s.verified.map Verified.number ++ (s.admitted.map Verified.number ++ s.erred)) :=
          (erase_sublist.map _).append_right _
        exact ⟨h.nodup.sublist hsub, fun n hn => h.lt n (hsub.subset hn)⟩
      · rw [if_neg hfault]
        have hmove : (s.verified.map Verified.number ++
            (s.admitted.map Verified.number ++ s.erred)).Perm
              ((s.verified.erase v).map Verified.number ++
                (s.admitted.map Verified.number ++ v.number :: s.erred)) :=
          hperm.trans (perm_middle.symm.append_left _)
        exact ⟨hmove.nodup_iff.mp h.nodup, fun n hn => h.lt n (hmove.mem_iff.mpr hn)⟩

theorem admitted_suffix (hs : podStep L s a = some s') : s.admitted <:+ s'.admitted := by
  cases a with
  | arrive r now =>
    obtain ⟨verified, rfl, -⟩ := podStep_arrive hs
    exact suffix_refl _
  | check v now fault =>
    obtain ⟨-, ⟨-, -, rfl⟩ | ⟨-, -, -, rfl⟩ | ⟨-, -, store, -, rfl⟩⟩ := podStep_check hs
    · exact suffix_cons v _
    · exact suffix_cons v _
    · exact suffix_refl _

/-- **One step** keeps every admission the only one exactly when it is timely. -/
theorem atMostOnce_step_iff (hmarked : s.Marked) (honce : s.AtMostOnce)
    (hs : podStep L s a = some s') : s'.AtMostOnce ↔ Timely s a := by
  cases a with
  | arrive r now =>
    obtain ⟨verified, rfl, -⟩ := podStep_arrive hs
    exact iff_of_true honce trivial
  | check v now fault =>
    have hcons : ((v :: s.admitted).map Verified.event).Nodup ↔
        v.event ∉ s.admitted.map Verified.event := by
      rw [map_cons, nodup_cons]
      exact and_iff_left honce
    obtain ⟨-, ⟨hzero, hfault, rfl⟩ | ⟨hne, hfault, hmarks, rfl⟩ |
      ⟨hne, hmarks, store, -, rfl⟩⟩ := podStep_check hs
    · refine hcons.trans ⟨fun hnot _ hmem => absurd hmem hnot, fun htimely hmem => ?_⟩
      exact (htimely hfault hmem).1 hzero
    · refine hcons.trans ⟨fun hnot _ hmem => absurd hmem hnot, fun htimely hmem => ?_⟩
      -- an admitted event has a mark, and a timely check finds it alive
      obtain ⟨w, hw, hevent⟩ := mem_map.mp hmem
      have hkey : w.key = v.key := by
        rw [Verified.event, Verified.event, Prod.mk.injEq] at hevent
        rw [Verified.key, Verified.key, hevent.1, hevent.2]
      have hwne : w.eventId ≠ 0 := by
        rwa [show w.eventId = v.eventId from congrArg Prod.snd hevent]
      have hstored := hmarked.admitted w hw hwne
      rw [hkey] at hstored
      obtain ⟨m, hm⟩ := isSome_iff_exists.mp (AList.lookup_isSome.mpr hstored)
      refine hmarks ⟨m, hm, ?_⟩
      rw [hmarked.ttl v.key m hm]
      exact (htimely hfault hmem).2 m hm
    · refine iff_of_true honce ?_
      intro hfault _
      obtain ⟨m, hm, hlive⟩ := hmarks hfault
      refine ⟨hne, ?_⟩
      intro m' hm'
      obtain rfl := mem_unique hm hm'
      rwa [hmarked.ttl v.key m hm] at hlive

/-! ### Every run -/

theorem marked_init (h : (pods L).Init s) : s.Marked ∧ s.Numbered ∧ s.AtMostOnce := by
  obtain ⟨hstore, -, hverified, hadmitted, herred⟩ := h
  refine ⟨⟨?_, ?_⟩, ⟨?_, ?_⟩, ?_⟩
  · intro key m hm
    rw [hstore] at hm
    nomatch hm
  · intro v hv
    rw [hadmitted] at hv
    nomatch hv
  · rw [hverified, hadmitted, herred]
    exact nodup_nil
  · intro n hn
    rw [hverified, hadmitted, herred] at hn
    nomatch hn
  · rw [Pods.AtMostOnce, hadmitted]
    exact nodup_nil

variable {as : List (Act K)}

theorem admitted_suffix_of_run (hr : (pods L).run s as = some s') : s.admitted <:+ s'.admitted :=
  StateMachine.run_le (R := fun s s' : Pods K => s.admitted <:+ s'.admitted)
    (fun _ => suffix_refl _) (fun _ _ _ => List.IsSuffix.trans)
    (fun _ _ _ hs => admitted_suffix hs) hr

theorem atMostOnce_run_iff (hmarked : s.Marked) (honce : s.AtMostOnce)
    (hr : (pods L).run s as = some s') :
    s'.AtMostOnce ↔ ((pods L).guard Timely).run s as = some s' := by
  induction as generalizing s with
  | nil =>
    obtain rfl : s = s' := by simpa using hr
    exact iff_of_true honce rfl
  | cons a as ih =>
    obtain ⟨s₁, hs, hr⟩ := (pods L).run_cons_eq_some.mp hr
    have hstep : s₁.AtMostOnce ↔ Timely s a := atMostOnce_step_iff hmarked honce hs
    constructor
    · intro hafter
      have hfirst : s₁.AtMostOnce :=
        hafter.sublist ((admitted_suffix_of_run hr).sublist.map Verified.event)
      exact ((pods L).guard Timely).run_cons_eq_some.mpr
        ⟨s₁, StateMachine.guard_step.mpr ⟨hstep.mp hfirst, hs⟩,
          (ih (hmarked.step hs) hfirst hr).mp hafter⟩
    · intro hguard
      obtain ⟨s₂, hs₂, hguard⟩ := ((pods L).guard Timely).run_cons_eq_some.mp hguard
      obtain ⟨htimely, hs₂⟩ := StateMachine.guard_step.mp hs₂
      obtain rfl : s₁ = s₂ := some.inj (hs.symm.trans hs₂)
      exact (ih (hmarked.step hs) (hstep.mpr htimely) hr).mpr hguard

/-- **A signed request is admitted at most once** exactly in the runs in which every check of an
event that was admitted is timely; and where the store errs, nothing is admitted. -/
theorem admitted_once_iff {s₀ s : Pods K} {as : List (Act K)} (h₀ : (pods L).Init s₀)
    (hr : (pods L).run s₀ as = some s) :
    (s.AtMostOnce ↔ ((pods L).guard Timely).run s₀ as = some s) ∧
      ∀ v ∈ s.admitted, v.number ∉ s.erred := by
  obtain ⟨hmarked, hnumbered, honce⟩ := marked_init h₀
  refine ⟨atMostOnce_run_iff hmarked honce hr, ?_⟩
  have hafter : s.Numbered := StateMachine.run_preserves (M := pods L) (I := Pods.Numbered)
    (fun _ _ _ h hs => h.step hs) hr hnumbered
  intro v hv herred
  have hnodup := (nodup_append.mp hafter.nodup).2.1
  exact (nodup_append.mp hnodup).2.2 _ (mem_map_of_mem hv) _ herred rfl

/-! ### An event at both ends of its window -/

/-- A signed event for the API, made at second `1000`. -/
def apiEvent : Event :=
  ⟨5, 6, 1000, 27235, [⟨"u", some "https://relay.example/api"⟩, ⟨"method", some "POST"⟩]⟩

/-- The libraries, as they are on this event and its URL. -/
def apiLibraries : Libraries where
  fromStr _ := .ok apiEvent
  verifyEvent _ := true
  parseUrl _ := some ⟨"/api", fun path => "https://relay.example" ++ path⟩
  toLowercase s := s
  sha256 bs := bs

/-- A request that presents it to community `1`. -/
def apiRequest : Request := ⟨1, "event", "https://relay.example/api", "POST", none, false⟩

theorem verifyNip98Event_api {now : Nat} (h : absDiff now 1000 ≤ timestampToleranceSecs) :
    verifyNip98Event apiLibraries now "event" "https://relay.example/api" "POST" none = .ok 6 := by
  refine bind_eq_ok_iff.mpr ⟨apiEvent, rfl, ?_⟩
  refine bind_eq_ok_iff.mpr ⟨(), rfl, ?_⟩
  refine bind_eq_ok_iff.mpr ⟨(), rfl, ?_⟩
  refine bind_eq_ok_iff.mpr ⟨(), ensure_eq_ok.mpr (decide_eq_true h), ?_⟩
  refine bind_eq_ok_iff.mpr ⟨"https://relay.example/api", rfl, ?_⟩
  refine bind_eq_ok_iff.mpr ⟨(), ensure_eq_ok.mpr (beq_self_eq_true _), ?_⟩
  refine bind_eq_ok_iff.mpr ⟨"POST", rfl, ?_⟩
  refine bind_eq_ok_iff.mpr ⟨(), ensure_eq_ok.mpr (beq_self_eq_true _), ?_⟩
  exact bind_eq_ok_iff.mpr ⟨(), rfl, rfl⟩

theorem verifyBridgeAuth_api {now : Nat} (h : absDiff now 1000 ≤ timestampToleranceSecs) :
    verifyBridgeAuth apiLibraries now apiRequest = .ok (6, 5) := by
  refine bind_eq_ok_iff.mpr ⟨apiEvent, rfl, ?_⟩
  refine bind_eq_ok_iff.mpr ⟨(), rfl, ?_⟩
  refine bind_eq_ok_iff.mpr ⟨6, ?_, rfl⟩
  rw [apiRequest, verifyNip98Event_api h]
  rfl

def apiVerified (number : Nat) : Verified := ⟨number, 1, 5⟩

def apiKey : String := (apiVerified 0).key

/-- A request that is verified and at once checked. -/
def apiServed (number : Nat) (now : K) : List (Act K) :=
  [.arrive apiRequest now, .check (apiVerified number) now none]

section Served

variable {s : Pods K} {now : K} (hclock : s.clock ≤ now) (hverified : s.verified = [])
  (hwindow : absDiff ⌊now⌋₊ 1000 ≤ timestampToleranceSecs)
include hclock hverified hwindow

theorem podStep_apiServed :
    podStep apiLibraries s (.arrive apiRequest now) = some { s with
      clock := now
      arrived := s.arrived + 1
      verified := [apiVerified s.arrived] } := by
  rw [podStep, if_pos hclock, verifyBridgeAuth_api hwindow, hverified]
  rfl

theorem run_apiServed_of_not_marks (h : ¬ Marks s.store apiKey now) :
    (pods apiLibraries).run s (apiServed s.arrived now) = some { s with
      clock := now
      store := s.store.insert apiKey ⟨now, defaultReplayTtlSecs⟩
      arrived := s.arrived + 1
      verified := []
      admitted := apiVerified s.arrived :: s.admitted } := by
  refine (pods apiLibraries).run_cons_eq_some.mpr
    ⟨_, podStep_apiServed hclock hverified hwindow, ?_⟩
  refine (pods apiLibraries).run_cons_eq_some.mpr ⟨_, ?_, rfl⟩
  show podStep apiLibraries _ (.check (apiVerified s.arrived) now none) = _
  have hcheck := checkNip98Replay_of_not_marks s.store 5 now 1 (by decide) h
  rw [podStep, if_pos ⟨le_rfl, mem_singleton_self _, fun _ => rfl⟩]
  dsimp only [apiVerified]
  rw [hcheck]
  simp [apiKey, apiVerified, Verified.key]

theorem run_apiServed_of_marks (h : Marks s.store apiKey now) :
    (pods apiLibraries).run s (apiServed s.arrived now) = some { s with
      clock := now
      arrived := s.arrived + 1
      verified := [] } := by
  refine (pods apiLibraries).run_cons_eq_some.mpr
    ⟨_, podStep_apiServed hclock hverified hwindow, ?_⟩
  refine (pods apiLibraries).run_cons_eq_some.mpr ⟨_, ?_, rfl⟩
  show podStep apiLibraries _ (.check (apiVerified s.arrived) now none) = _
  have hcheck := checkNip98Replay_of_marks s.store 5 now 1 (by decide) h
  rw [podStep, if_pos ⟨le_rfl, mem_singleton_self _, fun _ => rfl⟩]
  dsimp only [apiVerified]
  rw [hcheck]
  simp

end Served

def noRequests : Pods ℚ := ⟨0, ∅, 0, [], [], []⟩

/-- The pods after the first request was admitted at `940`. -/
def afterFirst : Pods ℚ :=
  ⟨940, (∅ : ReplayStore ℚ).insert apiKey ⟨940, defaultReplayTtlSecs⟩, 1, [], [apiVerified 0], []⟩

theorem run_first : (pods apiLibraries).run noRequests (apiServed 0 940) = some afterFirst := by
  refine run_apiServed_of_not_marks (s := noRequests) (by norm_num [noRequests]) rfl ?_ ?_
  · rw [show ⌊(940 : ℚ)⌋₊ = 940 from Nat.floor_ofNat 940]
    decide
  · rintro ⟨m, hm, -⟩
    nomatch hm

theorem marks_afterFirst {now : ℚ} : Marks afterFirst.store apiKey now ↔ now < 1060 := by
  have hlookup : afterFirst.store.lookup apiKey = some ⟨940, defaultReplayTtlSecs⟩ :=
    AList.lookup_insert _
  rw [Marks, hlookup]
  constructor
  · rintro ⟨m, hm, hlive⟩
    obtain rfl := mem_some_iff.mp hm
    norm_num [defaultReplayTtlSecs] at hlive
    exact hlive
  · intro hlive
    refine ⟨_, rfl, ?_⟩
    norm_num [defaultReplayTtlSecs]
    exact hlive

/-- The event is verified again in the last second of its window, half a second after its mark has
gone. -/
theorem not_admitted_once :
    ∃ (s₀ s : Pods ℚ) (as : List (Act ℚ)), (pods apiLibraries).Init s₀ ∧
      (pods apiLibraries).run s₀ as = some s ∧ ¬ s.AtMostOnce := by
  have hfloor : ⌊(2121 / 2 : ℚ)⌋₊ = 1060 :=
    (Nat.floor_eq_iff (by norm_num)).mpr ⟨by norm_num, by norm_num⟩
  have hlate : afterFirst.clock ≤ 2121 / 2 := by norm_num [afterFirst]
  have hrun := run_apiServed_of_not_marks hlate rfl (by rw [hfloor]; decide)
    (by rw [marks_afterFirst]; norm_num)
  have htwice := StateMachine.run_append (pods apiLibraries) noRequests (apiServed 0 940)
    (apiServed 1 (2121 / 2))
  rw [run_first] at htwice
  refine ⟨noRequests, _, _, ⟨rfl, rfl, rfl, rfl, rfl⟩, htwice.trans hrun, ?_⟩
  intro honce
  exact absurd (mem_singleton_self _) (nodup_cons.mp honce).1

/-- A replay in the middle of the window is refused. -/
theorem admitted_once_iff_middle :
    ∃ s : Pods ℚ, (pods apiLibraries).run noRequests (apiServed 0 940 ++ apiServed 1 1000) =
        some s ∧ s.AtMostOnce ∧ ((pods apiLibraries).guard Timely).run noRequests
          (apiServed 0 940 ++ apiServed 1 1000) = some s := by
  have hlater : afterFirst.clock ≤ 1000 := by norm_num [afterFirst]
  have hsecond := run_apiServed_of_marks hlater rfl
    (by rw [show ⌊(1000 : ℚ)⌋₊ = 1000 from Nat.floor_ofNat 1000]; decide)
    (by rw [marks_afterFirst]; norm_num)
  have htwice := StateMachine.run_append (pods apiLibraries) noRequests (apiServed 0 940)
    (apiServed 1 1000)
  rw [run_first] at htwice
  have hrun := htwice.trans hsecond
  have honce : Pods.AtMostOnce { afterFirst with clock := 1000, arrived := 2, verified := [] } :=
    nodup_singleton _
  have hinit : (pods apiLibraries).Init noRequests := ⟨rfl, rfl, rfl, rfl, rfl⟩
  exact ⟨_, hrun, honce, (admitted_once_iff hinit hrun).1.mp honce⟩

end Buzz.Nip98
