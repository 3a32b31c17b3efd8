import Buzz.PushGateway.AuthoritySoundness

/-!
# Replay fences

An admission puts up two fences until `request_expires_at`: one of its NIP-98 event, which stays, and
one of its request, which a `Retryable` end takes down again. The fence of a request does not say
whose it is. When a reaping deletes it while the transport task is still running, the same request
can be admitted again, and the end of the first task takes down the fence of the second one.

The fences hold as long as no reaping is past the expiry of a request whose task is running, and no
admission is behind a reaping.
-/

namespace Buzz.PushGateway

open List Option Function

namespace Requests

variable (q : Requests)

/-- The delivery that an answer admits. -/
def admitted (x : StoreAnswer) : Option DeliveryCall :=
  if x.committed then
    match q.operation x.request with
    | .authorizeDelivery g => some g
    | _ => none
  else none

/-- The answer ends the task of the admission `m`, with this disposition. -/
def ends (m : Nat) (disposition : DeliveryDisposition) (x : StoreAnswer) : Bool :=
  x.committed && q.finishes m x.request &&
    match q.operation x.request with
    | .finishDelivery _ d => d == disposition
    | _ => false

/-- The task of the admission `m` is running. -/
def running (answers : List StoreAnswer) (m : Nat) : Bool :=
  answers.all fun x => !(x.committed && q.finishes m x.request)

/-- A signed event fixes the body of its request. -/
def Signed : Prop :=
  ∀ m n g h, q.operation m = .authorizeDelivery g → q.operation n = .authorizeDelivery h →
    g.relayPubkey = h.relayPubkey → g.eventId = h.eventId →
      g.requestExpiresAt = h.requestExpiresAt

/-- A call may commit now: a reaping when it is not past the expiry of a request whose task is
running, an admission when it is not behind a reaping. -/
def inTime (answers : List StoreAnswer) (n : Nat) : Bool :=
  match q.operation n with
  | .reapExpired now _ => answers.all fun x =>
    (q.admitted x).all fun g => !q.running answers x.request || decide (now ≤ g.requestExpiresAt)
  | .authorizeDelivery g => answers.all fun x =>
    match q.operation x.request with
    | .reapExpired now _ => !x.committed || decide (now ≤ g.now)
    | _ => true
  | _ => true

/-- The step does not commit a call out of time. -/
def punctual (w : Store) : SessionAction Nat → Bool
  | .step id => (w.session id).all fun s =>
    match s.frame.todo with
    | .commit _ => q.inTime w.answers s.request
    | _ => true
  | _ => true

end Requests

def DeliveryCall.eventKey (g : DeliveryCall) : PublicKey × EventId := (g.relayPubkey, g.eventId)

def DeliveryCall.requestKey (g : DeliveryCall) : PublicKey × Uuid := (g.relayPubkey, g.requestId)

/-- **The replay fences hold.** -/
structure FencesHold (q : Requests) (answers : List StoreAnswer) : Prop where
  event : ∀ x ∈ answers, ∀ y ∈ answers, ∀ g h, q.admitted x = some g → q.admitted y = some h →
    g.eventKey = h.eventKey → x = y
  single : ∀ x ∈ answers, ∀ y ∈ answers, ∀ g h, q.admitted x = some g → q.admitted y = some h →
    g.requestKey = h.requestKey → q.running answers x.request = true →
      q.running answers y.request = true → x = y
  /-- A request that ended `Terminal` is not admitted again before it expires. -/
  burned : ∀ newer z older, answers = newer ++ z :: older → ∀ x ∈ older, ∀ g,
    q.admitted x = some g → q.ends x.request .terminal z = true → ∀ y ∈ newer, ∀ h,
      q.admitted y = some h → g.requestKey = h.requestKey → g.requestExpiresAt < h.now

/-! ### The history -/

variable {sha256 : BitVec 256 → BitVec 256} {q : Requests} {log : List StoreAnswer} {t t' : Tables}
  {n : Nat} {r : Reply} {x y z : StoreAnswer} {g h : DeliveryCall}

theorem admitted_iff : q.admitted x = some g ↔
    x.committed = true ∧ q.operation x.request = .authorizeDelivery g := by
  rw [Requests.admitted, ite_none_right_eq_some]
  refine and_congr_right fun _ => ?_
  constructor
  · intro hg
    split at hg
    · next g' hop => rw [hop, some.inj hg]
    · nomatch hg
  · intro hop
    rw [hop]

theorem running_cons : q.running (x :: log) n =
    (!(x.committed && q.finishes n x.request) && q.running log n) := rfl

theorem running_of_cons (hrunning : q.running (x :: log) n = true) : q.running log n = true :=
  (Bool.and_eq_true_iff.mp (running_cons ▸ hrunning)).2

theorem running_cons_of_ne (hne : ∀ p d, q.operation x.request ≠ .finishDelivery p d) :
    q.running (x :: log) n = q.running log n := by
  have hno : q.finishes n x.request = false := by
    refine Bool.eq_false_iff.mpr fun hfin => ?_
    obtain ⟨⟨p, d, hop⟩, -⟩ := Requests.finishes_iff.mp hfin
    exact hne p d hop
  simp [running_cons, hno]

/-- A reaping past this time has committed. -/
def ReapedPast (q : Requests) (log : List StoreAnswer) (expiry : Int) : Prop :=
  ∃ z ∈ log, z.committed = true ∧
    ∃ now found, q.operation z.request = .reapExpired now found ∧ expiry < now

theorem ReapedPast.cons {expiry : Int} (hreaped : ReapedPast q log expiry) (x : StoreAnswer) :
    ReapedPast q (x :: log) expiry := by
  obtain ⟨z, hz, hrest⟩ := hreaped
  exact ⟨z, mem_cons_of_mem x hz, hrest⟩

/-- The task of the admission `m` ended `Terminal`. -/
def EndedTerminal (q : Requests) (log : List StoreAnswer) (m : Nat) : Prop :=
  ∃ z ∈ log, q.ends m .terminal z = true

/-- What the tables say about the admissions. -/
structure Fenced (q : Requests) (log : List StoreAnswer) (t : Tables) : Prop where
  hold : FencesHold q log
  /-- The fence of an event is up, until a reaping is past its expiry. -/
  event : ∀ x ∈ log, ∀ g, q.admitted x = some g →
    t.authReplays g.eventKey = some g.requestExpiresAt ∨ ReapedPast q log g.requestExpiresAt
  running : ∀ x ∈ log, ∀ g, q.admitted x = some g → q.running log x.request = true →
    t.requestReplays g.requestKey = some g.requestExpiresAt
  /-- The fence of a burned request is up and nobody's, until a reaping is past its expiry. -/
  burned : ∀ x ∈ log, ∀ g, q.admitted x = some g → EndedTerminal q log x.request →
    (t.requestReplays g.requestKey = some g.requestExpiresAt ∧
      ∀ y ∈ log, ∀ h, q.admitted y = some h → h.requestKey = g.requestKey →
        q.running log y.request = false) ∨
    ReapedPast q log g.requestExpiresAt

theorem Fenced.nil (q : Requests) (t : Tables) : Fenced q [] t where
  hold := ⟨fun _ hx => (nomatch hx), fun _ hx => (nomatch hx),
    fun newer _ _ heq => absurd heq.symm
      (append_ne_nil_of_right_ne_nil newer (cons_ne_nil _ _))⟩
  event _ hx := nomatch hx
  running _ hx := nomatch hx
  burned _ hx := nomatch hx

theorem FencesHold.cons_other (hold : FencesHold q log) (hx : q.admitted x = none) :
    FencesHold q (x :: log) where
  event y hy z hz g h hg hh hkey := by
    obtain rfl | hy := mem_cons.mp hy
    · nomatch (hx.symm.trans hg)
    · obtain rfl | hz := mem_cons.mp hz
      · nomatch (hx.symm.trans hh)
      · exact hold.event y hy z hz g h hg hh hkey
  single y hy z hz g h hg hh hkey hry hrz := by
    obtain rfl | hy := mem_cons.mp hy
    · nomatch (hx.symm.trans hg)
    · obtain rfl | hz := mem_cons.mp hz
      · nomatch (hx.symm.trans hh)
      · exact hold.single y hy z hz g h hg hh hkey (running_of_cons hry) (running_of_cons hrz)
  burned newer z older heq y hy g hg hends u hu h hh hkey := by
    cases newer with
    | nil => nomatch hu
    | cons v newer =>
      obtain ⟨rfl, htail⟩ := cons.inj heq
      obtain rfl | hu := mem_cons.mp hu
      · nomatch (hx.symm.trans hh)
      · exact hold.burned newer z older htail y hy g hg hends u hu h hh hkey

theorem Fenced.cons_other (hf : Fenced q log t) (hx : q.admitted x = none)
    (hevent : ∀ y ∈ log, ∀ g, q.admitted y = some g →
      t.authReplays g.eventKey = some g.requestExpiresAt →
      t'.authReplays g.eventKey = some g.requestExpiresAt ∨
        ReapedPast q (x :: log) g.requestExpiresAt)
    (hrunning : ∀ y ∈ log, ∀ g, q.admitted y = some g → q.running (x :: log) y.request = true →
      t.requestReplays g.requestKey = some g.requestExpiresAt →
      t'.requestReplays g.requestKey = some g.requestExpiresAt)
    (hburned : ∀ y ∈ log, ∀ g, q.admitted y = some g →
      t.requestReplays g.requestKey = some g.requestExpiresAt →
      (∀ z ∈ log, ∀ h, q.admitted z = some h → h.requestKey = g.requestKey →
        q.running log z.request = false) →
      t'.requestReplays g.requestKey = some g.requestExpiresAt ∨
        ReapedPast q (x :: log) g.requestExpiresAt)
    (hends : ∀ y ∈ log, ∀ g, q.admitted y = some g → q.ends y.request .terminal x = true →
      t'.requestReplays g.requestKey = some g.requestExpiresAt ∧
      ∀ z ∈ log, ∀ h, q.admitted z = some h → h.requestKey = g.requestKey →
        q.running (x :: log) z.request = false) : Fenced q (x :: log) t' := by
  have hlog : ∀ y ∈ x :: log, ∀ g, q.admitted y = some g → y ∈ log := by
    intro y hy g hg
    obtain rfl | hy := mem_cons.mp hy
    · nomatch (hx.symm.trans hg)
    · exact hy
  refine ⟨hf.hold.cons_other hx, fun y hy g hg => ?_, fun y hy g hg hr => ?_,
    fun y hy g hg hterminal => ?_⟩
  · obtain hup | hreaped := hf.event y (hlog y hy g hg) g hg
    · exact hevent y (hlog y hy g hg) g hg hup
    · exact .inr (hreaped.cons x)
  · exact hrunning y (hlog y hy g hg) g hg hr
      (hf.running y (hlog y hy g hg) g hg (running_of_cons hr))
  · have hylog := hlog y hy g hg
    obtain ⟨z, hz, hends'⟩ := hterminal
    obtain rfl | hz := mem_cons.mp hz
    · obtain ⟨hup, hnone⟩ := hends y hylog g hg hends'
      exact .inl ⟨hup, fun z hz h hh hkey => hnone z (hlog z hz h hh) h hh hkey⟩
    · obtain ⟨hup, hnone⟩ | hreaped := hf.burned y hylog g hg ⟨z, hz, hends'⟩
      · obtain hup | hreaped := hburned y hylog g hg hup hnone
        · refine .inl ⟨hup, fun u hu h hh hkey => ?_⟩
          refine Bool.eq_false_iff.mpr fun hr => ?_
          exact Bool.false_ne_true
            ((hnone u (hlog u hu h hh) h hh hkey).symm.trans (running_of_cons hr))
        · exact .inr hreaped
      · exact .inr (hreaped.cons x)

/-! ### One lemma per kind of commit -/

theorem Fenced.quiet (hf : Fenced q log t) (hx : q.admitted x = none)
    (hends : ∀ m, q.ends m .terminal x = false) (hauth : t'.authReplays = t.authReplays)
    (hrequest : t'.requestReplays = t.requestReplays) : Fenced q (x :: log) t' := by
  refine hf.cons_other hx (fun y hy g hg hup => ?_) (fun y hy g hg _ hup => ?_)
    (fun y hy g hg hup _ => ?_) fun y hy g hg hend => ?_
  · exact .inl (by rw [hauth]; exact hup)
  · rwa [hrequest]
  · exact .inl (by rw [hrequest]; exact hup)
  · nomatch ((hends y.request).symm.trans hend)

theorem Fenced.reap {now : Int} {found : Found} (hf : Fenced q log t)
    (hop : q.operation n = .reapExpired now found)
    (hreaps : Reaps now found.delegations t t')
    (htime : ∀ y ∈ log, ∀ g, q.admitted y = some g → q.running log y.request = true →
      now ≤ g.requestExpiresAt) : Fenced q (⟨n, true, r⟩ :: log) t' := by
  have hreaped : ∀ e, e < now → ReapedPast q (⟨n, true, r⟩ :: log) e := fun e he =>
    ⟨_, mem_cons_self, rfl, now, found, hop, he⟩
  refine hf.cons_other ?_ (fun y hy g hg hup => ?_) (fun y hy g hg hr hup => ?_)
    (fun y hy g hg hup _ => ?_) fun y hy g hg hend => ?_
  · rw [Requests.admitted, if_pos rfl]
    show (match q.operation n with | .authorizeDelivery g => some g | _ => none) = none
    rw [hop]
  · obtain hkept | ⟨-, e, he, hlt⟩ := hreaps.authReplays g.eventKey
    · exact .inl (hkept.trans hup)
    · exact .inr (hreaped _ (some.inj (he.symm.trans hup) ▸ hlt))
  · obtain hkept | ⟨-, e, he, hlt⟩ := hreaps.requestReplays g.requestKey
    · exact hkept.trans hup
    · have hle := htime y hy g hg (running_of_cons hr)
      rw [some.inj (he.symm.trans hup)] at hlt
      exact absurd hlt (Int.not_lt.mpr hle)
  · obtain hkept | ⟨-, e, he, hlt⟩ := hreaps.requestReplays g.requestKey
    · exact .inl (hkept.trans hup)
    · exact .inr (hreaped _ (some.inj (he.symm.trans hup) ▸ hlt))
  · rw [Requests.ends, Bool.and_eq_true] at hend
    obtain ⟨-, hd⟩ := hend
    rw [show q.operation (⟨n, true, r⟩ : StoreAnswer).request = _ from hop] at hd
    nomatch hd

/-- The fences of requests after the end of a task. -/
def requestsAfter (p : DeliveryPermit) (t : Tables) :
    DeliveryDisposition → PublicKey × Uuid → Option Int
  | .terminal => t.requestReplays
  | .retryable => update t.requestReplays (p.relayPubkey, p.requestId) none

theorem Fenced.finish {m : Nat} {p : DeliveryPermit} {disposition : DeliveryDisposition}
    (hf : Fenced q log t) (hop : q.operation n = .finishDelivery p disposition)
    (hm : q.admission n = m) (hx : x ∈ log) (hxm : x.request = m) (hg : q.admitted x = some g)
    (hkey : (p.relayPubkey, p.requestId) = g.requestKey) (hrunning : q.running log m = true)
    (hauth : t'.authReplays = t.authReplays)
    (hrequest : t'.requestReplays = requestsAfter p t disposition) :
    Fenced q (⟨n, true, r⟩ :: log) t' := by
  subst hxm
  have hfinishes : q.finishes x.request n = true := Requests.finishes_iff.mpr ⟨⟨p, _, hop⟩, hm⟩
  have hended : q.running (⟨n, true, r⟩ :: log) x.request = false := by
    rw [running_cons, hfinishes]
    rfl
  -- The task that ends is the only one of its request.
  have honly : ∀ y ∈ log, ∀ h, q.admitted y = some h → h.requestKey = g.requestKey →
      q.running (⟨n, true, r⟩ :: log) y.request = false := by
    intro y hy h hh hkey'
    refine Bool.eq_false_iff.mpr fun hr => ?_
    obtain rfl := hf.hold.single y hy x hx h g hh hg hkey' (running_of_cons hr) hrunning
    exact Bool.false_ne_true (hended.symm.trans hr)
  refine hf.cons_other ?_ (fun y hy g' hg' hup => ?_) (fun y hy g' hg' hr hup => ?_)
    (fun y hy g' hg' hup hnone => ?_) fun y hy g' hg' hend => ?_
  · rw [Requests.admitted, if_pos rfl]
    show (match q.operation n with | .authorizeDelivery g => some g | _ => none) = none
    rw [hop]
  · exact .inl (by rw [hauth]; exact hup)
  · rw [hrequest]
    cases disposition with
    | terminal => exact hup
    | retryable =>
      show update t.requestReplays _ none _ = _
      rw [hkey, update_of_ne, hup]
      intro heq
      exact Bool.false_ne_true ((honly y hy g' hg' heq).symm.trans hr)
  · refine .inl ?_
    rw [hrequest]
    cases disposition with
    | terminal => exact hup
    | retryable =>
      show update t.requestReplays _ none _ = _
      rw [hkey, update_of_ne, hup]
      intro heq
      exact Bool.false_ne_true ((hnone x hx g hg heq.symm).symm.trans hrunning)
  · rw [Requests.ends, Bool.and_eq_true, Bool.and_eq_true] at hend
    obtain ⟨⟨-, hfin⟩, hd⟩ := hend
    rw [show q.operation (⟨n, true, r⟩ : StoreAnswer).request = _ from hop] at hd
    obtain rfl := beq_iff_eq.mp hd
    have hsame : y.request = x.request := by
      rwa [← (Requests.finishes_iff.mp hfin).2]
    have hup := hf.running y hy g' hg' (hsame ▸ hrunning)
    have hgg : g' = g := by
      have hop' := (admitted_iff.mp hg').2
      rw [hsame, (admitted_iff.mp hg).2] at hop'
      exact (Operation.authorizeDelivery.inj hop').symm
    subst hgg
    exact ⟨by rw [hrequest]; exact hup, honly⟩

theorem Fenced.admit (hf : Fenced q log t) (hsigned : q.Signed)
    (hop : q.operation n = .authorizeDelivery g)
    (hrequest : g.now ≤ g.requestExpiresAt) (hevent : t.authReplays g.eventKey = none)
    (hfree : t.requestReplays g.requestKey = none)
    (hauth : t'.authReplays =
      update t.authReplays g.eventKey (some g.requestExpiresAt))
    (hrequests : t'.requestReplays =
      update t.requestReplays g.requestKey (some g.requestExpiresAt))
    (hunended : ∀ z ∈ log, q.finishes n z.request = false)
    (htime : ∀ e, ReapedPast q log e → e < g.now) : Fenced q (⟨n, true, r⟩ :: log) t' := by
  have hself : q.admitted ⟨n, true, r⟩ = some g := admitted_iff.mpr ⟨rfl, hop⟩
  have hrun : ∀ m, q.running (⟨n, true, r⟩ :: log) m = q.running log m := fun m =>
    running_cons_of_ne fun p d hne => Operation.noConfusion (hop.symm.trans hne)
  have hnotends : ∀ m, q.ends m .terminal ⟨n, true, r⟩ = false := by
    intro m
    simp [Requests.ends, show q.operation (⟨n, true, r⟩ : StoreAnswer).request = _ from hop]
  -- A task of the same request is not running, and a burned one is past its expiry.
  have hidle : ∀ y ∈ log, ∀ h, q.admitted y = some h → h.requestKey = g.requestKey →
      q.running log y.request = false := by
    intro y hy h hh hkey
    refine Bool.eq_false_iff.mpr fun hr => ?_
    have hup := hf.running y hy h hh hr
    rw [hkey, hfree] at hup
    nomatch hup
  have hpast : ∀ y ∈ log, ∀ h, q.admitted y = some h → h.requestKey = g.requestKey →
      EndedTerminal q log y.request → ReapedPast q log h.requestExpiresAt := by
    intro y hy h hh hkey hended
    obtain ⟨hup, -⟩ | hreaped := hf.burned y hy h hh hended
    · rw [hkey, hfree] at hup
      nomatch hup
    · exact hreaped
  have hnew : ∀ y ∈ log, ∀ h, q.admitted y = some h → h.eventKey ≠ g.eventKey := by
    intro y hy h hh hkey
    have hsame : h.requestExpiresAt = g.requestExpiresAt :=
      hsigned _ _ h g (admitted_iff.mp hh).2 hop (congrArg Prod.fst hkey) (congrArg Prod.snd hkey)
    obtain hup | hreaped := hf.event y hy h hh
    · rw [hkey, hevent] at hup
      nomatch hup
    · have hlt := htime _ hreaped
      rw [hsame] at hlt
      exact absurd hlt (Int.not_lt.mpr hrequest)
  refine ⟨⟨fun y hy z hz h h' hh hh' hkey => ?_, fun y hy z hz h h' hh hh' hkey hry hrz => ?_,
    fun newer z older heq y hy h hh hend u hu h' hh' hkey => ?_⟩, fun y hy h hh => ?_,
    fun y hy h hh hr => ?_, fun y hy h hh hended => ?_⟩
  · obtain rfl | hy := mem_cons.mp hy
    · obtain rfl | hz := mem_cons.mp hz
      · rfl
      · obtain rfl := some.inj (hself.symm.trans hh)
        exact absurd hkey.symm (hnew z hz h' hh')
    · obtain rfl | hz := mem_cons.mp hz
      · obtain rfl := some.inj (hself.symm.trans hh')
        exact absurd hkey (hnew y hy h hh)
      · exact hf.hold.event y hy z hz h h' hh hh' hkey
  · rw [hrun] at hry hrz
    obtain rfl | hy := mem_cons.mp hy
    · obtain rfl | hz := mem_cons.mp hz
      · rfl
      · obtain rfl := some.inj (hself.symm.trans hh)
        nomatch ((hidle z hz h' hh' hkey.symm).symm.trans hrz)
    · obtain rfl | hz := mem_cons.mp hz
      · obtain rfl := some.inj (hself.symm.trans hh')
        nomatch ((hidle y hy h hh hkey).symm.trans hry)
      · exact hf.hold.single y hy z hz h h' hh hh' hkey hry hrz
  · cases newer with
    | nil => nomatch hu
    | cons v newer =>
      obtain ⟨rfl, rfl⟩ := cons.inj heq
      obtain rfl | hu := mem_cons.mp hu
      · obtain rfl := some.inj (hself.symm.trans hh')
        refine htime _ (hpast y ?_ h hh hkey ⟨z, ?_, hend⟩)
        · exact mem_append_right _ (mem_cons_of_mem z hy)
        · exact mem_append_right _ mem_cons_self
      · exact hf.hold.burned newer z older rfl y hy h hh hend u hu h' hh' hkey
  · rw [hauth]
    obtain rfl | hy := mem_cons.mp hy
    · obtain rfl := some.inj (hself.symm.trans hh)
      exact .inl (update_self _ _ _)
    · rw [update_of_ne (hnew y hy h hh)]
      exact (hf.event y hy h hh).imp_right fun hreaped => hreaped.cons _
  · rw [hrequests]
    rw [hrun] at hr
    obtain rfl | hy := mem_cons.mp hy
    · obtain rfl := some.inj (hself.symm.trans hh)
      exact update_self _ _ _
    · rw [update_of_ne, hf.running y hy h hh hr]
      exact fun hkey => Bool.false_ne_true ((hidle y hy h hh hkey).symm.trans hr)
  · obtain ⟨z, hz, hend⟩ := hended
    obtain rfl | hz := mem_cons.mp hz
    · nomatch ((hnotends _).symm.trans hend)
    obtain rfl | hy := mem_cons.mp hy
    · -- The task of this admission has not begun.
      rw [Requests.ends, Bool.and_eq_true, Bool.and_eq_true] at hend
      nomatch ((hunended z hz).symm.trans hend.1.2)
    by_cases hkey : h.requestKey = g.requestKey
    · exact .inr ((hpast y hy h hh hkey ⟨z, hz, hend⟩).cons _)
    · obtain ⟨hup, hnone⟩ | hreaped := hf.burned y hy h hh ⟨z, hz, hend⟩
      · refine .inl ⟨?_, fun u hu h' hh' hkey' => ?_⟩
        · simp [hrequests, hkey, hup]
        · rw [hrun]
          obtain rfl | hu := mem_cons.mp hu
          · obtain rfl := some.inj (hself.symm.trans hh')
            exact absurd hkey'.symm hkey
          · exact hnone u hu h' hh' hkey'
      · exact .inr (hreaped.cons _)

/-! ### Runs -/

theorem admitted_of_ne (hx : ∀ g, q.operation x.request ≠ .authorizeDelivery g) :
    q.admitted x = none := by
  cases hg : q.admitted x with
  | none => rfl
  | some g => exact absurd (admitted_iff.mp hg).2 (hx g)

theorem ends_of_ne (hx : ∀ p, q.operation x.request ≠ .finishDelivery p .terminal) (m : Nat) :
    q.ends m .terminal x = false := by
  refine Bool.eq_false_iff.mpr fun hend => ?_
  rw [Requests.ends, Bool.and_eq_true, Bool.and_eq_true] at hend
  obtain ⟨⟨-, hfin⟩, hd⟩ := hend
  obtain ⟨⟨p, d, hop⟩, -⟩ := Requests.finishes_iff.mp hfin
  rw [hop] at hd
  obtain rfl := beq_iff_eq.mp hd
  exact hx p hop

theorem permit_of_answer (hrun : Runs sha256 q log t) {m : Nat} {p : DeliveryPermit}
    (hm : ⟨m, true, .permit p⟩ ∈ log) :
    ∃ g, q.admitted ⟨m, true, .permit p⟩ = some g ∧
      (p.relayPubkey, p.requestId) = g.requestKey := by
  obtain ⟨newer, older, rfl⟩ := append_of_mem hm
  obtain ⟨u, u', -, hexec⟩ := hrun.split
  obtain ⟨g, k, i, d, hop, -, rfl⟩ := exists_admits hexec
  exact ⟨g, admitted_iff.mpr ⟨rfl, hop⟩, rfl⟩

theorem Requests.reap_inTime {answers : List StoreAnswer} {now : Int} {found : Found}
    (hop : q.operation n = .reapExpired now found) (htime : q.inTime answers n = true) :
    ∀ y ∈ answers, ∀ g, q.admitted y = some g → q.running answers y.request = true →
      now ≤ g.requestExpiresAt := by
  intro y hy g hg hr
  rw [Requests.inTime, hop] at htime
  have hall := all_eq_true.mp htime y hy
  rw [hg, all_some, hr, Bool.not_true, Bool.false_or] at hall
  exact of_decide_eq_true hall

theorem Requests.admit_inTime {answers : List StoreAnswer}
    (hop : q.operation n = .authorizeDelivery g) (htime : q.inTime answers n = true) :
    ∀ e, ReapedPast q answers e → e < g.now := by
  rintro e ⟨z, hz, hc, now, found, hreap, hlt⟩
  rw [Requests.inTime, hop] at htime
  have hall := all_eq_true.mp htime z hz
  rw [hreap] at hall
  dsimp only at hall
  rw [hc, Bool.not_true, Bool.false_or] at hall
  exact Int.lt_of_lt_of_le hlt (of_decide_eq_true hall)

/-- **A punctual commit keeps the fences.** -/
theorem Fenced.commit {home : Uuid → DelegationKey} {w : Store} {s : Session Tables Nat LockKey Reply}
    (hserving : Serving sha256 q home w) (hsigned : q.Signed) (hf : Fenced q w.answers w.db)
    (hs : s ∈ w.sessions) (htime : q.inTime w.answers s.request = true)
    (hexec : ((q.call s.request).txn sha256).exec w.db = (t', true, r)) :
    Fenced q (⟨s.request, true, r⟩ :: w.answers) t' := by
  have heffect : Effect (q.call s.request).clock w.db (q.operation s.request) t' r :=
    Call.effect hexec
  have hbegun : w.Begun s.request := .inl ⟨s, hs, rfl⟩
  have hquiet : (∀ g, q.operation s.request ≠ .authorizeDelivery g) →
      (∀ p d, q.operation s.request ≠ .finishDelivery p d) →
      t'.authReplays = w.db.authReplays → t'.requestReplays = w.db.requestReplays →
      Fenced q (⟨s.request, true, r⟩ :: w.answers) t' := fun ha hd h1 h2 =>
    hf.quiet (admitted_of_ne ha) (ends_of_ne fun p => hd p .terminal) h1 h2
  -- A task ends once, after its admission.
  have hfinish : ∀ p d, q.operation s.request = .finishDelivery p d →
      t'.authReplays = w.db.authReplays → t'.requestReplays = requestsAfter p w.db d →
      Fenced q (⟨s.request, true, r⟩ :: w.answers) t' := by
    intro p d hop hauth hrequest
    have hm := hserving.admitted s.request p d hbegun hop
    obtain ⟨g, hg, hkey⟩ := permit_of_answer hserving.replays hm
    refine hf.finish hop rfl hm rfl hg hkey ?_ hauth hrequest
    refine all_eq_true.mpr fun y hy => ?_
    rw [Bool.not_eq_true', Bool.and_eq_false_iff]
    refine .inr (Bool.eq_false_iff.mpr fun hfin => ?_)
    have hself : q.finishes (q.admission s.request) s.request = true :=
      Requests.finishes_iff.mpr ⟨⟨p, d, hop⟩, rfl⟩
    exact hserving.once.apart s hs y hy
      (hserving.finished s.request y.request _ hbegun (.inr ⟨y, hy, rfl⟩) hself hfin)
  generalize hop : q.operation s.request = op at heffect
  cases heffect with
  | authorizeDelivery hadmits quota =>
    refine hf.admit hsigned hop hadmits.request.1 hadmits.authReplay hadmits.requestReplay rfl rfl
      (fun z hz => ?_) (Requests.admit_inTime hop htime)
    refine Bool.eq_false_iff.mpr fun hfin => ?_
    obtain ⟨⟨p, d, hz'⟩, heq⟩ := Requests.finishes_iff.mp hfin
    have hanswered := hserving.admitted z.request p d (.inr ⟨z, hz, rfl⟩) hz'
    rw [heq] at hanswered
    exact hserving.once.apart s hs _ hanswered rfl
  | terminal p => exact hfinish p .terminal hop rfl rfl
  | retryable p => exact hfinish p .retryable hop rfl rfl
  | reapExpired hreaps => exact hf.reap hop hreaps (Requests.reap_inTime hop htime)
  | _ =>
    exact hquiet (fun g heq => Operation.noConfusion (hop.symm.trans heq))
      (fun p d heq => Operation.noConfusion (hop.symm.trans heq)) rfl rfl

/-- **The replay fences hold** in every state that a run of punctual steps reaches. -/
theorem fences_hold (hfresh : q.Fresh) (hsigned : q.Signed) {w : Store}
    (h : ((gateway sha256 q).guard fun w a => q.punctual w a = true).Reachable w) :
    FencesHold q w.answers := by
  obtain ⟨home, hhome⟩ := hfresh.exists_home
  suffices hinv : Serving sha256 q home w ∧ Fenced q w.answers w.db from hinv.2.hold
  refine StateMachine.reachable_guard (M := gateway sha256 q)
    (I := fun w => Serving sha256 q home w ∧ Fenced q w.answers w.db) (fun w hw => ?_)
    (fun w a w' hw hpunctual hs => ?_) h
  · refine ⟨Serving.init hw, ?_⟩
    rw [show w.answers = [] from hw.2.2]
    exact .nil q _
  · obtain ⟨hserving, hf⟩ := hw
    obtain ⟨hallows, hs⟩ := StateMachine.guard_step.mp hs
    refine ⟨hserving.step hhome hallows hs, ?_⟩
    obtain ⟨-, ⟨hdb, hsame | ⟨m, result, -, hanswers⟩⟩ | ⟨s, hsession, ha, ⟨r', htodo⟩, result, hexec,
      hanswers⟩⟩ := hserving.standing.step (fun _ m _ => serving_guarded hhome m) hs
    · rwa [hdb, hsame]
    · rw [hdb, hanswers]
      refine hf.quiet ?_ (fun m => ?_) rfl rfl
      · simp [Requests.admitted]
      · simp [Requests.ends]
    · rw [hanswers]
      refine hf.commit hserving hsigned (World.mem_of_session hsession).1 ?_ hexec
      rw [ha, Requests.punctual, hsession, all_some, htodo] at hpunctual
      exact hpunctual

/-! ### A slow task -/

/-- The event of a delivery that is to be admitted. -/
def Operation.drawsEvent : Operation → Option (PublicKey × EventId)
  | .authorizeDelivery g => some g.eventKey
  | _ => none

theorem signed_ofList {calls : List Call} (admission : Nat → Nat)
    (hevents : calls.Pairwise fun a b => a.operation.drawsEvent = none ∨
      a.operation.drawsEvent ≠ b.operation.drawsEvent) :
    (Requests.ofList calls admission).Signed := by
  intro m n g h hm hn hrelay hevent
  have hkey : h.eventKey = g.eventKey := Prod.ext hrelay.symm hevent.symm
  have heq : m = n := eq_of_draws (b := g.eventKey) rfl hevents (by rw [hm]; rfl)
    (by rw [hn, ← hkey]; rfl)
  rw [heq, hn] at hm
  rw [Operation.authorizeDelivery.inj hm]

def phonePermit (eventId : EventId) (now : Int) : DeliveryPermit :=
  permit (delivery 5 1 eventId 4 now) 1 phone.row (phoneToRelay 5 0 1).row

/-- The task of the first admission is slow: its request expires, is reaped and admitted again. The
second task ends `Terminal`, then the first one ends `Retryable`. -/
def slowTask : Requests := .ofList
  [⟨.createInstallation phone, 0⟩,
    ⟨.upsertDelegation (phoneToRelay 5 0 1), 0⟩,
    ⟨.authorizeDelivery (delivery 5 1 1 4 0), seconds 0⟩,
    ⟨.reapExpired 61 ⟨[], [(9, 1)], [(9, 4)], [], [], [], []⟩, seconds 61⟩,
    ⟨.authorizeDelivery (delivery 5 1 2 4 70), seconds 70⟩,
    ⟨.finishDelivery (phonePermit 2 70) .terminal, seconds 71⟩,
    ⟨.finishDelivery (phonePermit 1 0) .retryable, seconds 72⟩,
    ⟨.authorizeDelivery (delivery 5 1 3 4 80), seconds 80⟩]
  fun n => if n = 5 then 4 else 2

theorem fresh_slowTask : slowTask.Fresh := fresh_ofList _ (by decide) (by decide)

theorem signed_slowTask : slowTask.Signed := signed_ofList _ (by decide)

/-- The calls of `slowTask`, one after another. -/
def slowTaskRun : List (SessionAction Nat) :=
  alone 0 6 ++ alone 1 8 ++ alone 2 16 ++ alone 3 7 ++ alone 4 16 ++ alone 5 1 ++ alone 6 3 ++
    alone 7 16

/-- The answers of `slowTask`. -/
def slowTaskAnswers : List StoreAnswer :=
  [⟨7, true, .permit (phonePermit 3 80)⟩, ⟨6, true, .ok⟩, ⟨5, true, .ok⟩,
    ⟨4, true, .permit (phonePermit 2 70)⟩, ⟨3, true, .ok⟩, ⟨2, true, .permit (phonePermit 1 0)⟩,
    ⟨1, true, .ok⟩, ⟨0, true, .ok⟩]

/-- A request that ended `Terminal` at 71 and expires at 130 is admitted again at 80. -/
theorem not_fences_hold : ∃ w, slowTask.Fresh ∧ slowTask.Signed ∧
    (gateway id slowTask).Reachable w ∧ ¬FencesHold slowTask w.answers := by
  have hrun : ((gateway id slowTask).run emptyStore slowTaskRun).any (fun w =>
      w.answers == slowTaskAnswers) = true := by decide +kernel
  obtain ⟨w, hw, hanswers⟩ := (any_eq_true _ _).mp hrun
  refine ⟨w, fresh_slowTask, signed_slowTask, ⟨emptyStore, slowTaskRun, ⟨rfl, rfl, rfl⟩, hw⟩,
    fun hold => ?_⟩
  have hlt := hold.burned [⟨7, true, .permit (phonePermit 3 80)⟩, ⟨6, true, .ok⟩] ⟨5, true, .ok⟩ _
    (beq_iff_eq.mp hanswers) ⟨4, true, .permit (phonePermit 2 70)⟩ mem_cons_self
    (delivery 5 1 2 4 70) rfl rfl ⟨7, true, .permit (phonePermit 3 80)⟩ mem_cons_self
    (delivery 5 1 3 4 80) rfl rfl
  exact absurd hlt (by decide)

/-- The first task ends before the reaping. -/
def quickTask : Requests := .ofList
  [⟨.createInstallation phone, 0⟩,
    ⟨.upsertDelegation (phoneToRelay 5 0 1), 0⟩,
    ⟨.authorizeDelivery (delivery 5 1 1 4 0), seconds 0⟩,
    ⟨.finishDelivery (phonePermit 1 0) .terminal, seconds 1⟩,
    ⟨.reapExpired 61 ⟨[], [(9, 1)], [(9, 4)], [], [], [], []⟩, seconds 61⟩,
    ⟨.authorizeDelivery (delivery 5 1 2 4 70), seconds 70⟩]
  fun _ => 2

/-- The calls of `quickTask`, one after another. -/
def quickTaskRun : List (SessionAction Nat) :=
  alone 0 6 ++ alone 1 8 ++ alone 2 16 ++ alone 3 1 ++ alone 4 7 ++ alone 5 16

theorem fences_hold_quickTask : ∃ w,
    ((gateway id quickTask).guard fun w a => quickTask.punctual w a = true).Reachable w ∧
      w.answers.head? = some ⟨5, true, .permit (phonePermit 2 70)⟩ ∧
      FencesHold quickTask w.answers := by
  have hrun : (((gateway id quickTask).guard fun w a => quickTask.punctual w a = true).run emptyStore
      quickTaskRun).any (fun w =>
        w.answers.head? == some ⟨5, true, .permit (phonePermit 2 70)⟩) = true := by decide +kernel
  obtain ⟨w, hw, hanswers⟩ := (any_eq_true _ _).mp hrun
  have hreach : ((gateway id quickTask).guard fun w a =>
      quickTask.punctual w a = true).Reachable w :=
    ⟨emptyStore, quickTaskRun, ⟨rfl, rfl, rfl⟩, hw⟩
  exact ⟨w, hreach, beq_iff_eq.mp hanswers,
    fences_hold (fresh_ofList _ (by decide) (by decide)) (signed_ofList _ (by decide)) hreach⟩

end Buzz.PushGateway
