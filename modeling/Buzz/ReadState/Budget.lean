import Buzz.Lib.JsString
import Buzz.Lib.KeyMap
import Buzz.Lib.Occurrences
import Buzz.Lib.RoundRobin
import Mathlib.Algebra.Order.BigOperators.Group.List
import Mathlib.Data.List.Sort
import Mathlib.Data.PNat.Basic

/-!
# The byte budget of the published read state

A client publishes when it has read what as a JSON object, in one slot or in several. A slot has a
budget of bytes. Read markers of messages and threads are evicted to meet it, the oldest first, those
of channels are not: they are spread over more slots.

How much an eviction gains is estimated, and the estimate counts UTF-16 units.

An object is the list of its entries in the order of their insertion. Keys that are array indices come
first in JavaScript, but these are keys of channels, whose order does not matter here. To assign the
key `__proto__` of an object has no effect. A timestamp is an integer.
-/

namespace Buzz.Budget

open List

/-! ### Contexts -/

abbrev Contexts := List (JsString × Int)

/-- `__proto__`. -/
def protoKey : JsString := .ofAscii "__proto__"

def setKey (contexts : Contexts) (e : JsString × Int) : Contexts :=
  if e.1 = protoKey then contexts else upsertKey Prod.fst e.1 (fun _ => e) e contexts

def msgPrefix : JsString := .ofAscii "msg:"

def threadPrefix : JsString := .ofAscii "thread:"

def isMsg (key : JsString) : Bool := msgPrefix.isPrefixOf key

def isThread (key : JsString) : Bool := !isMsg key && threadPrefix.isPrefixOf key

def isChannel (key : JsString) : Bool := !isMsg key && !isThread key

/-- `String(ts)`. -/
def tsString (ts : Int) : List Char := (NumToken.ofInt ts).chars

def member (e : JsString × Int) : List Char := e.1.quote ++ ':' :: tsString e.2

def blobStart : List Char := "\x7b\"v\":1,\"client_id\":".toList

/-- A blob between its client and its contexts. -/
def blobMiddle : List Char := ",\"contexts\":\x7b".toList

def blobEnd : List Char := "\x7d\x7d".toList

/-- The JSON of an object with the version 1, the client and the contexts. -/
def blobFor (clientId : JsString) (contexts : Contexts) : List Char :=
  blobStart ++ (clientId.quote ++ (blobMiddle ++
    ([','].intercalate (contexts.map member) ++ blobEnd)))

def blobBytes (clientId : JsString) (contexts : Contexts) : Nat :=
  utf8Length (blobFor clientId contexts)

/-! ### Evictions -/

structure TrimResult where
  evicted : Nat
  fitsAfterTrim : Bool
  deriving DecidableEq

/-- What the eviction of an entry is taken to gain. -/
def estimate (e : JsString × Int) : Nat := e.1.length + 3 + (tsString e.2).length + 1

/-- The order of the evictions: messages before threads, and the oldest first. -/
def evictionOrder (contexts : Contexts) : Contexts :=
  ((contexts.filter fun e => isMsg e.1).insertionSort fun a b => a.2 ≤ b.2) ++
    (contexts.filter fun e => isThread e.1).insertionSort fun a b => a.2 ≤ b.2

def toEvict (maxBytes : Int) : Int → Contexts → Contexts
  | _, [] => []
  | currentBytes, e :: rest =>
    if currentBytes ≤ maxBytes then []
    else e :: toEvict maxBytes (currentBytes - estimate e) rest

/-- The contexts without evicted entries. -/
def deleteKeys (contexts evicted : Contexts) : Contexts :=
  contexts.filter fun e => !(evicted.map Prod.fst).contains e.1

/-- `trimContextsToBudget`, with the contexts after it. -/
def trimContextsToBudget (contexts : Contexts) (clientId : JsString) (maxBytes : Int) :
    TrimResult × Contexts :=
  let currentBytes : Int := blobBytes clientId contexts
  if currentBytes ≤ maxBytes then (⟨0, true⟩, contexts)
  else
    let evicted := toEvict maxBytes currentBytes (evictionOrder contexts)
    let rest := deleteKeys contexts evicted
    (⟨evicted.length, decide ((blobBytes clientId rest : Int) ≤ maxBytes)⟩, rest)

/-! ### Slots -/

/-- The slots, and the ids made up for them. -/
structure SlotSplitResult where
  slots : List Contexts
  extraSlotIds : List JsString
  deriving DecidableEq

/-- `distribute`: the channels in turn over empty slots. -/
def distribute (channelEntries : Contexts) (count : Nat) : List Contexts :=
  deal setKey count 0 (replicate count []) channelEntries

def overflows (clientId : JsString) (maxBytes : Int) (slots : List Contexts) : Bool :=
  slots.any fun c => decide ((blobBytes clientId c : Int) > maxBytes)

/-- The number of slots to take, with so many more at most. -/
def slotCount (channelEntries : Contexts) (clientId : JsString) (maxBytes : Int) : Nat → Nat → Nat
  | 0, count => count
  | more + 1, count =>
    if overflows clientId maxBytes (distribute channelEntries count) then
      slotCount channelEntries clientId maxBytes more (count + 1)
    else count

/-- The arguments of `splitContextsIntoBudgetedSlots`. -/
structure SplitArgs where
  channelEntries : Contexts
  threadMsgEntries : Contexts
  clientId : JsString
  initialSlotCount : ℕ+
  maxSlots : Nat
  maxBytes : Int
  slotIdGenerator : Nat → JsString

/-- The primary slot with the entries of threads and messages, trimmed to the budget. -/
def primarySlot (args : SplitArgs) (contexts : Contexts) : Contexts :=
  (trimContextsToBudget (args.threadMsgEntries.foldl setKey contexts) args.clientId
    args.maxBytes).2

def splitContextsIntoBudgetedSlots (args : SplitArgs) : Option SlotSplitResult :=
  let count := slotCount args.channelEntries args.clientId args.maxBytes
    (args.maxSlots - args.initialSlotCount) args.initialSlotCount
  let slots := distribute args.channelEntries count
  if overflows args.clientId args.maxBytes slots then none
  else
    some ⟨slots.modify 0 (primarySlot args),
      (range (count - args.initialSlotCount)).map args.slotIdGenerator⟩

/-! ### What they are to do -/

/-- What trimming does, for any budget. -/
structure Trims (contexts : Contexts) (clientId : JsString) (maxBytes : Int) (result : TrimResult)
    (rest : Contexts) : Prop where
  evicted : result.evicted ≤ (evictionOrder contexts).length ∧
    rest = deleteKeys contexts ((evictionOrder contexts).take result.evicted)
  channels : ∀ e ∈ contexts, isChannel e.1 = true → e ∈ rest
  estimated : ∀ n < result.evicted, maxBytes < (blobBytes clientId contexts : Int) -
    (((evictionOrder contexts).take n).map estimate).sum
  /-- No fewer evictions would do, when the keys are written as they are. -/
  least : (∀ e ∈ evictionOrder contexts, e.1.all JsString.isPlain = true) →
    ∀ n < result.evicted, maxBytes <
      blobBytes clientId (deleteKeys contexts ((evictionOrder contexts).take n))
  /-- The result tells whether the rest fits, which it does if the channels do. -/
  fits : (result.fitsAfterTrim = true ↔ (blobBytes clientId rest : Int) ≤ maxBytes) ∧
    (result.fitsAfterTrim = true ↔
      (blobBytes clientId (contexts.filter fun e => isChannel e.1) : Int) ≤ maxBytes)

/-- What splitting does, for any budget. -/
structure Splits (args : SplitArgs) (slots : List Contexts) : Prop where
  budget : ∀ c ∈ slots, (blobBytes args.clientId c : Int) ≤ args.maxBytes
  channels : ∀ e ∈ args.channelEntries, e.1 ≠ protoKey →
    ∃ (j : Nat) (c : Contexts), slots[j]? = some c ∧ e ∈ c ∧
      ∀ (j' : Nat) (c' : Contexts) ts, slots[j']? = some c' → (e.1, ts) ∈ c' → j' = j ∧ ts = e.2
  primary : ∀ (j : Nat) (c : Contexts), slots[j]? = some c → ∀ e ∈ c, isChannel e.1 = false → j = 0

/-! ### Bytes -/

variable {contexts evicted : Contexts} {clientId : JsString} {maxBytes : Int}

def frameBytes (clientId : JsString) : Nat :=
  utf8Length blobStart + utf8Length clientId.quote + utf8Length blobMiddle + utf8Length blobEnd

/-- The bytes of an entry and a comma. -/
def weight (e : JsString × Int) : Nat := utf8Length (member e) + 1

theorem blobBytes_eq (clientId : JsString) (contexts : Contexts) :
    blobBytes clientId contexts = frameBytes clientId +
      ((contexts.map fun e => utf8Length (member e)).sum + (contexts.length - 1)) := by
  have hcomma : utf8Length [','] = 1 := by
    rw [utf8Length_cons, utf8Length_nil, utf8Size_ascii (by decide)]
  have hentries := weight_intercalate utf8Length_nil utf8Length_append [','] (contexts.map member)
  rw [map_map, length_map, hcomma, Nat.mul_one] at hentries
  have hmap : (utf8Length ∘ member) = fun e => utf8Length (member e) := rfl
  rw [hmap] at hentries
  rw [blobBytes, blobFor]
  simp only [utf8Length_append, hentries, frameBytes]
  omega

theorem blobBytes_weight (clientId : JsString) (h : contexts ≠ []) :
    blobBytes clientId contexts + 1 = frameBytes clientId + (contexts.map weight).sum := by
  have hsum : (contexts.map weight).sum =
      (contexts.map fun e => utf8Length (member e)).sum + contexts.length := by
    induction contexts with
    | nil => rfl
    | cons e rest ih =>
      cases rest with
      | nil => rfl
      | cons e' rest =>
        have htail := ih (cons_ne_nil _ _)
        simp only [map_cons, sum_cons, length_cons, weight] at htail ⊢
        omega
  have hpos := length_pos_iff.mpr h
  rw [blobBytes_eq, hsum]
  omega

theorem blobBytes_filter_le (clientId : JsString) (contexts : Contexts) (p : JsString × Int → Bool) :
    blobBytes clientId (contexts.filter p) ≤ blobBytes clientId contexts := by
  have hlength := length_filter_le p contexts
  have hsum : ((contexts.filter p).map fun e => utf8Length (member e)).sum ≤
      (contexts.map fun e => utf8Length (member e)).sum :=
    (filter_sublist.map _).sum_le_sum fun _ _ => Nat.zero_le _
  rw [blobBytes_eq, blobBytes_eq]
  omega

theorem utf8Length_tsString (ts : Int) : utf8Length (tsString ts) = (tsString ts).length := by
  refine utf8Length_ascii fun c hc => ?_
  have hnum := (NumToken.ofInt ts).numeric c hc
  simp only [isNumChar, Bool.or_eq_true, beq_iff_eq] at hnum
  obtain ((((hdigit | rfl) | rfl) | rfl) | rfl) | rfl := hnum
  · rw [Char.isDigit, Bool.and_eq_true, decide_eq_true_eq, decide_eq_true_eq] at hdigit
    exact le_trans (UInt32.le_iff_toNat_le.mp hdigit.2) (by decide)
  all_goals decide

theorem estimate_le_weight (e : JsString × Int) : estimate e ≤ weight e := by
  have hquote := JsString.length_add_two_le_quote e.1
  have hcolon : Char.utf8Size ':' = 1 := utf8Size_ascii (by decide)
  rw [estimate, weight, member, utf8Length_append, utf8Length_cons, utf8Length_tsString, hcolon]
  omega

variable {e : JsString × Int}

theorem estimate_eq_weight (h : e.1.all JsString.isPlain = true) : estimate e = weight e := by
  have hcolon : Char.utf8Size ':' = 1 := utf8Size_ascii (by decide)
  rw [estimate, weight, member, utf8Length_append, utf8Length_cons, utf8Length_tsString, hcolon,
    JsString.utf8Length_quote_of_plain h]
  omega

/-! ### What goes and what stays -/

theorem isChannel_eq_false_iff {key : JsString} :
    isChannel key = false ↔ isMsg key = true ∨ isThread key = true := by
  cases hmsg : isMsg key <;> cases hthread : isThread key <;> simp [isChannel, hmsg, hthread]

theorem mem_evictionOrder : e ∈ evictionOrder contexts ↔ e ∈ contexts ∧ isChannel e.1 = false := by
  simp [evictionOrder, ← and_or_left, isChannel_eq_false_iff]

theorem nodup_evictionOrder (h : contexts.Nodup) : (evictionOrder contexts).Nodup := by
  rw [evictionOrder, nodup_append]
  refine ⟨(perm_insertionSort _ _).nodup_iff.mpr (h.filter _),
    (perm_insertionSort _ _).nodup_iff.mpr (h.filter _), ?_⟩
  rintro e hmsg e' hthread rfl
  have hm := (mem_filter.mp ((mem_insertionSort _).mp hmsg)).2
  have ht := (mem_filter.mp ((mem_insertionSort _).mp hthread)).2
  rw [isThread, hm] at ht
  nomatch ht

theorem perm_deleteKeys (hkeys : (contexts.map Prod.fst).Nodup) (hsub : evicted ⊆ contexts)
    (hnodup : evicted.Nodup) : (evicted ++ deleteKeys contexts evicted).Perm contexts := by
  have hgone : (contexts.filter fun e => (evicted.map Prod.fst).contains e.1).Perm evicted := by
    refine (perm_ext_iff_of_nodup ((List.Nodup.of_map _ hkeys).filter _) hnodup).mpr ?_
    intro e
    rw [mem_filter, contains_iff_mem, mem_map]
    constructor
    · rintro ⟨he, e', he', heq⟩
      rwa [← inj_on_of_nodup_map hkeys (hsub he') he heq]
    · intro he
      exact ⟨hsub he, e, he, rfl⟩
  exact (hgone.symm.append_right _).trans (filter_append_perm _ _)

theorem not_contains_of_channel (hsub : evicted ⊆ evictionOrder contexts)
    (hchannel : isChannel e.1 = true) : (!(evicted.map Prod.fst).contains e.1) = true := by
  rw [Bool.not_eq_true', Bool.eq_false_iff, ne_eq, contains_iff_mem, mem_map]
  rintro ⟨e', he', heq⟩
  have hfalse := (mem_evictionOrder.mp (hsub he')).2
  rw [heq, hchannel] at hfalse
  exact Bool.false_ne_true hfalse.symm

theorem filter_deleteKeys (hsub : evicted ⊆ evictionOrder contexts) :
    (deleteKeys contexts evicted).filter (fun e => isChannel e.1) =
      contexts.filter fun e => isChannel e.1 := by
  rw [deleteKeys, filter_filter]
  refine filter_congr fun e _ => ?_
  cases hchannel : isChannel e.1 with
  | false => rw [Bool.false_and]
  | true => rw [not_contains_of_channel hsub hchannel, Bool.and_true]

theorem deleteKeys_evictionOrder (contexts : Contexts) :
    deleteKeys contexts (evictionOrder contexts) = contexts.filter fun e => isChannel e.1 := by
  rw [← filter_deleteKeys (List.Subset.refl _)]
  refine (filter_eq_self.mpr fun e he => ?_).symm
  obtain ⟨hmem, hkept⟩ := mem_filter.mp he
  by_contra hchannel
  have hgone := mem_evictionOrder.mpr ⟨hmem, Bool.eq_false_iff.mpr hchannel⟩
  rw [contains_iff_mem.mpr (mem_map_of_mem hgone)] at hkept
  exact Bool.false_ne_true hkept

theorem toEvict_eq_take (maxBytes : Int) (order : Contexts) (currentBytes : Int) :
    ∃ n ≤ order.length, toEvict maxBytes currentBytes order = order.take n ∧
      (∀ m < n, maxBytes < currentBytes - ((order.take m).map estimate).sum) ∧
      (n < order.length → currentBytes - ((order.take n).map estimate).sum ≤ maxBytes) := by
  induction order generalizing currentBytes with
  | nil => exact ⟨0, Nat.le_refl _, rfl, fun m hm => absurd hm (Nat.not_lt_zero m),
      fun h => absurd h (Nat.not_lt_zero 0)⟩
  | cons e rest ih =>
    rw [toEvict]
    split
    · next hfits =>
      refine ⟨0, Nat.zero_le _, rfl, fun m hm => absurd hm (Nat.not_lt_zero m), fun _ => ?_⟩
      simpa using hfits
    · next hover =>
      obtain ⟨n, hn, htake, hbefore, hafter⟩ := ih (currentBytes - estimate e)
      refine ⟨n + 1, Nat.succ_le_succ hn, by rw [htake, take_succ_cons], ?_, ?_⟩
      · intro m hm
        cases m with
        | zero => simpa using Int.not_le.mp hover
        | succ m =>
          have hlt := hbefore m (Nat.lt_of_succ_lt_succ hm)
          rw [take_succ_cons, map_cons, sum_cons]
          omega
      · intro hlt
        have hle := hafter (Nat.lt_of_succ_lt_succ hlt)
        rw [take_succ_cons, map_cons, sum_cons]
        omega

section Trim

variable (hkeys : (contexts.map Prod.fst).Nodup) {n : Nat}

include hkeys

theorem blobBytes_deleteKeys (clientId : JsString)
    (h : n < (evictionOrder contexts).length) :
    blobBytes clientId (deleteKeys contexts ((evictionOrder contexts).take n)) +
      (((evictionOrder contexts).take n).map weight).sum = blobBytes clientId contexts := by
  have hnodup := nodup_evictionOrder (List.Nodup.of_map _ hkeys)
  have hsub : (evictionOrder contexts).take n ⊆ contexts := fun e he =>
    (mem_evictionOrder.mp (mem_of_mem_take he)).1
  have hperm := perm_deleteKeys hkeys hsub (hnodup.sublist (take_sublist n _))
  have hsum := (hperm.map weight).sum_eq
  rw [map_append, sum_append] at hsum
  -- The entry behind the last one that goes stays.
  have hstays : (evictionOrder contexts)[n] ∈
      deleteKeys contexts ((evictionOrder contexts).take n) := by
    have hmem := hperm.mem_iff.mpr (mem_evictionOrder.mp (getElem_mem h)).1
    refine (mem_append.mp hmem).resolve_left fun htake => ?_
    obtain ⟨m, hm, heq⟩ := getElem_of_mem htake
    rw [getElem_take] at heq
    rw [length_take] at hm
    have hindex := (hnodup.getElem_inj_iff).mp heq
    omega
  have hcontexts := blobBytes_weight clientId
    (ne_nil_of_mem (mem_evictionOrder.mp (getElem_mem h)).1)
  have hrest := blobBytes_weight clientId (ne_nil_of_mem hstays)
  omega

omit hkeys in
theorem sum_estimate_le (evicted : Contexts) :
    (evicted.map estimate).sum ≤ (evicted.map weight).sum :=
  sum_le_sum fun e _ => estimate_le_weight e

/-- **Trimming does what it is to do.** -/
theorem trims_trimContextsToBudget (clientId : JsString) (maxBytes : Int) :
    Trims contexts clientId maxBytes (trimContextsToBudget contexts clientId maxBytes).1
      (trimContextsToBudget contexts clientId maxBytes).2 := by
  have hchannels := blobBytes_filter_le clientId contexts fun e => isChannel e.1
  unfold trimContextsToBudget
  dsimp only
  split
  · next hfits =>
    have hnone : deleteKeys contexts [] = contexts := filter_eq_self.mpr fun _ _ => rfl
    refine ⟨⟨Nat.zero_le _, hnone.symm⟩, fun e he _ => he,
      fun n hn => absurd hn (Nat.not_lt_zero n), fun _ n hn => absurd hn (Nat.not_lt_zero n),
      ⟨fun _ => hfits, fun _ => rfl⟩, ⟨fun _ => ?_, fun _ => rfl⟩⟩
    omega
  · next hover =>
    obtain ⟨n, hn, htake, hbefore, hafter⟩ :=
      toEvict_eq_take maxBytes (evictionOrder contexts) (blobBytes clientId contexts)
    have hlength : ((evictionOrder contexts).take n).length = n := length_take_of_le hn
    have hsub := take_subset n (evictionOrder contexts)
    rw [htake, hlength]
    refine ⟨⟨hn, rfl⟩, fun e he hchannel => ?_, hbefore, fun hplain m hm => ?_,
      decide_eq_true_iff, ?_⟩
    · exact mem_filter.mpr ⟨he, not_contains_of_channel hsub hchannel⟩
    · have hlt := hbefore m hm
      have hbytes := blobBytes_deleteKeys hkeys clientId (hm.trans_le hn)
      have hsum : (((evictionOrder contexts).take m).map estimate).sum =
          (((evictionOrder contexts).take m).map weight).sum :=
        congrArg List.sum (map_congr_left fun e he =>
          estimate_eq_weight (hplain e (mem_of_mem_take he)))
      omega
    · rw [decide_eq_true_iff]
      obtain hlt | rfl := Nat.lt_or_eq_of_le hn
      · -- Something is left: the bytes are no more than was estimated, and the channels are less.
        have hle := hafter hlt
        have hbytes := blobBytes_deleteKeys hkeys clientId hlt
        have hsum := sum_estimate_le ((evictionOrder contexts).take n)
        have hrest := blobBytes_filter_le clientId
          (deleteKeys contexts ((evictionOrder contexts).take n)) fun e => isChannel e.1
        rw [filter_deleteKeys hsub] at hrest
        omega
      · simp [deleteKeys_evictionOrder]

end Trim

/-! ### Assignments -/

theorem nodup_setKey (h : (contexts.map Prod.fst).Nodup) (e : JsString × Int) :
    ((setKey contexts e).map Prod.fst).Nodup := by
  unfold setKey
  split
  · exact h
  · exact nodup_upsertKey (fun _ _ => rfl) rfl h

theorem mem_setKey_of_fresh (hfresh : ∀ x ∈ contexts, x.1 ≠ e.1) (x : JsString × Int) :
    x ∈ setKey contexts e ↔ x ∈ contexts ∨ x = e ∧ e.1 ≠ protoKey := by
  unfold setKey upsertKey
  split
  · next hproto => exact ⟨.inl, fun hx => hx.resolve_right fun heq => heq.2 hproto⟩
  · next hproto =>
    rw [lookupKey_eq_none_iff.mpr hfresh, mem_append, mem_singleton]
    exact ⟨fun hx => hx.imp_right fun heq => ⟨heq, hproto⟩, fun hx => hx.imp_right And.left⟩

theorem filter_update (he : isChannel e.1 = false) (contexts : Contexts) :
    (contexts.map fun a => if a.1 = e.1 then e else a).filter (fun x => isChannel x.1) =
      contexts.filter fun x => isChannel x.1 := by
  induction contexts with
  | nil => rfl
  | cons a rest ih =>
    rw [map_cons, filter_cons, filter_cons, ih]
    by_cases ha : a.1 = e.1
    · rw [if_pos ha, ha, he]
      rfl
    · rw [if_neg ha]

theorem filter_setKey (he : isChannel e.1 = false) :
    (setKey contexts e).filter (fun x => isChannel x.1) =
      contexts.filter fun x => isChannel x.1 := by
  unfold setKey upsertKey
  split
  · rfl
  · split
    · exact filter_update he contexts
    · rw [filter_append, filter_singleton, he]
      exact append_nil _

theorem nodup_foldl_setKey (entries : Contexts) (h : (contexts.map Prod.fst).Nodup) :
    ((entries.foldl setKey contexts).map Prod.fst).Nodup := by
  induction entries generalizing contexts with
  | nil => exact h
  | cons e rest ih => exact ih (nodup_setKey h e)

variable {entries : Contexts}

theorem filter_foldl_setKey (hentries : ∀ e ∈ entries, isChannel e.1 = false)
    (contexts : Contexts) :
    (entries.foldl setKey contexts).filter (fun x => isChannel x.1) =
      contexts.filter fun x => isChannel x.1 := by
  induction entries generalizing contexts with
  | nil => rfl
  | cons e rest ih =>
    simp [ih fun x hx => hentries x (mem_cons_of_mem e hx),
      filter_setKey (hentries e mem_cons_self)]

theorem mem_foldl_setKey (hkeys : (entries.map Prod.fst).Nodup)
    (hfresh : ∀ e ∈ entries, ∀ x ∈ contexts, x.1 ≠ e.1) (x : JsString × Int) :
    x ∈ entries.foldl setKey contexts ↔ x ∈ contexts ∨ x ∈ entries ∧ x.1 ≠ protoKey := by
  induction entries generalizing contexts with
  | nil => simp
  | cons e rest ih =>
    rw [map_cons, nodup_cons] at hkeys
    have hstep := mem_setKey_of_fresh (hfresh e mem_cons_self)
    rw [foldl_cons, ih hkeys.2, hstep, or_assoc, mem_cons, or_and_right]
    · refine or_congr_right (or_congr_left (and_congr_right ?_))
      rintro rfl
      rfl
    · intro e' he' y hy
      obtain hy | ⟨rfl, -⟩ := (hstep y).mp hy
      · exact hfresh e' (mem_cons_of_mem e he') y hy
      · exact fun heq => hkeys.1 (mem_map.mpr ⟨e', he', heq.symm⟩)

/-! ### Distribution -/

def InSlot (slots : List Contexts) (j : Nat) (x : JsString × Int) : Prop :=
  ∃ c, slots[j]? = some c ∧ x ∈ c

theorem le_slotCount (channelEntries : Contexts) (clientId : JsString) (maxBytes : Int)
    (more count : Nat) : count ≤ slotCount channelEntries clientId maxBytes more count := by
  induction more generalizing count with
  | zero => exact Nat.le_refl _
  | succ more ih =>
    rw [slotCount]
    split
    · exact (Nat.le_succ _).trans (ih (count + 1))
    · exact Nat.le_refl _

section Distribution

variable {entries : Contexts} {count : Nat}

theorem getElem?_distribute {j : Nat} {c : Contexts} (h : (distribute entries count)[j]? = some c) :
    c = (share count j 0 entries).foldl setKey [] := by
  rw [distribute, getElem?_deal] at h
  obtain ⟨empty, hempty, rfl⟩ := Option.map_eq_some_iff.mp h
  rw [eq_of_mem_replicate (mem_of_getElem? hempty)]

theorem nodup_distribute : ∀ c ∈ distribute entries count, (c.map Prod.fst).Nodup := by
  intro c hc
  obtain ⟨j, hj⟩ := mem_iff_getElem?.mp hc
  rw [getElem?_distribute hj]
  exact nodup_foldl_setKey _ .nil

/-- **Where an entry is after the distribution.** -/
theorem inSlot_distribute (hcount : 0 < count) (hkeys : (entries.map Prod.fst).Nodup) (j : Nat)
    (x : JsString × Int) :
    InSlot (distribute entries count) j x ↔
      ∃ m, entries[m]? = some x ∧ x.1 ≠ protoKey ∧ m % count = j := by
  have hshare : x ∈ (share count j 0 entries).foldl setKey [] ↔
      ∃ m, entries[m]? = some x ∧ x.1 ≠ protoKey ∧ m % count = j := by
    have hsub : (share count j 0 entries).Sublist entries := share_sublist
    have hfresh : ∀ e ∈ share count j 0 entries, ∀ x ∈ ([] : Contexts), x.1 ≠ e.1 := by simp
    rw [mem_foldl_setKey (hkeys.sublist (hsub.map Prod.fst)) hfresh, mem_share_iff]
    constructor
    · rintro (hx | ⟨⟨m, hm, hj⟩, hproto⟩)
      · nomatch hx
      · exact ⟨m, hm, hproto, by rwa [Nat.zero_add] at hj⟩
    · rintro ⟨m, hm, hproto, hj⟩
      exact .inr ⟨⟨m, hm, by rwa [Nat.zero_add]⟩, hproto⟩
  constructor
  · rintro ⟨c, hc, hx⟩
    rw [getElem?_distribute hc] at hx
    exact hshare.mp hx
  · intro h
    obtain ⟨m, -, -, hj⟩ := id h
    have hlt : j < (distribute entries count).length := by
      rw [distribute, length_deal, length_replicate, ← hj]
      exact Nat.mod_lt m hcount
    refine ⟨_, getElem?_eq_getElem hlt, ?_⟩
    rw [getElem?_distribute (getElem?_eq_getElem hlt)]
    exact hshare.mpr h

end Distribution

/-! ### The slots -/

/-- The entries are those of channels with distinct keys, and those of threads and messages. -/
structure SplitArgs.Partitioned (args : SplitArgs) : Prop where
  distinct : (args.channelEntries.map Prod.fst).Nodup
  channels : ∀ e ∈ args.channelEntries, isChannel e.1 = true
  others : ∀ e ∈ args.threadMsgEntries, isChannel e.1 = false

section Split

variable {args : SplitArgs} (hargs : args.Partitioned)

include hargs

variable {x : JsString × Int}

theorem mem_primary {c : Contexts} (hc : (c.map Prod.fst).Nodup) (hx : isChannel x.1 = true) :
    x ∈ primarySlot args c ↔ x ∈ c := by
  have htrims := trims_trimContextsToBudget
    (nodup_foldl_setKey args.threadMsgEntries hc) args.clientId args.maxBytes
  have hfold : x ∈ args.threadMsgEntries.foldl setKey c ↔ x ∈ c := by
    have hfilter := congrArg (x ∈ ·) (filter_foldl_setKey hargs.others c)
    simpa [mem_filter, hx] using hfilter
  rw [← hfold, primarySlot]
  constructor
  · rw [htrims.evicted.2]
    exact fun hmem => (mem_filter.mp hmem).1
  · exact fun hmem => htrims.channels x hmem hx

theorem primarySlot_fits {c : Contexts} (hc : (c.map Prod.fst).Nodup)
    (hfits : (blobBytes args.clientId c : Int) ≤ args.maxBytes) :
    (blobBytes args.clientId (primarySlot args c) : Int) ≤ args.maxBytes := by
  have htrims := trims_trimContextsToBudget
    (nodup_foldl_setKey args.threadMsgEntries hc) args.clientId args.maxBytes
  refine htrims.fits.1.mp (htrims.fits.2.mpr ?_)
  have hle := blobBytes_filter_le args.clientId c fun e => isChannel e.1
  rw [filter_foldl_setKey hargs.others]
  omega

theorem inSlot_primary {slots : List Contexts} (hnodup : ∀ c ∈ slots, (c.map Prod.fst).Nodup)
    (hx : isChannel x.1 = true) (j : Nat) :
    InSlot (slots.modify 0 (primarySlot args)) j x ↔ InSlot slots j x := by
  unfold InSlot
  rw [getElem?_modify]
  cases hc : slots[j]? with
  | none => simp
  | some c =>
    have hmem := mem_primary hargs (hnodup c (mem_of_getElem? hc)) hx
    by_cases hj : 0 = j
    · simp [hj, hmem]
    · simp [hj]

/-- **Splitting does what it is to do.** -/
theorem splits_splitContextsIntoBudgetedSlots {result : SlotSplitResult}
    (h : splitContextsIntoBudgetedSlots args = some result) : Splits args result.slots := by
  unfold splitContextsIntoBudgetedSlots at h
  dsimp only at h
  split at h
  · cases h
  · next hfits =>
    cases h
    have hcount := args.initialSlotCount.pos.trans_le (le_slotCount args.channelEntries args.clientId
      args.maxBytes (args.maxSlots - args.initialSlotCount) args.initialSlotCount)
    generalize slotCount args.channelEntries args.clientId args.maxBytes
      (args.maxSlots - args.initialSlotCount) args.initialSlotCount = count at hcount hfits ⊢
    have hnodup : ∀ c ∈ distribute args.channelEntries count, (c.map Prod.fst).Nodup :=
      nodup_distribute
    have hbudget : ∀ c ∈ distribute args.channelEntries count,
        (blobBytes args.clientId c : Int) ≤ args.maxBytes := fun c hc =>
      Int.not_lt.mp fun hover => hfits (any_eq_true.mpr ⟨c, hc, decide_eq_true hover⟩)
    have hin : ∀ j x, isChannel x.1 = true → (InSlot ((distribute args.channelEntries count).modify
        0 (primarySlot args)) j x ↔ InSlot (distribute args.channelEntries count) j x) :=
      fun j x hx => inSlot_primary hargs hnodup hx j
    refine ⟨fun c hc => ?_, fun e he hproto => ?_, fun j c hc e he hother => ?_⟩
    · obtain ⟨j, hj⟩ := mem_iff_getElem?.mp hc
      rw [getElem?_modify] at hj
      obtain ⟨c', hc', rfl⟩ := Option.map_eq_some_iff.mp hj
      have hmem := mem_of_getElem? hc'
      split
      · exact primarySlot_fits hargs (hnodup c' hmem) (hbudget c' hmem)
      · exact hbudget c' hmem
    · have hchannel := hargs.channels e he
      obtain ⟨m, hm⟩ := mem_iff_getElem?.mp he
      obtain ⟨c, hc, hmem⟩ := (hin (m % count) e hchannel).mpr
        ((inSlot_distribute hcount hargs.distinct _ _).mpr ⟨m, hm, hproto, rfl⟩)
      refine ⟨m % count, c, hc, hmem, fun j' c' ts hc' hmem' => ?_⟩
      obtain ⟨m', hm', -, hj'⟩ := (inSlot_distribute hcount hargs.distinct j' (e.1, ts)).mp
        ((hin j' (e.1, ts) hchannel).mp ⟨c', hc', hmem'⟩)
      have heq := inj_on_of_nodup_map hargs.distinct (mem_of_getElem? hm')
        he rfl
      have hindex : m' = m := by
        obtain ⟨hlt, hget⟩ := List.getElem?_eq_some_iff.mp hm
        obtain ⟨hlt', hget'⟩ := List.getElem?_eq_some_iff.mp hm'
        exact (List.Nodup.of_map _ hargs.distinct).getElem_inj_iff.mp
          (hget'.trans (heq.trans hget.symm))
      exact ⟨by rw [← hj', hindex], congrArg Prod.snd heq⟩
    · by_contra hj
      rw [getElem?_modify] at hc
      obtain ⟨c', hc', heq⟩ := Option.map_eq_some_iff.mp hc
      rw [if_neg (Ne.symm hj)] at heq
      obtain ⟨m, hm, -, -⟩ := (inSlot_distribute hcount hargs.distinct j e).mp ⟨c', hc', heq ▸ he⟩
      rw [hargs.channels e (mem_of_getElem? hm)] at hother
      exact Bool.false_ne_true hother.symm

end Split

/-- **Trimming and splitting keep to the budget, and keep the channels.** -/
theorem trims_and_splits (contexts : Contexts) (hkeys : (contexts.map Prod.fst).Nodup)
    (clientId : JsString) (maxBytes : Int) (args : SplitArgs) (hargs : args.Partitioned)
    (result : SlotSplitResult) (h : splitContextsIntoBudgetedSlots args = some result) :
    Trims contexts clientId maxBytes (trimContextsToBudget contexts clientId maxBytes).1
        (trimContextsToBudget contexts clientId maxBytes).2 ∧
      Splits args result.slots :=
  ⟨trims_trimContextsToBudget hkeys clientId maxBytes,
    splits_splitContextsIntoBudgetedSlots hargs h⟩

/-- Two channels and a message, for slots of 45 bytes. -/
def twoChannels : SplitArgs where
  channelEntries := [(.ofAscii "a", 1), (.ofAscii "b", 2)]
  threadMsgEntries := [(.ofAscii "msg:c", 3)]
  clientId := .ofAscii "d"
  initialSlotCount := 1
  maxSlots := 8
  maxBytes := 45
  slotIdGenerator _ := .ofAscii "e"

/-- The second channel gets a slot of its own, and the message goes. -/
theorem trims_and_splits_twoChannels :
    Trims [(.ofAscii "msg:c", 3)] (.ofAscii "d") 40 ⟨1, true⟩ [] ∧
      Splits twoChannels [[(.ofAscii "a", 1)], [(.ofAscii "b", 2)]] :=
  trims_and_splits [(.ofAscii "msg:c", 3)] (by decide) (.ofAscii "d") 40 twoChannels
    ⟨by decide, by decide, by decide⟩
    ⟨[[(.ofAscii "a", 1)], [(.ofAscii "b", 2)]], [.ofAscii "e"]⟩ (by decide)

/-- Two messages, the first one under a key with two letters `é`. -/
def accented : Contexts := [(JsString.ofAscii "msg:" ++ [0xE9, 0xE9], 1), (.ofAscii "msg:b", 2)]

/-- The estimate misses the second byte of each `é`, and a marker goes that could have stayed. -/
theorem accents_evict_more :
    (trimContextsToBudget accented (.ofAscii "c") 46).1 = ⟨2, true⟩ ∧
      blobBytes (.ofAscii "c") (deleteKeys accented ((evictionOrder accented).take 1)) = 46 := by
  refine ⟨?_, ?_⟩
  · decide
  · decide

end Buzz.Budget
