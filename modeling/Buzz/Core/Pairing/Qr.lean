import Buzz.Core.Pairing.Session
import Buzz.Core.Text
import Buzz.Lib.UrlText

/-!
# Pairing QR codes

A source shows a URI with its key, the session secret and its relays, and a target reads it. The
query of the URI is read pair by pair: what is no pair or has another name is ignored, a relay is
added to those before it, and a later secret or version takes the place of an earlier one. A version
that is no number is read like one that is absent.

How public keys and URLs are read, and the texts of what cannot be read, are parameters.
-/

namespace Buzz.Pairing

open List

structure ParsedUrl where
  scheme : String
  hasHost : Bool

/-- What reading a QR code uses of libraries. -/
structure QrLibrary (Key : Type) where
  toBytes : Key → Bytes32
  fromHex : String → Except String Key
  parseUrl : String → Except String ParsedUrl
  hexError : String → String
  debug : String → String

/-- `PublicKey::to_hex`. -/
def QrLibrary.toHex {Key : Type} (L : QrLibrary Key) (k : Key) : String := hexOfBytes32 (L.toBytes k)

/-- Sixty-four digits of lower-case hexadecimal. -/
def isHex64 (s : String) : Bool := s.utf8ByteSize == 64 && s.toList.all isLowerHex

/-- The query parameters met so far. -/
structure QrParams where
  secretHex : Option String
  relays : List String
  version : Option Nat

def QrParams.add (params : QrParams) (pair : String) : QrParams :=
  match splitOnce '=' pair.toList with
  | none => params
  | some (key, value) =>
    if String.ofList key = "secret" then { params with secretHex := some (String.ofList value) }
    else if String.ofList key = "relay" then
      { params with relays := params.relays ++ [percentDecode (String.ofList value)] }
    else if String.ofList key = "v" then { params with version := parseU32 (String.ofList value) }
    else params

/-- The pairs of the query, one after another. -/
def parseQuery (query : String) : QrParams :=
  ((query.toList.splitOn '&').map String.ofList).foldl QrParams.add ⟨none, [], none⟩

section

variable {Key : Type} (L : QrLibrary Key)

def encodeQr (payload : QrPayload Key) : String :=
  let uri := "nostrpair://" ++ L.toHex payload.sourcePubkey ++ "?secret=" ++
    hexOfBytes32 payload.sessionSecret
  payload.relays.foldl (fun uri relay => uri ++ "&relay=" ++ percentEncode relay) uri ++ "&v=1"

/-- The key and the query of a URI. -/
def splitUri (uri : String) : Except PairingError (String × String) :=
  if 2048 < uri.utf8ByteSize then
    .error (.invalidQr ("URI exceeds 2048-character limit (" ++ Nat.repr uri.utf8ByteSize ++
      " chars)"))
  else
    match stripPrefix uri "nostrpair://" with
    | none => .error (.invalidQr "URI must start with nostrpair://")
    | some rest =>
      match splitOnce '?' rest.toList with
      | none => .error (.invalidQr "missing query string (expected ?secret=…&relay=…)")
      | some (pubkeyHex, query) => .ok (String.ofList pubkeyHex, String.ofList query)

def parsePubkey (pubkeyHex : String) : Except PairingError Key :=
  if !isHex64 pubkeyHex then
    .error (.invalidQr ("pubkey must be 64 lowercase hex chars, got " ++ L.debug pubkeyHex))
  else (L.fromHex pubkeyHex).mapError fun e => .invalidQr ("invalid pubkey: " ++ e)

def parseSecret : Option String → Except PairingError Bytes32
  | none => .error (.invalidQr "missing 'secret' query parameter")
  | some secret =>
    if !isHex64 secret then
      .error (.invalidQr ("secret must be 64 lowercase hex chars, got " ++ L.debug secret))
    else
      match hexDecode secret with
      | none => .error (.invalidQr ("invalid secret hex: " ++ L.hexError secret))
      | some bytes =>
        if h : bytes.length = 32 then
          let sessionSecret : Bytes32 := ⟨bytes.toArray, h⟩
          if sessionSecret = .replicate 32 0 then
            .error (.invalidQr "session_secret must not be all zeros")
          else .ok sessionSecret
        else .error (.invalidQr "secret must be exactly 32 bytes")

/-- A relay is a WebSocket URL with a host. -/
def checkRelay (relay : String) : Except PairingError Unit :=
  match L.parseUrl relay with
  | .error e => .error (.invalidQr ("invalid relay URL " ++ L.debug relay ++ ": " ++ e))
  | .ok url =>
    if url.scheme ≠ "wss" ∧ url.scheme ≠ "ws" then
      .error (.invalidQr ("relay URL must use wss:// or ws:// scheme, got " ++ L.debug url.scheme))
    else if !url.hasHost then .error (.invalidQr ("relay URL has no host: " ++ L.debug relay))
    else .ok ()

def checkRelays : List String → Except PairingError Unit
  | [] => .ok ()
  | relay :: relays => do
    checkRelay L relay
    checkRelays relays

def decodeQr (uri : String) : Except PairingError (QrPayload Key) := do
  let (pubkeyHex, query) ← splitUri uri
  let sourcePubkey ← parsePubkey L pubkeyHex
  let params := parseQuery query
  -- a missing version is the first one
  let version := params.version.getD 1
  if version ≠ 1 then
    .error (.invalidQr ("unsupported protocol version " ++ Nat.repr version ++ ", expected 1"))
  else do
    let sessionSecret ← parseSecret L params.secretHex
    if params.relays.isEmpty then
      .error (.invalidQr "at least one 'relay' query parameter is required")
    else do
      checkRelays L params.relays
      return ⟨version, sourcePubkey, sessionSecret, params.relays⟩

end

/-! ### What a URI says -/

def values (name query : String) : List String :=
  ((query.toList.splitOn '&').map String.ofList).filterMap fun pair =>
    (splitOnce '=' pair.toList).bind fun (key, value) =>
      if String.ofList key = name then some (String.ofList value) else none

/-- The key and the query of a pairing URI. -/
def IsUri (uri pubkeyHex query : String) : Prop :=
  uri = "nostrpair://" ++ pubkeyHex ++ "?" ++ query ∧ '?' ∉ pubkeyHex.toList

/-- Every version in the query is the supported one. -/
def Versioned (query : String) : Prop := ∀ v ∈ values "v" query, parseU32 v = some 1

variable {Key : Type} (L : QrLibrary Key)

def IsWebSocket (relay : String) : Prop :=
  ∃ url, L.parseUrl relay = .ok url ∧ (url.scheme = "wss" ∨ url.scheme = "ws") ∧ url.hasHost = true

/-- The key, the secret and the relays of a URI are those of a payload, and they are valid. -/
structure Carries (pubkeyHex query : String) (payload : QrPayload Key) : Prop where
  isHex64_pubkey : isHex64 pubkeyHex = true
  sourcePubkey : L.fromHex pubkeyHex = .ok payload.sourcePubkey
  sessionSecret : ∃ secret, (values "secret" query).getLast? = some secret ∧
    isHex64 secret = true ∧ hexDecode secret = some payload.sessionSecret.toList
  sessionSecret_ne : payload.sessionSecret ≠ .replicate 32 0
  relays : payload.relays = (values "relay" query).map percentDecode
  relays_ne : payload.relays ≠ []
  isWebSocket : ∀ relay ∈ payload.relays, IsWebSocket L relay

/-- A payload whose URI is short enough and whose parts are valid. -/
structure Readable (payload : QrPayload Key) : Prop where
  sessionSecret_ne : payload.sessionSecret ≠ .replicate 32 0
  relays_ne : payload.relays ≠ []
  isWebSocket : ∀ relay ∈ payload.relays, IsWebSocket L relay
  length_le : (encodeQr L payload).utf8ByteSize ≤ 2048

/-- What is read from a URI is in it and valid, and every version in it is the supported one. -/
def StrictlyDecoded (uri : String) : Prop :=
  ∀ payload, decodeQr L uri = .ok payload → ∃ pubkeyHex query, IsUri uri pubkeyHex query ∧
    Carries L pubkeyHex query payload ∧ Versioned query ∧ payload.version = 1

/-- When everything else of a URI is valid, every version in it is the supported one, or the last one
is another number. -/
def Conclusive (uri : String) : Prop :=
  uri.utf8ByteSize ≤ 2048 → ∀ pubkeyHex query payload, IsUri uri pubkeyHex query →
    Carries L pubkeyHex query payload →
    Versioned query ∨ ∃ n, n ≠ 1 ∧ ((values "v" query).getLast?.bind parseU32) = some n

variable {L}

/-! ### The query -/

theorem parseQuery_eq (query : String) : parseQuery query =
    ⟨(values "secret" query).getLast?, (values "relay" query).map percentDecode,
      (values "v" query).getLast?.bind parseU32⟩ := by
  unfold parseQuery values
  generalize (query.toList.splitOn '&').map String.ofList = pairs
  induction pairs using reverseRecOn with
  | nil => rfl
  | append_singleton pairs pair ih =>
    rw [foldl_concat, ih, QrParams.add]
    simp only [filterMap_append, filterMap_cons, filterMap_nil]
    cases splitOnce '=' pair.toList with
    | none => simp
    | some kv =>
      obtain ⟨key, value⟩ := kv
      by_cases hsecret : String.ofList key = "secret"
      · simp [hsecret]
      by_cases hrelay : String.ofList key = "relay"
      · simp [hrelay]
      by_cases hversion : String.ofList key = "v"
      · simp [hversion]
      · simp [hsecret, hrelay, hversion]

/-! ### What is accepted -/

variable {uri pubkeyHex : String}

theorem splitUri_ok_iff {query : String} : splitUri uri = .ok (pubkeyHex, query) ↔
    uri.utf8ByteSize ≤ 2048 ∧ IsUri uri pubkeyHex query := by
  unfold splitUri
  split
  · next hlong => exact iff_of_false nofun fun h => absurd h.1 (Nat.not_le.mpr hlong)
  next hlong =>
  rw [and_iff_right (Nat.le_of_not_lt hlong)]
  constructor
  · intro h
    split at h
    · cases h
    next rest hrest =>
    split at h
    · cases h
    next pre post hsplit =>
    cases h
    obtain ⟨hpre, hpost⟩ := splitOnce_eq_some_iff.mp hsplit
    refine ⟨?_, by rwa [String.toList_ofList]⟩
    rw [stripPrefix_eq_some_iff.mp hrest, String.append_assoc, String.append_assoc]
    refine congrArg _ (String.toList_inj.mp ?_)
    rw [hpost]
    simp
  · rintro ⟨rfl, hkey⟩
    have hsplit : splitOnce '?' (pubkeyHex ++ "?" ++ query).toList =
        some (pubkeyHex.toList, query.toList) := splitOnce_eq_some_iff.mpr ⟨hkey, by simp⟩
    rw [String.append_assoc, String.append_assoc, stripPrefix_append, ← String.append_assoc]
    dsimp only
    rw [hsplit]
    simp

theorem parsePubkey_ok_iff {k : Key} : parsePubkey L pubkeyHex = .ok k ↔
    isHex64 pubkeyHex = true ∧ L.fromHex pubkeyHex = .ok k := by
  unfold parsePubkey
  cases isHex64 pubkeyHex with
  | false => simp
  | true => simpa using mapError_ok_iff

theorem parseSecret_ok_iff {secretHex : Option String} {b : Bytes32} :
    parseSecret L secretHex = .ok b ↔ (∃ secret, secretHex = some secret ∧ isHex64 secret = true ∧
      hexDecode secret = some b.toList) ∧ b ≠ .replicate 32 0 := by
  constructor
  · intro h
    unfold parseSecret at h
    split at h
    · cases h
    next secret =>
    split at h
    · cases h
    next hhex =>
    split at h
    · cases h
    next bytes hbytes =>
    split at h
    next hlen =>
      dsimp only at h
      split at h
      · cases h
      next hne =>
      cases h
      refine ⟨⟨secret, rfl, by simpa using hhex, ?_⟩, hne⟩
      rw [hbytes]
      simp [Vector.toList]
    · cases h
  · rintro ⟨⟨secret, rfl, hhex, hbytes⟩, hne⟩
    have hlen : b.toList.length = 32 := by simp
    have hb : (⟨b.toList.toArray, by simp⟩ : Bytes32) = b := by simp [Vector.toList]
    unfold parseSecret
    dsimp only
    rw [hhex, if_neg (by simp), hbytes]
    dsimp only
    rw [dif_pos hlen, hb, if_neg hne]

theorem checkRelay_ok_iff {relay : String} :
    checkRelay L relay = .ok () ↔ IsWebSocket L relay := by
  unfold checkRelay
  constructor
  · intro h
    split at h
    · cases h
    next url hurl =>
    split at h
    · cases h
    next hscheme =>
    split at h
    · cases h
    next hhost =>
    exact ⟨url, hurl, by tauto, by simpa using hhost⟩
  · rintro ⟨url, hurl, hscheme, hhost⟩
    rw [hurl]
    dsimp only
    rw [if_neg (by tauto), hhost, if_neg (by simp)]

theorem checkRelays_ok_iff {relays : List String} :
    checkRelays L relays = .ok () ↔ ∀ relay ∈ relays, IsWebSocket L relay := by
  induction relays with
  | nil => simp [checkRelays]
  | cons relay relays ih =>
    rw [checkRelays, forall_mem_cons, ← checkRelay_ok_iff, ← ih]
    exact bind_eq_ok_iff.trans ⟨fun ⟨_, h, h'⟩ => ⟨h, h'⟩, fun ⟨h, h'⟩ => ⟨(), h, h'⟩⟩

variable {payload : QrPayload Key}

theorem decodeQr_ok_iff :
    decodeQr L uri = .ok payload ↔ uri.utf8ByteSize ≤ 2048 ∧ ∃ pubkeyHex query,
      IsUri uri pubkeyHex query ∧ Carries L pubkeyHex query payload ∧ payload.version = 1 ∧
        ((values "v" query).getLast?.bind parseU32).getD 1 = 1 := by
  constructor
  · intro h
    obtain ⟨⟨pubkeyHex, query⟩, huri, h⟩ := bind_eq_ok_iff.mp h
    obtain ⟨hlen, huri⟩ := splitUri_ok_iff.mp huri
    obtain ⟨sourcePubkey, hkey, h⟩ := bind_eq_ok_iff.mp h
    obtain ⟨hhex, hkey⟩ := parsePubkey_ok_iff.mp hkey
    rw [parseQuery_eq] at h
    dsimp only at h
    split at h
    · cases h
    next hversion =>
    obtain ⟨sessionSecret, hsecret, h⟩ := bind_eq_ok_iff.mp h
    obtain ⟨hsecret, hne⟩ := parseSecret_ok_iff.mp hsecret
    split at h
    · cases h
    next hrelays =>
    obtain ⟨_, hws, h⟩ := bind_eq_ok_iff.mp h
    cases h
    have hversion := not_not.mp hversion
    exact ⟨hlen, pubkeyHex, query, huri,
      ⟨hhex, hkey, hsecret, hne, rfl, by simpa using hrelays, checkRelays_ok_iff.mp hws⟩,
      hversion, hversion⟩
  · rintro ⟨hlen, pubkeyHex, query, huri, hcarries, hone, hversion⟩
    obtain ⟨version, sourcePubkey, sessionSecret, relays⟩ := payload
    obtain ⟨hhex, hkey, hsecret, hne, hrelays, hrelays_ne, hws⟩ := hcarries
    dsimp only at hone hrelays hrelays_ne hws
    refine bind_eq_ok_iff.mpr ⟨_, splitUri_ok_iff.mpr ⟨hlen, huri⟩, ?_⟩
    refine bind_eq_ok_iff.mpr ⟨sourcePubkey, parsePubkey_ok_iff.mpr ⟨hhex, hkey⟩, ?_⟩
    dsimp only
    rw [parseQuery_eq]
    dsimp only
    rw [hversion, if_neg (not_not.mpr rfl), ← hrelays, hone]
    refine bind_eq_ok_iff.mpr ⟨sessionSecret, parseSecret_ok_iff.mpr ⟨hsecret, hne⟩, ?_⟩
    rw [if_neg (by simpa using hrelays_ne)]
    exact bind_eq_ok_iff.mpr ⟨(), checkRelays_ok_iff.mpr hws, rfl⟩

/-! ### What is shown -/

theorem isLowerHex_digitChar {n : Nat} (h : n < 16) : isLowerHex (Nat.digitChar n) = true := by
  have hall : ∀ k : Fin 16, isLowerHex (Nat.digitChar k) = true := by decide
  exact hall ⟨n, h⟩

theorem isLowerHex_of_mem_hexOfBytes32 {b : Bytes32} {c : Char}
    (h : c ∈ (hexOfBytes32 b).toList) : isLowerHex c = true := by
  obtain ⟨n, hn, rfl⟩ := exists_digitChar_of_mem_hexEncode h
  exact isLowerHex_digitChar hn

theorem isHex64_hexOfBytes32 (b : Bytes32) : isHex64 (hexOfBytes32 b) = true := by
  have hascii : ∀ c ∈ (hexOfBytes32 b).toList, c.val ≤ 127 := by
    intro c hc
    obtain ⟨n, hn, rfl⟩ := exists_digitChar_of_mem_hexEncode hc
    have hall : ∀ k : Fin 16, (Nat.digitChar k).val ≤ 127 := by decide
    exact hall ⟨n, hn⟩
  have hlen : (hexOfBytes32 b).utf8ByteSize = 64 := by
    rw [utf8ByteSize_eq_length hascii, hexOfBytes32, hexEncode, String.toList_ofList,
      length_flatMap_hexByte]
    simp
  rw [isHex64, hlen, Bool.and_eq_true]
  exact ⟨rfl, all_eq_true.mpr fun c hc => isLowerHex_of_mem_hexOfBytes32 hc⟩

def shownPairs (payload : QrPayload Key) : List (String × String) :=
  ("secret", hexOfBytes32 payload.sessionSecret) ::
    (payload.relays.map fun relay => ("relay", percentEncode relay)) ++ [("v", "1")]

def pairText (pair : String × String) : String := pair.1 ++ "=" ++ pair.2

def shownQuery (payload : QrPayload Key) : String :=
  String.ofList (['&'].intercalate ((shownPairs payload).map fun pair => (pairText pair).toList))

theorem toList_foldl_relays (relays : List String) (uri : String) :
    (relays.foldl (fun uri relay => uri ++ "&relay=" ++ percentEncode relay) uri).toList =
      uri.toList ++ relays.flatMap fun relay =>
        '&' :: (pairText ("relay", percentEncode relay)).toList := by
  induction relays generalizing uri with
  | nil => simp
  | cons relay relays ih =>
    simp [ih, pairText]

theorem encodeQr_eq (payload : QrPayload Key) : encodeQr L payload =
    "nostrpair://" ++ L.toHex payload.sourcePubkey ++ "?" ++ shownQuery payload := by
  refine String.toList_inj.mp ?_
  rw [encodeQr, String.toList_append, toList_foldl_relays, String.toList_append (t := shownQuery _),
    shownQuery, String.toList_ofList, shownPairs, cons_append, map_cons,
    intercalate_cons_eq_flatMap]
  simp [pairText, flatMap_map]

theorem isUri_encodeQr (payload : QrPayload Key) :
    IsUri (encodeQr L payload) (L.toHex payload.sourcePubkey) (shownQuery payload) := by
  refine ⟨encodeQr_eq payload, fun h => ?_⟩
  exact absurd (isLowerHex_of_mem_hexOfBytes32 h) (by decide)

theorem notMem_of_mem_shownPairs {pair : String × String} (h : pair ∈ shownPairs payload) :
    '=' ∉ pair.1.toList ∧ '&' ∉ (pairText pair).toList := by
  have htext : ∀ {name value : String}, '&' ∉ name.toList → '&' ∉ value.toList →
      '&' ∉ (pairText (name, value)).toList := by
    intro name value hname hvalue
    simp [pairText, hname, hvalue]
  rcases mem_append.mp h with h | h
  · rcases mem_cons.mp h with rfl | h
    · refine ⟨by simp, htext (by decide) fun hmem => ?_⟩
      exact absurd (isLowerHex_of_mem_hexOfBytes32 hmem) (by decide)
    · obtain ⟨relay, -, rfl⟩ := mem_map.mp h
      refine ⟨by simp, htext (by decide) fun hmem => ?_⟩
      rcases mem_percentEncode hmem with h | h
      · exact absurd h (by decide)
      · exact absurd h (by decide)
  · obtain rfl := mem_singleton.mp h
    exact ⟨by decide, htext (by decide) (by decide)⟩

theorem values_intercalate {pairs : List (String × String)} (hne : pairs ≠ [])
    (h : ∀ pair ∈ pairs, '=' ∉ pair.1.toList ∧ '&' ∉ (pairText pair).toList) (name : String) :
    values name (String.ofList (['&'].intercalate (pairs.map fun pair => (pairText pair).toList))) =
      pairs.filterMap fun pair => if pair.1 = name then some pair.2 else none := by
  have hsplit : (['&'].intercalate (pairs.map fun pair => (pairText pair).toList)).splitOn '&' =
      pairs.map fun pair => (pairText pair).toList := by
    refine splitOn_intercalate '&' (fun l hl => ?_) (by simpa using hne)
    obtain ⟨pair, hpair, rfl⟩ := mem_map.mp hl
    exact (h pair hpair).2
  rw [values, String.toList_ofList, hsplit, map_map, filterMap_map]
  refine filterMap_congr fun pair hpair => ?_
  have honce : splitOnce '=' (pairText pair).toList = some (pair.1.toList, pair.2.toList) :=
    splitOnce_eq_some_iff.mpr ⟨(h pair hpair).1, by simp [pairText]⟩
  simp [honce]

theorem values_shownQuery (name : String) (payload : QrPayload Key) :
    values name (shownQuery payload) =
      (shownPairs payload).filterMap fun pair => if pair.1 = name then some pair.2 else none :=
  values_intercalate (by simp [shownPairs]) (fun _ hpair => notMem_of_mem_shownPairs hpair) name

theorem decodeQr_encodeQr (hL : ∀ k, L.fromHex (L.toHex k) = .ok k) (h : Readable L payload) :
    decodeQr L (encodeQr L payload) = .ok { payload with version := 1 } := by
  have hsecret : values "secret" (shownQuery payload) = [hexOfBytes32 payload.sessionSecret] := by
    simp [values_shownQuery, shownPairs]
  have hrelay : values "relay" (shownQuery payload) = payload.relays.map percentEncode := by
    simp [values_shownQuery, shownPairs]
  have hversion : values "v" (shownQuery payload) = ["1"] := by
    simp [values_shownQuery, shownPairs]
  have hone : parseU32 "1" = some 1 := by decide
  refine decodeQr_ok_iff.mpr ⟨h.length_le, _, _, isUri_encodeQr payload, ?_, rfl, ?_⟩
  · refine ⟨isHex64_hexOfBytes32 _, hL _, ⟨hexOfBytes32 payload.sessionSecret, ?_,
      isHex64_hexOfBytes32 _, hexDecode_hexEncode _⟩, h.sessionSecret_ne, ?_, h.relays_ne,
      h.isWebSocket⟩
    · rw [hsecret]
      rfl
    · simp [hrelay, Function.comp_def, percentDecode_percentEncode]
  · rw [hversion]
    simp [hone]

/-! ### Versions -/

theorem IsUri.unique {pubkeyHex' query query' : String} (hlen : uri.utf8ByteSize ≤ 2048)
    (h : IsUri uri pubkeyHex query) (h' : IsUri uri pubkeyHex' query') :
    pubkeyHex = pubkeyHex' ∧ query = query' := by
  have hsplit := splitUri_ok_iff.mpr ⟨hlen, h⟩
  rw [splitUri_ok_iff.mpr ⟨hlen, h'⟩] at hsplit
  obtain ⟨rfl, rfl⟩ := Prod.mk.inj (Except.ok.inj hsplit)
  exact ⟨rfl, rfl⟩

theorem strictlyDecoded_iff : StrictlyDecoded L uri ↔ Conclusive L uri := by
  constructor
  · intro h hlen pubkeyHex query payload huri hc
    by_cases hversion : ((values "v" query).getLast?.bind parseU32).getD 1 = 1
    · have hc' : Carries L pubkeyHex query { payload with version := 1 } :=
        ⟨hc.isHex64_pubkey, hc.sourcePubkey, hc.sessionSecret, hc.sessionSecret_ne, hc.relays,
          hc.relays_ne, hc.isWebSocket⟩
      obtain ⟨pubkeyHex', query', huri', -, hversioned, -⟩ := h { payload with version := 1 }
        (decodeQr_ok_iff.mpr ⟨hlen, pubkeyHex, query, huri, hc', rfl, hversion⟩)
      obtain ⟨rfl, rfl⟩ := huri.unique hlen huri'
      exact Or.inl hversioned
    · cases hlast : (values "v" query).getLast?.bind parseU32 with
      | none =>
        rw [hlast] at hversion
        exact absurd rfl hversion
      | some n =>
        rw [hlast] at hversion
        exact Or.inr ⟨n, hversion, rfl⟩
  · intro h payload hdecode
    obtain ⟨hlen, pubkeyHex, query, huri, hc, hone, hversion⟩ := decodeQr_ok_iff.mp hdecode
    refine ⟨pubkeyHex, query, huri, hc, ?_, hone⟩
    rcases h hlen pubkeyHex query payload huri hc with hversioned | ⟨n, hn, hlast⟩
    · exact hversioned
    · rw [hlast] at hversion
      exact absurd hversion hn

/-! ### A library -/

/-- Keys that are their bytes, and URLs that are only read up to their scheme. -/
def sampleLibrary : QrLibrary Bytes32 where
  toBytes := id
  fromHex s :=
    match bytes32FromHex s with
    | some k => .ok k
    | none => .error "invalid public key"
  parseUrl s :=
    if startsWith s "wss://" then .ok ⟨"wss", true⟩
    else .error "relative URL without a base"
  hexError _ := "Odd number of digits"
  debug s := "\"" ++ s ++ "\""

theorem sampleLibrary_fromHex (k : Bytes32) :
    sampleLibrary.fromHex (sampleLibrary.toHex k) = .ok k := by
  show (match bytes32FromHex (hexOfBytes32 k) with
    | some k => Except.ok k
    | none => .error "invalid public key") = .ok k
  rw [bytes32FromHex_hexOfBytes32]

/-! ### Main result -/

/-- **The codec.** What is shown is read back if it has the only version there is, and no other
version is accepted exactly when the versions of a URI are conclusive. -/
theorem qr_codec (hL : ∀ k, L.fromHex (L.toHex k) = .ok k) :
    (∀ payload, Readable L payload →
      (decodeQr L (encodeQr L payload) = .ok payload ↔ payload.version = 1)) ∧
    ∀ uri, StrictlyDecoded L uri ↔ Conclusive L uri := by
  refine ⟨fun payload h => ?_, fun uri => strictlyDecoded_iff⟩
  rw [decodeQr_encodeQr hL h, Except.ok.injEq]
  constructor
  · intro heq
    exact (congrArg QrPayload.version heq).symm
  · intro hone
    obtain ⟨version, sourcePubkey, sessionSecret, relays⟩ := payload
    obtain rfl := hone
    rfl

/-- A payload with the secret of all ones. -/
def samplePayload : QrPayload Bytes32 where
  version := 1
  sourcePubkey := .replicate 32 2
  sessionSecret := .replicate 32 1
  relays := ["wss://relay.example.com/?a=b&c=d%20#e"]

theorem qr_codec_sample :
    decodeQr sampleLibrary (encodeQr sampleLibrary samplePayload) = .ok samplePayload := by
  have hreadable : Readable sampleLibrary samplePayload := by
    refine ⟨by decide, by decide, fun relay hrelay => ?_, by decide +kernel⟩
    obtain rfl := mem_singleton.mp hrelay
    exact ⟨⟨"wss", true⟩, by rfl, Or.inl rfl, rfl⟩
  exact ((qr_codec sampleLibrary_fromHex).1 samplePayload hreadable).mpr rfl

/-! ### A version that is too large -/

/-- A URI whose version does not fit thirty-two bits. -/
def overflowUri : String :=
  "nostrpair://79be667ef9dcbbac55a06295ce870b07029bfcdb2dce28d959f2815b16f81798" ++
    "?secret=abababababababababababababababababababababababababababababababab" ++
    "&relay=wss%3A%2F%2Frelay%2Eexample%2Ecom&v=99999999999"

def overflowKey : String := "79be667ef9dcbbac55a06295ce870b07029bfcdb2dce28d959f2815b16f81798"

def overflowSecret : String := "abababababababababababababababababababababababababababababababab"

def overflowPairs : List (String × String) :=
  [("secret", overflowSecret), ("relay", "wss%3A%2F%2Frelay%2Eexample%2Ecom"), ("v", "99999999999")]

def overflowQuery : String :=
  String.ofList (['&'].intercalate (overflowPairs.map fun pair => (pairText pair).toList))

theorem isUri_overflowUri : IsUri overflowUri overflowKey overflowQuery := by
  -- literals are joined as lists of characters, which is fast to check
  have hkey : "nostrpair://" ++ overflowKey =
      "nostrpair://79be667ef9dcbbac55a06295ce870b07029bfcdb2dce28d959f2815b16f81798" :=
    String.ofList_append.symm
  have hsecret : "?secret=" ++ overflowSecret =
      "?secret=abababababababababababababababababababababababababababababababab" :=
    String.ofList_append.symm
  have hquery : "?" ++ overflowQuery =
      "?secret=" ++ overflowSecret ++ "&relay=wss%3A%2F%2Frelay%2Eexample%2Ecom&v=99999999999" := by
    refine String.toList_inj.mp ?_
    simp [overflowQuery, overflowPairs, pairText]
  refine ⟨?_, by decide +kernel⟩
  rw [String.append_assoc, hquery, hkey, hsecret]
  exact String.append_assoc

theorem values_overflowQuery (name : String) : values name overflowQuery =
    overflowPairs.filterMap fun pair => if pair.1 = name then some pair.2 else none := by
  refine values_intercalate (by simp [overflowPairs]) (fun pair hpair => ?_) name
  have hall : overflowPairs.all (fun pair =>
      !pair.1.toList.contains '=' && !(pairText pair).toList.contains '&') = true := by
    decide +kernel
  simpa using all_eq_true.mp hall pair hpair

/-- It is accepted. -/
theorem not_strictlyDecoded_overflowUri :
    (∃ payload, decodeQr sampleLibrary overflowUri = .ok payload) ∧
      ¬ StrictlyDecoded sampleLibrary overflowUri := by
  have hkey : (bytes32FromHex overflowKey).isSome = true := by decide +kernel
  obtain ⟨k, hk⟩ := Option.isSome_iff_exists.mp hkey
  have hcarries : Carries sampleLibrary overflowKey overflowQuery
      ⟨1, k, .replicate 32 0xab, ["wss://relay.example.com"]⟩ := by
    have hbytes : hexDecode overflowSecret = some (Vector.toList (.replicate 32 0xab)) := by
      decide +kernel
    have hne : (Vector.replicate 32 0xab : Bytes32) ≠ .replicate 32 0 := by decide
    refine ⟨by decide +kernel, ?_, ⟨overflowSecret, ?_, by decide +kernel, hbytes⟩, hne, ?_,
      by simp, fun relay hrelay => ?_⟩
    · simp [sampleLibrary, hk]
    · rw [values_overflowQuery]
      simp [overflowPairs]
    · have hdecode : percentDecode "wss%3A%2F%2Frelay%2Eexample%2Ecom" = "wss://relay.example.com" := by
        decide +kernel
      rw [values_overflowQuery]
      simp [overflowPairs, hdecode]
    · obtain rfl := mem_singleton.mp hrelay
      exact ⟨⟨"wss", true⟩, by rfl, Or.inl rfl, rfl⟩
  have hversion : values "v" overflowQuery = ["99999999999"] := by
    rw [values_overflowQuery]
    simp [overflowPairs]
  have hnone : parseU32 "99999999999" = none := by decide
  have hlen : overflowUri.utf8ByteSize ≤ 2048 := by decide +kernel
  have hdecode := decodeQr_ok_iff.mpr
    ⟨hlen, _, _, isUri_overflowUri, hcarries, rfl, by simp [hversion, hnone]⟩
  refine ⟨⟨_, hdecode⟩, fun h => ?_⟩
  obtain ⟨pubkeyHex, query, huri, -, hversioned, -⟩ := h _ hdecode
  obtain ⟨rfl, rfl⟩ := isUri_overflowUri.unique hlen huri
  have hone := hversioned "99999999999" (by simp [hversion])
  rw [hnone] at hone
  cases hone

end Buzz.Pairing
