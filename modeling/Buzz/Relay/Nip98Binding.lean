import Buzz.Lib.Base64
import Buzz.Lib.UrlText
import Buzz.Relay.Evm.Host
import Buzz.Relay.Nip98Replay

/-!
# What a signed request is bound to

A handler accepts a signed event for one request: the event states the URL, the method and the hash
of the body. The URL that the handler expects is made of the host of the tenant and the path of the
request, and URLs are compared as they are written without slashes at the end of the path, or in
lower case where they are none.

A handler may demand that the event covers the body. That there is a tag for the payload is one test,
and that its value is the hash is another one, which is left out where the first such tag has no
value. Such an event is accepted with every body.

`Url::parse` is a parameter, with what its documentation says of the texts it reads.
-/

namespace Buzz.Nip98

open Option

/-! ### The check of a request -/

/-- The headers, as far as they are read: the first value of each. -/
structure Headers where
  authorization : Option (List UInt8)
  xPubkey : Option (List UInt8)

/-- `HeaderValue::to_str`: visible characters of ASCII, and tabs. -/
def toStr (value : List UInt8) : Option String :=
  if value.all fun b => (32 ≤ b && b < 127) || b == 9 then ofUtf8 value else none

/-- What follows the scheme in the header for a signed event. -/
def nostrToken (headers : Headers) : Option String :=
  (headers.authorization.bind toStr).bind fun s => stripPrefix s "Nostr "

def decodeEvent (authStr : String) : Except ApiError String := do
  let bytes ← (base64Decode authStr.toList).elim
    (.error ⟨401, "invalid base64 in Nostr auth"⟩) .ok
  (ofUtf8 bytes).elim (.error ⟨401, "invalid UTF-8 in Nostr auth"⟩) .ok

def verifyBridgeAuthWithOptions (L : Libraries) (fromHex : String → Option PublicKey) (now : Nat)
    (headers : Headers) (method url : String) (body : Option (List UInt8))
    (requireAuthToken requirePayload : Bool) : Except ApiError (PublicKey × EventId) :=
  match nostrToken headers with
  | some authStr => do
    let eventJson ← decodeEvent authStr
    -- the community is that of the second step
    verifyBridgeAuth L now ⟨0, eventJson, url, method, body, requirePayload⟩
  | none =>
    if requireAuthToken then .error ⟨401, "missing Nostr auth"⟩
    else
      match headers.xPubkey.bind toStr with
      | none => .error ⟨401, "missing Nostr auth"⟩
      | some hexVal =>
        match fromHex hexVal with
        | none => .error ⟨401, "invalid X-Pubkey hex"⟩
        | some pubkey => .ok (pubkey, 0)

structure TenantContext where
  community : CommunityId
  host : String

def trimStart (s : String) : String := String.ofList (s.toList.dropWhile isWhitespace)

/-- The scheme of the URLs of a deployment. -/
def urlScheme (configRelayUrl : String) : String :=
  if startsWith (trimStart configRelayUrl) "wss://" then "https" else "http"

def nip98ExpectedUrl (configRelayUrl : String) (tenant : TenantContext) (path : String) : String :=
  urlScheme configRelayUrl ++ "://" ++ tenant.host ++ path

/-! ### URLs -/

/-- A host as it is stored: it is normalized, and is what a URL with it has as host and port. -/
def Canonical (parse : String → Option Url) (host : String) : Prop :=
  Evm.normalizeHost host = host ∧
    ∃ u, parse ("http://" ++ host ++ "/") = some u ∧ u.hostPort = host.toList

/-- What is relied on of `Url::parse`, and of `to_lowercase`. -/
structure UrlLaws (L : Libraries) (parse : String → Option Url) : Prop where
  parseUrl {s : String} : parse s = none → L.parseUrl s = none
  /-- A URL of the web is written with the path that is set. -/
  setPath {s : String} {u : Url} : parse s = some u → u.IsWeb →
    normalizeUrl L s = u.normalized.serialize
  /-- Setting the path of a URL, of any kind, leaves its scheme. -/
  scheme {s : String} {u : Url} : parse s = some u →
    ∃ rest, normalizeUrl L s = String.ofList (u.scheme ++ ':' :: rest)
  wellFormed {s : String} {u : Url} : parse s = some u → u.WellFormed
  readBack {s : String} {u : Url} : parse s = some u → u.IsWeb →
    parse u.normalized.serialize = some u.normalized
  /-- The case of letters does not matter to whether a text is a URL of the web. -/
  anyCase {s : String} {u : Url} : parse (L.toLowercase s) = some u → u.IsWeb → (parse s).isSome
  authority {scheme host path : String} : scheme = "http" ∨ scheme = "https" →
    Canonical parse host → path.toList.head? = some '/' →
      ∃ u, parse (scheme ++ "://" ++ host ++ path) = some u ∧ u.scheme = scheme.toList ∧
        u.userinfo = none ∧ u.hostPort = host.toList

/-- The same scheme, host, port and query, and the same path up to slashes at its end. -/
def SameUpToSlashes (u v : Url) : Prop :=
  u.scheme = v.scheme ∧ u.userinfo = v.userinfo ∧ u.host = v.host ∧ u.port = v.port ∧
    trimSlashes u.path = trimSlashes v.path ∧ u.query = v.query

/-! ### What is checked -/

/-- Every check but that of the payload. -/
structure PassesOther (L : Libraries) (now : Nat) (event : Event) (url method : String) : Prop where
  kind : event.kind = httpAuth
  signature : L.verifyEvent event = true
  fresh : absDiff now event.createdAt.toNat ≤ timestampToleranceSecs
  url : ∃ text, tagContent event "u" = some text ∧ normalizeUrl L text = normalizeUrl L url
  method : ∃ text, tagContent event "method" = some text ∧ eqIgnoreAsciiCase text method = true

/-- The first tag for the payload has no value. -/
def NoPayloadValue (event : Event) : Prop :=
  ∃ t, (event.tags.find? fun t => t.kind == "payload") = some t ∧ t.content = none

def signedEvent (L : Libraries) (headers : Headers) : Option Event :=
  (nostrToken headers).bind fun authStr =>
    match decodeEvent authStr with
    | .error _ => none
    | .ok eventJson => (L.fromStr eventJson).toOption

/-- The event is for this request: it states the hash of the body, the method, and a URL with the
scheme, host and port of the tenant and the path and query of the request. -/
structure Bound (L : Libraries) (parse : String → Option Url) (configRelayUrl : String)
    (tenant : TenantContext) (path method : String) (body : List UInt8) (event : Event) : Prop where
  payload : tagContent event "payload" = some (hexEncode (L.sha256 body))
  method : ∃ text, tagContent event "method" = some text ∧ eqIgnoreAsciiCase text method = true
  url : ∃ text u request, tagContent event "u" = some text ∧ parse text = some u ∧
    parse (nip98ExpectedUrl configRelayUrl tenant path) = some request ∧
      SameUpToSlashes u request ∧ request.scheme = (urlScheme configRelayUrl).toList ∧
        request.userinfo = none ∧ request.hostPort = tenant.host.toList

variable {L : Libraries} {parse : String → Option Url} {now : Nat} {headers : Headers}
  {event : Event} {url method path : String} {body : List UInt8} {u v : Url}

theorem orError_eq_ok_iff {ε α : Type} {x : Option α} {e : ε} {a : α} :
    x.elim (.error e) Except.ok = .ok a ↔ x = some a := by
  cases x <;> simp

/-- **What is checked** of an event. -/
theorem verifyNip98Event_eq_ok_iff {eventJson : String} {body : Option (List UInt8)}
    {pubkey : PublicKey} : verifyNip98Event L now eventJson url method body = .ok pubkey ↔
      ∃ event, L.fromStr eventJson = .ok event ∧ PassesOther L now event url method ∧
        payloadMatches L event body = true ∧ event.pubkey = pubkey := by
  simp only [verifyNip98Event, bind_eq_ok_iff, mapError_ok_iff, ensure_eq_ok, orError_eq_ok_iff,
    beq_iff_eq, decide_eq_true_eq, exists_and_left, exists_const]
  constructor
  · rintro ⟨event, hevent, hkind, hsig, hfresh, uTag, hu, hurl, m, hm, hmethod, hpayload, hpk⟩
    exact ⟨event, hevent, ⟨hkind, hsig, hfresh, ⟨uTag, hu, hurl⟩, ⟨m, hm, hmethod⟩⟩, hpayload,
      Except.ok.inj hpk⟩
  · rintro ⟨event, hevent, ⟨hkind, hsig, hfresh, ⟨uTag, hu, hurl⟩, ⟨m, hm, hmethod⟩⟩, hpayload, rfl⟩
    exact ⟨event, hevent, hkind, hsig, hfresh, uTag, hu, hurl, m, hm, hmethod, hpayload, rfl⟩

/-- The request is accepted because of a signed event that covers the body. -/
def Accepts (L : Libraries) (fromHex : String → Option PublicKey) (now : Nat) (headers : Headers)
    (method url : String) (body : List UInt8) (requireAuthToken : Bool) : Prop :=
  (nostrToken headers).isSome ∧
    ∃ answer, verifyBridgeAuthWithOptions L fromHex now headers method url (some body)
      requireAuthToken true = .ok answer

/-- **What is accepted**: an event with a tag for the payload, which passes all checks. -/
theorem accepts_iff {fromHex : String → Option PublicKey} {requireAuthToken : Bool} :
    Accepts L fromHex now headers method url body requireAuthToken ↔
      ∃ event, signedEvent L headers = some event ∧ PassesOther L now event url method ∧
        (event.tags.any fun t => t.kind == "payload") = true ∧
          payloadMatches L event (some body) = true := by
  rw [Accepts, signedEvent, verifyBridgeAuthWithOptions]
  cases htoken : nostrToken headers with
  | none => simp
  | some authStr =>
    simp only [isSome_some, true_and, bind_some, bind_eq_ok_iff]
    cases hdecode : decodeEvent authStr with
    | error e => simp
    | ok eventJson =>
      simp only [Except.ok.injEq, exists_eq_left', verifyBridgeAuth, bind_eq_ok_iff,
        mapError_ok_iff, ensure_eq_ok, verifyNip98Event_eq_ok_iff, Bool.not_true, Bool.false_or]
      cases hevent : L.fromStr eventJson with
      | error e => simp [Except.toOption]
      | ok event =>
        simp only [Except.ok.injEq, exists_eq_left', Except.toOption, some.injEq]
        constructor
        · rintro ⟨answer, -, hany, pubkey, ⟨hother, hpayload, -⟩, -⟩
          exact ⟨hother, hany, hpayload⟩
        · rintro ⟨hother, hany, hpayload⟩
          exact ⟨_, (), hany, _, ⟨hother, hpayload, rfl⟩, rfl⟩

theorem payloadMatches_some_iff (h : (event.tags.any fun t => t.kind == "payload") = true) :
    payloadMatches L event (some body) = true ↔
      tagContent event "payload" = some (hexEncode (L.sha256 body)) ∨ NoPayloadValue event := by
  have hfind : (event.tags.find? fun t => t.kind == "payload").isSome = true := by
    rw [List.find?_isSome]
    exact List.any_eq_true.mp h
  obtain ⟨first, hfirst⟩ := isSome_iff_exists.mp hfind
  have hcontent : tagContent event "payload" = first.content := by
    simp [tagContent, hfirst]
  have hvalue : NoPayloadValue event ↔ first.content = none := by
    constructor
    · rintro ⟨t', ht', hnone⟩
      cases hfirst.symm.trans ht'
      exact hnone
    · exact fun hnone => ⟨first, hfirst, hnone⟩
  rw [hvalue, hcontent]
  cases hvalue' : first.content with
  | none => simp [payloadMatches, hcontent, hvalue']
  | some value =>
    simpa [payloadMatches, hcontent, hvalue', some.injEq, reduceCtorEq,
      or_false] using eq_comm

theorem NoPayloadValue.any (h : NoPayloadValue event) :
    (event.tags.any fun t => t.kind == "payload") = true := by
  obtain ⟨t, hfind, -⟩ := h
  rw [List.any_eq_true]
  refine ⟨t, List.mem_of_find?_eq_some hfind, ?_⟩
  have hkind := List.find?_some hfind
  exact hkind

/-! ### URLs that compare equal -/

/-- **What compares equal to a URL of the web** is one, and has the same components up to slashes at
the end of its path. -/
theorem exists_url_of_normalizeUrl_eq (laws : UrlLaws L parse) {text expected : String}
    {request : Url} (hrequest : parse expected = some request) (hweb : request.IsWeb)
    (h : normalizeUrl L text = normalizeUrl L expected) :
    ∃ u, parse text = some u ∧ SameUpToSlashes u request := by
  rw [laws.setPath hrequest hweb] at h
  cases htext : parse text with
  | none =>
    -- what is a URL in lower case is one
    rw [normalizeUrl, laws.parseUrl htext] at h
    have hlower : parse (L.toLowercase text) = some request.normalized :=
      (congrArg parse h).trans (laws.readBack hrequest hweb)
    have hsome := laws.anyCase hlower (Url.isWeb_setPath.mpr hweb)
    rw [htext] at hsome
    cases hsome
  | some u =>
    have hu := laws.wellFormed htext
    have hr := laws.wellFormed hrequest
    obtain ⟨rest, hrest⟩ := laws.scheme htext
    have hscheme := (append_cons_inj_left hu.scheme hr.scheme
      (String.ofList_injective (hrest.symm.trans h))).1
    have hweb' : u.IsWeb := by rwa [Url.IsWeb, hscheme]
    rw [laws.setPath htext hweb'] at h
    have heq := Url.serialize_inj hr.normalized hu.normalized (Url.isWeb_setPath.mpr hweb) h.symm
    obtain ⟨hscheme, huser, hhost, hport, hpath, hquery, -⟩ := Url.of_normalized_eq hr hu hweb heq
    exact ⟨u, rfl, hscheme.symm, huser.symm, hhost.symm, hport.symm, hpath.symm, hquery.symm⟩

section

variable {configRelayUrl : String} {tenant : TenantContext}

theorem urlScheme_cases (configRelayUrl : String) :
    urlScheme configRelayUrl = "http" ∨ urlScheme configRelayUrl = "https" := by
  rw [urlScheme]
  split
  · exact .inr rfl
  · exact .inl rfl

/-- **An event with the hash of the body** that passes the other checks is for the request. -/
theorem bound_of_passesOther (laws : UrlLaws L parse) (htenant : Canonical parse tenant.host)
    (hpath : path.toList.head? = some '/')
    (hother : PassesOther L now event (nip98ExpectedUrl configRelayUrl tenant path) method)
    (hpayload : tagContent event "payload" = some (hexEncode (L.sha256 body))) :
    Bound L parse configRelayUrl tenant path method body event := by
  obtain ⟨request, hrequest, hscheme, huser, hhost⟩ :=
    laws.authority (urlScheme_cases configRelayUrl) htenant hpath
  have hweb : request.IsWeb := by
    rw [Url.IsWeb, hscheme]
    exact (urlScheme_cases configRelayUrl).imp (congrArg String.toList) (congrArg String.toList)
  obtain ⟨text, htext, hurl⟩ := hother.url
  obtain ⟨u, hu, hsame⟩ := exists_url_of_normalizeUrl_eq laws hrequest hweb hurl
  exact ⟨hpayload, hother.method, text, u, request, htext, hu, hrequest, hsame, hscheme, huser, hhost⟩

variable {configRelayUrl' path' method' : String} {tenant' : TenantContext} {body' : List UInt8}

/-- **An event is for one request**: where it is for two, these have the same host, the same body,
methods that differ in case at most, and URLs that differ in slashes at most. -/
theorem Bound.same (h : Bound L parse configRelayUrl tenant path method body event)
    (h' : Bound L parse configRelayUrl' tenant' path' method' body' event)
    (hfree : CollisionFree L.sha256 [body, body']) :
    tenant.host = tenant'.host ∧ body = body' ∧ eqIgnoreAsciiCase method method' = true ∧
      ∃ request request', parse (nip98ExpectedUrl configRelayUrl tenant path) = some request ∧
        parse (nip98ExpectedUrl configRelayUrl' tenant' path') = some request' ∧
          SameUpToSlashes request request' := by
  obtain ⟨m, hm, hmethod⟩ := h.method
  obtain ⟨m', hm', hmethod'⟩ := h'.method
  obtain ⟨text, u, request, htext, hu, hrequest, hsame, -, -, hhost⟩ := h.url
  obtain ⟨text', u', request', htext', hu', hrequest', hsame', -, -, hhost'⟩ := h'.url
  cases hm.symm.trans hm'
  cases htext.symm.trans htext'
  cases hu.symm.trans hu'
  have hreq : SameUpToSlashes request request' := by
    obtain ⟨h₁, h₂, h₃, h₄, h₅, h₆⟩ := hsame
    obtain ⟨h₁', h₂', h₃', h₄', h₅', h₆'⟩ := hsame'
    exact ⟨h₁.symm.trans h₁', h₂.symm.trans h₂', h₃.symm.trans h₃', h₄.symm.trans h₄',
      h₅.symm.trans h₅', h₆.symm.trans h₆'⟩
  refine ⟨?_, ?_, ?_, request, request', hrequest, hrequest', hreq⟩
  · refine String.toList_inj.mp ?_
    rw [← hhost, ← hhost', Url.hostPort, Url.hostPort, hreq.2.2.1, hreq.2.2.2.1]
  · have hhash := hexEncode_injective (some.inj (h.payload.symm.trans h'.payload))
    exact hfree body (by simp) body' (by simp) hhash
  · simp only [eqIgnoreAsciiCase, beq_iff_eq] at hmethod hmethod' ⊢
    exact hmethod.symm.trans hmethod'

/-- **Events are bound to their requests**, unless an event passes all other checks and the first of
its tags for the payload has no value. And where an event is bound to a request, it is accepted for
no request with another host, another body, another method or another URL. -/
theorem nip98_binding (laws : UrlLaws L parse) (fromHex : String → Option PublicKey) (now : Nat)
    (headers : Headers) (configRelayUrl : String) (tenant : TenantContext)
    (htenant : Canonical parse tenant.host) (path method : String)
    (hpath : path.toList.head? = some '/') (body : List UInt8) (requireAuthToken : Bool) :
    ((Accepts L fromHex now headers method (nip98ExpectedUrl configRelayUrl tenant path) body
          requireAuthToken →
        ∃ event, signedEvent L headers = some event ∧
          Bound L parse configRelayUrl tenant path method body event) ↔
      ¬∃ event, signedEvent L headers = some event ∧ NoPayloadValue event ∧
        PassesOther L now event (nip98ExpectedUrl configRelayUrl tenant path) method) ∧
    ∀ event, signedEvent L headers = some event →
      Bound L parse configRelayUrl tenant path method body event →
      ∀ (now' : Nat) (tenant' : TenantContext) (path' method' : String) (body' : List UInt8),
        Canonical parse tenant'.host → path'.toList.head? = some '/' →
        CollisionFree L.sha256 [body, body'] →
        Accepts L fromHex now' headers method' (nip98ExpectedUrl configRelayUrl tenant' path') body'
          requireAuthToken →
        tenant.host = tenant'.host ∧ body = body' ∧ eqIgnoreAsciiCase method method' = true ∧
          ∃ request request', parse (nip98ExpectedUrl configRelayUrl tenant path) = some request ∧
            parse (nip98ExpectedUrl configRelayUrl tenant' path') = some request' ∧
              SameUpToSlashes request request' := by
  refine ⟨⟨?_, ?_⟩, ?_⟩
  · rintro himp ⟨event, hevent, hnone, hother⟩
    obtain ⟨event', hevent', hbound⟩ := himp (accepts_iff.mpr
      ⟨event, hevent, hother, hnone.any, (payloadMatches_some_iff hnone.any).mpr (.inr hnone)⟩)
    cases hevent.symm.trans hevent'
    obtain ⟨t, hfind, hcontent⟩ := hnone
    have hpayload := hbound.payload
    rw [tagContent, hfind, bind_some, hcontent] at hpayload
    nomatch hpayload
  · intro hnot haccepts
    obtain ⟨event, hevent, hother, hany, hmatches⟩ := accepts_iff.mp haccepts
    rcases (payloadMatches_some_iff hany).mp hmatches with hpayload | hnone
    · exact ⟨event, hevent, bound_of_passesOther laws htenant hpath hother hpayload⟩
    · exact absurd ⟨event, hevent, hnone, hother⟩ hnot
  · intro event hevent hbound now' tenant' path' method' body' htenant' hpath' hfree haccepts
    obtain ⟨event', hevent', hother, hany, hmatches⟩ := accepts_iff.mp haccepts
    cases hevent.symm.trans hevent'
    rcases (payloadMatches_some_iff hany).mp hmatches with hpayload | ⟨t, hfind, hcontent⟩
    · exact hbound.same (bound_of_passesOther laws htenant' hpath' hother hpayload) hfree
    · have hpayload := hbound.payload
      rw [tagContent, hfind, bind_some, hcontent] at hpayload
      nomatch hpayload

end

/-! ### An event that is accepted with every body -/

/-- A host that is read: `relay.example`. -/
def exampleHost : List Char := "relay.example".toList

def exampleBase (scheme : String) : Url :=
  ⟨scheme.toList, none, some exampleHost, none, [], none, none⟩

/-- `Url::parse`, as it is on URLs of this host. -/
def exampleParse (s : String) : Option Url :=
  let scheme := if startsWith s "https" then "https" else "http"
  ((stripPrefix s (scheme ++ "://" ++ "relay.example")).filter fun rest =>
    rest.toList.head? == some '/').map fun rest => (exampleBase scheme).ofTail rest.toList

/-- The payload of an event, by the tag's value. -/
def exampleEvent (payload : Option String) : Event :=
  ⟨5, 6, 1000, 27235, [⟨"u", some "https://relay.example/api/invites/"⟩, ⟨"method", some "post"⟩,
    ⟨"payload", payload⟩]⟩

def emptyDigest : String := "e3b0c44298fc1c149afbf4c8996fb92427ae41e4649b934ca495991b7852b855"

/-- What `normalize_url` reads and writes of a URL. -/
def parsedUrl (u : Url) : ParsedUrl :=
  ⟨String.ofList u.path, fun path => (u.setPath path.toList).serialize⟩

/-- The libraries, as they are on these inputs. -/
def exampleLibraries (payload : Option String) : Libraries where
  fromStr _ := .ok (exampleEvent payload)
  verifyEvent _ := true
  parseUrl s := (exampleParse s).map parsedUrl
  toLowercase s := s
  sha256 bs := if bs = [] then (hexDecode emptyDigest).getD [] else 0 :: bs

/-- `Nostr e30=`: the text of the event is two braces. -/
def exampleHeaders : Headers := ⟨some (utf8 "Nostr e30="), none⟩

def exampleTenant : TenantContext := ⟨1, "relay.example"⟩

theorem exampleParse_append {scheme rest : String} (hscheme : scheme = "http" ∨ scheme = "https")
    (hrest : rest.toList.head? = some '/') :
    exampleParse (scheme ++ "://" ++ "relay.example" ++ rest) =
      some ((exampleBase scheme).ofTail rest.toList) := by
  have hread : (if startsWith (scheme ++ "://" ++ "relay.example" ++ rest) "https" then "https"
      else "http") = scheme := by
    rcases hscheme with rfl | rfl <;> simp [startsWith, List.isPrefixOf]
  simp [exampleParse, hread, stripPrefix_append, hrest]

theorem of_exampleParse {s : String} {u : Url} (h : exampleParse s = some u) :
    ∃ scheme rest : String, (scheme = "http" ∨ scheme = "https") ∧
      s = scheme ++ "://" ++ "relay.example" ++ rest ∧ rest.toList.head? = some '/' ∧
        u = (exampleBase scheme).ofTail rest.toList := by
  rw [exampleParse] at h
  obtain ⟨rest, hrest, rfl⟩ := map_eq_some_iff.mp h
  obtain ⟨hstrip, hhead⟩ := filter_eq_some_iff.mp hrest
  refine ⟨_, rest, ?_, stripPrefix_eq_some_iff.mp hstrip, beq_iff_eq.mp hhead, rfl⟩
  split
  · exact .inr rfl
  · exact .inl rfl

theorem wellFormed_example {scheme : String} {rest : List Char}
    (hscheme : scheme = "http" ∨ scheme = "https") (hrest : rest.head? = some '/') :
    ((exampleBase scheme).ofTail rest).WellFormed := by
  obtain ⟨hpath, hquery⟩ := Url.not_mem_ofTail (exampleBase scheme) rest
  have hauthority : '/' ∉ (exampleBase scheme).authority ∧ ':' ∉ scheme.toList := by
    rcases hscheme with rfl | rfl <;> decide
  refine ⟨hauthority.2, hauthority.1, fun _ h => (nomatch h), ?_, ?_, hpath, hquery, ?_⟩
  · rintro host ⟨⟩
    decide
  · rintro host ⟨⟩ hcolon
    exact absurd hcolon (by decide)
  · exact fun _ => ⟨rfl, Url.head?_ofTail hrest _⟩

theorem serialize_example {u : Url} (scheme : String) (hscheme : u.scheme = scheme.toList)
    (huser : u.userinfo = none) (hhost : u.host = some exampleHost) (hport : u.port = none) :
    u.serialize = scheme ++ "://" ++ "relay.example" ++ String.ofList u.tail := by
  have hauthority : u.authority = "relay.example".toList := by
    rw [Url.authority, Url.hostPort, huser, hhost, hport]
    decide
  have hmark : "://".toList = [':', '/', '/'] := by decide
  refine String.toList_inj.mp ?_
  simp [Url.serialize, hhost, hauthority, hscheme, String.toList_append, String.toList_ofList,
    hmark]

theorem normalizeUrl_example {payload : Option String} {s : String} {u : Url}
    (h : exampleParse s = some u) :
    normalizeUrl (exampleLibraries payload) s = u.normalized.serialize := by
  simp [normalizeUrl, exampleLibraries, h, parsedUrl, Url.normalized, trimSlashes]

theorem urlLaws_example (payload : Option String) :
    UrlLaws (exampleLibraries payload) exampleParse where
  parseUrl h := congrArg (Option.map parsedUrl) h
  setPath h _ := normalizeUrl_example h
  scheme h := ⟨_, (normalizeUrl_example h).trans rfl⟩
  wellFormed h := by
    obtain ⟨scheme, rest, hscheme, -, hrest, rfl⟩ := of_exampleParse h
    exact wellFormed_example hscheme hrest
  readBack := by
    intro s u h hweb
    obtain ⟨scheme, rest, hscheme, -, hrest, rfl⟩ := of_exampleParse h
    have hwell := (wellFormed_example hscheme hrest).normalized
    have hback := Url.ofTail_tail hwell
    obtain ⟨text, htail⟩ := hwell.exists_tail hweb
    have htext : (String.ofList
        ((exampleBase scheme).ofTail rest.toList).normalized.tail).toList.head? = some '/' := by
      rw [String.toList_ofList, htail]
      rfl
    rw [serialize_example scheme rfl rfl rfl rfl, exampleParse_append hscheme htext,
      String.toList_ofList]
    exact congrArg some hback
  anyCase h _ := isSome_of_eq_some h
  authority := by
    rintro scheme host path hscheme ⟨-, u, hu, hhost⟩ hpath
    obtain ⟨scheme', rest, hscheme', -, -, rfl⟩ := of_exampleParse hu
    obtain rfl : host = "relay.example" := by
      refine String.toList_inj.mp ?_
      rw [← hhost]
      rfl
    exact ⟨_, exampleParse_append hscheme hpath, rfl, rfl, rfl⟩

theorem canonical_example : Canonical exampleParse exampleTenant.host := by
  have hread := exampleParse_append (.inl rfl : "http" = "http" ∨ _) (rfl : "/".toList.head? = _)
  have htext : "http" ++ "://" ++ "relay.example" ++ "/" =
      "http://" ++ exampleTenant.host ++ "/" := by decide
  rw [htext] at hread
  exact ⟨by decide +kernel, _, hread, rfl⟩

theorem passesOther_example (payload : Option String) :
    PassesOther (exampleLibraries payload) 1000 (exampleEvent payload)
      (nip98ExpectedUrl "wss://relay.example" exampleTenant "/api/invites") "POST" where
  kind := rfl
  signature := rfl
  fresh := by
    show absDiff 1000 1000 ≤ timestampToleranceSecs
    decide
  url := by
    have hsame : ∀ s, normalizeUrl (exampleLibraries payload) s =
        normalizeUrl (exampleLibraries none) s := by
      intro s
      rw [normalizeUrl, normalizeUrl]
      rfl
    refine ⟨_, rfl, ?_⟩
    rw [hsame, hsame]
    decide +kernel
  method := ⟨_, rfl, by decide +kernel⟩

theorem signedEvent_example (payload : Option String) :
    signedEvent (exampleLibraries payload) exampleHeaders = some (exampleEvent payload) := by
  have htoken : nostrToken exampleHeaders = some "e30=" := by decide +kernel
  have hdecode : decodeEvent "e30=" = .ok "\x7b\x7d" := by decide +kernel
  rw [signedEvent, htoken, bind_some, hdecode]
  rfl

/-- An invite with an empty body, for which the event has the hash. -/
theorem nip98_binding_invite :
    Accepts (exampleLibraries (some emptyDigest)) (fun _ => none) 1000 exampleHeaders "POST"
        (nip98ExpectedUrl "wss://relay.example" exampleTenant "/api/invites") [] true ∧
      ∃ event, signedEvent (exampleLibraries (some emptyDigest)) exampleHeaders = some event ∧
        Bound (exampleLibraries (some emptyDigest)) exampleParse "wss://relay.example" exampleTenant
          "/api/invites" "POST" [] event := by
  have haccepts : Accepts (exampleLibraries (some emptyDigest)) (fun _ => none) 1000 exampleHeaders
      "POST" (nip98ExpectedUrl "wss://relay.example" exampleTenant "/api/invites") [] true :=
    accepts_iff.mpr ⟨_, signedEvent_example _, passesOther_example _, by decide +kernel,
      by decide +kernel⟩
  refine ⟨haccepts, (nip98_binding (urlLaws_example _) (fun _ => none) 1000 exampleHeaders
    "wss://relay.example" exampleTenant canonical_example "/api/invites" "POST" rfl [] true).1.mpr
      ?_ haccepts⟩
  rintro ⟨event, hevent, ⟨t, hfind, hnone⟩, -⟩
  rw [signedEvent_example] at hevent
  cases hevent
  cases hfind
  nomatch hnone

/-- An event whose tag for the payload has no value is accepted with every body, here of three bytes;
no tag of it has the hash. -/
theorem accepted_without_value :
    UrlLaws (exampleLibraries none) exampleParse ∧ Canonical exampleParse exampleTenant.host ∧
      Function.Injective (exampleLibraries none).sha256 ∧
      Accepts (exampleLibraries none) (fun _ => none) 1000 exampleHeaders "POST"
        (nip98ExpectedUrl "wss://relay.example" exampleTenant "/api/invites") [1, 2, 3] true ∧
      ∀ event, signedEvent (exampleLibraries none) exampleHeaders = some event →
        ∀ t ∈ event.tags, t.content ≠ some (hexEncode ((exampleLibraries none).sha256 [1, 2, 3])) := by
  refine ⟨urlLaws_example _, canonical_example, ?_, ?_, ?_⟩
  · intro a b h
    simp only [exampleLibraries] at h
    have hdigest : ((hexDecode emptyDigest).getD []).head? ≠ some 0 := by decide +kernel
    split at h
    · next ha =>
      split at h
      · next hb => rw [ha, hb]
      · rw [h] at hdigest
        exact absurd rfl hdigest
    · split at h
      · rw [← h] at hdigest
        exact absurd rfl hdigest
      · exact (List.cons.inj h).2
  · exact accepts_iff.mpr ⟨_, signedEvent_example _, passesOther_example _, by decide +kernel,
      by decide +kernel⟩
  · intro event hevent t ht
    rw [signedEvent_example] at hevent
    cases hevent
    revert t
    decide +kernel

end Buzz.Nip98
