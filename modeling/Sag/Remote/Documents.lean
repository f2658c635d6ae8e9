import Sag.Clients
import Sag.Remote.Dns

/-!
# Clients that describe themselves

`resolveCimd` of `clients/index.js`. The client id is the URL of the document, so whoever controls that
URL says what the client is. Before anything is read of it, its host is looked up and has to be public,
also where the client is in the cache.
-/

namespace Sag

open Resumable

variable (rt : Runtime)

structure CimdConfig where
  enabled : Bool
  allowedDomains : List JsString
  allowSubdomains : Bool
  cacheTtlSeconds : Nat
  maxDocumentBytes : Nat

/-- `entry.toLowerCase().replace(/^\*?\./, '')`. -/
def allowedDomain (entry : JsString) : JsString :=
  match rt.cases.toLowerCase entry with
  | 42 :: 46 :: rest => rest
  | 46 :: rest => rest
  | entry => entry

def cimdDomainAllowed (cimd : CimdConfig) (url : Url) : Bool :=
  cimd.allowedDomains = [] ||
    cimd.allowedDomains.any fun entry =>
      rt.cases.toLowerCase url.hostname = allowedDomain rt entry ||
        (cimd.allowSubdomains && (dot :: allowedDomain rt entry).isSuffixOf (rt.cases.toLowerCase url.hostname))

/-! ## Where documents may come from -/

/-- The addresses that the answers for both families come to. A resolver that fails twice has none to offer;
the DNS-over-HTTPS resolver throws. -/
def joinAddresses (resolver : Bool) : Except RemoteError (List JsString) → Except RemoteError (List JsString) →
    Option (List JsString)
  | .error _, .error _ => if resolver then some [] else none
  | v4, v6 => some (v4.toOption.getD [] ++ v6.toOption.getD [])

/-- The addresses of a host, or none where they cannot be had. -/
def resolveAddresses (dns : DnsConfig) (hostname : JsString) : R (Option (List JsString)) := do
  let (v4, v6) ←
    Prog.both (F := remote) (request .pick) (findRecords rt dns hostname .a) (findRecords rt dns hostname .aaaa)
  pure (joinAddresses dns.resolver v4 v6)

/-- Is the verdict on a host a matter of its addresses? -/
def isLookedUp (devMode : Bool) (urlHostname : JsString) : Bool :=
  let hostname := rt.cases.toLowerCase (stripBrackets urlHostname)
  !(devMode && (hostname = localhost || isLoopbackIp rt hostname)) &&
    !(hostname = localhost || (js ".localhost").isSuffixOf hostname) && !isIpAddress rt hostname

/-- The addresses of a host, if they matter. -/
def lookUp (dns : DnsConfig) (devMode : Bool) (urlHostname : JsString) : R (Option (List JsString)) :=
  if isLookedUp rt devMode urlHostname then resolveAddresses rt dns (rt.cases.toLowerCase (stripBrackets urlHostname))
  else pure none

/-- Refuse fetches that could reach an address outside the public Internet. -/
def assertPublicTarget (dns : DnsConfig) (devMode : Bool) (url : Url) : R Unit := do
  let addresses ← lookUp rt dns devMode url.hostname
  match assertPublicCimdTarget rt devMode (fun _ => addresses) url.hostname with
  | .error e => refuse (.thrown e)
  | .ok () => pure ()

/-! ## What a document says -/

def specialSchemes : List JsString := [js "http:", js "https:", js "ftp:", js "ws:", js "wss:"]

def tupleOrigin (url : Url) : JsString :=
  url.protocol ++ js "//" ++ url.hostname ++ if url.port = [] then [] else js ":" ++ url.port

/-- `url.origin`. -/
def originOf (url : Url) : JsString :=
  if url.protocol ∈ specialSchemes then tupleOrigin url
  else if url.protocol = js "blob:" then
    match rt.parseUrl url.pathname with
    | some inner => if inner.protocol = js "http:" || inner.protocol = js "https:" then tupleOrigin inner else js "null"
    | none => js "null"
  else js "null"

def cimdError (description : JsString) : RemoteError := .thrown (oauthError (js "invalid_client") description)

/-- A CIMD key endpoint must be controlled by the same client origin. -/
def cimdJwksUri (value : Option Json) (documentUrl : Url) : Except RemoteError (Option JsString) :=
  match value with
  | none => .ok none
  | some (.str value) =>
    match rt.parseUrl value with
    | none => .error (cimdError (js "Client metadata jwks_uri must be a URL"))
    | some url =>
      if url.username ≠ [] || url.password ≠ [] || originOf rt url ≠ originOf rt documentUrl then
        .error (cimdError (js "Client metadata jwks_uri must share the document origin"))
      else .ok (some url.href)
  | some _ => .error (cimdError (js "Client metadata jwks_uri must be a URL"))

/-- A member, if it is truthy. -/
def given (doc : Json) (name : String) : Option Json := (doc.get (js name)).filter truthy

/-- The redirect URIs of a document, each of which has to be a URL. -/
def cimdRedirectUris (doc : Json) : Except RemoteError (List Json) :=
  let redirectUris :=
    match doc.get (js "redirect_uris") with
    | some (.arr uris) => uris
    | _ => []
  let text : Json → JsString := fun uri => (uri.string?).getD (rt.stringOf uri)
  if redirectUris.any fun uri => (rt.parseUrl (text uri)).isNone then
    .error (cimdError (js "Client metadata contains a malformed redirect URI"))
  else if redirectUris = [] then .error (cimdError (js "Client metadata document declares no redirect_uris"))
  else .ok redirectUris

/-- The client that a document describes, in the shape of `normalise`. -/
def clientOf (clientId : JsString) (documentUrl : Url) (doc : Json) : Except RemoteError CimdClient :=
  if doc.same .null then .error .engine
  else do
    let redirectUris ← cimdRedirectUris rt doc
    let jwksUri ← cimdJwksUri rt (doc.get (js "jwks_uri")) documentUrl
    .ok
      { clientId
        clientName := (given doc "client_name").getD (.str clientId)
        redirectUris
        postLogoutRedirectUris := (given doc "post_logout_redirect_uris").getD (.arr [])
        jwks := doc.get (js "jwks")
        jwksUri
        tokenEndpointAuthMethod :=
          if (given doc "jwks").isSome || (given doc "jwks_uri").isSome then js "private_key_jwt" else js "none"
        scopes := (((doc.get (js "scope")).bind Json.string?).map words).filter (· ≠ [])
        idTokenSignedResponseAlg := doc.get (js "id_token_signed_response_alg")
        logoUri := doc.get (js "logo_uri")
        policyUri := doc.get (js "policy_uri")
        tosUri := doc.get (js "tos_uri")
        requirePkce := true }

/-- The client of an answer. -/
def cimdClientOf (cimd : CimdConfig) (clientId : JsString) (url : Url) (res : Fetched) :
    Except RemoteError CimdClient :=
  if !res.ok then .error (cimdError (js "Could not read client metadata (HTTP " ++ decimal res.status ++ js ")"))
  else
    match readTextLimited rt res cimd.maxDocumentBytes with
    | .error (.bodyTooLarge _) =>
      .error (cimdError (js "Client metadata document is larger than this deployment accepts"))
    | .error e => .error e
    | .ok body =>
      match rt.parseJson body with
      | none => .error (cimdError (js "Client metadata document is not valid JSON"))
      | some doc => clientOf rt clientId url doc

/-! ## Resolution -/

/-- The URL of a document, or `none` where the client id does not name one. -/
def documentUrl (cimd : CimdConfig) (devMode : Bool) (clientId : JsString) : Except RemoteError (Option Url) :=
  if !cimd.enabled then .ok none
  else
    match rt.parseUrl clientId with
    | none => .ok none
    | some url =>
      if url.protocol ≠ js "https:" && !(devMode && url.protocol = js "http:") then .ok none
      else if url.username ≠ [] || url.password ≠ [] then
        .error (cimdError (js "A client ID metadata document URL must not contain a username or password"))
      else if url.hash ≠ [] then
        .error (cimdError (js "A client ID metadata document URL must not have a fragment"))
      else if !cimdDomainAllowed rt cimd url then
        .error (cimdError (js "This deployment does not accept client metadata from " ++ url.hostname))
      else .ok (some url)

/-- `rememberCimd`, which keeps nothing where nothing is to last. -/
def rememberClient (cimd : CimdConfig) (clientId : JsString) (client : CimdClient) : R Unit :=
  if cimd.cacheTtlSeconds = 0 then pure () else keepFor .cimd clientId client cimd.cacheTtlSeconds

/-- Fetch and check the document, and keep what it says. -/
def loadCimd (cimd : CimdConfig) (clientId : JsString) (url : Url) : R CimdClient := do
  let res ← fetchWithTimeout (.get clientId)
  let client ← Prog.ofExcept (F := remote) (cimdClientOf rt cimd clientId url res)
  rememberClient cimd clientId client
  pure client

/-- An entry that has lapsed is removed when it is found. -/
def forgetStale (clientId : JsString) (cached : Option (Dated CimdClient)) : R Unit :=
  if cached.isSome then request (.forget .cimd clientId) else pure ()

/-- Fetch a Client ID Metadata Document. -/
def resolveCimd (cimd : CimdConfig) (dns : DnsConfig) (devMode : Bool) (clientId : JsString) :
    R (Option CimdClient) := do
  match ← Prog.ofExcept (F := remote) (documentUrl rt cimd devMode clientId) with
  | none => pure none
  | some url =>
    assertPublicTarget rt dns devMode url
    let now ← Prog.now
    let cached ← request (.lookup .cimd clientId)
    match liveAt now cached with
    | some client => pure (some client)
    | none =>
      forgetStale clientId cached
      some <$> loadCimd rt cimd clientId url

/-! ## What the functions find -/

/-- The addresses of a host have been looked up. -/
def AddressesFound (C : Rely remote) (dns : DnsConfig) (hostname : JsString) (addresses : Option (List JsString)) :
    Prop :=
  ∃ v4 v6, RecordsFound rt C dns hostname .a v4 ∧ RecordsFound rt C dns hostname .aaaa v6 ∧
    addresses = joinAddresses dns.resolver v4 v6

/-- The host of a URL has been found to be public. -/
def PublicTarget (C : Rely remote) (dns : DnsConfig) (devMode : Bool) (url : Url) : Prop :=
  ∃ addresses, assertPublicCimdTarget rt devMode (fun _ => addresses) url.hostname = .ok () ∧
    (isLookedUp rt devMode url.hostname = true →
      AddressesFound rt C dns (rt.cases.toLowerCase (stripBrackets url.hostname)) addresses)

/-- What a client's document has been found to say. -/
def Described (C : Rely remote) (cimd : CimdConfig) (clientId : JsString) (url : Url) (client : CimdClient) : Prop :=
  ∃ res, C.Saw (.fetch (.get clientId)) (.ok res) ∧ cimdClientOf rt cimd clientId url res = .ok client

variable {rt} {C : Contract remote} {dns : DnsConfig} {cimd : CimdConfig} {devMode : Bool}

theorem resolveAddresses_always {E : RemoteError → Prop} (hC : Quiet C) (hforget : C.Forgetful) (hostname : JsString) :
    (resolveAddresses rt dns hostname).Always C E (AddressesFound rt C.toRely dns hostname) := by
  have hpick : (request .pick).Always C E fun _ => True :=
    Prog.Always.mono (.await fun h t _ => hC h t _ rfl) fun _ _ => trivial
  refine Prog.Always.bind (Prog.Always.both (P := RecordsFound rt C.toRely dns hostname .a)
    (Q := RecordsFound rt C.toRely dns hostname .aaaa) hforget hpick (findRecords_always hC _ _)
    (findRecords_always hC _ _)) fun r hr _ => ?_
  exact ⟨r.1, r.2, hr.1, hr.2, rfl⟩

theorem assertPublicTarget_always (hC : Quiet C) (hforget : C.Forgetful) (url : Url) :
    (assertPublicTarget rt dns devMode url).Always C (fun _ => True) fun _ =>
      PublicTarget rt C.toRely dns devMode url := by
  have hlook : (lookUp rt dns devMode url.hostname).Always C (fun _ => True) fun addresses =>
      isLookedUp rt devMode url.hostname = true →
        AddressesFound rt C.toRely dns (rt.cases.toLowerCase (stripBrackets url.hostname)) addresses := by
    unfold lookUp
    split
    · exact (resolveAddresses_always hC hforget _).mono fun _ hfound _ => hfound
    · next hnot => exact fun _ hyes => absurd hyes hnot
  refine hlook.bind fun addresses hfound => ?_
  split
  · exact fun _ => trivial
  · next hpublic => exact fun _ => ⟨addresses, hpublic, hfound⟩

/-- Nothing is fetched but the document, and that only from a host that this very call has found to be public;
what is kept of the client is what the document says. -/
theorem resolveCimd_always (hC : Quiet C) (hforget : C.Forgetful) {clientId : JsString}
    (hfetch : ∀ url, documentUrl rt cimd devMode clientId = .ok (some url) →
      PublicTarget rt C.toRely dns devMode url → ∀ h t, C.issue h t (.fetch (.get clientId)))
    (hkeep : ∀ url client, documentUrl rt cimd devMode clientId = .ok (some url) →
      Described rt C.toRely cimd clientId url client → ∀ h t,
        C.issue h t (.remember .cimd clientId ⟨client, t + cimd.cacheTtlSeconds⟩)) :
    (resolveCimd rt cimd dns devMode clientId).Always C (fun _ => True) fun found =>
      ∀ client, found = some client → ∃ url, documentUrl rt cimd devMode clientId = .ok (some url) ∧
        PublicTarget rt C.toRely dns devMode url ∧
          (FromCache C.toRely .cimd clientId client ∨ Described rt C.toRely cimd clientId url client) := by
  have hload : ∀ {url}, documentUrl rt cimd devMode clientId = .ok (some url) →
      PublicTarget rt C.toRely dns devMode url → (loadCimd rt cimd clientId url).Always C (fun _ => True)
        (Described rt C.toRely cimd clientId url) := by
    intro url hurl hpublic s
    refine Prog.sat_bind.mpr ((fetchWithTimeout_sat fun t _ => hfetch url hurl hpublic _ t).mono (fun _ _ he => he) ?_)
    rintro _ res ⟨t₁, ht₁, hres, rfl⟩
    refine Prog.sat_bind.mpr (Prog.sat_ofExcept.mpr ⟨fun client hclient => ?_, fun _ _ => trivial⟩)
    have hdescribed : Described rt C.toRely cimd clientId url client := ⟨res, ⟨t₁, ht₁, hres⟩, hclient⟩
    refine Prog.sat_bind.mpr ?_
    unfold rememberClient
    split
    · exact hdescribed
    · exact (keepFor_sat fun t _ => hkeep url client hurl hdescribed _ t).mono (fun _ _ he => he)
        fun _ _ _ => hdescribed
  have hstale : ∀ cached, (forgetStale clientId cached).Always C (fun _ => True) fun _ => True := by
    intro cached
    unfold forgetStale
    split
    · exact Prog.Always.mono (.await fun h t _ => hC h t _ rfl) fun _ _ => trivial
    · exact fun _ => trivial
  unfold resolveCimd
  refine Prog.Always.bind (fun _ => Prog.sat_ofExcept.mpr ⟨fun found hfound => hfound, fun _ _ => trivial⟩) ?_
  intro found hurl
  cases found with
  | none => exact fun _ client hclient => by cases hclient
  | some url =>
    refine (assertPublicTarget_always hC hforget url).bind fun _ hpublic s now hnow t ht => ?_
    obtain rfl : t = now := ht.2 now rfl
    refine ⟨hC _ _ _ rfl, fun cached hcached => ?_⟩
    show Prog.Sat C _ _ _ (match liveAt t cached with | some client => _ | none => _)
    cases hfound : liveAt t cached with
    | some client =>
      intro client' hclient'
      obtain rfl := Option.some.inj hclient'
      exact ⟨url, hurl, hpublic, Or.inl (fromCache hnow.1 hcached hfound.symm)⟩
    | none =>
      refine ((hstale cached).bind fun _ _ => (hload hurl hpublic).bind fun client hdescribed _ => ?_) _
      intro client' hclient'
      obtain rfl := Option.some.inj hclient'
      exact ⟨url, hurl, hpublic, Or.inr hdescribed⟩

end Sag
