import Sag.Profile
import Sag.Remote.Jwks
import Sag.Upstream

/-!
# Upstream metadata

`upstreamMetadata` of `upstream/index.js`: the endpoints of an upstream, either configured in full or
discovered. What is discovered is overridden by what is configured, and it is the merged metadata that
is kept, under the URL it was discovered at.
-/

namespace Sag

open Resumable

variable (rt : Runtime) (allowHttp : Bool)

/-- An upstream with where to find it. -/
structure RemoteUpstream extends Upstream where
  issuer : Option JsString
  authorizationEndpoint : Option JsString
  tokenEndpoint : Option JsString
  jwksUri : Option JsString
  useDiscovery : Bool
  clientSecret : Option JsString

/-- A configured text, unless it is empty. -/
def configured (value : Option JsString) : Option JsString := value.filter (· ≠ [])

def MAX_DISCOVERY_BYTES : Nat := 64 * 1024

def METADATA_TTL_SECONDS : Nat := 3600

/-- `String(value)`, as `new URL(value)` reads it. -/
def urlText : Json → JsString
  | .str s => s
  | value => rt.stringOf value

def checkedRemoteUrl (value : Json) (label : JsString) : Except RemoteError Url :=
  match rt.parseUrl (urlText rt value) with
  | none => .error (remoteError (label ++ js " is not an absolute URL"))
  | some url => if isRemote allowHttp url then .ok url else .error (remoteError (label ++ js " must use https"))

/-- Metadata before it is checked. -/
structure RawMetadata where
  issuer : Json
  authorizationEndpoint : Json
  tokenEndpoint : Json
  jwksUri : Json

def checkMetadata (upstream : Upstream) (metadata : RawMetadata) : Except RemoteError Metadata := do
  let label := js "upstream " ++ upstream.id ++ js " "
  let _ ← checkedRemoteUrl rt allowHttp metadata.issuer (label ++ js "issuer")
  let authorizationEndpoint ←
    checkedRemoteUrl rt allowHttp metadata.authorizationEndpoint (label ++ js "authorization_endpoint")
  let tokenEndpoint ← checkedRemoteUrl rt allowHttp metadata.tokenEndpoint (label ++ js "token_endpoint")
  let jwksUri ← checkedRemoteUrl rt allowHttp metadata.jwksUri (label ++ js "jwks_uri")
  .ok ⟨metadata.issuer, authorizationEndpoint.href, tokenEndpoint.href, jwksUri.href⟩

/-- The metadata of an upstream that is configured in full, unless it asks for discovery. -/
def explicitMetadata (u : RemoteUpstream) : Option RawMetadata :=
  if u.useDiscovery then none
  else do
    let authorizationEndpoint ← configured u.authorizationEndpoint
    let tokenEndpoint ← configured u.tokenEndpoint
    let jwksUri ← configured u.jwksUri
    let issuer ← configured u.issuer
    pure ⟨.str issuer, .str authorizationEndpoint, .str tokenEndpoint, .str jwksUri⟩

/-- `issuer.replace(/\/+$/, '')`. -/
def dropSlashes (text : JsString) : JsString := (text.reverse.dropWhile (· = 47)).reverse

/-- `provider.discoveryUrl(u)`. -/
def discoveryUrl (u : RemoteUpstream) : Option JsString :=
  match providerFor u.provider with
  | .microsoft =>
    let tenant := (configured u.tenant).getD (if u.isCommon then js "common" else u.domain)
    some (js "https://login.microsoftonline.com/" ++ encodeURIComponent tenant ++
      js "/v2.0/.well-known/openid-configuration")
  | .google => some (js "https://accounts.google.com/.well-known/openid-configuration")
  | .oidc => (configured u.issuer).map fun issuer => dropSlashes issuer ++ js "/.well-known/openid-configuration"

/-- A field of a discovery document, which has to have it. -/
def discoveredField (u : Upstream) (doc : Json) (field : String) : Except RemoteError Json :=
  match (doc.get (js field)).filter truthy with
  | some value => .ok value
  | none => .error (remoteError (js "upstream " ++ u.id ++ js " discovery document has no " ++ js field))

/-- What a discovery document says, with what is configured in its place. -/
def mergedMetadata (u : RemoteUpstream) (doc : Json) : Except RemoteError Metadata :=
  if doc.same .null then .error .engine
  else do
    let authorizationEndpoint ← discoveredField u.toUpstream doc "authorization_endpoint"
    let tokenEndpoint ← discoveredField u.toUpstream doc "token_endpoint"
    let jwksUri ← discoveredField u.toUpstream doc "jwks_uri"
    let issuer ← discoveredField u.toUpstream doc "issuer"
    checkMetadata rt allowHttp u.toUpstream
      { issuer := ((configured u.issuer).map .str).getD issuer
        authorizationEndpoint := ((configured u.authorizationEndpoint).map .str).getD authorizationEndpoint
        tokenEndpoint := ((configured u.tokenEndpoint).map .str).getD tokenEndpoint
        jwksUri := ((configured u.jwksUri).map .str).getD jwksUri }

/-- The metadata of an answer. -/
def metadataOf (u : RemoteUpstream) (res : Fetched) : Except RemoteError Metadata :=
  if !res.ok then
    .error (remoteError (js "upstream discovery for " ++ u.id ++ js " failed with HTTP " ++ decimal res.status))
  else (readJsonLimited rt res MAX_DISCOVERY_BYTES).bind (mergedMetadata rt allowHttp u)

/-- Where an upstream is discovered. -/
def discoveredAt (u : RemoteUpstream) : Except RemoteError JsString :=
  match (discoveryUrl u).filter (· ≠ []) with
  | none =>
    .error (remoteError (js "upstream " ++ u.id ++
      js " needs either an ISSUER to discover from or all of its endpoints set explicitly"))
  | some url => (checkedRemoteUrl rt allowHttp (.str url) (js "upstream " ++ u.id ++ js " discovery URL")).map (·.href)

/-- Fetch and cache an upstream's OpenID Connect metadata. -/
def upstreamMetadata (u : RemoteUpstream) : R Metadata :=
  match explicitMetadata u with
  | some metadata => Prog.ofExcept (F := remote) (checkMetadata rt allowHttp u.toUpstream metadata)
  | none => do
    let url ← Prog.ofExcept (F := remote) (discoveredAt rt allowHttp u)
    let (_, cached) ← cachedAt .metadata url
    match cached with
    | some metadata => pure metadata
    | none =>
      let res ← fetchWithTimeout (.get url)
      let metadata ← Prog.ofExcept (F := remote) (metadataOf rt allowHttp u res)
      keepFor .metadata url metadata METADATA_TTL_SECONDS
      pure metadata

/-- The upstream is discovered, and this is where. -/
def DiscoversAt (u : RemoteUpstream) (url : JsString) : Prop :=
  explicitMetadata u = none ∧ discoveredAt rt allowHttp u = .ok url

/-- What an upstream's discovery document has been found to say. -/
def DiscoveredMetadata (C : Rely remote) (u : RemoteUpstream) (url : JsString) (metadata : Metadata) : Prop :=
  ∃ res, C.Saw (.fetch (.get url)) (.ok res) ∧ metadataOf rt allowHttp u res = .ok metadata

/-- The metadata of an upstream, wherever it comes from. -/
inductive MetadataGiven (C : Rely remote) (u : RemoteUpstream) (metadata : Metadata) : Prop where
  | explicit (raw : RawMetadata) (given : explicitMetadata u = some raw)
      (checked : checkMetadata rt allowHttp u.toUpstream raw = .ok metadata)
  | cached (url : JsString) (found : DiscoversAt rt allowHttp u url)
      (held : FromCache C .metadata url metadata)
  | discovered (url : JsString) (found : DiscoversAt rt allowHttp u url)
      (fetched : DiscoveredMetadata rt allowHttp C u url metadata)

variable {rt allowHttp} {C : Contract remote}

theorem upstreamMetadata_sat (hC : Quiet C) {u : RemoteUpstream} {s : Moment remote}
    (hfetch : ∀ url, DiscoversAt rt allowHttp u url → ∀ h t, C.issue h t (.fetch (.get url)))
    (hkeep : ∀ url metadata, DiscoversAt rt allowHttp u url →
      DiscoveredMetadata rt allowHttp C.toRely u url metadata → ∀ h t,
        C.issue h t (.remember .metadata url ⟨metadata, t + METADATA_TTL_SECONDS⟩)) :
    (upstreamMetadata rt allowHttp u).Sat C (fun _ _ => True)
      (fun _ metadata => MetadataGiven rt allowHttp C.toRely u metadata) s := by
  unfold upstreamMetadata
  split
  · next raw hraw =>
    exact Prog.sat_ofExcept.mpr ⟨fun metadata hchecked => .explicit raw hraw hchecked, fun _ _ => trivial⟩
  · next hnone =>
    refine Prog.sat_bind.mpr (Prog.sat_ofExcept.mpr ⟨fun url hfound => ?_, fun _ _ => trivial⟩)
    have hurl : DiscoversAt rt allowHttp u url := ⟨hnone, hfound⟩
    refine Prog.sat_bind.mpr ((cachedAt_sat hC .metadata url).mono (fun _ _ he => he) fun s₁ r hr => ?_)
    obtain ⟨now, found⟩ := r
    obtain ⟨cached, hnow, hcached, hfresh, rfl⟩ := hr
    cases found with
    | some metadata => exact .cached url hurl (fromCache hnow hcached hfresh)
    | none =>
      refine Prog.sat_bind.mpr ((fetchWithTimeout_sat fun t _ => hfetch url hurl _ t).mono (fun _ _ he => he) ?_)
      rintro _ res ⟨t₁, ht₁, hres, rfl⟩
      refine Prog.sat_bind.mpr (Prog.sat_ofExcept.mpr ⟨fun metadata hmetadata => ?_, fun _ _ => trivial⟩)
      have hfetched : DiscoveredMetadata rt allowHttp C.toRely u url metadata := ⟨res, ⟨t₁, ht₁, hres⟩, hmetadata⟩
      refine Prog.sat_bind.mpr ((keepFor_sat fun t _ => hkeep url metadata hurl hfetched _ t).mono
        (fun _ _ he => he) fun _ _ _ => ?_)
      exact .discovered url hurl hfetched

end Sag
