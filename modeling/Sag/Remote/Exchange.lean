import Sag.Remote.Dns
import Sag.Remote.Metadata

/-!
# The exchange with an upstream

The half of `completeUpstream` that talks to the upstream: the code is exchanged at the token endpoint,
and the ID token that comes back is verified with a key of the upstream and against the transaction.
The key set is asked for anew at each exchange, so a key that the upstream withdraws is not used for
longer than the set is kept.
-/

namespace Sag

open Resumable

variable (rt : Runtime) (devMode : Bool) (clockSkew : Nat)

/-! ## The issuer of an ID token -/

/-- What a replacement says where `before` stands before the match, `found` is the match, and `after`
comes after it. -/
def expandReplacement (before found after : JsString) : JsString → JsString
  | 36 :: u :: rest =>
    if u = 36 then 36 :: expandReplacement before found after rest
    else if u = 38 then found ++ expandReplacement before found after rest
    else if u = 96 then before ++ expandReplacement before found after rest
    else if u = 39 then after ++ expandReplacement before found after rest
    else 36 :: expandReplacement before found after (u :: rest)
  | u :: rest => u :: expandReplacement before found after rest
  | [] => []

/-- `text.replace(pattern, replacement)`; `before` has been passed already. -/
def replaceFrom (pattern replacement : JsString) (before : JsString) : JsString → JsString
  | [] => if pattern = [] then before ++ expandReplacement before [] [] replacement else before
  | u :: rest =>
    if pattern.isPrefixOf (u :: rest) then
      let after := (u :: rest).drop pattern.length
      before ++ expandReplacement before pattern after replacement ++ after
    else replaceFrom pattern replacement (before ++ [u]) rest

/-- The issuer that an ID token has to name, where it is a string at all. Microsoft's is a template. -/
def expectedIssuer (u : Upstream) (metadata : Metadata) (claims : Json) : Option JsString :=
  match providerFor u.provider with
  | .microsoft =>
    some (replaceFrom (js "\x7btenantid\x7d")
      (match (claims.get (js "tid")).filter truthy with
        | none => []
        | some tid => urlText rt tid) [] (urlText rt metadata.issuer))
  | _ => metadata.issuer.string?

/-! ## Its claims -/

/-- `String(payload.nonce ?? '')`. -/
def nonceText (payload : Json) : JsString :=
  match payload.get (js "nonce") with
  | none | some .null => []
  | some nonce => urlText rt nonce

def nonceError (payload : Json) (nonce : JsString) : Option JsString :=
  if timingSafeEqual (nonceText rt payload) nonce then none else some (js "nonce mismatch")

def maxAgeError (payload : Json) (maxAge : Option Nat) (clockSkew now : Nat) : Option JsString :=
  match maxAge with
  | none => none
  | some maxAge =>
    match finite? (payload.get (js "auth_time")) with
    | none => some (js "auth_time required when max_age is requested")
    | some authTime =>
      if Binary64.round (Binary64.round (authTime + maxAge) + clockSkew) < now then
        some (js "authentication too old for max_age")
      else none

/-- The whole of `validateClaims`, for an ID token. -/
def idTokenError (payload : Json) (issuer : Option JsString) (audience nonce : JsString) (maxAge : Option Nat)
    (clockSkew now : Nat) : Option JsString :=
  match issuer with
  | none =>
    some (if payload.same .null then js "Cannot read properties of null (reading 'iss')"
      else js "unexpected issuer " ++ shown rt (payload.get (js "iss")))
  | some issuer =>
    validateClaims rt payload issuer audience clockSkew now <|> nonceError rt payload nonce <|>
      maxAgeError payload maxAge clockSkew now

/-! ## The exchange -/

def ID_TOKEN_ALGS : List JsString :=
  [js "ES256", js "ES384", js "RS256", js "PS256", js "ML-DSA-44", js "ML-DSA-65", js "ML-DSA-87"]

/-- The algorithm of a header, which has to be one of these. -/
def algError (header : Json) : Option JsString :=
  let alg := header.get (js "alg")
  if ID_TOKEN_ALGS.any fun known => alg.any (·.same (.str known)) then none
  else if alg.any (·.same (.str (js "HS256"))) then some (js "alg HS256 not permitted here")
  else some (js "unsupported alg " ++ shown rt alg)

/-- A token with its parts, or what is wrong with it. -/
def readToken (token : JsString) : Except RemoteError (Json × Json) :=
  match decodeJwt rt token with
  | none => .error (if (split dot token).length ≠ 3 then remoteError (js "not a compact JWS") else .engine)
  | some (header, payload) => if header.same .null then .error .engine else .ok (header, payload)

/-- The key for a token. -/
def tokenKey (jwks header : Json) : Except RemoteError Json :=
  match selectJwk jwks header with
  | none => .error (remoteError (js "no matching key in JWKS"))
  | some jwk =>
    match algError rt header with
    | some message => .error (remoteError message)
    | none => .ok jwk

/-- What a round trip through the upstream has to bring back. -/
structure Expected where
  code : JsString
  leg : UpstreamLeg
  maxAge : Option Nat

/-- Validate the ID token of an upstream. -/
def verifyUpstreamIdToken (u : RemoteUpstream) (metadata : Metadata) (token : JsString) (expected : Expected) :
    R Members := do
  let (header, payload) ← Prog.ofExcept (F := remote) (readToken rt token)
  let jwks ← fetchJwks rt devMode metadata.jwksUri
  let jwk ← Prog.ofExcept (F := remote) (tokenKey rt jwks header)
  match ← request (.verifySignature token jwk) with
  | .error e => refuse (.thrown e)
  | .ok () =>
    let now ← Prog.now
    match idTokenError rt payload (expectedIssuer rt u.toUpstream metadata payload) u.clientId expected.leg.nonce
        expected.maxAge clockSkew now with
    | some message => refuse (remoteError message)
    | none => pure (payload.object?.getD [])

def MAX_TOKEN_RESPONSE_BYTES : Nat := 64 * 1024

/-- The body of the request to the token endpoint. -/
def exchangeParams (u : RemoteUpstream) (expected : Expected) : List (JsString × JsString) :=
  [(js "grant_type", js "authorization_code"), (js "code", expected.code),
    (js "redirect_uri", expected.leg.redirectUri), (js "client_id", u.clientId),
    (js "code_verifier", expected.leg.verifier)] ++
    ((configured u.clientSecret).map fun secret => (js "client_secret", secret)).toList

/-- What the token endpoint has sent, and nothing where that cannot be read. -/
def tokenPayload (res : Fetched) : Json :=
  match readJsonLimited rt res MAX_TOKEN_RESPONSE_BYTES with
  | .ok payload => payload
  | .error _ => .obj []

/-- The ID token that the token endpoint has sent. -/
def idTokenOf (res : Fetched) : Except RemoteError JsString :=
  let payload := tokenPayload rt res
  if payload.same .null then .error .engine
  else if !res.ok then
    let detail :=
      match (payload.get (js "error_description")).filter truthy <|> (payload.get (js "error")).filter truthy with
      | some detail => urlText rt detail
      | none => js "HTTP " ++ decimal res.status
    .error (remoteError (js "upstream token exchange failed: " ++ detail))
  else
    match (payload.get (js "id_token")).filter truthy with
    | none => .error (remoteError (js "upstream returned no id_token"))
    | some token => .ok (urlText rt token)

/-- Exchange the upstream code and validate the ID token it returns. -/
def exchangeCode (u : RemoteUpstream) (expected : Expected) : R Exchange := do
  let metadata ← upstreamMetadata rt devMode u
  let res ← fetchWithTimeout (.post metadata.tokenEndpoint (exchangeParams u expected))
  let token ← Prog.ofExcept (F := remote) (idTokenOf rt res)
  let claims ← verifyUpstreamIdToken rt devMode clockSkew u metadata token expected
  pure ⟨claims, (tokenPayload rt res).get (js "refresh_token")⟩

/-! ## What an exchange has verified -/

/-- The claims are those of the token: it is signed with a key of the upstream, and it is for this gateway, in time,
and for this round trip. -/
inductive Verified (C : Rely remote) (u : RemoteUpstream) (metadata : Metadata) (token : JsString) (expected : Expected)
    (claims : Members) : Prop where
  | intro (header payload jwks jwk : Json) (now : Nat) (read : readToken rt token = .ok (header, payload))
      (keys : JwksGiven rt devMode C metadata.jwksUri jwks) (chosen : tokenKey rt jwks header = .ok jwk)
      (signed : C.Saw (.verifySignature token jwk) (.ok ())) (tick : C.tick now)
      (valid : idTokenError rt payload (expectedIssuer rt u.toUpstream metadata payload) u.clientId expected.leg.nonce
        expected.maxAge clockSkew now = none)
      (held : claims = payload.object?.getD [])

/-- The code has been exchanged at the endpoint of the upstream's metadata, for a token that has been verified. -/
inductive Exchanged (C : Rely remote) (u : RemoteUpstream) (expected : Expected) (exchange : Exchange) : Prop where
  | intro (metadata : Metadata) (res : Fetched) (token : JsString) (given : MetadataGiven rt devMode C u metadata)
      (answered : C.Saw (.fetch (.post metadata.tokenEndpoint (exchangeParams u expected))) (.ok res))
      (sent : idTokenOf rt res = .ok token)
      (verified : Verified rt devMode clockSkew C u metadata token expected exchange.claims)
      (held : exchange.refreshToken = (tokenPayload rt res).get (js "refresh_token"))

variable {rt devMode clockSkew} {C : Contract remote} {s : Moment remote}

theorem verifyUpstreamIdToken_sat (hC : Quiet C) {u : RemoteUpstream} {metadata : Metadata} {token : JsString}
    {expected : Expected}
    (hfetch : ∀ url, jwksUrl rt devMode metadata.jwksUri = .ok url → ∀ h t, C.issue h t (.fetch (.get url.href)))
    (hkeep : ∀ h t key entry, LoadedJwks rt h key entry → C.issue h t (.remember .jwks key entry)) :
    (verifyUpstreamIdToken rt devMode clockSkew u metadata token expected).Sat C (fun _ _ => True)
      (fun _ claims => Verified rt devMode clockSkew C.toRely u metadata token expected claims) s := by
  unfold verifyUpstreamIdToken
  refine Prog.sat_bind.mpr (Prog.sat_ofExcept.mpr ⟨fun parts hparts => ?_, fun _ _ => trivial⟩)
  obtain ⟨header, payload⟩ := parts
  refine Prog.sat_bind.mpr ((fetchJwks_sat hC hfetch fun _ _ h t entry => hkeep h t _ entry).mono
    (fun _ _ he => he) fun s₁ jwks hjwks => ?_)
  refine Prog.sat_bind.mpr (Prog.sat_ofExcept.mpr ⟨fun jwk hjwk => ?_, fun _ _ => trivial⟩)
  refine fun t ht => ⟨hC _ _ _ rfl, fun answer hanswer => ?_⟩
  cases answer with
  | error e => exact trivial
  | ok _ =>
    intro now hnow
    show Prog.Sat C _ _ _ (match idTokenError rt payload _ _ _ _ _ now with | some message => _ | none => _)
    cases hvalid : idTokenError rt payload (expectedIssuer rt u.toUpstream metadata payload) u.clientId
        expected.leg.nonce expected.maxAge clockSkew now with
    | some message => exact trivial
    | none => exact .intro header payload jwks jwk now hparts hjwks hjwk ⟨t, ht.1, hanswer⟩ hnow.1 hvalid rfl

theorem exchangeCode_sat (hC : Quiet C) {u : RemoteUpstream} {expected : Expected}
    (hdiscover : ∀ url, DiscoversAt rt devMode u url → ∀ h t, C.issue h t (.fetch (.get url)))
    (hremember : ∀ url metadata, DiscoversAt rt devMode u url →
      DiscoveredMetadata rt devMode C.toRely u url metadata → ∀ h t,
        C.issue h t (.remember .metadata url ⟨metadata, t + METADATA_TTL_SECONDS⟩))
    (hpost : ∀ metadata, MetadataGiven rt devMode C.toRely u metadata → ∀ h t,
      C.issue h t (.fetch (.post metadata.tokenEndpoint (exchangeParams u expected))))
    (hfetch : ∀ metadata url, MetadataGiven rt devMode C.toRely u metadata →
      jwksUrl rt devMode metadata.jwksUri = .ok url → ∀ h t, C.issue h t (.fetch (.get url.href)))
    (hkeep : ∀ h t key entry, LoadedJwks rt h key entry → C.issue h t (.remember .jwks key entry)) :
    (exchangeCode rt devMode clockSkew u expected).Sat C (fun _ _ => True)
      (fun _ exchange => Exchanged rt devMode clockSkew C.toRely u expected exchange) s := by
  refine Prog.sat_bind.mpr ((upstreamMetadata_sat hC hdiscover hremember).mono (fun _ _ he => he) ?_)
  intro s₁ metadata hmetadata
  refine Prog.sat_bind.mpr ((fetchWithTimeout_sat fun t _ => hpost metadata hmetadata _ t).mono (fun _ _ he => he) ?_)
  rintro _ res ⟨t₁, ht₁, hres, rfl⟩
  refine Prog.sat_bind.mpr (Prog.sat_ofExcept.mpr ⟨fun token htoken => ?_, fun _ _ => trivial⟩)
  refine Prog.sat_bind.mpr ((verifyUpstreamIdToken_sat hC (fun url => hfetch metadata url hmetadata) hkeep).mono
    (fun _ _ he => he) fun _ claims hverified => ?_)
  exact .intro metadata res token hmetadata ⟨t₁, ht₁, hres⟩ htoken hverified rfl

end Sag
