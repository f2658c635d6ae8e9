import Sag.Crypto.Claims
import Sag.Http

/-!
# Authenticating a relying party

`oauth/clientauth.js`. A client presents at most one credential, and it has to be the kind
that it is registered for. A client assertion is accepted for as long as its times allow,
and with a state store it is accepted once: its use is claimed under its `jti`, for as long
as it lasts from now on (`assertionTtl`).

The time checks and the claim are two readings of the clock with an awaited digest between
them, so the guard of the claim names both instants (`AssertionGuard.claim`).
-/

namespace Sag

open Resumable

variable (rt : Runtime) (config : Config)

def PRIVATE_KEY_JWT_ALGS : List JsString :=
  [js "ES256", js "ES384", js "RS256", js "PS256", js "ML-DSA-44", js "ML-DSA-65", js "ML-DSA-87"]

def ASSERTION_TYPE : JsString := js "urn:ietf:params:oauth:client-assertion-type:jwt-bearer"

def invalidClient (description : JsString) : JsError := .oauth (js "invalid_client") description 401 false

/-- `err.message`. -/
def JsError.message : JsError → JsString
  | .oauth code description _ _ | .unredirectable code description _ => code ++ js ": " ++ description
  | .sealError message | .error message => message

/-! ## Reading credentials -/

/-- A request to the token endpoint. -/
structure TokenRequest where
  form : Except JsError Form
  authorization : Option JsString

structure Credentials where
  clientId : Option JsString
  method : JsString
  secret : Option JsString
  assertion : Option JsString

/-- `/^basic /i`. -/
def isBasic (authorization : JsString) : Bool :=
  (js "basic ").isPrefixOf ((authorization.take 6).map fun u => if isUpper u then u + 32 else u)

def safeDecode (value : JsString) : JsString := (rt.decodeURIComponent value).getD value

/-- The client and the secret of an `Authorization` header. -/
def basicCredentials (authorization : JsString) : Except JsError (JsString × JsString) :=
  match ((unb64 (trim (authorization.drop 6))).map rt.fromUtf8).bind (breakFirst 58) with
  | some (id@(_ :: _), secret) => .ok (safeDecode rt id, safeDecode rt secret)
  | _ => .error (invalidClient (js "The Authorization header is not valid HTTP Basic."))

/-- The header of a request, where it is Basic, for the client that the body names. -/
def readBasic (authorization clientId : Option JsString) : Except JsError (Option (JsString × JsString)) :=
  match authorization.filter isBasic with
  | none => .ok none
  | some header => do
    let basic ← basicCredentials rt header
    if clientId.any (· ≠ basic.1) then
      .error (invalidClient (js "The client_id in the body does not match the Authorization header."))
    else .ok (some basic)

/-- The assertion of a request. -/
def readAssertion (params : Form) : Except JsError (Option JsString) := do
  let assertion := textOf (← single params (js "client_assertion"))
  match assertion with
  | none => .ok none
  | some assertion =>
    let type := textOf (← single params (js "client_assertion_type"))
    if type ≠ some ASSERTION_TYPE then .error (invalidClient (js "Unsupported client_assertion_type."))
    else .ok (some assertion)

/-- The client id and any credential of a request. -/
def readCredentials (authorization : Option JsString) (params : Form) : Except JsError Credentials := do
  let clientId := textOf (← single params (js "client_id"))
  let basic ← readBasic rt authorization clientId
  let bodySecret := textOf (← single params (js "client_secret"))
  let assertion ← readAssertion params
  if 1 < basic.toList.length + bodySecret.toList.length + assertion.toList.length then
    .error (invalidClient (js "Present exactly one client credential, not several."))
  else
    .ok
      { clientId := (basic.map (·.1)) <|> clientId
        method :=
          if assertion.isSome then js "private_key_jwt"
          else if bodySecret.isSome then js "client_secret_post"
          else if basic.isSome then js "client_secret_basic"
          else js "none"
        secret := bodySecret <|> basic.map (·.2)
        assertion }

def requireClientId (credentials : Credentials) : Except JsError JsString :=
  match credentials.clientId.filter (· ≠ []) with
  | some clientId => .ok clientId
  | none => .error (invalidClient (js "No client_id was presented."))

/-! ## Secrets -/

/-- Check of a presented value against a stored digest. -/
def verifyDigest (stored presented : JsString) : Except JsError Bool :=
  let (scheme, expected) :=
    match breakFirst 58 stored with
    | some (scheme@(_ :: _), expected) => (scheme, expected)
    | _ => (js "plain", stored)
  if scheme = js "sha256" then
    let actual := rt.cases.toLowerCase (toHex (rt.sha256 presented))
    .ok (expected ≠ [] && timingSafeEqual actual (rt.cases.toLowerCase expected))
  else if scheme = js "plain" then .ok (expected ≠ [] && timingSafeEqual presented expected)
  else .error (.error (js "unsupported secret digest scheme: " ++ scheme))

/-- Check a client secret. -/
def verifySecret (client : Client) (credentials : Credentials) : M Unit :=
  match client.clientSecretDigest.filter (· ≠ []), client.clientSecret.filter (· ≠ []) with
  | none, none => fail (invalidClient (js "This client has no secret configured."))
  | digest, secret => do
    suspend
    let stored := digest.getD (js "plain:" ++ secret.getD [])
    let ok ← Prog.ofExcept (F := effects) (verifyDigest rt stored (credentials.secret.getD []))
    if ok then pure () else fail (invalidClient (js "Client authentication failed."))

/-! ## Assertions -/

/-- The claims that the use of an assertion is recorded by. -/
structure AssertionClaims where
  jti : JsString
  exp : Rat

/-- The checks of an assertion that do not depend on the clock. -/
def assertionClaims (clientId : JsString) (payload : Json) : Except JsError AssertionClaims :=
  if !(payload.get (js "sub")).any fun sub => sub.same (.str clientId) then
    .error (invalidClient (js "The client assertion subject must be the client id."))
  else
    match ((payload.get (js "jti")).bind Json.string?).filter (· ≠ []) with
    | none => .error (invalidClient (js "The client assertion must carry a string jti."))
    | some jti =>
      match finite? (payload.get (js "exp")), finite? (payload.get (js "iat")) with
      | some exp, some iat =>
        let lifetime := Binary64.round (exp - iat)
        if lifetime < 0 ∨ 300 < lifetime then
          .error (invalidClient (js "The client assertion lifetime must be between zero and 300 seconds."))
        else .ok ⟨jti, exp⟩
      | _, _ => .error (invalidClient (js "The client assertion must carry an iat."))

def assertionKey (clientId jti : JsString) : JsString :=
  js "client-assertion:" ++ b64u (rt.sha256 (clientId ++ [0] ++ jti))

/-- How long the use of an assertion is claimed at `now`. -/
def assertionTtl (exp : Rat) (clockSkew now : Nat) : Rat := Binary64.round (Binary64.round (exp - now) + clockSkew)

/-- What a lifetime comes to in a store that adds it to the clock, and compares the sum
with whole seconds. -/
def wholeSeconds (now : Nat) (ttl : Rat) : Int := ⌊Binary64.round (now + max 1 ttl)⌋ - now

/-- The claim on an assertion. -/
def assertionClaim (clientId : JsString) (claims : AssertionClaims) (now : Nat) : StoreOp :=
  .claim (assertionKey rt clientId claims.jti)
    (wholeSeconds now (assertionTtl claims.exp config.tokens.clockSkewSeconds now))

/-- Record the use of an assertion. -/
def claimAssertion (clientId : JsString) (claims : AssertionClaims) : M Unit := do
  suspend
  let now ← nowSeconds
  let fresh ← attempt (perform (.store (assertionClaim rt config clientId claims now)))
  if fresh then pure () else fail (invalidClient (js "The client assertion has already been used."))

/-- The keys of a client. -/
def clientJwks (client : Client) : M Json :=
  match client.jwks.filter truthy with
  | some jwks => pure jwks
  | none =>
    match client.jwksUri.filter (· ≠ []) with
    | none => fail (invalidClient (js "This client has no keys registered."))
    | some uri => do
      match ← perform (.fetchJwks uri) with
      | .error e => fail (invalidClient (js "Could not read the client JWKS: " ++ e.message))
      | .ok jwks =>
        if truthy jwks then pure jwks else fail (invalidClient (js "This client has no keys registered."))

/-- Check a `private_key_jwt` client assertion. -/
def verifyPrivateKeyJwt (client : Client) (assertion : JsString) : M Json :=
  match decodeJwt rt assertion with
  | none => fail (invalidClient (js "The client assertion is not a valid JWT."))
  | some (header, payload) =>
    if header.same .null then fail (.error (js "Cannot read properties of null (reading 'alg')"))
    else if !PRIVATE_KEY_JWT_ALGS.any fun alg => (header.get (js "alg")).any (·.same (.str alg)) then
      fail (invalidClient (js "Unsupported client assertion algorithm: " ++ shown rt (header.get (js "alg")) ++ js "."))
    else do
      let jwks ← clientJwks client
      match selectJwk jwks header with
      | none => fail (invalidClient (js "No registered key matches the client assertion."))
      | some jwk =>
        match ← perform (.verifySignature assertion jwk) with
        | .error _ => fail (invalidClient (js "The client assertion signature could not be verified."))
        | .ok () =>
          let now ← nowSeconds
          match validateClaims rt payload client.clientId config.issuer config.tokens.clockSkewSeconds now with
          | some error => fail (invalidClient (js "The client assertion is not acceptable: " ++ error))
          | none =>
            match assertionClaims client.clientId payload with
            | .error e => fail e
            | .ok claims =>
              if config.stateStore then claimAssertion rt config client.clientId claims
              note (.assertionAccepted client.clientId assertion)
              pure payload

/-- Verify the credential of a client against its registration. -/
def authenticateClient (client : Client) (credentials : Credentials) : M Unit :=
  let registered := (client.tokenEndpointAuthMethod.filter (· ≠ [])).getD (js "none")
  if registered = js "none" then
    if credentials.method ≠ js "none" then
      fail (invalidClient (js "This client is registered as public and must not present a credential."))
    else pure ()
  else if registered = js "client_secret_basic" ∨ registered = js "client_secret_post" then
    if credentials.method ≠ registered then
      fail (invalidClient (js "This client must authenticate with " ++ registered ++ js "."))
    else verifySecret rt client credentials
  else if registered = js "private_key_jwt" then
    match credentials.assertion with
    | none => fail (invalidClient (js "This client must authenticate with a private_key_jwt assertion."))
    | some assertion => do
      let _ ← verifyPrivateKeyJwt rt config client assertion
      pure ()
  else fail (invalidClient (js "Unsupported client authentication method: " ++ registered))

/-! ## What the functions do -/

/-- The claim and the acceptance of an assertion: it was in time at the instant before the
one at which it is claimed, and it is accepted where its claim has been won. -/
inductive AssertionGuard : List (Event effects) → Nat → Op → Prop where
  | claim {h₀ : List (Event effects)} {t₀ t : Nat} {clientId assertion : JsString} {header payload : Json}
      {claims : AssertionClaims} (decoded : decodeJwt rt assertion = some (header, payload))
      (timely : Timely payload config.tokens.clockSkewSeconds t₀)
      (checked : assertionClaims clientId payload = .ok claims) :
      AssertionGuard (h₀ ++ [⟨t₀, .suspend, ()⟩]) t (.store (assertionClaim rt config clientId claims t))
  | accepted {h₀ : List (Event effects)} {t₀ t₁ t : Nat} {clientId assertion : JsString} {header payload : Json}
      {claims : AssertionClaims} (decoded : decodeJwt rt assertion = some (header, payload))
      (timely : Timely payload config.tokens.clockSkewSeconds t₀)
      (checked : assertionClaims clientId payload = .ok claims) :
      AssertionGuard (h₀ ++ [⟨t₀, .suspend, ()⟩, ⟨t₁, .store (assertionClaim rt config clientId claims t₁),
          (.ok true : Except JsError Bool)⟩]) t
        (.note (.assertionAccepted clientId assertion))
  | unclaimed {h : List (Event effects)} {t : Nat} {clientId assertion : JsString}
      (storeless : config.stateStore = false) :
      AssertionGuard h t (.note (.assertionAccepted clientId assertion))

variable {rt config} {C : Contract effects}

theorem clientJwks_ensures (hC : Routine C) (client : Client) : Ensures C (clientJwks client) fun _ => True := by
  unfold clientJwks
  split
  · exact pure_ensures trivial
  · split
    · exact fail_ensures
    · refine andThen_ensures (perform_ensures hC rfl) fun answer _ => ?_
      split
      · exact fail_ensures
      · split
        · exact pure_ensures trivial
        · exact fail_ensures

theorem verifySecret_ensures (hC : Routine C) (client : Client) (credentials : Credentials) :
    Ensures C (verifySecret rt client credentials) fun _ => True := by
  unfold verifySecret
  split
  · exact fail_ensures
  · refine suspend_then_ensures hC (andThen_ensures (ofExcept_ensures fun _ _ => trivial) fun ok _ => ?_)
    split
    · exact pure_ensures trivial
    · exact fail_ensures

/-- An assertion that is in time is claimed once the digest is there, and accepted if the
claim is won. -/
theorem claimAssertion_sat (hC : Routine C) (hG : ∀ h t o, AssertionGuard rt config h t o → C.issue h t o)
    {s : Moment effects} {now : Nat} (hnow : s.now = some now) {clientId assertion : JsString}
    {header payload : Json} {claims : AssertionClaims} (hdecoded : decodeJwt rt assertion = some (header, payload))
    (htimely : Timely payload config.tokens.clockSkewSeconds now)
    (hchecked : assertionClaims clientId payload = .ok claims) :
    (claimAssertion rt config clientId claims).Sat C (fun _ _ => True)
      (fun s' _ => ∀ t, C.issue s'.past t (.note (.assertionAccepted clientId assertion))) s := by
  intro t ht
  obtain rfl : t = now := ht.2 now hnow
  refine ⟨hC _ _ _ rfl, fun _ _ t₁ ht₁ t₂ ht₂ => ?_⟩
  obtain rfl : t₂ = t₁ := ht₂.2 t₁ rfl
  refine ⟨hG _ _ _ (.claim hdecoded htimely hchecked), fun fresh _ => ?_⟩
  cases fresh with
  | error e => trivial
  | ok fresh =>
    cases fresh with
    | false => trivial
    | true =>
      intro t₃
      show C.issue (s.past ++ [⟨t, .suspend, ()⟩] ++ [_]) t₃ _
      rw [List.append_assoc]
      exact hG _ _ _ (.accepted hdecoded htimely hchecked)

theorem verifyPrivateKeyJwt_ensures (hC : Routine C)
    (hG : ∀ h t o, AssertionGuard rt config h t o → C.issue h t o) (client : Client) (assertion : JsString) :
    Ensures C (verifyPrivateKeyJwt rt config client assertion) fun _ => True := by
  unfold verifyPrivateKeyJwt
  split
  · exact fail_ensures
  · next header payload hdecoded =>
    split
    · exact fail_ensures
    · split
      · exact fail_ensures
      · refine andThen_ensures (clientJwks_ensures hC client) fun jwks _ => ?_
        split
        · exact fail_ensures
        · next jwk _ =>
          refine andThen_ensures (perform_ensures hC rfl) fun answer _ => ?_
          split
          · exact fail_ensures
          · intro s now hnow
            show Prog.Sat C _ _ _ (match validateClaims rt payload client.clientId config.issuer
              config.tokens.clockSkewSeconds now with | some error => _ | none => _)
            split
            · trivial
            · next hvalid =>
              split
              · trivial
              · next claims hchecked =>
                have accepted : ∀ s : Moment effects,
                    (∀ t, C.issue s.past t (.note (.assertionAccepted client.clientId assertion))) →
                    (note (.assertionAccepted client.clientId assertion) >>= fun _ => pure payload).Sat C
                      (fun _ _ => True) (fun _ _ => True) s :=
                  fun s hissue t _ => ⟨hissue t, fun _ _ => trivial⟩
                cases hstore : config.stateStore with
                | false => exact accepted _ fun t => hG _ _ _ (.unclaimed hstore)
                | true =>
                  exact Prog.sat_bind.mpr ((claimAssertion_sat hC hG rfl hdecoded
                    (timely_of_validateClaims hvalid) hchecked).mono (fun _ _ _ => trivial)
                    fun s' _ hissue => accepted s' hissue)

theorem authenticateClient_ensures (hC : Routine C)
    (hG : ∀ h t o, AssertionGuard rt config h t o → C.issue h t o) (client : Client) (credentials : Credentials) :
    Ensures C (authenticateClient rt config client credentials) fun _ => True := by
  unfold authenticateClient
  dsimp only
  split
  · split
    · exact fail_ensures
    · exact pure_ensures trivial
  · split
    · split
      · exact fail_ensures
      · exact verifySecret_ensures hC client credentials
    · split
      · split
        · exact fail_ensures
        · next assertion _ =>
          exact andThen_ensures (verifyPrivateKeyJwt_ensures hC hG client assertion) fun _ _ => pure_ensures trivial
      · exact fail_ensures

end Sag
