import Sag.LocalIdentities.Update
import Sag.Oauth.Clientauth
import Sag.Oauth.Tokens

/-!
# The token endpoint and userinfo

`endpoints/token.js` and `endpoints/userinfo.js`. A code that names a local account yields
tokens only if the account still stands after the code has been redeemed; what is then
issued says of the person what the code said (`Issued`).
-/

namespace Sag

open Resumable

variable (rt : Runtime) (config : Config)

/-- The answers of the two endpoints. -/
inductive ServiceReply where
  | tokens (accessToken : AccessToken) (idToken : Members) (expiresIn : Nat) (scope : JsString)
  | userinfo (claims : Members)
  | unauthorised (error : Option JsString) (description : JsString)

/-- The session behind a grant, as far as `validateSession` reads it. -/
def grantSession (grant : CodePayload) : Session where
  sid := grant.sid
  email := grant.email
  emailVerified := grant.emailVerified
  acr := grant.acr
  amr := grant.amr
  authTime := grant.authTime
  upstream := none
  upstreamLabel := none
  claims := grant.claims
  localIdentityId := grant.localIdentityId
  localIdentityKey := grant.localIdentityKey
  localSecurityVersion := grant.localSecurityVersion
  iat := grant.iat
  exp := grant.exp
  abs := grant.exp

/-- Is the local account of a grant still active? -/
def checkGrant (grant : CodePayload) : M Unit :=
  if grant.localIdentityId.getD [] = [] then pure ()
  else do
    let current ← if config.localIdentities.enabled then validateSession rt config (grantSession grant) else pure false
    if current then pure ()
    else fail (invalidGrant "The local identity for this authorization code is no longer active.")

/-- `if (grantType !== 'authorization_code')`. -/
def checkGrantType (grantType : Option JsString) : Except JsError Unit :=
  if grantType = some (js "authorization_code") then .ok ()
  else if grantType = some (js "refresh_token") then
    .error (oauthError (js "unsupported_grant_type") (js ("Refresh tokens are not issued here. Re-run the " ++
      "authorization code flow; an existing session will usually answer it without any interaction.")))
  else
    .error (oauthError (js "unsupported_grant_type") (js "Only the authorization_code grant is supported."))

/-- `POST /token`. -/
def handleToken (request : TokenRequest) : M ServiceReply := do
  suspend
  let params ← Prog.ofExcept (F := effects) request.form
  let grantType ← param params (js "grant_type")
  Prog.ofExcept (F := effects) (checkGrantType (textOf grantType))
  let credentials ← Prog.ofExcept (F := effects) (readCredentials rt request.authorization params)
  let clientId ← Prog.ofExcept (F := effects) (requireClientId credentials)
  match ← attempt (perform (.resolveClient clientId)) with
  | none => fail (invalidClient (js "No client is registered with that client_id here."))
  | some client =>
    authenticateClient rt config client credentials
    match ← param params (js "code") with
    | none => fail (invalidGrant "The code parameter is missing.")
    | some code =>
      let redirectUri ← param params (js "redirect_uri")
      let codeVerifier ← param params (js "code_verifier")
      let grant ← redeemCode rt config.stateStore ⟨code, clientId, textOf redirectUri, textOf codeVerifier⟩
      checkGrant rt config grant
      let accessToken ← issueAccessToken config grant
      let idToken ← idTokenClaims config grant clientId grant.nonce
      attempt (perform (.signIdToken grant.idTokenAlg))
      pure (.tokens accessToken idToken config.tokens.accessTokenTtlSeconds (join [32] grant.scope))

/-- A request to `/userinfo`. What a submitted string opens to is up to its sender. -/
structure UserinfoRequest where
  isPost : Bool
  contentType : Option JsString
  form : Except JsError Form
  authorization : Option JsString
  opens : JsString → Option AccessToken

/-- `/^bearer /i`. -/
def isBearer (authorization : JsString) : Bool :=
  (js "bearer ").isPrefixOf ((authorization.take 7).map fun u => if isUpper u then u + 32 else u)

/-- The access token that a request presents. -/
def presentedToken (request : UserinfoRequest) : M (Option JsString) :=
  match request.authorization.filter isBearer with
  | some header => pure (some (trim (header.drop 7)))
  | none =>
    if request.isPost && includes (js "application/x-www-form-urlencoded")
        (rt.cases.toLowerCase (request.contentType.getD [])) then do
      suspend
      let params ← Prog.ofExcept (F := effects) request.form
      let token ← param params (js "access_token")
      pure (textOf token)
    else pure none

/-- The claims of a userinfo answer. -/
def userinfoClaims (grant : AccessToken) : Members :=
  assign
      ((js "sub", Json.str grant.sub) :: emailClaims grant.scope grant.email grant.emailVerified)
      (profileScopeClaims config grant.scope grant.claims) ++
    [(js "acr", .str grant.acr), (js "amr", .arr (grant.amr.map .str)), (js "auth_time", .ofNat grant.authTime)]

/-- `GET` or `POST /userinfo`. -/
def handleUserinfo (request : UserinfoRequest) : M ServiceReply := do
  match (← presentedToken rt request).filter (· ≠ []) with
  | none => pure (.unauthorised none (js "Present an access token in the Authorization header."))
  | some token =>
    match ← readAccessToken (request.opens token) with
    | none => pure (.unauthorised (some (js "invalid_token")) (js "The access token is invalid or has expired."))
    | some grant => pure (.userinfo (userinfoClaims config grant))

/-! ## What the endpoints do -/

/-- The codes that a request hands in. -/
def TokenRequest.presents (request : TokenRequest) (tok : Sealed) : Prop :=
  ∃ v ∈ (request.form.toOption.getD []).map (·.2), v.opens = some tok

/-- The access tokens that a request hands in. -/
def UserinfoRequest.presents (request : UserinfoRequest) (grant : AccessToken) : Prop :=
  ∃ s, request.opens s = some grant

/-- The operations that are issued besides the routine ones: those of an assertion, and the
claim on a code. -/
inductive TokenGuard : List (Event effects) → Nat → Op → Prop where
  | routine {h : List (Event effects)} {t : Nat} {o : Op} (routine : o.routine = true) : TokenGuard h t o
  | assertion {h : List (Event effects)} {t : Nat} {o : Op} (guard : AssertionGuard rt config h t o) :
      TokenGuard h t o
  | redeem {h : List (Event effects)} {t t' : Nat} {payload : CodePayload} :
      TokenGuard h t (.store (codeClaim payload t'))

/-- A code that tokens may be issued for: it was submitted, and its local account stands, if
it names one. -/
structure Granted (C : Rely effects) (request : TokenRequest) (payload : CodePayload) : Prop where
  presented : request.presents (.code payload)
  account : payload.localIdentityId.getD [] ≠ [] → Standing rt config C (grantSession (migrateCode payload))

/-- What the service is called for. -/
inductive ServiceCall where
  | token (request : TokenRequest)
  | userinfo (request : UserinfoRequest)

/-- What an answer says is what its code or its access token said. -/
inductive Answered (C : Rely effects) : ServiceCall → ServiceReply → Prop where
  | issued {request : TokenRequest} {payload : CodePayload} {now now' : Nat} {jti audience scope : JsString}
      (granted : Granted rt config C request payload) :
      Answered C (.token request) (.tokens (accessTokenAt config now jti (migrateCode payload))
        (idTokenClaimsAt config now' (migrateCode payload) audience (migrateCode payload).nonce)
        config.tokens.accessTokenTtlSeconds scope)
  | userinfo {request : UserinfoRequest} {grant : AccessToken} (presented : request.presents grant) :
      Answered C (.userinfo request) (.userinfo (userinfoClaims config (migrateAccess grant)))
  | unauthorised {request : UserinfoRequest} {error : Option JsString} {description : JsString} :
      Answered C (.userinfo request) (.unauthorised error description)

variable {rt config} {C : Contract effects}

theorem checkVerifier_ensures (hC : Routine C) (payload : CodePayload) (codeVerifier : Option JsString) :
    Ensures C (checkVerifier rt payload codeVerifier) fun _ => True := by
  unfold checkVerifier
  split
  · exact pure_ensures trivial
  · split
    · exact fail_ensures
    · split
      · exact fail_ensures
      · refine suspend_then_ensures hC ?_
        split
        · exact pure_ensures trivial
        · exact fail_ensures

/-- A redemption, whatever went before it. -/
theorem redeemCode_ensures (hC : Routine C) (hclaim : ∀ h t payload t', C.issue h t (.store (codeClaim payload t')))
    (replayStore : Bool) (r : Redemption) :
    Ensures C (redeemCode rt replayStore r) fun grant =>
      ∃ payload, r.code.opens = some (.code payload) ∧ grant = migrateCode payload := by
  refine andThen_ensures (tryCatch_ensures (unsealToken_ensures hC) fun _ => fail_ensures) fun payload hopen => ?_
  obtain ⟨tok, exp, now, htok, hcode, -, -⟩ := hopen
  have hopens : r.code.opens = some (.code payload) := by
    cases tok <;> simp [asCode] at hcode
    rw [htok, hcode.1]
  have redeemed : Ensures C (pure (migrateCode payload) : M CodePayload) fun grant =>
      ∃ payload, r.code.opens = some (.code payload) ∧ grant = migrateCode payload :=
    pure_ensures ⟨payload, hopens, rfl⟩
  split
  · exact fail_ensures
  · split
    · exact fail_ensures
    · split
      · exact fail_ensures
      · refine andThen_ensures (checkVerifier_ensures hC payload r.codeVerifier) fun _ _ => ?_
        split
        · refine now_then_ensures fun now _ => ?_
          refine andThen_ensures (attempt_ensures (issue_ensures fun h t _ => hclaim h t payload now)) fun fresh _ => ?_
          cases fresh with
          | true => exact redeemed
          | false => exact fail_ensures
        · exact redeemed

theorem migrateCode_localIdentityId (payload : CodePayload) :
    (migrateCode payload).localIdentityId = payload.localIdentityId := by
  unfold migrateCode
  split <;> rfl

theorem checkGrant_ensures (hC : Routine C) (grant : CodePayload) :
    Ensures C (checkGrant rt config grant) fun _ =>
      grant.localIdentityId.getD [] ≠ [] → Standing rt config C (grantSession grant) := by
  unfold checkGrant
  split
  · next hnone => exact pure_ensures fun hnamed => absurd hnone hnamed
  · split
    · refine andThen_ensures (validateSession_ensures hC (grantSession grant)) fun valid hvalid => ?_
      cases valid with
      | true => exact pure_ensures (hvalid rfl)
      | false => exact fail_ensures
    · exact fail_ensures

theorem mem_of_param {params : Form} {name : JsString} :
    Ensures C (param params name) fun v => ∀ value, v = some value → (name, value) ∈ params :=
  ofExcept_ensures fun _ hv _ heq => mem_of_single (heq ▸ hv)

theorem issueAccessToken_ensures (hC : Routine C) (grant : CodePayload) :
    Ensures C (issueAccessToken config grant) fun token => ∃ now jti, token = accessTokenAt config now jti grant :=
  now_then_ensures fun now _ => andThen_ensures (randomToken_ensures hC 12) fun jti _ =>
    suspend_then_ensures hC (pure_ensures ⟨now, jti, rfl⟩)

theorem idTokenClaims_ensures (hC : Routine C) (grant : CodePayload) (audience : JsString) (nonce : Option JsString) :
    Ensures C (idTokenClaims config grant audience nonce) fun claims =>
      ∃ now, claims = idTokenClaimsAt config now grant audience nonce :=
  now_then_ensures fun now _ => suspend_then_ensures hC (pure_ensures ⟨now, rfl⟩)

theorem handleToken_ensures (hG : ∀ h t o, TokenGuard rt config h t o → C.issue h t o) (request : TokenRequest) :
    Ensures C (handleToken rt config request) (Answered rt config C (.token request)) := by
  have hC : Routine C := fun _ _ _ ho => hG _ _ _ (.routine ho)
  have hA : ∀ h t o, AssertionGuard rt config h t o → C.issue h t o := fun _ _ _ ho => hG _ _ _ (.assertion ho)
  have either : ∀ {α : Type} (x : Except JsError α), Ensures C (Prog.ofExcept (F := effects) x) fun _ => True :=
    fun x => ofExcept_ensures fun _ _ => trivial
  refine suspend_then_ensures hC (andThen_ensures (ofExcept_ensures fun params hform => hform) fun params hform => ?_)
  refine andThen_ensures (either _) fun grantType _ => andThen_ensures (either _) fun _ _ => ?_
  refine andThen_ensures (either _) fun credentials _ => andThen_ensures (either _) fun clientId _ => ?_
  refine andThen_ensures (attempt_ensures (perform_ensures hC rfl)) fun found _ => ?_
  cases found with
  | none => exact fail_ensures
  | some client =>
    refine andThen_ensures (authenticateClient_ensures hC hA client credentials) fun _ _ => ?_
    refine andThen_ensures mem_of_param fun submitted hsubmitted => ?_
    cases submitted with
    | none => exact fail_ensures
    | some code =>
      refine andThen_ensures (either _) fun redirectUri _ => andThen_ensures (either _) fun codeVerifier _ => ?_
      refine andThen_ensures (redeemCode_ensures hC (fun _ _ _ _ => hG _ _ _ .redeem) _ _) fun grant hgrant => ?_
      obtain ⟨payload, hopens, rfl⟩ := hgrant
      refine andThen_ensures (checkGrant_ensures hC _) fun _ haccount => ?_
      have hpresented : request.presents (.code payload) := by
        have hmem : (js "code", code) ∈ request.form.toOption.getD [] := by
          rw [hform]
          exact hsubmitted code rfl
        exact ⟨code, List.mem_map.mpr ⟨_, hmem, rfl⟩, hopens⟩
      have hgranted : Granted rt config C request payload :=
        ⟨hpresented, fun hnamed => haccount (by rwa [migrateCode_localIdentityId])⟩
      refine andThen_ensures (issueAccessToken_ensures hC _) fun token htoken => ?_
      obtain ⟨now, jti, rfl⟩ := htoken
      refine andThen_ensures (idTokenClaims_ensures hC _ _ _) fun claims hclaims => ?_
      obtain ⟨now', rfl⟩ := hclaims
      exact andThen_ensures (attempt_ensures (perform_ensures hC rfl)) fun _ _ => pure_ensures (.issued hgranted)

theorem presentedToken_ensures (hC : Routine C) (request : UserinfoRequest) :
    Ensures C (presentedToken rt request) fun _ => True := by
  unfold presentedToken
  split
  · exact pure_ensures trivial
  · split
    · refine suspend_then_ensures hC (andThen_ensures (ofExcept_ensures fun _ _ => trivial) fun params _ => ?_)
      exact andThen_ensures (ofExcept_ensures fun _ _ => trivial) fun _ _ => pure_ensures trivial
    · exact pure_ensures trivial

theorem readAccessToken_ensures (hC : Routine C) (opens : Option AccessToken) :
    Ensures C (readAccessToken opens) fun r => ∀ grant, r = some grant →
      ∃ token, opens = some token ∧ grant = migrateAccess token := by
  unfold readAccessToken
  split
  · exact pure_ensures nofun
  · next token =>
    refine suspend_then_ensures hC (now_then_ensures fun now _ => ?_)
    split
    · exact pure_ensures nofun
    · refine pure_ensures fun grant heq => ⟨token, rfl, ?_⟩
      exact (Option.some.inj heq).symm

theorem handleUserinfo_ensures (hC : Routine C) (request : UserinfoRequest) :
    Ensures C (handleUserinfo rt config request) (Answered rt config C (.userinfo request)) := by
  refine andThen_ensures (presentedToken_ensures hC request) fun token _ => ?_
  split
  · exact pure_ensures .unauthorised
  · next token _ =>
    refine andThen_ensures (readAccessToken_ensures hC (request.opens token)) fun r hr => ?_
    cases r with
    | none => exact pure_ensures .unauthorised
    | some grant =>
      obtain ⟨access, hopens, rfl⟩ := hr grant rfl
      exact pure_ensures (.userinfo ⟨token, hopens⟩)

end Sag
