import Sag.Endpoints.Respond
import Sag.LocalIdentities.Store
import Sag.Oauth.Code
import Sag.Otp
import Sag.Store.Limits
import Sag.Upstream

/-!
# The interactive flow

`endpoints/authorize.js`: one handler for each endpoint, over the sealed
transaction the browser carries between them. Nothing on the server remembers
which page came last, so every handler has to be read as callable at any moment,
with any copy of any transaction that was ever handed out.

The handlers are written in the order of the source. Logging is left out.
-/

namespace Sag

open Resumable

variable (rt : Runtime) (config : Config) (request : Request)

/-! ## Completion -/

/-- A mutable local account can invalidate a still-valid sealed session. -/
def validSession (session : Option Session) : M (Option Session) :=
  match session with
  | none => pure none
  | some session =>
    if session.localIdentityId.getD [] = [] then pure (some session)
    else if !config.localIdentities.enabled then pure none
    else do
      let valid ← validateSession rt config session
      pure (if valid then some session else none)

/-- The session of this request, as far as it is valid. -/
def currentSession (client : Client) : M (Option Session) := do
  let session ← readSession rt config request (sessionClientFor config (some client))
  validSession rt config session

/-- The subject one relying party sees. -/
def subjectOf (session : Session) (email : JsString) (client : Client) : M JsString :=
  match session.localIdentityId.filter (· ≠ []) with
  | some id =>
    if !safeId id then fail (.error (js "local subjects require a valid stable identity id"))
    else
      match subjectForLocalIdentity rt config id client with
      | none => fail (.error (js "subjects require SUBJECT_SALT to be set"))
      | some sub => do
        suspend
        pure sub
  | none =>
    match subjectFor rt config email client with
    | none => fail (.error (js "subjects require SUBJECT_SALT to be set"))
    | some sub => do
      suspend
      pure sub

/-- What a completed request does with the remembered address. -/
def withRememberMe (tx : Transaction) (session : Session) (response : Response) : M Response :=
  match tx.rememberMe with
  | some true => do
    let cookie ← rememberMeCookie rt session.email
    pure (withCookie response cookie)
  | some false =>
    pure (if hasRememberMeCookie request then withCookie response clearRememberMeCookie else response)
  | none => do
    match ← readRememberedEmail rt request with
    | none => pure response
    | some _ =>
      let cookie ← rememberMeCookie rt session.email
      pure (withCookie response cookie)

/-- Mint the authorisation code and hand control back to the relying party. Every
caller has the session cookie refreshed. -/
def complete (tx : Transaction) (client : Client) (authenticated : Session) : M Response := do
  let session ← touch config authenticated
  let email := identityEmail config session.email client
  let sub ← subjectOf rt config session email client
  let code ← issueCode config tx session sub email
  let cookie ← sessionCookie rt config session (sessionClientFor config (some client))
  withRememberMe rt request tx session (withCookie (authorizationResponse tx code) cookie)

/-! ## Rendering a stage -/

def errorStatus (error : Option PageError) : Nat := if error.isSome then 400 else 200

def renderEmail (tx : Transaction) (email : Option JsString) (error : Option PageError)
    (otpRecovery : Bool) : M Response := do
  let rememberedEmail ← readRememberedEmail rt request
  let sealed ← sealToken (.tx { tx with stage := .email })
  let response := html
    (.email sealed (email <|> rememberedEmail) (tx.rememberMe.getD rememberedEmail.isSome) error
      (config.otp.enabled && !requiresFederation tx.acrValues) otpRecovery)
    (errorStatus error)
  match rememberedEmail with
  | some remembered =>
    if tx.rememberMe ≠ some false then do
      let cookie ← rememberMeCookie rt remembered
      pure (withCookie response cookie)
    else pure response
  | none => pure response

def renderOtp (tx : Transaction) (error : Option PageError) (devCode : Option JsString)
    (resent : Bool) : M Response := do
  let sealed ← sealToken (.tx tx)
  pure (html (.otp sealed tx.email error devCode resent) (errorStatus error))

def renderLocalPassword (tx : Transaction) (error : Option PageError) : M Response := do
  let candidates := (upstreamsFor rt config tx.email).map fun u => (u.id, labelFor u)
  let sealed ← sealToken (.tx { tx with stage := .localPassword })
  pure (html (.localPassword sealed tx.email error candidates) (errorStatus error))

def renderLocalMfa (tx : Transaction) (error : Option PageError) (totpDigits : List Nat) :
    M Response := do
  let sealed ← sealToken (.tx { tx with stage := .localMfa })
  pure (html (.localMfa sealed tx.email error totpDigits) (errorStatus error))

def renderContinue (tx : Transaction) (session : Session) : M Response := do
  let sealed ← sealToken (.tx { tx with stage := .continue })
  pure (html (.continue sealed (displayIdentity config session) none) 200)

def renderChooser (tx : Transaction) (upstreams : List Upstream) (hinted : Option JsString)
    (error : Option PageError) : M Response := do
  let sealed ← sealToken (.tx { tx with stage := .choose })
  let options := upstreams.map fun u => (u.id, js "Continue with " ++ labelFor u)
  pure (html (.chooser sealed tx.email options hinted error (otpAllowed rt config tx.email))
    (errorStatus error))

/-! ## GET/POST /authorize -/

/-- Can this request be answered from what we already know? -/
def decideRequest (tx : Transaction) (client : Client) (session : Option Session) : M Response := do
  let wantsSilent : Bool := js "none" ∈ tx.prompt
  let forcesLogin : Bool := js "login" ∈ tx.prompt || js "select_account" ∈ tx.prompt
  let now ← nowSeconds
  let fresh := fun s : Session => freshAt config now s tx.maxAge
  if wantsSilent then
    match session with
    | none =>
      pure (failureResponse
        (loginRequired "There is no active session to answer this request from.") (redirectTargets tx))
    | some session =>
      if !fresh session then
        pure (failureResponse
          (loginRequired "The existing session is too old for this request.") (redirectTargets tx))
      else if !satisfies session.acr tx.acrValues then
        pure (failureResponse
          (unmetAcr "The existing session does not meet the requested authentication context.")
          (redirectTargets tx))
      else if forcesLogin then
        pure (failureResponse
          (interactionRequired "prompt=none cannot be combined with a demand to re-authenticate.")
          (redirectTargets tx))
      else complete rt config request tx client session
  else
    match session.filter fun s =>
        !forcesLogin && fresh s && satisfies s.acr tx.acrValues && js "consent" ∈ tx.prompt with
    | some session => renderContinue config { tx with stage := .continue } session
    | none =>
      let prefill := tx.loginHint.filter (· ≠ []) <|>
        (if forcesLogin then none else session.map (·.email))
      renderEmail rt config request tx prefill none false

/-- Report a request that did not parse. -/
def rejectRequest (params : Form) (error : JsError) : M Response :=
  match error with
  | .oauth .. => do
    let redirectUri := textOf (← param params (js "redirect_uri"))
    let state := textOf (← param params (js "state"))
    let responseMode := textOf (← param params (js "response_mode"))
    pure (failureResponse error ⟨redirectUri, state, responseMode⟩)
  | _ => pure (failureResponse error noTargets)

/-- The parameters of a request that may come either way. -/
def requestParams : M Form := if request.isPost then readForm request else pure request.query

def handleAuthorize : M Response := do
  let params ← requestParams request
  match ← Prog.settled (parseAuthorizationRequest rt config params) with
  | .error error => rejectRequest params error
  | .ok (client, req) =>
    let tx ← newTransaction config req client
    let session ← currentSession rt config request client
    decideRequest rt config request tx client session

/-! ## Reading a transaction back -/

def expiredMessage : String :=
  "This sign-in attempt took too long and has expired. Go back to the application and try again."

def unregisteredMessage : String :=
  "The application that started this sign-in is no longer registered here."

/-- A transaction that was handed back, with its client and the form. -/
structure Loaded where
  tx : Transaction
  client : Client
  params : Form

/-- Recover the transaction from a submitted form, or end at "start again". -/
def loadTransaction : M (Except Response Loaded) := do
  let params ← readForm request
  match ← param params (js "tx") with
  | none => pure (.error startAgain)
  | some token =>
    match ← catchSeal (some <$> openTransaction token) (pure none) with
    | none => pure (.error startAgain)
    | some tx =>
      let late ← expired tx
      if late then pure (.error (startAgainResponse expiredMessage))
      else
        match ← attempt (perform (.resolveClient tx.clientId)) with
        | none => pure (.error (startAgainResponse unregisteredMessage))
        | some client => pure (.ok ⟨tx, client, params⟩)

/-- Run a handler on the transaction of the request. -/
def onTransaction (handler : Loaded → M Response) : M Response := do
  match ← loadTransaction request with
  | .error response => pure response
  | .ok loaded => handler loaded

/-! ## Email OTP -/

/-- Does the address take the decoy screens? -/
def isDecoy (email : Option JsString) : Bool := !otpAllowed rt config email

/-- Draw a code, and the transaction that carries its digest. -/
def drawOtp (tx : Transaction) (resends : Nat) : M (JsString × Transaction) := do
  let code ← generateCode rt config.otp.codeLength (alphabetFor config)
  let digest ← digestCode rt config tx.id tx.email code
  let now ← nowSeconds
  let expiresAt := now + config.otp.ttlSeconds
  note (.otpGenerated tx.id tx.email code expiresAt)
  pure (code, withOtp tx (some digest) expiresAt resends now)

/-- Hand a drawn code to the email sender and show the code screen. -/
def deliverOtp (tx : Transaction) (code : JsString) (next : Transaction) (resend : Bool) :
    M Response := do
  match ← perform (.sendEmail
      { «to» := tx.email, sender := config.emailFrom, code
        ttlMinutes := (config.otp.ttlSeconds + 30) / 60
        organisation := config.organisation, application := tx.clientName }) with
  | .ok devCode => renderOtp next none devCode resend
  | .error _ =>
    renderOtp next
      (some ⟨js "We could not send your code",
        js "Try requesting another code. If it keeps failing, contact whoever runs this service."⟩)
      none false

def sendOtp (tx : Transaction) (resend : Bool) : M Response := do
  let resends := if resend then ((tx.otp.map (·.resends)).getD 0) + 1 else 0
  if config.otp.maxResends < resends then
    renderOtp tx
      (some ⟨js "Too many codes requested",
        js "Go back to the application and start signing in again."⟩)
      none false
  else
    let limit ← checkOtpSendAllowed rt config (tx.email.getD (js "undefined"))
    if !limit.allowed then
      let now ← nowSeconds
      let kept := if tx.otp.isSome then tx
        else withOtp tx none (now + config.otp.ttlSeconds) resends now
      renderOtp kept none none resend
    else
      let (code, next) ← drawOtp rt config tx resends
      if isDecoy rt config tx.email then renderOtp next none none resend
      else deliverOtp config tx code next resend

def handleOtpRequest : M Response :=
  onTransaction request fun loaded =>
    if !otpAllowed rt config loaded.tx.email || requiresFederation loaded.tx.acrValues then
      pure (startAgainResponse "Signing in with an email code is not available for this request.")
    else sendOtp rt config loaded.tx false

def handleResend : M Response :=
  onTransaction request fun loaded =>
    if loaded.tx.email.getD [] = [] || loaded.tx.stage ≠ .otp then pure startAgain
    else sendOtp rt config loaded.tx true

/-- The page that answers a code which was not accepted. -/
def otpError (tx : Transaction) (reason : VerifyReason) : PageError :=
  match reason with
  | .expired => ⟨js "That code has expired", js "Request another code and enter the new one."⟩
  | .tooManyAttempts =>
    ⟨js "Too many incorrect codes",
      js "Request another code, or go back to the application and start again."⟩
  | .noCode | .mismatch =>
    let attempts := (tx.otp.map (·.attempts)).getD 0
    ⟨js "That code is not right",
      if attempts < config.otp.maxAttempts then
        js "Check the code in the email and try again. " ++ decimal (config.otp.maxAttempts - attempts) ++
          js " attempt" ++ (if config.otp.maxAttempts - attempts = 1 then [] else js "s") ++ js " left."
      else js "Request another code."⟩

/-- The session after an accepted code: the one there is, if it is the same
person's, else a new one. -/
def otpSession (tx : Transaction) (existing : Option Session) : M Session :=
  let email := tx.email.getD []
  let args : SessionArgs :=
    { email, emailVerified := true, acr := acrForOtp.acr, amr := acrForOtp.amr
      upstream := none, upstreamLabel := none, claims := inferredClaims rt config email
      localIdentityId := none, localIdentityKey := none, localSecurityVersion := none }
  match existing.filter fun s => s.localIdentityId.getD [] = [] ∧ some s.email = tx.email with
  | some session => reauthenticate config session args
  | none => newSession config args

def handleOtpSubmit : M Response :=
  onTransaction request fun loaded => do
    if loaded.tx.stage ≠ .otp || loaded.tx.otp.isNone then pure startAgain
    else
      let submitted ← param loaded.params (js "code")
      match ← verifyCode rt config loaded.tx (textOf submitted) with
      | some reason =>
        let attempted := withOtpAttempt loaded.tx
        renderOtp attempted (some (otpError config attempted reason)) none false
      | none =>
        let existing ← readSession rt config request (sessionClientFor config (some loaded.client))
        let session ← otpSession rt config loaded.tx existing
        complete rt config request loaded.tx loaded.client session

/-! ## Upstream round trip: the way out -/

def startUpstream (tx : Transaction) (upstream : Upstream) (hinted : Bool) : M Response := do
  match ← Prog.settled (beginUpstream rt config upstream tx hinted) with
  | .ok body => pure (redirect body)
  | .error _ =>
    if otpAllowed rt config tx.email && !requiresFederation tx.acrValues then sendOtp rt config tx false
    else
      pure (failureResponse
        (serverError "The sign-in provider for your organisation could not be reached.")
        (redirectTargets tx))

def handleChooseUpstream : M Response :=
  onTransaction request fun loaded => do
    let chosen := textOf (← param loaded.params (js "upstream"))
    match (upstreamsFor rt config loaded.tx.email).find? fun u => some u.id = chosen with
    | none => pure startAgain
    | some upstream => startUpstream rt config loaded.tx upstream false

/-! ## POST /authorize/email -/

/-- No sign-in route covers the address. -/
def routeUnknown (tx : Transaction) : M Response :=
  if otpAllowed rt config tx.email then
    pure (failureResponse
      (unmetAcr "No sign-in method available for this address can satisfy the requested authentication context.")
      (redirectTargets tx))
  else if config.unknownAddress = .explain || !config.otp.enabled then
    renderEmail rt config request tx tx.email
      (some ⟨js "We cannot sign you in with that address",
        js "This service does not accept " ++ ((split atSign (tx.email.getD []))[1]?).getD [] ++
          js " addresses. Try the address you use at work."⟩)
      false
  else sendOtp rt config tx false

/-- More than one provider, or one that only might serve the address. -/
def routeHinted (tx : Transaction) (candidates : List Upstream) (otpPossible : Bool) : M Response := do
  let hint ← hintUpstreams config candidates (((split atSign (tx.email.getD []))[1]?).getD [])
  match hint.hinted.filter fun _ => config.dnsHint = .select with
  | some hinted => startUpstream rt config tx hinted true
  | none =>
    if otpPossible && (hint.unmatched || (candidates.length = 1 && hint.hinted.isNone)) then
      sendOtp rt config tx false
    else renderChooser rt config tx hint.list (hint.hinted.map (·.id)) none

/-- Decide how this address should be authenticated. -/
def route (tx : Transaction) : M Response :=
  let otpPossible := otpAllowed rt config tx.email && !requiresFederation tx.acrValues
  if localIdentityAllowed rt config tx.email then renderLocalPassword rt config tx none
  else
    match upstreamsFor rt config tx.email with
    | [] => if otpPossible then sendOtp rt config tx false else routeUnknown rt config request tx
    | first :: rest =>
      if !first.isCommon then
        if rest = [] then startUpstream rt config tx first false
        else renderChooser rt config tx (first :: rest) none none
      else if rest = [] && (config.dnsHint = .off ||
          (first.provider = js "oidc" && first.mailProvider.getD [] = [])) then
        startUpstream rt config tx first false
      else routeHinted rt config tx (first :: rest) otpPossible

def handleEmailSubmit : M Response :=
  onTransaction request fun loaded => do
    let rememberMe := (← param loaded.params (js "remember_me")).isSome
    let next := { loaded.tx with rememberMe := some rememberMe }
    let typed := textOf (← param loaded.params (js "email"))
    match (normaliseEmail rt typed).filter looksLikeEmail with
    | none =>
      let raw := ((loaded.params.find? (·.1 = js "email")).map (·.2.text)).getD []
      renderEmail rt config request next (some raw)
        (some ⟨js "Check your email address", js "Enter an address in the form name@example.com."⟩)
        false
    | some email =>
      let ready := { next with email := some email }
      let method := textOf (← param loaded.params (js "method"))
      if method = some (js "otp") && config.otp.enabled && !requiresFederation ready.acrValues then
        sendOtp rt config ready false
      else route rt config request ready

/-! ## Local password and second factor -/

def LOCAL_CREDENTIAL_ERROR : PageError :=
  ⟨js "We could not sign you in", js "Check your details and try again."⟩

def completeLocalAuthentication (tx : Transaction) (client : Client) (record : LocalRecord)
    (secondFactor : Option FactorMethod) : M Response := do
  let context := acrForLocal secondFactor
  let args : SessionArgs :=
    { email := tx.email.getD [], emailVerified := false, acr := context.acr, amr := context.amr
      upstream := none, upstreamLabel := none, claims := profileClaims config record
      localIdentityId := some record.id, localIdentityKey := some record.key
      localSecurityVersion := some record.securityVersion }
  let existing ← currentSession rt config request client
  match existing.filter fun s => s.localIdentityId = some record.id with
  | some session => do
    let session ← reauthenticate config session args
    complete rt config request tx client session
  | none => do
    let session ← newSession config args
    complete rt config request tx client session

/-- What an accepted password leads to. -/
def afterPassword (tx : Transaction) (client : Client) (record : LocalRecord) : M Response :=
  let potential := acrForLocal (if requiresSecondFactor record then some .totp else none)
  if !satisfies potential.acr tx.acrValues then
    renderLocalPassword rt config tx (some LOCAL_CREDENTIAL_ERROR)
  else if requiresSecondFactor record then
    renderLocalMfa { tx with localIdentity := some ⟨record.id, record.securityVersion⟩ } none
      (record.totp.map (·.digits))
  else completeLocalAuthentication rt config request tx client record none

def handleLocalPassword : M Response :=
  onTransaction request fun loaded => do
    let tx := loaded.tx
    if tx.stage ≠ .localPassword || tx.email.getD [] = [] || !localIdentityAllowed rt config tx.email then
      pure startAgain
    else
      let (limit, found) ← promiseAll
        (checkLocalAuthAllowed rt config request (tx.email.getD []) .password)
        (find rt config tx.email)
      let password ← param loaded.params (js "password")
      let verified ← verifyPassword config found (textOf password)
      match found.record.filter fun _ => verified && limit.allowed with
      | none => renderLocalPassword rt config tx (some LOCAL_CREDENTIAL_ERROR)
      | some record => afterPassword rt config request tx loaded.client record

/-- The record a second factor is expected for. -/
def expectedRecord (found : Found) (ref : LocalIdentityRef) : Option LocalRecord :=
  found.record.filter fun r => !r.disabled && r.id = ref.id && r.securityVersion = ref.securityVersion

/-- Check the submitted second factor, consuming it only where that is allowed. -/
def checkSecondFactor (params : Form) (expected : Option LocalRecord) (consume : Bool) :
    M (Option FactorResult) :=
  match expected with
  | none => pure none
  | some record => do
    let code ← param params (js "code")
    let now ← nowSeconds
    verifySecondFactor rt config record (textOf code) now consume

def handleLocalMfa : M Response :=
  onTransaction request fun loaded => do
    let tx := loaded.tx
    match tx.localIdentity.filter (·.id ≠ []) with
    | none => pure startAgain
    | some ref =>
      if tx.stage ≠ .localMfa || tx.email.getD [] = [] || !localIdentityAllowed rt config tx.email then
        pure startAgain
      else
        let (limit, found) ← promiseAll
          (checkLocalAuthAllowed rt config request (tx.email.getD []) .mfa)
          (find rt config tx.email)
        let expected := expectedRecord found ref
        let result ← checkSecondFactor rt config loaded.params expected limit.allowed
        match result.filter fun _ => limit.allowed with
        | none =>
          renderLocalMfa tx (some LOCAL_CREDENTIAL_ERROR)
            ((expected.map fun r => r.totp.map (·.digits)).getD [])
        | some result =>
          completeLocalAuthentication rt config request tx loaded.client result.record
            (some result.method)

/-! ## Restart and continue -/

def handleRestart : M Response :=
  onTransaction request fun loaded =>
    renderEmail rt config request (withoutOtp loaded.tx) none none false

def handleContinue : M Response :=
  onTransaction request fun loaded => do
    let tx := loaded.tx
    match ← currentSession rt config request loaded.client with
    | none => renderEmail rt config request tx none none false
    | some session =>
      let fresh ← sessionIsFresh config session tx.maxAge
      if !fresh then renderEmail rt config request tx (some session.email) none false
      else if !satisfies session.acr tx.acrValues then
        renderEmail rt config request tx (some session.email) none false
      else complete rt config request tx loaded.client session

/-! ## Upstream round trip: the way back -/

/-- An upstream failed part way through. -/
def offerFallback (tx : Transaction) : M Response :=
  let candidates := upstreamsFor rt config tx.email
  if localIdentityAllowed rt config tx.email then
    renderLocalPassword rt config (withoutAttempt tx)
      (some ⟨js "That sign-in did not complete",
        js "Try again, choose another provider, or use your password."⟩)
  else if 1 < candidates.length then
    renderChooser rt config (withoutAttempt tx) candidates none
      (some ⟨js "That sign-in did not complete",
        js "Try again, or choose a different way to sign in."⟩)
  else if otpAllowed rt config tx.email && !requiresFederation tx.acrValues then
    renderEmail rt config request (withoutOtp tx) tx.email
      (some ⟨js "That sign-in did not complete",
        js "Try again, or continue with an email code instead."⟩)
      true
  else
    pure (failureResponse
      (accessDenied "Signing in with your organisation provider did not complete.")
      (redirectTargets tx))

/-- The upstream reported an error instead of a code. -/
def upstreamRefused (stateTx : Transaction) (leg : UpstreamLeg) (upstreamError : JsString) :
    M Response :=
  if js "none" ∈ stateTx.prompt then
    pure (failureResponse
      (loginRequired "The sign-in provider could not authenticate you without interaction.")
      (redirectTargets stateTx))
  else if upstreamError = js "access_denied" ∧ leg.hinted = false then
    pure (failureResponse (accessDenied "You cancelled signing in, or the provider declined.")
      (redirectTargets stateTx))
  else offerFallback rt config request stateTx

/-- Keep a refresh token on the linked record, trying once more when the record
has moved on. -/
def persistRefreshToken (stateTx : Transaction) (upstream : Upstream) (outcome : Outcome)
    (record : LocalRecord) (link : UpstreamLink) : M LocalRecord :=
  match outcome.refreshToken.filter (· ≠ []) with
  | none => pure record
  | some token => do
    match ← storeRefreshToken record link token with
    | some record => pure record
    | none =>
      match ← linked rt config stateTx.email upstream.id (Json.member outcome.claims (js "iss"))
          (Json.member outcome.claims (js "sub")) with
      | none => fail (.error (js "could not persist the upstream refresh credential safely"))
      | some (retried, link) =>
        match ← storeRefreshToken retried link token with
        | none => fail (.error (js "could not persist the upstream refresh credential safely"))
        | some record => pure record

/-- The local record an upstream account is linked to, if any. -/
def linkedRecord (stateTx : Transaction) (upstream : Upstream) (outcome : Outcome) :
    M (Option LocalRecord) :=
  if config.localIdentities.enabled &&
      normaliseEmail rt (some outcome.email) = normaliseEmail rt stateTx.email then do
    match ← linked rt config stateTx.email upstream.id (Json.member outcome.claims (js "iss"))
        (Json.member outcome.claims (js "sub")) with
    | none => pure none
    | some (record, link) =>
      some <$> persistRefreshToken rt config stateTx upstream outcome record link
  else pure none

/-- What an upstream sign-in says about the person. -/
def upstreamArgs (stateTx : Transaction) (upstream : Upstream) (outcome : Outcome)
    (record : Option LocalRecord) : SessionArgs :=
  let context := acrFromUpstream rt.cases outcome.claims
  { email := if record.isSome then stateTx.email.getD [] else outcome.email
    emailVerified := true
    acr := context.acr
    amr := context.amr
    upstream := some upstream.id
    upstreamLabel := some (labelFor upstream)
    claims := relayedClaims config outcome.claims context.upstreamAcr
    localIdentityId := record.map (·.id)
    localIdentityKey := record.map (·.key)
    localSecurityVersion := record.map (·.securityVersion) }

/-- Is the session there already that of the person the upstream named? -/
def samePrincipal (args : SessionArgs) (outcome : Outcome) (existing : Session) : Bool :=
  match args.localIdentityId with
  | some id => existing.localIdentityId = some id
  | none => existing.localIdentityId.getD [] = [] && existing.email = outcome.email

/-- An upstream sign-in that is strong enough. -/
def afterUpstream (stateTx : Transaction) (client : Client) (upstream : Upstream) (outcome : Outcome) :
    M Response := do
  let record ← linkedRecord rt config stateTx upstream outcome
  let args := upstreamArgs rt config stateTx upstream outcome record
  let existing ← currentSession rt config request client
  let tx := { stateTx with upstream := none }
  match existing.filter (samePrincipal args outcome) with
  | some session => do
    let session ← reauthenticate config session args
    complete rt config request tx client session
  | none => do
    let session ← newSession config args
    complete rt config request tx client session

/-- The upstream answered with a code. -/
def upstreamReturned (stateTx : Transaction) (leg : UpstreamLeg) (client : Client) (code : JsString) :
    M Response :=
  match config.upstreams.find? (·.id = leg.id) with
  | none =>
    pure (startAgainResponse "The sign-in provider used for this attempt is no longer configured.")
  | some upstream => do
    match ← Prog.settled (completeUpstream rt upstream code leg stateTx.maxAge) with
    | .error _ => offerFallback rt config request stateTx
    | .ok outcome =>
      if !satisfies (acrFromUpstream rt.cases outcome.claims).acr stateTx.acrValues then
        pure (failureResponse
          (unmetAcr "The sign-in provider did not report an authentication strong enough for this request.")
          (redirectTargets stateTx))
      else afterUpstream rt config request stateTx client upstream outcome

/-- GET /callback - the upstream has sent the browser back. -/
def handleCallback : M Response := do
  match ← param request.query (js "state") with
  | none =>
    pure (startAgainResponse
      "This sign-in response is missing its state and cannot be matched to a request.")
  | some token =>
    match ← catchSeal (some <$> openUpstreamState token) (pure none) with
    | none =>
      pure (startAgainResponse
        "This sign-in response could not be matched to a request that started here.")
    | some (stateTx, leg) =>
      let late ← expired stateTx
      if late then pure (startAgainResponse "This sign-in attempt took too long and has expired.")
      else
        match ← attempt (perform (.resolveClient stateTx.clientId)) with
        | none => pure (startAgainResponse unregisteredMessage)
        | some client =>
          match textOf (← param request.query (js "error")) with
          | some upstreamError => do
            let _ ← param request.query (js "error_description")
            upstreamRefused rt config request stateTx leg upstreamError
          | none =>
            match textOf (← param request.query (js "code")) with
            | none => pure (startAgainResponse "This sign-in response has no authorization code.")
            | some code => upstreamReturned rt config request stateTx leg client code

end Sag
