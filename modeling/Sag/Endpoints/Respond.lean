import Sag.Oauth.Transaction

/-!
# Responses and the remembered address

`endpoints/respond.js` and `remember-me.js`. An error goes to the relying party
only when it may be relayed and there is a redirect URI that has been validated;
every other error is a page, and a page carries no token.
-/

namespace Sag

open Resumable

variable (rt : Runtime)

/-- Where an error may be sent. -/
structure RedirectTargets where
  redirectUri : Option JsString
  state : Option JsString
  responseMode : Option JsString

def noTargets : RedirectTargets := ⟨none, none, none⟩

def redirectTargets (tx : Transaction) : RedirectTargets :=
  ⟨some tx.redirectUri, tx.state, some tx.responseMode⟩

/-- Send a successful authorisation back to the relying party. -/
def authorizationResponse (tx : Transaction) (code : Sealed) : Response :=
  if tx.responseMode = js "form_post" then html (.code tx.redirectUri tx.responseMode code tx.state) 200
  else redirect (.code tx.redirectUri tx.responseMode code tx.state)

def titleFor (error : JsError) : JsString :=
  let code := match error with
    | .oauth code .. | .unredirectable code .. => code
    | _ => []
  if code = js "invalid_client" then js "This application is not recognised"
  else if code = js "invalid_request" then js "That sign-in request is not valid"
  else if code = js "access_denied" then js "Sign-in was not completed"
  else if code = js "login_required" || code = js "interaction_required" then js "Sign-in is needed"
  else if code = js "unmet_authentication_requirements" then js "A stronger sign-in is required"
  else if code = js "server_error" then js "Something went wrong"
  else js "Sign-in could not continue"

/-- The page of an error. -/
def errorResponse (error : JsError) : Response :=
  match error with
  | .oauth _ description status _ | .unredirectable _ description status =>
    html (.error (titleFor error) description) status
  | .sealError _ | .error _ =>
    html (.error (titleFor error) (js "Something went wrong while signing you in.")) 400

/-- Report a failure. -/
def failureResponse (error : JsError) (targets : RedirectTargets) : Response :=
  match error, targets.redirectUri.filter (· ≠ []) with
  | .oauth code description _ true, some uri =>
    let body := Body.failure uri targets.responseMode code description targets.state
    if targets.responseMode = some (js "form_post") then html body 200 else redirect body
  | error, _ => errorResponse error

/-- The page shown when a transaction is gone and there is nowhere to go back to. -/
def startAgainResponse (detail : String) : Response :=
  html (.error (js "Start signing in again") (js detail)) 400

def startAgain : Response :=
  startAgainResponse
    "This sign-in attempt has expired or was already finished. Nothing is wrong with your account."

def oauthRedirect (code description : String) (status : Nat) : JsError :=
  .oauth (js code) (js description) status true

def serverError (d : String) : JsError := oauthRedirect "server_error" d 500
def accessDenied (d : String) : JsError := oauthRedirect "access_denied" d 400
def loginRequired (d : String) : JsError := oauthRedirect "login_required" d 400
def interactionRequired (d : String) : JsError := oauthRedirect "interaction_required" d 400
def unmetAcr (d : String) : JsError := oauthRedirect "unmet_authentication_requirements" d 400

/-- Where a body sends the browser with a code or an error. -/
def Body.target? : Body → Option RedirectTargets
  | .code uri mode _ state => some ⟨some uri, state, some mode⟩
  | .failure uri mode _ _ state => some ⟨some uri, state, mode⟩
  | _ => none

/-- An error that may be relayed. -/
def JsError.relayed : JsError → Prop
  | .oauth _ _ _ redirectable => redirectable = true
  | _ => False

/-- A failure is a page, or goes where it is sent. -/
theorem failureResponse_target {error : JsError} {targets target : RedirectTargets}
    (h : (failureResponse error targets).body.target? = some target) :
    target = targets ∧ error.relayed := by
  unfold failureResponse at h
  split at h
  · next code description uri hfilter =>
    obtain ⟨huri, -⟩ := Option.filter_eq_some_iff.mp hfilter
    obtain ⟨redirectUri, state, mode⟩ := targets
    dsimp only at h huri
    subst huri
    split at h <;> exact ⟨(Option.some.inj h).symm, rfl⟩
  · unfold errorResponse at h
    split at h <;> cases h

@[simp] theorem authorizationResponse_target (tx : Transaction) (code : Sealed) :
    (authorizationResponse tx code).body.target? = some (redirectTargets tx) := by
  unfold authorizationResponse
  split <;> rfl

@[simp] theorem withCookie_body (response : Response) (cookie : Cookie) :
    (withCookie response cookie).body = response.body := rfl

@[simp] theorem errorResponse_tokens (error : JsError) : (errorResponse error).tokens = [] := by
  unfold errorResponse
  split <;> simp [Body.tokens]

/-- A failure hands out nothing. -/
@[simp] theorem failureResponse_tokens (error : JsError) (targets : RedirectTargets) :
    (failureResponse error targets).tokens = [] := by
  unfold failureResponse
  split
  · dsimp only
    split <;> simp [Body.tokens]
  · exact errorResponse_tokens _

@[simp] theorem startAgainResponse_tokens (detail : String) : (startAgainResponse detail).tokens = [] := by
  simp [startAgainResponse, Body.tokens]

@[simp] theorem startAgain_tokens : startAgain.tokens = [] := startAgainResponse_tokens _

@[simp] theorem authorizationResponse_tokens (tx : Transaction) (code : Sealed) :
    (authorizationResponse tx code).tokens = [code] := by
  unfold authorizationResponse
  split <;> simp [Body.tokens]

/-! ## The remembered address -/

def REMEMBER_ME_COOKIE : JsString := js "__Host-RememberMe"
def REMEMBER_ME_TTL_SECONDS : Nat := 365 * 24 * 60 * 60

def hasRememberMeCookie (request : Request) : Bool := (request.cookie REMEMBER_ME_COOKIE).isSome

/-- Read an authenticated, unexpired remembered address. -/
def readRememberedEmail (request : Request) : M (Option JsString) :=
  match (request.cookie REMEMBER_ME_COOKIE).filter (·.text ≠ []) with
  | none => pure none
  | some raw =>
    catchSeal
      (do
        let remembered ← unsealToken (fun s => (asRememberMe s).map fun r => (r, r.2)) raw
        let now ← nowSeconds
        if remembered.2 < now then pure none
        else pure ((normaliseEmail rt remembered.1).filter looksLikeEmail))
      (pure none)

/-- Set the remembered address for a rolling year. -/
def rememberMeCookie (email : JsString) : M Cookie := do
  let now ← nowSeconds
  let value ← sealToken
    (.rememberMe (normaliseEmail rt (some email)) (now + REMEMBER_ME_TTL_SECONDS))
  pure ⟨REMEMBER_ME_COOKIE, .token value REMEMBER_ME_TTL_SECONDS⟩

def clearRememberMeCookie : Cookie := ⟨REMEMBER_ME_COOKIE, .cleared⟩

/-- A token that is only a remembered address. -/
def Sealed.isMemory : Sealed → Prop
  | .rememberMe _ _ => True
  | _ => False

variable {rt} {C : Contract effects}

theorem readRememberedEmail_ensures (hC : Routine C) (request : Request) :
    Ensures C (readRememberedEmail rt request) fun _ => True := by
  unfold readRememberedEmail
  split
  · exact pure_ensures trivial
  · refine catchSeal_ensures ?_ (pure_ensures trivial)
    refine andThen_ensures (unsealToken_ensures hC) fun remembered _ => now_then_ensures fun now _ => ?_
    split <;> exact pure_ensures trivial

theorem rememberMeCookie_ensures (hC : Routine C) (email : JsString) :
    Ensures C (rememberMeCookie rt email) fun cookie => ∀ tok ∈ cookie.tokens, tok.isMemory := by
  refine now_then_ensures fun now _ => andThen_ensures (sealToken_ensures hC _) fun value hvalue => ?_
  refine pure_ensures fun tok htok => ?_
  have : tok = value := by simpa [Cookie.tokens] using htok
  rw [this, hvalue]
  trivial

end Sag
