import Sag.Crypto.Jose
import Sag.Endpoints.Handlers

/-!
# Logout

`endpoints/logout.js`. `finish` revokes the session behind every cookie it is
about to clear, and only then answers; a store that refuses the revocation makes
the logout fail visibly.

`endSession_ensures` is where the two can come apart: a session whose absolute
lifetime ends with the present second is accepted, and not revoked
(`Ended.late`).
-/

namespace Sag

open Resumable

variable (rt : Runtime) (config : Config) (request : Request)

/-- What `finish` is told. -/
structure LogoutOptions where
  returnTo : Option JsString
  state : Option JsString
  clientName : Option JsString
  scopedClientId : Option JsString
  clearAll : Bool

/-- The cookie names a logout clears. -/
def logoutNames (opts : LogoutOptions) : M (List JsString) :=
  if opts.clearAll then pure (allSessionCookieNames config request)
  else do
    let name ← cookieNameFor rt config opts.scopedClientId
    pure [name]

/-- End the session one cookie carries, if it is accepted. -/
def endSession (name : JsString) : M Cookie := do
  let session ← readSessionByName config request name
  revokeSession config session
  match session with
  | none => pure (clearCookieByName name)
  | some session => do
    note (.sessionEnded session)
    pure (clearCookieByName name)

/-- Claim every sid before telling the browser to discard its copy. -/
def endSessions : List JsString → M (List Cookie)
  | [] => pure []
  | name :: names => do
    let cookie ← endSession config request name
    let rest ← endSessions names
    pure (cookie :: rest)

/-- `clearSessionCookie`, when there was nothing to clear by name. -/
def orStale (cookies : List Cookie) (scopedClientId : Option JsString) : M (List Cookie) :=
  match cookies with
  | [] => do
    let name ← cookieNameFor rt config scopedClientId
    pure [clearCookieByName name]
  | cookies => pure cookies

/-- Clear the cookies and answer. -/
def finish (opts : LogoutOptions) : M Response := do
  let names ← logoutNames rt config request opts
  let ended ← endSessions config request names
  let cookies ← orStale rt config ended opts.scopedClientId
  let response := match opts.returnTo.filter (· ≠ []) with
    | some url => redirect (.returnTo url opts.state)
    | none => html (.signedOut opts.clientName) 200
  pure (cookies.foldl withCookie response)

/-- A confirmed logout comes back with its own sealed token. -/
def performLogout (token : Value) : M Response := do
  match ← Prog.settled (unsealToken asLogout token) with
  | .error _ => pure (html (.signedOut none) 200)
  | .ok payload =>
    let client ← match payload.clientId.filter (· ≠ []) with
      | none => pure none
      | some id => attempt (perform (.resolveClient id))
    finish rt config request
      ⟨payload.returnTo, payload.state, client.map (·.clientName), payload.scopedTo, payload.isGlobal⟩

/-- `clientFromHint`: the audience of an `id_token_hint`, unverified. -/
def clientFromHint (hint : Option JsString) : Option JsString :=
  (hint.bind (decodeJwt rt)).bind fun parts =>
    match parts.2.get (js "aud") with
    | some (.arr (first :: _)) => first.string?
    | some (.str aud) => some aud
    | _ => none

/-- A registered post-logout target, and nothing else. -/
def allowedReturn (client : Option Client) (requested : Option JsString) : Option JsString :=
  requested.filter fun uri =>
    client.any fun c => redirectUriAllowed rt c.postLogoutRedirectUris uri config.redirectUriSchemes

/-- Should the person be asked first? -/
def confirmNeeded (client : Option Client) (affectsOthers : Bool) : Bool :=
  match (client.bind (·.logoutConfirm)).getD config.session.logoutConfirm with
  | .always => true
  | .never => false
  | .auto => affectsOthers

/-- The client a logout names. -/
def logoutClient (requested : Option JsString) : M (Option Client) :=
  match requested.filter (· ≠ []) with
  | none => pure none
  | some id => attempt (perform (.resolveClient id))

/-- A logout that was not confirmed before. -/
def startLogout (params : Form) : M Response := do
  let hint := textOf (← param params (js "id_token_hint"))
  let clientId := textOf (← param params (js "client_id"))
  let requestedClientId := clientId <|> clientFromHint rt hint
  let client ← logoutClient requestedClientId
  let returnTo := allowedReturn rt config client
    (textOf (← param params (js "post_logout_redirect_uri")))
  let state := textOf (← param params (js "state"))
  let scope := (client.bind (·.sessionScope)).getD config.session.scope
  let scopedTo := sessionClientFor config client
  let session ← readSession rt config request scopedTo
  let affectsOthers : Bool := scope = .shared && session.isSome
  let now ← nowSeconds
  let token ← sealToken (.logout
    { clientId := requestedClientId, scopedTo, returnTo, state
      isGlobal := requestedClientId.isNone && config.session.scope = .shared
      iat := now, exp := now + 600 })
  let opts : LogoutOptions := ⟨returnTo, state, client.map (·.clientName), scopedTo, false⟩
  match session with
  | none => finish rt config request opts
  | some session =>
    if confirmNeeded config client affectsOthers then
      pure (html (.confirmLogout token (displayIdentity config session) (client.map (·.clientName))
        returnTo affectsOthers) 200)
    else finish rt config request opts

def handleLogout : M Response := do
  let params ← requestParams request
  match ← param params (js "lt") with
  | some token => performLogout rt config request token
  | none => startLogout rt config request params

/-! ## What the functions do -/

variable {rt config request} {C : Contract effects} {endpoint : Endpoint}

/-- Right after its acceptance a session is revoked, or there is no time left to
revoke it in, or nothing to revoke it with. -/
theorem revokeSession_sat (hG : Guarded rt config C endpoint request) {stored : Session}
    (hnamed : stored.sid ≠ []) {h : List (Event effects)} {t : Nat} {s : Moment effects}
    (hpast : s.past = h ++ [acceptance stored t]) :
    (revokeSession config (some (migrate stored))).Sat C (fun _ _ => True)
      (fun s' _ => ∀ t', C.Now s' t' → Ended config stored s'.past t') s := by
  unfold revokeSession
  rw [migrate_eq]
  simp only [hnamed, decide_false, Bool.or_false]
  split
  · next hstore => exact fun _ _ => .storeless (by simpa using hstore)
  · intro t₁ ht₁
    show Prog.Sat C _ _ _ (if 0 < (stored.abs : Int) - t₁ then _ else _)
    split
    · next hleft =>
      intro t₂ ht₂
      obtain rfl : t₂ = t₁ := ht₂.2 t₁ rfl
      have hbefore : t₂ < stored.abs := by omega
      have hrevoke : Guard rt config C endpoint request _ t₂ _ := .revoke hpast hbefore
      refine ⟨hG _ _ _ hrevoke, fun r _ => ?_⟩
      cases r with
      | error e => trivial
      | ok fresh => exact fun _ _ => .revoked hbefore rfl
    · next hleft =>
      intro t' ht'
      obtain rfl : t' = t₁ := ht'.2 t₁ rfl
      exact .late (by omega) hpast

theorem endSession_ensures (hG : Guarded rt config C endpoint request) (name : JsString) :
    Ensures C (endSession config request name) fun cookie => cookie.tokens = [] := by
  refine fun s => Prog.sat_bind.mpr ?_
  refine (readSessionByName_sat hG.lets_routine hG.admits name s).mono (fun _ _ he => he) ?_
  intro s' session hsession
  cases session with
  | none => rfl
  | some session =>
    obtain ⟨stored, h, t, hpast, hadm, rfl⟩ := hsession session rfl
    refine Prog.sat_bind.mpr ((revokeSession_sat hG hadm.named hpast).mono (fun _ _ he => he) ?_)
    intro s'' _ hended t' ht'
    exact ⟨hG _ _ _ (.ended (hended t' ht')), fun _ _ => rfl⟩

theorem endSessions_ensures (hG : Guarded rt config C endpoint request) :
    ∀ names, Ensures C (endSessions config request names) fun cookies =>
      ∀ cookie ∈ cookies, cookie.tokens = [] := by
  intro names
  induction names with
  | nil => exact pure_ensures (by simp)
  | cons name names ih =>
    refine andThen_ensures (endSession_ensures hG name) fun cookie hcookie => ?_
    exact andThen_ensures ih fun rest hrest => pure_ensures (by simpa using ⟨hcookie, hrest⟩)

theorem withCookies_cleared {cookies : List Cookie} (h : ∀ cookie ∈ cookies, cookie.tokens = []) :
    ∀ response : Response, (cookies.foldl withCookie response).tokens = response.tokens ∧
      (cookies.foldl withCookie response).body = response.body := by
  induction cookies with
  | nil => exact fun _ => ⟨rfl, rfl⟩
  | cons cookie cookies ih =>
    intro response
    have hrest := ih (fun c hc => h c (List.mem_cons_of_mem _ hc)) (withCookie response cookie)
    rw [withCookie_tokens, h cookie List.mem_cons_self, List.append_nil] at hrest
    exact hrest

/-- A logout that is carried out hands nothing out, and reports nothing to anybody. -/
theorem finish_ensures (hG : Guarded rt config C endpoint request) (opts : LogoutOptions) :
    Ensures C (finish rt config request opts) (Safe rt config C endpoint request) := by
  have hC := hG.lets_routine
  have hnames : Ensures C (logoutNames rt config request opts) fun _ => True := by
    unfold logoutNames
    split
    · exact pure_ensures trivial
    · exact andThen_ensures (cookieNameFor_ensures hC _) fun _ _ => pure_ensures trivial
  refine andThen_ensures hnames fun names _ => ?_
  refine andThen_ensures (endSessions_ensures hG names) fun ended hended => ?_
  have hcookies : Ensures C (orStale rt config ended opts.scopedClientId) fun cookies =>
      ∀ cookie ∈ cookies, cookie.tokens = [] := by
    unfold orStale
    split
    · exact andThen_ensures (cookieNameFor_ensures hC _) fun _ _ =>
        pure_ensures (by simp [clearCookieByName, Cookie.tokens])
    · exact pure_ensures hended
  refine andThen_ensures hcookies fun cookies hcookies => pure_ensures (safe_page ?_ ?_)
  · rw [(withCookies_cleared hcookies _).1]
    split <;> simp [Body.tokens]
  · rw [(withCookies_cleared hcookies _).2]
    split <;> rfl

theorem performLogout_ensures (hG : Guarded rt config C endpoint request) (token : Value) :
    Ensures C (performLogout rt config request token) (Safe rt config C endpoint request) := by
  have hC := hG.lets_routine
  refine andThen_ensures (settled_ensures (unsealToken_ensures hC)) fun r _ => ?_
  cases r with
  | error e => exact pure_ensures (safe_page (by simp [Body.tokens]) rfl)
  | ok payload =>
    dsimp only
    split
    · exact finish_ensures hG _
    · exact andThen_ensures (attempt_ensures (perform_ensures hC rfl)) fun client _ => finish_ensures hG _

theorem startLogout_ensures (hG : Guarded rt config C endpoint request) (params : Form) :
    Ensures C (startLogout rt config request params) (Safe rt config C endpoint request) := by
  have hC := hG.lets_routine
  refine andThen_ensures (param_ensures _) fun hint _ => andThen_ensures (param_ensures _) fun id _ => ?_
  have hclient : ∀ requested, Ensures C (logoutClient requested) fun _ => True := by
    intro requested
    unfold logoutClient
    split
    · exact pure_ensures trivial
    · exact ensures_imp (attempt_ensures (perform_ensures hC rfl)) fun _ _ => trivial
  refine andThen_ensures (hclient _) fun client _ => andThen_ensures (param_ensures _) fun target _ => ?_
  refine andThen_ensures (param_ensures _) fun state _ => ?_
  refine andThen_ensures (readSession_ensures hC hG.admits _) fun session _ => ?_
  refine now_then_ensures fun now _ => andThen_ensures (sealToken_ensures hC _) fun token htoken => ?_
  subst htoken
  dsimp only
  split
  · exact finish_ensures hG _
  · split
    · exact pure_ensures (safe_html rfl rfl .logout)
    · exact finish_ensures hG _

theorem handleLogout_ensures (hG : Guarded rt config C endpoint request) :
    Ensures C (handleLogout rt config request) (Safe rt config C endpoint request) := by
  refine andThen_ensures (requestParams_ensures hG.lets_routine) fun params _ => ?_
  refine andThen_ensures (param_ensures _) fun token _ => ?_
  split
  · exact performLogout_ensures hG _
  · exact startLogout_ensures hG _

end Sag
