import Sag.Identity
import Sag.Http

/-!
# Parsing an authorisation request

`oauth/request.js`. Until the client and its redirect URI are known good an
error is `unredirectable`; after that it may be reported to the relying party.

A client's registered `acrValues` are appended to what the request asks for
(`withFloor`), so the merged list demands no more than the requested values do:
any one of them satisfies it.
-/

namespace Sag

open Resumable

variable (rt : Runtime) (config : Config)

/-- A validated authorisation request. -/
structure AuthRequest where
  clientId : JsString
  redirectUri : JsString
  state : Option JsString
  nonce : Option JsString
  scope : List JsString
  responseType : JsString
  responseMode : JsString
  codeChallenge : Option JsString
  codeChallengeMethod : Option JsString
  acrValues : List JsString
  prompt : List JsString
  maxAge : Option Nat
  loginHint : Option JsString
  idTokenAlg : Option JsString
  resource : List JsString

def RESPONSE_TYPES : List JsString := [js "code"]
def RESPONSE_MODES : List JsString := [js "query", js "form_post"]
def PROMPTS : List JsString := [js "none", js "login", js "consent", js "select_account"]
def SUPPORTED_SCOPES : List JsString := [js "openid", js "email", js "profile", js "offline_access"]

/-- `redirectUriAllowed` of `clients/index.js`: exact, but for the port of a
loopback address. -/
def redirectUriAllowed (redirectUris : List JsString) (candidate : JsString)
    (schemes : List JsString) : Bool :=
  match rt.parseUrl candidate with
  | none => false
  | some want =>
    let scheme := rt.cases.toLowerCase want.protocol.dropLast
    if !(js "*" ∈ schemes || scheme ∈ schemes) then false
    else
      redirectUris.any fun registered =>
        match rt.parseUrl registered with
        | none => false
        | some have_ =>
          let loopback := fun h => h = js "127.0.0.1" || h = js "[::1]" || h = js "localhost"
          have_.href = want.href ||
            (loopback have_.hostname && loopback want.hostname && have_.protocol = want.protocol &&
              have_.hostname = want.hostname && have_.pathname = want.pathname &&
              have_.search = want.search)

/-- The same for the addresses a logout may return to. -/
def postLogoutRedirectAllowed (client : Client) (candidate : JsString) (schemes : List JsString) : Bool :=
  if client.postLogoutRedirectUris = [] then false
  else redirectUriAllowed rt client.postLogoutRedirectUris candidate schemes

/-- The client's floor, appended to `required` where it is not there yet. -/
def withFloor (required floor : List JsString) : List JsString :=
  floor.foldl (fun required a => if a ∈ required then required else required ++ [a]) required

/-- `/^[A-Za-z0-9\-._~]{43,128}$/`. -/
def isPkceText (s : JsString) : Bool :=
  43 ≤ s.length && s.length ≤ 128 &&
    s.all fun u => isAlnum u || u = hyphen || u = dot || u = 95 || u = 126

def redirectableError {α : Type} (code description : String) : M α :=
  fail (.oauth (js code) (js description) 400 true)

def unredirectable {α : Type} (code : JsString) (description : JsString) (status : Nat) : M α :=
  fail (.unredirectable code description status)

/-- Stage one: who is asking, and where may we answer? -/
def identifyClient (params : Form) : M (JsString × Client × JsString) := do
  match textOf (← param params (js "client_id")) with
  | none => unredirectable (js "invalid_request") (js "The client_id parameter is missing.") 400
  | some clientId =>
    match ← perform (.resolveClient clientId) with
    | .error (.oauth code description status _) => unredirectable code description status
    | .error (.unredirectable code description status) => unredirectable code description status
    | .error (.sealError message) | .error (.error message) =>
      unredirectable (js "invalid_client") (js "The client could not be identified: " ++ message) 400
    | .ok none =>
      unredirectable (js "invalid_client") (js "No client is registered with that client_id here.") 401
    | .ok (some client) =>
      match textOf (← param params (js "redirect_uri")) with
      | none => unredirectable (js "invalid_request") (js "The redirect_uri parameter is missing.") 400
      | some redirectUri =>
        if redirectUriAllowed rt client.redirectUris redirectUri config.redirectUriSchemes then
          pure (clientId, client, redirectUri)
        else
          unredirectable (js "invalid_request")
            (js "That redirect_uri is not permitted. It must use an allowed scheme and match one of the registered values exactly.")
            400

def checkScope (client : Client) (scope : List JsString) : M Unit := do
  if js "openid" ∉ scope then
    redirectableError "invalid_scope"
      "The scope must include \"openid\". This service issues identity tokens only."
  else if scope.any (· ∉ SUPPORTED_SCOPES) then
    fail (.oauth (js "invalid_scope")
      (js "Unsupported scope: " ++ join (js ", ") (scope.filter (· ∉ SUPPORTED_SCOPES)) ++ js ".") 400 true)
  else
    match client.scopes with
    | none => pure ()
    | some allowed =>
      if scope.any (· ∉ allowed) then
        fail (.oauth (js "invalid_scope")
          (js "This client may not request: " ++ join (js ", ") (scope.filter (· ∉ allowed)) ++ js ".")
          400 true)
      else pure ()

/-- PKCE: mandatory unless the client is exempt, and only S256. -/
def checkPkce (client : Client) (codeChallenge codeChallengeMethod : Option JsString) : M Unit :=
  match codeChallenge with
  | none =>
    if client.requirePkce then
      redirectableError "invalid_request"
        "A code_challenge is required. This service implements OAuth 2.1, where PKCE is mandatory."
    else pure ()
  | some challenge =>
    if codeChallengeMethod ≠ some (js "S256") then
      redirectableError "invalid_request" "code_challenge_method must be \"S256\"."
    else if !isPkceText challenge then
      redirectableError "invalid_request" "The code_challenge is not a valid base64url S256 digest."
    else pure ()

/-- The prompt values; a blank prompt counts as `consent`. -/
def parsePrompt (raw : Option JsString) : M (List JsString) := do
  let prompt := match raw with
    | none => [js "consent"]
    | some raw => words raw
  match prompt.find? (· ∉ PROMPTS) with
  | some p => fail (.oauth (js "invalid_request") (js "Unsupported prompt value: " ++ p ++ js ".") 400 true)
  | none =>
    if js "none" ∈ prompt ∧ 1 < prompt.length then
      redirectableError "invalid_request" "prompt=none cannot be combined with other prompt values."
    else pure prompt

def parseMaxAge (raw : Option JsString) : M (Option Nat) :=
  match raw with
  | none => pure none
  | some raw =>
    match (rt.toNumber raw).filter fun x => x.den = 1 ∧ 0 ≤ x.num with
    | some x => pure (some x.num.toNat)
    | none => redirectableError "invalid_request" "max_age must be a non-negative integer."

/-- What the transaction will demand. -/
def requiredAcrValues (client : Client) (requested : List JsString) : List JsString :=
  withFloor (if requested = [] then config.defaultRequiredAcr else requested) client.acrValues

def checkIdTokenAlg (client : Client) (requested : Option JsString) : M (Option JsString) :=
  match client.idTokenSignedResponseAlg.filter (· ≠ []), requested with
  | some registered, some asked =>
    if asked ≠ registered then
      redirectableError "invalid_request"
        "The requested ID token signing algorithm does not match this client registration."
    else pure (client.idTokenSignedResponseAlg <|> requested)
  | _, _ => pure (client.idTokenSignedResponseAlg <|> requested)

def parseAuthorizationRequest (params : Form) : M (Client × AuthRequest) := do
  let (clientId, client, redirectUri) ← identifyClient rt config params
  let state := textOf (← param params (js "state"))
  match textOf (← param params (js "response_type")) with
  | none => redirectableError "invalid_request" "The response_type parameter is missing."
  | some responseType =>
    if responseType ∉ RESPONSE_TYPES then
      redirectableError "unsupported_response_type"
        "Only the authorization code flow is supported here, so response_type must be \"code\"."
    else
      let responseMode := (textOf (← param params (js "response_mode"))).getD (js "query")
      if responseMode ∉ RESPONSE_MODES then
        redirectableError "invalid_request" "response_mode must be \"query\" or \"form_post\"."
      else
        let scope := words ((textOf (← param params (js "scope"))).getD [])
        checkScope client scope
        let codeChallenge := textOf (← param params (js "code_challenge"))
        let method := textOf (← param params (js "code_challenge_method"))
        checkPkce client codeChallenge (method <|> codeChallenge.map fun _ => js "S256")
        let nonce := textOf (← param params (js "nonce"))
        let prompt ← parsePrompt (textOf (← param params (js "prompt")))
        let maxAge ← parseMaxAge rt (textOf (← param params (js "max_age")))
        let requested := words ((textOf (← param params (js "acr_values"))).getD [])
        let idTokenAlg ← checkIdTokenAlg client
          (textOf (← param params (js "id_token_signed_response_alg")))
        let loginHint := textOf (← param params (js "login_hint"))
        let resource := (params.filter fun p => p.1 = js "resource" ∧ p.2.text ≠ []).map (·.2.text)
        let _ ← param params (js "ui_locales")
        pure (client,
          { clientId
            redirectUri
            state
            nonce
            scope
            responseType
            responseMode
            codeChallenge
            codeChallengeMethod := codeChallenge.bind fun _ => method <|> some (js "S256")
            acrValues := requiredAcrValues config client requested
            prompt
            maxAge
            loginHint := loginHint.bind fun hint => normaliseEmail rt (some hint)
            idTokenAlg
            resource })

/-! ## What the parser guarantees -/

theorem mem_withFloor {required floor : List JsString} {a : JsString} :
    a ∈ withFloor required floor ↔ a ∈ required ∨ a ∈ floor := by
  unfold withFloor
  induction floor generalizing required with
  | nil => simp
  | cons f floor ih =>
    rw [List.foldl_cons, ih]
    split
    · next hf =>
      constructor
      · rintro (h | h)
        · exact Or.inl h
        · exact Or.inr (List.mem_cons_of_mem _ h)
      · rintro (h | h)
        · exact Or.inl h
        · rcases List.mem_cons.mp h with rfl | h
          · exact Or.inl hf
          · exact Or.inr h
    · simp [or_assoc]

/-- A client with a floor always demands something. -/
theorem withFloor_ne_nil {required floor : List JsString} (h : floor ≠ []) :
    withFloor required floor ≠ [] := by
  obtain ⟨a, ha⟩ := List.exists_mem_of_ne_nil _ h
  exact List.ne_nil_of_mem (mem_withFloor.mpr (Or.inr ha))

/-- The single, non-empty value of a parameter. -/
def Form.text (params : Form) (name : JsString) : Option JsString :=
  ((single params name).toOption.bind id).map (·.text)

/-- A parameter that is given more than once. -/
def Form.repeats (params : Form) (name : JsString) : Bool := 1 < (params.filter (·.1 = name)).length

/-- The parameters that may be given once. -/
def SINGLE_PARAMS : List JsString :=
  [js "client_id", js "redirect_uri", js "state", js "response_type", js "response_mode", js "scope",
    js "code_challenge", js "code_challenge_method", js "nonce", js "prompt", js "max_age", js "acr_values",
    js "id_token_signed_response_alg", js "login_hint", js "ui_locales"]

/-- The client that a request names accepts the redirect URI that it names. -/
structure Accepts (rt : Runtime) (C : Rely effects) (config : Config) (params : Form) (clientId : JsString)
    (client : Client) (redirectUri : JsString) : Prop where
  named : params.text (js "client_id") = some clientId
  resolved : C.Saw (.resolveClient clientId) (.ok (some client))
  target : params.text (js "redirect_uri") = some redirectUri
  allowed : redirectUriAllowed rt client.redirectUris redirectUri config.redirectUriSchemes = true

/-- What a parsed request says: a client that accepts its redirect URI, demands made
of the client's floor and of what the request asks for, and otherwise the parameters
as they came, each of them once. -/
structure Parsed (rt : Runtime) (C : Rely effects) (config : Config) (params : Form) (client : Client)
    (req : AuthRequest) : Prop where
  accepts : Accepts rt C config params req.clientId client req.redirectUri
  acrValues : req.acrValues =
    requiredAcrValues config client (words ((params.text (js "acr_values")).getD []))
  state : req.state = params.text (js "state")
  responseMode : req.responseMode = (params.text (js "response_mode")).getD (js "query")
  scope : req.scope = words ((params.text (js "scope")).getD [])
  nonce : req.nonce = params.text (js "nonce")
  codeChallenge : req.codeChallenge = params.text (js "code_challenge")
  once : ∀ name ∈ SINGLE_PARAMS, params.repeats name = false

/-- An error may be relayed only for a request whose redirect URI is accepted. -/
def Relayable (rt : Runtime) (C : Rely effects) (config : Config) (params : Form) (e : JsError) : Prop :=
  ∀ code description status, e = .oauth code description status true →
    ∃ clientId client redirectUri, Accepts rt C config params clientId client redirectUri

variable {rt config} {C : Contract effects} {params : Form} {client : Client}

/-- A parameter that can be read is given at most once. -/
theorem repeats_of_single {name : JsString} {v : Option Value} (h : single params name = .ok v) :
    params.repeats name = false := by
  unfold single at h
  unfold Form.repeats
  split at h
  · next hnil => simp [hnil]
  · next p hp => simp [hp]
  · cases h

theorem param_once (name : JsString) :
    Ensures C (param params name) fun v => textOf v = params.text name ∧ params.repeats name = false :=
  ofExcept_ensures fun v hv =>
    ⟨by simp [Form.text, hv, Except.toOption, textOf], repeats_of_single hv⟩

theorem param_ensures (name : JsString) :
    Ensures C (param params name) fun v => textOf v = params.text name :=
  ensures_imp (param_once name) fun _ h => h.1

/-- A parameter that cannot be read is an error that is not relayed. -/
theorem param_relayable (name : JsString) :
    Prog.Always C (Relayable rt C config params)
      (fun v => textOf v = params.text name ∧ params.repeats name = false) (param params name) := by
  refine fun s => Prog.sat_ofExcept.mpr ⟨fun v hv => ?_, fun e he => ?_⟩
  · exact ⟨by simp [Form.text, hv, Except.toOption, textOf], repeats_of_single hv⟩
  · rintro code description status rfl
    unfold single at he
    split at he <;> simp [oauthError] at he

/-- Before the redirect URI is accepted nothing is relayed. -/
theorem identifyClient_always (hC : Routine C) :
    Prog.Always C (Relayable rt C config params)
      (fun r => Accepts rt C config params r.1 r.2.1 r.2.2 ∧
        params.repeats (js "client_id") = false ∧ params.repeats (js "redirect_uri") = false)
      (identifyClient rt config params) := by
  have refused : ∀ {α : Type} {Q : α → Prop} (code description : JsString) (status : Nat),
      Prog.Always C (Relayable rt C config params) Q (unredirectable code description status : M α) := by
    rintro α Q code description status _ _ _ _ ⟨⟩
  refine andThen_always (param_relayable _) fun v hv => ?_
  split
  · exact refused _ _ _
  · next clientId hid =>
    have hnamed : params.text (js "client_id") = some clientId := hv.1 ▸ hid
    refine andThen_always (issue_always fun h t _ => hC h t _ rfl) fun answer hsaw => ?_
    split
    iterate 5 exact refused _ _ _
    refine andThen_always (param_relayable _) fun v hv' => ?_
    split
    · exact refused _ _ _
    · next redirectUri huri =>
      split
      · next hallowed => exact fun _ => ⟨⟨hnamed, hsaw, hv'.1 ▸ huri, hallowed⟩, hv.2, hv'.2⟩
      · exact refused _ _ _

theorem checkScope_ensures (scope : List JsString) :
    Ensures C (checkScope client scope) fun _ => True := by
  unfold checkScope
  split
  · exact fail_ensures
  · split
    · exact fail_ensures
    · split
      · exact pure_ensures trivial
      · split
        · exact fail_ensures
        · exact pure_ensures trivial

theorem checkPkce_ensures (challenge method : Option JsString) :
    Ensures C (checkPkce client challenge method) fun _ => True := by
  unfold checkPkce
  split
  · split
    · exact fail_ensures
    · exact pure_ensures trivial
  · split
    · exact fail_ensures
    · split
      · exact fail_ensures
      · exact pure_ensures trivial

theorem parsePrompt_ensures (raw : Option JsString) : Ensures C (parsePrompt raw) fun _ => True := by
  unfold parsePrompt
  extract_lets prompt
  split
  · exact fail_ensures
  · split
    · exact fail_ensures
    · exact pure_ensures trivial

theorem parseMaxAge_ensures (raw : Option JsString) : Ensures C (parseMaxAge rt raw) fun _ => True := by
  unfold parseMaxAge
  split
  · exact pure_ensures trivial
  · split
    · exact pure_ensures trivial
    · exact fail_ensures

theorem checkIdTokenAlg_ensures (requested : Option JsString) :
    Ensures C (checkIdTokenAlg client requested) fun _ => True := by
  unfold checkIdTokenAlg
  split
  · split
    · exact fail_ensures
    · exact pure_ensures trivial
  · exact pure_ensures trivial

theorem parseAuthorizationRequest_always (hC : Routine C) :
    Prog.Always C (Relayable rt C config params) (fun r => Parsed rt C config params r.1 r.2)
      (parseAuthorizationRequest rt config params) := by
  refine andThen_always (identifyClient_always hC) fun identified hidentified => ?_
  obtain ⟨clientId, client, redirectUri⟩ := identified
  obtain ⟨haccepts, hid, huri⟩ := hidentified
  -- from here on everything may be reported
  refine ensures_always ?_ fun e _ _ _ _ => ⟨_, _, _, haccepts⟩
  refine andThen_ensures (param_once _) fun state hstate => ?_
  refine andThen_ensures (param_once _) fun responseType htype => ?_
  split
  · exact fail_ensures
  · split
    · exact fail_ensures
    · refine andThen_ensures (param_once _) fun mode hmode => ?_
      dsimp only
      split
      · exact fail_ensures
      · refine andThen_ensures (param_once _) fun scope hscope => ?_
        refine andThen_ensures (checkScope_ensures _) fun _ _ => ?_
        refine andThen_ensures (param_once _) fun challenge hchallenge => ?_
        refine andThen_ensures (param_once _) fun method hmethod => ?_
        refine andThen_ensures (checkPkce_ensures _ _) fun _ _ => ?_
        refine andThen_ensures (param_once _) fun nonce hnonce => ?_
        refine andThen_ensures (param_once _) fun prompt hprompt => ?_
        refine andThen_ensures (parsePrompt_ensures _) fun _ _ => ?_
        refine andThen_ensures (param_once _) fun maxAge hmaxAge => ?_
        refine andThen_ensures (parseMaxAge_ensures _) fun _ _ => ?_
        refine andThen_ensures (param_once _) fun acr hacr => ?_
        refine andThen_ensures (param_once _) fun alg halg => ?_
        refine andThen_ensures (checkIdTokenAlg_ensures _) fun _ _ => ?_
        refine andThen_ensures (param_once _) fun hint hhint => ?_
        refine andThen_ensures (param_once _) fun locales hlocales => ?_
        refine pure_ensures
          { accepts := haccepts
            acrValues := by rw [hacr.1]
            state := hstate.1
            responseMode := by rw [hmode.1]
            scope := by rw [hscope.1]
            nonce := hnonce.1
            codeChallenge := hchallenge.1
            once := ?_ }
        simp only [SINGLE_PARAMS, List.forall_mem_cons, List.not_mem_nil, false_implies, implies_true, and_true]
        exact ⟨hid, huri, hstate.2, htype.2, hmode.2, hscope.2, hchallenge.2, hmethod.2, hnonce.2, hprompt.2,
          hmaxAge.2, hacr.2, halg.2, hhint.2, hlocales.2⟩

end Sag
