import Sag.Gateway
import Sag.Lib.Script

/-!
# Browsers

Requests as a browser makes them: parameters that are either typed in or a token
handed out before, and a list of visits in time. Every such list is a run of the
gateway (`browse_reachable`), and what it comes to can be computed.

`Sample` is a small deployment to browse: one client with a floor, email codes,
and the in-memory store.
-/

namespace Sag

open Resumable

/-! ## Requests -/

section
variable {rt : Runtime} {config : Config} {σ : Type}

/-- The tokens of a reply. -/
def replyTokens : Reply → List Sealed
  | .response response => response.tokens
  | _ => []

theorem gateway_lists : Lists (gateway rt config) replyTokens := by
  intro reply tok htok
  cases reply with
  | response response => exact htok
  | _ => cases htok

/-- A parameter: text, or the token that was handed out `i`-th. -/
inductive Param where
  | text (s : String)
  | token (i : Nat)

def Param.value (toks : List Sealed) : Param → Value
  | .text s => .plain (js s)
  | .token i => ⟨js "token", toks[i]?⟩

/-- Named parameters. -/
def form (toks : List Sealed) (fields : List (String × Param)) : List (JsString × Value) :=
  fields.map fun f => (js f.1, f.2.value toks)

/-- A request of a browser that holds `toks`. -/
def browserRequest (toks : List Sealed) (isPost : Bool) (fields cookies : List (String × Param)) : Request where
  isPost
  form := if isPost then .ok (form toks fields) else .ok []
  query := if isPost then [] else form toks fields
  cookies := form toks cookies
  clientIp := none

theorem mem_of_browserRequest {toks : List Sealed} {isPost : Bool} {fields cookies : List (String × Param)}
    {tok : Sealed} (h : (browserRequest toks isPost fields cookies).presents tok) : tok ∈ toks := by
  have hform : ∀ {fs : List (String × Param)} {v : Value}, v ∈ (form toks fs).map (·.2) →
      v.opens = some tok → tok ∈ toks := by
    intro fs v hv hopen
    obtain ⟨_, hmem, rfl⟩ := List.mem_map.mp hv
    obtain ⟨f, -, rfl⟩ := List.mem_map.mp hmem
    cases hp : f.2 with
    | text s => simp [hp, Param.value, Value.plain] at hopen
    | token i =>
      simp only [hp, Param.value] at hopen
      exact List.mem_of_getElem? hopen
  obtain ⟨v, hv, hopen⟩ := h
  cases isPost <;> simp [browserRequest, Request.values, Except.toOption] at hv
  all_goals
    rcases hv with ⟨n, hv⟩ | ⟨n, hv⟩ <;>
      exact hform (List.mem_map.mpr ⟨(n, v), hv, rfl⟩) hopen

/-- A browser calls an endpoint. -/
def visit (time : Nat) (endpoint : Endpoint) (isPost : Bool) (fields cookies : List (String × Param)) :
    Visit (gateway rt config) where
  time
  req toks := .serve endpoint (browserRequest toks isPost fields cookies)
  own := by
    rintro toks tok ⟨p, hp, htok⟩
    cases hp
    exact mem_of_browserRequest htok

/-- The world after the visits, from the beginning. -/
def browse (answer : Oracle effects σ) (s : σ) (vs : List (Visit (gateway rt config))) :
    World (gateway rt config) σ :=
  (World.init (gateway rt config) s).script answer replyTokens 100 vs

theorem browse_reachable {answer : Oracle effects σ} {env : Environment effects σ}
    (hans : answer.Within env) (s : σ) (vs : List (Visit (gateway rt config))) :
    Reachable (gateway rt config) env s (browse answer s vs) :=
  Runs.script hans gateway_lists 100 vs _

/-! ## Answers -/

/-- The memory store, with `answer` for everything else. -/
def memoryOracle (maxEntries : Nat) (answer : (o : Op) → o.Ans) : Oracle effects MemoryStore := fun t s o =>
  match o with
  | .store op => s.apply maxEntries t op
  | o => (answer o, s)

theorem memoryOracle_within (maxEntries : Nat) (answer : (o : Op) → o.Ans) :
    (memoryOracle maxEntries answer).Within (memoryEnv maxEntries) := by
  intro t s o
  cases o <;> rfl

end

/-! ## A deployment -/

namespace Sample

/-- A platform that maps the case of ASCII, and whose digest is the text itself. -/
def runtime : Runtime where
  cases :=
    { lower := fun p => [asciiLower p]
      upper := fun p => [asciiUpper p]
      cased := fun p => (65 ≤ p && p ≤ 90) || (97 ≤ p && p ≤ 122)
      ignorable := fun _ => false
      lower_ascii := fun _ _ => rfl
      upper_ascii := fun _ _ => rfl }
  maxDraws := 8
  toNumber _ := none
  stringOf _ := []
  parseJson _ := none
  fromUtf8 bytes := bytes.map fun b => UInt16.ofNat b.toNat
  decodeURIComponent s := some s
  hmac _ text := text.flatMap fun u => [UInt8.ofNat (u.toNat / 256), UInt8.ofNat (u.toNat % 256)]
  derive _ _ _ := []
  sha256 _ := []
  totpMac _ _ _ := []
  parseUrl s := some ⟨s, js "https:", [], [], [], [], [], [], []⟩

theorem collisionFree : CollisionFree runtime := by
  intro key text text' h
  induction text generalizing text' with
  | nil =>
    cases text' with
    | nil => rfl
    | cons v text' => cases h
  | cons u text ih =>
    cases text' with
    | nil => cases h
    | cons v text' =>
      simp only [runtime, List.flatMap_cons, List.cons_append, List.nil_append, List.cons.injEq] at h
      obtain ⟨hhigh, hlow, hrest⟩ := h
      have hu := u.toNat_lt
      have hv := v.toNat_lt
      have hdiv : u.toNat / 256 = v.toNat / 256 := by
        have := congrArg UInt8.toNat hhigh
        rwa [UInt8.toNat_ofNat_of_lt' (by simp [UInt8.size]; omega),
          UInt8.toNat_ofNat_of_lt' (by simp [UInt8.size]; omega)] at this
      have hmod : u.toNat % 256 = v.toNat % 256 := by
        have := congrArg UInt8.toNat hlow
        rwa [UInt8.toNat_ofNat_of_lt' (by simp [UInt8.size]; omega),
          UInt8.toNat_ofNat_of_lt' (by simp [UInt8.size]; omega)] at this
      rw [UInt16.toNat_inj.mp (show u.toNat = v.toNat by omega), ih _ hrest]

/-- A client that asks for a federated sign-in with two factors. -/
def client : Client where
  clientId := js "app"
  clientName := js "App"
  redirectUris := [js "https://app.test/cb"]
  postLogoutRedirectUris := []
  scopes := none
  acrValues := [Acr.federatedMfa]
  idTokenSignedResponseAlg := none
  sessionScope := none
  logoutConfirm := none
  subjectType := none
  sectorIdentifier := none
  sanitisePlusEmails := none
  requirePkce := false
  logoUri := none
  policyUri := none
  tosUri := none
  tokenEndpointAuthMethod := none
  clientSecretDigest := none
  clientSecret := none
  jwks := none
  jwksUri := none

/-- A client that asks for an email code at least. -/
def notes : Client := { client with clientId := js "notes", acrValues := [Acr.otp] }

def registry (id : JsString) : Option Client :=
  if id = js "app" then some client else if id = js "notes" then some notes else none

def config : Config where
  issuer := js "https://sag.test"
  secrets := [js "secret"]
  subjectType := .pub
  subjectSalt := js "salt"
  sanitisePlusEmails := false
  defaultRequiredAcr := []
  redirectUriSchemes := [js "https"]
  otp := ⟨true, 6, .numeric, 600, 5, 3, 300, 3, 0, [], []⟩
  session := ⟨.shared, js "sag", 3600, 3600, .never⟩
  tokens := ⟨60, 600, 0, 600, 300⟩
  localIdentities := ⟨true, [js "local.test"], 300, 5, 0, 1024, 1⟩
  profile := ⟨[], false, false, false, false⟩
  upstreams := []
  dnsHint := .off
  unknownAddress := .silent
  organisation := js "Org"
  emailFrom := js "sag@sag.test"
  stateStore := true

/-- What everything but the store answers. -/
def answer : (o : Op) → o.Ans
  | .suspend => ()
  | .pick => true
  | .encrypt _ _ => ([], [])
  | .openRefresh _ _ _ => .error (.error [])
  | .randomBytes n => List.replicate n 7
  | .store (.claim _ _) => .ok true
  | .store (.has _) => .ok false
  | .store (.increment _ _ _) => .ok 1
  | .bindingGet _ => .ok none
  | .bindingReplace _ _ _ => .ok false
  | .verifyArgon2id _ _ => .ok false
  | .resolveClient id => .ok (registry id)
  | .sendEmail _ => .ok none
  | .mailProvider _ => none
  | .consumerMx _ => false
  | .upstreamMetadata _ => .error (.error [])
  | .upstreamExchange _ _ _ _ => .error (.error [])
  | .fetchJwks _ => .error (.error [])
  | .verifySignature _ _ => .ok ()
  | .signIdToken _ => .ok ()
  | .note _ => ()

/-- The store with room for a thousand records. -/
def oracle : Oracle effects MemoryStore := memoryOracle 1000 answer

theorem oracle_within : oracle.Within (memoryEnv 1000) := memoryOracle_within 1000 answer

abbrev Server := World (gateway runtime config) MemoryStore

/-- The world after the visits. -/
def after (vs : List (Visit (gateway runtime config))) : Server := browse oracle .empty vs

theorem after_reachable {env : Environment effects MemoryStore} (hans : oracle.Within env)
    (vs : List (Visit (gateway runtime config))) :
    Reachable (gateway runtime config) env .empty (after vs) :=
  browse_reachable hans .empty vs

/-- An authorization request of a client that asks for `acrValues` and `prompt`. -/
def authorize (time : Nat) (clientId acrValues prompt : String) (cookies : List (String × Param)) :
    Visit (gateway runtime config) :=
  visit time .authorize false
    [("client_id", .text clientId), ("redirect_uri", .text "https://app.test/cb"),
      ("response_type", .text "code"), ("scope", .text "openid"), ("acr_values", .text acrValues),
      ("prompt", .text prompt)] cookies

/-- A form that carries the `i`-th token as its transaction. -/
def submit (time : Nat) (endpoint : Endpoint) (i : Nat) (fields : List (String × String)) :
    Visit (gateway runtime config) :=
  visit time endpoint true (("tx", .token i) :: fields.map fun f => (f.1, .text f.2)) []

/-- A logout with the `i`-th token as the session cookie. -/
def logout (time i : Nat) : Visit (gateway runtime Sample.config) where
  time
  req toks := .finish (browserRequest toks false [] [("sag", .token i)]) ⟨none, none, none, none, false⟩
  own := by
    rintro toks tok ⟨p, hp, htok⟩
    cases hp
    exact mem_of_browserRequest htok

/-- A reading of that cookie. -/
def readBack (time i : Nat) : Visit (gateway runtime Sample.config) where
  time
  req toks := .readSession (browserRequest toks false [] [("sag", .token i)]) none
  own := by
    rintro toks tok ⟨p, hp, htok⟩
    cases hp
    exact mem_of_browserRequest htok

/-- Ann signs in with an email code, for a request that asks for `acrValues`. -/
def signIn (clientId acrValues : String) : List (Visit (gateway runtime config)) :=
  [authorize 1000 clientId acrValues "" [],
    submit 1010 .email 0 [("email", "ann@example.com")],
    submit 1020 .otpSubmit 1 [("code", "777777")]]

/-- The world once Ann has signed in to an application that asks for an email code,
with a request that asks for more. -/
def annSignedIn : Server := after (signIn "notes" "urn:sag:acr:federated")

theorem annSignedIn_reachable : Reachable (gateway runtime config) oracle.graph .empty annSignedIn :=
  after_reachable oracle.within_graph _

end Sample

end Sag
