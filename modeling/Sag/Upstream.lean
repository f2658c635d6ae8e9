import Sag.Oauth.Transaction

/-!
# Upstream identity providers

`upstream/index.js`, `upstream/providers.js` and the ordering half of
`upstream/dns.js`: which providers could authenticate an address, how the round
trip starts, and what is made of the identity that comes back. Discovery, the
token exchange and the verification of the ID token are operations; what they
answer has passed the checks of the token itself.
-/

namespace Sag

open Resumable

variable (rt : Runtime) (config : Config)

/-- Which upstreams could authenticate this address? -/
def upstreamsFor (email : Option JsString) : List Upstream :=
  match (domainOf rt email).filter (· ≠ []) with
  | none => []
  | some domain =>
    let exact := config.upstreams.filter fun u => !u.isCommon && u.domain = domain
    let parent := config.upstreams.filter fun u =>
      !u.isCommon && u.domain ≠ domain && (dot :: u.domain).isSuffixOf domain
    let common := config.upstreams.filter (·.isCommon)
    if exact ≠ [] then exact else if parent ≠ [] then parent else common

inductive ProviderName where
  | microsoft
  | google
  | oidc
  deriving DecidableEq, Repr

def providerFor (name : JsString) : ProviderName :=
  if name = js "microsoft" then .microsoft else if name = js "google" then .google else .oidc

def ProviderName.label : ProviderName → JsString
  | .microsoft => js "Microsoft"
  | .google => js "Google"
  | .oidc => js "Single sign-on"

/-- A human-readable name for a sign-in button. -/
def labelFor (upstream : Upstream) : JsString :=
  match upstream.label.filter (· ≠ []) with
  | some label => label
  | none =>
    let base := (providerFor upstream.provider).label
    if upstream.isCommon then base else base ++ js " (" ++ upstream.domain ++ js ")"

/-- The order in which eligible upstreams are offered. -/
structure Hint where
  list : List Upstream
  hinted : Option Upstream
  unmatched : Bool

/-- Order the eligible upstreams so the one DNS points at comes first. -/
def hintUpstreams (upstreams : List Upstream) (domain : JsString) : M Hint :=
  if config.dnsHint = .off || upstreams = [] then pure ⟨upstreams, none, false⟩
  else do
    match ← perform (.mailProvider domain) with
    | none => pure ⟨upstreams, none, false⟩
    | some provider =>
      match upstreams.find? fun u => (u.mailProvider.filter (· ≠ [])).getD u.provider = provider with
      | none => pure ⟨upstreams, none, true⟩
      | some hinted => pure ⟨hinted :: upstreams.filter (· ≠ hinted), some hinted, false⟩

def upstreamPrompt (upstream : Upstream) (tx : Transaction) : Option JsString :=
  match upstream.prompt.filter (· ≠ []) with
  | some prompt => some prompt
  | none =>
    if js "none" ∈ tx.prompt then some (js "none")
    else if js "login" ∈ tx.prompt then some (js "login")
    else if js "select_account" ∈ tx.prompt then some (js "select_account")
    else none

/-- Start an upstream authorisation request. -/
def beginUpstream (upstream : Upstream) (tx : Transaction) (hinted : Bool) : M Body := do
  attempt (perform (.upstreamMetadata upstream))
  let verifier ← randomToken 32
  let nonce ← randomToken 16
  suspend
  let now ← nowSeconds
  let leg : UpstreamLeg :=
    { id := upstream.id, verifier, nonce, redirectUri := config.issuer ++ js "/callback"
      startedAt := now, hinted }
  let state ← sealToken (.upstreamState { tx with upstream := some leg })
  pure (.upstream upstream state (b64u (rt.sha256 verifier)) (upstreamPrompt upstream tx))

/-! ## What comes back -/

def MICROSOFT_CONSUMER_TENANT_ID : JsString := js "9188040d-6c67-4c5b-b112-36a304b66dad"

/-- `String(claim || '')`. -/
def claimText (claims : Members) (name : JsString) : JsString :=
  match (Json.member claims name).filter truthy with
  | none => []
  | some (.str s) => s
  | some v => rt.stringOf v

/-- `emailDomainVerified`: the three-valued `xms_edov`. -/
def emailDomainVerified (claims : Members) : Option Bool :=
  match Json.member claims (js "xms_edov") with
  | some (.bool b) => some b
  | some (.str s) =>
    if s = js "true" ∨ s = js "1" then some true
    else if s = js "false" ∨ s = js "0" then some false
    else none
  | some (.num x) => if x = 1 then some true else if x = 0 then some false else none
  | _ => none

/-- `provider.verifyClaims`; an error is what it throws. -/
def verifyClaims (u : Upstream) (claims : Members) (consumerMx : Bool) : Option String :=
  match providerFor u.provider with
  | .microsoft =>
    let tid := rt.cases.toLowerCase (claimText rt claims (js "tid"))
    if u.allowedTenants ≠ [] && tid ∉ u.allowedTenants then
      some "this Microsoft sign-in is from a tenant this upstream does not accept"
    else if u.isCommon then
      let verified := emailDomainVerified claims
      if verified = some false then
        some "Microsoft reports that this address is not in a domain the tenant has verified"
      else if u.allowedTenants = [] && verified ≠ some true &&
          !(tid = MICROSOFT_CONSUMER_TENANT_ID && consumerMx) then
        some "this Microsoft upstream accepts any tenant, so it needs the xms_edov claim to trust an address"
      else none
    else
      match u.tenant.filter (· ≠ []) with
      | some tenant =>
        if tid ≠ [] && tenant ≠ js "common" && tenant ≠ js "organizations" &&
            tid ≠ rt.cases.toLowerCase tenant then
          some "this Microsoft sign-in is from a different tenant"
        else none
      | none => none
  | .google =>
    match (u.hd.filter (· ≠ [])) <|> (if u.isCommon then none else some u.domain) with
    | some hd =>
      if hd ≠ [] && (Json.member claims (js "hd")).bind Json.string? ≠ some hd then
        some "this Google account is not in the expected hosted domain"
      else none
    | none => none
  | .oidc => none

/-- The address an upstream asserts. -/
def assertedEmail (u : Upstream) (claims : Members) : Option JsString :=
  let email := claimText rt claims (js "email")
  let preferred := claimText rt claims (js "preferred_username")
  normaliseEmail rt (some (
    if u.isCommon || email ≠ [] then email
    else if preferred ≠ [] then preferred
    else claimText rt claims (js "upn")))

/-- What a completed round trip has established. -/
structure Outcome where
  email : JsString
  claims : Members
  refreshToken : Option JsString

/-- Is the consumer mail route worth asking about? -/
def asksConsumerMx (u : Upstream) (claims : Members) : Bool :=
  u.provider = js "microsoft" && u.isCommon && u.allowedTenants = [] &&
    (match Json.member claims (js "xms_edov") with | none | some .null => true | _ => false) &&
    rt.cases.toLowerCase (claimText rt claims (js "tid")) = MICROSOFT_CONSUMER_TENANT_ID

/-- `microsoftConsumerMx`, where it is worth asking about. -/
def consumerMxOf (u : Upstream) (claims : Members) : M Bool :=
  if asksConsumerMx rt u claims then
    perform (.consumerMx (domainOf rt (some (claimText rt claims (js "email")))))
  else pure false

/-- Exchange the upstream code and judge the identity that comes back. -/
def completeUpstream (u : Upstream) (code : JsString) (leg : UpstreamLeg) (maxAge : Option Nat) :
    M Outcome := do
  let exchange ← attempt (perform (.upstreamExchange u code leg maxAge))
  let claims := exchange.claims
  let consumerMx ← consumerMxOf rt u claims
  match verifyClaims rt u claims consumerMx with
  | some message => fail (.error (js message))
  | none =>
    match assertedEmail rt u claims with
    | none => fail (.error (js "the upstream did not return an email address for this account"))
    | some email =>
      if (Json.member claims (js "email_verified")).any (fun v => v.bool? = some false) then
        fail (.error (js "the upstream reports this email address as unverified"))
      else if !u.isCommon && !((domainOf rt (some email)).any fun d => underDomain d u.domain) then
        fail (.error
          (js "the upstream returned an address outside the domain it is configured for"))
      else
        pure
          { email
            claims
            refreshToken := (exchange.refreshToken.bind Json.string?).filter (·.length ≤ 16384) }

/-- An upstream has asserted the address in its claims, and does not call it
unverified. -/
def Asserts (C : Rely effects) (claims : Members) (email : JsString) : Prop :=
  ∃ u code leg maxAge exchange, C.Saw (.upstreamExchange u code leg maxAge) (.ok exchange) ∧
    claims = exchange.claims ∧ assertedEmail rt u claims = some email ∧
      (Json.member claims (js "email_verified")).any (fun v => v.bool? = some false) = false

/-! ## What the functions do -/

variable {rt config} {C : Contract effects}

theorem hintUpstreams_ensures (hC : Routine C) (upstreams : List Upstream) (domain : JsString) :
    Ensures C (hintUpstreams config upstreams domain) fun _ => True := by
  unfold hintUpstreams
  split
  · exact pure_ensures trivial
  · refine andThen_ensures (perform_ensures hC rfl) fun provider _ => ?_
    split
    · exact pure_ensures trivial
    · split <;> exact pure_ensures trivial

/-- The state that leaves is the transaction with the new leg. -/
theorem beginUpstream_ensures (hC : Routine C) (upstream : Upstream) (tx : Transaction)
    (hinted : Bool) :
    Ensures C (beginUpstream rt config upstream tx hinted) fun body =>
      ∃ leg upstream state challenge prompt, body = .upstream upstream state challenge prompt ∧
        state = .upstreamState { tx with upstream := some leg } := by
  unfold beginUpstream
  refine andThen_ensures (attempt_ensures (perform_ensures hC rfl)) fun _ _ => ?_
  refine andThen_ensures (randomToken_ensures hC 32) fun verifier _ => ?_
  refine andThen_ensures (randomToken_ensures hC 16) fun nonce _ => ?_
  refine suspend_then_ensures hC (now_then_ensures fun now _ => ?_)
  exact andThen_ensures (sealToken_ensures hC _) fun state hstate =>
    pure_ensures ⟨_, _, state, _, _, rfl, hstate⟩

theorem completeUpstream_ensures (hC : Routine C) (u : Upstream) (code : JsString)
    (leg : UpstreamLeg) (maxAge : Option Nat) :
    Ensures C (completeUpstream rt u code leg maxAge) fun outcome =>
      Asserts rt C outcome.claims outcome.email := by
  unfold completeUpstream
  refine andThen_ensures (attempt_ensures (perform_ensures hC rfl)) fun exchange hexchange => ?_
  have hmx : Ensures C (consumerMxOf rt u exchange.claims) fun _ => True := by
    unfold consumerMxOf
    split
    · exact ensures_imp (perform_ensures hC rfl) fun _ _ => trivial
    · exact pure_ensures trivial
  refine andThen_ensures hmx fun mx _ => ?_
  split
  · exact fail_ensures
  · split
    · exact fail_ensures
    · next email hemail =>
      split
      · exact fail_ensures
      · next hverified =>
        split
        · exact fail_ensures
        · exact pure_ensures ⟨u, code, leg, maxAge, exchange, hexchange, rfl, hemail, by simpa using hverified⟩

end Sag
