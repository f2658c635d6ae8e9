import Sag.Browser
import Sag.Cookies
import Sag.Told

/-!
# Does the session cookie fit?

A browser keeps a cookie whose name and value are 4096 bytes at most. What is kept of an
upstream token is cut claim by claim, in characters; what the cookie costs is counted over
the whole session, in bytes, after escapes, encryption and base64. So the caps do not bound
it: the cookie fits where the JSON of the session, counted byte by byte, is small enough
(`fits_iff`), and nine plain claims at their caps are more than that.
-/

namespace Sag

variable {rt : Runtime} {config : Config}

/-- A session that an upstream sign-in has made. -/
inductive UpstreamSession (rt : Runtime) (config : Config) (stateTx : Transaction) (upstream : Upstream)
    (outcome : Outcome) (record : Option LocalRecord) : Session → Prop where
  | created (now : Nat) (sid : JsString) : UpstreamSession rt config stateTx upstream outcome record
      (newSessionAt config now sid (upstreamArgs rt config stateTx upstream outcome record))
  | again (now : Nat) (existing : Session) : UpstreamSession rt config stateTx upstream outcome record
      (reauthenticateAt config now existing (upstreamArgs rt config stateTx upstream outcome record))

/-- What browsers accept. -/
def COOKIE_BYTES : Nat := 4096

/-- The cookie that is written for a session is kept by the browser. -/
def CookieFits (rt : Runtime) (config : Config) (aead : Bytes → Bytes × Bytes) (clientId : Option JsString)
    (s : Session) : Prop :=
  (utf8 (sessionCookieName rt config clientId)).length + (utf8 (sessionCookieValue rt aead s)).length ≤ COOKIE_BYTES

/-- Of what is left besides the name and the frame of the token, base64 leaves three quarters. -/
theorem fits_iff {aead : Bytes → Bytes × Bytes} (haead : Gcm aead) (clientId : Option JsString) {s : Session}
    (h : ∀ held, s.claims = some held → ∀ m ∈ held, ∃ value, m.2 = .str value) :
    CookieFits rt config aead clientId s ↔
      4 * (sessionBytes s + 16) ≤ 3 * (4068 - (utf8 (sessionCookieName rt config clientId)).length) := by
  rw [CookieFits, COOKIE_BYTES, sessionCookieValue_bytes haead h]
  omega

/-- What is kept of an upstream token are strings. -/
theorem UpstreamSession.strings {stateTx : Transaction} {upstream : Upstream} {outcome : Outcome}
    {record : Option LocalRecord} {s : Session} (h : UpstreamSession rt config stateTx upstream outcome record s) :
    ∀ held, s.claims = some held → ∀ m ∈ held, ∃ value, m.2 = .str value := by
  intro held hheld m hm
  have hrelayed : ∃ acr, relayedClaims config outcome.claims acr = some held := by
    cases h with
    | created now sid => exact ⟨_, hheld⟩
    | again now existing => exact ⟨_, hheld⟩
  obtain ⟨acr, hrelayed⟩ := hrelayed
  exact (mem_relayedClaims hrelayed m hm).1

/-- The cookie of an upstream sign-in fits exactly where the JSON of its session is small
enough. -/
theorem upstream_cookie_fits {aead : Bytes → Bytes × Bytes} (haead : Gcm aead) {stateTx : Transaction}
    {upstream : Upstream} {outcome : Outcome} {record : Option LocalRecord} {s : Session}
    (h : UpstreamSession rt config stateTx upstream outcome record s) (now : Nat) (clientId : Option JsString) :
    CookieFits rt config aead clientId (touchAt config now s) ↔
      4 * (sessionBytes (touchAt config now s) + 16) ≤
        3 * (4068 - (utf8 (sessionCookieName rt config clientId)).length) :=
  fits_iff haead clientId h.strings

namespace Sample

/-- A stand-in for AES-GCM that keeps to its sizes. -/
def padding (plaintext : Bytes) : Bytes × Bytes := (List.replicate 12 0, plaintext ++ List.replicate 16 0)

theorem padding_gcm : Gcm padding := fun plaintext =>
  ⟨List.length_replicate, by rw [padding, List.length_append, List.length_replicate]⟩

/-- A deployment that relays every claim of the list. -/
def relaysAll : Config := { Sample.config with profile := ⟨PROFILE_CLAIMS, true, false, false, true⟩ }

/-- An upstream token with every claim of the list, `n` plain characters each. -/
def wordy (n : Nat) : Outcome where
  email := js "ann@example.com"
  claims := PROFILE_CLAIMS.map fun claim => (claim, .str (js "https://" ++ List.replicate (n - 8) 97))
  refreshToken := none

def idp : Upstream where
  id := js "idp"
  provider := js "oidc"
  domain := js "example.com"
  isCommon := false
  mailProvider := none
  label := none
  clientId := js "sag"
  scopes := none
  acrValues := []
  prompt := none
  tenant := none
  allowedTenants := []
  hd := none

/-- A request that is being answered. -/
def pending : Transaction where
  id := js "t1"
  stage := .email
  clientId := js "app"
  redirectUri := js "https://app.test/cb"
  state := none
  nonce := none
  scope := [js "openid", js "profile"]
  responseType := js "code"
  responseMode := js "query"
  codeChallenge := none
  codeChallengeMethod := none
  acrValues := []
  prompt := []
  maxAge := none
  loginHint := none
  idTokenAlg := none
  resource := []
  iat := 1000
  exp := 1600
  clientName := js "App"
  logoUri := none
  tosUri := none
  policyUri := none
  email := some (js "ann@example.com")
  rememberMe := none
  otp := none
  localIdentity := none
  upstream := none

/-- The session it makes. -/
def wordySession (n : Nat) : Session :=
  newSessionAt relaysAll 1000 (js "BwcHBwcHBwcHBwcHBwcHBw") (upstreamArgs runtime relaysAll pending idp (wordy n) none)

theorem wordy_made (n : Nat) : UpstreamSession runtime relaysAll pending idp (wordy n) none (wordySession n) :=
  .created 1000 _

end Sample

/-- With a hundred characters for each claim it fits. -/
theorem short_cookie_fits : Gcm Sample.padding ∧
    UpstreamSession Sample.runtime Sample.relaysAll Sample.pending Sample.idp (Sample.wordy 100) none
      (Sample.wordySession 100) ∧
    CookieFits Sample.runtime Sample.relaysAll Sample.padding none
      (touchAt Sample.relaysAll 1000 (Sample.wordySession 100)) :=
  ⟨Sample.padding_gcm, Sample.wordy_made 100,
    (upstream_cookie_fits Sample.padding_gcm (Sample.wordy_made 100) 1000 none).mpr (by decide +kernel)⟩

set_option maxRecDepth 20000 in
/-- With as many as the caps allow it does not. -/
theorem long_cookie_dropped : Gcm Sample.padding ∧
    (∀ claim ∈ PROFILE_CLAIMS, permitted Sample.relaysAll claim = true) ∧ (Sample.wordy 512).email.length ≤ 254 ∧
    UpstreamSession Sample.runtime Sample.relaysAll Sample.pending Sample.idp (Sample.wordy 512) none
      (Sample.wordySession 512) ∧
    ¬ CookieFits Sample.runtime Sample.relaysAll Sample.padding none
      (touchAt Sample.relaysAll 1000 (Sample.wordySession 512)) := by
  refine ⟨Sample.padding_gcm, by decide, by decide, Sample.wordy_made 512, fun hfits => ?_⟩
  have hstrings := (Sample.wordy_made 512).strings
  have hbound := (fits_iff Sample.padding_gcm none (s := touchAt Sample.relaysAll 1000 (Sample.wordySession 512))
    hstrings).mp hfits
  have hover : ¬ 4 * (sessionBytes (touchAt Sample.relaysAll 1000 (Sample.wordySession 512)) + 16) ≤
      3 * (4068 - (utf8 (sessionCookieName Sample.runtime Sample.relaysAll none)).length) := by
    decide +kernel
  exact hover hbound

end Sag
