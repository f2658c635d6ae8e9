import Sag.Identity

/-!
# What is sealed

The records the program seals into tokens that the browser carries: the
transaction in flight, the session, the authorization code, the remembered
address and the confirmation of a logout.

Sealing is taken as ideal. A token *is* the payload under its purpose
(`Sealed`), a submitted string either opens to one or to nothing (`Value`), and
which tokens can be submitted at all is a matter of which were handed out; that
is the token side of `Resumable.System`.
-/

namespace Sag

/-- Stages the interactive flow can be at. -/
inductive Stage where
  | email
  | choose
  | otp
  | localPassword
  | localMfa
  | continue
  deriving DecidableEq, Repr

/-- The state of an email code: the digest, never the code. -/
structure OtpState where
  digest : Option JsString
  exp : Nat
  attempts : Nat
  resends : Nat
  iat : Nat
  deriving DecidableEq

/-- The local account whose password has been accepted. -/
structure LocalIdentityRef where
  id : JsString
  securityVersion : Nat
  deriving DecidableEq

/-- The upstream leg of a transaction. -/
structure UpstreamLeg where
  id : JsString
  verifier : JsString
  nonce : JsString
  redirectUri : JsString
  startedAt : Nat
  hinted : Bool
  deriving DecidableEq

/-- The in-flight authorisation request. -/
structure Transaction where
  id : JsString
  stage : Stage
  clientId : JsString
  redirectUri : JsString
  state : Option JsString
  nonce : Option JsString
  scope : List JsString
  responseType : JsString
  responseMode : JsString
  codeChallenge : Option JsString
  codeChallengeMethod : Option JsString
  acrValues : List JsString
  prompt : List JsString
  maxAge : Option Nat
  loginHint : Option JsString
  idTokenAlg : Option JsString
  resource : List JsString
  iat : Nat
  exp : Nat
  clientName : JsString
  logoUri : Option JsString
  tosUri : Option JsString
  policyUri : Option JsString
  email : Option JsString
  rememberMe : Option Bool
  otp : Option OtpState
  localIdentity : Option LocalIdentityRef
  upstream : Option UpstreamLeg
  deriving DecidableEq

/-- The sign-in session. `exp` is the idle timeout, `abs` the absolute cap. -/
structure Session where
  sid : JsString
  email : JsString
  emailVerified : Option Bool
  acr : JsString
  amr : List JsString
  authTime : Nat
  upstream : Option JsString
  upstreamLabel : Option JsString
  claims : Option Members
  localIdentityId : Option JsString
  localIdentityKey : Option JsString
  localSecurityVersion : Option Nat
  iat : Nat
  exp : Nat
  abs : Nat

/-- What an authorization code carries to the token endpoint. -/
structure CodePayload where
  v : Nat
  jti : JsString
  clientId : JsString
  redirectUri : JsString
  scope : List JsString
  nonce : Option JsString
  codeChallenge : Option JsString
  codeChallengeMethod : Option JsString
  idTokenAlg : Option JsString
  resource : List JsString
  sub : JsString
  email : JsString
  emailVerified : Option Bool
  acr : JsString
  amr : List JsString
  authTime : Nat
  sid : JsString
  claims : Option Members
  localIdentityId : Option JsString
  localIdentityKey : Option JsString
  localSecurityVersion : Option Nat
  iat : Nat
  exp : Nat

/-- A confirmed logout. -/
structure LogoutPayload where
  clientId : Option JsString
  scopedTo : Option JsString
  returnTo : Option JsString
  state : Option JsString
  isGlobal : Bool
  iat : Nat
  exp : Nat

/-- A token of the program: a purpose and the payload sealed under it. -/
inductive Sealed where
  | tx (tx : Transaction)
  | upstreamState (tx : Transaction)
  | session (s : Session)
  | code (payload : CodePayload)
  | rememberMe (email : Option JsString) (exp : Nat)
  | logout (payload : LogoutPayload)

/-- A submitted string, with the token it opens to if it is one. -/
structure Value where
  text : JsString
  opens : Option Sealed

/-- A string no secret of the program sealed. -/
def Value.plain (text : JsString) : Value := ⟨text, none⟩

end Sag
