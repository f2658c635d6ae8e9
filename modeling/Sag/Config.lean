import Sag.Acr

/-!
# Configuration, clients and the platform

The parts of the configuration, of a registered client and of an upstream
provider that the modelled functions read, under the source's field names, and
the `Runtime`: the functions of the Web platform the code calls but does not
define. They are pure, so they are given once and for all; what is stateful
about the platform is an operation (`Sag.Effects`).
-/

namespace Sag

/-- A parsed URL, as `new URL` presents it. -/
structure Url where
  href : JsString
  protocol : JsString
  username : JsString
  password : JsString
  hostname : JsString
  port : JsString
  pathname : JsString
  search : JsString
  hash : JsString
  deriving DecidableEq

/-- The TOTP digests. -/
inductive HashName where
  | sha1
  | sha256
  | sha512
  deriving DecidableEq, Repr

/-- The platform's pure functions. `hmac` takes the text it authenticates,
`derive` is HKDF for a purpose and a length, `totpMac` signs a counter,
`toNumber` is `Number` of a string, where that is finite, `stringOf` is `String`
of a parsed value, and `parseJson` is `JSON.parse`, where that does not throw.
`maxDraws` bounds the rejection sampling of a code. -/
structure Runtime where
  cases : CaseTables
  maxDraws : Nat
  toNumber : JsString → Option Rat
  stringOf : Json → JsString
  parseJson : JsString → Option Json
  fromUtf8 : Bytes → JsString
  decodeURIComponent : JsString → Option JsString
  hmac : Bytes → JsString → Bytes
  derive : JsString → JsString → Nat → Bytes
  sha256 : JsString → Bytes
  totpMac : HashName → Bytes → Bytes → Bytes
  parseUrl : JsString → Option Url

/-- Whether a session is shared by all relying parties or kept by each. -/
inductive SessionScope where
  | shared
  | rp
  deriving DecidableEq, Repr

inductive CodeAlphabet where
  | alphanumeric
  | numeric
  deriving DecidableEq, Repr

inductive DnsHint where
  | off
  | order
  | select
  deriving DecidableEq, Repr

inductive UnknownAddress where
  | silent
  | explain
  deriving DecidableEq, Repr

inductive SubjectType where
  | pairwise
  | pub
  deriving DecidableEq, Repr

def SubjectType.text : SubjectType → JsString
  | .pairwise => js "pairwise"
  | .pub => js "public"

inductive LogoutConfirm where
  | auto
  | always
  | never
  deriving DecidableEq, Repr

structure OtpConfig where
  enabled : Bool
  codeLength : Nat
  codeAlphabet : CodeAlphabet
  ttlSeconds : Nat
  maxAttempts : Nat
  maxResends : Nat
  sendWindowSeconds : Nat
  sendBurst : Nat
  sendDailyLimit : Nat
  allowedDomains : List JsString
  blockedDomains : List JsString

structure SessionConfig where
  scope : SessionScope
  cookieName : JsString
  idleTtlSeconds : Nat
  maxLifetimeSeconds : Nat
  logoutConfirm : LogoutConfirm

structure TokensConfig where
  authorizationCodeTtlSeconds : Nat
  transactionTtlSeconds : Nat
  clockSkewSeconds : Nat
  accessTokenTtlSeconds : Nat
  idTokenTtlSeconds : Nat

structure LocalIdentitiesConfig where
  /-- `backend !== 'none'`. -/
  enabled : Bool
  domains : List JsString
  attemptWindowSeconds : Nat
  maxAttempts : Nat
  networkMaxAttempts : Nat
  maxPasswordBytes : Nat
  totpSkew : Nat

structure ProfileConfig where
  claims : List JsString
  showPicture : Bool
  /-- `nameFromEmail === 'infer'`. -/
  inferName : Bool
  /-- `avatarFallback === 'initials'`. -/
  initialsAvatar : Bool
  showOnScreen : Bool

/-- An upstream identity provider. -/
structure Upstream where
  id : JsString
  provider : JsString
  domain : JsString
  isCommon : Bool
  mailProvider : Option JsString
  label : Option JsString
  clientId : JsString
  scopes : Option (List JsString)
  acrValues : List JsString
  prompt : Option JsString
  tenant : Option JsString
  allowedTenants : List JsString
  hd : Option JsString
  deriving DecidableEq

structure Config where
  issuer : JsString
  secrets : List JsString
  subjectType : SubjectType
  subjectSalt : JsString
  sanitisePlusEmails : Bool
  defaultRequiredAcr : List JsString
  redirectUriSchemes : List JsString
  otp : OtpConfig
  session : SessionConfig
  tokens : TokensConfig
  localIdentities : LocalIdentitiesConfig
  profile : ProfileConfig
  upstreams : List Upstream
  dnsHint : DnsHint
  unknownAddress : UnknownAddress
  organisation : JsString
  emailFrom : JsString
  /-- A state store is configured. -/
  stateStore : Bool

/-- `config.secrets[0]`. -/
def Config.secret (config : Config) : JsString := config.secrets.headD []

/-- A relying party, however it was described. -/
structure Client where
  clientId : JsString
  clientName : JsString
  redirectUris : List JsString
  postLogoutRedirectUris : List JsString
  scopes : Option (List JsString)
  acrValues : List JsString
  idTokenSignedResponseAlg : Option JsString
  sessionScope : Option SessionScope
  logoutConfirm : Option LogoutConfirm
  /-- As it was registered, whatever it is. -/
  subjectType : Option Json
  sectorIdentifier : Option Json
  sanitisePlusEmails : Option Bool
  requirePkce : Bool
  logoUri : Option JsString
  policyUri : Option JsString
  tosUri : Option JsString
  tokenEndpointAuthMethod : Option JsString
  clientSecretDigest : Option JsString
  clientSecret : Option JsString
  jwks : Option Json
  jwksUri : Option JsString

end Sag
