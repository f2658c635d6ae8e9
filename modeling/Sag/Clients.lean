import Sag.Crypto.Sigv4

/-!
# Stored clients

`clients/store.js`: where the document of a client is kept in a bucket, and what such a document
says of the client (`fromRecord`). Little of it is checked: there have to be redirect URIs and a
session scope that is known. Everything else is passed on as it was found.
-/

namespace Sag

/-- What a stored document makes of a client. -/
structure ClientRecord where
  clientId : JsString
  clientName : Option Json
  clientSecretDigest : Option Json
  redirectUris : List Json
  postLogoutRedirectUris : Json
  jwks : Option Json
  jwksUri : Option Json
  tokenEndpointAuthMethod : Json
  scopes : Option Json
  acrValues : Json
  idTokenSignedResponseAlg : Option Json
  sessionScope : Option Json
  subjectType : Option Json
  sectorIdentifier : Option Json
  sanitisePlusEmails : Option Json
  requirePkce : Json
  logoUri : Option Json
  tosUri : Option Json
  policyUri : Option Json
  logoutConfirm : Option Json

/-- `doc.a || doc.b`. -/
def eitherOf (doc : Json) (a b : String) : Option Json := (doc.get (js a)).filter truthy <|> doc.get (js b)

/-- `doc.a ?? doc.b`. -/
def firstOf (doc : Json) (a b : String) : Option Json :=
  (doc.get (js a)).filter (fun v => !v.same .null) <|> doc.get (js b)

/-- The redirect URIs of a document, if it has any. -/
def redirectUrisOf (doc : Json) : Option (List Json) :=
  match (eitherOf doc "redirect_uris" "redirectUris").filter truthy with
  | some (.arr (uri :: uris)) => some (uri :: uris)
  | _ => none

/-- The authentication method of a document, guessed at if it names none. -/
def authMethodOf (doc : Json) : Json :=
  match (eitherOf doc "token_endpoint_auth_method" "tokenEndpointAuthMethod").filter truthy with
  | some method => method
  | none =>
    .str
      (if ((eitherOf doc "client_secret_digest" "clientSecretDigest").filter truthy).isSome then
        js "client_secret_basic"
      else if ((eitherOf doc "jwks" "jwks_uri").filter truthy).isSome then js "private_key_jwt"
      else js "none")

/-- Translate a stored JSON record into the shape `resolveClient` expects. -/
def fromRecord (clientId : JsString) (doc : Json) : Option ClientRecord :=
  match doc with
  | .obj _ =>
    match redirectUrisOf doc with
    | none => none
    | some redirectUris =>
      let sessionScope := eitherOf doc "session_scope" "sessionScope"
      if sessionScope.any fun scope => !(scope.same (.str (js "shared")) || scope.same (.str (js "rp"))) then none
      else
        some
          { clientId
            clientName := eitherOf doc "client_name" "clientName"
            clientSecretDigest := eitherOf doc "client_secret_digest" "clientSecretDigest"
            redirectUris
            postLogoutRedirectUris :=
              ((eitherOf doc "post_logout_redirect_uris" "postLogoutRedirectUris").filter truthy).getD (.arr [])
            jwks := doc.get (js "jwks")
            jwksUri := eitherOf doc "jwks_uri" "jwksUri"
            tokenEndpointAuthMethod := authMethodOf doc
            scopes :=
              match doc.get (js "scope") with
              | some (.str scope) => some (.arr ((words scope).map .str))
              | _ => doc.get (js "scopes")
            acrValues := ((eitherOf doc "acr_values" "acrValues").filter truthy).getD (.arr [])
            idTokenSignedResponseAlg := eitherOf doc "id_token_signed_response_alg" "idTokenSignedResponseAlg"
            sessionScope
            subjectType := eitherOf doc "subject_type" "subjectType"
            sectorIdentifier := eitherOf doc "sector_identifier" "sectorIdentifier"
            sanitisePlusEmails := firstOf doc "sanitise_plus_emails" "sanitisePlusEmails"
            requirePkce :=
              ((firstOf doc "require_pkce" "requirePkce").filter fun v => !v.same .null).getD (.bool true)
            logoUri := eitherOf doc "logo_uri" "logoUri"
            tosUri := eitherOf doc "tos_uri" "tosUri"
            policyUri := eitherOf doc "policy_uri" "policyUri"
            logoutConfirm := eitherOf doc "logout_confirm" "logoutConfirm" }
  | _ => none

/-! ## Documents in a bucket -/

/-- `/^[A-Za-z0-9._~:-]$/`. -/
def isKeyUnit (u : CodeUnit) : Bool := isAlnum u || u = dot || u = 95 || u = 126 || u = 58 || u = hyphen

/-- Client ids appear in a key path, so they must not be able to escape it. -/
def safeKey (clientId : JsString) : Option JsString :=
  if clientId ≠ [] ∧ clientId.length ≤ 128 ∧ clientId.all isKeyUnit then some clientId else none

structure S3Store where
  s3Bucket : JsString
  s3Region : JsString
  keyPrefix : JsString
  s3Endpoint : Option JsString

def objectUrl (store : S3Store) (key : JsString) : JsString :=
  match store.s3Endpoint.filter (· ≠ []) with
  | some s3Endpoint =>
    s3Endpoint ++ js "/" ++ store.s3Bucket ++ js "/" ++ store.keyPrefix ++ key ++ js ".json"
  | none =>
    js "https://" ++ store.s3Bucket ++ js ".s3." ++ store.s3Region ++ js ".amazonaws.com/" ++ store.keyPrefix ++ key ++
      js ".json"

/-- What `createS3Store` asks to be signed for an object. -/
def objectOptions (store : S3Store) (credentials : Option AwsCredentials) (date key : JsString) : SignOptions where
  method := js "GET"
  url := objectUrl store key
  body := []
  service := js "s3"
  region := store.s3Region
  credentials := credentials
  headers := []
  date := date
  includeContentSha256 := true

/-- What a client takes over from its record for its subjects. -/
structure Registered (client : Client) (record : ClientRecord) : Prop where
  clientId : client.clientId = record.clientId
  subjectType : client.subjectType = record.subjectType
  sectorIdentifier : client.sectorIdentifier = record.sectorIdentifier

end Sag
