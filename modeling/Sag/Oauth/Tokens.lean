import Sag.Oauth.Code
import Sag.Profile

/-!
# Issuing tokens

`oauth/tokens.js`. The access token is sealed, and so it is its payload here; the id_token
is its claims, and signing it is an operation. Neither says that an address is verified
unless the grant does (`idTokenClaims_verified`).
-/

namespace Sag

open Resumable

variable (config : Config)

/-- What an access token carries to `/userinfo`. -/
structure AccessToken where
  v : Nat
  jti : JsString
  sub : JsString
  clientId : JsString
  scope : List JsString
  email : JsString
  emailVerified : Option Bool
  acr : JsString
  amr : List JsString
  authTime : Nat
  sid : JsString
  claims : Option Members
  localIdentityId : Option JsString
  localSecurityVersion : Option Nat
  iat : Nat
  exp : Nat

/-- `Object.assign(claims, more)`. -/
def assign (claims more : Members) : Members :=
  claims.filter (fun m => (Json.member more m.1).isNone) ++ more

/-- The claims of the `email` scope. -/
def emailClaims (scope : List JsString) (email : JsString) (emailVerified : Option Bool) : Members :=
  if js "email" ∈ scope then
    (js "email", Json.str email) ::
      if emailVerified = some true then [(js "email_verified", Json.bool true)] else []
  else []

/-- The claims of the `profile` scope. -/
def profileScopeClaims (scope : List JsString) (claims : Option Members) : Members :=
  if js "profile" ∈ scope then (claims.map (outboundClaims config)).getD [] else []

/-- The id_token claims for a redeemed code. -/
def idTokenClaimsAt (now : Nat) (grant : CodePayload) (audience : JsString) (nonce : Option JsString) : Members :=
  assign
    ([(js "iss", .str config.issuer), (js "sub", .str grant.sub), (js "aud", .str audience), (js "iat", .ofNat now),
        (js "exp", .ofNat (now + config.tokens.idTokenTtlSeconds)), (js "auth_time", .ofNat grant.authTime),
        (js "acr", .str grant.acr), (js "amr", .arr (grant.amr.map .str)), (js "sid", .str grant.sid)] ++
      (nonce.map fun n => (js "nonce", Json.str n)).toList ++ emailClaims grant.scope grant.email grant.emailVerified)
    (profileScopeClaims config grant.scope grant.claims)

def idTokenClaims (grant : CodePayload) (audience : JsString) (nonce : Option JsString) : M Members := do
  let now ← nowSeconds
  -- `at_hash`, a digest of the sealed token
  suspend
  pure (idTokenClaimsAt config now grant audience nonce)

/-- The payload of an access token. -/
def accessTokenAt (now : Nat) (jti : JsString) (grant : CodePayload) : AccessToken where
  v := 1
  jti
  sub := grant.sub
  clientId := grant.clientId
  scope := grant.scope
  email := grant.email
  emailVerified := some (decide (grant.emailVerified = some true))
  acr := grant.acr
  amr := grant.amr
  authTime := grant.authTime
  sid := grant.sid
  claims := grant.claims
  localIdentityId := grant.localIdentityId
  localSecurityVersion := grant.localSecurityVersion
  iat := now
  exp := now + config.tokens.accessTokenTtlSeconds

/-- Mint an access token for `/userinfo`. -/
def issueAccessToken (grant : CodePayload) : M AccessToken := do
  let now ← nowSeconds
  let jti ← randomToken 12
  suspend
  pure (accessTokenAt config now jti grant)

/-- Tokens minted before local identities existed had no evidence flag. -/
def migrateAccess (grant : AccessToken) : AccessToken :=
  if grant.emailVerified = none ∧ grant.localIdentityId.getD [] = [] then
    { grant with emailVerified := some true }
  else grant

/-- Open an access token, given what the submitted string opens to. -/
def readAccessToken (opens : Option AccessToken) : M (Option AccessToken) :=
  match opens with
  | none => pure none
  | some grant => do
    suspend
    let now ← nowSeconds
    if grant.exp < now then pure none else pure (some (migrateAccess grant))

/-! ## Verified addresses -/

variable {config}

theorem member_append (members more : Members) (name : JsString) :
    Json.member (members ++ more) name = (Json.member members name).or (Json.member more name) := by
  unfold Json.member
  rw [List.find?_append]
  cases List.find? (fun m => m.1 = name) members <;> rfl

theorem emailClaims_verified {scope : List JsString} {email : JsString} {emailVerified : Option Bool} {v : Json}
    (h : (js "email_verified", v) ∈ emailClaims scope email emailVerified) : emailVerified = some true := by
  unfold emailClaims at h
  split at h
  · rcases List.mem_cons.mp h with heq | h
    · have hname : js "email_verified" ≠ js "email" := by decide
      exact absurd (congrArg Prod.fst heq) hname
    · split at h
      · next hverified => exact hverified
      · cases h
  · cases h

theorem profileScopeClaims_verified {scope : List JsString} {claims : Option Members} :
    Json.member (profileScopeClaims config scope claims) (js "email_verified") = none := by
  cases hmember : Json.member (profileScopeClaims config scope claims) (js "email_verified") with
  | none => rfl
  | some v =>
    unfold profileScopeClaims at hmember
    split at hmember
    · cases claims with
      | none => cases hmember
      | some held =>
        have hname : js "email_verified" ∉ PROFILE_CLAIMS ∧ js "email_verified" ≠ js "urn:sag:name_inferred" := by
          decide
        rcases outboundClaims_name hmember with hlisted | hmark
        · exact absurd hlisted hname.1
        · exact absurd hmark hname.2
    · cases hmember

/-- An id_token says that the address is verified only where its grant does. -/
theorem idTokenClaims_verified {now : Nat} {grant : CodePayload} {audience : JsString} {nonce : Option JsString}
    {v : Json} (h : Json.member (idTokenClaimsAt config now grant audience nonce) (js "email_verified") = some v) :
    grant.emailVerified = some true := by
  unfold idTokenClaimsAt assign at h
  rw [member_append, profileScopeClaims_verified, Option.or_none] at h
  have hmem := (List.mem_filter.mp (mem_of_member h)).1
  rcases List.mem_append.mp hmem with hmem | hmem
  · exfalso
    rcases List.mem_append.mp hmem with hmem | hmem
    · have hnames : js "email_verified" ∉ [js "iss", js "sub", js "aud", js "iat", js "exp", js "auth_time", js "acr",
          js "amr", js "sid"] := by decide
      exact hnames (List.mem_map_of_mem (f := Prod.fst) hmem)
    · obtain ⟨_, -, heq⟩ := Option.map_eq_some_iff.mp (Option.mem_toList.mp hmem)
      have hname : js "nonce" ≠ js "email_verified" := by decide
      exact absurd (congrArg Prod.fst heq) hname
  · exact emailClaims_verified hmem

end Sag
