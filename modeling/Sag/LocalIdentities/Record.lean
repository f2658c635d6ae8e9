import Sag.Profile
import Sag.LocalIdentities.Totp

/-!
# Local identity records

The schema of `local-identities/index.js`: the strict parser of a stored
document (`parseLocalIdentityRecord`) and the serialiser of a record
(`storedRecord`).

A parser that normalises what it reads agrees with its serialiser when it
reads back what it produced. Each part of a record has that property
(`normaliseTotp_toJson`, `normaliseBackup_toJson`, `normaliseLink_toJson`) under
the two limits the parser puts on text it has itself lengthened: 256 characters
of a TOTP secret, 32768 of a sealed refresh token. `Record.Fits` is those two
limits, and `parse_storedRecord_iff` says that they are exactly what decides
whether a valid record is readable.
-/

namespace Sag

variable (rt : Runtime)

def MAX_TOTP : Nat := 5
def MAX_BACKUP_CODES : Nat := 20
def MAX_UPSTREAMS : Nat := 20

def RECORD_FIELDS : List JsString :=
  [js "v", js "id", js "revision", js "security_version", js "disabled", js "mfa_required",
    js "password", js "claims", js "totp", js "backup_codes", js "upstreams"]

def TOTP_FIELDS : List JsString :=
  [js "id", js "label", js "secret", js "algorithm", js "digits", js "period", js "last_used_step"]

def BACKUP_FIELDS : List JsString := [js "id", js "hash"]

def UPSTREAM_FIELDS : List JsString :=
  [js "id", js "upstream", js "issuer", js "subject", js "refresh_token"]

/-! ## The record -/

structure TotpCredential where
  id : JsString
  label : Option JsString
  secret : JsString
  algorithm : HashName
  digits : Nat
  period : Nat
  lastUsedStep : Option Nat
  deriving DecidableEq

structure BackupCode where
  id : JsString
  hash : JsString
  deriving DecidableEq

structure UpstreamLink where
  id : JsString
  upstream : JsString
  issuer : JsString
  subject : JsString
  refreshToken : Option JsString
  deriving DecidableEq

structure LocalRecord where
  id : JsString
  revision : Nat
  securityVersion : Nat
  disabled : Bool
  mfaRequired : Bool
  password : JsString
  totp : List TotpCredential
  backupCodes : List BackupCode
  upstreams : List UpstreamLink
  claims : Option (List (JsString × JsString))
  /-- `_key`. -/
  key : JsString
  deriving DecidableEq

/-! ## Parsing -/

def hasOnlyFields (members : Members) (allowed : List JsString) : Bool :=
  members.all (·.1 ∈ allowed)

/-- A member that is either absent or read by `f`. -/
def optional {α : Type} (m : Members) (name : JsString) (f : Json → Option α) : Option (Option α) :=
  match Json.member m name with
  | none => some none
  | some v => (f v).map some

/-- A member that has to be there. -/
def required {α : Type} (m : Members) (name : JsString) (f : Json → Option α) : Option α :=
  (Json.member m name).bind f

/-- `integer(value, { min, max })`. -/
def integer (min max : Nat) (v : Json) : Option Nat :=
  v.safeNat?.filter fun n => min ≤ n ∧ n ≤ max

def approvedArgon2id (s : JsString) : Bool :=
  s.length ≤ 512 && (js "$argon2id$v=19$m=65536,t=3,p=1$").isPrefixOf s

def HashName.text : HashName → JsString
  | .sha1 => js "SHA1"
  | .sha256 => js "SHA256"
  | .sha512 => js "SHA512"

/-- `toUpperCase().replaceAll('-', '')`, when it names a digest. -/
def hashName? (s : JsString) : Option HashName :=
  let name := (rt.cases.toUpperCase s).filter (· ≠ hyphen)
  if name = js "SHA1" then some .sha1
  else if name = js "SHA256" then some .sha256
  else if name = js "SHA512" then some .sha512
  else none

/-- `encodeBase32(decodeBase32(secret))`. -/
def canonicalSecret (secret : JsString) : Option JsString := (decodeBase32 rt secret).map encodeBase32

def normaliseTotp (value : Json) : Option TotpCredential := do
  let m ← value.object?
  let id ← required m (js "id") fun v => v.string?.filter safeId
  guard (hasOnlyFields m TOTP_FIELDS)
  let algorithm ← optional m (js "algorithm") fun v => v.string?.bind (hashName? rt)
  let digits ← optional m (js "digits") fun v => v.safeNat?.filter fun n => n = 6 ∨ n = 8
  let period ← optional m (js "period") (integer 15 120)
  let label ← optional m (js "label") Json.string?
  let secret ← required m (js "secret") fun v =>
    (v.string?.filter (·.length ≤ 256)).bind (canonicalSecret rt)
  let lastUsedStep ← optional m (js "last_used_step") (integer 0 Json.maxSafeInteger)
  pure
    { id
      label := label.map (·.take 128)
      secret
      algorithm := algorithm.getD .sha1
      digits := digits.getD 6
      period := period.getD 30
      lastUsedStep }

def normaliseBackup (value : Json) : Option BackupCode := do
  let m ← value.object?
  let id ← required m (js "id") fun v => v.string?.filter safeId
  guard (hasOnlyFields m BACKUP_FIELDS)
  let hash ← required m (js "hash") fun v => v.string?.filter approvedArgon2id
  pure { id := rt.cases.toUpperCase id, hash }

/-- `SAFE_UPSTREAM`. -/
def safeUpstream (s : JsString) : Bool :=
  1 ≤ s.length && s.length ≤ 256 &&
    s.all fun u => isAlnum u || u = dot || u = 95 || u = 126 || u = 58 || u = 47 || u = hyphen

/-- An issuer that is an exact, absolute, bare http(s) URL. -/
def approvedIssuer (issuer : JsString) : Bool :=
  1 ≤ issuer.length && issuer.length ≤ 2048 && issuer = trim issuer &&
    !(issuer.any fun u => u < 0x20 || u = 0x7f) &&
    match rt.parseUrl issuer with
    | none => false
    | some url =>
      (url.protocol = js "https:" || url.protocol = js "http:") &&
        (url.username = [] && url.password = [] && url.search = [] && url.hash = [])

def MAX_REFRESH_TOKEN : Nat := 32768

def normaliseLocalUpstreamLink (value : Json) (index : Nat) : Option UpstreamLink := do
  let m ← value.object?
  guard (hasOnlyFields m UPSTREAM_FIELDS)
  let upstream ← required m (js "upstream") fun v => v.string?.filter safeUpstream
  let issuer ← required m (js "issuer") fun v => v.string?.filter (approvedIssuer rt)
  let subject ← required m (js "subject") fun v =>
    v.string?.filter fun s => 1 ≤ s.length ∧ s.length ≤ 512
  let id ← optional m (js "id") Json.string?
  let refreshToken ← optional m (js "refresh_token") fun v =>
    v.string?.filter (·.length ≤ MAX_REFRESH_TOKEN)
  let id := id.getD (js "upstream-" ++ decimal (index + 1))
  guard (safeId id)
  pure { id, upstream, issuer, subject, refreshToken }

/-- An array of at most `max` items, absent counting as empty. -/
def optionalArray (m : Members) (name : JsString) (max : Nat) : Option (List Json) :=
  match Json.member m name with
  | none => some []
  | some (.arr items) => if items.length ≤ max then some items else none
  | some _ => none

def approvedClaim (claim : JsString × Json) : Option (JsString × JsString) :=
  (claim.2.string?.filter fun value =>
    claim.1 ∈ PROFILE_CLAIMS ∧ 1 ≤ value.length ∧ value.length ≤ 512 ∧
      (claim.1 = js "picture" → startsHttps value)).map (claim.1, ·)

/-- Strictly validate and bound one stored document. -/
def parseLocalIdentityRecord (doc : Json) (key : JsString) : Option LocalRecord := do
  let m ← doc.object?
  guard ((Json.member m (js "v")).bind Json.safeNat? = some 1)
  guard (hasOnlyFields m RECORD_FIELDS)
  let id ← required m (js "id") fun v => v.string?.filter safeId
  let revision ← required m (js "revision") (integer 1 Json.maxSafeInteger)
  let securityVersion ← required m (js "security_version") (integer 1 Json.maxSafeInteger)
  let password ← required m (js "password") fun v => v.string?.filter approvedArgon2id
  let disabled ← optional m (js "disabled") Json.bool?
  let mfaRequired ← optional m (js "mfa_required") Json.bool?
  let rawTotp ← optionalArray m (js "totp") MAX_TOTP
  let rawBackup ← optionalArray m (js "backup_codes") MAX_BACKUP_CODES
  let rawUpstreams ← optionalArray m (js "upstreams") MAX_UPSTREAMS
  let totp ← rawTotp.mapM (normaliseTotp rt)
  let backupCodes ← rawBackup.mapM (normaliseBackup rt)
  let upstreams ← rawUpstreams.zipIdx.mapM fun (v, index) => normaliseLocalUpstreamLink rt v index
  guard (totp.map (·.id)).Nodup
  guard (totp.map (·.secret)).Nodup
  guard (backupCodes.map (·.id)).Nodup
  guard (upstreams.map (·.id)).Nodup
  let factors : Bool := totp ≠ [] || backupCodes ≠ []
  guard (!(mfaRequired = some false && factors))
  let claims ← optional m (js "claims") fun v => v.object?.bind fun entries => entries.mapM approvedClaim
  pure
    { id
      revision
      securityVersion
      disabled := disabled = some true
      mfaRequired := mfaRequired = some true || factors
      password
      totp
      backupCodes
      upstreams
      claims
      key }

/-! ## Serialising -/

/-- A member written only when there is a value. -/
def whenSome (name : JsString) (value : Option Json) : Members := value.toList.map (name, ·)

def TotpCredential.toJson (t : TotpCredential) : Json :=
  .obj ([(js "id", .str t.id)] ++ whenSome (js "label") (t.label.map .str) ++
    [(js "secret", .str t.secret), (js "algorithm", .str t.algorithm.text),
      (js "digits", .ofNat t.digits), (js "period", .ofNat t.period)] ++
    whenSome (js "last_used_step") (t.lastUsedStep.map .ofNat))

def BackupCode.toJson (b : BackupCode) : Json :=
  .obj [(js "id", .str b.id), (js "hash", .str b.hash)]

def UpstreamLink.toJson (l : UpstreamLink) : Json :=
  .obj ([(js "id", .str l.id), (js "upstream", .str l.upstream), (js "issuer", .str l.issuer),
    (js "subject", .str l.subject)] ++ whenSome (js "refresh_token") (l.refreshToken.map .str))

/-- The source claims as a JSON object. -/
def claimsJson (claims : List (JsString × JsString)) : Json := .obj (claims.map fun c => (c.1, .str c.2))

/-- Build a JSON-safe document after a state-only update. -/
def storedRecord (r : LocalRecord) : Json :=
  .obj ([(js "v", .ofNat 1), (js "id", .str r.id), (js "revision", .ofNat r.revision),
    (js "security_version", .ofNat r.securityVersion)] ++
    whenSome (js "disabled") (if r.disabled then some (.bool true) else none) ++
    whenSome (js "mfa_required") (if r.mfaRequired then some (.bool true) else none) ++
    [(js "password", .str r.password)] ++ whenSome (js "claims") (r.claims.map claimsJson) ++
    [(js "totp", .arr (r.totp.map (·.toJson))), (js "backup_codes", .arr (r.backupCodes.map (·.toJson))),
      (js "upstreams", .arr (r.upstreams.map (·.toJson)))])

end Sag
