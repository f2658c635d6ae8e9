import Sag.LocalIdentities.RoundTrip

/-!
# The local identity service

`createLocalIdentityStore` of `local-identities/index.js`, around an adapter
binding that reads a document, replaces it at a revision, and checks Argon2.

Everything that writes goes through `replace`: it takes a record that was read,
changes a copy, raises the revision by one and asks the binding to swap the
document in at the revision that was read. The ways a record changes are
the constructors of `Change`, and the specifications at the end say that
nothing else is ever written.
-/

namespace Sag

open Resumable

variable (rt : Runtime) (config : Config)

/-- Does public routing policy offer local authentication for this address? -/
def localIdentityAllowed (email : Option JsString) : Bool :=
  if !config.localIdentities.enabled then false
  else
    match (domainOf rt email).filter (· ≠ []) with
    | none => false
    | some domain =>
      config.localIdentities.domains.any fun entry =>
        match rt.cases.toLowerCase entry with
        | [42] => true
        | 42 :: 46 :: base => underDomain domain base
        | wanted => domain = wanted

/-- The name of the record of a canonical address. -/
def indexKey (canonical : JsString) : JsString :=
  toHex (rt.hmac (rt.derive config.subjectSalt (js "local-identity-index") 32) canonical)

/-- HMAC-derived filename for a canonical address. -/
def localIdentityKey (email : Option JsString) : M JsString :=
  match normaliseEmail rt email with
  | none => fail (.error (js "a canonical email address is required"))
  | some canonical =>
    if config.subjectSalt = [] then fail (.error (js "local identity lookup requires SUBJECT_SALT"))
    else do
      suspend
      suspend
      pure (indexKey rt config canonical)

/-- What looking an address up finds. -/
structure Found where
  key : JsString
  record : Option LocalRecord
  malformed : Bool
  error : Option JsError

/-- `doc && …`: neither absent nor a falsy value. -/
def isTruthy : Option Json → Bool
  | none | some .null | some (.bool false) | some (.str []) => false
  | some (.num x) => x ≠ 0
  | some _ => true

def find (email : Option JsString) : M Found := do
  let key ← localIdentityKey rt config email
  match ← perform (.bindingGet key) with
  | .error error => pure ⟨key, none, true, some error⟩
  | .ok doc =>
    let record := doc.bind fun doc => parseLocalIdentityRecord rt doc key
    pure ⟨key, record, isTruthy doc && record.isNone, none⟩

def DUMMY_PASSWORD_HASH : JsString :=
  js ("$argon2id$v=19$m=65536,t=3,p=1$c2FnLWxvY2FsLWR1bW15MQ$" ++
    "KffQgtYBtmwZAFnvnsXZ7vL8/HU8Mz58bkyIR3r/krU")

/-- A verifier that fails behaves like a missing record. -/
def verifyOrDummy (hash submitted : JsString) : M Bool := do
  match ← perform (.verifyArgon2id hash submitted) with
  | .ok ok => pure ok
  | .error _ => attempt (perform (.verifyArgon2id DUMMY_PASSWORD_HASH submitted))

def verifyPassword (found : Found) (password : Option JsString) : M Bool := do
  let value := password.getD []
  let withinLimit : Bool := (utf8 value).length ≤ config.localIdentities.maxPasswordBytes
  let usable := found.record.filter fun r => !r.disabled
  let hash := match usable with
    | some record => if withinLimit then record.password else DUMMY_PASSWORD_HASH
    | none => DUMMY_PASSWORD_HASH
  let ok ← verifyOrDummy hash (if withinLimit then value else js "password-too-long")
  pure (ok && withinLimit && usable.isSome)

/-! ## Changes -/

/-- Change the first item that `p` selects, as `find` and an assignment do. -/
def updateFirst {α : Type} (p : α → Bool) (f : α → α) : List α → List α
  | [] => []
  | x :: xs => if p x then f x :: xs else x :: updateFirst p f xs

/-- The ways a record changes. -/
inductive Change where
  | totpStep (id : JsString) (step : Nat)
  | removeBackup (id : JsString)
  | refreshToken (linkId token : JsString)
  | rekey (upstreams : List UpstreamLink)

/-- `mutate` on a copy of the record. -/
def Change.apply : Change → LocalRecord → LocalRecord
  | .totpStep id step, r =>
    { r with totp := updateFirst (·.id = id) (fun t => { t with lastUsedStep := some step }) r.totp }
  | .removeBackup id, r => { r with backupCodes := r.backupCodes.filter (·.id ≠ id) }
  | .refreshToken linkId token, r =>
    { r with
      upstreams := updateFirst (·.id = linkId) (fun l => { l with refreshToken := some token }) r.upstreams }
  | .rekey upstreams, r => { r with upstreams }

/-- The record an update leads to. -/
def Change.next (change : Change) (r : LocalRecord) : LocalRecord :=
  { change.apply r with revision := r.revision + 1 }

/-- Swap the changed record in at the revision that was read; `none` when the
document has moved on. -/
def replace (record : LocalRecord) (change : Change) : M (Option LocalRecord) := do
  let next := change.next record
  let written ← attempt (perform (.bindingReplace record.key record.revision (storedRecord next)))
  pure (if written then some next else none)

/-! ## Second factors -/

/-- `backupSelector`. -/
def backupSelector (code : Option JsString) : Option (JsString × JsString) :=
  let normalised := (rt.cases.toUpperCase (code.getD [])).filter fun u => !isSpace u
  let id := (split hyphen normalised).headD []
  if safeId id then some (id, normalised) else none

/-- A second factor that was met. -/
structure FactorResult where
  method : FactorMethod
  record : LocalRecord

/-- The loop over the TOTP credentials. -/
def verifyTotpCredentials (record : LocalRecord) (code : Option JsString) (now : Nat) (consume : Bool) :
    List TotpCredential → M (Option FactorResult)
  | [] => pure none
  | credential :: rest => do
    let step ← verifyTotp rt credential.secret code now credential.algorithm credential.digits
      credential.period config.localIdentities.totpSkew credential.lastUsedStep
    match step with
    | none => verifyTotpCredentials record code now consume rest
    | some step =>
      if !consume then pure (some ⟨.totp, record⟩)
      else do
        let updated ← replace record (.totpStep credential.id step)
        pure (updated.map (⟨.totp, ·⟩))

/-- A backup code, found by its selector. -/
def verifyBackup (record : LocalRecord) (backup : BackupCode) (code : JsString) (consume : Bool) :
    M (Option FactorResult) := do
  let ok ← perform (.verifyArgon2id backup.hash code)
  if ok.toOption ≠ some true then pure none
  else if !consume then pure (some ⟨.recovery, record⟩)
  else do
    let updated ← replace record (.removeBackup backup.id)
    pure (updated.map (⟨.recovery, ·⟩))

def verifySecondFactor (record : LocalRecord) (code : Option JsString) (now : Nat) (consume : Bool) :
    M (Option FactorResult) :=
  match (backupSelector rt code).bind fun s =>
      (record.backupCodes.find? (·.id = s.1)).map fun b => (b, s.2) with
  | some (backup, normalised) => verifyBackup record backup normalised consume
  | none => verifyTotpCredentials rt config record code now consume record.totp

/-! ## Sessions and links -/

/-- `/^[0-9a-f]{64}$/`. -/
def isRecordKey (s : JsString) : Bool :=
  s.length = 64 && s.all fun u => isDigit u || (97 ≤ u && u ≤ 102)

/-- The record behind a session, by its key or by its address. -/
def sessionRecord (session : Session) : M (Option LocalRecord) :=
  match session.localIdentityKey.filter isRecordKey with
  | some key => do
    let doc ← attempt (perform (.bindingGet key))
    pure (doc.bind fun doc => parseLocalIdentityRecord rt doc key)
  | none => do
    let found ← find rt config (some session.email)
    pure found.record

/-- Does the record behind a session still stand as it did? -/
def validateSession (session : Session) : M Bool :=
  match session.localIdentityId.filter (· ≠ []) with
  | none => pure true
  | some id => do
    let record ← sessionRecord rt config session
    pure (record.any fun r =>
      !r.disabled && r.id = id && session.localSecurityVersion = some r.securityVersion)

/-- The record linked to an upstream account, and the link. -/
def linked (email : Option JsString) (upstream : JsString) (issuer subject : Option Json) :
    M (Option (LocalRecord × UpstreamLink)) := do
  let found ← find rt config email
  match found.error with
  | some error => fail error
  | none =>
    match found.record.filter fun r => !r.disabled with
    | none => pure none
    | some record =>
      pure ((record.upstreams.find? fun l =>
        l.upstream = upstream && issuer.bind Json.string? = some l.issuer &&
          subject.bind Json.string? = some l.subject).map (record, ·))

/-! ## Refresh tokens -/

def REFRESH_PURPOSE (identityId linkId : JsString) : JsString :=
  js "local-identity-refresh/" ++ identityId ++ js "/" ++ linkId

/-- The text of a sealed value. -/
def sealedText (purpose : JsString) (iv ct : Bytes) : JsString :=
  js "k1." ++ purpose ++ js "." ++ b64u iv ++ js "." ++ b64u ct

/-- The JSON that is sealed for a refresh token. -/
def refreshPayload (identityId : JsString) (link : UpstreamLink) (token : JsString) : JsString :=
  stringifyFlat
    [(js "v", .num 1), (js "identity_id", .str identityId), (js "link_id", .str link.id),
      (js "upstream", .str link.upstream), (js "issuer", .str link.issuer),
      (js "subject", .str link.subject), (js "token", .str token)]

/-- Seal an upstream refresh credential for one link of one identity. -/
def sealUpstreamRefreshToken (identityId : JsString) (link : UpstreamLink) (token : JsString) :
    M JsString := do
  let purpose := REFRESH_PURPOSE identityId link.id
  let (iv, ct) ← perform (.encrypt purpose (utf8 (refreshPayload identityId link token)))
  pure (sealedText purpose iv ct)

def storeRefreshToken (record : LocalRecord) (link : UpstreamLink) (token : JsString) :
    M (Option LocalRecord) :=
  if token = [] then pure (some record)
  else if 16384 < token.length then
    fail (.error (js "upstream refresh credential is too large to retain"))
  else do
    let ciphertext ← sealUpstreamRefreshToken record.id link token
    replace record (.refreshToken link.id ciphertext)

/-- Does an opened payload belong to this link of this record? -/
def boundTo (record : LocalRecord) (link : UpstreamLink) (payload : Json) : Option JsString := do
  let m ← payload.object?
  guard ((Json.member m (js "v")).bind Json.safeNat? = some 1)
  guard ((Json.member m (js "identity_id")).bind Json.string? = some record.id)
  guard ((Json.member m (js "link_id")).bind Json.string? = some link.id)
  guard ((Json.member m (js "upstream")).bind Json.string? = some link.upstream)
  guard ((Json.member m (js "issuer")).bind Json.string? = some link.issuer)
  guard ((Json.member m (js "subject")).bind Json.string? = some link.subject)
  (Json.member m (js "token")).bind Json.string?

/-- Open with the current secret, else with any. -/
def openPayload (purpose stored : JsString) : M (Json × Bool) := do
  match ← perform (.openRefresh true purpose stored) with
  | .ok payload => pure (payload, true)
  | .error _ =>
    let payload ← attempt (perform (.openRefresh false purpose stored))
    pure (payload, false)

/-- The token behind a link, and whether the current secret sealed it. -/
def openRefreshToken (record : LocalRecord) (link : UpstreamLink) (stored : JsString) :
    M (JsString × Bool) := do
  let (payload, current) ← openPayload (REFRESH_PURPOSE record.id link.id) stored
  match boundTo record link payload with
  | none =>
    fail (.sealError (js "refresh token is bound to a different identity or upstream link"))
  | some token => pure (token, current)

/-- The loop of `rekeyRecord`: the links as they should be, and whether any
changed. -/
def rekeyLinks (record : LocalRecord) : List UpstreamLink → M (List UpstreamLink × Bool)
  | [] => pure ([], false)
  | link :: links =>
    match link.refreshToken.filter (· ≠ []) with
    | none => do
      let (rest, changed) ← rekeyLinks record links
      pure (link :: rest, changed)
    | some stored => do
      let (token, current) ← openRefreshToken record link stored
      if current then do
        let (rest, changed) ← rekeyLinks record links
        pure (link :: rest, changed)
      else do
        let ciphertext ← sealUpstreamRefreshToken record.id link token
        let (rest, _) ← rekeyLinks record links
        pure ({ link with refreshToken := some ciphertext } :: rest, true)

def rekeyRecord (record : LocalRecord) : M (LocalRecord × Bool) := do
  let (upstreams, changed) ← rekeyLinks record record.upstreams
  if !changed then pure (record, false)
  else do
    match ← replace record (.rekey upstreams) with
    | none => fail (.error (js "local identity changed while it was being rekeyed"))
    | some updated => pure (updated, true)

/-- `rekeyAll`, over the keys that the binding lists: how many records changed,
and how many did not. -/
def rekeyAll : List JsString → M (Nat × Nat)
  | [] => pure (0, 0)
  | key :: keys => do
    let doc ← attempt (perform (.bindingGet key))
    match doc.bind fun doc => parseLocalIdentityRecord rt doc key with
    | none => fail (.error (js "local identity record " ++ key ++ js ".json is malformed"))
    | some record => do
      let (_, changed) ← rekeyRecord record
      let (changes, rest) ← rekeyAll keys
      pure (if changed then (changes + 1, rest) else (changes, rest + 1))

/-- `profileClaims`. -/
def profileClaims (record : LocalRecord) : Option Members :=
  relayedClaims config ((record.claims.getD []).map fun c => (c.1, .str c.2)) none

/-- `requiresSecondFactor`. -/
def requiresSecondFactor (record : LocalRecord) : Bool := record.mfaRequired

end Sag
