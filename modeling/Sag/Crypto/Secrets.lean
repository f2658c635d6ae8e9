import Sag.LocalIdentities.Store
import Sag.Util.Utf8

/-!
# Sealing under a secret

`crypto/secrets.js`: one master secret is stretched into a key for each purpose, the keys are
cached, and a JSON value is sealed under one of them into a token. The state is the cache and
what has been encrypted so far, which is all that opens (`Vault.decrypt`): encryption and key
derivation are ideal, `hkdf` stretches bytes to keys of any type. Everything around them is
the program's: the key of the cache, the additional data, the parts of a token, the order in
which the secrets are tried, the expiry.
-/

namespace Sag

variable {K : Type}

/-- What `HKDF` was asked, it is asked by no other secret and no other purpose. -/
def IdealHkdf (hkdf : Bytes → Bytes → K) : Prop :=
  ∀ ikm info ikm' info', hkdf ikm info = hkdf ikm' info' → ikm = ikm' ∧ info = info'

def HKDF_INFO_PREFIX : JsString := js "sag/v1/"

/-- Derive the key of a named purpose from a master secret. -/
def derive (hkdf : Bytes → Bytes → K) (masterSecret purpose : JsString) : K :=
  hkdf (utf8 masterSecret) (utf8 (HKDF_INFO_PREFIX ++ purpose))

/-- Where the cache keeps the key of a secret. -/
def cacheKey (masterSecret purpose : JsString) : JsString := purpose ++ 32 :: masterSecret

/-- The key of a secret, and the cache that holds it from now on. -/
def aesKey (hkdf : Bytes → Bytes → K) (masterSecret purpose : JsString) (aesCache : List (JsString × K)) :
    K × List (JsString × K) :=
  match aesCache.lookup (cacheKey masterSecret purpose) with
  | some key => (key, aesCache)
  | none =>
    let key := derive hkdf masterSecret (js "aead/" ++ purpose)
    (key, (cacheKey masterSecret purpose, key) :: aesCache)

/-- One encryption. -/
structure Encryption (K : Type) where
  key : K
  iv : Bytes
  additionalData : Bytes
  plaintext : Bytes
  ct : Bytes

/-- The cache, and what has been encrypted. -/
structure Vault (K : Type) where
  aesCache : List (JsString × K)
  encrypted : List (Encryption K)

/-- A call of `seal`, with the bytes that were drawn for it. -/
structure SealCall where
  masterSecret : JsString
  purpose : JsString
  payload : Json
  keyVersion : Option JsString
  iv : Bytes
  ct : Bytes

/-- `opts.keyVersion ?? 'k1'`. -/
def SealCall.version (call : SealCall) : JsString := call.keyVersion.getD (js "k1")

def additionalData (keyVersion purpose : JsString) : Bytes := utf8 (keyVersion ++ dot :: purpose)

/-- The token that `seal` returns. -/
def SealCall.token (call : SealCall) : JsString :=
  call.version ++ dot :: (call.purpose ++ dot :: (b64u call.iv ++ dot :: b64u call.ct))

/-- `JSON.stringify(payload)`. -/
def SealCall.text (rt : Runtime) (call : SealCall) : JsString :=
  Json.text (fun x => rt.stringOf (.num x)) call.payload

def SealCall.encryption (rt : Runtime) (call : SealCall) (key : K) : Encryption K where
  key := key
  iv := call.iv
  additionalData := additionalData call.version call.purpose
  plaintext := utf8 (call.text rt)
  ct := call.ct

/-- Seal a JSON value into a token. -/
def Vault.seal (hkdf : Bytes → Bytes → K) (rt : Runtime) (v : Vault K) (call : SealCall) : Vault K × JsString :=
  let (key, aesCache) := aesKey hkdf call.masterSecret call.purpose v.aesCache
  (⟨aesCache, call.encryption rt key :: v.encrypted⟩, call.token)

/-- `decrypt`: what was encrypted under the same key and data opens, and nothing else. -/
def Vault.decrypt [DecidableEq K] (v : Vault K) (key : K) (iv aad ct : Bytes) : Option Bytes :=
  (v.encrypted.find? fun e => e.key = key ∧ e.iv = iv ∧ e.additionalData = aad ∧ e.ct = ct).map (·.plaintext)

/-- What `unseal` throws. -/
inductive Thrown where
  | sealError (message : JsString)
  | typeError
  deriving DecidableEq

/-- A number, read as `typeof value === 'number'`. -/
def Json.num? : Json → Option Rat
  | .num x => some x
  | _ => none

/-- Has a time that is a number passed? -/
def passed (time : Option Json) (now : Nat) (grace : Rat) : Bool :=
  match time.bind Json.num? with
  | some t => t + grace < now
  | none => false

/-- The checks on what has been opened. `payload.exp` of `null` throws. -/
def checkTimes (payload : Json) (now : Nat) (maxAgeSeconds : Option Rat) : Except Thrown Json :=
  match payload with
  | .null => .error .typeError
  | payload =>
    if passed (payload.get (js "exp")) now 0 then .error (.sealError (js "token expired"))
    else
      match maxAgeSeconds.filter (· ≠ 0) with
      | none => .ok payload
      | some age =>
        if passed (payload.get (js "iat")) now age then .error (.sealError (js "token too old")) else .ok payload

/-- `JSON.parse(new TextDecoder().decode(pt))` and the checks. -/
def readPayload (rt : Runtime) (pt : Bytes) (now : Nat) (maxAgeSeconds : Option Rat) : Except Thrown Json :=
  match rt.parseJson (fromUtf8 pt) with
  | none => .error (.sealError (js "malformed payload"))
  | some payload => checkTimes payload now maxAgeSeconds

section Opening

variable [DecidableEq K] (hkdf : Bytes → Bytes → K) (rt : Runtime)

/-- The secrets in order: the first key that opens decides. -/
def unsealLoop (purpose : JsString) (iv aad ct : Bytes) (now : Nat) (maxAgeSeconds : Option Rat) :
    List JsString → Vault K → Vault K × Except Thrown Json
  | [], v => (v, .error (.sealError (js "could not decrypt token")))
  | secret :: list, v =>
    let (key, aesCache) := aesKey hkdf secret purpose v.aesCache
    let v := { v with aesCache := aesCache }
    match v.decrypt key iv aad ct with
    | none => unsealLoop purpose iv aad ct now maxAgeSeconds list v
    | some pt => (v, readPayload rt pt now maxAgeSeconds)

/-- Open a sealed token. Secrets that are empty are left out. -/
def Vault.unseal (v : Vault K) (secrets : List JsString) (purpose token : JsString) (now : Nat)
    (maxAgeSeconds : Option Rat) : Vault K × Except Thrown Json :=
  match split dot token with
  | [keyVersion, tokenPurpose, ivPart, ctPart] =>
    if tokenPurpose ≠ purpose then (v, .error (.sealError (js "purpose mismatch")))
    else
      match unb64u ivPart, unb64u ctPart with
      | some iv, some ct =>
        unsealLoop hkdf rt purpose iv (additionalData keyVersion purpose) ct now maxAgeSeconds
          (secrets.filter (· ≠ [])) v
      | _, _ => (v, .error (.sealError (js "malformed token")))
  | _ => (v, .error (.sealError (js "malformed token")))

/-- Does `unseal` return the payload? -/
def Vault.Returns (v : Vault K) (secrets : List JsString) (purpose token : JsString) (now : Nat)
    (maxAgeSeconds : Option Rat) (payload : Json) : Prop :=
  (v.unseal hkdf rt secrets purpose token now maxAgeSeconds).2 = .ok payload

end Opening

/-! ## Purposes -/

/-- The purposes a token of the program is sealed for. -/
inductive Use where
  | transaction
  | upstreamState
  | code
  | session
  | access
  | logout
  | rememberMe
  | refresh (identityId linkId : JsString)

def Use.purpose : Use → JsString
  | .transaction => js "tx"
  | .upstreamState => js "upstream-state"
  | .code => js "code"
  | .session => js "session"
  | .access => js "access"
  | .logout => js "logout"
  | .rememberMe => js "remember-me"
  | .refresh identityId linkId => REFRESH_PURPOSE identityId linkId

/-- The identifiers of a record and of its links are safe. -/
def Use.Safe : Use → Prop
  | .refresh identityId linkId => safeId identityId = true ∧ safeId linkId = true
  | _ => True

end Sag
