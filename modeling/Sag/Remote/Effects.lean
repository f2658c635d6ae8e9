import Mathlib.Logic.Function.Basic
import Sag.Cimd
import Sag.Clients
import Sag.Lib.ExpiringCache

/-!
# Documents of other servers

What the gateway awaits where it reads documents of other servers and remembers them: the outbound
half of `util/http.js`, and the five caches of `crypto/jose.js`, `upstream/index.js`,
`clients/index.js`, `upstream/dns.js` and `clients/store.js`. An answer is whatever the network makes of
a request. The caches are the state that all calls of a process share, and each access to one of them is
atomic.

`R` is the monad of these functions.
-/

namespace Sag

open Resumable

/-! ## What is remembered -/

/-- The parts of an upstream's metadata that are read. The endpoints have been checked and are
`href`s; the issuer is as it was found. -/
structure Metadata where
  issuer : Json
  authorizationEndpoint : JsString
  tokenEndpoint : JsString
  jwksUri : JsString

/-- A client that has described itself. Most of what it says is passed on as it was found. -/
structure CimdClient where
  clientId : JsString
  clientName : Json
  redirectUris : List Json
  postLogoutRedirectUris : Json
  jwks : Option Json
  jwksUri : Option JsString
  tokenEndpointAuthMethod : JsString
  scopes : Option (List JsString)
  idTokenSignedResponseAlg : Option Json
  logoUri : Option Json
  policyUri : Option Json
  tosUri : Option Json
  requirePkce : Bool

inductive MailSource where
  | mx
  | spf
  deriving DecidableEq, Repr

/-- Which mail provider serves a domain, and which record says so. -/
structure MailProvider where
  provider : JsString
  source : MailSource
  deriving DecidableEq

inductive CacheId where
  | jwks
  | metadata
  | cimd
  | mail
  /-- What the store of clients has said, absence included. -/
  | clients
  deriving DecidableEq, Repr

@[reducible] def CacheId.Value : CacheId → Type
  | .jwks => Json
  | .metadata => Metadata
  | .cimd => CimdClient
  | .mail => Option MailProvider
  | .clients => Option ClientRecord

/-- `MAX_JWKS_CACHE_ENTRIES`, `MAX_METADATA_CACHE_ENTRIES`, `MAX_CIMD_CACHED` and, twice, `MAX_CACHED`. -/
def CacheId.limit : CacheId → Nat
  | .metadata => 100
  | .jwks | .cimd | .mail | .clients => 500

instance (c : CacheId) : Fact (0 < c.limit) := ⟨by cases c <;> decide⟩

/-- The caches of a process. -/
abbrev Caches : Type := (c : CacheId) → ExpiringCache JsString c.Value c.limit

def Caches.empty : Caches := fun _ => .empty

/-- Lapsed entries go, and the key is written anew at the end. -/
def rememberJwks (cache : ExpiringCache JsString Json CacheId.jwks.limit) (now : Nat) (uri : JsString)
    (entry : Dated Json) : ExpiringCache JsString Json CacheId.jwks.limit :=
  ((cache.sweep now).forget uri).put uri entry

def rememberMetadata (cache : ExpiringCache JsString Metadata CacheId.metadata.limit) (now : Nat) (url : JsString)
    (entry : Dated Metadata) : ExpiringCache JsString Metadata CacheId.metadata.limit :=
  ((cache.sweep now).forget url).put url entry

/-- Lapsed entries go; a key that is there again keeps its place. -/
def rememberCimd (cache : ExpiringCache JsString CimdClient CacheId.cimd.limit) (now : Nat) (clientId : JsString)
    (entry : Dated CimdClient) : ExpiringCache JsString CimdClient CacheId.cimd.limit :=
  (cache.sweep now).put clientId entry

/-- `remember` of `upstream/dns.js`, which leaves what has lapsed where it is. -/
def rememberMail (cache : ExpiringCache JsString (Option MailProvider) CacheId.mail.limit) (domain : JsString)
    (entry : Dated (Option MailProvider)) : ExpiringCache JsString (Option MailProvider) CacheId.mail.limit :=
  cache.put domain entry

/-- What `withCache` does: the key is written anew at the end, and only a full cache is looked through for what has
lapsed. -/
def rememberRecord (cache : ExpiringCache JsString (Option ClientRecord) CacheId.clients.limit) (now : Nat)
    (clientId : JsString) (entry : Dated (Option ClientRecord)) :
    ExpiringCache JsString (Option ClientRecord) CacheId.clients.limit :=
  cache.renew now clientId entry

def CacheId.remember : (c : CacheId) → ExpiringCache JsString c.Value c.limit → Nat → JsString → Dated c.Value →
    ExpiringCache JsString c.Value c.limit
  | .jwks => rememberJwks
  | .metadata => rememberMetadata
  | .cimd => rememberCimd
  | .mail => fun cache _ => rememberMail cache
  | .clients => rememberRecord

/-- What is in a cache once an entry has been remembered. -/
theorem CacheId.get?_remember {c : CacheId} {cache : ExpiringCache JsString c.Value c.limit} {now : Nat}
    {key key' : JsString} {entry entry' : Dated c.Value}
    (h : (c.remember cache now key entry).get? key' = some entry') :
    (key' = key ∧ entry' = entry) ∨ cache.get? key' = some entry' := by
  cases c with
  | jwks =>
    rcases ExpiringCache.get?_put h with hnew | hold
    · exact Or.inl hnew
    · exact Or.inr (ExpiringCache.get?_of_sweep (ExpiringCache.get?_of_forget hold))
  | metadata =>
    rcases ExpiringCache.get?_put h with hnew | hold
    · exact Or.inl hnew
    · exact Or.inr (ExpiringCache.get?_of_sweep (ExpiringCache.get?_of_forget hold))
  | cimd =>
    rcases ExpiringCache.get?_put h with hnew | hold
    · exact Or.inl hnew
    · exact Or.inr (ExpiringCache.get?_of_sweep hold)
  | mail => exact ExpiringCache.get?_put h
  | clients => exact ExpiringCache.get?_renew h

/-! ## Answers -/

inductive RemoteError where
  /-- `BodyTooLargeError`. -/
  | bodyTooLarge (maxBytes : Nat)
  /-- What the engine throws: text that is not JSON, a property of `null`. -/
  | engine
  | thrown (e : JsError)

/-- `new Error(message)`. -/
def remoteError (message : JsString) : RemoteError := .thrown (.error message)

/-- An answer, with the chunks in which its body arrives. -/
structure Fetched where
  status : Nat
  /-- `type === 'opaqueredirect'`. -/
  opaqueRedirect : Bool
  contentLength : Option JsString
  body : Option (List Bytes)
  /-- With what the body breaks off after these chunks, if it does. -/
  broken : Option JsError

/-- `res.ok`. -/
def Fetched.ok (res : Fetched) : Bool := 200 ≤ res.status && res.status ≤ 299

def Fetched.redirected (res : Fetched) : Bool :=
  res.opaqueRedirect || (300 ≤ res.status && res.status < 400 && res.status ≠ 304)

/-- A `Content-Length` that is over the limit. -/
def declaresMore (maxBytes : Nat) (contentLength : Option JsString) : Bool :=
  contentLength.any fun declared =>
    trim declared ≠ [] && (trim declared).all isDigit && maxBytes < decimalValue (trim declared)

/-- The loop of `readTextLimited`: `chunks` have been kept, `total` bytes of them. -/
def readChunks (maxBytes : Nat) (broken : Option JsError) : List Bytes → Nat → List Bytes →
    Except RemoteError (List Bytes)
  | [], _, chunks =>
    match broken with
    | some e => .error (.thrown e)
    | none => .ok chunks
  | chunk :: rest, total, chunks =>
    if maxBytes < total + chunk.length then .error (.bodyTooLarge maxBytes)
    else readChunks maxBytes broken rest (total + chunk.length) (chunks ++ [chunk])

variable (rt : Runtime)

/-- Read an answer without ever buffering more than `maxBytes`. -/
def readTextLimited (message : Fetched) (maxBytes : Nat) : Except RemoteError JsString :=
  if declaresMore maxBytes message.contentLength then .error (.bodyTooLarge maxBytes)
  else
    match message.body with
    | none => .ok []
    | some body => (readChunks maxBytes message.broken body 0 []).map fun chunks => rt.fromUtf8 chunks.flatten

/-- What a body comes to that is read as a whole. -/
def wholeBody (maxBytes : Nat) (broken : Option JsError) (bytes : Bytes) : Except RemoteError Bytes :=
  if maxBytes < bytes.length then .error (.bodyTooLarge maxBytes)
  else
    match broken with
    | some e => .error (.thrown e)
    | none => .ok bytes

/-- The loop, from where `chunks` have been kept. It never keeps more than the limit. -/
theorem readChunks_whole {maxBytes : Nat} {broken : Option JsError} (body chunks : List Bytes)
    (hfits : chunks.flatten.length ≤ maxBytes) :
    (readChunks maxBytes broken body chunks.flatten.length chunks).map List.flatten =
      wholeBody maxBytes broken (chunks ++ body).flatten := by
  induction body generalizing chunks with
  | nil =>
    have hroom : ¬ maxBytes < (chunks ++ []).flatten.length := by
      rw [List.append_nil]
      omega
    unfold readChunks wholeBody
    rw [if_neg hroom, List.append_nil]
    cases broken <;> rfl
  | cons chunk rest ih =>
    have hkept : (chunks ++ [chunk]).flatten.length = chunks.flatten.length + chunk.length := by simp
    rw [readChunks]
    split
    · next hmore =>
      have hwhole : maxBytes < (chunks ++ chunk :: rest).flatten.length := by
        simp only [List.flatten_append, List.flatten_cons, List.length_append]
        omega
      unfold wholeBody
      rw [if_pos hwhole]
      rfl
    · next hroom =>
      rw [← hkept, ih _ (by omega), List.append_assoc]
      rfl

variable {rt} in
/-- How a body is cut into chunks makes no difference. -/
theorem readTextLimited_whole (message : Fetched) (maxBytes : Nat) :
    readTextLimited rt message maxBytes =
      if declaresMore maxBytes message.contentLength then .error (.bodyTooLarge maxBytes)
      else
        match message.body with
        | none => .ok []
        | some body => (wholeBody maxBytes message.broken body.flatten).map rt.fromUtf8 := by
  unfold readTextLimited
  split
  · rfl
  · cases message.body with
    | none => rfl
    | some body =>
      have hloop : (readChunks maxBytes message.broken body 0 []).map List.flatten =
          wholeBody maxBytes message.broken body.flatten := readChunks_whole body [] (Nat.zero_le _)
      show Except.map _ (readChunks maxBytes message.broken body 0 []) = Except.map _ (wholeBody _ _ _)
      rw [← hloop]
      show _ = Except.map _ (Except.map _ (readChunks maxBytes message.broken body 0 []))
      cases readChunks maxBytes message.broken body 0 [] <;> rfl

variable {rt} in
/-- What has been read is within the limit. -/
theorem readTextLimited_bounded {message : Fetched} {maxBytes : Nat} {text : JsString} {body : List Bytes}
    (h : readTextLimited rt message maxBytes = .ok text) (hbody : message.body = some body) :
    body.flatten.length ≤ maxBytes := by
  rw [readTextLimited_whole, hbody] at h
  unfold wholeBody at h
  split at h
  · cases h
  · dsimp only at h
    split at h
    · cases h
    · next hfits => exact Nat.le_of_not_lt hfits

/-- Read and parse a bounded JSON document. -/
def readJsonLimited (message : Fetched) (maxBytes : Nat) : Except RemoteError Json :=
  (readTextLimited rt message maxBytes).bind fun text =>
    match rt.parseJson text with
    | some doc => .ok doc
    | none => .error .engine

/-! ## Operations -/

inductive DnsType where
  | a
  | aaaa
  | mx
  | txt
  deriving DecidableEq, Repr

inductive RemoteRequest where
  | get (url : JsString)
  | post (url : JsString) (params : List (JsString × JsString))
  /-- The DNS-over-HTTPS resolver of the configuration, asked for records of a name. -/
  | dns (name : JsString) (type : DnsType)
  /-- An object of a bucket, asked for with these headers. -/
  | signed (url : JsString) (headers : List (JsString × JsString))

inductive RemoteOp where
  | suspend
  | pick
  | fetch (request : RemoteRequest)
  /-- The platform's resolver. -/
  | resolve (name : JsString) (type : DnsType)
  | lookup (c : CacheId) (key : JsString)
  | forget (c : CacheId) (key : JsString)
  | remember (c : CacheId) (key : JsString) (entry : Dated c.Value)
  /-- Verify the signature of a compact JWS with a key. -/
  | verifySignature (token : JsString) (jwk : Json)
  /-- Ask the binding that stores clients for the document of a key. -/
  | readRecord (key : JsString)

@[reducible] def RemoteOp.Ans : RemoteOp → Type
  | .suspend => Unit
  | .pick => Bool
  | .fetch _ => Except JsError Fetched
  | .resolve _ _ => Except JsError (List JsString)
  | .lookup c _ => Option (Dated c.Value)
  | .forget _ _ => Unit
  | .remember _ _ _ => Unit
  | .verifySignature _ _ => Except JsError Unit
  | .readRecord _ => Except JsError (Option Json)

@[reducible] def remote : Effects := ⟨RemoteError, RemoteOp, RemoteOp.Ans⟩

abbrev R (α : Type) : Type := Prog remote α

def request (o : RemoteOp) : R o.Ans := Prog.await (F := remote) o

def refuse {α : Type} (e : RemoteError) : R α := Prog.throw (F := remote) e

/-- What an access to a cache does, and what it answers; the network answers as it likes. -/
def remoteEnv : Environment remote Caches
  | _, s, .lookup c key, cached, s' => cached = (s c).get? key ∧ s' = s
  | _, s, .forget c key, _, s' => s' = Function.update s c ((s c).forget key)
  | t, s, .remember c key entry, _, s' => s' = Function.update s c (c.remember (s c) t key entry)
  | _, s, _, _, s' => s' = s

/-- What has come back, where something has and it is no redirect. -/
def landed (answer : Except JsError Fetched) : Except RemoteError Fetched :=
  match answer with
  | .error e => .error (.thrown e)
  | .ok res =>
    if res.redirected then
      .error (remoteError (js "refusing to follow a redirect (HTTP " ++ decimal res.status ++ js ")"))
    else .ok res

/-- `fetch` that gives up in time and follows no redirect. -/
def fetchWithTimeout (r : RemoteRequest) : R Fetched := do
  let answer ← request (.fetch r)
  Prog.ofExcept (F := remote) (landed answer)

/-- Look in a cache. What has lapsed is not there. -/
def cachedAt (c : CacheId) (key : JsString) : R (Nat × Option c.Value) := do
  let now ← Prog.now
  let cached ← request (.lookup c key)
  pure (now, liveAt now cached)

/-- Keep a value for `ttlSeconds` from now on. -/
def keepFor (c : CacheId) (key : JsString) (value : c.Value) (ttlSeconds : Nat) : R Unit := do
  let now ← Prog.now
  request (.remember c key ⟨value, now + ttlSeconds⟩)

/-! ## Contracts for these effects -/

/-- The operations that neither fetch a document nor keep one. -/
def RemoteOp.quiet : RemoteOp → Bool
  | .fetch (.get _) | .fetch (.post _ _) | .fetch (.signed _ _) | .remember _ _ _ | .readRecord _ => false
  | _ => true

/-- A contract that lets every quiet operation through. -/
def Quiet (C : Contract remote) : Prop := ∀ h t o, o.quiet = true → C.issue h t o

/-- A value that was good when it was looked for. -/
def FromCache (C : Rely remote) (c : CacheId) (key : JsString) (value : c.Value) : Prop :=
  ∃ t entry, C.tick t ∧ C.reply t (.lookup c key) (some entry) ∧ t < entry.expiresAt ∧ entry.value = value

section
variable {C : Contract remote} {s : Moment remote} {E : Moment remote → RemoteError → Prop}

theorem landed_ok {answer : Except JsError Fetched} {res : Fetched} (h : landed answer = .ok res) :
    answer = .ok res := by
  unfold landed at h
  split at h
  · cases h
  · split at h
    · cases h
    · rw [Except.ok.inj h]

theorem fetchWithTimeout_sat {r : RemoteRequest} (hissue : ∀ t, C.tick t → C.issue s.past t (.fetch r)) :
    (fetchWithTimeout r).Sat C (fun _ _ => True)
      (fun s' res => ∃ t, C.tick t ∧ C.reply t (.fetch r) (.ok res) ∧
        s' = ⟨none, s.past ++ [⟨t, .fetch r, (.ok res : Except JsError Fetched)⟩]⟩) s := by
  refine fun t ht => ⟨hissue t ht.1, fun answer hanswer => ?_⟩
  refine Prog.sat_ofExcept.mpr ⟨fun res hres => ?_, fun _ _ => trivial⟩
  obtain rfl := landed_ok hres
  exact ⟨t, ht.1, hanswer, rfl⟩

/-- The clock is read at the instant of the look. -/
theorem cachedAt_sat (hC : Quiet C) (c : CacheId) (key : JsString) :
    (cachedAt c key).Sat C E
      (fun s' r => ∃ cached, C.tick r.1 ∧ C.reply r.1 (.lookup c key) cached ∧ r.2 = liveAt r.1 cached ∧
        s' = ⟨none, s.past ++ [⟨r.1, .lookup c key, cached⟩]⟩) s := by
  refine fun now hnow t ht => ⟨hC _ _ _ rfl, fun cached hcached => ?_⟩
  obtain rfl : t = now := ht.2 now rfl
  exact ⟨cached, hnow.1, hcached, rfl, rfl⟩

theorem fromCache {c : CacheId} {key : JsString} {t : Nat} {cached : Option (Dated c.Value)} {value : c.Value}
    (ht : C.tick t) (hcached : C.reply t (.lookup c key) cached) (hvalue : some value = liveAt t cached) :
    FromCache C.toRely c key value := by
  obtain ⟨entry, rfl, hfresh, hentry⟩ := liveAt_eq_some.mp hvalue.symm
  exact ⟨t, entry, ht, hcached, hfresh, hentry⟩

/-- What is kept lasts from the instant at which it is kept. -/
theorem keepFor_sat {c : CacheId} {key : JsString} {value : c.Value} {ttlSeconds : Nat}
    (hissue : ∀ t, C.tick t → C.issue s.past t (.remember c key ⟨value, t + ttlSeconds⟩)) :
    (keepFor c key value ttlSeconds).Sat C E (fun _ _ => True) s := by
  refine fun now hnow t ht => ?_
  obtain rfl : t = now := ht.2 now rfl
  exact ⟨hissue t hnow.1, fun _ _ => trivial⟩

end

end Sag
