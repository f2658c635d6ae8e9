import Sag.Config
import Sag.Lib.InsertionMap

/-!
# The keys of peers

`keys/peers.js`: what is taken over from the document of a peer (`fetchPeerJwks`), and how
the keys of all peers are collected for `/jwks.json`.

`createPeerJwks` keeps three maps that overlapping requests share: the cache, the end of the
back-off, and the resolution in flight, each by URL. What runs between two `await`s is not
interrupted, so it is one `PeerEvent`, and what a peer, the cache and the clock answer is
part of the event. A `Resolution` is a call of `resolveKeys`: its local variables and how far
it has come; none is ever forgotten, so that a state says what came before it.
-/

namespace Sag

/-! ## The document of a peer -/

/-- `'d' in key || 'k' in key`. -/
def carriesSecret (key : Members) : Bool :=
  (Json.member key (js "d")).isSome || (Json.member key (js "k")).isSome

/-- An entry that is passed on: an object with a key type, and without what is thought to be
the private part of any key. -/
def isBareKey : Json → Bool
  | .obj key => ((Json.member key (js "kty")).bind Json.string?).isSome && !carriesSecret key
  | _ => false

/-- What is taken over from a peer's answer, where there was one and it was JSON. -/
def fetchPeerJwks (res : Except JsString Json) : Except JsString (List Json) :=
  match res with
  | .error message => .error message
  | .ok body =>
    match body.get (js "keys") with
    | some (.arr entries) =>
      match entries.filter isBareKey with
      | [] => .error (js "response carried no usable public key")
      | key :: keys => .ok (key :: keys)
    | _ => .error (js "response has no \"keys\" array")

/-! ## Collecting -/

inductive CacheBackend where
  | memory
  | cfKv
  | dynamodb
  deriving DecidableEq, Repr

structure PeerJwksConfig where
  urls : List JsString
  cacheTtlSeconds : Nat
  staleTtlSeconds : Nat
  retryAfterSeconds : Nat
  cacheBackend : CacheBackend

structure CacheEntry where
  keys : List Json
  fetchedAt : Nat

/-- What a resolution waits for. -/
inductive PeerStage where
  | reading
  | fetching
  | storing
  /-- It has returned, but its `finally` has not run. -/
  | settled
  | released
  deriving DecidableEq, Repr

/-- What has become of the request to the peer. -/
inductive Attempt where
  | unmade
  | waiting
  | succeeded
  | failed
  deriving DecidableEq, Repr

/-- A call of `resolveKeys`. -/
structure Resolution where
  url : JsString
  stage : PeerStage
  cached : Option CacheEntry
  now : Nat
  attempt : Attempt
  /-- What it returns. -/
  keys : List Json

/-- What `collect` answers. -/
structure Collected where
  keys : List Json
  incomplete : Bool

/-- A call of `collect`, and the resolutions it waits for. -/
structure Collection where
  joined : List Nat
  result : Option Collected

structure Peers where
  clock : Nat
  /-- The cache of this process. -/
  entries : InsertionMap JsString CacheEntry
  /-- Everything that has been written to a shared cache. -/
  shared : List (JsString × CacheEntry)
  retryAfter : InsertionMap JsString Nat
  inFlight : InsertionMap JsString Nat
  resolutions : List Resolution
  collections : List Collection

def Peers.init : Peers := ⟨0, .empty, [], .empty, .empty, [], []⟩

/-- What happens between two `await`s. -/
inductive PeerEvent where
  | collect
  /-- The cache has answered the resolution `i`, with what stands at `pick` if it is shared. -/
  | read (i : Nat) (pick : Option Nat) (now : Nat)
  /-- The peer has answered. -/
  | fetched (i : Nat) (res : Except JsString Json)
  /-- The cache has taken the entry, or refused it. -/
  | stored (i : Nat)
  /-- The `finally` of `keysFor`. -/
  | release (i : Nat)
  /-- All that a call of `collect` waits for is there. -/
  | finish (c : Nat)
  /-- Another instance has written to the shared cache. -/
  | elsewhere (url : JsString) (res : Except JsString Json) (fetchedAt : Nat)

variable (config : PeerJwksConfig)

/-- `cached && now - cached.fetchedAt < ttl`. -/
def CacheEntry.within (cached : CacheEntry) (ttl now : Nat) : Bool := now < cached.fetchedAt + ttl

/-- What a peer still contributes while no fetch is being attempted for it. -/
def graceKeys (cached : Option CacheEntry) (now : Nat) : List Json :=
  match cached with
  | some entry => if entry.within config.staleTtlSeconds now then entry.keys else []
  | none => []

namespace Peers

/-- `resolveKeys`, as far as the read of the cache; that of this process answers at once. -/
def begin (s : Peers) (url : JsString) : Peers :=
  { s with
    resolutions := s.resolutions ++ [⟨url, .reading, s.entries.get? url, 0, .unmade, []⟩]
    inFlight := s.inFlight.insert url s.resolutions.length }

/-- One peer's keys, coalescing everything that asks while a fetch is open. -/
def keysFor (s : Peers) (url : JsString) : Peers × Nat :=
  match s.inFlight.get? url with
  | some pending => (s, pending)
  | none => (s.begin url, s.resolutions.length)

/-- `urls.map(keysFor)`. -/
def keysForAll (s : Peers) : List JsString → Peers × List Nat
  | [] => (s, [])
  | url :: urls =>
    let (s, pending) := s.keysFor url
    let (s, joined) := s.keysForAll urls
    (s, pending :: joined)

def set (s : Peers) (i : Nat) (r : Resolution) : Peers := { s with resolutions := s.resolutions.set i r }

/-- What the shared cache answers: nothing, or something that was written to it. -/
def pickShared (s : Peers) (url : JsString) (pick : Option Nat) : Option CacheEntry :=
  pick.bind fun n => (s.shared.filter (·.1 = url))[n]?.map (·.2)

def cachedFor (s : Peers) (r : Resolution) (pick : Option Nat) : Option CacheEntry :=
  match config.cacheBackend with
  | .memory => r.cached
  | .cfKv | .dynamodb => s.pickShared r.url pick

/-- `resolveKeys`, from the answer of the cache to the request. -/
def resume (s : Peers) (r : Resolution) : Resolution :=
  if (r.cached.any (·.within config.cacheTtlSeconds r.now)) = true then
    { r with stage := .settled, keys := (r.cached.map (·.keys)).getD [] }
  else if r.now < (s.retryAfter.get? r.url).getD 0 then
    { r with stage := .settled, keys := graceKeys config r.cached r.now }
  else { r with stage := .fetching, attempt := .waiting }

/-- `cache.put`. -/
def put (s : Peers) (url : JsString) (entry : CacheEntry) : Peers :=
  match config.cacheBackend with
  | .memory => { s with entries := s.entries.insert url entry }
  | .cfKv | .dynamodb => { s with shared := s.shared ++ [(url, entry)] }

section

variable (s : Peers) (url : JsString) (entry : CacheEntry)

@[simp] theorem put_resolutions : (s.put config url entry).resolutions = s.resolutions := by
  unfold put
  cases config.cacheBackend <;> rfl

@[simp] theorem put_retryAfter : (s.put config url entry).retryAfter = s.retryAfter := by
  unfold put
  cases config.cacheBackend <;> rfl

@[simp] theorem put_inFlight : (s.put config url entry).inFlight = s.inFlight := by
  unfold put
  cases config.cacheBackend <;> rfl

@[simp] theorem put_collections : (s.put config url entry).collections = s.collections := by
  unfold put
  cases config.cacheBackend <;> rfl

@[simp] theorem put_clock : (s.put config url entry).clock = s.clock := by
  unfold put
  cases config.cacheBackend <;> rfl

end

/-- `resolveKeys`, from the peer's answer. -/
def answered (s : Peers) (i : Nat) (r : Resolution) (res : Except JsString Json) : Peers :=
  match fetchPeerJwks res with
  | .ok keys =>
    ({ s with retryAfter := s.retryAfter.delete r.url }.put config r.url ⟨keys, r.now⟩).set i
      { r with stage := .storing, attempt := .succeeded, keys }
  | .error _ =>
    { s with
        retryAfter :=
          if config.retryAfterSeconds > 0 then s.retryAfter.insert r.url (r.now + config.retryAfterSeconds)
          else s.retryAfter }.set i
      { r with stage := .settled, attempt := .failed, keys := graceKeys config r.cached r.now }

/-- What the resolutions have come to, once all of them are released. -/
def perPeer (s : Peers) (joined : List Nat) : Option (List (List Json)) :=
  joined.mapM fun i => (s.resolutions[i]?.filter (·.stage = .released)).map (·.keys)

end Peers

/-- What `collect` makes of the keys of each peer. -/
def collected (perPeer : List (List Json)) : Collected := ⟨perPeer.flatten, perPeer.any (·.isEmpty)⟩

namespace Peers

/-- One event; `none` if it cannot happen. -/
def step (s : Peers) : PeerEvent → Option Peers
  | .collect =>
    let (s, joined) := s.keysForAll config.urls
    some { s with collections := s.collections ++ [⟨joined, none⟩] }
  | .read i pick now =>
    match s.resolutions[i]? with
    | some r =>
      if r.stage = .reading ∧ s.clock ≤ now then
        some ({ s with clock := now }.set i (s.resume config { r with cached := s.cachedFor config r pick, now }))
      else none
    | none => none
  | .fetched i res =>
    match s.resolutions[i]? with
    | some r => if r.stage = .fetching then some (s.answered config i r res) else none
    | none => none
  | .stored i =>
    match s.resolutions[i]? with
    | some r => if r.stage = .storing then some (s.set i { r with stage := .settled }) else none
    | none => none
  | .release i =>
    match s.resolutions[i]? with
    | some r =>
      if r.stage = .settled then
        some ({ s with inFlight := s.inFlight.delete r.url }.set i { r with stage := .released })
      else none
    | none => none
  | .finish c =>
    match s.collections[c]? with
    | some collection =>
      match s.perPeer collection.joined with
      | some perPeer =>
        some { s with collections := s.collections.set c { collection with result := some (collected perPeer) } }
      | none => none
    | none => none
  | .elsewhere url res fetchedAt =>
    match config.cacheBackend, fetchPeerJwks res with
    | .memory, _ | _, .error _ => none
    | _, .ok keys => some { s with shared := s.shared ++ [(url, ⟨keys, fetchedAt⟩)] }

/-- A run of this process. -/
def run (s : Peers) (events : List PeerEvent) : Option Peers := events.foldlM (step config) s

end Peers

/-! ## Publishing -/

/-- What a key is known by: its `kid`, or its text. -/
def keyId (stringify : Json → JsString) (key : Json) : Json :=
  ((key.get (js "kid")).filter truthy).getD (.str (stringify key))

/-- Merge this instance's own keys with its peers'. -/
def mergeJwks (stringify : Json → JsString) (localKeys peerKeys : List Json) : List Json :=
  let merge (acc : List Json × List Json) (key : Json) : List Json × List Json :=
    let id := keyId stringify key
    if acc.2.any (Json.same id) then acc else (acc.1 ++ [key], acc.2 ++ [id])
  (peerKeys.foldl merge (localKeys, localKeys.map (keyId stringify))).1

def JWKS_MAX_AGE : Nat := 300

/-- How long a document that is missing a peer's keys may be cached for. -/
def degradedJwksMaxAge : Nat := min JWKS_MAX_AGE (max 10 config.retryAfterSeconds)

/-- The document that is served, and how long it may be cached for. -/
structure JwksDocument where
  keys : List Json
  maxAge : Option Nat

/-- `GET /jwks.json`. -/
def handleJwks (stringify : Json → JsString) (localKeys : List Json) (isPeerFetch : Bool)
    (peers : Option Collected) : JwksDocument :=
  if isPeerFetch then ⟨localKeys, none⟩
  else
    match peers with
    | none => ⟨localKeys, some JWKS_MAX_AGE⟩
    | some collected =>
      ⟨mergeJwks stringify localKeys collected.keys,
        some (if collected.incomplete then degradedJwksMaxAge config else JWKS_MAX_AGE)⟩

end Sag
