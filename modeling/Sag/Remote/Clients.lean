import Sag.Remote.Documents

/-!
# Resolution of clients

`clients/store.js` and `resolveClient` of `clients/index.js`: a client is one of the configuration, or one
that a store has a record of, or one that describes itself. What the store says is remembered, that it has
no such client as well, but that for a few seconds only. What it cannot say is not: a store that is down has
no record of the client, for that one time.
-/

namespace Sag

open Resumable

variable (rt : Runtime)

/-! ## The store -/

/-- Where the records of clients are kept. -/
inductive ClientBackend where
  /-- A binding, asked for keys that begin with a text of the configuration. -/
  | bound (keyPrefix : JsString)
  /-- A bucket. `isoDate` is the `toISOString` of an instant. -/
  | s3 (store : S3Store) (credentials : Option AwsCredentials) (isoDate : Nat → JsString)

structure ClientStore where
  backend : ClientBackend
  cacheTtlSeconds : Nat

/-- `MISS_TTL_SECONDS` of `clients/store.js`. -/
def RECORD_MISS_TTL_SECONDS : Nat := 10

def MAX_S3_RECORD_BYTES : Nat := 64 * 1024

/-- `prefix + key + '.json'`. -/
def recordPath (keyPrefix key : JsString) : JsString := keyPrefix ++ key ++ js ".json"

def boundRecord (keyPrefix clientId key : JsString) : R (Option ClientRecord) := do
  match ← request (.readRecord (recordPath keyPrefix key)) with
  | .error e => refuse (.thrown e)
  | .ok doc => pure (doc.bind (fromRecord clientId))

/-- The record in the object of a bucket; an object that may not be read counts as absent. -/
def objectRecord (clientId : JsString) (res : Fetched) : Except RemoteError (Option ClientRecord) :=
  if res.status = 404 || res.status = 403 then .ok none
  else if !res.ok then .error (remoteError (js "client store read failed with HTTP " ++ decimal res.status))
  else (readJsonLimited rt res MAX_S3_RECORD_BYTES).map (fromRecord clientId)

def s3Record (store : S3Store) (credentials : Option AwsCredentials) (isoDate : Nat → JsString)
    (clientId key : JsString) : R (Option ClientRecord) := do
  let now ← Prog.now
  match signRequest rt (objectOptions store credentials (isoDate now) key) with
  | none => refuse .engine
  | some headers =>
    -- the signature is awaited
    request .suspend
    let res ← fetchWithTimeout (.signed (objectUrl store key) headers.entries)
    Prog.ofExcept (F := remote) (objectRecord rt clientId res)

/-- What the store has of a client. An id that cannot be a key names nothing in it. -/
def loadRecord (backend : ClientBackend) (clientId : JsString) : R (Option ClientRecord) :=
  match safeKey clientId with
  | none => pure none
  | some key =>
    match backend with
    | .bound keyPrefix => boundRecord keyPrefix clientId key
    | .s3 store credentials isoDate => s3Record rt store credentials isoDate clientId key

/-- How long an answer of the store is remembered. -/
def recordTtl (ttlSeconds : Nat) (record : Option ClientRecord) : Nat :=
  if record.isNone then min ttlSeconds RECORD_MISS_TTL_SECONDS else ttlSeconds

/-- `withCache`, around the store. -/
def cachedRecord (store : ClientStore) (clientId : JsString) : R (Option ClientRecord) :=
  if store.cacheTtlSeconds = 0 then loadRecord rt store.backend clientId
  else do
    let (_, hit) ← cachedAt .clients clientId
    match hit with
    | some record => pure record
    | none =>
      let record ← loadRecord rt store.backend clientId
      keepFor .clients clientId record (recordTtl store.cacheTtlSeconds record)
      pure record

/-- `store.get`, which has nothing where the store fails. -/
def storedClient (store : ClientStore) (clientId : JsString) : R (Option ClientRecord) := do
  let answer ← Prog.settled (cachedRecord rt store clientId)
  pure (answer.toOption.getD none)

/-! ## Resolution -/

/-- `raw.scopes?.length`, where it is not falsy. -/
def hasLength : Json → Bool
  | .str s => s ≠ []
  | .arr items => items ≠ []
  | .obj members => (Json.member members (js "length")).any truthy
  | _ => false

/-- `normalise`, of a client of the configuration. -/
def normaliseStatic (client : Client) : Client :=
  { client with
    clientName := if client.clientName = [] then client.clientId else client.clientName
    scopes := client.scopes.filter (· ≠ [])
    tokenEndpointAuthMethod := some (((client.tokenEndpointAuthMethod).filter (· ≠ [])).getD (js "none")) }

/-- `normalise`, of a record of the store. -/
def normaliseRecord (record : ClientRecord) : ClientRecord :=
  { record with
    clientName := some ((record.clientName.filter truthy).getD (.str record.clientId))
    scopes := record.scopes.filter hasLength
    requirePkce := .bool (!record.requirePkce.same (.bool false)) }

structure ClientsConfig where
  «static» : List Client
  /-- Clients that do not describe themselves are taken from the store. -/
  stored : Bool
  store : Option ClientStore

inductive ResolvedClient where
  | «static» (client : Client)
  | stored (record : ClientRecord)
  | described (client : CimdClient)

/-- What the store is asked, if it is to be asked. -/
def askStore (clients : ClientsConfig) (clientId : JsString) : R (Option ClientRecord) :=
  match clients.store with
  | some store => if clients.stored then storedClient rt store clientId else pure none
  | none => pure none

def isWebUrl (clientId : JsString) : Bool :=
  (js "https://").isPrefixOf clientId || (js "http://").isPrefixOf clientId

/-- A client that is neither in the configuration nor in the store. -/
def selfDescribed (cimd : CimdConfig) (dns : DnsConfig) (devMode : Bool) (clientId : JsString) :
    R (Option ResolvedClient) :=
  if isWebUrl clientId then Option.map .described <$> resolveCimd rt cimd dns devMode clientId else pure none

/-- Find the relying party with this client id. -/
def resolveClient (clients : ClientsConfig) (cimd : CimdConfig) (dns : DnsConfig) (devMode : Bool)
    (clientId : JsString) : R (Option ResolvedClient) :=
  if clientId = [] then pure none
  else
    match clients.static.find? (·.clientId = clientId) with
    | some client => pure (some (.static (normaliseStatic client)))
    | none => do
      match ← askStore rt clients clientId with
      | some record => pure (some (.stored (normaliseRecord record)))
      | none => selfDescribed rt cimd dns devMode clientId

/-! ## What the functions find -/

/-- The operations that ask a store for the record of a client. -/
def AsksFor (backend : ClientBackend) (clientId : JsString) : RemoteOp → Prop
  | .readRecord path =>
    ∃ keyPrefix key, backend = .bound keyPrefix ∧ safeKey clientId = some key ∧ path = recordPath keyPrefix key
  | .fetch (.signed url headers) =>
    ∃ store credentials isoDate key now signed, backend = .s3 store credentials isoDate ∧
      safeKey clientId = some key ∧ url = objectUrl store key ∧
        signRequest rt (objectOptions store credentials (isoDate now) key) = some signed ∧ headers = signed.entries
  | _ => False

/-- A store has said what it has of a client. -/
inductive RecordRead (C : Rely remote) : ClientBackend → JsString → Option ClientRecord → Prop where
  | unnameable {backend : ClientBackend} {clientId : JsString} (unsafeKey : safeKey clientId = none) :
      RecordRead C backend clientId none
  | bound {keyPrefix clientId key : JsString} {doc : Option Json} (named : safeKey clientId = some key)
      (read : C.Saw (.readRecord (recordPath keyPrefix key)) (.ok doc)) :
      RecordRead C (.bound keyPrefix) clientId (doc.bind (fromRecord clientId))
  | object {store : S3Store} {credentials : Option AwsCredentials} {isoDate : Nat → JsString}
      {clientId key : JsString} {headers : List (JsString × JsString)} {res : Fetched} {record : Option ClientRecord}
      (named : safeKey clientId = some key)
      (fetched : C.Saw (.fetch (.signed (objectUrl store key) headers)) (.ok res))
      (stated : objectRecord rt clientId res = .ok record) :
      RecordRead C (.s3 store credentials isoDate) clientId record

/-- A store could not say what it has of a client. -/
inductive ReadFailed (C : Rely remote) : ClientBackend → JsString → Prop where
  | bound {keyPrefix clientId key : JsString} {e : JsError} (named : safeKey clientId = some key)
      (threw : C.Saw (.readRecord (recordPath keyPrefix key)) (.error e)) : ReadFailed C (.bound keyPrefix) clientId
  | unsigned {store : S3Store} {credentials : Option AwsCredentials} {isoDate : Nat → JsString}
      {clientId key : JsString} {now : Nat} (named : safeKey clientId = some key)
      (refused : signRequest rt (objectOptions store credentials (isoDate now) key) = none) :
      ReadFailed C (.s3 store credentials isoDate) clientId
  | object {store : S3Store} {credentials : Option AwsCredentials} {isoDate : Nat → JsString}
      {clientId key : JsString} {headers : List (JsString × JsString)} {answer : Except JsError Fetched}
      {e : RemoteError}
      (named : safeKey clientId = some key) (fetched : C.Saw (.fetch (.signed (objectUrl store key) headers)) answer)
      (unread : (landed answer).bind (objectRecord rt clientId) = .error e) :
      ReadFailed C (.s3 store credentials isoDate) clientId

/-- What a call has been told of a client in the store. -/
inductive Told (C : Rely remote) (store : ClientStore) (clientId : JsString) : Option ClientRecord → Prop where
  | cached {record : Option ClientRecord} (lasting : store.cacheTtlSeconds ≠ 0)
      (held : FromCache C .clients clientId record) : Told C store clientId record
  | read {record : Option ClientRecord} (said : RecordRead rt C store.backend clientId record) :
      Told C store clientId record
  | failed (unsaid : ReadFailed rt C store.backend clientId) : Told C store clientId none

/-- Why a client has not been found in the store. -/
def Unstored (C : Rely remote) (clients : ClientsConfig) (clientId : JsString) : Prop :=
  ∀ store, clients.store = some store → clients.stored = true → Told rt C store clientId none

/-- Where a client comes from. -/
inductive ClientFound (C : Rely remote) (clients : ClientsConfig) (cimd : CimdConfig) (dns : DnsConfig)
    (devMode : Bool) (clientId : JsString) : ResolvedClient → Prop where
  | static {client : Client} (listed : clients.static.find? (·.clientId = clientId) = some client) :
      ClientFound C clients cimd dns devMode clientId (.static (normaliseStatic client))
  | stored {store : ClientStore} {record : ClientRecord}
      (unlisted : clients.static.find? (·.clientId = clientId) = none) (given : clients.store = some store)
      (enabled : clients.stored = true) (told : Told rt C store clientId (some record)) :
      ClientFound C clients cimd dns devMode clientId (.stored (normaliseRecord record))
  | described {document : Url} {client : CimdClient}
      (unlisted : clients.static.find? (·.clientId = clientId) = none) (unstored : Unstored rt C clients clientId)
      (located : documentUrl rt cimd devMode clientId = .ok (some document))
      (reached : PublicTarget rt C dns devMode document)
      (said : FromCache C .cimd clientId client ∨ Described rt C cimd clientId document client) :
      ClientFound C clients cimd dns devMode clientId (.described client)

/-- What a resolution establishes. A client of the configuration is always found. -/
def Resolved (C : Rely remote) (clients : ClientsConfig) (cimd : CimdConfig) (dns : DnsConfig) (devMode : Bool)
    (clientId : JsString) : Option ResolvedClient → Prop
  | some found => clientId ≠ [] ∧ ClientFound rt C clients cimd dns devMode clientId found
  | none => clientId = [] ∨ (clients.static.find? (·.clientId = clientId) = none ∧ Unstored rt C clients clientId)

variable {rt} {C : Contract remote}

theorem boundRecord_always {keyPrefix clientId key : JsString} (named : safeKey clientId = some key)
    (hissue : ∀ o, AsksFor rt (.bound keyPrefix) clientId o → ∀ h t, C.issue h t o) :
    (boundRecord keyPrefix clientId key).Always C (fun _ => ReadFailed rt C.toRely (.bound keyPrefix) clientId)
      (RecordRead rt C.toRely (.bound keyPrefix) clientId) := by
  have hask : AsksFor rt (.bound keyPrefix) clientId (.readRecord (recordPath keyPrefix key)) :=
    ⟨keyPrefix, key, rfl, named, rfl⟩
  refine Prog.Always.bind (.await fun h t _ => hissue _ hask h t) fun answer hanswer => ?_
  cases answer with
  | error e => exact fun _ => .bound named hanswer
  | ok doc => exact fun _ => .bound named hanswer

theorem s3Record_always (hC : Quiet C) {store : S3Store} {credentials : Option AwsCredentials}
    {isoDate : Nat → JsString} {clientId key : JsString} (named : safeKey clientId = some key)
    (hissue : ∀ o, AsksFor rt (.s3 store credentials isoDate) clientId o → ∀ h t, C.issue h t o) :
    (s3Record rt store credentials isoDate clientId key).Always C
      (fun _ => ReadFailed rt C.toRely (.s3 store credentials isoDate) clientId)
      (RecordRead rt C.toRely (.s3 store credentials isoDate) clientId) := by
  refine Prog.Always.bind (Q := fun _ => True) (fun _ _ _ => trivial) fun now _ => ?_
  cases hsign : signRequest rt (objectOptions store credentials (isoDate now) key) with
  | none => exact fun _ => .unsigned named hsign
  | some headers =>
    have hask : AsksFor rt (.s3 store credentials isoDate) clientId
        (.fetch (.signed (objectUrl store key) headers.entries)) :=
      ⟨store, credentials, isoDate, key, now, headers, rfl, named, rfl, hsign, rfl⟩
    have hpause : (request .suspend).Always C (fun _ => ReadFailed rt C.toRely (.s3 store credentials isoDate) clientId)
        fun _ => True := Prog.Always.mono (.await fun h t _ => hC h t _ rfl) fun _ _ => trivial
    refine hpause.bind fun _ _ => ?_
    refine Prog.Always.bind (Q := fun res =>
      C.Saw (.fetch (.signed (objectUrl store key) headers.entries)) (.ok res) ∧ landed (.ok res) = .ok res) ?_ ?_
    · refine Prog.Always.bind (.await fun h t _ => hissue _ hask h t) fun answer hanswer => ?_
      refine fun _ => Prog.sat_ofExcept.mpr ⟨fun res hres => ?_, fun e he => ?_⟩
      · obtain rfl := landed_ok hres
        exact ⟨hanswer, hres⟩
      · exact .object named hanswer (by rw [he]; rfl)
    · rintro res ⟨hres, hlanded⟩ _
      refine Prog.sat_ofExcept.mpr ⟨fun record hrecord => .object named hres hrecord, fun e he => ?_⟩
      exact .object named hres (by rw [hlanded]; exact he)

theorem loadRecord_always (hC : Quiet C) {backend : ClientBackend} {clientId : JsString}
    (hissue : ∀ o, AsksFor rt backend clientId o → ∀ h t, C.issue h t o) :
    (loadRecord rt backend clientId).Always C (fun _ => ReadFailed rt C.toRely backend clientId)
      (RecordRead rt C.toRely backend clientId) := by
  unfold loadRecord
  cases named : safeKey clientId with
  | none => exact fun _ => .unnameable named
  | some key =>
    cases backend with
    | bound keyPrefix => exact boundRecord_always named hissue
    | s3 store credentials isoDate => exact s3Record_always hC named hissue

/-- What is remembered is what the store has said, for as long as that lasts. -/
theorem cachedRecord_always (hC : Quiet C) {store : ClientStore} {clientId : JsString}
    (hissue : ∀ o, AsksFor rt store.backend clientId o → ∀ h t, C.issue h t o)
    (hkeep : store.cacheTtlSeconds ≠ 0 → ∀ record, RecordRead rt C.toRely store.backend clientId record → ∀ h t,
      C.issue h t (.remember .clients clientId ⟨record, t + recordTtl store.cacheTtlSeconds record⟩)) :
    (cachedRecord rt store clientId).Always C (fun _ => ReadFailed rt C.toRely store.backend clientId) fun record =>
      (store.cacheTtlSeconds ≠ 0 ∧ FromCache C.toRely .clients clientId record) ∨
        RecordRead rt C.toRely store.backend clientId record := by
  unfold cachedRecord
  split
  · exact (loadRecord_always hC hissue).mono fun _ hread => Or.inr hread
  · next hlasting =>
    refine fun s => Prog.sat_bind.mpr ((cachedAt_sat hC .clients clientId).mono (fun _ _ he => he) fun s₁ r hr => ?_)
    obtain ⟨now, hit⟩ := r
    obtain ⟨cached, hnow, hcached, hhit, -⟩ := hr
    cases hit with
    | some record => exact Or.inl ⟨hlasting, fromCache hnow hcached hhit⟩
    | none =>
      refine Prog.Always.bind (loadRecord_always hC hissue) (fun record hread s₂ => ?_) s₁
      exact Prog.sat_bind.mpr ((keepFor_sat fun t _ => hkeep hlasting record hread _ t).mono (fun _ _ he => he)
        fun _ _ _ => Or.inr hread)

theorem storedClient_always {E : RemoteError → Prop} (hC : Quiet C) {store : ClientStore} {clientId : JsString}
    (hissue : ∀ o, AsksFor rt store.backend clientId o → ∀ h t, C.issue h t o)
    (hkeep : store.cacheTtlSeconds ≠ 0 → ∀ record, RecordRead rt C.toRely store.backend clientId record → ∀ h t,
      C.issue h t (.remember .clients clientId ⟨record, t + recordTtl store.cacheTtlSeconds record⟩)) :
    (storedClient rt store clientId).Always C E (Told rt C.toRely store clientId) := by
  refine (cachedRecord_always hC hissue hkeep).settled.bind fun answer hanswer _ => ?_
  cases answer with
  | error e => exact .failed (hanswer.2 e rfl)
  | ok record =>
    rcases hanswer.1 record rfl with ⟨hlasting, hheld⟩ | hread
    · exact .cached hlasting hheld
    · exact .read hread

/-- A store is asked for nothing but the record of this client, and a document is fetched only where neither the
configuration nor the store has it. -/
theorem resolveClient_always (hC : Quiet C) (hforget : C.Forgetful) {clients : ClientsConfig} {cimd : CimdConfig}
    {dns : DnsConfig} {devMode : Bool} {clientId : JsString}
    (hissue : ∀ store, clients.store = some store → ∀ o, AsksFor rt store.backend clientId o → ∀ h t, C.issue h t o)
    (hkeep : ∀ store, clients.store = some store → store.cacheTtlSeconds ≠ 0 →
      ∀ record, RecordRead rt C.toRely store.backend clientId record → ∀ h t,
        C.issue h t (.remember .clients clientId ⟨record, t + recordTtl store.cacheTtlSeconds record⟩))
    (hfetch : ∀ url, documentUrl rt cimd devMode clientId = .ok (some url) →
      PublicTarget rt C.toRely dns devMode url → ∀ h t, C.issue h t (.fetch (.get clientId)))
    (hremember : ∀ url client, documentUrl rt cimd devMode clientId = .ok (some url) →
      Described rt C.toRely cimd clientId url client → ∀ h t,
        C.issue h t (.remember .cimd clientId ⟨client, t + cimd.cacheTtlSeconds⟩)) :
    (resolveClient rt clients cimd dns devMode clientId).Always C (fun _ => True)
      (Resolved rt C.toRely clients cimd dns devMode clientId) := by
  unfold resolveClient
  split
  · next hempty => exact fun _ => Or.inl hempty
  · next hnonempty =>
    cases hlisted : clients.static.find? (·.clientId = clientId) with
    | some client => exact fun _ => ⟨hnonempty, .static hlisted⟩
    | none =>
      have hask : (askStore rt clients clientId).Always C (fun _ => True) fun record =>
          (record = none ∧ Unstored rt C.toRely clients clientId) ∨
            ∃ store found, record = some found ∧ clients.store = some store ∧ clients.stored = true ∧
              Told rt C.toRely store clientId (some found) := by
        unfold askStore
        cases hstore : clients.store with
        | none => exact fun _ => Or.inl ⟨rfl, fun store hsome => by rw [hstore] at hsome; cases hsome⟩
        | some store =>
          dsimp only
          split
          · next hstored =>
            refine (storedClient_always hC (hissue store hstore) (hkeep store hstore)).mono fun record htold => ?_
            cases record with
            | none =>
              refine Or.inl ⟨rfl, fun store' hsome _ => ?_⟩
              obtain rfl := Option.some.inj (hstore.symm.trans hsome)
              exact htold
            | some found => exact Or.inr ⟨store, found, rfl, rfl, hstored, htold⟩
          · next hoff => exact fun _ => Or.inl ⟨rfl, fun _ _ hon => absurd hon hoff⟩
      refine hask.bind fun record hrecord => ?_
      rcases hrecord with ⟨rfl, hunstored⟩ | ⟨store, found, rfl, hstore, hstored, htold⟩
      · show (selfDescribed rt cimd dns devMode clientId).Always C _ _
        unfold selfDescribed
        split
        · refine (resolveCimd_always hC hforget hfetch hremember).bind fun found hfound _ => ?_
          cases found with
          | none => exact Or.inr ⟨hlisted, hunstored⟩
          | some client =>
            obtain ⟨document, hlocated, hreached, hsaid⟩ := hfound client rfl
            exact ⟨hnonempty, .described hlisted hunstored hlocated hreached hsaid⟩
        · exact fun _ => Or.inr ⟨hlisted, hunstored⟩
      · exact fun _ => ⟨hnonempty, .stored hlisted hstore hstored htold⟩

end Sag
