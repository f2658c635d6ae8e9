import Sag.Properties.Fetches

/-!
# Which client is meant

What a process makes of a client id, in any run: the client it finds is the one that was asked for, and it is
found in the configuration, in the store or in a document of its own, in this order (`resolveClient_found`).
What the store has said may be remembered; that it has no such client is remembered for ten seconds at the
most, and never because the store could not be asked (`resolveClient_missed`).

A cache gives up what has not lapsed only once it has been written as often as it has room, for other keys and
since (`remembered_stays`).
-/

namespace Sag

open Resumable

variable {rt : Runtime} {config : RemoteConfig} {w : World (calls rt config) Caches}

/-! ## What the store has said -/

/-- The store has said at `t` what it has of a client. -/
def RecordReadAt (rt : Runtime) (log : List (Event remote)) (t : Nat) (backend : ClientBackend) (clientId : JsString)
    (record : Option ClientRecord) : Prop :=
  RecordRead rt (during t t (sawIn log)) backend clientId record

/-- What a call has been told, it was told at some instant; an id that cannot be a key is settled without a question. -/
theorem RecordRead.dated (h : Reachable (calls rt config) remoteEnv Caches.empty w) {th : Thread (calls rt config)}
    (hth : th ∈ w.threads) {start stop : Nat} {backend : ClientBackend} {clientId : JsString}
    {record : Option ClientRecord}
    (hread : RecordRead rt (during start stop (sawIn th.trace)) backend clientId record) :
    (safeKey clientId = none ∧ record = none) ∨
      ∃ t, start ≤ t ∧ t ≤ stop ∧ RecordReadAt rt w.log t backend clientId record := by
  cases hread with
  | unnameable hnameless => exact Or.inl ⟨hnameless, rfl⟩
  | bound named hsaw =>
    obtain ⟨t, ⟨hstart, hstop⟩, hmem⟩ := hsaw
    exact Or.inr ⟨t, hstart, hstop, .bound named ⟨t, ⟨Nat.le_refl t, Nat.le_refl t⟩, h.mem_log hth hmem⟩⟩
  | object named hsaw hstated =>
    obtain ⟨t, ⟨hstart, hstop⟩, hmem⟩ := hsaw
    exact Or.inr ⟨t, hstart, hstop, .object named ⟨t, ⟨Nat.le_refl t, Nat.le_refl t⟩, h.mem_log hth hmem⟩ hstated⟩

theorem fromRecord_clientId {clientId : JsString} {doc : Json} {record : ClientRecord}
    (h : fromRecord clientId doc = some record) : record.clientId = clientId := by
  unfold fromRecord at h
  split at h
  · split at h
    · cases h
    · dsimp only at h
      split at h
      · cases h
      · rw [← Option.some.inj h]
  · cases h

theorem objectRecord_some {clientId : JsString} {res : Fetched} {record : ClientRecord}
    (h : objectRecord rt clientId res = .ok (some record)) : ∃ doc, fromRecord clientId doc = some record := by
  unfold objectRecord at h
  split at h
  · cases h
  · split at h
    · cases h
    · cases hdoc : readJsonLimited rt res MAX_S3_RECORD_BYTES with
      | error e =>
        rw [hdoc] at h
        cases h
      | ok doc =>
        rw [hdoc] at h
        exact ⟨doc, Except.ok.inj h⟩

/-- A record is one of the client that it was asked for, and the client has an id that can be a key. -/
theorem RecordRead.of_client {C : Rely remote} {backend : ClientBackend} {clientId : JsString} {record : ClientRecord}
    (h : RecordRead rt C backend clientId (some record)) :
    (∃ key, safeKey clientId = some key) ∧ record.clientId = clientId := by
  -- the index of the relation is no constructor of a record, so it is named before the cases are split
  generalize hfound : Option.some record = found at h
  cases h with
  | unnameable => cases hfound
  | bound named read =>
    obtain ⟨doc, -, hdoc⟩ := Option.bind_eq_some_iff.mp hfound.symm
    exact ⟨⟨_, named⟩, fromRecord_clientId hdoc⟩
  | object named fetched stated =>
    subst hfound
    obtain ⟨doc, hdoc⟩ := objectRecord_some stated
    exact ⟨⟨_, named⟩, fromRecord_clientId hdoc⟩

/-- What is kept of the store was said before, and how long it lasts depends on what was said. -/
theorem KeptEntry.record (h : Reachable (calls rt config) remoteEnv Caches.empty w) {clientId : JsString}
    {entry : Dated (Option ClientRecord)} {t : Nat} (hkept : KeptEntry w .clients clientId entry t)
    {store : ClientStore} (hstore : config.clients.store = some store) :
    ((safeKey clientId = none ∧ entry.value = none) ∨
      ∃ t₀, t₀ ≤ t ∧ RecordReadAt rt w.log t₀ store.backend clientId entry.value) ∧
      entry.expiresAt = t + recordTtl store.cacheTtlSeconds entry.value := by
  obtain ⟨th, pre, post, hth, htr, hheld⟩ := hkept
  obtain ⟨store', hstore', -, hread, hexpires⟩ := hheld
  obtain rfl := Option.some.inj (hstore.symm.trans hstore')
  refine ⟨?_, hexpires⟩
  rcases hread.dated h hth with hnameless | ⟨t₀, -, hle, hsaid⟩
  · exact Or.inl hnameless
  · exact Or.inr ⟨t₀, hle, hsaid⟩

/-- The store has said this of a client: within this call, or so that it was still remembered when the call began. -/
def Said (w : World (calls rt config) Caches) (store : ClientStore) (clientId : JsString)
    (record : Option ClientRecord) (start stop : Nat) : Prop :=
  ∃ t₀ t₁, RecordReadAt rt w.log t₀ store.backend clientId record ∧ t₀ ≤ t₁ ∧ t₁ ≤ stop ∧
    (start ≤ t₀ ∨ start < t₁ + recordTtl store.cacheTtlSeconds record)

/-- What a call has been told of a client in the store. -/
theorem Told.said (h : Reachable (calls rt config) remoteEnv Caches.empty w) {th : Thread (calls rt config)}
    (hth : th ∈ w.threads) {stop : Nat} {store : ClientStore} (hstore : config.clients.store = some store)
    {clientId : JsString} {record : Option ClientRecord}
    (htold : Told rt (during th.start stop (sawIn th.trace)) store clientId record) :
    (safeKey clientId = none ∧ record = none) ∨ Said w store clientId record th.start stop ∨
      (ReadFailed rt (during th.start stop (sawIn th.trace)) store.backend clientId ∧ record = none) := by
  cases htold with
  | cached _ hheld =>
    -- some call has kept the answer at `t₁`, and what it kept it had been told before
    obtain ⟨entry, t₁, t₂, hkept, hle, hstart, hstop, hfresh, rfl⟩ := entry_served h hth hheld
    obtain ⟨hsaid, hexpires⟩ := hkept.record h hstore
    rcases hsaid with hnameless | ⟨t₀, hle', hread⟩
    · exact Or.inl hnameless
    · exact Or.inr (Or.inl ⟨t₀, t₁, hread, hle', by omega, Or.inr (by omega)⟩)
  | read hread =>
    rcases hread.dated h hth with hnameless | ⟨t₀, hstart, hstop, hsaid⟩
    · exact Or.inl hnameless
    · exact Or.inr (Or.inl ⟨t₀, t₀, hsaid, Nat.le_refl t₀, hstop, Or.inl hstart⟩)
  | failed hfailed => exact Or.inr (Or.inr ⟨hfailed, rfl⟩)

/-! ## The client -/

def ResolvedClient.clientId : ResolvedClient → JsString
  | .static client => client.clientId
  | .stored record => record.clientId
  | .described client => client.clientId

/-- Where a client has been found, by a call between `start` and `stop`. -/
inductive FoundIn (w : World (calls rt config) Caches) (th : Thread (calls rt config)) (stop : Nat)
    (clientId : JsString) : ResolvedClient → Prop where
  | static {client : Client} (listed : config.clients.static.find? (·.clientId = clientId) = some client) :
      FoundIn w th stop clientId (.static (normaliseStatic client))
  | stored {store : ClientStore} {record : ClientRecord} {key : JsString}
      (unlisted : config.clients.static.find? (·.clientId = clientId) = none)
      (given : config.clients.store = some store) (enabled : config.clients.stored = true)
      (named : safeKey clientId = some key) (said : Said w store clientId (some record) th.start stop) :
      FoundIn w th stop clientId (.stored (normaliseRecord record))
  | described {document : Url} {client : CimdClient} {t₀ t₁ : Nat}
      (unlisted : config.clients.static.find? (·.clientId = clientId) = none)
      (located : documentUrl rt config.cimd config.devMode clientId = .ok (some document))
      (reached : LetThrough rt config.devMode document.hostname ∨ PublicHost rt (during th.start stop (sawIn th.trace))
        config.dns (rt.cases.toLowerCase (stripBrackets document.hostname)))
      (fetched : ClientFetched rt config.cimd w.log clientId document t₀ client)
      (describes : SelfDescribed rt clientId document client) (kept : t₀ ≤ t₁) (before : t₁ ≤ stop)
      (recent : th.start ≤ t₀ ∨ th.start < t₁ + config.cimd.cacheTtlSeconds) :
      FoundIn w th stop clientId (.described client)

/-- A client that is not found is not in the configuration, and the store has said that it has no such client, or
could not be asked by this very call. What it has said has not been remembered for longer than ten seconds. -/
theorem resolveClient_missed (h : Reachable (calls rt config) remoteEnv Caches.empty w) {th : Thread (calls rt config)}
    (hth : th ∈ w.threads) {clientId : JsString} (hreq : th.req = .resolveClient clientId) {t : Nat}
    (hstop : th.stop = some (t, .ok (.resolved none))) :
    clientId = [] ∨ config.clients.static.find? (·.clientId = clientId) = none ∧
      ∀ store, config.clients.store = some store → config.clients.stored = true →
        safeKey clientId = none ∨ ReadFailed rt (during th.start t (sawIn th.trace)) store.backend clientId ∨
          ∃ t₀ t₁, RecordReadAt rt w.log t₀ store.backend clientId none ∧ t₀ ≤ t₁ ∧ t₁ ≤ t ∧
            (th.start ≤ t₀ ∨ th.start < t₁ + min store.cacheTtlSeconds RECORD_MISS_TTL_SECONDS) := by
  have hgiven := (h.threads_sound th hth).result (R := sawIn th.trace) calls_meet (fun _ he => he) hstop
  rw [hreq] at hgiven
  rcases hgiven with hempty | ⟨hunlisted, hunstored⟩
  · exact Or.inl hempty
  · refine Or.inr ⟨hunlisted, fun store hstore henabled => ?_⟩
    rcases (hunstored store hstore henabled).said h hth hstore with ⟨hnameless, -⟩ | hsaid | ⟨hfailed, -⟩
    · exact Or.inl hnameless
    · exact Or.inr (Or.inr hsaid)
    · exact Or.inr (Or.inl hfailed)

/-- A client that is not remembered is asked for, and what the store says is kept. -/
theorem play_resolveClient {n : Network} {t : Nat} {s : Caches} {clientId key keyPrefix : JsString} {ttl : Nat}
    (hasked : clientId ≠ []) (hclients : config.clients = ⟨[], true, some ⟨.bound keyPrefix, ttl⟩⟩) (hlasting : ttl ≠ 0)
    (hnamed : safeKey clientId = some key) (hplain : isWebUrl clientId = false) {doc : Option Json}
    (hstored : n.stored (recordPath keyPrefix key) = .ok doc) {record : Option ClientRecord}
    (hrecord : doc.bind (fromRecord clientId) = record) (hmiss : (s .clients).get? clientId = none) :
    (runRemote rt config (.resolveClient clientId)).play n.oracle t 3 s =
      ([⟨t, .lookup .clients clientId, none⟩,
        ⟨t, .readRecord (recordPath keyPrefix key), (.ok doc : Except JsError (Option Json))⟩,
        ⟨t, .remember .clients clientId ⟨record, t + recordTtl ttl record⟩, ()⟩],
        Function.update s .clients (rememberRecord (s .clients) t clientId ⟨record, t + recordTtl ttl record⟩),
        .pure (.resolved (record.map fun r => .stored (normaliseRecord r)))) := by
  simp only [runRemote, resolveClient, hclients, hasked, if_false, List.find?_nil, askStore, if_true, storedClient,
    cachedRecord, hlasting, cachedAt, loadRecord, hnamed, boundRecord, keepFor, request, Prog.now, Prog.await,
    Prog.map_eq, Prog.pure_eq, Prog.bind_clock, Prog.bind_call, Prog.bind_pure_left, Prog.settled, Prog.play_clock,
    Prog.play_call, Network.oracle, hmiss, liveAt, Option.filter_none, Option.map_none, hstored, hrecord,
    Except.toOption, Option.getD_some, selfDescribed, hplain, Bool.false_eq_true]
  cases record <;> rfl

/-- A client that is remembered is not asked for. -/
theorem play_remembered {n : Network} {t : Nat} {s : Caches} {clientId keyPrefix : JsString} {ttl : Nat}
    (hasked : clientId ≠ []) (hclients : config.clients = ⟨[], true, some ⟨.bound keyPrefix, ttl⟩⟩) (hlasting : ttl ≠ 0)
    {entry : Dated (Option ClientRecord)} (hhit : (s .clients).get? clientId = some entry)
    (hlive : t < entry.expiresAt) {record : ClientRecord} (hvalue : entry.value = some record) :
    (runRemote rt config (.resolveClient clientId)).play n.oracle t 1 s =
      ([⟨t, .lookup .clients clientId, some entry⟩], s,
        .pure (.resolved (some (.stored (normaliseRecord record))))) := by
  have hentry : liveAt t (some entry) = some (some record) := liveAt_eq_some.mpr ⟨entry, rfl, hlive, hvalue⟩
  simp only [runRemote, resolveClient, hclients, hasked, if_false, List.find?_nil, askStore, if_true, storedClient,
    cachedRecord, hlasting, cachedAt, request, Prog.now, Prog.await, Prog.map_eq, Prog.pure_eq, Prog.bind_clock,
    Prog.bind_call, Prog.bind_pure_left, Prog.settled, Prog.play_clock, Prog.play_pure, Network.oracle, hhit, hentry,
    Except.toOption, Option.getD_some]

namespace Sample

def storeConfig : RemoteConfig := { remoteConfig with clients := ⟨[], true, some ⟨.bound (js "clients/"), 60⟩⟩ }

def notesRecord : Json := .obj [(js "redirect_uris", .arr [.str (js "https://app.test/cb")])]

/-- A store with one client. -/
def notesStore : Network where
  fetched _ := .error (.error (js "not found"))
  resolved _ _ := .ok []
  verified _ _ := .ok ()
  stored path := .ok (if path = js "clients/notes.json" then some notesRecord else none)

theorem notes_asked : ∃ record, (runRemote runtime storeConfig (.resolveClient (js "notes"))).play notesStore.oracle 0 3
      Caches.empty =
    ([⟨0, .lookup .clients (js "notes"), none⟩,
      ⟨0, .readRecord (js "clients/notes.json"), (.ok (some notesRecord) : Except JsError (Option Json))⟩,
      ⟨0, .remember .clients (js "notes") ⟨some record, 60⟩, ()⟩],
      Function.update Caches.empty .clients (rememberRecord (Caches.empty .clients) 0 (js "notes") ⟨some record, 60⟩),
      .pure (.resolved (some (.stored (normaliseRecord record))))) := by
  obtain ⟨record, hrecord⟩ : ∃ record, (some notesRecord).bind (fromRecord (js "notes")) = some record := ⟨_, rfl⟩
  have hasked : js "notes" ≠ [] := by decide
  have hclients : storeConfig.clients = ⟨[], true, some ⟨.bound (js "clients/"), 60⟩⟩ := rfl
  have hlasting : 60 ≠ 0 := by decide
  have hstored : notesStore.stored (recordPath (js "clients/") (js "notes")) = .ok (some notesRecord) := rfl
  exact ⟨record, play_resolveClient hasked hclients hlasting rfl rfl hstored hrecord rfl⟩

theorem other_missed : ∃ w : World (calls runtime storeConfig) Caches, ∃ th ∈ w.threads,
    th.stop = some (0, .ok (.resolved none)) ∧
      (js "other" = [] ∨ storeConfig.clients.static.find? (·.clientId = js "other") = none ∧
        ∀ store, storeConfig.clients.store = some store → storeConfig.clients.stored = true →
          safeKey (js "other") = none ∨
            ReadFailed runtime (during th.start 0 (sawIn th.trace)) store.backend (js "other") ∨
            ∃ t₀ t₁, RecordReadAt runtime w.log t₀ store.backend (js "other") none ∧ t₀ ≤ t₁ ∧ t₁ ≤ 0 ∧
              (th.start ≤ t₀ ∨ th.start < t₁ + min store.cacheTtlSeconds RECORD_MISS_TTL_SECONDS)) := by
  have hasked : js "other" ≠ [] := by decide
  have hclients : storeConfig.clients = ⟨[], true, some ⟨.bound (js "clients/"), 60⟩⟩ := rfl
  have hlasting : 60 ≠ 0 := by decide
  have hstored : notesStore.stored (recordPath (js "clients/") (js "other")) = .ok none := rfl
  have hrecord : (none : Option Json).bind (fromRecord (js "other")) = none := rfl
  obtain ⟨w, hrun, -, -, hth⟩ := exists_served (w := World.init _ Caches.empty) .refl (Nat.le_refl 0)
    (play_resolveClient (n := notesStore) (t := 0) hasked hclients hlasting rfl rfl hstored hrecord rfl) rfl
  exact ⟨w, _, hth, rfl, resolveClient_missed hrun hth rfl rfl⟩

end Sample

/-! ## How long an entry stays -/

/-- Does the event write to the cache? -/
def writesTo (c : CacheId) (e : Event remote) : Bool :=
  match e.op with
  | .remember c' _ _ => c' = c
  | _ => false

/-- The event writes or removes the entry of the key. -/
def Changes (c : CacheId) (key : JsString) (e : Event remote) : Prop :=
  (∃ entry, e.op = .remember c key entry) ∨ e.op = .forget c key

/-- The caches in which a key is written anew at the end. -/
def CacheId.renews : CacheId → Bool
  | .jwks | .metadata | .clients => true
  | .cimd | .mail => false

theorem CacheId.remember_self {c : CacheId} (hc : c.renews = true) (cache : ExpiringCache JsString c.Value c.limit)
    (now : Nat) (key : JsString) (entry : Dated c.Value) : (c.remember cache now key entry).Within key entry 0 := by
  cases c with
  | jwks => exact ExpiringCache.within_put_self (ExpiringCache.get?_forget_self _ _)
  | metadata => exact ExpiringCache.within_put_self (ExpiringCache.get?_forget_self _ _)
  | clients => exact ExpiringCache.within_renew_self
  | _ => cases hc

/-- Writing to another key puts one more entry behind it, at the most. -/
theorem CacheId.remember_other {c : CacheId} {cache : ExpiringCache JsString c.Value c.limit} {now n : Nat}
    {key key' : JsString} {entry entry' : Dated c.Value} (h : cache.Within key entry n) (hkey : key ≠ key')
    (hlive : now < entry.expiresAt) (hn : n + 1 < c.limit) :
    (c.remember cache now key' entry').Within key entry (n + 1) := by
  cases c with
  | jwks => exact ((h.sweep hlive).forget hkey).put hkey hn
  | metadata => exact ((h.sweep hlive).forget hkey).put hkey hn
  | cimd => exact (h.sweep hlive).put hkey hn
  | mail => exact h.put hkey hn
  | clients => exact h.renew hkey hn hlive

theorem remoteEnv_within {e : Event remote} {s s' : Caches} (h : remoteEnv e.time s e.op e.ans s') {c : CacheId}
    {key : JsString} {entry : Dated c.Value} {n : Nat} (hin : (s c).Within key entry n) (hleft : ¬ Changes c key e)
    (hlive : e.time < entry.expiresAt) (hroom : writesTo c e = true → n + 1 < c.limit) :
    (s' c).Within key entry (n + if writesTo c e then 1 else 0) := by
  obtain ⟨t, o, a⟩ := e
  cases o with
  | lookup c' key' => exact h.2 ▸ hin
  | forget c' key' =>
    obtain rfl : s' = Function.update s c' ((s c').forget key') := h
    by_cases hc : c = c'
    · subst hc
      have hkey : key ≠ key' := fun hsame => hleft (Or.inr (by rw [hsame]))
      rw [Function.update_self]
      exact hin.forget hkey
    · rw [Function.update_of_ne hc]
      exact hin
  | remember c' key' entry' =>
    obtain rfl : s' = Function.update s c' (c'.remember (s c') t key' entry') := h
    by_cases hc : c = c'
    · subst hc
      -- one more entry may stand behind it now
      have hwrites : writesTo c ⟨t, .remember c key' entry', a⟩ = true := decide_eq_true rfl
      have hkey : key ≠ key' := by
        rintro rfl
        exact hleft (Or.inl ⟨entry', rfl⟩)
      rw [Function.update_self, if_pos hwrites]
      exact CacheId.remember_other hin hkey hlive (hroom hwrites)
    · have hwrites : writesTo c ⟨t, .remember c' key' entry', a⟩ = false := decide_eq_false fun hsame => hc hsame.symm
      rw [Function.update_of_ne hc, if_neg (by rw [hwrites]; exact Bool.false_ne_true)]
      exact hin
  | _ =>
    obtain rfl : s' = s := h
    exact hin

/-- An entry outlasts what is written behind it, as long as that is less than the cache has room for. -/
theorem within_replayed {es : List (Event remote)} {s s' : Caches} {d : Nat} (h : Replays remoteEnv s d es s')
    {c : CacheId} {key : JsString} {entry : Dated c.Value} {n : Nat} (hin : (s c).Within key entry n)
    (hleft : ∀ e ∈ es, ¬ Changes c key e) (hlive : ∀ e ∈ es, e.time < entry.expiresAt)
    (hfew : n + es.countP (writesTo c) < c.limit) : ∃ m, (s' c).Within key entry m := by
  induction h generalizing n with
  | nil => exact ⟨n, hin⟩
  | @cons s s₁ _ _ e es _ he _ ih =>
    rw [List.countP_cons] at hfew
    have hstep := remoteEnv_within he hin (hleft e List.mem_cons_self) (hlive e List.mem_cons_self) fun hwrites => by
      rw [if_pos hwrites] at hfew
      omega
    exact ih hstep (fun x hx => hleft x (List.mem_cons_of_mem _ hx)) (fun x hx => hlive x (List.mem_cons_of_mem _ hx))
      (by omega)

/-- What has been remembered is found until it lapses, unless the same key has been written or removed since, or as
many others have been written as the cache has room for. -/
theorem remembered_stays (h : Reachable (calls rt config) remoteEnv Caches.empty w) {c : CacheId}
    (hc : c.renews = true) {before meanwhile after : List (Event remote)} {t t' : Nat} {key : JsString}
    {entry : Dated c.Value} {found : Option (Dated c.Value)}
    (hlog : w.log = before ++ ⟨t, .remember c key entry, ()⟩ :: meanwhile ++ ⟨t', .lookup c key, found⟩ :: after)
    (hleft : ∀ e ∈ meanwhile, ¬ Changes c key e) (hfew : meanwhile.countP (writesTo c) < c.limit)
    (hlive : t' < entry.expiresAt) : found = some entry := by
  have hreplays := h.replays
  rw [hlog, List.append_assoc, List.cons_append] at hreplays
  obtain ⟨s₁, s₂, -, -, hwrite, hrest⟩ := hreplays.split
  obtain rfl : s₂ = Function.update s₁ c (c.remember (s₁ c) t key entry) := hwrite
  -- whatever was evicted in between was judged at an instant at which the entry was still good
  have htimes : ∀ e ∈ meanwhile, e.time < entry.expiresAt := fun e he => Nat.lt_of_le_of_lt (hrest.before e he) hlive
  obtain ⟨s₃, s₄, hmeanwhile, -, hlook, -⟩ := hrest.split
  have hin : ((Function.update s₁ c (c.remember (s₁ c) t key entry)) c).Within key entry 0 := by
    rw [Function.update_self]
    exact CacheId.remember_self hc _ _ _ _
  obtain ⟨m, hkept⟩ := within_replayed hmeanwhile hin hleft htimes (by omega)
  exact hlook.1.trans hkept.get?

namespace Sample

/-- The second call for a client finds what the first has remembered. -/
theorem notes_remembered : ∃ w : World (calls runtime storeConfig) Caches, ∃ entry found,
    Reachable (calls runtime storeConfig) remoteEnv Caches.empty w ∧
      (⟨30, .lookup .clients (js "notes"), found⟩ : Event remote) ∈ w.log ∧ found = some entry := by
  obtain ⟨record, hfirst⟩ := notes_asked
  have hasked : js "notes" ≠ [] := by decide
  have hclients : storeConfig.clients = ⟨[], true, some ⟨.bound (js "clients/"), 60⟩⟩ := rfl
  have hlasting : 60 ≠ 0 := by decide
  have hlive : 30 < 60 := by decide
  let asks : (calls runtime storeConfig).Req := .resolveClient (js "notes")
  let w₁ := (World.init (calls runtime storeConfig) Caches.empty).serve notesStore.oracle 3 0 asks
  have hrun₁ : Reachable (calls runtime storeConfig) remoteEnv Caches.empty w₁ :=
    Runs.serve notesStore.within (Nat.le_refl 0) asks (fun tok _ => tok.elim) 3
  have hhit : (w₁.state .clients).get? (js "notes") = some ⟨some record, 60⟩ := by
    rw [World.serve_state (S := calls runtime storeConfig) hfirst, Function.update_self]
    exact (CacheId.remember_self (c := .clients) rfl _ _ _ _).get?
  have hsecond : (runRemote runtime storeConfig asks).play notesStore.oracle 30 1 w₁.state = _ :=
    play_remembered hasked hclients hlasting hhit hlive rfl
  let w₂ := w₁.serve notesStore.oracle 1 30 asks
  have hrun₂ : Runs (calls runtime storeConfig) remoteEnv w₁ w₂ :=
    Runs.serve notesStore.within (Nat.zero_le 30) asks (fun tok _ => tok.elim) 1
  have hlog₁ : w₁.log = [] ++ _ := World.serve_log (S := calls runtime storeConfig) hfirst
  have hlog₂ : w₂.log = w₁.log ++ _ := World.serve_log (S := calls runtime storeConfig) hsecond
  rw [hlog₁] at hlog₂
  have hlog : w₂.log = [_, _] ++ ⟨0, .remember .clients (js "notes") ⟨some record, 60⟩, ()⟩ :: [] ++
      ⟨30, .lookup .clients (js "notes"), _⟩ :: [] := hlog₂
  have hleft : ∀ e ∈ ([] : List (Event remote)), ¬ Changes .clients (js "notes") e := fun e he =>
    absurd he List.not_mem_nil
  refine ⟨w₂, _, _, hrun₁.trans hrun₂, ?_, remembered_stays (hrun₁.trans hrun₂) rfl hlog hleft (by decide) hlive⟩
  rw [hlog]
  exact List.mem_append_right _ List.mem_cons_self

end Sample

end Sag
