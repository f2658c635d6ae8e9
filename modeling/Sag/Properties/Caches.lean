import Sag.Browser
import Sag.Remote.Calls

/-!
# What the caches give

A process answers out of its caches for as long as an entry lasts, whichever call put it there. What
such an answer is worth is therefore a matter of the whole run: `hit_kept` finds the call that wrote the
entry before the look that found it, and `entry_kept` reads off its guarantee what that call had seen.

An answer is then as good as the document behind it: it has been fetched from the very URL that the
caller would have fetched, and not too long ago. Only the metadata of upstreams are not told apart by that:
two upstreams that are discovered at one URL share an entry, and whoever comes first has it checked and
merged with its own configuration (`upstreamMetadata_given`).
-/

namespace Sag

open Resumable

/-- What a list of events shows. -/
def sawIn (es : List (Event remote)) (t : Nat) (o : RemoteOp) (a : o.Ans) : Prop := (⟨t, o, a⟩ : Event remote) ∈ es

variable {rt : Runtime} {config : RemoteConfig} {w : World (calls rt config) Caches}

/-- A call has kept an entry at `t`, after what it had seen by then. -/
inductive KeptEntry (w : World (calls rt config) Caches) (c : CacheId) (key : JsString) (entry : Dated c.Value)
    (t : Nat) : Prop where
  | intro (th : Thread (calls rt config)) (pre post : List (Event remote)) (mem : th ∈ w.threads)
      (trace : th.trace = pre ++ ⟨t, .remember c key entry, ()⟩ :: post)
      (held : MayKeep rt config (during th.start t (sawIn th.trace)) th.req pre t c key entry)

/-! ## Where an entry comes from -/

/-- What is in a cache after an operation was there before, or the operation has put it there. -/
theorem remoteEnv_cached {t : Nat} {s s' : Caches} {o : RemoteOp} {a : o.Ans} (h : remoteEnv t s o a s') {c : CacheId}
    {key : JsString} {entry : Dated c.Value} (hcached : (s' c).get? key = some entry) :
    (s c).get? key = some entry ∨ o = .remember c key entry := by
  have same : s' = s → (s c).get? key = some entry ∨ o = .remember c key entry := fun hsame =>
    Or.inl (hsame ▸ hcached)
  cases o with
  | lookup c' key' => exact same h.2
  | forget c' key' =>
    obtain rfl : s' = Function.update s c' ((s c').forget key') := h
    by_cases hc : c = c'
    · subst hc
      rw [Function.update_self] at hcached
      exact Or.inl (ExpiringCache.get?_of_forget hcached)
    · rw [Function.update_of_ne hc] at hcached
      exact Or.inl hcached
  | remember c' key' entry' =>
    obtain rfl : s' = Function.update s c' (c'.remember (s c') t key' entry') := h
    by_cases hc : c = c'
    · subst hc
      rw [Function.update_self] at hcached
      rcases CacheId.get?_remember hcached with ⟨rfl, rfl⟩ | hold
      · exact Or.inr rfl
      · exact Or.inl hold
    · rw [Function.update_of_ne hc] at hcached
      exact Or.inl hcached
  | _ => exact same h

/-- Whatever is in a cache has been put there. -/
theorem replays_cached {es : List (Event remote)} {s : Caches} {n : Nat} (h : Replays remoteEnv Caches.empty n es s)
    {c : CacheId} {key : JsString} {entry : Dated c.Value} (hcached : (s c).get? key = some entry) :
    ∃ t, (⟨t, .remember c key entry, ()⟩ : Event remote) ∈ es := by
  have hall := h.history (I := fun past s => ∀ c key (entry : Dated (CacheId.Value c)), (s c).get? key = some entry →
    ∃ t, (⟨t, .remember c key entry, ()⟩ : Event remote) ∈ past) [] ?_ ?_
  · exact hall c key entry hcached
  · intro past e s s' hpast he c key entry hcached
    obtain ⟨t, o, a⟩ := e
    rcases remoteEnv_cached he hcached with hold | hnew
    · obtain ⟨t', hmem⟩ := hpast c key entry hold
      exact ⟨t', List.mem_append_left _ hmem⟩
    · dsimp only at hnew
      subst hnew
      exact ⟨t, List.mem_append_right _ (List.mem_singleton.mpr rfl)⟩
  · intro c key entry hcached
    rw [Caches.empty, ExpiringCache.get?_empty] at hcached
    cases hcached

/-- An entry that a look has found was put there before. -/
theorem hit_kept (h : Reachable (calls rt config) remoteEnv Caches.empty w) {t : Nat} {c : CacheId} {key : JsString}
    {entry : Dated c.Value} (hlook : (⟨t, .lookup c key, some entry⟩ : Event remote) ∈ w.log) :
    ∃ t', t' ≤ t ∧ (⟨t', .remember c key entry, ()⟩ : Event remote) ∈ w.log := by
  obtain ⟨before, after, hlog⟩ := List.append_of_mem hlook
  have hreplays := h.replays
  rw [hlog] at hreplays
  obtain ⟨s₁, s₂, hbefore, -, hhit, -⟩ := hreplays.split
  obtain ⟨t', hmem⟩ := replays_cached hbefore hhit.1.symm
  exact ⟨t', hreplays.before _ hmem, hlog ▸ List.mem_append_left _ hmem⟩

/-- What a thread does, it may do after what it has itself seen. -/
theorem call_guarded (h : Reachable (calls rt config) remoteEnv Caches.empty w) {th : Thread (calls rt config)}
    (hth : th ∈ w.threads) {pre post : List (Event remote)} {e : Event remote} (htr : th.trace = pre ++ e :: post) :
    remoteGuard rt config th.req (during th.start e.time (sawIn pre)) pre e.time e.op :=
  (h.threads_sound th hth).guarantee calls_meet htr fun _ hx => hx

/-- Whatever has been put in a cache, a call has put there after what it had seen. -/
theorem entry_kept (h : Reachable (calls rt config) remoteEnv Caches.empty w) {t : Nat} {c : CacheId} {key : JsString}
    {entry : Dated c.Value} (hmem : (⟨t, .remember c key entry, ()⟩ : Event remote) ∈ w.log) :
    KeptEntry w c key entry t := by
  obtain ⟨th, hth, htrace⟩ := h.exists_thread hmem
  obtain ⟨pre, post, htr⟩ := List.append_of_mem htrace
  refine ⟨th, pre, post, hth, htr, (h.threads_sound th hth).guarantee calls_meet htr fun x hx => ?_⟩
  show x ∈ th.trace
  rw [htr]
  exact List.mem_append_left _ hx

/-- What a call has found in a cache, some call has put there no later, and it was good then. -/
theorem entry_served (h : Reachable (calls rt config) remoteEnv Caches.empty w) {th : Thread (calls rt config)}
    (hth : th ∈ w.threads) {stop : Nat} {c : CacheId} {key : JsString} {value : c.Value}
    (hheld : FromCache (during th.start stop (sawIn th.trace)) c key value) :
    ∃ entry t₀ t₁, KeptEntry w c key entry t₀ ∧ t₀ ≤ t₁ ∧ th.start ≤ t₁ ∧ t₁ ≤ stop ∧ t₁ < entry.expiresAt ∧
      entry.value = value := by
  obtain ⟨t₁, entry, ⟨hstart, hstop⟩, hlook, hfresh, hvalue⟩ := hheld
  obtain ⟨t₀, hle, hmem⟩ := hit_kept h (h.mem_log hth hlook)
  exact ⟨entry, t₀, t₁, entry_kept h hmem, hle, hstart, hstop, hfresh, hvalue⟩

/-! ## A network that does not change -/

/-- A network that answers a question the same each time. -/
structure Network where
  fetched : RemoteRequest → Except JsError Fetched
  resolved : JsString → DnsType → Except JsError (List JsString)
  verified : JsString → Json → Except JsError Unit
  stored : JsString → Except JsError (Option Json) := fun _ => .ok none

def Network.oracle (n : Network) : Oracle remote Caches
  | _, s, .suspend => ((), s)
  | _, s, .pick => (true, s)
  | _, s, .fetch r => (n.fetched r, s)
  | _, s, .resolve name type => (n.resolved name type, s)
  | _, s, .lookup c key => ((s c).get? key, s)
  | _, s, .forget c key => ((), Function.update s c ((s c).forget key))
  | t, s, .remember c key entry => ((), Function.update s c (c.remember (s c) t key entry))
  | _, s, .verifySignature token jwk => (n.verified token jwk, s)
  | _, s, .readRecord key => (n.stored key, s)

theorem Network.within (n : Network) : n.oracle.Within remoteEnv := by
  intro t s o
  cases o <;> first | rfl | exact ⟨rfl, rfl⟩

/-- A call can be served to its end. -/
theorem exists_served (h : Reachable (calls rt config) remoteEnv Caches.empty w) {n : Network} {t fuel : Nat}
    (ht : w.clock ≤ t) {call : RemoteCall} {es : List (Event remote)} {s : Caches} {rest : R RemoteReply}
    (hplay : (runRemote rt config call).play n.oracle t fuel w.state = (es, s, rest)) {out : RemoteReply}
    (hrest : rest.atTime t = .pure out) :
    ∃ w', Reachable (calls rt config) remoteEnv Caches.empty w' ∧ w'.clock = t ∧ w'.state = s ∧
      (⟨call, t, es, rest, some (t, .ok out)⟩ : Thread (calls rt config)) ∈ w'.threads := by
  have hserve : Runs (calls rt config) remoteEnv w (w.serve n.oracle fuel t call) :=
    Runs.serve (S := calls rt config) n.within ht call (fun tok _ => tok.elim) fuel
  exact ⟨_, h.trans hserve, rfl, World.serve_state (S := calls rt config) hplay,
    World.serve_ended (S := calls rt config) (r := .ok out) hplay hrest⟩

namespace Sample

/-- An https URL with this host and path. -/
def remoteUrl (host path : String) : Url :=
  ⟨js "https://" ++ js host ++ js path, js "https:", [], [], js host, [], js path, [], []⟩

/-- A document as it is served, with what it says. -/
structure Served where
  url : Url
  text : JsString
  doc : Json

def asciiBytes (text : JsString) : Bytes := text.map fun u => UInt8.ofNat u.toNat

def Served.response (served : Served) : Fetched := ⟨200, false, none, some [asciiBytes served.text], none⟩

/-- A platform that parses just these URLs and documents. -/
def remoteRuntime (urls : List Url) (served : List Served) : Runtime :=
  { runtime with
    parseUrl := fun text => urls.find? (·.href = text)
    parseJson := fun text => (served.find? fun d => d.text = text).map (·.doc) }

/-- A web on which there are just these documents. -/
def web (served : List Served) : Network where
  fetched
    | .get url =>
      match served.find? fun d => d.url.href = url with
      | some d => .ok d.response
      | none => .error (.error (js "not found"))
    | _ => .error (.error (js "not found"))
  resolved _ _ := .ok []
  verified _ _ := .ok ()

def remoteConfig : RemoteConfig where
  devMode := false
  clockSkewSeconds := 60
  cimd := ⟨true, [], false, 600, 65536⟩
  dns := ⟨.order, true, 3600⟩
  clients := ⟨[], true, none⟩

end Sample

/-! ## Key sets -/

/-- The key set `jwks` has been fetched at `t` from `url`. -/
def JwksFetched (rt : Runtime) (log : List (Event remote)) (url : JsString) (t : Nat) (jwks : Json) : Prop :=
  ∃ res, (⟨t, .fetch (.get url), (.ok res : Except JsError Fetched)⟩ : Event remote) ∈ log ∧ jwksSent rt res = .ok jwks

/-- An entry lapses in time after the key set in it has been asked for. -/
theorem KeptEntry.jwks (h : Reachable (calls rt config) remoteEnv Caches.empty w) {key : JsString}
    {entry : Dated Json} {t : Nat} (hkept : KeptEntry w .jwks key entry t) :
    ∃ t₁, t₁ ≤ t ∧ JwksFetched rt w.log key t₁ entry.value ∧ entry.expiresAt ≤ t₁ + JWKS_TTL_SECONDS := by
  obtain ⟨th, pre, post, hth, htr, hheld⟩ := hkept
  obtain ⟨t₀, t₁, cached, res, hsub, hres, hexpires⟩ :
    LoadedJwks rt pre key entry := hheld
  have hsorted := (h.threads_sound th hth).sorted
  rw [htr] at hsorted
  obtain ⟨hpre, -, hlater⟩ := List.pairwise_append.mp hsorted
  have hfetch := hsub.subset (List.mem_cons_of_mem _ List.mem_cons_self)
  have hle : t₀ ≤ t₁ := (List.pairwise_cons.mp (hpre.sublist hsub)).1 _ List.mem_cons_self
  refine ⟨t₁, hlater _ hfetch _ List.mem_cons_self, ⟨res, h.mem_log hth ?_, hres⟩, by omega⟩
  rw [htr]
  exact List.mem_append_left _ hfetch

/-- A key set that a call has been given was fetched, and it had not lapsed when the call began. -/
theorem jwksGiven_recent (h : Reachable (calls rt config) remoteEnv Caches.empty w) {th : Thread (calls rt config)}
    (hth : th ∈ w.threads) {stop : Nat} {uri : JsString} {jwks : Json}
    (hgiven : JwksGiven rt config.devMode (during th.start stop (sawIn th.trace)) uri jwks) :
    ∃ url t, jwksUrl rt config.devMode uri = .ok url ∧ JwksFetched rt w.log url.href t jwks ∧ t ≤ stop ∧
      th.start < t + JWKS_TTL_SECONDS := by
  obtain ⟨url, hurl, hcached | ⟨res, ⟨t, ⟨hstart, hstop⟩, hfetch⟩, hres⟩⟩ := hgiven
  · obtain ⟨entry, t₀, t₁, hkept, hle, hstart, hstop, hfresh, rfl⟩ := entry_served h hth hcached
    obtain ⟨t, ht, hfetched, hexpires⟩ := hkept.jwks h
    exact ⟨url, t, hurl, hfetched, by omega, by omega⟩
  · refine ⟨url, t, hurl, ⟨res, h.mem_log hth hfetch, hres⟩, hstop, ?_⟩
    have hpos : 0 < JWKS_TTL_SECONDS := by decide
    omega

/-- Every key set that a call returns has been fetched from the URL the call was given, by whichever call, less than
five minutes before this call began or later. -/
theorem fetchJwks_recent (h : Reachable (calls rt config) remoteEnv Caches.empty w) {th : Thread (calls rt config)}
    (hth : th ∈ w.threads) {uri : JsString} (hreq : th.req = .fetchJwks uri) {t : Nat} {jwks : Json}
    (hstop : th.stop = some (t, .ok (.jwks jwks))) :
    ∃ url t₀, jwksUrl rt config.devMode uri = .ok url ∧ t₀ ≤ t ∧ th.start < t₀ + JWKS_TTL_SECONDS ∧
      JwksFetched rt w.log url.href t₀ jwks := by
  have hgiven := (h.threads_sound th hth).result (R := sawIn th.trace) calls_meet (fun _ he => he) hstop
  rw [hreq] at hgiven
  obtain ⟨url, t₀, hurl, hfetched, hle, hrecent⟩ := jwksGiven_recent h hth hgiven
  exact ⟨url, t₀, hurl, hle, hrecent, hfetched⟩

/-- A key set that is not in the cache is fetched and kept. -/
theorem play_fetchJwks {n : Network} {t : Nat} {s : Caches} {uri : JsString} {url : Url}
    (hurl : jwksUrl rt config.devMode uri = .ok url) {res : Fetched}
    (hfetched : n.fetched (.get url.href) = .ok res) (hstays : res.redirected = false) {jwks : Json}
    (hres : jwksSent rt res = .ok jwks) (hmiss : (s .jwks).get? url.href = none) :
    (runRemote rt config (.fetchJwks uri)).play n.oracle t 3 s =
      ([⟨t, .lookup .jwks url.href, none⟩, ⟨t, .fetch (.get url.href), (.ok res : Except JsError Fetched)⟩,
        ⟨t, .remember .jwks url.href ⟨jwks, t + JWKS_TTL_SECONDS⟩, ()⟩],
        Function.update s .jwks (rememberJwks (s .jwks) t url.href ⟨jwks, t + JWKS_TTL_SECONDS⟩),
        .pure (.jwks jwks)) := by
  have hlanded : landed (.ok res) = .ok res := by simp [landed, hstays]
  have hstale : liveAt t (none : Option (Dated Json)) = none := rfl
  simp only [runRemote, fetchJwks, hurl, cachedAt, fetchWithTimeout, request, Prog.ofExcept,
    Prog.now, Prog.await, Prog.map_eq, Prog.pure_eq, Prog.bind_clock, Prog.bind_call, Prog.bind_pure_left,
    Prog.play_clock, Prog.play_call, Prog.play_pure, Network.oracle, hmiss, hstale,
    hfetched, hlanded, hres]
  rfl

namespace Sample

/-- A key set of an upstream. -/
def corpKeys : Served where
  url := remoteUrl "corp.example" "/jwks"
  text := js "\x7b\"keys\":[\x7b\"kid\":\"k1\"\x7d]\x7d"
  doc := .obj [(js "keys", .arr [.obj [(js "kid", .str (js "k1"))]])]

def keysRuntime : Runtime := remoteRuntime [corpKeys.url] [corpKeys]

theorem corpKeys_recent : ∃ w : World (calls keysRuntime remoteConfig) Caches, ∃ th ∈ w.threads,
    th.stop = some (0, .ok (.jwks corpKeys.doc)) ∧
      ∃ url t₀, jwksUrl keysRuntime false (js "https://corp.example/jwks") = .ok url ∧ t₀ ≤ 0 ∧
        th.start < t₀ + JWKS_TTL_SECONDS ∧ JwksFetched keysRuntime w.log url.href t₀ corpKeys.doc := by
  have hurl : jwksUrl keysRuntime remoteConfig.devMode (js "https://corp.example/jwks") =
      .ok corpKeys.url := rfl
  have hjwks : jwksSent keysRuntime corpKeys.response = .ok corpKeys.doc := rfl
  obtain ⟨w, hrun, -, -, hth⟩ := exists_served (w := World.init _ Caches.empty) .refl (Nat.le_refl 0)
    (play_fetchJwks (n := web [corpKeys]) (t := 0) hurl rfl rfl hjwks rfl) rfl
  exact ⟨w, _, hth, rfl, fetchJwks_recent hrun hth rfl rfl⟩

end Sample

/-! ## Metadata of upstreams -/

/-- What has been fetched at `t` from `url` is `metadata`, once the upstream `u` has merged it with its own. -/
def MetadataFetched (rt : Runtime) (devMode : Bool) (log : List (Event remote)) (u : RemoteUpstream) (url : JsString)
    (t : Nat) (metadata : Metadata) : Prop :=
  ∃ res, (⟨t, .fetch (.get url), (.ok res : Except JsError Fetched)⟩ : Event remote) ∈ log ∧
    metadataOf rt devMode u res = .ok metadata

/-- Metadata are those of an upstream that is discovered there, and they last for an hour. -/
theorem KeptEntry.metadata (h : Reachable (calls rt config) remoteEnv Caches.empty w) {url : JsString}
    {entry : Dated Metadata} {t : Nat} (hkept : KeptEntry w .metadata url entry t) :
    ∃ u t₁, (∃ th ∈ w.threads, th.req.upstream? = some u) ∧ DiscoversAt rt config.devMode u url ∧ t₁ ≤ t ∧
      MetadataFetched rt config.devMode w.log u url t₁ entry.value ∧ entry.expiresAt = t + METADATA_TTL_SECONDS := by
  obtain ⟨th, pre, post, hth, htr, hheld⟩ := hkept
  obtain ⟨u, hu, hurl, ⟨res, ⟨t₁, ⟨-, hle⟩, hfetch⟩, hres⟩, hexpires⟩ := hheld
  exact ⟨u, t₁, ⟨th, hth, hu⟩, hurl, hle, ⟨res, h.mem_log hth hfetch, hres⟩, hexpires⟩

/-- What a call is given of an upstream that is discovered, it has been given of some upstream that is discovered
at the same URL. -/
theorem metadataGiven_discovered (h : Reachable (calls rt config) remoteEnv Caches.empty w)
    {th : Thread (calls rt config)} (hth : th ∈ w.threads) {stop : Nat} {u : RemoteUpstream}
    (hu : th.req.upstream? = some u) {url : JsString} (hurl : DiscoversAt rt config.devMode u url) {metadata : Metadata}
    (hgiven : MetadataGiven rt config.devMode (during th.start stop (sawIn th.trace)) u metadata) :
    ∃ u' t, (∃ th' ∈ w.threads, th'.req.upstream? = some u') ∧ DiscoversAt rt config.devMode u' url ∧ t ≤ stop ∧
      MetadataFetched rt config.devMode w.log u' url t metadata := by
  have same : ∀ {url'}, DiscoversAt rt config.devMode u url' → url' = url := fun hurl' =>
    Except.ok.inj (hurl'.2.symm.trans hurl.2)
  cases hgiven with
  | explicit raw hraw hchecked =>
    rw [hurl.1] at hraw
    cases hraw
  | cached url' hurl' hheld =>
    obtain rfl := same hurl'
    obtain ⟨entry, t₀, t₁, hkept, hle, -, hstop, -, rfl⟩ := entry_served h hth hheld
    obtain ⟨u', t, hcall, hurl'', ht, hfetched, -⟩ := hkept.metadata h
    exact ⟨u', t, hcall, hurl'', by omega, hfetched⟩
  | discovered url' hurl' hfetched =>
    obtain rfl := same hurl'
    obtain ⟨res, ⟨t, ⟨-, ht⟩, hfetch⟩, hres⟩ := hfetched
    exact ⟨u, t, ⟨th, hth, hu⟩, hurl, ht, res, h.mem_log hth hfetch, hres⟩

/-! ### That any of them may be given -/

section
variable {n : Network} {u : RemoteUpstream} {url : JsString} {metadata : Metadata} {t : Nat} {s : Caches}

/-- Metadata that are not in the cache are fetched and kept. -/
theorem play_discover (hurl : DiscoversAt rt config.devMode u url) {res : Fetched}
    (hfetched : n.fetched (.get url) = .ok res) (hstays : res.redirected = false)
    (hres : metadataOf rt config.devMode u res = .ok metadata) (hmiss : (s .metadata).get? url = none) :
    (runRemote rt config (.upstreamMetadata u)).play n.oracle t 3 s =
      ([⟨t, .lookup .metadata url, none⟩, ⟨t, .fetch (.get url), (.ok res : Except JsError Fetched)⟩,
        ⟨t, .remember .metadata url ⟨metadata, t + METADATA_TTL_SECONDS⟩, ()⟩],
        Function.update s .metadata (rememberMetadata (s .metadata) t url ⟨metadata, t + METADATA_TTL_SECONDS⟩),
        .pure (.metadata metadata)) := by
  have hlanded : landed (.ok res) = .ok res := by simp [landed, hstays]
  simp only [runRemote, upstreamMetadata, hurl.1, hurl.2, cachedAt, keepFor, fetchWithTimeout, request, Prog.ofExcept,
    Prog.now, Prog.await, Prog.map_eq, Prog.pure_eq, Prog.bind_clock, Prog.bind_call, Prog.bind_pure_left,
    Prog.play_clock, Prog.play_call, Prog.play_pure, Network.oracle, hmiss, liveAt, Option.filter_none,
    Option.map_none, hfetched, hlanded, hres]
  rfl

/-- Metadata that are in the cache are returned, whoever they were fetched for. -/
theorem play_cached (hurl : DiscoversAt rt config.devMode u url) {entry : Dated Metadata}
    (hhit : (s .metadata).get? url = some entry) (hfresh : t < entry.expiresAt) :
    (runRemote rt config (.upstreamMetadata u)).play n.oracle t 3 s =
      ([⟨t, .lookup .metadata url, some entry⟩], s, .pure (.metadata entry.value)) := by
  have hentry : liveAt t (some entry) = some entry.value := liveAt_eq_some.mpr ⟨entry, rfl, hfresh, rfl⟩
  simp only [runRemote, upstreamMetadata, hurl.1, hurl.2, cachedAt, request, Prog.ofExcept, Prog.now, Prog.await,
    Prog.map_eq, Prog.pure_eq, Prog.bind_clock, Prog.bind_call, Prog.bind_pure_left, Prog.play_clock, Prog.play_pure,
    Network.oracle, hhit, hentry]

end

/-- Metadata are only read off an answer that is no redirect. -/
theorem metadataOf_direct {devMode : Bool} {u : RemoteUpstream} {res : Fetched} {metadata : Metadata}
    (h : metadataOf rt devMode u res = .ok metadata) :
    ∃ res', res'.redirected = false ∧ metadataOf rt devMode u res' = .ok metadata := by
  refine ⟨{ res with opaqueRedirect := false }, ?_, h⟩
  have hok : res.ok = true := by
    unfold metadataOf at h
    split at h
    · cases h
    · next hok => simpa using hok
  simp only [Fetched.ok, Bool.and_eq_true, decide_eq_true_eq] at hok
  have hlarge : ¬(300 ≤ res.status) := by omega
  simp [Fetched.redirected, hlarge]

/-- What calls for an upstream that is discovered may return, over all runs, is just what some upstream that is
discovered at the same URL makes of an answer: the one whose call comes first has its own configuration merged in
for all of them. -/
theorem upstreamMetadata_given {u : RemoteUpstream} {url : JsString} (hurl : DiscoversAt rt config.devMode u url)
    (metadata : Metadata) :
    (∃ w : World (calls rt config) Caches, Reachable (calls rt config) remoteEnv Caches.empty w ∧
      ∃ th ∈ w.threads, th.req = .upstreamMetadata u ∧ ∃ t, th.stop = some (t, .ok (.metadata metadata))) ↔
      ∃ u' res, DiscoversAt rt config.devMode u' url ∧ metadataOf rt config.devMode u' res = .ok metadata := by
  constructor
  · rintro ⟨w, h, th, hth, hreq, t, hstop⟩
    have hgiven := (h.threads_sound th hth).result (R := sawIn th.trace) calls_meet (fun _ he => he) hstop
    have hu : th.req.upstream? = some u := by rw [hreq]; rfl
    rw [hreq] at hgiven
    obtain ⟨u', t₁, -, hurl', -, res, -, hres⟩ := metadataGiven_discovered h hth hu hurl hgiven
    exact ⟨u', res, hurl', hres⟩
  · rintro ⟨u', res, hurl', hres⟩
    obtain ⟨res', hstays, hres'⟩ := metadataOf_direct hres
    -- a call for `u'`, and then one for `u`
    let n : Network := ⟨fun _ => .ok res', fun _ _ => .ok [], fun _ _ => .ok (), fun _ => .ok none⟩
    obtain ⟨w₁, hrun₁, hclock, hstate, -⟩ := exists_served (w := World.init _ Caches.empty) .refl (Nat.le_refl 0)
      (play_discover (n := n) hurl' rfl hstays hres' rfl) rfl
    have hhit : (w₁.state .metadata).get? url = some ⟨metadata, 0 + METADATA_TTL_SECONDS⟩ := by
      rw [hstate, Function.update_self]
      exact ExpiringCache.get?_put_self _ _ _
    have hpos : 0 < 0 + METADATA_TTL_SECONDS := by decide
    obtain ⟨w₂, hrun₂, -, -, hth⟩ := exists_served hrun₁ (Nat.le_of_eq hclock)
      (play_cached (n := n) hurl hhit hpos) rfl
    exact ⟨w₂, hrun₂, _, hth, rfl, 0, rfl⟩

namespace Sample

/-- An upstream that is discovered. -/
def discovering : RemoteUpstream where
  id := js "corp"
  provider := js "oidc"
  domain := js "corp.example"
  isCommon := false
  mailProvider := none
  label := none
  clientId := js "sag"
  scopes := none
  acrValues := []
  prompt := none
  tenant := none
  allowedTenants := []
  hd := none
  issuer := some (js "https://corp.example/")
  authorizationEndpoint := none
  tokenEndpoint := none
  jwksUri := none
  useDiscovery := false
  clientSecret := none

def corpDiscovery : Url := remoteUrl "corp.example" "/.well-known/openid-configuration"

theorem corp_discovered : DiscoversAt (remoteRuntime [corpDiscovery] []) false discovering corpDiscovery.href := by
  have hurl : (discoveryUrl discovering).filter (· ≠ []) = some corpDiscovery.href := by decide +kernel
  have hparse : (remoteRuntime [corpDiscovery] []).parseUrl corpDiscovery.href = some corpDiscovery := by decide +kernel
  refine ⟨rfl, ?_⟩
  unfold discoveredAt
  rw [hurl]
  show (checkedRemoteUrl _ _ (.str corpDiscovery.href) _).map _ = _
  unfold checkedRemoteUrl
  rw [urlText, hparse]
  rfl

/-- Metadata that are not the upstream's own are only given where another makes them of an answer. -/
theorem corpMetadata_given :
    (∃ w : World (calls (remoteRuntime [corpDiscovery] []) remoteConfig) Caches,
      Reachable (calls (remoteRuntime [corpDiscovery] []) remoteConfig) remoteEnv Caches.empty w ∧
        ∃ th ∈ w.threads, th.req = .upstreamMetadata discovering ∧
          ∃ t, th.stop = some (t, .ok (.metadata ⟨.null, [], [], []⟩))) ↔
      ∃ u' res, DiscoversAt (remoteRuntime [corpDiscovery] []) false u' corpDiscovery.href ∧
        metadataOf (remoteRuntime [corpDiscovery] []) false u' res = .ok ⟨.null, [], [], []⟩ :=
  upstreamMetadata_given corp_discovered _

end Sample

end Sag
