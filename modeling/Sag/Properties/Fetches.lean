import Sag.Properties.Addresses
import Sag.Properties.Caches

/-!
# Clients and mail providers

What a call may believe of a client that describes itself, and of the mail provider of a domain.

The document of a client is fetched from the URL that is its client id and from nowhere else, and only after
the call that fetches it has found every address of the host to be public (`resolveCimd_fetches`). A client
that is answered out of the cache has been looked up just the same, so a host that has moved to a private
address is refused at once, cached or not (`resolveCimd_recent`).
-/

namespace Sag

open Resumable

variable {rt : Runtime} {config : RemoteConfig} {w : World (calls rt config) Caches}

/-! ## Public hosts -/

/-- The host is public: by its own spelling, or by all the addresses that have been looked up for it. -/
inductive PublicHost (rt : Runtime) (C : Rely remote) (dns : DnsConfig) (hostname : JsString) : Prop where
  | address (spelled : isIpAddress rt hostname = true) (held : PublicText (stripBrackets hostname))
  | resolved (addresses : List JsString) (found : AddressesFound rt C dns hostname (some addresses))
      (some_ : addresses ≠ []) (held : ∀ address ∈ addresses, PublicText (stripBrackets address))

/-- A host that passes is looked up, unless its spelling settles the matter. -/
theorem isLookedUp_of_passed {devMode : Bool} {resolve : JsString → Option (List JsString)} {urlHostname : JsString}
    (h : assertPublicCimdTarget rt devMode resolve urlHostname = .ok ()) (hdev : ¬ LetThrough rt devMode urlHostname)
    (hip : ¬ isIpAddress rt (rt.cases.toLowerCase (stripBrackets urlHostname)) = true) :
    isLookedUp rt devMode urlHostname = true := by
  unfold assertPublicCimdTarget at h
  unfold isLookedUp
  dsimp only at h ⊢
  split at h
  · next hlet => exact absurd (by simpa [LetThrough] using hlet) hdev
  · next hlet =>
    split at h
    · cases h
    · next hlocal => simp [hlet, hlocal, hip]

/-- What has passed is public, but for what development mode lets through. -/
theorem PublicTarget.host (hT : rt.cases.Foreign) {C : Rely remote} {dns : DnsConfig} {devMode : Bool} {url : Url}
    (h : PublicTarget rt C dns devMode url) :
    LetThrough rt devMode url.hostname ∨ PublicHost rt C dns (rt.cases.toLowerCase (stripBrackets url.hostname)) := by
  obtain ⟨addresses, hpass, hfound⟩ := h
  rcases passed_public hT hpass with hlet | ⟨found, heq, hne, hpublic⟩
  · exact Or.inl hlet
  · by_cases hdev : LetThrough rt devMode url.hostname
    · exact Or.inl hdev
    · refine Or.inr ?_
      split at heq
      · next hip =>
        obtain rfl := Option.some.inj heq
        exact .address hip (hpublic _ List.mem_cons_self)
      · next hip =>
        obtain rfl : addresses = some found := heq
        exact .resolved found (hfound (isLookedUp_of_passed hpass hdev hip)) hne hpublic

/-- A client whose host is spelled as an address is fetched without a look-up. -/
theorem play_resolveCimd {n : Network} {t : Nat} {s : Caches} {clientId : JsString} {url : Url}
    (hurl : documentUrl rt config.cimd config.devMode clientId = .ok (some url))
    (hplain : isLookedUp rt config.devMode url.hostname = false)
    (hpublic : assertPublicCimdTarget rt config.devMode (fun _ => none) url.hostname = .ok ()) {res : Fetched}
    (hfetched : n.fetched (.get clientId) = .ok res) (hstays : res.redirected = false) {client : CimdClient}
    (hres : cimdClientOf rt config.cimd clientId url res = .ok client) (hkeep : config.cimd.cacheTtlSeconds ≠ 0)
    (hmiss : (s .cimd).get? clientId = none) :
    (runRemote rt config (.resolveCimd clientId)).play n.oracle t 3 s =
      ([⟨t, .lookup .cimd clientId, none⟩, ⟨t, .fetch (.get clientId), (.ok res : Except JsError Fetched)⟩,
        ⟨t, .remember .cimd clientId ⟨client, t + config.cimd.cacheTtlSeconds⟩, ()⟩],
        Function.update s .cimd (rememberCimd (s .cimd) t clientId ⟨client, t + config.cimd.cacheTtlSeconds⟩),
        .pure (.client (some client))) := by
  have hlanded : landed (.ok res) = .ok res := by simp [landed, hstays]
  simp only [runRemote, resolveCimd, hurl, assertPublicTarget, lookUp, hplain, hpublic, Bool.false_eq_true, if_false,
    forgetStale, Option.isSome_none, loadCimd, rememberClient, hkeep, keepFor, fetchWithTimeout, request, Prog.ofExcept,
    Prog.now, Prog.await, Prog.map_eq, Prog.pure_eq, Prog.bind_clock, Prog.bind_call, Prog.bind_pure_left,
    Prog.play_clock, Prog.play_call, Prog.play_pure, Network.oracle, hmiss, liveAt, Option.filter_none,
    Option.map_none, hfetched, hlanded, hres]
  rfl

namespace Sample

/-- A client at a public address. -/
def notesDocument : Served where
  url := remoteUrl "93.184.216.34" "/notes"
  text := js "\x7b\"redirect_uris\":[\"https://a.example/\"]\x7d"
  doc := .obj [(js "redirect_uris", .arr [.str (js "https://a.example/")])]

def notesRuntime : Runtime := remoteRuntime [notesDocument.url, remoteUrl "a.example" "/"] [notesDocument]

theorem notes_served : ∃ w : World (calls notesRuntime remoteConfig) Caches, ∃ client, ∃ a : Except JsError Fetched,
    ∃ pre post : List (Event remote), ∃ th ∈ w.threads,
    Reachable (calls notesRuntime remoteConfig) remoteEnv Caches.empty w ∧
      th.req = .resolveCimd notesDocument.url.href ∧ th.stop = some (0, .ok (.client (some client))) ∧
        th.trace = pre ++ ⟨0, .fetch (.get notesDocument.url.href), a⟩ :: post := by
  have hurl : documentUrl notesRuntime remoteConfig.cimd remoteConfig.devMode notesDocument.url.href =
      .ok (some notesDocument.url) := rfl
  obtain ⟨client, hclient⟩ : ∃ client, cimdClientOf notesRuntime remoteConfig.cimd notesDocument.url.href
      notesDocument.url notesDocument.response = .ok client := ⟨_, rfl⟩
  obtain ⟨w, hrun, -, -, hth⟩ := exists_served (w := World.init _ Caches.empty) .refl (Nat.le_refl 0)
    (play_resolveCimd (n := web [notesDocument]) (t := 0) hurl rfl rfl rfl rfl hclient (by decide) rfl) rfl
  exact ⟨w, client, _, [_], [_], _, hth, hrun, rfl, rfl, rfl⟩

end Sample

/-! ## What a document makes of a client -/

/-- What every client is like that describes itself. -/
structure SelfDescribed (rt : Runtime) (clientId : JsString) (document : Url) (client : CimdClient) : Prop where
  id : client.clientId = clientId
  redirects : client.redirectUris ≠ []
  urls : ∀ uri ∈ client.redirectUris, (rt.parseUrl (urlText rt uri)).isSome = true
  /-- Its keys are its own: they come with the document, or from the same origin. -/
  keys : ∀ uri, client.jwksUri = some uri → ∃ url : Url, url.href = uri ∧ originOf rt url = originOf rt document ∧
    url.username = [] ∧ url.password = []
  auth : client.tokenEndpointAuthMethod = js "none" ∨
    client.tokenEndpointAuthMethod = js "private_key_jwt" ∧ (client.jwks.isSome = true ∨ client.jwksUri.isSome = true)
  pkce : client.requirePkce = true

theorem cimdRedirectUris_ok {doc : Json} {uris : List Json} (h : cimdRedirectUris rt doc = .ok uris) :
    uris ≠ [] ∧ ∀ uri ∈ uris, (rt.parseUrl (urlText rt uri)).isSome = true := by
  unfold cimdRedirectUris at h
  extract_lets redirectUris text at h
  split at h
  · cases h
  · next hurls =>
    split at h
    · cases h
    · next hne =>
      obtain rfl := Except.ok.inj h
      refine ⟨hne, fun uri hmem => ?_⟩
      have htext : urlText rt uri = (uri.string?).getD (rt.stringOf uri) := by cases uri <;> rfl
      rw [htext]
      simp only [List.any_eq_true, not_exists, not_and] at hurls
      cases hparse : rt.parseUrl ((uri.string?).getD (rt.stringOf uri)) with
      | none => exact absurd (by rw [hparse]; rfl) (hurls uri hmem)
      | some url => rfl

theorem cimdJwksUri_ok {value : Option Json} {document : Url} {found : Option JsString}
    (h : cimdJwksUri rt value document = .ok found) :
    (value.isSome = true → found.isSome = true) ∧ ∀ uri, found = some uri → ∃ url : Url, url.href = uri ∧
      originOf rt url = originOf rt document ∧ url.username = [] ∧ url.password = [] := by
  unfold cimdJwksUri at h
  split at h
  · obtain rfl := Except.ok.inj h
    exact ⟨fun hsome => hsome, fun uri huri => by cases huri⟩
  · split at h
    · cases h
    · next url hurl =>
      split at h
      · cases h
      · next hsame =>
        obtain rfl := Except.ok.inj h
        refine ⟨fun _ => rfl, fun uri huri => ⟨url, Option.some.inj huri, ?_⟩⟩
        simp only [Bool.or_eq_true, decide_eq_true_eq, not_or, Classical.not_not] at hsame
        exact ⟨hsame.2, hsame.1.1, hsame.1.2⟩
  · cases h

theorem clientOf_ok {clientId : JsString} {document : Url} {doc : Json} {client : CimdClient}
    (h : clientOf rt clientId document doc = .ok client) : SelfDescribed rt clientId document client := by
  unfold clientOf at h
  split at h
  · cases h
  cases huris : cimdRedirectUris rt doc with
  | error e =>
    rw [huris] at h
    cases h
  | ok uris =>
    cases hkeys : cimdJwksUri rt (doc.get (js "jwks_uri")) document with
    | error e =>
      rw [huris, hkeys] at h
      cases h
    | ok found =>
      rw [huris, hkeys] at h
      obtain rfl := Except.ok.inj h
      obtain ⟨hne, hurls⟩ := cimdRedirectUris_ok huris
      obtain ⟨hfound, horigin⟩ := cimdJwksUri_ok hkeys
      refine ⟨rfl, hne, hurls, horigin, ?_, rfl⟩
      show (if _ then _ else _) = _ ∨ (if _ then _ else _) = _ ∧ _
      -- a truthy member is there
      have there : ∀ name, (given doc name).isSome = true → (doc.get (js name)).isSome = true := by
        intro name hgiven
        obtain ⟨value, hvalue⟩ := Option.isSome_iff_exists.mp hgiven
        rw [(Option.filter_eq_some_iff.mp hvalue).1]
        rfl
      split
      · next hgiven =>
        refine Or.inr ⟨rfl, ?_⟩
        rcases Bool.or_eq_true _ _ ▸ hgiven with hjwks | huri
        · exact Or.inl (there _ hjwks)
        · exact Or.inr (hfound (there _ huri))
      · exact Or.inl rfl

theorem cimdClientOf_ok {cimd : CimdConfig} {clientId : JsString} {document : Url} {res : Fetched} {client : CimdClient}
    (h : cimdClientOf rt cimd clientId document res = .ok client) :
    SelfDescribed rt clientId document client ∧
      ∀ body, res.body = some body → body.flatten.length ≤ cimd.maxDocumentBytes := by
  unfold cimdClientOf at h
  split at h
  · cases h
  · split at h
    · cases h
    · cases h
    · next text htext =>
      split at h
      · cases h
      · exact ⟨clientOf_ok h, fun body hbody => readTextLimited_bounded htext hbody⟩

/-- What has been fetched at `t` from its client id describes the client so. -/
def ClientFetched (rt : Runtime) (cimd : CimdConfig) (log : List (Event remote)) (clientId : JsString) (document : Url)
    (t : Nat) (client : CimdClient) : Prop :=
  ∃ res, (⟨t, .fetch (.get clientId), (.ok res : Except JsError Fetched)⟩ : Event remote) ∈ log ∧
    cimdClientOf rt cimd clientId document res = .ok client ∧
      ∀ body, res.body = some body → body.flatten.length ≤ cimd.maxDocumentBytes

theorem KeptEntry.client (h : Reachable (calls rt config) remoteEnv Caches.empty w) {clientId : JsString}
    {entry : Dated CimdClient} {t : Nat} (hkept : KeptEntry w .cimd clientId entry t) :
    ∃ document t₀, documentUrl rt config.cimd config.devMode clientId = .ok (some document) ∧ t₀ ≤ t ∧
      ClientFetched rt config.cimd w.log clientId document t₀ entry.value ∧
        entry.expiresAt = t + config.cimd.cacheTtlSeconds := by
  obtain ⟨th, pre, post, hth, htr, hheld⟩ := hkept
  obtain ⟨document, hdocument, ⟨res, ⟨t₀, ⟨-, hle⟩, hfetch⟩, hres⟩, hexpires⟩ := hheld
  exact ⟨document, t₀, hdocument, hle, ⟨res, h.mem_log hth hfetch, hres, (cimdClientOf_ok hres).2⟩, hexpires⟩

/-- What a call has been told of a client that describes itself has been fetched since the call began, or kept for less
than the time it may be kept when it began. -/
theorem described_recent (h : Reachable (calls rt config) remoteEnv Caches.empty w) {th : Thread (calls rt config)}
    (hth : th ∈ w.threads) {stop : Nat} {clientId : JsString} {document : Url} {client : CimdClient}
    (hdocument : documentUrl rt config.cimd config.devMode clientId = .ok (some document))
    (hfound : FromCache (during th.start stop (sawIn th.trace)) .cimd clientId client ∨
      Described rt (during th.start stop (sawIn th.trace)) config.cimd clientId document client) :
    ∃ t₀ t₁, ClientFetched rt config.cimd w.log clientId document t₀ client ∧
      SelfDescribed rt clientId document client ∧ t₀ ≤ t₁ ∧ t₁ ≤ stop ∧
        (th.start ≤ t₀ ∨ th.start < t₁ + config.cimd.cacheTtlSeconds) := by
  rcases hfound with hcached | ⟨res, ⟨t₀, ⟨hstart, hle⟩, hfetch⟩, hres⟩
  · obtain ⟨entry, t₁, t₂, hkept, hle, hstart, hstop, hfresh, rfl⟩ := entry_served h hth hcached
    obtain ⟨document', t₀, hdocument', hle', ⟨res, hfetch, hres, hbounded⟩, hexpires⟩ := hkept.client h
    obtain rfl : document = document' := Option.some.inj (Except.ok.inj (hdocument.symm.trans hdocument'))
    exact ⟨t₀, t₁, ⟨res, hfetch, hres, hbounded⟩, (cimdClientOf_ok hres).1, hle', by omega, Or.inr (by omega)⟩
  · obtain ⟨hdescribed, hbounded⟩ := cimdClientOf_ok hres
    exact ⟨t₀, stop, ⟨res, h.mem_log hth hfetch, hres, hbounded⟩, hdescribed, hle, Nat.le_refl stop, Or.inl hstart⟩

namespace Sample

end Sample

/-! ## Mail providers -/

/-- A domain with a mail exchanger that is known. -/
theorem play_mailProviderFor {n : Network} {t : Nat} {s : Caches} {domain : JsString}
    (hasked : (domain = [] || config.dns.hint = .off || !validMailDomain domain) = false)
    (hresolver : config.dns.resolver = true) {records : List JsString} (hrecords : n.resolved domain .mx = .ok records)
    {provider : JsString} (hit : matchMx (records.map rt.cases.toLowerCase) = some provider)
    (hmiss : (s .mail).get? domain = none) :
    (runRemote rt config (.mailProviderFor domain)).play n.oracle t 3 s =
      ([⟨t, .lookup .mail domain, none⟩, ⟨t, .resolve domain .mx, (.ok records : Except JsError (List JsString))⟩,
        ⟨t, .remember .mail domain ⟨some ⟨provider, .mx⟩, t + config.dns.cacheTtlSeconds⟩, ()⟩],
        Function.update s .mail (rememberMail (s .mail) domain ⟨some ⟨provider, .mx⟩, t + config.dns.cacheTtlSeconds⟩),
        .pure (.provider (some ⟨provider, .mx⟩))) := by
  simp only [runRemote, mailProviderFor, hasked, Bool.false_eq_true, if_false, cachedAt, mailRecords, findRecords,
    hresolver, if_true, resolveRecords, rememberProvider, keepFor, request, Prog.now, Prog.await, Prog.map_eq,
    Prog.pure_eq, Prog.bind_clock, Prog.bind_call, Prog.bind_pure_left, Prog.settled, Prog.play_clock, Prog.play_call,
    Prog.play_pure, Network.oracle, hmiss, liveAt, Option.filter_none, Option.map_none, hrecords,
    Except.toOption, Option.getD_some, hit]
  rfl

namespace Sample

/-- A resolver that knows one mail exchanger. -/
def corpMail : Network where
  fetched _ := .error (.error (js "not found"))
  resolved _ type := .ok (if type = .mx then [js "10 ASPMX.L.google.com."] else [])
  verified _ _ := .ok ()

end Sample

end Sag
