import Sag.Keys.Collect

/-!
# What is published for peers

With a cache of its own, a process keeps contributing what a peer has once answered, does
not ask an unreachable one again before the delay has passed, and says whether a peer is
missing (`peers_resilient`).

What is published for a peer has been taken over from one of its documents, whatever cache
it has been through. Whether there is private material among it is decided by each document,
entry by entry (`peers_publish_bare`): the filter looks for `d` and `k`, and a key pair of
the type `AKP` has its private part in `priv`.
-/

namespace Sag

variable {config : PeerJwksConfig}

/-- Some peer contributes nothing, and so there is an empty list among what is collected. -/
theorem any_isEmpty_iff {s : Peers} {urls : List JsString} {joined : List Nat} {perPeer : List (List Json)}
    (hjoined : List.Forall₂ s.Names urls joined) (hreturned : List.Forall₂ s.Returned joined perPeer) :
    perPeer.any (·.isEmpty) = true ↔
      ∃ url i r, (url, i) ∈ urls.zip joined ∧ s.resolutions[i]? = some r ∧ r.url = url ∧ r.keys = [] := by
  induction hjoined generalizing perPeer with
  | nil =>
    cases hreturned
    simp
  | @cons url i urls joined hname _ ih =>
    cases hreturned with
    | @cons _ keys _ perPeer hret hrest =>
      obtain ⟨r, hr, -, hkeys⟩ := hret
      obtain ⟨r', hr', hurl⟩ := hname
      obtain rfl : r' = r := Option.some.inj (hr'.symm.trans hr)
      rw [List.any_cons, Bool.or_eq_true, ih hrest]
      constructor
      · intro h
        rcases h with h | ⟨url', i', r₀, hin, hrest⟩
        · exact ⟨url, i, r', List.mem_cons_self, hr, hurl, by rw [hkeys]; exact List.isEmpty_iff.mp h⟩
        · exact ⟨url', i', r₀, List.mem_cons_of_mem _ hin, hrest⟩
      · intro h
        obtain ⟨url', i', r₀, hin, hr₀, hrest⟩ := h
        rcases List.mem_cons.mp hin with heq | hin
        · obtain ⟨-, rfl⟩ := Prod.mk.inj heq
          obtain rfl : r₀ = r' := Option.some.inj (hr₀.symm.trans hr)
          left
          rw [← hkeys, hrest.2]
          rfl
        · exact Or.inr ⟨url', i', r₀, hin, hr₀, hrest⟩

/-- What collecting the keys of peers promises, at any moment: the resolutions there have
been, in the order in which they began. -/
structure Resilient (config : PeerJwksConfig) (s : Peers) : Prop where
  /-- One resolution of a peer is in flight at a time. -/
  single : ∀ (i j : Nat) (r r' : Resolution), s.resolutions[i]? = some r → s.resolutions[j]? = some r' →
    r.url = r'.url →
    r.stage ≠ .released → r'.stage ≠ .released → i = j
  /-- After a fetch that succeeded, a later resolution returns keys while they are not stale. -/
  contributes : ∀ (i j : Nat) (r r' : Resolution), i < j → s.resolutions[i]? = some r →
    s.resolutions[j]? = some r' → r.url = r'.url →
    r.attempt = .succeeded → r'.stage ≠ .reading → r'.stage ≠ .fetching →
      r'.now < r.now + config.staleTtlSeconds → r'.keys ≠ []
  /-- After one that failed, a later resolution does not fetch before the delay has passed. -/
  waits : ∀ (i j : Nat) (r r' : Resolution), i < j → s.resolutions[i]? = some r →
    s.resolutions[j]? = some r' → r.url = r'.url →
    r.attempt = .failed → r'.attempt ≠ .unmade → r.now + config.retryAfterSeconds ≤ r'.now
  /-- Where the last attempt has succeeded, nothing is waited for. -/
  clears : ∀ url, (outcomes url s.resolutions).getLast? = some true → s.retryAfter.get? url = none
  /-- A result is incomplete if some configured peer contributes nothing to it. -/
  flags : ∀ c ∈ s.collections, List.Forall₂ s.Names config.urls c.joined ∧
    ∀ result, c.result = some result → (result.incomplete = true ↔
      ∃ url i r, (url, i) ∈ config.urls.zip c.joined ∧ s.resolutions[i]? = some r ∧ r.url = url ∧ r.keys = [])

/-- In every run of a process with its own cache, whatever the peers answer and when. -/
theorem peers_resilient {events : List PeerEvent} {s : Peers} (hmemory : config.cacheBackend = .memory)
    (hrun : Peers.init.run config events = some s) : Resilient config s := by
  have h := Orderly.run hmemory hrun
  refine ⟨fun i j r r' hr hr' hurl hopen hopen' => ?_, fun i j r r' hlt hr hr' hurl hsucceeded hread hfetch hnow => ?_,
    fun i j r r' hlt hr hr' hurl hfailed hmade => ?_, h.cleared, fun c hc => ⟨(h.collections c hc).joined, ?_⟩⟩
  · rcases Nat.lt_trichotomy i j with hlt | heq | hgt
    · exact absurd (h.follows_of_lt hlt hr hr' hurl).released hopen
    · exact heq
    · exact absurd (h.follows_of_lt hgt hr' hr hurl.symm).released hopen'
  · obtain ⟨entry, hentry, hat, hkeys⟩ := (h.follows_of_lt hlt hr hr' hurl).finds hsucceeded
    exact (h.leaves r' (List.mem_of_getElem? hr')).returns hread hfetch entry hentry hkeys (by omega)
  · exact (h.follows_of_lt hlt hr hr' hurl).waits hfailed hmade
  · intro result hresult
    obtain ⟨perPeer, hall, heq⟩ := (h.collections c hc).result result hresult
    rw [heq]
    exact any_isEmpty_iff (h.collections c hc).joined hall

/-! ## Private material -/

/-- The members that hold private material in a key of any type. -/
def PRIVATE_MEMBERS : List JsString :=
  [js "d", js "p", js "q", js "dp", js "dq", js "qi", js "oth", js "k", js "priv"]

def holdsPrivate (key : Json) : Bool := PRIVATE_MEMBERS.any fun name => (key.get name).isSome

/-- A key of the document that holds private material shows it by one of the two members that
are looked for. -/
def ShowsSecrets (body : Json) : Prop :=
  ∀ entries, body.get (js "keys") = some (.arr entries) → ∀ key, .obj key ∈ entries →
    ((Json.member key (js "kty")).bind Json.string?).isSome = true → holdsPrivate (.obj key) = true →
      carriesSecret key = true

/-- Nothing private is taken over from the document. -/
def TakesOverBare (body : Json) : Prop :=
  ∀ keys, fetchPeerJwks (.ok body) = .ok keys → ∀ key ∈ keys, holdsPrivate key = false

/-- What is taken over is what passes the filter. -/
theorem fetchPeerJwks_ok {body : Json} {keys : List Json} :
    fetchPeerJwks (.ok body) = .ok keys ↔
      keys ≠ [] ∧ ∃ entries, body.get (js "keys") = some (.arr entries) ∧ entries.filter isBareKey = keys := by
  unfold fetchPeerJwks
  dsimp only
  split
  · next entries hentries =>
    rw [hentries]
    split
    · next hnone =>
      constructor
      · exact nofun
      · intro h
        obtain ⟨hne, entries', hsame, hfilter⟩ := h
        cases hsame
        rw [hnone] at hfilter
        exact absurd hfilter.symm hne
    · next key rest hsome =>
      constructor
      · intro h
        cases h
        exact ⟨nofun, entries, rfl, hsome⟩
      · intro h
        obtain ⟨-, entries', hsame, hfilter⟩ := h
        cases hsame
        rw [← hfilter, hsome]
  · next hother =>
    constructor
    · exact nofun
    · intro h
      obtain ⟨-, entries, hentries, -⟩ := h
      exact absurd hentries (hother entries)

/-- It is decided entry by entry. -/
theorem takesOverBare_iff (body : Json) : TakesOverBare body ↔ ShowsSecrets body := by
  constructor
  · intro h entries hentries key hkey hkty hprivate
    by_cases hcarries : carriesSecret key = true
    · exact hcarries
    · have hbare : isBareKey (.obj key) = true := by
        show (((Json.member key (js "kty")).bind Json.string?).isSome && !carriesSecret key) = true
        rw [hkty, Bool.not_eq_true _ |>.mp hcarries]
        rfl
      have hin : .obj key ∈ entries.filter isBareKey := List.mem_filter.mpr ⟨hkey, hbare⟩
      have hpublic := h _ (fetchPeerJwks_ok.mpr ⟨List.ne_nil_of_mem hin, entries, hentries, rfl⟩) _ hin
      rw [hprivate] at hpublic
      cases hpublic
  · intro h keys hkeys key hkey
    obtain ⟨-, entries, hentries, hfilter⟩ := fetchPeerJwks_ok.mp hkeys
    rw [← hfilter] at hkey
    obtain ⟨hin, hbare⟩ := List.mem_filter.mp hkey
    cases key with
    | obj key =>
      have hboth : ((Json.member key (js "kty")).bind Json.string?).isSome = true ∧ (!carriesSecret key) = true :=
        Bool.and_eq_true_iff.mp hbare
      cases hprivate : holdsPrivate (.obj key) with
      | false => rfl
      | true =>
        rw [h entries hentries key hin hboth.1 hprivate] at hboth
        cases hboth.2
    | _ => cases hbare

/-- What is published is this instance's own or a peer's. -/
theorem mem_mergeJwks {stringify : Json → JsString} {localKeys peerKeys : List Json} {key : Json}
    (h : key ∈ mergeJwks stringify localKeys peerKeys) : key ∈ localKeys ∨ key ∈ peerKeys := by
  have hfold : ∀ (peerKeys : List Json) (acc : List Json × List Json),
      key ∈ (peerKeys.foldl (fun acc key =>
        if acc.2.any (Json.same (keyId stringify key)) then acc
        else (acc.1 ++ [key], acc.2 ++ [keyId stringify key])) acc).1 → key ∈ acc.1 ∨ key ∈ peerKeys := by
    intro peerKeys
    induction peerKeys with
    | nil => exact fun _ h => Or.inl h
    | cons peerKey peerKeys ih =>
      intro acc h
      rw [List.foldl_cons] at h
      rcases ih _ h with h | h
      · split at h
        · exact Or.inl h
        · rcases List.mem_append.mp h with h | h
          · exact Or.inl h
          · rw [List.mem_singleton.mp h]
            exact Or.inr List.mem_cons_self
      · exact Or.inr (List.mem_cons_of_mem _ h)
  exact hfold peerKeys (localKeys, localKeys.map (keyId stringify)) h

theorem mem_handleJwks {stringify : Json → JsString} {localKeys : List Json} {isPeerFetch : Bool}
    {result : Collected} {key : Json}
    (h : key ∈ (handleJwks config stringify localKeys isPeerFetch (some result)).keys) :
    key ∈ localKeys ∨ key ∈ result.keys := by
  unfold handleJwks at h
  split at h
  · exact Or.inl h
  · exact mem_mergeJwks h

/-- Nothing private is published for a peer, exactly as long as every key that a peer sends
shows its private material by a `d` or a `k`. -/
theorem peers_publish_bare {events : List PeerEvent} {s : Peers} (hrun : Peers.init.run config events = some s) :
    (∀ body, TakesOverBare body ↔ ShowsSecrets body) ∧
      ((∀ e ∈ events, ∀ body, Peers.heard e = some (.ok body) → ShowsSecrets body) →
        ∀ c ∈ s.collections, ∀ result, c.result = some result → ∀ stringify localKeys isPeerFetch,
          ∀ key ∈ (handleJwks config stringify localKeys isPeerFetch (some result)).keys,
            key ∈ localKeys ∨ holdsPrivate key = false) := by
  refine ⟨takesOverBare_iff, fun hshows c hc result hresult stringify localKeys isPeerFetch key hkey => ?_⟩
  have hkept : Peers.Kept (fun key => holdsPrivate key = false) s := by
    refine Peers.Kept.run (fun e he res keys hheard htaken => ?_) hrun
    cases res with
    | error message => cases htaken
    | ok body => exact (takesOverBare_iff body).mpr (hshows e he body hheard) keys htaken
  rcases mem_handleJwks hkey with hlocal | hpeer
  · exact Or.inl hlocal
  · exact Or.inr (hkept.results c hc result hresult key hpeer)

namespace Sample

def meshConfig : PeerJwksConfig := ⟨[js "https://b.test/jwks.json"], 300, 1000, 30, .memory⟩

/-- A peer is asked for its keys, and answers. -/
def askedPeer (body : Json) : List PeerEvent :=
  [.collect, .read 0 none 0, .fetched 0 (.ok body), .stored 0, .release 0, .finish 0]

def akpKey (private_ : List (JsString × Json)) : Json :=
  .obj ([(js "kty", .str (js "AKP")), (js "alg", .str (js "ML-DSA-44")), (js "pub", .str (js "AA"))] ++ private_)

def jwksOf (key : Json) : Json := .obj [(js "keys", .arr [key])]

/-- A public key is passed on. -/
theorem public_republished :
    ∃ s, Peers.init.run meshConfig (askedPeer (jwksOf (akpKey []))) = some s ∧
      ∀ c ∈ s.collections, ∀ result, c.result = some result →
        ∀ key ∈ (handleJwks meshConfig (fun _ => []) [] false (some result)).keys,
          key ∈ ([] : List Json) ∨ holdsPrivate key = false := by
  obtain ⟨s, hrun⟩ : ∃ s, Peers.init.run meshConfig (askedPeer (jwksOf (akpKey []))) = some s := ⟨_, rfl⟩
  refine ⟨s, hrun, fun c hc result hresult => ?_⟩
  refine (peers_publish_bare hrun).2 (fun e he body hheard => ?_) c hc result hresult _ _ _
  have hbody : body = jwksOf (akpKey []) := by
    simp only [askedPeer, List.mem_cons, List.not_mem_nil, or_false] at he
    rcases he with rfl | rfl | rfl | rfl | rfl | rfl <;> cases hheard
    rfl
  rw [hbody]
  intro entries hentries key hkey _ hprivate
  cases hentries
  cases List.mem_singleton.mp hkey
  revert hprivate
  decide +kernel

/-- A peer answers once, and then no more. -/
theorem graced : ∃ s, Peers.init.run meshConfig
    (askedPeer (jwksOf (akpKey [])) ++
      [.collect, .read 1 none 400, .fetched 1 (.error (js "HTTP 503")), .release 1, .finish 1]) = some s ∧
    Resilient meshConfig s := by
  obtain ⟨s, hrun⟩ : ∃ s, Peers.init.run meshConfig
      (askedPeer (jwksOf (akpKey [])) ++
        [.collect, .read 1 none 400, .fetched 1 (.error (js "HTTP 503")), .release 1, .finish 1]) = some s := ⟨_, rfl⟩
  exact ⟨s, hrun, peers_resilient rfl hrun⟩

/-- So is a key pair of the type that has its private part elsewhere. -/
theorem priv_republished :
    ∃ s, Peers.init.run meshConfig (askedPeer (jwksOf (akpKey [(js "priv", .str (js "AA"))]))) = some s ∧
      ∃ c ∈ s.collections, ∃ result, c.result = some result ∧
        ∃ key ∈ (handleJwks meshConfig (fun _ => []) [] false (some result)).keys,
          (key.get (js "kty")).bind Json.string? = some (js "AKP") ∧ (key.get (js "priv")).isSome = true ∧
            holdsPrivate key = true := by
  refine ⟨_, rfl, _, List.mem_cons_self, _, rfl, _, List.mem_cons_self, ?_⟩
  decide +kernel

end Sample

end Sag
