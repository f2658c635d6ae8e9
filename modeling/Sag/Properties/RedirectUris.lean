import Sag.Browser

/-!
# Which redirect URIs match

A candidate is meant to match a registered URI that is the same URL, or the same but for the
port on a loopback host (`SameButPort`). The loopback rule of `redirectUriAllowed` compares
fewer components than that: the user name, the password and the fragment are left out. So
the match is exact just where they make no difference (`redirect_matching`).

The URL parser is the platform's. All that is used of it is that the serialisation of a URL
names every one of its components (`HrefFaithful`).
-/

namespace Sag

variable {rt : Runtime}

/-- Two strings that parse to one serialised URL parse to the same URL. -/
def HrefFaithful (rt : Runtime) : Prop :=
  ∀ s s' url url', rt.parseUrl s = some url → rt.parseUrl s' = some url' → url.href = url'.href → url = url'

/-- The hosts whose port is left to the client. -/
def isLoopbackHost (hostname : JsString) : Prop :=
  hostname = js "127.0.0.1" ∨ hostname = js "[::1]" ∨ hostname = js "localhost"

/-- The components that the loopback rule compares. -/
structure LoopbackAlike (registered url : Url) : Prop where
  loopback : isLoopbackHost registered.hostname
  protocol : registered.protocol = url.protocol
  hostname : registered.hostname = url.hostname
  pathname : registered.pathname = url.pathname
  search : registered.search = url.search

/-- The components that it leaves out, the port apart. -/
structure SameCredentials (registered url : Url) : Prop where
  username : registered.username = url.username
  password : registered.password = url.password
  hash : registered.hash = url.hash

/-- The same URL, or one on the same loopback host that differs in nothing but its port. -/
def SameButPort (registered url : Url) : Prop :=
  registered.href = url.href ∨ (LoopbackAlike registered url ∧ SameCredentials registered url)

/-- Some registered URI parses to a URL of this kind. -/
def Registers (rt : Runtime) (registered : List JsString) (P : Url → Prop) : Prop :=
  ∃ uri ∈ registered, ∃ url, rt.parseUrl uri = some url ∧ P url

/-- The scheme of a candidate is one of those allowed. -/
def SchemeAllowed (rt : Runtime) (schemes : List JsString) (candidate : JsString) : Prop :=
  ∀ url, rt.parseUrl candidate = some url →
    js "*" ∈ schemes ∨ rt.cases.toLowerCase url.protocol.dropLast ∈ schemes

/-- What matching a candidate is meant to be. -/
structure ExactMatching (rt : Runtime) (registered : List JsString) (candidate : JsString) (accepted : Bool) :
    Prop where
  /-- Accepted is what some registered URI is the same as, but for a loopback port. -/
  exact : accepted = true ↔
    ∃ url, rt.parseUrl candidate = some url ∧ Registers rt registered fun r => SameButPort r url
  /-- Nothing is accepted that differs from every registered URI in its user information,
  fragment, path or query. -/
  agrees : accepted = true → ∃ url, rt.parseUrl candidate = some url ∧
    Registers rt registered fun r => SameCredentials r url ∧ r.pathname = url.pathname ∧ r.search = url.search

/-- Where a registered loopback URI is like the candidate, some registered URI is the same
but for the port. -/
def CredentialsSettled (rt : Runtime) (registered : List JsString) (candidate : JsString) : Prop :=
  ∀ url, rt.parseUrl candidate = some url → (Registers rt registered fun r => LoopbackAlike r url) →
    Registers rt registered fun r => SameButPort r url

theorem Registers.imp {registered : List JsString} {P Q : Url → Prop}
    (hPQ : ∀ uri ∈ registered, ∀ url, rt.parseUrl uri = some url → P url → Q url) (h : Registers rt registered P) :
    Registers rt registered Q := by
  obtain ⟨uri, hmem, url, hparse, hP⟩ := h
  exact ⟨uri, hmem, url, hparse, hPQ uri hmem url hparse hP⟩

/-- What the code accepts. -/
theorem redirectUriAllowed_iff {registered : List JsString} {candidate : JsString} {schemes : List JsString}
    (hscheme : SchemeAllowed rt schemes candidate) :
    redirectUriAllowed rt registered candidate schemes = true ↔
      ∃ url, rt.parseUrl candidate = some url ∧
        Registers rt registered fun r => r.href = url.href ∨ LoopbackAlike r url := by
  unfold redirectUriAllowed
  cases hparse : rt.parseUrl candidate with
  | none =>
    constructor
    · intro h
      cases h
    · intro h
      obtain ⟨url, hurl, -⟩ := h
      cases hurl
  | some want =>
    have hallowed : (js "*" ∈ schemes || rt.cases.toLowerCase want.protocol.dropLast ∈ schemes) = true := by
      simpa using hscheme want hparse
    simp only [hallowed, Bool.not_true, Bool.false_eq_true, if_false, List.any_eq_true]
    have hurl : ∀ P : Url → Prop, (∃ url, some want = some url ∧ P url) ↔ P want := by
      intro P
      constructor
      · intro h
        obtain ⟨url, heq, hP⟩ := h
        rwa [Option.some.inj heq]
      · exact fun hP => ⟨want, rfl, hP⟩
    rw [hurl]
    refine exists_congr fun uri => and_congr_right fun _ => ?_
    cases hr : rt.parseUrl uri with
    | none => simp
    | some r =>
      simp only [Bool.or_eq_true, Bool.and_eq_true, decide_eq_true_eq, Option.some.injEq, exists_eq_left']
      refine or_congr_right ?_
      constructor
      · intro h
        obtain ⟨⟨⟨⟨⟨hhost, -⟩, hprotocol⟩, hhostname⟩, hpath⟩, hsearch⟩ := h
        refine ⟨?_, hprotocol, hhostname, hpath, hsearch⟩
        rcases hhost with (hhost | hhost) | hhost
        · exact Or.inl hhost
        · exact Or.inr (Or.inl hhost)
        · exact Or.inr (Or.inr hhost)
      · intro h
        have hboth : (r.hostname = js "127.0.0.1" ∨ r.hostname = js "[::1]") ∨ r.hostname = js "localhost" := by
          rcases h.loopback with hhost | hhost | hhost
          · exact Or.inl (Or.inl hhost)
          · exact Or.inl (Or.inr hhost)
          · exact Or.inr hhost
        have hother := hboth
        rw [h.hostname] at hother
        exact ⟨⟨⟨⟨⟨hboth, hother⟩, h.protocol⟩, h.hostname⟩, h.pathname⟩, h.search⟩

/-- The addresses of a logout are matched in the same way. -/
theorem postLogoutRedirectAllowed_eq (client : Client) (candidate : JsString) (schemes : List JsString) :
    postLogoutRedirectAllowed rt client candidate schemes =
      redirectUriAllowed rt client.postLogoutRedirectUris candidate schemes := by
  unfold postLogoutRedirectAllowed
  by_cases hnone : client.postLogoutRedirectUris = []
  · rw [if_pos hnone, hnone]
    unfold redirectUriAllowed
    split
    · rfl
    · dsimp only
      split <;> rfl
  · rw [if_neg hnone]

/-- Matching is exact just where the components left out make no difference. -/
theorem exactMatching_iff (hfaithful : HrefFaithful rt) {registered : List JsString} {candidate : JsString}
    {schemes : List JsString} (hscheme : SchemeAllowed rt schemes candidate) :
    ExactMatching rt registered candidate (redirectUriAllowed rt registered candidate schemes) ↔
      CredentialsSettled rt registered candidate := by
  have hcode : redirectUriAllowed rt registered candidate schemes = true ↔ _ := redirectUriAllowed_iff hscheme
  constructor
  · intro h url hparse halike
    have haccepted := hcode.mpr ⟨url, hparse, halike.imp fun _ _ _ _ hr => Or.inr hr⟩
    obtain ⟨url', hparse', hsame⟩ := h.exact.mp haccepted
    rw [hparse] at hparse'
    rwa [Option.some.inj hparse']
  · intro hsettled
    -- whatever the code has accepted by, something registered is the same but for the port
    have hsame : redirectUriAllowed rt registered candidate schemes = true →
        ∃ url, rt.parseUrl candidate = some url ∧ Registers rt registered fun r => SameButPort r url := by
      intro haccepted
      obtain ⟨url, hparse, uri, hmem, r, hr, hmatch⟩ := hcode.mp haccepted
      refine ⟨url, hparse, ?_⟩
      rcases hmatch with hhref | halike
      · exact ⟨uri, hmem, r, hr, Or.inl hhref⟩
      · exact hsettled url hparse ⟨uri, hmem, r, hr, halike⟩
    refine ⟨⟨hsame, fun h => ?_⟩, fun haccepted => ?_⟩
    · obtain ⟨url, hparse, hregisters⟩ := h
      refine hcode.mpr ⟨url, hparse, hregisters.imp fun _ _ _ _ hr => ?_⟩
      rcases hr with hhref | hboth
      · exact Or.inl hhref
      · exact Or.inr hboth.1
    · obtain ⟨url, hparse, hregisters⟩ := hsame haccepted
      refine ⟨url, hparse, hregisters.imp fun uri _ r hr hmatch => ?_⟩
      rcases hmatch with hhref | ⟨halike, hcredentials⟩
      · rw [hfaithful uri candidate r url hr hparse hhref]
        exact ⟨⟨rfl, rfl, rfl⟩, rfl, rfl⟩
      · exact ⟨hcredentials, halike.pathname, halike.search⟩

/-- So it is for the redirect URIs of a client, and for those of its logout. -/
theorem redirect_matching (hfaithful : HrefFaithful rt) (client : Client) {candidate : JsString}
    {schemes : List JsString} (hscheme : SchemeAllowed rt schemes candidate) :
    (ExactMatching rt client.redirectUris candidate (redirectUriAllowed rt client.redirectUris candidate schemes) ↔
        CredentialsSettled rt client.redirectUris candidate) ∧
      (ExactMatching rt client.postLogoutRedirectUris candidate
          (postLogoutRedirectAllowed rt client candidate schemes) ↔
        CredentialsSettled rt client.postLogoutRedirectUris candidate) := by
  refine ⟨exactMatching_iff hfaithful hscheme, ?_⟩
  rw [postLogoutRedirectAllowed_eq]
  exact exactMatching_iff hfaithful hscheme

namespace Sample

/-- Three URLs, as the platform parses them. -/
def urls : List (JsString × Url) :=
  [(js "http://localhost/cb", ⟨js "http://localhost/cb", js "http:", [], [], js "localhost", [], js "/cb", [], []⟩),
    (js "http://localhost:9000/cb",
      ⟨js "http://localhost:9000/cb", js "http:", [], [], js "localhost", js "9000", js "/cb", [], []⟩),
    (js "http://eve@localhost:9000/cb#top",
      ⟨js "http://eve@localhost:9000/cb#top", js "http:", js "eve", [], js "localhost", js "9000", js "/cb", [],
        js "#top"⟩)]

def urlRuntime : Runtime := { runtime with parseUrl := fun s => (urls.find? (·.1 = s)).map (·.2) }

theorem urlRuntime_faithful : HrefFaithful urlRuntime := by
  have listed : ∀ {s url}, urlRuntime.parseUrl s = some url → url ∈ urls.map (·.2) := by
    intro s url h
    obtain ⟨p, hp, rfl⟩ := Option.map_eq_some_iff.mp h
    exact List.mem_map_of_mem (List.mem_of_find?_eq_some hp)
  have hdistinct : ∀ url ∈ urls.map (·.2), ∀ url' ∈ urls.map (·.2), url.href = url'.href → url = url' := by
    decide +kernel
  intro s s' url url' h h' hhref
  exact hdistinct url (listed h) url' (listed h') hhref

/-- A native application. -/
def native : Client := { notes with redirectUris := [js "http://localhost/cb"] }

theorem any_schemeAllowed (candidate : JsString) : SchemeAllowed urlRuntime [js "*"] candidate :=
  fun _ _ => Or.inl List.mem_cons_self

/-- Another port is as good as none. -/
theorem native_matching : ExactMatching urlRuntime native.redirectUris (js "http://localhost:9000/cb")
    (redirectUriAllowed urlRuntime native.redirectUris (js "http://localhost:9000/cb") [js "*"]) := by
  have hparse : urlRuntime.parseUrl (js "http://localhost/cb") =
      some ⟨js "http://localhost/cb", js "http:", [], [], js "localhost", [], js "/cb", [], []⟩ := by decide +kernel
  have hport : urlRuntime.parseUrl (js "http://localhost:9000/cb") =
      some ⟨js "http://localhost:9000/cb", js "http:", [], [], js "localhost", js "9000", js "/cb", [], []⟩ := by
    decide +kernel
  refine (redirect_matching urlRuntime_faithful native (any_schemeAllowed _)).1.mpr fun url hurl _ => ?_
  obtain rfl := Option.some.inj (hport.symm.trans hurl)
  exact ⟨_, List.mem_cons_self, _, hparse, Or.inr ⟨⟨Or.inr (Or.inr rfl), rfl, rfl, rfl, rfl⟩, rfl, rfl, rfl⟩⟩

/-- A user name and a fragment are accepted, although nothing registered has them. -/
theorem native_mismatch :
    redirectUriAllowed urlRuntime native.redirectUris (js "http://eve@localhost:9000/cb#top") [js "*"] = true ∧
      ¬ ExactMatching urlRuntime native.redirectUris (js "http://eve@localhost:9000/cb#top")
        (redirectUriAllowed urlRuntime native.redirectUris (js "http://eve@localhost:9000/cb#top") [js "*"]) := by
  have hrun :
    redirectUriAllowed urlRuntime native.redirectUris (js "http://eve@localhost:9000/cb#top") [js "*"] = true ∧
      (urlRuntime.parseUrl (js "http://eve@localhost:9000/cb#top")).map (·.username) = some (js "eve") ∧
      ∀ uri ∈ native.redirectUris, (urlRuntime.parseUrl uri).map (·.username) = some [] := by
    decide +kernel
  refine ⟨hrun.1, fun hexact => ?_⟩
  obtain ⟨url, hurl, uri, hmem, r, hr, hcredentials, -⟩ := hexact.agrees hrun.1
  have huser := hrun.2.1
  have hplain := hrun.2.2 uri hmem
  rw [hurl] at huser
  rw [hr] at hplain
  have hplain : r.username = [] := Option.some.inj hplain
  have huser : url.username = js "eve" := Option.some.inj huser
  have hsame := hcredentials.username
  rw [hplain, huser] at hsame
  cases hsame

end Sample

end Sag
