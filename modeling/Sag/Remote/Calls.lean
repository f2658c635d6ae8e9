import Sag.Remote.Clients
import Sag.Remote.Exchange

/-!
# Calls of a process

The calls that read documents of other servers and records of clients, as one system over the caches of
a process: any number of them at once, interleaved wherever they await.

`remoteGuard` says what a call may do to the outside and to the caches, after what it has itself seen. A
call fetches nothing but the document it is for, asks the store for no record but that of its client, and
writes nothing to a cache but what it has fetched (`MayKeep`).
-/

namespace Sag

open Resumable

structure RemoteConfig where
  devMode : Bool
  clockSkewSeconds : Nat
  cimd : CimdConfig
  dns : DnsConfig
  clients : ClientsConfig

inductive RemoteCall where
  | fetchJwks (uri : JsString)
  | upstreamMetadata (u : RemoteUpstream)
  | exchangeCode (u : RemoteUpstream) (expected : Expected)
  | resolveCimd (clientId : JsString)
  | resolveClient (clientId : JsString)
  | mailProviderFor (domain : JsString)
  | microsoftConsumerMx (domain : Option JsString)

inductive RemoteReply where
  | jwks (jwks : Json)
  | metadata (metadata : Metadata)
  | exchanged (exchange : Exchange)
  | client (client : Option CimdClient)
  | resolved (client : Option ResolvedClient)
  | provider (provider : Option MailProvider)
  | consumerMx (verdict : Bool)

/-- The upstream whose metadata a call is after. -/
def RemoteCall.upstream? : RemoteCall → Option RemoteUpstream
  | .upstreamMetadata u | .exchangeCode u _ => some u
  | _ => none

variable (rt : Runtime) (config : RemoteConfig)

def runRemote : RemoteCall → R RemoteReply
  | .fetchJwks uri => .jwks <$> fetchJwks rt config.devMode uri
  | .upstreamMetadata u => .metadata <$> upstreamMetadata rt config.devMode u
  | .exchangeCode u expected => .exchanged <$> exchangeCode rt config.devMode config.clockSkewSeconds u expected
  | .resolveCimd clientId => .client <$> resolveCimd rt config.cimd config.dns config.devMode clientId
  | .resolveClient clientId =>
    .resolved <$> resolveClient rt config.clients config.cimd config.dns config.devMode clientId
  | .mailProviderFor domain => .provider <$> mailProviderFor rt config.dns domain
  | .microsoftConsumerMx domain => .consumerMx <$> microsoftConsumerMx rt config.dns domain

/-- Nothing that these calls are given has to come from an earlier one. -/
@[reducible] def calls : System remote where
  Req := RemoteCall
  Out := RemoteReply
  Tok := Empty
  prog := runRemote rt config
  presents := fun _ _ => False
  releases := fun _ _ => False

/-! ## What a call may do -/

/-- What a call may ask of other servers. -/
def MayFetch (C : Rely remote) : RemoteCall → RemoteRequest → Prop
  | .fetchJwks uri, .get url => ∃ keys, jwksUrl rt config.devMode uri = .ok keys ∧ url = keys.href
  | .upstreamMetadata u, .get url => DiscoversAt rt config.devMode u url
  | .exchangeCode u _, .get url =>
    DiscoversAt rt config.devMode u url ∨ ∃ metadata keys, MetadataGiven rt config.devMode C u metadata ∧
      jwksUrl rt config.devMode metadata.jwksUri = .ok keys ∧ url = keys.href
  | .exchangeCode u expected, .post url params =>
    ∃ metadata, MetadataGiven rt config.devMode C u metadata ∧ url = metadata.tokenEndpoint ∧
      params = exchangeParams u expected
  | .resolveCimd clientId, .get url | .resolveClient clientId, .get url =>
    url = clientId ∧ ∃ document, documentUrl rt config.cimd config.devMode clientId = .ok (some document) ∧
      PublicTarget rt C config.dns config.devMode document
  | _, _ => False

/-- What a call may ask of a store of clients. -/
def MayAsk (call : RemoteCall) (o : RemoteOp) : Prop :=
  ∃ clientId store, call = .resolveClient clientId ∧ config.clients.store = some store ∧
    AsksFor rt store.backend clientId o

/-- What a call may keep at the instant `t`, after the events `past` of its own. -/
def MayKeep (C : Rely remote) (call : RemoteCall) (past : List (Event remote)) (t : Nat) :
    (c : CacheId) → JsString → Dated c.Value → Prop
  | .jwks, key, entry => LoadedJwks rt past key entry
  | .metadata, key, entry =>
    ∃ u, call.upstream? = some u ∧ DiscoversAt rt config.devMode u key ∧
      DiscoveredMetadata rt config.devMode C u key entry.value ∧ entry.expiresAt = t + METADATA_TTL_SECONDS
  | .cimd, key, entry =>
    ∃ document, documentUrl rt config.cimd config.devMode key = .ok (some document) ∧
      Described rt C config.cimd key document entry.value ∧ entry.expiresAt = t + config.cimd.cacheTtlSeconds
  | .mail, key, entry =>
    ∃ ttl, MailAnswer rt C config.dns key entry.value ttl ∧ entry.expiresAt = t + ttl
  | .clients, key, entry =>
    ∃ store, config.clients.store = some store ∧ store.cacheTtlSeconds ≠ 0 ∧
      RecordRead rt C store.backend key entry.value ∧
        entry.expiresAt = t + recordTtl store.cacheTtlSeconds entry.value

def remoteGuard (call : RemoteCall) (C : Rely remote) (past : List (Event remote)) (t : Nat) : RemoteOp → Prop
  | .fetch (.get url) => MayFetch rt config C call (.get url)
  | .fetch (.post url params) => MayFetch rt config C call (.post url params)
  | .fetch (.signed url headers) => MayAsk rt config call (.fetch (.signed url headers))
  | .readRecord key => MayAsk rt config call (.readRecord key)
  | .remember c key entry => MayKeep rt config C call past t c key entry
  | _ => True

/-- What a call for a client does, whatever it has done before: its look-ups go on at the same time, so neither may
depend on what the other has seen. -/
def Calm (call : RemoteCall) (clientId : JsString) (C : Rely remote) (t : Nat) (o : RemoteOp) : Prop :=
  o.quiet = true ∨ MayAsk rt config call o ∨
    (o = .fetch (.get clientId) ∧ MayFetch rt config C call (.get clientId)) ∨
      ∃ c entry, o = .remember c clientId entry ∧ MayKeep rt config C call [] t c clientId entry ∧
        (c = .cimd ∨ c = .clients)

/-- What a call answers, and where that comes from. -/
def remotePromise : RemoteCall → Rely remote → RemoteReply → Prop
  | .fetchJwks uri, C, .jwks jwks => JwksGiven rt config.devMode C uri jwks
  | .upstreamMetadata u, C, .metadata metadata => MetadataGiven rt config.devMode C u metadata
  | .exchangeCode u expected, C, .exchanged exchange =>
    Exchanged rt config.devMode config.clockSkewSeconds C u expected exchange
  | .resolveCimd clientId, C, .client found =>
    ∀ client, found = some client → ∃ document,
      documentUrl rt config.cimd config.devMode clientId = .ok (some document) ∧
        PublicTarget rt C config.dns config.devMode document ∧
          (FromCache C .cimd clientId client ∨ Described rt C config.cimd clientId document client)
  | .resolveClient clientId, C, .resolved found =>
    Resolved rt C config.clients config.cimd config.dns config.devMode clientId found
  | .mailProviderFor domain, C, .provider result =>
    ((domain = [] ∨ config.dns.hint = .off ∨ validMailDomain domain = false) ∧ result = none) ∨
      FromCache C .mail domain result ∨ ∃ ttl, MailAnswer rt C config.dns domain result ttl
  | .microsoftConsumerMx _, _, .consumerMx _ => True
  | _, _, _ => False

variable {rt config}

theorem remoteGuard_quiet {call : RemoteCall} {C : Rely remote} {past : List (Event remote)} {t : Nat} {o : RemoteOp}
    (ho : o.quiet = true) : remoteGuard rt config call C past t o := by
  cases o with
  | fetch r =>
    cases r with
    | dns name type => exact trivial
    | _ => cases ho
  | remember c key entry => cases ho
  | readRecord key => cases ho
  | _ => exact trivial

theorem remoteGuard_asking {call : RemoteCall} {C : Rely remote} {past : List (Event remote)} {t : Nat} {o : RemoteOp}
    (ho : MayAsk rt config call o) : remoteGuard rt config call C past t o := by
  have ⟨clientId, store, hcall, hstore, hasks⟩ := ho
  cases o with
  | readRecord key => exact ho
  | fetch r =>
    cases r with
    | signed url headers => exact ho
    | _ => cases hasks
  | _ => cases hasks

theorem remoteGuard_calm {call : RemoteCall} {clientId : JsString} {C : Rely remote} {past : List (Event remote)}
    {t : Nat} {o : RemoteOp} (ho : Calm rt config call clientId C t o) : remoteGuard rt config call C past t o := by
  rcases ho with hquiet | hask | ⟨rfl, hfetch⟩ | ⟨c, entry, rfl, hkept, rfl | rfl⟩
  · exact remoteGuard_quiet hquiet
  · exact remoteGuard_asking hask
  · exact hfetch
  -- these two caches ask for nothing of the past
  · exact hkept
  · exact hkept

/-- Every call keeps its guard, whatever the others do. -/
theorem calls_meet : (calls rt config).Meets (remoteGuard rt config) (remotePromise rt config) := by
  intro call C
  have hC : Quiet ⟨C, remoteGuard rt config call C⟩ := fun _ _ _ ho => remoteGuard_quiet ho
  cases call with
  | fetchJwks uri =>
    refine Prog.sat_bind.mpr ((fetchJwks_sat hC (fun keys hkeys _ _ => ⟨keys, hkeys, rfl⟩)
      fun _ _ _ _ _ hloaded => hloaded).mono (fun _ _ _ => trivial) fun _ jwks hjwks => hjwks)
  | upstreamMetadata u =>
    refine Prog.sat_bind.mpr ((upstreamMetadata_sat hC (fun url hurl _ _ => hurl)
      fun url metadata hurl hmetadata _ t => ⟨u, rfl, hurl, hmetadata, rfl⟩).mono (fun _ _ _ => trivial)
        fun _ metadata hmetadata => hmetadata)
  | exchangeCode u expected =>
    refine Prog.sat_bind.mpr ((exchangeCode_sat hC (fun url hurl _ _ => Or.inl hurl)
      (fun url metadata hurl hmetadata _ t => ⟨u, rfl, hurl, hmetadata, rfl⟩)
      (fun metadata hmetadata _ _ => ⟨metadata, hmetadata, rfl, rfl⟩)
      (fun metadata keys hmetadata hkeys _ _ => Or.inr ⟨metadata, keys, hmetadata, hkeys, rfl⟩)
      fun _ _ _ _ hloaded => hloaded).mono (fun _ _ _ => trivial) fun _ exchange hexchange => hexchange)
  | resolveCimd clientId =>
    have hcalm : ∀ h t o, Calm rt config (.resolveCimd clientId) clientId C t o →
        remoteGuard rt config (.resolveCimd clientId) C h t o := fun _ _ _ ho => remoteGuard_calm ho
    refine Prog.Sat.relax hcalm (Prog.sat_bind.mpr ?_)
    exact (resolveCimd_always (fun _ _ _ ho => Or.inl ho) (fun _ _ _ _ ho => ho)
      (fun url hurl hpublic _ _ => Or.inr (Or.inr (Or.inl ⟨rfl, rfl, url, hurl, hpublic⟩)))
      (fun url client hurl hdescribed _ t =>
        Or.inr (Or.inr (Or.inr ⟨.cimd, _, rfl, ⟨url, hurl, hdescribed, rfl⟩, Or.inl rfl⟩))) _).mono
        (fun _ _ _ => trivial) fun _ found hfound => hfound
  | resolveClient clientId =>
    have hcalm : ∀ h t o, Calm rt config (.resolveClient clientId) clientId C t o →
        remoteGuard rt config (.resolveClient clientId) C h t o := fun _ _ _ ho => remoteGuard_calm ho
    refine Prog.Sat.relax hcalm (Prog.sat_bind.mpr ?_)
    exact (resolveClient_always (fun _ _ _ ho => Or.inl ho) (fun _ _ _ _ ho => ho)
      (fun store hstore o hasks _ _ => Or.inr (Or.inl ⟨clientId, store, rfl, hstore, hasks⟩))
      (fun store hstore hlasting record hread _ t =>
        Or.inr (Or.inr (Or.inr ⟨.clients, _, rfl, ⟨store, hstore, hlasting, hread, rfl⟩, Or.inr rfl⟩)))
      (fun url hurl hpublic _ _ => Or.inr (Or.inr (Or.inl ⟨rfl, rfl, url, hurl, hpublic⟩)))
      (fun url client hurl hdescribed _ t =>
        Or.inr (Or.inr (Or.inr ⟨.cimd, _, rfl, ⟨url, hurl, hdescribed, rfl⟩, Or.inl rfl⟩))) _).mono
        (fun _ _ _ => trivial) fun _ found hfound => hfound
  | mailProviderFor domain =>
    refine Prog.sat_bind.mpr ((mailProviderFor_always (E := fun _ => True) hC
      (fun result ttl hanswer _ t => ⟨ttl, hanswer, rfl⟩) _).mono (fun _ _ _ => trivial)
        fun _ result hresult => hresult)
  | microsoftConsumerMx domain =>
    exact Prog.sat_bind.mpr ((microsoftConsumerMx_always (E := fun _ => True) hC domain _).mono (fun _ _ _ => trivial)
      fun _ _ _ => trivial)

end Sag
