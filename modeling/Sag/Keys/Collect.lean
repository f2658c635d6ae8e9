import Mathlib.Data.List.Forall2
import Sag.Keys.Peers
import Sag.Lib.System

/-!
# Runs of collecting

What `step` can do is said once (`Happens`), and what holds of every state this process can
reach is derived from that: whatever holds of all keys that are taken over from a document
holds of all that are kept (`Kept`); and two resolutions of one peer never overlap, so the
later one finds what the earlier one has left behind, in the cache or as a back-off
(`Orderly`).
-/

namespace Sag

open Resumable (forall_mem_replace)

variable {config : PeerJwksConfig}

/-! ## What one event does -/

namespace Peers

/-- The state in which the resolution after `pre` is `r`. -/
def replace (s : Peers) (pre : List Resolution) (r : Resolution) (post : List Resolution) : Peers :=
  { s with resolutions := pre ++ r :: post }

/-- The answer of a peer, to this instance or to another one. -/
def heard : PeerEvent → Option (Except JsString Json)
  | .fetched _ res | .elsewhere _ res _ => some res
  | _ => none

inductive Happens (config : PeerJwksConfig) (s : Peers) (e : PeerEvent) : Peers → Prop where
  | collect :
      Happens config s e
        { (s.keysForAll config.urls).1 with
          collections := (s.keysForAll config.urls).1.collections ++ [⟨(s.keysForAll config.urls).2, none⟩] }
  | read {pre r post} {pick : Option Nat} {now : Nat} (found : s.resolutions = pre ++ r :: post)
      (stage : r.stage = .reading) (clock : s.clock ≤ now) :
      Happens config s e
        ({ s with clock := now }.replace pre (s.resume config { r with cached := s.cachedFor config r pick, now }) post)
  | fetched {pre r post res keys} (found : s.resolutions = pre ++ r :: post) (stage : r.stage = .fetching)
      (heard : heard e = some res) (taken : fetchPeerJwks res = .ok keys) :
      Happens config s e
        (({ s with retryAfter := s.retryAfter.delete r.url }.put config r.url ⟨keys, r.now⟩).replace pre
          { r with stage := .storing, attempt := .succeeded, keys } post)
  | refused {pre r post} (found : s.resolutions = pre ++ r :: post) (stage : r.stage = .fetching) :
      Happens config s e
        ({ s with
            retryAfter :=
              if config.retryAfterSeconds > 0 then s.retryAfter.insert r.url (r.now + config.retryAfterSeconds)
              else s.retryAfter }.replace pre
          { r with stage := .settled, attempt := .failed, keys := graceKeys config r.cached r.now } post)
  | stored {pre r post} (found : s.resolutions = pre ++ r :: post) (stage : r.stage = .storing) :
      Happens config s e (s.replace pre { r with stage := .settled } post)
  | release {pre r post} (found : s.resolutions = pre ++ r :: post) (stage : r.stage = .settled) :
      Happens config s e
        ({ s with inFlight := s.inFlight.delete r.url }.replace pre { r with stage := .released } post)
  | finish {pre c post perPeer} (found : s.collections = pre ++ c :: post)
      (released : s.perPeer c.joined = some perPeer) :
      Happens config s e
        { s with collections := pre ++ { c with result := some (collected perPeer) } :: post }
  | elsewhere {url res keys fetchedAt} (backend : config.cacheBackend ≠ .memory)
      (heard : heard e = some res) (taken : fetchPeerJwks res = .ok keys) :
      Happens config s e { s with shared := s.shared ++ [(url, ⟨keys, fetchedAt⟩)] }

/-- What stands at a place, and what stands before and after it. -/
theorem exists_split {α : Type} {l : List α} {i : Nat} {x : α} (h : l[i]? = some x) :
    ∃ pre post, l = pre ++ x :: post ∧ ∀ y, l.set i y = pre ++ y :: post := by
  obtain ⟨hi, hx⟩ := List.getElem?_eq_some_iff.mp h
  refine ⟨l.take i, l.drop (i + 1), ?_, fun y => List.set_eq_take_append_cons_drop.trans (if_pos hi)⟩
  rw [← hx, List.getElem_cons_drop, List.take_append_drop]

theorem happens_of_step {s s' : Peers} {e : PeerEvent} (h : s.step config e = some s') : Happens config s e s' := by
  cases e with
  | collect =>
    obtain rfl := Option.some.inj h
    exact .collect
  | read i pick now =>
    simp only [step] at h
    split at h
    · next r hr =>
      split at h
      · next hcan =>
        obtain ⟨pre, post, hfound, hset⟩ := exists_split hr
        rw [← Option.some.inj h, set, hset]
        exact .read hfound hcan.1 hcan.2
      · cases h
    · cases h
  | fetched i res =>
    simp only [step] at h
    split at h
    · next r hr =>
      split at h
      · next hstage =>
        obtain ⟨pre, post, hfound, hset⟩ := exists_split hr
        rw [← Option.some.inj h]
        unfold answered
        split
        · next keys htaken =>
          rw [set, put_resolutions, hset]
          exact .fetched hfound hstage rfl htaken
        · rw [set, hset]
          exact .refused hfound hstage
      · cases h
    · cases h
  | stored i =>
    simp only [step] at h
    split at h
    · next r hr =>
      split at h
      · next hstage =>
        obtain ⟨pre, post, hfound, hset⟩ := exists_split hr
        rw [← Option.some.inj h, set, hset]
        exact .stored hfound hstage
      · cases h
    · cases h
  | release i =>
    simp only [step] at h
    split at h
    · next r hr =>
      split at h
      · next hstage =>
        obtain ⟨pre, post, hfound, hset⟩ := exists_split hr
        rw [← Option.some.inj h, set, hset]
        exact .release hfound hstage
      · cases h
    · cases h
  | finish c =>
    simp only [step] at h
    split at h
    · next collection hc =>
      split at h
      · next perPeer hreleased =>
        obtain ⟨pre, post, hfound, hset⟩ := exists_split hc
        rw [← Option.some.inj h, hset]
        exact .finish hfound hreleased
      · cases h
    · cases h
  | elsewhere url res fetchedAt =>
    simp only [step] at h
    split at h
    · cases h
    · cases h
    · next keys htaken hmemory =>
      rw [← Option.some.inj h]
      exact .elsewhere hmemory rfl htaken

/-! ## What is kept of a document -/

/-- A property that all keys have which this process holds. -/
structure Kept (p : Json → Prop) (s : Peers) : Prop where
  entries : ∀ url entry, s.entries.get? url = some entry → ∀ key ∈ entry.keys, p key
  shared : ∀ e ∈ s.shared, ∀ key ∈ e.2.keys, p key
  cached : ∀ r ∈ s.resolutions, ∀ entry, r.cached = some entry → ∀ key ∈ entry.keys, p key
  keys : ∀ r ∈ s.resolutions, ∀ key ∈ r.keys, p key
  results : ∀ c ∈ s.collections, ∀ result, c.result = some result → ∀ key ∈ result.keys, p key

variable {p : Json → Prop}

theorem Kept.init : Kept p init :=
  ⟨nofun, nofun, nofun, nofun, nofun⟩

/-- A resolution that begins finds what the cache holds. -/
theorem Kept.begin {s : Peers} (h : Kept p s) (url : JsString) : Kept p (s.begin url) := by
  refine ⟨h.entries, h.shared, fun r hr => ?_, fun r hr => ?_, h.results⟩
  · rcases List.mem_append.mp hr with hr | hr
    · exact h.cached r hr
    · rw [List.mem_singleton.mp hr]
      exact fun entry hentry => h.entries url entry hentry
  · rcases List.mem_append.mp hr with hr | hr
    · exact h.keys r hr
    · rw [List.mem_singleton.mp hr]
      exact nofun

/-- Whatever beginning a resolution preserves, `collect` preserves. -/
theorem keysForAll_induction {q : Peers → Prop}
    (hbegin : ∀ s url, s.inFlight.get? url = none → q s → q (s.begin url)) :
    ∀ {urls : List JsString} {s : Peers}, q s → q (s.keysForAll urls).1 := by
  intro urls
  induction urls with
  | nil => exact fun h => h
  | cons url urls ih =>
    intro s h
    show q ((s.keysFor url).1.keysForAll urls).1
    refine ih ?_
    unfold keysFor
    cases hflight : s.inFlight.get? url with
    | none => exact hbegin s url hflight h
    | some pending => exact h

theorem keysForAll_collections {urls : List JsString} {s : Peers} :
    (s.keysForAll urls).1.collections = s.collections :=
  keysForAll_induction (q := fun s' => s'.collections = s.collections) (fun _ _ _ h => h) rfl

theorem Kept.graceKeys {s : Peers} (h : Kept p s) {r : Resolution} (hr : r ∈ s.resolutions) :
    ∀ key ∈ graceKeys config r.cached r.now, p key := by
  unfold Sag.graceKeys
  split
  · next entry hentry =>
    split
    · exact h.cached r hr entry hentry
    · exact nofun
  · exact nofun

/-- The resolution at a place is released, and has returned the keys. -/
def Returned (s : Peers) (i : Nat) (keys : List Json) : Prop :=
  ∃ r, s.resolutions[i]? = some r ∧ r.stage = .released ∧ r.keys = keys

theorem returned_of_perPeer {s : Peers} {joined : List Nat} :
    ∀ {perPeer : List (List Json)}, s.perPeer joined = some perPeer → List.Forall₂ s.Returned joined perPeer := by
  unfold perPeer
  induction joined with
  | nil =>
    intro perPeer h
    rw [← Option.some.inj h]
    exact .nil
  | cons i joined ih =>
    intro perPeer h
    rw [List.mapM_cons] at h
    obtain ⟨keys, hkeys, h⟩ := Option.bind_eq_some_iff.mp h
    obtain ⟨rest, hrest, h⟩ := Option.bind_eq_some_iff.mp h
    rw [← Option.some.inj h]
    obtain ⟨r, hr, hrkeys⟩ := Option.map_eq_some_iff.mp hkeys
    obtain ⟨hfound, hstage⟩ := Option.filter_eq_some_iff.mp hr
    exact .cons ⟨r, hfound, of_decide_eq_true hstage, hrkeys⟩ (ih hrest)

/-- What is collected is what the resolutions return. -/
theorem mem_collected {s : Peers} {joined : List Nat} {perPeer : List (List Json)}
    (h : s.perPeer joined = some perPeer) {key : Json} (hkey : key ∈ (collected perPeer).keys) :
    ∃ r ∈ s.resolutions, key ∈ r.keys := by
  obtain ⟨keys, hkeys, hin⟩ := List.mem_flatten.mp hkey
  have hall := returned_of_perPeer h
  obtain ⟨i, -, r, hr, -, heq⟩ : ∃ i ∈ joined, s.Returned i keys := by
    clear h hkey
    induction hall with
    | nil => cases hkeys
    | cons hhead _ ih =>
      rcases List.mem_cons.mp hkeys with heq | hrest
      · rw [heq]
        exact ⟨_, List.mem_cons_self, hhead⟩
      · obtain ⟨i, hi, hret⟩ := ih hrest
        exact ⟨i, List.mem_cons_of_mem _ hi, hret⟩
  exact ⟨r, List.mem_of_getElem? hr, heq ▸ hin⟩

/-- A resolution may be replaced by one whose keys have the property too. -/
theorem Kept.replace {s s' : Peers} {pre post : List Resolution} {r r' : Resolution} (h : Kept p s)
    (hfound : s.resolutions = pre ++ r :: post) (hentries : s'.entries = s.entries) (hshared : s'.shared = s.shared)
    (hcollections : s'.collections = s.collections)
    (hcached : ∀ entry, r'.cached = some entry → ∀ key ∈ entry.keys, p key) (hkeys : ∀ key ∈ r'.keys, p key) :
    Kept p (s'.replace pre r' post) := by
  have hcached₀ := h.cached
  have hkeys₀ := h.keys
  rw [hfound] at hcached₀ hkeys₀
  refine ⟨?_, ?_, ?_, ?_, ?_⟩
  · show ∀ url entry, s'.entries.get? url = some entry → _
    rw [hentries]
    exact h.entries
  · show ∀ e ∈ s'.shared, _
    rw [hshared]
    exact h.shared
  · exact forall_mem_replace (fun _ => hcached) (fun _ hx => hx) hcached₀
  · exact forall_mem_replace (fun _ => hkeys) (fun _ hx => hx) hkeys₀
  · show ∀ c ∈ s'.collections, _
    rw [hcollections]
    exact h.results

/-- One event keeps the property, if what it takes over has it. -/
theorem Kept.step {s s' : Peers} {e : PeerEvent} (h : Kept p s)
    (htold : ∀ res keys, heard e = some res → fetchPeerJwks res = .ok keys → ∀ key ∈ keys, p key)
    (hstep : Happens config s e s') : Kept p s' := by
  cases hstep with
  | collect =>
    have hbegun : Kept p (s.keysForAll config.urls).1 := keysForAll_induction (fun _ url _ hk => hk.begin url) h
    refine ⟨hbegun.entries, hbegun.shared, hbegun.cached, hbegun.keys, fun c hc => ?_⟩
    rcases List.mem_append.mp hc with hc | hc
    · exact hbegun.results c hc
    · rw [List.mem_singleton.mp hc]
      exact fun result e => by cases e
  | @read pre r post pick now hfound _ _ =>
    have hr : r ∈ s.resolutions := by rw [hfound]; exact List.mem_append_right _ List.mem_cons_self
    -- what the cache answers has been kept before
    have hcached : ∀ entry, s.cachedFor config r pick = some entry → ∀ key ∈ entry.keys, p key := by
      have hshared : ∀ entry, s.pickShared r.url pick = some entry → ∀ key ∈ entry.keys, p key := by
        intro entry hentry
        unfold pickShared at hentry
        obtain ⟨n, -, hn⟩ := Option.bind_eq_some_iff.mp hentry
        obtain ⟨e', he', rfl⟩ := Option.map_eq_some_iff.mp hn
        exact h.shared e' (List.mem_of_mem_filter (List.mem_of_getElem? he'))
      unfold cachedFor
      cases config.cacheBackend
      · exact h.cached r hr
      · exact hshared
      · exact hshared
    have hgrace : ∀ key ∈ Sag.graceKeys config (s.cachedFor config r pick) now, p key := by
      unfold Sag.graceKeys
      split
      · next entry hentry =>
        split
        · exact hcached entry hentry
        · exact fun key hkey => absurd hkey List.not_mem_nil
      · exact fun key hkey => absurd hkey List.not_mem_nil
    unfold resume
    split
    · refine h.replace hfound rfl rfl rfl hcached ?_
      show ∀ key ∈ ((s.cachedFor config r pick).map (·.keys)).getD [], p key
      cases hc : s.cachedFor config r pick with
      | none => exact fun key hkey => absurd hkey List.not_mem_nil
      | some entry => exact hcached entry hc
    · split
      · exact h.replace hfound rfl rfl rfl hcached hgrace
      · exact h.replace hfound rfl rfl rfl hcached (h.keys r hr)
  | @fetched pre r post res keys hfound _ hheard htaken =>
    have hr : r ∈ s.resolutions := by rw [hfound]; exact List.mem_append_right _ List.mem_cons_self
    have hkeys := htold res keys hheard htaken
    -- the entry is written before anybody reads it
    have hput : Kept p ({ s with retryAfter := s.retryAfter.delete r.url }.put config r.url ⟨keys, r.now⟩) := by
      have hmany : ∀ e ∈ s.shared ++ [(r.url, (⟨keys, r.now⟩ : CacheEntry))], ∀ key ∈ e.2.keys, p key := by
        intro e he
        rcases List.mem_append.mp he with he | he
        · exact h.shared e he
        · rw [List.mem_singleton.mp he]
          exact hkeys
      unfold put
      cases config.cacheBackend
      · refine ⟨fun url entry hentry => ?_, h.shared, h.cached, h.keys, h.results⟩
        have hentry : (s.entries.insert r.url ⟨keys, r.now⟩).get? url = some entry := hentry
        rw [InsertionMap.get?_insert] at hentry
        split at hentry
        · rw [← Option.some.inj hentry]
          exact hkeys
        · exact h.entries url entry hentry
      · exact ⟨h.entries, hmany, h.cached, h.keys, h.results⟩
      · exact ⟨h.entries, hmany, h.cached, h.keys, h.results⟩
    exact hput.replace ((put_resolutions ..).trans hfound) rfl rfl rfl (h.cached r hr) hkeys
  | @refused pre r post hfound _ =>
    have hr : r ∈ s.resolutions := by rw [hfound]; exact List.mem_append_right _ List.mem_cons_self
    exact h.replace hfound rfl rfl rfl (h.cached r hr) (h.graceKeys hr)
  | @stored pre r post hfound _ =>
    have hr : r ∈ s.resolutions := by rw [hfound]; exact List.mem_append_right _ List.mem_cons_self
    exact h.replace hfound rfl rfl rfl (h.cached r hr) (h.keys r hr)
  | @release pre r post hfound _ =>
    have hr : r ∈ s.resolutions := by rw [hfound]; exact List.mem_append_right _ List.mem_cons_self
    exact h.replace hfound rfl rfl rfl (h.cached r hr) (h.keys r hr)
  | @finish pre c post perPeer hfound hreleased =>
    refine ⟨h.entries, h.shared, h.cached, h.keys, ?_⟩
    have hresults := h.results
    rw [hfound] at hresults
    refine forall_mem_replace (fun _ => ?_) (fun _ hx => hx) hresults
    intro result hresult key hkey
    rw [← Option.some.inj hresult] at hkey
    obtain ⟨r, hr, hin⟩ := mem_collected hreleased hkey
    exact h.keys r hr key hin
  | @elsewhere url res keys fetchedAt _ hheard htaken =>
    refine ⟨h.entries, fun e' he' => ?_, h.cached, h.keys, h.results⟩
    rcases List.mem_append.mp he' with he' | he'
    · exact h.shared e' he'
    · rw [List.mem_singleton.mp he']
      exact htold res keys hheard htaken

/-- Whatever every event preserves holds after a run. -/
theorem run_induction {q : Peers → Prop} :
    ∀ {events : List PeerEvent} {s s' : Peers},
      (∀ e ∈ events, ∀ s₁ s₂, Happens config s₁ e s₂ → q s₁ → q s₂) → s.run config events = some s' → q s → q s' := by
  intro events
  induction events with
  | nil =>
    intro s s' _ hrun h
    rw [← Option.some.inj hrun]
    exact h
  | cons e events ih =>
    intro s s' hsteps hrun h
    rw [run, List.foldlM_cons] at hrun
    obtain ⟨s₁, hstep, hrest⟩ := Option.bind_eq_some_iff.mp hrun
    exact ih (fun e' he' => hsteps e' (List.mem_cons_of_mem _ he')) hrest
      (hsteps e List.mem_cons_self s s₁ (happens_of_step hstep) h)

/-- Whatever holds of all keys of all documents holds of all keys that are collected. -/
theorem Kept.run {s : Peers} {events : List PeerEvent}
    (htold : ∀ e ∈ events, ∀ res keys, heard e = some res → fetchPeerJwks res = .ok keys → ∀ key ∈ keys, p key)
    (hrun : Peers.init.run config events = some s) : Kept p s :=
  run_induction (fun e he _ _ hstep h => h.step (htold e he) hstep) hrun Kept.init

end Peers

/-! ## One resolution after the other -/

namespace Peers

/-- The resolution at a place is one of the URL. -/
def Names (s : Peers) (url : JsString) (i : Nat) : Prop := ∃ r, s.resolutions[i]? = some r ∧ r.url = url

end Peers

/-- What a resolution finds of an earlier one of its peer. -/
structure Follows (config : PeerJwksConfig) (r r' : Resolution) : Prop where
  released : r.stage = .released
  later : r'.stage ≠ .reading → r.now ≤ r'.now
  finds : r.attempt = .succeeded → ∃ entry, r'.cached = some entry ∧ r.now ≤ entry.fetchedAt ∧ entry.keys ≠ []
  waits : r.attempt = .failed → r'.attempt ≠ .unmade → r.now + config.retryAfterSeconds ≤ r'.now

/-- What a resolution leaves in the maps that are shared. -/
structure Leaves (config : PeerJwksConfig) (s : Peers) (r : Resolution) : Prop where
  clock : r.now ≤ s.clock
  unmade : r.stage = .reading → r.attempt = .unmade
  waiting : r.stage = .fetching → r.attempt = .waiting
  kept : r.attempt = .succeeded → ∃ entry, s.entries.get? r.url = some entry ∧ r.now ≤ entry.fetchedAt
  held : r.attempt = .failed →
    (∃ t, s.retryAfter.get? r.url = some t ∧ r.now + config.retryAfterSeconds ≤ t) ∨
      r.now + config.retryAfterSeconds ≤ s.clock
  returns : r.stage ≠ .reading → r.stage ≠ .fetching → ∀ entry, r.cached = some entry → entry.keys ≠ [] →
    r.now < entry.fetchedAt + config.staleTtlSeconds → r.keys ≠ []

/-- How an attempt has ended. -/
def Attempt.outcome : Attempt → Option Bool
  | .succeeded => some true
  | .failed => some false
  | _ => none

/-- How the attempts at one peer have ended, one after the other. -/
def outcomes (url : JsString) (resolutions : List Resolution) : List Bool :=
  resolutions.filterMap fun r => if r.url = url then r.attempt.outcome else none

/-- What a collection answers is made of what each peer contributes. -/
structure Collects (config : PeerJwksConfig) (s : Peers) (c : Collection) : Prop where
  joined : List.Forall₂ s.Names config.urls c.joined
  result : ∀ result, c.result = some result →
    ∃ perPeer, List.Forall₂ s.Returned c.joined perPeer ∧ result = collected perPeer

/-- What holds of every state of a process that keeps its own cache. -/
structure Orderly (config : PeerJwksConfig) (s : Peers) : Prop where
  follows : s.resolutions.Pairwise fun r r' => r.url = r'.url → Follows config r r'
  leaves : ∀ r ∈ s.resolutions, Leaves config s r
  flying : ∀ r ∈ s.resolutions, r.stage ≠ .released → s.inFlight.get? r.url ≠ none
  joins : ∀ url i, s.inFlight.get? url = some i → s.Names url i
  entries : ∀ url entry, s.entries.get? url = some entry → entry.keys ≠ []
  cleared : ∀ url, (outcomes url s.resolutions).getLast? = some true → s.retryAfter.get? url = none
  collections : ∀ c ∈ s.collections, Collects config s c

namespace Orderly

open Peers

theorem init : Orderly config Peers.init :=
  ⟨.nil, nofun, nofun, nofun, nofun, nofun, nofun⟩

/-- Where there is none in flight, all that have been are released. -/
theorem released_of_free {s : Peers} (h : Orderly config s) {url : JsString} (hfree : s.inFlight.get? url = none) :
    ∀ r ∈ s.resolutions, r.url = url → r.stage = .released := by
  intro r hr hurl
  by_cases hstage : r.stage = .released
  · exact hstage
  · exact absurd (hurl ▸ hfree) (h.flying r hr hstage)

/-- What answers a collection goes on answering it. -/
theorem grow_collects {s s' : Peers} {c : Collection} (h : Collects config s c)
    (hnames : ∀ url i, s.Names url i → s'.Names url i)
    (hreturned : ∀ i keys, s.Returned i keys → s'.Returned i keys) : Collects config s' c := by
  refine ⟨h.joined.imp fun url i => hnames url i, fun result hresult => ?_⟩
  obtain ⟨perPeer, hall, heq⟩ := h.result result hresult
  exact ⟨perPeer, hall.imp fun i keys => hreturned i keys, heq⟩

theorem begin {s : Peers} (h : Orderly config s) {url : JsString} (hfree : s.inFlight.get? url = none) :
    Orderly config (s.begin url) := by
  have hsame : ∀ {i : Nat} {r : Resolution}, s.resolutions[i]? = some r → (s.begin url).resolutions[i]? = some r := by
    intro i r hr
    obtain ⟨hi, -⟩ := List.getElem?_eq_some_iff.mp hr
    exact (List.getElem?_append_left hi).trans hr
  have hnames : ∀ url' i, s.Names url' i → (s.begin url).Names url' i := by
    intro url' i hname
    obtain ⟨r, hr, hurl⟩ := hname
    exact ⟨r, hsame hr, hurl⟩
  refine ⟨?_, ?_, ?_, ?_, h.entries, ?_, ?_⟩
  · refine List.pairwise_append.mpr ⟨h.follows, List.pairwise_singleton _ _, fun r hr r' hr' hurl => ?_⟩
    rw [List.mem_singleton.mp hr'] at hurl ⊢
    refine ⟨h.released_of_free hfree r hr hurl, fun hread => absurd rfl hread, fun hsucceeded => ?_,
      fun _ hmade => absurd rfl hmade⟩
    -- the cache has what the earlier one has put there
    obtain ⟨entry, hentry, hnow⟩ := (h.leaves r hr).kept hsucceeded
    rw [hurl] at hentry
    exact ⟨entry, hentry, hnow, h.entries url entry hentry⟩
  · intro r hr
    rcases List.mem_append.mp hr with hr | hr
    · have hleaves := h.leaves r hr
      exact ⟨hleaves.clock, hleaves.unmade, hleaves.waiting, hleaves.kept, hleaves.held, hleaves.returns⟩
    · rw [List.mem_singleton.mp hr]
      exact ⟨Nat.zero_le _, fun _ => rfl, (fun e => by cases e), (fun e => by cases e), (fun e => by cases e), fun hread => absurd rfl hread⟩
  · intro r hr hstage
    show (s.inFlight.insert url s.resolutions.length).get? r.url ≠ none
    rw [InsertionMap.get?_insert]
    split
    · exact fun e => by cases e
    · next hne =>
      rcases List.mem_append.mp hr with hr | hr
      · exact h.flying r hr hstage
      · rw [List.mem_singleton.mp hr] at hne
        exact absurd rfl hne
  · intro url' i hflight
    have hflight : (s.inFlight.insert url s.resolutions.length).get? url' = some i := hflight
    rw [InsertionMap.get?_insert] at hflight
    split at hflight
    · next heq =>
      rw [← Option.some.inj hflight, heq]
      exact ⟨_, List.getElem?_concat_length, rfl⟩
    · exact hnames url' i (h.joins url' i hflight)
  · intro url' hlast
    have hnone : outcomes url' (s.begin url).resolutions = outcomes url' s.resolutions := by
      show outcomes url' (s.resolutions ++ _) = _
      unfold outcomes
      rw [List.filterMap_append]
      by_cases heq : url = url' <;> simp [heq, Attempt.outcome]
    rw [hnone] at hlast
    exact h.cleared url' hlast
  · intro c hc
    refine grow_collects (h.collections c hc) hnames fun i keys hret => ?_
    obtain ⟨r, hr, hrest⟩ := hret
    exact ⟨r, hsame hr, hrest⟩

/-- A collection waits for a resolution of every URL. -/
theorem keysForAll_joined : ∀ {urls : List JsString} {s : Peers}, Orderly config s →
    (∀ url i, s.Names url i → (s.keysForAll urls).1.Names url i) ∧
      List.Forall₂ (s.keysForAll urls).1.Names urls (s.keysForAll urls).2 := by
  intro urls
  induction urls with
  | nil => exact fun _ => ⟨fun _ _ hname => hname, .nil⟩
  | cons url urls ih =>
    intro s h
    have hone : Orderly config (s.keysFor url).1 ∧ (∀ url' i, s.Names url' i → (s.keysFor url).1.Names url' i) ∧
        (s.keysFor url).1.Names url (s.keysFor url).2 := by
      unfold keysFor
      cases hflight : s.inFlight.get? url with
      | some pending => exact ⟨h, fun _ _ hname => hname, h.joins url pending hflight⟩
      | none =>
        refine ⟨h.begin hflight, fun url' i hname => ?_, ⟨_, List.getElem?_concat_length, rfl⟩⟩
        obtain ⟨r, hr, hurl⟩ := hname
        obtain ⟨hi, -⟩ := List.getElem?_eq_some_iff.mp hr
        exact ⟨r, (List.getElem?_append_left hi).trans hr, hurl⟩
    obtain ⟨hnext, hgrows, hname⟩ := hone
    obtain ⟨hgrows', hall⟩ := ih hnext
    exact ⟨fun url' i hname' => hgrows' url' i (hgrows url' i hname'), .cons (hgrows' _ _ hname) hall⟩

/-- What stood at a place still stands there, the one that was replaced apart. -/
theorem getElem?_replaced {pre post : List Resolution} {r r' x : Resolution} {i : Nat}
    (h : (pre ++ r :: post)[i]? = some x) :
    (x = r ∧ (pre ++ r' :: post)[i]? = some r') ∨ (pre ++ r' :: post)[i]? = some x := by
  rw [List.getElem?_append] at h ⊢
  by_cases hi : i < pre.length
  · rw [if_pos hi] at h ⊢
    exact Or.inr h
  · rw [if_neg hi] at h ⊢
    cases hk : i - pre.length with
    | zero =>
      rw [hk] at h
      exact Or.inl ⟨(Option.some.inj h).symm, rfl⟩
    | succ k =>
      rw [hk] at h
      exact Or.inr h

/-- No later resolution is of a peer whose resolution is not released. -/
theorem later_ne {s : Peers} (h : Orderly config s) {pre post : List Resolution} {r : Resolution}
    (hfound : s.resolutions = pre ++ r :: post) (hopen : r.stage ≠ .released) : ∀ x ∈ post, x.url ≠ r.url := by
  intro x hx hurl
  have hfollows := h.follows
  rw [hfound] at hfollows
  have hright := (List.pairwise_append.mp hfollows).2.1
  exact hopen ((List.pairwise_cons.mp hright).1 x hx hurl.symm).released

/-- An earlier one is released. -/
theorem earlier {s : Peers} (h : Orderly config s) {pre post : List Resolution} {r : Resolution}
    (hfound : s.resolutions = pre ++ r :: post) : ∀ x ∈ pre, x.url = r.url → Follows config x r := by
  intro x hx hurl
  have hfollows := h.follows
  rw [hfound] at hfollows
  exact (List.pairwise_append.mp hfollows).2.2 x hx r List.mem_cons_self hurl

/-- One resolution comes further. -/
theorem change {s s' : Peers} {pre post : List Resolution} {r r' : Resolution} (h : Orderly config s)
    (hfound : s.resolutions = pre ++ r :: post) (hurl : r'.url = r.url) (hopen : r.stage ≠ .released)
    (hfollows : ∀ x ∈ s.resolutions, x.url = r.url → Follows config x r → Follows config x r')
    (hleaves : ∀ x ∈ s.resolutions, (x.url = r.url → Follows config x r) → Leaves config s x → Leaves config s' x)
    (hself : Leaves config s' r')
    (hflight : ∀ url, s'.inFlight.get? url =
      if r'.stage = .released ∧ url = r.url then none else s.inFlight.get? url)
    (hentries : ∀ url entry, s'.entries.get? url = some entry → entry.keys ≠ [])
    (hcleared : ∀ url, (outcomes url (pre ++ r' :: post)).getLast? = some true → s'.retryAfter.get? url = none)
    (hcollections : s'.collections = s.collections) : Orderly config (s'.replace pre r' post) := by
  have hpost := h.later_ne hfound hopen
  have hpre := h.earlier hfound
  have hr : r ∈ s.resolutions := by rw [hfound]; exact List.mem_append_right _ List.mem_cons_self
  have hin : ∀ x ∈ pre ++ r' :: post, x = r' ∨ (x ∈ s.resolutions ∧ (x.url = r.url → Follows config x r)) := by
    intro x hx
    rw [hfound]
    rcases List.mem_append.mp hx with hx | hx
    · exact Or.inr ⟨List.mem_append_left _ hx, hpre x hx⟩
    · rcases List.mem_cons.mp hx with hx | hx
      · exact Or.inl hx
      · exact Or.inr ⟨List.mem_append_right _ (List.mem_cons_of_mem _ hx), fun heq => absurd heq (hpost x hx)⟩
  have hnames : ∀ url i, s.Names url i → (s'.replace pre r' post).Names url i := by
    intro url i hname
    obtain ⟨x, hx, hxurl⟩ := hname
    rw [hfound] at hx
    rcases getElem?_replaced hx with ⟨heq, hx'⟩ | hx'
    · exact ⟨r', hx', by rw [hurl, ← heq, hxurl]⟩
    · exact ⟨x, hx', hxurl⟩
  refine ⟨?_, ?_, ?_, ?_, hentries, hcleared, ?_⟩
  · have hpairs := h.follows
    rw [hfound] at hpairs
    obtain ⟨hleft, hright, hcross⟩ := List.pairwise_append.mp hpairs
    obtain ⟨hhead, htail⟩ := List.pairwise_cons.mp hright
    refine List.pairwise_append.mpr ⟨hleft, List.pairwise_cons.mpr ⟨fun x hx heq => ?_, htail⟩, fun x hx y hy heq => ?_⟩
    · exact absurd (heq.symm.trans hurl) (hpost x hx)
    · rcases List.mem_cons.mp hy with rfl | hy
      · refine hfollows x ?_ (heq.trans hurl) (hpre x hx (heq.trans hurl))
        rw [hfound]
        exact List.mem_append_left _ hx
      · exact hcross x hx y (List.mem_cons_of_mem _ hy) heq
  · intro x hx
    have hx : Leaves config s' x := by
      rcases hin x hx with rfl | ⟨hx, hbefore⟩
      · exact hself
      · exact hleaves x hx hbefore (h.leaves x hx)
    exact ⟨hx.clock, hx.unmade, hx.waiting, hx.kept, hx.held, hx.returns⟩
  · intro x hx hstage
    show s'.inFlight.get? x.url ≠ none
    rw [hflight]
    rcases hin x hx with heq | ⟨hx, hbefore⟩
    · rw [heq, hurl]
      rw [heq] at hstage
      rw [if_neg fun hboth => hstage hboth.1]
      exact h.flying r hr hopen
    · rw [if_neg fun hboth => hstage (hbefore hboth.2).released]
      exact h.flying x hx hstage
  · intro url i hjoin
    have hjoin : s'.inFlight.get? url = some i := hjoin
    rw [hflight] at hjoin
    split at hjoin
    · cases hjoin
    · exact hnames url i (h.joins url i hjoin)
  · intro c hc
    have hc : c ∈ s'.collections := hc
    rw [hcollections] at hc
    refine grow_collects (h.collections c hc) hnames fun i keys hret => ?_
    obtain ⟨x, hx, hstage, hkeys⟩ := hret
    rw [hfound] at hx
    rcases getElem?_replaced hx with ⟨heq, -⟩ | hx'
    · rw [heq] at hstage
      exact absurd hstage hopen
    · exact ⟨x, hx', hstage, hkeys⟩

/-- How the attempts have ended, after one resolution has come further. -/
theorem outcomes_change {s : Peers} {pre post : List Resolution} {r : Resolution} (h : Orderly config s)
    (hfound : s.resolutions = pre ++ r :: post) (r' : Resolution) (hurl : r'.url = r.url)
      (hopen : r.stage ≠ .released) (url : JsString) :
    outcomes url (pre ++ r' :: post) =
      if url = r.url then outcomes url pre ++ r'.attempt.outcome.toList else outcomes url s.resolutions := by
  have hpost := h.later_ne hfound hopen
  unfold outcomes
  rw [List.filterMap_append]
  by_cases heq : url = r.url
  · have hnone : post.filterMap (fun x => if x.url = url then x.attempt.outcome else none) = [] := by
      rw [List.filterMap_eq_nil_iff]
      intro x hx
      rw [heq, if_neg (hpost x hx)]
    rw [if_pos heq, List.filterMap_cons, hurl, if_pos heq.symm, hnone]
    cases r'.attempt.outcome <;> rfl
  · have hother : r.url ≠ url := fun hc => heq hc.symm
    rw [if_neg heq, hfound, List.filterMap_append, List.filterMap_cons, List.filterMap_cons, hurl, if_neg hother,
      if_neg hother]

/-- While the maps stay as they are, so does the end of each last attempt. -/
theorem cleared_same {s : Peers} {pre post : List Resolution} {r r' : Resolution} (h : Orderly config s)
    (hfound : s.resolutions = pre ++ r :: post) (hurl : r'.url = r.url) (hopen : r.stage ≠ .released)
    (hsame : r'.attempt.outcome = r.attempt.outcome) (url : JsString)
    (hlast : (outcomes url (pre ++ r' :: post)).getLast? = some true) : s.retryAfter.get? url = none := by
  refine h.cleared url ?_
  rw [h.outcomes_change hfound r' hurl hopen, hsame] at hlast
  rw [hfound, h.outcomes_change hfound r rfl hopen]
  exact hlast

/-- What keeps being returned. -/
theorem graceKeys_ne_nil {cached : Option CacheEntry} {now : Nat} {entry : CacheEntry} (hentry : cached = some entry)
    (hkeys : entry.keys ≠ []) (hnow : now < entry.fetchedAt + config.staleTtlSeconds) :
    graceKeys config cached now ≠ [] := by
  rw [hentry]
  show (if entry.within config.staleTtlSeconds now = true then entry.keys else []) ≠ []
  have hwithin : entry.within config.staleTtlSeconds now = true := decide_eq_true hnow
  rw [if_pos hwithin]
  exact hkeys

theorem fetchPeerJwks_ne_nil {res : Except JsString Json} {keys : List Json} (h : fetchPeerJwks res = .ok keys) :
    keys ≠ [] := by
  unfold fetchPeerJwks at h
  split at h
  · cases h
  · split at h
    · split at h
      · cases h
      · cases h
        exact nofun
    · cases h

/-- The step that only waits leaves everything in its place. -/
theorem quiet {s s' : Peers} {pre post : List Resolution} {r r' : Resolution} (h : Orderly config s)
    (hfound : s.resolutions = pre ++ r :: post) (hurl : r'.url = r.url) (hnow : r'.now = r.now)
    (hcached : r'.cached = r.cached) (hattempt : r'.attempt = r.attempt) (hkeys : r'.keys = r.keys)
    (hstage : r.stage = .storing ∨ r.stage = .settled) (hstage' : r'.stage = .settled ∨ r'.stage = .released)
    (hflight : ∀ url, s'.inFlight.get? url =
      if r'.stage = .released ∧ url = r.url then none else s.inFlight.get? url)
    (hsame : s' = { s with inFlight := s'.inFlight }) : Orderly config (s'.replace pre r' post) := by
  have hopen : r.stage ≠ .released := by rcases hstage with hstage | hstage <;> rw [hstage] <;> exact nofun
  have hr : r ∈ s.resolutions := by rw [hfound]; exact List.mem_append_right _ List.mem_cons_self
  have hleaves : ∀ x, Leaves config s x → Leaves config s' x := by
    intro x hx
    rw [hsame]
    exact ⟨hx.clock, hx.unmade, hx.waiting, hx.kept, hx.held, hx.returns⟩
  have hread : r.stage ≠ .reading ∧ r.stage ≠ .fetching := by
    rcases hstage with hstage | hstage <;> rw [hstage] <;> exact ⟨nofun, nofun⟩
  have hread' : r'.stage ≠ .reading ∧ r'.stage ≠ .fetching := by
    rcases hstage' with hstage | hstage <;> rw [hstage] <;> exact ⟨nofun, nofun⟩
  have hself := hleaves r (h.leaves r hr)
  refine h.change hfound hurl hopen (fun x _ _ hx => ?_) (fun x _ _ hx => hleaves x hx) ?_ hflight ?_ ?_ ?_
  · exact ⟨hx.released, fun _ => hnow ▸ hx.later hread.1, fun hs => hcached ▸ hx.finds hs,
      fun hf hm => hnow ▸ hx.waits hf (hattempt ▸ hm)⟩
  · exact ⟨hnow ▸ hself.clock, fun hs => absurd hs hread'.1, fun hs => absurd hs hread'.2,
      fun hs => by rw [hurl, hnow]; exact hself.kept (hattempt ▸ hs),
      fun hf => by rw [hurl, hnow]; exact hself.held (hattempt ▸ hf),
      fun _ _ => by rw [hcached, hnow, hkeys]; exact hself.returns hread.1 hread.2⟩
  · rw [hsame]
    exact h.entries
  · intro url hlast
    rw [hsame]
    exact h.cleared_same hfound hurl hopen (congrArg Attempt.outcome hattempt) url hlast
  · rw [hsame]

/-- A resolution that has been read waits for the back-off before it fetches. -/
theorem resumed {s : Peers} {pre post : List Resolution} {r r' : Resolution} {now : Nat} (h : Orderly config s)
    (hfound : s.resolutions = pre ++ r :: post) (hstage : r.stage = .reading) (hclock : s.clock ≤ now)
    (hurl : r'.url = r.url) (hnow : r'.now = now) (hcached : r'.cached = r.cached)
    (hend : (r'.stage = .settled ∧ r'.attempt = .unmade ∧ ∀ entry, r.cached = some entry → entry.keys ≠ [] →
        now < entry.fetchedAt + config.staleTtlSeconds → r'.keys ≠ []) ∨
      (r'.stage = .fetching ∧ r'.attempt = .waiting ∧ ¬ now < (s.retryAfter.get? r.url).getD 0)) :
    Orderly config ({ s with clock := now }.replace pre r' post) := by
  have hopen : r.stage ≠ .released := by rw [hstage]; exact nofun
  have hr : r ∈ s.resolutions := by rw [hfound]; exact List.mem_append_right _ List.mem_cons_self
  have hoff : r'.stage ≠ .released := by
    rcases hend with ⟨hs, -⟩ | ⟨hs, -⟩ <;> rw [hs] <;> exact nofun
  refine h.change hfound hurl hopen (fun x hx hxurl hfollows => ?_) (fun x _ _ hx => ?_) ?_ (fun url => ?_)
    h.entries (h.cleared_same hfound hurl hopen ?_) rfl
  · refine ⟨hfollows.released, fun _ => ?_, fun hs => hcached ▸ hfollows.finds hs, fun hfailed hmade => ?_⟩
    · rw [hnow]
      exact Nat.le_trans (h.leaves x hx).clock hclock
    · -- the clock has passed the end of the back-off
      rcases hend with ⟨-, hunmade, -⟩ | ⟨-, -, hpassed⟩
      · exact absurd hunmade hmade
      · rw [hnow]
        rcases (h.leaves x hx).held hfailed with ⟨t, ht, hheld⟩ | hheld
        · rw [hxurl] at ht
          rw [ht] at hpassed
          exact Nat.le_trans hheld (Nat.le_of_not_lt hpassed)
        · exact Nat.le_trans hheld hclock
  · refine ⟨Nat.le_trans hx.clock hclock, hx.unmade, hx.waiting, hx.kept, fun hfailed => ?_, hx.returns⟩
    exact (hx.held hfailed).imp id fun hheld => Nat.le_trans hheld hclock
  · rcases hend with ⟨hs, hunmade, hkeys⟩ | ⟨hs, hwaiting, -⟩
    · refine ⟨Nat.le_of_eq hnow, fun _ => hunmade, fun hf => ?_, fun hsucc => ?_, fun hfail => ?_, fun _ _ => ?_⟩
      · rw [hs] at hf
        cases hf
      · rw [hunmade] at hsucc
        cases hsucc
      · rw [hunmade] at hfail
        cases hfail
      · rw [hcached, hnow]
        exact hkeys
    · refine ⟨Nat.le_of_eq hnow, fun hread => ?_, fun _ => hwaiting, fun hsucc => ?_, fun hfail => ?_,
        fun _ hf => absurd hs hf⟩
      · rw [hs] at hread
        cases hread
      · rw [hwaiting] at hsucc
        cases hsucc
      · rw [hwaiting] at hfail
        cases hfail
  · rw [if_neg fun hboth => hoff hboth.1]
  · rw [(h.leaves r hr).unmade hstage]
    rcases hend with ⟨-, hunmade, -⟩ | ⟨-, hwaiting, -⟩
    · rw [hunmade]
    · rw [hwaiting]
      rfl

/-- One event of a process that keeps its own cache. -/
theorem step {s s' : Peers} {e : PeerEvent} (hmemory : config.cacheBackend = .memory) (h : Orderly config s)
    (hstep : Happens config s e s') : Orderly config s' := by
  cases hstep with
  | collect =>
    have hbegun : Orderly config (s.keysForAll config.urls).1 :=
      keysForAll_induction (fun _ _ hfree hs => hs.begin hfree) h
    refine ⟨hbegun.follows, fun r hr => ?_, hbegun.flying, hbegun.joins, hbegun.entries, hbegun.cleared,
      fun c hc => ?_⟩
    · have hleaves := hbegun.leaves r hr
      exact ⟨hleaves.clock, hleaves.unmade, hleaves.waiting, hleaves.kept, hleaves.held, hleaves.returns⟩
    · rcases List.mem_append.mp hc with hc | hc
      · exact ⟨(hbegun.collections c hc).joined, (hbegun.collections c hc).result⟩
      · rw [List.mem_singleton.mp hc]
        exact ⟨(keysForAll_joined h).2, fun _ e => by cases e⟩
  | @read pre r post pick now hfound hstage hclock =>
    have hcached : s.cachedFor config r pick = r.cached := by
      unfold cachedFor
      rw [hmemory]
    rw [hcached]
    unfold resume
    split
    · next hfresh =>
      refine h.resumed hfound hstage hclock rfl rfl rfl (Or.inl ⟨rfl, ?_, fun entry hentry hkeys _ => ?_⟩)
      · exact (h.leaves r (by rw [hfound]; exact List.mem_append_right _ List.mem_cons_self)).unmade hstage
      · show (r.cached.map (·.keys)).getD [] ≠ []
        rw [hentry]
        exact hkeys
    · split
      · refine h.resumed hfound hstage hclock rfl rfl rfl (Or.inl ⟨rfl, ?_, fun entry hentry hkeys hwithin => ?_⟩)
        · exact (h.leaves r (by rw [hfound]; exact List.mem_append_right _ List.mem_cons_self)).unmade hstage
        · exact graceKeys_ne_nil hentry hkeys hwithin
      · next hpassed => exact h.resumed hfound hstage hclock rfl rfl rfl (Or.inr ⟨rfl, rfl, hpassed⟩)
  | @fetched pre r post res keys hfound hstage _ htaken =>
    have hopen : r.stage ≠ .released := by rw [hstage]; exact fun e => by cases e
    have hr : r ∈ s.resolutions := by rw [hfound]; exact List.mem_append_right _ List.mem_cons_self
    have hself := h.leaves r hr
    have hread : r.stage ≠ .reading := by rw [hstage]; exact fun e => by cases e
    have hmade : r.attempt ≠ .unmade := by rw [hself.waiting hstage]; exact fun e => by cases e
    have hput : ({ s with retryAfter := s.retryAfter.delete r.url }.put config r.url ⟨keys, r.now⟩) =
        { s with
          retryAfter := s.retryAfter.delete r.url, entries := s.entries.insert r.url ⟨keys, r.now⟩ } := by
      unfold put
      rw [hmemory]
    rw [hput]
    refine h.change hfound rfl hopen (fun x _ _ hx => ?_) (fun x hx hfollows hleaves => ?_) ?_ (fun url => ?_)
      (fun url entry hentry => ?_) (fun url hlast => ?_) rfl
    · exact ⟨hx.released, fun _ => hx.later hread, hx.finds, fun hf _ => hx.waits hf hmade⟩
    · refine ⟨hleaves.clock, hleaves.unmade, hleaves.waiting, fun hs => ?_, fun hf => ?_, hleaves.returns⟩
      · show ∃ entry, (s.entries.insert r.url ⟨keys, r.now⟩).get? x.url = some entry ∧ x.now ≤ entry.fetchedAt
        rw [InsertionMap.get?_insert]
        split
        · next heq => exact ⟨_, rfl, (hfollows heq).later hread⟩
        · exact hleaves.kept hs
      · show (∃ t, (s.retryAfter.delete r.url).get? x.url = some t ∧ _) ∨ _
        rw [InsertionMap.get?_delete]
        split
        · next heq => exact Or.inr (Nat.le_trans ((hfollows heq).waits hf hmade) hself.clock)
        · exact hleaves.held hf
    · refine ⟨hself.clock, (fun e => by cases e), (fun e => by cases e), fun _ => ⟨_, InsertionMap.get?_insert_self .., Nat.le_refl _⟩, (fun e => by cases e), ?_⟩
      exact fun _ _ _ _ _ _ => fetchPeerJwks_ne_nil htaken
    · rw [if_neg fun hboth => by cases hboth.1]
    · have hentry : (s.entries.insert r.url ⟨keys, r.now⟩).get? url = some entry := hentry
      rw [InsertionMap.get?_insert] at hentry
      split at hentry
      · rw [← Option.some.inj hentry]
        exact fetchPeerJwks_ne_nil htaken
      · exact h.entries url entry hentry
    · show (s.retryAfter.delete r.url).get? url = none
      rw [InsertionMap.get?_delete]
      split
      · rfl
      · next hne =>
        rw [h.outcomes_change hfound { r with stage := .storing, attempt := .succeeded, keys } rfl hopen,
          if_neg hne] at hlast
        exact h.cleared url hlast
  | @refused pre r post hfound hstage =>
    have hopen : r.stage ≠ .released := by rw [hstage]; exact fun e => by cases e
    have hr : r ∈ s.resolutions := by rw [hfound]; exact List.mem_append_right _ List.mem_cons_self
    have hself := h.leaves r hr
    have hread : r.stage ≠ .reading := by rw [hstage]; exact fun e => by cases e
    have hmade : r.attempt ≠ .unmade := by rw [hself.waiting hstage]; exact fun e => by cases e
    -- the end of the back-off, if there is one
    have hback : ∀ url, (if config.retryAfterSeconds > 0 then
        s.retryAfter.insert r.url (r.now + config.retryAfterSeconds) else s.retryAfter).get? url =
          if config.retryAfterSeconds > 0 ∧ url = r.url then some (r.now + config.retryAfterSeconds)
          else s.retryAfter.get? url := by
      intro url
      by_cases hretry : config.retryAfterSeconds > 0
      · rw [if_pos hretry, InsertionMap.get?_insert]
        by_cases heq : url = r.url
        · rw [if_pos heq, if_pos ⟨hretry, heq⟩]
        · rw [if_neg heq, if_neg fun hboth => heq hboth.2]
      · rw [if_neg hretry, if_neg fun hboth => hretry hboth.1]
    refine h.change hfound rfl hopen (fun x _ _ hx => ?_) (fun x hx hfollows hleaves => ?_) ?_ (fun url => ?_)
      h.entries (fun url hlast => ?_) rfl
    · exact ⟨hx.released, fun _ => hx.later hread, hx.finds, fun hf _ => hx.waits hf hmade⟩
    · refine ⟨hleaves.clock, hleaves.unmade, hleaves.waiting, hleaves.kept, fun hf => ?_, hleaves.returns⟩
      dsimp only
      rw [hback]
      split
      · next hboth => exact Or.inl ⟨_, rfl, Nat.add_le_add_right ((hfollows hboth.2).later hread) _⟩
      · exact hleaves.held hf
    · refine ⟨hself.clock, (fun e => by cases e), (fun e => by cases e), (fun e => by cases e), fun _ => ?_, ?_⟩
      · dsimp only
        rw [hback]
        by_cases hretry : config.retryAfterSeconds > 0
        · rw [if_pos ⟨hretry, rfl⟩]
          exact Or.inl ⟨_, rfl, Nat.le_refl _⟩
        · right
          have hclock := hself.clock
          have hzero : config.retryAfterSeconds = 0 := by omega
          rw [hzero]
          exact hclock
      · exact fun _ _ entry hentry hkeys hwithin => graceKeys_ne_nil hentry hkeys hwithin
    · exact (if_neg fun hboth => by cases hboth.1).symm
    · let failed : Resolution :=
        { r with stage := .settled, attempt := .failed, keys := graceKeys config r.cached r.now }
      rw [h.outcomes_change hfound failed rfl hopen] at hlast
      dsimp only
      rw [hback]
      by_cases heq : url = r.url
      · rw [if_pos heq] at hlast
        have hlast : (outcomes url pre ++ [false]).getLast? = some true := hlast
        rw [List.getLast?_concat] at hlast
        cases hlast
      · rw [if_neg heq] at hlast
        rw [if_neg fun hboth => heq hboth.2]
        exact h.cleared url hlast
  | @stored pre r post hfound hstage =>
    refine h.quiet hfound rfl rfl rfl rfl rfl (Or.inl hstage) (Or.inl rfl) (fun url => ?_) rfl
    rw [if_neg fun hboth => by cases hboth.1]
  | @release pre r post hfound hstage =>
    refine h.quiet hfound rfl rfl rfl rfl rfl (Or.inr hstage) (Or.inr rfl) (fun url => ?_) rfl
    rw [InsertionMap.get?_delete]
    by_cases heq : url = r.url
    · rw [if_pos heq, if_pos ⟨rfl, heq⟩]
    · rw [if_neg heq, if_neg fun hboth => heq hboth.2]
  | @finish pre c post perPeer hfound hreleased =>
    refine ⟨h.follows, fun r hr => ?_, h.flying, h.joins, h.entries, h.cleared, ?_⟩
    · have hleaves := h.leaves r hr
      exact ⟨hleaves.clock, hleaves.unmade, hleaves.waiting, hleaves.kept, hleaves.held, hleaves.returns⟩
    · have hcollections := h.collections
      rw [hfound] at hcollections
      refine forall_mem_replace (fun hc => ⟨hc.joined, fun result hresult => ?_⟩)
        (fun _ hx => ⟨hx.joined, hx.result⟩) hcollections
      exact ⟨perPeer, returned_of_perPeer hreleased, (Option.some.inj hresult).symm⟩
  | elsewhere hbackend => exact absurd hmemory hbackend

theorem run {s : Peers} {events : List PeerEvent} (hmemory : config.cacheBackend = .memory)
    (hrun : Peers.init.run config events = some s) : Orderly config s :=
  run_induction (fun _ _ _ _ hstep h => h.step hmemory hstep) hrun init

theorem follows_of_lt {s : Peers} (h : Orderly config s) {i j : Nat} {r r' : Resolution} (hlt : i < j)
    (hr : s.resolutions[i]? = some r) (hr' : s.resolutions[j]? = some r') (hurl : r.url = r'.url) :
    Follows config r r' := by
  obtain ⟨hi, hri⟩ := List.getElem?_eq_some_iff.mp hr
  obtain ⟨hj, hrj⟩ := List.getElem?_eq_some_iff.mp hr'
  have hpair := List.pairwise_iff_getElem.mp h.follows i j hi hj hlt
  rw [hri, hrj] at hpair
  exact hpair hurl

end Orderly

end Sag
