import Sag.Browser
import Sag.Properties.Sessions

/-!
# The lifetime of a session

Renewal, reauthentication and creation each compute times of their own, and only
renewal knows of the cap. But every cookie is written by `complete`, which renews
the session first: so no cookie outlives its `abs` (`capped`), the `abs` under one
`sid` is that of its creation (`absolute`), and a cookie is only accepted within
both its `abs` and the idle timeout since it was written (`accepted`).
-/

namespace Sag

open Resumable

variable {rt : Runtime} {config : Config} {σ : Type} {env : Environment effects σ} {s : σ}
variable {w : World (gateway rt config) σ}

/-- The session was written at `now`: whatever it was before, `touch` has renewed it. -/
def WrittenAt (config : Config) (now : Nat) (session : Session) : Prop :=
  ∃ before, session = touchAt config now before

theorem WrittenAt.exp {now : Nat} {session : Session} (h : WrittenAt config now session) :
    session.exp ≤ session.abs ∧ session.exp ≤ now + config.session.idleTtlSeconds := by
  obtain ⟨before, rfl⟩ := h
  exact ⟨Nat.min_le_right _ _, Nat.min_le_left _ _⟩

/-- What is written is written while the request is served. -/
theorem written_of_derived {start stop : Nat} {es : List (Event effects)} {endpoint : Endpoint}
    {request : Request} {session : Session}
    (h : Derived rt config (during start stop (seen es)) endpoint request (.session session)) :
    ∃ now, start ≤ now ∧ now ≤ stop ∧ WrittenAt config now session := by
  cases h with
  | session hcompletion htick => exact ⟨_, htick.1, htick.2, _, rfl⟩
  | memory hmem => cases hmem

/-- Every cookie that is handed in was written before. -/
theorem written_of_presented (h : Reachable (gateway rt config) env s w) :
    ∀ th ∈ w.threads, ∀ endpoint request, th.req.served = some (endpoint, request) →
      ∀ session, request.presents (.session session) → ∃ now ≤ th.start, WrittenAt config now session := by
  let P : Nat → Sealed → Prop := fun t tok =>
    ∀ session, tok = .session session → ∃ now ≤ t, WrittenAt config now session
  have hP : Good P := by
    refine ⟨fun t t' tok hle hp session htok => ?_⟩
    obtain ⟨now, hnow, hwritten⟩ := hp session htok
    exact ⟨now, Nat.le_trans hnow hle, hwritten⟩
  have hgood := hP.sound h (V := fun _ => True) (fun _ _ => trivial) ?_
  · intro th hth endpoint request hserved session hpres
    exact hgood.2 th hth _ (handsIn_of_served hserved hpres) session rfl
  rintro call endpoint request start stop - - - - tok hderived session rfl
  obtain ⟨now, -, hstop, hwritten⟩ := written_of_derived hderived
  exact ⟨now, hstop, hwritten⟩

/-- A session carries the `sid` and the `abs` that it was created with, at the instant
that its `iat` still shows. -/
theorem lifetime_descent (es : List (Event effects)) :
    Descent rt config es fun _ s => ∃ c ∈ created es, DescendsFrom c s ∧
      c.abs = c.iat + config.session.maxLifetimeSeconds where
  mono _ _ _ _ h := h
  created _ _ _ _ _ _ _ _ _ _ _ hmem := ⟨_, hmem, ⟨rfl, rfl⟩, rfl⟩
  again _ _ _ _ _ _ _ _ _ _ _ _ h := by
    obtain ⟨c, hc, hd, habs⟩ := h
    exact ⟨c, hc, ⟨hd.sid, hd.abs⟩, habs⟩
  migrated _ _ h := by
    obtain ⟨c, hc, hd, habs⟩ := h
    exact ⟨c, hc, ⟨by rw [migrate_sid, hd.sid], by rw [migrate_abs, hd.abs]⟩, habs⟩
  touched _ _ _ _ h := by
    obtain ⟨c, hc, hd, habs⟩ := h
    exact ⟨c, hc, ⟨hd.sid, hd.abs⟩, habs⟩

/-- A session is created no later than that is recorded. -/
theorem iat_of_created (h : Reachable (gateway rt config) env s w) {e : Event effects} (he : e ∈ w.log)
    {c : Session} (hop : e.op = .note (.sessionCreated c)) : c.iat ≤ e.time := by
  obtain ⟨th, hth, hmem⟩ := h.exists_thread he
  obtain ⟨_, _, _, _, now, _, -, -, -, hnow, rfl⟩ := signIn_of_created h hth hmem hop
  exact hnow

/-- Nothing keeps a session alive past its lifetimes. -/
structure Bounded (config : Config) (w : World (gateway rt config) σ) : Prop where
  /-- A cookie that is written does not outlive its session. -/
  capped : ∀ th ∈ w.threads, ∀ t response, th.stop = some (t, .ok (.response response)) →
    ∀ session, .session session ∈ response.tokens → session.exp ≤ session.abs
  /-- Its session ends within the maximum lifetime of the creation of its `sid`. -/
  absolute : ∀ th ∈ w.threads, ∀ t response, th.stop = some (t, .ok (.response response)) →
    ∀ session, .session session ∈ response.tokens → ∀ e ∈ w.log, ∀ c, e.op = .note (.sessionCreated c) →
      c.sid = session.sid → session.abs ≤ e.time + config.session.maxLifetimeSeconds
  /-- A cookie that is accepted is judged within its `abs`, that of the creation of its
  `sid`, and the idle timeout since it was written. -/
  accepted : ∀ th ∈ w.threads, ∀ pre stored t post, th.trace = pre ++ acceptance stored t :: post →
    ∃ judged ≤ stored.abs,
      (if config.stateStore then ∃ h₀, pre = h₀ ++ [notRevoked stored.sid judged] else judged = t) ∧
      (∃ written ≤ th.start, WrittenAt config written stored ∧
        judged ≤ written + config.session.idleTtlSeconds) ∧
      ∀ e ∈ w.log, ∀ c, e.op = .note (.sessionCreated c) → c.sid = stored.sid →
        judged ≤ e.time + config.session.maxLifetimeSeconds

/-- The `abs` under one `sid` is within the maximum lifetime of its creation. -/
theorem abs_bounded (h : Reachable (gateway rt config) env s w) (hfresh : FreshSids w) {session : Session}
    (hsession : ∃ c ∈ created w.log, DescendsFrom c session ∧ c.abs = c.iat + config.session.maxLifetimeSeconds)
    {e : Event effects} (he : e ∈ w.log) {c : Session} (hop : e.op = .note (.sessionCreated c))
    (hsid : c.sid = session.sid) : session.abs ≤ e.time + config.session.maxLifetimeSeconds := by
  obtain ⟨c', hc', hd, habs⟩ := hsession
  obtain rfl := hfresh.unique (mem_created.mpr ⟨e, he, hop⟩) hc' (by rw [hsid, hd.sid])
  have hiat := iat_of_created h he hop
  rw [hd.abs, habs]
  omega

/-- The lifetime of a session is bounded, whatever is renewed or reauthenticated. -/
theorem sessions_bounded (h : Reachable (gateway rt config) env s w) (hfresh : FreshSids w) :
    Bounded config w where
  capped th hth t response hstop session htok := by
    obtain ⟨endpoint, request, -, hderived⟩ := derived_of_released h hth hstop htok
    obtain ⟨now, -, -, hwritten⟩ := written_of_derived hderived
    exact hwritten.exp.1
  absolute th hth t response hstop session htok e he c hop hsid := by
    obtain ⟨endpoint, request, hserved, hderived⟩ := derived_of_released h hth hstop htok
    cases hderived with
    | session hcompletion htick =>
      have hle := ((h.threads_sound th hth).ended t _ hstop).1
      have hdescent : Descent rt config w.log _ := lifetime_descent w.log
      have hcompleted := hdescent.completed h hth hserved hle hcompletion
      exact abs_bounded h hfresh (hdescent.touched t _ _ htick.2 hcompleted) he hop hsid
    | memory hmem => cases hmem
  accepted th hth pre stored t post htr := by
    obtain ⟨endpoint, request, hserved, hadmissible⟩ := admissible_of_accepted h hth htr
    obtain ⟨judged, hexp, habs, hjudged⟩ := hadmissible.judged
    obtain ⟨written, hbefore, hwritten⟩ :=
      written_of_presented h th hth endpoint request hserved stored hadmissible.presented
    have hlife := (lifetime_descent w.log).sound h th hth endpoint request hserved stored hadmissible.presented
    refine ⟨judged, habs, hjudged, ⟨written, hbefore, hwritten, Nat.le_trans hexp hwritten.exp.2⟩, ?_⟩
    exact fun e he c hop hsid => Nat.le_trans habs (abs_bounded h hfresh hlife he hop hsid)

namespace Sample

/-- Ann signs in and comes back to the application, and her new cookie is read. -/
def cameBack : Server :=
  after (signIn "notes" "" ++ [authorize 2000 "notes" "" "" [("sag", .token 3)],
    visit 2010 .continue true [("tx", .token 4)] [("sag", .token 3)], readBack 2020 6])

end Sample

theorem ann_bounded : FreshSids Sample.cameBack ∧ Bounded Sample.config Sample.cameBack := by
  have hfresh : FreshSids Sample.cameBack := by decide +kernel
  exact ⟨hfresh, sessions_bounded (Sample.after_reachable Sample.oracle.within_graph _) hfresh⟩

end Sag
