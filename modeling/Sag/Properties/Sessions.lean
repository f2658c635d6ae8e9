import Mathlib.Data.List.Nodup
import Sag.Gateway

/-!
# The sessions of a run

Every copy of a session that exists descends from its creation by migrations,
renewals and new sign-ins, whatever the order of the requests and however old the
cookies handed in. `Descent` is a property that this descent keeps, and
`Descent.sound` and `Descent.completed` carry it to every session that a request
hands in or completes with.

The first such property is the plain one: a session carries the `sid` and the
`abs` of the one that was created (`Created`).
-/

namespace Sag

open Resumable

variable {rt : Runtime} {config : Config} {σ : Type} {env : Environment effects σ} {s : σ}
variable {w : World (gateway rt config) σ}

/-- A property of sessions that new ones have, that the three changes keep and that
lasts. `es` is what the replies come from. -/
structure Descent (rt : Runtime) (config : Config) (es : List (Event effects))
    (T : Nat → Session → Prop) : Prop where
  mono : ∀ t t' s, t ≤ t' → T t s → T t' s
  created : ∀ endpoint request start stop tx args now sid, start ≤ now → now ≤ stop →
    SignIn rt config (during start stop (seen es)) request endpoint tx args →
      newSessionAt config now sid args ∈ created es → T stop (newSessionAt config now sid args)
  again : ∀ endpoint request start stop tx args now existing, start ≤ now → now ≤ stop →
    SignIn rt config (during start stop (seen es)) request endpoint tx args →
      existing.principal = args.principal → T start existing →
        T stop (reauthenticateAt config now existing args)
  migrated : ∀ t s, T t s → T t (migrate s)
  touched : ∀ t now s, now ≤ t → T t s → T t (touchAt config now s)

/-- A session that completes a request has the property if those handed in have. -/
theorem Descent.completion {T : Nat → Session → Prop} (hT : Descent rt config w.log T) {start stop : Nat}
    (hle : start ≤ stop) {endpoint : Endpoint} {request : Request} {tx : Transaction} {session : Session}
    (hpres : ∀ s, request.presents (.session s) → T start s)
    (h : Completion rt config (during start stop (seen w.log)) request endpoint tx session) :
    T stop session := by
  have read : ∀ {s}, ReadFrom request s → T start s := by
    rintro _ ⟨stored, hstored, rfl⟩
    exact hT.migrated _ _ (hpres stored hstored)
  cases h with
  | silent hstarted hanswers hunforced => exact hT.mono _ _ _ hle (read hanswers.read)
  | continued hpresented hanswers => exact hT.mono _ _ _ hle (read hanswers.read)
  | signedIn hsign hsigned =>
    cases hsigned with
    | created htick hcreated =>
      obtain ⟨t, -, hlog⟩ := hcreated
      exact hT.created _ _ _ _ _ _ _ _ htick.1 htick.2 hsign (mem_created.mpr ⟨_, hlog, rfl⟩)
    | again hread htick hsame => exact hT.again _ _ _ _ _ _ _ _ htick.1 htick.2 hsign hsame (read hread)

/-- The property on the tokens that hold a session. -/
def onSessions (T : Nat → Session → Prop) (t : Nat) : Sealed → Prop
  | .session s => T t s
  | _ => True

theorem Descent.good {es : List (Event effects)} {T : Nat → Session → Prop} (hT : Descent rt config es T) :
    Good (onSessions T) where
  mono t t' tok hle h := by
    cases tok with
    | session s => exact hT.mono t t' s hle h
    | _ => trivial

/-- Every session that a thread hands in has the property at its start. -/
theorem Descent.sound {T : Nat → Session → Prop} (hT : Descent rt config w.log T)
    (h : Reachable (gateway rt config) env s w) :
    ∀ th ∈ w.threads, ∀ endpoint request, th.req.served = some (endpoint, request) →
      ∀ s, request.presents (.session s) → T th.start s := by
  have hgood := hT.good.sound h (V := fun _ => True) (fun _ _ => trivial) ?_
  · intro th hth endpoint request hserved s hpres
    exact hgood.2 th hth _ (handsIn_of_served hserved hpres)
  intro call endpoint request start stop _ hserved hle hpres tok hderived
  cases hderived with
  | session hcompletion htick =>
    exact hT.touched _ _ _ htick.2 (hT.completion hle (fun s hs => hpres _ hs) hcompletion)
  | memory hmem =>
    cases tok with
    | session s => cases hmem
    | _ => trivial
  | _ => trivial

/-- So does every session that a thread completes with. -/
theorem Descent.completed {T : Nat → Session → Prop} (hT : Descent rt config w.log T)
    (h : Reachable (gateway rt config) env s w) {th : Thread (gateway rt config)} (hth : th ∈ w.threads)
    {endpoint : Endpoint} {request : Request} (hserved : th.req.served = some (endpoint, request))
    {stop : Nat} (hstop : th.start ≤ stop) {tx : Transaction} {session : Session}
    (hc : Completion rt config (during th.start stop (seen w.log)) request endpoint tx session) :
    T stop session :=
  hT.completion hstop (hT.sound h th hth endpoint request hserved) hc

/-! ## Creation -/

/-- No identifier is drawn for two sessions. -/
def FreshSids (w : World (gateway rt config) σ) : Prop := ((created w.log).map (·.sid)).Nodup

instance (w : World (gateway rt config) σ) : Decidable (FreshSids w) :=
  inferInstanceAs (Decidable (List.Nodup _))

/-- Where identifiers are fresh, one session was created under each. -/
theorem FreshSids.unique (h : FreshSids w) {c c' : Session} (hc : c ∈ created w.log)
    (hc' : c' ∈ created w.log) (hsid : c.sid = c'.sid) : c = c' :=
  List.inj_on_of_nodup_map h hc hc' hsid

/-- The session descends from `c`. -/
structure DescendsFrom (c s : Session) : Prop where
  sid : s.sid = c.sid
  abs : s.abs = c.abs

theorem created_descent (es : List (Event effects)) :
    Descent rt config es fun _ s => ∃ c ∈ created es, DescendsFrom c s where
  mono _ _ _ _ h := h
  created _ _ _ _ _ _ _ _ _ _ _ hmem := ⟨_, hmem, rfl, rfl⟩
  again _ _ _ _ _ _ _ _ _ _ _ _ h := by
    obtain ⟨c, hc, hd⟩ := h
    exact ⟨c, hc, hd.sid, hd.abs⟩
  migrated _ s h := by
    obtain ⟨c, hc, hd⟩ := h
    exact ⟨c, hc, by rw [migrate_sid, hd.sid], by rw [migrate_abs, hd.abs]⟩
  touched _ _ _ _ h := by
    obtain ⟨c, hc, hd⟩ := h
    exact ⟨c, hc, hd.sid, hd.abs⟩

/-- Two sessions that were handed in under one identifier end together. -/
theorem abs_eq_of_sid_eq (hfresh : FreshSids w) {a b : Session} (ha : ∃ c ∈ created w.log, DescendsFrom c a)
    (hb : ∃ c ∈ created w.log, DescendsFrom c b) (hsid : a.sid = b.sid) : a.abs = b.abs := by
  obtain ⟨c, hc, hca⟩ := ha
  obtain ⟨c', hc', hcb⟩ := hb
  obtain rfl := hfresh.unique hc hc' (by rw [← hca.sid, ← hcb.sid, hsid])
  rw [hca.abs, hcb.abs]

/-- What is accepted is handed in by the request. -/
theorem admissible_of_accepted (h : Reachable (gateway rt config) env s w) {th : Thread (gateway rt config)}
    (hth : th ∈ w.threads) {pre post : List (Event effects)} {stored : Session} {t : Nat}
    (htr : th.trace = pre ++ acceptance stored t :: post) :
    ∃ endpoint request, th.req.served = some (endpoint, request) ∧ Admissible config request stored pre t := by
  obtain ⟨endpoint, request, hserved, hguard⟩ := guard_at h hth htr rfl
  generalize ho : (acceptance stored t).op = o at hguard
  cases hguard with
  | limiting hlimiting =>
    subst ho
    exact absurd hlimiting (not_limiting rfl)
  | accepted hadmissible =>
    cases ho
    exact ⟨endpoint, request, hserved, hadmissible⟩
  | _ => cases ho

/-- What is accepted descends from a session that was created. -/
theorem created_of_accepted (h : Reachable (gateway rt config) env s w) {th : Thread (gateway rt config)}
    (hth : th ∈ w.threads) {pre post : List (Event effects)} {stored : Session} {t : Nat}
    (htr : th.trace = pre ++ acceptance stored t :: post) : ∃ c ∈ created w.log, DescendsFrom c stored := by
  obtain ⟨endpoint, request, hserved, hadmissible⟩ := admissible_of_accepted h hth htr
  exact (created_descent w.log).sound h th hth endpoint request hserved stored hadmissible.presented

end Sag
