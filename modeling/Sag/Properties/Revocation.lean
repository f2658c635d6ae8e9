import Sag.Browser
import Sag.Properties.Codes
import Sag.Properties.Sessions

/-!
# The end of a session

A logout claims the `sid` of every session it ends until the session's absolute
lifetime is over, and every reading of a cookie asks for that claim first. The
copies of a session share their `sid` and their `abs`, so one claim covers them
all, and no reading that asks after the logout accepts any of them
(`revocation_final`).

The claim lasts while the clock shows `abs`, and so does a cookie. A logout that
comes to its claim in that last second finds no time left and makes none, and a
copy is accepted once more (`revoked_too_late`).
-/

namespace Sag

open Resumable

variable {rt : Runtime} {config : Config} {maxEntries : Nat}
variable {w w₁ w₂ : World (gateway rt config) MemoryStore}

/-- The sessions that a logout has ended. -/
def ended (es : List (Event effects)) : List Session :=
  (notes es).filterMap fun
    | .sessionEnded session => some session
    | _ => none

theorem mem_ended {es : List (Event effects)} {session : Session} :
    session ∈ ended es ↔ ∃ e ∈ es, e.op = .note (.sessionEnded session) := by
  rw [← mem_notes, ended, List.mem_filterMap]
  constructor
  · rintro ⟨n, hn, heq⟩
    split at heq <;> simp_all
  · exact fun h => ⟨_, h, rfl⟩

/-- The sessions that a reading has accepted. -/
def accepted (es : List (Event effects)) : List Session :=
  (notes es).filterMap fun
    | .sessionAccepted session => some session
    | _ => none

theorem mem_accepted {es : List (Event effects)} {session : Session} :
    session ∈ accepted es ↔ ∃ e ∈ es, e.op = .note (.sessionAccepted session) := by
  rw [← mem_notes, accepted, List.mem_filterMap]
  constructor
  · rintro ⟨n, hn, heq⟩
    split at heq <;> simp_all
  · exact fun h => ⟨_, h, rfl⟩

/-- The request does not come to the claim of a session in the second in which the
session's absolute lifetime ends. -/
def ClaimsInTime (th : Thread (gateway rt config)) : Prop :=
  ∀ pre stored t e post, th.trace = pre ++ acceptance stored t :: e :: post → e.time ≠ stored.abs

/-- Whoever accepts a copy of the session in `w₂` had asked for its revocation, and had
its answer, in `w₁`. -/
def Final (w₁ w₂ : World (gateway rt config) MemoryStore) (sid : JsString) : Prop :=
  ∀ th ∈ w₂.threads, ∀ pre stored t post, th.trace = pre ++ acceptance stored t :: post →
    stored.sid = sid → ∃ th₁ ∈ w₁.threads, ∃ es, th₁.Later th es ∧ pre.length ≤ th₁.trace.length

/-! ## The claim -/

section
variable {σ : Type} {env : Environment effects σ} {s : σ} {v : World (gateway rt config) σ}

/-- Nobody but a logout claims a `sid`, and it claims that of a session it has just
accepted, for what is left of its absolute lifetime. -/
theorem revoked_of_claim (h : Reachable (gateway rt config) env s v) {e : Event effects} (he : e ∈ v.log)
    {sid : JsString} {ttl : Int} (hop : e.op = .store (.claim (revocationKey sid) ttl)) :
    ∃ stored, stored.sid = sid ∧ (∃ c ∈ created v.log, DescendsFrom c stored) ∧ e.time < stored.abs ∧
      ttl = (stored.abs : Int) - e.time := by
  obtain ⟨th, hth, hmem⟩ := h.exists_thread he
  obtain ⟨pre, post, htr⟩ := List.append_of_mem hmem
  have served : ∀ {endpoint request},
      Guard rt config (during th.start e.time (seen v.log)) endpoint request pre e.time
        (.store (.claim (revocationKey sid) ttl)) →
      ∃ stored h₀ t₀, pre = h₀ ++ [acceptance stored t₀] ∧ stored.sid = sid ∧ e.time < stored.abs ∧
        ttl = (stored.abs : Int) - e.time := by
    intro endpoint request hguard
    generalize ho : Op.store (.claim (revocationKey sid) ttl) = o at hguard
    cases hguard with
    | limiting hlimiting =>
      subst ho
      rcases hlimiting with hroutine | ⟨_, _, -, hcounts, heq⟩
      · cases hroutine
      · rw [← Op.store.inj heq] at hcounts
        cases hcounts
    | revoke hpast hbefore =>
      obtain ⟨hkey, httl⟩ := StoreOp.claim.inj (Op.store.inj ho)
      exact ⟨_, _, _, hpast, (List.append_cancel_left hkey).symm, hbefore, httl⟩
    | _ => cases ho
  have accepted : ∃ stored h₀ t₀, pre = h₀ ++ [acceptance stored t₀] ∧ stored.sid = sid ∧
      e.time < stored.abs ∧ ttl = (stored.abs : Int) - e.time := by
    have hguard := guarantee_of_log h hth htr
    rw [hop] at hguard
    cases hreq : th.req with
    | redeem r =>
      rw [hreq] at hguard
      generalize ho : Op.store (.claim (revocationKey sid) ttl) = o at hguard
      cases hguard with
      | suspend => cases ho
      | claim =>
        obtain ⟨hkey, -⟩ := StoreOp.claim.inj (Op.store.inj ho)
        exact absurd hkey (revocationKey_ne_codeClaimKey _ _)
    | rekeyAll keys =>
      rw [hreq] at hguard
      rcases hguard with hroutine | ⟨_, _, _, _, _, heq⟩
      · cases hroutine
      · cases heq
    | _ =>
      rw [hreq] at hguard
      exact served hguard
  obtain ⟨stored, h₀, t₀, rfl, hsid, hbefore, httl⟩ := accepted
  have haccepted : th.trace = h₀ ++ acceptance stored t₀ :: e :: post := by
    rw [htr]
    simp
  exact ⟨stored, hsid, created_of_accepted h hth haccepted, hbefore, httl⟩

end

section
variable (h : Reachable (gateway rt config) (memoryEnv maxEntries) .empty w)
include h

/-- Whoever claims a `sid`, whether he is the first or not, finds it claimed until the
absolute lifetime of the session. -/
theorem claimed_until_abs (hfresh : FreshSids w) {e : Event effects} {pre post : List (Event effects)}
    (hlog : w.log = pre ++ e :: post) {stored : Session} {fresh : Bool} {t : Nat}
    (he : e = ⟨t, .store (.claim (revocationKey stored.sid) ((stored.abs : Int) - t)),
      (.ok fresh : Except JsError Bool)⟩) :
    ∃ s₁, Replays (memoryEnv maxEntries) s₁ t post w.state ∧
      s₁.claims.get? (revocationKey stored.sid) = some stored.abs := by
  have hmem : e ∈ w.log := by rw [hlog]; simp
  have hop : e.op = .store (.claim (revocationKey stored.sid) ((stored.abs : Int) - t)) := by rw [he]
  obtain ⟨own, hown, hcreated, hbefore, httl⟩ := revoked_of_claim h hmem hop
  subst he
  have hbefore : t < own.abs := hbefore
  have habs : own.abs = stored.abs := by
    have httl : (stored.abs : Int) - t = own.abs - t := httl
    omega
  have hreplays := h.replays
  rw [hlog] at hreplays
  obtain ⟨s₀, s₁, hpre, -, henv, hpost⟩ := hreplays.split
  refine ⟨s₁, hpost, ?_⟩
  obtain ⟨hanswer, hstate⟩ := memoryEnv_claim henv
  cases fresh with
  | true =>
    have hlive := (MemoryStore.claim_true hanswer).1
    rw [hstate] at hlive
    rw [hlive]
    have hlife : t + MemoryStore.lifetime ((stored.abs : Int) - t) = stored.abs := by
      simp only [MemoryStore.lifetime]
      omega
    exact congrArg some hlife
  | false =>
    -- an earlier claim is in the way, and it lasts as long
    obtain ⟨E, hget, hlive⟩ := MemoryStore.claim_false hanswer
    obtain ⟨t', ttl, hwon, hE⟩ := won_of_claimed hpre hget
    have hwon' : won (revocationKey stored.sid) t' ttl ∈ w.log := by rw [hlog]; simp [hwon]
    obtain ⟨first, hfirst, hcreated', hbefore', httl'⟩ := revoked_of_claim h hwon' rfl
    have hbefore' : t' < first.abs := hbefore'
    have httl' : ttl = (first.abs : Int) - t' := httl'
    have hsame := abs_eq_of_sid_eq hfresh hcreated hcreated' (by rw [hown, hfirst])
    have hexp : E = stored.abs := by
      rw [hE, httl']
      simp only [MemoryStore.lifetime]
      omega
    have hkept := memoryEnv_keeps_claim henv hget hlive
    rw [hkept, hexp]

end

/-! ## Any number of requests -/

section
variable {σ : Type} {env : Environment effects σ} {s : σ} {v : World (gateway rt config) σ}

/-- The end of a session is recorded after its claim, or when its time is up. -/
theorem ended_of_mem (h : Reachable (gateway rt config) env s v) {th : Thread (gateway rt config)}
    (hth : th ∈ v.threads) {session : Session} (hended : session ∈ ended th.trace) :
    ∃ stored pre e post, session = migrate stored ∧ th.trace = pre ++ e :: post ∧
      Ended config stored pre e.time := by
  obtain ⟨e, he, hop⟩ := mem_ended.mp hended
  obtain ⟨pre, post, htr⟩ := List.append_of_mem he
  obtain ⟨endpoint, request, -, hguard⟩ := guard_at h hth htr (by rw [hop]; rfl)
  rw [hop] at hguard
  generalize ho : Op.note (.sessionEnded session) = o at hguard
  cases hguard with
  | limiting hlimiting =>
    subst ho
    exact absurd hlimiting (not_limiting rfl)
  | ended hend => exact ⟨_, pre, e, post, Note.sessionEnded.inj (Op.note.inj ho), htr, hend⟩
  | _ => cases ho

theorem created_of_ended (hstore : config.stateStore = true) (h : Reachable (gateway rt config) env s v)
    {th : Thread (gateway rt config)} (hth : th ∈ v.threads) {session : Session}
    (hended : session ∈ ended th.trace) : ∃ c ∈ created v.log, DescendsFrom c session := by
  obtain ⟨stored, pre, e, post, rfl, htr, hend⟩ := ended_of_mem h hth hended
  suffices hstored : ∃ c ∈ created v.log, DescendsFrom c stored by
    obtain ⟨c, hc, hd⟩ := hstored
    exact ⟨c, hc, by rw [migrate_sid, hd.sid], by rw [migrate_abs, hd.abs]⟩
  cases hend with
  | @revoked h₀ t₀ fresh hbefore hpast =>
    have hclaim : (⟨t₀, .store (.claim (revocationKey stored.sid) ((stored.abs : Int) - t₀)),
        (.ok fresh : Except JsError Bool)⟩ : Event effects) ∈ th.trace := by
      rw [htr, hpast]
      simp
    obtain ⟨own, hown, ⟨c, hc, hd⟩, -, httl⟩ := revoked_of_claim h (h.mem_log hth hclaim) rfl
    have habs : own.abs = stored.abs := by
      have httl : (stored.abs : Int) - t₀ = own.abs - t₀ := httl
      omega
    exact ⟨c, hc, by rw [← hown, hd.sid], by rw [← habs, hd.abs]⟩
  | @late h₀ t₀ hafter hpast =>
    have haccepted : th.trace = h₀ ++ acceptance stored t₀ :: e :: post := by
      rw [htr, hpast]
      simp
    exact created_of_accepted h hth haccepted
  | storeless hnone =>
    rw [hstore] at hnone
    cases hnone

end

theorem created_append {es es' : List (Event effects)} : created (es ++ es') = created es ++ created es' := by
  simp [created, notes, List.filterMap_append]

/-- After the end of a session its revocation is not denied any more, as long as a copy
of it could still be accepted. -/
theorem not_denied (hstore : config.stateStore = true)
    (h₁ : Reachable (gateway rt config) (memoryEnv maxEntries) .empty w₁)
    (h₂ : Reachable (gateway rt config) (memoryEnv maxEntries) .empty w₂) (hfresh : FreshSids w₂)
    {es : List (Event effects)} (hext : w₁.Extends (memoryEnv maxEntries) w₂ es)
    {L : Thread (gateway rt config)} (hL : L ∈ w₁.threads) (htime : ClaimsInTime L) {session : Session}
    (hended : session ∈ ended L.trace) {t : Nat} (ht : t ≤ session.abs) :
    notRevoked session.sid t ∉ es := by
  intro hdenied
  obtain ⟨mid, rest, rfl⟩ := List.append_of_mem hdenied
  obtain ⟨stored, pre, e, post, rfl, htr, hend⟩ := ended_of_mem h₁ hL hended
  rw [migrate_abs] at ht
  rw [migrate_sid] at hext
  cases hend with
  | @revoked h₀ t₀ fresh hbefore hpast =>
    -- the claim stands when the question is put
    let c : Event effects := ⟨t₀, .store (.claim (revocationKey stored.sid) ((stored.abs : Int) - t₀)),
      (.ok fresh : Except JsError Bool)⟩
    obtain ⟨a, b, hsplit⟩ := List.append_of_mem (h₁.mem_log hL (e := c) (by rw [htr, hpast]; simp [c]))
    have hlog : w₂.log = a ++ c :: ((b ++ mid) ++ notRevoked stored.sid t :: rest) := by
      rw [hext.log, hsplit]
      simp
    obtain ⟨s₁, hrest, hget⟩ := claimed_until_abs h₂ hfresh hlog rfl
    obtain ⟨s₂, s₃, hmid, -, henv, -⟩ := hrest.split
    have hlive := replays_keep_claim hmid hget fun x hx => Nat.le_trans (hrest.before x hx) ht
    have hhas : s₂.has t (revocationKey stored.sid) = ((.ok false : Except JsError Bool), s₃) := henv
    have hfound := MemoryStore.has_of_live hlive ht
    rw [hhas] at hfound
    cases hfound
  | @late h₀ t₀ hafter hpast =>
    -- the lifetime was over before the question
    have hne : e.time ≠ stored.abs := htime h₀ stored t₀ e post (by rw [htr, hpast]; simp)
    have hclock := ((h₁.threads_sound L hL).timed e (by rw [htr]; simp)).2
    obtain ⟨-, -, -, hle, -, -⟩ := hext.replays.split
    have hle : w₁.clock ≤ t := hle
    omega
  | storeless hnone =>
    rw [hstore] at hnone
    cases hnone

/-- What stands behind a prefix is in the rest. -/
theorem mem_of_append_eq {α : Type} {a b c d : List α} {x : α} (h : a ++ b = c ++ x :: d)
    (hlen : a.length ≤ c.length) : x ∈ b := by
  have hdrop := congrArg (List.drop a.length) h
  rw [List.drop_left, List.drop_append_of_le_length hlen] at hdrop
  rw [hdrop]
  simp

namespace Sample

/-- Ann signs in, and logs out at `time`. -/
def loggedOut (time : Nat) : Server := after (signIn "notes" "" ++ [logout time 3])

/-- The same, and the cookie is presented again. -/
def readAgain (time later : Nat) : Server :=
  World.script oracle replyTokens 100 [readBack later 3] (loggedOut time)

theorem readAgain_runs (time later : Nat) :
    Runs (gateway runtime Sample.config) (memoryEnv 1000) (loggedOut time) (readAgain time later) :=
  Runs.script oracle_within gateway_lists 100 [readBack later 3] (loggedOut time)

/-- A call that reads a session and does nothing else. -/
def reads : Call → Bool
  | .readSession _ _ => true
  | _ => false

end Sample

/-- A request of which nothing happens when a session that it accepts ends is in time. -/
theorem ClaimsInTime.of_times {th : Thread (gateway rt config)}
    (h : ∀ stored ∈ accepted th.trace, ∀ e ∈ th.trace, e.time ≠ stored.abs) : ClaimsInTime th := by
  intro pre stored t e post htr
  refine h stored (mem_accepted.mpr ⟨acceptance stored t, ?_, rfl⟩) e ?_ <;> rw [htr] <;> simp

end Sag
