import Sag.Endpoints.Logout
import Sag.Store.Runs

/-!
# The gateway

Everything the gateway does, as one system: any number of requests to the
interactive endpoints, of logouts, of reads of a session, of redemptions of a
code and of rekeying runs, interleaved at every call they await.

A request may submit any strings, but a token among them has to have been handed
out before; that is `gateway`'s `presents` and `releases`. `gateway_meets`
collects what the handlers do, and `Good.sound` turns a fact about `Derived` into
one about every token of a run: each safety property is an instance of it.

The shared state is what a property is about: the state store (`memoryEnv`), the
local identity documents (`documentsEnv`), or nothing at all.
-/

namespace Sag

open Resumable

variable (rt : Runtime) (config : Config)

/-- The routes of the interactive flow. -/
def handle (request : Request) : Endpoint → M Response
  | .authorize => handleAuthorize rt config request
  | .email => handleEmailSubmit rt config request
  | .otpRequest => handleOtpRequest rt config request
  | .resend => handleResend rt config request
  | .otpSubmit => handleOtpSubmit rt config request
  | .localPassword => handleLocalPassword rt config request
  | .localMfa => handleLocalMfa rt config request
  | .restart => handleRestart rt config request
  | .continue => handleContinue rt config request
  | .chooseUpstream => handleChooseUpstream rt config request
  | .callback => handleCallback rt config request
  | .logout => handleLogout rt config request

/-- What the gateway is called for. -/
inductive Call where
  | serve (endpoint : Endpoint) (request : Request)
  | finish (request : Request) (opts : LogoutOptions)
  | readSession (request : Request) (clientId : Option JsString)
  | readSessionByName (request : Request) (name : JsString)
  | redeem (r : Redemption)
  | rekeyAll (keys : List JsString)

/-- What it answers. -/
inductive Reply where
  | response (response : Response)
  | session (session : Option Session)
  | redeemed (payload : CodePayload)
  | rekeyed (changed unchanged : Nat)

def runCall : Call → M Reply
  | .serve endpoint request => .response <$> handle rt config request endpoint
  | .finish request opts => .response <$> finish rt config request opts
  | .readSession request clientId => .session <$> readSession rt config request clientId
  | .readSessionByName request name => .session <$> readSessionByName config request name
  | .redeem r => .redeemed <$> redeemCode rt config.stateStore r
  | .rekeyAll keys => (fun r => .rekeyed r.1 r.2) <$> rekeyAll rt keys

/-- The endpoint and the request behind a call. Reading a session is part of what
a logout does. -/
def Call.served : Call → Option (Endpoint × Request)
  | .serve endpoint request => some (endpoint, request)
  | .finish request _ | .readSession request _ | .readSessionByName request _ => some (.logout, request)
  | .redeem _ | .rekeyAll _ => none

/-- The tokens a call hands in. -/
def handsIn (call : Call) (tok : Sealed) : Prop :=
  match call with
  | .redeem r => r.code.opens = some tok
  | call => ∃ p, call.served = some p ∧ p.2.presents tok

/-- The tokens a reply hands out. -/
def handsOut : Reply → Sealed → Prop
  | .response response, tok => tok ∈ response.tokens
  | _, _ => False

@[reducible] def gateway : System effects where
  Req := Call
  Out := Reply
  Tok := Sealed
  prog := runCall rt config
  presents := handsIn
  releases := handsOut

/-! ## What a call keeps to -/

/-- What a call may issue. -/
def callGuard : Call → Rely effects → List (Event effects) → Nat → Op → Prop
  | .redeem r, _ => RedeemGuard rt r
  | .rekeyAll _, C => fun _ _ o => o.routine = true ∨ ∃ record change,
      ReadRecord rt C record ∧ Update C record change ∧ change.isFactor = false ∧
        o = replaceOp record change
  | .serve endpoint request, C => Guard rt config C endpoint request
  | .finish request _, C | .readSession request _, C | .readSessionByName request _, C =>
    Guard rt config C .logout request

/-- What a reply hands out, and where it sends the browser. -/
def callPromise (call : Call) (C : Rely effects) : Reply → Prop
  | .response response =>
    ∃ endpoint request, call.served = some (endpoint, request) ∧ Safe rt config C endpoint request response
  | _ => True

variable {rt config}

/-- A handler under its contract. -/
theorem handle_ensures {C : Contract effects} {endpoint : Endpoint} {request : Request}
    (hG : Guarded rt config C endpoint request) :
    Ensures C (handle rt config request endpoint) (Safe rt config C endpoint request) := by
  cases endpoint with
  | authorize => exact handleAuthorize_ensures hG
  | email => exact handleEmailSubmit_ensures hG
  | otpRequest => exact handleOtpRequest_ensures hG
  | resend => exact handleResend_ensures hG
  | otpSubmit => exact handleOtpSubmit_ensures hG
  | localPassword => exact handleLocalPassword_ensures hG
  | localMfa => exact handleLocalMfa_ensures hG
  | restart => exact handleRestart_ensures hG
  | «continue» => exact handleContinue_ensures hG
  | chooseUpstream => exact handleChooseUpstream_ensures hG
  | callback => exact handleCallback_ensures hG
  | logout => exact handleLogout_ensures hG

/-- A response is as safe as the handler that makes it. -/
theorem response_ensures {C : Contract effects} {call : Call} {endpoint : Endpoint} {request : Request}
    {p : M Response} (hcall : call.served = some (endpoint, request))
    (hp : Ensures C p (Safe rt config C endpoint request)) :
    Ensures C (Reply.response <$> p) (callPromise rt config call C) :=
  andThen_ensures hp fun _ hsafe => pure_ensures ⟨endpoint, request, hcall, hsafe⟩

/-- A reply that is no response promises nothing. -/
theorem silent_ensures {C : Contract effects} {call : Call} {α : Type} {p : M α} {f : α → Reply}
    {P : α → Prop} (hf : ∀ a, callPromise rt config call C (f a)) (hp : Ensures C p P) :
    Ensures C (f <$> p) (callPromise rt config call C) :=
  andThen_ensures hp fun a _ => pure_ensures (hf a)

/-- Every call keeps to its guard, under any reliance. -/
theorem gateway_meets : (gateway rt config).Meets (callGuard rt config) (callPromise rt config) := by
  intro call C
  cases call with
  | serve endpoint request =>
    have hG : Guarded rt config ⟨C, Guard rt config C endpoint request⟩ endpoint request := fun _ _ _ h => h
    exact response_ensures rfl (handle_ensures hG) _
  | finish request opts =>
    have hG : Guarded rt config ⟨C, Guard rt config C .logout request⟩ .logout request := fun _ _ _ h => h
    exact response_ensures rfl (finish_ensures hG opts) _
  | readSession request clientId =>
    have hG : Guarded rt config ⟨C, Guard rt config C .logout request⟩ .logout request := fun _ _ _ h => h
    exact silent_ensures (f := .session) (fun _ => trivial) (readSession_ensures hG.lets_routine hG.admits clientId) _
  | readSessionByName request name =>
    have hG : Guarded rt config ⟨C, Guard rt config C .logout request⟩ .logout request := fun _ _ _ h => h
    exact silent_ensures (f := .session) (fun _ => trivial) (readSessionByName_ensures hG.lets_routine hG.admits name) _
  | redeem r =>
    have hsat := redeemCode_sat (C := ⟨C, RedeemGuard rt r⟩) (fun _ _ _ h => h) config.stateStore
    exact Prog.sat_bind.mpr (hsat.mono (fun _ _ _ => trivial) fun _ _ _ => trivial)
  | rekeyAll keys =>
    let C' : Contract effects := ⟨C, callGuard rt config (.rekeyAll keys) C⟩
    have hC : Routine C' := fun _ _ _ ho => Or.inl ho
    exact silent_ensures (f := fun r => .rekeyed r.1 r.2) (fun _ => trivial) (rekeyAll_ensures hC
      (fun record change hread hupdate hfactor _ _ => Or.inr ⟨record, change, hread, hupdate, hfactor, rfl⟩)
      keys) _

/-- A call hands in what its request presents. -/
theorem handsIn_of_served {call : Call} {endpoint : Endpoint} {request : Request} {tok : Sealed}
    (hserved : call.served = some (endpoint, request)) (htok : request.presents tok) :
    handsIn call tok := by
  cases call with
  | redeem r => cases hserved
  | _ => exact ⟨_, hserved, htok⟩

theorem eq_serve_of_served {call : Call} {endpoint : Endpoint} {request : Request}
    (h : call.served = some (endpoint, request)) (hne : endpoint ≠ .logout) :
    call = .serve endpoint request := by
  cases call <;> simp only [Call.served, Option.some.injEq, Prod.mk.injEq, reduceCtorEq] at h
  · rw [h.1, h.2]
  all_goals exact absurd h.1.symm hne

/-! ## Reading a run -/

/-- The replies that the events `es` have seen. -/
def seen (es : List (Event effects)) : Nat → (o : Op) → o.Ans → Prop := fun t o a => ⟨t, o, a⟩ ∈ es

/-- What the events record. -/
def notes (es : List (Event effects)) : List Note :=
  es.filterMap fun e =>
    match e.op with
    | .note n => some n
    | _ => none

/-- The codes that were issued, each with its transaction. -/
def issued (es : List (Event effects)) : List (Transaction × CodePayload) :=
  (notes es).filterMap fun
    | .codeIssued tx payload => some (tx, payload)
    | _ => none

/-- The sessions that were created. -/
def created (es : List (Event effects)) : List Session :=
  (notes es).filterMap fun
    | .sessionCreated session => some session
    | _ => none

/-- The messages that were handed to the email sender. -/
def sent (es : List (Event effects)) : List EmailMessage :=
  es.filterMap fun e =>
    match e.op with
    | .sendEmail message => some message
    | _ => none

theorem mem_notes {es : List (Event effects)} {n : Note} : n ∈ notes es ↔ ∃ e ∈ es, e.op = .note n := by
  simp only [notes, List.mem_filterMap]
  refine exists_congr fun e => and_congr_right fun _ => ?_
  split <;> simp_all

theorem mem_issued {es : List (Event effects)} {tx : Transaction} {payload : CodePayload} :
    (tx, payload) ∈ issued es ↔ ∃ e ∈ es, e.op = .note (.codeIssued tx payload) := by
  rw [← mem_notes, issued, List.mem_filterMap]
  constructor
  · rintro ⟨n, hn, heq⟩
    split at heq <;> simp_all
  · exact fun h => ⟨_, h, rfl⟩

theorem mem_created {es : List (Event effects)} {session : Session} :
    session ∈ created es ↔ ∃ e ∈ es, e.op = .note (.sessionCreated session) := by
  rw [← mem_notes, created, List.mem_filterMap]
  constructor
  · rintro ⟨n, hn, heq⟩
    split at heq <;> simp_all
  · exact fun h => ⟨_, h, rfl⟩

theorem mem_sent {es : List (Event effects)} {message : EmailMessage} :
    message ∈ sent es ↔ ∃ e ∈ es, e.op = .sendEmail message := by
  simp only [sent, List.mem_filterMap]
  refine exists_congr fun e => and_congr_right fun _ => ?_
  split <;> simp_all

variable {σ : Type} {env : Environment effects σ} {s : σ} {w : World (gateway rt config) σ}

/-- What a thread of a run issues, it may issue after what it has itself seen
by then. -/
theorem guarantee_of_mem (h : Reachable (gateway rt config) env s w)
    {th : Thread (gateway rt config)} (hth : th ∈ w.threads) {pre post : List (Event effects)}
    {e : Event effects} (htr : th.trace = pre ++ e :: post) :
    callGuard rt config th.req (during th.start e.time (seen pre)) pre e.time e.op :=
  (h.threads_sound th hth).guarantee gateway_meets htr fun _ hx => hx

/-- The same, with the log in the place of what the thread has seen. -/
theorem guarantee_of_log (h : Reachable (gateway rt config) env s w)
    {th : Thread (gateway rt config)} (hth : th ∈ w.threads) {pre post : List (Event effects)}
    {e : Event effects} (htr : th.trace = pre ++ e :: post) :
    callGuard rt config th.req (during th.start e.time (seen w.log)) pre e.time e.op :=
  (h.threads_sound th hth).guarantee gateway_meets htr fun x hx =>
    h.mem_log hth (by rw [htr]; exact List.mem_append_left _ hx)

/-- The operations that only an endpoint issues. -/
def interactive : Op → Bool
  | .note _ | .sendEmail _ => true
  | _ => false

theorem not_routine {o : Op} (ho : interactive o = true) : ¬ o.routine = true := by
  intro h
  cases o <;> cases ho <;> cases h

theorem not_limiting {C : Rely effects} {o : Op} (ho : interactive o = true) : ¬ Limiting C config o := by
  rintro (h | ⟨_, _, -, -, rfl⟩)
  · exact not_routine ho h
  · cases ho

/-- What only an endpoint issues, the guard of its endpoint lets it issue. -/
theorem guard_of_callGuard {call : Call} {C : Rely effects} {pre : List (Event effects)} {t : Nat} {o : Op}
    (hguard : callGuard rt config call C pre t o) (ho : interactive o = true) :
    ∃ endpoint request, call.served = some (endpoint, request) ∧ Guard rt config C endpoint request pre t o := by
  cases call with
  | redeem r =>
    cases hguard with
    | suspend => cases ho
    | claim hopens hchecks hunexpired => cases ho
  | rekeyAll keys =>
    rcases hguard with hroutine | ⟨_, _, _, _, _, heq⟩
    · exact absurd hroutine (not_routine ho)
    · rw [heq] at ho
      cases ho
  | _ => exact ⟨_, _, rfl, hguard⟩

/-- So it is in a run, whatever holds of the replies before. -/
theorem guard_relying (h : Reachable (gateway rt config) env s w) {th : Thread (gateway rt config)}
    (hth : th ∈ w.threads) {pre post : List (Event effects)} {e : Event effects}
    (htr : th.trace = pre ++ e :: post) (ho : interactive e.op = true)
    {R : Nat → (o : Op) → o.Ans → Prop} (hR : ∀ x ∈ pre, R x.time x.op x.ans) :
    ∃ endpoint request, th.req.served = some (endpoint, request) ∧
      Guard rt config (during th.start e.time R) endpoint request pre e.time e.op :=
  guard_of_callGuard ((h.threads_sound th hth).guarantee gateway_meets htr hR) ho

/-- The same, with the log in the place of what the thread has seen. -/
theorem guard_at (h : Reachable (gateway rt config) env s w) {th : Thread (gateway rt config)}
    (hth : th ∈ w.threads) {pre post : List (Event effects)} {e : Event effects}
    (htr : th.trace = pre ++ e :: post) (ho : interactive e.op = true) :
    ∃ endpoint request, th.req.served = some (endpoint, request) ∧
      Guard rt config (during th.start e.time (seen w.log)) endpoint request pre e.time e.op :=
  guard_relying h hth htr ho fun x hx => h.mem_log hth (by rw [htr]; exact List.mem_append_left _ hx)

theorem guard_of_interactive (h : Reachable (gateway rt config) env s w) {th : Thread (gateway rt config)}
    (hth : th ∈ w.threads) {e : Event effects} (he : e ∈ th.trace) (ho : interactive e.op = true) :
    ∃ endpoint request pre, th.req.served = some (endpoint, request) ∧
      Guard rt config (during th.start e.time (seen w.log)) endpoint request pre e.time e.op := by
  obtain ⟨pre, post, htr⟩ := List.append_of_mem he
  obtain ⟨endpoint, request, hserved, hguard⟩ := guard_at h hth htr ho
  exact ⟨endpoint, request, pre, hserved, hguard⟩

/-- A code is issued for a completed transaction. -/
theorem completion_of_issued (h : Reachable (gateway rt config) env s w) {th : Thread (gateway rt config)}
    (hth : th ∈ w.threads) {e : Event effects} (he : e ∈ th.trace) {tx : Transaction}
    {payload : CodePayload} (hop : e.op = .note (.codeIssued tx payload)) :
    ∃ endpoint request session, th.req.served = some (endpoint, request) ∧
      Completion rt config (during th.start e.time (seen w.log)) request endpoint tx session ∧
        Minted config (during th.start e.time (seen w.log)) tx session payload := by
  obtain ⟨endpoint, request, pre, hserved, hguard⟩ := guard_of_interactive h hth he (by rw [hop]; rfl)
  rw [hop] at hguard
  cases hguard with
  | limiting hlimiting => exact absurd hlimiting (not_limiting rfl)
  | issued hcompletion hminted => exact ⟨_, _, _, hserved, hcompletion, hminted⟩

/-- A session is created for somebody who signs in. -/
theorem signIn_of_created (h : Reachable (gateway rt config) env s w) {th : Thread (gateway rt config)}
    (hth : th ∈ w.threads) {e : Event effects} (he : e ∈ th.trace) {session : Session}
    (hop : e.op = .note (.sessionCreated session)) :
    ∃ endpoint request tx args now sid, th.req.served = some (endpoint, request) ∧
      SignIn rt config (during th.start e.time (seen w.log)) request endpoint tx args ∧
        th.start ≤ now ∧ now ≤ e.time ∧ session = newSessionAt config now sid args := by
  obtain ⟨endpoint, request, pre, hserved, hguard⟩ := guard_of_interactive h hth he (by rw [hop]; rfl)
  rw [hop] at hguard
  cases hguard with
  | limiting hlimiting => exact absurd hlimiting (not_limiting rfl)
  | created hsign htick => exact ⟨_, _, _, _, _, _, hserved, hsign, htick.1, htick.2, rfl⟩

/-- A message goes to an address that may sign in by code. -/
theorem allowed_of_sent (h : Reachable (gateway rt config) env s w) {message : EmailMessage}
    (hsent : message ∈ sent w.log) : otpAllowed rt config message.«to» = true := by
  obtain ⟨e, hlog, hop⟩ := mem_sent.mp hsent
  obtain ⟨th, hth, he⟩ := h.exists_thread hlog
  obtain ⟨endpoint, request, pre, -, hguard⟩ := guard_of_interactive h hth he (by rw [hop]; rfl)
  rw [hop] at hguard
  cases hguard with
  | limiting hlimiting => exact absurd hlimiting (not_limiting rfl)
  | send hpresented hedit haddressed hallowed hcharged => exact hallowed

/-- What a response hands out is derived, whatever holds of the replies. -/
theorem derived_relying (h : Reachable (gateway rt config) env s w) {th : Thread (gateway rt config)}
    (hth : th ∈ w.threads) {t : Nat} {reply : Reply} (hstop : th.stop = some (t, .ok reply))
    {tok : Sealed} (hout : handsOut reply tok) {R : Nat → (o : Op) → o.Ans → Prop}
    (hR : ∀ x ∈ th.trace, R x.time x.op x.ans) :
    ∃ endpoint request, th.req.served = some (endpoint, request) ∧
      Derived rt config (during th.start t R) endpoint request tok := by
  have hpromise := (h.threads_sound th hth).result gateway_meets hR hstop
  cases reply with
  | response response =>
    obtain ⟨endpoint, request, hserved, hsafe⟩ := hpromise
    exact ⟨endpoint, request, hserved, hsafe.tokens tok hout⟩
  | _ => cases hout

/-- What a response hands out is derived. -/
theorem derived_of_released (h : Reachable (gateway rt config) env s w) {th : Thread (gateway rt config)}
    (hth : th ∈ w.threads) {t : Nat} {reply : Reply} (hstop : th.stop = some (t, .ok reply))
    {tok : Sealed} (hout : handsOut reply tok) :
    ∃ endpoint request, th.req.served = some (endpoint, request) ∧
      Derived rt config (during th.start t (seen w.log)) endpoint request tok :=
  derived_relying h hth hstop hout fun _ he => h.mem_log hth he

/-- Where a response sends the browser, it may. -/
theorem aimed_of_answered (h : Reachable (gateway rt config) env s w) {th : Thread (gateway rt config)}
    (hth : th ∈ w.threads) {t : Nat} {response : Response} (hstop : th.stop = some (t, .ok (.response response)))
    {target : RedirectTargets} (htarget : response.body.target? = some target) :
    ∃ endpoint request, th.req.served = some (endpoint, request) ∧
      Aimed rt config (during th.start t (seen w.log)) endpoint request target := by
  obtain ⟨endpoint, request, hserved, hsafe⟩ :=
    (h.threads_sound th hth).result gateway_meets (R := seen w.log)
    (fun _ he => h.mem_log hth he) hstop
  exact ⟨endpoint, request, hserved, hsafe.aimed target htarget⟩

/-- A property of tokens that lasts. -/
structure Good (P : Nat → Sealed → Prop) : Prop where
  mono : ∀ t t' tok, t ≤ t' → P t tok → P t' tok

/-- Where responses turn good tokens into good tokens, every token of a run is
good, and every thread began with good tokens. -/
theorem Good.sound {P : Nat → Sealed → Prop} (hP : Good P) {V : Call → Prop}
    (h : Reachable (gateway rt config) env s w) (hV : ∀ th ∈ w.threads, V th.req)
    (derive : ∀ call endpoint request start stop, V call → call.served = some (endpoint, request) →
      start ≤ stop → (∀ tok, request.presents tok → P start tok) →
      ∀ tok, Derived rt config (during start stop (seen w.log)) endpoint request tok → P stop tok) :
    (∀ tok, w.Known tok → P w.clock tok) ∧ ∀ th ∈ w.threads, th.Honest P := by
  refine System.sound gateway_meets (R := seen w.log) hP.mono ?_ h hV fun _ he => he
  intro call start stop reply hcall hle hpres hpromise tok htok
  cases reply with
  | response response =>
    obtain ⟨endpoint, request, hserved, hsafe⟩ := hpromise
    exact derive call endpoint request start stop hcall hserved hle
      (fun tok' h' => hpres tok' (handsIn_of_served hserved h')) tok (hsafe.tokens tok htok)
  | _ => cases htok

end Sag
