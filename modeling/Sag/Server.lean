import Sag.Endpoints.Token
import Sag.Gateway
import Sag.Lib.Extension

/-!
# The whole server

The gateway with the token endpoint and `/userinfo`: all calls in one system, interleaved
at every call they await. The codes that a relying party redeems were handed out by the
gateway, the access tokens by the token endpoint.

Seen without the service, a run of the server is a run of the gateway (`Runs.restrict`), so
what is known of the gateway in every environment is known here.
-/

namespace Sag

open Resumable

variable (rt : Runtime) (config : Config)

def runService : ServiceCall → M ServiceReply
  | .token request => handleToken rt config request
  | .userinfo request => handleUserinfo rt config request

/-- The tokens a call of the service hands in. -/
def serviceHandsIn : ServiceCall → Sealed ⊕ AccessToken → Prop
  | .token request, .inl tok => request.presents tok
  | .userinfo request, .inr grant => request.presents grant
  | _, _ => False

/-- The access tokens a reply hands out. -/
def serviceHandsOut : ServiceReply → AccessToken → Prop
  | .tokens accessToken _ _ _, tok => tok = accessToken
  | _, _ => False

@[reducible] def service : Extension (gateway rt config) where
  Req := ServiceCall
  Out := ServiceReply
  Tok := AccessToken
  prog := runService rt config
  presents := serviceHandsIn
  releases := serviceHandsOut

@[reducible] def server : System effects := (gateway rt config).extend (service rt config)

variable {rt config}

/-- A call of the service under its contract. -/
theorem service_meets (call : ServiceCall) (C : Rely effects) :
    (runService rt config call).Sat ⟨C, TokenGuard rt config⟩ (fun _ _ => True)
      (fun _ reply => Answered rt config C call reply) ⟨none, []⟩ := by
  cases call with
  | token request => exact handleToken_ensures (fun _ _ _ h => h) request _
  | userinfo request =>
    have hC : Routine ⟨C, TokenGuard rt config⟩ := fun _ _ _ ho => TokenGuard.routine ho
    exact handleUserinfo_ensures hC request _

/-- What a call of the server may issue. -/
def serverGuard (rt : Runtime) (config : Config) : Call ⊕ ServiceCall →
    Rely effects → List (Event effects) → Nat → Op → Prop :=
  Sum.elim (callGuard rt config) fun _ _ => TokenGuard rt config

theorem server_meets : (server rt config).Meets (serverGuard rt config)
    (eitherPromise (callPromise rt config) fun call C reply => Answered rt config C call reply) :=
  gateway_meets.extend (X := service rt config) service_meets

variable {σ : Type} {env : Environment effects σ} {s : σ} {w : World (server rt config) σ}

/-- What a thread of the server issues, it may issue after what it has itself performed. -/
theorem server_guarantee (h : Reachable (server rt config) env s w) {th : Thread (server rt config)}
    (hth : th ∈ w.threads) {pre post : List (Event effects)} {e : Event effects} (htr : th.trace = pre ++ e :: post) :
    serverGuard rt config th.req (during th.start e.time (seen w.log)) pre e.time e.op :=
  (h.threads_sound th hth).guarantee server_meets htr fun x hx =>
    h.mem_log hth (by rw [htr]; exact List.mem_append_left _ hx)

/-- What the service answers. -/
theorem answered_of_stop (h : Reachable (server rt config) env s w) {th : Thread (server rt config)}
    (hth : th ∈ w.threads) {call : ServiceCall} (hreq : th.req = .inr call) {t : Nat} {reply : ServiceReply}
    (hstop : th.stop = some (t, .ok (.inr reply))) :
    Answered rt config (during th.start t (seen th.trace)) call reply := by
  have hanswer := (h.threads_sound th hth).result server_meets (R := seen th.trace) (fun _ he => he) hstop
  rw [hreq] at hanswer
  exact hanswer

end Sag
