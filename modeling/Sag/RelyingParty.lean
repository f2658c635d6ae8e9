import Sag.Browser
import Sag.Server

/-!
# Relying parties

Requests as a relying party makes them, next to those of the browsers: a code is redeemed
and an access token presented that was handed out before. Every list of such visits is a
run of the server (`operate_reachable`).
-/

namespace Sag

open Resumable

section
variable {rt : Runtime} {config : Config} {σ : Type}

/-- What a reply of the server hands out. -/
def serverTokens : Reply ⊕ ServiceReply → List (Sealed ⊕ AccessToken)
  | .inl reply => (replyTokens reply).map .inl
  | .inr (.tokens accessToken _ _ _) => [.inr accessToken]
  | .inr _ => []

theorem server_lists : Lists (server rt config) serverTokens := by
  intro reply tok htok
  cases reply with
  | inl reply =>
    obtain ⟨own, hown, rfl⟩ := List.mem_map.mp htok
    exact ⟨own, rfl, @gateway_lists rt config reply own hown⟩
  | inr reply =>
    cases reply with
    | tokens accessToken idToken expiresIn scope =>
      exact ⟨accessToken, List.mem_singleton.mp htok, rfl⟩
    | _ => cases htok

/-- The sealed tokens among those that were handed out. -/
def sealedTokens (toks : List (Sealed ⊕ AccessToken)) : List Sealed := toks.filterMap Sum.getLeft?

def accessTokens (toks : List (Sealed ⊕ AccessToken)) : List AccessToken := toks.filterMap Sum.getRight?

theorem mem_of_sealedTokens {toks : List (Sealed ⊕ AccessToken)} {tok : Sealed} (h : tok ∈ sealedTokens toks) :
    .inl tok ∈ toks := by
  obtain ⟨x, hx, heq⟩ := List.mem_filterMap.mp h
  rwa [← Sum.getLeft?_eq_some_iff.mp heq]

/-- A visit of a browser, while the whole server runs. -/
def besides (v : Visit (gateway rt config)) : Visit (server rt config) where
  time := v.time
  req toks := .inl (v.req (sealedTokens toks))
  own := by
    intro toks tok htok
    obtain ⟨own, rfl, hpresents⟩ := htok
    exact mem_of_sealedTokens (v.own _ own hpresents)

/-- A relying party calls the token endpoint. -/
def tokenVisit (time : Nat) (fields : List (String × Param)) : Visit (server rt config) where
  time
  req toks := .inr (.token ⟨.ok (form (sealedTokens toks) fields), none⟩)
  own := by
    intro toks tok htok
    cases tok with
    | inr grant => cases htok
    | inl tok =>
      obtain ⟨v, hv, hopens⟩ := htok
      have hrequest : (browserRequest (sealedTokens toks) true fields []).presents tok := by
        refine ⟨v, ?_, hopens⟩
        simpa [browserRequest, Request.values, Except.toOption, form] using hv
      exact mem_of_sealedTokens (mem_of_browserRequest hrequest)

/-- A relying party presents the `i`-th access token. -/
def userinfoVisit (time i : Nat) : Visit (server rt config) where
  time
  req toks := .inr (.userinfo ⟨false, none, .ok [], some (js "Bearer token"), fun _ => (accessTokens toks)[i]?⟩)
  own := by
    intro toks tok htok
    cases tok with
    | inl tok => cases htok
    | inr grant =>
      obtain ⟨_, hopens⟩ := htok
      obtain ⟨x, hx, heq⟩ := List.mem_filterMap.mp (List.mem_of_getElem? hopens)
      rwa [← Sum.getRight?_eq_some_iff.mp heq]

/-- The world after the visits, from the beginning. -/
def operate (answer : Oracle effects σ) (s : σ) (vs : List (Visit (server rt config))) :
    World (server rt config) σ :=
  (World.init (server rt config) s).script answer serverTokens 100 vs

theorem operate_reachable {answer : Oracle effects σ} {env : Environment effects σ}
    (hans : answer.Within env) (s : σ) (vs : List (Visit (server rt config))) :
    Reachable (server rt config) env s (operate answer s vs) :=
  Runs.script hans server_lists 100 vs _

end

end Sag
