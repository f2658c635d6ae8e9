import Sag.Properties.Acr
import Sag.Properties.Sessions
import Sag.RelyingParty
import Sag.Told

/-!
# What an upstream can put into an answer

What is kept of a person travels in the session, in the code and in the access token. The
handlers that complete a sign-in are walked through once more, for the claims of the
session they hand out; of the others it is enough that they complete with a session they
were handed. So every code carries claims that were gathered (`vouches_of_known`), every
access token is made from such a code, and an answer contains them
(`answers_uninjected`).
-/

namespace Sag

open Resumable

variable {rt : Runtime} {config : Config}

/-! ## The four ways to sign in -/

/-- A contract that lets everything be issued. -/
def Lenient (C : Contract effects) : Prop := ∀ h t o, C.issue h t o

/-- What is handed out carries nothing but gathered claims. -/
def Carries (rt : Runtime) (config : Config) : Sealed → Prop
  | .session s => Gathered rt config s.claims
  | .code payload => Gathered rt config payload.claims
  | _ => True

def Clean (rt : Runtime) (config : Config) (response : Response) : Prop :=
  ∀ tok ∈ response.tokens, Carries rt config tok

section
variable {C : Contract effects} {request : Request}

/-- Nothing is asked of the result. -/
theorem Lenient.whatever (hC : Lenient C) {α : Type} (p : M α) : Ensures C p fun _ => True := by
  intro s
  induction p generalizing s with
  | pure a => trivial
  | throw e => trivial
  | clock k ih => exact fun t _ => ih t _
  | call o k ih => exact fun t _ => ⟨hC _ _ _, fun a _ => ih a _⟩

/-- What comes before the last step does not matter. -/
theorem Lenient.after (hC : Lenient C) {α β : Type} {p : M α} {f : α → M β} {Q : β → Prop}
    (h : ∀ a, Ensures C (f a) Q) : Ensures C (p >>= f) Q :=
  andThen_ensures (hC.whatever p) fun a _ => h a

theorem Lenient.routine (hC : Lenient C) : Routine C := fun _ _ _ _ => hC _ _ _

theorem clean_nothing {response : Response} (h : response.tokens = []) : Clean rt config response := by
  intro tok htok
  rw [h] at htok
  cases htok

theorem clean_page {body : Body} {status : Nat} {tok : Sealed} (h : body.tokens = [tok])
    (htok : Carries rt config tok) : Clean rt config (html body status) := by
  intro tok' htok'
  rw [html_tokens, h] at htok'
  exact List.mem_singleton.mp htok' ▸ htok

theorem carries_memory {tok : Sealed} (h : tok.isMemory) : Carries rt config tok := by
  cases tok with
  | session s => cases h
  | code payload => cases h
  | _ => trivial

theorem clean_withCookie {response : Response} {cookie : Cookie} (h : Clean rt config response)
    (hcookie : ∀ tok ∈ cookie.tokens, Carries rt config tok) : Clean rt config (withCookie response cookie) := by
  intro tok htok
  rw [withCookie_tokens] at htok
  rcases List.mem_append.mp htok with htok | htok
  · exact h tok htok
  · exact hcookie tok htok

/-- The cookie that remembers an address carries nothing of the person. -/
theorem remembered_clean (hC : Lenient C) {email : JsString} {response : Response} (h : Clean rt config response) :
    Ensures C (rememberMeCookie rt email >>= fun cookie => pure (withCookie response cookie)) (Clean rt config) :=
  andThen_ensures (rememberMeCookie_ensures hC.routine email) fun _ hcookie =>
    pure_ensures (clean_withCookie h fun tok htok => carries_memory (hcookie tok htok))

theorem withRememberMe_clean (hC : Lenient C) (tx : Transaction) (session : Session) {response : Response}
    (h : Clean rt config response) :
    Ensures C (withRememberMe rt request tx session response) (Clean rt config) := by
  unfold withRememberMe
  split
  · exact remembered_clean hC h
  · refine pure_ensures ?_
    split
    · exact clean_withCookie h (by simp [clearRememberMeCookie, Cookie.tokens])
    · exact h
  · refine hC.after fun remembered => ?_
    cases remembered with
    | none => exact pure_ensures h
    | some _ => exact remembered_clean hC h

/-- A code carries what its session does. -/
theorem issueCode_carries (hC : Lenient C) {tx : Transaction} {session : Session} {sub email : JsString}
    (h : Gathered rt config session.claims) :
    Ensures C (issueCode config tx session sub email) (Carries rt config) := by
  refine now_then_ensures fun now _ => andThen_ensures (hC.whatever _) fun jti _ => ?_
  refine andThen_ensures (hC.whatever _) fun _ _ => ensures_imp (sealToken_ensures hC.routine _) fun tok htok => ?_
  rw [htok]
  exact h

theorem complete_clean (hC : Lenient C) (tx : Transaction) (client : Client) {session : Session}
    (h : Gathered rt config session.claims) :
    Ensures C (complete rt config request tx client session) (Clean rt config) := by
  refine andThen_ensures (touch_ensures session) fun touched htouched => ?_
  obtain ⟨now, -, rfl⟩ := htouched
  refine hC.after fun sub => andThen_ensures (issueCode_carries hC h) fun code hcode => ?_
  refine andThen_ensures (sessionCookie_ensures hC.routine _ _) fun cookie hcookie => ?_
  refine withRememberMe_clean hC _ _ (clean_withCookie ?_ ?_)
  · intro tok htok
    rw [authorizationResponse_tokens, List.mem_singleton] at htok
    exact htok ▸ hcode
  · intro tok htok
    rw [hcookie, List.mem_singleton] at htok
    exact htok ▸ h

/-- Whichever session carries them, the claims are those of the sign-in. -/
theorem reauthenticate_clean (hC : Lenient C) (tx : Transaction) (client : Client) (session : Session)
    {args : SessionArgs} (h : Gathered rt config args.claims) :
    Ensures C (reauthenticate config session args >>= complete rt config request tx client) (Clean rt config) := by
  refine andThen_ensures (reauthenticate_ensures session args) fun s hs => ?_
  obtain ⟨now, -, rfl⟩ := hs
  exact complete_clean hC tx client h

theorem newSession_clean (hC : Lenient C) (tx : Transaction) (client : Client) {args : SessionArgs}
    (h : Gathered rt config args.claims) :
    Ensures C (newSession config args >>= complete rt config request tx client) (Clean rt config) := by
  refine andThen_ensures (newSession_ensures hC.routine fun _ _ _ _ _ => hC _ _ _) fun s hs => ?_
  obtain ⟨now, sid, -, rfl, -⟩ := hs
  exact complete_clean hC tx client h

/-! ### The screens on the way -/

theorem renderEmail_clean (hC : Lenient C) (tx : Transaction) (email : Option JsString) (error : Option PageError)
    (otpRecovery : Bool) :
    Ensures C (renderEmail rt config request tx email error otpRecovery) (Clean rt config) := by
  refine hC.after fun remembered => andThen_ensures (sealToken_ensures hC.routine _) fun token htoken => ?_
  subst htoken
  dsimp only
  cases remembered with
  | none => exact pure_ensures (clean_page rfl trivial)
  | some remembered =>
    dsimp only
    split
    · exact remembered_clean hC (clean_page rfl trivial)
    · exact pure_ensures (clean_page rfl trivial)

theorem renderOtp_clean (hC : Lenient C) (tx : Transaction) (error : Option PageError) (devCode : Option JsString)
    (resent : Bool) : Ensures C (renderOtp tx error devCode resent) (Clean rt config) :=
  andThen_ensures (sealToken_ensures hC.routine _) fun _ htoken => pure_ensures (clean_page rfl (htoken ▸ trivial))

theorem renderLocalPassword_clean (hC : Lenient C) (tx : Transaction) (error : Option PageError) :
    Ensures C (renderLocalPassword rt config tx error) (Clean rt config) :=
  andThen_ensures (sealToken_ensures hC.routine _) fun _ htoken => pure_ensures (clean_page rfl (htoken ▸ trivial))

theorem renderLocalMfa_clean (hC : Lenient C) (tx : Transaction) (error : Option PageError) (digits : List Nat) :
    Ensures C (renderLocalMfa tx error digits) (Clean rt config) :=
  andThen_ensures (sealToken_ensures hC.routine _) fun _ htoken => pure_ensures (clean_page rfl (htoken ▸ trivial))

theorem renderChooser_clean (hC : Lenient C) (tx : Transaction) (upstreams : List Upstream) (hinted : Option JsString)
    (error : Option PageError) : Ensures C (renderChooser rt config tx upstreams hinted error) (Clean rt config) :=
  andThen_ensures (sealToken_ensures hC.routine _) fun _ htoken => pure_ensures (clean_page rfl (htoken ▸ trivial))

theorem startAgain_clean (detail : String) :
    Ensures C (pure (startAgainResponse detail) : M Response) (Clean rt config) :=
  pure_ensures (clean_nothing (startAgainResponse_tokens detail))

theorem failure_clean (error : JsError) (targets : RedirectTargets) :
    Ensures C (pure (failureResponse error targets) : M Response) (Clean rt config) :=
  pure_ensures (clean_nothing (failureResponse_tokens error targets))

theorem onTransaction_clean (hC : Lenient C) {handler : Loaded → M Response}
    (h : ∀ loaded, Ensures C (handler loaded) (Clean rt config)) :
    Ensures C (onTransaction request handler) (Clean rt config) := by
  refine andThen_ensures (loadTransaction_ensures hC.routine) fun r hr => ?_
  cases r with
  | error response =>
    obtain ⟨detail, rfl⟩ := hr.2 response rfl
    exact startAgain_clean detail
  | ok loaded => exact h loaded

/-! ### The handlers -/

theorem handleOtpSubmit_clean (hC : Lenient C) : Ensures C (handleOtpSubmit rt config request) (Clean rt config) := by
  refine onTransaction_clean hC fun loaded => ?_
  split
  · exact startAgain_clean _
  · refine hC.after fun submitted => hC.after fun reason => ?_
    cases reason with
    | some reason => exact renderOtp_clean hC _ _ _ _
    | none =>
      refine hC.after fun existing => ?_
      unfold otpSession
      dsimp only
      split
      · exact reauthenticate_clean hC _ _ _ (.inferred _)
      · exact newSession_clean hC _ _ (.inferred _)

theorem completeLocalAuthentication_clean (hC : Lenient C) (tx : Transaction) (client : Client) (record : LocalRecord)
    (secondFactor : Option FactorMethod) :
    Ensures C (completeLocalAuthentication rt config request tx client record secondFactor) (Clean rt config) := by
  refine hC.after fun existing => ?_
  split
  · exact reauthenticate_clean hC _ _ _ (.relayed _ _)
  · exact newSession_clean hC _ _ (.relayed _ _)

theorem afterPassword_clean (hC : Lenient C) (tx : Transaction) (client : Client) (record : LocalRecord) :
    Ensures C (afterPassword rt config request tx client record) (Clean rt config) := by
  unfold afterPassword
  extract_lets potential
  by_cases hunmet : (!satisfies potential.acr tx.acrValues) = true
  · rw [if_pos hunmet]
    exact renderLocalPassword_clean hC _ _
  · rw [if_neg hunmet]
    split
    · exact renderLocalMfa_clean hC _ _ _
    · exact completeLocalAuthentication_clean hC _ _ _ _

theorem handleLocalPassword_clean (hC : Lenient C) :
    Ensures C (handleLocalPassword rt config request) (Clean rt config) := by
  refine onTransaction_clean hC fun loaded => ?_
  dsimp only
  split
  · exact startAgain_clean _
  · refine hC.after fun r => hC.after fun password => hC.after fun verified => ?_
    split
    · exact renderLocalPassword_clean hC _ _
    · exact afterPassword_clean hC _ _ _

theorem handleLocalMfa_clean (hC : Lenient C) : Ensures C (handleLocalMfa rt config request) (Clean rt config) := by
  refine onTransaction_clean hC fun loaded => ?_
  dsimp only
  split
  · exact startAgain_clean _
  · split
    · exact startAgain_clean _
    · refine hC.after fun r => hC.after fun result => ?_
      split
      · exact renderLocalMfa_clean hC _ _ _
      · exact completeLocalAuthentication_clean hC _ _ _ _

theorem offerFallback_clean (hC : Lenient C) (tx : Transaction) :
    Ensures C (offerFallback rt config request tx) (Clean rt config) := by
  unfold offerFallback
  dsimp only
  split
  · exact renderLocalPassword_clean hC _ _
  · split
    · exact renderChooser_clean hC _ _ _ _
    · split
      · exact renderEmail_clean hC _ _ _ _
      · exact failure_clean _ _

theorem upstreamRefused_clean (hC : Lenient C) (tx : Transaction) (leg : UpstreamLeg) (upstreamError : JsString) :
    Ensures C (upstreamRefused rt config request tx leg upstreamError) (Clean rt config) := by
  unfold upstreamRefused
  split
  · exact failure_clean _ _
  · split
    · exact failure_clean _ _
    · exact offerFallback_clean hC tx

/-- Whatever the upstream has said of the person. -/
theorem afterUpstream_clean (hC : Lenient C) (tx : Transaction) (client : Client) (upstream : Upstream)
    (outcome : Outcome) : Ensures C (afterUpstream rt config request tx client upstream outcome) (Clean rt config) := by
  refine hC.after fun record => hC.after fun existing => ?_
  split
  · exact reauthenticate_clean hC _ _ _ (.relayed _ _)
  · exact newSession_clean hC _ _ (.relayed _ _)

theorem upstreamReturned_clean (hC : Lenient C) (tx : Transaction) (leg : UpstreamLeg) (client : Client)
    (code : JsString) : Ensures C (upstreamReturned rt config request tx leg client code) (Clean rt config) := by
  unfold upstreamReturned
  split
  · exact startAgain_clean _
  · refine hC.after fun r => ?_
    cases r with
    | error e => exact offerFallback_clean hC tx
    | ok outcome =>
      dsimp only
      split
      · exact failure_clean _ _
      · exact afterUpstream_clean hC _ _ _ _

theorem handleCallback_clean (hC : Lenient C) : Ensures C (handleCallback rt config request) (Clean rt config) := by
  refine hC.after fun token => ?_
  split
  · exact startAgain_clean _
  · refine hC.after fun opened => ?_
    split
    · exact startAgain_clean _
    · refine hC.after fun late => ?_
      split
      · exact startAgain_clean _
      · refine hC.after fun found => ?_
        split
        · exact startAgain_clean _
        · refine hC.after fun error => ?_
          split
          · exact hC.after fun _ => upstreamRefused_clean hC _ _ _
          · refine hC.after fun code => ?_
            split
            · exact startAgain_clean _
            · exact upstreamReturned_clean hC _ _ _ _

end

/-! ## The gateway -/

/-- Can somebody sign in at this endpoint? -/
def Endpoint.signsIn : Endpoint → Bool
  | .otpSubmit | .localPassword | .localMfa | .callback => true
  | _ => false

/-- What is promised of the endpoints where somebody can. -/
def cleanPromise (rt : Runtime) (config : Config) : Call → Rely effects → Reply → Prop
  | .serve endpoint _, _, .response response => endpoint.signsIn = true → Clean rt config response
  | _, _, _ => True

theorem gateway_clean : (gateway rt config).Meets (fun _ _ _ _ _ => True) (cleanPromise rt config) := by
  intro call C
  have hC : Lenient (⟨C, fun _ _ _ => True⟩ : Contract effects) := fun _ _ _ => trivial
  cases call with
  | serve endpoint request =>
    have hresponse : endpoint.signsIn = true →
        Ensures ⟨C, fun _ _ _ => True⟩ (handle rt config request endpoint) (Clean rt config) := by
      intro hsigns
      cases endpoint with
      | otpSubmit => exact handleOtpSubmit_clean hC
      | localPassword => exact handleLocalPassword_clean hC
      | localMfa => exact handleLocalMfa_clean hC
      | callback => exact handleCallback_clean hC
      | _ => cases hsigns
    by_cases hsigns : endpoint.signsIn = true
    · exact andThen_ensures (hresponse hsigns) (fun _ hclean => pure_ensures fun _ => hclean) _
    · exact hC.after (fun _ => pure_ensures fun h => absurd h hsigns) _
  | finish request opts => exact hC.after (fun _ => pure_ensures trivial) _
  | readSession request clientId => exact hC.after (fun _ => pure_ensures trivial) _
  | readSessionByName request name => exact hC.after (fun _ => pure_ensures trivial) _
  | redeem r => exact hC.after (fun _ => pure_ensures trivial) _
  | rekeyAll keys => exact hC.after (fun _ => pure_ensures trivial) _

/-- Where nobody signs in, a request is completed with a session it handed in. -/
theorem Completion.read {C : Rely effects} {request : Request} {endpoint : Endpoint} {tx : Transaction}
    {session : Session} (h : Completion rt config C request endpoint tx session) (hsigns : endpoint.signsIn ≠ true) :
    ReadFrom request session := by
  cases h with
  | silent hstarted hanswers hunforced => exact hanswers.read
  | continued hpresented hanswers => exact hanswers.read
  | signedIn hsign hsigned => cases hsign <;> exact absurd rfl hsigns

theorem migrate_claims (session : Session) : (migrate session).claims = session.claims := by rw [migrate_eq]

theorem gathered_of_read {request : Request} {session : Session} (h : ReadFrom request session)
    (hpres : ∀ s, request.presents (.session s) → Gathered rt config s.claims) : Gathered rt config session.claims := by
  obtain ⟨stored, hstored, rfl⟩ := h
  rw [migrate_claims]
  exact hpres stored hstored

section
variable {σ : Type} {env : Environment effects σ} {s : σ} {w : World (gateway rt config) σ}

/-- Every session that is handed in carries gathered claims. -/
theorem gathered_sessions (h : Reachable (gateway rt config) env s w) :
    ∀ th ∈ w.threads, ∀ endpoint request, th.req.served = some (endpoint, request) →
      ∀ session, request.presents (.session session) → Gathered rt config session.claims := by
  have hsound := System.sound (gateway_meets.and gateway_clean) (R := seen w.log) (V := fun _ => True)
    (P := onSessions fun _ session => Gathered rt config session.claims) ?_ ?_ h (fun _ _ => trivial) fun _ he => he
  · intro th hth endpoint request hserved session hpres
    exact hsound.2 th hth _ (handsIn_of_served hserved hpres)
  · intro t t' tok _ htok
    cases tok with
    | session session => exact htok
    | _ => trivial
  · intro call start stop reply _ _ hpres hpromise tok htok
    cases reply with
    | response response =>
      obtain ⟨⟨endpoint, request, hserved, hsafe⟩, hclean⟩ := hpromise
      cases tok with
      | session session =>
        by_cases hsigns : endpoint.signsIn = true
        · have hne : endpoint ≠ .logout := by
            intro heq
            rw [heq] at hsigns
            cases hsigns
          rw [eq_serve_of_served hserved hne] at hclean
          exact hclean hsigns _ htok
        · have hderived := hsafe.tokens _ htok
          cases hderived with
          | session hcompletion htick =>
            have hgathered := gathered_of_read (hcompletion.read hsigns) fun s hs =>
              hpres _ (handsIn_of_served hserved hs)
            exact hgathered
          | memory hmem => cases hmem
      | _ => trivial
    | _ => cases htok

/-- What a code that was handed out says of a person. -/
structure Vouches (rt : Runtime) (config : Config) (es : List (Event effects)) (grant : CodePayload) : Prop where
  issued : ∃ tx, (tx, grant) ∈ issued es
  acr : grant.acr ∈ sessionAcrs
  proved : grant.emailVerified ≠ none
  kept : Gathered rt config grant.claims

theorem vouches_of_known (h : Reachable (gateway rt config) env s w) {grant : CodePayload}
    (hknown : w.Known (.code grant)) : Vouches rt config w.log grant := by
  obtain ⟨th, hth, t, reply, hstop, hout⟩ := hknown
  obtain ⟨endpoint, request, hserved, hderived⟩ := derived_relying h hth hstop hout (R := seen th.trace) fun _ he => he
  cases hderived with
  | code hissued =>
    obtain ⟨t₀, -, hmem⟩ := hissued
    obtain ⟨endpoint', request', session, hserved', hcompletion, hminted⟩ := completion_of_issued h hth hmem rfl
    obtain ⟨rfl, rfl⟩ := Prod.mk.inj (Option.some.inj (hserved.symm.trans hserved'))
    have hacr := session_acr_mem h th hth endpoint request hserved _ _ _ _ hcompletion
    obtain ⟨touched, now, jti, sub, email, -, -, rfl⟩ := hminted
    refine ⟨⟨_, mem_issued.mpr ⟨_, h.mem_log hth hmem, rfl⟩⟩, hacr, nofun, ?_⟩
    by_cases hsigns : endpoint.signsIn = true
    · have hne : endpoint ≠ .logout := by
        intro heq
        rw [heq] at hsigns
        cases hsigns
      have hclean := (h.threads_sound th hth).result gateway_clean (R := seen th.trace) (fun _ he => he) hstop
      rw [eq_serve_of_served hserved hne] at hclean
      cases reply with
      | response response => exact hclean hsigns _ hout
      | _ => cases hout
    · have hgathered := gathered_of_read (hcompletion.read hsigns)
        (gathered_sessions h th hth endpoint request hserved)
      exact hgathered
  | memory hmem => cases hmem

end

/-! ## The answers -/

section
variable {σ : Type} {env : Environment effects σ} {s : σ} {w : World (server rt config) σ}

/-- Nothing an upstream says is injected into an answer. -/
def Uninjected (rt : Runtime) (config : Config) (es : List (Event effects)) : ServiceReply → Prop
  | .tokens _ idToken _ _ => ∃ grant now audience, Vouches rt config es grant ∧
      idToken = idTokenClaimsAt config now grant audience grant.nonce ∧
        ∀ atHash, Contained rt config grant.scope (fun kept => signedClaims atHash
          (idTokenClaimsAt config now { grant with claims := kept } audience grant.nonce)) grant.claims
  | .userinfo claims => ∃ grant now jti, Vouches rt config es grant ∧
      claims = userinfoClaims config (accessTokenAt config now jti grant) ∧
        Contained rt config grant.scope (fun kept => userinfoClaims config
          { accessTokenAt config now jti grant with claims := kept }) grant.claims
  | .unauthorised _ _ => True

/-- A code that was handed out by the server. -/
theorem vouches_of_server (h : Reachable (server rt config) env s w) {grant : CodePayload}
    (hknown : w.Known (.inl (.code grant))) : Vouches rt config w.log grant := by
  obtain ⟨own, hown, hrestricts⟩ := Runs.restrict h
  have hvouches := vouches_of_known hown (hrestricts.known hknown)
  obtain ⟨tx, hissued⟩ := hvouches.issued
  obtain ⟨e, he, hop⟩ := mem_issued.mp hissued
  exact ⟨⟨tx, mem_issued.mpr ⟨e, hrestricts.log e he, hop⟩⟩, hvouches.acr, hvouches.proved, hvouches.kept⟩

theorem migrateCode_proved {grant : CodePayload} (h : grant.emailVerified ≠ none) : migrateCode grant = grant :=
  if_neg fun hnone => h hnone.1

/-- An access token is made from a code that was handed out. -/
theorem code_of_access (h : Reachable (server rt config) env s w) {token : AccessToken}
    (hknown : w.Known (.inr token)) :
    ∃ grant now jti, w.Known (.inl (.code grant)) ∧ token = accessTokenAt config now jti (migrateCode grant) := by
  obtain ⟨th, hth, t, reply, hstop, hout⟩ := hknown
  cases reply with
  | inl reply =>
    obtain ⟨_, heq, -⟩ := hout
    cases heq
  | inr reply =>
    obtain ⟨more, heq, hreleases⟩ := hout
    cases heq
    cases hreq : th.req with
    | inl call =>
      have hpromise := (h.threads_sound th hth).result server_meets (R := seen th.trace) (fun _ he => he) hstop
      rw [hreq] at hpromise
      cases hpromise
    | inr call =>
      have hanswered := answered_of_stop h hth hreq hstop
      cases hanswered with
      | @issued request payload now now' jti audience scope hgranted =>
        cases hreleases
        have hpresents : (server rt config).presents th.req (.inl (.code payload)) := by
          rw [hreq]
          exact hgranted.presented
        exact ⟨payload, now, jti, h.presented th hth _ hpresents, rfl⟩
      | _ => cases hreleases

theorem vouches_of_access (h : Reachable (server rt config) env s w) {token : AccessToken}
    (hknown : w.Known (.inr token)) :
    ∃ grant now jti, Vouches rt config w.log grant ∧ token = accessTokenAt config now jti grant := by
  obtain ⟨grant, now, jti, hcode, rfl⟩ := code_of_access h hknown
  have hvouches := vouches_of_server h hcode
  exact ⟨grant, now, jti, hvouches, by rw [migrateCode_proved hvouches.proved]⟩

/-- Whatever an upstream says of a person, and whatever way it takes, an answer tells no
more of it than it may. -/
theorem answers_uninjected (h : Reachable (server rt config) env s w) {th : Thread (server rt config)}
    (hth : th ∈ w.threads) {t : Nat} {reply : ServiceReply} (hstop : th.stop = some (t, .ok (.inr reply))) :
    Uninjected rt config w.log reply := by
  cases hreq : th.req with
  | inl call =>
    have hpromise := (h.threads_sound th hth).result server_meets (R := seen th.trace) (fun _ he => he) hstop
    rw [hreq] at hpromise
    cases hpromise
  | inr call =>
    have hanswered := answered_of_stop h hth hreq hstop
    cases hanswered with
    | @issued request payload now now' jti audience scope hgranted =>
      have hpresents : (server rt config).presents th.req (.inl (.code payload)) := by
        rw [hreq]
        exact hgranted.presented
      have hvouches := vouches_of_server h (h.presented th hth _ hpresents)
      rw [migrateCode_proved hvouches.proved]
      exact ⟨payload, now', audience, hvouches, rfl,
        fun atHash => idToken_contained now' payload audience atHash payload.nonce hvouches.kept⟩
    | @userinfo request token hpresented =>
      have hpresents : (server rt config).presents th.req (.inr token) := by
        rw [hreq]
        exact hpresented
      obtain ⟨grant, now, jti, hvouches, rfl⟩ := vouches_of_access h (h.presented th hth _ hpresents)
      have hkept : Gathered rt config (accessTokenAt config now jti grant).claims := hvouches.kept
      exact ⟨grant, now, jti, hvouches, congrArg (userinfoClaims config) (if_neg fun hnone => nomatch hnone.1),
        userinfo_contained _ hkept⟩
    | unauthorised => trivial

end

namespace Sample

/-- An upstream that asserts more than it should. -/
def corporate : Upstream where
  id := js "corporate"
  provider := js "oidc"
  domain := js "corp.test"
  isCommon := false
  mailProvider := none
  label := none
  clientId := js "sag"
  scopes := none
  acrValues := []
  prompt := none
  tenant := none
  allowedTenants := []
  hd := none

def corpConfig : Config :=
  { Sample.config with
    profile := ⟨[js "name", js "locale"], true, true, true, true⟩
    upstreams := [corporate] }

def corpAnswer : (o : Op) → o.Ans
  | .upstreamMetadata _ => .ok ()
  | .upstreamExchange _ _ _ _ => .ok
      ⟨[(js "email", .str (js "ann@corp.test")), (js "name", .str (js "Ann")), (js "locale", .num 1),
        (js "name_inferred", .bool true), (js "urn:sag:name_inferred", .bool true), (js "upstream_acr", .str (js "x")),
        (js "sub", .str (js "admin")), (js "acr", .str (js "urn:sag:acr:federated-mfa")), (js "exp", .num 9999)], none⟩
  | o => answer o

/-- Ann signs in through it, and the application asks who she is. -/
def corpSignsIn : World (server runtime corpConfig) MemoryStore :=
  operate (memoryOracle 1000 corpAnswer) .empty
    [besides (visit 1000 .authorize false
        [("client_id", .text "notes"), ("redirect_uri", .text "https://app.test/cb"), ("response_type", .text "code"),
          ("scope", .text "openid profile")] []),
      besides (visit 1010 .email true [("tx", .token 0), ("email", .text "ann@corp.test")] []),
      besides (visit 1020 .callback false [("state", .token 1), ("code", .text "c")] []),
      tokenVisit 1030 [("grant_type", .text "authorization_code"), ("client_id", .text "notes"), ("code", .token 2),
        ("redirect_uri", .text "https://app.test/cb")],
      userinfoVisit 1040 0]

/-- What an answer tells, where it is text. -/
def toldTexts (th : Thread (server runtime corpConfig)) : List (JsString × Option JsString) :=
  match th.stop with
  | some (_, .ok (.inr (.tokens _ idToken _ _))) => idToken.map fun m => (m.1, m.2.string?)
  | some (_, .ok (.inr (.userinfo claims))) => claims.map fun m => (m.1, m.2.string?)
  | _ => []

theorem corp_uninjected :
    (∃ th ∈ corpSignsIn.threads, toldTexts th =
      [(js "sub", some []), (js "name", some (js "Ann")), (js "acr", some Acr.federated), (js "amr", none),
        (js "auth_time", none)]) ∧
    ∀ th ∈ corpSignsIn.threads, ∀ t reply, th.stop = some (t, .ok (.inr reply)) →
      Uninjected runtime corpConfig corpSignsIn.log reply := by
  have hreach : Reachable (server runtime corpConfig) (memoryEnv 1000) .empty corpSignsIn :=
    operate_reachable (memoryOracle_within 1000 corpAnswer) .empty _
  exact ⟨by decide +kernel, fun th hth t reply hstop => answers_uninjected hreach hth hstop⟩

end Sample

end Sag
