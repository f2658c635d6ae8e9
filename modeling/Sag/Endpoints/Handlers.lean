import Sag.Endpoints.Authorize
import Sag.Endpoints.Moves

/-!
# What the handlers do

Every handler of the interactive flow issues only what `Guard` allows and
releases only what `Derived` lists. There is one lemma for each function of
`endpoints/authorize.js`, in its order, and each cites those of the functions it
calls.

What a handler relies on is only that the contract lets it do what the guard
allows (`Guarded`); what the replies mean is left to the contract.
-/

namespace Sag

open Resumable

variable {rt : Runtime} {config : Config} {C : Contract effects} {endpoint : Endpoint}
variable {request : Request}

theorem Guarded.limits (hG : Guarded rt config C endpoint request) : Limits C config :=
  fun h t _ ho => hG h t _ (.limiting ho)

theorem Guarded.lets_routine (hG : Guarded rt config C endpoint request) : Routine C := hG.limits.routine

theorem Guarded.admits (hG : Guarded rt config C endpoint request) : Admits C config request :=
  fun _ h t hadm => hG h t _ (.accepted hadm)

/-- A response that hands out nothing but derived tokens, and sends nobody anywhere
else than it may. -/
structure Safe (rt : Runtime) (config : Config) (C : Rely effects) (endpoint : Endpoint)
    (request : Request) (response : Response) : Prop where
  tokens : ∀ tok ∈ response.tokens, Derived rt config C endpoint request tok
  aimed : ∀ target, response.body.target? = some target → Aimed rt config C endpoint request target

/-- A page that hands nothing out. -/
theorem safe_page {response : Response} (h : response.tokens = []) (hbody : response.body.target? = none) :
    Safe rt config C endpoint request response := by
  refine ⟨fun tok htok => ?_, fun target htarget => ?_⟩
  · rw [h] at htok
    cases htok
  · rw [hbody] at htarget
    cases htarget

theorem safe_html {body : Body} {status : Nat} {tok : Sealed} (h : body.tokens = [tok])
    (hbody : body.target? = none) (htok : Derived rt config C endpoint request tok) :
    Safe rt config C endpoint request (html body status) := by
  refine ⟨fun tok' htok' => ?_, fun target htarget => ?_⟩
  · rw [html_tokens, h] at htok'
    rw [List.mem_singleton.mp htok']
    exact htok
  · have hnone : (html body status).body.target? = none := hbody
    rw [hnone] at htarget
    cases htarget

theorem safe_withCookie {response : Response} {cookie : Cookie}
    (h : Safe rt config C endpoint request response)
    (hc : ∀ tok ∈ cookie.tokens, Derived rt config C endpoint request tok) :
    Safe rt config C endpoint request (withCookie response cookie) := by
  refine ⟨fun tok htok => ?_, h.aimed⟩
  rw [withCookie_tokens] at htok
  rcases List.mem_append.mp htok with htok | htok
  · exact h.tokens tok htok
  · exact hc tok htok

/-! ## Completion -/

/-- A session that the request handed in and whose local account, if it names one,
still stands. -/
def Current (rt : Runtime) (config : Config) (C : Rely effects) (request : Request) (s : Session) : Prop :=
  ReadFrom request s ∧ (s.localIdentityId.getD [] ≠ [] → Standing rt config C s)

theorem validSession_ensures (hC : Routine C) {session : Option Session}
    (h : ∀ s, session = some s → ReadFrom request s) :
    Ensures C (validSession rt config session) fun r => ∀ s, r = some s → Current rt config C request s := by
  unfold validSession
  split
  · exact pure_ensures (by rintro s ⟨⟩)
  · next session =>
    split
    · next hmailbox =>
      refine pure_ensures ?_
      rintro _ ⟨⟩
      exact ⟨h session rfl, fun hnamed => absurd hmailbox hnamed⟩
    · split
      · exact pure_ensures (by rintro s ⟨⟩)
      · refine andThen_ensures (validateSession_ensures hC session) fun valid hvalid => pure_ensures ?_
        cases valid with
        | false => rintro s ⟨⟩
        | true =>
          rintro _ ⟨⟩
          exact ⟨h session rfl, hvalid rfl⟩

/-- The session a handler works with is one the request handed in. -/
theorem currentSession_ensures (hG : Guarded rt config C endpoint request) (client : Client) :
    Ensures C (currentSession rt config request client) fun r =>
      ∀ s, r = some s → Current rt config C request s :=
  andThen_ensures (readSession_ensures hG.lets_routine hG.admits _) fun _ h =>
    validSession_ensures hG.lets_routine h

theorem subjectOf_ensures (hC : Routine C) (session : Session) (email : JsString) (client : Client) :
    Ensures C (subjectOf rt config session email client) fun _ => True := by
  unfold subjectOf
  split
  · split
    · exact fail_ensures
    · split
      · exact fail_ensures
      · exact suspend_then_ensures hC (pure_ensures trivial)
  · split
    · exact fail_ensures
    · exact suspend_then_ensures hC (pure_ensures trivial)

theorem memory_derived {cookie : Cookie} (h : ∀ tok ∈ cookie.tokens, tok.isMemory) :
    ∀ tok ∈ cookie.tokens, Derived rt config C endpoint request tok :=
  fun tok htok => .memory (h tok htok)

theorem withRememberMe_ensures (hC : Routine C) (tx : Transaction) (session : Session)
    {response : Response} (h : Safe rt config C endpoint request response) :
    Ensures C (withRememberMe rt request tx session response)
      (Safe rt config C endpoint request) := by
  unfold withRememberMe
  split
  · exact andThen_ensures (rememberMeCookie_ensures hC _) fun _ hc =>
      pure_ensures (safe_withCookie h (memory_derived hc))
  · refine pure_ensures ?_
    split
    · exact safe_withCookie h (by simp [clearRememberMeCookie, Cookie.tokens])
    · exact h
  · refine andThen_ensures (readRememberedEmail_ensures hC request) fun remembered _ => ?_
    cases remembered with
    | none => exact pure_ensures h
    | some _ =>
      exact andThen_ensures (rememberMeCookie_ensures hC _) fun _ hc =>
        pure_ensures (safe_withCookie h (memory_derived hc))

theorem Completion.handled {tx : Transaction} {s : Session}
    (h : Completion rt config C request endpoint tx s) : Handled rt config C endpoint request tx := by
  cases h with
  | silent hstarted hanswers hunforced => exact .started rfl hstarted
  | continued hpres hanswers => exact .handed nofun (Or.inl hpres) (.refl tx)
  | signedIn hsign hsigned =>
    cases hsign with
    | otp hpres => exact .handed nofun (Or.inl hpres) (.refl tx)
    | password hpres => exact .handed nofun (Or.inl hpres) (.refl tx)
    | factor hpres => exact .handed nofun (Or.inl hpres) (.refl tx)
    | upstream hpres => exact .handed nofun (Or.inr hpres) ⟨rfl⟩

/-- A completed request mints one code for it, and renews its session. -/
theorem complete_ensures (hG : Guarded rt config C endpoint request) {tx : Transaction} {s : Session}
    (client : Client) (hcomp : Completion rt config C request endpoint tx s) :
    Ensures C (complete rt config request tx client s) (Safe rt config C endpoint request) := by
  refine andThen_ensures (touch_ensures s) fun session hsession => ?_
  obtain ⟨touched, htouched, rfl⟩ := hsession
  dsimp only
  refine andThen_ensures (subjectOf_ensures hG.lets_routine _ _ _) fun sub _ => ?_
  refine andThen_ensures (issueCode_ensures hG.lets_routine fun now jti hnow h t =>
    hG h t _ (.issued hcomp ⟨touched, now, jti, _, _, htouched, hnow, rfl⟩)) fun code hcode => ?_
  obtain ⟨payload, rfl, hissued⟩ := hcode
  refine andThen_ensures (sessionCookie_ensures hG.lets_routine _ _) fun cookie hcookie => ?_
  refine withRememberMe_ensures hG.lets_routine _ _ (safe_withCookie ⟨?_, ?_⟩ ?_)
  · intro tok htok
    rw [authorizationResponse_tokens, List.mem_singleton] at htok
    exact htok ▸ .code hissued
  · intro target htarget
    rw [authorizationResponse_target] at htarget
    obtain rfl := Option.some.inj htarget
    exact .transaction hcomp.handled
  · intro tok htok
    rw [hcookie, List.mem_singleton] at htok
    exact htok ▸ .session hcomp htouched

/-! ## Rendering a stage -/

theorem renderEmail_ensures (hC : Routine C) {tx : Transaction} (email : Option JsString)
    (error : Option PageError) (otpRecovery : Bool)
    (htx : Derived rt config C endpoint request (.tx { tx with stage := .email })) :
    Ensures C (renderEmail rt config request tx email error otpRecovery)
      (Safe rt config C endpoint request) := by
  refine andThen_ensures (readRememberedEmail_ensures hC request) fun remembered _ => ?_
  refine andThen_ensures (sealToken_ensures hC _) fun token htoken => ?_
  subst htoken
  dsimp only
  cases remembered with
  | none => exact pure_ensures (safe_html rfl rfl htx)
  | some remembered =>
    dsimp only
    split
    · exact andThen_ensures (rememberMeCookie_ensures hC _) fun _ hc =>
        pure_ensures (safe_withCookie (safe_html rfl rfl htx) (memory_derived hc))
    · exact pure_ensures (safe_html rfl rfl htx)

theorem renderOtp_ensures (hC : Routine C) {tx : Transaction} (error : Option PageError)
    (devCode : Option JsString) (resent : Bool)
    (htx : Derived rt config C endpoint request (.tx tx)) :
    Ensures C (renderOtp tx error devCode resent) (Safe rt config C endpoint request) := by
  refine andThen_ensures (sealToken_ensures hC _) fun token htoken => ?_
  exact pure_ensures (safe_html rfl rfl (htoken ▸ htx))

theorem renderLocalPassword_ensures (hC : Routine C) {tx : Transaction} (error : Option PageError)
    (htx : Derived rt config C endpoint request (.tx { tx with stage := .localPassword })) :
    Ensures C (renderLocalPassword rt config tx error) (Safe rt config C endpoint request) := by
  refine andThen_ensures (sealToken_ensures hC _) fun token htoken => ?_
  exact pure_ensures (safe_html rfl rfl (htoken ▸ htx))

theorem renderLocalMfa_ensures (hC : Routine C) {tx : Transaction} (error : Option PageError)
    (digits : List Nat)
    (htx : Derived rt config C endpoint request (.tx { tx with stage := .localMfa })) :
    Ensures C (renderLocalMfa tx error digits) (Safe rt config C endpoint request) := by
  refine andThen_ensures (sealToken_ensures hC _) fun token htoken => ?_
  exact pure_ensures (safe_html rfl rfl (htoken ▸ htx))

theorem renderContinue_ensures (hC : Routine C) {tx : Transaction} (session : Session)
    (htx : Derived rt config C endpoint request (.tx { tx with stage := .continue })) :
    Ensures C (renderContinue config tx session) (Safe rt config C endpoint request) := by
  refine andThen_ensures (sealToken_ensures hC _) fun token htoken => ?_
  exact pure_ensures (safe_html rfl rfl (htoken ▸ htx))

theorem renderChooser_ensures (hC : Routine C) {tx : Transaction} (upstreams : List Upstream)
    (hinted : Option JsString) (error : Option PageError)
    (htx : Derived rt config C endpoint request (.tx { tx with stage := .choose })) :
    Ensures C (renderChooser rt config tx upstreams hinted error)
      (Safe rt config C endpoint request) := by
  refine andThen_ensures (sealToken_ensures hC _) fun token htoken => ?_
  exact pure_ensures (safe_html rfl rfl (htoken ▸ htx))

/-- A failure goes where a response may go, if it goes anywhere. -/
theorem failure_ensures {error : JsError} {targets : RedirectTargets}
    (h : error.relayed → Aimed rt config C endpoint request targets) :
    Ensures C (pure (failureResponse error targets) : M Response)
      (Safe rt config C endpoint request) := by
  refine pure_ensures ⟨fun tok htok => ?_, fun target htarget => ?_⟩
  · rw [failureResponse_tokens] at htok
    cases htok
  · obtain ⟨rfl, hrelayed⟩ := failureResponse_target htarget
    exact h hrelayed

/-- A failure of a transaction. -/
theorem failed_ensures {error : JsError} {tx : Transaction} (h : Handled rt config C endpoint request tx) :
    Ensures C (pure (failureResponse error (redirectTargets tx)) : M Response)
      (Safe rt config C endpoint request) :=
  failure_ensures fun _ => .transaction h

theorem startAgain_ensures (detail : String) :
    Ensures C (pure (startAgainResponse detail) : M Response) (Safe rt config C endpoint request) :=
  pure_ensures (safe_page (startAgainResponse_tokens _) rfl)

/-! ## GET/POST /authorize -/

theorem requestParams_ensures (hC : Routine C) :
    Ensures C (requestParams request) fun params => params = request.params := by
  unfold requestParams Request.params
  split
  · refine suspend_then_ensures hC (ofExcept_ensures fun params h => ?_)
    simp [h, Except.toOption]
  · exact pure_ensures rfl

/-- A request that did not parse is reported to its client where that may be done. -/
theorem rejectRequest_ensures {error : JsError} (h : Relayable rt C config request.params error) :
    Ensures C (rejectRequest request.params error) (Safe rt config C .authorize request) := by
  unfold rejectRequest
  split
  · next code description status redirectable =>
    refine andThen_ensures (param_once _) fun redirectUri huri => ?_
    refine andThen_ensures (param_once _) fun state hstate => ?_
    refine andThen_ensures (param_once _) fun mode hmode => ?_
    refine failure_ensures fun hrelayed => ?_
    obtain rfl : redirectable = true := hrelayed
    obtain ⟨clientId, client, uri, haccepts⟩ := h _ _ _ rfl
    rw [huri.1, hstate.1, hmode.1, haccepts.target]
    exact .rejected rfl haccepts hstate.2 hmode.2
  · next hne =>
    refine failure_ensures fun hrelayed => ?_
    cases error with
    | oauth code description status redirectable => exact absurd rfl (hne _ _ _ _)
    | _ => cases hrelayed

/-- A request is answered from an existing session only where it is silent and
does not force a sign-in. -/
theorem decideRequest_ensures (hG : Guarded rt config C .authorize request) {tx : Transaction}
    (client : Client) {session : Option Session} (hstart : Started rt config C request tx)
    (hsession : ∀ s, session = some s → Current rt config C request s) :
    Ensures C (decideRequest rt config request tx client session)
      (Safe rt config C .authorize request) := by
  have hC := hG.lets_routine
  have fresh : ∀ stage : Stage, stage ≠ .otp → stage ≠ .localMfa →
      Derived rt config C .authorize request (.tx { tx with stage }) :=
    fun stage h h' => .started rfl hstart h h'
  have hhandled : Handled rt config C .authorize request tx := .started rfl hstart
  unfold decideRequest
  refine now_then_ensures fun now hnow => ?_
  dsimp only
  split
  · split
    · exact failed_ensures hhandled
    · next s =>
      split
      · exact failed_ensures hhandled
      · next hfresh =>
        split
        · exact failed_ensures hhandled
        · next hmeets =>
          split
          · exact failed_ensures hhandled
          · next hforced =>
            refine complete_ensures hG client (.silent hstart ⟨(hsession s rfl).1, (hsession s rfl).2, ?_, ?_⟩ ?_)
            · exact ⟨now, hnow, by simpa using hfresh⟩
            · simpa using hmeets
            · exact Bool.eq_false_iff.mpr hforced
  · split
    · exact renderContinue_ensures hC _ (fresh .continue (by decide) (by decide))
    · exact renderEmail_ensures hC _ _ _ (fresh .email (by decide) (by decide))

theorem handleAuthorize_ensures (hG : Guarded rt config C .authorize request) :
    Ensures C (handleAuthorize rt config request) (Safe rt config C .authorize request) := by
  have hC := hG.lets_routine
  refine andThen_ensures (requestParams_ensures hC) fun params hparams => ?_
  subst hparams
  refine andThen_ensures (settled_always (parseAuthorizationRequest_always hC)) fun r hr => ?_
  cases r with
  | error error => exact rejectRequest_ensures (hr.2 _ rfl)
  | ok parsed =>
    obtain ⟨client, req⟩ := parsed
    refine andThen_ensures (newTransaction_ensures hC req client) fun tx htx => ?_
    obtain ⟨now, id, hnow, rfl⟩ := htx
    refine andThen_ensures (currentSession_ensures hG client) fun session hsession => ?_
    exact decideRequest_ensures hG client ⟨client, req, now, id, hr.1 _ rfl, hnow, rfl⟩ hsession

/-! ## Reading a transaction back -/

/-- What a handler may assume of a transaction it is given. -/
structure HandedIn (request : Request) (loaded : Loaded) : Prop where
  presented : request.presents (.tx loaded.tx)
  form : ∀ name, loaded.params.text name = request.field name

theorem mem_values_of_form {params : Form} {name : JsString} {v : Value}
    (hform : request.form = .ok params) (h : (name, v) ∈ params) : v ∈ request.values := by
  have : (name, v) ∈ request.form.toOption.getD [] := by simpa [hform, Except.toOption] using h
  exact List.mem_map.mpr ⟨(name, v), by simp [this], rfl⟩

theorem loadTransaction_ensures (hC : Routine C) :
    Ensures C (loadTransaction request) fun r =>
      (∀ loaded, r = .ok loaded → HandedIn request loaded) ∧
        ∀ response, r = .error response → ∃ detail, response = startAgainResponse detail := by
  refine suspend_then_ensures hC (andThen_ensures (ofExcept_ensures fun _ h => h) fun params hform => ?_)
  refine andThen_ensures (Q := fun v => single params (js "tx") = .ok v)
    (ofExcept_ensures fun _ h => h) fun token htoken => ?_
  split
  · exact pure_ensures ⟨(by rintro _ ⟨⟩), by rintro _ ⟨⟩; exact ⟨_, rfl⟩⟩
  · next v =>
    have hopened : Ensures C (catchSeal (some <$> openTransaction v) (pure none)) fun r =>
        ∀ tx, r = some tx → v.opens = some (.tx tx) := by
      refine catchSeal_ensures ?_ (pure_ensures (by rintro tx ⟨⟩))
      refine andThen_ensures (openTransaction_ensures hC v) fun tx htx => pure_ensures ?_
      rintro _ ⟨⟩
      exact htx
    refine andThen_ensures hopened fun opened hopens => ?_
    split
    · exact pure_ensures ⟨(by rintro _ ⟨⟩), by rintro _ ⟨⟩; exact ⟨_, rfl⟩⟩
    · next tx =>
      refine andThen_ensures (expired_ensures tx) fun late _ => ?_
      split
      · exact pure_ensures ⟨(by rintro _ ⟨⟩), by rintro _ ⟨⟩; exact ⟨_, rfl⟩⟩
      · refine andThen_ensures (attempt_ensures (perform_ensures hC rfl)) fun client _ => ?_
        split
        · exact pure_ensures ⟨(by rintro _ ⟨⟩), by rintro _ ⟨⟩; exact ⟨_, rfl⟩⟩
        · refine pure_ensures ⟨?_, by rintro _ ⟨⟩⟩
          rintro _ ⟨⟩
          refine ⟨⟨v, mem_values_of_form hform (mem_of_single htoken), hopens tx rfl⟩, fun name => ?_⟩
          simp [Request.field, hform, Except.toOption]

/-- A handler on the transaction of a request is as safe as on every
transaction that the request hands in. -/
theorem onTransaction_ensures (hC : Routine C) {handler : Loaded → M Response}
    (h : ∀ loaded, HandedIn request loaded →
      Ensures C (handler loaded) (Safe rt config C endpoint request)) :
    Ensures C (onTransaction request handler) (Safe rt config C endpoint request) := by
  refine andThen_ensures (loadTransaction_ensures hC) fun r hr => ?_
  cases r with
  | error response =>
    obtain ⟨detail, rfl⟩ := hr.2 _ rfl
    exact startAgain_ensures detail
  | ok loaded => exact h loaded (hr.1 _ rfl)

/-! ## Edits -/

variable {tx₀ tx : Transaction}

theorem Edit.refl (tx : Transaction) : Edit rt config C endpoint request tx tx := ⟨.refl tx, Or.inl rfl, .kept rfl⟩

/-- A code state made here replaces whatever there was. -/
theorem Edit.replaceOtp {tx' : Transaction} (h : Edit rt config C endpoint request tx₀ tx) (hsame : SameRequest tx tx')
    (hemail : tx'.email = tx.email) (hotp : OtpMove rt config C tx₀ tx') : Edit rt config C endpoint request tx₀ tx' :=
  ⟨h.same.trans hsame, by rw [hemail]; exact h.email, hotp⟩

/-- An edit says nothing of the stage, the upstream leg and the local account. -/
theorem Edit.congr {tx' : Transaction} (h : Edit rt config C endpoint request tx₀ tx) (hsame : SameRequest tx tx')
    (hemail : tx'.email = tx.email) (hotp : tx'.otp = tx.otp) : Edit rt config C endpoint request tx₀ tx' := by
  refine h.replaceOtp hsame hemail ?_
  cases h.otp with
  | kept h => exact .kept (hotp.trans h)
  | dropped h => exact .dropped (hotp.trans h)
  | attempted h => exact .attempted (hotp.trans h)
  | blank h digest => exact .blank (hotp.trans h) digest
  | drawn h named digest canonical generated =>
    exact .drawn (hotp.trans h) (by rw [hemail]; exact named) (by rw [hemail, hsame.id]; exact digest)
      canonical (by rw [hemail, hsame.id]; exact generated)

theorem Edit.withStage (h : Edit rt config C endpoint request tx₀ tx) (stage : Stage) :
    Edit rt config C endpoint request tx₀ { tx with stage } :=
  h.congr ⟨rfl⟩ rfl rfl

theorem StageMove.plain {stage : Stage} (hcode : stage ≠ .otp) (hfactor : stage ≠ .localMfa) :
    StageMove rt config tx₀ { tx with stage } :=
  ⟨fun h => absurd h hcode, fun h => absurd h hfactor⟩

/-! ## Email OTP -/

/-- The transaction carries the digest of the code that was drawn for it. -/
theorem drawOtp_ensures (hC : ∀ h t o, o.drawing = true → C.issue h t o) (tx : Transaction)
    (resends : Nat) :
    Ensures C (drawOtp rt config tx resends) fun r =>
      ∃ exp now, r.2 = withOtp tx (some (otpDigest rt config tx.id tx.email r.1)) exp resends now ∧
        normaliseCode rt (some r.1) = r.1 ∧ C.Saw (.note (.otpGenerated tx.id tx.email r.1 exp)) () := by
  have hroutine : Routine C := fun h t o ho => hC h t o (by cases o <;> first | exact ho | cases ho)
  refine andThen_ensures (generateCode_ensures hroutine _ _) fun code hcode => ?_
  refine andThen_ensures (digestCode_ensures hroutine _ _ _) fun digest hdigest => ?_
  have hcanon : normaliseCode rt (some code) = code := normaliseCode_generated hcode.2
  refine now_then_ensures fun now _ => ?_
  refine andThen_ensures (note_ensures fun h t _ => hC h t _ rfl) fun _ hsaw => ?_
  exact pure_ensures ⟨_, now, by rw [hdigest, hcanon], hcanon, hsaw⟩

theorem Guarded.lets_drawing (hG : Guarded rt config C endpoint request) :
    ∀ h t o, o.drawing = true → C.issue h t o := by
  intro h t o ho
  cases o with
  | note n =>
    cases n with
    | otpGenerated txId email code exp => exact hG h t _ .generated
    | _ => cases ho
  | _ => exact hG.lets_routine h t _ ho

/-- Sending a code shows the code screen for a transaction that may be shown it.
A message leaves only for an address that may sign in by code, and after it has
been counted. -/
theorem sendOtp_ensures (hG : Guarded rt config C endpoint request)
    (hpres : request.presents (.tx tx₀)) (hedit : Edit rt config C endpoint request tx₀ tx)
    (hstage : tx.stage = tx₀.stage) (hnamed : tx.email ≠ none)
    (hcode : (tx₀.stage = .otp ∧ tx.email = tx₀.email) ∨
      (requiresFederation tx.acrValues = true → otpAllowed rt config tx.email = false))
    (hcounted : ∀ tx', Counted rt config C endpoint tx₀ tx') (resend : Bool) :
    Ensures C (sendOtp rt config tx resend) (Safe rt config C endpoint request) := by
  have hC := hG.lets_routine
  -- whatever happens to the code, the screen is one the transaction may be shown
  have shown : ∀ tx', Edit rt config C endpoint request tx₀ tx' → tx'.acrValues = tx.acrValues → tx'.email = tx.email →
      (tx'.stage = .otp ∨ tx'.stage = tx₀.stage) → Derived rt config C endpoint request (.tx tx') := by
    intro tx' hedit' hacr hemail hst
    refine .edited hpres hedit' ⟨fun _ => ?_, fun h => ?_⟩ (hcounted tx')
    · rw [hacr, hemail]
      exact hcode
    · rcases hst with hst | hst
      · rw [hst] at h
        cases h
      · exact Or.inl (hst ▸ h)
  have blank : ∀ exp resends now, Edit rt config C endpoint request tx₀ (withOtp tx none exp resends now) :=
    fun exp resends now => hedit.replaceOtp ⟨rfl⟩ rfl (.blank rfl rfl)
  unfold sendOtp
  extract_lets resends
  split
  · exact renderOtp_ensures hC _ _ _ (shown tx hedit rfl rfl (Or.inr hstage))
  · intro s
    refine Prog.sat_bind.mpr ((checkOtpSendAllowed_sat hG.limits _ s).mono (fun _ _ _ => trivial) ?_)
    intro s limit hlimit
    dsimp only
    split
    · refine now_then_ensures (fun now _ => ?_) s
      split
      · exact renderOtp_ensures hC _ _ _ (shown tx hedit rfl rfl (Or.inr hstage))
      · exact renderOtp_ensures hC _ _ _ (shown _ (blank _ _ _) rfl rfl (Or.inl rfl))
    · next hallowed =>
      have hcharged := hlimit (by simpa using hallowed)
      refine Prog.sat_bind.mpr ((sat_of_only (φ := fun o => o.drawing = true) hG.lets_drawing
        (drawOtp_ensures (fun _ _ _ ho => ho) tx resends) s).mono (fun _ _ _ => trivial) ?_)
      rintro s' ⟨code, next⟩ ⟨⟨exp, now, hdrawn, hcanon, hsaw⟩, es, hpast, hes⟩
      dsimp only at hdrawn hcanon hsaw
      subst hdrawn
      have hnext : Derived rt config C endpoint request
          (.tx (withOtp tx (some (otpDigest rt config tx.id tx.email code)) exp resends now)) :=
        shown _ (hedit.replaceOtp ⟨rfl⟩ rfl
          (.drawn rfl hnamed rfl hcanon hsaw)) rfl rfl (Or.inl rfl)
      dsimp only
      split
      · exact renderOtp_ensures hC _ _ _ hnext s'
      · next hdecoy =>
        have hallow : otpAllowed rt config tx.email = true := by simpa [isDecoy] using hdecoy
        unfold deliverOtp
        refine fun t ht => ⟨hG _ _ _ (.send hpres hedit rfl hallow ?_), fun r _ => ?_⟩
        · rw [hpast]
          exact hcharged.append fun e he => not_isSend_of_drawing (hes e he)
        · cases r with
          | ok devCode => exact renderOtp_ensures hC _ _ _ hnext _
          | error e => exact renderOtp_ensures hC _ _ _ hnext _

theorem handleOtpRequest_ensures (hG : Guarded rt config C .otpRequest request) :
    Ensures C (handleOtpRequest rt config request) (Safe rt config C .otpRequest request) := by
  refine onTransaction_ensures hG.lets_routine fun loaded hin => ?_
  split
  · exact startAgain_ensures _
  · next h =>
    simp only [Bool.or_eq_true, Bool.not_eq_true', not_or] at h
    exact sendOtp_ensures hG hin.presented (.refl _) rfl (otpAllowed_named (by simpa using h.1))
      (Or.inr fun hfed => absurd hfed h.2) (fun _ => trivial) _

theorem handleResend_ensures (hG : Guarded rt config C .resend request) :
    Ensures C (handleResend rt config request) (Safe rt config C .resend request) := by
  refine onTransaction_ensures hG.lets_routine fun loaded hin => ?_
  split
  · exact startAgain_ensures _
  · next h =>
    simp only [Bool.or_eq_true, decide_eq_true_eq, not_or, Decidable.not_not] at h
    have hnamed : loaded.tx.email ≠ none := fun hnone => h.1 (by simp [hnone])
    exact sendOtp_ensures hG hin.presented (.refl _) rfl hnamed (Or.inl ⟨h.2, rfl⟩) (fun _ => trivial) _

/-- A session that carries the result of a sign-in completes its transaction. -/
theorem newlySigned_ensures (hG : Guarded rt config C endpoint request) {args : SessionArgs}
    (hsign : SignIn rt config C request endpoint tx args) (existing : Option Session)
    (hread : ∀ s, existing = some s → ReadFrom request s ∧ s.principal = args.principal) :
    Ensures C
      (match existing with
        | some session => reauthenticate config session args
        | none => newSession config args)
      (Completion rt config C request endpoint tx) := by
  cases existing with
  | some session =>
    refine ensures_imp (reauthenticate_ensures session args) fun s hs => ?_
    obtain ⟨now, hnow, rfl⟩ := hs
    exact .signedIn hsign (.again (hread session rfl).1 hnow (hread session rfl).2)
  | none =>
    have hissue : ∀ now sid, C.tick now → ∀ h t,
        C.issue h t (.note (.sessionCreated (newSessionAt config now sid args))) :=
      fun _ _ hnow h t => hG h t _ (.created hsign hnow)
    refine ensures_imp (newSession_ensures hG.lets_routine hissue) fun s hs => ?_
    obtain ⟨now, sid, hnow, rfl, hsaw⟩ := hs
    exact .signedIn hsign (.created hnow hsaw)

theorem handleOtpSubmit_ensures (hG : Guarded rt config C .otpSubmit request) :
    Ensures C (handleOtpSubmit rt config request) (Safe rt config C .otpSubmit request) := by
  have hC := hG.lets_routine
  refine onTransaction_ensures hC fun loaded hin => ?_
  split
  · exact startAgain_ensures _
  · next hstage =>
    simp only [Bool.or_eq_true, decide_eq_true_eq, not_or, Decidable.not_not] at hstage
    refine andThen_ensures (param_ensures _) fun submitted hsubmitted => ?_
    refine andThen_ensures (verifyCode_ensures hC loaded.tx _) fun r hr => ?_
    cases r with
    | some reason =>
      refine renderOtp_ensures hC _ _ _ (.edited hin.presented ?_ ⟨fun _ => Or.inl ⟨hstage.1, rfl⟩, ?_⟩ trivial)
      · exact (Edit.refl loaded.tx).replaceOtp ⟨rfl⟩ rfl (.attempted rfl)
      · exact fun h => Or.inl h
    | none =>
      obtain ⟨otp, digest, haccepted⟩ := hr rfl
      rw [hsubmitted, hin.form] at haccepted
      refine andThen_ensures (readSession_ensures hC hG.admits _) fun existing hread => ?_
      refine andThen_ensures (newlySigned_ensures hG (.otp hin.presented hstage.1 haccepted rfl rfl rfl) _
        fun s hs => ?_) fun s hs => complete_ensures hG _ hs
      obtain ⟨hs, hsame⟩ := Option.filter_eq_some_iff.mp hs
      simp only [Bool.decide_and, Bool.and_eq_true, decide_eq_true_eq] at hsame
      refine ⟨hread s hs, (principalOf_mailbox hsame.1).trans ?_⟩
      show Principal.mailbox s.email = .mailbox (loaded.tx.email.getD [])
      rw [← hsame.2]
      rfl

/-! ## Upstream round trip: the way out -/

/-- The transaction leaves with its leg; where the provider cannot be reached an
email code stands in if it would do. -/
theorem startUpstream_ensures (hG : Guarded rt config C endpoint request)
    (hroute : endpoint = .email ∨ endpoint = .chooseUpstream)
    (hpres : request.presents (.tx tx₀)) (hedit : Edit rt config C endpoint request tx₀ tx)
    (hstage : tx.stage = tx₀.stage) (upstream : Upstream) (hinted : Bool) :
    Ensures C (startUpstream rt config tx upstream hinted) (Safe rt config C endpoint request) := by
  have hC := hG.lets_routine
  have hcounted : ∀ tx', Counted rt config C endpoint tx₀ tx' := by
    rcases hroute with rfl | rfl <;> exact fun _ => trivial
  refine andThen_ensures (settled_ensures (beginUpstream_ensures hC upstream tx hinted)) fun r hr => ?_
  cases r with
  | ok body =>
    obtain ⟨leg, _, state, _, _, rfl, rfl⟩ := hr body rfl
    refine pure_ensures ⟨fun tok htok => ?_, fun target htarget => ?_⟩
    · rw [redirect_tokens] at htok
      rw [List.mem_singleton.mp htok]
      exact .leg hroute hpres (hedit.congr ⟨rfl⟩ rfl rfl)
    · cases htarget
  | error e =>
    dsimp only
    split
    · next h =>
      simp only [Bool.and_eq_true, Bool.not_eq_true'] at h
      exact sendOtp_ensures hG hpres hedit hstage (otpAllowed_named h.1)
        (Or.inr fun hfed => absurd hfed (by simp [h.2])) hcounted _
    · exact failed_ensures (.handed (by rcases hroute with rfl | rfl <;> decide) (Or.inl hpres) hedit.same)

theorem handleChooseUpstream_ensures (hG : Guarded rt config C .chooseUpstream request) :
    Ensures C (handleChooseUpstream rt config request) (Safe rt config C .chooseUpstream request) := by
  refine onTransaction_ensures hG.lets_routine fun loaded hin => ?_
  refine andThen_ensures (param_ensures _) fun chosen _ => ?_
  dsimp only
  split
  · exact startAgain_ensures _
  · exact startUpstream_ensures hG (Or.inr rfl) hin.presented (.refl _) rfl _ _

/-! ## POST /authorize/email -/

/-- A screen that asks for no code and no second factor may always be shown. -/
theorem shown_derived (hpres : request.presents (.tx tx₀)) (hedit : Edit rt config C endpoint request tx₀ tx)
    {stage : Stage} (hcode : stage ≠ .otp) (hfactor : stage ≠ .localMfa)
    (hcounted : ∀ tx', Counted rt config C endpoint tx₀ tx') :
    Derived rt config C endpoint request (.tx { tx with stage }) :=
  .edited hpres (hedit.withStage stage) (.plain hcode hfactor) (hcounted _)

theorem routeUnknown_ensures (hG : Guarded rt config C .email request)
    (hpres : request.presents (.tx tx₀)) (hedit : Edit rt config C .email request tx₀ tx)
    (hstage : tx.stage = tx₀.stage) (hnamed : tx.email ≠ none) :
    Ensures C (routeUnknown rt config request tx) (Safe rt config C .email request) := by
  unfold routeUnknown
  split
  · exact failed_ensures (.handed nofun (Or.inl hpres) hedit.same)
  · next hallowed =>
    split
    · exact renderEmail_ensures hG.lets_routine _ _ _
        (shown_derived hpres hedit (by decide) (by decide) fun _ => trivial)
    · exact sendOtp_ensures hG hpres hedit hstage hnamed
        (Or.inr fun _ => by simpa using hallowed) (fun _ => trivial) _

theorem routeHinted_ensures (hG : Guarded rt config C .email request)
    (hpres : request.presents (.tx tx₀)) (hedit : Edit rt config C .email request tx₀ tx)
    (hstage : tx.stage = tx₀.stage) (hnamed : tx.email ≠ none) (candidates : List Upstream) {otpPossible : Bool}
    (hpossible : otpPossible = true → requiresFederation tx.acrValues = false) :
    Ensures C (routeHinted rt config tx candidates otpPossible) (Safe rt config C .email request) := by
  refine andThen_ensures (hintUpstreams_ensures hG.lets_routine _ _) fun hint _ => ?_
  split
  · exact startUpstream_ensures hG (Or.inl rfl) hpres hedit hstage _ _
  · split
    · next h =>
      simp only [Bool.and_eq_true] at h
      exact sendOtp_ensures hG hpres hedit hstage hnamed
        (Or.inr fun hfed => absurd hfed (by simp [hpossible h.1])) (fun _ => trivial) _
    · exact renderChooser_ensures hG.lets_routine _ _ _
        (shown_derived hpres hedit (by decide) (by decide) fun _ => trivial)

theorem route_ensures (hG : Guarded rt config C .email request)
    (hpres : request.presents (.tx tx₀)) (hedit : Edit rt config C .email request tx₀ tx)
    (hstage : tx.stage = tx₀.stage) (hnamed : tx.email ≠ none) :
    Ensures C (route rt config request tx) (Safe rt config C .email request) := by
  have hpossible : (otpAllowed rt config tx.email && !requiresFederation tx.acrValues) = true →
      requiresFederation tx.acrValues = false := by
    intro h
    simp only [Bool.and_eq_true, Bool.not_eq_true'] at h
    exact h.2
  unfold route
  dsimp only
  split
  · exact renderLocalPassword_ensures hG.lets_routine _
      (shown_derived hpres hedit (by decide) (by decide) fun _ => trivial)
  · split
    · split
      · next h =>
        exact sendOtp_ensures hG hpres hedit hstage hnamed
          (Or.inr fun hfed => absurd hfed (by simp [hpossible h])) (fun _ => trivial) _
      · exact routeUnknown_ensures hG hpres hedit hstage hnamed
    · split
      · split
        · exact startUpstream_ensures hG (Or.inl rfl) hpres hedit hstage _ _
        · exact renderChooser_ensures hG.lets_routine _ _ _
            (shown_derived hpres hedit (by decide) (by decide) fun _ => trivial)
      · split
        · exact startUpstream_ensures hG (Or.inl rfl) hpres hedit hstage _ _
        · exact routeHinted_ensures hG hpres hedit hstage hnamed _ hpossible

theorem handleEmailSubmit_ensures (hG : Guarded rt config C .email request) :
    Ensures C (handleEmailSubmit rt config request) (Safe rt config C .email request) := by
  have hC := hG.lets_routine
  refine onTransaction_ensures hC fun loaded hin => ?_
  refine andThen_ensures (param_ensures _) fun remember _ => ?_
  refine andThen_ensures (param_ensures _) fun typed htyped => ?_
  rw [hin.form] at htyped
  dsimp only
  split
  · have hedit : Edit rt config C .email request loaded.tx { loaded.tx with rememberMe := some remember.isSome } :=
      ⟨⟨rfl⟩, Or.inl rfl, .kept rfl⟩
    exact renderEmail_ensures hC _ _ _ (shown_derived hin.presented hedit (by decide) (by decide)
      fun _ => trivial)
  · next email hemail =>
    obtain ⟨hnorm, hlooks⟩ := Option.filter_eq_some_iff.mp hemail
    rw [htyped] at hnorm
    have hedit : Edit rt config C .email request loaded.tx
        { loaded.tx with rememberMe := some remember.isSome, email := some email } :=
      ⟨⟨rfl⟩, Or.inr (Or.inr ⟨email, rfl, hlooks, rfl, hnorm⟩), .kept rfl⟩
    refine andThen_ensures (param_ensures _) fun method _ => ?_
    split
    · next h =>
      simp only [Bool.and_eq_true, Bool.not_eq_true'] at h
      exact sendOtp_ensures hG hin.presented hedit rfl (by simp)
        (Or.inr fun hfed => absurd hfed (by simpa using h.2)) (fun _ => trivial) _
    · exact route_ensures hG hin.presented hedit rfl (by simp)

/-! ## Local password and second factor -/

theorem checks_ensures (hG : Guarded rt config C endpoint request) (email : Option JsString)
    (factor : Factor) :
    Ensures C
      (promiseAll (checkLocalAuthAllowed rt config request (email.getD []) factor)
        (find rt config email))
      fun r => (r.1.allowed = true → AllowedAttempt C rt config (email.getD []) factor) ∧
        ∀ record, r.2.record = some record →
          ReadRecord rt C record ∧ addressKey? rt config email = some record.key :=
  promiseAll_ensures (fun _ => .inl) hG.limits (checkLocalAuthAllowed_ensures only_limits _ _)
    (find_ensures only_limits.routine _)

/-- A sign-in that carries a record carries what that record was before it changed. -/
theorem Names.before {args : SessionArgs} {record next : LocalRecord} (h : Names args next)
    (hsame : SameAccount record next) : Names args record :=
  ⟨by rw [h.id, hsame.id], by rw [h.key, hsame.key], by rw [h.version, hsame.securityVersion]⟩

theorem completeLocalAuthentication_ensures (hG : Guarded rt config C endpoint request)
    (client : Client) {record : LocalRecord} (hne : record.id ≠ []) (secondFactor : Option FactorMethod)
    (hsign : ∀ args : SessionArgs, Names args record → args.emailVerified = false →
      args.acr = (acrForLocal secondFactor).acr → SignIn rt config C request endpoint tx args) :
    Ensures C (completeLocalAuthentication rt config request tx client record secondFactor)
      (Safe rt config C endpoint request) := by
  refine andThen_ensures (currentSession_ensures hG client) fun existing hread => ?_
  split
  · next session hsession =>
    obtain ⟨hexisting, hsame⟩ := Option.filter_eq_some_iff.mp hsession
    refine andThen_ensures (newlySigned_ensures hG (hsign _ ⟨rfl, rfl, rfl⟩ rfl rfl) (some session) ?_)
      fun s hs => complete_ensures hG client hs
    rintro _ ⟨⟩
    refine ⟨(hread session hexisting).1, ?_⟩
    unfold Session.principal
    rw [of_decide_eq_true hsame, principalOf_account hne]
    exact (principalOf_account hne).symm
  · exact andThen_ensures (newlySigned_ensures hG (hsign _ ⟨rfl, rfl, rfl⟩ rfl rfl) none nofun)
      fun s hs => complete_ensures hG client hs

/-- An accepted password that was counted moves on, to the second factor or to
the end. -/
theorem afterPassword_ensures (hG : Guarded rt config C .localPassword request)
    (hpres : request.presents (.tx tx)) (client : Client) {record : LocalRecord}
    (hfound : AddressRecord rt config C tx record)
    (hallowed : AllowedAttempt C rt config (tx.email.getD []) .password) :
    Ensures C (afterPassword rt config request tx client record)
      (Safe rt config C .localPassword request) := by
  have hC := hG.lets_routine
  have hrefused : Ensures C (renderLocalPassword rt config tx (some LOCAL_CREDENTIAL_ERROR))
      (Safe rt config C .localPassword request) :=
    renderLocalPassword_ensures hC _ (.edited hpres ((Edit.refl tx).withStage _)
      (.plain (by decide) (by decide)) (Or.inr hallowed))
  unfold afterPassword
  cases hsingle : requiresSecondFactor record with
  | true =>
    simp only [↓reduceIte]
    split
    · exact hrefused
    · next hmeets =>
      refine renderLocalMfa_ensures hC _ _ ?_
      refine .edited hpres ((Edit.refl tx).congr ⟨rfl⟩ rfl rfl)
        ⟨by rintro ⟨⟩, fun _ => Or.inr ?_⟩ (Or.inr hallowed)
      simpa [acrForLocal] using hmeets
  | false =>
    simp only [Bool.false_eq_true, ↓reduceIte]
    split
    · exact hrefused
    · next hmeets =>
      refine completeLocalAuthentication_ensures hG client hfound.read.id_ne none
        fun args hnames hunproved hacr => ?_
      exact .password hpres hallowed hfound hsingle hnames hunproved hacr (by simpa [acrForLocal] using hmeets)

theorem handleLocalPassword_ensures (hG : Guarded rt config C .localPassword request) :
    Ensures C (handleLocalPassword rt config request) (Safe rt config C .localPassword request) := by
  have hC := hG.lets_routine
  refine onTransaction_ensures hC fun loaded hin => ?_
  dsimp only
  split
  · exact startAgain_ensures _
  · next hstage =>
    simp only [Bool.or_eq_true, decide_eq_true_eq, not_or, Decidable.not_not] at hstage
    refine andThen_ensures (checks_ensures hG _ _) fun r hr => ?_
    obtain ⟨limit, found⟩ := r
    refine andThen_ensures (param_ensures _) fun password _ => ?_
    refine andThen_ensures (verifyPassword_ensures hC found _) fun verified _ => ?_
    dsimp only
    split
    · -- the page is shown again with the transaction as it was
      have hsame : { loaded.tx with stage := .localPassword } = loaded.tx := by
        rw [← hstage.1.1]
      refine renderLocalPassword_ensures hC _ (hsame.symm ▸ ?_)
      exact .edited hin.presented (.refl _) ⟨fun h => Or.inl ⟨h, rfl⟩, Or.inl⟩ (Or.inl rfl)
    · next record hrecord =>
      have hboth := (Option.filter_eq_some_iff.mp hrecord).2
      simp only [Bool.and_eq_true] at hboth
      obtain ⟨hread, hkey⟩ := hr.2 record (Option.filter_eq_some_iff.mp hrecord).1
      exact afterPassword_ensures hG hin.presented _ ⟨hread, hkey⟩ (hr.1 hboth.2)

/-- A second factor is consumed only where the attempt was counted. -/
theorem checkSecondFactor_ensures (hG : Guarded rt config C .localMfa request)
    (hpres : request.presents (.tx tx)) (params : Form) {expected : Option LocalRecord}
    (hread : ∀ record, expected = some record → AddressRecord rt config C tx record) {consume : Bool}
    (hallowed : consume = true → AllowedAttempt C rt config (tx.email.getD []) .mfa) :
    Ensures C (checkSecondFactor rt config params expected consume) fun r =>
      consume = true → ∀ result, r = some result →
        ∃ record, AddressRecord rt config C tx record ∧ Consumed C record result.record := by
  unfold checkSecondFactor
  split
  · exact pure_ensures (by rintro _ result ⟨⟩)
  · next record =>
    refine andThen_ensures (param_ensures _) fun code _ => now_then_ensures fun now _ => ?_
    have hissue : consume = true → ∀ change, Update C record change → change.isFactor = true →
        ∀ h t, C.issue h t (replaceOp record change) := fun hconsume change hupdate hfactor h t =>
      hG h t _ (.consume hpres (hallowed hconsume) (hread record rfl).read hupdate hfactor rfl)
    refine ensures_imp (verifySecondFactor_ensures hG.lets_routine _ _ hissue) ?_
    exact fun r hr hconsume result hresult => ⟨record, hread record rfl, hr hconsume result hresult⟩

theorem handleLocalMfa_ensures (hG : Guarded rt config C .localMfa request) :
    Ensures C (handleLocalMfa rt config request) (Safe rt config C .localMfa request) := by
  have hC := hG.lets_routine
  refine onTransaction_ensures hC fun loaded hin => ?_
  dsimp only
  split
  · exact startAgain_ensures _
  · next ref href =>
    split
    · exact startAgain_ensures _
    · next hstage =>
      simp only [Bool.or_eq_true, decide_eq_true_eq, not_or, Decidable.not_not] at hstage
      refine andThen_ensures (checks_ensures hG _ _) fun r hr => ?_
      obtain ⟨limit, found⟩ := r
      dsimp only
      refine andThen_ensures (checkSecondFactor_ensures hG hin.presented _ (fun record h => ?_) hr.1)
        fun result hresult => ?_
      · obtain ⟨hread, hkey⟩ := hr.2 record (Option.filter_eq_some_iff.mp h).1
        exact ⟨hread, hkey⟩
      · split
        · have hsame : { loaded.tx with stage := .localMfa } = loaded.tx := by
            rw [← hstage.1.1]
          refine renderLocalMfa_ensures hC _ _ (hsame.symm ▸ ?_)
          exact .edited hin.presented (.refl _) ⟨fun h => Or.inl ⟨h, rfl⟩, Or.inl⟩ (Or.inl rfl)
        · next result hresult' =>
          obtain ⟨hsome, hallowed⟩ := Option.filter_eq_some_iff.mp hresult'
          obtain ⟨record, hfound, hconsumed⟩ := hresult hallowed result hsome
          have hsame := hconsumed.sameAccount
          refine completeLocalAuthentication_ensures hG _ (hsame.id.symm ▸ hfound.read.id_ne) _
            fun args hnames hunproved hacr => ?_
          exact .factor hin.presented hstage.1.1 (hr.1 hallowed) hfound hconsumed (hnames.before hsame) hunproved
            hacr

/-! ## Restart and continue -/

theorem handleRestart_ensures (hG : Guarded rt config C .restart request) :
    Ensures C (handleRestart rt config request) (Safe rt config C .restart request) := by
  refine onTransaction_ensures hG.lets_routine fun loaded hin => ?_
  have hedit : Edit rt config C .restart request loaded.tx (withoutOtp loaded.tx) :=
    ⟨⟨rfl⟩, Or.inr (Or.inl rfl), .dropped rfl⟩
  exact renderEmail_ensures hG.lets_routine _ _ _
    (shown_derived hin.presented hedit (by decide) (by decide) fun _ => trivial)

/-- The continue page asks for a session that is fresh and strong enough, and
for nothing else of the transaction. -/
theorem handleContinue_ensures (hG : Guarded rt config C .continue request) :
    Ensures C (handleContinue rt config request) (Safe rt config C .continue request) := by
  have hC := hG.lets_routine
  refine onTransaction_ensures hC fun loaded hin => ?_
  have hshown : Derived rt config C .continue request (.tx { loaded.tx with stage := .email }) :=
    shown_derived hin.presented (.refl _) (by decide) (by decide) fun _ => trivial
  refine andThen_ensures (currentSession_ensures hG _) fun session hread => ?_
  split
  · exact renderEmail_ensures hC _ _ _ hshown
  · next s =>
    refine andThen_ensures (sessionIsFresh_ensures s _) fun fresh hfresh => ?_
    obtain ⟨now, hnow, rfl⟩ := hfresh
    split
    · exact renderEmail_ensures hC _ _ _ hshown
    · next hfresh =>
      split
      · exact renderEmail_ensures hC _ _ _ hshown
      · next hmeets =>
        refine complete_ensures hG _ (.continued hin.presented ⟨(hread s rfl).1, (hread s rfl).2, ?_, ?_⟩)
        · exact ⟨now, hnow, by simpa using hfresh⟩
        · simpa using hmeets

/-! ## Upstream round trip: the way back -/

/-- What comes back of a leg is shown without its code state. -/
theorem returned_derived (hpres : request.presents (.upstreamState tx₀)) (tx : Transaction)
    (hsame : SameRequest tx₀ tx) (hemail : tx.email = tx₀.email ∨ tx.email = none)
    (hotp : tx.otp = none) {stage : Stage} (hcode : stage ≠ .otp) (hfactor : stage ≠ .localMfa) :
    Derived rt config C .callback request (.tx { tx with stage }) := by
  refine .returned rfl hpres ⟨hsame.trans ⟨rfl⟩, ?_, .dropped hotp⟩ hcode hfactor
  rcases hemail with h | h
  · exact Or.inl h
  · exact Or.inr (Or.inl h)

theorem offerFallback_ensures (hG : Guarded rt config C .callback request)
    (hpres : request.presents (.upstreamState tx)) :
    Ensures C (offerFallback rt config request tx) (Safe rt config C .callback request) := by
  have hC := hG.lets_routine
  have hkept : ∀ stage : Stage, stage ≠ .otp → stage ≠ .localMfa →
      Derived rt config C .callback request (.tx { withoutAttempt tx with stage }) :=
    fun _ h h' => returned_derived hpres (withoutAttempt tx) ⟨rfl⟩ (Or.inl rfl) rfl h h'
  unfold offerFallback
  dsimp only
  split
  · exact renderLocalPassword_ensures hC _ (hkept _ (by decide) (by decide))
  · split
    · exact renderChooser_ensures hC _ _ _ (hkept _ (by decide) (by decide))
    · split
      · exact renderEmail_ensures hC _ _ _ (returned_derived hpres (withoutOtp tx)
          ⟨rfl⟩ (Or.inr rfl) rfl (by decide) (by decide))
      · exact failed_ensures (.handed nofun (Or.inr hpres) (.refl tx))

theorem upstreamRefused_ensures (hG : Guarded rt config C .callback request)
    (hpres : request.presents (.upstreamState tx)) (leg : UpstreamLeg) (upstreamError : JsString) :
    Ensures C (upstreamRefused rt config request tx leg upstreamError)
      (Safe rt config C .callback request) := by
  unfold upstreamRefused
  split
  · exact failed_ensures (.handed nofun (Or.inr hpres) (.refl tx))
  · split
    · exact failed_ensures (.handed nofun (Or.inr hpres) (.refl tx))
    · exact offerFallback_ensures hG hpres

theorem Guarded.retains (hG : Guarded rt config C .callback request) {record : LocalRecord}
    (hread : ReadRecord rt C record) :
    ∀ change, Update C record change → change.isFactor = false →
      ∀ h t, C.issue h t (replaceOp record change) :=
  fun _ hupdate hfactor h t => hG h t _ (.retain hread hupdate hfactor rfl)

theorem persistRefreshToken_ensures (hG : Guarded rt config C .callback request) {stateTx : Transaction}
    (upstream : Upstream) (outcome : Outcome) {record : LocalRecord} {link : UpstreamLink}
    (hfound : AddressRecord rt config C stateTx record) (hlink : link ∈ record.upstreams) :
    Ensures C (persistRefreshToken rt config stateTx upstream outcome record link) fun next =>
      ∃ record, AddressRecord rt config C stateTx record ∧ SameAccount record next := by
  have hC := hG.lets_routine
  unfold persistRefreshToken
  split
  · exact pure_ensures ⟨record, hfound, .refl record⟩
  · next token htoken =>
    refine andThen_ensures (storeRefreshToken_ensures hC hlink token (hG.retains hfound.read)) fun stored hstored => ?_
    split
    · next next => exact pure_ensures ⟨record, hfound, (hstored next rfl).sameAccount⟩
    · refine andThen_ensures (linked_ensures hC _ _ _ _) fun again hagain => ?_
      split
      · exact fail_ensures
      · next retried link' =>
        obtain ⟨⟨hread', hkey'⟩, hlink'⟩ := hagain retried link' rfl
        refine andThen_ensures (storeRefreshToken_ensures hC hlink' token (hG.retains hread')) fun stored hstored => ?_
        split
        · exact fail_ensures
        · next next => exact pure_ensures ⟨retried, ⟨hread', hkey'⟩, (hstored next rfl).sameAccount⟩

/-- A linked record belongs to the address, and that is the one the upstream has
asserted. -/
theorem linkedRecord_ensures (hG : Guarded rt config C .callback request) (stateTx : Transaction)
    (upstream : Upstream) (outcome : Outcome) :
    Ensures C (linkedRecord rt config stateTx upstream outcome) fun r => ∀ next, r = some next →
      normaliseEmail rt (some outcome.email) = normaliseEmail rt stateTx.email ∧
        ∃ record, AddressRecord rt config C stateTx record ∧ SameAccount record next := by
  unfold linkedRecord
  split
  · next h =>
    simp only [Bool.and_eq_true, decide_eq_true_eq] at h
    refine andThen_ensures (linked_ensures hG.lets_routine _ _ _ _) fun r hr => ?_
    split
    · exact pure_ensures (by rintro _ ⟨⟩)
    · next record link =>
      obtain ⟨⟨hread, hkey⟩, hlink⟩ := hr record link rfl
      refine andThen_ensures (persistRefreshToken_ensures hG upstream outcome ⟨hread, hkey⟩ hlink)
        fun next hnext => pure_ensures ?_
      rintro _ ⟨⟩
      exact ⟨h.2, hnext⟩
  · exact pure_ensures (by rintro _ ⟨⟩)

theorem afterUpstream_ensures (hG : Guarded rt config C .callback request)
    (hpres : request.presents (.upstreamState tx)) (client : Client) (upstream : Upstream)
    {outcome : Outcome} (hasserts : Asserts rt C outcome.claims outcome.email)
    (hmeets : satisfies (acrFromUpstream rt.cases outcome.claims).acr tx.acrValues = true) :
    Ensures C (afterUpstream rt config request tx client upstream outcome)
      (Safe rt config C .callback request) := by
  refine andThen_ensures (linkedRecord_ensures hG tx upstream outcome) fun next hnext => ?_
  dsimp only
  have hsign : SignIn rt config C request .callback { tx with upstream := none }
      (upstreamArgs rt config tx upstream outcome next) := by
    refine .upstream hpres ⟨_, hasserts, ?_⟩ ?_ rfl hmeets
    · cases next with
      | none => rfl
      | some next => exact (hnext next rfl).1
    · cases next with
      | none => exact Or.inl rfl
      | some next =>
        obtain ⟨-, record, hfound, hsame⟩ := hnext next rfl
        have hnames : Names (upstreamArgs rt config tx upstream outcome (some next)) next := ⟨rfl, rfl, rfl⟩
        exact Or.inr ⟨record, hfound, hnames.before hsame⟩
  refine andThen_ensures (currentSession_ensures hG client) fun existing hread => ?_
  split
  · next session hsession =>
    obtain ⟨hexisting, hsame⟩ := Option.filter_eq_some_iff.mp hsession
    refine andThen_ensures (newlySigned_ensures hG hsign (some session) ?_)
      fun s hs => complete_ensures hG client hs
    rintro _ ⟨⟩
    refine ⟨(hread session hexisting).1, ?_⟩
    cases next with
    | none =>
      simp only [samePrincipal, upstreamArgs, Option.map_none, Bool.and_eq_true, decide_eq_true_eq] at hsame
      refine (principalOf_mailbox hsame.1).trans ?_
      rw [hsame.2]
      rfl
    | some next =>
      obtain ⟨-, record, hfound, hsameAccount⟩ := hnext next rfl
      have hne : next.id ≠ [] := hsameAccount.id.symm ▸ hfound.read.id_ne
      simp only [samePrincipal, upstreamArgs, Option.map_some, decide_eq_true_eq] at hsame
      unfold Session.principal
      rw [hsame, principalOf_account hne]
      exact (principalOf_account hne).symm
  · exact andThen_ensures (newlySigned_ensures hG hsign none nofun)
      fun s hs => complete_ensures hG client hs

theorem upstreamReturned_ensures (hG : Guarded rt config C .callback request)
    (hpres : request.presents (.upstreamState tx)) (leg : UpstreamLeg) (client : Client)
    (code : JsString) :
    Ensures C (upstreamReturned rt config request tx leg client code)
      (Safe rt config C .callback request) := by
  unfold upstreamReturned
  split
  · exact startAgain_ensures _
  · next upstream _ =>
    refine andThen_ensures (settled_ensures (completeUpstream_ensures hG.lets_routine _ _ _ _)) fun r hr => ?_
    cases r with
    | error e => exact offerFallback_ensures hG hpres
    | ok outcome =>
      dsimp only
      split
      · exact failed_ensures (.handed nofun (Or.inr hpres) (.refl tx))
      · next hmeets => exact afterUpstream_ensures hG hpres client upstream (hr outcome rfl) (by simpa using hmeets)

theorem handleCallback_ensures (hG : Guarded rt config C .callback request) :
    Ensures C (handleCallback rt config request) (Safe rt config C .callback request) := by
  have hC := hG.lets_routine
  refine andThen_ensures (Q := fun v => single request.query (js "state") = .ok v)
    (ofExcept_ensures fun _ h => h) fun token htoken => ?_
  split
  · exact startAgain_ensures _
  · next v =>
    have hopened : Ensures C (catchSeal (some <$> openUpstreamState v) (pure none)) fun r =>
        ∀ tx leg, r = some (tx, leg) → v.opens = some (.upstreamState tx) := by
      refine catchSeal_ensures ?_ (pure_ensures (by rintro tx leg ⟨⟩))
      refine andThen_ensures (openUpstreamState_ensures hC v) fun r hr => pure_ensures ?_
      rintro tx leg ⟨⟩
      exact hr
    refine andThen_ensures hopened fun opened hopens => ?_
    split
    · exact startAgain_ensures _
    · next stateTx leg =>
      have hmem : v ∈ request.values :=
        List.mem_map.mpr ⟨(js "state", v), by simp [mem_of_single htoken], rfl⟩
      have hpres : request.presents (.upstreamState stateTx) := ⟨v, hmem, hopens _ _ rfl⟩
      refine andThen_ensures (expired_ensures stateTx) fun late _ => ?_
      split
      · exact startAgain_ensures _
      · refine andThen_ensures (attempt_ensures (perform_ensures hC rfl)) fun client _ => ?_
        split
        · exact startAgain_ensures _
        · refine andThen_ensures (param_ensures _) fun error _ => ?_
          split
          · exact andThen_ensures (param_ensures _) fun _ _ => upstreamRefused_ensures hG hpres leg _
          · refine andThen_ensures (param_ensures _) fun code _ => ?_
            split
            · exact startAgain_ensures _
            · exact upstreamReturned_ensures hG hpres leg _ _

end Sag
