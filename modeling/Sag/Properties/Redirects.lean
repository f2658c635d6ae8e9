import Sag.Browser
import Sag.Lib.Cut
import Sag.Properties.Transactions

/-!
# Where a browser is sent, and with what

Every copy of a transaction carries the request it started from (`Descends`), so a code
carries the values of that request, and a response that goes to a redirect URI goes to
one that the client of such a request accepts.

A request whose client cannot be found, or does not accept its redirect URI, goes
nowhere. Nor does one for the parameters that it repeats: it is redirected only with an
error that it would get whatever stood in their place (`cut_of_repeats`), and this is an
error that the parser finds before it reads them.
-/

namespace Sag

open Resumable

variable {rt : Runtime} {config : Config} {σ : Type} {env : Environment effects σ} {s : σ}
variable {w : World (gateway rt config) σ}

/-! ## The request of a transaction -/

/-- The transaction is a copy of the one that an authorization request of the run has
started. -/
def CameFrom (w : World (gateway rt config) σ) (request : Request) (tx : Transaction) : Prop :=
  .serve .authorize request ∈ w.threads.map (·.req) ∧ ∃ start stop started,
    Started rt config (during start stop (seen w.log)) request started ∧ SameRequest started tx

def Descends (w : World (gateway rt config) σ) (tx : Transaction) : Prop := ∃ request, CameFrom w request tx

/-- What a code carries of its request. -/
structure CarriesRequest (payload : CodePayload) (req : AuthRequest) : Prop where
  clientId : payload.clientId = req.clientId
  redirectUri : payload.redirectUri = req.redirectUri
  scope : payload.scope = req.scope
  nonce : payload.nonce = req.nonce
  codeChallenge : payload.codeChallenge = req.codeChallenge
  codeChallengeMethod : payload.codeChallengeMethod = req.codeChallengeMethod
  idTokenAlg : payload.idTokenAlg = req.idTokenAlg
  resource : payload.resource = req.resource

/-- The target is the one that the client of an authorization request accepts, and the
state is the one of that request. -/
def AcceptedTarget (w : World (gateway rt config) σ) (request : Request) (target : RedirectTargets) : Prop :=
  ∃ start stop clientId client redirectUri,
    Accepts rt (during start stop (seen w.log)) config request.params clientId client redirectUri ∧
      target.redirectUri = some redirectUri ∧ target.state = request.params.text (js "state")

/-- Two lists of parameters that differ at most in the values of `name`. -/
def SameBut (name : JsString) (params params' : Form) : Prop :=
  ∀ n, n ≠ name → params'.filter (·.1 = n) = params.filter (·.1 = n)

/-- Two requests that differ at most in the values of one parameter. -/
structure Varies (name : JsString) (request request' : Request) : Prop where
  method : request'.isPost = request.isPost
  readable : request.isPost = true → ∃ params params', request.form = .ok params ∧ request'.form = .ok params'
  params : SameBut name request.params request'.params

/-- The integrity of the transactions of a run. -/
structure Integrity (rt : Runtime) (config : Config) (w : World (gateway rt config) σ) : Prop where
  /-- Every transaction that was handed out descends from a request, -/
  transactions : ∀ tok, w.Known tok → onTransactions (fun _ tx => Descends w tx) w.clock tok
  /-- and every code carries its values. -/
  codes : ∀ tx payload, (tx, payload) ∈ issued w.log → ∃ request, CameFrom w request tx ∧
    ∃ start stop client req, Parsed rt (during start stop (seen w.log)) config request.params client req ∧
      CarriesRequest payload req
  /-- A code or an error is sent where the request accepts it whose transaction was handed in, -/
  targets : ∀ th ∈ w.threads, ∀ endpoint request, th.req.served = some (endpoint, request) → endpoint ≠ .authorize →
    ∀ t response, th.stop = some (t, .ok (.response response)) → ∀ target, response.body.target? = some target →
      ∃ tx origin, (request.presents (.tx tx) ∨ request.presents (.upstreamState tx)) ∧ CameFrom w origin tx ∧
        AcceptedTarget w origin target
  /-- and by an authorization request only where its own client accepts it, -/
  accepted : ∀ th ∈ w.threads, ∀ request, th.req = .serve .authorize request → ∀ t response,
    th.stop = some (t, .ok (.response response)) → ∀ target, response.body.target? = some target →
      ∃ clientId client redirectUri, target.redirectUri = some redirectUri ∧
        Accepts rt (during th.start t (seen th.trace)) config request.params clientId client redirectUri
  /-- and where it repeats a parameter only with an error that does not depend on that
  parameter. -/
  repeated : ∀ th ∈ w.threads, ∀ request, th.req = .serve .authorize request → ∀ t response,
    th.stop = some (t, .ok (.response response)) → ∀ target, response.body.target? = some target →
      ∀ name ∈ SINGLE_PARAMS, request.params.repeats name = true →
        (∃ error targets, response = failureResponse error targets) ∧
        ∀ request', Varies name request request' → ∃ q,
          Prog.Steps (runCall rt config (.serve .authorize request')) th.trace q ∧
            q.atTime t = .pure (.response response)

/-! ## Descent -/

theorem descends_lineage (w : World (gateway rt config) σ) :
    Lineage rt config (· ∈ w.threads.map (·.req)) w.log fun _ tx => Descends w tx where
  mono _ _ _ _ h := h
  started request start stop tx hcall _ hstarted _ := ⟨request, hcall, start, stop, tx, hstarted, ⟨rfl⟩⟩
  edited _ _ _ _ _ _ _ _ _ _ hdescends hedit := by
    obtain ⟨request, hcall, start, stop, started, hstarted, hsame⟩ := hdescends
    exact ⟨request, hcall, start, stop, started, hstarted, hsame.trans hedit.same⟩

theorem mem_reqs : ∀ th ∈ w.threads, th.req ∈ w.threads.map (·.req) :=
  fun _ hth => List.mem_map.mpr ⟨_, hth, rfl⟩

/-- The code of a transaction carries the request that it descends from. -/
theorem carries_of_descends {tx : Transaction} {request : Request} (h : CameFrom w request tx)
    {C : Rely effects} {session : Session} {payload : CodePayload} (hminted : Minted config C tx session payload) :
    ∃ start stop client req, Parsed rt (during start stop (seen w.log)) config request.params client req ∧
      CarriesRequest payload req := by
  obtain ⟨-, start, stop, started, hstarted, hsame⟩ := h
  obtain ⟨client, req, now, id, hparsed, -, rfl⟩ := hstarted.exists_parsed
  obtain ⟨touched, minted, jti, sub, email, -, -, rfl⟩ := hminted
  have hkept := hsame.started
  exact ⟨start, stop, client, req, hparsed,
    { clientId := congrArg Transaction.clientId hkept
      redirectUri := congrArg Transaction.redirectUri hkept
      scope := congrArg Transaction.scope hkept
      nonce := congrArg Transaction.nonce hkept
      codeChallenge := congrArg Transaction.codeChallenge hkept
      codeChallengeMethod := congrArg Transaction.codeChallengeMethod hkept
      idTokenAlg := congrArg Transaction.idTokenAlg hkept
      resource := congrArg Transaction.resource hkept }⟩

/-- The redirect URI of a transaction was accepted when it started. -/
theorem acceptedTarget_of_descends {tx tx' : Transaction} {request : Request} (h : CameFrom w request tx)
    (hcopy : SameRequest tx tx') : AcceptedTarget w request (redirectTargets tx') := by
  obtain ⟨-, start, stop, started, hstarted, hsame⟩ := h
  have hsame := hsame.trans hcopy
  obtain ⟨client, req, now, id, hparsed, -, rfl⟩ := hstarted.exists_parsed
  refine ⟨start, stop, req.clientId, client, req.redirectUri, hparsed.accepts, ?_, ?_⟩
  · exact congrArg some hsame.redirectUri
  · exact hsame.state.trans hparsed.state

section
variable (h : Reachable (gateway rt config) env s w)
include h

/-- A later step is answered where the request of its transaction may be. -/
theorem acceptedTarget_of_aimed {th : Thread (gateway rt config)} (hth : th ∈ w.threads) {t : Nat}
    {endpoint : Endpoint} {request : Request} (hserved : th.req.served = some (endpoint, request))
    (hlater : endpoint ≠ .authorize) {target : RedirectTargets}
    (haimed : Aimed rt config (during th.start t (seen w.log)) endpoint request target) :
    ∃ tx origin, (request.presents (.tx tx) ∨ request.presents (.upstreamState tx)) ∧ CameFrom w origin tx ∧
      AcceptedTarget w origin target := by
  cases haimed with
  | transaction hhandled =>
    cases hhandled with
    | started hstart _ => exact absurd hstart hlater
    | @handed tx _ _ hpresented hsame =>
      obtain ⟨origin, hdescends⟩ := (descends_lineage w).sound h mem_reqs th hth endpoint request hserved tx hpresented
      exact ⟨tx, origin, hpresented, hdescends, acceptedTarget_of_descends hdescends hsame⟩
  | rejected hstart _ _ _ => exact absurd hstart hlater

/-- An authorization request is answered at its redirect URI only if that was accepted. -/
theorem accepts_of_authorize {th : Thread (gateway rt config)} (hth : th ∈ w.threads) {request : Request}
    (hreq : th.req = .serve .authorize request) {t : Nat} {response : Response}
    (hstop : th.stop = some (t, .ok (.response response))) {target : RedirectTargets}
    (htarget : response.body.target? = some target) :
    ∃ clientId client redirectUri, target.redirectUri = some redirectUri ∧
      Accepts rt (during th.start t (seen th.trace)) config request.params clientId client redirectUri := by
  obtain ⟨endpoint, request', hserved, hsafe⟩ :=
    (h.threads_sound th hth).result gateway_meets (R := seen th.trace) (fun _ he => he) hstop
  rw [hreq] at hserved
  obtain ⟨rfl, rfl⟩ := Prod.mk.inj (Option.some.inj hserved)
  cases hsafe.aimed target htarget with
  | transaction hhandled =>
    cases hhandled with
    | started _ hstarted =>
      obtain ⟨client, req, now, id, hparsed, -, rfl⟩ := hstarted.exists_parsed
      exact ⟨_, _, _, rfl, hparsed.accepts⟩
    | handed hlater => exact absurd rfl hlater
  | rejected _ haccepts => exact ⟨_, _, _, rfl, haccepts⟩

end

/-! ## Repeated parameters -/

/-- The parser has failed with an error that may not be relayed. -/
def Unrelayed {α : Type} (r : Except JsError α) : Prop := ∃ e, r = .error e ∧ ¬ e.relayed

/-- The parser has failed. -/
def Failed {α : Type} (r : Except JsError α) : Prop := ∃ e, r = .error e

section
variable {name : JsString} {params params' : Form} (hvary : SameBut name params params')
variable (hrepeats : params.repeats name = true)

/-- A parameter that is repeated cannot be read, and the error is not relayed. -/
theorem single_of_repeats (h : params.repeats name = true) :
    ∃ e, single params name = .error e ∧ ¬ e.relayed := by
  unfold Form.repeats at h
  unfold single
  split
  · next hnil => simp [hnil] at h
  · next p hp => simp [hp] at h
  · exact ⟨_, rfl, nofun⟩

include hvary in
/-- Any other parameter is read alike. -/
theorem single_of_varies {n : JsString} (hn : n ≠ name) : single params' n = single params n := by
  unfold single
  rw [hvary n hn]

include hvary hrepeats in
/-- Reading a parameter: the end, if it is the one that is repeated. -/
theorem read_cut {α : Type} {B S : Except JsError α → Prop} (hB : ∀ e, ¬ e.relayed → B (.error e))
    (hS : ∀ e, S (.error e)) {f f' : Option Value → M α} (n : JsString)
    (hnext : n ≠ name → ∀ v, Prog.Cut B S (f v) (f' v)) :
    Prog.Cut B S (param params n >>= f) (param params' n >>= f') := by
  unfold param
  by_cases hn : n = name
  · subst hn
    obtain ⟨e, hread, hunrelayed⟩ := single_of_repeats hrepeats
    rw [hread]
    show Prog.Cut B S (Prog.ofExcept (F := effects) (.error e : Except JsError α)) _
    exact .short (hB e hunrelayed) _
  · rw [single_of_varies hvary hn]
    cases single params n with
    | ok v => exact hnext hn v
    | error e =>
      show Prog.Cut B S (Prog.ofExcept (F := effects) (.error e : Except JsError α)) _
      exact .same (hS e)

/-- What both do alike. -/
theorem both_cut {α β : Type} (p : M α) {f f' : α → M β}
    (hnext : ∀ a, Prog.Cut Unrelayed Failed (f a) (f' a)) : Prog.Cut Unrelayed Failed (p >>= f) (p >>= f') :=
  (Prog.Cut.refl (B := fun _ => False) (S := fun _ => True) (fun _ => trivial) p).bind (fun _ => False.elim)
    (fun _ => False.elim) (fun e _ => ⟨e, rfl⟩) fun a _ => hnext a

theorem fail_cut {α : Type} {B S : Except JsError α → Prop} {e : JsError} (h : S (.error e)) :
    Prog.Cut B S (fail e : M α) (fail e) := by
  show Prog.Cut B S (Prog.ofExcept (F := effects) (.error e : Except JsError α)) _
  exact .same h

include hvary hrepeats in
theorem identifyClient_cut : Prog.Cut Unrelayed
    (fun r => ∀ a, r = .ok a → js "client_id" ≠ name ∧ js "redirect_uri" ≠ name)
    (identifyClient rt config params) (identifyClient rt config params') := by
  have refused : ∀ (code description : JsString) (status : Nat), Prog.Cut Unrelayed
      (fun r => ∀ a, r = .ok a → js "client_id" ≠ name ∧ js "redirect_uri" ≠ name)
      (unredirectable code description status : M (JsString × Client × JsString))
      (unredirectable code description status) :=
    fun _ _ _ => fail_cut fun _ heq => by cases heq
  unfold identifyClient
  refine read_cut hvary hrepeats (fun e he => ⟨e, rfl, he⟩) (fun _ _ heq => by cases heq) _ fun h₁ v => ?_
  cases textOf v with
  | none => exact refused _ _ _
  | some clientId =>
    refine .call fun answer => ?_
    cases answer with
    | error e => cases e <;> exact refused _ _ _
    | ok found =>
      cases found with
      | none => exact refused _ _ _
      | some client =>
        refine read_cut hvary hrepeats (fun e he => ⟨e, rfl, he⟩) (fun _ _ heq => by cases heq) _ fun h₂ v => ?_
        cases textOf v with
        | none => exact refused _ _ _
        | some redirectUri =>
          dsimp only
          split
          · exact .same (r := .ok (clientId, client, redirectUri)) fun _ _ => ⟨h₁, h₂⟩
          · exact refused _ _ _

include hvary hrepeats in
/-- A request that repeats `name` is not parsed, and every error that may be relayed it would
also get with other values of `name`. -/
theorem parse_cut (hname : name ∈ SINGLE_PARAMS) : Prog.Cut Unrelayed Failed
    (parseAuthorizationRequest rt config params) (parseAuthorizationRequest rt config params') := by
  have read : ∀ {α : Type} {f f' : Option Value → M α} (n : JsString),
      (n ≠ name → ∀ v, Prog.Cut Unrelayed Failed (f v) (f' v)) →
        Prog.Cut Unrelayed Failed (param params n >>= f) (param params' n >>= f') :=
    fun n hnext => read_cut hvary hrepeats (fun e he => ⟨e, rfl, he⟩) (fun e => ⟨e, rfl⟩) n hnext
  refine (identifyClient_cut hvary hrepeats).bind (fun e he => ?_) (fun _ hok => ?_) (fun e _ => ⟨e, rfl⟩)
    fun identified hnamed => ?_
  · obtain ⟨e', heq, hunrelayed⟩ := he
    cases heq
    exact ⟨e, rfl, hunrelayed⟩
  · obtain ⟨_, heq, -⟩ := hok
    cases heq
  obtain ⟨clientId, client, redirectUri⟩ := identified
  obtain ⟨h₁, h₂⟩ := hnamed _ rfl
  refine read _ fun h₃ state => read _ fun h₄ responseType => ?_
  cases textOf responseType with
  | none => exact fail_cut ⟨_, rfl⟩
  | some responseType =>
    dsimp only
    split
    · exact fail_cut ⟨_, rfl⟩
    · refine read _ fun h₅ responseMode => ?_
      split
      · exact fail_cut ⟨_, rfl⟩
      · refine read _ fun h₆ scope => both_cut _ fun _ => ?_
        refine read _ fun h₇ challenge => read _ fun h₈ method => both_cut _ fun _ => ?_
        refine read _ fun h₉ nonce => read _ fun h₁₀ prompt => both_cut _ fun _ => ?_
        refine read _ fun h₁₁ maxAge => both_cut _ fun _ => ?_
        refine read _ fun h₁₂ acr => read _ fun h₁₃ alg => both_cut _ fun _ => ?_
        refine read _ fun h₁₄ hint => read _ fun h₁₅ locales => ?_
        -- all have been read, so none of them is the one that is repeated
        exact absurd hname (by simp [SINGLE_PARAMS, Ne.symm h₁, Ne.symm h₂, Ne.symm h₃, Ne.symm h₄, Ne.symm h₅,
          Ne.symm h₆, Ne.symm h₇, Ne.symm h₈, Ne.symm h₉, Ne.symm h₁₀, Ne.symm h₁₁, Ne.symm h₁₂, Ne.symm h₁₃,
          Ne.symm h₁₄, Ne.symm h₁₅])

/-- The response, if it is one, goes nowhere. -/
def Nowhere (r : Except JsError Response) : Prop := ∀ response, r = .ok response → response.body.target? = none

/-- The response, if it is one, reports an error. -/
def Reports (r : Except JsError Response) : Prop :=
  ∀ response, r = .ok response → ∃ error targets, response = failureResponse error targets

/-- An error that may not be relayed goes nowhere. -/
theorem reject_unrelayed {error : JsError} (h : ¬ error.relayed) (params : Form) :
    ∃ r, rejectRequest params error = Prog.ofExcept (F := effects) r ∧ Nowhere r := by
  have page : ∀ targets, Nowhere (.ok (failureResponse error targets)) := by
    intro targets response heq
    obtain rfl := Except.ok.inj heq
    cases htarget : (failureResponse error targets).body.target? with
    | none => rfl
    | some target => exact absurd (failureResponse_target htarget).2 h
  have threw : ∀ e, Nowhere (.error e) := fun _ _ heq => by cases heq
  unfold rejectRequest
  split
  · unfold param
    cases single params (js "redirect_uri") with
    | error e => exact ⟨.error e, rfl, threw e⟩
    | ok redirectUri =>
      cases single params (js "state") with
      | error e => exact ⟨.error e, rfl, threw e⟩
      | ok state =>
        cases single params (js "response_mode") with
        | error e => exact ⟨.error e, rfl, threw e⟩
        | ok mode => exact ⟨.ok _, rfl, page _⟩
  · exact ⟨.ok _, rfl, page _⟩

include hvary hrepeats in
theorem reject_cut (error : JsError) :
    Prog.Cut Nowhere Reports (rejectRequest params error) (rejectRequest params' error) := by
  have read : ∀ {f f' : Option Value → M Response} (n : JsString), (∀ v, Prog.Cut Nowhere Reports (f v) (f' v)) →
      Prog.Cut Nowhere Reports (param params n >>= f) (param params' n >>= f') :=
    fun n hnext => read_cut hvary hrepeats (fun _ _ _ heq => by cases heq) (fun _ _ heq => by cases heq) n
      fun _ => hnext
  have ended : ∀ targets, Prog.Cut Nowhere Reports (pure (failureResponse error targets) : M Response)
      (pure (failureResponse error targets)) :=
    fun targets => .same (r := .ok (failureResponse error targets)) fun _ heq =>
      ⟨error, targets, (Except.ok.inj heq).symm⟩
  unfold rejectRequest
  cases error with
  | oauth code description status redirectable =>
    exact read _ fun redirectUri => read _ fun state => read _ fun mode => ended _
  | _ => exact ended _

end

/-- A request that repeats `name` goes nowhere that it would not also go with other values of
`name`. -/
theorem authorize_cut {name : JsString} (hname : name ∈ SINGLE_PARAMS) {request request' : Request}
    (hvaries : Varies name request request') (hrepeats : request.params.repeats name = true) :
    Prog.Cut Nowhere Reports (handleAuthorize rt config request) (handleAuthorize rt config request') := by
  have parsed : ∀ {params params' : Form}, SameBut name params params' → params.repeats name = true →
      ∀ {f f' : Except JsError (Client × AuthRequest) → M Response},
        (∀ e, f (.error e) = rejectRequest params e) → (∀ e, f' (.error e) = rejectRequest params' e) →
          Prog.Cut Nowhere Reports (Prog.settled (parseAuthorizationRequest rt config params) >>= f)
            (Prog.settled (parseAuthorizationRequest rt config params') >>= f') := by
    intro params params' hvary hrepeats f f' hf hf'
    refine (parse_cut hvary hrepeats hname).settled.bind (fun e he => ?_) (fun r hr q' => ?_) (fun e he => ?_)
      fun r hr => ?_
    · obtain ⟨_, heq, -⟩ := he
      cases heq
    · obtain ⟨_, heq, e, rfl, hunrelayed⟩ := hr
      obtain rfl := Except.ok.inj heq
      obtain ⟨r, hreject, hnowhere⟩ := reject_unrelayed hunrelayed params
      rw [hf, hreject]
      exact .short hnowhere q'
    · obtain ⟨_, heq, -⟩ := he
      cases heq
    · obtain ⟨_, heq, e, rfl⟩ := hr
      obtain rfl := Except.ok.inj heq
      rw [hf, hf']
      exact reject_cut hvary hrepeats e
  have hvary := hvaries.params
  unfold handleAuthorize requestParams
  unfold Request.params at hvary hrepeats
  rw [hvaries.method] at hvary ⊢
  by_cases hpost : request.isPost = true
  · obtain ⟨params, params', hform, hform'⟩ := hvaries.readable hpost
    rw [if_pos hpost] at hrepeats
    rw [if_pos hpost, if_pos hpost] at hvary
    rw [hform] at hrepeats hvary
    rw [hform'] at hvary
    rw [if_pos hpost, if_pos hpost]
    unfold readForm
    rw [hform, hform']
    refine .call fun _ => ?_
    show Prog.Cut Nowhere Reports (Prog.settled (parseAuthorizationRequest rt config params) >>= _)
      (Prog.settled (parseAuthorizationRequest rt config params') >>= _)
    exact parsed hvary hrepeats (fun _ => rfl) fun _ => rfl
  · rw [if_neg hpost] at hrepeats
    rw [if_neg hpost, if_neg hpost] at hvary
    rw [if_neg hpost, if_neg hpost]
    show Prog.Cut Nowhere Reports (Prog.settled (parseAuthorizationRequest rt config request.query) >>= _)
      (Prog.settled (parseAuthorizationRequest rt config request'.query) >>= _)
    exact parsed hvary hrepeats (fun _ => rfl) fun _ => rfl

/-- The response that is replied, if there is one, satisfies `P`. -/
def Replied (P : Response → Prop) (r : Except JsError Reply) : Prop :=
  ∀ response, r = .ok (.response response) → P response

/-- The reply to a request that repeats `name`, beside the reply to one with other values of
`name`. -/
theorem call_cut {name : JsString} (hname : name ∈ SINGLE_PARAMS) {request request' : Request}
    (hvaries : Varies name request request') (hrepeats : request.params.repeats name = true) :
    Prog.Cut (Replied fun response => response.body.target? = none)
      (Replied fun response => ∃ error targets, response = failureResponse error targets)
      (runCall rt config (.serve .authorize request)) (runCall rt config (.serve .authorize request')) := by
  show Prog.Cut _ _ (handleAuthorize rt config request >>= fun response => pure (Reply.response response))
    (handleAuthorize rt config request' >>= fun response => pure (Reply.response response))
  have replied : ∀ {P : Response → Prop} {response : Response}, P response →
      Replied P (.ok (.response response)) := by
    intro P response hP response' heq
    cases heq
    exact hP
  have threw : ∀ {P : Response → Prop} (e : JsError), Replied P (.error e) := by
    intro P e response heq
    cases heq
  exact (authorize_cut hname hvaries hrepeats).bind (fun e _ => threw e)
    (fun response hnowhere q' => .short (r := .ok (Reply.response response)) (replied (hnowhere response rfl)) q')
    (fun e _ => threw e)
    fun response hreports => .same (r := .ok (Reply.response response)) (replied (hreports response rfl))

/-- The parameters of a request that repeats one could be read. -/
theorem varies_refl {name : JsString} {request : Request} (hrepeats : request.params.repeats name = true) :
    Varies name request request where
  method := rfl
  readable hpost := by
    unfold Request.params at hrepeats
    rw [if_pos hpost] at hrepeats
    cases hform : request.form with
    | ok params => exact ⟨params, params, rfl, rfl⟩
    | error e =>
      -- an unreadable form has no parameters, so none of them is repeated
      rw [hform] at hrepeats
      cases hrepeats
  params _ _ := rfl

/-- A redirected request would have been answered alike with other values of a parameter
that it repeats. -/
theorem cut_of_repeats (h : Reachable (gateway rt config) env s w) {th : Thread (gateway rt config)}
    (hth : th ∈ w.threads) {request : Request}
    (hreq : th.req = .serve .authorize request) {t : Nat} {response : Response}
    (hstop : th.stop = some (t, .ok (.response response))) {target : RedirectTargets}
    (htarget : response.body.target? = some target) {name : JsString} (hname : name ∈ SINGLE_PARAMS)
    (hrepeats : request.params.repeats name = true) {request' : Request} (hvaries : Varies name request request') :
    (∃ error targets, response = failureResponse error targets) ∧ ∃ q,
      Prog.Steps (runCall rt config (.serve .authorize request')) th.trace q ∧
        q.atTime t = .pure (.response response) := by
  have hsound := h.threads_sound th hth
  have hsteps : Prog.Steps (runCall rt config th.req) th.trace th.rest := hsound.steps
  obtain ⟨-, -, -, hend⟩ := hsound.ended t _ hstop
  rw [hreq] at hsteps
  obtain ⟨hreports, q, hq, hanswer⟩ := (call_cut hname hvaries hrepeats).steps hsteps hend fun hnowhere => by
    rw [hnowhere response rfl] at htarget
    cases htarget
  exact ⟨hreports response rfl, q, hq, hanswer⟩

namespace Sample

/-- An authorization request without a response type that gives its nonce twice. -/
def twice : Visit (gateway runtime Sample.config) :=
  visit 1000 .authorize false
    [("client_id", .text "notes"), ("redirect_uri", .text "https://app.test/cb"), ("nonce", .text "a"),
      ("nonce", .text "b")] []

/-- One request has been redirected, and it has its nonce twice. -/
def redirects : List (Thread (gateway runtime Sample.config)) → Bool
  | [⟨.serve .authorize request, _, _, _, some (_, .ok (.response response))⟩] =>
    response.body.target?.isSome && request.params.repeats (js "nonce")
  | _ => false

end Sample

end Sag
