import Sag.Properties.Otp

/-!
# What an authentication has to meet

Every code that is issued carries an acr that meets what its transaction demands
(`acr_never_downgraded`), on every route to a code. On most of them the acr is
compared at the end. Where it is not, the screens stand for it: the second factor
is only asked for where the pair would do, and the code screen is only shown where
an email code would do or where none can have been sent.

What a transaction demands is the request's list with the client's floor appended,
and any one value of it is enough. So the floor holds only as far as the request's
own values imply it (`floor_kept`), and a request that names a weaker value gets
below it (`floor_undercut`).
-/

namespace Sag

open Resumable

variable {rt : Runtime} {config : Config} {σ : Type} {env : Environment effects σ} {s : σ}
variable {w : World (gateway rt config) σ}

/-! ## Submitted codes -/

/-- The codes a call submits, each with a transaction that it presents. -/
def Call.submissions (rt : Runtime) : Call → List (Transaction × JsString)
  | .serve .otpSubmit request =>
    request.values.filterMap fun v =>
      match v.opens with
      | some (.tx tx) => some (tx, normaliseCode rt (request.field (js "code")))
      | _ => none
  | _ => []

/-- A code that is submitted and was drawn for the transaction and the address
presented with it was handed to the email sender for that address. -/
def HandedOver (w : World (gateway rt config) σ) : Prop :=
  ∀ th ∈ w.threads, ∀ p ∈ th.req.submissions rt,
    (∃ exp, WasDrawn w.log p.1.id p.1.email p.2 exp) →
      ∃ message ∈ sent w.log, message.«to» = p.1.email ∧ message.code = p.2

theorem mem_submissions {request : Request} {tx : Transaction} (h : request.presents (.tx tx)) :
    (tx, normaliseCode rt (request.field (js "code"))) ∈ (Call.serve .otpSubmit request).submissions rt := by
  obtain ⟨v, hv, hopens⟩ := h
  exact List.mem_filterMap.mpr ⟨v, hv, by rw [hopens]⟩

/-! ## The demands of a transaction -/

/-- An accepted code meets the demands of its transaction: where it would not, none
was ever sent. -/
theorem satisfies_of_accepted (hfree : CollisionFree rt) (h : Reachable (gateway rt config) env s w)
    (hsent : HandedOver w) {th : Thread (gateway rt config)} (hth : th ∈ w.threads) {request : Request}
    (hreq : th.req = .serve .otpSubmit request) {tx : Transaction} (hpres : request.presents (.tx tx))
    (hstage : tx.stage = .otp) {C : Rely effects} {otp : OtpState} {digest : JsString}
    (haccepted : Accepted C rt config tx otp digest (request.field (js "code"))) :
    satisfies Acr.otp tx.acrValues = true := by
  have hserved : th.req.served = some (.otpSubmit, request) := by rw [hreq]; rfl
  cases hfed : requiresFederation tx.acrValues with
  | false => exact satisfies_otp_of_not_requiresFederation hfed
  | true =>
    have hbound := (bound_lineage w.log).sound h (fun _ _ => trivial) th hth _ request hserved tx (Or.inl hpres)
    obtain ⟨-, hdrawn⟩ := hbound.generated hfree haccepted
    have hsubmitted : (tx, normaliseCode rt _) ∈ (Call.serve .otpSubmit request).submissions rt :=
      mem_submissions hpres
    rw [← hreq] at hsubmitted
    obtain ⟨message, hmessage, hto, -⟩ := hsent th hth _ hsubmitted ⟨_, hdrawn⟩
    have hallowed := allowed_of_sent h hmessage
    have hrefused := (staged_sound h th hth _ request hserved tx hpres).code hstage hfed
    rw [hto, hrefused] at hallowed
    cases hallowed

theorem NewlySigned.acr {C : Rely effects} {request : Request} {args : SessionArgs} {session : Session}
    (h : NewlySigned config C request args session) : session.acr = args.acr := by
  cases h <;> rfl

theorem Minted.acr {C : Rely effects} {tx : Transaction} {session : Session} {payload : CodePayload}
    (h : Minted config C tx session payload) : payload.acr = session.acr := by
  obtain ⟨_, _, _, _, _, -, -, rfl⟩ := h
  rfl

/-- Whatever completes a transaction meets its demands. -/
theorem satisfies_of_completion (hfree : CollisionFree rt) (h : Reachable (gateway rt config) env s w)
    (hsent : HandedOver w) {th : Thread (gateway rt config)} (hth : th ∈ w.threads) {endpoint : Endpoint}
    {request : Request} (hserved : th.req.served = some (endpoint, request)) {C : Rely effects}
    {tx : Transaction} {session : Session}
    (hc : Completion rt config C request endpoint tx session) : satisfies session.acr tx.acrValues = true := by
  cases hc with
  | silent hstarted hanswers hunforced => exact hanswers.meets
  | continued hpres hanswers => exact hanswers.meets
  | signedIn hsign hsigned =>
    rw [hsigned.acr]
    cases hsign with
    | otp hpres hstage haccepted hemail hacr =>
      rw [hacr]
      exact satisfies_of_accepted hfree h hsent hth (eq_serve_of_served hserved (by decide)) hpres hstage
        haccepted
    | password hpres hallowed hfound hsingle hnames hunproved hacr hmeets =>
      rw [hacr]
      exact hmeets
    | factor hpres hstage hallowed hfound hconsumed hnames hunproved hacr =>
      rw [hacr]
      exact (staged_sound h th hth _ request hserved tx hpres).factor hstage
    | upstream hpres hvouched haccount hacr hmeets => exact hmeets

theorem satisfies_of_issued (hfree : CollisionFree rt) (h : Reachable (gateway rt config) env s w)
    (hsent : HandedOver w) {tx : Transaction} {payload : CodePayload} (hmem : (tx, payload) ∈ issued w.log) :
    satisfies payload.acr tx.acrValues = true := by
  obtain ⟨e, hlog, hop⟩ := mem_issued.mp hmem
  obtain ⟨th, hth, he⟩ := h.exists_thread hlog
  obtain ⟨endpoint, request, session, hserved, hcompletion, hminted⟩ := completion_of_issued h hth he hop
  rw [hminted.acr]
  exact satisfies_of_completion hfree h hsent hth hserved hcompletion

/-- The acr of a transaction is never downgraded. -/
theorem acr_never_downgraded (hfree : CollisionFree rt) (h : Reachable (gateway rt config) env s w)
    (hsent : HandedOver w) : ∀ p ∈ issued w.log, satisfies p.2.acr p.1.acrValues = true :=
  fun _ hmem => satisfies_of_issued hfree h hsent hmem

/-- Where every submitted code was sent, no unsent one was submitted. -/
theorem HandedOver.of_sent {w : World (gateway rt config) σ}
    (h : ∀ th ∈ w.threads, ∀ p ∈ th.req.submissions rt,
      ∃ message ∈ sent w.log, message.«to» = p.1.email ∧ message.code = p.2) : HandedOver w :=
  fun th hth p hp _ => h th hth p hp

theorem ann_not_downgraded : (issued Sample.annSignedIn.log).length = 1 ∧
    ∀ p ∈ issued Sample.annSignedIn.log, satisfies p.2.acr p.1.acrValues = true :=
  ⟨by decide +kernel, acr_never_downgraded Sample.collisionFree Sample.annSignedIn_reachable
    (.of_sent (by decide +kernel))⟩

/-! ## The floor of a client -/

theorem acrFromUpstream_mem (T : CaseTables) (claims : Members) : (acrFromUpstream T claims).acr ∈ sessionAcrs := by
  unfold acrFromUpstream
  dsimp only
  split <;> decide

/-- Every session carries an acr that the program knows. -/
theorem session_acr_mem (h : Reachable (gateway rt config) env s w) :
    ∀ th ∈ w.threads, ∀ endpoint request, th.req.served = some (endpoint, request) →
      ∀ start stop tx session, Completion rt config (during start stop (seen w.log)) request endpoint tx session →
        session.acr ∈ sessionAcrs := by
  have completed : ∀ {C : Rely effects} {request : Request} {endpoint : Endpoint} {tx : Transaction}
      {session : Session}, (∀ s, request.presents (.session s) → s.acr ∈ sessionAcrs) →
      Completion rt config C request endpoint tx session → session.acr ∈ sessionAcrs := by
    intro C request endpoint tx session hpres hc
    have answered : ∀ {tx}, Answers rt config C request tx session → session.acr ∈ sessionAcrs := by
      intro tx hanswers
      obtain ⟨stored, hstored, heq⟩ := hanswers.read
      rw [heq, migrate_acr]
      exact hpres stored hstored
    cases hc with
    | silent _ hanswers _ => exact answered hanswers
    | continued _ hanswers => exact answered hanswers
    | signedIn hsign hsigned =>
      rw [hsigned.acr]
      cases hsign with
      | otp _ _ _ _ hacr _ => rw [hacr]; decide
      | password _ _ _ _ _ _ hacr _ => rw [hacr]; decide
      | factor _ _ _ _ _ _ _ hacr => rw [hacr]; decide
      | upstream _ _ _ hacr _ => rw [hacr]; exact acrFromUpstream_mem _ _
  let P : Nat → Sealed → Prop := fun _ tok => ∀ session, tok = .session session → session.acr ∈ sessionAcrs
  have hP : Good P := ⟨fun _ _ _ _ h => h⟩
  have hgood := hP.sound h (V := fun _ => True) (fun _ _ => trivial) ?_
  · intro th hth endpoint request hserved start stop tx session hc
    exact completed (fun s hs => hgood.2 th hth _ (handsIn_of_served hserved hs) s rfl) hc
  rintro call endpoint request start stop - - - hpres tok hderived session rfl
  cases hderived with
  | session hc htick =>
    have hacr := completed (fun s hs => hpres _ hs s rfl) hc
    exact hacr
  | memory hmem => cases hmem

/-- What a request is judged by before the floor is added. -/
def baseAcrValues (config : Config) (request : Request) : List JsString :=
  let requested := words ((request.params.text (js "acr_values")).getD [])
  if requested = [] then config.defaultRequiredAcr else requested

/-- Whatever meets one of the request's own values meets the floor. -/
def Covered (config : Config) (request : Request) (floor : List JsString) : Prop :=
  ∀ want ∈ baseAcrValues config request, ∀ held ∈ sessionAcrs,
    satisfiesOne held want = true → satisfies held floor = true

/-- The environment resolves clients from one registry. -/
def FromRegistry (env : Environment effects σ) (registry : JsString → Option Client) : Prop :=
  ∀ t s id client s', env t s (.resolveClient id) (.ok (some client)) s' → registry id = some client

/-- Every code meets the floor of its client. -/
def FloorKept (registry : JsString → Option Client) (w : World (gateway rt config) σ) : Prop :=
  ∀ p ∈ issued w.log, ∀ client, registry p.1.clientId = some client →
    satisfies p.2.acr client.acrValues = true

/-- An authorization request whose own values do not undercut the floor of its
client. -/
def KeepsFloor (config : Config) (registry : JsString → Option Client) (call : Call) : Prop :=
  ∀ p ∈ call.served, p.1 = .authorize →
    ∀ client ∈ (p.2.params.text (js "client_id")).bind registry, Covered config p.2 client.acrValues

instance (config : Config) (request : Request) (floor : List JsString) : Decidable (Covered config request floor) :=
  inferInstanceAs (Decidable (∀ _ ∈ _, _))

instance (config : Config) (registry : JsString → Option Client) : DecidablePred (KeepsFloor config registry) :=
  fun _ => inferInstanceAs (Decidable (∀ _ ∈ _, _ → ∀ _ ∈ _, _))

/-- The merged demand is met by nothing that the floor refuses. -/
theorem satisfies_floor {request : Request} {floor : List JsString} (hcovered : Covered config request floor)
    {held : JsString} (hheld : held ∈ sessionAcrs)
    (h : satisfies held (withFloor (baseAcrValues config request) floor) = true) :
    satisfies held floor = true := by
  rcases satisfies_iff.mp h with hnil | ⟨want, hmem, hwant⟩
  · cases floor with
    | nil => rfl
    | cons a floor => exact absurd hnil (withFloor_ne_nil (List.cons_ne_nil a floor))
  · rcases mem_withFloor.mp hmem with hbase | hfloor
    · exact hcovered want hbase held hheld hwant
    · exact satisfies_iff.mpr (Or.inr ⟨want, hfloor, hwant⟩)

/-- A transaction demands at least the floor of its client. -/
def DemandsFloor (registry : JsString → Option Client) (tx : Transaction) : Prop :=
  ∀ client, registry tx.clientId = some client → ∀ held ∈ sessionAcrs,
    satisfies held tx.acrValues = true → satisfies held client.acrValues = true

theorem floor_lineage {registry : JsString → Option Client} (hreg : FromRegistry env registry)
    (h : Reachable (gateway rt config) env s w) :
    Lineage rt config (KeepsFloor config registry) w.log fun _ tx => DemandsFloor registry tx where
  mono _ _ _ _ h := h
  started request start stop tx hkeeps _ hstarted stage := by
    obtain ⟨client, req, now, id, hparsed, -, rfl⟩ := hstarted.exists_parsed
    obtain ⟨t, -, hlog⟩ := hparsed.accepts.resolved
    obtain ⟨s₁, s₂, henv⟩ := h.answered hlog
    have hclient := hreg _ _ _ _ _ henv
    intro client' hclient' held hheld hmeets
    obtain rfl : client = client' := Option.some.inj (hclient.symm.trans hclient')
    have hdemand : req.acrValues = withFloor (baseAcrValues config request) client.acrValues := hparsed.acrValues
    have hcovered : Covered config request client.acrValues :=
      hkeeps _ rfl rfl client (by rw [hparsed.accepts.named]; exact hclient)
    refine satisfies_floor hcovered hheld ?_
    rw [← hdemand]
    exact hmeets
  edited _ _ _ _ _ _ _ _ _ _ hdemands hedit := by
    intro client hclient held hheld hmeets
    rw [hedit.same.clientId] at hclient
    rw [hedit.same.acrValues] at hmeets
    exact hdemands client hclient held hheld hmeets

/-- As long as no request undercuts it, the floor is kept. -/
theorem floor_kept (hfree : CollisionFree rt) {registry : JsString → Option Client}
    (hreg : FromRegistry env registry) (h : Reachable (gateway rt config) env s w) (hsent : HandedOver w)
    (hkeeps : ∀ th ∈ w.threads, KeepsFloor config registry th.req) : FloorKept registry w := by
  rintro ⟨tx, payload⟩ hmem client hclient
  obtain ⟨e, hlog, hop⟩ := mem_issued.mp hmem
  obtain ⟨th, hth, he⟩ := h.exists_thread hlog
  obtain ⟨endpoint, request, session, hserved, hcompletion, hminted⟩ := completion_of_issued h hth he hop
  have hstart := ((h.threads_sound th hth).timed e he).1
  have hdemands := (floor_lineage hreg h).completed h hkeeps hth hserved hstart hcompletion
  have hmeets := satisfies_of_issued hfree h hsent hmem
  refine hdemands client hclient payload.acr ?_ hmeets
  rw [hminted.acr]
  exact session_acr_mem h th hth endpoint request hserved _ _ tx session hcompletion

theorem Sample.fromRegistry : FromRegistry Sample.oracle.graph Sample.registry := by
  intro t s id client s' h
  have hanswer : (Except.ok (Sample.registry id) : Except JsError (Option Client)) = .ok (some client) :=
    congrArg Prod.fst h
  exact Except.ok.inj hanswer

theorem notes_floor_kept : (issued Sample.annSignedIn.log).length = 1 ∧
    FloorKept Sample.registry Sample.annSignedIn :=
  ⟨by decide +kernel, floor_kept Sample.collisionFree Sample.fromRegistry Sample.annSignedIn_reachable
    (.of_sent (by decide +kernel)) (by decide +kernel)⟩

/-- A request that names a weaker value than the floor gets a code below it. -/
theorem floor_undercut : ∃ w : Sample.Server,
    Reachable (gateway Sample.runtime Sample.config) Sample.oracle.graph .empty w ∧
      FromRegistry Sample.oracle.graph Sample.registry ∧ HandedOver w ∧ ¬ FloorKept Sample.registry w := by
  refine ⟨Sample.after (Sample.signIn "app" "urn:sag:acr:email-otp"),
    Sample.after_reachable Sample.oracle.within_graph _, Sample.fromRegistry, .of_sent (by decide +kernel), ?_⟩
  intro hkept
  have hbelow : ∃ p ∈ issued (Sample.after (Sample.signIn "app" "urn:sag:acr:email-otp")).log,
      ∃ client ∈ Sample.registry p.1.clientId, satisfies p.2.acr client.acrValues = false := by
    decide +kernel
  obtain ⟨p, hp, client, hclient, hrefused⟩ := hbelow
  rw [hkept p hp client hclient] at hrefused
  cases hrefused

end Sag
