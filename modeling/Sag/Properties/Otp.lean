import Sag.Browser
import Sag.Properties.Transactions

/-!
# What an email code proves

A code that is accepted was drawn for the very transaction and the very address
that are presented with it, and the session it leads to is that address's. A
digest is bound to its transaction and address when it is made (`Bound`), and no
edit carries it over to another: whatever copy of a transaction is handed in, with
whatever address it has by then, its digest opens only to a code drawn for both.
-/

namespace Sag

open Resumable

variable {rt : Runtime} {config : Config} {σ : Type} {env : Environment effects σ} {s : σ}
variable {w : World (gateway rt config) σ}

/-- The code of a request has proved the mailbox `email`: it was drawn for the
transaction `tx` that the request presents and for the address that `tx` names,
and was neither expired nor out of attempts when it was checked. -/
structure ProvesMailbox (rt : Runtime) (config : Config) (es : List (Event effects)) (start stop : Nat)
    (request : Request) (tx : Transaction) (email : JsString) : Prop where
  presented : request.presents (.tx tx)
  named : tx.email = some email
  exists_code : ∃ otp, tx.otp = some otp ∧ otp.attempts < config.otp.maxAttempts ∧
    (∃ now, start ≤ now ∧ now ≤ stop ∧ now ≤ otp.exp) ∧
    WasDrawn es tx.id (some email) (normaliseCode rt (request.field (js "code"))) otp.exp

/-- Whoever signs in at the code endpoint has proved the mailbox. -/
theorem SignIn.proves (hfree : CollisionFree rt) {es : List (Event effects)} {start stop : Nat}
    {R : Nat → (o : Op) → o.Ans → Prop} {request : Request} {tx : Transaction} {args : SessionArgs}
    (hb : ∀ tx, request.presents (.tx tx) → Bound rt config es tx)
    (h : SignIn rt config (during start stop R) request .otpSubmit tx args) :
    ProvesMailbox rt config es start stop request tx args.email := by
  cases h with
  | otp hpresented hstage haccepted hemail hacr =>
    obtain ⟨hnamed, hdrawn⟩ := (hb tx hpresented).generated hfree haccepted
    obtain ⟨email, heq⟩ := Option.ne_none_iff_exists'.mp hnamed
    have hargs : args.email = email := by rw [hemail, heq, Option.getD_some]
    obtain ⟨now, htick, hexp⟩ := haccepted.unexpired
    exact ⟨hpresented, by rw [heq, hargs], _, haccepted.otp_eq, haccepted.attempts,
      ⟨now, htick.1, htick.2, hexp⟩, by rw [hargs, ← heq]; exact hdrawn⟩

theorem NewlySigned.email {C : Rely effects} {request : Request} {args : SessionArgs} {session : Session}
    (h : NewlySigned config C request args session) : session.email = args.email := by
  cases h <;> rfl

theorem Completion.proves (hfree : CollisionFree rt) {es : List (Event effects)} {start stop : Nat}
    {R : Nat → (o : Op) → o.Ans → Prop} {request : Request} {tx : Transaction} {session : Session}
    (hb : ∀ tx, request.presents (.tx tx) → Bound rt config es tx)
    (h : Completion rt config (during start stop R) request .otpSubmit tx session) :
    ProvesMailbox rt config es start stop request tx session.email := by
  cases h with
  | signedIn hsign hsigned => exact hsigned.email ▸ hsign.proves hfree hb

/-- A successful email code proves the mailbox of the session it leads to,
whichever of its effects one looks at: the session that is created, the code that
is issued, the session that is handed out. -/
theorem otp_proves_mailbox (hfree : CollisionFree rt) (h : Reachable (gateway rt config) env s w)
    {th : Thread (gateway rt config)} (hth : th ∈ w.threads) {request : Request}
    (hreq : th.req = .serve .otpSubmit request) :
    (∀ e ∈ th.trace, ∀ session, e.op = .note (.sessionCreated session) →
      ∃ tx, ProvesMailbox rt config w.log th.start e.time request tx session.email) ∧
    (∀ e ∈ th.trace, ∀ tx payload, e.op = .note (.codeIssued tx payload) →
      ∃ session, Minted config (during th.start e.time (seen w.log)) tx session payload ∧
        ProvesMailbox rt config w.log th.start e.time request tx session.email) ∧
    ∀ t response, th.stop = some (t, .ok (.response response)) →
      ∀ session, .session session ∈ response.tokens →
        ∃ tx, ProvesMailbox rt config w.log th.start t request tx session.email := by
  have hb : ∀ tx, request.presents (.tx tx) → Bound rt config w.log tx := fun tx hpres =>
    (bound_lineage w.log).sound h (fun _ _ => trivial) th hth .otpSubmit request (by rw [hreq]; rfl) tx
      (Or.inl hpres)
  have hserves : ∀ {endpoint request'}, th.req.served = some (endpoint, request') →
      .otpSubmit = endpoint ∧ request = request' := by
    intro endpoint request' hserved
    rw [hreq] at hserved
    simpa [Call.served] using hserved
  refine ⟨fun e he session hop => ?_, fun e he tx payload hop => ?_, fun t response hstop session hmem => ?_⟩
  · obtain ⟨_, _, tx, _, _, _, hserved, hsign, -, -, rfl⟩ := signIn_of_created h hth he hop
    obtain ⟨rfl, rfl⟩ := hserves hserved
    exact ⟨tx, hsign.proves hfree hb⟩
  · obtain ⟨_, _, session, hserved, hcompletion, hminted⟩ := completion_of_issued h hth he hop
    obtain ⟨rfl, rfl⟩ := hserves hserved
    exact ⟨session, hminted, hcompletion.proves hfree hb⟩
  · have hmem : Sealed.session session ∈ response.tokens := hmem
    obtain ⟨_, _, hserved, hderived⟩ := derived_of_released h hth hstop hmem
    obtain ⟨rfl, rfl⟩ := hserves hserved
    cases hderived with
    | @session tx _ _ hcompletion _ =>
      have hproves := hcompletion.proves hfree hb
      exact ⟨tx, hproves⟩
    | memory hmem => cases hmem

/-- Ann, who signs in with an email code, proves her address. -/
theorem ann_proves_mailbox :
    ∃ th ∈ Sample.annSignedIn.threads, ∃ stop request tx,
      ProvesMailbox Sample.runtime Sample.config Sample.annSignedIn.log th.start stop request tx
        (js "ann@example.com") := by
  obtain ⟨th, hth, hserved, hcreated⟩ : ∃ th ∈ Sample.annSignedIn.threads,
      th.req.served.map (·.1) = some .otpSubmit ∧ js "ann@example.com" ∈ (created th.trace).map (·.email) := by
    decide +kernel
  obtain ⟨⟨_, request⟩, hserved, rfl⟩ := Option.map_eq_some_iff.mp hserved
  obtain ⟨session, hsession, hemail⟩ := List.mem_map.mp hcreated
  obtain ⟨e, he, hop⟩ := mem_created.mp hsession
  have hproves := otp_proves_mailbox Sample.collisionFree Sample.annSignedIn_reachable hth
    (eq_serve_of_served hserved (by decide))
  obtain ⟨tx, h⟩ := hproves.1 e he session hop
  exact ⟨th, hth, e.time, request, tx, hemail ▸ h⟩

end Sag
