import Sag.Gateway

/-!
# The transactions of a run

Every copy of a transaction that exists descends from one `/authorize` request by
edits (`Lineage.sound`), whatever the order of the steps and however old the
copies handed in. Two invariants are carried along that descent:

* `Bound`: the digest of a transaction was made of a code that was drawn for it,
  for a named address and until the expiry it still carries. Where the digest is
  collision free, the code that opens it is that code (`Bound.generated`);
* `Staged`: the code screen and the second-factor screen are reached only where
  what they ask for would do, or where no code can be sent.
-/

namespace Sag

open Resumable

variable {rt : Runtime} {config : Config} {σ : Type} {env : Environment effects σ} {s : σ}
variable {w : World (gateway rt config) σ}

/-! ## Descent -/

/-- A property of transactions that new ones have, that edits keep and that lasts.
`V` is the kind of call that is made, and `es` what the replies come from. -/
structure Lineage (rt : Runtime) (config : Config) (V : Call → Prop) (es : List (Event effects))
    (T : Nat → Transaction → Prop) : Prop where
  mono : ∀ t t' tx, t ≤ t' → T t tx → T t' tx
  started : ∀ request start stop tx, V (.serve .authorize request) → start ≤ stop →
    Started rt config (during start stop (seen es)) request tx → ∀ stage, T stop { tx with stage }
  edited : ∀ call endpoint request start stop tx₀ tx, V call →
    call.served = some (endpoint, request) → start ≤ stop → T start tx₀ →
    Edit rt config (during start stop (seen es)) endpoint request tx₀ tx → T stop tx

/-- The property on the two tokens that hold a transaction. -/
def onTransactions (T : Nat → Transaction → Prop) (t : Nat) : Sealed → Prop
  | .tx tx | .upstreamState tx => T t tx
  | _ => True

theorem onTransactions_good {T : Nat → Transaction → Prop}
    (mono : ∀ t t' tx, t ≤ t' → T t tx → T t' tx) : Good (onTransactions T) where
  mono t t' tok hle h := by
    cases tok with
    | tx tx => exact mono t t' tx hle h
    | upstreamState tx => exact mono t t' tx hle h
    | _ => trivial

/-- Every transaction of a run has the property, and a thread that hands it in finds it
at its start. -/
theorem Lineage.holds {V : Call → Prop} {T : Nat → Transaction → Prop}
    (hT : Lineage rt config V w.log T) (h : Reachable (gateway rt config) env s w)
    (hV : ∀ th ∈ w.threads, V th.req) :
    (∀ tok, w.Known tok → onTransactions T w.clock tok) ∧ ∀ th ∈ w.threads, th.Honest (onTransactions T) := by
  refine (onTransactions_good hT.mono).sound h hV ?_
  intro call endpoint request start stop hcall hserved hle hpres tok hderived
  cases hderived with
  | started hstart hstarted hcode hfactor =>
    subst hstart
    rw [eq_serve_of_served hserved (by decide)] at hcall
    exact hT.started request start stop _ hcall hle hstarted _
  | edited hpresented hedit hstage hcounted =>
    exact hT.edited _ _ _ _ _ _ _ hcall hserved hle (hpres _ hpresented) hedit
  | returned hcallback hpresented hedit hcode hfactor =>
    exact hT.edited _ _ _ _ _ _ _ hcall hserved hle (hpres _ hpresented) hedit
  | leg hroute hpresented hedit =>
    exact hT.edited _ _ _ _ _ _ _ hcall hserved hle (hpres _ hpresented) hedit
  | memory hmem =>
    cases tok with
    | tx tx => cases hmem
    | upstreamState tx => cases hmem
    | _ => trivial
  | _ => trivial

/-- Every transaction that a thread hands in has the property at its start. -/
theorem Lineage.sound {V : Call → Prop} {T : Nat → Transaction → Prop}
    (hT : Lineage rt config V w.log T) (h : Reachable (gateway rt config) env s w)
    (hV : ∀ th ∈ w.threads, V th.req) :
    ∀ th ∈ w.threads, ∀ endpoint request, th.req.served = some (endpoint, request) → ∀ tx,
      request.presents (.tx tx) ∨ request.presents (.upstreamState tx) → T th.start tx := by
  intro th hth endpoint request hserved tx hpres
  have honest := (hT.holds h hV).2 th hth
  rcases hpres with hpres | hpres
  · exact honest _ (handsIn_of_served hserved hpres)
  · exact honest _ (handsIn_of_served hserved hpres)

/-- So does every transaction that a thread completes. -/
theorem Lineage.completed {V : Call → Prop} {T : Nat → Transaction → Prop}
    (hT : Lineage rt config V w.log T) (h : Reachable (gateway rt config) env s w)
    (hV : ∀ th ∈ w.threads, V th.req) {th : Thread (gateway rt config)} (hth : th ∈ w.threads)
    {endpoint : Endpoint} {request : Request} (hserved : th.req.served = some (endpoint, request))
    {stop : Nat} (hstop : th.start ≤ stop) {tx : Transaction} {session : Session}
    (hc : Completion rt config (during th.start stop (seen w.log)) request endpoint tx session) :
    T stop tx := by
  have handed : ∀ tx, request.presents (.tx tx) ∨ request.presents (.upstreamState tx) → T stop tx :=
    fun tx hpres => hT.mono _ _ _ hstop (hT.sound h hV th hth endpoint request hserved tx hpres)
  cases hc with
  | silent hstarted hanswers hunforced =>
    have hcall := hV th hth
    rw [eq_serve_of_served hserved (by decide)] at hcall
    exact hT.started request th.start stop tx hcall hstop hstarted tx.stage
  | continued hpres hanswers => exact handed tx (Or.inl hpres)
  | signedIn hsign hsigned =>
    cases hsign with
    | otp hpres => exact handed tx (Or.inl hpres)
    | password hpres => exact handed tx (Or.inl hpres)
    | factor hpres => exact handed tx (Or.inl hpres)
    | @upstream tx₀ _ _ hpres hacr hmeets =>
      -- dropping the leg is an edit
      have hedit : Edit rt config (during th.start stop (seen w.log)) .callback request tx₀
          { tx₀ with upstream := none } := ⟨⟨rfl⟩, Or.inl rfl, .kept rfl⟩
      exact hT.edited th.req .callback request th.start stop _ _ (hV th hth) hserved hstop
        (hT.sound h hV th hth _ request hserved tx₀ (Or.inr hpres)) hedit

/-! ## The binding of an email code -/

/-- An address that is absent, or has the form of one. -/
def WellFormed (email : Option JsString) : Prop := ∀ e, email = some e → looksLikeEmail e = true

theorem WellFormed.no_space {email : Option JsString} (h : WellFormed email) :
    ∀ u ∈ email.getD [], isSpace u = false := by
  cases email with
  | none => simp
  | some e => exact looksLikeEmail_no_space (h e rfl)

/-- Well-formed addresses are told apart by their text. -/
theorem WellFormed.eq_of_getD {email email' : Option JsString} (h : WellFormed email)
    (h' : WellFormed email') (heq : email.getD [] = email'.getD []) : email = email' := by
  have hne : ¬ looksLikeEmail [] = true := by decide
  cases email with
  | none =>
    cases email' with
    | none => rfl
    | some e' =>
      have : [] = e' := heq
      exact absurd (h' e' rfl) (this ▸ hne)
  | some e =>
    cases email' with
    | none =>
      have : e = [] := heq
      exact absurd (h e rfl) (this ▸ hne)
    | some e' => exact congrArg some heq

/-- The code `code` was drawn for the transaction `txId` and the address `email`. -/
def WasDrawn (es : List (Event effects)) (txId : JsString) (email : Option JsString) (code : JsString)
    (exp : Nat) : Prop :=
  ∃ e ∈ es, e.op = .note (.otpGenerated txId email code exp)

/-- What a transaction knows of its email code. -/
structure Bound (rt : Runtime) (config : Config) (es : List (Event effects)) (tx : Transaction) : Prop where
  id : ∀ u ∈ tx.id, isSpace u = false
  email : WellFormed tx.email
  otp : ∀ otp digest, tx.otp = some otp → otp.digest = some digest → ∃ email code,
    digest = otpDigest rt config tx.id email code ∧ email ≠ none ∧ WellFormed email ∧
      normaliseCode rt (some code) = code ∧ WasDrawn es tx.id email code otp.exp

theorem bound_started {C : Rely effects} {request : Request} {tx : Transaction} {es : List (Event effects)}
    (h : Started rt config C request tx) (stage : Stage) : Bound rt config es { tx with stage } := by
  obtain ⟨client, req, now, id, -, -, rfl⟩ := h.exists_parsed
  exact ⟨b64u_no_space id, by rintro e ⟨⟩, by rintro otp digest ⟨⟩⟩

theorem Bound.edited {es : List (Event effects)} {start stop : Nat} {endpoint : Endpoint}
    {request : Request} {tx₀ tx : Transaction} (hb : Bound rt config es tx₀)
    (h : Edit rt config (during start stop (seen es)) endpoint request tx₀ tx) :
    Bound rt config es tx := by
  have hemail : WellFormed tx.email := by
    rcases h.email with heq | hnone | ⟨e, heq, hlooks, -⟩
    · exact heq ▸ hb.email
    · rw [hnone]
      rintro e ⟨⟩
    · rw [heq]
      rintro _ ⟨⟩
      exact hlooks
  refine ⟨h.same.id ▸ hb.id, hemail, fun otp digest hotp hdigest => ?_⟩
  rw [h.same.id]
  cases h.otp with
  | kept hkept => exact hb.otp otp digest (hkept ▸ hotp) hdigest
  | dropped hnone =>
    rw [hnone] at hotp
    cases hotp
  | attempted hmap =>
    rw [hmap] at hotp
    obtain ⟨otp₀, hotp₀, rfl⟩ := Option.map_eq_some_iff.mp hotp
    exact hb.otp otp₀ digest hotp₀ hdigest
  | blank hsome hblank =>
    obtain rfl := Option.some.inj (hsome.symm.trans hotp)
    rw [hblank] at hdigest
    cases hdigest
  | drawn hsome hnamed hdrawn hcanonical hgenerated =>
    obtain rfl := Option.some.inj (hsome.symm.trans hotp)
    obtain ⟨t, -, hlog⟩ := hgenerated
    refine ⟨tx.email, _, ?_, hnamed, hemail, hcanonical, _, hlog, ?_⟩
    · rw [← h.same.id]
      exact Option.some.inj (hdigest.symm.trans hdrawn)
    · rw [h.same.id]

theorem bound_lineage (es : List (Event effects)) :
    Lineage rt config (fun _ => True) es fun _ tx => Bound rt config es tx where
  mono _ _ _ _ h := h
  started _ _ _ _ _ _ h stage := bound_started h stage
  edited _ _ _ _ _ _ _ _ _ _ hb h := hb.edited h

/-- The code that opens a digest is the one it was made of. -/
theorem Bound.generated (hfree : CollisionFree rt) {es : List (Event effects)} {C : Rely effects}
    {tx : Transaction} {otp : OtpState} {digest : JsString} {submitted : Option JsString}
    (hb : Bound rt config es tx) (h : Accepted C rt config tx otp digest submitted) :
    tx.email ≠ none ∧ WasDrawn es tx.id tx.email (normaliseCode rt submitted) otp.exp := by
  obtain ⟨email, code, hdigest, hnamed, hformed, hcanonical, hdrawn⟩ :=
    hb.otp otp digest h.otp_eq h.digest_eq
  have hsame : otpDigest rt config tx.id email code =
      otpDigest rt config tx.id tx.email (normaliseCode rt submitted) := by
    rw [← hdigest, h.matches_, normaliseCode_idem]
  obtain ⟨-, hemail, hcode⟩ := otpDigest_inj rt config hfree hb.id hb.id hformed.no_space hb.email.no_space hsame
  have heq := hformed.eq_of_getD hb.email hemail
  exact ⟨heq ▸ hnamed, by rw [← heq, ← hcode]; exact hdrawn⟩

/-! ## The screens -/

/-- The code screen is out of reach where a code could be sent and would not do,
the second-factor screen where the two factors would not do. -/
structure Staged (rt : Runtime) (config : Config) (tx : Transaction) : Prop where
  code : tx.stage = .otp → requiresFederation tx.acrValues = true → otpAllowed rt config tx.email = false
  factor : tx.stage = .localMfa → satisfies Acr.localMfa tx.acrValues = true

theorem Staged.moved {tx₀ tx : Transaction} (h : Staged rt config tx₀) (hsame : SameRequest tx₀ tx)
    (hmove : StageMove rt config tx₀ tx) : Staged rt config tx where
  code hstage hfed := by
    rcases hmove.code hstage with ⟨hstage₀, hemail⟩ | hfederated
    · rw [hemail]
      exact h.code hstage₀ (hsame.acrValues ▸ hfed)
    · exact hfederated hfed
  factor hstage := by
    rcases hmove.factor hstage with hstage₀ | hmeets
    · rw [hsame.acrValues]
      exact h.factor hstage₀
    · exact hmeets

theorem Staged.plain {tx : Transaction} (hcode : tx.stage ≠ .otp) (hfactor : tx.stage ≠ .localMfa) :
    Staged rt config tx :=
  ⟨fun h => absurd h hcode, fun h => absurd h hfactor⟩

/-- Every transaction that a thread presents is at a stage it may be at. -/
theorem staged_sound (h : Reachable (gateway rt config) env s w) :
    ∀ th ∈ w.threads, ∀ endpoint request, th.req.served = some (endpoint, request) →
      ∀ tx, request.presents (.tx tx) → Staged rt config tx := by
  let P : Nat → Sealed → Prop := fun _ tok => ∀ tx, tok = .tx tx → Staged rt config tx
  have hP : Good P := ⟨fun _ _ _ _ h => h⟩
  have hgood := hP.sound h (V := fun _ => True) (fun _ _ => trivial) ?_
  · intro th hth endpoint request hserved tx hpres
    exact hgood.2 th hth _ (handsIn_of_served hserved hpres) tx rfl
  rintro call endpoint request start stop - - - hpres tok hderived tx rfl
  cases hderived with
  | started _ _ hcode hfactor => exact .plain hcode hfactor
  | edited hpresented hedit hstage hcounted => exact (hpres _ hpresented _ rfl).moved hedit.same hstage
  | returned _ _ _ hcode hfactor => exact .plain hcode hfactor
  | memory hmem => cases hmem

end Sag
