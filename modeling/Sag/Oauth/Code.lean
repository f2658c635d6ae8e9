import Sag.Oauth.Transaction
import Sag.Session

/-!
# Authorisation codes

`oauth/code.js`. A code is a sealed token; what makes it single use is one claim
in the state store, taken only after every other check has passed.
-/

namespace Sag

open Resumable

variable (rt : Runtime) (config : Config)

/-- The payload of a code. -/
def codePayload (now : Nat) (jti : JsString) (tx : Transaction) (session : Session)
    (sub email : JsString) : CodePayload where
  v := 1
  jti
  clientId := tx.clientId
  redirectUri := tx.redirectUri
  scope := tx.scope
  nonce := tx.nonce
  codeChallenge := tx.codeChallenge
  codeChallengeMethod := tx.codeChallengeMethod
  idTokenAlg := tx.idTokenAlg
  resource := tx.resource
  sub
  email
  emailVerified := some (decide (session.emailVerified = some true))
  acr := session.acr
  amr := session.amr
  authTime := session.authTime
  sid := session.sid
  claims := session.claims
  localIdentityId := session.localIdentityId
  localIdentityKey := session.localIdentityKey
  localSecurityVersion := session.localSecurityVersion
  iat := now
  exp := now + config.tokens.authorizationCodeTtlSeconds

/-- Mint a code for a completed authentication. -/
def issueCode (tx : Transaction) (session : Session) (sub email : JsString) : M Sealed := do
  let now ← nowSeconds
  let jti ← randomToken 16
  let payload := codePayload config now jti tx session sub email
  note (.codeIssued tx payload)
  sealToken (.code payload)

def invalidGrant (description : String) : JsError :=
  .oauth (js "invalid_grant") (js description) 400 false

structure Redemption where
  code : Value
  clientId : JsString
  redirectUri : Option JsString
  codeVerifier : Option JsString

def codeClaimKey (jti : JsString) : JsString := js "authorization-code:" ++ jti

/-- Codes minted before local identities existed had no evidence flag. -/
def migrateCode (payload : CodePayload) : CodePayload :=
  if payload.emailVerified = none ∧ payload.localIdentityId.getD [] = [] then
    { payload with emailVerified := some true }
  else payload

/-- The PKCE half of a redemption. -/
def checkVerifier (payload : CodePayload) (codeVerifier : Option JsString) : M Unit :=
  match payload.codeChallenge.filter (· ≠ []) with
  | none => pure ()
  | some challenge =>
    match codeVerifier.filter (· ≠ []) with
    | none => fail (invalidGrant "A code_verifier is required for this authorization code.")
    | some verifier =>
      if !isPkceText verifier then fail (invalidGrant "The code_verifier is malformed.")
      else do
        suspend
        if timingSafeEqual (b64u (rt.sha256 verifier)) challenge then pure ()
        else fail (invalidGrant "The code_verifier does not match the code_challenge.")

/-- Redeem a code. `replayStore` says whether there is a state store. -/
def redeemCode (replayStore : Bool) (r : Redemption) : M CodePayload := do
  let payload ← Prog.tryCatch (unsealToken asCode r.code) fun _ =>
    fail (invalidGrant "The authorization code is invalid or has expired.")
  if payload.v ≠ 1 then fail (invalidGrant "The authorization code is invalid or has expired.")
  else if payload.clientId ≠ r.clientId then
    fail (invalidGrant "The authorization code was not issued to this client.")
  else if r.redirectUri.filter (· ≠ []) ≠ some payload.redirectUri then
    fail (invalidGrant "The redirect_uri does not match the one used to obtain this code.")
  else do
    checkVerifier rt payload r.codeVerifier
    if replayStore then
      let now ← nowSeconds
      let fresh ← attempt (perform (.store
        (.claim (codeClaimKey payload.jti) ((payload.exp : Int) - now + 60))))
      if fresh then pure (migrateCode payload)
      else fail (invalidGrant "This authorization code has already been used.")
    else pure (migrateCode payload)

/-! ## What the functions do -/

variable {rt config} {C : Contract effects}

/-- A code is minted for one transaction and one session, at one instant. -/
theorem issueCode_ensures (hC : Routine C) {tx : Transaction} {session : Session} {sub email : JsString}
    (hissue : ∀ now jti, C.tick now → ∀ h t, C.issue h t (.note (.codeIssued tx
      (codePayload config now jti tx session sub email)))) :
    Ensures C (issueCode config tx session sub email) fun tok =>
      ∃ payload, tok = .code payload ∧ C.Saw (.note (.codeIssued tx payload)) () := by
  refine now_then_ensures fun now hnow => andThen_ensures (randomToken_ensures hC 16) fun jti _ => ?_
  refine andThen_ensures (note_ensures fun h t _ => hissue now jti hnow h t) fun _ hnote => ?_
  exact ensures_imp (sealToken_ensures hC _) fun tok htok => ⟨_, htok, hnote⟩

/-! ## Redemption -/

/-- The checks of a redemption that look at nothing but the code and the request. -/
structure Checks (rt : Runtime) (r : Redemption) (payload : CodePayload) : Prop where
  version : payload.v = 1
  clientId : payload.clientId = r.clientId
  redirectUri : r.redirectUri.filter (· ≠ []) = some payload.redirectUri
  verifier : ∀ challenge, payload.codeChallenge.filter (· ≠ []) = some challenge →
    ∃ verifier, r.codeVerifier.filter (· ≠ []) = some verifier ∧ isPkceText verifier = true ∧
      timingSafeEqual (b64u (rt.sha256 verifier)) challenge = true

/-- The instant at which a call that has performed `h` by `t` opened its code: that
of its second event, or the present one. -/
def openedAt : List (Event effects) → Nat → Nat
  | _ :: e :: _, _ => e.time
  | _, t => t

/-- The claim on a code. -/
def codeClaim (payload : CodePayload) (t : Nat) : StoreOp :=
  .claim (codeClaimKey payload.jti) ((payload.exp : Int) - t + 60)

/-- The answer to the claim on a code. -/
def claimed (payload : CodePayload) (t : Nat) (fresh : Except JsError Bool) : Event effects :=
  ⟨t, .store (codeClaim payload t), fresh⟩

/-- What a redemption may issue besides a suspension: a claim only on a code that
has passed every check and had not expired when it was opened. -/
inductive RedeemGuard (rt : Runtime) (r : Redemption) : List (Event effects) → Nat → Op → Prop where
  | suspend {h : List (Event effects)} {t : Nat} : RedeemGuard rt r h t .suspend
  | claim {h : List (Event effects)} {t : Nat} {payload : CodePayload}
      (opens : r.code.opens = some (.code payload)) (checks : Checks rt r payload)
      (unexpired : openedAt h t ≤ payload.exp) :
      RedeemGuard rt r h t (.store (codeClaim payload t))

/-- What a successful redemption means. -/
def Redeemed (rt : Runtime) (r : Redemption) (replayStore : Bool) (h : List (Event effects))
    (out : CodePayload) : Prop :=
  ∃ payload, r.code.opens = some (.code payload) ∧ Checks rt r payload ∧ out = migrateCode payload ∧
    (replayStore = true → ∃ h₀ t, h = h₀ ++ [claimed payload t (.ok true)])

/-- Why a redemption fails: of a code that passes the checks, only by its expiry
or at the claim. -/
def Refused (rt : Runtime) (r : Redemption) (t : Nat) (h : List (Event effects)) : Prop :=
  ∀ payload, r.code.opens = some (.code payload) → Checks rt r payload →
    payload.exp < openedAt h t ∨ ∃ h₀ t₀ fresh, h = h₀ ++ [claimed payload t₀ fresh] ∧ fresh ≠ .ok true

variable {r : Redemption} {payload : CodePayload}

/-- The code had not expired when it was opened. -/
def Unexpired (C : Rely effects) (payload : CodePayload) (s : Moment effects) : Prop :=
  ∀ t, C.Now s t → openedAt s.past t ≤ payload.exp

theorem checkVerifier_sat (hC : ∀ h t, C.issue h t .suspend) (hversion : payload.v = 1)
    (hclient : payload.clientId = r.clientId)
    (hredirect : r.redirectUri.filter (· ≠ []) = some payload.redirectUri) {e₀ : Event effects} {t : Nat}
    (ht : t ≤ payload.exp) :
    (checkVerifier rt payload r.codeVerifier).Sat C (fun _ _ => ¬ Checks rt r payload)
      (fun s _ => Checks rt r payload ∧ Unexpired C payload s) ⟨some t, [e₀]⟩ := by
  unfold checkVerifier
  split
  · next hnone =>
    refine ⟨⟨hversion, hclient, hredirect, fun c hc => by rw [hnone] at hc; cases hc⟩, fun t' ht' => ?_⟩
    rw [ht'.2 t rfl]
    exact ht
  · next challenge hchallenge =>
    split
    · next hnone =>
      intro hchecks
      obtain ⟨v, hv, -⟩ := hchecks.verifier challenge hchallenge
      rw [hnone] at hv
      cases hv
    · next verifier hverifier =>
      split
      · next hbad =>
        intro hchecks
        obtain ⟨v, hv, hpkce, -⟩ := hchecks.verifier challenge hchallenge
        obtain rfl : verifier = v := Option.some.inj (hverifier.symm.trans hv)
        rw [hpkce] at hbad
        cases hbad
      · next hpkce =>
        refine fun t' ht' => ⟨hC _ _, fun _ _ => ?_⟩
        show Prog.Sat C _ _ _ (if timingSafeEqual (b64u (rt.sha256 verifier)) challenge then _ else _)
        split
        · next heq =>
          refine ⟨⟨hversion, hclient, hredirect, fun c hc => ⟨verifier, hverifier, by simpa using hpkce, ?_⟩⟩,
            fun _ _ => ?_⟩
          · rw [← Option.some.inj (hchallenge.symm.trans hc)]
            exact heq
          · show t' ≤ payload.exp
            rw [ht'.2 t rfl]
            exact ht
        · next hne =>
          intro hchecks
          obtain ⟨v, hv, -, heq⟩ := hchecks.verifier challenge hchallenge
          obtain rfl : verifier = v := Option.some.inj (hverifier.symm.trans hv)
          exact hne heq

/-- A redemption claims a code only after every other check, and fails on a code
that passes them only at its claim. -/
theorem redeemCode_sat (hG : ∀ h t o, RedeemGuard rt r h t o → C.issue h t o) (replayStore : Bool) :
    (redeemCode rt replayStore r).Sat C (C.Ends fun t h _ => Refused rt r t h)
      (C.Ends fun _ h out => Redeemed rt r replayStore h out) ⟨none, []⟩ := by
  have hC : ∀ h t, C.issue h t .suspend := fun h t => hG h t _ .suspend
  refine Prog.sat_bind.mpr (Prog.sat_tryCatch.mpr ((unsealToken_sat hC _).mono ?_ ?_))
  · rintro s _ (hnone | ⟨payload, exp, now, e, hopen, rfl, hexp⟩) t ht payload' hpayload _
    · rw [hpayload] at hnone
      cases hnone
    · obtain ⟨rfl, rfl⟩ : payload = payload' ∧ exp = payload'.exp := by
        rw [hpayload] at hopen
        simpa [asCode, eq_comm] using hopen
      rw [ht.2 now rfl]
      exact Or.inl hexp
  · rintro s payload ⟨exp, now, e, hopen, rfl, -, hexp⟩
    obtain ⟨tok, htok, hcode⟩ := Option.bind_eq_some_iff.mp hopen
    obtain ⟨rfl, rfl⟩ : tok = .code payload ∧ exp = payload.exp := by
      cases tok <;> simp [asCode] at hcode
      exact ⟨by rw [hcode.1], by rw [← hcode.2, hcode.1]⟩
    -- whatever is refused from here on is refused of this payload
    have refused : ∀ {s : Moment effects}, ¬ Checks rt r payload → C.Ends (fun t h (_ : JsError) =>
        Refused rt r t h) s (invalidGrant "") := by
      intro s hbad t _ payload' hpayload hchecks
      obtain rfl : payload = payload' := by simpa [htok] using hpayload
      exact absurd hchecks hbad
    show Prog.Sat C _ _ _ (if payload.v ≠ 1 then _ else _)
    split
    · next hversion => exact refused fun h => hversion h.version
    · next hversion =>
      split
      · next hclient => exact refused fun h => hclient h.clientId
      · next hclient =>
        split
        · next hredirect => exact refused fun h => hredirect h.redirectUri
        · next hredirect =>
          refine Prog.sat_bind.mpr ((checkVerifier_sat (r := r) hC (Decidable.not_not.mp hversion)
            (Decidable.not_not.mp hclient) (Decidable.not_not.mp hredirect)
            hexp).mono (fun _ _ hbad => refused hbad) ?_)
          rintro s _ ⟨hchecks, hunexpired⟩
          cases replayStore with
          | false => exact fun _ _ => ⟨payload, htok, hchecks, rfl, by rintro ⟨⟩⟩
          | true =>
            intro t₁ ht₁ t₂ ht₂
            obtain rfl : t₂ = t₁ := ht₂.2 t₁ rfl
            refine ⟨hG _ _ _ (.claim htok hchecks (hunexpired _ ht₁)), fun fresh _ => ?_⟩
            have lost : fresh ≠ .ok true → C.Ends (fun t h (_ : JsError) => Refused rt r t h)
                ⟨none, s.past ++ [claimed payload t₂ fresh]⟩ (invalidGrant "") := by
              intro hne t _ payload' hpayload _
              obtain rfl : payload = payload' := by simpa [htok] using hpayload
              exact Or.inr ⟨s.past, t₂, fresh, rfl, hne⟩
            cases fresh with
            | error e => exact lost (by simp)
            | ok fresh =>
              cases fresh with
              | false => exact lost (by simp)
              | true => exact fun _ _ => ⟨payload, htok, hchecks, rfl, fun _ => ⟨s.past, t₂, rfl⟩⟩

end Sag
