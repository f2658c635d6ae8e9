import Sag.Oauth.Request

/-!
# The in-flight authorisation request

`oauth/transaction.js`. A transaction is created once, sealed and handed to the
browser; every later copy has its identity, its demands, its targets and its times
(`SameRequest`), whatever else the steps between have changed.
-/

namespace Sag

open Resumable

variable (config : Config)

/-- Create a transaction from a validated authorisation request, with what the
client adds to it. -/
def newTransactionAt (now : Nat) (id : JsString) (req : AuthRequest) (client : Client) :
    Transaction where
  id
  stage := .email
  clientId := req.clientId
  redirectUri := req.redirectUri
  state := req.state
  nonce := req.nonce
  scope := req.scope
  responseType := req.responseType
  responseMode := req.responseMode
  codeChallenge := req.codeChallenge
  codeChallengeMethod := req.codeChallengeMethod
  acrValues := req.acrValues
  prompt := req.prompt
  maxAge := req.maxAge
  loginHint := req.loginHint
  idTokenAlg := req.idTokenAlg
  resource := req.resource
  iat := now
  exp := now + config.tokens.transactionTtlSeconds
  clientName := client.clientName
  logoUri := client.logoUri
  tosUri := client.tosUri
  policyUri := client.policyUri
  email := none
  rememberMe := none
  otp := none
  localIdentity := none
  upstream := none

def newTransaction (req : AuthRequest) (client : Client) : M Transaction := do
  let now ← nowSeconds
  let id ← randomToken 12
  pure (newTransactionAt config now id req client)

/-- Open a transaction handed back by the browser. -/
def openTransaction (token : Value) : M Transaction := do
  let tx ← unsealToken asTx token
  if tx.clientId = [] then fail (.sealError (js "unrecognised transaction")) else pure tx

/-- Open the transaction an upstream provider sent back. -/
def openUpstreamState (token : Value) : M (Transaction × UpstreamLeg) := do
  let tx ← unsealToken asUpstreamState token
  match tx.upstream with
  | none => fail (.sealError (js "unrecognised upstream state"))
  | some leg => pure (tx, leg)

/-- Record that an OTP has been issued. -/
def withOtp (tx : Transaction) (digest : Option JsString) (expiresAt resends now : Nat) : Transaction :=
  { tx with stage := .otp, otp := some { digest, exp := expiresAt, attempts := 0, resends, iat := now } }

/-- Count an attempt, on a transaction that carries a code. -/
def withOtpAttempt (tx : Transaction) : Transaction :=
  { tx with otp := tx.otp.map fun otp => { otp with attempts := otp.attempts + 1 } }

/-- Discard the OTP state, for "use a different email address". -/
def withoutOtp (tx : Transaction) : Transaction :=
  { tx with otp := none, email := none, upstream := none, localIdentity := none, stage := .email }

/-- Drop the attempt but keep the address. -/
def withoutAttempt (tx : Transaction) : Transaction :=
  { tx with otp := none, upstream := none, localIdentity := none }

def expired (tx : Transaction) : M Bool := do
  let now ← nowSeconds
  pure (decide (tx.exp < now))

/-! ## What never changes -/

/-- The part of a transaction that was settled when it started. -/
def Transaction.asStarted (tx : Transaction) : Transaction :=
  { tx with stage := .email, email := none, rememberMe := none, otp := none, localIdentity := none
            upstream := none }

/-- Two copies of one authorisation request: they differ in the stage, the address
and what has been done for it, and in nothing else. -/
structure SameRequest (tx tx' : Transaction) : Prop where
  started : tx'.asStarted = tx.asStarted

theorem SameRequest.refl (tx : Transaction) : SameRequest tx tx := ⟨rfl⟩

theorem SameRequest.trans {a b c : Transaction} (h : SameRequest a b) (h' : SameRequest b c) :
    SameRequest a c :=
  ⟨h'.started.trans h.started⟩

section
variable {tx tx' : Transaction} (h : SameRequest tx tx')
include h

theorem SameRequest.id : tx'.id = tx.id := (congrArg Transaction.id h.started :)
theorem SameRequest.clientId : tx'.clientId = tx.clientId := (congrArg Transaction.clientId h.started :)
theorem SameRequest.redirectUri : tx'.redirectUri = tx.redirectUri :=
  (congrArg Transaction.redirectUri h.started :)
theorem SameRequest.responseMode : tx'.responseMode = tx.responseMode :=
  (congrArg Transaction.responseMode h.started :)
theorem SameRequest.state : tx'.state = tx.state := (congrArg Transaction.state h.started :)
theorem SameRequest.acrValues : tx'.acrValues = tx.acrValues := (congrArg Transaction.acrValues h.started :)
theorem SameRequest.prompt : tx'.prompt = tx.prompt := (congrArg Transaction.prompt h.started :)
theorem SameRequest.maxAge : tx'.maxAge = tx.maxAge := (congrArg Transaction.maxAge h.started :)
theorem SameRequest.iat : tx'.iat = tx.iat := (congrArg Transaction.iat h.started :)

end

/-! ## What the functions do -/

variable {config} {C : Contract effects}

theorem newTransaction_ensures (hC : Routine C) (req : AuthRequest) (client : Client) :
    Ensures C (newTransaction config req client) fun tx =>
      ∃ now bytes, C.tick now ∧ tx = newTransactionAt config now (b64u bytes) req client := by
  refine now_then_ensures fun now hnow => andThen_ensures (randomToken_ensures hC 12) fun id hid => ?_
  obtain ⟨bytes, rfl⟩ := hid
  exact pure_ensures ⟨now, bytes, hnow, rfl⟩

theorem openTransaction_ensures (hC : Routine C) (token : Value) :
    Ensures C (openTransaction token) fun tx => token.opens = some (.tx tx) := by
  refine andThen_ensures (unsealToken_ensures hC) fun tx hopen => ?_
  obtain ⟨tok, _, _, hopens, hpurpose, -, -⟩ := hopen
  have htok : tok = .tx tx := by
    cases tok <;> simp [asTx] at hpurpose
    rw [hpurpose.1]
  split
  · exact fail_ensures
  · exact pure_ensures (htok ▸ hopens)

theorem openUpstreamState_ensures (hC : Routine C) (token : Value) :
    Ensures C (openUpstreamState token) fun r => token.opens = some (.upstreamState r.1) := by
  refine andThen_ensures (unsealToken_ensures hC) fun tx hopen => ?_
  obtain ⟨tok, _, _, hopens, hpurpose, -, -⟩ := hopen
  have htok : tok = .upstreamState tx := by
    cases tok <;> simp [asUpstreamState] at hpurpose
    rw [hpurpose.1]
  split
  · exact fail_ensures
  · exact pure_ensures (htok ▸ hopens)

theorem expired_ensures (tx : Transaction) : Ensures C (expired tx) fun _ => True :=
  now_then_ensures fun _ _ => pure_ensures trivial

end Sag
