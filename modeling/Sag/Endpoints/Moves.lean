import Sag.Endpoints.Respond
import Sag.LocalIdentities.Update
import Sag.Oauth.Code
import Sag.Otp
import Sag.Store.Limits
import Sag.Upstream

/-!
# What an endpoint can do

The handlers have many branches, but few things come out of them. This module
says once what those are, in terms of what a request hands in (`presents`), what
the operations answered (`Rely.Saw`) and the clock (`Rely.tick`):

* `Derived` is every token a response can carry. A transaction is a new one, or
  an `Edit` of one that was handed in, at a stage that `StageMove` allows;
* `Completion` is every way to an authorization code: a session that was there,
  or a `SignIn`;
* `Aimed` is every place a response can send a code or an error to;
* `Guard` is every sensitive operation, with what has to be true, or to have
  happened just before, when it is issued.

`Endpoints.Handlers` proves that the handlers do nothing else. Every invariant
over runs is read off these relations, and none of them looks at a handler.
-/

namespace Sag

open Resumable

/-- The endpoints of the interactive flow. -/
inductive Endpoint where
  | authorize
  | email
  | otpRequest
  | resend
  | otpSubmit
  | localPassword
  | localMfa
  | restart
  | continue
  | chooseUpstream
  | callback
  | logout
  deriving DecidableEq, Repr

/-- The parameters a request carries, where they may come either way. -/
def Request.params (request : Request) : Form :=
  if request.isPost then request.form.toOption.getD [] else request.query

/-- A field of the submitted form. -/
def Request.field (request : Request) (name : JsString) : Option JsString :=
  (request.form.toOption.getD []).text name

/-- Does the request demand that the person signs in again? -/
def Transaction.forced (tx : Transaction) : Bool := js "login" ∈ tx.prompt || js "select_account" ∈ tx.prompt

variable (rt : Runtime) (config : Config) (C : Rely effects) (endpoint : Endpoint)
variable (request : Request)

/-! ## Transactions -/

/-- What becomes of the email code of a transaction. A digest only comes from a
code that was drawn for this transaction and the address it then names. -/
inductive OtpMove (tx₀ tx : Transaction) : Prop where
  | kept (h : tx.otp = tx₀.otp)
  | dropped (h : tx.otp = none)
  | attempted (h : tx.otp = tx₀.otp.map fun otp => { otp with attempts := otp.attempts + 1 })
  | blank {otp : OtpState} (h : tx.otp = some otp) (digest : otp.digest = none)
  | drawn {otp : OtpState} {code : JsString} (h : tx.otp = some otp) (named : tx.email ≠ none)
      (digest : otp.digest = some (otpDigest rt config tx.id tx.email code))
      (canonical : normaliseCode rt (some code) = code)
      (generated : C.Saw (.note (.otpGenerated tx.id tx.email code otp.exp)) ())

/-- The address is the one this request has submitted. -/
def Typed (email : Option JsString) : Prop :=
  ∃ e, email = some e ∧ looksLikeEmail e = true ∧ endpoint = .email ∧
    normaliseEmail rt (request.field (js "email")) = some e

/-- What a handler makes of a transaction: its request never changes, and a new
address is the one submitted. -/
structure Edit (tx₀ tx : Transaction) : Prop where
  same : SameRequest tx₀ tx
  email : tx.email = tx₀.email ∨ tx.email = none ∨ Typed rt endpoint request tx.email
  otp : OtpMove rt config C tx₀ tx

/-- The stage a transaction is shown at. The code screen is kept for an address
it was already shown for, or comes with one that may not sign in by code where
the request does not allow that at all. The second factor comes after a
password where the pair would do. -/
structure StageMove (tx₀ tx : Transaction) : Prop where
  code : tx.stage = .otp → (tx₀.stage = .otp ∧ tx.email = tx₀.email) ∨
    (requiresFederation tx.acrValues = true → otpAllowed rt config tx.email = false)
  factor : tx.stage = .localMfa → tx₀.stage = .localMfa ∨ satisfies Acr.localMfa tx.acrValues = true

/-- Only a counted attempt moves a transaction on at the local endpoints. -/
def Counted (tx₀ tx : Transaction) : Prop :=
  match endpoint with
  | .localPassword => tx = tx₀ ∨ AllowedAttempt C rt config (tx₀.email.getD []) .password
  | .localMfa => tx = tx₀ ∨ AllowedAttempt C rt config (tx₀.email.getD []) .mfa
  | _ => True

/-! ## Sessions and codes -/

/-- A session that carries `args`: a new one, or the one of the request where that
is the same person's. -/
inductive NewlySigned (args : SessionArgs) : Session → Prop where
  | created {now : Nat} {sid : JsString} (tick : C.tick now)
      (created : C.Saw (.note (.sessionCreated (newSessionAt config now sid args))) ()) :
      NewlySigned args (newSessionAt config now sid args)
  | again {existing : Session} {now : Nat} (read : ReadFrom request existing) (tick : C.tick now)
      (same : existing.principal = args.principal) :
      NewlySigned args (reauthenticateAt config now existing args)

/-- What a sign-in carries of a local account. -/
structure Names (args : SessionArgs) (record : LocalRecord) : Prop where
  id : args.localIdentityId = some record.id
  key : args.localIdentityKey = some record.key
  version : args.localSecurityVersion = some record.securityVersion

/-- The record that the address of a transaction leads to, as it was read. -/
structure AddressRecord (tx : Transaction) (record : LocalRecord) : Prop where
  read : ReadRecord rt C record
  key : addressKey? rt config tx.email = some record.key

/-- An upstream has asserted the address that a sign-in carries. -/
def Vouched (args : SessionArgs) (claims : Members) : Prop :=
  ∃ email, Asserts rt C claims email ∧ normaliseEmail rt (some email) = normaliseEmail rt (some args.email)

/-- What has been verified when somebody signs in for a transaction. -/
inductive SignIn : Endpoint → Transaction → SessionArgs → Prop where
  | otp {tx : Transaction} {args : SessionArgs} {otp : OtpState} {digest : JsString}
      (presented : request.presents (.tx tx)) (stage : tx.stage = .otp)
      (accepted : Accepted C rt config tx otp digest (request.field (js "code")))
      (email : args.email = tx.email.getD []) (acr : args.acr = Acr.otp)
      (account : args.localIdentityId = none) :
      SignIn .otpSubmit tx args
  | password {tx : Transaction} {args : SessionArgs} {record : LocalRecord}
      (presented : request.presents (.tx tx))
      (allowed : AllowedAttempt C rt config (tx.email.getD []) .password)
      (found : AddressRecord rt config C tx record) (single : requiresSecondFactor record = false)
      (names : Names args record) (unproved : args.emailVerified = false)
      (acr : args.acr = Acr.localPassword)
      (meets : satisfies Acr.localPassword tx.acrValues = true) : SignIn .localPassword tx args
  | factor {tx : Transaction} {args : SessionArgs} {record next : LocalRecord}
      (presented : request.presents (.tx tx)) (stage : tx.stage = .localMfa)
      (allowed : AllowedAttempt C rt config (tx.email.getD []) .mfa)
      (found : AddressRecord rt config C tx record) (consumed : Consumed C record next)
      (names : Names args record) (unproved : args.emailVerified = false)
      (acr : args.acr = Acr.localMfa) : SignIn .localMfa tx args
  | upstream {tx : Transaction} {args : SessionArgs} {claims : Members}
      (presented : request.presents (.upstreamState tx))
      (vouched : Vouched rt C args claims)
      (account : args.localIdentityId = none ∨
        ∃ record, AddressRecord rt config C tx record ∧ Names args record)
      (acr : args.acr = (acrFromUpstream rt.cases claims).acr)
      (meets : satisfies args.acr tx.acrValues = true) :
      SignIn .callback { tx with upstream := none } args

/-- An existing session that may answer a transaction now; the local account it
names, if any, still stands. -/
structure Answers (tx : Transaction) (s : Session) : Prop where
  read : ReadFrom request s
  account : s.localIdentityId.getD [] ≠ [] → Standing rt config C s
  fresh : ∃ now, C.tick now ∧ freshAt config now s tx.maxAge = true
  meets : satisfies s.acr tx.acrValues = true

/-- A transaction that starts with this request. -/
structure Started (tx : Transaction) : Prop where
  intro ::
  exists_parsed : ∃ client req now id, Parsed rt C config request.params client req ∧ C.tick now ∧
    tx = newTransactionAt config now (b64u id) req client

/-- The ways to an authorization code. -/
inductive Completion : Endpoint → Transaction → Session → Prop where
  | silent {tx : Transaction} {s : Session} (started : Started rt config C request tx)
      (answers : Answers rt config C request tx s) (unforced : tx.forced = false) :
      Completion .authorize tx s
  | continued {tx : Transaction} {s : Session} (presented : request.presents (.tx tx))
      (answers : Answers rt config C request tx s) : Completion .continue tx s
  | signedIn {endpoint : Endpoint} {tx : Transaction} {args : SessionArgs} {s : Session}
      (signIn : SignIn rt config C request endpoint tx args)
      (signed : NewlySigned config C request args s) : Completion endpoint tx s

/-- The payload of a code for a completed authentication, with the address as its client
should see it. -/
def Minted (tx : Transaction) (s : Session) (payload : CodePayload) : Prop :=
  ∃ touched now jti sub client, C.tick touched ∧ C.tick now ∧
    payload = codePayload config now jti tx (touchAt config touched s) sub (identityEmail config s.email client)

/-! ## Tokens -/

/-- The tokens a response can carry. -/
inductive Derived : Sealed → Prop where
  | started {tx : Transaction} {stage : Stage} (start : endpoint = .authorize)
      (started : Started rt config C request tx) (code : stage ≠ .otp) (factor : stage ≠ .localMfa) :
      Derived (.tx { tx with stage })
  | edited {tx₀ tx : Transaction} (presented : request.presents (.tx tx₀))
      (edit : Edit rt config C endpoint request tx₀ tx) (stage : StageMove rt config tx₀ tx)
      (counted : Counted rt config C endpoint tx₀ tx) : Derived (.tx tx)
  | returned {tx₀ tx : Transaction} (callback : endpoint = .callback)
      (presented : request.presents (.upstreamState tx₀)) (edit : Edit rt config C endpoint request tx₀ tx)
      (code : tx.stage ≠ .otp) (factor : tx.stage ≠ .localMfa) : Derived (.tx tx)
  | leg {tx₀ tx : Transaction} (route : endpoint = .email ∨ endpoint = .chooseUpstream)
      (presented : request.presents (.tx tx₀)) (edit : Edit rt config C endpoint request tx₀ tx) :
      Derived (.upstreamState tx)
  | session {tx : Transaction} {s : Session} {now : Nat}
      (completion : Completion rt config C request endpoint tx s) (tick : C.tick now) :
      Derived (.session (touchAt config now s))
  | code {tx : Transaction} {payload : CodePayload}
      (issued : C.Saw (.note (.codeIssued tx payload)) ()) : Derived (.code payload)
  | memory {tok : Sealed} (h : tok.isMemory) : Derived tok
  | logout {payload : LogoutPayload} : Derived (.logout payload)

/-! ## Destinations -/

/-- A transaction that the request has to do with: a new one, or one handed in. -/
inductive Handled : Transaction → Prop where
  | started {tx : Transaction} (start : endpoint = .authorize) (started : Started rt config C request tx) :
      Handled tx
  | handed {tx₀ tx : Transaction} (later : endpoint ≠ .authorize)
      (presented : request.presents (.tx tx₀) ∨ request.presents (.upstreamState tx₀))
      (same : SameRequest tx₀ tx) : Handled tx

/-- Where a response may send the browser with a code or an error: to the redirect
URI of its transaction, or, where the request did not become one, to the one that
its client accepts. -/
inductive Aimed : RedirectTargets → Prop where
  | transaction {tx : Transaction} (handled : Handled rt config C endpoint request tx) :
      Aimed (redirectTargets tx)
  | rejected {clientId redirectUri : JsString} {client : Client} (start : endpoint = .authorize)
      (accepts : Accepts rt C config request.params clientId client redirectUri)
      (state : request.params.repeats (js "state") = false)
      (mode : request.params.repeats (js "response_mode") = false) :
      Aimed ⟨some redirectUri, request.params.text (js "state"), request.params.text (js "response_mode")⟩

/-! ## Operations -/

/-- The events after which the end of a session may be recorded: the claim that
revokes it, or, where its absolute lifetime is over, its acceptance. -/
inductive Ended (stored : Session) (h : List (Event effects)) (t : Nat) : Prop where
  | revoked {h₀ : List (Event effects)} {t₀ : Nat} {fresh : Bool} (before : t₀ < stored.abs)
      (past : h = h₀ ++ [⟨t₀, .store (.claim (revocationKey stored.sid) ((stored.abs : Int) - t₀)),
        (.ok fresh : Except JsError Bool)⟩])
  | late {h₀ : List (Event effects)} {t₀ : Nat} (after : stored.abs ≤ t)
      (past : h = h₀ ++ [acceptance stored t₀])
  | storeless (store : config.stateStore = false)

/-- The operations an endpoint may issue after the events `h`, at the instant `t`. -/
inductive Guard : List (Event effects) → Nat → Op → Prop where
  | limiting {h : List (Event effects)} {t : Nat} {o : Op} (limiting : Limiting C config o) : Guard h t o
  | accepted {h : List (Event effects)} {t : Nat} {stored : Session}
      (admissible : Admissible config request stored h t) :
      Guard h t (.note (.sessionAccepted stored))
  | created {h : List (Event effects)} {t : Nat} {tx : Transaction} {args : SessionArgs} {now : Nat}
      {sid : JsString} (signIn : SignIn rt config C request endpoint tx args) (tick : C.tick now) :
      Guard h t (.note (.sessionCreated (newSessionAt config now sid args)))
  | generated {h : List (Event effects)} {t : Nat} {txId code : JsString} {email : Option JsString}
      {exp : Nat} :
      Guard h t (.note (.otpGenerated txId email code exp))
  | send {h : List (Event effects)} {t : Nat} {message : EmailMessage} {tx₀ tx : Transaction}
      (presented : request.presents (.tx tx₀))
      (edit : Edit rt config C endpoint request tx₀ tx) (addressed : message.«to» = tx.email)
      (allowed : otpAllowed rt config message.«to» = true)
      (charged : Charged rt config (message.«to».getD (js "undefined")) h) : Guard h t (.sendEmail message)
  | issued {h : List (Event effects)} {t : Nat} {tx : Transaction} {s : Session}
      {payload : CodePayload}
      (completion : Completion rt config C request endpoint tx s)
      (minted : Minted config C tx s payload) : Guard h t (.note (.codeIssued tx payload))
  | consume {h : List (Event effects)} {t : Nat} {tx : Transaction} {record : LocalRecord}
      {change : Change}
      (presented : request.presents (.tx tx))
      (allowed : AllowedAttempt C rt config (tx.email.getD []) .mfa) (read : ReadRecord rt C record)
      (update : Update C record change) (factor : change.isFactor = true) (local_ : endpoint = .localMfa) :
      Guard h t (replaceOp record change)
  | retain {h : List (Event effects)} {t : Nat} {record : LocalRecord} {change : Change}
      (read : ReadRecord rt C record)
      (update : Update C record change) (factor : change.isFactor = false)
      (callback : endpoint = .callback) : Guard h t (replaceOp record change)
  | revoke {h h₀ : List (Event effects)} {t t₀ : Nat} {stored : Session}
      (past : h = h₀ ++ [acceptance stored t₀]) (before : t < stored.abs) :
      Guard h t (.store (.claim (revocationKey stored.sid) ((stored.abs : Int) - t)))
  | ended {h : List (Event effects)} {t : Nat} {stored : Session} (ended : Ended config stored h t) :
      Guard h t (.note (.sessionEnded (migrate stored)))

/-- The contract lets an endpoint do what the guard allows. -/
def Guarded (rt : Runtime) (config : Config) (C : Contract effects) (endpoint : Endpoint)
    (request : Request) : Prop :=
  ∀ h t o, Guard rt config C endpoint request h t o → C.issue h t o

end Sag
