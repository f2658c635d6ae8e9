import Sag.Lib.System
import Sag.Sealed

/-!
# What the program awaits

The operations a handler stops at, what each may answer, and the errors that
can be thrown. `suspend` is an awaited platform call whose result the model
computes itself (Web Crypto, reading a body): it is a point at which other
requests may run, and nothing else. A `note` changes nothing and answers
nothing; it records in the history of a run what no other operation shows: an
email code drawn for an address, a session created, accepted or ended, an
authorization code minted for a transaction, a client assertion accepted.

`M` is the monad of the handlers.
-/

namespace Sag

open Resumable

/-- Errors, as the code distinguishes them. -/
inductive JsError where
  /-- `OAuthError`. -/
  | oauth (code description : JsString) (status : Nat) (redirectable : Bool)
  /-- `UnredirectableError`, raised before a redirect URI is trusted. -/
  | unredirectable (code description : JsString) (status : Nat)
  | sealError (message : JsString)
  | error (message : JsString)
  deriving DecidableEq

/-- The three primitives of a state store. -/
inductive StoreOp where
  | claim (id : JsString) (ttlSeconds : Int)
  | has (id : JsString)
  | increment (key : JsString) (ttlSeconds : Int) (failClosed : Bool)
  deriving DecidableEq

@[reducible] def StoreOp.Ans : StoreOp → Type
  | .claim _ _ => Except JsError Bool
  | .has _ => Except JsError Bool
  | .increment _ _ _ => Except JsError Nat

/-- A sign-in code message, as the sender is given it. -/
structure EmailMessage where
  «to» : Option JsString
  sender : JsString
  code : JsString
  ttlMinutes : Nat
  organisation : JsString
  application : JsString
  deriving DecidableEq

/-- What a completed upstream exchange has verified. -/
structure Exchange where
  claims : Members
  refreshToken : Option Json

inductive Note where
  | otpGenerated (txId : JsString) (email : Option JsString) (code : JsString) (exp : Nat)
  | sessionCreated (session : Session)
  | sessionAccepted (session : Session)
  | sessionEnded (session : Session)
  | codeIssued (tx : Transaction) (payload : CodePayload)
  | assertionAccepted (clientId assertion : JsString)

inductive Op where
  | suspend
  /-- Which of two programs under one `Promise.all` goes first. -/
  | pick
  | encrypt (purpose : JsString) (plaintext : Bytes)
  /-- Open a stored refresh token with the current secret, or with any. -/
  | openRefresh (current : Bool) (purpose token : JsString)
  | randomBytes (n : Nat)
  | store (op : StoreOp)
  | bindingGet (key : JsString)
  | bindingReplace (key : JsString) (expectedRevision : Nat) (document : Json)
  | verifyArgon2id (hash password : JsString)
  | resolveClient (clientId : JsString)
  | sendEmail (message : EmailMessage)
  | mailProvider (domain : JsString)
  | consumerMx (domain : Option JsString)
  | upstreamMetadata (upstream : Upstream)
  | upstreamExchange (upstream : Upstream) (code : JsString) (leg : UpstreamLeg) (maxAge : Option Nat)
  | fetchJwks (uri : JsString)
  /-- Verify the signature of a compact JWS with a key. -/
  | verifySignature (token : JsString) (jwk : Json)
  /-- Choose a signer for the algorithm, and sign. -/
  | signIdToken (requestedAlg : Option JsString)
  | note (n : Note)

@[reducible] def Op.Ans : Op → Type
  | .suspend => Unit
  | .pick => Bool
  | .encrypt _ _ => Bytes × Bytes
  | .openRefresh _ _ _ => Except JsError Json
  | .randomBytes _ => Bytes
  | .store op => op.Ans
  | .bindingGet _ => Except JsError (Option Json)
  | .bindingReplace _ _ _ => Except JsError Bool
  | .verifyArgon2id _ _ => Except JsError Bool
  | .resolveClient _ => Except JsError (Option Client)
  | .sendEmail _ => Except JsError (Option JsString)
  | .mailProvider _ => Option JsString
  | .consumerMx _ => Bool
  | .upstreamMetadata _ => Except JsError Unit
  | .upstreamExchange _ _ _ _ => Except JsError Exchange
  | .fetchJwks _ => Except JsError Json
  | .verifySignature _ _ => Except JsError Unit
  | .signIdToken _ => Except JsError Unit
  | .note _ => Unit

/-- The signature of the whole program. -/
@[reducible] def effects : Effects := ⟨JsError, Op, Op.Ans⟩

abbrev M (α : Type) : Type := Prog effects α

/-- Await an operation. -/
def perform (o : Op) : M o.Ans := Prog.await (F := effects) o

def nowSeconds : M Nat := Prog.now

def fail {α : Type} (e : JsError) : M α := Prog.throw (F := effects) e

/-- Await an operation that may reject. -/
def attempt {α : Type} (x : M (Except JsError α)) : M α := x >>= Prog.ofExcept (F := effects)

def suspend : M Unit := perform .suspend

def note (n : Note) : M Unit := perform (.note n)

/-- `Promise.all([p, q])`. -/
def promiseAll {α β : Type} (p : M α) (q : M β) : M (α × β) := do
  let (a, b) ← Prog.both (F := effects) (perform .pick) p q
  let a ← Prog.ofExcept (F := effects) a
  let b ← Prog.ofExcept (F := effects) b
  pure (a, b)

/-- `randomToken(n)`. -/
def randomToken (n : Nat) : M JsString := do
  let bytes ← perform (.randomBytes n)
  pure (b64u bytes)

/-! ## Sealing -/

/-- Seal a payload under its purpose. -/
def sealToken (x : Sealed) : M Sealed := do
  suspend
  pure x

/-- Open a submitted string as the purpose `purpose` selects. A token of
another purpose, or a string no secret sealed, is refused before anything is
decrypted; an opened payload is refused once its `exp` has passed. -/
def unsealToken {α : Type} (purpose : Sealed → Option (α × Nat)) (v : Value) : M α :=
  match v.opens.bind purpose with
  | none => fail (.sealError (js "could not decrypt token"))
  | some (payload, exp) => do
    suspend
    let now ← nowSeconds
    if exp < now then fail (.sealError (js "token expired")) else pure payload

def asTx : Sealed → Option (Transaction × Nat)
  | .tx t => some (t, t.exp)
  | _ => none

def asUpstreamState : Sealed → Option (Transaction × Nat)
  | .upstreamState t => some (t, t.exp)
  | _ => none

def asSession : Sealed → Option (Session × Nat)
  | .session s => some (s, s.exp)
  | _ => none

def asCode : Sealed → Option (CodePayload × Nat)
  | .code p => some (p, p.exp)
  | _ => none

def asRememberMe : Sealed → Option (Option JsString × Nat)
  | .rememberMe email exp => some (email, exp)
  | _ => none

def asLogout : Sealed → Option (LogoutPayload × Nat)
  | .logout p => some (p, p.exp)
  | _ => none

/-- Catch a `SealError` and go on with `h`; any other error is rethrown. -/
def catchSeal {α : Type} (x : M α) (h : M α) : M α :=
  Prog.tryCatch x fun
    | .sealError _ => h
    | e => fail e

/-! ## Contracts for these effects -/

/-- The operations no guarantee of this development restricts. -/
def Op.routine : Op → Bool
  | .note _ | .sendEmail _ | .bindingReplace .. | .store (.claim ..) | .store (.increment ..) => false
  | _ => true

/-- The delivery of a message. -/
def Op.isSend : Op → Bool
  | .sendEmail _ => true
  | _ => false

/-- What drawing a code takes. -/
def Op.drawing : Op → Bool
  | .note (.otpGenerated ..) => true
  | o => o.routine

theorem not_isSend_of_routine {o : Op} (h : o.routine = true) : o.isSend = false := by
  cases o <;> first | rfl | cases h

theorem not_isSend_of_drawing {o : Op} (h : o.drawing = true) : o.isSend = false := by
  cases o <;> first | rfl | cases h

/-- A contract that lets every routine operation through. -/
def Routine (C : Contract effects) : Prop := ∀ h t o, o.routine = true → C.issue h t o

/-- `p` keeps `C` and returns what satisfies `Q`, from every moment and whatever
it throws. -/
abbrev Ensures (C : Contract effects) {α : Type} (p : M α) (Q : α → Prop) : Prop :=
  Prog.Always C (fun _ => True) Q p

section
variable {C : Contract effects} {α β : Type} {Q Q' : α → Prop}

/-- What a program ensures holds of what it returns in any of its runs. -/
theorem result_of_ensures {p : M α} (h : Ensures C p Q) {es : List (Event effects)} {a : α}
    (hs : Prog.Steps p es (.pure a)) (hes : ∀ e ∈ es, C.Keeps e) {t : Nat} (ht : C.tick t) : Q a := by
  have hp : p.Sat C (C.Ends fun _ _ _ => True) (C.Ends fun _ _ a => Q a) ⟨none, []⟩ :=
    (h ⟨none, []⟩).mono (fun _ _ _ _ _ => trivial) fun _ _ ha _ _ => ha
  exact (Prog.Sat.steps hs hp hes).1 t ⟨ht, by simp⟩

theorem pure_ensures {a : α} (h : Q a) : Ensures C (pure a) Q := fun _ => h

theorem fail_ensures {e : JsError} : Ensures C (fail e : M α) Q := fun _ => trivial

theorem ofExcept_ensures {x : Except JsError α} (h : ∀ a, x = .ok a → Q a) :
    Ensures C (Prog.ofExcept (F := effects) x) Q :=
  fun _ => Prog.sat_ofExcept.mpr ⟨h, fun _ _ => trivial⟩

/-- Consequence on the result. -/
theorem ensures_imp {p : M α} (h : Ensures C p Q) (hQ : ∀ a, Q a → Q' a) : Ensures C p Q' := h.mono hQ

/-- Sequencing, with what is thrown on either side. -/
theorem andThen_always {E : JsError → Prop} {p : M α} {f : α → M β} {Q' : β → Prop}
    (h : Prog.Always C E Q p) (hf : ∀ a, Q a → Prog.Always C E Q' (f a)) : Prog.Always C E Q' (p >>= f) :=
  h.bind hf

/-- Sequencing, with the first half's postcondition named. -/
theorem andThen_ensures {p : M α} {f : α → M β} {Q' : β → Prop} (h : Ensures C p Q)
    (hf : ∀ a, Q a → Ensures C (f a) Q') : Ensures C (p >>= f) Q' :=
  andThen_always h hf

/-- Where every error will do, what is thrown need not be followed. -/
theorem ensures_always {E : JsError → Prop} {p : M α} (h : Ensures C p Q) (hE : ∀ e, E e) :
    Prog.Always C E Q p :=
  fun s => (h s).mono (fun _ e _ => hE e) fun _ _ ha => ha

/-- Handling what is thrown. -/
theorem tryCatch_always {E : JsError → Prop} {p : M α} {h : JsError → M α} (hp : Ensures C p Q)
    (hh : ∀ e, Prog.Always C E Q (h e)) : Prog.Always C E Q (p.tryCatch h) :=
  fun s => Prog.sat_tryCatch.mpr ((hp s).mono (fun s' e _ => hh e s') fun _ _ ha => ha)

theorem tryCatch_ensures {p : M α} {h : JsError → M α} (hp : Ensures C p Q)
    (hh : ∀ e, Ensures C (h e) Q) : Ensures C (p.tryCatch h) Q :=
  tryCatch_always hp hh

/-- What a program settles to, if it did not fail. -/
theorem settled_ensures {p : M α} (hp : Ensures C p Q) :
    Ensures C (Prog.settled p) fun r => ∀ a, r = .ok a → Q a :=
  fun s => Prog.sat_settled.mpr ((hp s).mono (fun _ _ _ => by simp) fun _ _ ha => by simpa using ha)

/-- What a program settles to, whichever way. -/
theorem settled_always {E : JsError → Prop} {p : M α} (hp : Prog.Always C E Q p) :
    Ensures C (Prog.settled p) fun r => (∀ a, r = .ok a → Q a) ∧ ∀ e, r = .error e → E e :=
  hp.settled

/-- An operation the contract allows everywhere tells what it has answered. -/
theorem issue_always {E : JsError → Prop} {o : Op} (ho : ∀ h t, C.tick t → C.issue h t o) :
    Prog.Always C E (fun a => C.Saw o a) (perform o) :=
  .await ho

theorem issue_ensures {o : Op} (ho : ∀ h t, C.tick t → C.issue h t o) :
    Ensures C (perform o) fun a => C.Saw o a :=
  issue_always ho

theorem perform_ensures {o : Op} (hC : Routine C) (ho : o.routine = true) :
    Ensures C (perform o) fun a => C.Saw o a :=
  issue_ensures fun h t _ => hC h t o ho

theorem note_ensures {n : Note} (hn : ∀ h t, C.tick t → C.issue h t (.note n)) :
    Ensures C (note n) fun _ => C.Saw (.note n) () :=
  issue_ensures hn

theorem suspend_ensures (hC : Routine C) : Ensures C suspend fun _ => True :=
  ensures_imp (perform_ensures (o := .suspend) hC rfl) fun _ _ => trivial

/-- Suspend, and go on. -/
theorem suspend_then_ensures {p : M α} (hC : Routine C) (h : Ensures C p Q) :
    Ensures C (suspend >>= fun _ => p) Q :=
  andThen_ensures (suspend_ensures hC) fun _ _ => h

/-- Read the clock, and go on. -/
theorem now_then_ensures {f : Nat → M α} (h : ∀ now, C.tick now → Ensures C (f now) Q) :
    Ensures C (nowSeconds >>= f) Q :=
  fun _ => Prog.sat_bind.mpr fun t ht => h t ht.1 _

/-- Read the clock and issue an operation in the same segment: the reading is
the instant of the operation. -/
theorem nowPerform_ensures {o : Nat → Op} (ho : ∀ h t, C.tick t → C.issue h t (o t))
    {f : (t : Nat) → (o t).Ans → M α}
    (hf : ∀ t a, C.tick t → C.reply t (o t) a → Ensures C (f t a) Q) :
    Ensures C (nowSeconds >>= fun t => perform (o t) >>= f t) Q := by
  refine fun s t ht t' ht' => ?_
  obtain rfl : t' = t := ht'.2 t rfl
  exact ⟨ho _ _ ht.1, fun a ha => hf _ a ht.1 ha _⟩

/-- A rejection is thrown. -/
theorem attempt_ensures {x : M (Except JsError α)} {P : Except JsError α → Prop}
    (h : Ensures C x P) : Ensures C (attempt x) fun a => P (.ok a) :=
  andThen_ensures h fun _ hr => ofExcept_ensures fun _ ha => ha ▸ hr

/-- The same reliance, with nothing but the operations of `φ` issued. -/
def only (φ : Op → Prop) (C : Contract effects) : Contract effects :=
  { C with issue := fun _ _ o => φ o }

theorem only_routine {φ : Op → Prop} (hφ : ∀ o, o.routine = true → φ o) : Routine (only φ C) :=
  fun _ _ _ => hφ _

/-- Only operations of `φ` lie between two moments. -/
def Between (φ : Op → Prop) (s s' : Moment effects) : Prop :=
  ∃ es, s'.past = s.past ++ es ∧ ∀ e ∈ es, φ e.op

/-- A program that keeps to `φ` keeps every contract that lets `φ` through, and
adds nothing else to the past. -/
theorem sat_of_only_always {E : JsError → Prop} {φ : Op → Prop} (hφ : ∀ h t o, φ o → C.issue h t o) {p : M α}
    (h : Prog.Always (only φ C) E Q p) (s : Moment effects) :
    p.Sat C (fun s' e => E e ∧ Between φ s s') (fun s' a => Q a ∧ Between φ s s') s := by
  have between : ∀ s', (only φ C).Grown s s' → Between φ s s' := by
    intro s' hgrown
    obtain ⟨es, hpast, hes⟩ := hgrown
    refine ⟨es, hpast, fun e he => ?_⟩
    obtain ⟨pre, post, heq⟩ := List.append_of_mem he
    exact hes pre e post heq
  exact ((h s).grows.mono (fun s' _ he => ⟨he.1, between s' he.2⟩)
    fun s' _ ha => ⟨ha.1, between s' ha.2⟩).relax hφ

theorem sat_of_only {φ : Op → Prop} (hφ : ∀ h t o, φ o → C.issue h t o) {p : M α}
    (h : Ensures (only φ C) p Q) (s : Moment effects) :
    p.Sat C (fun s' _ => Between φ s s') (fun s' a => Q a ∧ Between φ s s') s :=
  (sat_of_only_always hφ h s).mono (fun _ _ he => he.2) fun _ _ ha => ha

/-- Two programs at once each do what they do alone, and throw what one of them throws. -/
theorem promiseAll_always {E : JsError → Prop} (hC : C.Forgetful) (hpick : ∀ h t, C.issue h t .pick) {p : M α}
    {q : M β} {P : α → Prop} {Q : β → Prop} (hp : Prog.Always C E P p) (hq : Prog.Always C E Q q) :
    Prog.Always C E (fun r => P r.1 ∧ Q r.2) (promiseAll p q) := by
  have hturn : Prog.Always C E (fun _ => True) (Sag.perform .pick) := fun _ t _ => ⟨hpick _ t, fun _ _ => trivial⟩
  have hboth := Prog.Always.both (P := fun r => (∀ a, r = .ok a → P a) ∧ ∀ e, r = .error e → E e)
    (Q := fun r => (∀ b, r = .ok b → Q b) ∧ ∀ e, r = .error e → E e) hC hturn
    (fun s => (hp s).mono (fun _ _ he => by simpa using he) fun _ _ ha => by simpa using ha)
    (fun s => (hq s).mono (fun _ _ he => by simpa using he) fun _ _ hb => by simpa using hb)
  refine andThen_always hboth fun r hr => ?_
  refine andThen_always (fun _ => Prog.sat_ofExcept.mpr hr.1) fun a ha => ?_
  exact andThen_always (fun _ => Prog.sat_ofExcept.mpr hr.2) fun b hb => fun _ => ⟨ha, hb⟩

theorem promiseAll_ensures {φ : Op → Prop} (hroutine : ∀ o, o.routine = true → φ o)
    (hC : ∀ h t o, φ o → C.issue h t o) {p : M α} {q : M β} {P : α → Prop} {Q : β → Prop}
    (hp : Ensures (only φ C) p P) (hq : Ensures (only φ C) q Q) :
    Ensures C (promiseAll p q) fun r => P r.1 ∧ Q r.2 :=
  fun s => (promiseAll_always (fun _ _ _ _ ho => ho) (fun _ _ => hroutine .pick rfl) hp hq s).relax hC

theorem sealToken_ensures (hC : Routine C) (x : Sealed) : Ensures C (sealToken x) fun y => y = x :=
  suspend_then_ensures hC (pure_ensures rfl)

theorem randomToken_ensures (hC : Routine C) (n : Nat) :
    Ensures C (randomToken n) fun s => ∃ bytes, s = b64u bytes :=
  andThen_ensures (perform_ensures hC rfl) fun bytes _ => pure_ensures ⟨bytes, rfl⟩

/-- Opening takes one call, and the expiry is judged at the instant after it. -/
theorem unsealToken_sat {purpose : Sealed → Option (α × Nat)} {v : Value}
    (hC : ∀ h t, C.issue h t .suspend) (s : Moment effects) :
    (unsealToken purpose v).Sat C
      (fun s' _ => v.opens.bind purpose = none ∨ ∃ payload exp now e,
        v.opens.bind purpose = some (payload, exp) ∧ s' = ⟨some now, s.past ++ [e]⟩ ∧ exp < now)
      (fun s' payload => ∃ exp now e,
        v.opens.bind purpose = some (payload, exp) ∧ s' = ⟨some now, s.past ++ [e]⟩ ∧ C.tick now ∧
          now ≤ exp) s := by
  unfold unsealToken
  split
  · next hopen => exact Or.inl hopen
  · next payload exp hopen =>
    refine fun t _ => ⟨hC _ _, fun _ _ now hnow => ?_⟩
    show Prog.Sat C _ _ _ (if exp < now then _ else _)
    split
    · next hexp => exact Or.inr ⟨payload, exp, now, _, hopen, rfl, hexp⟩
    · next hexp => exact ⟨exp, now, _, hopen, rfl, hnow.1, Nat.le_of_not_lt hexp⟩

/-- What opens was submitted, and had not expired at some instant of the run. -/
theorem unsealToken_ensures {purpose : Sealed → Option (α × Nat)} {v : Value} (hC : Routine C) :
    Ensures C (unsealToken purpose v) fun payload =>
      ∃ tok exp now, v.opens = some tok ∧ purpose tok = some (payload, exp) ∧ C.tick now ∧ now ≤ exp := by
  refine fun s => (unsealToken_sat (fun h t => hC h t _ rfl) s).mono (fun _ _ _ => trivial)
    fun s' payload hopen => ?_
  obtain ⟨exp, now, _, hopen, -, hnow, hexp⟩ := hopen
  obtain ⟨tok, htok, hpurpose⟩ := Option.bind_eq_some_iff.mp hopen
  exact ⟨tok, exp, now, htok, hpurpose, hnow, hexp⟩

/-- A caught `SealError` leads to the second program. -/
theorem catchSeal_ensures {x h : M α} (hx : Ensures C x Q) (hh : Ensures C h Q) :
    Ensures C (catchSeal x h) Q := by
  refine tryCatch_ensures hx fun e => ?_
  cases e with
  | sealError message => exact hh
  | _ => exact fail_ensures

end

end Sag
