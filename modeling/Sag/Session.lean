import Sag.Http

/-!
# The sign-in session

`session.js`. There is no session store: the session is a sealed cookie, and
only its revocation is kept on the server. Two lifetimes bound it, `exp` and
`abs`.

Whatever `newSession`, `reauthenticate` and `touch` do to a session, its `sid`
and `abs` are set once, when it is created (`reauthenticate_sid`, `touch_sid`
and their companions); a revocation by `sid` that lives until `abs` therefore
covers every copy.
-/

namespace Sag

open Resumable

variable (rt : Runtime) (config : Config)

/-- The cookie name for a given scope. An empty client id counts as none. -/
def cookieNameFor (clientId : Option JsString) : M JsString :=
  match clientId.filter (· ≠ []) with
  | none => pure config.session.cookieName
  | some id => do
    suspend
    let tag := ((b64u (rt.sha256 (js "cookie " ++ id))).take 12).filter fun u => u ≠ hyphen ∧ u ≠ 95
    pure (config.session.cookieName ++ js "_" ++ tag)

/-- Which client id scopes a session cookie, after client overrides. -/
def sessionClientFor (client : Option Client) : Option JsString :=
  match (client.bind (·.sessionScope)).getD config.session.scope with
  | .rp => client.map (·.clientId)
  | .shared => none

/-- What an authentication says about the person. -/
structure SessionArgs where
  email : JsString
  emailVerified : Bool
  acr : JsString
  amr : List JsString
  upstream : Option JsString
  upstreamLabel : Option JsString
  claims : Option Members
  localIdentityId : Option JsString
  localIdentityKey : Option JsString
  localSecurityVersion : Option Nat

/-- Whose a session is: a local account's, or whoever's the mailbox is. -/
inductive Principal where
  | account (id : JsString)
  | mailbox (email : JsString)
  deriving DecidableEq

def principalOf (localIdentityId : Option JsString) (email : JsString) : Principal :=
  match localIdentityId.filter (· ≠ []) with
  | some id => .account id
  | none => .mailbox email

/-- Without a local account it is the mailbox that counts. -/
theorem principalOf_mailbox {localIdentityId : Option JsString} {email : JsString}
    (h : localIdentityId.getD [] = []) : principalOf localIdentityId email = .mailbox email := by
  unfold principalOf
  split
  · next id hid =>
    obtain ⟨rfl, hne⟩ := Option.filter_eq_some_iff.mp hid
    have hnil : id = [] := h
    simp [hnil] at hne
  · rfl

theorem principalOf_account {id email : JsString} (h : id ≠ []) : principalOf (some id) email = .account id := by
  have hsome : (some id).filter (· ≠ []) = some id := by rw [Option.filter_some, if_pos (by simpa using h)]
  rw [principalOf, hsome]

def Session.principal (session : Session) : Principal := principalOf session.localIdentityId session.email

def SessionArgs.principal (args : SessionArgs) : Principal := principalOf args.localIdentityId args.email

def newSessionAt (now : Nat) (sid : JsString) (args : SessionArgs) : Session where
  sid
  email := args.email
  emailVerified := some args.emailVerified
  acr := args.acr
  amr := args.amr
  authTime := now
  upstream := args.upstream
  upstreamLabel := args.upstreamLabel
  claims := args.claims
  localIdentityId := args.localIdentityId
  localIdentityKey := args.localIdentityKey
  localSecurityVersion := args.localSecurityVersion
  iat := now
  exp := now + config.session.idleTtlSeconds
  abs := now + config.session.maxLifetimeSeconds

/-- Build a fresh session record. -/
def newSession (args : SessionArgs) : M Session := do
  let now ← nowSeconds
  let sid ← randomToken 16
  let session := newSessionAt config now sid args
  note (.sessionCreated session)
  pure session

/-- Re-authentication on top of an existing session. -/
def reauthenticateAt (now : Nat) (session : Session) (args : SessionArgs) : Session :=
  { session with
    email := args.email
    emailVerified := some args.emailVerified
    acr := args.acr
    amr := args.amr
    authTime := now
    upstream := args.upstream
    upstreamLabel := args.upstreamLabel
    claims := args.claims
    localIdentityId := args.localIdentityId
    localIdentityKey := args.localIdentityKey
    localSecurityVersion := args.localSecurityVersion
    exp := now + config.session.idleTtlSeconds }

def reauthenticate (session : Session) (args : SessionArgs) : M Session := do
  let now ← nowSeconds
  pure (reauthenticateAt config now session args)

def touchAt (now : Nat) (session : Session) : Session :=
  { session with exp := min (now + config.session.idleTtlSeconds) session.abs }

/-- Push the idle timeout forward, never past the absolute cap. -/
def touch (session : Session) : M Session := do
  let now ← nowSeconds
  pure (touchAt config now session)

def revocationKey (sid : JsString) : JsString := js "session-revoked:" ++ sid

/-- `stateStore && (await stateStore.has(…))`. -/
def isRevoked (sid : JsString) : M Bool :=
  if config.stateStore then attempt (perform (.store (.has (revocationKey sid)))) else pure false

/-- Sessions that pre-date local identities all proved their address. -/
def migrate (session : Session) : Session :=
  if session.emailVerified = none ∧ session.localIdentityId.getD [] = [] then
    { session with emailVerified := some true }
  else session

/-- Read one explicitly named cookie. -/
def readSessionByName (request : Request) (name : JsString) : M (Option Session) :=
  match (request.cookie name).filter (·.text ≠ []) with
  | none => pure none
  | some raw =>
    catchSeal
      (do
        let session ← unsealToken asSession raw
        let now ← nowSeconds
        if session.abs < now then pure none
        else if session.email = [] ∨ session.sid = [] then pure none
        else
          let revoked ← isRevoked config session.sid
          if revoked then pure none
          else
            note (.sessionAccepted session)
            pure (some (migrate session)))
      (pure none)

/-- Read and validate the session from a request. -/
def readSession (request : Request) (clientId : Option JsString) : M (Option Session) := do
  let name ← cookieNameFor rt config clientId
  readSessionByName config request name

/-- Revoke every copy of a session until its natural absolute expiry. -/
def revokeSession (session : Option Session) : M Unit :=
  match session with
  | none => pure ()
  | some session =>
    if !config.stateStore || session.sid = [] then pure ()
    else do
      let now ← nowSeconds
      if 0 < (session.abs : Int) - now then
        let _ ← attempt (perform (.store (.claim (revocationKey session.sid) ((session.abs : Int) - now))))
        pure ()
      else pure ()

/-- A `Set-Cookie` value for a session. -/
def sessionCookie (session : Session) (clientId : Option JsString) : M Cookie := do
  let name ← cookieNameFor rt config clientId
  let value ← sealToken (.session session)
  let now ← nowSeconds
  pure ⟨name, .token value (session.exp - now)⟩

def clearCookieByName (name : JsString) : Cookie := ⟨name, .cleared⟩

/-- Every session cookie the browser is currently holding for this instance. -/
def allSessionCookieNames (request : Request) : List JsString :=
  (request.cookies.map (·.1)).eraseDups.filter fun n =>
    n = config.session.cookieName || (config.session.cookieName ++ js "_").isPrefixOf n

/-- Is this session usable for a request with these constraints? -/
def freshAt (now : Nat) (session : Session) (maxAge : Option Nat) : Bool :=
  !(session.exp + config.tokens.clockSkewSeconds < now || session.abs < now ||
    maxAge.any (session.authTime + · < now))

def sessionIsFresh (session : Session) (maxAge : Option Nat) : M Bool := do
  let now ← nowSeconds
  pure (freshAt config now session maxAge)

/-! ## One identifier, one lifetime -/

variable {config} {now : Nat} {session : Session} {args : SessionArgs}

@[simp] theorem reauthenticate_sid : (reauthenticateAt config now session args).sid = session.sid := rfl
@[simp] theorem reauthenticate_abs : (reauthenticateAt config now session args).abs = session.abs := rfl
@[simp] theorem touch_sid : (touchAt config now session).sid = session.sid := rfl
@[simp] theorem touch_abs : (touchAt config now session).abs = session.abs := rfl
@[simp] theorem touch_acr : (touchAt config now session).acr = session.acr := rfl
@[simp] theorem touch_email : (touchAt config now session).email = session.email := rfl
@[simp] theorem touch_authTime : (touchAt config now session).authTime = session.authTime := rfl

/-- Migration touches nothing but the evidence flag. -/
theorem migrate_eq (session : Session) :
    migrate session = { session with emailVerified := (migrate session).emailVerified } := by
  unfold migrate
  split <;> rfl

@[simp] theorem migrate_sid : (migrate session).sid = session.sid := by rw [migrate_eq]
@[simp] theorem migrate_abs : (migrate session).abs = session.abs := by rw [migrate_eq]
@[simp] theorem migrate_acr : (migrate session).acr = session.acr := by rw [migrate_eq]
@[simp] theorem migrate_email : (migrate session).email = session.email := by rw [migrate_eq]
@[simp] theorem migrate_authTime : (migrate session).authTime = session.authTime := by
  rw [migrate_eq]
@[simp] theorem migrate_localIdentityKey : (migrate session).localIdentityKey = session.localIdentityKey := by
  rw [migrate_eq]
@[simp] theorem migrate_principal : (migrate session).principal = session.principal := by
  rw [migrate_eq]
  rfl

theorem fresh_maxAge {maxAge : Nat} (h : freshAt config now session (some maxAge) = true) :
    now ≤ session.authTime + maxAge := by
  simp only [freshAt, Option.any_some, Bool.not_eq_true', Bool.or_eq_false_iff,
    decide_eq_false_iff_not] at h
  omega

/-! ## What the functions do -/

variable {rt} {C : Contract effects} {request : Request}

theorem cookieNameFor_ensures (hC : Routine C) (clientId : Option JsString) :
    Ensures C (cookieNameFor rt config clientId) fun _ => True := by
  unfold cookieNameFor
  split
  · exact pure_ensures trivial
  · exact suspend_then_ensures hC (pure_ensures trivial)

/-- The store's answer that a session has not been revoked. -/
def notRevoked (sid : JsString) (t : Nat) : Event effects :=
  ⟨t, .store (.has (revocationKey sid)), (.ok false : Except JsError Bool)⟩

/-- The record of an acceptance. -/
def acceptance (stored : Session) (t : Nat) : Event effects := ⟨t, .note (.sessionAccepted stored), ()⟩

/-- Right before a session is accepted, a cookie of the request has opened to
it. It is judged within both its lifetimes, at the instant at which the store has
denied its revocation, or, where there is no store, at that of the acceptance. -/
structure Admissible (config : Config) (request : Request) (stored : Session)
    (h : List (Event effects)) (t : Nat) : Prop where
  presented : request.presents (.session stored)
  named : stored.sid ≠ []
  judged : ∃ t₀, t₀ ≤ stored.exp ∧ t₀ ≤ stored.abs ∧
    if config.stateStore then ∃ h₀, h = h₀ ++ [notRevoked stored.sid t₀] else t₀ = t

/-- The contract lets admissible sessions be accepted. -/
def Admits (C : Contract effects) (config : Config) (request : Request) : Prop :=
  ∀ stored h t, Admissible config request stored h t → C.issue h t (.note (.sessionAccepted stored))

/-- The session is the one a cookie of the request opens to. -/
def ReadFrom (request : Request) (session : Session) : Prop :=
  ∃ stored, request.presents (.session stored) ∧ session = migrate stored

/-- The question to the store is put at the instant last read. -/
theorem isRevoked_sat (hC : Routine C) (sid : JsString) {s : Moment effects} {t : Nat}
    (ht : s.now = some t) :
    (isRevoked config sid).Sat C (fun _ _ => True)
      (fun s' revoked => revoked = false →
        if config.stateStore then s'.past = s.past ++ [notRevoked sid t] else s' = s) s := by
  unfold isRevoked
  split
  · next hstore =>
    intro t' ht'
    obtain rfl : t' = t := ht'.2 t ht
    refine ⟨hC _ _ _ rfl, fun r _ => ?_⟩
    cases r with
    | error e => trivial
    | ok revoked =>
      rintro rfl
      rfl
  · exact fun _ => rfl

/-- An accepted session was admissible, and its acceptance is the last thing
recorded. -/
theorem readSessionByName_sat (hC : Routine C) (hA : Admits C config request) (name : JsString)
    (s : Moment effects) :
    (readSessionByName config request name).Sat C (fun _ _ => True)
      (fun s' r => ∀ session, r = some session → ∃ stored h t,
        s'.past = h ++ [acceptance stored t] ∧ Admissible config request stored h t ∧
          session = migrate stored) s := by
  unfold readSessionByName
  split
  · rintro session ⟨⟩
  · next raw hraw =>
    obtain ⟨hcookie, -⟩ := Option.filter_eq_some_iff.mp hraw
    refine Prog.sat_tryCatch.mpr (Prog.sat_bind.mpr ?_)
    refine (unsealToken_sat (fun h t => hC h t _ rfl) s).mono (fun s' e _ => ?_) ?_
    · cases e with
      | sealError message => rintro session ⟨⟩
      | _ => trivial
    rintro _ stored ⟨exp, now, e, hopen, rfl, -, hexp⟩ t ht
    obtain rfl : t = now := ht.2 now rfl
    obtain ⟨tok, htok, hpurpose⟩ := Option.bind_eq_some_iff.mp hopen
    obtain ⟨rfl, rfl⟩ : tok = .session stored ∧ exp = stored.exp := by
      cases tok <;> simp [asSession] at hpurpose
      exact ⟨by rw [hpurpose.1], by rw [← hpurpose.2, hpurpose.1]⟩
    have hpres : request.presents (.session stored) := ⟨raw, mem_of_cookie hcookie, htok⟩
    show Prog.Sat C _ _ _ (if stored.abs < t then _ else _)
    split
    · rintro session ⟨⟩
    · next habs =>
      split
      · rintro session ⟨⟩
      · next hnamed =>
        refine Prog.sat_bind.mpr ((isRevoked_sat hC stored.sid rfl).mono (fun s' e _ => ?_) ?_)
        · cases e with
          | sealError message => rintro session ⟨⟩
          | _ => trivial
        intro s' revoked hrevoked
        cases revoked with
        | true => rintro session ⟨⟩
        | false =>
          intro t' ht'
          have hadm : Admissible config request stored s'.past t' := by
            refine ⟨hpres, fun h => hnamed (Or.inr h), t, hexp, by omega, ?_⟩
            have hrevoked := hrevoked rfl
            split at hrevoked
            · next hstore =>
              rw [if_pos hstore]
              exact ⟨_, hrevoked⟩
            · next hstore =>
              rw [if_neg hstore]
              rw [hrevoked] at ht'
              exact (ht'.2 t rfl).symm
          refine ⟨hA _ _ _ hadm, fun _ _ => ?_⟩
          rintro session ⟨⟩
          exact ⟨stored, s'.past, t', rfl, hadm, rfl⟩

theorem readSessionByName_ensures (hC : Routine C) (hA : Admits C config request) (name : JsString) :
    Ensures C (readSessionByName config request name) fun r =>
      ∀ session, r = some session → ReadFrom request session := by
  refine fun s => (readSessionByName_sat hC hA name s).mono (fun _ _ he => he) fun s' r hr session hs => ?_
  obtain ⟨stored, _, _, -, hadm, heq⟩ := hr session hs
  exact ⟨stored, hadm.presented, heq⟩

theorem readSession_ensures (hC : Routine C) (hA : Admits C config request) (clientId : Option JsString) :
    Ensures C (readSession rt config request clientId) fun r =>
      ∀ session, r = some session → ReadFrom request session :=
  andThen_ensures (cookieNameFor_ensures hC clientId) fun name _ => readSessionByName_ensures hC hA name

theorem newSession_ensures (hC : Routine C) {args : SessionArgs}
    (hissue : ∀ now sid, C.tick now → ∀ h t,
      C.issue h t (.note (.sessionCreated (newSessionAt config now sid args)))) :
    Ensures C (newSession config args) fun session =>
      ∃ now sid, C.tick now ∧ session = newSessionAt config now sid args ∧
        C.Saw (.note (.sessionCreated session)) () := by
  refine now_then_ensures fun now hnow => andThen_ensures (randomToken_ensures hC 16) fun sid _ => ?_
  refine andThen_ensures (note_ensures fun h t _ => hissue now sid hnow h t) fun _ hnote => ?_
  exact pure_ensures ⟨now, sid, hnow, rfl, hnote⟩

theorem reauthenticate_ensures (session : Session) (args : SessionArgs) :
    Ensures C (reauthenticate config session args) fun s =>
      ∃ now, C.tick now ∧ s = reauthenticateAt config now session args :=
  now_then_ensures fun now hnow => pure_ensures ⟨now, hnow, rfl⟩

theorem touch_ensures (session : Session) :
    Ensures C (touch config session) fun s => ∃ now, C.tick now ∧ s = touchAt config now session :=
  now_then_ensures fun now hnow => pure_ensures ⟨now, hnow, rfl⟩

theorem sessionIsFresh_ensures (session : Session) (maxAge : Option Nat) :
    Ensures C (sessionIsFresh config session maxAge) fun fresh =>
      ∃ now, C.tick now ∧ fresh = freshAt config now session maxAge :=
  now_then_ensures fun now hnow => pure_ensures ⟨now, hnow, rfl⟩

theorem sessionCookie_ensures (hC : Routine C) (session : Session) (clientId : Option JsString) :
    Ensures C (sessionCookie rt config session clientId) fun cookie =>
      cookie.tokens = [.session session] := by
  refine andThen_ensures (cookieNameFor_ensures hC clientId) fun name _ => ?_
  refine andThen_ensures (sealToken_ensures hC _) fun value hvalue => now_then_ensures fun now _ => ?_
  exact pure_ensures (by rw [hvalue]; rfl)

end Sag
