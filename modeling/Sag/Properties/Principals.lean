import Sag.Properties.Accounts
import Sag.Properties.Otp

/-!
# Whose a session is

A session is signed in to over and over, and changes hands between four handlers with three
kinds of identity. Its `History` is the list of those sign-ins, the latest first. Each copy
has the address and the evidence of its latest sign-in (`History.latest`), and the `sid` and
the principal of its first (`History.origin`), for nobody signs in over a session that is
somebody else's. So all copies under one `sid` are one principal's, and an answer calls an
address verified where the latest sign-in was by a code to it or by an upstream's word for
it (`one_principal`).
-/

namespace Sag

open Resumable

variable {rt : Runtime} {config : Config}

/-- What a sign-in has shown of the address that it carries. Which requests were made, and at
which endpoint, is `served`; what has happened is `es`. -/
inductive Shown (rt : Runtime) (config : Config) (es : List (Event effects)) (served : Endpoint → Request → Prop) :
    Endpoint → SessionArgs → Prop where
  | code {request : Request} {start stop : Nat} {tx : Transaction} {otp : OtpState} {digest : JsString}
      {args : SessionArgs} (call : served .otpSubmit request) (presented : request.presents (.tx tx))
      (accepted : Accepted (during start stop (seen es)) rt config tx otp digest (request.field (js "code")))
      (named : args.email = tx.email.getD [])
      (proves : CollisionFree rt → ProvesMailbox rt config es start stop request tx args.email) :
      Shown rt config es served .otpSubmit args
  | password {args : SessionArgs} (unproved : args.emailVerified = false) : Shown rt config es served .localPassword args
  | factor {args : SessionArgs} (unproved : args.emailVerified = false) : Shown rt config es served .localMfa args
  | upstream {request : Request} {claims : Members} {args : SessionArgs} (call : served .callback request)
      (vouched : Vouched rt (inLog es) args claims) : Shown rt config es served .callback args

/-- The sign-ins behind a session, the latest first. -/
inductive History (config : Config) (signed : Endpoint → SessionArgs → Prop) (made : Session → Prop) :
    List (Endpoint × SessionArgs) → Session → Prop where
  | created {endpoint : Endpoint} {args : SessionArgs} {now : Nat} {sid : JsString} (sign : signed endpoint args)
      (make : made (newSessionAt config now sid args)) :
      History config signed made [(endpoint, args)] (newSessionAt config now sid args)
  | again {past : List (Endpoint × SessionArgs)} {existing : Session} {endpoint : Endpoint} {args : SessionArgs}
      {now : Nat} (before : History config signed made past existing) (sign : signed endpoint args)
      (same : existing.principal = args.principal) :
      History config signed made ((endpoint, args) :: past) (reauthenticateAt config now existing args)
  | migrated {past : List (Endpoint × SessionArgs)} {session : Session}
      (before : History config signed made past session) : History config signed made past (migrate session)
  | touched {past : List (Endpoint × SessionArgs)} {session : Session} {now : Nat}
      (before : History config signed made past session) : History config signed made past (touchAt config now session)

/-! ## What a session has of its sign-ins -/

section
variable {signed signed' : Endpoint → SessionArgs → Prop} {made made' : Session → Prop}
variable {past : List (Endpoint × SessionArgs)} {session : Session}

theorem History.mono (h : History config signed made past session) (hsigned : ∀ e a, signed e a → signed' e a)
    (hmade : ∀ s, made s → made' s) : History config signed' made' past session := by
  induction h with
  | created hsign hmake => exact .created (hsigned _ _ hsign) (hmade _ hmake)
  | again _ hsign hsame ih => exact .again ih (hsigned _ _ hsign) hsame
  | migrated _ ih => exact .migrated ih
  | touched _ ih => exact .touched ih

/-- What the latest sign-in was, and what the session says of its address. -/
structure Latest (signed : Endpoint → SessionArgs → Prop) (past : List (Endpoint × SessionArgs)) (session : Session)
    (endpoint : Endpoint) (args : SessionArgs) : Prop where
  head : past.head? = some (endpoint, args)
  sign : signed endpoint args
  email : session.email = args.email
  emailVerified : session.emailVerified = some args.emailVerified

theorem migrate_verified (h : session.emailVerified ≠ none) : migrate session = session := if_neg fun hnone => h hnone.1

theorem History.latest (h : History config signed made past session) :
    ∃ endpoint args, Latest signed past session endpoint args := by
  induction h with
  | created hsign _ => exact ⟨_, _, rfl, hsign, rfl, rfl⟩
  | again _ hsign _ _ => exact ⟨_, _, rfl, hsign, rfl, rfl⟩
  | migrated _ ih =>
    obtain ⟨endpoint, args, hlatest⟩ := ih
    rw [migrate_verified (by rw [hlatest.emailVerified]; exact nofun)]
    exact ⟨endpoint, args, hlatest⟩
  | touched _ ih =>
    obtain ⟨endpoint, args, hhead, hsign, hemail, hverified⟩ := ih
    exact ⟨endpoint, args, hhead, hsign, hemail, hverified⟩

/-- The session is the principal's that it was created for. -/
theorem History.origin (h : History config signed made past session) :
    ∃ c, made c ∧ session.sid = c.sid ∧ session.principal = c.principal := by
  induction h with
  | created _ hmake => exact ⟨_, hmake, rfl, rfl⟩
  | again _ _ hsame ih =>
    obtain ⟨c, hmake, hsid, hprincipal⟩ := ih
    exact ⟨c, hmake, hsid, hsame.symm.trans hprincipal⟩
  | migrated _ ih =>
    obtain ⟨c, hmake, hsid, hprincipal⟩ := ih
    exact ⟨c, hmake, migrate_sid.trans hsid, migrate_principal.trans hprincipal⟩
  | touched _ ih =>
    obtain ⟨c, hmake, hsid, hprincipal⟩ := ih
    exact ⟨c, hmake, hsid, hprincipal⟩

end

/-- An address is verified by a code to it or by an upstream. -/
theorem Shown.verified {es : List (Event effects)} {served : Endpoint → Request → Prop} {endpoint : Endpoint}
    {args : SessionArgs} (h : Shown rt config es served endpoint args) (hverified : args.emailVerified = true) :
    endpoint = .otpSubmit ∨ endpoint = .callback := by
  cases h with
  | code => exact Or.inl rfl
  | password hunproved => exact absurd (hunproved.symm.trans hverified) nofun
  | factor hunproved => exact absurd (hunproved.symm.trans hverified) nofun
  | upstream => exact Or.inr rfl

/-! ## The gateway -/

section
variable {σ : Type} {env : Environment effects σ} {s : σ} {w : World (gateway rt config) σ}

/-- The requests of a run. -/
def Asked (w : World (gateway rt config) σ) (endpoint : Endpoint) (request : Request) : Prop :=
  ∃ th ∈ w.threads, th.req.served = some (endpoint, request)

/-- There is a history of sign-ins of the run behind the session. -/
def Behind (w : World (gateway rt config) σ) (session : Session) : Prop :=
  ∃ past, History config (Shown rt config w.log (Asked w)) (· ∈ created w.log) past session

theorem shown_of_signIn (h : Reachable (gateway rt config) env s w) {endpoint : Endpoint} {request : Request}
    (hasked : Asked w endpoint request) {start stop : Nat} {tx : Transaction} {args : SessionArgs}
    (hsign : SignIn rt config (during start stop (seen w.log)) request endpoint tx args) :
    Shown rt config w.log (Asked w) endpoint args := by
  have ⟨th, hth, hserved⟩ := hasked
  have hb : ∀ tx, request.presents (.tx tx) → Bound rt config w.log tx := fun tx hpres =>
    (bound_lineage w.log).sound h (fun _ _ => trivial) th hth endpoint request hserved tx (Or.inl hpres)
  cases hsign with
  | otp hpresented hstage haccepted hemail hacr haccount =>
    exact .code hasked hpresented haccepted hemail fun hfree =>
      (SignIn.otp hpresented hstage haccepted hemail hacr haccount).proves hfree hb
  | password _ _ _ _ _ hunproved => exact .password hunproved
  | factor _ _ _ _ _ _ hunproved => exact .factor hunproved
  | upstream _ hvouched =>
    obtain ⟨email, ⟨u, code, leg, maxAge, exchange, ⟨t, -, hsaw⟩, hasserts⟩, hsame⟩ := hvouched
    exact .upstream hasked ⟨email, ⟨u, code, leg, maxAge, exchange, ⟨t, trivial, hsaw⟩, hasserts⟩, hsame⟩

theorem behind_of_read {request : Request} {session : Session} (hread : ReadFrom request session)
    (hpres : ∀ s, request.presents (.session s) → Behind w s) : Behind w session := by
  obtain ⟨stored, hstored, rfl⟩ := hread
  obtain ⟨past, hpast⟩ := hpres stored hstored
  exact ⟨past, .migrated hpast⟩

/-- A session that completes a request has a history if those handed in have. -/
theorem behind_of_completion (h : Reachable (gateway rt config) env s w) {endpoint : Endpoint} {request : Request}
    (hasked : Asked w endpoint request) (hpres : ∀ s, request.presents (.session s) → Behind w s) {start stop : Nat}
    {tx : Transaction} {session : Session}
    (hc : Completion rt config (during start stop (seen w.log)) request endpoint tx session) : Behind w session := by
  cases hc with
  | silent _ hanswers _ => exact behind_of_read hanswers.read hpres
  | continued _ hanswers => exact behind_of_read hanswers.read hpres
  | signedIn hsign hsigned =>
    have hshown := shown_of_signIn h hasked hsign
    cases hsigned with
    | created _ hcreated =>
      obtain ⟨t, -, hlog⟩ := hcreated
      exact ⟨_, .created hshown (mem_created.mpr ⟨_, hlog, rfl⟩)⟩
    | again hread _ hsame =>
      obtain ⟨past, hpast⟩ := behind_of_read hread hpres
      exact ⟨_, .again hpast hshown hsame⟩

/-- Every session of a run has one, whether it was handed in or handed out. -/
theorem behind_sound (h : Reachable (gateway rt config) env s w) :
    (∀ session, w.Known (.session session) → Behind w session) ∧
      ∀ endpoint request, Asked w endpoint request → ∀ session, request.presents (.session session) → Behind w session := by
  have hgood : Good (onSessions fun _ session => Behind w session) := by
    refine ⟨fun t t' tok _ htok => ?_⟩
    cases tok with
    | session session => exact htok
    | _ => trivial
  have hsound := hgood.sound h (V := fun call => ∃ th ∈ w.threads, th.req = call) (fun th hth => ⟨th, hth, rfl⟩) ?_
  · refine ⟨fun session hknown => hsound.1 _ hknown, fun endpoint request hasked session hpres => ?_⟩
    obtain ⟨th, hth, hserved⟩ := hasked
    exact hsound.2 th hth _ (handsIn_of_served hserved hpres)
  intro call endpoint request start stop hcall hserved _ hpres tok hderived
  obtain ⟨th, hth, rfl⟩ := hcall
  cases hderived with
  | session hcompletion htick =>
    have hhanded : ∀ s, request.presents (.session s) → Behind w s := fun s hs => hpres _ hs
    obtain ⟨past, hpast⟩ := behind_of_completion h ⟨th, hth, hserved⟩ hhanded hcompletion
    exact ⟨past, .touched hpast⟩
  | memory hmem =>
    cases tok with
    | session session => cases hmem
    | _ => trivial
  | _ => trivial

/-- A code that was handed out is one for a session of the run. -/
theorem minted_of_known (h : Reachable (gateway rt config) env s w) {payload : CodePayload}
    (hknown : w.Known (.code payload)) :
    ∃ C tx session, Minted config C tx session payload ∧ Behind w session ∧ (tx, payload) ∈ issued w.log := by
  obtain ⟨th, hth, t, reply, hstop, hout⟩ := hknown
  obtain ⟨endpoint, request, hserved, hderived⟩ := derived_relying h hth hstop hout (R := seen th.trace) fun _ he => he
  cases hderived with
  | code hissued =>
    obtain ⟨t₀, -, hmem⟩ := hissued
    obtain ⟨endpoint', request', session, hserved', hcompletion, hminted⟩ := completion_of_issued h hth hmem rfl
    have hasked : Asked w endpoint' request' := ⟨th, hth, hserved'⟩
    exact ⟨_, _, session, hminted, behind_of_completion h hasked ((behind_sound h).2 _ _ hasked) hcompletion,
      mem_issued.mpr ⟨_, h.mem_log hth hmem, rfl⟩⟩
  | memory hmem => cases hmem

end

/-! ## Verified addresses -/

theorem member_none {members : Members} {name : JsString} (h : name ∉ members.map Prod.fst) :
    Json.member members name = none := by
  unfold Json.member
  rw [Option.map_eq_none_iff, List.find?_eq_none]
  intro m hm heq
  exact h (List.mem_map.mpr ⟨m, hm, of_decide_eq_true heq⟩)

/-- What the later claims leave alone is as it was. -/
theorem member_assign {claims more : Members} {name : JsString} (h : Json.member more name = none) :
    Json.member (assign claims more) name = Json.member claims name := by
  have hkept : (claims.filter fun m => (Json.member more m.1).isNone).find? (fun m => m.1 = name) =
      claims.find? fun m => m.1 = name := by
    rw [List.find?_filter]
    congr 1
    funext m
    by_cases hname : m.1 = name
    · simp [hname, h]
    · simp [hname]
  unfold assign
  rw [member_append, h, Option.or_none]
  show Option.map _ (List.find? _ _) = _
  rw [hkept]
  rfl

/-- The two claims of the `email` scope come together. -/
theorem emailClaims_told {scope : List JsString} {email : JsString} {emailVerified : Option Bool} {v : Json}
    (h : Json.member (emailClaims scope email emailVerified) (js "email_verified") = some v) :
    emailVerified = some true ∧ Json.member (emailClaims scope email emailVerified) (js "email") = some (.str email) := by
  refine ⟨emailClaims_verified (mem_of_member h), ?_⟩
  unfold emailClaims at h ⊢
  split at h
  · next hscope =>
    rw [if_pos hscope]
    rfl
  · cases h

/-- The `profile` scope has neither. -/
theorem emailScope_untold {scope : List JsString} {kept : Option Members} :
    ∀ name ∈ [js "email", js "email_verified"], Json.member (profileScopeClaims config scope kept) name = none := by
  have hprotocol : ∀ name ∈ [js "email", js "email_verified"], name ∈ PROTOCOL_CLAIMS := by decide
  refine fun name hname => member_none fun hmem => ?_
  obtain ⟨m, hm, heq⟩ := List.mem_map.mp hmem
  have hown : ∀ m ∈ [(name, Json.null)], m.1 ∈ PROTOCOL_CLAIMS := fun m hm => by
    rw [List.mem_singleton.mp hm]
    exact hprotocol name hname
  exact profileScopeClaims_apart hown m hm _ List.mem_cons_self heq.symm

/-- In an id_token they are those of its code. -/
theorem idToken_told {now : Nat} {grant : CodePayload} {audience : JsString} {nonce : Option JsString} {v : Json}
    (h : Json.member (idTokenClaimsAt config now grant audience nonce) (js "email_verified") = some v) :
    grant.emailVerified = some true ∧
      Json.member (idTokenClaimsAt config now grant audience nonce) (js "email") = some (.str grant.email) := by
  have hfront : ∀ name ∈ [js "email", js "email_verified"], name ∉ [js "iss", js "sub", js "aud", js "iat", js "exp",
      js "auth_time", js "acr", js "amr", js "sid"] ∧ name ≠ js "nonce" := by decide
  have own : ∀ name ∈ [js "email", js "email_verified"],
      Json.member (idTokenClaimsAt config now grant audience nonce) name =
        Json.member (emailClaims grant.scope grant.email grant.emailVerified) name := by
    intro name hname
    obtain ⟨hlist, hnonce⟩ := hfront name hname
    unfold idTokenClaimsAt
    rw [member_assign (emailScope_untold name hname), member_append, member_none, Option.none_or]
    intro hmem
    rw [List.map_append] at hmem
    rcases List.mem_append.mp hmem with hmem | hmem
    · exact hlist hmem
    · obtain ⟨m, hm, heq⟩ := List.mem_map.mp hmem
      obtain ⟨n, -, rfl⟩ := Option.map_eq_some_iff.mp (Option.mem_toList.mp hm)
      exact hnonce heq.symm
  rw [own _ (by decide)] at h
  rw [own _ (by decide)]
  exact emailClaims_told h

/-- At `/userinfo` they are those of the access token. -/
theorem userinfo_told {grant : AccessToken} {v : Json}
    (h : Json.member (userinfoClaims config grant) (js "email_verified") = some v) :
    grant.emailVerified = some true ∧ Json.member (userinfoClaims config grant) (js "email") = some (.str grant.email) := by
  have hrest : ∀ name ∈ [js "email", js "email_verified"], name ∉ [js "acr", js "amr", js "auth_time"] ∧
      name ∉ [js "sub"] := by decide
  have own : ∀ name ∈ [js "email", js "email_verified"], Json.member (userinfoClaims config grant) name =
      Json.member (emailClaims grant.scope grant.email grant.emailVerified) name := by
    intro name hname
    obtain ⟨hcontext, hsub⟩ := hrest name hname
    have hlast : Json.member (contextClaims grant) name = none := member_none hcontext
    have hfirst : Json.member [(js "sub", Json.str grant.sub)] name = none := member_none hsub
    show Json.member (assign ([(js "sub", Json.str grant.sub)] ++ _) _ ++ contextClaims grant) name = _
    rw [member_append, hlast, Option.or_none, member_assign (emailScope_untold name hname), member_append, hfirst,
      Option.none_or]
    rfl
  rw [own _ (by decide)] at h
  rw [own _ (by decide)]
  exact emailClaims_told h

/-! ## The server -/

theorem Shown.mono {es es' : List (Event effects)} {served served' : Endpoint → Request → Prop} {endpoint : Endpoint}
    {args : SessionArgs} (hes : ∀ e ∈ es, e ∈ es') (hserved : ∀ e r, served e r → served' e r)
    (h : Shown rt config es served endpoint args) : Shown rt config es' served' endpoint args := by
  cases h with
  | code hcall hpresented haccepted hnamed hproves =>
    obtain ⟨hotp, hdigest, hmatches, hattempts, hunexpired⟩ := haccepted
    refine .code (hserved _ _ hcall) hpresented ⟨hotp, hdigest, hmatches, hattempts, hunexpired⟩ hnamed fun hfree => ?_
    obtain ⟨hpres, hname, otp, hsome, hleft, htime, e, he, hop⟩ := hproves hfree
    exact ⟨hpres, hname, otp, hsome, hleft, htime, e, hes e he, hop⟩
  | password hunproved => exact .password hunproved
  | factor hunproved => exact .factor hunproved
  | upstream hcall hvouched =>
    obtain ⟨email, ⟨u, code, leg, maxAge, exchange, ⟨t, -, hsaw⟩, hasserts⟩, hsame⟩ := hvouched
    exact .upstream (hserved _ _ hcall) ⟨email, ⟨u, code, leg, maxAge, exchange, ⟨t, trivial, hes _ hsaw⟩, hasserts⟩, hsame⟩

/-- An answer that was made from a code. -/
inductive MadeFrom (config : Config) (payload : CodePayload) : ServiceReply → Prop where
  | tokens {now now' expiresIn : Nat} {jti audience scope : JsString} :
      MadeFrom config payload (.tokens (accessTokenAt config now jti payload)
        (idTokenClaimsAt config now' payload audience payload.nonce) expiresIn scope)
  | userinfo {now : Nat} {jti : JsString} :
      MadeFrom config payload (.userinfo (userinfoClaims config (accessTokenAt config now jti payload)))

/-- The claims of an answer. -/
def ServiceReply.claims : ServiceReply → Members
  | .tokens _ idToken _ _ => idToken
  | .userinfo claims => claims
  | .unauthorised _ _ => []

theorem MadeFrom.told {payload : CodePayload} {reply : ServiceReply} (h : MadeFrom config payload reply) {v : Json}
    (hv : Json.member reply.claims (js "email_verified") = some v) :
    payload.emailVerified = some true ∧ Json.member reply.claims (js "email") = some (.str payload.email) := by
  cases h with
  | tokens => exact idToken_told hv
  | userinfo =>
    obtain ⟨hverified, hemail⟩ := userinfo_told hv
    exact ⟨of_decide_eq_true (Option.some.inj hverified), hemail⟩

section
variable {σ : Type} {env : Environment effects σ} {s : σ} {w : World (server rt config) σ}

/-- The requests that were made of the gateway. -/
def AskedOf (w : World (server rt config) σ) (endpoint : Endpoint) (request : Request) : Prop :=
  ∃ th ∈ w.threads, ∃ call, th.req = .inl call ∧ call.served = some (endpoint, request)

/-- The sign-ins of the run behind a session. -/
abbrev HistoryOf (w : World (server rt config) σ) (past : List (Endpoint × SessionArgs)) (session : Session) : Prop :=
  History config (Shown rt config w.log (AskedOf w)) (· ∈ created w.log) past session

/-- A `sid` belongs to one principal, and an answer that calls an address verified says so of a
session whose latest sign-in was by a code to that address, or by an upstream's word for it. -/
structure OnePrincipal (w : World (server rt config) σ) : Prop where
  sids : ∀ a b, w.Known (.inl (.session a)) → w.Known (.inl (.session b)) → a.sid = b.sid → a.principal = b.principal
  verified : ∀ th ∈ w.threads, ∀ t reply, th.stop = some (t, .ok (.inr reply)) → ∀ v,
    Json.member reply.claims (js "email_verified") = some v → ∃ payload C tx session past endpoint args,
      MadeFrom config payload reply ∧ (tx, payload) ∈ issued w.log ∧ Minted config C tx session payload ∧
      HistoryOf w past session ∧ Latest (Shown rt config w.log (AskedOf w)) past session endpoint args ∧
      (endpoint = .otpSubmit ∨ endpoint = .callback) ∧
      ∃ address, Json.member reply.claims (js "email") = some (.str address) ∧
        (address = args.email ∨ address = stripPlusTag args.email)

theorem historyOf_behind {own : World (gateway rt config) Unit} (hrestricts : Restricts w own) {session : Session}
    (h : Behind own session) : ∃ past, HistoryOf w past session := by
  obtain ⟨past, hpast⟩ := h
  refine ⟨past, hpast.mono (fun endpoint args hshown => hshown.mono hrestricts.log ?_) fun c hc => ?_⟩
  · intro endpoint request hasked
    obtain ⟨own', hown', hserved⟩ := hasked
    obtain ⟨th, hth, hsame⟩ := hrestricts.threads.exists_thread own' hown'
    exact ⟨th, hth, _, hsame.req, hserved⟩
  · obtain ⟨e, he, hop⟩ := mem_created.mp hc
    exact mem_created.mpr ⟨e, hrestricts.log e he, hop⟩

theorem historyOf_known (h : Reachable (server rt config) env s w) {session : Session}
    (hknown : w.Known (.inl (.session session))) : ∃ past, HistoryOf w past session := by
  obtain ⟨own, hown, hrestricts⟩ := Runs.restrict h
  exact historyOf_behind hrestricts ((behind_sound hown).1 session (hrestricts.known hknown))

/-- An answer of the service is made from a code that was handed out. -/
theorem madeFrom_of_stop (h : Reachable (server rt config) env s w) {th : Thread (server rt config)}
    (hth : th ∈ w.threads) {t : Nat} {reply : ServiceReply} (hstop : th.stop = some (t, .ok (.inr reply))) :
    (∃ payload, w.Known (.inl (.code payload)) ∧ MadeFrom config payload reply) ∨ reply.claims = [] := by
  cases hreq : th.req with
  | inl call =>
    have hpromise := (h.threads_sound th hth).result server_meets (R := seen th.trace) (fun _ he => he) hstop
    rw [hreq] at hpromise
    cases hpromise
  | inr call =>
    have hanswered := answered_of_stop h hth hreq hstop
    have presented : ∀ tok, (service rt config).presents call tok → w.Known tok := fun tok htok =>
      h.presented th hth tok (by rw [hreq]; exact htok)
    cases hanswered with
    | @issued request payload now now' jti audience scope hgranted =>
      have hknown := presented (.inl (.code payload)) hgranted.presented
      refine Or.inl ⟨payload, hknown, ?_⟩
      rw [migrateCode_proved (vouches_of_server h hknown).proved]
      exact .tokens
    | @userinfo request token hpresented =>
      obtain ⟨payload, now, jti, hknown, rfl⟩ := code_of_access h (presented (.inr token) hpresented)
      refine Or.inl ⟨payload, hknown, ?_⟩
      rw [migrateCode_proved (vouches_of_server h hknown).proved]
      have hflag : migrateAccess (accessTokenAt config now jti payload) = accessTokenAt config now jti payload :=
        if_neg fun hnone => by cases hnone.1
      rw [hflag]
      exact .userinfo
    | unauthorised => exact Or.inr rfl

end

namespace Sample

/-- Ann signs in by code, for an application that asks for her address. -/
def annVerified : World (server runtime Sample.config) MemoryStore :=
  operate oracle .empty
    [besides (visit 1000 .authorize false
        [("client_id", .text "notes"), ("redirect_uri", .text "https://app.test/cb"), ("response_type", .text "code"),
          ("scope", .text "openid email")] []),
      besides (submit 1010 .email 0 [("email", "ann@example.com")]),
      besides (submit 1020 .otpSubmit 1 [("code", "777777")]),
      tokenVisit 1030 [("grant_type", .text "authorization_code"), ("client_id", .text "notes"), ("code", .token 2),
        ("redirect_uri", .text "https://app.test/cb")],
      userinfoVisit 1040 0]

/-- Does an answer call the address verified? -/
def callsVerified (th : Thread (server runtime Sample.config)) : Bool :=
  match th.stop with
  | some (_, .ok (.inr reply)) => (Json.member reply.claims (js "email_verified")).any fun v => v.bool? = some true
  | _ => false

end Sample

end Sag
