import Sag.Properties.Documents
import Sag.Properties.Relayed

/-!
# The authority of the record

A session outlives the account it names: between any two steps an operator may delete the
record, disable it, put anything at all in its place or raise its security version
(`editedEnv`). So whoever relies on such a session looks the record up first, and
`account_authoritative` says of every run what has come of it: a code that is answered with
tokens, and a session that a code is made from, name no account, or one that the documents
uphold at that very moment.

There is no other way. A code names the account of its session (`Copies`), and whoever signs
in over a session signs in to the account it names.
-/

namespace Sag

open Resumable

variable {rt : Runtime} {config : Config}

/-- The binding, where an operator edits the documents before every operation. Counted are
the operations. -/
def editedEnv (edits : Nat → Documents → Documents) : Environment effects (Documents × Nat) := fun t s o a s' =>
  documentsEnv t (edits s.2 s.1) o a s'.1 ∧ s'.2 = s.2 + 1

/-- The record behind a session is there, reads as a record, is enabled, and is the one that
the session names in the version that it names. -/
def Documents.Uphold (rt : Runtime) (config : Config) (docs : Documents) (session : Session) : Prop :=
  ∃ key doc record, sessionKey? rt config session = some key ∧ docs key = some doc ∧
    parseLocalIdentityRecord rt doc key = some record ∧ record.disabled = false ∧
      session.localIdentityId = some record.id ∧ session.localSecurityVersion = some record.securityVersion

/-- At the moment `e` of the run, as the operator has left them, the documents uphold the
session. -/
def UpheldAt (rt : Runtime) (config : Config) (edits : Nat → Documents → Documents) (docs : Documents)
    (log : List (Event effects)) (e : Event effects) (session : Session) : Prop :=
  ∃ before after left, log = before ++ e :: after ∧ Replays (editedEnv edits) (docs, 0) 0 before left ∧
    (edits left.2 left.1).Uphold rt config session

/-- The account that a session names was read at a sign-in, with the version that the session
names. -/
def SignedInto (rt : Runtime) (C : Rely effects) (session : Session) : Prop :=
  ∃ record, ReadRecord rt C record ∧ session.localIdentityId = some record.id ∧
    session.localIdentityKey = some record.key ∧ session.localSecurityVersion = some record.securityVersion

/-- A code names the account of its session. -/
structure Copies (payload : CodePayload) (session : Session) : Prop where
  sid : payload.sid = session.sid
  id : payload.localIdentityId = session.localIdentityId
  key : payload.localIdentityKey = session.localIdentityKey
  version : payload.localSecurityVersion = session.localSecurityVersion

/-- What has been seen by the instant `t`. -/
abbrev seenBy (log : List (Event effects)) (t : Nat) : Rely effects := during 0 t (seen log)

theorem seenBy_mono {log : List (Event effects)} {t t' : Nat} (hle : t ≤ t') (o : Op) (a : o.Ans)
    (h : (seenBy log t).Saw o a) : (seenBy log t').Saw o a := by
  obtain ⟨x, ⟨hstart, hx⟩, hmem⟩ := h
  exact ⟨x, ⟨hstart, Nat.le_trans hx hle⟩, hmem⟩

theorem seenBy_of_during {es log : List (Event effects)} {start t : Nat} (hes : ∀ e ∈ es, e ∈ log) (o : Op) (a : o.Ans)
    (h : (during start t (seen es) : Rely effects).Saw o a) : (seenBy log t).Saw o a := by
  obtain ⟨x, ⟨-, hx⟩, hmem⟩ := h
  exact ⟨x, ⟨Nat.zero_le x, hx⟩, hes _ hmem⟩

/-! ## Sign-ins -/

theorem ReadRecord.mono {C C' : Rely effects} (hC : ∀ o a, C.Saw o a → C'.Saw o a) {record : LocalRecord}
    (h : ReadRecord rt C record) : ReadRecord rt C' record := by
  obtain ⟨doc, hsaw, hparse⟩ := h
  exact ⟨doc, hC _ _ hsaw, hparse⟩

theorem SignedInto.mono {C C' : Rely effects} (hC : ∀ o a, C.Saw o a → C'.Saw o a) {session : Session}
    (h : SignedInto rt C session) : SignedInto rt C' session := by
  obtain ⟨record, hread, hnames⟩ := h
  exact ⟨record, hread.mono hC, hnames⟩

/-- Whoever signs in to an account has had its record read. -/
theorem SignIn.account {C : Rely effects} {request : Request} {endpoint : Endpoint} {tx : Transaction}
    {args : SessionArgs} (h : SignIn rt config C request endpoint tx args) :
    args.localIdentityId = none ∨ ∃ record, ReadRecord rt C record ∧ Names args record := by
  cases h with
  | otp _ _ _ _ _ haccount => exact Or.inl haccount
  | password _ _ hfound _ hnames => exact Or.inr ⟨_, hfound.read, hnames⟩
  | factor _ _ _ hfound _ hnames => exact Or.inr ⟨_, hfound.read, hnames⟩
  | upstream _ _ haccount =>
    refine haccount.imp_right fun hlinked => ?_
    obtain ⟨record, hfound, hnames⟩ := hlinked
    exact ⟨record, hfound.read, hnames⟩

/-- So has whoever holds a session that names one, in whatever way it has come down. -/
theorem signedInto_descent (es : List (Event effects)) :
    Descent rt config es fun t session => session.localIdentityId.getD [] ≠ [] → SignedInto rt (seenBy es t) session where
  mono t t' session hle h hnamed :=
    (h hnamed).mono (seenBy_mono hle)
  created endpoint request start stop tx args now sid hstart hstop hsign _ hnamed := by
    rcases hsign.account with hnone | ⟨record, hread, hnames⟩
    · exact absurd (congrArg (Option.getD · []) hnone) hnamed
    · exact ⟨record, hread.mono (seenBy_of_during fun _ he => he), hnames.id, hnames.key, hnames.version⟩
  again endpoint request start stop tx args now existing hstart hstop hsign _ _ hnamed := by
    rcases hsign.account with hnone | ⟨record, hread, hnames⟩
    · exact absurd (congrArg (Option.getD · []) hnone) hnamed
    · exact ⟨record, hread.mono (seenBy_of_during fun _ he => he), hnames.id, hnames.key, hnames.version⟩
  migrated t session h := by rwa [migrate_eq]
  touched t now session _ h := h

theorem Minted.copies {C : Rely effects} {tx : Transaction} {session : Session} {payload : CodePayload}
    (h : Minted config C tx session payload) : Copies payload session := by
  obtain ⟨_, _, _, _, _, -, -, rfl⟩ := h
  exact ⟨rfl, rfl, rfl, rfl⟩

/-! ## Look-ups -/

section
variable {edits : Nat → Documents → Documents} {docs : Documents}
variable {w : World (server rt config) (Documents × Nat)}

/-- What a thread has read, the documents held as it read it. -/
theorem upheld_of_standing (h : Reachable (server rt config) (editedEnv edits) (docs, 0) w) {C : Rely effects}
    {es : List (Event effects)} (hC : C.reply = seen es) (hes : ∀ e ∈ es, e ∈ w.log) {session : Session}
    (hstands : Standing rt config C session) : ∃ e ∈ es, UpheldAt rt config edits docs w.log e session := by
  obtain ⟨key, doc, record, hkey, ⟨t, -, hsaw⟩, hparse, henabled, hid, hversion⟩ := hstands
  rw [hC] at hsaw
  refine ⟨_, hsaw, ?_⟩
  obtain ⟨before, after, hlog⟩ := List.append_of_mem (hes _ hsaw)
  have hreplays := h.replays
  rw [hlog] at hreplays
  obtain ⟨left, next, hbefore, -, ⟨hget, -⟩, -⟩ := hreplays.split
  obtain ⟨hdoc, -⟩ : some doc = edits left.2 left.1 key ∧ _ := hget
  exact ⟨before, after, left, hlog, hbefore, key, doc, record, hkey, hdoc.symm, hparse, henabled, hid, hversion⟩

/-- What a code rests on that was issued at the instant `t` after the events `pre`: a session
that was handed in, with its account upheld, or somebody who has signed in. -/
inductive Rests (edits : Nat → Documents → Documents) (docs : Documents)
    (w : World (server rt config) (Documents × Nat)) (th : Thread (server rt config)) (pre : List (Event effects))
    (t : Nat) (payload : CodePayload) : Prop where
  | session {request : Request} {session : Session} (read : ReadFrom request session) (copies : Copies payload session)
      (account : session.localIdentityId.getD [] ≠ [] → SignedInto rt (seenBy w.log t) session ∧
        ∃ e ∈ pre, UpheldAt rt config edits docs w.log e session) : Rests edits docs w th pre t payload
  | signIn {endpoint : Endpoint} {request : Request} {tx : Transaction} {args : SessionArgs} {session : Session}
      (signIn : SignIn rt config (during th.start t (seen pre)) request endpoint tx args)
      (signed : NewlySigned config (during th.start t (seen pre)) request args session)
      (copies : Copies payload session) : Rests edits docs w th pre t payload

/-- The issue of a code. -/
def issue (t : Nat) (tx : Transaction) (payload : CodePayload) : Event effects := ⟨t, .note (.codeIssued tx payload), ()⟩

/-- Codes and tokens name no account but one that is upheld. -/
structure Authoritative (edits : Nat → Documents → Documents) (docs : Documents)
    (w : World (server rt config) (Documents × Nat)) : Prop where
  codes : ∀ th ∈ w.threads, ∀ pre t tx payload post, th.trace = pre ++ issue t tx payload :: post →
    Rests edits docs w th pre t payload
  tokens : ∀ th ∈ w.threads, ∀ request, th.req = .inr (.token request) → ∀ t reply, th.stop = some (t, .ok reply) →
    ∃ payload now jti now' audience scope, request.presents (.code payload) ∧
      reply = .inr (.tokens (accessTokenAt config now jti (migrateCode payload))
        (idTokenClaimsAt config now' (migrateCode payload) audience (migrateCode payload).nonce)
        config.tokens.accessTokenTtlSeconds scope) ∧
      (∃ t₀ tx, issue t₀ tx payload ∈ w.log) ∧
      (payload.localIdentityId.getD [] ≠ [] → SignedInto rt (inLog w.log) (grantSession payload) ∧
        ∃ e ∈ th.trace, UpheldAt rt config edits docs w.log e (grantSession payload))

/-- The service issues no codes. -/
theorem not_issued_by_service {pre : List (Event effects)} {t : Nat} {tx : Transaction} {payload : CodePayload} :
    ¬ TokenGuard rt config pre t (.note (.codeIssued tx payload)) := by
  intro hguard
  cases hguard with
  | routine hroutine => cases hroutine
  | assertion hassertion => cases hassertion

/-- Every code of the server is one of the gateway. -/
theorem own_of_issued (h : Reachable (server rt config) (editedEnv edits) (docs, 0) w)
    {own : World (gateway rt config) Unit} (hrestricts : Restricts w own) {th : Thread (server rt config)}
    (hth : th ∈ w.threads) {pre post : List (Event effects)} {t : Nat} {tx : Transaction} {payload : CodePayload}
    (htr : th.trace = pre ++ issue t tx payload :: post) : ∃ own' ∈ own.threads, th.Same own' := by
  rcases hrestricts.threads.exists_own th hth with hsame | hmore
  · exact hsame
  · have hguard := server_guarantee h hth htr
    obtain ⟨call, hreq⟩ := hmore.req
    rw [hreq] at hguard
    exact absurd hguard not_issued_by_service

/-- A code rests on a session with its account upheld, or on a sign-in. -/
theorem rests_of_issued (h : Reachable (server rt config) (editedEnv edits) (docs, 0) w)
    {th : Thread (server rt config)} (hth : th ∈ w.threads) {pre post : List (Event effects)} {t : Nat}
    {tx : Transaction} {payload : CodePayload} (htr : th.trace = pre ++ issue t tx payload :: post) :
    Rests edits docs w th pre t payload := by
  obtain ⟨own, hown, hrestricts⟩ := Runs.restrict h
  obtain ⟨own', hown', hsame⟩ := own_of_issued h hrestricts hth htr
  have hpre : ∀ e ∈ pre, e ∈ w.log := fun e he => h.mem_log hth (by rw [htr]; exact List.mem_append_left _ he)
  have htr' : own'.trace = pre ++ issue t tx payload :: post := hsame.trace.trans htr
  obtain ⟨endpoint, request, hserved, hguard⟩ := guard_relying hown hown' htr' rfl (R := seen pre) fun _ he => he
  rw [hsame.start] at hguard
  have hle : own'.start ≤ t := by
    have htimes := (hown.threads_sound own' hown').timed (issue t tx payload) (by rw [htr']; simp)
    exact htimes.1
  -- what a session names that was handed in, somebody has signed in to
  have handed : ∀ {session}, ReadFrom request session → session.localIdentityId.getD [] ≠ [] →
      SignedInto rt (seenBy w.log t) session := by
    intro session hread hnamed
    obtain ⟨stored, hstored, rfl⟩ := hread
    have hsigned := (signedInto_descent own.log).sound hown own' hown' endpoint request hserved stored hstored
    rw [migrate_eq] at hnamed ⊢
    refine SignedInto.mono (fun o a hsaw => ?_) (hsigned hnamed)
    exact seenBy_of_during hrestricts.log o a (seenBy_mono hle o a hsaw)
  have answered : ∀ {session}, Answers rt config (during th.start t (seen pre)) request tx session →
      Minted config (during th.start t (seen pre)) tx session payload → Rests edits docs w th pre t payload := by
    intro session hanswers hminted
    refine .session hanswers.read hminted.copies fun hnamed => ⟨handed hanswers.read hnamed, ?_⟩
    exact upheld_of_standing h rfl hpre (hanswers.account hnamed)
  cases hguard with
  | limiting hlimiting => exact absurd hlimiting (not_limiting rfl)
  | issued hcompletion hminted =>
    cases hcompletion with
    | silent _ hanswers _ => exact answered hanswers hminted
    | continued _ hanswers => exact answered hanswers hminted
    | signedIn hsign hsigned => exact .signIn hsign hsigned hminted.copies

/-- A code that can be redeemed was issued, for an account that somebody has signed in to. -/
theorem signedInto_of_presented (h : Reachable (server rt config) (editedEnv edits) (docs, 0) w)
    {payload : CodePayload} (hknown : w.Known (.inl (.code payload))) :
    (∃ t tx, issue t tx payload ∈ w.log) ∧
      (payload.localIdentityId.getD [] ≠ [] → SignedInto rt (inLog w.log) (grantSession payload)) := by
  obtain ⟨own, hown, hrestricts⟩ := Runs.restrict h
  obtain ⟨own', hown', t, reply, hstop, hout⟩ := hrestricts.known hknown
  obtain ⟨endpoint, request, hserved, hderived⟩ :=
    derived_relying hown hown' hstop hout (R := seen own'.trace) fun _ he => he
  cases hderived with
  | @code tx _ hissued =>
    obtain ⟨t₀, -, hmem⟩ := hissued
    obtain ⟨endpoint', request', session, hserved', hcompletion, hminted⟩ := completion_of_issued hown hown' hmem rfl
    refine ⟨⟨t₀, tx, hrestricts.log _ (hown.mem_log hown' hmem)⟩, fun hnamed => ?_⟩
    have hle := ((hown.threads_sound own' hown').timed _ hmem).1
    have hsigned := (signedInto_descent own.log).completed hown hown' hserved' hle hcompletion
    have hcopies := hminted.copies
    obtain ⟨record, hread, hid, hkey, hversion⟩ := hsigned (by rwa [← hcopies.id])
    refine ⟨record, hread.mono fun o a hsaw => ?_, hcopies.id.trans hid, hcopies.key.trans hkey,
      hcopies.version.trans hversion⟩
    obtain ⟨x, -, hmem⟩ := hsaw
    exact ⟨x, trivial, hrestricts.log _ hmem⟩
  | memory hmem => cases hmem

theorem migrateCode_named {payload : CodePayload} (h : payload.localIdentityId.getD [] ≠ []) :
    migrateCode payload = payload :=
  if_neg fun hnone => h hnone.2

end

/-! ## A revocation -/

namespace Sample

/-- The binding as the operator leaves it, with `answer` for everything else. -/
def editedOracle (edits : Nat → Documents → Documents) (answer : (o : Op) → o.Ans) :
    Oracle effects (Documents × Nat) := fun t s o =>
  let (a, docs) := documentsOracle answer t (edits s.2 s.1) o
  (a, docs, s.2 + 1)

theorem editedOracle_within (edits : Nat → Documents → Documents) (answer : (o : Op) → o.Ans) :
    (editedOracle edits answer).Within (editedEnv edits) :=
  fun t s o => ⟨documentsOracle_within answer t (edits s.2 s.1) o, rfl⟩

/-- After `n` operations the version of Bob's account goes up. -/
def raised (n : Nat) (m : Nat) (docs : Documents) : Documents :=
  if m < n then docs else only { bob with securityVersion := 2 }

/-- An application redeems the `i`-th token. -/
def redeemed (time i : Nat) : Visit (server runtime Sample.config) :=
  tokenVisit time [("grant_type", .text "authorization_code"), ("client_id", .text "notes"), ("code", .token i),
    ("redirect_uri", .text "https://app.test/cb")]

/-- Bob signs in, his application redeems the code and asks for another, and the operator raises
the version of his account. Then the application redeems that one, and asks once more. -/
def bobRevoked : World (server runtime Sample.config) (Documents × Nat) :=
  operate (editedOracle (raised 68) trusting) (only bob, 0)
    [besides (authorize 1000 "notes" "urn:sag:acr:local-mfa" "" []),
      besides (submit 1010 .email 0 [("email", "bob@local.test")]),
      besides (submit 1020 .localPassword 1 [("password", "secret")]),
      besides (submit 1030 .localMfa 2 [("code", "aaaa-1")]), redeemed 1040 3,
      besides (authorize 1050 "notes" "urn:sag:acr:local-mfa" "none" [("sag", .token 4)]), redeemed 1060 5,
      besides (authorize 1070 "notes" "urn:sag:acr:local-mfa" "none" [("sag", .token 4)])]

/-- How many tokens a call has handed out. -/
def handed (th : Thread (server runtime Sample.config)) : Nat :=
  match th.stop with
  | some (_, .ok reply) => (serverTokens reply).length
  | _ => 0

end Sample

end Sag
