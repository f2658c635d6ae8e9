import Sag.Properties.Otp

/-!
# Demands on the age of an authentication

A request may force a fresh sign-in (`prompt=login`, `select_account`) or bound the
age of an old one (`max_age`).

The first is decided once, at `/authorize`, and not looked at again: a sign-in is
always younger than its transaction, but `/authorize/continue` answers any
transaction that is posted to it from any session that is fresh enough. So the
demand is met as long as nobody posts a forced transaction there
(`demands_met`), and `login_bypassed` is what happens otherwise. The second is
compared at the start of a request and holds at its end if the deadline does not
fall between the two.
-/

namespace Sag

open Resumable

variable {rt : Runtime} {config : Config} {σ : Type} {env : Environment effects σ} {s : σ}
variable {w : World (gateway rt config) σ}

/-- A call that does not continue a forced transaction from a session older than it
that would otherwise do. -/
def NoStaleContinue (call : Call) : Prop :=
  ∀ p ∈ call.served, p.1 = .continue → ∀ tx, p.2.presents (.tx tx) → tx.forced = true →
    ∀ stored, p.2.presents (.session stored) → satisfies stored.acr tx.acrValues = true →
      tx.iat ≤ stored.authTime

/-- No deadline of `max_age` passes while a code is being made: not that of a session
the request presents, nor that of a sign-in as old as the request. -/
def InTime (th : Thread (gateway rt config)) : Prop :=
  ∀ e ∈ th.trace, ∀ tx payload, e.op = .note (.codeIssued tx payload) → ∀ m, tx.maxAge = some m →
    e.time ≤ th.start + m ∧ ∀ p ∈ th.req.served, ∀ stored, p.2.presents (.session stored) →
      th.start ≤ stored.authTime + m → e.time ≤ stored.authTime + m

/-- A forced sign-in took place after the request for it. -/
def ForcedMet (e : Event effects) : Prop :=
  ∀ tx payload, e.op = .note (.codeIssued tx payload) → tx.forced = true → tx.iat ≤ payload.authTime

/-- An authentication was not too old when the code was issued. -/
def AgeMet (e : Event effects) : Prop :=
  ∀ tx payload, e.op = .note (.codeIssued tx payload) → ∀ m, tx.maxAge = some m → e.time ≤ payload.authTime + m

theorem Minted.authTime {C : Rely effects} {tx : Transaction} {session : Session} {payload : CodePayload}
    (h : Minted config C tx session payload) : payload.authTime = session.authTime := by
  obtain ⟨_, _, _, _, _, -, -, rfl⟩ := h
  rfl

/-- A sign-in happens now. -/
theorem NewlySigned.authTime {C : Rely effects} {request : Request} {args : SessionArgs} {session : Session}
    (h : NewlySigned config C request args session) : C.tick session.authTime := by
  cases h with
  | created htick hcreated => exact htick
  | again hread htick => exact htick

/-- A transaction is no younger than the present. -/
theorem iat_lineage (es : List (Event effects)) :
    Lineage rt config (fun _ => True) es fun t tx => tx.iat ≤ t where
  mono _ _ _ hle h := Nat.le_trans h hle
  started _ _ _ _ _ _ hstarted _ := by
    obtain ⟨client, req, now, id, -, htick, rfl⟩ := hstarted.exists_parsed
    exact htick.2
  edited _ _ _ _ _ _ _ _ _ hle h hedit := by
    rw [hedit.same.iat]
    exact Nat.le_trans h hle

theorem forcedMet_of_mem (h : Reachable (gateway rt config) env s w)
    (hcalls : ∀ th ∈ w.threads, NoStaleContinue th.req) {e : Event effects} (he : e ∈ w.log) : ForcedMet e := by
  intro tx payload hop hforced
  obtain ⟨th, hth, he⟩ := h.exists_thread he
  obtain ⟨endpoint, request, session, hserved, hcompletion, hminted⟩ := completion_of_issued h hth he hop
  have hpresented := (iat_lineage w.log).sound h (fun _ _ => trivial) th hth endpoint request hserved
  rw [hminted.authTime]
  cases hcompletion with
  | silent _ _ hunforced =>
    rw [hforced] at hunforced
    cases hunforced
  | continued hpres hanswers =>
    obtain ⟨stored, hstored, rfl⟩ := hanswers.read
    have hmeets := hanswers.meets
    rw [migrate_acr] at hmeets
    rw [migrate_authTime]
    exact hcalls th hth _ hserved rfl tx hpres hforced stored hstored hmeets
  | signedIn hsign hsigned =>
    refine Nat.le_trans ?_ hsigned.authTime.1
    cases hsign with
    | otp hpres => exact hpresented tx (Or.inl hpres)
    | password hpres => exact hpresented tx (Or.inl hpres)
    | factor hpres => exact hpresented tx (Or.inl hpres)
    | @upstream tx₀ _ _ hpres => exact hpresented tx₀ (Or.inr hpres)

theorem ageMet_of_mem (h : Reachable (gateway rt config) env s w) (htime : ∀ th ∈ w.threads, InTime th)
    {e : Event effects} (he : e ∈ w.log) : AgeMet e := by
  intro tx payload hop m hm
  obtain ⟨th, hth, he⟩ := h.exists_thread he
  obtain ⟨endpoint, request, session, hserved, hcompletion, hminted⟩ := completion_of_issued h hth he hop
  obtain ⟨hsign, hstored⟩ := htime th hth e he tx payload hop m hm
  -- a session that was fresh enough at some instant of the request is so at its end
  have answered : Answers rt config (during th.start e.time (seen w.log)) request tx session →
      e.time ≤ session.authTime + m := by
    intro hanswers
    obtain ⟨stored, hpres, rfl⟩ := hanswers.read
    obtain ⟨now, htick, hfresh⟩ := hanswers.fresh
    rw [hm] at hfresh
    have hnow := fresh_maxAge hfresh
    rw [migrate_authTime] at hnow ⊢
    exact hstored _ hserved stored hpres (Nat.le_trans htick.1 hnow)
  rw [hminted.authTime]
  cases hcompletion with
  | silent _ hanswers _ => exact answered hanswers
  | continued _ hanswers => exact answered hanswers
  | signedIn _ hsigned => exact Nat.le_trans hsign (Nat.add_le_add_right hsigned.authTime.1 m)

/-- Where no forced transaction is continued from an old session, every forced
sign-in is a sign-in; where no deadline passes while a code is made, no
authentication is too old for its code. -/
theorem demands_met (h : Reachable (gateway rt config) env s w) :
    ((∀ th ∈ w.threads, NoStaleContinue th.req) → ∀ e ∈ w.log, ForcedMet e) ∧
      ((∀ th ∈ w.threads, InTime th) → ∀ e ∈ w.log, AgeMet e) :=
  ⟨fun hcalls _ he => forcedMet_of_mem h hcalls he, fun htime _ he => ageMet_of_mem h htime he⟩

namespace Sample

/-- Ann signs in because she has to. -/
def loginForced : Server :=
  after [authorize 1000 "notes" "" "login" [], submit 1010 .email 0 [("email", "ann@example.com")],
    submit 1020 .otpSubmit 1 [("code", "777777")]]

/-- Ann signs in; a later request forces another sign-in, and is continued from the
session there is. -/
def loginBypassed : Server :=
  after [authorize 1000 "notes" "" "" [], submit 1010 .email 0 [("email", "ann@example.com")],
    submit 1020 .otpSubmit 1 [("code", "777777")],
    authorize 1100 "notes" "" "login" [("sag", .token 3)],
    visit 1110 .continue true [("tx", .token 4)] [("sag", .token 3)]]

end Sample

theorem ann_reauthenticated : (∃ p ∈ issued Sample.loginForced.log, p.1.forced = true) ∧
    (∀ e ∈ Sample.loginForced.log, ForcedMet e) ∧ ∀ e ∈ Sample.loginForced.log, AgeMet e := by
  have hrun : (∃ p ∈ issued Sample.loginForced.log, p.1.forced = true) ∧
      ∀ th ∈ Sample.loginForced.threads, th.req.served.map (·.1) ≠ some .continue ∧
        ∀ p ∈ issued th.trace, p.1.maxAge = none := by
    decide +kernel
  have hmet := demands_met (Sample.after_reachable Sample.oracle_within
    [Sample.authorize 1000 "notes" "" "login" [], Sample.submit 1010 .email 0 [("email", "ann@example.com")],
      Sample.submit 1020 .otpSubmit 1 [("code", "777777")]])
  refine ⟨hrun.1, hmet.1 fun th hth p hp hcontinue => ?_, hmet.2 fun th hth e he tx payload hop m hm => ?_⟩
  · have hne := (hrun.2 th hth).1
    rw [hp, Option.map_some, hcontinue] at hne
    exact absurd rfl hne
  · have hnone := (hrun.2 th hth).2 _ (mem_issued.mpr ⟨e, he, hop⟩)
    rw [hm] at hnone
    cases hnone

/-- An old session answers a transaction that forces a sign-in. -/
theorem login_bypassed : ∃ w : Sample.Server,
    Reachable (gateway Sample.runtime Sample.config) (memoryEnv 1000) .empty w ∧ ∃ e ∈ w.log, ¬ ForcedMet e := by
  refine ⟨Sample.loginBypassed, Sample.after_reachable Sample.oracle_within _, ?_⟩
  have hbypassed : ∃ p ∈ issued Sample.loginBypassed.log, p.1.forced = true ∧ p.2.authTime < p.1.iat := by
    decide +kernel
  obtain ⟨p, hp, hforced, hold⟩ := hbypassed
  obtain ⟨e, he, hop⟩ := mem_issued.mp hp
  exact ⟨e, he, fun hmet => absurd (hmet p.1 p.2 hop hforced) (by omega)⟩

end Sag
