import Sag.Browser
import Sag.Properties.Assertions
import Sag.Store.Objects

/-!
# Does a claim of an object outlive what it guards?

The callers compare whole seconds and include the last one; an object counts milliseconds and
may be emptied at the first of them that its deadline names. So a claim outlives what it guards
exactly where its deadline lies beyond the last whole second (`Covers`), and where the lifetime
decides it lies before the end of that second unless the claim has taken a second to arrive
(`covers_session`). The counters are not concerned: a window ends with its second.
-/

namespace Sag

variable {rt : Runtime} {config : Config}

/-- The last millisecond that a `Date` can name. -/
def lastMillisecond : Nat := 8640000000000000

/-- What a claim guards: its key, the lifetime that is asked for at a second, the seconds at
which it still passes, and the last of them. -/
structure Claimable where
  key : JsString
  ttl : Nat → Rat
  passes : Nat → Prop
  last : Int

/-- A client assertion, which passes `validateClaims`. -/
def guardedAssertion (rt : Runtime) (config : Config) (clientId : JsString) (payload : Json) (claims : AssertionClaims) :
    Claimable where
  key := assertionKey rt clientId claims.jti
  ttl now := assertionTtl claims.exp config.tokens.clockSkewSeconds now
  passes now := validateClaims rt payload clientId config.issuer config.tokens.clockSkewSeconds now = none
  last := ⌊Binary64.round (claims.exp + config.tokens.clockSkewSeconds)⌋

/-- A session, which passes the check of `abs`. -/
def guardedSession (session : Session) : Claimable where
  key := revocationKey session.sid
  ttl now := ((session.abs : Int) - now : Int)
  passes now := ¬ session.abs < now
  last := session.abs

/-- What is claimed at a second: an assertion that has passed, a session that is revoked with
time left. -/
inductive ClaimedAt (rt : Runtime) (config : Config) : Claimable → Nat → Prop where
  | assertion {clientId : JsString} {payload : Json} {claims : AssertionClaims} {before now : Nat}
      (checked : assertionClaims clientId payload = .ok claims)
      (passed : (guardedAssertion rt config clientId payload claims).passes before) (h : before ≤ now) :
      ClaimedAt rt config (guardedAssertion rt config clientId payload claims) now
  | session {session : Session} {now : Nat} (left : 0 < (session.abs : Int) - now) :
      ClaimedAt rt config (guardedSession session) now

/-- The deadline of a claim lies beyond the second `last`. -/
def Covers (last : Int) (now : Nat) (ttlSeconds : Rat) : Prop :=
  1000 * ((last : Rat) + 1) < StateGuard.deadline now ttlSeconds + 1

/-! ## The last second -/

theorem isAhead_later {time : Option Rat} {skew now later : Nat} (h : now ≤ later)
    (hnow : isAhead time skew now = false) : isAhead time skew later = false := by
  cases time with
  | none => rfl
  | some x =>
    simp only [isAhead, Option.any_some, decide_eq_false_iff_not, not_lt] at hnow ⊢
    exact hnow.trans (by exact_mod_cast h)

/-- Once a token has passed, only its expiry stops it. -/
theorem timeError_later {payload : Json} {skew now later : Nat} {exp : Rat}
    (hexp : finite? (payload.get (js "exp")) = some exp) (h : now ≤ later) (hnow : timeError payload skew now = none) :
    timeError payload skew later = none ↔ lastsUntil exp skew later = true := by
  unfold timeError at hnow ⊢
  rw [hexp] at hnow ⊢
  split at hnow
  · cases hnow
  · split at hnow
    · cases hnow
    · next hnbf =>
      split at hnow
      · cases hnow
      · next hstarted =>
        split at hnow
        · cases hnow
        · next hiat =>
          split at hnow
          · cases hnow
          · next hissued =>
            rw [if_neg hnbf, if_neg hiat, isAhead_later h (Bool.not_eq_true _ ▸ hstarted),
              isAhead_later h (Bool.not_eq_true _ ▸ hissued)]
            show (if (!lastsUntil exp skew later) = true then some (js "token expired") else none) = none ↔ _
            cases lastsUntil exp skew later with
            | false => exact ⟨nofun, nofun⟩
            | true => exact ⟨fun _ => rfl, fun _ => rfl⟩

/-- The checks that are not of the times do not depend on the clock. -/
theorem validateClaims_later {payload : Json} {issuer audience : JsString} {skew now later : Nat}
    (hnow : validateClaims rt payload issuer audience skew now = none) :
    validateClaims rt payload issuer audience skew later = timeError payload skew later := by
  unfold validateClaims at hnow ⊢
  split at hnow
  · cases hnow
  · next hnull =>
    split at hnow
    · cases hnow
    · next hissuer =>
      split at hnow
      · cases hnow
      · next haudience =>
        rw [if_neg hnull, if_neg hissuer]

theorem lastsUntil_iff {exp : Rat} {skew now : Nat} :
    lastsUntil exp skew now = true ↔ (now : Int) ≤ ⌊Binary64.round (exp + skew)⌋ := by
  rw [Int.le_floor, lastsUntil, Bool.not_eq_true', decide_eq_false_iff_not, not_lt]
  exact Iff.of_eq (by push_cast; rfl)

/-- From the claim on, what is guarded passes up to its last second. -/
theorem ClaimedAt.passes_iff {g : Claimable} {now later : Nat} (h : ClaimedAt rt config g now) (hlater : now ≤ later) :
    g.passes later ↔ (later : Int) ≤ g.last := by
  cases h with
  | @assertion clientId payload claims before _ checked passed hbefore =>
    have hexp := (assertionClaims_payload checked).2.2
    have hnow := timely_of_validateClaims passed
    show validateClaims _ _ _ _ _ _ = none ↔ _
    rw [validateClaims_later passed, timeError_later hexp (hbefore.trans hlater) hnow]
    exact lastsUntil_iff
  | session left =>
    show ¬ _ ↔ _
    simp only [guardedSession]
    omega

/-! ## The deadline -/

theorem ttl_le (ttlSeconds : Rat) : 60 ≤ StateGuard.ttl ttlSeconds ∧ StateGuard.ttl ttlSeconds ≤ 366 * 86400 := by
  unfold StateGuard.ttl
  refine ⟨le_min (le_max_right _ _) ?_, min_le_right _ _⟩
  norm_num

/-- No deadline is set before the lifetime ends. -/
theorem le_deadline {now seconds : Nat} {ttlSeconds : Rat} (hnow : now ≤ lastMillisecond)
    (h : (seconds : Rat) ≤ StateGuard.ttl ttlSeconds) :
    ((now + 1000 * seconds : Nat) : Rat) ≤ StateGuard.deadline now ttlSeconds := by
  unfold lastMillisecond at hnow
  have hseconds : seconds ≤ 366 * 86400 := by
    have hle := h.trans (ttl_le ttlSeconds).2
    exact_mod_cast hle
  have hproduct : (((1000 * seconds : Nat) : Int) : Rat) ≤ Binary64.round (StateGuard.ttl ttlSeconds * 1000) := by
    refine Binary64.le_round ?_ ?_
    · rw [Int.cast_natCast, Nat.abs_cast]
      exact_mod_cast (show 1000 * seconds < 2 ^ 53 by omega)
    · push_cast
      linarith
  have hsum : (((now + 1000 * seconds : Nat) : Int) : Rat) ≤ StateGuard.deadline now ttlSeconds := by
    refine Binary64.le_round ?_ ?_
    · rw [Int.cast_natCast, Nat.abs_cast]
      exact_mod_cast (show now + 1000 * seconds < 2 ^ 53 by omega)
    · push_cast at hproduct ⊢
      linarith
  rwa [Int.cast_natCast] at hsum

/-- A lifetime of whole seconds. -/
theorem deadline_whole {now seconds : Nat} {ttlSeconds : Rat} (hnow : now ≤ lastMillisecond)
    (h : StateGuard.ttl ttlSeconds = seconds) :
    StateGuard.deadline now ttlSeconds = ((now + 1000 * seconds : Nat) : Rat) := by
  unfold lastMillisecond at hnow
  have hseconds : seconds ≤ 366 * 86400 := by
    have hle := (ttl_le ttlSeconds).2
    rw [h] at hle
    exact_mod_cast hle
  have whole : ∀ n : Nat, n < 2 ^ 53 → Binary64.round n = n := by
    intro n hn
    have hround := Binary64.round_intCast (n := (n : Int)) (by
      rw [Int.cast_natCast, Nat.abs_cast]
      exact_mod_cast hn)
    rwa [Int.cast_natCast] at hround
  have hproduct : StateGuard.ttl ttlSeconds * 1000 = ((1000 * seconds : Nat) : Rat) := by
    rw [h]
    push_cast
    ring
  have hsum : (now : Rat) + ((1000 * seconds : Nat) : Rat) = ((now + 1000 * seconds : Nat) : Rat) := by
    push_cast
    ring
  rw [StateGuard.deadline, hproduct, whole _ (by omega), hsum, whole _ (by omega)]

/-- The revocation of a session is covered where less than a minute is left, or where the claim
has arrived in a later second than it was asked for. -/
theorem covers_session {abs now asked : Nat} (hnow : now ≤ lastMillisecond) (hasked : 1000 * asked ≤ now)
    (hleft : asked < abs) (hlife : abs ≤ asked + 366 * 86400) :
    Covers abs now ((abs : Int) - asked : Int) ↔ abs < asked + 60 ∨ 1000 * (asked + 1) ≤ now := by
  obtain ⟨left, rfl⟩ := Nat.exists_eq_add_of_lt hleft
  have hsub : (((asked + left + 1 : Nat) : Int) - asked : Int) = (left + 1 : Nat) := by omega
  have httl : StateGuard.ttl (((left + 1 : Nat) : Int) : Rat) = (max (left + 1) 60 : Nat) := by
    have hne : ¬ (((left + 1 : Nat) : Int) : Rat) = 0 := by
      exact_mod_cast Nat.succ_ne_zero left
    have hle : ((max (left + 1) 60 : Nat) : Rat) ≤ 366 * 86400 := by
      exact_mod_cast (show max (left + 1) 60 ≤ 366 * 86400 by omega)
    rw [StateGuard.ttl, if_neg hne, Int.cast_natCast]
    push_cast at hle ⊢
    exact min_eq_left hle
  unfold Covers
  rw [hsub, deadline_whole hnow httl]
  have hwhole : 1000 * ((((asked + left + 1 : Nat) : Int) : Rat) + 1) < ((now + 1000 * max (left + 1) 60 : Nat) : Rat) + 1 ↔
      1000 * (asked + left + 1 + 1) < now + 1000 * max (left + 1) 60 + 1 := by
    exact_mod_cast Iff.rfl
  rw [hwhole]
  omega

/-! ## Runs -/

/-- What holds of the store of Durable Objects. -/
structure Durable (rt : Runtime) (config : Config) : Prop where
  /-- What has been claimed is refused as long as it passes, whatever happens, exactly where its
  deadline covers it. -/
  outlives {w : Objects} {g : Claimable} {asked : Nat} (hclock : 0 < w.clock) (hdate : w.clock ≤ lastMillisecond)
    (hclaimed : ClaimedAt rt config g asked) (hasked : 1000 * asked ≤ w.clock)
    (hfree : (w.objects g.key).isClaimed = false) :
    (∀ events w', (w.call g.key .claim (g.ttl asked)).1.Run rt events w' → g.passes (w'.clock / 1000) →
      w'.Refuses g.key) ↔ Covers g.last w.clock (g.ttl asked)
  /-- A counter of a window goes on until the window ends, and its deadline does not move. -/
  counts {w : Objects} {key : JsString} {window asked : Nat} (hdate : w.clock ≤ lastMillisecond) (hkey : CounterKey key)
    (hwindow : 0 < window) (hday : window ≤ DAY) (hasked : 1000 * asked ≤ w.clock) (hfree : (w.objects key).count = 0)
    {events : List ObjectEvent} {w' : Objects} (hrun : (w.call key .increment window).1.Run rt events w')
    (hwithin : w'.clock / 1000 / window = asked / window) :
    (w'.objects key).count = 1 + increments key events ∧
      (w'.objects key).alarm = some (StateGuard.deadline w.clock window)

theorem Objects.Run.clock_le {w w' : Objects} {events : List ObjectEvent} (h : w.Run rt events w') :
    w.clock ≤ w'.clock := by
  induction h with
  | refl => exact Nat.le_refl _
  | snoc _ hstep ih => exact ih.trans (hstep.change []).1

theorem durable (rt : Runtime) (config : Config) : Durable rt config where
  outlives := by
    intro w g asked hclock hdate hclaimed hasked hfree
    have hkey : ClaimKey rt g.key := by
      cases hclaimed with
      | assertion => exact .assertion _ _
      | session => exact .revocation _
    have hfetch : (w.objects g.key).fetch w.clock .claim (g.ttl asked) =
        ({ w.objects g.key with
            claimed := some w.clock
            alarm := some (StateGuard.deadline w.clock (g.ttl asked)) }, .fresh true) := by
      rw [StateGuard.fetch, hfree]
      rfl
    have hafter : (w.call g.key .claim (g.ttl asked)).1.objects g.key =
        { w.objects g.key with
          claimed := some w.clock
          alarm := some (StateGuard.deadline w.clock (g.ttl asked)) } := by
      rw [Objects.call, Objects.put_self, hfetch]
    constructor
    · intro hheld
      by_contra hshort
      unfold Covers at hshort
      rw [not_lt] at hshort
      -- the alarm goes off in the last millisecond that is guarded
      have hnow : ((w.clock + 1000 * 0 : Nat) : Rat) ≤ StateGuard.deadline w.clock (g.ttl asked) := by
        refine le_deadline hdate ?_
        rw [Nat.cast_zero]
        exact le_trans (by norm_num) (ttl_le _).1
      have hend : (w.clock : Int) ≤ 1000 * (g.last + 1) - 1 := by
        have hsum : ((w.clock : Int) : Rat) ≤ ((1000 * (g.last + 1) - 1 : Int) : Rat) := by
          push_cast at hnow ⊢
          linarith
        exact_mod_cast hsum
      obtain ⟨last, hlast⟩ : ∃ last : Nat, (last : Int) = 1000 * (g.last + 1) - 1 :=
        ⟨(1000 * (g.last + 1) - 1).toNat, Int.toNat_of_nonneg (by omega)⟩
      have hdue : StateGuard.deadline w.clock (g.ttl asked) ≤ last := by
        have hcast : ((last : Int) : Rat) = ((1000 * (g.last + 1) - 1 : Int) : Rat) := congrArg _ hlast
        push_cast at hcast
        linarith
      have hwait : (w.call g.key .claim (g.ttl asked)).1.Step rt (.wait last)
          { (w.call g.key .claim (g.ttl asked)).1 with clock := last } := .wait (by
        show w.clock ≤ last
        omega)
      have halarm : Objects.Step rt { (w.call g.key .claim (g.ttl asked)).1 with clock := last } (.alarm g.key)
          (Objects.put { (w.call g.key .claim (g.ttl asked)).1 with clock := last } g.key .empty) :=
        .alarm (congrArg StateGuard.alarm hafter) hdue
      have hrefuses := hheld _ _ ((Objects.Run.refl.snoc hwait).snoc halarm)
        ((hclaimed.passes_iff (show asked ≤ last / 1000 by omega)).mpr (show ((last / 1000 : Nat) : Int) ≤ g.last by omega))
      rw [Objects.refuses_iff, Objects.put_self] at hrefuses
      cases hrefuses
    · intro hcovers events w' hrun hpasses
      rw [Objects.refuses_iff]
      have hlater : asked ≤ w'.clock / 1000 := by
        have hle : w.clock ≤ w'.clock := hrun.clock_le
        omega
      have hlast := (hclaimed.passes_iff hlater).mp hpasses
      have hmarked : StateGuard.isClaimed
          { w.objects g.key with
            claimed := some w.clock
            alarm := some (StateGuard.deadline w.clock (g.ttl asked)) } = true := by
        simpa [StateGuard.isClaimed] using Nat.ne_of_gt hclock
      rcases hrun.claimed hkey hmarked rfl hafter with hkept | hover
      · rw [hkept]
        exact hmarked
      · exfalso
        unfold Covers at hcovers
        have hend : (w'.clock : Rat) + 1 ≤ 1000 * ((g.last : Rat) + 1) := by
          have hwhole : (w'.clock : Int) + 1 ≤ 1000 * (g.last + 1) := by omega
          exact_mod_cast hwhole
        linarith
  counts := by
    intro w key window asked hdate hkey hwindow hday hasked hfree events w' hrun hwithin
    have hafter : (w.call key .increment window).1.objects key =
        { w.objects key with count := 1, alarm := some (StateGuard.deadline w.clock window) } := by
      rw [Objects.call, Objects.put_self, StateGuard.fetch]
      dsimp only
      rw [if_pos hfree, hfree]
    rcases hrun.counted hkey Nat.one_pos rfl hafter with hkept | hover
    · rw [hkept]
      exact ⟨rfl, rfl⟩
    · exfalso
      have httl : ((window : Nat) : Rat) ≤ StateGuard.ttl window := by
        unfold DAY at hday
        have hne : ¬ (window : Rat) = 0 := by exact_mod_cast Nat.ne_of_gt hwindow
        rw [StateGuard.ttl, if_neg hne]
        refine le_min (le_max_left _ _) ?_
        exact_mod_cast (show window ≤ 366 * 86400 by omega)
      have hlow := (le_deadline hdate httl).trans hover
      have hlow : w.clock + 1000 * window ≤ w'.clock := by exact_mod_cast hlow
      have hnext : asked / window + 1 ≤ w'.clock / 1000 / window := by
        rw [Nat.le_div_iff_mul_le hwindow, Nat.le_div_iff_mul_le (by omega), Nat.add_mul]
        have hmul := Nat.div_mul_le_self asked window
        omega
      omega

namespace Sample

/-- A session that may last until the second 1100. -/
def lasting : Session where
  sid := js "BwcHBwcHBwcHBwcHBwcHBw"
  email := js "ann@example.com"
  emailVerified := some true
  acr := Acr.otp
  amr := []
  authTime := 500
  upstream := none
  upstreamLabel := none
  claims := none
  localIdentityId := none
  localIdentityKey := none
  localSecurityVersion := none
  iat := 500
  exp := 1100
  abs := 1100

/-- The objects before any request, at the beginning of the second 1000. -/
def unused : Objects := ⟨fun _ => .empty, 1000000⟩

end Sample

/-- A session that is signed out with a hundred seconds left is accepted again in the last of
them, while the memory store still refuses it. -/
theorem revoked_session_returns :
    ClaimedAt Sample.runtime Sample.config (guardedSession Sample.lasting) 1000 ∧
    (∃ w', (Sample.unused.call (guardedSession Sample.lasting).key .claim
          ((guardedSession Sample.lasting).ttl 1000)).1.Run Sample.runtime
          [.wait 1100999, .alarm (guardedSession Sample.lasting).key] w' ∧
      (guardedSession Sample.lasting).passes (w'.clock / 1000) ∧ ¬ w'.Refuses (guardedSession Sample.lasting).key) ∧
    ((MemoryStore.empty.claim 100 1000 (revocationKey Sample.lasting.sid) 100).2.has 1100
      (revocationKey Sample.lasting.sid)).1 = .ok true := by
  have hdate : Sample.unused.clock ≤ lastMillisecond := by decide
  have httl : StateGuard.ttl ((guardedSession Sample.lasting).ttl 1000) = (100 : Nat) := by
    show StateGuard.ttl (((1100 : Int) - 1000 : Int) : Rat) = _
    rw [StateGuard.ttl]
    norm_num
  have hdeadline := deadline_whole hdate httl
  refine ⟨.session (by decide), ⟨Objects.put { (Sample.unused.call (guardedSession Sample.lasting).key .claim
    ((guardedSession Sample.lasting).ttl 1000)).1 with clock := 1100999 } (guardedSession Sample.lasting).key .empty,
    ?_, ?_, ?_⟩, ?_⟩
  · refine (Objects.Run.refl.snoc (.wait (t := 1100999) ?_)).snoc (.alarm rfl ?_)
    · decide
    · show StateGuard.deadline Sample.unused.clock _ ≤ _
      rw [hdeadline]
      exact_mod_cast (show 1000000 + 1000 * 100 ≤ 1100999 by decide)
  · show ¬ 1100 < 1100999 / 1000
    decide
  · rw [Objects.refuses_iff, Objects.put_self]
    exact Bool.false_ne_true
  · decide +kernel

end Sag
