import Sag.Identity
import Sag.Http

/-!
# Rate limits

`store/limits.js`. The limit on sends fails open, the limit on local
credentials fails closed; both key their counters by the mailbox behind the
address, so case and plus tags make no difference (`addressKey_congr`).
-/

namespace Sag

open Resumable

variable (rt : Runtime) (config : Config)

def DAY : Nat := 86400

inductive LimitReason where
  | window
  | daily
  | store
  | limit
  deriving DecidableEq, Repr

structure Limit where
  allowed : Bool
  enforced : Bool
  reason : Option LimitReason
  retryAfterSeconds : Option Nat
  deriving DecidableEq

/-- The mailbox that an address counts against. -/
def mailboxOf (email : JsString) : JsString := stripPlusTag (rt.cases.toLowerCase email)

/-- The key of a mailbox. -/
def addressTag (email : JsString) : JsString :=
  (b64u (rt.hmac (rt.derive config.secret (js "rate-limit") 32) (mailboxOf rt email))).take 22

/-- A stable, non-reversible key for an address. -/
def addressKey (email : JsString) : M JsString := do
  suspend
  suspend
  pure (addressTag rt config email)

def privateTag (purpose value : JsString) : M JsString := do
  suspend
  suspend
  pure ((b64u (rt.hmac (rt.derive config.secret (js "rate-limit/" ++ purpose) 32) value)).take 22)

def sendKey (tag : JsString) (bucket : Nat) : JsString :=
  js "otp-send:" ++ tag ++ js ":" ++ decimal bucket

def dayKey (tag : JsString) (bucket : Nat) : JsString :=
  js "otp-day:" ++ tag ++ js ":" ++ decimal bucket

def increment (key : JsString) (ttlSeconds : Nat) (failClosed : Bool) : M Nat :=
  attempt (perform (.store (.increment key ttlSeconds failClosed)))

/-- The daily half of the send limit. -/
def checkDaily (tag : JsString) (now : Nat) : M Limit := do
  if config.otp.sendDailyLimit = 0 then pure ⟨true, true, none, none⟩
  else
    let bucket := now / DAY
    let used ← increment (dayKey tag bucket) DAY false
    if config.otp.sendDailyLimit < used then
      pure ⟨false, true, some .daily, some ((bucket + 1) * DAY - now)⟩
    else pure ⟨true, true, none, none⟩

/-- `sendWindowSeconds > 0 && sendBurst > 0`. -/
def windowed : Bool := 0 < config.otp.sendWindowSeconds && 0 < config.otp.sendBurst

/-- May a code be sent to this address now? -/
def checkOtpSendAllowed (email : JsString) : M Limit := do
  if !config.stateStore || (!windowed config && config.otp.sendDailyLimit = 0) then
    pure ⟨true, false, none, none⟩
  else
    let tag ← addressKey rt config email
    let now ← nowSeconds
    Prog.tryCatch
      (if windowed config then do
        let window := config.otp.sendWindowSeconds
        let bucket := now / window
        let used ← increment (sendKey tag bucket) window false
        if config.otp.sendBurst < used then
          pure ⟨false, true, some .window, some ((bucket + 1) * window - now)⟩
        else checkDaily config tag now
      else checkDaily config tag now)
      fun _ => pure ⟨true, false, none, none⟩

/-- The credential an attempt is counted for. -/
inductive Factor where
  | password
  | mfa
  deriving DecidableEq, Repr

def Factor.text : Factor → JsString
  | .password => js "password"
  | .mfa => js "mfa"

def networkKey (factor : Factor) (tag : JsString) (bucket : Nat) : JsString :=
  js "local-" ++ factor.text ++ js ":network:" ++ tag ++ js ":" ++ decimal bucket

def attemptKey (factor : Factor) (tag : JsString) (bucket : Nat) : JsString :=
  js "local-" ++ factor.text ++ js ":address:" ++ tag ++ js ":" ++ decimal bucket

/-- Does the source network still have attempts left? -/
def networkAllowed (clientIp : Option JsString) (factor : Factor) (bucket : Nat) : M Bool :=
  match clientIp.filter (· ≠ []) with
  | none => pure true
  | some network =>
    if config.localIdentities.networkMaxAttempts = 0 then pure true
    else do
      let tag ← privateTag rt config (js "network") network
      let used ← increment (networkKey factor tag bucket)
        config.localIdentities.attemptWindowSeconds true
      pure (used ≤ config.localIdentities.networkMaxAttempts)

/-- Count local credential attempts by address and, when the adapter supplies
it, by network address. -/
def checkLocalAuthAllowed (request : Request) (email : JsString) (factor : Factor) : M Limit := do
  if !config.stateStore then pure ⟨false, false, some .store, none⟩
  else
    let window := config.localIdentities.attemptWindowSeconds
    let now ← nowSeconds
    let bucket := now / window
    Prog.tryCatch
      (do
        let inside ← networkAllowed rt config request.clientIp factor bucket
        if !inside then pure ⟨false, true, some .limit, none⟩
        else
          let address ← addressKey rt config email
          let used ← increment (attemptKey factor address bucket) window true
          let allowed : Bool := used ≤ config.localIdentities.maxAttempts
          pure ⟨allowed, true, if allowed then none else some .limit, none⟩)
      fun _ => pure ⟨false, false, some .store, none⟩

/-! ## The mailbox behind an address -/

variable {rt config}

/-- Spellings of one mailbox share one counter. -/
theorem addressTag_congr {email email' : JsString} (h : mailboxOf rt email = mailboxOf rt email') :
    addressTag rt config email = addressTag rt config email' := by
  rw [addressTag, addressTag, h]

/-! ## What the checks do -/

variable {C : Contract effects} {request : Request}

theorem addressKey_ensures (hC : Routine C) (email : JsString) :
    Ensures C (addressKey rt config email) fun tag => tag = addressTag rt config email :=
  suspend_then_ensures hC (suspend_then_ensures hC (pure_ensures rfl))

theorem privateTag_ensures (hC : Routine C) (purpose value : JsString) :
    Ensures C (privateTag rt config purpose value) fun _ => True :=
  suspend_then_ensures hC (suspend_then_ensures hC (pure_ensures trivial))

/-- The counters that the instant `now` counts in: one of the four kinds, in the
bucket of `now`, for as long as a bucket lasts. -/
inductive Counts (config : Config) (now : Nat) : StoreOp → Prop where
  | send (tag : JsString) : Counts config now
      (.increment (sendKey tag (now / config.otp.sendWindowSeconds)) config.otp.sendWindowSeconds false)
  | day (tag : JsString) : Counts config now (.increment (dayKey tag (now / DAY)) DAY false)
  | network (factor : Factor) (tag : JsString) : Counts config now
      (.increment (networkKey factor tag (now / config.localIdentities.attemptWindowSeconds))
        config.localIdentities.attemptWindowSeconds true)
  | attempt (factor : Factor) (tag : JsString) : Counts config now
      (.increment (attemptKey factor tag (now / config.localIdentities.attemptWindowSeconds))
        config.localIdentities.attemptWindowSeconds true)

/-- What a rate limit issues. -/
def Limiting (C : Rely effects) (config : Config) (o : Op) : Prop :=
  o.routine = true ∨ ∃ now op, C.tick now ∧ Counts config now op ∧ o = .store op

/-- A contract that lets the rate limits do their work. -/
def Limits (C : Contract effects) (config : Config) : Prop := ∀ h t o, Limiting C config o → C.issue h t o

theorem Limits.routine (hL : Limits C config) : Routine C := fun h t _ ho => hL h t _ (.inl ho)

theorem only_limits : Limits (only (Limiting C config) C) config := fun _ _ _ ho => ho

theorem not_isSend_of_limiting {o : Op} (h : Limiting C config o) : o.isSend = false := by
  rcases h with h | ⟨_, _, -, -, rfl⟩
  · exact not_isSend_of_routine h
  · rfl

theorem increment_ensures (hL : Limits C config) {now : Nat} (hnow : C.tick now) {key : JsString}
    {ttl : Nat} {failClosed : Bool} (hcounts : Counts config now (.increment key ttl failClosed)) :
    Ensures C (increment key ttl failClosed) fun used =>
      C.Saw (.store (.increment key ttl failClosed)) (.ok used) :=
  attempt_ensures (issue_ensures fun _ _ _ => hL _ _ _ (.inr ⟨now, _, hnow, hcounts, rfl⟩))

theorem checkDaily_ensures (hL : Limits C config) (tag : JsString) {now : Nat} (hnow : C.tick now) :
    Ensures C (checkDaily config tag now) fun _ => True := by
  unfold checkDaily
  split
  · exact pure_ensures trivial
  · refine andThen_ensures (increment_ensures hL hnow (.day tag)) fun used _ => ?_
    split <;> exact pure_ensures trivial

/-- The increment that counts a send against `email` in the window of `t`. -/
def sendCount (rt : Runtime) (config : Config) (email : JsString) (t : Nat) : StoreOp :=
  .increment (sendKey (addressTag rt config email) (t / config.otp.sendWindowSeconds))
    config.otp.sendWindowSeconds false

/-- A send to `email` has been counted, within the burst if the store answered
at all, and nothing has been sent since. -/
def Charged (rt : Runtime) (config : Config) (email : JsString) (h : List (Event effects)) : Prop :=
  config.stateStore = true → windowed config = true → ∃ h₀ t r mid,
    h = h₀ ++ ⟨t, .store (sendCount rt config email t), r⟩ :: mid ∧
      (∀ used, r = .ok used → used ≤ config.otp.sendBurst) ∧ ∀ e ∈ mid, e.op.isSend = false

/-- Nothing that is not a send undoes the count. -/
theorem Charged.append {email : JsString} {h es : List (Event effects)}
    (hc : Charged rt config email h) (hes : ∀ e ∈ es, e.op.isSend = false) :
    Charged rt config email (h ++ es) := by
  intro hstore hwindow
  obtain ⟨h₀, t, r, mid, rfl, hr, hmid⟩ := hc hstore hwindow
  refine ⟨h₀, t, r, mid ++ es, by simp, hr, fun e he => ?_⟩
  rcases List.mem_append.mp he with he | he
  · exact hmid e he
  · exact hes e he

/-- An allowed send has been counted, in the window of the instant of counting. -/
theorem checkOtpSendAllowed_sat (hL : Limits C config) (email : JsString) (s : Moment effects) :
    (checkOtpSendAllowed rt config email).Sat C (fun _ _ => True)
      (fun s' limit => limit.allowed = true → Charged rt config email s'.past) s := by
  unfold checkOtpSendAllowed
  split
  · next hoff =>
    intro _ hstore hwindow
    simp [hstore, hwindow] at hoff
  · refine Prog.sat_bind.mpr ((addressKey_ensures hL.routine email s).mono (fun _ _ _ => trivial) ?_)
    rintro s tag rfl t ht
    refine Prog.sat_tryCatch.mpr ?_
    split
    · intro t' ht'
      obtain rfl : t' = t := ht'.2 t rfl
      refine ⟨hL _ _ _ (.inr ⟨t', _, ht.1, .send _, rfl⟩), fun r _ => ?_⟩
      cases r with
      | error e => exact fun _ _ _ => ⟨_, t', _, [], rfl, by rintro used ⟨⟩, by simp⟩
      | ok used =>
        refine Prog.sat_bind.mpr ?_
        show Prog.Sat C _ _ _ (if config.otp.sendBurst < used then _ else _)
        split
        · rintro ⟨⟩
        · next hused =>
          have hcharged : ∀ s', Between (Limiting C config) ⟨none, s.past ++
              [⟨t', .store (sendCount rt config email t'), (.ok used : Except JsError Nat)⟩]⟩ s' →
              Charged rt config email s'.past := by
            rintro s' ⟨es, hpast, hes⟩ _ _
            refine ⟨s.past, t', .ok used, es, by simp [hpast], ?_, fun e he => not_isSend_of_limiting (hes e he)⟩
            rintro _ ⟨⟩
            omega
          exact (sat_of_only hL (checkDaily_ensures only_limits _ ht.1) _).mono
            (fun s' _ hq _ => hcharged s' hq) fun s' _ hq _ => hcharged s' hq.2
    · next hwindow =>
      exact (checkDaily_ensures hL _ ht.1 _).mono (fun _ _ _ _ _ h => absurd h hwindow)
        fun _ _ _ _ _ h => absurd h hwindow

theorem networkAllowed_ensures (hL : Limits C config) (clientIp : Option JsString) (factor : Factor)
    {now : Nat} (hnow : C.tick now) :
    Ensures C (networkAllowed rt config clientIp factor (now / config.localIdentities.attemptWindowSeconds))
      fun _ => True := by
  unfold networkAllowed
  split
  · exact pure_ensures trivial
  · split
    · exact pure_ensures trivial
    · refine andThen_ensures (privateTag_ensures hL.routine _ _) fun tag _ => ?_
      exact andThen_ensures (increment_ensures hL hnow (.network factor tag)) fun used _ => pure_ensures trivial

/-- An attempt on `email` was counted in the window of `now`, within the maximum. -/
def AllowedAttempt (C : Rely effects) (rt : Runtime) (config : Config) (email : JsString)
    (factor : Factor) : Prop :=
  ∃ now used, C.tick now ∧
    C.Saw (.store (.increment
      (attemptKey factor (addressTag rt config email) (now / config.localIdentities.attemptWindowSeconds))
      config.localIdentities.attemptWindowSeconds true)) (.ok used) ∧
    used ≤ config.localIdentities.maxAttempts

theorem checkLocalAuthAllowed_ensures (hL : Limits C config) (email : JsString) (factor : Factor) :
    Ensures C (checkLocalAuthAllowed rt config request email factor) fun limit =>
      limit.allowed = true → AllowedAttempt C rt config email factor := by
  unfold checkLocalAuthAllowed
  split
  · exact pure_ensures (by rintro ⟨⟩)
  · refine now_then_ensures fun now hnow => tryCatch_ensures ?_ fun _ => pure_ensures (by rintro ⟨⟩)
    refine andThen_ensures (networkAllowed_ensures hL _ _ hnow) fun inside _ => ?_
    split
    · exact pure_ensures (by rintro ⟨⟩)
    · refine andThen_ensures (addressKey_ensures hL.routine email) fun tag htag => ?_
      refine andThen_ensures (increment_ensures hL hnow (.attempt factor tag)) fun used hused =>
        pure_ensures fun hallowed => ?_
      rw [htag] at hused
      exact ⟨now, used, hnow, hused, by simpa using hallowed⟩

end Sag
