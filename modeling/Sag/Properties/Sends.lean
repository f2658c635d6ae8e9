import Sag.Properties.Envelope

/-!
# The limit on sends over any interval

`checkOtpSendAllowed` by itself, called any number of times, with any store that keeps
count. A send is counted in a fixed window, the one that holds the instant of its count, so
what is bounded is what falls into one window; an interval is bounded by the windows that
it meets (`sends_by_windows`). One of the length of a window meets two at most, wherever it
starts, and then the bound is twice the burst. `Sample.bunched` is a run that gets there.
-/

namespace Sag

open Resumable

variable {rt : Runtime} {config : Config} {σ : Type} {env : Environment effects σ} {s : σ}

/-- Sends that are asked for, and nothing else. -/
@[reducible] def sendChecks (rt : Runtime) (config : Config) : System effects where
  Req := JsString
  Out := Limit
  Tok := Empty
  prog := checkOtpSendAllowed rt config
  presents _ _ := False
  releases _ _ := False

variable {w : World (sendChecks rt config) σ}

/-- A send to the mailbox that was asked for at `a` or later, and allowed before `b`. -/
def allowedBetween (mailbox : JsString) (a b : Nat) (th : Thread (sendChecks rt config)) : Bool :=
  mailboxOf rt th.req = mailbox && a ≤ th.start &&
    match th.stop with
    | some (t, .ok limit) => limit.allowed && t < b
    | _ => false

def sendsAllowed (mailbox : JsString) (a b : Nat) (w : World (sendChecks rt config) σ) : Nat :=
  w.threads.countP (allowedBetween mailbox a b)

/-- The limit on sends holds. -/
structure SendsBounded (w : World (sendChecks rt config) σ) : Prop where
  /-- In one window no more than the burst is allowed to one mailbox, -/
  window : ∀ mailbox bucket, sendsAllowed mailbox (bucket * config.otp.sendWindowSeconds)
    ((bucket + 1) * config.otp.sendWindowSeconds) w ≤ config.otp.sendBurst
  /-- and in an interval as long as a window no more than twice the burst. -/
  interval : ∀ mailbox a, sendsAllowed mailbox a (a + config.otp.sendWindowSeconds) w ≤ 2 * config.otp.sendBurst

/-! ## What one check does -/

/-- A check only counts. -/
theorem sendChecks_meets : (sendChecks rt config).Meets (fun _ C _ _ o => Limiting C config o) fun _ _ _ => True :=
  fun email C => (checkOtpSendAllowed_sat (C := ⟨C, fun _ _ o => Limiting C config o⟩) (fun _ _ _ ho => ho)
    email _).mono (fun _ _ _ => trivial) fun _ _ _ => trivial

/-- A check that allowed a send has counted it. -/
theorem charged_of_allowed (h : Reachable (sendChecks rt config) env s w) {th : Thread (sendChecks rt config)}
    (hth : th ∈ w.threads) {t : Nat} {limit : Limit} (hstop : th.stop = some (t, .ok limit))
    (hallowed : limit.allowed = true) : Charged rt config th.req th.trace := by
  have hsound := h.threads_sound th hth
  obtain ⟨hle, -, htimes, -⟩ := hsound.ended t _ hstop
  let C : Rely effects := during th.start t fun _ _ _ => True
  have hsat : ((sendChecks rt config).prog th.req).Sat ⟨C, fun _ _ o => Limiting C config o⟩
      (C.Ends fun _ _ _ => True)
      (C.Ends fun _ past (limit : Limit) => limit.allowed = true → Charged rt config th.req past) ⟨none, []⟩ :=
    (checkOtpSendAllowed_sat (fun _ _ _ ho => ho) th.req _).mono (fun _ _ _ _ _ => trivial) fun _ _ hq _ _ => hq
  have hdone := hsound.outcome hsat (fun e he => ⟨⟨(hsound.timed e he).1, htimes e he⟩, trivial⟩) hstop
    ⟨hle, Nat.le_refl t⟩
  exact hdone.1 limit rfl hallowed

/-- Whatever counter of sends a check begins, it outlasts its bucket. -/
theorem checks_outlast (h : Reachable (sendChecks rt config) env s w) (hwindow : 0 < config.otp.sendWindowSeconds)
    (tag : JsString) (bucket : Nat) :
    ∀ e ∈ w.log, Outlasts (sendKey tag bucket) (sendBucketEnd config bucket) e := by
  intro e he
  refine outlasts_of_counts hwindow fun ttl failClosed hop => ?_
  obtain ⟨th, hth, hmem⟩ := h.exists_thread he
  obtain ⟨pre, post, htr⟩ := List.append_of_mem hmem
  have hissued := (h.threads_sound th hth).guarantee (R := fun _ _ _ => True) sendChecks_meets htr fun _ _ => trivial
  rw [hop] at hissued
  rcases hissued with hroutine | ⟨now, op, htick, hcounts, heq⟩
  · cases hroutine
  · obtain rfl := Op.store.inj heq
    exact ⟨now, htick.2, hcounts⟩

/-! ## Counting -/

/-- What is one of two things is no more than both. -/
theorem countP_le_add {α : Type} {p q r : α → Bool} : ∀ {l : List α},
    (∀ x ∈ l, p x = true → q x = true ∨ r x = true) → l.countP p ≤ l.countP q + l.countP r := by
  intro l
  induction l with
  | nil => exact fun _ => Nat.le_refl 0
  | cons x l ih =>
    intro hall
    have hrest := ih fun y hy => hall y (List.mem_cons_of_mem _ hy)
    rw [List.countP_cons, List.countP_cons, List.countP_cons]
    by_cases hp : p x = true
    · rcases hall x List.mem_cons_self hp with hq | hr
      · rw [if_pos hp, if_pos hq]
        omega
      · rw [if_pos hp, if_pos hr]
        omega
    · rw [if_neg hp]
      omega

section
variable {tally : σ → JsString → Option Tally}
variable (h : Reachable (sendChecks rt config) env s w) (hcounting : Counting env tally)
include h hcounting

/-- In one bucket no more sends are counted within the burst than the burst. -/
theorem charges_le (hempty : ∀ key, tally s key = none) (hwindow : 0 < config.otp.sendWindowSeconds)
    (tag : JsString) (bucket : Nat) : w.log.countP (chargeFor config tag bucket) ≤ config.otp.sendBurst := by
  have hcounts : w.log.countP (chargeFor config tag bucket) =
      (countsWithin (sendKey tag bucket) (sendBucketEnd config bucket) config.otp.sendBurst w.log).length :=
    (List.length_filterMap_eq_countP (l := w.log)).symm
  rw [hcounts]
  exact hcounting.within (hempty _) (checks_outlast h hwindow _ bucket) h.replays _

/-- A send that is allowed has been counted meanwhile. -/
theorem exists_charge (hstore : config.stateStore = true) (hwindowed : windowed config = true) {mailbox : JsString}
    {a b : Nat} {th : Thread (sendChecks rt config)} (hth : th ∈ w.threads)
    (hallowed : allowedBetween mailbox a b th = true) :
    mailboxOf rt th.req = mailbox ∧ ∃ e ∈ th.trace, a ≤ e.time ∧ e.time < b ∧
      chargeFor config (addressTag rt config th.req) (e.time / config.otp.sendWindowSeconds) e = true := by
  have hwindow : 0 < config.otp.sendWindowSeconds := by
    simp only [windowed, Bool.and_eq_true, decide_eq_true_eq] at hwindowed
    exact hwindowed.1
  simp only [allowedBetween, Bool.and_eq_true, decide_eq_true_eq] at hallowed
  obtain ⟨⟨hmailbox, hstart⟩, hstopped⟩ := hallowed
  split at hstopped
  · next t limit hstop =>
    simp only [Bool.and_eq_true, decide_eq_true_eq] at hstopped
    have hsound := h.threads_sound th hth
    obtain ⟨-, -, htimes, -⟩ := hsound.ended t _ hstop
    obtain ⟨before, t₀, r, mid, htr, hwithin, -⟩ :=
      charged_of_allowed h hth hstop hstopped.1 hstore hwindowed
    have hmem : ⟨t₀, .store (sendCount rt config th.req t₀), r⟩ ∈ th.trace := by rw [htr]; simp
    have hlow : th.start ≤ t₀ := (hsound.timed _ hmem).1
    have hhigh : t₀ ≤ t := htimes _ hmem
    refine ⟨hmailbox, _, hmem, Nat.le_trans hstart hlow, Nat.lt_of_le_of_lt hhigh hstopped.2, ?_⟩
    obtain ⟨used, rfl⟩ := hcounting.answers h.replays (h.mem_log hth hmem)
    unfold chargeFor sendCount countOf
    dsimp only
    rw [if_pos ⟨rfl, le_sendBucketEnd hwindow rfl⟩, Option.filter_some, if_pos (by simpa using hwithin used rfl)]
    rfl
  · cases hstopped

/-- So the sends that are allowed in an interval are no more than those counted in it. -/
theorem sendsAllowed_le_charges (hstore : config.stateStore = true) (hwindowed : windowed config = true)
    (email : JsString) (a b : Nat) :
    sendsAllowed (mailboxOf rt email) a b w ≤ w.log.countP fun e => a ≤ e.time && e.time < b &&
      chargeFor config (addressTag rt config email) (e.time / config.otp.sendWindowSeconds) e := by
  rw [h.log_perm.countP_eq, List.countP_flatMap]
  unfold sendsAllowed
  have hall : ∀ th ∈ w.threads, allowedBetween (mailboxOf rt email) a b th = true →
      1 ≤ th.trace.countP fun e => a ≤ e.time && e.time < b &&
        chargeFor config (addressTag rt config email) (e.time / config.otp.sendWindowSeconds) e := by
    intro th hth hallowed
    obtain ⟨hmailbox, e, he, hlow, hhigh, hcharge⟩ := exists_charge h hcounting hstore hwindowed hth hallowed
    refine List.one_le_countP_iff.mpr ⟨e, he, ?_⟩
    rw [addressTag_congr hmailbox] at hcharge
    simp [hlow, hhigh, hcharge]
  generalize w.threads = threads at hall ⊢
  induction threads with
  | nil => exact Nat.le_refl 0
  | cons th ths ih =>
    have hrest := ih fun th' hth' => hall th' (List.mem_cons_of_mem _ hth')
    rw [List.countP_cons, List.map_cons, List.sum_cons]
    by_cases hth : allowedBetween (mailboxOf rt email) a b th = true
    · have hone := hall th List.mem_cons_self hth
      rw [if_pos hth]
      simp only [Function.comp_apply]
      omega
    · rw [if_neg hth]
      omega

/-- An interval that `n` windows cover has no more than `n` bursts. -/
theorem sends_by_windows (hempty : ∀ key, tally s key = none) (hstore : config.stateStore = true)
    (hwindowed : windowed config = true) (email : JsString) {a b first n : Nat}
    (hlow : first * config.otp.sendWindowSeconds ≤ a) (hhigh : b ≤ (first + n) * config.otp.sendWindowSeconds) :
    sendsAllowed (mailboxOf rt email) a b w ≤ n * config.otp.sendBurst := by
  have hwindow : 0 < config.otp.sendWindowSeconds := by
    simp only [windowed, Bool.and_eq_true, decide_eq_true_eq] at hwindowed
    exact hwindowed.1
  refine Nat.le_trans (sendsAllowed_le_charges h hcounting hstore hwindowed email a b) ?_
  -- the windows one after another, from the first
  have hbuckets : ∀ n, (w.log.countP fun e => a ≤ e.time && e.time < (first + n) * config.otp.sendWindowSeconds &&
      chargeFor config (addressTag rt config email) (e.time / config.otp.sendWindowSeconds) e) ≤
        n * config.otp.sendBurst := by
    intro n
    induction n with
    | zero =>
      rw [Nat.zero_mul]
      refine Nat.le_of_eq (List.countP_eq_zero.mpr fun e _ hcounted => ?_)
      simp only [Bool.and_eq_true, decide_eq_true_eq, Nat.add_zero] at hcounted
      omega
    | succ n ih =>
      have hone := charges_le h hcounting hempty hwindow (addressTag rt config email) (first + n)
      rw [Nat.succ_mul]
      refine Nat.le_trans ?_ (Nat.add_le_add ih hone)
      refine countP_le_add fun e _ hcounted => ?_
      simp only [Bool.and_eq_true, decide_eq_true_eq] at hcounted ⊢
      by_cases hlast : e.time < (first + n) * config.otp.sendWindowSeconds
      · exact Or.inl ⟨⟨hcounted.1.1, hlast⟩, hcounted.2⟩
      · have hbucket : e.time / config.otp.sendWindowSeconds = first + n :=
          Nat.div_eq_of_lt_le (Nat.le_of_not_lt hlast) hcounted.1.2
        rw [← hbucket]
        exact Or.inr hcounted.2
  refine Nat.le_trans (List.countP_mono_left fun e _ hcounted => ?_) (hbuckets n)
  simp only [Bool.and_eq_true, decide_eq_true_eq] at hcounted ⊢
  exact ⟨⟨hcounted.1.1, Nat.lt_of_lt_of_le hcounted.1.2 hhigh⟩, hcounted.2⟩

end

namespace Sample

/-- Sends to Ann at the given instants. -/
def sendAt (times : List Nat) : World (sendChecks runtime Sample.config) Ledger :=
  (World.init (sendChecks runtime Sample.config) fun _ => none).script (ledgerOracle answer) (fun _ => []) 20
    (times.map fun t => ⟨t, fun _ => js "ann@example.com", fun _ _ h => False.elim h⟩)

theorem sendAt_reachable (times : List Nat) :
    Reachable (sendChecks runtime Sample.config) (ledgerOracle answer).graph (fun _ => none) (sendAt times) :=
  Runs.script (Oracle.within_graph _) (fun _ _ htok => absurd htok List.not_mem_nil) 20 _ _

end Sample

end Sag
