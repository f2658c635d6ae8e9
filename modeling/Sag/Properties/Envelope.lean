import Sag.Email
import Sag.Properties.Guessing
import Sag.Properties.Transactions
import Sag.Store.Counting

/-!
# The limit on sends and the mailbox behind it

A send is counted under the mailbox of the address it is for, and the SMTP sender hands
what `parseAddress` makes of that address to the relay. The two agree unless the address
ends in brackets. Where nobody submits such an address, no more messages than the burst are
delivered to one mailbox in one window (`sends_bounded`), with any store that keeps count.

An address that ends in brackets passes the form check, is counted as itself, and is
delivered to what stands in the brackets: a new address each time for the limit, and the
same mailbox for the relay (`Sample.flooded`).
-/

namespace Sag

open Resumable

variable {rt : Runtime} {config : Config} {σ : Type} {env : Environment effects σ} {s : σ}
variable {w : World (gateway rt config) σ}

/-! ## What is delivered -/

/-- The call submits no address that ends in brackets. -/
def SubmitsPlain (rt : Runtime) (call : Call) : Prop :=
  ∀ request, call.served = some (.email, request) →
    ∀ e, normaliseEmail rt (request.field (js "email")) = some e → ¬ Bracketed e

/-- A message that reaches the mailbox in the bucket. -/
def delivers (rt : Runtime) (config : Config) (mailbox : JsString) (bucket : Nat) (e : Event effects) : Bool :=
  match e.op with
  | .sendEmail message =>
    mailboxOf rt (rcptTo message) = mailbox && e.time / config.otp.sendWindowSeconds = bucket
  | _ => false

/-- The messages that reach the mailbox in the bucket, of the requests that begin in it. -/
def delivered (mailbox : JsString) (bucket : Nat) (w : World (gateway rt config) σ) : Nat :=
  ((w.threads.filter fun th => th.start / config.otp.sendWindowSeconds = bucket).flatMap (·.trace)).countP
    (delivers rt config mailbox bucket)

/-- The limit on sends counts the mailbox that is delivered to. -/
structure DeliveryBounded (w : World (gateway rt config) σ) : Prop where
  /-- In one bucket no more messages than the burst reach one mailbox, -/
  bound : ∀ mailbox bucket, delivered mailbox bucket w ≤ config.otp.sendBurst
  /-- and what a message is sent to is the address that it is delivered to. -/
  envelope : ∀ e ∈ w.log, ∀ message, e.op = .sendEmail message → message.«to» = some (rcptTo message)

/-- An address that is absent, or has the form of one and does not end in brackets. -/
def Plain (email : Option JsString) : Prop :=
  ∀ e, email = some e → looksLikeEmail e = true ∧ ¬ Bracketed e

theorem plain_lineage (es : List (Event effects)) :
    Lineage rt config (SubmitsPlain rt) es fun _ tx => Plain tx.email where
  mono _ _ _ _ h := h
  started request start stop tx _ _ h stage := by
    obtain ⟨client, req, now, id, -, -, rfl⟩ := h.exists_parsed
    exact fun e he => nomatch he
  edited call endpoint request start stop tx₀ tx hplain hserved _ h hedit := by
    intro e he
    rcases hedit.email with heq | hnone | ⟨e', heq, hlooks, hendpoint, hnormal⟩
    · exact h e (heq ▸ he)
    · rw [hnone] at he
      cases he
    · obtain rfl := Option.some.inj (heq.symm.trans he)
      subst hendpoint
      exact ⟨hlooks, hplain request hserved _ hnormal⟩

section
variable (h : Reachable (gateway rt config) env s w) (hplain : ∀ th ∈ w.threads, SubmitsPlain rt th.req)
include h hplain

/-- A message is for an address that it is delivered to, and has been counted for it. -/
theorem charged_of_send {th : Thread (gateway rt config)} (hth : th ∈ w.threads) {pre post : List (Event effects)}
    {e : Event effects} (htr : th.trace = pre ++ e :: post) {message : EmailMessage}
    (hop : e.op = .sendEmail message) :
    message.«to» = some (rcptTo message) ∧ Charged rt config (rcptTo message) pre := by
  obtain ⟨endpoint, request, hserved, hguard⟩ := guard_at h hth htr (by rw [hop]; rfl)
  rw [hop] at hguard
  cases hguard with
  | limiting hlimiting => exact absurd hlimiting (not_limiting rfl)
  | @send _ _ tx₀ tx hpresented hedit haddressed hallowed hcharged =>
    have hlineage : Lineage rt config (SubmitsPlain rt) w.log fun _ tx => Plain tx.email := plain_lineage w.log
    have hplain₀ : Plain tx₀.email :=
      hlineage.sound h hplain th hth endpoint request hserved tx₀ (Or.inl hpresented)
    have hmem : e ∈ th.trace := by rw [htr]; simp
    have hplain' : Plain tx.email :=
      hlineage.edited th.req endpoint request th.start e.time tx₀ tx (hplain th hth) hserved
        ((h.threads_sound th hth).timed e hmem).1 hplain₀ hedit
    obtain ⟨address, hto⟩ := Option.ne_none_iff_exists'.mp (otpAllowed_named hallowed)
    obtain ⟨hlooks, hbrackets⟩ := hplain' address (haddressed.symm.trans hto)
    have hrcpt : rcptTo message = address := by
      unfold rcptTo
      rw [hto]
      exact (parseAddress_address (looksLikeEmail_no_space hlooks)).mpr hbrackets
    rw [hto] at hcharged
    rw [hrcpt]
    exact ⟨hto, hcharged⟩

end

/-! ## Counting -/

/-- A send is counted under the bucket in which its check has read the clock. -/
theorem counts_send {tag : JsString} {bucket now : Nat} {ttl : Int} {failClosed : Bool}
    (h : Counts config now (.increment (sendKey tag bucket) ttl failClosed)) :
    now / config.otp.sendWindowSeconds = bucket ∧ ttl = config.otp.sendWindowSeconds := by
  generalize hkey : sendKey tag bucket = key at h
  have other : ∀ {key' : JsString}, sendKey tag bucket = key' → key'.take 5 ≠ js "otp-s" → False := by
    intro key' heq hne
    exact hne (heq ▸ rfl)
  cases h with
  | send tag' =>
    refine ⟨decimal_injective ?_, rfl⟩
    exact (eq_of_append_colon hkey (colon_notMem_decimal _) (colon_notMem_decimal _)).symm
  | day tag' =>
    refine (other hkey ?_).elim
    show js "otp-d" ≠ js "otp-s"
    decide
  | network factor tag' =>
    refine (other hkey ?_).elim
    show js "local" ≠ js "otp-s"
    decide
  | attempt factor tag' =>
    refine (other hkey ?_).elim
    show js "local" ≠ js "otp-s"
    decide

/-- The last instant of a bucket of the send limit. -/
def sendBucketEnd (config : Config) (bucket : Nat) : Nat :=
  bucket * config.otp.sendWindowSeconds + (config.otp.sendWindowSeconds - 1)

/-- A counter of sends, begun in the bucket of an instant that has been, outlasts it. -/
theorem outlasts_of_counts (hwindow : 0 < config.otp.sendWindowSeconds) {tag : JsString} {bucket : Nat}
    {e : Event effects} (h : ∀ ttl failClosed, e.op = .store (.increment (sendKey tag bucket) ttl failClosed) →
      ∃ now, now ≤ e.time ∧ Counts config now (.increment (sendKey tag bucket) ttl failClosed)) :
    Outlasts (sendKey tag bucket) (sendBucketEnd config bucket) e := by
  intro ttl failClosed hop
  obtain ⟨now, hle, hcounts⟩ := h ttl failClosed hop
  obtain ⟨hbucket, rfl⟩ := counts_send hcounts
  have hstart : bucket * config.otp.sendWindowSeconds ≤ now := by
    rw [← hbucket]
    exact Nat.div_mul_le_self _ _
  refine ⟨_, rfl, ?_⟩
  unfold sendBucketEnd
  omega

theorem sends_outlast (h : Reachable (gateway rt config) env s w) (hwindow : 0 < config.otp.sendWindowSeconds)
    (tag : JsString) (bucket : Nat) :
    ∀ e ∈ w.log, Outlasts (sendKey tag bucket) (sendBucketEnd config bucket) e :=
  fun _ he => outlasts_of_counts hwindow fun _ _ hop => counts_of_increment h he hop

theorem le_sendBucketEnd {bucket t : Nat} (hwindow : 0 < config.otp.sendWindowSeconds)
    (ht : t / config.otp.sendWindowSeconds = bucket) : t ≤ sendBucketEnd config bucket := by
  have hlt := Nat.lt_mul_div_succ t hwindow
  rw [ht, Nat.mul_succ, Nat.mul_comm] at hlt
  unfold sendBucketEnd
  omega

/-- What stands before each `p`, with no `p` in between, is no rarer than `p`. -/
theorem countP_le_of_preceded {α : Type} {p q : α → Bool} : ∀ {l : List α},
    (∀ pre x post, l = pre ++ x :: post → p x = true →
      ∃ pre₀ y mid, pre = pre₀ ++ y :: mid ∧ q y = true ∧ p y = false ∧ ∀ z ∈ mid, p z = false) →
      l.countP p ≤ l.countP q := by
  intro l
  induction hn : l.length using Nat.strongRecOn generalizing l with
  | ind n ih =>
    intro hpreceded
    rcases List.eq_nil_or_concat l with rfl | ⟨l, x, rfl⟩
    · exact Nat.le_refl _
    rw [List.concat_eq_append] at hn hpreceded ⊢
    -- a shorter list inherits what is asked of this one
    have shorter : ∀ l₀ rest : List α, l ++ [x] = l₀ ++ rest → rest ≠ [] → l₀.countP p ≤ l₀.countP q := by
      intro l₀ rest heq hne
      have hlength := congrArg List.length heq
      have hpos := List.length_pos_iff.mpr hne
      rw [hn, List.length_append] at hlength
      refine ih l₀.length (by omega) rfl fun pre y post hl₀ hy => ?_
      exact hpreceded pre y (post ++ rest) (by rw [heq, hl₀]; simp) hy
    by_cases hx : p x = true
    · obtain ⟨pre₀, y, mid, rfl, hy, hpy, hmid⟩ := hpreceded l x [] rfl hx
      have hbefore := shorter pre₀ (y :: mid ++ [x]) (by simp) (by simp)
      have hnone : mid.countP p = 0 := List.countP_eq_zero.mpr fun z hz => by simp [hmid z hz]
      simp only [List.countP_append, List.countP_cons, List.countP_nil, hx, hpy, hy, hnone, if_true]
      simp only [Bool.false_eq_true, if_false]
      omega
    · have hbefore := shorter l [x] rfl (by simp)
      simp only [List.countP_append, List.countP_cons, List.countP_nil, hx]
      simp only [Bool.false_eq_true, if_false]
      omega

/-- What is no more in every thread is no more in all of them. -/
theorem countP_flatMap_le {α β : Type} {f : α → List β} {p q : β → Bool} : ∀ {l : List α},
    (∀ x ∈ l, (f x).countP p ≤ (f x).countP q) → (l.flatMap f).countP p ≤ (l.flatMap f).countP q := by
  intro l
  induction l with
  | nil => exact fun _ => Nat.le_refl _
  | cons x l ih =>
    intro hall
    rw [List.flatMap_cons, List.countP_append, List.countP_append]
    exact Nat.add_le_add (hall x List.mem_cons_self) (ih fun y hy => hall y (List.mem_cons_of_mem _ hy))

/-! ## The bound -/

section
variable {tally : σ → JsString → Option Tally}
variable (h : Reachable (gateway rt config) env s w) (hcounting : Counting env tally)
variable (hplain : ∀ th ∈ w.threads, SubmitsPlain rt th.req)
include h hcounting hplain

/-- The count of a send within the burst, until the end of the bucket. -/
def chargeFor (config : Config) (tag : JsString) (bucket : Nat) (e : Event effects) : Bool :=
  ((countOf (sendKey tag bucket) (sendBucketEnd config bucket) e).filter (· ≤ config.otp.sendBurst)).isSome

/-- A thread that begins in the bucket delivers no more than it counts. -/
theorem delivers_le_charges (hstore : config.stateStore = true) (hwindowed : windowed config = true)
    {email : JsString} {bucket : Nat} {th : Thread (gateway rt config)} (hth : th ∈ w.threads)
    (hstart : th.start / config.otp.sendWindowSeconds = bucket) :
    th.trace.countP (delivers rt config (mailboxOf rt email) bucket) ≤
      th.trace.countP (chargeFor config (addressTag rt config email) bucket) := by
  have hwindow : 0 < config.otp.sendWindowSeconds := by
    simp only [windowed, Bool.and_eq_true, decide_eq_true_eq] at hwindowed
    exact hwindowed.1
  have notSend : ∀ {e : Event effects}, e.op.isSend = false →
      delivers rt config (mailboxOf rt email) bucket e = false := by
    intro e he
    unfold delivers
    split
    · next message hop =>
      rw [hop] at he
      cases he
    · rfl
  refine countP_le_of_preceded fun pre e post htr hdelivers => ?_
  unfold delivers at hdelivers
  split at hdelivers
  · next message hop =>
    simp only [Bool.and_eq_true, decide_eq_true_eq] at hdelivers
    obtain ⟨hmailbox, hbucket⟩ := hdelivers
    obtain ⟨-, hcharged⟩ := charged_of_send h hplain hth htr hop
    obtain ⟨pre₀, t, r, mid, rfl, hwithin, hmid⟩ := hcharged hstore hwindowed
    have hsound := h.threads_sound th hth
    have hcount : ⟨t, .store (sendCount rt config (rcptTo message) t), r⟩ ∈ th.trace := by rw [htr]; simp
    -- the count falls between the start and the send
    have ht : t / config.otp.sendWindowSeconds = bucket := by
      have hlow := Nat.div_le_div_right (c := config.otp.sendWindowSeconds) (hsound.timed _ hcount).1
      have hsorted := hsound.sorted
      rw [htr] at hsorted
      have hle : t ≤ e.time := (List.pairwise_append.mp hsorted).2.2
        ⟨t, .store (sendCount rt config (rcptTo message) t), r⟩ (by simp) e List.mem_cons_self
      have hhigh := Nat.div_le_div_right (c := config.otp.sendWindowSeconds) hle
      have hlow : th.start / config.otp.sendWindowSeconds ≤ t / config.otp.sendWindowSeconds := hlow
      omega
    refine ⟨pre₀, _, mid, rfl, ?_, notSend rfl, fun z hz => notSend (hmid z hz)⟩
    have htag : addressTag rt config (rcptTo message) = addressTag rt config email := addressTag_congr hmailbox
    obtain ⟨used, rfl⟩ := hcounting.answers h.replays (h.mem_log hth hcount)
    have hkey : sendKey (addressTag rt config (rcptTo message)) (t / config.otp.sendWindowSeconds) =
        sendKey (addressTag rt config email) bucket := by rw [htag, ht]
    unfold chargeFor sendCount countOf
    rw [hkey]
    dsimp only
    rw [if_pos ⟨rfl, le_sendBucketEnd hwindow ht⟩, Option.filter_some, if_pos (by simpa using hwithin used rfl)]
    rfl
  · cases hdelivers

/-- So no more than the burst is delivered. -/
theorem delivered_le (hempty : ∀ key, tally s key = none) (hstore : config.stateStore = true)
    (hwindowed : windowed config = true) (mailbox : JsString) (bucket : Nat) :
    delivered mailbox bucket w ≤ config.otp.sendBurst := by
  have hwindow : 0 < config.otp.sendWindowSeconds := by
    simp only [windowed, Bool.and_eq_true, decide_eq_true_eq] at hwindowed
    exact hwindowed.1
  rcases Nat.eq_zero_or_pos (delivered mailbox bucket w) with hzero | hpos
  · rw [hzero]
    exact Nat.zero_le _
  -- some message is delivered, so the mailbox is that of an address
  obtain ⟨e, -, hdelivers⟩ := List.countP_pos_iff.mp hpos
  obtain ⟨email, rfl⟩ : ∃ email, mailboxOf rt email = mailbox := by
    unfold delivers at hdelivers
    split at hdelivers
    · next message hop =>
      simp only [Bool.and_eq_true, decide_eq_true_eq] at hdelivers
      exact ⟨_, hdelivers.1⟩
    · cases hdelivers
  let key := sendKey (addressTag rt config email) bucket
  have hcharges : delivered (mailboxOf rt email) bucket w ≤
      w.log.countP (chargeFor config (addressTag rt config email) bucket) := by
    unfold delivered
    refine Nat.le_trans (countP_flatMap_le (q := chargeFor config (addressTag rt config email) bucket)
      fun th hth => ?_) ?_
    · obtain ⟨hth, hstart⟩ := List.mem_filter.mp hth
      exact delivers_le_charges h hcounting hplain hstore hwindowed hth (by simpa using hstart)
    · rw [h.log_perm.countP_eq]
      have hsub : (w.threads.filter fun th => th.start / config.otp.sendWindowSeconds = bucket).Sublist w.threads :=
        List.filter_sublist
      exact (hsub.flatMap (·.trace)).countP_le
  have hcounts : w.log.countP (chargeFor config (addressTag rt config email) bucket) =
      (countsWithin key (sendBucketEnd config bucket) config.otp.sendBurst w.log).length :=
    (List.length_filterMap_eq_countP (l := w.log)).symm
  rw [hcounts] at hcharges
  exact Nat.le_trans hcharges (hcounting.within (hempty key) (sends_outlast h hwindow _ bucket) h.replays _)

end

namespace Sample

/-- Ann's address is submitted in four spellings within one window. -/
def submitAll (addresses : List String) : World (gateway runtime Sample.config) Ledger :=
  browse (ledgerOracle answer) (fun _ => none)
    (authorize 1000 "notes" "" "" [] :: addresses.map fun address => submit 1010 .email 0 [("email", address)])

theorem submitAll_reachable (addresses : List String) :
    Reachable (gateway runtime Sample.config) (ledgerOracle answer).graph (fun _ => none) (submitAll addresses) :=
  browse_reachable (Oracle.within_graph _) _ _

/-- With a name before it the limit takes each of them for somebody new. -/
def flood : World (gateway runtime Sample.config) Ledger :=
  submitAll ["a<ann@example.com>", "b<ann@example.com>", "c<ann@example.com>", "d<ann@example.com>"]

/-- An address that is delivered to as it stands. -/
def isPlain (call : Call) : Bool :=
  match call.served with
  | some (.email, request) =>
    (normaliseEmail runtime (request.field (js "email"))).all fun e =>
      e.all (fun u => !isSpace u) && (parseAddress (some e)).address = e
  | _ => true

theorem submitsPlain_of_isPlain {call : Call} (h : isPlain call = true) : SubmitsPlain runtime call := by
  intro request hserved e hnormal
  unfold isPlain at h
  rw [hserved] at h
  dsimp only at h
  rw [hnormal] at h
  simp only [Option.all_some, Bool.and_eq_true, List.all_eq_true, Bool.not_eq_true', decide_eq_true_eq] at h
  exact (parseAddress_address h.1).mp h.2

/-- Written plainly they are one mailbox, which gets three messages. -/
def insist : World (gateway runtime Sample.config) Ledger :=
  submitAll ["ann@example.com", "ANN@example.com", "ann+a@example.com", "ann+b@example.com"]

end Sample

end Sag
