import Mathlib.Data.List.Flatten
import Sag.Properties.Documents
import Sag.Store.Windows

/-!
# Guessing at local accounts

Every attempt at a password or a second factor is counted against its mailbox, in the
window in which its check read the clock. The counter is protected, and the window it
is given when it begins lasts until the end of the bucket; so of the attempts that are
counted by then, no more than the maximum are allowed (`attempts_bounded`), whatever
else fills the store. An attempt that is counted after the end of its bucket may find
its counter gone, and the next bucket has one of its own (`straddling_attempts`).

Nothing of a local sign-in comes before its count: no session, no code, no other stage
of the transaction, and no factor is used up.
-/

namespace Sag

open Resumable

variable {rt : Runtime} {config : Config} {σ : Type} {maxEntries : Nat}

/-! ## Attempts -/

/-- The count of an attempt on an address, in the bucket `bucket`, that was within the
maximum. -/
structure Permits (rt : Runtime) (config : Config) (factor : Factor) (email : JsString) (bucket t : Nat)
    (e : Event effects) : Prop where
  counted : ∃ used, e = ⟨t, .store (.increment (attemptKey factor (addressTag rt config email) bucket)
    config.localIdentities.attemptWindowSeconds true), (.ok used : Except JsError Nat)⟩ ∧
      used ≤ config.localIdentities.maxAttempts

/-- The check has allowed an attempt on the mailbox: its clock was read in the bucket
`read`, and it was counted in the bucket `counted`. -/
def AllowedIn (rt : Runtime) (config : Config) (factor : Factor) (mailbox : JsString) (read counted : Nat)
    (es : List (Event effects)) : Prop :=
  ∃ email t, mailboxOf rt email = mailbox ∧ t / config.localIdentities.attemptWindowSeconds = counted ∧
    ∃ e ∈ es, Permits rt config factor email read t e

/-- The check has allowed an attempt on the address of a transaction that was handed
in. -/
def Attempted (rt : Runtime) (config : Config) (factor : Factor) (request : Request)
    (es : List (Event effects)) : Prop :=
  ∃ tx, request.presents (.tx tx) ∧ ∃ bucket t, ∃ e ∈ es, Permits rt config factor (tx.email.getD []) bucket t e

/-- Where an attempt is submitted. -/
def Factor.endpoint : Factor → Endpoint
  | .password => .localPassword
  | .mfa => .localMfa

/-- What only a sign-in does. -/
def Op.signsIn : Op → Bool
  | .note (.sessionCreated _) | .note (.codeIssued _ _) | .bindingReplace .. => true
  | _ => false

/-- Unless `A`, the token is no session, no code and no other transaction than the one
that was handed in. -/
def StaysPut (request : Request) (A : Prop) : Sealed → Prop
  | .session _ | .code _ => A
  | .tx tx => request.presents (.tx tx) ∨ A
  | .upstreamState _ => False
  | _ => True

theorem not_routine_of_signsIn {o : Op} (h : o.signsIn = true) : ¬ o.routine = true := by
  intro hroutine
  cases o with
  | note n => cases hroutine
  | bindingReplace key revision doc => cases hroutine
  | _ => cases h

/-- Guessing is bounded. -/
structure GuessingBounded (rt : Runtime) (config : Config) (w : World (gateway rt config) σ) : Prop where
  /-- Of the submissions that are checked within one bucket, no more than the maximum
  are allowed for one mailbox. -/
  bound : ∀ factor mailbox bucket, ∀ ths : List (Thread (gateway rt config)), ths.Sublist w.threads →
    (∀ th ∈ ths, AllowedIn rt config factor mailbox bucket bucket th.trace) →
      ths.length ≤ config.localIdentities.maxAttempts
  /-- A submission signs nobody in, and writes nothing, before it was allowed. -/
  effects : ∀ factor, ∀ th ∈ w.threads, ∀ request, th.req.served = some (factor.endpoint, request) →
    ∀ pre e post, th.trace = pre ++ e :: post → e.op.signsIn = true → Attempted rt config factor request pre
  /-- Nor does what it hands out. -/
  tokens : ∀ factor, ∀ th ∈ w.threads, ∀ request, th.req.served = some (factor.endpoint, request) →
    ∀ t response, th.stop = some (t, .ok (.response response)) → ∀ tok ∈ response.tokens,
      StaysPut request (Attempted rt config factor request th.trace) tok
  /-- Whatever else is written leaves the factors of the record as they were read. -/
  consumed : ∀ th ∈ w.threads, ∀ pre e post, th.trace = pre ++ e :: post →
    ∀ key revision doc, e.op = .bindingReplace key revision doc →
      (∃ request, th.req.served = some (.localMfa, request) ∧ Attempted rt config .mfa request pre) ∨
        ∃ record change, ReadRecord rt (inLog pre) record ∧ e.op = replaceOp record change ∧
          (change.next record).totp = record.totp ∧ (change.next record).backupCodes = record.backupCodes

/-! ## Keys -/

theorem decimal_injective {m n : Nat} (h : decimal m = decimal n) : m = n := by
  have back : ∀ n, (decimal n).map (fun u => Char.ofNat u.toNat) = Nat.toDigits 10 n := by
    intro n
    rw [decimal_eq, List.map_map]
    refine (List.map_congr_left fun c hc => ?_).trans (List.map_id _)
    have hdigit := (toNat_of_mem_toDigits hc).2
    rw [Function.comp_apply, UInt16.toNat_ofNat_of_lt' (by simp [UInt16.size]; omega), Char.ofNat_toNat]
    rfl
  have hdigits : Nat.toDigits 10 m = Nat.toDigits 10 n := by rw [← back, ← back, h]
  rw [← Nat.ofDigitChars_ten_toDigits (n := m), hdigits, Nat.ofDigitChars_ten_toDigits]

theorem colon_notMem_decimal (n : Nat) : 58 ∉ decimal n := by
  intro h
  rw [decimal_eq] at h
  obtain ⟨c, hc, heq⟩ := List.mem_map.mp h
  have hdigit := (toNat_of_mem_toDigits hc).2
  have hnat := congrArg UInt16.toNat heq
  rw [UInt16.toNat_ofNat_of_lt' (by simp [UInt16.size]; omega)] at hnat
  have hcolon : (58 : UInt16).toNat = 58 := rfl
  omega

/-- What follows the last colon of a key. -/
theorem eq_of_append_colon {a b d d' : JsString} (h : a ++ js ":" ++ d = b ++ js ":" ++ d') (hd : 58 ∉ d)
    (hd' : 58 ∉ d') : d = d' := by
  have last : ∀ (a : JsString) {d : JsString}, 58 ∉ d → (a ++ js ":" ++ d).reverse.takeWhile (· != 58) = d.reverse := by
    intro a d hd
    have hrev : (a ++ js ":" ++ d).reverse = d.reverse ++ 58 :: a.reverse := by
      simp only [List.reverse_append, List.append_assoc]
      rfl
    rw [hrev, List.takeWhile_append_of_pos (fun u hu => ?_)]
    · simp
    · have hne : u ≠ 58 := fun heq => hd (heq ▸ List.mem_reverse.mp hu)
      simpa using hne
  have hrev := congrArg (fun s => s.reverse.takeWhile (· != 58)) h
  simp only [last a hd, last b hd'] at hrev
  exact List.reverse_injective hrev

/-- An attempt is counted under the bucket in which its check has read the clock. -/
theorem counts_attempt {factor : Factor} {tag : JsString} {bucket now : Nat} {ttl : Int} {failClosed : Bool}
    (h : Counts config now (.increment (attemptKey factor tag bucket) ttl failClosed)) :
    now / config.localIdentities.attemptWindowSeconds = bucket ∧
      ttl = config.localIdentities.attemptWindowSeconds ∧ failClosed = true := by
  generalize hkey : attemptKey factor tag bucket = key at h
  cases h with
  | send tag' =>
    have hhead : (some 108 : Option CodeUnit) = some 111 := congrArg List.head? hkey
    exact absurd hhead (by decide)
  | day tag' =>
    have hhead : (some 108 : Option CodeUnit) = some 111 := congrArg List.head? hkey
    exact absurd hhead (by decide)
  | network factor' tag' =>
    -- the keys part where the factor or the kind is named
    exfalso
    have hpart := congrArg (List.take 16) hkey
    cases factor <;> cases factor' <;> revert hpart
    · show js "local-password:a" = js "local-password:n" → False
      decide
    · show js "local-password:a" = js "local-mfa:networ" → False
      decide
    · show js "local-mfa:addres" = js "local-password:n" → False
      decide
    · show js "local-mfa:addres" = js "local-mfa:networ" → False
      decide
  | attempt factor' tag' =>
    refine ⟨decimal_injective ?_, rfl, rfl⟩
    exact (eq_of_append_colon hkey (colon_notMem_decimal _) (colon_notMem_decimal _)).symm

/-! ## Counting -/

/-- Only the rate limits increment a counter, and they count in the bucket of an instant
that has been. -/
theorem counts_of_increment {env : Environment effects σ} {s : σ} {w : World (gateway rt config) σ}
    (h : Reachable (gateway rt config) env s w) {e : Event effects} (he : e ∈ w.log) {key : JsString} {ttl : Int}
    {failClosed : Bool} (hop : e.op = .store (.increment key ttl failClosed)) :
    ∃ now, now ≤ e.time ∧ Counts config now (.increment key ttl failClosed) := by
  obtain ⟨th, hth, hmem⟩ := h.exists_thread he
  obtain ⟨pre, post, htr⟩ := List.append_of_mem hmem
  have hguard := guarantee_of_mem h hth htr
  rw [hop] at hguard
  have served : ∀ {endpoint request}, Guard rt config (during th.start e.time (seen pre)) endpoint request pre
      e.time (.store (.increment key ttl failClosed)) →
        ∃ now, now ≤ e.time ∧ Counts config now (.increment key ttl failClosed) := by
    intro endpoint request hguard
    generalize ho : Op.store (.increment key ttl failClosed) = o at hguard
    cases hguard with
    | limiting hlimiting =>
      subst ho
      rcases hlimiting with hroutine | ⟨now, op, htick, hcounts, heq⟩
      · cases hroutine
      · obtain rfl := Op.store.inj heq
        exact ⟨now, htick.2, hcounts⟩
    | _ => cases ho
  cases hreq : th.req with
  | redeem r =>
    rw [hreq] at hguard
    cases hguard
  | rekeyAll keys =>
    rw [hreq] at hguard
    rcases hguard with hroutine | ⟨_, _, _, _, _, heq⟩
    · cases hroutine
    · cases heq
  | _ =>
    rw [hreq] at hguard
    exact served hguard

section
variable {w : World (gateway rt config) MemoryStore}
variable (h : Reachable (gateway rt config) (memoryEnv maxEntries) .empty w)

/-- The last instant of a bucket. -/
def bucketEnd (config : Config) (bucket : Nat) : Nat :=
  bucket * config.localIdentities.attemptWindowSeconds + (config.localIdentities.attemptWindowSeconds - 1)

include h in
/-- A counter of attempts lasts until the end of its bucket. -/
theorem attempts_last (hwindow : 0 < config.localIdentities.attemptWindowSeconds) (factor : Factor) (tag : JsString)
    (bucket : Nat) : ∀ e ∈ w.log, LastsUntil (attemptKey factor tag bucket) (bucketEnd config bucket) e := by
  intro e he ttl failClosed hop
  obtain ⟨now, hle, hcounts⟩ := counts_of_increment h he hop
  obtain ⟨hbucket, rfl, rfl⟩ := counts_attempt hcounts
  have hstart : bucket * config.localIdentities.attemptWindowSeconds ≤ now := by
    rw [← hbucket]
    exact Nat.div_mul_le_self _ _
  refine ⟨rfl, ?_⟩
  simp only [bucketEnd, MemoryStore.lifetime]
  omega

/-- An attempt in its bucket is among the counts. -/
theorem countOf_of_permits {factor : Factor} {email : JsString} {bucket t : Nat} {e : Event effects}
    (hwindow : 0 < config.localIdentities.attemptWindowSeconds) (hpermits : Permits rt config factor email bucket t e)
    (hcounted : t / config.localIdentities.attemptWindowSeconds = bucket) :
    (((countOf (attemptKey factor (addressTag rt config email) bucket) (bucketEnd config bucket) e).filter
      (· ≤ config.localIdentities.maxAttempts))).isSome = true := by
  obtain ⟨used, rfl, hused⟩ := hpermits.counted
  have hend : t ≤ bucketEnd config bucket := by
    have hlt := Nat.lt_mul_div_succ t hwindow
    rw [hcounted, Nat.mul_succ, Nat.mul_comm] at hlt
    simp only [bucketEnd]
    omega
  rw [countOf, if_pos ⟨rfl, hend⟩, Option.filter_some, if_pos (by simpa using hused)]
  rfl

/-- Threads with an event of a kind are no more than such events. -/
theorem length_le_events {S : System effects} {p : Event effects → Option Nat} :
    ∀ {ths : List (Thread S)}, (∀ th ∈ ths, ∃ e ∈ th.trace, (p e).isSome = true) →
      ths.length ≤ ((ths.flatMap (·.trace)).filterMap p).length := by
  intro ths
  induction ths with
  | nil => exact fun _ => Nat.zero_le _
  | cons th ths ih =>
    intro hall
    obtain ⟨e, he, hp⟩ := hall th List.mem_cons_self
    obtain ⟨n, hn⟩ := Option.isSome_iff_exists.mp hp
    have hone : 1 ≤ (th.trace.filterMap p).length :=
      List.length_pos_of_mem (List.mem_filterMap.mpr ⟨e, he, hn⟩)
    have hrest := ih fun x hx => hall x (List.mem_cons_of_mem _ hx)
    rw [List.flatMap_cons, List.filterMap_append, List.length_append, List.length_cons]
    omega

include h in
/-- In one bucket no more than the maximum are allowed for one mailbox. -/
theorem attempts_within (hwindow : 0 < config.localIdentities.attemptWindowSeconds) (factor : Factor)
    (mailbox : JsString) (bucket : Nat) {ths : List (Thread (gateway rt config))} (hsub : ths.Sublist w.threads)
    (hallowed : ∀ th ∈ ths, AllowedIn rt config factor mailbox bucket bucket th.trace) :
    ths.length ≤ config.localIdentities.maxAttempts := by
  rcases List.eq_nil_or_concat ths with rfl | ⟨_, th₀, heq⟩
  · exact Nat.zero_le _
  -- every spelling of the mailbox has one counter
  obtain ⟨email₀, -, hmailbox₀, -⟩ := hallowed th₀ (by simp [heq])
  let key := attemptKey factor (addressTag rt config email₀) bucket
  let p : Event effects → Option Nat := fun e =>
    (countOf key (bucketEnd config bucket) e).filter (· ≤ config.localIdentities.maxAttempts)
  have hevents : ∀ th ∈ ths, ∃ e ∈ th.trace, (p e).isSome = true := by
    intro th hth
    obtain ⟨email, t, hmailbox, hcounted, e, he, hpermits⟩ := hallowed th hth
    have htag : addressTag rt config email = addressTag rt config email₀ :=
      addressTag_congr (hmailbox.trans hmailbox₀.symm)
    have hcount := countOf_of_permits hwindow hpermits hcounted
    rw [htag] at hcount
    exact ⟨e, he, hcount⟩
  have hlog : ((ths.flatMap (·.trace)).filterMap p).length ≤ (w.log.filterMap p).length := by
    rw [(h.log_perm.filterMap p).length_eq]
    exact ((hsub.flatMap fun th => th.trace).filterMap p).length_le
  have hwithin := counts_within h.replays (attempts_last h hwindow factor (addressTag rt config email₀) bucket)
    config.localIdentities.maxAttempts
  exact Nat.le_trans (length_le_events hevents) (Nat.le_trans hlog hwithin)

end

/-! ## Before the count -/

section
variable {env : Environment effects σ} {s : σ} {w : World (gateway rt config) σ}
variable (h : Reachable (gateway rt config) env s w)

/-- What the relations say of an attempt, as an event. -/
theorem attempted_of_allowed {factor : Factor} {request : Request} {tx : Transaction} {start stop : Nat}
    {es : List (Event effects)} (hpresented : request.presents (.tx tx))
    (hallowed : AllowedAttempt (during start stop (seen es)) rt config (tx.email.getD []) factor) :
    Attempted rt config factor request es := by
  obtain ⟨now, used, -, ⟨t, -, hmem⟩, hused⟩ := hallowed
  exact ⟨tx, hpresented, _, t, _, hmem, used, rfl, hused⟩

/-- A sign-in with a local credential was an allowed attempt. -/
theorem attempted_of_signIn {factor : Factor} {request : Request} {tx : Transaction} {args : SessionArgs}
    {start stop : Nat} {es : List (Event effects)}
    (hsign : SignIn rt config (during start stop (seen es)) request factor.endpoint tx args) :
    Attempted rt config factor request es := by
  cases factor with
  | password =>
    generalize hend : Factor.password.endpoint = endpoint at hsign
    cases hsign with
    | password hpresented hallowed => exact attempted_of_allowed hpresented hallowed
    | _ => cases hend
  | mfa =>
    generalize hend : Factor.mfa.endpoint = endpoint at hsign
    cases hsign with
    | factor hpresented _ hallowed => exact attempted_of_allowed hpresented hallowed
    | _ => cases hend

/-- So a transaction is only completed by an allowed one. -/
theorem attempted_of_completion {factor : Factor} {request : Request} {tx : Transaction} {session : Session}
    {start stop : Nat} {es : List (Event effects)}
    (hcompletion : Completion rt config (during start stop (seen es)) request factor.endpoint tx session) :
    Attempted rt config factor request es := by
  generalize hend : factor.endpoint = endpoint at hcompletion
  cases hcompletion with
  | silent => cases factor <;> cases hend
  | continued => cases factor <;> cases hend
  | signedIn hsign =>
    subst hend
    exact attempted_of_signIn hsign

include h in
/-- A local endpoint signs nobody in, and writes nothing, before an attempt was allowed. -/
theorem attempted_of_effect {factor : Factor} {th : Thread (gateway rt config)} (hth : th ∈ w.threads)
    {request : Request} (hserved : th.req.served = some (factor.endpoint, request)) {pre post : List (Event effects)}
    {e : Event effects} (htr : th.trace = pre ++ e :: post) (hop : e.op.signsIn = true) :
    Attempted rt config factor request pre := by
  have hreq : th.req = .serve factor.endpoint request :=
    eq_serve_of_served hserved (by cases factor <;> nofun)
  have hguard := guarantee_of_mem h hth htr
  rw [hreq] at hguard
  have hguard : Guard rt config (during th.start e.time (seen pre)) factor.endpoint request pre e.time e.op := hguard
  generalize ho : e.op = o at hguard hop
  cases hguard with
  | limiting hlimiting =>
    rcases hlimiting with hroutine | ⟨_, _, -, -, rfl⟩
    · exact absurd hroutine (not_routine_of_signsIn hop)
    · cases hop
  | created hsign htick => exact attempted_of_signIn hsign
  | issued hcompletion hminted => exact attempted_of_completion hcompletion
  | consume hpresented hallowed hread hupdate hfactor hlocal =>
    cases factor with
    | password => cases hlocal
    | mfa => exact attempted_of_allowed hpresented hallowed
  | retain hread hupdate hfactor hcallback => cases factor <;> cases hcallback
  | _ => cases hop

include h in
/-- What a local endpoint hands out. -/
theorem attempted_of_token {factor : Factor} {th : Thread (gateway rt config)} (hth : th ∈ w.threads)
    {request : Request} (hserved : th.req.served = some (factor.endpoint, request)) {t : Nat} {response : Response}
    (hstop : th.stop = some (t, .ok (.response response))) {tok : Sealed} (htok : tok ∈ response.tokens) :
    StaysPut request (Attempted rt config factor request th.trace) tok := by
  obtain ⟨endpoint, request', hserved', hderived⟩ := derived_relying h hth hstop htok (R := seen th.trace)
    fun _ he => he
  obtain ⟨rfl, rfl⟩ := Prod.mk.inj (Option.some.inj (hserved.symm.trans hserved'))
  cases hderived with
  | started hstart => cases factor <;> cases hstart
  | @edited tx₀ tx hpresented hedit hstage hcounted =>
    have hcases : tx = tx₀ ∨
        AllowedAttempt (during th.start t (seen th.trace)) rt config (tx₀.email.getD []) factor := by
      cases factor with
      | password => exact hcounted
      | mfa => exact hcounted
    rcases hcases with heq | hallowed
    · rw [heq]
      exact Or.inl hpresented
    · exact Or.inr (attempted_of_allowed hpresented hallowed)
  | returned hcallback => cases factor <;> cases hcallback
  | leg hroute => cases factor <;> rcases hroute with hroute | hroute <;> cases hroute
  | session hcompletion htick => exact attempted_of_completion hcompletion
  | code hissued =>
    obtain ⟨t₀, -, hmem⟩ := hissued
    obtain ⟨pre, post, htr⟩ := List.append_of_mem (show _ ∈ th.trace from hmem)
    obtain ⟨tx, hpresented, bucket, t₁, e, he, hpermits⟩ := attempted_of_effect h hth hserved htr rfl
    exact ⟨tx, hpresented, bucket, t₁, e, by rw [htr]; exact List.mem_append_left _ he, hpermits⟩
  | memory hmem =>
    cases tok with
    | rememberMe email exp => exact trivial
    | logout payload => exact trivial
    | _ => cases hmem
  | logout => exact trivial

include h in
/-- A factor is used up by an allowed submission of a second factor. -/
theorem attempted_of_replaced {th : Thread (gateway rt config)} (hth : th ∈ w.threads)
    {pre post : List (Event effects)} {e : Event effects} (htr : th.trace = pre ++ e :: post) {key : JsString}
    {revision : Nat} {doc : Json} (hop : e.op = .bindingReplace key revision doc) :
    (∃ request, th.req.served = some (.localMfa, request) ∧ Attempted rt config .mfa request pre) ∨
      ∃ record change, ReadRecord rt (inLog pre) record ∧ e.op = replaceOp record change ∧
        (change.next record).totp = record.totp ∧ (change.next record).backupCodes = record.backupCodes := by
  have other : ∀ {record : LocalRecord} {change : Change}, ReadRecord rt (during th.start e.time (seen pre)) record →
      change.isFactor = false → ReadRecord rt (inLog pre) record ∧
        (change.next record).totp = record.totp ∧ (change.next record).backupCodes = record.backupCodes := by
    intro record change hread hfactor
    obtain ⟨doc', ⟨t, -, hmem⟩, hparse⟩ := hread
    refine ⟨⟨doc', ⟨t, trivial, hmem⟩, hparse⟩, ?_⟩
    cases change with
    | refreshToken linkId token => exact ⟨rfl, rfl⟩
    | rekey upstreams => exact ⟨rfl, rfl⟩
    | _ => cases hfactor
  have served : ∀ {endpoint request}, th.req.served = some (endpoint, request) →
      Guard rt config (during th.start e.time (seen pre)) endpoint request pre e.time e.op →
        (∃ request, th.req.served = some (.localMfa, request) ∧ Attempted rt config .mfa request pre) ∨
          ∃ record change, ReadRecord rt (inLog pre) record ∧ e.op = replaceOp record change ∧
            (change.next record).totp = record.totp ∧ (change.next record).backupCodes = record.backupCodes := by
    intro endpoint request hserved hguard
    generalize ho : e.op = o at hguard hop
    cases hguard with
    | limiting hlimiting =>
      subst hop
      rcases hlimiting with hroutine | ⟨_, _, -, -, heq⟩
      · cases hroutine
      · cases heq
    | consume hpresented hallowed hread hupdate hfactor hlocal =>
      subst hlocal
      exact Or.inl ⟨request, hserved, attempted_of_allowed hpresented hallowed⟩
    | retain hread hupdate hfactor hcallback =>
      obtain ⟨hlog, hfactors⟩ := other hread hfactor
      exact Or.inr ⟨_, _, hlog, rfl, hfactors⟩
    | _ => cases hop
  have hguard := guarantee_of_mem h hth htr
  cases hreq : th.req with
  | redeem r =>
    rw [hreq, hop] at hguard
    cases hguard
  | rekeyAll keys =>
    rw [hreq] at hguard
    rcases hguard with hroutine | ⟨record, change, hread, hupdate, hfactor, heq⟩
    · rw [hop] at hroutine
      cases hroutine
    · obtain ⟨hlog, hfactors⟩ := other hread hfactor
      exact Or.inr ⟨record, change, hlog, heq, hfactors⟩
  | _ =>
    rw [hreq] at hguard served
    exact served rfl hguard

end

/-- Guessing at local accounts is bounded, whatever else goes on. -/
theorem guessing_bounded {w : World (gateway rt config) MemoryStore}
    (h : Reachable (gateway rt config) (memoryEnv maxEntries) .empty w)
    (hwindow : 0 < config.localIdentities.attemptWindowSeconds) : GuessingBounded rt config w where
  bound factor mailbox bucket _ hsub hallowed := attempts_within h hwindow factor mailbox bucket hsub hallowed
  effects _ _ hth _ hserved _ _ _ htr hop := attempted_of_effect h hth hserved htr hop
  tokens _ _ hth _ hserved _ _ hstop _ htok := attempted_of_token h hth hserved hstop htok
  consumed _ hth _ _ _ htr _ _ _ hop := attempted_of_replaced h hth htr hop

/-! ## Attempts across the end of a bucket -/

namespace Sample

/-- A deployment that allows one attempt in five minutes. -/
def strict : Config := { Sample.config with localIdentities := ⟨true, [js "local.test"], 300, 1, 0, 1024, 1⟩ }

def strictOracle : Oracle effects MemoryStore := memoryOracle 1000 answer

abbrev StrictServer := World (gateway runtime strict) MemoryStore

/-- A guess at Bob's password. -/
def guess (time : Nat) : Visit (gateway runtime strict) :=
  visit time .localPassword true [("tx", .token 1), ("password", .text "wrong")] []

/-- Bob's address is entered, and one guess is made at the beginning of a bucket. -/
def oneGuess : StrictServer :=
  browse strictOracle .empty
    [visit 1190 .authorize false
        [("client_id", .text "notes"), ("redirect_uri", .text "https://app.test/cb"), ("response_type", .text "code"),
          ("scope", .text "openid"), ("acr_values", .text "urn:sag:acr:local-password"), ("prompt", .text "")] [],
      visit 1195 .email true [("tx", .token 0), ("email", .text "bob@local.test")] [], guess 1200]

theorem strictOracle_within : strictOracle.Within (memoryEnv 1000) := memoryOracle_within 1000 answer

theorem oneGuess_reachable : Reachable (gateway runtime strict) (memoryEnv 1000) .empty oneGuess :=
  browse_reachable strictOracle_within _ _

/-- A second guess has read the clock in the last second of the bucket, and waits. -/
def waiting : StrictServer :=
  oneGuess.start strictOracle 8 1499 ((guess 1499).req (oneGuess.handed replyTokens))

/-- A third is made in the next bucket, and then the second goes on. -/
def straddling : StrictServer :=
  (waiting.serve strictOracle 100 1501 ((guess 1501).req (waiting.handed replyTokens))).resume strictOracle 100 3

theorem straddling_reachable (hstart : oneGuess.clock ≤ 1499) (hserve : waiting.clock ≤ 1501) :
    Reachable (gateway runtime strict) (memoryEnv 1000) .empty straddling := by
  have hwaiting : Runs (gateway runtime strict) (memoryEnv 1000) oneGuess waiting :=
    Runs.start strictOracle_within hstart _
      (fun tok htok => World.known_of_handed gateway_lists ((guess 1499).own _ tok htok)) 8
  have hserved := Runs.serve strictOracle_within hserve ((guess 1501).req (waiting.handed replyTokens))
    (fun tok htok => World.known_of_handed gateway_lists ((guess 1501).own _ tok htok)) 100
  exact ((oneGuess_reachable.trans hwaiting).trans hserved).trans (Runs.resume strictOracle_within _ 100 3)

/-- The event allows a guess at Bob's password. -/
def allows (read counted : Nat) : Event effects → Bool
  | ⟨t, .store (.increment key ttl failClosed), .ok used⟩ =>
    key = attemptKey .password (addressTag runtime strict (js "bob@local.test")) read &&
      ttl = strict.localIdentities.attemptWindowSeconds && failClosed && used ≤ strict.localIdentities.maxAttempts &&
        t / strict.localIdentities.attemptWindowSeconds = counted
  | _ => false

/-- The threads that were allowed one. -/
def guessers (w : StrictServer) (read counted : Nat) : List (Thread (gateway runtime strict)) :=
  w.threads.filter fun th => th.trace.any (allows read counted)

/-- Bob's mailbox. -/
def bobsMailbox : JsString := mailboxOf runtime (js "bob@local.test")

theorem allowedIn_of_guessers {w : StrictServer} {read counted : Nat} {th : Thread (gateway runtime strict)}
    (h : th ∈ guessers w read counted) : AllowedIn runtime strict .password bobsMailbox read counted th.trace := by
  obtain ⟨e, he, hallows⟩ := List.any_eq_true.mp (List.mem_filter.mp h).2
  obtain ⟨t, o, a⟩ := e
  cases o with
  | store op =>
    cases op with
    | increment key ttl failClosed =>
      cases a with
      | ok used =>
        simp only [allows, Bool.and_eq_true, decide_eq_true_eq] at hallows
        obtain ⟨⟨⟨⟨rfl, rfl⟩, rfl⟩, hused⟩, hcounted⟩ := hallows
        exact ⟨_, t, rfl, hcounted, _, he, used, rfl, hused⟩
      | error err => cases hallows
    | _ => cases hallows
  | _ => cases hallows

end Sample

/-- A guess in its bucket is the one that is allowed. -/
theorem one_guess_bounded : (Sample.guessers Sample.oneGuess 4 4).length = 1 ∧
    GuessingBounded Sample.runtime Sample.strict Sample.oneGuess := by
  have hrun : (Sample.guessers Sample.oneGuess 4 4).length = 1 := by decide +kernel
  exact ⟨hrun, guessing_bounded Sample.oneGuess_reachable (by decide)⟩

/-- With one attempt in five minutes, two guesses whose checks read the clock in one bucket
are allowed, and two that are counted in one. -/
theorem straddling_attempts :
    Reachable (gateway Sample.runtime Sample.strict) (memoryEnv 1000) .empty Sample.straddling ∧
    Sample.strict.localIdentities.maxAttempts = 1 ∧
    (∃ th ∈ Sample.straddling.threads, ∃ th' ∈ Sample.straddling.threads, th.start ≠ th'.start ∧
      AllowedIn Sample.runtime Sample.strict .password Sample.bobsMailbox 4 4 th.trace ∧
      AllowedIn Sample.runtime Sample.strict .password Sample.bobsMailbox 4 5 th'.trace) ∧
    ∃ th ∈ Sample.straddling.threads, ∃ th' ∈ Sample.straddling.threads, th.start ≠ th'.start ∧
      AllowedIn Sample.runtime Sample.strict .password Sample.bobsMailbox 4 5 th.trace ∧
      AllowedIn Sample.runtime Sample.strict .password Sample.bobsMailbox 5 5 th'.trace := by
  have hrun : Sample.oneGuess.clock ≤ 1499 ∧ Sample.waiting.clock ≤ 1501 ∧
      (Sample.guessers Sample.straddling 4 4).map (·.start) = [1200] ∧
      (Sample.guessers Sample.straddling 4 5).map (·.start) = [1499] ∧
      (Sample.guessers Sample.straddling 5 5).map (·.start) = [1501] := by
    decide +kernel
  obtain ⟨hstart, hserve, hfirst, hsecond, hthird⟩ := hrun
  have one : ∀ {read counted start}, (Sample.guessers Sample.straddling read counted).map (·.start) = [start] →
      ∃ th ∈ Sample.straddling.threads, th.start = start ∧
        AllowedIn Sample.runtime Sample.strict .password Sample.bobsMailbox read counted th.trace := by
    intro read counted start hmap
    obtain ⟨th, hth, hstart⟩ := List.mem_map.mp (hmap ▸ List.mem_singleton_self start)
    exact ⟨th, (List.mem_filter.mp hth).1, hstart, Sample.allowedIn_of_guessers hth⟩
  obtain ⟨a, ha, ha', hallowedA⟩ := one hfirst
  obtain ⟨b, hb, hb', hallowedB⟩ := one hsecond
  obtain ⟨c, hc, hc', hallowedC⟩ := one hthird
  exact ⟨Sample.straddling_reachable hstart hserve, rfl,
    ⟨a, ha, b, hb, by rw [ha', hb']; decide, hallowedA, hallowedB⟩,
    b, hb, c, hc, by rw [hb', hc']; decide, hallowedB, hallowedC⟩

end Sag
