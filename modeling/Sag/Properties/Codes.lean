import Sag.Browser

/-!
# Authorization codes

A code is claimed in the store after every other check has passed, under a claim
that outlives the code by a minute. So with the memory store a code is redeemed
once, a redemption that fails on anything else has not touched the store, and the
only thing that can stand between a correct redemption and its success is another
one, or a store that is full (`codes_single_use`).

The minute is what a call may take between opening a code and claiming it
(`Prompt`): a code that had not expired when it was opened is then claimed before
the claim of anybody else lapses.
-/

namespace Sag

open Resumable

variable {rt : Runtime} {config : Config} {maxEntries : Nat}
variable {w : World (gateway rt config) MemoryStore}

/-- The thread has redeemed the code. -/
def RedeemedBy (payload : CodePayload) (th : Thread (gateway rt config)) : Prop :=
  ∃ r t out, th.req = .redeem r ∧ r.code.opens = some (.code payload) ∧
    th.stop = some (t, .ok (.redeemed out))

/-- No redemption spends a minute between opening its code and claiming it. -/
def Prompt (w : World (gateway rt config) MemoryStore) : Prop :=
  ∀ th ∈ w.threads, ∀ r, th.req = .redeem r → ∀ pre e post op, th.trace = pre ++ e :: post →
    e.op = .store op → e.time < openedAt pre e.time + 60

/-- The event wins the claim on the code. -/
def WinsCode (payload : CodePayload) (e : Event effects) : Prop := ∃ t, e = claimed payload t (.ok true)

/-- Codes are used once, by whom they are for, and only a success uses them up. -/
structure UsedOnce (maxEntries : Nat) (w : World (gateway rt config) MemoryStore) : Prop where
  once : ∀ payload, w.threads.Pairwise fun th th' => ¬ (RedeemedBy payload th ∧ RedeemedBy payload th')
  checked : ∀ th ∈ w.threads, ∀ r t out, th.req = .redeem r → th.stop = some (t, .ok (.redeemed out)) →
    ∃ payload, r.code.opens = some (.code payload) ∧ Checks rt r payload ∧ out = migrateCode payload
  harmless : ∀ th ∈ w.threads, ∀ r, th.req = .redeem r → ∀ pre e post op, th.trace = pre ++ e :: post →
    e.op = .store op → ∃ payload, r.code.opens = some (.code payload) ∧ Checks rt r payload ∧
      openedAt pre e.time ≤ payload.exp ∧ op = codeClaim payload e.time
  redeemable : ∀ th ∈ w.threads, ∀ r t result payload, th.req = .redeem r → th.stop = some (t, result) →
    r.code.opens = some (.code payload) → Checks rt r payload → openedAt th.trace t ≤ payload.exp →
      result = .ok (.redeemed (migrateCode payload)) ∨
        (∃ t₀, claimed payload t₀ (.error (MemoryStore.fullMessage maxEntries " live records")) ∈ th.trace) ∨
        ∃ th' ∈ w.threads, ∃ r' payload', th'.req = .redeem r' ∧ r'.code.opens = some (.code payload') ∧
          payload'.jti = payload.jti ∧ ∃ e ∈ th'.trace, WinsCode payload' e

/-! ## One redemption -/

variable {σ : Type} {env : Environment effects σ} {s : σ}

/-- What a redemption comes to. -/
theorem redeem_outcome {w : World (gateway rt config) σ} (h : Reachable (gateway rt config) env s w)
    {th : Thread (gateway rt config)} (hth : th ∈ w.threads) {r : Redemption} (hreq : th.req = .redeem r)
    {t : Nat} {result : Except JsError Reply} (hstop : th.stop = some (t, result)) :
    (∀ reply, result = .ok reply →
      ∃ out, reply = .redeemed out ∧ Redeemed rt r config.stateStore th.trace out) ∧
    ∀ e, result = .error e → Refused rt r t th.trace := by
  let C : Contract effects := ⟨during th.start t fun _ _ _ => True, RedeemGuard rt r⟩
  have hsat : ((gateway rt config).prog th.req).Sat C (C.Ends fun t h _ => Refused rt r t h)
      (C.Ends fun _ h reply => ∃ out, reply = .redeemed out ∧ Redeemed rt r config.stateStore h out)
      ⟨none, []⟩ := by
    rw [hreq]
    refine Prog.sat_bind.mpr ((redeemCode_sat (C := C) (fun _ _ _ h => h) config.stateStore).mono
      (fun _ _ he => he) fun s out hout => ?_)
    exact fun t ht => ⟨out, rfl, hout t ht⟩
  have hsound := h.threads_sound th hth
  obtain ⟨hle, -, htimes, -⟩ := hsound.ended t result hstop
  exact hsound.outcome hsat (fun e he => ⟨⟨(hsound.timed e he).1, htimes e he⟩, trivial⟩) hstop
    ⟨hle, Nat.le_refl t⟩

/-- A redemption calls the store only to claim a code that has passed its checks. -/
theorem redeem_guard {w : World (gateway rt config) σ} (h : Reachable (gateway rt config) env s w)
    {th : Thread (gateway rt config)} (hth : th ∈ w.threads) {r : Redemption} (hreq : th.req = .redeem r)
    {pre post : List (Event effects)} {e : Event effects} {id : JsString} {ttl : Int}
    (htr : th.trace = pre ++ e :: post) (hop : e.op = .store (.claim id ttl)) :
    ∃ payload, r.code.opens = some (.code payload) ∧ Checks rt r payload ∧
      openedAt pre e.time ≤ payload.exp ∧ .claim id ttl = codeClaim payload e.time := by
  have hguard := guarantee_of_log h hth htr
  rw [hreq] at hguard
  have hguard : RedeemGuard rt r pre e.time (.store (.claim id ttl)) := hop ▸ hguard
  generalize hclaim : StoreOp.claim id ttl = op at hguard
  cases hguard with
  | claim hopens hchecks hunexpired => exact ⟨_, hopens, hchecks, hunexpired, rfl⟩

theorem revocationKey_ne_codeClaimKey (sid jti : JsString) : revocationKey sid ≠ codeClaimKey jti := by
  intro h
  have hhead := congrArg List.head? h
  have hs : (js "session-revoked:").head? = some 115 := by decide
  have ha : (js "authorization-code:").head? = some 97 := by decide
  simp [revocationKey, codeClaimKey, List.head?_append, hs, ha] at hhead

/-- Nobody but a redemption claims a code. -/
theorem redeem_of_claim {w : World (gateway rt config) σ} (h : Reachable (gateway rt config) env s w)
    {th : Thread (gateway rt config)} (hth : th ∈ w.threads) {pre post : List (Event effects)}
    {e : Event effects} {jti : JsString} {ttl : Int} (htr : th.trace = pre ++ e :: post)
    (hop : e.op = .store (.claim (codeClaimKey jti) ttl)) : ∃ r, th.req = .redeem r := by
  have hguard := guarantee_of_log h hth htr
  have notServed : ∀ {endpoint request},
      ¬ Guard rt config (during th.start e.time (seen w.log)) endpoint request pre e.time
        (.store (.claim (codeClaimKey jti) ttl)) := by
    intro endpoint request hg
    generalize ho : Op.store (.claim (codeClaimKey jti) ttl) = o at hg
    cases hg with
    | limiting hlimiting =>
      subst ho
      rcases hlimiting with hroutine | ⟨_, _, -, hcounts, heq⟩
      · cases hroutine
      · rw [← Op.store.inj heq] at hcounts
        cases hcounts
    | revoke hpast hbefore =>
      have hclaim := Op.store.inj ho
      exact revocationKey_ne_codeClaimKey _ _ (StoreOp.claim.inj hclaim).1.symm
    | _ => cases ho
  rw [hop] at hguard
  cases hreq : th.req with
  | redeem r => exact ⟨r, rfl⟩
  | rekeyAll keys =>
    rw [hreq] at hguard
    rcases hguard with hroutine | ⟨_, _, _, _, _, heq⟩
    · cases hroutine
    · cases heq
  | _ =>
    rw [hreq] at hguard
    exact absurd hguard notServed

/-! ## Any number of redemptions -/

section
variable (h : Reachable (gateway rt config) (memoryEnv maxEntries) .empty w)
include h

/-- A claim on a code comes from a redemption of a code with its identifier, with
its checks passed and its time not up. -/
theorem redemption_of_claim {e : Event effects} (he : e ∈ w.log) {jti : JsString} {ttl : Int}
    (hop : e.op = .store (.claim (codeClaimKey jti) ttl)) :
    ∃ th ∈ w.threads, ∃ r payload pre post, th.req = .redeem r ∧ th.trace = pre ++ e :: post ∧
      r.code.opens = some (.code payload) ∧ openedAt pre e.time ≤ payload.exp ∧
        payload.jti = jti ∧ ttl = (payload.exp : Int) - e.time + 60 := by
  obtain ⟨th, hth, hmem⟩ := h.exists_thread he
  obtain ⟨pre, post, htr⟩ := List.append_of_mem hmem
  obtain ⟨r, hreq⟩ := redeem_of_claim h hth htr hop
  obtain ⟨payload, hopens, -, hunexpired, hclaim⟩ := redeem_guard h hth hreq htr hop
  obtain ⟨hkey, httl⟩ := StoreOp.claim.inj hclaim
  exact ⟨th, hth, r, payload, pre, post, hreq, htr, hopens, hunexpired, (List.append_cancel_left hkey).symm, httl⟩

/-- A code is claimed within a minute of its expiry. -/
theorem claimed_in_time (hprompt : Prompt w) {payload : CodePayload} {t : Nat} {r : Except JsError Bool}
    (he : claimed payload t r ∈ w.log) : t < payload.exp + 60 := by
  obtain ⟨th, hth, r', payload', pre, post, hreq, htr, hopens, hunexpired, -, httl⟩ :=
    redemption_of_claim h he rfl
  have hlate := hprompt th hth r' hreq pre _ post _ htr rfl
  have hsame : (payload.exp : Int) - t + 60 = (payload'.exp : Int) - t + 60 := httl
  have htime : t < openedAt pre t + 60 := hlate
  have hexp : openedAt pre t ≤ payload'.exp := hunexpired
  omega

/-- One claim on a code is won. -/
theorem code_won_once (hprompt : Prompt w) (payload : CodePayload) :
    w.log.Pairwise fun e e' => ¬ (WinsCode payload e ∧ WinsCode payload e') := by
  refine wins_once (codeClaimKey payload.jti) h.replays (fun e he => ?_)
    fun t ttl t' ttl' hmem hmem' hp hp' _ => ?_
  · obtain ⟨t, rfl⟩ := he
    exact ⟨t, _, rfl⟩
  · obtain ⟨t₀, heq⟩ := hp
    obtain ⟨t₁, heq'⟩ := hp'
    rw [heq'] at hmem'
    have htime := claimed_in_time h hprompt hmem'
    obtain ⟨rfl, hop, -⟩ := Event.mk.inj heq
    obtain ⟨rfl, -, -⟩ := Event.mk.inj heq'
    obtain ⟨-, httl⟩ := StoreOp.claim.inj (Op.store.inj hop)
    simp only [MemoryStore.lifetime]
    omega

/-- A correct redemption succeeds, unless the store is full or the code is used. -/
theorem redeemed_of_checks {th : Thread (gateway rt config)}
    (hth : th ∈ w.threads) {r : Redemption} (hreq : th.req = .redeem r) {t : Nat}
    {result : Except JsError Reply} (hstop : th.stop = some (t, result)) {payload : CodePayload}
    (hopens : r.code.opens = some (.code payload)) (hchecks : Checks rt r payload)
    (hunexpired : openedAt th.trace t ≤ payload.exp) :
    result = .ok (.redeemed (migrateCode payload)) ∨
      (∃ t₀, claimed payload t₀ (.error (MemoryStore.fullMessage maxEntries " live records")) ∈ th.trace) ∨
      ∃ th' ∈ w.threads, ∃ r' payload', th'.req = .redeem r' ∧ r'.code.opens = some (.code payload') ∧
        payload'.jti = payload.jti ∧ ∃ e ∈ th'.trace, WinsCode payload' e := by
  obtain ⟨hok, herr⟩ := redeem_outcome h hth hreq hstop
  cases result with
  | ok reply =>
    obtain ⟨out, rfl, payload', hopens', -, rfl, -⟩ := hok reply rfl
    obtain rfl : payload = payload' := by simpa [hopens] using hopens'
    exact Or.inl rfl
  | error e =>
    rcases herr e rfl payload hopens hchecks with hlate | ⟨h₀, t₀, fresh, htr, hlost⟩
    · omega
    · -- the claim was refused, so the code had been claimed before
      have hmem : claimed payload t₀ fresh ∈ th.trace := by rw [htr]; simp
      obtain ⟨pre, post, hlog⟩ := List.append_of_mem (h.mem_log hth hmem)
      have hreplays := h.replays
      rw [hlog] at hreplays
      obtain ⟨s₁, s₂, hpre, -, henv, -⟩ := hreplays.split
      have hclaim := (memoryEnv_claim henv).1
      cases fresh with
      | error err =>
        obtain rfl := MemoryStore.claim_error hclaim
        exact Or.inr (Or.inl ⟨t₀, hmem⟩)
      | ok fresh =>
        cases fresh with
        | true => exact absurd rfl hlost
        | false =>
          obtain ⟨E, hget, -⟩ := MemoryStore.claim_false hclaim
          obtain ⟨t', ttl, hwon, -⟩ := won_of_claimed hpre hget
          have hwon' : won (codeClaimKey payload.jti) t' ttl ∈ w.log := by rw [hlog]; simp [hwon]
          obtain ⟨th', hth', r', payload', pre', post', hreq', htr', hopens', -, hjti, httl⟩ :=
            redemption_of_claim h hwon' rfl
          refine Or.inr (Or.inr ⟨th', hth', r', payload', hreq', hopens', hjti,
            won (codeClaimKey payload.jti) t' ttl, by rw [htr']; simp, t', ?_⟩)
          have httl' : ttl = (payload'.exp : Int) - t' + 60 := httl
          show won _ t' ttl = won (codeClaimKey payload'.jti) t' ((payload'.exp : Int) - t' + 60)
          rw [httl', hjti]

/-- Authorization codes are single use and bound. -/
theorem codes_single_use (hstore : config.stateStore = true) (hprompt : Prompt w) : UsedOnce maxEntries w where
  once payload := by
    have hthreads := h.threads_pairwise (fun hr hw => hr hw.symm) (code_won_once h hprompt payload)
    refine hthreads.imp_of_mem fun hth hth' hR => ?_
    rintro ⟨⟨r, t, out, hreq, hopens, hstop⟩, r', t', out', hreq', hopens', hstop'⟩
    have wins : ∀ {th : Thread (gateway rt config)} {r t out}, th ∈ w.threads → th.req = .redeem r →
        r.code.opens = some (.code payload) → th.stop = some (t, .ok (.redeemed out)) →
        ∃ e ∈ th.trace, WinsCode payload e := by
      intro th r t out hth hreq hopens hstop
      obtain ⟨_, _, payload', hopens', -, -, hwin⟩ := (redeem_outcome h hth hreq hstop).1 _ rfl
      obtain rfl : payload = payload' := by simpa [hopens] using hopens'
      obtain ⟨h₀, t₀, htr⟩ := hwin hstore
      exact ⟨_, by rw [htr]; simp, t₀, rfl⟩
    obtain ⟨e, he, hwin⟩ := wins hth hreq hopens hstop
    obtain ⟨e', he', hwin'⟩ := wins hth' hreq' hopens' hstop'
    exact hR e he e' he' ⟨hwin, hwin'⟩
  checked th hth r t out hreq hstop := by
    obtain ⟨_, heq, payload, hopens, hchecks, hout, -⟩ := (redeem_outcome h hth hreq hstop).1 _ rfl
    obtain rfl := Reply.redeemed.inj heq
    exact ⟨payload, hopens, hchecks, hout⟩
  harmless th hth r hreq pre e post op htr hop := by
    have hguard := guarantee_of_log h hth htr
    rw [hreq] at hguard
    have hguard : RedeemGuard rt r pre e.time (.store op) := hop ▸ hguard
    cases hguard with
    | claim hopens hchecks hunexpired => exact ⟨_, hopens, hchecks, hunexpired, rfl⟩
  redeemable th hth r t result payload hreq hstop hopens hchecks hunexpired :=
    redeemed_of_checks h hth hreq hstop hopens hchecks hunexpired

end

/-- A redemption of the `i`-th token, which a code of the sample was issued as. -/
def Sample.redeem (time i : Nat) : Visit (gateway Sample.runtime Sample.config) where
  time
  req toks := .redeem ⟨Param.value toks (.token i), js "notes", some (js "https://app.test/cb"), none⟩
  own _ _ h := List.mem_of_getElem? h

/-- Ann's code is redeemed, and presented again. -/
def Sample.redeemedTwice : Sample.Server :=
  Sample.after (Sample.signIn "notes" "" ++ [Sample.redeem 1025 2, Sample.redeem 1030 2])

/-- It has redeemed a code. -/
def Sample.redeems (th : Thread (gateway Sample.runtime Sample.config)) : Bool :=
  match th.req, th.stop with
  | .redeem r, some (_, .ok (.redeemed _)) => (r.code.opens.bind asCode).isSome
  | _, _ => false

/-- Calls that take no time are prompt. -/
theorem Prompt.of_instant (h : ∀ th ∈ w.threads, ∀ e ∈ th.trace, e.time = th.start) : Prompt w := by
  intro th hth r _ pre e post op htr _
  have htime : ∀ x ∈ pre ++ e :: post, x.time = th.start := htr ▸ h th hth
  have he : e.time = th.start := htime e (by simp)
  have hopened : openedAt pre e.time = th.start := by
    unfold openedAt
    split
    · next x y rest => exact htime y (by simp)
    · exact he
  omega

theorem ann_redeems_once : (∃ th ∈ Sample.redeemedTwice.threads, ∃ payload, RedeemedBy payload th) ∧
    UsedOnce 1000 Sample.redeemedTwice := by
  have hrun : (∀ th ∈ Sample.redeemedTwice.threads, ∀ e ∈ th.trace, e.time = th.start) ∧
      ∃ th ∈ Sample.redeemedTwice.threads, Sample.redeems th = true := by
    decide +kernel
  refine ⟨?_, codes_single_use (Sample.after_reachable Sample.oracle_within
    (Sample.signIn "notes" "" ++ [Sample.redeem 1025 2, Sample.redeem 1030 2])) rfl (.of_instant hrun.1)⟩
  obtain ⟨th, hth, hredeemed⟩ := hrun.2
  refine ⟨th, hth, ?_⟩
  unfold Sample.redeems at hredeemed
  split at hredeemed
  · next r t out hreq hstop =>
    obtain ⟨⟨payload, exp⟩, hopen⟩ := Option.isSome_iff_exists.mp hredeemed
    obtain ⟨tok, htok, hcode⟩ := Option.bind_eq_some_iff.mp hopen
    cases tok <;> simp [asCode] at hcode
    exact ⟨_, r, t, out, hreq, htok, hstop⟩
  · cases hredeemed

end Sag
