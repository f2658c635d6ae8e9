import Sag.RelyingParty

/-!
# Client assertions

The use of an assertion is claimed for as long as it lasts from then on, so no instant is
left at which the claim has lapsed and the assertion would still pass (`lifetime_covers`),
whatever its times are: they need not be whole seconds, and the sums behind the two windows
are rounded differently. With the memory store an assertion is then accepted once
(`assertions_single_use`).
-/

namespace Sag

open Resumable

variable {rt : Runtime} {config : Config} {maxEntries : Nat}

/-! ## The two windows -/

/-- The last second that a `Date` can name. -/
def lastSecond : Nat := 8640000000000

/-- As long as an assertion would pass, its claim is held. -/
theorem lifetime_covers {payload : Json} {exp : Rat} {skew t t' : Nat}
    (hexp : finite? (payload.get (js "exp")) = some exp) (hskew : skew ≤ 300) (ht : t ≤ t') (ht' : t' ≤ lastSecond)
    (htimely : Timely payload skew t') : t' ≤ t + MemoryStore.lifetime (wholeSeconds t (assertionTtl exp skew t)) := by
  obtain ⟨exp', hexp', hpasses⟩ := htimely.exists_exp
  obtain rfl : exp = exp' := Option.some.inj (hexp.symm.trans hexp')
  unfold lastSecond at ht'
  by_cases hsoon : t' ≤ t + 1
  · unfold MemoryStore.lifetime
    omega
  -- the margin by which the assertion passes survives both roundings of its lifetime
  have hcast : ((t' : Int) : ℚ) = t' := by push_cast; rfl
  have hlarge : ((t' : Int) : ℚ) < 2 ^ 50 := by
    rw [hcast]
    exact_mod_cast (show t' < 2 ^ 50 by omega)
  obtain ⟨h, hmargin, hnear, hround⟩ := Binary64.exists_margin (show (1 : Int) ≤ t' by omega) hlarge (by
    rw [hcast]
    exact hpasses)
  have small : ∀ n : Int, -(2 ^ 50) < n → n < 2 ^ 50 → |(n : ℚ)| < 2 ^ 50 := by
    intro n hlow hhigh
    rw [abs_lt]
    exact ⟨by exact_mod_cast hlow, by exact_mod_cast hhigh⟩
  have hleft : (((t' - t - skew : Int)) : ℚ) - h ≤ Binary64.round (exp - t) := by
    refine Binary64.margin_round hmargin (small _ (by omega) (by omega)) ?_
    push_cast at hnear ⊢
    linarith
  have httl : (((t' - t : Int)) : ℚ) - h ≤ assertionTtl exp skew t := by
    refine Binary64.margin_round hmargin (small _ (by omega) (by omega)) ?_
    push_cast at hleft ⊢
    linarith
  have hsum : ((t' : Int) : ℚ) ≤ Binary64.round (t + max 1 (assertionTtl exp skew t)) := by
    refine hround _ ?_
    have hmax := le_max_right 1 (assertionTtl exp skew t)
    push_cast at httl ⊢
    linarith
  have hwhole : (t' : Int) - t ≤ wholeSeconds t (assertionTtl exp skew t) := by
    have hfloor := Int.le_floor.mpr hsum
    unfold wholeSeconds
    omega
  unfold MemoryStore.lifetime
  omega

/-! ## Acceptance -/

/-- An assertion with this payload is accepted. -/
def AcceptsAssertion (rt : Runtime) (payload : Json) (e : Event effects) : Prop :=
  ∃ clientId assertion header, decodeJwt rt assertion = some (header, payload) ∧
    e.op = .note (.assertionAccepted clientId assertion)

/-- The claim on it is won. -/
def ClaimsAssertion (rt : Runtime) (config : Config) (payload : Json) (e : Event effects) : Prop :=
  ∃ clientId claims t, assertionClaims clientId payload = .ok claims ∧
    e = ⟨t, .store (assertionClaim rt config clientId claims t), (.ok true : Except JsError Bool)⟩

variable {w : World (server rt config) MemoryStore}

/-- Every call checks the times of its assertion and claims it in the same second. -/
def ChecksAtOnce (w : World (server rt config) MemoryStore) : Prop :=
  ∀ th ∈ w.threads, ∀ pre e e' post clientId jti ttl, th.trace = pre ++ e :: e' :: post →
    e'.op = .store (.claim (assertionKey rt clientId jti) ttl) → e'.time = e.time

/-- Assertions are single use over their whole window. -/
structure SingleUse (w : World (server rt config) MemoryStore) : Prop where
  /-- No assertion is accepted twice, -/
  once : ∀ payload, w.log.Pairwise fun e e' => ¬ (AcceptsAssertion rt payload e ∧ AcceptsAssertion rt payload e')
  /-- and once it has been claimed, the claim is held at every instant at which it would
  pass. -/
  held : ∀ payload clientId claims t, assertionClaims clientId payload = .ok claims →
    ⟨t, .store (assertionClaim rt config clientId claims t), (.ok true : Except JsError Bool)⟩ ∈ w.log →
      ∀ t', t ≤ t' → t' ≤ lastSecond → Timely payload config.tokens.clockSkewSeconds t' →
        ∃ key ttl, assertionClaim rt config clientId claims t = .claim key ttl ∧ t' ≤ t + MemoryStore.lifetime ttl

/-- The claims of a payload name its client. -/
theorem assertionClaims_payload {clientId : JsString} {payload : Json} {claims : AssertionClaims}
    (h : assertionClaims clientId payload = .ok claims) :
    (payload.get (js "sub")).any (fun sub => sub.same (.str clientId)) = true ∧
      ((payload.get (js "jti")).bind Json.string?).filter (· ≠ []) = some claims.jti ∧
      finite? (payload.get (js "exp")) = some claims.exp := by
  unfold assertionClaims at h
  split at h
  · cases h
  · next hsub =>
    split at h
    · cases h
    · next jti hjti =>
      split at h
      · next exp iat hexp hiat =>
        dsimp only at h
        split at h
        · cases h
        · cases h
          exact ⟨by simpa using hsub, hjti, hexp⟩
      · cases h

theorem eq_of_same {v : Json} {s : JsString} (h : v.same (.str s) = true) : v = .str s := by
  cases v with
  | str s' =>
    have heq : s' = s := by simpa [Json.same] using h
    rw [heq]
  | _ => cases h

/-- A payload has one client and one set of claims. -/
theorem assertionClaims_unique {clientId clientId' : JsString} {payload : Json} {claims claims' : AssertionClaims}
    (h : assertionClaims clientId payload = .ok claims) (h' : assertionClaims clientId' payload = .ok claims') :
    clientId = clientId' ∧ claims = claims' := by
  obtain ⟨hsub, hjti, hexp⟩ := assertionClaims_payload h
  obtain ⟨hsub', hjti', hexp'⟩ := assertionClaims_payload h'
  constructor
  · cases hget : payload.get (js "sub") with
    | none =>
      rw [hget] at hsub
      cases hsub
    | some sub =>
      rw [hget] at hsub hsub'
      exact Json.str.inj ((eq_of_same hsub).symm.trans (eq_of_same hsub'))
  · obtain ⟨jti, exp⟩ := claims
    obtain ⟨jti', exp'⟩ := claims'
    obtain rfl : jti = jti' := Option.some.inj (hjti.symm.trans hjti')
    obtain rfl : exp = exp' := Option.some.inj (hexp.symm.trans hexp')
    rfl

/-- Two events of a list, one after the other. -/
theorem split_of_sublist {α : Type} {a b : α} {l : List α} (h : [a, b].Sublist l) :
    ∃ pre mid post, l = pre ++ a :: mid ++ b :: post := by
  obtain ⟨r₁, r₂, rfl, ha, hb⟩ := List.cons_sublist_iff.mp h
  obtain ⟨p, q, rfl⟩ := List.append_of_mem ha
  obtain ⟨p', q', rfl⟩ := List.append_of_mem (List.singleton_sublist.mp hb)
  exact ⟨p, q ++ p', q', by simp⟩

section
variable (h : Reachable (server rt config) (memoryEnv maxEntries) .empty w)
include h

/-- Before an assertion is accepted, it was in time, and then its claim was won. -/
theorem claim_of_accepts (hstore : config.stateStore = true) {th : Thread (server rt config)} (hth : th ∈ w.threads)
    {pre post : List (Event effects)} {e : Event effects} (htr : th.trace = pre ++ e :: post) {payload : Json}
    (haccepts : AcceptsAssertion rt payload e) :
    ∃ h₀ t₀ c, pre = h₀ ++ [⟨t₀, .suspend, ()⟩, c] ∧ ClaimsAssertion rt config payload c ∧
      Timely payload config.tokens.clockSkewSeconds t₀ := by
  obtain ⟨clientId, assertion, header, hdecoded, hop⟩ := haccepts
  have hguard := server_guarantee h hth htr
  rw [hop] at hguard
  generalize hnote : Op.note (.assertionAccepted clientId assertion) = o at hguard
  have hroutine : ¬ o.routine = true := by
    rw [← hnote]
    exact nofun
  cases hreq : th.req with
  | inl call =>
    exfalso
    rw [hreq] at hguard
    have notServed : ∀ {endpoint request},
        ¬ Guard rt config (during th.start e.time (seen w.log)) endpoint request pre e.time o := by
      intro endpoint request hg
      cases hg with
      | limiting hlimiting =>
        rcases hlimiting with hlimiting | ⟨_, _, -, -, heq⟩
        · exact hroutine hlimiting
        · rw [heq] at hnote
          cases hnote
      | _ => cases hnote
    cases call with
    | redeem r =>
      have hguard : RedeemGuard rt r pre e.time o := hguard
      cases hguard <;> cases hnote
    | rekeyAll keys =>
      rcases hguard with hlet | ⟨_, _, -, -, -, heq⟩
      · exact hroutine hlet
      · rw [heq] at hnote
        cases hnote
    | _ => exact notServed hguard
  | inr call =>
    rw [hreq] at hguard
    have hguard : TokenGuard rt config pre e.time o := hguard
    cases hguard with
    | routine hlet => exact absurd hlet hroutine
    | redeem => cases hnote
    | assertion hguard =>
      cases hguard with
      | claim _ _ _ => cases hnote
      | unclaimed hstoreless =>
        rw [hstore] at hstoreless
        cases hstoreless
      | @accepted h₀ t₀ t₁ _ clientId' assertion' header' payload' claims hdecoded' htimely hchecked =>
        cases hnote
        rw [hdecoded] at hdecoded'
        cases hdecoded'
        exact ⟨h₀, t₀, _, rfl, ⟨clientId, claims, t₁, hchecked, rfl⟩, htimely⟩

/-- The claims on an assertion that are won while it would pass. -/
theorem claimed_once (hskew : config.tokens.clockSkewSeconds ≤ 300) (hclock : w.clock ≤ lastSecond) (payload : Json) :
    w.log.Pairwise fun e e' =>
      ¬ ((ClaimsAssertion rt config payload e ∧ Timely payload config.tokens.clockSkewSeconds e.time) ∧
        ClaimsAssertion rt config payload e' ∧ Timely payload config.tokens.clockSkewSeconds e'.time) := by
  by_cases hclaims : ∃ clientId claims, assertionClaims clientId payload = .ok claims
  · obtain ⟨clientId, claims, hchecked⟩ := hclaims
    refine wins_once (assertionKey rt clientId claims.jti) h.replays (fun e he => ?_)
      fun t ttl t' ttl' _ hmem' hp hp' hle => ?_
    · obtain ⟨⟨clientId', claims', t, hchecked', rfl⟩, -⟩ := he
      obtain ⟨rfl, rfl⟩ := assertionClaims_unique hchecked hchecked'
      exact ⟨t, _, rfl⟩
    · obtain ⟨⟨clientId', claims', t₀, hchecked', heq⟩, -⟩ := hp
      obtain ⟨rfl, rfl⟩ := assertionClaims_unique hchecked hchecked'
      obtain ⟨rfl, hop, -⟩ := Event.mk.inj heq
      obtain ⟨-, httl⟩ := StoreOp.claim.inj (Op.store.inj hop)
      have hlast : t' ≤ lastSecond := by
        obtain ⟨th, hth, he⟩ := h.exists_thread hmem'
        exact Nat.le_trans ((h.threads_sound th hth).timed _ he).2 hclock
      rw [httl]
      exact lifetime_covers (assertionClaims_payload hchecked).2.2 hskew hle hlast hp'.2
  · refine List.Pairwise.imp (R := fun _ _ => True) (fun _ hboth => ?_) (List.pairwise_of_forall fun _ _ => trivial)
    obtain ⟨⟨⟨clientId, claims, _, hchecked, -⟩, -⟩, -⟩ := hboth
    exact hclaims ⟨clientId, claims, hchecked⟩

/-- Client assertions are single use over their whole acceptance window. -/
theorem assertions_single_use (hstore : config.stateStore = true) (hskew : config.tokens.clockSkewSeconds ≤ 300)
    (hclock : w.clock ≤ lastSecond) (honce : ChecksAtOnce w) : SingleUse w where
  once payload := by
    have hwins := claimed_once h hskew hclock payload
    have hthreads := List.pairwise_flatMap.mp ((h.log_perm.pairwise_iff fun hr hw => hr hw.symm).mp hwins)
    -- an acceptance stands right after a claim that was won in time
    have wins : ∀ {th : Thread (server rt config)}, th ∈ w.threads → ∀ {pre post e}, th.trace = pre ++ e :: post →
        AcceptsAssertion rt payload e → ∃ pre₀ c, pre = pre₀ ++ [c] ∧ ClaimsAssertion rt config payload c ∧
          Timely payload config.tokens.clockSkewSeconds c.time := by
      intro th hth pre post e htr haccepts
      obtain ⟨h₀, t₀, c, rfl, hclaims, htimely⟩ := claim_of_accepts h hstore hth htr haccepts
      refine ⟨h₀ ++ [⟨t₀, .suspend, ()⟩], c, by simp, hclaims, ?_⟩
      obtain ⟨clientId, claims, t, -, rfl⟩ := hclaims
      have hsplit : th.trace = h₀ ++ ⟨t₀, .suspend, ()⟩ ::
          ⟨t, .store (assertionClaim rt config clientId claims t), (.ok true : Except JsError Bool)⟩ :: (e :: post) := by
        rw [htr, List.append_assoc]
        rfl
      have htime : t = t₀ := honce th hth h₀ _ _ _ clientId claims.jti _ hsplit rfl
      rw [← htime] at htimely
      exact htimely
    refine (h.log_perm.pairwise_iff fun hr hw => hr hw.symm).mpr (List.pairwise_flatMap.mpr ⟨fun th hth => ?_, ?_⟩)
    · refine List.pairwise_iff_forall_sublist.mpr fun {e e'} hsub => ?_
      intro hboth
      obtain ⟨pre, mid, post, htr⟩ := split_of_sublist hsub
      obtain ⟨pre₀, c, rfl, hwin⟩ := wins hth (by rw [htr, List.append_assoc]; rfl) hboth.1
      obtain ⟨pre₁, c', hpre, hwin'⟩ := wins hth htr hboth.2
      -- the second claim comes after the first acceptance
      rcases List.eq_nil_or_concat mid with rfl | ⟨mid, x, rfl⟩
      · obtain ⟨-, heq⟩ := List.append_inj' hpre rfl
        obtain ⟨⟨_, _, _, -, rfl⟩, -⟩ := hwin'
        obtain ⟨_, _, _, -, hop⟩ := hboth.1
        rw [(List.cons.inj heq).1] at hop
        cases hop
      · rw [List.concat_eq_append] at hpre htr
        have hlast : pre₀ ++ [c] ++ e :: mid ++ [x] = pre₁ ++ [c'] := by simpa using hpre
        obtain ⟨-, heq⟩ := List.append_inj' hlast rfl
        obtain rfl := (List.cons.inj heq).1
        refine List.pairwise_iff_forall_sublist.mp (hthreads.1 th hth) ?_ ⟨hwin, hwin'⟩
        have hfirst : [c].Sublist (pre₀ ++ [c]) := List.sublist_append_right _ _
        have hsecond : [x].Sublist (e :: (mid ++ [x]) ++ e' :: post) := by simp
        rw [htr, List.append_assoc]
        exact hfirst.append hsecond
    · refine hthreads.2.imp_of_mem fun {th th'} hth hth' hR e he e' he' hboth => ?_
      obtain ⟨pre, post, htr⟩ := List.append_of_mem he
      obtain ⟨pre', post', htr'⟩ := List.append_of_mem he'
      obtain ⟨pre₀, c, rfl, hwin⟩ := wins hth htr hboth.1
      obtain ⟨pre₁, c', rfl, hwin'⟩ := wins hth' htr' hboth.2
      exact hR c (by rw [htr]; simp) c' (by rw [htr']; simp) ⟨hwin, hwin'⟩
  held payload clientId claims t hchecked _ t' hle hlast htimely :=
    ⟨_, _, rfl, lifetime_covers (assertionClaims_payload hchecked).2.2 hskew hle hlast htimely⟩

end

namespace Sample

/-- The sample platform, with the two parts of one assertion to parse. -/
def bankRuntime : Runtime :=
  { runtime with
    parseJson := fun text =>
      if text = js "h" then some (.obj [(js "alg", .str (js "ES256"))])
      else if text = js "p" then
        some (.obj [(js "iss", .str (js "bank")), (js "sub", .str (js "bank")), (js "aud", .str (js "https://sag.test")),
          (js "jti", .str (js "j1")), (js "iat", .num 1000), (js "exp", .num (2061 / 2))])
      else none }

/-- A client that signs its requests. -/
def bank : Client :=
  { notes with
    clientId := js "bank"
    tokenEndpointAuthMethod := some (js "private_key_jwt")
    jwks := some (.obj [(js "keys", .arr [.obj []])]) }

def bankAnswer : (o : Op) → o.Ans
  | .resolveClient _ => .ok (some bank)
  | o => answer o

/-- Its assertion, sent to the token endpoint. -/
def bankCalls (time : Nat) : Visit (server bankRuntime Sample.config) :=
  tokenVisit time [("grant_type", .text "authorization_code"), ("client_id", .text "bank"),
    ("client_assertion", .text "aA.cA.aA"),
    ("client_assertion_type", .text "urn:ietf:params:oauth:client-assertion-type:jwt-bearer")]

/-- The same assertion twice, the second time in its last second. -/
def bankTwice : World (server bankRuntime Sample.config) MemoryStore :=
  operate (memoryOracle 1000 bankAnswer) .empty [bankCalls 1010, bankCalls 1090]

def accepts (e : Event effects) : Bool :=
  match e.op with
  | .note (.assertionAccepted _ _) => true
  | _ => false

/-- It expires at half past a second, and is accepted once up to a minute after. -/
theorem bankTwice_singleUse :
    SingleUse bankTwice ∧ bankTwice.clock = 1090 ∧ (bankTwice.log.filter accepts).length = 1 := by
  have hreach : Reachable (server bankRuntime Sample.config) (memoryEnv 1000) .empty bankTwice :=
    operate_reachable (memoryOracle_within 1000 bankAnswer) .empty _
  have hrun : (∀ th ∈ bankTwice.threads, ∀ e ∈ th.trace, e.time = th.start) ∧ bankTwice.clock = 1090 ∧
      (bankTwice.log.filter accepts).length = 1 := by
    decide +kernel
  refine ⟨assertions_single_use hreach rfl (by decide) (by rw [hrun.2.1]; decide) ?_, hrun.2⟩
  -- each call is served within one second
  intro th hth pre e e' post _ _ _ htr _
  have htime := hrun.1 th hth
  rw [htr] at htime
  rw [htime e' (by simp), htime e (by simp)]

end Sample

end Sag
