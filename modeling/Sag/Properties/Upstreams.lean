import Sag.Browser

/-!
# What a domain's own provider vouches for

A provider that is configured for a domain is asked for an address in that domain. The check
reads the domain between the first `@` of the address and the second, the session keeps what
stands after the last one. For an address with one `@` these are the same; where an address
has several, the check may pass for one part and the address belong to another
(`vouches_for_own`).
-/

namespace Sag

open Resumable

variable {rt : Runtime}

/-- Mapping to lower case changes nothing the second time. -/
def LowerStable (rt : Runtime) : Prop := ∀ s, rt.cases.toLowerCase (rt.cases.toLowerCase s) = rt.cases.toLowerCase s

/-- The address lies in the domain of the upstream, by what stands after its last `@`. -/
def OwnAddress (u : Upstream) (email : JsString) : Prop :=
  ∃ loc domain, breakLast atSign email = some (loc, domain) ∧ underDomain domain u.domain = true

/-- Everything but the check of the domain lets the claims through, with this address. -/
structure Passes (rt : Runtime) (u : Upstream) (claims : Members) (email : JsString) : Prop where
  provider : verifyClaims rt u claims false = none
  asserted : assertedEmail rt u claims = some email
  verified : (Json.member claims (js "email_verified")).any (fun v => v.bool? = some false) = false

/-- The check of the domain, as the code makes it. -/
def ReadsAsOwn (rt : Runtime) (u : Upstream) (email : JsString) : Prop :=
  (domainOf rt (some email)).any (fun d => underDomain d u.domain) = true

/-- The exchange has answered with these claims, and the round trip has succeeded. -/
def Completed (rt : Runtime) (u : Upstream) (claims : Members) (outcome : Outcome) : Prop :=
  ∃ code leg maxAge t exchange es, exchange.claims = claims ∧
    Prog.Steps (completeUpstream rt u code leg maxAge)
      (⟨t, .upstreamExchange u code leg maxAge, (.ok exchange : Except JsError Exchange)⟩ :: es) (.pure outcome)

/-! ## When the round trip succeeds -/

theorem eq_of_steps_pure {α : Type} {a b : α} {es : List (Event effects)}
    (h : Prog.Steps (.pure a : M α) es (.pure b)) : a = b := by
  generalize hp : (Prog.pure a : M α) = p at h
  generalize hq : (Prog.pure b : M α) = q at h
  cases h with
  | nil =>
    subst hp
    exact (Prog.pure.inj hq).symm
  | cons hcall _ =>
    subst hp
    cases hcall

theorem not_steps_throw {α : Type} {e : JsError} {b : α} {es : List (Event effects)} :
    ¬ Prog.Steps (.throw e : M α) es (.pure b) := by
  intro h
  generalize hp : (Prog.throw e : M α) = p at h
  generalize hq : (Prog.pure b : M α) = q at h
  cases h with
  | nil =>
    subst hp
    cases hq
  | cons hcall _ =>
    subst hp
    cases hcall

/-- What a domain's provider does with an answer. -/
theorem passes_of_completed {u : Upstream} (hdomain : u.isCommon = false) {claims : Members} {outcome : Outcome} :
    Completed rt u claims outcome →
      Passes rt u claims outcome.email ∧ ReadsAsOwn rt u outcome.email := by
  intro h
  obtain ⟨code, leg, maxAge, t, exchange, es, rfl, hsteps⟩ := h
  have hasks : asksConsumerMx rt u exchange.claims = false := by simp [asksConsumerMx, hdomain]
  cases hsteps with
  | cons hp hk =>
    -- the exchange is the only thing that is awaited
    cases hp
    change Prog.Steps (consumerMxOf rt u exchange.claims >>= _) es (.pure outcome) at hk
    have hmx : consumerMxOf rt u exchange.claims = Prog.pure false := by
      unfold consumerMxOf
      rw [hasks]
      rfl
    rw [hmx] at hk
    rw [Prog.bind_pure_left] at hk
    cases hprovider : verifyClaims rt u exchange.claims false with
    | some message =>
      rw [hprovider] at hk
      exact absurd hk not_steps_throw
    | none =>
      rw [hprovider] at hk
      dsimp only at hk
      cases hasserted : assertedEmail rt u exchange.claims with
      | none =>
        rw [hasserted] at hk
        exact absurd hk not_steps_throw
      | some email =>
        rw [hasserted] at hk
        dsimp only at hk
        by_cases hunverified : (Json.member exchange.claims (js "email_verified")).any
          (fun v => v.bool? = some false) = true
        · rw [if_pos hunverified] at hk
          exact absurd hk not_steps_throw
        · rw [if_neg hunverified] at hk
          by_cases hreads : (domainOf rt (some email)).any (fun d => underDomain d u.domain) = true
          · rw [if_neg (by simp [hdomain, hreads])] at hk
            rw [← eq_of_steps_pure hk]
            exact ⟨⟨hprovider, hasserted, by simpa using hunverified⟩, hreads⟩
          · rw [if_pos (by simpa [hdomain] using hreads)] at hk
            exact absurd hk not_steps_throw

theorem completes {u : Upstream} (hdomain : u.isCommon = false) {claims : Members} {email : JsString}
    (hpasses : Passes rt u claims email) (hreads : ReadsAsOwn rt u email) :
    Completed rt u claims ⟨email, claims, none⟩ := by
  let leg : UpstreamLeg := ⟨u.id, [], [], [], 0, false⟩
  refine ⟨[], leg, none, 0, ⟨claims, none⟩, [], rfl, .cons (k := _) rfl ?_⟩
  have hasks : asksConsumerMx rt u claims = false := by simp [asksConsumerMx, hdomain]
  have hmx : consumerMxOf rt u claims = Prog.pure false := by
    unfold consumerMxOf
    rw [hasks]
    rfl
  change Prog.Steps (consumerMxOf rt u claims >>= _) [] _
  rw [hmx]
  rw [Prog.bind_pure_left]
  dsimp only
  rw [hpasses.provider]
  dsimp only
  rw [hpasses.asserted]
  dsimp only
  rw [if_neg (by simp [hpasses.verified]), if_neg]
  · exact .nil _
  · have hreads : (domainOf rt (some email)).any (fun d => underDomain d u.domain) = true := hreads
    simp [hreads]

/-! ## One `@` or several -/

/-- What follows the only `@` is what the check reads. -/
theorem own_of_single (hlower : LowerStable rt) {u : Upstream} {raw : Option JsString} {email : JsString}
    (hnormal : normaliseEmail rt raw = some email) (hsingle : ¬ 2 < (split atSign email).length)
    (hreads : ReadsAsOwn rt u email) : OwnAddress u email := by
  unfold normaliseEmail at hnormal
  split at hnormal
  · cases hnormal
  · next loc domain hbreak =>
    split at hnormal
    · cases hnormal
    · obtain rfl := Option.some.inj hnormal
      rw [length_split, List.count_append, List.count_cons_self] at hsingle
      have hloc : atSign ∉ rt.cases.toLowerCase loc := fun hmem => by
        have hpos := List.count_pos_iff.mpr hmem
        omega
      have hat : atSign ∉ rt.cases.toLowerCase domain := fun hmem => by
        have hpos := List.count_pos_iff.mpr hmem
        omega
      refine ⟨_, _, breakLast_append hat, ?_⟩
      unfold ReadsAsOwn domainOf at hreads
      rw [Option.getD_some, split_append, split_of_notMem hloc, split_of_notMem hat] at hreads
      have hreads : underDomain (rt.cases.toLowerCase (rt.cases.toLowerCase domain)) u.domain = true := by
        simpa using hreads
      rwa [hlower domain] at hreads

/-- A domain's provider vouches for its own domain only, exactly if no address that it asserts
has several `@` signs, with a second part in the domain and a last part elsewhere. -/
theorem vouches_for_own (hlower : LowerStable rt) (u : Upstream) (hdomain : u.isCommon = false) (claims : Members) :
    (∀ outcome, Completed rt u claims outcome → OwnAddress u outcome.email) ↔
      ∀ email, Passes rt u claims email → 2 < (split atSign email).length →
        ReadsAsOwn rt u email → OwnAddress u email := by
  constructor
  · intro h email hpasses _ hreads
    exact h _ (completes hdomain hpasses hreads)
  · intro h outcome hcompleted
    obtain ⟨hpasses, hreads⟩ := passes_of_completed hdomain hcompleted
    by_cases hseveral : 2 < (split atSign outcome.email).length
    · exact h outcome.email hpasses hseveral hreads
    · have hnormal := hpasses.asserted
      unfold assertedEmail at hnormal
      exact own_of_single hlower hnormal hseveral hreads

namespace Sample

/-- The sample platform without final sigmas. -/
def plainRuntime : Runtime := { runtime with cases := { runtime.cases with cased := fun _ => false } }

/-- A pair of surrogates is one point, and no letter of ASCII. -/
theorem encodePoint_pair {u v : CodeUnit} (h : (isHighSurrogate u && isLowSurrogate v) = true) :
    encodePoint (asciiLower (0x10000 + (u.toNat - 0xD800) * 0x400 + (v.toNat - 0xDC00))) =
      [lowerUnit u, lowerUnit v] := by
  simp only [isHighSurrogate, isLowSurrogate, Bool.and_eq_true, decide_eq_true_eq, UInt16.le_iff_toNat_le] at h
  obtain ⟨⟨hu, hu'⟩, hv, hv'⟩ := h
  have hu : 0xD800 ≤ u.toNat := hu
  have hu' : u.toNat ≤ 0xDBFF := hu'
  have hv : 0xDC00 ≤ v.toNat := hv
  have hv' : v.toNat ≤ 0xDFFF := hv'
  have unchanged : ∀ {x : CodeUnit}, 0xD800 ≤ x.toNat → lowerUnit x = x := by
    intro x hx
    unfold lowerUnit
    rw [if_neg]
    simp only [isUpper, Bool.and_eq_true, decide_eq_true_eq, UInt16.le_iff_toNat_le, not_and_or]
    right
    show ¬ x.toNat ≤ 90
    omega
  rw [unchanged (by omega), unchanged (by omega), asciiLower, if_neg (by omega), encodePoint, if_neg (by omega)]
  have hhigh :
    UInt16.ofNat (0xD800 + (0x10000 + (u.toNat - 0xD800) * 0x400 + (v.toNat - 0xDC00) - 0x10000) / 0x400) = u := by
    apply UInt16.toNat_inj.mp
    rw [UInt16.toNat_ofNat_of_lt' (by simp [UInt16.size]; omega)]
    omega
  have hlow :
    UInt16.ofNat (0xDC00 + (0x10000 + (u.toNat - 0xD800) * 0x400 + (v.toNat - 0xDC00) - 0x10000) % 0x400) = v := by
    apply UInt16.toNat_inj.mp
    rw [UInt16.toNat_ofNat_of_lt' (by simp [UInt16.size]; omega)]
    omega
  rw [hhigh, hlow]

theorem toLowerCase_eq_map (s : JsString) : plainRuntime.cases.toLowerCase s = s.map lowerUnit := by
  have hsigma : ∀ before after, plainRuntime.cases.finalSigma before after = false := by
    intro before after
    unfold CaseTables.finalSigma
    cases (before.dropWhile plainRuntime.cases.ignorable).head? <;> rfl
  have hpoints : ∀ ps before, plainRuntime.cases.lowerPoints before ps = ps.map asciiLower := by
    intro ps
    induction ps with
    | nil => exact fun _ => rfl
    | cons p ps ih =>
      intro before
      rw [CaseTables.lowerPoints, hsigma, Bool.and_false, ih]
      rfl
  unfold CaseTables.toLowerCase ofCodePoints
  rw [hpoints]
  induction s using codePoints.induct with
  | case1 => rfl
  | case2 u =>
    show encodePoint (asciiLower u.toNat) ++ [] = _
    rw [encodePoint_asciiLower]
    rfl
  | case3 u v s hpair ih =>
    rw [codePoints, if_pos hpair, List.map_cons, List.flatMap_cons, encodePoint_pair hpair, ih]
    rfl
  | case4 u v s hpair ih =>
    rw [codePoints, if_neg hpair, List.map_cons, List.flatMap_cons, encodePoint_asciiLower, ih]
    rfl

theorem plainRuntime_lowerStable : LowerStable plainRuntime := by
  intro s
  rw [toLowerCase_eq_map, toLowerCase_eq_map, List.map_map]
  refine List.map_congr_left fun u _ => ?_
  show lowerUnit (lowerUnit u) = lowerUnit u
  unfold lowerUnit
  by_cases h : isUpper u = true
  · rw [if_pos h, if_neg]
    simp only [isUpper, Bool.and_eq_true, decide_eq_true_eq, UInt16.le_iff_toNat_le, not_and_or] at h ⊢
    obtain ⟨hlow, hhigh⟩ := h
    have hlow : 65 ≤ u.toNat := hlow
    have hhigh : u.toNat ≤ 90 := hhigh
    right
    rw [UInt16.toNat_add]
    show ¬ (u.toNat + 32) % 65536 ≤ 90
    omega
  · rw [if_neg h, if_neg h]

/-- The provider of one organisation. -/
def corp : Upstream :=
  { id := js "corp", provider := js "oidc", domain := js "corp.test", isCommon := false, mailProvider := none
    label := none, clientId := js "sag", scopes := none, acrValues := [], prompt := none, tenant := none
    allowedTenants := [], hd := none }

/-- An address of its own is vouched for. -/
theorem corp_vouches :
    LowerStable plainRuntime ∧
      ∀ outcome, Completed plainRuntime corp [(js "email", .str (js "Ann@Corp.test"))] outcome →
        OwnAddress corp outcome.email := by
  refine ⟨plainRuntime_lowerStable, ?_⟩
  refine (vouches_for_own plainRuntime_lowerStable corp rfl _).mpr fun email hpasses hseveral _ => ?_
  have hrun : ((assertedEmail plainRuntime corp [(js "email", .str (js "Ann@Corp.test"))]).map
      fun e => (split atSign e).length) = some 2 := by decide +kernel
  rw [hpasses.asserted] at hrun
  have htwo : (split atSign email).length = 2 := Option.some.inj hrun
  omega

/-- One with a second `@` is accepted by its first domain, and belongs to another. -/
theorem corp_vouches_elsewhere :
    Completed plainRuntime corp [(js "email", .str (js "ann@corp.test@evil.test"))]
        ⟨js "ann@corp.test@evil.test", [(js "email", .str (js "ann@corp.test@evil.test"))], none⟩ ∧
      ¬ OwnAddress corp (js "ann@corp.test@evil.test") := by
  have hrun : verifyClaims plainRuntime corp [(js "email", .str (js "ann@corp.test@evil.test"))] false = none ∧
      assertedEmail plainRuntime corp [(js "email", .str (js "ann@corp.test@evil.test"))] =
        some (js "ann@corp.test@evil.test") ∧
      (domainOf plainRuntime (some (js "ann@corp.test@evil.test"))).any (fun d => underDomain d corp.domain) = true ∧
      breakLast atSign (js "ann@corp.test@evil.test") = some (js "ann@corp.test", js "evil.test") ∧
      underDomain (js "evil.test") corp.domain = false := by
    decide +kernel
  obtain ⟨hprovider, hasserted, hreads, hbreak, hunder⟩ := hrun
  refine ⟨completes rfl ⟨hprovider, hasserted, rfl⟩ hreads, fun hown => ?_⟩
  obtain ⟨loc, domain, hlast, hdomain⟩ := hown
  obtain ⟨-, rfl⟩ := Prod.mk.inj (Option.some.inj (hbreak.symm.trans hlast))
  rw [hunder] at hdomain
  cases hdomain

end Sample

end Sag
