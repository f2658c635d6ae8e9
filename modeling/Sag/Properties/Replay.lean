import Sag.Properties.Usable

/-!
# A TOTP code is not replayed

Two steps of one window can share a code, and then either of them would do. `verifyTotp`
answers the latest (`verifyTotp_latest`), so once its answer is the last used step, no step that
was in the window is above it with that code: the code is not accepted for any of them again,
whenever and with whatever window it comes back (`replay_closed`).
-/

namespace Sag

open Resumable

variable {rt : Runtime} {σ : Type} {m : Machine effects σ}

/-- The code of a step, where there is one. -/
def stepCode (rt : Runtime) (secret : JsString) (algorithm : HashName) (digits step : Nat) : Option JsString :=
  if Json.maxSafeInteger < step ∨ digits ≠ 6 ∧ digits ≠ 8 then none
  else (decodeBase32 rt secret).map fun bytes =>
    padStart digits (decimal (truncate (rt.totpMac algorithm bytes (counterBytes step)) % 10 ^ digits))

/-- A code as it is read, without its blanks and hyphens. -/
def typed (code : Option JsString) : JsString := (code.getD []).filter fun u => !(isSpace u || u = hyphen)

/-- The step lies in the window about `current`, above the last one used. -/
structure Acceptable (current skew : Nat) (lastUsedStep : Option Nat) (step : Nat) : Prop where
  early : current ≤ step + skew
  late : step ≤ current + skew
  unused : ∀ used, lastUsedStep = some used → used < step

/-- Parameters that `verifyTotp` takes; a `Date` reaches no further than `LATEST_INSTANT`. -/
structure TotpParameters (rt : Runtime) (secret : JsString) (now digits period skew : Nat) : Prop where
  secret : (decodeBase32 rt secret).isSome = true
  now : now ≤ LATEST_INSTANT
  digits : digits = 6 ∨ digits = 8
  period : 15 ≤ period ∧ period ≤ 120
  skew : skew ≤ 5

/-! ## The steps of the window -/

theorem mem_candidateSteps {current skew step : Nat} :
    step ∈ candidateSteps current skew ↔ current ≤ step + skew ∧ step ≤ current + skew := by
  rw [candidateSteps, List.mem_filterMap]
  constructor
  · intro ⟨i, hi, hsome⟩
    have hi := List.mem_range.mp hi
    by_cases hle : skew ≤ current + i
    · rw [if_pos hle] at hsome
      have hstep := Option.some.inj hsome
      omega
    · rw [if_neg hle] at hsome
      cases hsome
  · intro ⟨hearly, hlate⟩
    refine ⟨step + skew - current, List.mem_range.mpr (by omega), ?_⟩
    rw [if_pos (by omega)]
    congr 1
    omega

/-- What is found is one of the steps that are accepted, or was found before. -/
theorem latest_mem {accept : Nat → Bool} {steps : List Nat} {step : Nat} : ∀ {matched : Option Nat},
    latest accept steps matched = some step → matched = some step ∨ step ∈ steps ∧ accept step = true := by
  induction steps with
  | nil => exact fun h => Or.inl h
  | cons first steps ih =>
    intro matched h
    rw [latest] at h
    by_cases haccept : accept first = true
    · rw [if_pos haccept] at h
      rcases ih h with hfound | hrest
      · cases matched with
        | none =>
          obtain rfl : first = step := Option.some.inj hfound
          exact Or.inr ⟨List.mem_cons_self, haccept⟩
        | some k =>
          have hmax : max k first = step := Option.some.inj hfound
          rcases Nat.le_total k first with hle | hle
          · rw [Nat.max_eq_right hle] at hmax
            exact Or.inr ⟨hmax ▸ List.mem_cons_self, hmax ▸ haccept⟩
          · rw [Nat.max_eq_left hle] at hmax
            exact Or.inl (congrArg some hmax)
      · exact Or.inr ⟨List.mem_cons_of_mem _ hrest.1, hrest.2⟩
    · rw [if_neg haccept] at h
      rcases ih h with hfound | hrest
      · exact Or.inl hfound
      · exact Or.inr ⟨List.mem_cons_of_mem _ hrest.1, hrest.2⟩

/-- A code has as many digits as it should. -/
theorem stepCode_spec {secret code : JsString} {algorithm : HashName} {digits step : Nat}
    (h : stepCode rt secret algorithm digits step = some code) :
    code.length = digits ∧ code ≠ [] ∧ ∀ u ∈ code, isDigit u = true := by
  unfold stepCode at h
  split at h
  · cases h
  · next hvalid =>
    obtain ⟨bytes, -, rfl⟩ := Option.map_eq_some_iff.mp h
    have hpos : 0 < digits := by omega
    have hlength := decimal_length hpos (Nat.mod_lt (truncate (rt.totpMac algorithm bytes (counterBytes step)))
      (Nat.pow_pos (by omega : 0 < 10)))
    have hpadded : (padStart digits (decimal (truncate (rt.totpMac algorithm bytes (counterBytes step)) %
        10 ^ digits))).length = digits := by
      rw [padStart, List.length_append, List.length_replicate]
      omega
    refine ⟨hpadded, fun hnil => ?_, fun u hu => ?_⟩
    · rw [hnil, List.length_nil] at hpadded
      omega
    · rcases List.mem_append.mp hu with hu | hu
      · rw [(List.mem_replicate.mp hu).2]
        rfl
      · exact decimal_digit u hu

/-! ## What the loop finds -/

section
variable (m) (secret : JsString) (algorithm : HashName) (digits : Nat)

/-- What `totpForStep` returns is the code of the step. -/
theorem stepCode_of_totpForStep {step : Nat} {s : σ} {code : JsString}
    (h : ((totpForStep rt secret step algorithm digits).eval m s).1 = .ok code) :
    stepCode rt secret algorithm digits step = some code := by
  unfold totpForStep at h
  unfold stepCode
  split at h
  · cases h
  · next hsafe =>
    split at h
    · cases h
    · next hdigits =>
      rw [if_neg (by omega)]
      split at h
      · cases h
      · next bytes hbytes =>
        rw [hbytes]
        exact congrArg some (Except.ok.inj h)

/-- It returns wherever there is one. -/
theorem totpForStep_returns {step : Nat} (hcode : (stepCode rt secret algorithm digits step).isSome = true) (s : σ) :
    (totpForStep rt secret step algorithm digits).Yields m s fun _ _ => True := by
  unfold stepCode at hcode
  split at hcode
  · cases hcode
  · next hvalid =>
    rw [Option.isSome_map] at hcode
    obtain ⟨bytes, hbytes⟩ := Option.isSome_iff_exists.mp hcode
    unfold totpForStep
    rw [if_neg (by omega), if_neg (by omega), hbytes]
    exact Prog.yields_bind (Prog.yields_await (Prog.yields_bind (Prog.yields_await (Prog.yields_pure trivial))))

/-- The loop accepts a step whose code was presented, above the last one used. -/
def acceptsStep (rt : Runtime) (secret : JsString) (algorithm : HashName) (digits : Nat) (presented : JsString)
    (lastUsedStep : Option Nat) (step : Nat) : Bool :=
  stepCode rt secret algorithm digits step = some presented && lastUsedStep.all (· < step)

/-- The loop finds the latest step that it accepts. -/
theorem matchSteps_latest (presented : JsString) (lastUsedStep : Option Nat) {steps : List Nat} :
    ∀ {matched r : Option Nat} {s : σ},
      ((matchSteps rt secret presented algorithm digits lastUsedStep steps matched).eval m s).1 = .ok r →
        r = latest (acceptsStep rt secret algorithm digits presented lastUsedStep) steps matched := by
  induction steps with
  | nil => exact fun {matched r s} h => (Except.ok.inj h).symm
  | cons step steps ih =>
    intro matched r s h
    unfold matchSteps at h
    rw [Prog.eval_bind] at h
    split at h
    · next expected s' heval =>
      have hcode : stepCode rt secret algorithm digits step = some expected :=
        stepCode_of_totpForStep m secret algorithm digits (by rw [heval])
      have haccepts : acceptsStep rt secret algorithm digits presented lastUsedStep step =
          (timingSafeEqual expected presented && lastUsedStep.all (· < step)) := by
        unfold acceptsStep
        rw [hcode]
        congr 1
        have hequal := timingSafeEqual_digits (b := presented) (stepCode_spec hcode).2.2
        by_cases heq : expected = presented
        · rw [hequal.mpr heq, heq]
          exact decide_eq_true rfl
        · rw [Bool.eq_false_iff.mpr fun h => heq (hequal.mp h)]
          exact decide_eq_false fun h => heq (Option.some.inj h)
      rw [latest, haccepts]
      exact ih h
    · cases h

theorem matchSteps_returns (presented : JsString) (lastUsedStep : Option Nat) {steps : List Nat}
    (hsteps : ∀ step ∈ steps, (stepCode rt secret algorithm digits step).isSome = true) :
    ∀ {matched : Option Nat} {s : σ},
      (matchSteps rt secret presented algorithm digits lastUsedStep steps matched).Yields m s fun _ _ => True := by
  induction steps with
  | nil => exact fun {matched s} => Prog.yields_pure trivial
  | cons step steps ih =>
    intro matched s
    unfold matchSteps
    refine Prog.yields_bind ((totpForStep_returns m secret algorithm digits (hsteps step List.mem_cons_self) s).mono
      fun _ _ _ => ?_)
    exact ih fun x hx => hsteps x (List.mem_cons_of_mem _ hx)

/-! ## What the check answers -/

variable (now period skew : Nat) (lastUsedStep : Option Nat)

theorem verifyTotp_typed (code : Option JsString) :
    verifyTotp rt secret code now algorithm digits period skew lastUsedStep =
      if (typed code).length ≠ digits || typed code = [] || !(typed code).all isDigit then pure none
      else if period < 15 ∨ 120 < period then fail (.error (js "invalid TOTP period"))
      else if 5 < skew then fail (.error (js "invalid TOTP skew"))
      else matchSteps rt secret (typed code) algorithm digits lastUsedStep (candidateSteps (now / period) skew) none :=
  rfl

/-- With parameters that it takes, the check returns. -/
theorem verifyTotp_returns (hparameters : TotpParameters rt secret now digits period skew) (code : Option JsString)
    (s : σ) :
    (verifyTotp rt secret code now algorithm digits period skew lastUsedStep).Yields m s fun _ _ => True := by
  have hperiod := hparameters.period
  have hskew := hparameters.skew
  rw [verifyTotp_typed]
  split
  · exact Prog.yields_pure trivial
  · rw [if_neg (by omega), if_neg (by omega)]
    refine matchSteps_returns m secret algorithm digits _ _ fun step hstep => ?_
    have hsafe := candidateSteps_le hparameters.now hparameters.skew step hstep
    have hdigits := hparameters.digits
    unfold stepCode
    rw [if_neg (by omega), Option.isSome_map]
    exact hparameters.secret

/-- What it returns is the latest acceptable step with the code, if there is any. -/
theorem verifyTotp_latest {code : Option JsString} {s : σ} {r : Option Nat}
    (h : ((verifyTotp rt secret code now algorithm digits period skew lastUsedStep).eval m s).1 = .ok r) :
    (r = none ↔ ∀ step, Acceptable (now / period) skew lastUsedStep step →
      stepCode rt secret algorithm digits step ≠ some (typed code)) ∧
    ∀ step, r = some step → Acceptable (now / period) skew lastUsedStep step ∧
      stepCode rt secret algorithm digits step = some (typed code) ∧
      ∀ other, Acceptable (now / period) skew lastUsedStep other →
        stepCode rt secret algorithm digits other = some (typed code) → other ≤ step := by
  rw [verifyTotp_typed] at h
  split at h
  · -- no code looks like this
    next hshape =>
    obtain rfl : none = r := Except.ok.inj h
    refine ⟨⟨fun _ step _ hcode => ?_, fun _ => rfl⟩, nofun⟩
    obtain ⟨hlength, hne, hdigits⟩ := stepCode_spec hcode
    simp only [Bool.or_eq_true, decide_eq_true_eq, Bool.not_eq_true'] at hshape
    rcases hshape with (hlong | hnil) | hother
    · exact hlong hlength
    · exact hne hnil
    · exact Bool.false_ne_true (hother.symm.trans (List.all_eq_true.mpr hdigits))
  · split at h
    · cases h
    · split at h
      · cases h
      · have hlatest : r = latest (acceptsStep rt secret algorithm digits (typed code) lastUsedStep)
            (candidateSteps (now / period) skew) none := matchSteps_latest m secret algorithm digits _ _ h
        have haccepts : ∀ step, (step ∈ candidateSteps (now / period) skew ∧
            acceptsStep rt secret algorithm digits (typed code) lastUsedStep step = true) ↔
              Acceptable (now / period) skew lastUsedStep step ∧
                stepCode rt secret algorithm digits step = some (typed code) := by
          intro step
          rw [mem_candidateSteps, acceptsStep, Bool.and_eq_true, decide_eq_true_eq, Option.all_eq_true]
          simp only [decide_eq_true_eq]
          constructor
          · exact fun ⟨⟨hearly, hlate⟩, hcode, hunused⟩ => ⟨⟨hearly, hlate, hunused⟩, hcode⟩
          · exact fun ⟨⟨hearly, hlate, hunused⟩, hcode⟩ => ⟨⟨hearly, hlate⟩, hcode, hunused⟩
        have hgreatest : ∀ step, Acceptable (now / period) skew lastUsedStep step →
            stepCode rt secret algorithm digits step = some (typed code) → ∃ found, r = some found ∧ step ≤ found := by
          intro step hacceptable hcode
          obtain ⟨hmem, haccept⟩ := (haccepts step).mpr ⟨hacceptable, hcode⟩
          rw [hlatest]
          exact latest_some hmem haccept none
        refine ⟨⟨fun hnone step hacceptable hcode => ?_, fun hno => ?_⟩, fun step hsome => ?_⟩
        · obtain ⟨found, hfound, -⟩ := hgreatest step hacceptable hcode
          cases hnone.symm.trans hfound
        · rw [hlatest]
          refine latest_none fun step hmem => Bool.eq_false_iff.mpr fun haccept => ?_
          obtain ⟨hacceptable, hcode⟩ := (haccepts step).mp ⟨hmem, haccept⟩
          exact hno step hacceptable hcode
        · rcases latest_mem (hlatest.symm.trans hsome) with hbefore | haccepted
          · cases hbefore
          · obtain ⟨hacceptable, hcode⟩ := (haccepts step).mp haccepted
            refine ⟨hacceptable, hcode, fun other hother hothercode => ?_⟩
            obtain ⟨found, hfound, hle⟩ := hgreatest other hother hothercode
            obtain rfl := Option.some.inj (hsome.symm.trans hfound)
            exact hle

end

/-- `verifyTotp` returns, with no step just if no acceptable step has the code, else with one of
those; and once that step is used, the code is never again accepted for a step of that window. -/
theorem replay_closed (m : Machine effects σ) (s : σ) (secret : JsString) (code : Option JsString) (now : Nat)
    (algorithm : HashName) (digits period skew : Nat) (lastUsedStep : Option Nat) :
    (TotpParameters rt secret now digits period skew → ∃ r,
      ((verifyTotp rt secret code now algorithm digits period skew lastUsedStep).eval m s).1 = .ok r) ∧
    ∀ r, ((verifyTotp rt secret code now algorithm digits period skew lastUsedStep).eval m s).1 = .ok r →
      (r = none ↔ ∀ step, Acceptable (now / period) skew lastUsedStep step →
        stepCode rt secret algorithm digits step ≠ some (typed code)) ∧
      ∀ step, r = some step →
        (Acceptable (now / period) skew lastUsedStep step ∧
          stepCode rt secret algorithm digits step = some (typed code)) ∧
        -- the step is the last used one, in the record that is written and in all later ones
        (∀ (record record' : LocalRecord) (id : JsString), record.Valid rt →
          Later ((Change.totpStep id step).next record) record' → UsedTo record' id step) ∧
        -- and with such a last used step the code does not come back
        ∀ {τ : Type} (m' : Machine effects τ) (s' : τ) (code' : Option JsString) (now' period' skew' used : Nat),
          typed code' = typed code → step ≤ used →
            ∀ step', ((verifyTotp rt secret code' now' algorithm digits period' skew' (some used)).eval m' s').1 =
              .ok (some step') → now / period + skew < step' := by
  refine ⟨fun hparameters => ?_, fun r h => ?_⟩
  · obtain ⟨r, hr, -⟩ := verifyTotp_returns m secret algorithm digits now period skew lastUsedStep hparameters code s
    exact ⟨r, hr⟩
  · obtain ⟨hnone, hsome⟩ := verifyTotp_latest m secret algorithm digits now period skew lastUsedStep h
    refine ⟨hnone, fun step hstep => ?_⟩
    obtain ⟨hacceptable, hcode, hgreatest⟩ := hsome step hstep
    refine ⟨⟨hacceptable, hcode⟩, fun record record' id hvalid hlater => ?_, ?_⟩
    · exact hlater.steps id step (written_step hvalid id step)
    · intro τ m' s' code' now' period' skew' used htyped hused step' h'
      obtain ⟨-, hsome'⟩ := verifyTotp_latest m' secret algorithm digits now' period' skew' (some used) h'
      obtain ⟨hacceptable', hcode', -⟩ := hsome' step' rfl
      have habove : used < step' := hacceptable'.unused used rfl
      refine Nat.lt_of_not_le fun hlate => ?_
      -- a step of that window with the code would have been the one found
      have hearly := hacceptable.early
      have hother : Acceptable (now / period) skew lastUsedStep step' := by
        refine ⟨by omega, hlate, fun last hlast => ?_⟩
        have hunused := hacceptable.unused last hlast
        omega
      have hle := hgreatest step' hother (htyped ▸ hcode')
      omega

namespace Sample

theorem ok_of_toOption {α : Type} {x : Except JsError α} {a : α} (h : x.toOption = some a) : x = .ok a := by
  cases x with
  | error e => cases h
  | ok b => rw [Option.some.inj h]

def totpSecret : JsString := js "GEZDGNBVGY3TQOJQ"

/-- Three steps share one code. The last is answered, and with it none of them is left. -/
theorem shared_code_closed :
    ((verifyTotp runtime totpSecret (some (js "000 000")) 1000 .sha1 6 30 1 none).eval faultless (only erin)).1 =
      .ok (some 34) ∧
    (stepCode runtime totpSecret .sha1 6 32 = some (js "000000") ∧
      stepCode runtime totpSecret .sha1 6 33 = some (js "000000")) ∧
    ∀ now used step, 34 ≤ used →
      ((verifyTotp runtime totpSecret (some (js "000000")) now .sha1 6 30 1 (some used)).eval faultless
        (only erin)).1 = .ok (some step) → 34 < step := by
  have hreturn : ((verifyTotp runtime totpSecret (some (js "000 000")) 1000 .sha1 6 30 1 none).eval faultless
      (only erin)).1.toOption = some (some 34) ∧
    (stepCode runtime totpSecret .sha1 6 32 = some (js "000000") ∧
      stepCode runtime totpSecret .sha1 6 33 = some (js "000000")) ∧
    typed (some (js "000000")) = typed (some (js "000 000")) := by decide +kernel
  obtain ⟨hvalue, hcodes, htyped⟩ := hreturn
  have hok := ok_of_toOption hvalue
  refine ⟨hok, hcodes, fun now used step hused hagain => ?_⟩
  have hclosed := (replay_closed faultless (only erin) totpSecret (some (js "000 000")) 1000 .sha1 6 30 1 none).2 _ hok
  exact (hclosed.2 34 rfl).2.2 faultless (only erin) (some (js "000000")) now 30 1 used htyped hused step hagain

end Sample

end Sag
