import Sag.Util.Json

/-!
# Authentication context

How strong an authentication is, and when it meets a demand (`acr.js`).

A demand is a list of acceptable values, and `satisfies` is met by any one of
them (`satisfies_iff`). Two predicates therefore decide the same question at
two moments: `requiresFederation` before anybody has signed in, and `satisfies`
once they have. `satisfies_otp_of_not_requiresFederation` is the agreement the
email-code routes rest on.
-/

namespace Sag

namespace Acr

def otp : JsString := js "urn:sag:acr:email-otp"
def localPassword : JsString := js "urn:sag:acr:local-password"
def localMfa : JsString := js "urn:sag:acr:local-mfa"
def federated : JsString := js "urn:sag:acr:federated"
def federatedMfa : JsString := js "urn:sag:acr:federated-mfa"
def mfa : JsString := js "urn:sag:acr:mfa"

end Acr

/-- The values a session can carry. -/
def sessionAcrs : List JsString :=
  [Acr.otp, Acr.localPassword, Acr.localMfa, Acr.federated, Acr.federatedMfa]

/-- `ACR_STRENGTH[acr] ?? 0`. What the object inherits under other names is not
a number, so it never compares as greater than zero either. -/
def strengthOf (acr : JsString) : Nat :=
  if acr = Acr.otp then 1 else if acr = Acr.federated then 2 else if acr = Acr.federatedMfa then 3 else 0

namespace Amr

def otp : JsString := js "otp"
def email : JsString := js "email"
def federated : JsString := js "fed"
def mfa : JsString := js "mfa"
def password : JsString := js "pwd"
def recovery : JsString := js "recovery"

end Amr

/-- How a second factor was met. -/
inductive FactorMethod where
  | totp
  | recovery
  deriving DecidableEq, Repr

def MFA_HINTS : List JsString :=
  [js "mfa", js "otp", js "sms", js "swk", js "hwk", js "fido", js "phr", js "phrh", js "mca",
    js "face", js "fpt"]

def MAX_AMR_VALUES : Nat := 16
def MAX_AMR_LENGTH : Nat := 32

/-- An authentication as the program describes it. -/
structure AuthContext where
  acr : JsString
  amr : List JsString
  upstreamAcr : Option JsString

/-- The `amr` strings of an upstream token, whatever shape they came in. -/
def amrStrings : Option Json → List JsString
  | some (.arr items) => items.filterMap Json.string?
  | some (.str s) => [s]
  | _ => []

def acrFromUpstream (T : CaseTables) (claims : Members) : AuthContext :=
  let all := amrStrings (Json.member claims (js "amr"))
  let amr := (all.filter fun v => v.length ≤ MAX_AMR_LENGTH).take MAX_AMR_VALUES
  let normalised := Amr.federated :: amr
  let mfa := (all.any fun v => T.toLowerCase v ∈ MFA_HINTS) || 1 < all.length
  let normalised := if mfa && Amr.mfa ∉ normalised then normalised ++ [Amr.mfa] else normalised
  { acr := if mfa then Acr.federatedMfa else Acr.federated
    amr := normalised.eraseDups
    upstreamAcr := (Json.member claims (js "acr")).bind Json.string? }

def acrForOtp : AuthContext := ⟨Acr.otp, [Amr.otp, Amr.email], none⟩

def acrForLocal : Option FactorMethod → AuthContext
  | none => ⟨Acr.localPassword, [Amr.password], none⟩
  | some method =>
    ⟨Acr.localMfa, [Amr.password, if method = .totp then Amr.otp else Amr.recovery, Amr.mfa], none⟩

/-- Does `held` meet the one acceptable value `want`? -/
def satisfiesOne (held want : JsString) : Bool :=
  let isLocal := held = Acr.localPassword || held = Acr.localMfa
  if want = Acr.mfa then held = Acr.localMfa || held = Acr.federatedMfa
  else if want = held then true
  else if isLocal || want = Acr.localPassword || want = Acr.localMfa then
    held = Acr.localMfa && want = Acr.localPassword
  else 0 < strengthOf want && strengthOf want ≤ strengthOf held

/-- Does `held` satisfy the relying party's `requested` acr_values? -/
def satisfies (held : JsString) (requested : List JsString) : Bool :=
  if requested.length = 0 then true else requested.any (satisfiesOne held)

/-- The weakest method that could satisfy the request; `none` is `Infinity`. -/
def minimumStrengthRequired (requested : List JsString) : Option Nat :=
  if requested.length = 0 then some 0
  else
    ((requested.map fun want => strengthOf (if want = Acr.mfa then Acr.federatedMfa else want)).filter
      (0 < ·)).min?

/-- True when email OTP alone could never satisfy the request. -/
def requiresFederation (requested : List JsString) : Bool :=
  match minimumStrengthRequired requested with
  | none => true
  | some m => strengthOf Acr.otp < m

/-! ## Meeting a demand -/

theorem satisfies_nil (held : JsString) : satisfies held [] = true := rfl

/-- A demand is met by any one of its values. -/
theorem satisfies_iff {held : JsString} {requested : List JsString} :
    satisfies held requested = true ↔
      requested = [] ∨ ∃ want ∈ requested, satisfiesOne held want = true := by
  cases requested with
  | nil => simp [satisfies]
  | cons w ws => simp [satisfies]

/-- More acceptable values never make a demand harder, unless there were none. -/
theorem satisfies_of_subset {held : JsString} {base requested : List JsString} (hne : base ≠ [])
    (hsub : ∀ want ∈ base, want ∈ requested) (h : satisfies held base = true) :
    satisfies held requested = true := by
  rcases satisfies_iff.mp h with hnil | ⟨want, hmem, hwant⟩
  · exact absurd hnil hne
  · exact satisfies_iff.mpr (Or.inr ⟨want, hsub want hmem, hwant⟩)

/-- Email OTP is the weakest known strength. -/
theorem strengthOf_eq_one {acr : JsString} (h : strengthOf acr = 1) : acr = Acr.otp := by
  simp only [strengthOf] at h
  split at h
  · assumption
  · split at h
    · omega
    · split at h <;> omega

/-- When the routing test leaves email OTP open, an email code meets the
demand. -/
theorem satisfies_otp_of_not_requiresFederation {requested : List JsString}
    (h : requiresFederation requested = false) : satisfies Acr.otp requested = true := by
  cases requested with
  | nil => rfl
  | cons w ws =>
    simp only [requiresFederation, minimumStrengthRequired, List.length_cons,
      Nat.add_one_ne_zero, if_false] at h
    split at h
    · cases h
    · next m hm =>
      have hmem := List.min?_mem hm
      obtain ⟨hpre, hpos⟩ := List.mem_filter.mp hmem
      obtain ⟨want, hwant, hstr⟩ := List.mem_map.mp hpre
      have hle : m ≤ 1 := by
        have hone : strengthOf Acr.otp = 1 := rfl
        simpa [hone] using h
      have hm1 : m = 1 := by
        have : 0 < m := by simpa using hpos
        omega
      have hotp := strengthOf_eq_one (hstr.trans hm1)
      have heq : want = Acr.otp := by
        split at hotp
        · exact absurd hotp (by decide)
        · exact hotp
      exact satisfies_iff.mpr (Or.inr ⟨want, hwant, by rw [heq]; decide⟩)

/-! ## Rank -/

/-- The values whose strengths are in the table. -/
def rankedAcrs : List JsString := [Acr.otp, Acr.federated, Acr.federatedMfa]

theorem strengthOf_ranked {held : JsString} (h : held ∈ rankedAcrs) : 0 < strengthOf held := by
  revert held
  decide

/-- What is asked for counts as a rank; the open MFA value counts as the highest. -/
def wantedStrength (want : JsString) : Nat := strengthOf (if want = Acr.mfa then Acr.federatedMfa else want)

/-- A ranked authentication meets a value that has a rank, and no higher one. -/
theorem satisfiesOne_ranked {held : JsString} (h : held ∈ rankedAcrs) (want : JsString) :
    satisfiesOne held want = true ↔ 0 < wantedStrength want ∧ wantedStrength want ≤ strengthOf held := by
  have hnotLocal : held ≠ Acr.localPassword ∧ held ≠ Acr.localMfa := by
    revert held
    decide
  unfold satisfiesOne wantedStrength
  by_cases hmfa : want = Acr.mfa
  · rw [if_pos hmfa, if_pos hmfa]
    revert held
    decide
  · rw [if_neg hmfa, if_neg hmfa]
    by_cases hsame : want = held
    · rw [if_pos hsame, hsame]
      exact ⟨fun _ => ⟨strengthOf_ranked h, Nat.le_refl _⟩, fun _ => rfl⟩
    · rw [if_neg hsame]
      by_cases hlocal : want = Acr.localPassword ∨ want = Acr.localMfa
      · -- a local demand has no rank
        have hrank : strengthOf want = 0 := by rcases hlocal with rfl | rfl <;> decide
        simp [hnotLocal, hlocal, hrank]
      · simp [hnotLocal, not_or.mp hlocal]

theorem min?_le_iff {l : List Nat} {k : Nat} : (∃ m, l.min? = some m ∧ m ≤ k) ↔ ∃ x ∈ l, x ≤ k := by
  constructor
  · intro ⟨m, hm, hle⟩
    exact ⟨m, List.min?_mem hm, hle⟩
  · intro ⟨x, hx, hle⟩
    obtain ⟨m, hm⟩ := Option.isSome_iff_exists.mp (List.isSome_min?_of_mem hx)
    exact ⟨m, hm, Nat.le_trans ((List.min?_eq_some_iff.mp hm).2 x hx) hle⟩

theorem satisfies_ranked {held : JsString} (h : held ∈ rankedAcrs) (requested : List JsString) :
    satisfies held requested = true ↔ ∃ m, minimumStrengthRequired requested = some m ∧ m ≤ strengthOf held := by
  rw [satisfies_iff]
  cases requested with
  | nil => exact ⟨fun _ => ⟨0, rfl, Nat.zero_le _⟩, fun _ => Or.inl rfl⟩
  | cons w ws =>
    have hminimum : minimumStrengthRequired (w :: ws) = (((w :: ws).map wantedStrength).filter (0 < ·)).min? :=
      if_neg (Nat.add_one_ne_zero ws.length)
    rw [hminimum, min?_le_iff]
    constructor
    · intro hmet
      obtain ⟨want, hmem, hwant⟩ := hmet.resolve_left (List.cons_ne_nil w ws)
      obtain ⟨hpos, hle⟩ := (satisfiesOne_ranked h want).mp hwant
      exact ⟨wantedStrength want, List.mem_filter.mpr ⟨List.mem_map_of_mem hmem, decide_eq_true hpos⟩, hle⟩
    · intro ⟨x, hx, hle⟩
      obtain ⟨hmap, hpos⟩ := List.mem_filter.mp hx
      obtain ⟨want, hmem, rfl⟩ := List.mem_map.mp hmap
      exact Or.inr ⟨want, hmem, (satisfiesOne_ranked h want).mpr ⟨of_decide_eq_true hpos, hle⟩⟩

theorem routing_agrees (requested : List JsString) :
    (∀ held ∈ rankedAcrs,
      (satisfies held requested = true ↔ ∃ m, minimumStrengthRequired requested = some m ∧ m ≤ strengthOf held)) ∧
      (requiresFederation requested = true ↔ satisfies Acr.otp requested = false) := by
  refine ⟨fun held h => satisfies_ranked h requested, ?_⟩
  have hranked : Acr.otp ∈ rankedAcrs := by decide
  have hotp := satisfies_ranked hranked requested
  rw [← Bool.not_eq_true, hotp, requiresFederation]
  cases minimumStrengthRequired requested with
  | none => simp
  | some m => simp

end Sag
