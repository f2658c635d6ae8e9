import Sag.Crypto.Jose
import Sag.Lib.Binary64

/-!
# The claims of a signed token

`validateClaims` of `crypto/jose.js`, as the token endpoint calls it: the issuer, the
audience, and the times, which may be any doubles. The last second at which a token passes
is that of its expiry with the skew, in the arithmetic of the source (`lastsUntil`).
-/

namespace Sag

variable (rt : Runtime)

/-- The value, if `Number.isFinite` holds of it. -/
def finite? : Option Json → Option Rat
  | some (.num x) => some x
  | _ => none

/-- What a value is in a message. -/
def shown (value : Option Json) : JsString :=
  match value with
  | none => js "undefined"
  | some (.str s) => s
  | some value => rt.stringOf value

/-- Is a time claim neither absent nor a finite number? -/
def isBadTime (value : Option Json) : Bool := value.isSome && (finite? value).isNone

/-- Does a token pass until this instant at least, and not yet lie in the future? -/
def lastsUntil (exp : Rat) (clockSkew now : Nat) : Bool := !(Binary64.round (exp + clockSkew) < now)

def isAhead (time : Option Rat) (clockSkew now : Nat) : Bool := time.any fun x => now < Binary64.round (x - clockSkew)

/-- The checks of the times. -/
def timeError (payload : Json) (clockSkew now : Nat) : Option JsString :=
  if !(finite? (payload.get (js "exp"))).any fun exp => lastsUntil exp clockSkew now then some (js "token expired")
  else if isBadTime (payload.get (js "nbf")) then some (js "invalid nbf")
  else if isAhead (finite? (payload.get (js "nbf"))) clockSkew now then some (js "token not yet valid")
  else if isBadTime (payload.get (js "iat")) then some (js "invalid iat")
  else if isAhead (finite? (payload.get (js "iat"))) clockSkew now then some (js "token issued in the future")
  else none

/-- The check of the audience. -/
def audienceError (payload : Json) (audience : JsString) : Option JsString :=
  let aud :=
    match payload.get (js "aud") with
    | some (.arr items) => items
    | aud => aud.toList
  if audience = [] then none
  else if !aud.any fun a => a.same (.str audience) then some (js "token audience does not include " ++ audience)
  else if 1 < aud.length && ((payload.get (js "azp")).filter truthy).any fun azp => !azp.same (.str audience) then
    some (js "unexpected azp")
  else none

/-- Standard JWT claim checks; an error is what they throw. -/
def validateClaims (payload : Json) (issuer audience : JsString) (clockSkew now : Nat) : Option JsString :=
  if payload.same .null then some (js "Cannot read properties of null (reading 'iss')")
  else if issuer ≠ [] && !((payload.get (js "iss")).any fun iss => iss.same (.str issuer)) then
    some (js "unexpected issuer " ++ shown rt (payload.get (js "iss")))
  else
    match audienceError payload audience with
    | some error => some error
    | none => timeError payload clockSkew now

/-- The times of a token admit this instant. -/
def Timely (payload : Json) (clockSkew now : Nat) : Prop := timeError payload clockSkew now = none

theorem Timely.exists_exp {payload : Json} {clockSkew now : Nat} (h : Timely payload clockSkew now) :
    ∃ exp, finite? (payload.get (js "exp")) = some exp ∧ (now : Rat) ≤ Binary64.round (exp + clockSkew) := by
  unfold Timely timeError at h
  split at h
  · cases h
  · next hexp =>
    cases hfinite : finite? (payload.get (js "exp")) with
    | none =>
      rw [hfinite] at hexp
      exact absurd rfl hexp
    | some exp =>
      rw [hfinite] at hexp
      refine ⟨exp, rfl, ?_⟩
      simpa [lastsUntil] using hexp

variable {rt} in
theorem timely_of_validateClaims {payload : Json} {issuer audience : JsString} {clockSkew now : Nat}
    (h : validateClaims rt payload issuer audience clockSkew now = none) : Timely payload clockSkew now := by
  unfold validateClaims at h
  split at h
  · cases h
  · split at h
    · cases h
    · split at h
      · cases h
      · exact h

end Sag
