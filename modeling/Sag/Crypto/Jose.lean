import Sag.Config

/-!
# Signed tokens

The parts of `crypto/jose.js` that take a compact JWS apart and choose the key for it, and the
conversion of a signature that a key service returned in DER. Checking the signature itself is an
operation.
-/

namespace Sag

variable (rt : Runtime)

/-- `JSON.parse(unb64uText(part))`. -/
def decodePart (part : JsString) : Option Json := (unb64u part).bind fun bytes => rt.parseJson (rt.fromUtf8 bytes)

/-- The header and the payload of a token, unverified. -/
def decodeJwt (token : JsString) : Option (Json × Json) :=
  match split dot token with
  | [header, payload, signature] =>
    (decodePart rt header).bind fun header =>
      (decodePart rt payload).bind fun payload =>
        (unb64u signature).map fun _ => (header, payload)
  | _ => none

/-- Is the key for signatures, and for this algorithm? -/
def keyFits (alg : Option Json) (key : Json) : Bool :=
  ((key.get (js "use")).all fun use => !truthy use || use.same (.str (js "sig"))) &&
    ((key.get (js "alg")).all fun own => !truthy own || alg.any own.same)

/-- Select a key by `kid`, falling back to a unique candidate. `none` is a throw. -/
def selectJwk (jwks header : Json) : Option Json :=
  match (jwks.get (js "keys")).filter truthy with
  | some (.arr all) =>
    if all.any (Json.same .null) then none
    else
      let keys := all.filter (keyFits (header.get (js "alg")))
      match (header.get (js "kid")).filter truthy with
      | some kid => keys.find? fun key => (key.get (js "kid")).any kid.same
      | none =>
        match keys with
        | [key] => some key
        | _ => none
  | _ => none

/-! ## Signatures in DER -/

def COORD_BYTES : List (JsString × Nat) := [(js "P-256", 32), (js "P-384", 48), (js "P-521", 66)]

/-- `while (v.length > 1 && v[0] === 0x00)`. -/
def stripZeros : Bytes → Bytes
  | b :: c :: rest => if b = 0 then stripZeros (c :: rest) else b :: c :: rest
  | v => v

/-- `readInt`, from where `i` stands to where it is left. A missing length leaves `NaN`, where
nothing can be read. -/
def readInt (der : Bytes) (size : Nat) : Option Nat → Except JsString (Bytes × Option Nat)
  | none => .error (js "bad DER integer")
  | some i =>
    if der[i]? ≠ some 0x02 then .error (js "bad DER integer")
    else
      let len := der[i + 1]?.map UInt8.toNat
      let v := stripZeros ((der.drop (i + 2)).take (len.getD 0))
      if size < v.length then .error (js "DER integer larger than curve")
      else .ok (List.replicate (size - v.length) 0 ++ v, len.map (i + 2 + ·))

/-- The length of the sequence is read past and not used. -/
def derToRawEcdsa (der : Bytes) (curve : Option JsString) : Except JsString Bytes :=
  let curve := curve.getD (js "P-256")
  match COORD_BYTES.lookup curve with
  | none => .error (js "unknown curve " ++ curve)
  | some size =>
    if der[0]? ≠ some 0x30 then .error (js "bad DER sequence")
    else
      let seqLen := (der[1]?.map UInt8.toNat).getD 0
      let i := if 128 ≤ seqLen then 2 + seqLen % 128 else 2
      match readInt der size (some i) with
      | .error e => .error e
      | .ok (r, i) =>
        match readInt der size i with
        | .error e => .error e
        | .ok (s, _) => .ok (r ++ s)

end Sag
