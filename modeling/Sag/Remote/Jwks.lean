import Sag.Crypto.Claims
import Sag.Remote.Effects

/-!
# Key sets

`fetchJwks` of `crypto/jose.js`, as all its callers call it. A key set is good for `ttlSeconds`
from the moment it was looked for, not from the moment it arrived.
-/

namespace Sag

open Resumable

variable (rt : Runtime) (allowHttp : Bool)

/-- No credentials, and https, or http where that is allowed. -/
def isRemote (url : Url) : Bool :=
  !(url.username ≠ [] || url.password ≠ [] ||
    (url.protocol ≠ js "https:" && !(allowHttp && url.protocol = js "http:")))

def MAX_JWKS_BYTES : Nat := 256 * 1024

def JWKS_TTL_SECONDS : Nat := 300

/-- The URL of a key set. -/
def jwksUrl (uri : JsString) : Except RemoteError Url :=
  match rt.parseUrl uri with
  | none => .error (remoteError (js "JWKS URI is not an absolute URL"))
  | some url => if isRemote allowHttp url then .ok url else .error (remoteError (js "JWKS URI must use https"))

/-- The key set of an answer. -/
def jwksSent (res : Fetched) : Except RemoteError Json :=
  if !res.ok then .error (remoteError (js "JWKS fetch failed with HTTP " ++ decimal res.status))
  else
    (readJsonLimited rt res MAX_JWKS_BYTES).bind fun jwks =>
      match jwks.get (js "keys") with
      | some (.arr _) => .ok jwks
      | _ => .error (remoteError (js "JWKS document has no keys array"))

/-- Fetch and cache a remote JWKS. -/
def fetchJwks (uri : JsString) : R Json := do
  let url ← Prog.ofExcept (F := remote) (jwksUrl rt allowHttp uri)
  let (now, cached) ← cachedAt .jwks url.href
  match cached with
  | some jwks => pure jwks
  | none =>
    let res ← fetchWithTimeout (.get url.href)
    let jwks ← Prog.ofExcept (F := remote) (jwksSent rt res)
    request (.remember .jwks url.href ⟨jwks, now + JWKS_TTL_SECONDS⟩)
    pure jwks

/-- A key set that a call has looked for in vain, and then fetched. -/
def LoadedJwks (past : List (Event remote)) (key : JsString) (entry : Dated Json) : Prop :=
  ∃ t₀ t₁ cached res,
    [⟨t₀, .lookup .jwks key, cached⟩, ⟨t₁, .fetch (.get key), (.ok res : Except JsError Fetched)⟩].Sublist past ∧
    jwksSent rt res = .ok entry.value ∧ entry.expiresAt = t₀ + JWKS_TTL_SECONDS

/-- A key set that was good when it was looked for, or has just been fetched. -/
def JwksGiven (C : Rely remote) (uri : JsString) (jwks : Json) : Prop :=
  ∃ url, jwksUrl rt allowHttp uri = .ok url ∧ (FromCache C .jwks url.href jwks ∨
    ∃ res, C.Saw (.fetch (.get url.href)) (.ok res) ∧ jwksSent rt res = .ok jwks)

variable {rt allowHttp} {C : Contract remote}

/-- Only the key set itself is fetched and kept. -/
theorem fetchJwks_sat (hC : Quiet C) {uri : JsString} {s : Moment remote}
    (hfetch : ∀ url, jwksUrl rt allowHttp uri = .ok url → ∀ h t, C.issue h t (.fetch (.get url.href)))
    (hkeep : ∀ url, jwksUrl rt allowHttp uri = .ok url → ∀ h t entry, LoadedJwks rt h url.href entry →
      C.issue h t (.remember .jwks url.href entry)) :
    (fetchJwks rt allowHttp uri).Sat C (fun _ _ => True)
      (fun _ jwks => JwksGiven rt allowHttp C.toRely uri jwks) s := by
  unfold fetchJwks
  refine Prog.sat_bind.mpr (Prog.sat_ofExcept.mpr ⟨fun url hurl => ?_, fun _ _ => trivial⟩)
  refine Prog.sat_bind.mpr ((cachedAt_sat hC .jwks url.href).mono (fun _ _ he => he) fun s₁ r hr => ?_)
  obtain ⟨now, found⟩ := r
  obtain ⟨cached, hnow, hcached, hfound, rfl⟩ := hr
  cases found with
  | some jwks => exact ⟨url, hurl, Or.inl (fromCache hnow hcached hfound)⟩
  | none =>
    refine Prog.sat_bind.mpr ((fetchWithTimeout_sat fun t _ => hfetch url hurl _ t).mono (fun _ _ he => he) ?_)
    rintro _ res ⟨t₁, ht₁, hres, rfl⟩
    refine Prog.sat_bind.mpr (Prog.sat_ofExcept.mpr ⟨fun jwks hjwks => ?_, fun _ _ => trivial⟩)
    refine fun t _ => ⟨hkeep url hurl _ t _ ⟨now, t₁, cached, res, ?_, hjwks, rfl⟩, fun _ _ => ?_⟩
    · rw [List.append_assoc]
      exact List.sublist_append_right _ _
    · exact ⟨url, hurl, Or.inr ⟨res, ⟨t₁, ht₁, hres⟩, hjwks⟩⟩

end Sag
