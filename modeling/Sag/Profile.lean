import Sag.Identity
import Sag.Http

/-!
# Profile claims

`profile.js`: which claims a session keeps, and which of them a relying party is
given. An upstream's claims are relayed from a fixed list and bounded
(`relayedClaims`); after an email code there is at most a guess at a name and an
avatar drawn from it (`inferredClaims`). What goes out is from the same list
(`outboundClaims_name`).
-/

namespace Sag

variable (rt : Runtime) (config : Config)

def PROFILE_CLAIMS : List JsString :=
  [js "name", js "given_name", js "family_name", js "middle_name", js "nickname",
    js "preferred_username", js "picture", js "locale", js "zoneinfo"]

/-- Is this claim allowed out of this deployment at all? -/
def permitted (claim : JsString) : Bool :=
  claim ∈ config.profile.claims && !(claim = js "picture" && !config.profile.showPicture)

/-- Does an address begin with `https://`, in any case? -/
def startsHttps (s : JsString) : Bool :=
  (js "https://").isPrefixOf ((s.take 8).map fun u => if isUpper u then u + 32 else u)

/-- One claim of an upstream token, bounded, when it is relayed. -/
def relayedClaim (claims : Members) (claim : JsString) : Option (JsString × Json) :=
  if !permitted config claim then none
  else
    match (Json.member claims claim).bind Json.string? with
    | none => none
    | some value =>
      if value = [] then none
      else if claim = js "picture" && !startsHttps value then none
      else if 512 < value.length then
        if claim = js "picture" then none else some (claim, .str (value.take 512))
      else some (claim, .str value)

/-- Keep only the profile claims this deployment relays, from an upstream token. -/
def relayedClaims (claims : Members) (upstreamAcr : Option JsString) : Option Members :=
  let out := PROFILE_CLAIMS.filterMap (relayedClaim config claims) ++
    ((upstreamAcr.filter (· ≠ [])).map fun acr => (js "upstream_acr", Json.str (acr.take 128))).toList
  if out = [] then none else some out

/-! ## Guesses -/

def isHexDigit (u : CodeUnit) : Bool :=
  isDigit u || (97 ≤ u && u ≤ 102) || (65 ≤ u && u ≤ 70)

def isLetter (u : CodeUnit) : Bool := isUpper u || isLower u

/-- `OPAQUE`: a local part that is a machine identifier. -/
def isOpaque (base : JsString) : Bool :=
  (base ≠ [] && base.all isDigit) || (12 ≤ base.length && base.all isHexDigit) ||
    (14 ≤ base.length && (base.take 8).all isHexDigit && base.getD 8 0 = hyphen &&
      ((base.drop 9).take 4).all isHexDigit && base.getD 13 0 = hyphen)

def ROLES : List JsString :=
  [js "admin", js "administrator", js "info", js "contact", js "support", js "help", js "hello",
    js "hi", js "sales", js "billing", js "accounts", js "noreply", js "no-reply", js "donotreply",
    js "postmaster", js "webmaster", js "abuse", js "security", js "privacy", js "legal", js "hr",
    js "jobs", js "careers", js "team", js "office", js "enquiries", js "inquiries", js "mail",
    js "email", js "test", js "root"]

def isSeparator (u : CodeUnit) : Bool := u = dot || u = 95 || u = hyphen

/-- One word of a name: an initial with its point, or a capitalised word. -/
def nameWord (word : JsString) : JsString :=
  if word.length = 1 then rt.cases.toUpperCase word ++ [dot]
  else rt.cases.toUpperCase (word.take 1) ++ rt.cases.toLowerCase (word.drop 1)

/-- Guess a display name from an email address. -/
def nameFromEmail (email : JsString) : Option JsString :=
  let loc := (split atSign email).headD []
  let base := trim ((split plusSign loc).headD [])
  if loc = [] || base.length < 2 || 40 < base.length || isOpaque base ||
      rt.cases.toLowerCase base ∈ ROLES || base.any isDigit then none
  else
    let words := words (base.map fun u => if isSeparator u then 32 else u)
    if words.length = 0 || 4 < words.length || !words.all (·.all isLetter) then none
    else
      let name := join [32] (words.map (nameWord rt))
      if name.length = 2 && isUpper (name.headD 0) && name.getD 1 0 = dot then none else some name

/-- One or two initials for an avatar, from a guessed name. -/
def initialsFor (name : JsString) : JsString :=
  let words := (splitWhere (fun u => isSpace u || isSeparator u) (name.takeWhile (· ≠ atSign))).filter
    (·.any isLetter)
  match words with
  | [] => js "?"
  | [word] => rt.cases.toUpperCase (word.take 2)
  | first :: rest => rt.cases.toUpperCase (first.take 1 ++ (rest.getLastD []).take 1)

def AVATAR_COLOURS : List JsString :=
  [js "#1f4b99", js "#7a2e6d", js "#0f5c46", js "#8a3d10", js "#403a8c", js "#8a1538", js "#155e75",
    js "#4a5320"]

/-- The hash behind `assetVersion`; printing it in base 36 and reading it back
changes nothing. -/
def assetHash (source : JsString) : Nat :=
  source.foldl (fun hash u => (hash ^^^ u.toNat) * 0x01000193 % 2 ^ 32) 0x811c9dc5

/-- What `encodeURIComponent` leaves alone. -/
def isUnreserved (u : CodeUnit) : Bool :=
  isAlnum u || u ∈ js "-_.!~*'()"

def upperHex (n : Nat) : CodeUnit := (js "0123456789ABCDEF").getD n 0

def encodeURIComponent (s : JsString) : JsString :=
  (utf8 s).flatMap fun b =>
    let u := UInt16.ofNat b.toNat
    if isUnreserved u then [u] else [37, upperHex (b.toNat / 16), upperHex (b.toNat % 16)]

/-- A self-contained initials avatar, as a data URI. -/
def initialsAvatar (name email : JsString) : JsString :=
  let initials := (initialsFor rt name).filter fun u => u ∉ js "<>&\"'"
  let colour := AVATAR_COLOURS.getD (assetHash email % AVATAR_COLOURS.length) []
  let svg := js "<svg xmlns=\"http://www.w3.org/2000/svg\" viewBox=\"0 0 96 96\" role=\"img\">" ++
    js "<rect width=\"96\" height=\"96\" rx=\"48\" fill=\"" ++ colour ++ js "\"/>" ++
    js "<text x=\"48\" y=\"48\" fill=\"#fff\" font-family=\"system-ui,sans-serif\" font-size=\"38\" font-weight=\"600\" " ++
    js "text-anchor=\"middle\" dominant-baseline=\"central\">" ++ initials ++ js "</text></svg>"
  js "data:image/svg+xml," ++ encodeURIComponent svg

/-- The claims to keep on a session authenticated by email code. -/
def inferredClaims (email : JsString) : Option Members :=
  let name := if config.profile.inferName then nameFromEmail rt email else none
  let named := match name with
    | some name =>
      if permitted config (js "name") then [(js "name", Json.str name), (js "name_inferred", .bool true)]
      else []
    | none => []
  let pictured := match name with
    | some name =>
      if config.profile.initialsAvatar && permitted config (js "picture") then
        [(js "picture", Json.str (initialsAvatar rt name email))]
      else []
    | none => []
  if named ++ pictured = [] then none else some (named ++ pictured)

/-- The profile claims to put in an id_token or a userinfo response. -/
def outboundClaims (held : Members) : Members :=
  let out := PROFILE_CLAIMS.filterMap fun claim =>
    if permitted config claim then (Json.member held claim).map (claim, ·) else none
  if (Json.member held (js "name_inferred")).any truthy && (Json.member out (js "name")).isSome then
    out ++ [(js "urn:sag:name_inferred", .bool true)]
  else out

/-- What the sign-in screens should show about the person, if anything. -/
def displayIdentity (session : Session) : Identity :=
  if !config.profile.showOnScreen then ⟨session.email, none, none⟩
  else
    let held := session.claims.getD []
    { email := session.email
      name := (Json.member held (js "name")).bind Json.string?
      picture := if config.profile.showPicture then (Json.member held (js "picture")).bind Json.string?
        else none }

/-! ## What goes out -/

variable {config}

theorem mem_of_member {members : Members} {name : JsString} {v : Json} (h : Json.member members name = some v) :
    (name, v) ∈ members := by
  unfold Json.member at h
  obtain ⟨m, hfind, rfl⟩ := Option.map_eq_some_iff.mp h
  have hname : m.1 = name := by simpa using List.find?_some hfind
  have hmem := List.mem_of_find?_eq_some hfind
  exact hname ▸ hmem

/-- Every claim that goes out is on the list, or marks a guess. -/
theorem outboundClaims_name {held : Members} {name : JsString} {v : Json}
    (h : Json.member (outboundClaims config held) name = some v) :
    name ∈ PROFILE_CLAIMS ∨ name = js "urn:sag:name_inferred" := by
  have listed : ∀ {m : JsString × Json}, m ∈ (PROFILE_CLAIMS.filterMap fun claim =>
      if permitted config claim then (Json.member held claim).map (claim, ·) else none) → m.1 ∈ PROFILE_CLAIMS := by
    intro m hm
    obtain ⟨claim, hclaim, hheld⟩ := List.mem_filterMap.mp hm
    split at hheld
    · obtain ⟨_, -, rfl⟩ := Option.map_eq_some_iff.mp hheld
      exact hclaim
    · cases hheld
  have hmem := mem_of_member h
  unfold outboundClaims at hmem
  dsimp only at hmem
  split at hmem
  · rcases List.mem_append.mp hmem with hmem | hmem
    · exact Or.inl (listed hmem)
    · exact Or.inr (congrArg Prod.fst (List.mem_singleton.mp hmem))
  · exact Or.inl (listed hmem)

end Sag
