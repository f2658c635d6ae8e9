import Sag.Effects

/-!
# Requests and responses

What a handler reads of a request, and what it answers. A page is the template
with the values the handler gives it; the values that only dress the page (logos,
legal links, form actions) are left out. A response hands out the tokens it
carries in its body and its cookies (`Response.tokens`), and a request hands in
those its parameters and cookies open to (`Request.presents`).
-/

namespace Sag

/-- `URLSearchParams`: names and values in order. -/
abbrev Form := List (JsString × Value)

def oauthError (code description : JsString) : JsError := .oauth code description 400 false

/-- First value of a repeated parameter, rejecting duplicates per OAuth 2.1. -/
def single (params : Form) (name : JsString) : Except JsError (Option Value) :=
  match params.filter (·.1 = name) with
  | [] => .ok none
  | [p] => .ok (if p.2.text = [] then none else some p.2)
  | _ => .error (oauthError (js "invalid_request") (js "Duplicate \"" ++ name ++ js "\" parameter"))

structure Request where
  isPost : Bool
  /-- What `readForm` makes of the body. -/
  form : Except JsError Form
  query : Form
  cookies : List (JsString × Value)
  /-- `x-sag-client-ip`. -/
  clientIp : Option JsString

/-- `parseCookies(request).get(name)`. -/
def Request.cookie (request : Request) (name : JsString) : Option Value :=
  (request.cookies.find? (·.1 = name)).map (·.2)

def readForm (request : Request) : M Form := do
  suspend
  Resumable.Prog.ofExcept (F := effects) request.form

/-- `single(params, name)` where a handler is running. -/
def param (params : Form) (name : JsString) : M (Option Value) :=
  Resumable.Prog.ofExcept (F := effects) (single params name)

/-- The text of an optional parameter. -/
def textOf (v : Option Value) : Option JsString := v.map (·.text)

def Request.values (request : Request) : List Value :=
  (request.form.toOption.getD [] ++ request.query ++ request.cookies).map (·.2)

/-- The tokens a request hands in. -/
def Request.presents (request : Request) (tok : Sealed) : Prop :=
  ∃ v ∈ request.values, v.opens = some tok

/-! ## Responses -/

structure PageError where
  title : JsString
  detail : JsString
  deriving DecidableEq

/-- What a screen shows about the person. -/
structure Identity where
  email : JsString
  name : Option JsString
  picture : Option JsString

inductive CookieValue where
  | token (x : Sealed) (maxAge : Nat)
  | cleared

structure Cookie where
  name : JsString
  value : CookieValue

inductive Body where
  | email (tx : Sealed) (email : Option JsString) (rememberMe : Bool) (error : Option PageError)
      (otpRecovery showOtpRecovery : Bool)
  | otp (tx : Sealed) (email : Option JsString) (error : Option PageError) (devCode : Option JsString)
      (resent : Bool)
  | localPassword (tx : Sealed) (email : Option JsString) (error : Option PageError)
      (upstreams : List (JsString × JsString))
  | localMfa (tx : Sealed) (email : Option JsString) (error : Option PageError)
      (totpDigits : List Nat)
  | continue (tx : Sealed) (identity : Identity) (error : Option PageError)
  | chooser (tx : Sealed) (email : Option JsString) (options : List (JsString × JsString))
      (hinted : Option JsString) (error : Option PageError) (otpAction : Bool)
  | confirmLogout (token : Sealed) (identity : Identity) (clientName cancelUrl : Option JsString)
      (isShared : Bool)
  | signedOut (returnLabel : Option JsString)
  | error (title detail : JsString)
  /-- The authorization response, in the response mode asked for. -/
  | code (redirectUri responseMode : JsString) (code : Sealed) (state : Option JsString)
  /-- An error reported to the relying party. -/
  | failure (redirectUri : JsString) (responseMode : Option JsString) (code description : JsString)
      (state : Option JsString)
  /-- The redirect to an upstream provider; the rest of the URL comes from `state`. -/
  | upstream (upstream : Upstream) (state : Sealed) (challenge : JsString) (prompt : Option JsString)
  | returnTo (url : JsString) (state : Option JsString)

structure Response where
  status : Nat
  body : Body
  cookies : List Cookie

def html (body : Body) (status : Nat) : Response := ⟨status, body, []⟩

def redirect (body : Body) : Response := ⟨303, body, []⟩

/-- Append a `Set-Cookie` header. -/
def withCookie (response : Response) (cookie : Cookie) : Response :=
  { response with cookies := response.cookies ++ [cookie] }

/-- The tokens in the body of a response. -/
def Body.tokens : Body → List Sealed
  | .email tx .. | .otp tx .. | .localPassword tx .. | .localMfa tx .. | .continue tx ..
  | .chooser tx .. | .confirmLogout tx .. | .code _ _ tx _ | .upstream _ tx _ _ => [tx]
  | .signedOut _ | .error _ _ | .failure .. | .returnTo _ _ => []

def Cookie.tokens (cookie : Cookie) : List Sealed :=
  match cookie.value with
  | .token x _ => [x]
  | .cleared => []

/-- The tokens a response hands out. -/
def Response.tokens (response : Response) : List Sealed :=
  response.body.tokens ++ response.cookies.flatMap Cookie.tokens

@[simp] theorem html_tokens (body : Body) (status : Nat) : (html body status).tokens = body.tokens := by
  simp [html, Response.tokens]

@[simp] theorem redirect_tokens (body : Body) : (redirect body).tokens = body.tokens := by
  simp [redirect, Response.tokens]

@[simp] theorem withCookie_tokens (response : Response) (cookie : Cookie) :
    (withCookie response cookie).tokens = response.tokens ++ cookie.tokens := by
  simp [withCookie, Response.tokens]

/-- A parameter that is read was submitted. -/
theorem mem_of_single {params : Form} {name : JsString} {v : Value}
    (h : single params name = .ok (some v)) : (name, v) ∈ params := by
  unfold single at h
  split at h
  · cases h
  · next p hp =>
    split at h
    · cases h
    · have hv : p.2 = v := by simpa using h
      have hmem : p ∈ params.filter (·.1 = name) := by simp [hp]
      have hname : p.1 = name := by simpa using (List.mem_filter.mp hmem).2
      have hpair : p = (name, v) := Prod.ext hname hv
      exact hpair ▸ (List.mem_filter.mp hmem).1
  · cases h

/-- A cookie that is read was submitted. -/
theorem mem_of_cookie {request : Request} {name : JsString} {v : Value}
    (h : request.cookie name = some v) : v ∈ request.values := by
  obtain ⟨c, hc, rfl⟩ := Option.map_eq_some_iff.mp h
  have hmem := List.mem_of_find?_eq_some hc
  exact List.mem_map.mpr ⟨c, by simp [hmem], rfl⟩

end Sag
