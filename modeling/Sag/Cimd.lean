import Sag.Http
import Sag.Util.Ip

/-!
# Client ID metadata documents

`assertPublicCimdTarget` of `clients/index.js`. A client may name itself by the URL of a document
about it; before the document is fetched, its host is looked up, and refused unless every
address it has is public. What the resolver answers is a parameter.
-/

namespace Sag

variable (rt : Runtime)

/-- `text.replace(/^\[|\]$/g, '')`. -/
def stripBrackets (text : JsString) : JsString :=
  let text := if text.head? = some openBracket then text.tail else text
  if text.getLast? = some closeBracket then text.dropLast else text

def localhost : JsString := js "localhost"

def notPublicError : JsError :=
  oauthError (js "invalid_client") (js "Client metadata must be served from a public network address")

def unresolvedError : JsError :=
  oauthError (js "invalid_client") (js "Could not resolve the client metadata host")

/-- `resolve` is what the resolver has for a host, or none where it throws. -/
def assertPublicCimdTarget (devMode : Bool) (resolve : JsString → Option (List JsString)) (urlHostname : JsString) :
    Except JsError Unit :=
  let hostname := rt.cases.toLowerCase (stripBrackets urlHostname)
  if devMode && (hostname = localhost || isLoopbackIp rt hostname) then .ok ()
  else if hostname = localhost || (js ".localhost").isSuffixOf hostname then .error notPublicError
  else
    match if isIpAddress rt hostname then some [hostname] else resolve hostname with
    | none => .error unresolvedError
    | some addresses =>
      if addresses = [] then .error unresolvedError
      else if addresses.any fun address => !isPublicIp rt (stripBrackets address) then .error notPublicError
      else .ok ()

end Sag
