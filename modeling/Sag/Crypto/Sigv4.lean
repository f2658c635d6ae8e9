import Sag.Config
import Sag.Lib.InsertionMap
import Sag.Util.Percent
import Mathlib.Data.List.Sort

/-!
# Signature Version 4

`crypto/sigv4.js`. The path of a request is signed as the URL parser gives it; its query is
encoded and sorted here, and its headers are sorted by their names. `sort` of the platform is
stable and orders texts by their units.
-/

namespace Sag

/-! ## What stands in a URL -/

/-- `split('&')`, `split('=')` and the like, at the first only. -/
def cutAt (mark : CodeUnit) (s : JsString) : JsString × JsString :=
  match breakFirst mark s with
  | none => (s, [])
  | some (before, after) => (before, after)

/-- The bytes of a part of a URL, with its escapes read; a percent sign that begins none stands
for itself. The parts of a URL are ASCII. -/
def percentDecode : JsString → Bytes
  | [] => []
  | u :: s =>
    if u = 37 then
      match s with
      | high :: low :: s =>
        match readHexDigit high, readHexDigit low with
        | some h, some l => UInt8.ofNat (h * 16 + l) :: percentDecode s
        | _, _ => 37 :: percentDecode (high :: low :: s)
      | s => 37 :: percentDecode s
    else UInt8.ofNat u.toNat :: percentDecode s

def formDecode (s : JsString) : JsString :=
  ofCodePoints (utf8Points (percentDecode (s.map fun u => if u = plusSign then 32 else u)))

/-- `url.searchParams`. -/
def searchParams (search : JsString) : List (JsString × JsString) :=
  let query := if search.head? = some 63 then search.tail else search
  ((split 38 query).filter (· ≠ [])).map fun part => (formDecode (cutAt 61 part).1, formDecode (cutAt 61 part).2)

/-! ## Signing -/

/-- `/[A-Za-z0-9\-._~]/`. -/
def UNRESERVED (u : CodeUnit) : Bool := isAlnum u || u = hyphen || u = dot || u = 95 || u = 126

/-- A character of one point, as it is or as its bytes. -/
def encodeRfc3986 (value : JsString) : JsString :=
  (codePoints value).flatMap fun p =>
    if (encodePoint p).any UNRESERVED then encodePoint p else (utf8Point p).flatMap percentByte

/-- The order of encoded parameters. -/
def ParamLe (a b : JsString × JsString) : Prop := a.1 < b.1 ∨ a.1 = b.1 ∧ a.2 ≤ b.2

instance : DecidableRel ParamLe := fun _ _ => inferInstanceAs (Decidable (_ ∨ _ ∧ _))

/-- `parts.join(mark)`. -/
def joinWith (mark : CodeUnit) (parts : List JsString) : JsString := List.intercalate [mark] parts

def canonicalQuery (searchParams : List (JsString × JsString)) : JsString :=
  let pairs := searchParams.map fun p => (encodeRfc3986 p.1, encodeRfc3986 p.2)
  joinWith 38 ((pairs.insertionSort ParamLe).map fun p => p.1 ++ 61 :: p.2)

/-- `replace(/[:-]|\.\d{3}/g, '')`. -/
def amzDate : JsString → JsString
  | 46 :: a :: b :: c :: s =>
    if isDigit a && isDigit b && isDigit c then amzDate s else 46 :: amzDate (a :: b :: c :: s)
  | u :: s => if u = 58 || u = hyphen then amzDate s else u :: amzDate s
  | [] => []

structure AwsCredentials where
  accessKeyId : JsString
  secretAccessKey : JsString
  sessionToken : Option JsString

structure SignOptions where
  method : JsString
  url : JsString
  body : JsString
  service : JsString
  region : JsString
  credentials : Option AwsCredentials
  headers : List (JsString × JsString)
  /-- `date.toISOString()`. -/
  date : JsString
  includeContentSha256 : Bool

variable (rt : Runtime)

/-- `u.host`. -/
def hostOf (url : Url) : JsString := if url.port = [] then url.hostname else url.hostname ++ 58 :: url.port

def payloadHash (opts : SignOptions) : JsString := toHex (rt.sha256 opts.body)

/-- The headers to be signed, under their lower-case names. -/
def headersOf (opts : SignOptions) (credentials : AwsCredentials) (url : Url) : InsertionMap JsString JsString :=
  let headers := InsertionMap.empty.insert (js "host") (hostOf url)
  let headers := headers.insert (js "x-amz-date") (amzDate opts.date)
  let headers :=
    if opts.includeContentSha256 then headers.insert (js "x-amz-content-sha256") (payloadHash rt opts) else headers
  let headers :=
    match credentials.sessionToken.filter (· ≠ []) with
    | some token => headers.insert (js "x-amz-security-token") token
    | none => headers
  opts.headers.foldl (fun headers h => headers.insert (rt.cases.toLowerCase h.1) (trim h.2)) headers

def signedNames (headers : InsertionMap JsString JsString) : List JsString :=
  (headers.entries.map (·.1)).insertionSort (· ≤ ·)

def canonicalHeaders (headers : InsertionMap JsString JsString) : JsString :=
  (signedNames headers).flatMap fun name => name ++ 58 :: (headers.get? name).getD (js "undefined") ++ [10]

def canonicalRequest (opts : SignOptions) (headers : InsertionMap JsString JsString) (url : Url) : JsString :=
  joinWith 10
    [rt.cases.toUpperCase opts.method,
      if url.pathname = [] then js "/" else url.pathname,
      canonicalQuery (searchParams url.search),
      canonicalHeaders headers,
      joinWith 59 (signedNames headers),
      payloadHash rt opts]

def authorizationOf (opts : SignOptions) (credentials : AwsCredentials) (url : Url) : JsString :=
  let stamp := amzDate opts.date
  let dateStamp := stamp.take 8
  let headers := headersOf rt opts credentials url
  let scope := joinWith 47 [dateStamp, opts.region, opts.service, js "aws4_request"]
  let stringToSign := joinWith 10
    [js "AWS4-HMAC-SHA256", stamp, scope, toHex (rt.sha256 (canonicalRequest rt opts headers url))]
  let k := rt.hmac (utf8 (js "AWS4" ++ credentials.secretAccessKey)) dateStamp
  let k := rt.hmac (rt.hmac (rt.hmac k opts.region) opts.service) (js "aws4_request")
  js "AWS4-HMAC-SHA256 Credential=" ++ credentials.accessKeyId ++ js "/" ++ scope ++ js ", SignedHeaders=" ++
    joinWith 59 (signedNames headers) ++ js ", Signature=" ++ toHex (rt.hmac k stringToSign)

/-- Sign a request and return the headers to send. -/
def signRequest (opts : SignOptions) : Option (InsertionMap JsString JsString) :=
  match opts.credentials with
  | none => none
  | some credentials =>
    if credentials.accessKeyId = [] ∨ credentials.secretAccessKey = [] then none
    else
      (rt.parseUrl opts.url).map fun url =>
        (headersOf rt opts credentials url).insert (js "authorization") (authorizationOf rt opts credentials url)

end Sag
