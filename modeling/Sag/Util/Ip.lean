import Sag.Config
import Sag.Util.Json

/-!
# Addresses of the network

`util/ip.js`: the numbers that the text of an address spells, and whether it is an address
of the public Internet. A regular expression of the source is what it accepts here: each is
anchored at both ends, or finds the last piece of a text.
-/

namespace Sag

variable (rt : Runtime)

def colon : CodeUnit := 58
def percent : CodeUnit := 37
def openBracket : CodeUnit := 91
def closeBracket : CodeUnit := 93

/-! ## IPv4 -/

/-- `Number` of decimal digits. -/
def decimalValue (digits : JsString) : Nat := digits.foldl (fun n u => n * 10 + (u.toNat - 48)) 0

/-- `/^\d{1,3}$/`, and no more than 255. -/
def isOctet (part : JsString) : Bool :=
  1 ≤ part.length && part.length ≤ 3 && part.all isDigit && decimalValue part ≤ 255

def ipv4Number (value : JsString) : Option Nat :=
  let parts := split dot value
  if parts.length = 4 && parts.all isOctet then
    some (parts.foldl (fun number part => number * 256 + decimalValue part) 0)
  else none

def inV4Range (number base bits : Nat) : Bool := base ≤ number && number < base + 2 ^ (32 - bits)

/-- The blocks that are not public. -/
def blockedRanges : List (JsString × Nat) :=
  [(js "0.0.0.0", 8), (js "10.0.0.0", 8), (js "100.64.0.0", 10), (js "127.0.0.0", 8), (js "169.254.0.0", 16),
    (js "172.16.0.0", 12), (js "192.0.0.0", 24), (js "192.0.2.0", 24), (js "192.88.99.0", 24),
    (js "192.168.0.0", 16), (js "198.18.0.0", 15), (js "198.51.100.0", 24), (js "203.0.113.0", 24),
    (js "224.0.0.0", 4), (js "240.0.0.0", 4)]

def isPublicIpv4 (value : JsString) : Bool :=
  match ipv4Number value with
  | none => false
  | some number => !blockedRanges.any fun (base, bits) => inV4Range number ((ipv4Number base).getD 0) bits

/-! ## IPv6 -/

/-- `/^\d+\.\d+\.\d+\.\d+$/`. -/
def isQuad (text : JsString) : Bool :=
  match split dot text with
  | [a, b, c, d] => [a, b, c, d].all fun part => part ≠ [] && part.all isDigit
  | _ => false

/-- The text up to the last colon, and what stands after it. -/
def lastPiece (text : JsString) : JsString × JsString :=
  match breakLast colon text with
  | some (before, last) => (before ++ [colon], last)
  | none => ([], text)

/-- `n.toString(16)`. -/
def hexText (n : Nat) : JsString := (Nat.toDigits 16 n).map fun c => UInt16.ofNat c.toNat

/-- A dotted quad at the end is written as two groups. -/
def expandQuad (text : JsString) : Option JsString :=
  let (before, last) := lastPiece text
  if isQuad last then
    (ipv4Number last).map fun number =>
      before ++ hexText (number >>> 16 &&& 0xffff) ++ [colon] ++ hexText (number &&& 0xffff)
  else some text

/-- The text before and after the first `::`. -/
def breakPair : JsString → Option (JsString × JsString)
  | [] => none
  | u :: s =>
    if u = colon && s.head? = some colon then some ([], s.tail)
    else (breakPair s).map fun (a, b) => (u :: a, b)

/-- `part ? part.split(':') : []`. -/
def groupsOf (part : JsString) : List JsString := if part = [] then [] else split colon part

def isLowerHex (u : CodeUnit) : Bool := isDigit u || (97 ≤ u && u ≤ 102)

/-- `/^[0-9a-f]{1,4}$/`. -/
def isGroup (part : JsString) : Bool := 1 ≤ part.length && part.length ≤ 4 && part.all isLowerHex

def hexDigitValue (u : CodeUnit) : Nat := if isDigit u then u.toNat - 48 else u.toNat - 87

/-- `Number.parseInt(part, 16)`. -/
def hexValue (part : JsString) : Nat := part.foldl (fun n u => n * 16 + hexDigitValue u) 0

/-- `ipv6Parts`, of a text of which only groups and colons are left. -/
def hexParts (text : JsString) : Option (List Nat) :=
  -- a second `::` after the first
  if (breakPair text).any fun pair => (breakPair pair.2).isSome then none
  else
    let (left, right) := (breakPair text).getD (text, [])
    let before := groupsOf left
    let after := groupsOf right
    if before.any (!isGroup ·) || after.any (!isGroup ·) then none
    else
      let missing : Int := 8 - before.length - after.length
      if ((breakPair text).isSome && missing < 1) || ((breakPair text).isNone && missing ≠ 0) then none
      else some ((before ++ List.replicate missing.toNat (js "0") ++ after).map hexValue)

/-- `text.slice(1, -1)`, of a text in brackets. -/
def unbracket (text : JsString) : JsString :=
  if text.head? = some openBracket && text.getLast? = some closeBracket then text.tail.dropLast else text

def ipv6Parts (value : JsString) : Option (List Nat) :=
  let text := unbracket (rt.cases.toLowerCase value)
  let text := text.takeWhile (· ≠ percent)
  (expandQuad text).bind hexParts

def isLoopbackIp (value : JsString) : Bool :=
  match ipv4Number value with
  | some v4 => inV4Range v4 ((ipv4Number (js "127.0.0.0")).getD 0) 8
  | none => (ipv6Parts rt value).any fun parts => (parts.take 7).all (· = 0) && parts.getD 7 0 = 1

/-- `[a, b, c, d].join('.')`. -/
def dotted (octets : List Nat) : JsString := [dot].intercalate (octets.map decimal)

def isPublicIpv6 (value : JsString) : Bool :=
  match ipv6Parts rt value with
  | none => false
  | some parts =>
    let part (i : Nat) := parts.getD i 0
    if (parts.take 5).all (· = 0) && part 5 = 0xffff then
      -- an IPv4-mapped address
      isPublicIpv4 (dotted [part 6 >>> 8, part 6 &&& 255, part 7 >>> 8, part 7 &&& 255])
    else if part 0 = 0x2002 then
      -- 6to4
      isPublicIpv4 (dotted [part 1 >>> 8, part 1 &&& 255, part 2 >>> 8, part 2 &&& 255])
    else if part 0 = 0x2001 && part 1 = 0 then
      -- Teredo, where the address is inverted
      isPublicIpv4
        (dotted [255 - (part 6 >>> 8), 255 - (part 6 &&& 255), 255 - (part 7 >>> 8), 255 - (part 7 &&& 255)])
    else
      let global := part 0 &&& 0xe000 = 0x2000
      let documentation := part 0 = 0x2001 && part 1 = 0x0db8
      let benchmarking := part 0 = 0x2001 && part 1 = 0x0002 && part 2 = 0
      global && !documentation && !benchmarking

def isPublicIp (value : JsString) : Bool :=
  if colon ∈ value then isPublicIpv6 rt value else isPublicIpv4 value

def isIpAddress (value : JsString) : Bool := (ipv4Number value).isSome || (ipv6Parts rt value).isSome

end Sag
