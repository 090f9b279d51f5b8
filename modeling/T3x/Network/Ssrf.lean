import T3x.Js.Shape
import T3x.Network.Addresses

/-!
# The guard against requests to internal addresses

A URL is checked by the text of its host, once as it is and once more for the
address of version 4 in a mapped address. A name that passes is resolved, and
the texts of its addresses are checked by a function of their own. The parser of
URLs and the resolver are parameters.
-/

namespace T3x.Network

open Js

/-! ## Hosts -/

/-- The host of a URL. -/
inductive UrlHost where
  /-- A DNS name. -/
  | domain (name : JsString)
  /-- An address of version 4. -/
  | ipv4 (address : Ipv4)
  /-- An address of version 6. -/
  | ipv6 (address : Ipv6)
  /-- Any other host, such as none. -/
  | other (text : JsString)

/-- `url.hostname`. -/
def UrlHost.hostname : UrlHost → JsString
  | .domain name => name
  | .ipv4 address => ipv4Text address
  | .ipv6 address => unit '[' :: (ipv6Text address ++ [unit ']'])
  | .other text => text

/-- `hostname.replace(/^\[|\]$/g, '')`. -/
def stripBrackets (hostname : JsString) : JsString :=
  let hostname := if hostname.head? = some (unit '[') then hostname.tail else hostname
  if hostname.getLast? = some (unit ']') then hostname.dropLast else hostname

/-! ## Numbers in texts -/

/-- `parseInt(s, 10)`, without a value where it is not a number. -/
def parseDecimal (s : JsString) : Option ℤ :=
  let trimmed := s.dropWhile isSpace
  let negative := decide (trimmed.head? = some (unit '-'))
  let unsigned :=
    if negative ∨ trimmed.head? = some (unit '+') then trimmed.tail else trimmed
  let digits := unsigned.takeWhile isDigit
  if digits = [] then none
  else some (if negative then -digitsValue digits else digitsValue digits)

/-- Whether a code unit is a hexadecimal digit of either case. -/
def isHexUnit (u : UInt16) : Bool := isDigit u || (97 ≤ u && u ≤ 102) || (65 ≤ u && u ≤ 70)

/-- The value of a hexadecimal digit of either case. -/
def hexUnitValue (u : UInt16) : ℕ := if 65 ≤ u ∧ u ≤ 70 then u.toNat - 55 else hexValue u

/-- `parseInt(s, 16)` for a text of hexadecimal digits. -/
def parseHex (s : JsString) : ℕ := s.foldl (fun n u => 16 * n + hexUnitValue u) 0

/-- `/^[0-9a-f]+:[0-9a-f]+$/i.test(mapped)`: the parts before and after the colon. -/
def hexPair (mapped : JsString) : Option (JsString × JsString) :=
  match split (unit ':') mapped with
  | [high, low] =>
    if high ≠ [] ∧ low ≠ [] ∧ high.all isHexUnit ∧ low.all isHexUnit then some (high, low) else none
  | _ => none

/-- The text of the octets of two hexadecimal parts. -/
def dottedText (high low : JsString) : JsString :=
  join (unit '.') [natToString (parseHex high / 256 % 256), natToString (parseHex high % 256),
    natToString (parseHex low / 256 % 256), natToString (parseHex low % 256)]

/-! ## The checks -/

/-- The test of the second number of a text that starts with `172.`. -/
def isPrivateSecond (text : JsString) : Bool :=
  match (split (unit '.') text)[1]?.bind parseDecimal with
  | none => false
  | some second => decide (16 ≤ second ∧ second ≤ 31)

/-- `isInternalIP(ip)`. -/
def isInternalIP (ip : JsString) : Bool :=
  if startsWith ip (js "127.") ∨ ip = js "::1" then true
  else if ip = js "0.0.0.0" then true
  else if ip = js "::" ∨ ip = js "::0" then true
  else if startsWith ip (js "10.") ∨ startsWith ip (js "192.168.") then true
  else if startsWith ip (js "172.") ∧ isPrivateSecond ip then true
  else if startsWith ip (js "169.254.") then true
  else if startsWith ip (js "fd") ∨ startsWith ip (js "fe80") then true
  else false

/-- `http://` with a host. -/
def httpUrl (host : JsString) : JsString := js "http://" ++ host ++ js "/"

/-- The checks of `isInternalUrl` on a host without brackets. The host in a mapped address is
checked as a URL of its own. -/
def isInternalHostname (recheck : JsString → Option Bool) (hostname : JsString) : Option Bool :=
  if hostname = js "localhost" ∨ startsWith hostname (js "127.") ∨ hostname = js "::1" then some true
  else if hostname = js "0.0.0.0" then some true
  else if hostname = js "::" ∨ hostname = js "::0" then some true
  else if startsWith hostname (js "::ffff:") then
    let mapped := hostname.drop 7
    match hexPair mapped with
    | some (high, low) => recheck (httpUrl (dottedText high low))
    | none => recheck (httpUrl mapped)
  else if startsWith hostname (js "10.") ∨ startsWith hostname (js "192.168.") then some true
  else if startsWith hostname (js "172.") ∧ isPrivateSecond hostname then some true
  else if startsWith hostname (js "169.254.") ∨ hostname = js "metadata.google.internal" then
    some true
  else if startsWith hostname (js "fd") ∨ startsWith hostname (js "fe80") then some true
  else some false

section

variable (parseUrl : JsString → Option UrlHost)

/-- `isInternalUrl(urlStr)`, if it returns within a number of nested calls. An invalid URL is
blocked. -/
def isInternalUrl : ℕ → JsString → Option Bool
  | 0, _ => none
  | calls + 1, urlStr =>
    match parseUrl urlStr with
    | none => some true
    | some host => isInternalHostname (isInternalUrl calls) (stripBrackets host.hostname)

/-- `/^[\d.]+$/.test(hostname) || hostname.includes(':')`. -/
def looksLikeAddress (hostname : JsString) : Bool :=
  (!hostname.isEmpty && hostname.all fun u => isDigit u || u = unit '.') ||
    hostname.contains (unit ':')

/-- `isInternalUrlResolved(urlStr)`, if it returns within a number of nested calls. A resolution
that fails gives no addresses. -/
def isInternalUrlResolved (resolve4 resolve6 : JsString → List JsString) (calls : ℕ)
    (urlStr : JsString) : Option Bool :=
  match isInternalUrl parseUrl calls urlStr with
  | none => none
  | some true => some true
  | some false =>
    match parseUrl urlStr with
    | none => some true
    | some host =>
      let hostname := stripBrackets host.hostname
      if looksLikeAddress hostname then some false
      else some ((resolve4 hostname ++ resolve6 hostname).any isInternalIP)

end

end T3x.Network
