import Mathlib.Logic.Function.Basic
import Wudup.Library.IpAddress
import Wudup.Models

/-! The client address of a request behind a trusted proxy, and the login attempts counted under it. -/
namespace Wudup
open Library

/-- A request's headers, by lower-case name, line by line, and the address it comes from. -/
structure Request where
  headers : List (Str × Str)
  client : Option Str

/-- The value of the first line of a header. -/
def Request.header (request : Request) (name : Str) : Str := (request.headers.lookup name).getD []

inductive IpNetwork where
  | v4 (address : BitVec 32) (prefixLen : ℕ)
  | v6 (address : BitVec 128) (prefixLen : ℕ)
  deriving DecidableEq, Repr

def IpNetwork.contains : IpNetwork → IpAddress → Bool
  | .v4 address prefixLen,.v4 ip => ip >>> (32 - prefixLen) = address >>> (32 - prefixLen)
  | .v6 address prefixLen,.v6 ip _ => ip >>> (128 - prefixLen) = address >>> (128 - prefixLen)
  | _,_ => false

structure ProxySettings where
  trustedProxies : List IpNetwork

def clientIsTrustedProxy (request : Request) (settings : ProxySettings) : Bool :=
  match request.client.bind ipAddress with
  | none => false
  | some address => settings.trustedProxies.any (·.contains address)

def lastForwardedHeaderValue (value : Str) : Str :=
  (((value.splitOn ',').reverse.map strip).find? (· ≠ [])).getD []

def forwardedForHeader : Str := "x-forwarded-for".toList
def forwardedProtoHeader : Str := "x-forwarded-proto".toList
def forwardedHostHeader : Str := "x-forwarded-host".toList
def forwardedHeader : Str := "forwarded".toList

/-- Whether the proxy uses the `X-Forwarded-*` convention. -/
def hasXForwardedHeaders (request : Request) : Bool :=
  [forwardedForHeader,forwardedProtoHeader,forwardedHostHeader].any fun name =>
    lastForwardedHeaderValue (request.header name) ≠ []

def ipAddressOrEmpty (value : Str) : Str := if (ipAddress value).isSome then value else []

/-- Header values hold no letter outside ASCII that has an ASCII lower case. -/
def lower (text : Str) : Str := text.map Char.toLower

def unknownClient : Str := "unknown".toList

/-- An address without its quotes, brackets and port. -/
def normalizeForwardedClientAddress (value : Str) : Str :=
  let raw := stripChars ['"'] (strip value)
  if raw = [] || lower raw = unknownClient then []
  else if raw.head? = some '[' then
    match cut ']' raw.tail with
    | some (host,_) => host
    | none => raw
  else if ipAddressOrEmpty raw ≠ [] then raw
  else match cutLast ':' raw with
    | none => raw
    | some (host,port) => if isDigits port && (ipAddress host).isSome then host else raw

/-- The value of a `for` parameter. -/
def forParameter (segment : Str) : Option Str :=
  match cut '=' (strip segment) with
  | none => none
  | some (key,raw) => if lower key = "for".toList then some raw else none

def clientAddressFromForwardedHeader (value : Str) : Str :=
  match ((lastForwardedHeaderValue value).splitOn ';').findSome? forParameter with
  | none => []
  | some raw => ipAddressOrEmpty (normalizeForwardedClientAddress raw)

def trustedForwardedClientAddress (request : Request) (settings : ProxySettings) : Str :=
  if !clientIsTrustedProxy request settings then []
  else if !hasXForwardedHeaders request then clientAddressFromForwardedHeader (request.header forwardedHeader)
  else
    let forwardedFor := lastForwardedHeaderValue (request.header forwardedForHeader)
    ipAddressOrEmpty (normalizeForwardedClientAddress forwardedFor)

def requestClientAddress (request : Request) (settings : ProxySettings) : Str :=
  let forwarded := trustedForwardedClientAddress request settings
  if forwarded ≠ [] then forwarded else request.client.getD []

/-! Login attempts -/

structure LoginThrottleEntry where
  failures : ℕ
  lastFailedAt : ℤ
  lockedUntil : ℤ
  deriving DecidableEq, Repr

abbrev ThrottleKey := Str × Str

/-- Failed and running attempts by name and address, and by address alone. -/
structure LoginThrottle where
  throttle : ThrottleKey → Option LoginThrottleEntry
  clientThrottle : Str → Option LoginThrottleEntry
  pending : ThrottleKey → ℕ
  clientPending : Str → ℕ

/-- How names are compared, and the limits, in ticks of the clock. -/
structure LoginRules where
  casefold : Str → Str
  maxFailures : ℕ
  cooldown : ℤ

namespace LoginRules
variable (rules : LoginRules)

def loginThrottleKey (username clientAddress : Str) : ThrottleKey :=
  (rules.casefold (strip username),clientAddress)

def pruneLoginThrottle {κ : Type} (throttle : κ → Option LoginThrottleEntry) (now : ℤ) (key : κ) :
    Option LoginThrottleEntry :=
  (throttle key).filter fun entry => now - entry.lastFailedAt < rules.cooldown

def loginAttemptsExhausted (entry : Option LoginThrottleEntry) (pending : ℕ) (now : ℤ) : Bool :=
  (entry.any fun entry => entry.lockedUntil > now) ||
    (entry.map (·.failures)).getD 0 + pending ≥ rules.maxFailures

/-- An attempt is counted unless the limit is reached. -/
def reserveLoginAttempt (request : Request) (settings : ProxySettings) (username : Str) (now : ℤ)
    (state : LoginThrottle) : Bool × LoginThrottle :=
  let clientAddress := requestClientAddress request settings
  let key := rules.loginThrottleKey username clientAddress
  let throttle := rules.pruneLoginThrottle state.throttle now
  let clientThrottle := rules.pruneLoginThrottle state.clientThrottle now
  let pruned := { state with throttle, clientThrottle }
  if rules.loginAttemptsExhausted (throttle key) (state.pending key) now ||
      rules.loginAttemptsExhausted (clientThrottle clientAddress) (state.clientPending clientAddress) now then
    (false,pruned)
  else
    (true,{ pruned with
      pending := Function.update state.pending key (state.pending key + 1)
      clientPending := Function.update state.clientPending clientAddress
        (state.clientPending clientAddress + 1) })

end LoginRules
end Wudup
