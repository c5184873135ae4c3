import Wudup.Library.IpAddress
import Wudup.Json

/-! Which containers may be the one that `DOCKER_HOST` reaches. -/
namespace Wudup
open Library

/-- Where `DOCKER_HOST` reaches Docker; without addresses its host could not be resolved. -/
structure DockerEndpoint where
  host : Str
  port : Option ℕ
  addresses : List IpAddress := []
  deriving DecidableEq, Repr

/-- The address a text denotes, without its zone. -/
def normalizeIp (value : Option Str) : Option IpAddress :=
  value.bind fun value => ipAddress (((strip value).splitOn '%').headD [])

def networkEndpoints (details : Details) : List (List (Str × Json)) :=
  (Json.fields (details.lookup "Networks".toList)).filterMap fun (_,endpoint) =>
    match endpoint with
    | .object fields => some fields
    | _ => none

def shortIdLength : ℕ := 12

/-- The names Docker DNS can resolve to a container. -/
def containerDnsNames (rules : CaseRules) (details : Details) : List Str :=
  let ids := match Json.string? (details.lookup "Id".toList) with
    | some id => [id,id.take shortIdLength]
    | none => []
  let networks := (networkEndpoints details).flatMap fun endpoint =>
    (["Aliases".toList,"DNSNames".toList].flatMap fun key =>
      (Json.elements (endpoint.lookup key)).filterMap fun value => Json.string? (some value)) ++
    ["IPAddress".toList,"GlobalIPv6Address".toList].filterMap fun key => Json.string? (endpoint.lookup key)
  let names := (Json.string? (details.lookup "Name".toList)).toList ++ ids ++ networks
  ((names.map fun name => (strip name).dropWhile (· = '/')).filter (· ≠ [])).map rules.lower

def containerIpAddresses (details : Details) : List IpAddress :=
  (networkEndpoints details).flatMap fun endpoint =>
    ["IPAddress".toList,"GlobalIPv6Address".toList].filterMap fun key =>
      normalizeIp (Json.string? (endpoint.lookup key))

def networkModeContainerPrefix : Str := "container:".toList

/-- The container whose network a container shares. -/
def networkModeContainer (details : Details) : Str :=
  match Json.string? (details.lookup "NetworkMode".toList) with
  | none => []
  | some mode =>
    if networkModeContainerPrefix.isPrefixOf mode then strip (mode.drop networkModeContainerPrefix.length)
    else []

def isTcpPortKey (rules : CaseRules) (key : Str) : Bool :=
  let protocol := ((cut '/' key).map (·.2)).getD []
  rules.lower protocol = [] || rules.lower protocol = "tcp".toList

/-- The host address of one binding with its port, which may not be readable. -/
def hostPortBinding (binding : Json) : Option (Str × Option ℕ) :=
  match binding with
  | .object fields =>
    match Json.string? (fields.lookup "HostPort".toList) with
    | none => none
    | some hostPort =>
      if isDigits (strip hostPort) then
        some ((Json.string? (fields.lookup "HostIp".toList)).getD [],readDecimal (strip hostPort))
      else none
  | _ => none

/-- The TCP ports published on the host, in the order they are read. -/
def publishedTcpPorts (rules : CaseRules) (details : Details) : List (Str × Option ℕ) :=
  ["Ports".toList,"PortBindings".toList].flatMap fun key =>
    (Json.fields (details.lookup key)).flatMap fun (containerPort,bindings) =>
      if isTcpPortKey rules containerPort then (Json.elements (some bindings)).filterMap hostPortBinding else []

/-- The IPv4 address an IPv6 address maps; it decides the address's properties. -/
def ipv4Mapped (ip : BitVec 128) : Option (BitVec 32) :=
  if ip >>> 32 = 0xFFFF then some (ip.setWidth 32) else none

def IpAddress.isUnspecified : IpAddress → Bool
  | .v4 ip => ip = 0
  | .v6 ip _ => match ipv4Mapped ip with
    | some mapped => mapped = 0
    | none => ip = 0

def IpAddress.isLoopback : IpAddress → Bool
  | .v4 ip => ip >>> 24 = 127
  | .v6 ip _ => match ipv4Mapped ip with
    | some mapped => mapped >>> 24 = 127
    | none => ip = 1

/-- Only a port bound to a different, specific host address is out of reach. -/
def hostBindingMayReach (hostIp : Str) (endpoint : DockerEndpoint) : Bool :=
  match normalizeIp (some hostIp) with
  | none => true
  | some ip => IpAddress.isUnspecified ip || IpAddress.isLoopback ip || endpoint.addresses.contains ip ||
      normalizeIp (some endpoint.host) = some ip

/-- Whether some port reaches the endpoint; a port that cannot be read stops the search. -/
def publishesEndpoint (endpoint : DockerEndpoint) (port : ℕ) : List (Str × Option ℕ) → Option Bool
  | [] => some false
  | (_,none) :: _ => none
  | (hostIp,some hostPort) :: rest =>
    if hostPort = port && hostBindingMayReach hostIp endpoint then some true
    else publishesEndpoint endpoint port rest

def reachedByName (rules : CaseRules) (details : Details) (endpoint : DockerEndpoint) : Bool :=
  if endpoint.addresses ≠ [] then endpoint.addresses.any ((containerIpAddresses details).contains ·)
  else (containerDnsNames rules details).contains endpoint.host

/-- Whether a container that owns its network may be what `DOCKER_HOST` reaches, if that can be told. -/
def containerServesDockerEndpoint (rules : CaseRules) (details : Details) (endpoint : DockerEndpoint) :
    Option Bool :=
  if reachedByName rules details endpoint then some true
  else match endpoint.port with
    | none => some false
    | some port => publishesEndpoint endpoint port (publishedTcpPorts rules details)

end Wudup
