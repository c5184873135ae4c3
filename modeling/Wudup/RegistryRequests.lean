import Mathlib.Data.Rat.Defs
import Wudup.Library.Program
import Wudup.RegistryOrigins

/-! Requests to registries: the addresses they may connect to, the worker that makes one, and the resolver that asks
for manifests and tokens. Every request is recorded. -/
namespace Wudup
open Library

/-! Addresses -/

def privateNetworks : List IpNetwork :=
  [.v4 (joinOctets [10,0,0,0]) 8,.v4 (joinOctets [172,16,0,0]) 12,.v4 (joinOctets [192,168,0,0]) 16,
    .v4 (joinOctets [127,0,0,0]) 8,.v6 1 128,.v6 (0xfc <<< 120) 7]

/-- Why a worker made no request. -/
inductive WorkerFailure where
  | request (message : String)
  | other
  deriving DecidableEq, Repr

def requestFailed : String := "Registry request failed: check registry DNS, TLS and network access."

def WorkerFailure.message : WorkerFailure → String
  | request message => message
  | other => requestFailed

/-- The address that is checked for another: the one it stands for. -/
def checkedAddress (address : IpAddress) : IpAddress := address.ipv4Mapped.getD address

def privateAddress (address : IpAddress) : Bool := privateNetworks.any fun network => network.contains address

section
variable (rules : RegistryRules)

def publicAddress (address : IpAddress) : Bool := rules.isGlobal address && !address.isMulticast

def validateAddress (value : Str) (allowPrivate : Bool) : Except WorkerFailure Str :=
  match ipAddress value with
  | none => .error .other
  | some address =>
    let address := checkedAddress address
    if !publicAddress rules address && !(allowPrivate && privateAddress address) then
      .error (.request "Registry request refused an unauthorized network address.")
    else .ok value

end

/-! The worker -/

inductive Connecting where
  | made
  /-- The operating system reports an error; the next address is tried. -/
  | refused
  | broken
  deriving DecidableEq, Repr

/-- What becomes of the answer of a worker. -/
inductive WorkerEnd where
  | replied
  | timedOut
  | crashed
  | unreadable
  deriving DecidableEq, Repr

/-- What the network does for one request: the addresses of the host, the connections to them, the response, and
whether the answer arrives. -/
structure Exchange where
  addresses : Option (List Str)
  connect : Str → Connecting
  response : Option (ℕ × List (Str × Str) × Body)
  ends : WorkerEnd

structure WorkerOptions where
  url : Str
  headers : List (Str × Str)
  limit : ℕ
  peer : Str
  allowPrivate : Bool

structure Reply where
  status : ℕ
  headers : List (Str × Str)
  body : Body
  peer : Str
  deriving DecidableEq

/-- The addresses that are tried, and the first that a connection is made to. -/
def connectFirst (connect : Str → Connecting) : List Str → List Str × Except WorkerFailure Str
  | [] => ([],.error .other)
  | address :: rest =>
    match connect address with
    | .made => ([address],.ok address)
    | .broken => ([address],.error .other)
    | .refused => (address :: (connectFirst connect rest).1,(connectFirst connect rest).2)

section
variable (rules : RegistryRules) (exchange : Exchange) (options : WorkerOptions)

def resolvedAddresses : Except WorkerFailure (List Str) :=
  if options.peer ≠ [] then .ok [options.peer]
  else match exchange.addresses with
    | none => .error .other
    | some addresses => .ok addresses

/-- The addresses of a request; all must be right. -/
def workerAddresses : Except WorkerFailure (List Str) := do
  let _ ← (httpsOrigin rules options.url).mapError fun _ => .request refusedUrl
  let addresses ← resolvedAddresses exchange options
  if addresses = [] then .error (.request "Registry request failed: the server has no network address.")
  else addresses.mapM fun address => validateAddress rules address options.allowPrivate

def workerReply (peer : Str) : Except WorkerFailure Reply :=
  match exchange.response with
  | none => .error .other
  | some (status,headers,body) =>
    if 300 ≤ status && status < 400 then
      .error (.request "Registry request refused a redirect; use a direct HTTPS endpoint.")
    else
      let body := if status = 200 then body.take (options.limit + 1) else []
      if body.length > options.limit then
        .error (.request "Registry response exceeded the permitted size.")
      else .ok { status, headers, body, peer }

/-- The addresses a worker connects to, and its answer. -/
def workerRequest : List Str × Except WorkerFailure Reply :=
  match workerAddresses rules exchange options with
  | .error failure => ([],.error failure)
  | .ok addresses =>
    let tried := connectFirst exchange.connect (orderedUnique addresses)
    (tried.1,tried.2 >>= workerReply exchange options)

end

def workerResult (ends : WorkerEnd) (answer : Except WorkerFailure Reply) : Except RegistryFailure Reply :=
  match ends with
  | .timedOut => requestRefused "Registry request timed out; try again when the registry is responsive."
  | .crashed => requestRefused requestFailed
  | .unreadable => requestRefused "Registry request failed: could not complete the HTTPS request."
  | .replied => answer.mapError fun failure => .request failure.message.toList

/-! The resolver -/

/-- What a request is made for: a manifest, or a token for the challenge of a registry. -/
inductive Purpose where
  | manifest
  | token (registryUrl challenge : Str)
  deriving DecidableEq, Repr

/-- A request that was made, with the addresses it connected to and its result. -/
structure SentRequest where
  purpose : Purpose
  options : WorkerOptions
  tried : List Str
  result : Except RegistryFailure Reply

structure ResolverState where
  tokens : List ((UrlOrigin × Str) × Str) := []
  sent : List SentRequest := []

abbrev Resolving := Program ResolverState RegistryFailure

/-- A resolver in its surroundings: the configured origins, a time limit that may not be finite, how bodies are
hashed and decoded, and what the network does for each request. -/
structure RegistrySettings where
  rules : RegistryRules
  authOrigins : Option Json
  timeout : Option ℚ
  hexdigest : Str → Body → Str
  decode : Body → Option Json
  exchange : ℕ → Exchange

def maxManifestBytes : ℕ := 4 * 1024 * 1024
def maxTokenBytes : ℕ := 64 * 1024
def maxTokens : ℕ := 64

def manifestAccept : Str := ", ".toList.intercalate
  ["application/vnd.oci.image.index.v1+json".toList,
    "application/vnd.docker.distribution.manifest.list.v2+json".toList,
    "application/vnd.oci.image.manifest.v1+json".toList,
    "application/vnd.docker.distribution.manifest.v2+json".toList]

def manifestFailed {α : Type} (message : String) : Resolving α := throw (.manifest (.lookup message.toList))

def RegistryFailure.isRequest : RegistryFailure → Bool
  | request _ => true
  | _ => false

/-- The token is kept; a full cache is cleared first. -/
def keepToken (tokens : List ((UrlOrigin × Str) × Str)) (key : UrlOrigin × Str) (token : Str) :
    List ((UrlOrigin × Str) × Str) :=
  (if tokens.length ≥ maxTokens then [] else tokens.filter fun entry => entry.1 ≠ key) ++ [(key,token)]

def authorization (token : Str) : Str × Str := ("Authorization".toList,"Bearer ".toList ++ token)

namespace RegistrySettings
variable (settings : RegistrySettings)

/-- How bodies are hashed and decoded; the requests are made here. -/
def bodies : RegistryHttp where
  rules := settings.rules.cases
  request _ _ := .error []
  hexdigest := settings.hexdigest
  decode := settings.decode

def requestBytes (purpose : Purpose) (options : WorkerOptions) : Resolving Reply := do
  let _ ← Program.ofExcept (httpsOrigin settings.rules options.url)
  if settings.timeout.all (· ≤ 0) then
    throw (.request "Registry request failed: timeout must be positive and finite.".toList)
  else
    let state ← get
    let exchange := settings.exchange state.sent.length
    let worker := workerRequest settings.rules exchange options
    let result := workerResult exchange.ends worker.2
    modify fun state => { state with sent := state.sent ++ [⟨purpose,options,worker.1,result⟩] }
    Program.ofExcept result

/-- The token in the answer of a token server. -/
def replyToken (reply : Reply) : Except RegistryFailure Str :=
  match settings.bodies.jsonPayload reply.body with
  | .error error => .error (.manifest error)
  | .ok payload =>
    match (Json.string? (payload.lookup "token".toList)).filter (· ≠ []) with
    | none => .error (.manifest (.lookup "Registry token response did not include a token.".toList))
    | some token => .ok token

def token (challenge registryUrl peer : Str) : Resolving Str := do
  let (url,configuredPrivate) ← Program.ofExcept (tokenUrl settings.rules settings.authOrigins challenge registryUrl)
  let origin ← Program.ofExcept (httpsOrigin settings.rules registryUrl)
  let state ← get
  match (state.tokens.lookup (origin,challenge)).filter (· ≠ []) with
  | some cached => return cached
  | none =>
    let asked ← Program.ofExcept (httpsOrigin settings.rules url)
    let sameOrigin := decide (asked = origin)
    let reply ← settings.requestBytes (.token registryUrl challenge) {
      url
      headers := [("Accept".toList,"application/json".toList)]
      limit := maxTokenBytes
      peer := if sameOrigin then peer else []
      allowPrivate := sameOrigin || configuredPrivate }
    if reply.status ≠ 200 then
      manifestFailed (s!"Registry token request failed (HTTP {reply.status}). " ++
        "Check the registry authentication settings and credentials.")
    else
      let token ← Program.ofExcept (settings.replyToken reply)
      modify fun state => { state with tokens := keepToken state.tokens (origin,challenge) token }
      return token

/-- A request that was answered with a challenge is made again, with a token and at the same peer. -/
def requestAgain (options : WorkerOptions) (first : Reply) : Resolving Reply := do
  let challenge := settings.bodies.headerValue first.headers "WWW-Authenticate".toList
  let token ← settings.token challenge options.url first.peer
  settings.requestBytes .manifest
    { options with headers := options.headers ++ [authorization token], peer := first.peer }

/-- A challenge is answered where no token was sent. -/
def answerChallenge (options : WorkerOptions) (token : Str) (first : Reply) : Resolving Reply :=
  if first.status = 401 && token = [] then settings.requestAgain options first else return first

/-- The answer to a request for a manifest. -/
def requestAnswer (url token : Str) : Resolving RegistryAnswer := do
  let origin ← Program.ofExcept (httpsOrigin settings.rules url)
  let options : WorkerOptions := {
    url
    headers := [("Accept".toList,manifestAccept)] ++ if token = [] then [] else [authorization token]
    limit := maxManifestBytes
    peer := []
    allowPrivate := !(dockerHubRegistries.contains origin.1) }
  let first ← settings.requestBytes .manifest options
  let reply ← settings.answerChallenge options token first
  if reply.status ≠ 200 then
    manifestFailed (s!"Registry manifest request failed (HTTP {reply.status}). " ++
      "Check that the image/tag exists and that you have access to it.")
  else return ⟨reply.headers,reply.body⟩

def requestFailure : RegistryFailure → RegistryFailure
  | .request message => .manifest (.lookup message)
  | failure => failure

/-- A failed request is a manifest that cannot be read. -/
def requestJson (url token reference : Str) : Resolving (List (Str × Str) × Details × Body) := do
  let answer ← (settings.requestAnswer url token).except RegistryFailure.isRequest fun failure =>
    throw (requestFailure failure)
  let payload ← Program.ofExcept ((do
    settings.bodies.verifyResponseDigests answer.body answer.headers reference
    let payload ← settings.bodies.jsonPayload answer.body
    RegistryHttp.verifyIndexChildDigests payload reference
    return payload : Except FetchError Details).mapError .manifest)
  return (answer.headers,payload,answer.body)

def manifestUrl (image : RegistryImageRef) (reference : Str) : Str :=
  "https://".toList ++ image.httpRegistry ++ "/v2/".toList ++ image.repo ++ "/manifests/".toList ++ reference

def fetch (image : RegistryImageRef) (reference : Str) : Resolving ManifestDocument := do
  let (headers,payload,body) ← settings.requestJson (manifestUrl image reference) [] reference
  return {
    source := "registry-http:".toList ++ image.httpRegistry
    digest := if reference.contains ':' then reference
      else settings.bodies.manifestDigest body "sha256".toList
    mediaType := RegistryHttp.contentType (settings.bodies.headerValue headers "Content-Type".toList)
    payload }

end RegistrySettings

end Wudup
