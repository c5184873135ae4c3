import Wudup.Images
import Wudup.Json
import Wudup.Library.Unicode

/-! Registry documents: image manifests and indexes, their children, and how they are fetched. -/
namespace Wudup
open Library

structure ImagePlatform where
  os : Str
  architecture : Str
  variant : Str := []
  deriving DecidableEq, Repr

def platformComponentChar (c : Char) : Bool := c.isAlphanum || c = '_' || c = '.' || c = '-'

def validPlatformComponent (value : Str) : Bool := value ≠ [] && value.all platformComponentChar

def unknownPlatform : Str := "unknown".toList

section
variable (rules : CaseRules)

/-- A platform of valid parts, none of which is unknown. -/
def platformFromParts (os architecture variant : Str) : Option ImagePlatform :=
  let os := rules.lower (strip os)
  let architecture := rules.lower (strip architecture)
  let variant := rules.lower (strip variant)
  if !validPlatformComponent os then none
  else if !validPlatformComponent architecture then none
  else if variant ≠ [] && !validPlatformComponent variant then none
  else if os = unknownPlatform || architecture = unknownPlatform || variant = unknownPlatform then none
  else some { os, architecture, variant }

def platformFromDescriptor (value : Option Json) : Option ImagePlatform :=
  match value with
  | some (.object fields) =>
    match Json.string? (fields.lookup "os".toList),Json.string? (fields.lookup "architecture".toList) with
    | some os,some architecture =>
      platformFromParts rules os architecture ((Json.string? (fields.lookup "variant".toList)).getD [])
    | _,_ => none
  | _ => none

end

def platformMatches (found wanted : ImagePlatform) : Bool :=
  if found.os ≠ wanted.os || found.architecture ≠ wanted.architecture then false
  else found.variant = wanted.variant

/-- An image of architecture arm64 may leave its variant out. -/
def sameLocalPlatform (child platform : ImagePlatform) : Bool :=
  if child.os ≠ platform.os || child.architecture ≠ platform.architecture then false
  else if child.variant = platform.variant then true
  else child.architecture = "arm64".toList &&
    [child.variant,platform.variant].all fun variant => variant = [] || variant = "v8".toList

/-- An image of a registry by its tag. -/
structure RegistryImageRef where
  registry : Str
  httpRegistry : Str
  repo : Str
  tag : Str
  deriving DecidableEq, Repr

def ghcrRegistry : Str := "ghcr.io".toList

def dockerHubRegistries : List Str :=
  ["docker.io".toList,"index.docker.io".toList,"registry-1.docker.io".toList]

namespace RegistryImageRef

def isGhcr (image : RegistryImageRef) : Bool := image.registry = ghcrRegistry

def manifestRef (image : RegistryImageRef) (reference : Str) : Str :=
  if sha256Prefix.isPrefixOf reference then image.registry ++ '/' :: image.repo ++ '@' :: reference
  else image.registry ++ '/' :: image.repo ++ ':' :: reference

end RegistryImageRef

/-- The registry and the path of an image; Docker Hub is the default. -/
def registryAndPath (rules : CaseRules) (image : Str) : Str × Str :=
  match cut '/' image with
  | none => ("docker.io".toList,"library/".toList ++ image)
  | some (first,rest) =>
    if registryHost first then (rules.lower first,rest) else ("docker.io".toList,image)

def parseRegistryImage (rules : CaseRules) (image : Str) : Option RegistryImageRef :=
  let image := strip (stripDigest image)
  if image = [] then none
  else
    let (registry,repoTag) := registryAndPath rules image
    match cutLast ':' repoTag with
    | none => none
    | some (repo,tag) =>
      if tag.contains '/' || repo = [] || tag = [] then none
      else some {
        registry
        httpRegistry := if dockerHubRegistries.contains registry then "registry-1.docker.io".toList else registry
        repo
        tag }

def indexMediaTypes : List Str :=
  ["application/vnd.oci.image.index.v1+json".toList,
    "application/vnd.docker.distribution.manifest.list.v2+json".toList]

def imageManifestMediaTypes : List Str :=
  ["application/vnd.oci.image.manifest.v1+json".toList,
    "application/vnd.docker.distribution.manifest.v2+json".toList]

structure ManifestDocument where
  source : Str
  digest : Str
  mediaType : Str
  payload : Details

namespace ManifestDocument
variable (document : ManifestDocument)

def isIndex : Bool :=
  indexMediaTypes.contains document.mediaType || Json.isArray (document.payload.lookup "manifests".toList)

def isImageManifest : Bool :=
  imageManifestMediaTypes.contains document.mediaType ||
    ((document.payload.lookup "config".toList).bind Json.object?).isSome

def manifestItems : List Details :=
  (Json.elements (document.payload.lookup "manifests".toList)).filterMap Json.object?

/-- What an index says about one of its children. -/
def itemDigest (item : Details) : Option Str := Json.string? (item.lookup "digest".toList)

def itemPlatform (rules : CaseRules) (item : Details) : Option ImagePlatform :=
  platformFromDescriptor rules (item.lookup "platform".toList)

def childDigest (digest : Str) : Str :=
  if document.manifestItems.any (itemDigest · = some digest) then digest else []

def platformChildDigest (rules : CaseRules) (digest : Str) : Str :=
  if document.manifestItems.any fun item => itemDigest item = some digest && (itemPlatform rules item).isSome then
    digest
  else []

/-- The platform of the first child with the digest. -/
def childPlatform (rules : CaseRules) (digest : Str) : Option ImagePlatform :=
  (document.manifestItems.find? (itemDigest · = some digest)).bind (itemPlatform rules)

/-- The digest of an item that is a child of the platform. -/
def platformDigest (rules : CaseRules) (platform : ImagePlatform) (item : Details) : Option Str :=
  match itemDigest item with
  | none => none
  | some digest =>
    if digest = [] then none
    else if (itemPlatform rules item).any (platformMatches · platform) then some digest
    else none

/-- The digests of the children of a platform. -/
def platformChildren (rules : CaseRules) (platform : ImagePlatform) : List Str :=
  document.manifestItems.filterMap (platformDigest rules platform)

/-- The digest of the only child of a platform. -/
def matchingPlatformChildDigest (rules : CaseRules) (platform : ImagePlatform) : Str :=
  match document.platformChildren rules platform with
  | [digest] => digest
  | _ => []

def childDigests : List Str := (document.manifestItems.filterMap itemDigest).filter (· ≠ [])

def configDigest : Str :=
  (Json.string? ((Json.fields (document.payload.lookup "config".toList)).lookup "digest".toList)).getD []

end ManifestDocument

def sha256Digest? (value : Option Json) : Option Str :=
  (Json.string? value).filter sha256Prefix.isPrefixOf

/-- The digest a payload states for itself. -/
def payloadDigest (payload : Details) : Str :=
  match sha256Digest? (payload.lookup "digest".toList) with
  | some digest => digest
  | none =>
    (sha256Digest? ((Json.fields (payload.lookup "Descriptor".toList)).lookup "digest".toList)).getD []

def sameManifest (left right : Details) : Bool := (Json.object left).dumps = (Json.object right).dumps

/-- Why a document was not fetched: it could not be read, or its bytes are not what they should be. -/
inductive FetchError where
  | lookup (error : Str)
  | integrity (error : Str)
  deriving DecidableEq, Repr

abbrev ManifestResolver := RegistryImageRef → Str → Except FetchError ManifestDocument

abbrev Body := List UInt8

/-- A successful answer of the registry. -/
structure RegistryAnswer where
  headers : List (Str × Str)
  body : Body

/-- The registry's HTTP interface: its answers, tokens included, and how bodies are hashed and decoded. -/
structure RegistryHttp where
  rules : CaseRules
  request : RegistryImageRef → Str → Except Str RegistryAnswer
  hexdigest : Str → Body → Str
  decode : Body → Option Json

def lowerHex (c : Char) : Bool := c.isDigit || ('a' ≤ c && c ≤ 'f')

def validManifestDigest (digest : Option Str) : Bool :=
  digest.any fun digest => [("sha256:".toList,64),("sha512:".toList,128)].any fun (algorithm,length) =>
    algorithm.isPrefixOf digest &&
      ((digest.drop algorithm.length).length = length && (digest.drop algorithm.length).all lowerHex)

def childDigestError : Str :=
  ("Registry manifest integrity check failed: an image index " ++
    "contains an invalid child digest. Check the registry before retrying.").toList

def bodyDigestError : Str :=
  ("Registry manifest integrity check failed: the response does not match " ++
    "its requested or advertised digest. No update can be verified from " ++
    "this response; check the registry before retrying.").toList

namespace RegistryHttp
variable (http : RegistryHttp)

def manifestDigest (body : Body) (algorithm : Str) : Str := algorithm ++ ':' :: http.hexdigest algorithm body

def headerValue (headers : List (Str × Str)) (name : Str) : Str :=
  ((headers.find? fun (key,_) => http.rules.lower key = http.rules.lower name).map (·.2)).getD []

/-- The body hashes to a digest. -/
def verifyManifestDigest (body : Body) (digest : Str) : Except FetchError Unit :=
  let algorithm := ((cut ':' digest).map (·.1)).getD digest
  if !validManifestDigest (some digest) || http.manifestDigest body algorithm ≠ digest then
    .error (.integrity bodyDigestError)
  else .ok ()

/-- The body hashes to the digest it was requested by, and to the one it is advertised with. -/
def verifyResponseDigests (body : Body) (headers : List (Str × Str)) (reference : Str) : Except FetchError Unit :=
  if reference = [] then .ok ()
  else
    let requested := if reference.contains ':' then reference else []
    let advertised := http.headerValue headers "Docker-Content-Digest".toList
    ([requested,advertised].filter (· ≠ [])).forM (http.verifyManifestDigest body)

def verifyIndexChildDigests (payload : Details) (reference : Str) : Except FetchError Unit :=
  let invalid := (Json.elements (payload.lookup "manifests".toList)).any fun child =>
    !(child.object?.any fun item => validManifestDigest (ManifestDocument.itemDigest item))
  if reference ≠ [] && invalid then .error (.integrity childDigestError) else .ok ()

def jsonPayload (body : Body) : Except FetchError Details :=
  match http.decode body with
  | none => .error (.lookup "Registry response was not valid JSON.".toList)
  | some payload =>
    match payload.object? with
    | none => .error (.lookup "Registry response was not a JSON object.".toList)
    | some fields => .ok fields

def contentType (value : Str) : Str := strip (((cut ';' value).map (·.1)).getD value)

def fetch : ManifestResolver := fun image reference => do
  let answer ← (http.request image reference).mapError .lookup
  http.verifyResponseDigests answer.body answer.headers reference
  let payload ← http.jsonPayload answer.body
  verifyIndexChildDigests payload reference
  return {
    source := "registry-http:".toList ++ image.httpRegistry
    digest := if reference.contains ':' then reference else http.manifestDigest answer.body "sha256".toList
    mediaType := contentType (http.headerValue answer.headers "Content-Type".toList)
    payload }

end RegistryHttp

/-- `docker manifest inspect`: its output, unless the command fails. -/
structure DockerManifests where
  inspect : Str → Option Str
  inspectVerbose : Str → Option Str
  decode : Str → Option Json

/-- One entry of a verbose listing as an index lists it. -/
def verboseManifest (manifestRef : Str) (item : Json) : Except FetchError Details :=
  match item.object? with
  | none => .error (.lookup
      ("docker manifest inspect --verbose returned unsupported JSON for ".toList ++ manifestRef))
  | some fields =>
    match (fields.lookup "Descriptor".toList).bind Json.object? with
    | none => .error (.lookup
        ("docker manifest inspect --verbose omitted descriptors for ".toList ++ manifestRef))
    | some descriptor =>
      if (ManifestDocument.itemDigest descriptor).getD [] = [] then .error (.lookup
        ("docker manifest inspect --verbose omitted descriptor digests for ".toList ++ manifestRef))
      else .ok descriptor

def normalizeVerboseManifestPayload (payload : Json) (manifestRef : Str) : Except FetchError Details :=
  match payload with
  | .object fields => .ok fields
  | .array items => do
    let manifests ← items.mapM (verboseManifest manifestRef)
    if manifests = [] then .error (.lookup
      ("docker manifest inspect --verbose returned an empty manifest list for ".toList ++ manifestRef))
    else .ok [("schemaVersion".toList,.number 2),
      ("mediaType".toList,.string "application/vnd.docker.distribution.manifest.list.v2+json".toList),
      ("manifests".toList,.array (manifests.map .object))]
  | _ => .error (.lookup
      ("docker manifest inspect --verbose returned unsupported JSON for ".toList ++ manifestRef))

namespace DockerManifests

/-- The payload of a manifest, flattened when the listing is verbose. -/
def payload (docker : DockerManifests) (verbose : Bool) (manifestRef : Str) : Except FetchError Details :=
  match (if verbose then docker.inspectVerbose manifestRef else docker.inspect manifestRef) with
  | none => .error (.lookup ("docker manifest inspect failed for ".toList ++ manifestRef))
  | some output =>
    match docker.decode output with
    | none => .error (.lookup ("docker manifest inspect returned invalid JSON for ".toList ++ manifestRef))
    | some payload =>
      if verbose then normalizeVerboseManifestPayload payload manifestRef
      else match payload.object? with
        | none => .error (.lookup
            ("docker manifest inspect returned non-object JSON for ".toList ++ manifestRef))
        | some fields => .ok fields

def fetch (docker : DockerManifests) (verbose : Bool) : ManifestResolver := fun image reference => do
  let payload ← docker.payload verbose (image.manifestRef reference)
  return {
    source := if verbose then "docker-manifest-verbose".toList else "docker-manifest".toList
    digest := if verbose then payloadDigest payload else []
    mediaType := (Json.string? (payload.lookup "mediaType".toList)).getD []
    payload }

end DockerManifests

end Wudup
