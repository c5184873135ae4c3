import Wudup.Library.Keyed
import Wudup.WudTargets

/-! What WUD says about its containers: payloads are parsed, and reconciled with what was seen before. -/
namespace Wudup
open Library

structure WudApiContainer where
  id : Str
  name : Str
  displayName : Str
  status : Str
  watcher : Str
  image : Str
  localTag : Str
  localDigest : Str
  remoteTag : Str
  remoteDigest : Str
  updateKind : Str
  semverDiff : Str
  link : Str
  error : Str
  labels : List (Str × Str) := []
  platform : Option ImagePlatform := none
  localImageId : Str := []
  metadataStatus : PendingMetadataStatus := .fresh
  updateAvailable : Option Bool := none
  deriving DecidableEq, Repr

structure WudContainerObservation where
  container : WudApiContainer
  updateAvailable : Option Bool
  usableScanResult : Bool
  degraded : Bool
  unsupported : Bool
  deriving DecidableEq, Repr

structure PendingObservation where
  container : WudApiContainer
  observedAt : Str
  deriving DecidableEq, Repr

structure WudContainerIdentity where
  watcher : Str
  id : Str
  name : Str
  image : Str
  localImageId : Str
  localDigest : Str
  platform : Str
  deriving DecidableEq, Repr

abbrev PendingObservations := List (WudContainerIdentity × PendingObservation)

namespace WudApiContainer

def platformValue (c : WudApiContainer) : Str := (c.platform.map ImagePlatform.value).getD []

def identity (c : WudApiContainer) : Option WudContainerIdentity :=
  if c.id = [] || c.image = [] then none
  else some {
    watcher := c.watcher
    id := c.id
    name := c.name
    image := c.image
    localImageId := c.localImageId
    localDigest := c.localDigest
    platform := c.platformValue }

end WudApiContainer

/-! Payloads -/

/-- A value that stands for itself in a choice; one that does not gives way to the next. -/
def Json.truthy : Option Json → Bool
  | none | some .null => false
  | some (.bool value) => value
  | some (.number value) => value ≠ 0
  | some (.float text) => text ≠ "0.0".toList && text ≠ "-0.0".toList
  | some (.string value) => value ≠ []
  | some (.array values) => !values.isEmpty
  | some (.object fields) => !fields.isEmpty

/-- The first of the fields with a value that stands for itself, or the last field. -/
def Json.firstField (fields : Details) : List String → Option Json
  | [] => none
  | [name] => fields.lookup name.toList
  | name :: names =>
    if Json.truthy (fields.lookup name.toList) then fields.lookup name.toList else firstField fields names

def Json.text (value : Option Json) : Str := (Json.string? value).getD []

def Json.textField (fields : Details) (name : String) : Str := Json.text (fields.lookup name.toList)

/-- The text at a path of two names. -/
def pathString (value : Details) (outer inner : String) : Str :=
  match value.lookup outer.toList with
  | some (.object fields) => Json.textField fields inner
  | _ => []

def stringMapping (value : Option Json) : List (Str × Str) :=
  (Json.fields value).filterMap fun (key,item) => (Json.string? (some item)).map fun text => (key,text)

def errorMessage : Option Json → Str
  | some (.object fields) => Json.text (Json.firstField fields ["message","error"])
  | value => Json.text value

def imageHasRegistry (image : Str) : Bool :=
  match cut '/' (stripDigest image) with
  | some (left,_) => registryHost left
  | none => false

def digestFromValue (value : Str) : Str :=
  if value = [] then []
  else if (cutText ('@' :: sha256Prefix) value).isSome || sha256Prefix.isPrefixOf value then normalizeDigest value
  else []

def tagFromRemoteValue (value : Str) : Str :=
  if value = [] then []
  else
    let candidate := stripDigest value
    let candidate := if imageHasTag candidate then imageTag candidate else candidate
    if tagValueValid candidate then candidate else []

def tagKind : Str := "tag".toList
def digestKind : Str := "digest".toList

def remoteTag (result updateKind : Details) : Str :=
  let resultTag := Json.textField result "tag"
  if tagValueValid resultTag then resultTag
  else if Json.textField updateKind "kind" ≠ tagKind then []
  else tagFromRemoteValue (Json.textField updateKind "remoteValue")

def remoteDigest (result updateKind : Details) : Str :=
  let resultDigest := digestFromValue (Json.textField result "digest")
  if resultDigest ≠ [] then resultDigest
  else if !([digestKind,tagKind].contains (Json.textField updateKind "kind")) then []
  else digestFromValue (Json.textField updateKind "remoteValue")

def hiddenUpdateKindHasDelta (updateKind : Details) : Bool :=
  if !([tagKind,digestKind].contains (Json.textField updateKind "kind")) then false
  else
    let localValue := Json.textField updateKind "localValue"
    let remoteValue := Json.textField updateKind "remoteValue"
    localValue ≠ [] && remoteValue ≠ [] && localValue ≠ remoteValue

structure UrlParts where
  scheme : Str
  netloc : Str
  path : Str
  deriving DecidableEq, Repr

/-- What the parser is given: the letter case of Unicode, URLs split into parts or refused with a reason, and
details with the settings' secrets taken out. -/
structure ObservationRules where
  case : CaseRules
  urlsplit : Str → Except Str UrlParts
  sanitizeDetail : Str → Str

section
variable (rules : ObservationRules)

def observedRegistryHost (value : Str) : Option Str :=
  let value := strip value
  if value = [] then some []
  else
    (rules.urlsplit (if (cutText "://".toList value).isSome then value else '/' :: '/' :: value)).toOption.map
      fun url =>
        let location := if url.netloc ≠ [] then url.netloc else ((cut '/' url.path).map (·.1)).getD url.path
        let host := rules.case.lower (((cutLast '@' location).map (·.2)).getD location)
        if dockerHubRegistries.contains host then [] else host

def observedImageRef (image : Details) : Option Str :=
  let name := Json.textField image "name"
  let tag := pathString image "tag" "value"
  if name = [] then some []
  else
    (observedRegistryHost rules (pathString image "registry" "url")).map fun registry =>
      let name := if registry ≠ [] && !imageHasRegistry name then registry ++ '/' :: name else name
      if tag ≠ [] && !imageHasTag name then name ++ ':' :: tag else name

def containerPlatform (raw image : Details) : Option ImagePlatform :=
  let written := [Json.textField image "platform",Json.textField raw "platform",Json.textField raw "image_platform",
    Json.textField raw "imagePlatform"]
  let sources := [Json.fields (image.lookup "platform".toList),Json.fields (raw.lookup "platform".toList),image,raw,
    Json.fields (raw.lookup "container_json".toList),Json.fields (raw.lookup "containerJson".toList)]
  match written.findSome? fun value => if value ≠ [] then parsePlatform rules.case value else none with
  | some platform => some platform
  | none =>
    sources.findSome? fun source =>
      platformFromParts rules.case (Json.text (Json.firstField source ["os","image_os","imageOs"]))
        (Json.text (Json.firstField source ["architecture","arch","image_architecture","imageArchitecture"]))
        (Json.text (Json.firstField source ["variant","image_variant","imageVariant"]))

/-- The container of a payload, if it has an image. -/
def parseContainerPayload (raw : Details) : Option (Option WudApiContainer) :=
  let image := Json.fields (raw.lookup "image".toList)
  let result := Json.fields (raw.lookup "result".toList)
  let updateKind := Json.fields (raw.lookup "updateKind".toList)
  let link := if Json.truthy (result.lookup "link".toList) then result.lookup "link".toList
    else raw.lookup "link".toList
  (observedImageRef rules image).map fun imageRef =>
    if imageRef = [] then none
    else some {
      id := Json.textField raw "id"
      name := Json.textField raw "name"
      displayName := Json.textField raw "displayName"
      status := Json.textField raw "status"
      watcher := Json.textField raw "watcher"
      image := imageRef
      localTag := pathString image "tag" "value"
      localDigest := digestFromValue (pathString image "digest" "value")
      remoteTag := remoteTag result updateKind
      remoteDigest := remoteDigest result updateKind
      updateKind := Json.textField updateKind "kind"
      semverDiff := Json.textField updateKind "semverDiff"
      link := Json.text link
      error := rules.sanitizeDetail (errorMessage (raw.lookup "error".toList))
      labels := (stringMapping (raw.lookup "labels".toList)).foldl (fun labels item => Keyed.set (·.1) item labels)
        (stringMapping (image.lookup "labels".toList))
      platform := containerPlatform rules raw image
      localImageId := Json.textField image "id" }

def hasUsableScanResult (raw : Details) (container : WudApiContainer) : Bool :=
  match raw.lookup "result".toList with
  | some (.object result) =>
    match raw.lookup "updateAvailable".toList with
    | some (.bool true) => container.remoteTag ≠ [] || container.remoteDigest ≠ []
    | _ => Json.textField result "tag" ≠ [] || Json.textField result "digest" ≠ [] ||
        Json.textField result "created" ≠ []
  | _ => false

def unsupportedRegistryErrorPrefix : Str := "unsupported registry ".toList

def observationOf (raw : Details) (container : WudApiContainer) : WudContainerObservation :=
  let updateAvailable := match raw.lookup "updateAvailable".toList with
    | some (.bool value) => some value
    | _ => none
  let usableScanResult := hasUsableScanResult raw container
  let unsupported := updateAvailable = some false && !usableScanResult &&
    unsupportedRegistryErrorPrefix.isPrefixOf (rules.case.casefold container.error)
  { container
    updateAvailable
    usableScanResult
    unsupported
    degraded := !unsupported && (updateAvailable = none || container.error ≠ [] || !usableScanResult) }

/-- The observation of an item of the payload, if it is one; the parser may stop at it. -/
def parseContainerObservation (raw : Json) : Option (Option WudContainerObservation) :=
  match Json.object? raw with
  | none => some none
  | some fields => (parseContainerPayload rules fields).map fun container => container.map (observationOf rules fields)

end

/-! Reconciliation -/

/-- What a payload amounts to, besides its diagnostics. -/
structure Reconciled where
  containers : List WudApiContainer := []
  inventoryContainers : List WudApiContainer := []
  unresolvedContainers : List WudApiContainer := []
  hiddenUpdateCandidates : List WudApiContainer := []
  retryableDegradedContainerIds : List Str := []
  degradedContainerCount : ℕ := 0
  retainedUpdateCount : ℕ := 0
  unsupportedContainerCount : ℕ := 0
  pendingObservations : PendingObservations := []
  deriving DecidableEq, Repr

namespace WudContainerIdentity

/-- The same but for the local digest. -/
def sameImage (a b : WudContainerIdentity) : Bool :=
  a.watcher = b.watcher && a.id = b.id && a.name = b.name && a.image = b.image && a.localImageId = b.localImageId &&
    a.platform = b.platform

end WudContainerIdentity

/-- The observation a container had before; without a digest, by its image if only one is of it. -/
def previousObservationForContainer (container : WudApiContainer) (previous : PendingObservations) :
    Option (WudContainerIdentity × PendingObservation) :=
  match container.identity with
  | none => none
  | some identity =>
    match Keyed.find (·.1) identity previous with
    | some exact => some exact
    | none =>
      if container.localDigest ≠ [] || container.localImageId = [] then none
      else
        match previous.filter fun entry => entry.1.sameImage identity with
        | [entry] => some entry
        | _ => none

def unavailableError : Str := "WUD update result is unavailable".toList

/-- The container as it was seen before, with what it is called and how it fares now. -/
def retainedContainer (previous container : WudApiContainer) : WudApiContainer :=
  { previous with
    displayName := container.displayName
    status := container.status
    error := if container.error ≠ [] then container.error else unavailableError
    labels := container.labels
    metadataStatus := .retained }

namespace Reconciled

def appendPendingObservation (container : WudApiContainer) (observedAt : Str) (r : Reconciled) : Reconciled :=
  { r with
    containers := r.containers ++ [container]
    pendingObservations := match container.identity with
      | some identity => Keyed.set (·.1) (identity,⟨container,observedAt⟩) r.pendingObservations
      | none => r.pendingObservations }

def reconcileDegradedObservation (observation : WudContainerObservation) (previous : PendingObservations)
    (r : Reconciled) : Reconciled :=
  match previousObservationForContainer observation.container previous with
  | some (identity,previousObservation) =>
    let retained := retainedContainer previousObservation.container observation.container
    { r with
      containers := r.containers ++ [retained]
      pendingObservations :=
        Keyed.set (·.1) (identity,⟨retained,previousObservation.observedAt⟩) r.pendingObservations
      degradedContainerCount := r.degradedContainerCount + 1
      retainedUpdateCount := r.retainedUpdateCount + 1 }
  | none =>
    if observation.unsupported then { r with unsupportedContainerCount := r.unsupportedContainerCount + 1 }
    else
      { r with
        degradedContainerCount := r.degradedContainerCount + 1
        unresolvedContainers := r.unresolvedContainers ++ [observation.container] }

def recordRetryableDegradedContainer (observation : WudContainerObservation) (r : Reconciled) : Reconciled :=
  if !observation.degraded || observation.container.id = [] ||
      r.retryableDegradedContainerIds.contains observation.container.id then r
  else { r with
    retryableDegradedContainerIds := r.retryableDegradedContainerIds ++ [observation.container.id] }

def recordHealthyObservation (raw : Details) (observation : WudContainerObservation) (observedAt : Str)
    (r : Reconciled) : Reconciled :=
  if observation.updateAvailable = some true then r.appendPendingObservation observation.container observedAt
  else if hiddenUpdateKindHasDelta (Json.fields (raw.lookup "updateKind".toList)) then
    { r with hiddenUpdateCandidates := r.hiddenUpdateCandidates ++ [observation.container] }
  else r

/-- One item of the payload; an item that is no observation counts as degraded. -/
def reconcileItem (previous : PendingObservations) (observedAt : Str) (r : Reconciled)
    (item : Json × Option WudContainerObservation) : Reconciled :=
  match item with
  | (_,none) => { r with degradedContainerCount := r.degradedContainerCount + 1 }
  | (raw,some observation) =>
    let inventoried := { observation.container with
      updateAvailable := if observation.degraded || observation.unsupported then none
        else observation.updateAvailable }
    let r := { r with inventoryContainers := r.inventoryContainers ++ [inventoried] }
    let r := r.recordRetryableDegradedContainer observation
    if observation.unsupported || observation.degraded then r.reconcileDegradedObservation observation previous
    else r.recordHealthyObservation ((Json.object? raw).getD []) observation observedAt

end Reconciled

/-- An item with its observation; where it has none, its registry is looked up for a diagnostic. -/
def inspectItem (rules : ObservationRules) (raw : Json) : Option (Json × Option WudContainerObservation) :=
  match parseContainerObservation rules raw,Json.object? raw with
  | some none,some fields =>
    (observedRegistryHost rules (pathString (Json.fields (fields.lookup "image".toList)) "registry" "url")).map
      fun _ => (raw,none)
  | observation,_ => observation.map fun observation => (raw,observation)

/-- The payload against what was seen before; `none` when an item stops it. -/
def reconcileContainerObservations (rules : ObservationRules) (payload : List Json) (previous : PendingObservations)
    (observedAt : Str) : Option Reconciled :=
  (payload.mapM (inspectItem rules)).map fun items => items.foldl (Reconciled.reconcileItem previous observedAt) {}

/-! What is said about a payload -/

def countPhrase (count : ℕ) (noun : String) : Str :=
  (toString count).toList ++ ' ' :: noun.toList ++ if count = 1 then [] else ['s']

def degradedObservationDetail (degradedContainerCount retainedUpdateCount : ℕ) : Str :=
  let unresolvedCount := degradedContainerCount - retainedUpdateCount
  " The last WUD update check failed for ".toList ++ countPhrase degradedContainerCount "container" ++ ['.'] ++
    (if retainedUpdateCount ≠ 0 then
      ' ' :: countPhrase retainedUpdateCount "update" ++
        (if retainedUpdateCount = 1 then " uses the result" else " use results").toList ++
        " from the last successful WUD check.".toList
    else []) ++
    if unresolvedCount ≠ 0 then
      " Update status is unknown for ".toList ++ countPhrase unresolvedCount "container" ++ ['.']
    else []

def observationStatusDetail (availableUpdateCount degradedContainerCount retainedUpdateCount
    unsupportedContainerCount : ℕ) : Str :=
  countPhrase availableUpdateCount "update" ++ (if availableUpdateCount = 1 then " is" else " are").toList ++
    " available.".toList ++
    (if degradedContainerCount ≠ 0 then degradedObservationDetail degradedContainerCount retainedUpdateCount
    else []) ++
    if unsupportedContainerCount ≠ 0 then
      " WUD skipped ".toList ++ countPhrase unsupportedContainerCount "container" ++ " because ".toList ++
        (if unsupportedContainerCount = 1 then "its registry is" else "their registries are").toList ++
        " unsupported.".toList
    else []

/-! Snapshots -/

inductive WudApiState where
  | ready
  | unavailable
  | authRequired
  | error
  deriving DecidableEq, Repr

structure WudApiStatus where
  state : WudApiState
  available : Bool
  metadataAvailable : Bool
  lastCheckedAt : Str
  detail : Str
  deriving DecidableEq, Repr

/-- What one check of the WUD API found, and the clock when it began. -/
structure WudApiSnapshot where
  status : WudApiStatus
  containers : List WudApiContainer := []
  inventoryContainers : List WudApiContainer := []
  unresolvedContainers : List WudApiContainer := []
  hiddenUpdateCandidates : List WudApiContainer := []
  retryableDegradedContainerIds : List Str := []
  degradedContainerCount : ℕ := 0
  retainedUpdateCount : ℕ := 0
  unsupportedContainerCount : ℕ := 0
  metadataChecked : Bool := false
  checkedMonotonic : ℚ := 0
  deriving DecidableEq, Repr

end Wudup
