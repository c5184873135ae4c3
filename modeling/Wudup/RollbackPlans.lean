import Wudup.DigestDocuments
import Wudup.Matching

/-! The read-only plan to roll back what a recorded updater run changed. -/
namespace Wudup.RollbackPlanning
open Library

/-! Recorded runs -/

structure UpdateRunRow where
  id : ℕ
  dryRun : Bool
  mode : Str
  deriving DecidableEq, Repr

structure RunEventRecord where
  id : ℕ
  runId : ℕ
  stackName : Str
  serviceName : Str
  image : Str
  targetImage : Str
  oldImageId : Str
  newImageId : Str
  oldDigest : Str
  status : Str
  deriving DecidableEq, Repr

/-- The recorded runs, and their events in the order of their ids. -/
structure RunDatabase where
  runs : List UpdateRunRow
  events : List RunEventRecord

def validUpdateModes : List Str := ["pause".toList,"stop".toList,"live".toList]

def successStatus : Str := "success".toList

/-- The latest later updater run that changed the service. -/
def RunDatabase.supersedingRun (db : RunDatabase) (runId : ℕ) (stackName serviceName : Str) : Option ℕ :=
  ((db.events.filter fun event => runId < event.runId ∧ event.status = successStatus ∧
      event.stackName = stackName ∧ event.serviceName = serviceName ∧
      ∃ run ∈ db.runs, run.id = event.runId ∧ run.mode ∈ validUpdateModes).map (·.runId)).max?

/-! Plans -/

inductive RollbackItemStatus where
  | ready
  | blocked
  | notNeeded
  deriving DecidableEq, Repr

inductive RollbackPlanStatus where
  | notApplicable
  | unavailable
  | ready
  /-- Some services are ready and others are blocked. -/
  | partly
  | blocked
  | notNeeded
  deriving DecidableEq, Repr

structure RollbackPlanItem where
  eventId : ℕ
  serviceKey : Str
  stackName : Str
  serviceName : Str
  status : RollbackItemStatus
  reason : Str
  recordedPreviousImage : Str
  recordedTargetImage : Str
  rollbackImage : Str
  previousImageId : Str
  previousDigest : Str
  currentComposeImage : Str := []
  currentContainerImageIds : List Str := []
  deriving DecidableEq, Repr

structure RollbackPlanResponse where
  runId : ℕ
  status : RollbackPlanStatus
  detail : Str
  readyCount : ℕ := 0
  blockedCount : ℕ := 0
  notNeededCount : ℕ := 0
  items : List RollbackPlanItem := []
  deriving DecidableEq, Repr

/-- What Compose and Docker answer, with an empty answer where a command fails. -/
structure RollbackEnvironment where
  discoverStacks : List Str → Except Str (List ComposeStack)
  psQuiet : (directory file service : Str) → (projectDirectory : Option Str) → List Str
  containerImageId : Str → Str
  imageId : Str → Str

def exactSha256Digest (digest : Str) : Bool :=
  sha256Prefix.isPrefixOf digest &&
    ((digest.drop sha256Prefix.length).length = 64 && (digest.drop sha256Prefix.length).all lowerHex)

namespace RunEventRecord
variable (event : RunEventRecord)

/-- The previous image by its exact digest, empty where none is recorded. -/
def rollbackImage : Str :=
  let previousDigest := normalizeDigest event.oldDigest
  if event.image ≠ [] ∧ exactSha256Digest previousDigest then imageWithDigest event.image previousDigest else []

def item (status : RollbackItemStatus) (reason : Str) : RollbackPlanItem where
  eventId := event.id
  serviceKey := List.intercalate ['/'] ([event.stackName,event.serviceName].filter (· ≠ []))
  stackName := event.stackName
  serviceName := event.serviceName
  status := status
  reason := reason
  recordedPreviousImage := event.image
  recordedTargetImage := event.targetImage
  rollbackImage := event.rollbackImage
  previousImageId := event.oldImageId
  previousDigest := event.oldDigest

def blockedItem (reason : Str) : RollbackPlanItem := event.item .blocked reason

def recordedNoChange : Bool :=
  event.status = successStatus && event.image ≠ [] && event.image = event.targetImage && event.oldImageId ≠ [] &&
    event.oldImageId = event.newImageId

/-- What the record alone decides. -/
def recordedRollbackItem (supersedingRunId : Option ℕ) : Option RollbackPlanItem :=
  if event.status ≠ successStatus then
    some (event.blockedItem "The recorded update event did not complete successfully.".toList)
  else if event.recordedNoChange then
    some (event.item .notNeeded "The image reference and image ID did not change.".toList)
  else if [event.stackName,event.serviceName,event.image,event.targetImage,event.oldImageId,event.newImageId].any
      (· = []) then
    some (event.blockedItem "The event is missing stack, service, image, or image ID evidence.".toList)
  else
    match supersedingRunId with
    | some later =>
      some (event.blockedItem ("A later successful updater run #".toList ++ Nat.toDigits 10 later ++
        " changed this service.".toList))
    | none =>
      if event.rollbackImage = [] then
        some (event.blockedItem "The event does not contain a valid exact previous sha256 digest.".toList)
      else none

end RunEventRecord

def stackServiceMatches (composeStacks : List ComposeStack) (stackName serviceName : Str) :
    List (ComposeStack × ServiceImage) :=
  (composeStacks.filter (·.name = stackName)).flatMap fun stack =>
    (stack.serviceImages.filter (·.service = serviceName)).map fun service => (stack,service)

/-- What Docker says of the containers of the service that an event is about. -/
def containersRollbackItem (environment : RollbackEnvironment) (containerIds : List Str) (service : ServiceImage)
    (event : RunEventRecord) : RollbackPlanItem :=
  let imageIds := containerIds.map environment.containerImageId
  let item : RollbackPlanItem :=
    if imageIds.any (· = []) then
      event.blockedItem "At least one running container image ID could not be inspected.".toList
    else if imageIds.any (· ≠ event.newImageId) then
      event.blockedItem "At least one running container no longer uses the recorded new image ID.".toList
    else if environment.imageId event.rollbackImage ≠ event.oldImageId then
      event.blockedItem "The exact previous image is no longer available locally.".toList
    else
      event.item .ready "Current and previous image state was verified from Docker and Compose.".toList
  { item with
    currentComposeImage := service.image
    currentContainerImageIds := sortedSet (imageIds.filter (· ≠ [])) }

/-- What Compose and Docker say of an event that the record leaves open. -/
def liveRollbackItem (environment : RollbackEnvironment) (composeStacks : List ComposeStack) (event : RunEventRecord) :
    RollbackPlanItem :=
  match stackServiceMatches composeStacks event.stackName event.serviceName with
  | [] => event.blockedItem "The current Compose service could not be found uniquely.".toList
  | _ :: _ :: _ => event.blockedItem "More than one current Compose service matches this event.".toList
  | [(stack,service)] =>
    if service.image ≠ event.targetImage then
      { event.blockedItem "The current Compose image no longer matches the recorded target image.".toList with
        currentComposeImage := service.image }
    else
      let containerIds := environment.psQuiet stack.directory stack.file event.serviceName stack.projectDirectory
      if containerIds = [] then
        { event.blockedItem "No running container was found for this service.".toList with
          currentComposeImage := service.image }
      else containersRollbackItem environment containerIds service event

def notApplicableReason (run : UpdateRunRow) (events : List RunEventRecord) : Str :=
  if run.dryRun then "Dry runs do not change services, so there is nothing to roll back.".toList
  else if run.mode ∉ validUpdateModes then "This run is not an updater apply run.".toList
  else if events = [] then "This run has no recorded update events.".toList
  else []

def rollbackStatus (ready blocked : ℕ) : RollbackPlanStatus × Str :=
  if ready ≠ 0 ∧ blocked ≠ 0 then
    (.partly,"Some services have verified rollback targets; others are blocked.".toList)
  else if blocked ≠ 0 then
    (.blocked,"No service has a verified rollback target; review each blocker.".toList)
  else if ready ≠ 0 then (.ready,"The listed services have verified local rollback targets.".toList)
  else (.notNeeded,"The recorded events do not contain an image change to roll back.".toList)

def rollbackResponse (runId : ℕ) (items : List RollbackPlanItem) : RollbackPlanResponse :=
  let ready := items.countP (·.status = .ready)
  let blocked := items.countP (·.status = .blocked)
  { runId
    status := (rollbackStatus ready blocked).1
    detail := (rollbackStatus ready blocked).2
    readyCount := ready
    blockedCount := blocked
    notNeededCount := items.countP (·.status = .notNeeded)
    items }

/-- The next of the later items stands where the record decides nothing. -/
def fillItems : List (Option RollbackPlanItem) → List RollbackPlanItem → List RollbackPlanItem
  | [],_ => []
  | some item :: rest,later => item :: fillItems rest later
  | none :: rest,item :: later => item :: fillItems rest later
  | none :: _,[] => []

/-- The events that the record leaves open. -/
def pendingEvents (recordedItem : RunEventRecord → Option RollbackPlanItem) (events : List RunEventRecord) :
    List RunEventRecord :=
  ((events.zip (events.map recordedItem)).filter (·.2.isNone)).map (·.1)

/-- The plan for events of which the record decides some. -/
def applicableRollbackPlan (environment : RollbackEnvironment) (runId : ℕ)
    (recordedItem : RunEventRecord → Option RollbackPlanItem) (events : List RunEventRecord) : RollbackPlanResponse :=
  let recordedItems := events.map recordedItem
  let pending := pendingEvents recordedItem events
  if pending = [] then rollbackResponse runId (recordedItems.filterMap id)
  else
    match environment.discoverStacks (orderedUnique (pending.map (·.stackName))) with
    | .error detail =>
      let unavailable := pending.map (·.blockedItem "The current Compose state could not be verified.".toList)
      let items := fillItems recordedItems unavailable
      { runId, status := .unavailable, detail, blockedCount := items.countP (·.status = .blocked)
        notNeededCount := items.countP (·.status = .notNeeded), items }
    | .ok composeStacks =>
      rollbackResponse runId (fillItems recordedItems (pending.map (liveRollbackItem environment composeStacks)))

def buildRollbackPlan (environment : RollbackEnvironment) (run : UpdateRunRow) (events : List RunEventRecord)
    (supersedingRun : Str → Str → Option ℕ) : RollbackPlanResponse :=
  let notApplicable := notApplicableReason run events
  if notApplicable ≠ [] then { runId := run.id, status := .notApplicable, detail := notApplicable }
  else applicableRollbackPlan environment run.id
    (fun event => event.recordedRollbackItem (supersedingRun event.stackName event.serviceName)) events

def apiRollbackPlan (environment : RollbackEnvironment) (db : RunDatabase) (runId : ℕ) :
    Except (ℕ × Str) RollbackPlanResponse :=
  match db.runs.find? (·.id = runId) with
  | none => .error (404,"run not found".toList)
  | some run =>
    .ok (buildRollbackPlan environment run (db.events.filter (·.runId = runId)) (db.supersedingRun runId))

end Wudup.RollbackPlanning
