import Wudup.RunAudit

/-! The verification of a run from its pending rows and its events. -/
namespace Wudup
open Library

namespace RunVerification
open RunAudit

inductive ImageStatus where
  | newImageRunning
  | alreadyCurrent
  | failed
  | unknown
  deriving DecidableEq, Repr

inductive ContainerStatus where
  | recreated
  | skipped
  | failed
  | unknown
  deriving DecidableEq, Repr

inductive HealthStatus where
  | passed
  | skipped
  | timedOut
  | serviceDisappeared
  | failed
  | unknown
  deriving DecidableEq, Repr

inductive WudStatus where
  | removed
  | restored
  | staleRemoved
  | removedBeforeRun
  | unknown
  deriving DecidableEq, Repr

structure RunVerificationItem where
  lineNo : ℕ
  eventId : Option ℕ
  serviceKey : Str
  stackName : Str
  serviceName : Str
  image : Str
  targetImage : Str
  imageStatus : ImageStatus
  containerStatus : ContainerStatus
  healthStatus : HealthStatus
  wudStatus : WudStatus
  followUpNeeded : Bool
  summary : String
  deriving DecidableEq, Repr

structure RunVerificationSummary where
  verified : Bool
  totalCount : ℕ
  verifiedCount : ℕ
  needsReviewCount : ℕ
  items : List RunVerificationItem
  deriving DecidableEq, Repr

/-! An event for a row -/

/-- Known identities must not conflict. -/
def compatible (update : PendingUpdateRecord) (event : RunEventRecord) : Bool :=
  !(update.stackName ≠ [] && event.stackName ≠ [] && update.stackName ≠ event.stackName) &&
    !(update.serviceName ≠ [] && event.serviceName ≠ [] && update.serviceName ≠ event.serviceName)

def sameService (update : PendingUpdateRecord) (event : RunEventRecord) : Bool :=
  event.stackName ≠ [] && event.serviceName ≠ [] && event.stackName = update.stackName &&
    event.serviceName = update.serviceName

def sameServiceName (update : PendingUpdateRecord) (event : RunEventRecord) : Bool :=
  event.serviceName ≠ [] && event.serviceName = update.serviceName

def sameImage (update : PendingUpdateRecord) (event : RunEventRecord) : Bool :=
  event.image ≠ [] && event.image = update.image

/-- The only element of a list, if it has one. -/
def only {α : Type} : List α → Option α
  | [x] => some x
  | _ => none

/-- The event of the row's service, or else the only one of its service name, or else of its image. -/
def matchingEvent (update : PendingUpdateRecord) (events : List RunEventRecord) : Option RunEventRecord :=
  let events := events.filter (compatible update)
  match events.find? (sameService update) with
  | some event => some event
  | none =>
    let named := events.filter (sameServiceName update)
    if named ≠ [] then only named else only (events.filter (sameImage update))

/-! Statuses -/

def imageChanged (event : RunEventRecord) : Bool :=
  (event.evidence.oldImageId ≠ [] && event.evidence.newImageId ≠ [] &&
      event.evidence.oldImageId ≠ event.evidence.newImageId) ||
    (event.evidence.oldDigest ≠ [] && event.evidence.newDigest ≠ [] &&
      event.evidence.oldDigest ≠ event.evidence.newDigest)

def imageStatus (update : PendingUpdateRecord) : Option RunEventRecord → ImageStatus
  | none => if update.status = .failed then .failed else .unknown
  | some event =>
    if update.status = .failed || event.status ≠ .success then .failed
    else if event.reason = "already-current" then .alreadyCurrent
    else if imageChanged event then .newImageRunning
    else if event.reason = "updated" && event.evidence.targetImage ≠ [] &&
        event.evidence.targetImage ≠ event.image then .newImageRunning
    else .unknown

def containerStatus : Option RunEventRecord → ContainerStatus
  | none => .unknown
  | some event =>
    if event.status ≠ .success then .failed
    else if event.reason = "already-current" then .skipped
    else if event.reason = "updated" then .recreated
    else .unknown

def healthStatus : Option RunEventRecord → HealthStatus
  | none => .unknown
  | some event =>
    if event.status = .success then
      if event.reason = "already-current" then .skipped
      else if event.reason = "updated" then
        if event.evidence.runtimeStateAfter = "not-running".toList then .skipped else .passed
      else .unknown
    else if event.reason = "health-failed" then
      if event.evidence.healthEvidence = "service_disappeared".toList then .serviceDisappeared else .timedOut
    else .failed

def wudStatus (update : PendingUpdateRecord) : WudStatus :=
  match update.status with
  | .resolved => if update.statusReason = "removed-before-run" then .removedBeforeRun else .removed
  | .failed => if update.statusReason = stalePendingDigestReason then .staleRemoved else .restored
  | .pending | .inProgress => .unknown

def followUpNeeded (image : ImageStatus) (container : ContainerStatus) (health : HealthStatus) (wud : WudStatus) :
    Bool :=
  image = .unknown || image = .failed || container = .unknown || container = .failed || health = .unknown ||
    health = .failed || health = .timedOut || health = .serviceDisappeared || wud = .restored ||
    wud = .staleRemoved || wud = .unknown

def ImageStatus.label : ImageStatus → String
  | .newImageRunning => "new image running"
  | .alreadyCurrent => "image already current"
  | .failed => "image update failed"
  | .unknown => "image state unknown"

def ContainerStatus.label : ContainerStatus → String
  | .recreated => "container recreated"
  | .skipped => "recreate skipped"
  | .failed => "container recreate failed"
  | .unknown => "container state unknown"

def HealthStatus.label : HealthStatus → String
  | .passed => "health passed"
  | .skipped => "health skipped"
  | .timedOut => "health timed out"
  | .serviceDisappeared => "service disappeared"
  | .failed => "health failed"
  | .unknown => "health unknown"

def WudStatus.label : WudStatus → String
  | .removed => "WUD line removed"
  | .restored => "WUD line restored"
  | .staleRemoved => "stale WUD line removed"
  | .removedBeforeRun => "WUD line removed before run"
  | .unknown => "WUD line state unknown"

def summaryText (image : ImageStatus) (container : ContainerStatus) (health : HealthStatus) (wud : WudStatus) :
    String :=
  if followUpNeeded image container health wud then "Manual review needed."
  else image.label ++ ", " ++ container.label ++ ", " ++ health.label ++ ", " ++ wud.label ++ "."

def verificationItem (update : PendingUpdateRecord) (event : Option RunEventRecord) : RunVerificationItem :=
  let image := imageStatus update event
  let container := containerStatus event
  let health := healthStatus event
  let wud := wudStatus update
  { lineNo := update.lineNo
    eventId := event.map (·.id)
    serviceKey := update.serviceKey
    stackName := update.stackName
    serviceName := update.serviceName
    image := update.image
    targetImage := (event.map (·.evidence.targetImage)).getD []
    imageStatus := image
    containerStatus := container
    healthStatus := health
    wudStatus := wud
    followUpNeeded := followUpNeeded image container health wud
    summary := summaryText image container health wud }

/-- What a row is known by: its stack, and its service or else its image. -/
def rowIdentity (update : PendingUpdateRecord) : Str × Str :=
  (update.stackName,if update.serviceName ≠ [] then update.serviceName else update.image)

/-- The identities of the rows that are given the event. -/
def identitiesOfEvent (matchedEvents : List (PendingUpdateRecord × Option RunEventRecord)) (event : RunEventRecord) :
    List (Str × Str) :=
  orderedUnique ((matchedEvents.filter fun pair => pair.2.any (·.id = event.id)).map fun pair => rowIdentity pair.1)

/-- An item for each row, without the event where rows of two identities are given it. -/
def verificationFromRunRecords (updates : List PendingUpdateRecord) (events : List RunEventRecord) :
    RunVerificationSummary :=
  let matchedEvents := updates.map fun update => (update,matchingEvent update events)
  let items := matchedEvents.map fun (update,event) =>
    verificationItem update (event.filter fun event => (identitiesOfEvent matchedEvents event).length = 1)
  let needsReviewCount := items.countP (·.followUpNeeded)
  { verified := needsReviewCount = 0
    totalCount := items.length
    verifiedCount := items.length - needsReviewCount
    needsReviewCount
    items }

end RunVerification

end Wudup
