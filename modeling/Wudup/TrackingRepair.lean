import Wudup.ComposeRender
import Wudup.ComposePersistence
import Wudup.JobRegistry
import Wudup.StackServices

/-! The repair of one tracking label: revalidation of the plan, the label write, the recreate, and
the rollback of the Compose file. -/
namespace Wudup
open Library Library.Program Library.Versioned

/-- Text in UTF-8; bytes that decode to one text are the same bytes. -/
structure TextEncoding (β : Type) where
  decode : β → Option Str
  injective : ∀ a b t, decode a = some t → decode b = some t → a = b

structure TrackingRepairRequest where
  targetId : Str
  regex : Str
  deriving DecidableEq, Repr

/-- One discovered Compose service, as far as a repair reads it. -/
structure TrackingTarget where
  targetId : Str
  service : Str
  image : Str
  labelValue : Str
  transformLabel : Str
  running : Bool
  serviceKeyAmbiguous : Bool
  deriving DecidableEq, Repr

structure TrackingRepairPlan (Hash : Type) where
  planId : Hash
  sourceHash : Hash
  renderedHash : Hash
  currentRegex : Str
  proposedRegex : Str
  proposedTransform : Str
  issues : List String
  deriving DecidableEq, Repr

def TrackingRepairPlan.canApply {Hash : Type} (plan : TrackingRepairPlan Hash) : Bool := plan.issues = []

/-- What a repair takes from outside: the hash, the encoding, what discovery makes of Docker's answer,
the check of the regex, and the text with one service's label replaced. -/
structure TrackingSetting (β Hash : Type) where
  sha256 : β → Hash
  /-- The hash of texts joined by a zero character. -/
  planHash : List Str → Hash
  encoding : TextEncoding β
  records : List (String × String) → List TrackingTarget
  validRegex : Str → Str → Bool
  render : TrackingTarget → (expectedLabel proposedRegex expectedTransform : Str) → β → Except Exn β

/-- The variables of a repair job. -/
structure RepairState (Hash : Type) where
  status : ApplyJobStatus := .queued
  runId : Bool := false
  plan : Option (TrackingRepairPlan Hash) := none
  record : Option TrackingTarget := none
  backup : Bool := false
  recreateStarted : Bool := false
  expectedImageId : Str := []
  /-- What the rollback's replacement returned: the folder with the old file was synced. -/
  restoredOnDisk : Bool := false
  retainBackup : Bool := false

/-- An `HTTPException` or a decoding error; a job treats them as it treats any other exception. -/
def otherException : Exn := .runtimeError

namespace TrackingTarget

def currentRegex (target : TrackingTarget) : Str := composeUnescapeDollars target.labelValue

def serviceTransform (target : TrackingTarget) : Str := composeUnescapeDollars target.transformLabel

def plannedTransform (target : TrackingTarget) (regex : Str) : Str :=
  plannedWudTagTransform (imageTag target.image) regex target.serviceTransform

def issues (target : TrackingTarget) (runtimeImageId : Str) : List String :=
  (if target.serviceKeyAmbiguous then
    ["Duplicate service identity; choose an unambiguous Compose service."] else []) ++
  (if target.running then [] else ["Service must be confirmed running before automatic recreation."]) ++
  (if target.running && runtimeImageId = [] then
    ["Running image differs from the local Compose image or could not be verified; repair tracking " ++
      "only after the image is reconciled."] else [])

end TrackingTarget

namespace TrackingRepair
variable {β Hash : Type} [DecidableEq Hash]

abbrev Op (β Hash : Type) := Operation β Hash (RepairState Hash)

/-- One text from Docker; empty when there is none. -/
def answerText : Op β Hash Str := do
  return ((← step).listing.headD ("","")).1.toList

def containerIds : Op β Hash (List Str) := do
  return (← step).listing.map fun (id,_) => id.toList

/-- An id Docker is asked for; a failing command counts as no id. -/
def tryId : Op β Hash Str := except answerText Exn.isCommandError fun _ => return []

/-- The id of the one running image of a service, when it is the local image's id too. -/
def matchingRuntimeImageId : Op β Hash Str := do
  match ← except (do return some (← containerIds)) Exn.isCommandError fun _ => return none with
  | some [_] => do
    let running ← tryId
    if running = [] then return []
    else return if running = (← tryId) then running else []
  | _ => return []

section
variable (x : TrackingSetting β Hash)

/-- The plan for a target of a request, made from the text the Compose file held. -/
def plan (request : TrackingRepairRequest) (target : TrackingTarget) (source rendered : β) (text : Str)
    (runtimeImageId : Str) : TrackingRepairPlan Hash where
  planId := x.planHash [request.targetId,request.regex,target.image,target.currentRegex,text,runtimeImageId,
    target.serviceTransform,target.plannedTransform request.regex]
  sourceHash := x.sha256 source
  renderedHash := x.sha256 rendered
  currentRegex := target.currentRegex
  proposedRegex := request.regex
  proposedTransform := target.plannedTransform request.regex
  issues := target.issues runtimeImageId

/-- Loads the file, which must have the expected hash, and renders it with the new label. -/
def renderComposeTrackingLabel (target : TrackingTarget) (currentRegex proposedRegex : Str)
    (expectedSourceHash : Hash) : Op β Hash β := do
  let _ ← step
  let w ← get
  if x.sha256 w.compose.content ≠ expectedSourceHash then throw .composeTagRewriteError
  else match x.render target currentRegex proposedRegex target.serviceTransform w.compose.content with
    | .error e => throw e
    | .ok rendered => return rendered

def applyComposeTrackingLabel (target : TrackingTarget) (currentRegex proposedRegex : Str)
    (expectedSourceHash : Hash) : Op β Hash Unit := do
  let rendered ← renderComposeTrackingLabel x target currentRegex proposedRegex expectedSourceHash
  let _ ← atomicReplaceCompose x.sha256 .rewrite rendered (some expectedSourceHash) true

/-- The text the file holds and that text with the new label. -/
def previewTrackingLabel (request : TrackingRepairRequest) (target : TrackingTarget) : Op β Hash (β × Str × β) :=
  except (do
    let _ ← step
    let w ← get
    match x.encoding.decode w.compose.content with
    | none => throw otherException
    | some text => do
      let rendered ← renderComposeTrackingLabel x target target.currentRegex request.regex
        (x.sha256 w.compose.content)
      return (w.compose.content,text,rendered)) Exn.isRewriteOrOsError fun _ => throw otherException

/-- The image a running service of the plan must keep. -/
def plannedImageId (target : TrackingTarget) : Op β Hash Str :=
  if target.running then matchingRuntimeImageId else return []

def buildTrackingRepairPlan (request : TrackingRepairRequest) :
    Op β Hash (TrackingRepairPlan Hash × TrackingTarget) := do
  match (x.records (← step).listing).filter (·.targetId = request.targetId) with
  | [target] => do
    if (cutText ('@' :: sha256Prefix) target.image).isSome ∨ !x.validRegex request.regex (imageTag target.image) ∨
        (target.currentRegex = request.regex ∧ target.plannedTransform request.regex = []) then
      throw otherException
    else
      let (source,text,rendered) ← previewTrackingLabel x request target
      let runtimeImageId ← plannedImageId target
      return (plan x request target source rendered text runtimeImageId,target)
  | _ => throw otherException

/-- The plan made again, which must have the approved id, with the image that must keep running. -/
def revalidateTrackingRepair (request : TrackingRepairRequest) (planId : Hash) :
    Op β Hash (TrackingRepairPlan Hash × TrackingTarget × Str) := do
  let (plan,target) ← buildTrackingRepairPlan x request
  if plan.planId ≠ planId ∨ !plan.canApply then throw .runtimeError
  else
    let expectedImageId ← matchingRuntimeImageId
    if expectedImageId = [] then throw .runtimeError
    else
      -- the Compose project, then the running services
      if !(← ask) then throw .runtimeError
      else if ← ask then return (plan,target,expectedImageId)
      else throw .runtimeError

def requireApprovedComposeSource (renderedHash : Hash) : Op β Hash Unit := do
  let _ ← except step Exn.isOsError fun _ => throw .runtimeError
  if composeSourceHash x.sha256 (← get) ≠ renderedHash then throw .runtimeError else return ()

def verifyRecreatedService (expectedImageId : Str) (renderedHash : Hash) : Op β Hash Unit := do
  requireApprovedComposeSource x renderedHash
  match ← except containerIds Exn.isCommandError fun _ => return [] with
  | [_] => do
    if (← tryId) ≠ expectedImageId then throw .runtimeError else return ()
  | _ => throw .runtimeError

/-- Puts the backed-up file back over the version the plan wrote, and recreates the service if that had
begun; the result is the error text, empty when the file is back and on disk. -/
def rollbackTrackingRepair (plan : TrackingRepairPlan Hash) : Op β Hash String := do
  let restoredOnDisk ← except (do
    let restoredOnDisk ← restoreComposeBackup x.sha256 plan.renderedHash
    assign fun s => { s with restoredOnDisk }
    let w ← get
    if w.locals.recreateStarted then
      if (← tryId) ≠ w.locals.expectedImageId then throw .runtimeError
      else
        let _ ← step
        return some restoredOnDisk
    else
      return some restoredOnDisk) Exn.isException fun _ => return none
  return match restoredOnDisk with
    | none => "rollback failed"
    | some false => "the restored Compose file may not survive a crash"
    | some true => ""

/-- The rollback of a repair that rewrote the file. -/
def rollbackIfChanged : Op β Hash String := do
  let w ← get
  match w.locals.plan with
  | some plan =>
    if !w.writtenHashes.isEmpty && w.locals.backup && w.locals.record.isSome then rollbackTrackingRepair x plan
    else return ""
  | none => return ""

/-- Rolls back a failed repair, finishes its audit record and ends the job; the result says whether the
backup must stay. -/
def finishFailedTrackingRepair : Op β Hash Bool := do
  let rollbackError ← rollbackIfChanged x
  let w ← get
  whenever (w.locals.runId && w.locals.plan.isSome) (suppress Exn.isException progress)
  assign fun s => { s with status := .failure }
  return rollbackError ≠ ""

/-- The steps of a repair; any of them may raise. -/
def repairSteps (request : TrackingRepairRequest) (planId : Hash) : Op β Hash Unit := do
  let (plan,target,expectedImageId) ← revalidateTrackingRepair x request planId
  assign fun s => { s with plan := some plan, record := some target, expectedImageId }
  -- the audit record
  let _ ← step
  assign fun s => { s with runId := true }
  backupCompose
  assign fun s => { s with backup := true }
  applyComposeTrackingLabel x target plan.currentRegex plan.proposedRegex plan.sourceHash
  requireApprovedComposeSource x plan.renderedHash
  if (← matchingRuntimeImageId) ≠ expectedImageId then throw .runtimeError
  else
    requireApprovedComposeSource x plan.renderedHash
    assign fun s => { s with recreateStarted := true }
    -- the recreate
    let _ ← step
    verifyRecreatedService x expectedImageId plan.renderedHash
    -- the audit record is finished
    let _ ← step
    assign fun s => { s with status := .success }

/-- Removes the backup the job no longer needs. -/
def dropBackup : Op β Hash Unit := do
  let w ← get
  whenever (w.locals.backup && !w.locals.retainBackup) unlinkBackup

def runTrackingRepair (request : TrackingRepairRequest) (planId : Hash) : Op β Hash Unit := do
  assign fun s => { s with status := .running }
  finish (except (repairSteps x request planId) Exn.isException fun _ => do
    let retainBackup ← finishFailedTrackingRepair x
    assign fun s => { s with retainBackup }) dropBackup

end
end TrackingRepair
end Wudup
