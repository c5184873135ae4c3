import Mathlib.Data.Char
import Mathlib.Data.List.Lex
import Mathlib.Data.List.Sort
import Mathlib.Logic.Function.Basic
import Wudup.ComposeRewrite
import Wudup.StackServices
import Wudup.Library.Dict

/-! Applying an approved retag to one stack: the Compose rewrite, the recreate, the known-image
records, and the rollback of all three. -/
namespace Wudup
open Library Library.Program Library.Versioned

structure RetagPlanUpdate where
  targetId : Str
  serviceKey : Str
  update : DigestPinUpdate
  digestPin : Bool := false
  allowStart : Bool := false
  knownImageServiceKeyAmbiguous : Bool := false
  deriving DecidableEq, Repr

/-- One row of `known_images`, without its key and its constant metadata; the digest provenance
columns are empty for a retag that does not pin. -/
structure KnownImageRow where
  image : Str
  digest : Str
  updatedAt : Str
  sourceImage : Str := []
  resolvedTag : Str := []
  watchTag : Str := []
  targetDigest : Str := []
  finalImage : Str := []
  deriving DecidableEq, Repr

abbrev KnownImages := Str → Option KnownImageRow

structure RetagKnownImageChange where
  serviceKey : Str
  previous : Option KnownImageRow
  recorded : KnownImageRow
  deriving DecidableEq, Repr

/-- What became of the known-image records of a failed stack. -/
inductive KnownImageOutcome where
  | unreadable
  | stillRetagged
  | changedElsewhere
  | resetFailed
  | reset
  deriving DecidableEq, Repr

/-- The approved plan of one stack, with the hash of the Compose file it was made from. -/
structure RetagStackPlan (Hash : Type) where
  stackUpdates : List RetagPlanUpdate
  approvedSourceHash : Option Hash
  updateMode : UpdateMode := .stop

/-- The variables of the apply and the stores it writes besides the Compose file. -/
structure RetagState (Hash : Type) where
  backup : Bool := false
  backupHash : Option Hash := none
  knownImageChanges : List RetagKnownImageChange := []
  stoppedServices : List Str := []
  servicesRecreated : Bool := false
  knownImages : KnownImages
  successfulUpdates : List RetagPlanUpdate
  /-- The hash a failed stack's reconcile reads, and what it then decides. -/
  currentSourceHash : Option Hash := none
  outcome : Option KnownImageOutcome := none
  retained : List RetagPlanUpdate := []

namespace RetagApply
variable {β Hash : Type} [DecidableEq Hash]

abbrev Op (β Hash : Type) := Operation β Hash (RetagState Hash)

def retagUpdateService (item : RetagPlanUpdate) : Str := item.update.services.headD []

/-- The row a retag records, at the time the clock shows for it. -/
def knownImageRow (clock : RetagPlanUpdate → Str) (item : RetagPlanUpdate) : KnownImageRow :=
  let row : KnownImageRow :=
    { image := item.update.finalImage, digest := item.update.plannedDigest, updatedAt := clock item }
  if item.digestPin then
    { row with
      sourceImage := item.update.oldImage, resolvedTag := item.update.resolvedTag,
      watchTag := item.update.watchTag, targetDigest := item.update.plannedDigest,
      finalImage := item.update.finalImage }
  else row

def upsertKnownImage (clock : RetagPlanUpdate → Str) (rows : KnownImages) (item : RetagPlanUpdate) :
    KnownImages := Function.update rows item.serviceKey (some (knownImageRow clock item))

/-- The updates whose service key names one service only. -/
def recordable (updates : List RetagPlanUpdate) : List RetagPlanUpdate :=
  updates.filter (!·.knownImageServiceKeyAmbiguous)

def recordedRows (clock : RetagPlanUpdate → Str) (rows : KnownImages) (updates : List RetagPlanUpdate) :
    KnownImages := (recordable updates).foldl (upsertKnownImage clock) rows

/-- Each row written, with the row it replaced, in the order the keys were first written. -/
def knownImageChanges (clock : RetagPlanUpdate → Str) (rows : KnownImages)
    (updates : List RetagPlanUpdate) : List RetagKnownImageChange :=
  (orderedUnique ((recordable updates).map (·.serviceKey))).filterMap fun key =>
    (recordedRows clock rows updates key).map fun recorded => ⟨key,rows key,recorded⟩

/-- A row is put back only while it still holds what this retag wrote. -/
def restoreKnownImage (rows : KnownImages) (change : RetagKnownImageChange) : KnownImages :=
  if rows change.serviceKey ≠ some change.recorded then rows
  else Function.update rows change.serviceKey change.previous

def restoreRetagKnownImages (changes : List RetagKnownImageChange) (rows : KnownImages) : KnownImages :=
  changes.foldl restoreKnownImage rows

/-- The approved services that are stopped; raises where the runtime is not what was approved. -/
def revalidateRetagRuntime (plan : RetagStackPlan Hash) : Op β Hash (List Str) := do
  if plan.stackUpdates = [] then
    return []
  else
    let valid ← ask
    let running := (← step).listing.map fun (_,service) => service.toList
    let stopped := plan.stackUpdates.filter fun item => !running.contains (retagUpdateService item)
    if valid && stopped.all (·.allowStart) then
      return (orderedUnique (stopped.map retagUpdateService)).insertionSort (· ≤ ·)
    else
      throw .runtimeError

def composeUpRetagServices (mode : UpdateMode) : Op β Hash Bool := do
  let wait ← upWait mode
  let _ ← step
  return wait

def waitForRetagHealth : Op β Hash Unit := do
  progress
  if ← ask then
    progress
  else
    progress
    throw .runtimeError

/-- What runs before the services are brought up; tells whether stopping them failed. -/
def prepareRetagServices : UpdateMode → Op β Hash Bool
  | .live => return false
  | .pause => do
    let _ ← command
    return false
  | .stop => return !(← command)

/-- Paused services are unpaused whether or not they came up. -/
def upAndUnpause (mode : UpdateMode) : Op β Hash Bool :=
  if mode = .pause then do
    let waitHandled ← except (composeUpRetagServices mode) Exn.isException fun e => do
      progress
      throw e
    progress
    return waitHandled
  else composeUpRetagServices mode

def recreateRetagServices (mode : UpdateMode) : Op β Hash Unit := do
  progress
  let preUpFailed ← prepareRetagServices mode
  let waitHandled ← upAndUnpause mode
  if preUpFailed then
    throw .commandError
  else
    progress
    if waitHandled then progress else waitForRetagHealth

/-- Records the known images of the stack in one transaction. -/
def recordKnownImages (clock : RetagPlanUpdate → Str) (plan : RetagStackPlan Hash) : Op β Hash Unit := do
  let _ ← step
  assign fun s =>
    { s with
      knownImages := recordedRows clock s.knownImages plan.stackUpdates
      knownImageChanges := knownImageChanges clock s.knownImages plan.stackUpdates }

section
variable (sha256 : β → Hash) (render : Renderers β) (clock : RetagPlanUpdate → Str)

/-- The backup and its hash. -/
def backUp : Op β Hash Unit := do
  backupCompose
  assign fun s => { s with backup := true }
  let _ ← step
  match (← get).compose.backup with
  | none => throw .osError
  | some c => assign fun s => { s with backupHash := some (sha256 c) }

def rewriteRetag (plan : RetagStackPlan Hash) (approved : Hash) : Op β Hash (List AppliedDigestPinUpdate) :=
  let updates := plan.stackUpdates.map (·.update)
  if plan.stackUpdates.head?.any (·.digestPin) then
    applyComposeDigestPins sha256 render updates approved
  else applyComposeRetagUpdates sha256 render updates approved

/-- The steps of the apply; any of them may raise. -/
def applySteps (plan : RetagStackPlan Hash) : Op β Hash Unit := do
  let stopped ← revalidateRetagRuntime plan
  assign fun s => { s with stoppedServices := stopped }
  progress
  backUp sha256
  match plan.approvedSourceHash with
  | none => throw .runtimeError
  | some approved => do
    if (← get).locals.backupHash ≠ some approved then
      throw .runtimeError
    else
      let applied ← rewriteRetag sha256 render plan approved
      if applied = [] then
        throw .runtimeError
      else
        progress
        let _ ← step
        progress
        assign fun s => { s with servicesRecreated := true }
        recreateRetagServices plan.updateMode
        recordKnownImages clock plan
        unlinkBackup
        assign fun s =>
          { s with backup := false, successfulUpdates := s.successfulUpdates ++ plan.stackUpdates }

/-- Services that were stopped are recreated without starting them. -/
def recreateRetagServicesStopped : Op β Hash Unit := do
  if (← runComposeUpNoStart).ok then return () else throw .runtimeError

/-- One group of services is rolled back; tells whether that failed. -/
def rollBackGroup (services : List Str) (x : Op β Hash Unit) : Op β Hash Bool :=
  if services = [] then return false
  else except (do x; return false) Exn.isException fun _ => return true

def rollBackRunning (mode : UpdateMode) : Op β Hash Unit := do
  if ← composeUpRetagServices mode then return () else waitForRetagHealth

/-- Deletes the backup after a durable rollback and keeps it otherwise; tells whether that failed. -/
def settleRetagRollbackBackup (restoredOnDisk : Bool) : Op β Hash Bool :=
  if restoredOnDisk then except (do unlinkBackup; return false) Exn.isException fun _ => return true
  else do
    progress
    return false

def restoreRetagCompose (plan : RetagStackPlan Hash) (expectedSourceHash : Hash) : Op β Hash Unit := do
  let s := (← get).locals
  let recreated := if s.servicesRecreated then
    (orderedUnique (plan.stackUpdates.flatMap (·.update.services))).insertionSort (· ≤ ·) else []
  let restoredOnDisk ← except (restoreComposeBackup sha256 expectedSourceHash) Exn.isException
    fun _ => throw .runtimeError
  let stoppedFailed ← rollBackGroup (recreated.filter (s.stoppedServices.contains ·))
    recreateRetagServicesStopped
  let runningFailed ← rollBackGroup (recreated.filter (!s.stoppedServices.contains ·))
    (rollBackRunning plan.updateMode)
  if stoppedFailed || runningFailed then
    throw .runtimeError
  else
    if ← settleRetagRollbackBackup restoredOnDisk then throw .runtimeError else return ()

/-- The updates whose records a failed stack may leave behind. -/
def recordedUpdates (plan : RetagStackPlan Hash) (changes : List RetagKnownImageChange) :
    List RetagPlanUpdate :=
  plan.stackUpdates.filter fun item =>
    (changes.map (·.serviceKey)).contains item.serviceKey && !item.knownImageServiceKeyAmbiguous

def settle (outcome : KnownImageOutcome) (retained : List RetagPlanUpdate) : Op β Hash Unit :=
  assign fun s => { s with outcome := some outcome, retained }

/-- Matches the known-image records to the Compose file left after a failed stack. -/
def reconcileRetagKnownImages (plan : RetagStackPlan Hash) : Op β Hash Unit := do
  let w ← get
  let recorded := recordedUpdates plan w.locals.knownImageChanges
  let current ← except (do
    let _ ← step
    let w ← get
    assign fun s => { s with currentSourceHash := some (sha256 w.compose.content) }
    return some (sha256 w.compose.content)) Exn.isException fun _ => return none
  match current with
  | none => settle .unreadable recorded
  | some h =>
    if w.writtenHashes.getLast? = some h then
      settle .stillRetagged recorded
    else if w.locals.backupHash ≠ some h then
      settle .changedElsewhere recorded
    else
      except (do
        let _ ← step
        assign fun s => { s with knownImages := restoreRetagKnownImages s.knownImageChanges s.knownImages }
        settle .reset []) Exn.isException fun _ => settle .resetFailed recorded

/-- The failure of a stack, raised after its records match its Compose file. -/
def retagStackFailure (plan : RetagStackPlan Hash) : Op β Hash Unit := do
  if (← get).locals.knownImageChanges = [] then
    throw .retagApplyFailed
  else
    reconcileRetagKnownImages sha256 plan
    throw .retagApplyFailed

def rollBackAndFail (plan : RetagStackPlan Hash) : Op β Hash Unit := do
  let w ← get
  if w.locals.backup then
    match w.writtenHashes.getLast? with
    | some h => do
      except (restoreRetagCompose sha256 plan h) Exn.isException fun _ => retagStackFailure sha256 plan
      assign fun s => { s with backup := false }
      retagStackFailure sha256 plan
    | none => do
      except unlinkBackup Exn.isException fun _ => throw .retagApplyFailed
      assign fun s => { s with backup := false }
      retagStackFailure sha256 plan
  else
    retagStackFailure sha256 plan

/-- Applies one stack, recording success only after persistence and cleanup. -/
def applyRetagStack (plan : RetagStackPlan Hash) : Op β Hash Unit :=
  except (applySteps sha256 render clock plan) Exn.isException fun _ => rollBackAndFail sha256 plan

end
end RetagApply
end Wudup
