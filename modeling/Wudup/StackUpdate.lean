import Wudup.ComposeRewrite
import Wudup.StackServices

/-! The update of one stack: Compose rewrites, pull, recreate and health wait, with the rollback
of the Compose file. -/
namespace Wudup
open Library Library.Program Library.Versioned

/-- What an update of one stack was asked to do, fixed before its first step. -/
structure StackUpdatePlan where
  composeTagUpdates : List TagUpdate := []
  digestPinUpdates : List DigestPinUpdate := []
  digestUnpinUpdates : List DigestUnpinUpdate := []
  mode : UpdateMode := .stop
  runningServices : List Str := []
  stoppedServices : List Str := []
  startFailedServices : List Str := []
  /-- The services the matches select; `none` selects the whole stack. -/
  updateServices : Option (List Str) := none
  deriving DecidableEq, Repr

/-- What changes while a stack is updated; `composeBackup` says whether the path is still held. -/
structure StackUpdateState where
  appliedTags : List AppliedTagUpdate := []
  appliedDigestPins : List AppliedDigestPinUpdate := []
  appliedDigestUnpins : List AppliedDigestUnpinUpdate := []
  composeBackup : Bool := false
  composeRestored : Bool := false
  healthVerified : Bool := false
  failures : List (String × String) := []
  deriving DecidableEq, Repr

structure StopResult where
  failed : Bool := false
  phase : String := "stop"
  deriving DecidableEq, Repr

namespace StackUpdate
variable {β Hash : Type} [DecidableEq Hash]

abbrev Op (β Hash : Type) := Operation β Hash StackUpdateState

def applied (s : StackUpdateState) : Bool :=
  s.appliedTags ≠ [] || s.appliedDigestPins ≠ [] || s.appliedDigestUnpins ≠ []

/-- A recorded write counts even when the rewrite call then raised. -/
def composeRewriteApplied (w : World β Hash StackUpdateState) : Bool :=
  !w.writtenHashes.isEmpty || applied w.locals

def recordFailure (phase reason : String) : Op β Hash Unit :=
  assign fun s => { s with failures := s.failures ++ [(phase,reason)] }

/-- Each update replaced one image line per service, and Compose resolves each to the new image. -/
def validateApplied {α : Type} (services : α → List Str) (replacements : α → ℕ) (image : α → Str)
    (updates : List α) (serviceImages : List (Str × Str)) : Bool :=
  updates.all fun a => (services a).isEmpty ||
    (replacements a == (services a).length && (services a).all fun s => serviceImages.contains (s,image a))

def validateAppliedTagUpdates : List AppliedTagUpdate → List (Str × Str) → Bool :=
  validateApplied (·.services) (·.replacements) (·.newImage)

def validateAppliedDigestPins : List AppliedDigestPinUpdate → List (Str × Str) → Bool :=
  validateApplied (·.services) (·.replacements) (·.finalImage)

def validateAppliedDigestUnpins : List AppliedDigestUnpinUpdate → List (Str × Str) → Bool :=
  validateApplied (·.services) (·.replacements) (·.tagImage)

/-- The services and images Compose resolves now; `none` when Docker could not say. -/
def refreshStackImages : Op β Hash (Option (List (Str × Str))) :=
  except (do return some ((← step).listing.map fun (s,i) => (s.toList,i.toList))) Exn.isCommandError
    fun _ => do progress; return none

def ensureComposeBackup : Op β Hash (Option StackStatus) := do
  if (← get).locals.composeBackup then
    return none
  else
    except (do
      backupCompose
      assign fun s => { s with composeBackup := true }
      return none) Exn.isOsError fun _ => do
        progress
        recordFailure "compose-backup" "compose-backup-failed"
        return some ⟨.failure,"compose-backup-failed"⟩

variable (sha256 : β → Hash)

def expectedComposeHash : Op β Hash Hash := do
  match (← get).writtenHashes.getLast? with
  | some h => return h
  | none => do
    let _ ← step
    match (← get).compose.backup with
    | some c => return sha256 c
    | none => throw .osError

/-- A command over services, which has nothing to do where there are none. -/
def forServices (services : List Str) (x : Op β Hash UpResult) : Op β Hash UpResult :=
  if services = [] then return ⟨true,false⟩ else x

def verifyRestored (plan : StackUpdatePlan) (stopped rollbackUp : UpResult) : Op β Hash UpResult :=
  if stopped.ok && rollbackUp.ok && plan.stoppedServices ≠ [] then verifyServicesStopped
  else return stopped

def restoreTagUpdateServices (plan : StackUpdatePlan) : Op β Hash Bool := do
  let stopped ← forServices plan.stoppedServices runComposeUpNoStart
  let rollbackUp ← forServices plan.runningServices (runComposeUp plan.mode)
  let stopped ← verifyRestored plan stopped rollbackUp
  if stopped.ok && rollbackUp.ok && plan.runningServices ≠ [] && !rollbackUp.waitHandled then
    waitForHealth
  else
    return stopped.ok && rollbackUp.ok

/-- An unsynced restore keeps the backup until it is on disk. -/
def restoreWritten : Op β Hash Unit := do
  match (← get).writtenHashes.getLast? with
  | none => return ()
  | some h => do
    let synced ← restoreComposeBackup sha256 h
    assign fun s => { s with composeRestored := synced }

def writeTagIncidentLog : Op β Hash Unit := except progress Exn.isOsError fun _ => progress

def handleTagUpdateFailure (plan : StackUpdatePlan) (reason phase : String) : Op β Hash StackStatus := do
  progress
  except (do
    restoreWritten sha256
    let _ ← restoreTagUpdateServices plan
    progress) Exn.isRewriteOrOsError fun _ => progress
  recordFailure phase reason
  writeTagIncidentLog
  return ⟨.failure,reason⟩

def handleComposeRewriteFailure (plan : StackUpdatePlan) (reason phase : String) :
    Op β Hash StackStatus := do
  if (← get).locals.composeBackup then
    handleTagUpdateFailure sha256 plan reason phase
  else
    return ⟨.failure,reason⟩

/-- A failure after which the Compose file is rolled back if it was rewritten. -/
def failUpdate (plan : StackUpdatePlan) (reason phase : String) : Op β Hash StackStatus := do
  let w ← get
  if composeRewriteApplied w && w.locals.composeBackup then
    handleComposeRewriteFailure sha256 plan reason phase
  else
    progress
    recordFailure phase reason
    return ⟨.failure,reason⟩

/-- The tag rewrite raised; unlike its siblings this path asks only whether the file was rewritten. -/
def failTagRewrite (plan : StackUpdatePlan) : Op β Hash StackStatus := do
  progress
  if composeRewriteApplied (← get) then
    handleComposeRewriteFailure sha256 plan "compose-tag-rewrite-failed" "compose-tag-rewrite"
  else
    recordFailure "compose-tag-rewrite" "compose-tag-rewrite-failed"
    return ⟨.failure,"compose-tag-rewrite-failed"⟩

/-- After a rewrite Compose must still resolve, and to the images that were written. -/
def checkRewrite {α : Type} (plan : StackUpdatePlan) (validate : List α → List (Str × Str) → Bool)
    (refreshReason refreshPhase validationReason validationPhase : String) (updates : List α) :
    Op β Hash (Option StackStatus) := do
  progress
  match ← refreshStackImages with
  | none => return some (← handleComposeRewriteFailure sha256 plan refreshReason refreshPhase)
  | some serviceImages =>
    if validate updates serviceImages then
      return none
    else
      return some (← handleComposeRewriteFailure sha256 plan validationReason validationPhase)

variable (render : Renderers β)

def rewriteTags (plan : StackUpdatePlan) : Op β Hash (Option (List AppliedTagUpdate)) :=
  except (do
    let h ← expectedComposeHash sha256
    let updates ← applyComposeTagUpdates sha256 render plan.composeTagUpdates h
    assign fun s => { s with appliedTags := updates }
    return some updates) Exn.isRewriteOrOsError fun _ => return none

def applyComposeTagUpdatesStep (plan : StackUpdatePlan) : Op β Hash (Option StackStatus) := do
  if plan.composeTagUpdates = [] then
    return none
  else
    progress
    match ← ensureComposeBackup with
    | some status => return some status
    | none => do
      match ← rewriteTags sha256 render plan with
      | none => return some (← failTagRewrite sha256 plan)
      | some updates =>
        if updates = [] then
          progress
          recordFailure "compose-tag-rewrite" "compose-tag-rewrite-failed"
          return some ⟨.failure,"compose-tag-rewrite-failed"⟩
        else
          checkRewrite sha256 plan validateAppliedTagUpdates "compose-refresh-failed" "compose-refresh"
            "compose-tag-validation-failed" "compose-tag-validation" updates

/-- The rewrite of digest pins and of digest unpins, which differ in the renderer, the field that
keeps the result, and their texts. -/
def applyDigestRewrite {α : Type} (plan : StackUpdatePlan) (name : String) (apply : Hash → Op β Hash (List α))
    (store : List α → StackUpdateState → StackUpdateState)
    (validate : List α → List (Str × Str) → Bool) : Op β Hash (Option StackStatus) := do
  match ← ensureComposeBackup with
  | some status => return some status
  | none => do
    let updates ← except (do
      let h ← expectedComposeHash sha256
      let updates ← apply h
      assign (store updates)
      return some updates) Exn.isRewriteOrOsError fun _ => return none
    match updates with
    | none | some [] => return some (← failUpdate sha256 plan (name ++ "-failed") name)
    | some updates =>
      checkRewrite sha256 plan validate (name ++ "-refresh-failed") name
        (name ++ "-validation-failed") name updates

def applyComposeDigestPinUpdates (plan : StackUpdatePlan) : Op β Hash (Option StackStatus) :=
  if plan.digestPinUpdates = [] then return none
  else do
    let status ← applyDigestRewrite sha256 plan "compose-digest-pin"
      (applyComposeDigestPins sha256 render plan.digestPinUpdates)
      (fun updates s => { s with appliedDigestPins := updates }) validateAppliedDigestPins
    -- the image state is read again
    whenever status.isNone progress
    return status

def applyComposeDigestUnpinUpdates (plan : StackUpdatePlan) : Op β Hash (Option StackStatus) :=
  if plan.digestUnpinUpdates = [] then return none
  else applyDigestRewrite sha256 plan "compose-digest-unpin"
    (applyComposeDigestUnpins sha256 render plan.digestUnpinUpdates)
    (fun updates s => { s with appliedDigestUnpins := updates }) validateAppliedDigestUnpins

def verifyDigestPinUpdates (plan : StackUpdatePlan) : Op β Hash Bool :=
  if plan.digestPinUpdates = [] then return true else ask

def pullAndVerifyImages (plan : StackUpdatePlan) : Op β Hash (Option StackStatus) := do
  progress
  if !(← command) then
    return some (← failUpdate sha256 plan "pull-failed" "pull")
  else
    progress
    if !(← ask) then
      let reason := if ← ask then "stale-pending-digest" else "expected-digest-not-reached"
      return some (← failUpdate sha256 plan reason "digest")
    else
      if ← verifyDigestPinUpdates plan then
        return none
      else
        return some (← failUpdate sha256 plan "digest-pin-verification-failed" "digest")

/-- Whether containers an earlier failed run left behind must be recreated; a status when that
cannot be told. -/
def findUnfinishedUpdate (plan : StackUpdatePlan) : Op β Hash (Bool ⊕ StackStatus) := do
  let targeted := fun s => plan.updateServices.elim true (·.contains s)
  if (plan.runningServices ++ plan.stoppedServices).filter targeted = [] then
    return .inl false
  else
    let confirmed ← ask
    if confirmed then
      return .inl (← ask)
    else
      recordFailure "recreate" "runtime-image-unverified"
      progress
      return .inr ⟨.failure,"runtime-image-unverified"⟩

def finishPullPhase (plan : StackUpdatePlan) : Op β Hash (Option StackStatus) := do
  progress
  let changed ← ask
  let w ← get
  if applied w.locals || changed || plan.startFailedServices ≠ [] then
    return none
  else
    match ← findUnfinishedUpdate plan with
    | .inr status => return some status
    | .inl true => return none
    | .inl false => do
      progress
      return some ⟨.success,"already-current"⟩

def prepareForRecreate (plan : StackUpdatePlan) : Op β Hash StopResult := do
  if plan.runningServices = [] then
    return {}
  else match plan.mode with
    | .live => return {}
    | .pause => do
      let _ ← command
      return {}
    | .stop => do
      let stopped ← command
      return { failed := !stopped }

/-- Services that stop mode stopped are started again after a failed recreate. -/
def restartServicesStoppedForUpdate (plan : StackUpdatePlan) : Op β Hash Unit :=
  whenever (plan.mode == .stop && plan.runningServices ≠ []) do
    let _ ← command
    progress

def unpauseAfterRecreate (plan : StackUpdatePlan) (up : UpResult) : Op β Hash (UpResult ⊕ StackStatus) := do
  if plan.mode ≠ .pause ∨ plan.runningServices = [] then
    return .inl up
  else
    progress
    if ← command then
      return .inl ⟨up.ok,false⟩
    else
      return .inr (← failUpdate sha256 plan "unpause-failed" "unpause")

def failRecreate (plan : StackUpdatePlan) (stop : StopResult) (restart : Bool) : Op β Hash StackStatus := do
  let w ← get
  if composeRewriteApplied w && w.locals.composeBackup then
    if stop.failed then handleComposeRewriteFailure sha256 plan "down-failed" stop.phase
    else handleComposeRewriteFailure sha256 plan "up-or-health-failed" "up"
  else
    whenever restart (restartServicesStoppedForUpdate plan)
    whenever stop.failed do
      progress
      recordFailure stop.phase "down-failed"
    recordFailure "up" "up-or-health-failed"
    progress
    return ⟨.failure,"up-or-health-failed"⟩

def unpausePrepared (plan : StackUpdatePlan) (up : UpResult) (prepared : Bool) :
    Op β Hash (UpResult ⊕ StackStatus) :=
  if prepared then unpauseAfterRecreate sha256 plan up else return .inl up

def handleComposeUpFailure (plan : StackUpdatePlan) (stop : StopResult) (up : UpResult)
    (prepared restartStopped : Bool) : Op β Hash StackStatus := do
  match ← unpausePrepared sha256 plan up prepared with
  | .inr status => return status
  | .inl _ => failRecreate sha256 plan stop (prepared && restartStopped)

/-- Compose reported healthy containers, or the health gate decides. -/
def healthyAfterRecreate (up : UpResult) : Op β Hash Bool :=
  if up.waitHandled then (do progress; return true) else waitForHealth

def finishHealthAfterRecreate (plan : StackUpdatePlan) (stop : StopResult) (up : UpResult) :
    Op β Hash StackStatus := do
  if plan.runningServices = [] then
    progress
    assign fun s => { s with healthVerified := true }
    progress
    return ⟨.success,"updated"⟩
  else
    if ← healthyAfterRecreate up then
      if stop.failed then
        failUpdate sha256 plan "down-failed" stop.phase
      else
        assign fun s => { s with healthVerified := true }
        progress
        return ⟨.success,"updated"⟩
    else
      progress
      failUpdate sha256 plan "health-failed" "health"

def verifyAndFinish (plan : StackUpdatePlan) (stop : StopResult) (up : UpResult) : Op β Hash StackStatus := do
  progress
  match ← unpauseAfterRecreate sha256 plan up with
  | .inr status => return status
  | .inl up => finishHealthAfterRecreate sha256 plan stop up

def verifyPreserved (plan : StackUpdatePlan) (stop : StopResult) (up : UpResult) : Op β Hash StackStatus := do
  if plan.stoppedServices = [] then
    verifyAndFinish sha256 plan stop up
  else
    let preserved ← verifyServicesStopped
    if preserved.ok then verifyAndFinish sha256 plan stop up
    else handleComposeUpFailure sha256 plan stop preserved true false

def recreateRunning (plan : StackUpdatePlan) : Op β Hash StackStatus := do
  let stop ← prepareForRecreate plan
  if plan.runningServices = [] then
    verifyPreserved sha256 plan stop ⟨true,false⟩
  else
    let up ← runComposeUp plan.mode
    if up.ok then verifyPreserved sha256 plan stop up
    else handleComposeUpFailure sha256 plan stop up true true

def recreateAndVerifyStack (plan : StackUpdatePlan) : Op β Hash StackStatus := do
  progress
  if plan.stoppedServices = [] then
    recreateRunning sha256 plan
  else
    let stopped ← runComposeUpNoStart
    if stopped.ok then recreateRunning sha256 plan
    else handleComposeUpFailure sha256 plan {} stopped false true

/-- The steps before the recreate; the first one that returns a status ends the update. -/
def stackUpdateSteps (plan : StackUpdatePlan) : List (Op β Hash (Option StackStatus)) :=
  [applyComposeTagUpdatesStep sha256 render plan, applyComposeDigestUnpinUpdates sha256 render plan,
    pullAndVerifyImages sha256 plan, applyComposeDigestPinUpdates sha256 render plan, finishPullPhase plan]

def firstStatus : List (Op β Hash (Option StackStatus)) → Op β Hash (Option StackStatus)
  | [] => return none
  | step :: rest => do
    match ← step with
    | some status => return some status
    | none => firstStatus rest

def runStackUpdateSteps (plan : StackUpdatePlan) : Op β Hash StackStatus := do
  match ← firstStatus (stackUpdateSteps sha256 render plan) with
  | some status => return status
  | none => recreateAndVerifyStack sha256 plan

/-- Puts the old Compose file back when the update stops unexpectedly. -/
def restoreComposeAfterAbort : Op β Hash Unit := do
  let w ← get
  match w.writtenHashes.getLast? with
  | none => return ()
  | some h =>
    if !w.locals.composeBackup || w.locals.composeRestored || w.locals.healthVerified then
      return ()
    else
      except (do
        let synced ← restoreComposeBackup sha256 h
        assign fun s => { s with composeRestored := synced }
        progress) Exn.isRewriteOrOsError fun _ => progress

/-- Removes the backup unless it holds the only copy of the old Compose file. -/
def discardComposeBackup (status : StackStatus) : Op β Hash Unit := do
  let w ← get
  if !w.locals.composeBackup then
    return ()
  else if status.status ≠ .success ∧ w.writtenHashes ≠ [] ∧ !w.locals.composeRestored ∧
      !w.locals.healthVerified then
    progress
  else
    except (do
      unlinkBackup
      assign fun s => { s with composeBackup := false }) Exn.isOsError fun _ => progress

/-- The update of one stack, from what its preparation decided: a status that ends it before
anything is touched, or the plan to carry out. -/
def updateStack (built : Except StackStatus StackUpdatePlan) : Op β Hash StackStatus := do
  progress
  match built with
  | .error status => return status
  | .ok plan => do
    let status ← tryCatch (runStackUpdateSteps sha256 render plan) fun e => do
      suppress Exn.isException (restoreComposeAfterAbort sha256)
      suppress Exn.isException (discardComposeBackup ⟨.failure,"unexpected-error"⟩)
      throw e
    discardComposeBackup status
    return status

end StackUpdate
end Wudup
