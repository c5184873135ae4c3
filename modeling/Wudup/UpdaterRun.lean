import Wudup.ComposePersistence
import Wudup.PlanMatching
import Wudup.WudFile

/-! One updater run over the todo file: entries are taken out before the work and the unfinished ones
are put back, by the reconcile at the end or by the abort of a stopped run. -/
namespace Wudup
open Library Library.Program

/-- A line of text, without its newline. -/
abbrev Line := { raw : Str // '\n' ∉ raw }

/-- Lines added at the end of a file by someone else. -/
def appendLines (text : Str) (added : List Line) : Str :=
  if added = [] then text else joinLines (splitLines text ++ added.map (·.val))

abbrev DigestRequirementKey := ℕ × ℕ × Str

def orElseText (first second : Str) : Str := if first = [] then second else first

def expectedDigestTag (m : Match) : Str :=
  if m.target.desiredTag ≠ [] then m.target.desiredTag
  else
    let tags := if (cutText ('@' :: sha256Prefix) m.composeImage).isSome then
        [imageTag m.resolved,imageTag m.target.first,imageTag m.composeImage]
      else [imageTag m.composeImage,imageTag m.resolved,imageTag m.target.first]
    tags.foldr orElseText "latest".toList

def expectedDigestImage (m : Match) : Str := imageWithTag m.composeImage (expectedDigestTag m)

/-- The digest requirements of one line. -/
def lineRequirements (matched : List Match) (lineNo : ℕ) : List DigestRequirementKey :=
  (matched.filter fun m => m.target.lineNo = lineNo && m.target.digest ≠ [] &&
    (cutText ('@' :: sha256Prefix) m.target.first).isSome).map fun m =>
      (m.stack.index,lineNo,expectedDigestImage m)

abbrev StackStatuses := ℕ → Option StackStatus
abbrev ExclusionStatuses := ℕ × ℕ → Option StackStatus

/-- A missing status counts as a failure. -/
def succeeded (status : Option StackStatus) : Bool := status.any (·.status = .success)

/-- Lines with a stack that did not succeed. -/
def failedLineNumbers (matched : List Match) (statuses : StackStatuses) : List ℕ :=
  ((orderedUnique (matched.map (·.target.lineNo))).insertionSort (· ≤ ·)).filter fun lineNo =>
    matched.any fun m => m.target.lineNo = lineNo && !succeeded (statuses m.stack.index)

/-- Removed lines whose stack or tag exclusion did not succeed. -/
def unfinishedPendingLines (matched : List Match) (statuses : StackStatuses)
    (exclusionUpdates : List TagExclusionUpdate) (exclusionStatuses : ExclusionStatuses) : List ℕ :=
  failedLineNumbers matched statuses ++
    (orderedUnique ((exclusionUpdates.filter fun update =>
      !succeeded (exclusionStatuses (update.stack.index,update.sourceLine))).map
        (·.sourceLine))).insertionSort (· ≤ ·)

/-- What discovery, matching and the preflight make of a parsed todo file. -/
structure RunPlan where
  allMatches : List Match
  matched : List Match
  exclusionUpdates : List TagExclusionUpdate
  exclusionFailures : List ℕ
  removeLines : List ℕ
  targetLines : List ℕ

namespace RunPlan

def partiallySelected (plan : RunPlan) : List ℕ := partiallySelectedLineNumbers plan.allMatches plan.matched

/-- The lines taken out of the todo file before the work. -/
def inFlightLines (plan : RunPlan) : List ℕ :=
  (orderedUnique (plan.matched.map (·.target.lineNo) ++ plan.removeLines ++
    plan.exclusionUpdates.map (·.sourceLine))).insertionSort (· ≤ ·)

end RunPlan

/-- How a todo file is planned; every line of a plan is a line of the file. -/
structure Planner where
  plan : List WudLine → RunPlan
  lines_parsed : ∀ parsed, ∀ lineNo ∈ (plan parsed).inFlightLines, lineNo ≤ parsed.length

/-- Entries removed before the work and not yet reconciled. -/
structure InFlightPending where
  parsed : List WudLine
  matched : List Match
  exclusionUpdates : List TagExclusionUpdate

/-- How the outside answers one step: the lines added to the todo file before it, the exception it
raises, and the answer, the status or the stale requirements it finds. -/
structure RunChoice where
  appended : List Line := []
  raise : Option Exn := none
  answer : Bool := true
  status : Option StackStatus := none
  stale : List DigestRequirementKey := []

/-- The todo file and the run's own record of its outcomes. -/
structure UpdaterRun where
  wudFile : Str
  schedule : List RunChoice
  /-- The lines the run parsed. -/
  parsed : Option (List WudLine) := none
  partiallySelected : List ℕ := []
  inFlightPending : Option InFlightPending := none
  stackStatuses : StackStatuses := fun _ => none
  exclusionStatuses : ExclusionStatuses := fun _ => none
  preflightStale : List DigestRequirementKey := []
  expectedStale : List DigestRequirementKey := []
  /-- The stale lines the reconcile does not restore. -/
  staleFailedLines : List ℕ := []
  /-- Every line added by someone else. -/
  appended : List Str := []
  /-- The abort stopped before it could write the unfinished lines back. -/
  restoreCut : Bool := false

namespace UpdaterRun

abbrev Op := Program UpdaterRun Exn

/-- The outside's next move. -/
def advance (w : UpdaterRun) : UpdaterRun :=
  match w.schedule with
  | [] => w
  | c :: rest =>
    { w with
      schedule := rest
      wudFile := appendLines w.wudFile c.appended
      appended := w.appended ++ c.appended.map (·.val) }

/-- One step whose outcome the outside decides. -/
def step : Op RunChoice := do
  let w ← get
  modify advance
  match (w.schedule.headD {}).raise with
  | some e => throw e
  | none => pure (w.schedule.headD {})

/-- A step that can only raise: an audit record, a log line or a progress event. -/
def progress : Op Unit := do
  let _ ← step

def progressSteps : ℕ → Op Unit
  | 0 => return ()
  | n+1 => do
    progress
    progressSteps n

/-- The file is read and replaced under its lock; what holds the lock cannot be interleaved, but it may
fail on either side of the replacement. -/
def rewriteLocked (transform : Str → Str) (record : UpdaterRun → UpdaterRun) : Op Unit := do
  progress
  modify fun w => record { w with wudFile := transform w.wudFile }
  progress

def parseWudFile : Op (List WudLine) := do
  progress
  return wudLines (← get).wudFile

/-- The parsed file, read again when the audit covers lines that were not parsed as targets. -/
def auditParsedFile (plan : RunPlan) (parsed : List WudLine) : Op (List WudLine) :=
  if (plan.inFlightLines ++ plan.exclusionFailures).all (plan.targetLines.contains ·) then return parsed
  else parseWudFile

def removeInFlight (parsed : List WudLine) (lines : List ℕ) : Op Unit :=
  if lines = [] then progress else rewriteLocked (removeLinesBeforeRun parsed lines) id

def prepareMutation (plan : RunPlan) (parsed : List WudLine) : Op InFlightPending := do
  progress
  let auditParsed ← auditParsedFile plan parsed
  progressSteps 6
  let inFlight : InFlightPending := ⟨auditParsed,plan.matched,plan.exclusionUpdates⟩
  progress
  modify fun w => { w with inFlightPending := some inFlight }
  removeInFlight auditParsed plan.inFlightLines
  progress
  return inFlight

/-- Each stack's digests are checked before the work; a status given here means the stack is not
updated. -/
def preflightStacks : List ComposeStack → Op (List (ℕ × StackStatus))
  | [] => return []
  | stack :: rest => do
    let c ← step
    modify fun w => { w with preflightStale := w.preflightStale ++ c.stale }
    progress
    let statuses ← preflightStacks rest
    return match c.status with
      | none => statuses
      | some status => (stack.index,status) :: statuses

def applyExclusions : List TagExclusionUpdate → Op (List ((ℕ × ℕ) × StackStatus))
  | [] => return []
  | update :: rest => do
    let c ← step
    let statuses ← applyExclusions rest
    return ((update.stack.index,update.sourceLine),c.status.getD ⟨.success,"tag-excluded"⟩) :: statuses

/-- Later entries of a dictionary update win. -/
def updateAll {κ : Type} [DecidableEq κ] (statuses : κ → Option StackStatus) (new : List (κ × StackStatus)) :
    κ → Option StackStatus :=
  new.foldl (fun statuses (key,status) => Function.update statuses key (some status)) statuses

def updateStacks : List ComposeStack → Op Unit
  | [] => return ()
  | stack :: rest => do
    let c ← step
    modify fun w => { w with expectedStale := w.expectedStale ++ c.stale }
    let done ← step
    modify fun w =>
      { w with
        stackStatuses := Function.update w.stackStatuses stack.index
          (some (done.status.getD ⟨.success,"updated"⟩)) }
    updateStacks rest

/-- The work between the removal and the reconcile; outcomes are recorded as they happen. -/
def applyUpdates (plan : RunPlan) : Op Unit := do
  let stale ← preflightStacks (stacksToUpdate plan.matched)
  modify fun w => { w with stackStatuses := updateAll w.stackStatuses stale }
  let statuses := (← get).stackStatuses
  let applied ← applyExclusions (plan.exclusionUpdates.filter fun u => statuses u.stack.index = none)
  let skipped := (plan.exclusionUpdates.filter fun u => statuses u.stack.index ≠ none).map fun u =>
    ((u.stack.index,u.sourceLine),StackStatus.mk .failure "preflight-skipped")
  modify fun w => { w with exclusionStatuses := updateAll (updateAll w.exclusionStatuses applied) skipped }
  updateStacks (stacksToUpdate (plan.matched.filter fun m => statuses m.stack.index = none))

/-- Every requirement of the line is in one of the stale sets. -/
def requirementsStale (w : UpdaterRun) (matched : List Match) (lineNo : ℕ) : Bool :=
  let requirements := lineRequirements matched lineNo
  requirements ≠ [] &&
    (requirements.all (w.preflightStale.contains ·) || requirements.all (w.expectedStale.contains ·))

def unfinished (w : UpdaterRun) (matched : List Match) (exclusionUpdates : List TagExclusionUpdate) : List ℕ :=
  unfinishedPendingLines matched w.stackStatuses exclusionUpdates w.exclusionStatuses

def staleFailed (w : UpdaterRun) (plan : RunPlan) : List ℕ :=
  (w.unfinished plan.matched plan.exclusionUpdates).filter fun lineNo =>
    w.requirementsStale plan.matched lineNo && !w.partiallySelected.contains lineNo

/-- The lines the reconcile restores: failed ones that are not stale, and partially selected ones. -/
def restoreLineNumbers (w : UpdaterRun) (plan : RunPlan) : List ℕ :=
  (w.unfinished plan.matched plan.exclusionUpdates).filter (!(w.staleFailed plan).contains ·) ++
    w.partiallySelected

def restoreLocked (parsed : List WudLine) (lines : List ℕ) (record : UpdaterRun → UpdaterRun) : Op Unit :=
  if neededLines parsed lines = [] then modify record
  else rewriteLocked (restoreFailedLines parsed lines) record

def reconcilePendingEntries (plan : RunPlan) (inFlight : InFlightPending) : Op Unit := do
  progress
  modify fun w => { w with staleFailedLines := w.staleFailed plan }
  restoreLocked inFlight.parsed ((← get).restoreLineNumbers plan) id
  progressSteps 6

/-- Writes the lines back; tells whether that was done. -/
def tryRestore (parsed : List WudLine) (lines : List ℕ) : Op Bool :=
  except (do
    restoreLocked parsed lines fun w => { w with restoreCut := false }
    return true) Exn.isException fun _ => do
      progress
      return false

/-- Unfinished lines are put back, stale ones too; a failure to do so is only reported. -/
def restoreUnfinishedPending (inFlight : InFlightPending) : Op Unit := do
  let w ← get
  let lines := w.unfinished inFlight.matched inFlight.exclusionUpdates ++ w.partiallySelected
  if lines = [] then return ()
  else
    modify fun w => { w with restoreCut := true }
    if ← tryRestore inFlight.parsed lines then progress else return ()

/-- Runs the second part however the first one ends. -/
def andFinally (x y : Op Unit) : Op Unit := do
  tryCatch x fun e => do
    y
    throw e
  y

def cleanUp (inFlight : InFlightPending) : Op Unit := do
  suppress Exn.isException (restoreUnfinishedPending inFlight)
  suppress Exn.isException progress

def abortRun : Op Unit := do
  let w ← get
  modify fun w => { w with inFlightPending := none }
  andFinally (match w.inFlightPending with
    | none => return ()
    | some inFlight => cleanUp inFlight) (andFinally progress progress)

/-- A preflight that refuses, and a dry run, end the run before the removal. -/
def body (planner : Planner) : Op Unit := do
  let parsed ← parseWudFile
  let plan := planner.plan parsed
  modify fun w => { w with parsed := some parsed, partiallySelected := plan.partiallySelected }
  if (← step).answer then
    let inFlight ← prepareMutation plan parsed
    applyUpdates plan
    reconcilePendingEntries plan inFlight
    modify fun w => { w with inFlightPending := none }
    progressSteps 6
  else return ()

/-- What the caller sees of an exception: known failures become one kind of error. -/
def asUpdaterError : Exn → Exn
  | .commandError => .runtimeError
  | .osError => .runtimeError
  | e => e

def run (planner : Planner) : Op Unit :=
  tryCatch (body planner) fun e => do
    abortRun
    throw (asUpdaterError e)

/-! What may become of a line that was taken out. -/

/-- Everything the line matched succeeded, and nothing of it was left out. -/
def finished (w : UpdaterRun) (plan : RunPlan) (lineNo : ℕ) : Bool :=
  (plan.matched.map (·.target.lineNo) ++ plan.exclusionUpdates.map (·.sourceLine)).contains lineNo &&
  (plan.matched.all fun m => m.target.lineNo ≠ lineNo || succeeded (w.stackStatuses m.stack.index)) &&
  (plan.exclusionUpdates.all fun u =>
    u.sourceLine ≠ lineNo || succeeded (w.exclusionStatuses (u.stack.index,u.sourceLine))) &&
  !plan.partiallySelected.contains lineNo

/-- The reconcile found every digest the line asks for stale. -/
def reconciledStale (w : UpdaterRun) (plan : RunPlan) (lineNo : ℕ) : Bool :=
  w.staleFailedLines.contains lineNo && w.requirementsStale plan.matched lineNo

/-- An unmatched line that was to be removed on request. -/
def removedOnRequest (plan : RunPlan) (lineNo : ℕ) : Bool :=
  plan.removeLines.contains lineNo &&
  !(plan.matched.map (·.target.lineNo) ++ plan.exclusionUpdates.map (·.sourceLine)).contains lineNo

/-- The lines taken out that have to be in the file again. -/
def pendingAgain (w : UpdaterRun) (plan : RunPlan) : List ℕ :=
  plan.inFlightLines.filter fun lineNo =>
    !(w.finished plan lineNo || w.reconciledStale plan lineNo || removedOnRequest plan lineNo)

end UpdaterRun
end Wudup
