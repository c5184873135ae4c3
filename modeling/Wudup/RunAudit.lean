import Wudup.UpdaterRun

/-! What an updater run records: its pending rows and the events of its matches. -/
namespace Wudup
open Library

namespace RunAudit

/-- The digest requirements by what came of them. -/
structure DigestOutcomes where
  stale : List DigestRequirementKey := []
  failed : List DigestRequirementKey := []
  viable : List DigestRequirementKey := []
  deriving DecidableEq, Repr

inductive DigestOutcome where
  | stale
  | failed
  | viable
  | unknown
  deriving DecidableEq, Repr

namespace DigestOutcomes
variable (outcomes : DigestOutcomes)

def outcome (key : DigestRequirementKey) : DigestOutcome :=
  if key ∈ outcomes.stale then .stale
  else if key ∈ outcomes.failed then .failed
  else if key ∈ outcomes.viable then .viable
  else .unknown

def failedInStack (stackIndex : ℕ) : Bool := outcomes.failed.any (·.1 = stackIndex)

end DigestOutcomes

def stalePendingDigestReason : String := "stale-pending-digest"

def expectedDigestKey (m : Match) : DigestRequirementKey := (m.stack.index,m.target.lineNo,expectedDigestImage m)

def expectedDigestRequirement (m : Match) : Str :=
  if m.target.digest = [] || !(cutText ('@' :: sha256Prefix) m.target.first).isSome then [] else m.target.digest

/-! The digests are checked before the work -/

/-- What the registry says of an expected digest. -/
inductive TagDigestResult where
  | ok
  | manifestIntegrityMismatch
  | staleDigest
  | inconclusive
  deriving DecidableEq, Repr

section
variable (verifyTagDigest : Str → Str → TagDigestResult)

/-- A digest that can be neither confirmed nor denied is left to the pull. -/
def preflightRequirement (stackIndex : ℕ) (found : DigestOutcomes × Bool) (requirement : ℕ × Str × Str) :
    DigestOutcomes × Bool :=
  let (lineNo,expectedImage,expected) := requirement
  let key := (stackIndex,lineNo,expectedImage)
  match verifyTagDigest expectedImage expected with
  | .ok | .inconclusive => ({ found.1 with viable := found.1.viable ++ [key] },found.2)
  | .manifestIntegrityMismatch => ({ found.1 with failed := found.1.failed ++ [key] },false)
  | .staleDigest => ({ found.1 with stale := found.1.stale ++ [key] },false)

def preflightExpectedDigests (stack : ComposeStack) (matched : List Match) (outcomes : DigestOutcomes) :
    DigestOutcomes × Bool :=
  let requirements := orderedUnique ((matched.filter fun m => expectedDigestRequirement m ≠ []).map fun m =>
    (m.target.lineNo,expectedDigestImage m,expectedDigestRequirement m))
  requirements.foldl (preflightRequirement verifyTagDigest stack.index) (outcomes,true)

def preflightStack (matched : List Match) (found : DigestOutcomes × List (ℕ × StackStatus)) (stack : ComposeStack) :
    DigestOutcomes × List (ℕ × StackStatus) :=
  let (outcomes,ok) := preflightExpectedDigests verifyTagDigest stack
    (matched.filter (·.stack.index = stack.index)) found.1
  if ok then (outcomes,found.2)
  else
    let reason := if outcomes.failedInStack stack.index then "manifest-integrity-mismatch"
      else stalePendingDigestReason
    (outcomes,found.2 ++ [(stack.index,⟨.failure,reason⟩)])

/-- The outcomes, and the statuses of the stacks that are not updated for them. -/
def preflightMatchingStackDigests (matched : List Match) : DigestOutcomes × List (ℕ × StackStatus) :=
  (stacksToUpdate matched).foldl (preflightStack verifyTagDigest matched) ({},[])

end

/-- Lines of a stack that is not updated which neither are stale everywhere nor failed. -/
def preflightSkippedLines (matched : List Match) (outcomes : DigestOutcomes) (statuses : List (ℕ × StackStatus)) :
    List ℕ :=
  let definitivelyStale := (outcomes.stale.map (·.2.1)).filter fun lineNo =>
    !((outcomes.viable.map (·.2.1)).contains lineNo)
  ((matched.filter fun m => (statuses.lookup m.stack.index).isSome).map (·.target.lineNo)).filter fun lineNo =>
    !(definitivelyStale.contains lineNo) && !((outcomes.failed.map (·.2.1)).contains lineNo)

/-- What the run knows of the digests. -/
structure RunDigests where
  preflight : DigestOutcomes
  expected : DigestOutcomes
  skippedLines : List ℕ

/-! Pending rows -/

inductive PendingStatus where
  | pending
  | inProgress
  | resolved
  | failed
  deriving DecidableEq, Repr

structure PendingUpdateRecord where
  lineNo : ℕ
  image : Str
  serviceKey : Str := []
  stackName : Str := []
  serviceName : Str := []
  status : PendingStatus := .pending
  statusReason : String := ""
  deriving DecidableEq, Repr

def updatePendingUpdate (lineNo : ℕ) (status : PendingStatus) (statusReason : String) (m : Option (Str × Match))
    (rows : List PendingUpdateRecord) : List PendingUpdateRecord :=
  rows.map fun row =>
    if row.lineNo = lineNo then
      match m with
      | some (serviceKey,m) =>
        { row with status, statusReason, serviceKey, stackName := m.stack.name, serviceName := m.service }
      | none => { row with status, statusReason }
    else row

def serviceKey (m : Match) : Str :=
  if m.service ≠ [] then m.stack.name ++ '/' :: m.service else m.stack.name ++ '/' :: m.composeImage

def firstMatchOfLine (matched : List Match) (lineNo : ℕ) : Option Match := matched.find? (·.target.lineNo = lineNo)

/-- The lines of the matches, in the order of their first match. -/
def matchedLines (matched : List Match) : List ℕ := orderedUnique (matched.map (·.target.lineNo))

/-- The first match of the line in a stack that did not succeed, or the first match. -/
def failedMatchForLine (lineNo : ℕ) (matched : List Match) (statuses : StackStatuses) : Option Match :=
  match matched.find? fun m => m.target.lineNo = lineNo && !succeeded (statuses m.stack.index) with
  | some m => some m
  | none => firstMatchOfLine matched lineNo

def leastText : List String → Option String
  | [] => none
  | text :: rest => some (rest.foldl (fun least other => if other < least then other else least) text)

def missingStatus : StackStatus := ⟨.failure,"missing"⟩

def lineStatusReason (lineNo : ℕ) (matched : List Match) (statuses : StackStatuses) : String :=
  let found := (matched.filter (·.target.lineNo = lineNo)).map fun m =>
    (statuses m.stack.index).getD missingStatus
  match leastText ((found.filter (·.status ≠ .success)).map (·.reason)) with
  | some reason => reason
  | none =>
    let reasons := found.map (·.reason)
    if "updated" ∈ reasons then "updated"
    else if "already-current" ∈ reasons then "already-current"
    else (leastText reasons).getD "missing"

/-- Every requirement of the line is stale. -/
def stalePendingDigestLine (digests : RunDigests) (matched : List Match) (lineNo : ℕ) : Bool :=
  let requirements := lineRequirements matched lineNo
  requirements ≠ [] && (requirements.all (digests.preflight.stale.contains ·) ||
    requirements.all (digests.expected.stale.contains ·))

def failedReason (digests : RunDigests) (matched : List Match) (statuses : StackStatuses) (lineNo : ℕ) (m : Match) :
    String :=
  if lineNo ∈ digests.skippedLines then "preflight-skipped"
  else if stalePendingDigestLine digests matched lineNo then stalePendingDigestReason
  else if digests.expected.outcome (expectedDigestKey m) = .failed then "expected-digest-not-reached"
  else if digests.expected.failedInStack m.stack.index then "expected-digest-sibling-failed"
  else lineStatusReason lineNo matched statuses

def markFailedPending (digests : RunDigests) (matched : List Match) (statuses : StackStatuses) (failedLines : List ℕ)
    (rows : List PendingUpdateRecord) : List PendingUpdateRecord :=
  (orderedUnique failedLines).foldl (fun rows lineNo =>
    match failedMatchForLine lineNo matched statuses with
    | none => rows
    | some m =>
      updatePendingUpdate lineNo .failed (failedReason digests matched statuses lineNo m) (some (serviceKey m,m)) rows)
    rows

def markSuccessfulPending (matched : List Match) (statuses : StackStatuses) (rows : List PendingUpdateRecord) :
    List PendingUpdateRecord :=
  (matchedLines matched).foldl (fun rows lineNo =>
    if lineNo ∈ failedLineNumbers matched statuses then rows
    else
      match firstMatchOfLine matched lineNo with
      | none => rows
      | some m =>
        updatePendingUpdate lineNo .resolved (lineStatusReason lineNo matched statuses) (some (serviceKey m,m)) rows)
    rows

/-- The rows as the work begins: in progress, or resolved where a line was removed without a match. -/
def startedRows (targets : List WudTarget) (matched : List Match) (removeLines skippedTags : List ℕ) :
    List PendingUpdateRecord :=
  targets.map fun target =>
    match firstMatchOfLine matched target.lineNo with
    | some m =>
      { lineNo := target.lineNo
        image := target.first
        serviceKey := serviceKey m
        stackName := m.stack.name
        serviceName := m.service
        status := .inProgress
        statusReason := "matched" }
    | none =>
      if target.lineNo ∈ removeLines then
        { lineNo := target.lineNo, image := target.first, status := .resolved, statusReason := "removed-before-run" }
      else
        { lineNo := target.lineNo
          image := target.first
          statusReason := if target.lineNo ∈ skippedTags then "tag-update-disabled" else "unmatched" }

/-! Events -/

/-- What a run finds out about the image and the containers of a match. -/
structure EventEvidence where
  targetImage : Str
  oldImageId : Str
  newImageId : Str
  oldDigest : Str
  newDigest : Str
  healthEvidence : Str := []
  runtimeStateAfter : Str := []
  deriving DecidableEq, Repr

structure RunEventRecord where
  id : ℕ
  serviceName : Str
  stackName : Str
  image : Str
  status : Status
  reason : String
  evidence : EventEvidence
  deriving DecidableEq, Repr

def eventStatusForMatch (digests : RunDigests) (statuses : StackStatuses) (m : Match) : StackStatus :=
  let status := (statuses m.stack.index).getD missingStatus
  match digests.preflight.outcome (expectedDigestKey m) with
  | .stale => ⟨.failure,stalePendingDigestReason⟩
  | .failed => ⟨.failure,"manifest-integrity-mismatch"⟩
  | .viable | .unknown =>
    if m.target.lineNo ∈ digests.skippedLines &&
        (digests.preflight.stale ++ digests.preflight.failed).any (·.1 = m.stack.index) then
      ⟨.failure,"preflight-skipped"⟩
    else if status.status ≠ .failure || !digests.expected.failedInStack m.stack.index then status
    else
      match digests.expected.outcome (expectedDigestKey m) with
      | .failed => ⟨.failure,"expected-digest-not-reached"⟩
      | .stale => ⟨.failure,stalePendingDigestReason⟩
      | .viable | .unknown => ⟨.failure,"expected-digest-sibling-failed"⟩

section
variable (evidence : Match → StackStatus → EventEvidence)

def eventForMatch (digests : RunDigests) (statuses : StackStatuses) (id : ℕ) (m : Match) : RunEventRecord :=
  let status := eventStatusForMatch digests statuses m
  { id
    serviceName := m.service
    stackName := m.stack.name
    image := m.composeImage
    status := status.status
    reason := status.reason
    evidence := evidence m status }

/-- The events of the matches in their order, numbered from the next free number. -/
def recordUpdateEvents (digests : RunDigests) (statuses : StackStatuses) (firstId : ℕ) (matched : List Match) :
    List RunEventRecord :=
  matched.zipIdx.map fun (m,i) => eventForMatch evidence digests statuses (firstId + i) m

end

end RunAudit

/-! Runs -/

/-- A run gets to its end, or is stopped and records what it finished. -/
inductive RunEnd where
  | completed
  | stopped
  | stoppedInPreflight
  deriving DecidableEq, Repr

/-- A run with what the outside decides of it: what the registry says before the work, how the updates of the other
stacks end (or that they are not reached), and the digest checks after the pulls. -/
structure AuditedRun where
  targets : List WudTarget
  matched : List Match
  removeLines : List ℕ
  skippedTags : List ℕ
  verifyTagDigest : Str → Str → RunAudit.TagDigestResult
  updated : StackStatuses
  expected : RunAudit.DigestOutcomes
  evidence : Match → StackStatus → RunAudit.EventEvidence
  /-- The lines the run marks as failed: those of failed stacks, and of exclusions that failed. -/
  failedLines : List ℕ
  firstEventId : ℕ
  ended : RunEnd

namespace AuditedRun
open RunAudit
variable (run : AuditedRun)

def preflight : DigestOutcomes × List (ℕ × StackStatus) :=
  preflightMatchingStackDigests run.verifyTagDigest run.matched

def digests : RunDigests where
  preflight := run.preflight.1
  expected := run.expected
  skippedLines := preflightSkippedLines run.matched run.preflight.1 run.preflight.2

/-- A stack that the preflight refuses is not updated. -/
def statuses : StackStatuses := fun i =>
  if run.ended = .stoppedInPreflight then none
  else
    match run.preflight.2.lookup i with
    | some status => some status
    | none => run.updated i

/-- The matches whose stacks were attempted. -/
def attempted : List Match :=
  if run.ended = .completed then run.matched else run.matched.filter fun m => (run.statuses m.stack.index).isSome

def pendingUpdates : List PendingUpdateRecord :=
  let rows := startedRows run.targets run.matched run.removeLines run.skippedTags
  if run.ended = .completed then
    markSuccessfulPending run.matched run.statuses
      (markFailedPending run.digests run.matched run.statuses run.failedLines rows)
  else
    markFailedPending run.digests run.attempted run.statuses run.failedLines
      (markSuccessfulPending run.matched run.statuses rows)

def events : List RunEventRecord :=
  recordUpdateEvents run.evidence run.digests run.statuses run.firstEventId run.attempted

end AuditedRun

end Wudup
