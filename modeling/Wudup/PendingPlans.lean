import Wudup.PendingLoads
import Wudup.PendingSources

/-! The plan that the WebUI's store shows while previews, loads and refreshes of the pending list are answered in any
order. The release notes and rescan notes that some of the actions clear are left out. -/
namespace Wudup
open Library

/-- The last entry with a line number: the one that a map of the entries has. -/
def lastOfLine {α : Type} (lineNo : α → ℕ) (xs : List α) (n : ℕ) : Option α := xs.reverse.find? fun x => lineNo x = n

structure PendingItem (μ : Type) where
  lineNo : ℕ
  raw : Str
  sourceId : Str
  metadataStatus : Option PendingMetadataStatus := none
  wudMetadata : Option μ := none
  deriving DecidableEq

structure PendingResponse (μ : Type) where
  sourceHash : Option Str
  items : List (PendingItem μ)
  deriving DecidableEq

structure PendingMetadataRefreshLine where
  lineNo : ℕ
  raw : Str
  sourceId : Str
  deriving DecidableEq

structure PendingMetadataRefreshRequest where
  sourceHash : Str
  lines : List PendingMetadataRefreshLine
  deriving DecidableEq

structure PendingMetadataRefreshItem (μ : Type) where
  lineNo : ℕ
  raw : Str
  sourceId : Str
  wudMetadata : Option μ
  metadataStatus : Option PendingMetadataStatus
  deriving DecidableEq

inductive PendingMetadataRefreshStatus where
  | ready
  | stale
  deriving DecidableEq, Repr

structure PendingMetadataRefreshResponse (μ : Type) where
  status : PendingMetadataRefreshStatus
  requiresPendingReload : Bool
  sourceHash : Str
  items : List (PendingMetadataRefreshItem μ)
  deriving DecidableEq

/-! The server's answer -/

section
variable {μ : Type} (response : WudApiContainer → μ) (source : PendingSourceResult)

def stalePendingMetadataResponse : PendingMetadataRefreshResponse μ where
  status := .stale
  requiresPendingReload := true
  sourceHash := source.sourceHash
  items := []

/-- The line's item, if the source still has the line. -/
def pendingMetadataItem (line : PendingMetadataRefreshLine) : Option (PendingMetadataRefreshItem μ) :=
  let sourceId := (source.sourceIdsByLine.lookup line.lineNo).getD []
  match lastOfLine (·.lineNo) source.parsed.targets line.lineNo with
  | none => none
  | some target =>
    if target.raw ≠ line.raw ∨ sourceId ≠ line.sourceId then none
    else some
      { lineNo := line.lineNo
        raw := target.raw
        sourceId := sourceId
        wudMetadata := (source.metadataByLine.lookup line.lineNo).map response
        metadataStatus := some ((source.metadataStatusByLine.lookup line.lineNo).getD .fresh) }

def pendingMetadataResponse (payload : PendingMetadataRefreshRequest) : PendingMetadataRefreshResponse μ :=
  if source.sourceHash ≠ payload.sourceHash then stalePendingMetadataResponse source
  else match payload.lines.mapM (pendingMetadataItem response source) with
    | none => stalePendingMetadataResponse source
    | some items =>
      { status := .ready
        requiresPendingReload := false
        sourceHash := source.sourceHash
        items := items }

end

/-! The lines of the pending list -/

section
variable {μ : Type}

def PendingItem.status (item : PendingItem μ) : PendingMetadataStatus := item.metadataStatus.getD .fresh

def pendingLinesChanged (before after : List (PendingItem μ)) (lineNumbers : List ℕ) : Bool :=
  lineNumbers.any fun lineNo =>
    match lastOfLine (·.lineNo) before lineNo,lastOfLine (·.lineNo) after lineNo with
    | some previous,some current =>
      previous.raw ≠ current.raw || previous.sourceId ≠ current.sourceId || previous.status ≠ current.status
    | _,_ => true

def patchItem (items : List (PendingMetadataRefreshItem μ)) (item : PendingItem μ) : PendingItem μ :=
  match lastOfLine (·.lineNo) items item.lineNo with
  | none => item
  | some metadata =>
    { item with
      raw := metadata.raw
      sourceId := metadata.sourceId
      metadataStatus := some ((metadata.metadataStatus <|> item.metadataStatus).getD .fresh)
      wudMetadata := metadata.wudMetadata }

def selectedPlanMetadataChanged (current : List (PendingItem μ)) (refreshed : List (PendingMetadataRefreshItem μ))
    (selectedScope : List ℕ) : Bool :=
  selectedScope.any fun lineNo =>
    match lastOfLine (·.lineNo) current lineNo,lastOfLine (·.lineNo) refreshed lineNo with
    | some currentItem,some refreshedItem =>
      currentItem.status ≠ (refreshedItem.metadataStatus <|> currentItem.metadataStatus).getD .fresh
    | _,_ => false

/-- What a plan goes by: the text, the source and the metadata's freshness. -/
def PendingItem.line (item : PendingItem μ) : Str × Str × PendingMetadataStatus := (item.raw,item.sourceId,item.status)

def LinesKept (before after : List (PendingItem μ)) (lineNumbers : List ℕ) : Prop :=
  ∀ lineNo ∈ lineNumbers,
    (lastOfLine (·.lineNo) before lineNo).map PendingItem.line =
      (lastOfLine (·.lineNo) after lineNo).map PendingItem.line

instance {before after : List (PendingItem μ)} {lineNumbers : List ℕ} :
    Decidable (LinesKept before after lineNumbers) :=
  inferInstanceAs (Decidable (∀ lineNo ∈ lineNumbers, _ = _))

end

/-! The store -/

/-- A plan, and the number of the `createPlan` that it answers. -/
structure PlanResponse where
  createPlan : ℕ
  selectedLineNumbers : List ℕ
  deriving DecidableEq, Repr

inductive PlanStage where
  | requested
  | answered (result : Settlement)
  | ran (result : Settlement)
  | settled (result : Settlement)
  deriving DecidableEq

/-- What `refreshPendingMetadata` keeps over its awaits. -/
structure RefreshRequest (μ : Type) where
  current : PendingResponse μ
  version : ℕ
  selectedScope : List ℕ
  deriving DecidableEq

/-- How far a refresh is; one that has ended notes whether a plan was open then, and the pending list. -/
inductive RefreshStage (μ : Type) where
  | awaiting (request : RefreshRequest μ)
  | reloading (request : RefreshRequest μ) (openPlan : Option PlanResponse) (sourceHashChanged : Bool)
    (load : PendingPromise)
  | ended (request : RefreshRequest μ) (planOpen : Bool) (items : List (PendingItem μ))
  deriving DecidableEq

def RefreshRequest.payload {μ : Type} (request : RefreshRequest μ) : PendingMetadataRefreshRequest where
  sourceHash := request.current.sourceHash.getD []
  lines := request.current.items.map fun item => ⟨item.lineNo,item.raw,item.sourceId⟩

/-- The store, the calls so far, and the plans that were shown when `clearPlan` was called. -/
structure PlanStore (μ : Type) where
  updates : UpdatesStore (PendingResponse μ) PlanResponse := {}
  plans : List PlanStage := []
  refreshes : List (RefreshStage μ) := []
  dismissed : List ℕ := []

inductive PlanAction (μ : Type) where
  | load (action : LoadAction (PendingResponse μ))
  | createPlan
  | answerPlan (i : ℕ) (response : Except Thrown (List ℕ))
  | advancePlan (i : ℕ)
  | clearPlan
  | refresh (selectedLineNumbers : Option (List ℕ))
  | answerRefresh (j : ℕ) (answer : Except Thrown PendingSourceResult)
  | resumeRefresh (j : ℕ)

def pendingPlanMetadataChangedMessage : Str :=
  "Selected update metadata changed. Review the warnings and preview the plan again.".toList

namespace PlanStore
variable {μ : Type} (response : WudApiContainer → μ) (s : PlanStore μ)

def items : List (PendingItem μ) := (s.updates.pending.map (·.items)).getD []

def setPlan (plan : Option PlanResponse) : PlanStore μ := { s with updates := { s.updates with plan := plan } }

def setError (error : Str) : PlanStore μ := { s with updates := { s.updates with error := error } }

def createPlan : PlanStore μ :=
  { s with updates := { s.updates.beginLoad with plan := none }, plans := s.plans ++ [.requested] }

/-- The response of the `i`th call arrives; nothing compares it with the later calls. -/
def answerPlan (i : ℕ) (answer : Except Thrown (List ℕ)) : Option (PlanStore μ) :=
  if s.plans[i]? = some .requested then
    match answer with
    | .ok selected => some { s.setPlan (some ⟨i,selected⟩) with plans := s.plans.set i (.answered (.ok ())) }
    | .error thrown => some { s with plans := s.plans.set i (.answered (.error thrown)) }
  else none

def advancePlan (i : ℕ) : Option (PlanStore μ) :=
  match s.plans[i]? with
  | some (.answered result) =>
    some { s with updates := s.updates.endRun result, plans := s.plans.set i (.ran result) }
  | some (.ran result) => some { s with updates := s.updates.endLoad, plans := s.plans.set i (.settled result) }
  | _ => none

def clearPlan : PlanStore μ :=
  { s.setPlan none with dismissed := s.dismissed ++ (s.updates.plan.map (·.createPlan)).toList }

/-- Until the first await. -/
def refreshPendingMetadata (selectedLineNumbers : Option (List ℕ)) : PlanStore μ :=
  match s.updates.pending with
  | none => s
  | some current =>
    let selected := (selectedLineNumbers <|> s.updates.plan.map (·.selectedLineNumbers)).getD []
    { s with refreshes := s.refreshes ++ [.awaiting ⟨current,s.updates.pendingVersion,orderedUnique selected⟩] }

def endRefresh (j : ℕ) (request : RefreshRequest μ) : PlanStore μ :=
  { s with refreshes := s.refreshes.set j (.ended request s.updates.plan.isSome s.items) }

def patchPendingMetadata (refreshed : PendingMetadataRefreshResponse μ) : PlanStore μ :=
  match s.updates.pending with
  | none => s
  | some current =>
    let patched := ⟨some refreshed.sourceHash,current.items.map (patchItem refreshed.items)⟩
    { s with updates := s.updates.setPending patched }

/-- The response to the refresh arrives. -/
def answerRefresh (j : ℕ) (answer : Except Thrown PendingSourceResult) : Option (PlanStore μ) :=
  match s.refreshes[j]? with
  | some (.awaiting request) =>
    match answer with
    | .error _ => some (s.endRefresh j request)
    | .ok source =>
      let refreshed := pendingMetadataResponse response source request.payload
      if refreshed.requiresPendingReload then
        let loaded := s.updates.loadPending true
        let sourceHashChanged := decide (refreshed.sourceHash ≠ request.current.sourceHash.getD [])
        some { s with
          updates := loaded.1
          refreshes := s.refreshes.set j (.reloading request s.updates.plan sourceHashChanged loaded.2) }
      else if s.updates.pendingVersion ≠ request.version then some (s.endRefresh j request)
      else
        let patched := s.patchPendingMetadata refreshed
        if selectedPlanMetadataChanged request.current.items refreshed.items request.selectedScope then
          some (((patched.setPlan none).setError pendingPlanMetadataChangedMessage).endRefresh j request)
        else some (patched.endRefresh j request)
  | _ => none

/-- The pending list has been loaded again. -/
def resumeRefresh (j : ℕ) : Option (PlanStore μ) :=
  match s.refreshes[j]? with
  | some (.reloading request openPlan sourceHashChanged load) =>
    match s.updates.settlement load with
    | none => none
    | some (.error _) => some (s.endRefresh j request)
    | some (.ok _) =>
      match openPlan with
      | none => some (s.endRefresh j request)
      | some plan =>
        if sourceHashChanged || pendingLinesChanged request.current.items s.items request.selectedScope then
          some ((s.setError pendingPlanMetadataChangedMessage).endRefresh j request)
        else some ((s.setPlan (some plan)).endRefresh j request)
  | _ => none

def step : System (PlanStore μ) (PlanAction μ)
  | s, .load action => (UpdatesStore.step s.updates action).map fun updates => { s with updates := updates }
  | s, .createPlan => some s.createPlan
  | s, .answerPlan i answer => s.answerPlan i answer
  | s, .advancePlan i => s.advancePlan i
  | s, .clearPlan => some s.clearPlan
  | s, .refresh selectedLineNumbers => some (s.refreshPendingMetadata selectedLineNumbers)
  | s, .answerRefresh j answer => s.answerRefresh response j answer
  | s, .resumeRefresh j => s.resumeRefresh j

end PlanStore
end Wudup
