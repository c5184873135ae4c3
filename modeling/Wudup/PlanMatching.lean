import Wudup.Matching

/-! Target matching for the plan, and the selections that narrow its matches. -/
namespace Wudup
open Library

/-- Why a target has no part in a plan. -/
inductive SkipReason where
  | tagUpdatesDisabled
  | unmatched
  deriving DecidableEq, Repr

structure DryRunPlanSkipped where
  lineNo : ℕ
  raw : Str
  image : Str
  desiredTag : Str
  reason : SkipReason
  deriving DecidableEq, Repr

def skipped (target : WudTarget) (reason : SkipReason) : DryRunPlanSkipped :=
  ⟨target.lineNo,target.raw,target.first,target.desiredTag,reason⟩

def tagUpdatesDisabled (allowTagUpdates : Bool) (target : WudTarget) : Bool :=
  target.desiredTag ≠ [] && !allowTagUpdates

namespace PlanMatching

/-- The matches of one image, without those seen before. -/
def dedupedMatchesForServices (stack : ComposeStack) (target : WudTarget) (resolved image : Str)
    (services : List Str) (seen : List MatchKey) : List Match × List MatchKey :=
  services.foldl (fun state service => appendIfNew Match.key state ⟨stack,target,resolved,image,service⟩)
    ([],seen)

/-- One matching image is taken for each of its services, or for the whole stack when it has none. -/
def matchesForImage (target : WudTarget) (containerImages : ContainerImages) (rematch : Bool)
    (stack : ComposeStack) (state : List Match × List MatchKey) (image : Str) : List Match × List MatchKey :=
  let resolved := resolvedImage containerImages target
  match servicesForTargetMatch stack.serviceImages image target resolved
      (allowsRepo containerImages target) rematch with
  | none => state
  | some services =>
    let (fresh,seen) := dedupedMatchesForServices stack target resolved image
      (if services = [] then [[]] else services) state.2
    (state.1 ++ fresh,seen)

def matchesForTarget (target : WudTarget) (composeStacks : List ComposeStack)
    (containerImages : ContainerImages) (rematch : Bool) (seen : List MatchKey) : List Match × List MatchKey :=
  composeStacks.foldl (fun state stack =>
    stack.images.foldl (matchesForImage target containerImages rematch stack) state) ([],seen)

/-- One target is matched, or skipped when it asks for a tag update that is not allowed. -/
def collectTarget (composeStacks : List ComposeStack) (containerImages : ContainerImages)
    (allowTagUpdates rematch : Bool) (state : (List Match × List MatchKey) × List DryRunPlanSkipped)
    (target : WudTarget) : (List Match × List MatchKey) × List DryRunPlanSkipped :=
  if tagUpdatesDisabled allowTagUpdates target then
    (state.1,state.2 ++ [skipped target .tagUpdatesDisabled])
  else
    let (fresh,seen) := matchesForTarget target composeStacks containerImages rematch state.1.2
    ((state.1.1 ++ fresh,seen),state.2)

/-- The loop over the targets: the matches, the keys seen, and the targets skipped so far. -/
def collectMatches (composeStacks : List ComposeStack) (containerImages : ContainerImages)
    (allowTagUpdates rematch : Bool) (targets : List WudTarget) :
    (List Match × List MatchKey) × List DryRunPlanSkipped :=
  targets.foldl (collectTarget composeStacks containerImages allowTagUpdates rematch) (([],[]),[])

/-- The plan's matches and the targets it skips. -/
def matchTargets (targets : List WudTarget) (composeStacks : List ComposeStack)
    (containerImages : ContainerImages) (allowTagUpdates rematch : Bool) :
    List Match × List DryRunPlanSkipped :=
  let ((found,_),disabled) := collectMatches composeStacks containerImages allowTagUpdates rematch targets
  let sorted := sortMatches found
  let matchedLines := sorted.map (·.target.lineNo)
  let skippedLines := disabled.map (·.lineNo)
  let unmatched := targets.filter fun target =>
    !matchedLines.contains target.lineNo && !skippedLines.contains target.lineNo
  (sorted,disabled ++ unmatched.map (skipped · .unmatched))

end PlanMatching

/-- Why selections are refused. -/
inductive PlanInputError where
  | notPositive (lineNo : Int)
  | duplicate (lineNo : Int)
  | mixed (lineNos : List Int)
  | stale (lineNo : Int)
  deriving DecidableEq, Repr

def joinLineNumbers (lineNos : List Int) : String := String.intercalate ", " (lineNos.map toString)

def PlanInputError.message : PlanInputError → String
  | notPositive lineNo => s!"selections line numbers must be positive integers: {lineNo}"
  | duplicate lineNo => s!"selection for line {lineNo} was provided more than once"
  | mixed lineNos =>
    "selections cannot mix line-wide and stack-scoped entries for line(s): " ++ joinLineNumbers lineNos
  | stale lineNo => s!"selection for line {lineNo} is stale or no longer available"

/-- The first selection that is not positive or comes twice. -/
def checkSelections (seen : List UpdateSelection) : List UpdateSelection → Except PlanInputError Unit
  | [] => .ok ()
  | item :: rest =>
    if item.lineNo < 1 then .error (.notPositive item.lineNo)
    else if item ∈ seen then .error (.duplicate item.lineNo)
    else checkSelections (item :: seen) rest

theorem checkSelections_eq_ok {seen selections : List UpdateSelection} :
    checkSelections seen selections = .ok () ↔
      (∀ item ∈ selections, ¬ item.lineNo < 1) ∧ (∀ item ∈ selections, item ∉ seen) ∧ selections.Nodup := by
  induction selections generalizing seen with
  | nil => simp [checkSelections]
  | cons item rest ih =>
    rw [checkSelections]
    by_cases hline : item.lineNo < 1
    · simp [hline]
    · by_cases hseen : item ∈ seen
      · simp [hline,hseen]
      · rw [if_neg hline,if_neg hseen,ih,List.forall_mem_cons,List.forall_mem_cons,List.nodup_cons]
        constructor
        · intro ⟨hlines,hfresh,hn⟩
          refine ⟨⟨hline,hlines⟩,⟨hseen,?_⟩,?_,hn⟩
          · intro other ho hother
            exact hfresh other ho (List.mem_cons_of_mem item hother)
          · intro hitem
            exact hfresh item hitem List.mem_cons_self
        · intro ⟨⟨_,hlines⟩,⟨_,hfresh⟩,hitem,hn⟩
          refine ⟨hlines,?_,hn⟩
          intro other ho
          rw [List.mem_cons,not_or]
          exact ⟨fun he => hitem (he ▸ ho),hfresh other ho⟩

/-- Lines selected both as a whole and by stack. -/
def mixedLines (selections : List UpdateSelection) : List Int :=
  ((orderedUnique (selections.map (·.lineNo))).filter fun lineNo =>
    selections.any (fun item => item.lineNo = lineNo && item.selectionId = []) &&
    selections.any fun item => item.lineNo = lineNo && item.selectionId ≠ []).insertionSort (· ≤ ·)

theorem mixedLines_eq_nil {selections : List UpdateSelection} : mixedLines selections = [] ↔
    ∀ a ∈ selections, ∀ b ∈ selections, a.lineNo = b.lineNo → a.selectionId = [] → b.selectionId = [] := by
  have hnil : mixedLines selections = [] ↔ ((orderedUnique (selections.map (·.lineNo))).filter fun lineNo =>
      selections.any (fun item => item.lineNo = lineNo && item.selectionId = []) &&
      selections.any fun item => item.lineNo = lineNo && item.selectionId ≠ []) = [] := by
    rw [mixedLines,← List.length_eq_zero_iff,List.length_insertionSort,List.length_eq_zero_iff]
  rw [hnil,List.filter_eq_nil_iff]
  simp only [mem_orderedUnique,List.forall_mem_map,Bool.and_eq_true,List.any_eq_true,decide_eq_true_iff,not_and,
    not_exists,ne_eq,not_not]
  constructor
  · intro h a ha b hb hline hwide
    exact h a ha ⟨a,ha,rfl,hwide⟩ b hb hline.symm
  · rintro h c - ⟨a,ha,hac,hwide⟩ b hb hbc
    exact h a ha b hb (hac.trans hbc.symm) hwide

def UpdateSelection.sortKey (item : UpdateSelection) : Int ×ₗ Str := toLex (item.lineNo,item.selectionId)

def normalizeUpdateSelections (selections : List UpdateSelection) :
    Except PlanInputError (List UpdateSelection) := do
  checkSelections [] selections
  if mixedLines selections ≠ [] then .error (.mixed (mixedLines selections))
  else return selections.insertionSort fun a b => a.sortKey ≤ b.sortKey

/-- What identifies the matches of one line in one stack. -/
structure SelectionIdentity where
  composeFile : Str
  composeImages : List Str
  directory : Str
  lineNo : ℕ
  projectDirectory : Str
  projectName : Str
  services : List Str
  target : Str
  deriving DecidableEq, Repr

/-- How paths are resolved, and the digest of an identity's canonical JSON. -/
structure SelectionHost where
  resolve : Str → Str
  digest : SelectionIdentity → Str

def selectionIdPrefix : Str := "sel-v1-".toList

namespace SelectionHost
variable (host : SelectionHost)

def identity (first : Match) (group : List Match) : SelectionIdentity :=
  let directory := host.resolve first.stack.directory
  { composeFile := host.resolve (directory ++ '/' :: first.stack.file)
    composeImages := sortedSet (group.map (·.composeImage))
    directory
    lineNo := first.target.lineNo
    projectDirectory := (first.stack.projectDirectory.map host.resolve).getD []
    projectName := first.stack.projectName
    services := sortedSet (group.map (·.service))
    target := first.target.raw }

/-- The id of one group of matches; a group is never empty. -/
def selectionIdForMatches : List Match → Str
  | [] => []
  | first :: rest => selectionIdPrefix ++ host.digest (host.identity first (first :: rest))

/-- The matches of each stack and line, in the order the groups were first met. -/
def groupedMatches (found : List Match) : List (List Match) :=
  (orderedUnique (found.map fun m => (m.stack.index,m.target.lineNo))).map fun key =>
    found.filter fun m => (m.stack.index,m.target.lineNo) = key

/-- The group of a selection id; of two groups with one id the later one counts. -/
def matchesBySelectionId (found : List Match) (selectionId : Str) : Option (List Match) :=
  (groupedMatches found).reverse.find? fun group => host.selectionIdForMatches group = selectionId

def selectedMatches (found : List Match) (item : UpdateSelection) : Except PlanInputError (List Match) :=
  if item.selectionId = [] then .ok (found.filter fun m => (m.target.lineNo : Int) = item.lineNo)
  else match host.matchesBySelectionId found item.selectionId with
    | none => .error (.stale item.lineNo)
    | some group =>
      if group.head?.all fun m => (m.target.lineNo : Int) = item.lineNo then .ok group
      else .error (.stale item.lineNo)

/-- The matches that some selection takes, in their order; without selections all of them. -/
def filterMatchesForSelections (found : List Match) (selections : List UpdateSelection) :
    Except PlanInputError (List Match × List UpdateSelection) := do
  let normalized ← normalizeUpdateSelections selections
  if normalized = [] then return (found,[])
  else
    let selected ← normalized.mapM (host.selectedMatches found)
    let selectedKeys := selected.flatten.map Match.key
    return (found.filter fun m => selectedKeys.contains m.key,normalized)

end SelectionHost

abbrev Selected := ℕ × Str × Str

def matchedServices (found : List Match) (lineNo : ℕ) : List Selected :=
  (found.filter (·.target.lineNo = lineNo)).map fun m => (m.stack.index,m.composeImage,m.service)

def sameElements (xs ys : List Selected) : Bool := xs.all (ys.contains ·) && ys.all (xs.contains ·)

/-- Selected lines of which some stack, image or service was left out. -/
def partiallySelectedLineNumbers (allMatches selected : List Match) : List ℕ :=
  ((orderedUnique (selected.map (·.target.lineNo))).insertionSort (· ≤ ·)).filter fun lineNo =>
    !sameElements (matchedServices selected lineNo) (matchedServices allMatches lineNo)

end Wudup
