import Mathlib.Data.List.Perm.Basic
import Wudup.PlanMatching

/-! The updater run's own target matching, compared with the plan's. -/
namespace Wudup
open Library

structure MatchOptions where
  allowTagUpdates : Bool := false
  digestPinUpdates : Bool := false
  digestUnpinPlan : List DigestUnpinUpdate := []
  updateSelections : List UpdateSelection := []
  tagStreamUpdates : List TagStreamUpdate := []

/-- What the run takes from matching. -/
structure RunnerMatches where
  matched : List Match
  skippedTags : List WudTarget
  partiallySelected : List ℕ
  matchedTagStreamUpdates : List TagStreamUpdate
  deriving DecidableEq, Repr

namespace RunnerMatching

/-- Candidates of an approved unpin for a target that asks for its digest. -/
def digestUnpinPlanCandidates (plan : List DigestUnpinUpdate) (target : WudTarget) (stack : ComposeStack) :
    List (Str × Str × Str) :=
  if !isDigestTargetLine target then []
  else
    let approved := plan.filter fun update =>
      update.resolvedTag = imageTag target.first && update.targetDigest = normalizeDigest target.digest &&
      repoKey update.oldImage = target.repo && digestFromImage update.oldImage ≠ []
    approved.flatMap fun update =>
      (update.services.filter fun service =>
        stack.serviceImages.any fun item => item.service = service && item.image = update.oldImage).map
      fun service => (update.tagImage,update.oldImage,service)

def imageCandidates (target : WudTarget) (containerImages : ContainerImages) (rematch : Bool)
    (stack : ComposeStack) (image : Str) : List (Str × Str × Str) :=
  let resolved := resolvedImage containerImages target
  match servicesForTargetMatch stack.serviceImages image target resolved
      (allowsRepo containerImages target) rematch with
  | none => []
  | some services =>
    if services = [] then [(resolved,image,[])] else services.map fun service => (resolved,image,service)

def matchTargetInStack (options : MatchOptions) (target : WudTarget) (stack : ComposeStack)
    (containerImages : ContainerImages) : List (Str × Str × Str) :=
  let candidates :=
    stack.images.flatMap (imageCandidates target containerImages options.digestPinUpdates stack)
  if candidates = [] then digestUnpinPlanCandidates options.digestUnpinPlan target stack else candidates

def asMatch (stack : ComposeStack) (target : WudTarget) (candidate : Str × Str × Str) : Match :=
  ⟨stack,target,candidate.1,candidate.2.1,candidate.2.2⟩

/-- Targets to match, and those whose tag updates are not allowed. -/
def prefilterTargets (allowTagUpdates : Bool) (targets : List WudTarget) : List WudTarget × List WudTarget :=
  targets.partition fun target => !tagUpdatesDisabled allowTagUpdates target

def collectMatches (options : MatchOptions) (composeStacks : List ComposeStack)
    (containerImages : ContainerImages) (targets : List WudTarget) : List Match × List MatchKey :=
  targets.foldl (fun state target =>
    composeStacks.foldl (fun state stack =>
      (matchTargetInStack options target stack containerImages).foldl (fun state candidate =>
        appendIfNew Match.key state (asMatch stack target candidate)) state) state) ([],[])

/-- Every match of the run, before selections narrow them. -/
def allMatches (options : MatchOptions) (composeStacks : List ComposeStack)
    (containerImages : ContainerImages) (targets : List WudTarget) : List Match :=
  sortMatches (collectMatches options composeStacks containerImages
    (prefilterTargets options.allowTagUpdates targets).1).1

/-- The update for a match; of two for the same service the later one counts. -/
def tagStreamUpdate (resolve : Str → Str) (updates : List TagStreamUpdate) (m : Match) :
    Option TagStreamUpdate :=
  updates.reverse.find? fun update =>
    update.lineNo = m.target.lineNo && update.stack = m.stack.name &&
    update.stackDirectory = resolve m.stack.directory && update.composeFile = m.stack.file &&
    update.service = m.service && update.currentTag = imageTag m.composeImage &&
    update.reportedTag = m.target.desiredTag

def applyTagStreamUpdates (resolve : Str → Str) (updates : List TagStreamUpdate) (found : List Match) :
    List Match :=
  found.map fun m => match tagStreamUpdate resolve updates m with
    | none => m
    | some update => { m with target := { m.target with desiredTag := update.selectedTag } }

def buildMatches (host : SelectionHost) (options : MatchOptions) (composeStacks : List ComposeStack)
    (containerImages : ContainerImages) (targets : List WudTarget) : Except PlanInputError RunnerMatches := do
  let found := allMatches options composeStacks containerImages targets
  let (selected,_) ← host.filterMatchesForSelections found options.updateSelections
  return {
    matched := applyTagStreamUpdates host.resolve options.tagStreamUpdates selected
    skippedTags := (prefilterTargets options.allowTagUpdates targets).2
    partiallySelected := partiallySelectedLineNumbers found selected
    matchedTagStreamUpdates := selected.filterMap (tagStreamUpdate host.resolve options.tagStreamUpdates) }

end RunnerMatching

/-! What a target matches in one stack, without the keys seen before. -/

section
variable (containerImages : ContainerImages) (rematch : Bool)

def plainMatches (target : WudTarget) (stack : ComposeStack) : List Match :=
  (stack.images.flatMap (RunnerMatching.imageCandidates target containerImages rematch stack)).map
    (RunnerMatching.asMatch stack target)

theorem matchesForImage_eq (target : WudTarget) (stack : ComposeStack) :
    PlanMatching.matchesForImage target containerImages rematch stack = fun state image =>
      ((RunnerMatching.imageCandidates target containerImages rematch stack image).map
        (RunnerMatching.asMatch stack target)).foldl (appendIfNew Match.key) state := by
  funext state image
  unfold PlanMatching.matchesForImage RunnerMatching.imageCandidates
  dsimp only
  cases servicesForTargetMatch stack.serviceImages image target (resolvedImage containerImages target)
      (allowsRepo containerImages target) rematch with
  | none => rfl
  | some services =>
    have hfold : ∀ names : List Str, PlanMatching.dedupedMatchesForServices stack target
        (resolvedImage containerImages target) image names state.2 =
        (names.map fun name => Match.mk stack target (resolvedImage containerImages target) image name).foldl
          (appendIfNew Match.key) ([],state.2) := by
      intro names
      rw [List.foldl_map]
      rfl
    dsimp only
    rw [hfold,foldl_appendIfNew,foldl_appendIfNew]
    by_cases hs : services = [] <;> simp [hs,RunnerMatching.asMatch,Function.comp_def]

theorem matchesForTarget_eq (target : WudTarget) (composeStacks : List ComposeStack) (seen : List MatchKey) :
    PlanMatching.matchesForTarget target composeStacks containerImages rematch seen =
      (composeStacks.flatMap (plainMatches containerImages rematch target)).foldl (appendIfNew Match.key)
        ([],seen) := by
  simp only [PlanMatching.matchesForTarget,plainMatches,List.foldl_flatMap,List.foldl_map,matchesForImage_eq]

theorem prefilterTargets_eq (allowTagUpdates : Bool) (targets : List WudTarget) :
    RunnerMatching.prefilterTargets allowTagUpdates targets =
      (targets.filter (!tagUpdatesDisabled allowTagUpdates ·),
        targets.filter (tagUpdatesDisabled allowTagUpdates ·)) := by
  simp [RunnerMatching.prefilterTargets,List.partition_eq_filter_filter,Function.comp_def]

theorem foldl_collectTarget (composeStacks : List ComposeStack) (allowTagUpdates : Bool)
    (targets : List WudTarget) (state : (List Match × List MatchKey) × List DryRunPlanSkipped) :
    targets.foldl (PlanMatching.collectTarget composeStacks containerImages allowTagUpdates rematch) state =
      (((targets.filter (!tagUpdatesDisabled allowTagUpdates ·)).flatMap fun target =>
          composeStacks.flatMap (plainMatches containerImages rematch target)).foldl
            (appendIfNew Match.key) state.1,
        state.2 ++
          (targets.filter (tagUpdatesDisabled allowTagUpdates ·)).map (skipped · .tagUpdatesDisabled)) := by
  induction targets generalizing state with
  | nil => simp
  | cons target targets ih =>
    rw [List.foldl_cons,ih,PlanMatching.collectTarget]
    cases hd : tagUpdatesDisabled allowTagUpdates target with
    | true => simp [hd]
    | false => simp [hd,matchesForTarget_eq,foldl_appendIfNew]

end

def runnerMatches (options : MatchOptions) (containerImages : ContainerImages) (target : WudTarget)
    (stack : ComposeStack) : List Match :=
  (RunnerMatching.matchTargetInStack options target stack containerImages).map
    (RunnerMatching.asMatch stack target)

theorem collectMatches_runner (options : MatchOptions) (composeStacks : List ComposeStack)
    (containerImages : ContainerImages) (targets : List WudTarget) :
    RunnerMatching.collectMatches options composeStacks containerImages targets =
      (targets.flatMap fun target =>
        composeStacks.flatMap (runnerMatches options containerImages target)).foldl
          (appendIfNew Match.key) ([],[]) := by
  simp only [RunnerMatching.collectMatches,runnerMatches,List.foldl_flatMap,List.foldl_map]

/-- Matches found stack by stack for each target. -/
structure Finder where
  find : WudTarget → ComposeStack → List Match
  finds : ∀ target stack, ∀ m ∈ find target stack, m.target = target ∧ m.stack = stack

/-- A line and a stack have their matches to themselves. -/
theorem freshBy_finder (f : Finder) {targets : List WudTarget} {composeStacks : List ComposeStack}
    (ht : (targets.map (·.lineNo)).Nodup) (hs : (composeStacks.map (·.index)).Nodup) :
    freshBy Match.key [] (targets.flatMap fun target => composeStacks.flatMap (f.find target)) =
      targets.flatMap fun target => composeStacks.flatMap fun stack =>
        freshBy Match.key [] (f.find target stack) := by
  rw [freshBy_flatMap]
  · refine List.flatMap_congr fun target _ => freshBy_flatMap ?_ (by simp)
    refine (List.pairwise_map.mp hs).imp fun {s t} hne x hx y hy hk => hne ?_
    rw [← (f.finds _ _ x hx).2,← (f.finds _ _ y hy).2]
    exact congrArg (·.1) hk
  · refine (List.pairwise_map.mp ht).imp fun {s t} hne x hx y hy hk => hne ?_
    obtain ⟨_,_,hx⟩ := List.mem_flatMap.mp hx
    obtain ⟨_,_,hy⟩ := List.mem_flatMap.mp hy
    rw [← (f.finds _ _ x hx).1,← (f.finds _ _ y hy).1]
    exact congrArg (·.2.1) hk
  · simp

theorem asMatch_finds {target : WudTarget} {stack : ComposeStack} {candidates : List (Str × Str × Str)} :
    ∀ m ∈ candidates.map (RunnerMatching.asMatch stack target), m.target = target ∧ m.stack = stack := by
  intro m hm
  obtain ⟨c,_,rfl⟩ := List.mem_map.mp hm
  exact ⟨rfl,rfl⟩

def plainFinder (containerImages : ContainerImages) (rematch : Bool) : Finder :=
  ⟨plainMatches containerImages rematch,fun _ _ => asMatch_finds⟩

def runnerFinder (options : MatchOptions) (containerImages : ContainerImages) : Finder :=
  ⟨runnerMatches options containerImages,fun _ _ => asMatch_finds⟩

/-- The approved unpin candidates of a target in a stack where nothing else matches it. -/
def unpinMatches (options : MatchOptions) (containerImages : ContainerImages) (target : WudTarget)
    (stack : ComposeStack) : List Match :=
  if plainMatches containerImages options.digestPinUpdates target stack = [] then
    freshBy Match.key [] ((RunnerMatching.digestUnpinPlanCandidates options.digestUnpinPlan target stack).map
      (RunnerMatching.asMatch stack target))
  else []

def addedMatches (options : MatchOptions) (composeStacks : List ComposeStack)
    (containerImages : ContainerImages) (targets : List WudTarget) : List Match :=
  (RunnerMatching.prefilterTargets options.allowTagUpdates targets).1.flatMap fun target =>
    composeStacks.flatMap (unpinMatches options containerImages target)

theorem addedMatches_eq_nil {options : MatchOptions} (h : options.digestUnpinPlan = [])
    (composeStacks : List ComposeStack) (containerImages : ContainerImages) (targets : List WudTarget) :
    addedMatches options composeStacks containerImages targets = [] := by
  simp [addedMatches,unpinMatches,RunnerMatching.digestUnpinPlanCandidates,h,freshBy]

/-- In one stack the runner finds what the plan finds, or the unpin candidates. -/
theorem freshBy_runnerMatches (options : MatchOptions) (containerImages : ContainerImages)
    (target : WudTarget) (stack : ComposeStack) :
    freshBy Match.key [] (runnerMatches options containerImages target stack) =
      freshBy Match.key [] (plainMatches containerImages options.digestPinUpdates target stack) ++
        unpinMatches options containerImages target stack := by
  unfold runnerMatches RunnerMatching.matchTargetInStack unpinMatches plainMatches
  dsimp only
  by_cases h : stack.images.flatMap
      (RunnerMatching.imageCandidates target containerImages options.digestPinUpdates stack) = []
  · simp [h,freshBy]
  · simp only [h,if_false,List.map_eq_nil_iff,List.append_nil]

/-- The plan's matches before they are sorted. -/
def planFound (composeStacks : List ComposeStack) (containerImages : ContainerImages)
    (allowTagUpdates rematch : Bool) (targets : List WudTarget) : List Match :=
  freshBy Match.key [] ((targets.filter (!tagUpdatesDisabled allowTagUpdates ·)).flatMap fun target =>
    composeStacks.flatMap (plainMatches containerImages rematch target))

theorem matchTargets_fst (composeStacks : List ComposeStack) (containerImages : ContainerImages)
    (allowTagUpdates rematch : Bool) (targets : List WudTarget) :
    (PlanMatching.matchTargets targets composeStacks containerImages allowTagUpdates rematch).1 =
      sortMatches (planFound composeStacks containerImages allowTagUpdates rematch targets) := by
  simp [PlanMatching.matchTargets,PlanMatching.collectMatches,foldl_collectTarget,foldl_appendIfNew,planFound]

section
variable (parsed : ParsedTargets) (found : DiscoveredStacks) (containerImages : ContainerImages)
  (options : MatchOptions)

/-- What the runner finds is what the plan finds and the added matches. -/
theorem collectMatches_perm :
    (RunnerMatching.collectMatches options found.composeStacks containerImages
      (RunnerMatching.prefilterTargets options.allowTagUpdates parsed.targets).1).1.Perm
    (planFound found.composeStacks containerImages options.allowTagUpdates options.digestPinUpdates
        parsed.targets ++ addedMatches options found.composeStacks containerImages parsed.targets) := by
  have ht : (((parsed.targets.filter (!tagUpdatesDisabled options.allowTagUpdates ·))).map
      (·.lineNo)).Nodup := parsed.distinct.sublist (List.filter_sublist.map _)
  rw [collectMatches_runner,foldl_appendIfNew,addedMatches,prefilterTargets_eq,List.nil_append]
  have hr := freshBy_finder (runnerFinder options containerImages) ht found.distinct
  have hp := freshBy_finder (plainFinder containerImages options.digestPinUpdates) ht found.distinct
  simp only [runnerFinder,plainFinder,freshBy_runnerMatches] at hr hp
  unfold planFound
  rw [hr,hp]
  refine List.Perm.trans (List.Perm.flatMap_left _ fun target _ => ?_) (List.flatMap_append_perm _ _ _).symm
  exact (List.flatMap_append_perm _ _ _).symm

theorem allMatches_eq :
    RunnerMatching.allMatches options found.composeStacks containerImages parsed.targets =
      sortMatches ((PlanMatching.matchTargets parsed.targets found.composeStacks containerImages
          options.allowTagUpdates options.digestPinUpdates).1 ++
        addedMatches options found.composeStacks containerImages parsed.targets) := by
  have hperm := collectMatches_perm parsed found containerImages options
  rw [matchTargets_fst]
  refine sortMatches_eq_of_perm (hperm.trans ((sortMatches_perm _).symm.append_right _)) ?_
  rw [collectMatches_runner,foldl_appendIfNew,List.nil_append]
  exact (nodup_freshBy _ _).1

/-- Without added matches the two lists are the same. -/
theorem allMatches_eq_plan
    (h : addedMatches options found.composeStacks containerImages parsed.targets = []) :
    RunnerMatching.allMatches options found.composeStacks containerImages parsed.targets =
      (PlanMatching.matchTargets parsed.targets found.composeStacks containerImages
        options.allowTagUpdates options.digestPinUpdates).1 := by
  rw [allMatches_eq,h,List.append_nil,matchTargets_fst]
  exact (sortMatches_eq_of_perm (sortMatches_perm _).symm (nodup_freshBy _ _).1).symm

omit containerImages in
theorem skippedLines_contains {targets : List WudTarget} (hn : (targets.map (·.lineNo)).Nodup)
    {allowTagUpdates : Bool} {target : WudTarget} (ht : target ∈ targets) :
    (((targets.filter (tagUpdatesDisabled allowTagUpdates ·)).map (skipped · .tagUpdatesDisabled)).map
      (·.lineNo)).contains target.lineNo = tagUpdatesDisabled allowTagUpdates target := by
  rw [Bool.eq_iff_iff,List.contains_iff_mem,List.map_map,List.mem_map]
  constructor
  · rintro ⟨other,ho,hl⟩
    obtain ⟨ho,hd⟩ := List.mem_filter.mp ho
    rwa [← List.inj_on_of_nodup_map hn ho ht hl]
  · exact fun hd => ⟨target,List.mem_filter.mpr ⟨ht,hd⟩,rfl⟩

theorem matchTargets_snd :
    (PlanMatching.matchTargets parsed.targets found.composeStacks containerImages
        options.allowTagUpdates options.digestPinUpdates).2 =
      (RunnerMatching.prefilterTargets options.allowTagUpdates parsed.targets).2.map
          (skipped · .tagUpdatesDisabled) ++
        ((RunnerMatching.prefilterTargets options.allowTagUpdates parsed.targets).1.filter fun target =>
          (PlanMatching.matchTargets parsed.targets found.composeStacks containerImages
            options.allowTagUpdates options.digestPinUpdates).1.all
              fun m => m.target.lineNo ≠ target.lineNo).map (skipped · .unmatched) := by
  rw [matchTargets_fst,prefilterTargets_eq]
  simp only [PlanMatching.matchTargets,PlanMatching.collectMatches,foldl_collectTarget,foldl_appendIfNew,
    List.nil_append,planFound,List.filter_filter]
  congr 2
  refine List.filter_congr fun target htarget => ?_
  rw [skippedLines_contains parsed.distinct htarget]
  congr 1
  rw [Bool.eq_iff_iff]
  simp

end

/-- A run's matches and skipped targets, from the matches its selections narrow. -/
def ofSelected (host : SelectionHost) (options : MatchOptions) (skippedTags : List WudTarget)
    (found : List Match) : Except PlanInputError (List Match × List WudTarget) :=
  (host.filterMatchesForSelections found options.updateSelections).map fun selected =>
    (RunnerMatching.applyTagStreamUpdates host.resolve options.tagStreamUpdates selected.1,skippedTags)

theorem buildMatches_eq (host : SelectionHost) (options : MatchOptions) (composeStacks : List ComposeStack)
    (containerImages : ContainerImages) (targets : List WudTarget) :
    (RunnerMatching.buildMatches host options composeStacks containerImages targets).map
        (fun run => (run.matched,run.skippedTags)) =
      ofSelected host options (RunnerMatching.prefilterTargets options.allowTagUpdates targets).2
        (RunnerMatching.allMatches options composeStacks containerImages targets) := by
  unfold RunnerMatching.buildMatches ofSelected
  dsimp only
  cases host.filterMatchesForSelections (RunnerMatching.allMatches options composeStacks containerImages
    targets) options.updateSelections <;> rfl

/-- The run's matches are the plan's and the unpin candidates the plan does not look for; where there
are none, the plan and the run agree on the matches before and after selection. A target the run skips
is one the plan skips because tag updates are not allowed, and the plan also lists the unmatched ones. -/
theorem runner_matches_plan (host : SelectionHost) (parsed : ParsedTargets) (found : DiscoveredStacks)
    (containerImages : ContainerImages) (options : MatchOptions) :
    let plan := PlanMatching.matchTargets parsed.targets found.composeStacks containerImages
      options.allowTagUpdates options.digestPinUpdates
    let added := addedMatches options found.composeStacks containerImages parsed.targets
    let targets := RunnerMatching.prefilterTargets options.allowTagUpdates parsed.targets
    let run := (RunnerMatching.buildMatches host options found.composeStacks containerImages
      parsed.targets).map fun run => (run.matched,run.skippedTags)
    run = ofSelected host options targets.2 (sortMatches (plan.1 ++ added)) ∧
      (added = [] → run = ofSelected host options targets.2 plan.1) ∧
      (options.digestUnpinPlan = [] → added = []) ∧
      plan.2 = targets.2.map (skipped · .tagUpdatesDisabled) ++
        (targets.1.filter fun target => plan.1.all fun m => m.target.lineNo ≠ target.lineNo).map
          (skipped · .unmatched) := by
  dsimp only
  rw [buildMatches_eq]
  refine ⟨?_,fun h => ?_,fun h => addedMatches_eq_nil h _ _ _,
    matchTargets_snd parsed found containerImages options⟩
  · rw [allMatches_eq]
  · rw [allMatches_eq_plan parsed found containerImages options h]

section
-- A line that asks for a digest of `nginx:1`, and a service pinned to another digest without a tag.
def digestTarget : WudTarget :=
  { lineNo := 1, raw := "nginx:1 sha256=bb".toList, first := "nginx:1".toList, key := "nginx:1".toList
    repo := "nginx".toList, hasTag := true, allowRepo := false, digest := "sha256:bb".toList, desiredTag := [] }

def pinnedStack : ComposeStack :=
  { index := 1, directory := "/srv/web".toList, file := "compose.yaml".toList, name := "web".toList
    images := ["nginx@sha256:aa".toList], serviceImages := [⟨"web".toList,"nginx@sha256:aa".toList,[],[]⟩] }

def approvedUnpin : DigestUnpinUpdate :=
  { oldImage := "nginx@sha256:aa".toList, resolvedTag := "1".toList, tagImage := "nginx:1".toList
    currentDigest := "sha256:aa".toList, targetDigest := "sha256:bb".toList, watchTag := "1".toList
    marker := [], labelKey := wudTagIncludeLabel, labelValue := "^1$".toList, services := ["web".toList] }

/-- The run updates a service that the plan's matching leaves out, as its line matches nothing. -/
theorem unpin_candidate_not_in_plan :
    PlanMatching.matchTargets [digestTarget] [pinnedStack] [] false false =
        ([],[skipped digestTarget .unmatched]) ∧
      (RunnerMatching.buildMatches ⟨id,fun _ => []⟩ { digestUnpinPlan := [approvedUnpin] } [pinnedStack] []
          [digestTarget]).toOption =
        some ⟨[⟨pinnedStack,digestTarget,"nginx:1".toList,"nginx@sha256:aa".toList,"web".toList⟩],[],[],[]⟩ := by
  decide

theorem unpin_candidate_only_in_run :
    let options : MatchOptions := { digestUnpinPlan := [approvedUnpin] }
    let host : SelectionHost := ⟨id,fun _ => []⟩
    (RunnerMatching.buildMatches host options [pinnedStack] [] [digestTarget]).map
        (fun run => (run.matched,run.skippedTags)) =
      ofSelected host options [] [⟨pinnedStack,digestTarget,"nginx:1".toList,"nginx@sha256:aa".toList,
        "web".toList⟩] :=
  (runner_matches_plan ⟨id,fun _ => []⟩ ⟨[digestTarget],by decide⟩ ⟨[pinnedStack],by decide⟩ []
    { digestUnpinPlan := [approvedUnpin] }).1

end
end Wudup
