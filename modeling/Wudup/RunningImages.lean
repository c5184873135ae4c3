import Wudup.Matching
import Wudup.StackUpdate

/-! Whether a stack whose images were already pulled also runs them. -/
namespace Wudup
open Library Library.Program

structure ImageState where
  imageId : Str
  digest : Str
  deriving DecidableEq, Repr

/-- The state of each image, in the order they were read. -/
abbrev ImageStates := List (Str × ImageState)

def imageStates (imageId imageDigest : Str → Str) (images : List Str) : ImageStates :=
  (orderedUnique (images.filter (· ≠ []))).map fun image => (image,⟨imageId image,imageDigest image⟩)

/-- The services the matches select; nothing if some match could not be mapped to a service. -/
def updateServices (matched : List Match) : Option (List Str) :=
  let services := sortedSet ((matched.map (·.service)).filter (· ≠ []))
  if services = [] then none
  else if matched.any (·.service = []) then none
  else some services

/-- The only entry of a key. -/
def onlyEntry {κ : Type} [DecidableEq κ] (key : Str × ImageState → κ) (states : ImageStates) (k : κ) :
    Option (Str × ImageState) :=
  match states.filter (key · = k) with
  | [entry] => some entry
  | _ => none

/-- Where an image is found after the pull: under its name, its id or its repository. -/
def imageAfter (after : ImageStates) (image : Str) (old : ImageState) : Option (Str × ImageState) :=
  match after.lookup image with
  | some new => some (image,new)
  | none =>
    let byId := if old.imageId ≠ [] then onlyEntry (·.2.imageId) after old.imageId else none
    byId.or (onlyEntry (imageRepoRef ·.1) after (imageRepoRef image))

/-- The images the pull changed, with their states after it. -/
def updatedImages (before after : ImageStates) : List (Str × ImageState) :=
  before.filterMap fun (image,old) => (imageAfter after image old).bind fun (newImage,new) =>
    if new.imageId ≠ [] && (old.imageId ≠ new.imageId || image ≠ newImage) then some (image,new) else none

/-- What Docker answers about containers; an error is the text of a failed command. -/
structure ContainerLookups where
  psQuietChecked : Str → Except Str (List Str)
  containerImageId : Str → Except Str Str

/-- A service with its image and pulled id, if that could be read. -/
def pulledEntry (after : ImageStates) (item : ServiceImage) : Option (Str × Str × Str) :=
  match after.lookup item.image with
  | none => none
  | some state => if state.imageId ≠ [] then some (item.service,item.image,state.imageId) else none

/-- The image and the pulled id of a service; a service without a pulled id has none. -/
def pulledImage (stack : ComposeStack) (after : ImageStates) (service : Str) : Option (Str × Str) :=
  (stack.serviceImages.filterMap (pulledEntry after)).reverse.lookup service

/-- The first older image of the containers, and whether one could not be read. -/
def compareContainerImages (lookups : ContainerLookups) (pulledId : Str) : Str → List Str → Except Str (Str × Bool)
  | laggingId, [] => .ok (laggingId,false)
  | laggingId, cid :: rest =>
    match lookups.containerImageId cid with
    | .error error => .error error
    | .ok imageId =>
      if imageId = [] then .ok (laggingId,true)
      else
        compareContainerImages lookups pulledId (if imageId ≠ pulledId && laggingId = [] then imageId else laggingId)
          rest

structure ContainerImageCheck where
  behind : List (Str × Str × Str) := []
  unverified : List Str := []
  error : Option Str := none
  missing : List Str := []
  deriving DecidableEq, Repr

def spaced (names : List Str) : String := String.ofList (" ".toList.intercalate names)

/-- Why the pulled images could not be confirmed. -/
def ContainerImageCheck.failureMessage (check : ContainerImageCheck) : String :=
  let unverified := check.unverified ≠ []
  let missing := check.missing ≠ []
  " ".intercalate
    ((if unverified then [s!"Could not confirm which image service(s) {spaced check.unverified} are using."] else []) ++
      (if missing then [s!"Service(s) {spaced check.missing} have no container, which " ++
        "an earlier failed recreate can leave behind."] else []) ++
      ["The update was not marked as applied and the WUD entry was kept."] ++
      (if unverified then ["Check that Docker is responding, then rerun the update."] else []) ++
      if missing then ["Create the missing container(s) with docker compose up -d (or " ++
        "up --no-start for a service you keep stopped), then rerun the " ++ "update."] else [])

/-- One service's containers against the image pulled for it; a service without a pulled image is left out. -/
def checkServiceImages (stack : ComposeStack) (after : ImageStates) (lookups : ContainerLookups)
    (check : ContainerImageCheck) (service : Str) : ContainerImageCheck :=
  match pulledImage stack after service with
  | none => check
  | some (image,pulledId) =>
    match lookups.psQuietChecked service with
    | .error error => { check with unverified := check.unverified ++ [service], error := check.error.or (some error) }
    | .ok [] => { check with missing := check.missing ++ [service] }
    | .ok (cid :: rest) =>
      match compareContainerImages lookups pulledId [] (cid :: rest) with
      | .error error =>
        { check with unverified := check.unverified ++ [service], error := check.error.or (some error) }
      | .ok (laggingId,unreadable) =>
        { check with
          behind := check.behind ++ if laggingId ≠ [] then [(service,image,laggingId)] else []
          unverified := check.unverified ++ if unreadable then [service] else [] }

def checkContainerImages (stack : ComposeStack) (services : List Str) (after : ImageStates)
    (lookups : ContainerLookups) : ContainerImageCheck :=
  services.foldl (checkServiceImages stack after lookups) {}

/-- What an update knows when its images are pulled; the services of a stack have different names. -/
structure PulledState where
  plan : StackUpdatePlan
  matched : List Match
  selected : plan.updateServices = updateServices matched
  locals : StackUpdateState
  currentStack : ComposeStack
  distinct : (currentStack.serviceImages.map (·.service)).Nodup
  before : ImageStates
  after : ImageStates

/-- What an earlier run left of an update: nothing, containers behind the pulled image, or containers that could
not be confirmed. -/
inductive Unfinished where
  | finished
  | behind (services : List (Str × Str × Str))
  | unverified (services : List Str) (message : String)
  deriving DecidableEq, Repr

namespace PulledState
variable (state : PulledState) (lookups : ContainerLookups)

def targeted (service : Str) : Bool := (updateServices state.matched).elim true (·.contains service)

/-- The services whose containers are compared with the pulled images. -/
def targets : List Str := (state.plan.runningServices ++ state.plan.stoppedServices).filter state.targeted

def findUnfinishedUpdate : Unfinished :=
  if state.targets = [] then .finished
  else
    let check := checkContainerImages state.currentStack state.targets state.after lookups
    if check.unverified ++ check.missing ≠ [] then .unverified (check.unverified ++ check.missing) check.failureMessage
    else if check.behind ≠ [] then .behind check.behind
    else .finished

def updateNeeded : Bool :=
  StackUpdate.applied state.locals || updatedImages state.before state.after ≠ [] ||
    state.plan.startFailedServices ≠ []

/-- The status the pull ends a stack with, if it ends it. -/
def finishPullPhase : Option StackStatus :=
  if state.updateNeeded then none
  else match state.findUnfinishedUpdate lookups with
    | .unverified _ _ => some ⟨.failure,"runtime-image-unverified"⟩
    | .behind _ => none
    | .finished => some ⟨.success,"already-current"⟩

/-- The image of a service and the id it was pulled with. -/
def PulledFor (service image pulledId : Str) : Prop :=
  ∃ item ∈ state.currentStack.serviceImages, item.service = service ∧ item.image = image ∧
    ∃ after, state.after.lookup image = some after ∧ after.imageId = pulledId ∧ pulledId ≠ []

end PulledState

/-- A service has containers, and each of them was read and runs the image. -/
def Confirmed (lookups : ContainerLookups) (service pulledId : Str) : Prop :=
  ∃ cids, lookups.psQuietChecked service = .ok cids ∧ cids ≠ [] ∧
    ∀ cid ∈ cids, lookups.containerImageId cid = .ok pulledId

section Check
variable {lookups : ContainerLookups} {stack : ComposeStack} {after : ImageStates}

theorem compareContainerImages_clean {pulledId laggingId : Str} {cids : List Str} (hid : pulledId ≠ []) :
    compareContainerImages lookups pulledId laggingId cids = .ok ([],false) ↔
      laggingId = [] ∧ ∀ cid ∈ cids, lookups.containerImageId cid = .ok pulledId := by
  induction cids generalizing laggingId with
  | nil => simp [compareContainerImages]
  | cons cid rest ih =>
    rw [compareContainerImages]
    cases hread : lookups.containerImageId cid with
    | error error => simp [hread]
    | ok imageId =>
      dsimp only
      by_cases hnil : imageId = []
      · simp [hread,hnil,Ne.symm hid]
      · rw [if_neg hnil,ih]
        by_cases hsame : imageId = pulledId
        · simp [hread,hsame]
        · by_cases hlag : laggingId = []
          · simp [hread,hsame,hlag,hnil]
          · simp [hread,hsame,hlag]

/-- Nothing was found that is behind, unconfirmed or missing. -/
def ContainerImageCheck.Clean (check : ContainerImageCheck) : Prop :=
  check.behind = [] ∧ check.unverified = [] ∧ check.missing = []

/-- What the services of a stack were pulled with. -/
theorem pulledImage_eq_some (hd : (stack.serviceImages.map (·.service)).Nodup) {service image pulledId : Str} :
    pulledImage stack after service = some (image,pulledId) ↔
      ∃ item ∈ stack.serviceImages, item.service = service ∧ item.image = image ∧
        ∃ state, after.lookup image = some state ∧ state.imageId = pulledId ∧ pulledId ≠ [] := by
  have hkeys : ∀ item entry, pulledEntry after item = some entry → entry.1 = item.service := by
    intro item entry h
    unfold pulledEntry at h
    split at h
    · cases h
    · split at h
      · cases h
        rfl
      · cases h
  have hn : ((stack.serviceImages.filterMap (pulledEntry after)).reverse.map (·.1)).Nodup := by
    rw [List.map_reverse,List.nodup_reverse]
    exact hd.sublist (map_filterMap_sublist hkeys _)
  unfold pulledImage
  rw [lookup_eq_some_iff_mem hn,List.mem_reverse,List.mem_filterMap]
  constructor
  · intro ⟨item,hitem,h⟩
    unfold pulledEntry at h
    split at h
    · cases h
    · rename_i state hstate
      split at h
      · rename_i hne
        cases h
        exact ⟨item,hitem,rfl,rfl,state,hstate,rfl,hne⟩
      · cases h
  · intro ⟨item,hitem,hservice,himage,state,hstate,hpulled,hne⟩
    subst hservice himage hpulled
    exact ⟨item,hitem,by simp [pulledEntry,hstate,hne]⟩

/-- A service keeps the check clean exactly when it has no pulled image or its containers run it. -/
theorem checkServiceImages_clean (hd : (stack.serviceImages.map (·.service)).Nodup) {check : ContainerImageCheck}
    {service : Str} :
    (checkServiceImages stack after lookups check service).Clean ↔
      check.Clean ∧ ∀ image pulledId, pulledImage stack after service = some (image,pulledId) →
        Confirmed lookups service pulledId := by
  unfold checkServiceImages
  cases hp : pulledImage stack after service with
  | none => simp
  | some pulled =>
    obtain ⟨image,pulledId⟩ := pulled
    obtain ⟨-,-,-,-,-,-,-,hid⟩ := (pulledImage_eq_some hd).mp hp
    have hall : (∀ image' pulledId', some (image,pulledId) = some (image',pulledId') →
        Confirmed lookups service pulledId') ↔ Confirmed lookups service pulledId := by
      constructor
      · intro h
        exact h image pulledId rfl
      · intro h image' pulledId' heq
        cases heq
        exact h
    rw [hall]
    dsimp only
    cases hps : lookups.psQuietChecked service with
    | error error => simp [ContainerImageCheck.Clean,Confirmed,hps]
    | ok cids =>
      cases cids with
      | nil => simp [ContainerImageCheck.Clean,Confirmed,hps]
      | cons cid rest =>
        have hconfirmed : Confirmed lookups service pulledId ↔
            compareContainerImages lookups pulledId [] (cid :: rest) = .ok ([],false) := by
          rw [compareContainerImages_clean hid]
          simp [Confirmed,hps]
        rw [hconfirmed]
        dsimp only
        cases compareContainerImages lookups pulledId [] (cid :: rest) with
        | error error => simp [ContainerImageCheck.Clean]
        | ok result =>
          obtain ⟨laggingId,unreadable⟩ := result
          cases unreadable <;> by_cases hlag : laggingId = [] <;> simp [ContainerImageCheck.Clean,hlag]

/-- Every service of a clean check has no pulled image or runs it. -/
theorem checkContainerImages_clean (hd : (stack.serviceImages.map (·.service)).Nodup) {services : List Str}
    {check : ContainerImageCheck} :
    (services.foldl (checkServiceImages stack after lookups) check).Clean ↔
      check.Clean ∧ ∀ service ∈ services, ∀ image pulledId,
        pulledImage stack after service = some (image,pulledId) → Confirmed lookups service pulledId := by
  induction services generalizing check with
  | nil => simp
  | cons service services ih =>
    rw [List.foldl_cons,ih,checkServiceImages_clean hd,and_assoc,List.forall_mem_cons]

end Check

namespace PulledState
variable {state : PulledState} {lookups : ContainerLookups}

theorem findUnfinishedUpdate_finished :
    state.findUnfinishedUpdate lookups = .finished ↔
      (checkContainerImages state.currentStack state.targets state.after lookups).Clean := by
  unfold findUnfinishedUpdate ContainerImageCheck.Clean
  by_cases ht : state.targets = []
  · simp [ht,checkContainerImages]
  · rw [if_neg ht]
    dsimp only
    split
    · rename_i hne
      simp only [List.append_eq_nil_iff,ne_eq] at hne
      simp [hne]
    · rename_i hnil
      simp only [ne_eq,List.append_eq_nil_iff,not_not] at hnil
      split
      · rename_i hbehind
        simp [hbehind]
      · rename_i hbehind
        simpa [hnil] using hbehind

/-- A stack is already current exactly when nothing was applied, changed or failed to start, and every targeted
service whose pulled image is known has containers that all were read and run that image. -/
theorem already_current_iff (state : PulledState) (lookups : ContainerLookups) :
    state.finishPullPhase lookups = some ⟨.success,"already-current"⟩ ↔
      state.updateNeeded = false ∧ ∀ service ∈ state.targets, ∀ image pulledId,
        state.PulledFor service image pulledId → Confirmed lookups service pulledId := by
  have hclean : (checkContainerImages state.currentStack state.targets state.after lookups).Clean ↔
      ∀ service ∈ state.targets, ∀ image pulledId, state.PulledFor service image pulledId →
        Confirmed lookups service pulledId := by
    rw [checkContainerImages,checkContainerImages_clean state.distinct]
    simp only [ContainerImageCheck.Clean,and_self,true_and,pulledImage_eq_some state.distinct,PulledFor]
  rw [← hclean,← findUnfinishedUpdate_finished]
  unfold finishPullPhase
  cases state.updateNeeded with
  | true => simp
  | false => cases state.findUnfinishedUpdate lookups <;> simp

/-- What the outside answers an update of the stack when these are the images and containers. -/
def answers {β : Type} (state : PulledState) (lookups : ContainerLookups) : List (Choice β) :=
  let check := checkContainerImages state.currentStack state.targets state.after lookups
  let changed := { answer := updatedImages state.before state.after ≠ [] }
  let confirmed := { answer := check.unverified ++ check.missing = [] }
  let behind := { answer := check.behind ≠ [] }
  [{ raise := none },changed,confirmed,behind,{ raise := none }]

section
variable {β Hash S : Type} {compose : Versioned β} {rest : List (Choice β)} {hashes : List Hash} {locals : S} {b : Bool}

theorem exec_ask : exec ask (⟨compose,{ answer := b } :: rest,hashes,locals⟩ : World β Hash S) =
    (.ok b,⟨compose,rest,hashes,locals⟩) := rfl

theorem exec_progress : exec progress (⟨compose,{ answer := b } :: rest,hashes,locals⟩ : World β Hash S) =
    (.ok (),⟨compose,rest,hashes,locals⟩) := rfl

end

/-- The update of the stack decides as the pull phase does with these images and containers. -/
theorem finishPullPhase_exec {β Hash : Type} (state : PulledState) (lookups : ContainerLookups)
    (w : World β Hash StackUpdateState) (rest : List (Choice β)) (hl : w.locals = state.locals)
    (hs : w.schedule = state.answers lookups ++ rest) :
    (exec (StackUpdate.finishPullPhase state.plan) w).1 = .ok (state.finishPullPhase lookups) := by
  have htargets : (state.plan.runningServices ++ state.plan.stoppedServices).filter
      (fun s => state.plan.updateServices.elim true (·.contains s)) = state.targets := by
    rw [state.selected]
    rfl
  unfold StackUpdate.finishPullPhase StackUpdate.findUnfinishedUpdate finishPullPhase findUnfinishedUpdate
    updateNeeded
  dsimp only
  rw [htargets,← hl]
  obtain ⟨compose,schedule,hashes,locals⟩ := w
  subst hs
  generalize hcheck : checkContainerImages state.currentStack state.targets state.after lookups = check
  simp only [answers,hcheck,List.cons_append,exec_bind,exec_progress,exec_ask,exec_get]
  split
  · rfl
  · by_cases ht : state.targets = []
    · simp only [if_pos ht,exec_bind,exec_pure,exec_progress]
    · simp only [if_neg ht,exec_bind,exec_ask]
      by_cases hc : check.unverified ++ check.missing = []
      · by_cases hb : check.behind = []
        · simp only [hc,hb,decide_true,if_true,exec_bind,exec_ask,exec_pure,exec_progress,ne_eq,not_true,decide_false,
            if_false]
        · simp only [hc,hb,decide_true,if_true,exec_bind,exec_ask,exec_pure,ne_eq,not_true,not_false_eq_true,if_false]
      · simp only [hc,decide_false,Bool.false_eq_true,if_false,exec_bind,StackUpdate.recordFailure,assign,exec_modify,
          exec_pure,ne_eq,not_false_eq_true,if_true]
        rfl

end PulledState

section Example

def pulledStack : ComposeStack where
  index := 1
  directory := "/srv/web".toList
  file := "compose.yaml".toList
  name := "web".toList
  images := ["nginx:1".toList]
  serviceImages := [⟨"web".toList,"nginx:1".toList,[],[]⟩]

def pulledTarget : WudTarget where
  lineNo := 1
  raw := "nginx:1".toList
  first := "nginx:1".toList
  key := "nginx:1".toList
  repo := "nginx".toList
  hasTag := true
  allowRepo := false
  digest := []
  desiredTag := []

/-- A running service whose line is matched, and whose image id could not be read before or after the pull. -/
def unreadId : PulledState where
  plan := { runningServices := ["web".toList], updateServices := some ["web".toList] }
  matched := [⟨pulledStack,pulledTarget,"nginx:1".toList,"nginx:1".toList,"web".toList⟩]
  selected := by decide +kernel
  locals := {}
  currentStack := pulledStack
  distinct := by decide +kernel
  before := imageStates (fun _ => []) (fun _ => []) pulledStack.images
  after := imageStates (fun _ => []) (fun _ => []) pulledStack.images

def oldContainer : ContainerLookups where
  psQuietChecked := fun _ => .ok ["c0".toList]
  containerImageId := fun _ => .ok "sha256:old".toList

/-- The stack is reported as current, and no id was pulled that its running service could have. -/
theorem unread_id_already_current :
    unreadId.finishPullPhase oldContainer = some ⟨.success,"already-current"⟩ ∧
      "web".toList ∈ unreadId.plan.runningServices ∧ "web".toList ∈ unreadId.targets ∧
      ¬∃ image pulledId, unreadId.PulledFor "web".toList image pulledId ∧
        Confirmed oldContainer "web".toList pulledId := by
  refine ⟨by decide +kernel,by decide +kernel,by decide +kernel,?_⟩
  intro ⟨image,pulledId,⟨item,hitem,_,himage,after,hafter,hid,hne⟩,_⟩
  have hitem : item = ⟨"web".toList,"nginx:1".toList,[],[]⟩ := by
    simpa [unreadId,pulledStack] using hitem
  subst hitem himage
  have hread : unreadId.after.lookup "nginx:1".toList = some ⟨[],[]⟩ := by decide +kernel
  rw [hread] at hafter
  cases hafter
  exact hne hid.symm

end Example

end Wudup
