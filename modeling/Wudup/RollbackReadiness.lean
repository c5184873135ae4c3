import Wudup.RollbackPlans

/-! What a rollback plan promises of the services it calls ready. -/
namespace Wudup.RollbackPlanning
open Library

/-- A successful event with full evidence, that no later updater run supersedes; its service is found once, has the
recorded target image and runs the recorded image ID only, and the exact previous image is there. -/
structure Ready (environment : RollbackEnvironment) (db : RunDatabase) (runId : ℕ) (composeStacks : List ComposeStack)
    (event : RunEventRecord) : Prop where
  success : event.status = successStatus
  evidence : ∀ value ∈ [event.stackName,event.serviceName,event.image,event.targetImage,event.oldImageId,
    event.newImageId], value ≠ []
  changed : event.image = event.targetImage → event.oldImageId ≠ event.newImageId
  latest : ∀ later ∈ db.events, runId < later.runId → later.status = successStatus →
    later.stackName = event.stackName → later.serviceName = event.serviceName →
      ∀ run ∈ db.runs, run.id = later.runId → run.mode ∉ validUpdateModes
  exactDigest : exactSha256Digest (normalizeDigest event.oldDigest) = true
  running : ∃ stack service, stackServiceMatches composeStacks event.stackName event.serviceName = [(stack,service)] ∧
    service.image = event.targetImage ∧
      environment.psQuiet stack.directory stack.file event.serviceName stack.projectDirectory ≠ [] ∧
        ∀ container ∈ environment.psQuiet stack.directory stack.file event.serviceName stack.projectDirectory,
          environment.containerImageId container = event.newImageId
  available : environment.imageId (imageWithDigest event.image (normalizeDigest event.oldDigest)) = event.oldImageId

variable {environment : RollbackEnvironment} {db : RunDatabase} {runId : ℕ} {composeStacks : List ComposeStack}
  {event : RunEventRecord} {events : List RunEventRecord} {response : RollbackPlanResponse}

/-! What the record decides -/

theorem supersedingRun_eq_none_iff {stackName serviceName : Str} :
    db.supersedingRun runId stackName serviceName = none ↔
      ∀ later ∈ db.events, runId < later.runId → later.status = successStatus → later.stackName = stackName →
        later.serviceName = serviceName → ∀ run ∈ db.runs, run.id = later.runId → run.mode ∉ validUpdateModes := by
  rw [RunDatabase.supersedingRun,List.max?_eq_none_iff,List.map_eq_nil_iff,List.filter_eq_nil_iff]
  constructor
  · intro h later hlater hid hstatus hstack hservice run hrun hrunId hmode
    refine h later hlater (decide_eq_true ⟨hid,hstatus,hstack,hservice,run,hrun,hrunId,hmode⟩)
  · intro h later hlater hmatch
    obtain ⟨hid,hstatus,hstack,hservice,run,hrun,hrunId,hmode⟩ := of_decide_eq_true hmatch
    exact h later hlater hid hstatus hstack hservice run hrun hrunId hmode

theorem rollbackImage_ne_nil_iff : event.rollbackImage ≠ [] ↔
    event.image ≠ [] ∧ exactSha256Digest (normalizeDigest event.oldDigest) = true := by
  rw [RunEventRecord.rollbackImage]
  split
  · rename_i h
    refine ⟨fun _ => h,fun _ hnil => ?_⟩
    rw [imageWithDigest,List.append_eq_nil_iff] at hnil
    cases hnil.2
  · rename_i h
    exact ⟨fun hne => absurd rfl hne,fun hr => absurd hr h⟩

theorem recordedNoChange_iff : event.recordedNoChange = true ↔ event.status = successStatus ∧ event.image ≠ [] ∧
    event.image = event.targetImage ∧ event.oldImageId ≠ [] ∧ event.oldImageId = event.newImageId := by
  simp only [RunEventRecord.recordedNoChange,Bool.and_eq_true,decide_eq_true_eq,and_assoc]

/-- The record leaves an event open that may be rolled back as far as it tells. -/
theorem recordedRollbackItem_eq_none_iff {superseding : Option ℕ} : event.recordedRollbackItem superseding = none ↔
    event.status = successStatus ∧
      (∀ value ∈ [event.stackName,event.serviceName,event.image,event.targetImage,event.oldImageId,event.newImageId],
        value ≠ []) ∧
      (event.image = event.targetImage → event.oldImageId ≠ event.newImageId) ∧ superseding = none ∧
      exactSha256Digest (normalizeDigest event.oldDigest) = true := by
  rw [RunEventRecord.recordedRollbackItem.eq_def]
  by_cases hs : event.status ≠ successStatus
  · rw [if_pos hs]
    exact ⟨fun h => (by cases h),fun h => absurd h.1 hs⟩
  rw [if_neg hs]
  by_cases hsame : event.recordedNoChange = true
  · rw [if_pos hsame]
    have himages := recordedNoChange_iff.mp hsame
    exact ⟨fun h => (by cases h),fun h => absurd himages.2.2.2.2 (h.2.2.1 himages.2.2.1)⟩
  rw [if_neg hsame]
  by_cases hmissing : [event.stackName,event.serviceName,event.image,event.targetImage,event.oldImageId,
      event.newImageId].any (· = []) = true
  · rw [if_pos hmissing]
    obtain ⟨value,hvalue,hnil⟩ := List.any_eq_true.mp hmissing
    exact ⟨fun h => (by cases h),fun h => absurd (of_decide_eq_true hnil) (h.2.1 value hvalue)⟩
  rw [if_neg hmissing]
  have hevidence : ∀ value ∈ [event.stackName,event.serviceName,event.image,event.targetImage,event.oldImageId,
      event.newImageId], value ≠ [] :=
    fun value hvalue hnil => hmissing (List.any_eq_true.mpr ⟨value,hvalue,decide_eq_true hnil⟩)
  have himage : event.image ≠ [] := hevidence _ (by simp)
  cases superseding with
  | some later => exact ⟨fun h => (by cases h),fun h => (by cases h.2.2.2.1)⟩
  | none =>
    dsimp only
    by_cases hr : event.rollbackImage = []
    · rw [if_pos hr]
      exact ⟨fun h => (by cases h),fun h => absurd hr (rollbackImage_ne_nil_iff.mpr ⟨himage,h.2.2.2.2⟩)⟩
    · rw [if_neg hr]
      refine ⟨fun _ => ⟨not_not.mp hs,hevidence,fun heq hid => hsame ?_,rfl,(rollbackImage_ne_nil_iff.mp hr).2⟩,
        fun _ => rfl⟩
      exact recordedNoChange_iff.mpr ⟨not_not.mp hs,himage,heq,hevidence _ (by simp),hid⟩

/-- An item says of its event what the event records. -/
structure Shows (event : RunEventRecord) (item : RollbackPlanItem) : Prop where
  eventId : item.eventId = event.id
  stackName : item.stackName = event.stackName
  serviceName : item.serviceName = event.serviceName
  rollbackImage : item.rollbackImage = event.rollbackImage
  previousImageId : item.previousImageId = event.oldImageId

theorem shows_item {status : RollbackItemStatus} {reason : Str} : Shows event (event.item status reason) :=
  ⟨rfl,rfl,rfl,rfl,rfl⟩

theorem shows_recordedRollbackItem {superseding : Option ℕ} {item : RollbackPlanItem}
    (h : event.recordedRollbackItem superseding = some item) : Shows event item ∧ item.status ≠ .ready := by
  have hblocked : ∀ reason, Shows event (event.blockedItem reason) ∧ (event.blockedItem reason).status ≠ .ready :=
    fun reason => ⟨shows_item,fun he => by cases he⟩
  rw [RunEventRecord.recordedRollbackItem.eq_def] at h
  split at h
  · cases h
    exact hblocked _
  · split at h
    · cases h
      exact ⟨shows_item,fun he => by cases he⟩
    · split at h
      · cases h
        exact hblocked _
      · split at h
        · cases h
          exact hblocked _
        · split at h
          · cases h
            exact hblocked _
          · cases h

/-! What Compose and Docker say -/

/-- The service runs what the event recorded, and the exact previous image is there. -/
def Verified (environment : RollbackEnvironment) (composeStacks : List ComposeStack) (event : RunEventRecord) : Prop :=
  (∃ stack service, stackServiceMatches composeStacks event.stackName event.serviceName = [(stack,service)] ∧
    service.image = event.targetImage ∧
      environment.psQuiet stack.directory stack.file event.serviceName stack.projectDirectory ≠ [] ∧
        ∀ container ∈ environment.psQuiet stack.directory stack.file event.serviceName stack.projectDirectory,
          environment.containerImageId container = event.newImageId) ∧
    environment.imageId event.rollbackImage = event.oldImageId

theorem containersRollbackItem_spec (environment : RollbackEnvironment) (service : ServiceImage)
    (containerIds : List Str) (hnew : event.newImageId ≠ []) :
    Shows event (containersRollbackItem environment containerIds service event) ∧
      ((containersRollbackItem environment containerIds service event).status = .ready ↔
        (∀ container ∈ containerIds, environment.containerImageId container = event.newImageId) ∧
          environment.imageId event.rollbackImage = event.oldImageId) := by
  rw [containersRollbackItem]
  split
  · rename_i hunread
    refine ⟨⟨rfl,rfl,rfl,rfl,rfl⟩,fun h => (by cases h),fun h => ?_⟩
    obtain ⟨imageId,himageId,hnil⟩ := List.any_eq_true.mp hunread
    obtain ⟨container,hcontainer,rfl⟩ := List.mem_map.mp himageId
    exact absurd ((h.1 container hcontainer).symm.trans (of_decide_eq_true hnil)) hnew
  · split
    · rename_i hother
      refine ⟨⟨rfl,rfl,rfl,rfl,rfl⟩,fun h => (by cases h),fun h => ?_⟩
      obtain ⟨imageId,himageId,hne⟩ := List.any_eq_true.mp hother
      obtain ⟨container,hcontainer,rfl⟩ := List.mem_map.mp himageId
      exact absurd (h.1 container hcontainer) (of_decide_eq_true hne)
    · rename_i hsame
      have hall : ∀ container ∈ containerIds, environment.containerImageId container = event.newImageId := by
        intro container hcontainer
        by_contra hne
        exact hsame (List.any_eq_true.mpr ⟨_,List.mem_map_of_mem hcontainer,decide_eq_true hne⟩)
      split
      · rename_i hgone
        exact ⟨⟨rfl,rfl,rfl,rfl,rfl⟩,fun h => (by cases h),fun h => absurd h.2 hgone⟩
      · rename_i hthere
        exact ⟨⟨rfl,rfl,rfl,rfl,rfl⟩,fun _ => ⟨hall,not_not.mp hthere⟩,fun _ => rfl⟩

theorem liveRollbackItem_spec (hnew : event.newImageId ≠ []) :
    Shows event (liveRollbackItem environment composeStacks event) ∧
      ((liveRollbackItem environment composeStacks event).status = .ready ↔
        Verified environment composeStacks event) := by
  rw [liveRollbackItem,Verified]
  cases hmatches : stackServiceMatches composeStacks event.stackName event.serviceName with
  | nil => exact ⟨shows_item,fun h => (by cases h),fun ⟨⟨_,_,h,_⟩,_⟩ => by cases h⟩
  | cons first rest =>
    cases rest with
    | cons second rest => exact ⟨shows_item,fun h => (by cases h),fun ⟨⟨_,_,h,_⟩,_⟩ => by cases h⟩
    | nil =>
      obtain ⟨stack,service⟩ := first
      dsimp only
      split
      · rename_i himage
        refine ⟨⟨rfl,rfl,rfl,rfl,rfl⟩,fun h => (by cases h),fun ⟨⟨_,_,h,hsame,_⟩,_⟩ => ?_⟩
        cases h
        exact absurd hsame himage
      · rename_i himage
        split
        · rename_i hnone
          refine ⟨⟨rfl,rfl,rfl,rfl,rfl⟩,fun h => (by cases h),fun ⟨⟨_,_,h,_,hsome,_⟩,_⟩ => ?_⟩
          cases h
          exact absurd hnone hsome
        · rename_i hsome
          have hspec := containersRollbackItem_spec environment service
            (environment.psQuiet stack.directory stack.file event.serviceName stack.projectDirectory) hnew
          refine ⟨hspec.1,hspec.2.trans ⟨fun h => ⟨⟨stack,service,rfl,not_not.mp himage,hsome,h.1⟩,h.2⟩,?_⟩⟩
          rintro ⟨⟨_,_,h,_,_,hall⟩,havailable⟩
          cases h
          exact ⟨hall,havailable⟩

/-! Plans -/

section
variable {recordedItem : RunEventRecord → Option RollbackPlanItem} {laterItem : RunEventRecord → RollbackPlanItem}

theorem pendingEvents_cons : pendingEvents recordedItem (event :: events) =
    if (recordedItem event).isNone then event :: pendingEvents recordedItem events
    else pendingEvents recordedItem events := by
  rw [pendingEvents,List.map_cons,List.zip_cons_cons,List.filter_cons]
  dsimp only
  split <;> rfl

/-- Every event gets its own item, whichever of them come later. -/
theorem fillItems_pendingEvents :
    fillItems (events.map recordedItem) ((pendingEvents recordedItem events).map laterItem) =
      events.map fun event => (recordedItem event).getD (laterItem event) := by
  induction events with
  | nil => rfl
  | cons event events ih =>
    rw [pendingEvents_cons,List.map_cons,List.map_cons]
    cases hr : recordedItem event with
    | none =>
      rw [if_pos Option.isNone_none,List.map_cons,fillItems,ih]
      rfl
    | some item =>
      rw [if_neg (by simp),fillItems,ih]
      rfl

theorem filterMap_of_pendingEvents (laterItem : RunEventRecord → RollbackPlanItem)
    (h : pendingEvents recordedItem events = []) :
    (events.map recordedItem).filterMap id = events.map fun event => (recordedItem event).getD (laterItem event) := by
  induction events with
  | nil => rfl
  | cons event events ih =>
    rw [pendingEvents_cons] at h
    cases hr : recordedItem event with
    | none =>
      rw [hr,if_pos Option.isNone_none] at h
      cases h
    | some item =>
      rw [hr,if_neg (by simp)] at h
      rw [List.map_cons,List.map_cons,hr,List.filterMap_cons,ih h]
      rfl

end

def recordedItem (db : RunDatabase) (runId : ℕ) (event : RunEventRecord) : Option RollbackPlanItem :=
  event.recordedRollbackItem (db.supersedingRun runId event.stackName event.serviceName)

/-- The stacks that discovery has to find. -/
def requiredStackNames (db : RunDatabase) (runId : ℕ) : List Str :=
  orderedUnique ((pendingEvents (recordedItem db runId) (db.events.filter (·.runId = runId))).map (·.stackName))

def laterItem (environment : RollbackEnvironment) (db : RunDatabase) (runId : ℕ) (event : RunEventRecord) :
    RollbackPlanItem :=
  match environment.discoverStacks (requiredStackNames db runId) with
  | .error _ => event.blockedItem "The current Compose state could not be verified.".toList
  | .ok composeStacks => liveRollbackItem environment composeStacks event

/-- An item for an event, whatever Compose and Docker say. -/
def itemFor (environment : RollbackEnvironment) (db : RunDatabase) (runId : ℕ) (event : RunEventRecord) :
    RollbackPlanItem :=
  (recordedItem db runId event).getD (laterItem environment db runId event)

/-- The item shows its event, and is ready exactly where the rollback was verified. -/
structure Judged (environment : RollbackEnvironment) (db : RunDatabase) (runId : ℕ) (event : RunEventRecord)
    (item : RollbackPlanItem) : Prop where
  shows : Shows event item
  ready_iff : item.status = .ready ↔ ∃ composeStacks,
    environment.discoverStacks (requiredStackNames db runId) = .ok composeStacks ∧
      Ready environment db runId composeStacks event

theorem ready_iff : Ready environment db runId composeStacks event ↔
    recordedItem db runId event = none ∧ Verified environment composeStacks event := by
  rw [recordedItem,recordedRollbackItem_eq_none_iff,supersedingRun_eq_none_iff,Verified]
  constructor
  · intro h
    have himage : event.rollbackImage = imageWithDigest event.image (normalizeDigest event.oldDigest) := by
      rw [RunEventRecord.rollbackImage]
      exact if_pos ⟨h.evidence _ (by simp),h.exactDigest⟩
    rw [himage]
    exact ⟨⟨h.success,h.evidence,h.changed,h.latest,h.exactDigest⟩,h.running,h.available⟩
  · rintro ⟨⟨hsuccess,hevidence,hchanged,hlatest,hexact⟩,hrunning,havailable⟩
    have himage : event.rollbackImage = imageWithDigest event.image (normalizeDigest event.oldDigest) := by
      rw [RunEventRecord.rollbackImage]
      exact if_pos ⟨hevidence _ (by simp),hexact⟩
    rw [himage] at havailable
    exact ⟨hsuccess,hevidence,hchanged,hlatest,hexact,hrunning,havailable⟩

theorem judged_itemFor : Judged environment db runId event (itemFor environment db runId event) := by
  rw [itemFor]
  cases hr : recordedItem db runId event with
  | some item =>
    obtain ⟨hshows,hready⟩ := shows_recordedRollbackItem hr
    refine ⟨hshows,fun h => absurd h hready,fun ⟨composeStacks,_,h⟩ => ?_⟩
    rw [ready_iff,hr] at h
    cases h.1
  | none =>
    have hevidence := (recordedRollbackItem_eq_none_iff.mp hr).2.1
    rw [Option.getD_none,laterItem]
    cases hd : environment.discoverStacks (requiredStackNames db runId) with
    | error detail =>
      refine ⟨shows_item,fun h => (by cases h),fun ⟨_,h,_⟩ => ?_⟩
      rw [hd] at h
      cases h
    | ok composeStacks =>
      have hspec : Shows event (liveRollbackItem environment composeStacks event) ∧ _ :=
        liveRollbackItem_spec (hevidence event.newImageId (by simp))
      refine ⟨hspec.1,hspec.2.trans ⟨fun h => ⟨composeStacks,hd,ready_iff.mpr ⟨hr,h⟩⟩,?_⟩⟩
      rintro ⟨other,hok,h⟩
      rw [hd] at hok
      cases hok
      exact (ready_iff.mp h).2

/-- The counts and the status of a plan are of its items. -/
structure Counted (response : RollbackPlanResponse) : Prop where
  readyCount : response.readyCount = response.items.countP (·.status = .ready)
  blockedCount : response.blockedCount = response.items.countP (·.status = .blocked)
  notNeededCount : response.notNeededCount = response.items.countP (·.status = .notNeeded)
  offers : response.status = .ready ∨ response.status = .partly ↔ ∃ item ∈ response.items, item.status = .ready
  unblocked : response.status = .ready → ∀ item ∈ response.items, item.status ≠ .blocked

theorem rollbackStatus_offers {ready blocked : ℕ} :
    ((rollbackStatus ready blocked).1 = .ready ∨ (rollbackStatus ready blocked).1 = .partly) ↔ ready ≠ 0 := by
  rw [rollbackStatus]
  split
  · rename_i h
    exact ⟨fun _ => h.1,fun _ => .inr rfl⟩
  · rename_i h
    split
    · rename_i hblocked
      exact ⟨fun he => he.elim (fun he => by cases he) (fun he => by cases he),fun hready => absurd ⟨hready,hblocked⟩ h⟩
    · split
      · rename_i hready
        exact ⟨fun _ => hready,fun _ => .inl rfl⟩
      · rename_i hready
        exact ⟨fun he => he.elim (fun he => by cases he) (fun he => by cases he),fun h => absurd h hready⟩

theorem rollbackStatus_unblocked {ready blocked : ℕ} (h : (rollbackStatus ready blocked).1 = .ready) : blocked = 0 := by
  rw [rollbackStatus] at h
  split at h
  · cases h
  · split at h
    · cases h
    · exact not_not.mp ‹_›

theorem exists_status_iff {items : List RollbackPlanItem} (status : RollbackItemStatus) :
    items.countP (·.status = status) ≠ 0 ↔ ∃ item ∈ items, item.status = status := by
  rw [← Nat.pos_iff_ne_zero,List.countP_pos_iff]
  simp

theorem counted_rollbackResponse (items : List RollbackPlanItem) : Counted (rollbackResponse runId items) where
  readyCount := rfl
  blockedCount := rfl
  notNeededCount := rfl
  offers := rollbackStatus_offers.trans (exists_status_iff .ready)
  unblocked h item hitem hblocked :=
    (exists_status_iff .blocked).mpr ⟨item,hitem,hblocked⟩ (rollbackStatus_unblocked h)

/-- A plan for an updater run has an item for each of its events. -/
def PlannedFor (environment : RollbackEnvironment) (db : RunDatabase) (run : UpdateRunRow)
    (response : RollbackPlanResponse) : Prop :=
  ((run.dryRun = true ∨ run.mode ∉ validUpdateModes ∨ db.events.filter (·.runId = run.id) = []) ∧
      response.status = .notApplicable ∧ response.items = []) ∨
    ((run.dryRun = false ∧ run.mode ∈ validUpdateModes) ∧
      response.items = (db.events.filter (·.runId = run.id)).map (itemFor environment db run.id))

theorem notApplicableReason_cases (run : UpdateRunRow) (events : List RunEventRecord) :
    (notApplicableReason run events ≠ [] ∧ (run.dryRun = true ∨ run.mode ∉ validUpdateModes ∨ events = [])) ∨
      (notApplicableReason run events = [] ∧ run.dryRun = false ∧ run.mode ∈ validUpdateModes) := by
  rw [notApplicableReason]
  split
  · exact .inl ⟨by decide,.inl ‹_›⟩
  · split
    · exact .inl ⟨by decide,.inr (.inl ‹_›)⟩
    · split
      · exact .inl ⟨by decide,.inr (.inr ‹_›)⟩
      · exact .inr ⟨rfl,Bool.eq_false_of_not_eq_true ‹_›,not_not.mp ‹_›⟩

/-- No item is ready where the stacks were not found. -/
theorem counted_unavailable {detail : Str} {items : List RollbackPlanItem}
    (h : ∀ item ∈ items, item.status ≠ .ready) :
    Counted { runId, status := .unavailable, detail, blockedCount := items.countP (·.status = .blocked),
              notNeededCount := items.countP (·.status = .notNeeded), items } where
  readyCount := by
    by_contra hne
    obtain ⟨item,hitem,hready⟩ := (exists_status_iff .ready).mp (Ne.symm hne)
    exact h item hitem hready
  blockedCount := rfl
  notNeededCount := rfl
  offers := ⟨fun he => he.elim (fun he => by cases he) fun he => (by cases he),
    fun ⟨item,hitem,hready⟩ => absurd hready (h item hitem)⟩
  unblocked he := by cases he

theorem applicableRollbackPlan_spec (environment : RollbackEnvironment) (db : RunDatabase) (runId : ℕ) : ∃ response,
    applicableRollbackPlan environment runId (recordedItem db runId) (db.events.filter (·.runId = runId)) = response ∧
      response.items = (db.events.filter (·.runId = runId)).map (itemFor environment db runId) ∧ Counted response := by
  refine ⟨_,rfl,?_⟩
  rw [applicableRollbackPlan]
  split
  · exact ⟨filterMap_of_pendingEvents _ ‹_›,counted_rollbackResponse _⟩
  · split
    · rename_i detail hdiscover
      have hlater : (·.blockedItem "The current Compose state could not be verified.".toList) =
          laterItem environment db runId := by
        funext event
        rw [laterItem,requiredStackNames,hdiscover]
      dsimp only
      rw [hlater,fillItems_pendingEvents]
      refine ⟨rfl,counted_unavailable fun item hitem hready => ?_⟩
      obtain ⟨event,-,rfl⟩ := List.mem_map.mp hitem
      have hjudged : Judged environment db runId event _ := judged_itemFor
      obtain ⟨composeStacks,hok,-⟩ := hjudged.ready_iff.mp hready
      rw [requiredStackNames,hdiscover] at hok
      cases hok
    · rename_i composeStacks hdiscover
      have hlater : liveRollbackItem environment composeStacks = laterItem environment db runId := by
        funext event
        rw [laterItem,requiredStackNames,hdiscover]
      rw [hlater,fillItems_pendingEvents]
      exact ⟨rfl,counted_rollbackResponse _⟩

theorem apiRollbackPlan_ok (h : apiRollbackPlan environment db runId = .ok response) :
    ∃ run ∈ db.runs, run.id = runId ∧ PlannedFor environment db run response ∧ Counted response := by
  rw [apiRollbackPlan] at h
  split at h
  · cases h
  · rename_i run hfind
    cases h
    have hid : run.id = runId := by simpa using List.find?_some hfind
    subst hid
    refine ⟨run,List.mem_of_find?_eq_some hfind,rfl,?_⟩
    rw [buildRollbackPlan]
    rcases notApplicableReason_cases run (db.events.filter (·.runId = run.id)) with
      ⟨hreason,hwhy⟩ | ⟨hreason,hrun⟩
    · rw [if_pos hreason]
      refine ⟨.inl ⟨hwhy,rfl,rfl⟩,rfl,rfl,rfl,⟨fun he => ?_,fun ⟨_,hitem,_⟩ => by cases hitem⟩,fun he => by cases he⟩
      rcases he with he | he <;> cases he
    · rw [if_neg (not_not_intro hreason)]
      obtain ⟨response,hresponse,hitems,hcounted⟩ := applicableRollbackPlan_spec environment db run.id
      exact ⟨.inr ⟨hrun,(congrArg _ hresponse).trans hitems⟩,hresponse ▸ hcounted⟩

/-! The plan of one run -/

def mediaEvent : RunEventRecord where
  id := 1
  runId := 1
  stackName := "media".toList
  serviceName := "plex".toList
  image := "plex:1.0".toList
  targetImage := "plex:1.1".toList
  oldImageId := "old".toList
  newImageId := "new".toList
  oldDigest := List.replicate 64 'a'
  status := successStatus

def mediaDatabase : RunDatabase where
  runs := [⟨1,false,"stop".toList⟩]
  events := [mediaEvent]

def mediaEnvironment : RollbackEnvironment where
  discoverStacks _ := .ok [⟨0,[],[],"media".toList,["plex:1.1".toList],[⟨"plex".toList,"plex:1.1".toList,[],[]⟩],none,
    [],["plex".toList]⟩]
  psQuiet _ _ _ _ := ["container".toList]
  containerImageId _ := "new".toList
  imageId _ := "old".toList

theorem apiRollbackPlan_media : ∃ response item, apiRollbackPlan mediaEnvironment mediaDatabase 1 = .ok response ∧
    item ∈ response.items ∧ item.status = .ready := by
  have hplan : (apiRollbackPlan mediaEnvironment mediaDatabase 1).toOption.map
      (fun response => response.items.any fun item => item.status = .ready) = some true := by decide +kernel
  obtain ⟨response,hresponse,hany⟩ := Option.map_eq_some_iff.mp hplan
  obtain ⟨item,hitem,hready⟩ := List.any_eq_true.mp hany
  refine ⟨response,item,?_,hitem,of_decide_eq_true hready⟩
  cases h : apiRollbackPlan mediaEnvironment mediaDatabase 1 with
  | error e =>
    rw [h] at hresponse
    cases hresponse
  | ok plan =>
    rw [h] at hresponse
    cases hresponse
    rfl

/-- A ready item is of a successful event of its run, and no later updater run changed its service. -/
theorem event_of_ready (h : apiRollbackPlan environment db runId = .ok response) {item : RollbackPlanItem}
    (hitem : item ∈ response.items) (hready : item.status = .ready) :
    (∃ run ∈ db.runs, run.id = runId ∧ run.mode ∈ validUpdateModes) ∧
      ∃ event ∈ db.events, event.runId = runId ∧ Shows event item ∧
        ∃ composeStacks, Ready environment db runId composeStacks event := by
  obtain ⟨run,hrun,rfl,hplanned,-⟩ := apiRollbackPlan_ok h
  rcases hplanned with ⟨-,-,hnone⟩ | ⟨⟨-,hmode⟩,hitems⟩
  · rw [hnone] at hitem
    cases hitem
  · rw [hitems] at hitem
    obtain ⟨event,hevent,rfl⟩ := List.mem_map.mp hitem
    obtain ⟨hevent,hid⟩ := List.mem_filter.mp hevent
    have hjudged : Judged environment db run.id event _ := judged_itemFor
    obtain ⟨composeStacks,-,hevidence⟩ := hjudged.ready_iff.mp hready
    exact ⟨⟨run,hrun,rfl,hmode⟩,event,hevent,of_decide_eq_true hid,hjudged.shows,composeStacks,hevidence⟩

/-- Whatever Compose and Docker say at either time, the plans of two runs never call the same service ready. -/
theorem rollback_exclusive {later : RollbackEnvironment} {otherId : ℕ} {other : RollbackPlanResponse}
    (h : apiRollbackPlan environment db runId = .ok response) (hother : apiRollbackPlan later db otherId = .ok other)
    {item otherItem : RollbackPlanItem} (hitem : item ∈ response.items) (hready : item.status = .ready)
    (hotherItem : otherItem ∈ other.items) (hotherReady : otherItem.status = .ready)
    (hstack : item.stackName = otherItem.stackName) (hservice : item.serviceName = otherItem.serviceName) :
    runId = otherId := by
  obtain ⟨⟨run,hrun,hrunId,hmode⟩,event,hevent,hid,hshows,_,hevidence⟩ := event_of_ready h hitem hready
  obtain ⟨⟨otherRun,hotherRun,hotherRunId,hotherMode⟩,otherEvent,hotherEvent,hotherId,hotherShows,_,hotherEvidence⟩ :=
    event_of_ready hother hotherItem hotherReady
  have hstacks : event.stackName = otherEvent.stackName := by
    rw [← hshows.stackName,hstack,hotherShows.stackName]
  have hservices : event.serviceName = otherEvent.serviceName := by
    rw [← hshows.serviceName,hservice,hotherShows.serviceName]
  rcases Nat.lt_trichotomy runId otherId with hlt | heq | hgt
  · exact absurd hotherMode (hevidence.latest otherEvent hotherEvent (hotherId ▸ hlt) hotherEvidence.success
      hstacks.symm hservices.symm otherRun hotherRun (hotherRunId.trans hotherId.symm))
  · exact heq
  · exact absurd hmode (hotherEvidence.latest event hevent (hid ▸ hgt) hevidence.success hstacks hservices run hrun
      (hrunId.trans hid.symm))

theorem rollback_exclusive_media : ∃ runId response item otherId other otherItem,
    apiRollbackPlan mediaEnvironment mediaDatabase runId = .ok response ∧ item ∈ response.items ∧
      apiRollbackPlan mediaEnvironment mediaDatabase otherId = .ok other ∧ otherItem ∈ other.items ∧
        runId = otherId := by
  obtain ⟨response,item,hresponse,hitem,hready⟩ := apiRollbackPlan_media
  exact ⟨1,response,item,1,response,item,hresponse,hitem,hresponse,hitem,
    rollback_exclusive hresponse hresponse hitem hready hitem hready rfl rfl⟩

end Wudup.RollbackPlanning
