import Wudup.Library.Traverse
import Wudup.SelfScope

/-! What is safe once the guard lets a stack pass: the containers of its scope and the orphans of its
project, for updates and for retags. -/
namespace Wudup
open Library

/-- A container's network belongs to the last container along its `network_mode` links. -/
inductive OwnedBy (inspect : Str → Option Details) : Details → Details → Prop
  | own {details : Details} (h : networkModeContainer details = []) : OwnedBy inspect details details
  | link {details next owner : Details} (h : networkModeContainer details ≠ [])
      (hi : inspect (networkModeContainer details) = some next) (ho : OwnedBy inspect next owner) :
      OwnedBy inspect details owner

theorem ownedBy_of_networkOwnerDetails {inspect : Str → Option Details} {hops : ℕ} {seen : List Str}
    {details owner : Details} (h : networkOwnerDetails inspect hops seen details = some owner) :
    OwnedBy inspect details owner := by
  induction hops generalizing seen details with
  | zero =>
    simp only [networkOwnerDetails] at h
    split at h
    · rename_i hm
      cases h
      exact .own hm
    · cases h
  | succ hops ih =>
    simp only [networkOwnerDetails] at h
    split at h
    · rename_i hm
      cases h
      exact .own hm
    · rename_i hm
      split at h
      · cases h
      · obtain ⟨next,hi,hn⟩ := Option.bind_eq_some_iff.mp h
        exact .link hm hi (ih hn)

/-- A network has one owner. -/
theorem OwnedBy.unique {inspect : Str → Option Details} {details owner owner' : Details}
    (h : OwnedBy inspect details owner) (h' : OwnedBy inspect details owner') : owner = owner' := by
  induction h with
  | own hm =>
    cases h' with
    | own => rfl
    | link hm' => exact absurd hm hm'
  | link hm hi _ ih =>
    cases h' with
    | own hm' => exact absurd hm' hm
    | link _ hi' ho' =>
      rw [hi] at hi'
      cases hi'
      exact ih ho'

section
variable (rules : CaseRules)

/-- The container's network has an owner, and its owner cannot be what the endpoint reaches. -/
structure NotEndpoint (inspect : Str → Option Details) (endpoint : DockerEndpoint) (containerId : Str) :
    Prop where
  owned : ∃ details owner, inspect containerId = some details ∧ OwnedBy inspect details owner
  apart : ∀ details owner, inspect containerId = some details → OwnedBy inspect details owner →
    containerServesDockerEndpoint rules owner endpoint = some false

variable {rules}

theorem notEndpoint_of_reaches {inspect : Str → Option Details} {endpoint : DockerEndpoint}
    {containerId : Str} {details : Details}
    (h : containerReachesEndpoint rules inspect endpoint containerId = some (details,false)) :
    NotEndpoint rules inspect endpoint containerId := by
  obtain ⟨found,hi,h⟩ := Option.bind_eq_some_iff.mp h
  obtain ⟨owner,ho,h⟩ := Option.bind_eq_some_iff.mp h
  obtain ⟨serves,hs,he⟩ := Option.map_eq_some_iff.mp h
  obtain ⟨rfl,rfl⟩ := Prod.mk.inj he
  have howner := ownedBy_of_networkOwnerDetails ho
  constructor
  · exact ⟨found,owner,hi,howner⟩
  · intro details' owner' hi' howner'
    rw [hi] at hi'
    cases hi'
    rwa [← howner.unique howner']

/-- If no service is found, every container was checked and none is the endpoint. -/
theorem notEndpoint_of_services {inspect : Str → Option Details} {endpoint : DockerEndpoint}
    {containerIds : List Str} (h : dockerEndpointServices rules inspect containerIds endpoint = some []) :
    ∀ containerId ∈ containerIds, NotEndpoint rules inspect endpoint containerId := by
  intro containerId hc
  obtain ⟨found,hfound,hempty⟩ := Option.map_eq_some_iff.mp h
  have hmap := mapM_eq_some.mp hfound
  obtain ⟨part,hpart,hreach⟩ := List.mem_map.mp (hmap ▸ List.mem_map_of_mem hc)
  obtain ⟨⟨details,serves⟩,hr,he⟩ := Option.map_eq_some_iff.mp hreach.symm
  cases serves with
  | false => exact notEndpoint_of_reaches hr
  | true =>
    have hs : serviceOrId details containerId ∈ sortedSet found.flatten := by
      rw [mem_sortedSet,List.mem_flatten]
      refine ⟨part,hpart,?_⟩
      rw [← he]
      simp
    rw [hempty] at hs
    cases hs

variable (rules)

/-- Every lookup was made and answered, and nothing in the scope is WUDup or its endpoint. -/
structure ScopeClear (identity : SelfScopeIdentity) (stack : ComposeStack) (ask : ScopeLookups)
    (updateScope : UpdateScope) : Prop where
  identified : identity.identityError = ""
  answered : ask.updateScope = some updateScope
  noSelfImage : identity.protectSelf = true → ∀ item ∈ stack.serviceImages,
    item.service ∈ runtimeServicesForScope updateScope → isSelfUpdateTarget rules item.image = false
  listing : identity.protectedId ≠ [] ∨ identity.endpoint ≠ none → ∃ containerIds,
    ask.psQuietChecked (sortedSet (runtimeServicesForScope updateScope)) = some containerIds ∧
      (runtimeServicesForScope updateScope ≠ [] → identity.protectedId ≠ [] →
        identity.protectedId ∉ containerIds) ∧
      ∀ endpoint, identity.endpoint = some endpoint →
        ∀ containerId ∈ containerIds, NotEndpoint rules ask.inspect endpoint containerId

variable {rules}

theorem selfImageServices_eq_nil {stack : ComposeStack} {services : List Str} :
    selfImageServices rules stack services = [] ↔
      ∀ item ∈ stack.serviceImages, item.service ∈ services → isSelfUpdateTarget rules item.image = false := by
  simp [selfImageServices]

theorem scopeContainerIds_ok {identity : SelfScopeIdentity} {ask : ScopeLookups} {services ids : List Str}
    (h : scopeContainerIds identity ask services = .ok ids)
    (hp : identity.protectedId ≠ [] ∨ identity.endpoint ≠ none) :
    ask.psQuietChecked (sortedSet services) = some ids := by
  unfold scopeContainerIds at h
  rw [if_neg (by simpa [or_iff_not_imp_left] using hp)] at h
  split at h
  · cases h
    assumption
  · split at h <;> cases h

theorem endpointBlock_eq_none {identity : SelfScopeIdentity} {ask : ScopeLookups} {ids : List Str} :
    endpointBlock rules identity ask ids = none ↔ ∀ endpoint, identity.endpoint = some endpoint →
      dockerEndpointServices rules ask.inspect ids endpoint = some [] := by
  unfold endpointBlock
  cases identity.endpoint with
  | none => simp
  | some endpoint =>
    cases h : dockerEndpointServices rules ask.inspect ids endpoint with
    | none => simp [h]
    | some services => cases services <;> simp [h]

theorem protectedServices_eq_nil {identity : SelfScopeIdentity} {stack : ComposeStack}
    {services ids : List Str} : protectedServices rules identity stack services ids = [] ↔
      (identity.protectSelf = true → selfImageServices rules stack services = []) ∧
        (identity.protectedId ≠ [] → identity.protectedId ∈ ids → services = []) := by
  rw [protectedServices,sortedSet_eq_nil,List.append_eq_nil_iff]
  simp

/-- A scope passes exactly if it holds no image of WUDup, its containers are listed without the
protected one, and none of them serves the endpoint. -/
theorem scopedBlock_eq_none {identity : SelfScopeIdentity} {stack : ComposeStack} {ask : ScopeLookups}
    {updateScope : UpdateScope} :
    scopedBlock rules identity stack ask updateScope = none ↔ ∃ ids,
      scopeContainerIds identity ask (runtimeServicesForScope updateScope) = .ok ids ∧
        protectedServices rules identity stack (runtimeServicesForScope updateScope) ids = [] ∧
        endpointBlock rules identity ask ids = none := by
  unfold scopedBlock
  dsimp only
  cases scopeContainerIds identity ask (runtimeServicesForScope updateScope) with
  | error block => simp
  | ok ids =>
    by_cases hp : protectedServices rules identity stack (runtimeServicesForScope updateScope) ids = []
    · simp [hp]
    · simp [hp]

theorem selfScopeBlock_ok {identity : SelfScopeIdentity} {stack : ComposeStack} {ask : ScopeLookups}
    {updateScope : UpdateScope} :
    selfScopeBlock rules identity stack ask = .ok updateScope ↔ identity.identityError = "" ∧
      ask.updateScope = some updateScope ∧ scopedBlock rules identity stack ask updateScope = none := by
  unfold selfScopeBlock
  by_cases hid : identity.identityError = ""
  · rw [if_neg (not_not.mpr hid)]
    cases ask.updateScope with
    | none => simp
    | some found =>
      simp only [hid,Option.some.injEq,true_and]
      by_cases hf : found = updateScope
      · subst hf
        cases scopedBlock rules identity stack ask found <;> simp
      · cases scopedBlock rules identity stack ask found <;> simp [hf]
  · simp [hid]

/-- A stack that the guard lets pass is clear. -/
theorem scopeClear_of_selfScopeBlock {identity : SelfScopeIdentity} {stack : ComposeStack}
    {ask : ScopeLookups} {updateScope : UpdateScope}
    (h : selfScopeBlock rules identity stack ask = .ok updateScope) :
    ScopeClear rules identity stack ask updateScope := by
  obtain ⟨hid,hs,hb⟩ := selfScopeBlock_ok.mp h
  obtain ⟨ids,hids,hp,hend⟩ := scopedBlock_eq_none.mp hb
  obtain ⟨hself,hlisted⟩ := protectedServices_eq_nil.mp hp
  constructor
  · exact hid
  · exact hs
  · intro hp
    exact selfImageServices_eq_nil.mp (hself hp)
  · intro hp
    refine ⟨ids,scopeContainerIds_ok hids hp,fun hne hid hmem => hne (hlisted hid hmem),?_⟩
    intro endpoint he
    exact notEndpoint_of_services (endpointBlock_eq_none.mp hend endpoint he)

variable (rules)

/-- No listed container that the project's Compose file no longer defines is WUDup or its endpoint. -/
structure OrphansClear (identity : SelfScopeIdentity) (stack : ComposeStack)
    (inspect : Str → Option Details) (containers : List ProjectContainer) : Prop where
  named : stack.projectName ≠ []
  clear : ∀ container ∈ containers, container.project = stack.projectName →
    container.service ∉ stack.serviceNames → isSelfId identity container.containerId = false ∧
      ∀ endpoint, identity.endpoint = some endpoint →
        NotEndpoint rules inspect endpoint container.containerId

variable {rules} {identity : SelfScopeIdentity}

theorem orphansClear_of_protectedOrphans {stack : ComposeStack} {inspect : Str → Option Details}
    {containers : List ProjectContainer} (hn : stack.projectName ≠ [])
    (h : protectedOrphans rules identity stack inspect containers = some []) :
    OrphansClear rules identity stack inspect containers := by
  constructor
  · exact hn
  intro container hc hp hs
  have horphan : container.containerId ∈
      orderedUnique ((orphansOf stack containers).map (·.containerId)) := by
    rw [mem_orderedUnique]
    exact List.mem_map_of_mem (List.mem_filter.mpr ⟨hc,by simp [hp,hs]⟩)
  unfold protectedOrphans at h
  dsimp only at h
  cases he : identity.endpoint with
  | none =>
    rw [he,Option.some.injEq,List.map_eq_nil_iff,List.filter_eq_nil_iff] at h
    constructor
    · simpa using h _ horphan
    · intro endpoint hendpoint
      cases hendpoint
  | some endpoint =>
    rw [he] at h
    obtain ⟨services,hservices,hnil⟩ := Option.map_eq_some_iff.mp h
    obtain ⟨hown,rfl⟩ := List.append_eq_nil_iff.mp hnil
    rw [List.map_eq_nil_iff,List.filter_eq_nil_iff] at hown
    have hself : isSelfId identity container.containerId = false := by simpa using hown _ horphan
    constructor
    · exact hself
    · intro endpoint' hendpoint
      cases hendpoint
      exact notEndpoint_of_services hservices _ (List.mem_filter.mpr ⟨horphan,by simp [hself]⟩)

/-- What one stack's check adds: the listing is kept once read, and no stack is let go. -/
structure CheckGrows (before after : ScopeCheck) : Prop where
  listing : ∀ containers, before.listing = some containers → after.listing = some containers
  keeping : ∀ index ∈ before.stacksKeepingOrphans, index ∈ after.stacksKeepingOrphans
  blocks : ∀ block ∈ before.blocks, block ∈ after.blocks

theorem CheckGrows.refl (check : ScopeCheck) : CheckGrows check check :=
  ⟨fun _ h => h,fun _ h => h,fun _ h => h⟩

theorem CheckGrows.trans {a b c : ScopeCheck} (hab : CheckGrows a b) (hbc : CheckGrows b c) :
    CheckGrows a c := by
  constructor
  · intro containers h
    exact hbc.listing containers (hab.listing containers h)
  · intro index h
    exact hbc.keeping index (hab.keeping index h)
  · intro block h
    exact hbc.blocks block (hab.blocks block h)

theorem keepProtectedOrphans_grows (stack : ComposeStack) (ask : PreflightLookups) (check : ScopeCheck) :
    CheckGrows check (keepProtectedOrphans rules identity stack ask check) := by
  unfold keepProtectedOrphans
  dsimp only
  split
  · exact .refl check
  · split
    · constructor <;> simp_all
    · split
      · constructor <;> simp_all
      · rename_i containers hl
        have hkept : ∀ kept, check.listing = some kept → some containers = some kept := by
          intro kept hk
          rw [ScopeCheck.projectContainers,hk] at hl
          rw [← hl]
        split
        · constructor <;> simp_all
        · constructor <;> simp_all

theorem validateStackScope_grows (check : ScopeCheck) (asked : ComposeStack × PreflightLookups) :
    CheckGrows check (validateStackScope rules identity check asked) := by
  unfold validateStackScope
  split
  · constructor <;> simp_all
  · dsimp only
    have hverified : ∀ updateScope : UpdateScope, CheckGrows check { check with
        verifiedUpdateScopes := check.verifiedUpdateScopes ++ [(asked.1.index,updateScope)] } :=
      fun _ => ⟨fun _ h => h,fun _ h => h,fun _ h => h⟩
    split
    · exact (hverified _).trans (keepProtectedOrphans_grows _ _ _)
    · exact hverified _

theorem foldl_grows (asked : List (ComposeStack × PreflightLookups)) (check : ScopeCheck) :
    CheckGrows check (asked.foldl (validateStackScope rules identity) check) := by
  induction asked generalizing check with
  | nil => exact .refl check
  | cons first rest ih => exact (validateStackScope_grows check first).trans (ih _)

/-- A stack that may lose its orphans after its check: the listing was read, and its orphans are clear. -/
theorem orphansClear_of_keepProtectedOrphans {stack : ComposeStack} {ask : PreflightLookups}
    {check : ScopeCheck}
    (h : stack.index ∉ (keepProtectedOrphans rules identity stack ask check).stacksKeepingOrphans) :
    ∃ containers, (keepProtectedOrphans rules identity stack ask check).listing = some containers ∧
      OrphansClear rules identity stack ask.inspectOrphan containers := by
  unfold keepProtectedOrphans at h ⊢
  dsimp only at h ⊢
  split
  · rename_i hk
    rw [if_pos hk] at h
    exact absurd (by simpa using hk) h
  · rename_i hk
    rw [if_neg hk] at h
    split
    · rename_i hn
      simp [hn] at h
    · rename_i hn
      rw [if_neg hn] at h
      cases hl : check.projectContainers ask with
      | none => simp [hl] at h
      | some containers =>
        simp only [hl] at h ⊢
        split
        · rename_i hp
          exact ⟨containers,rfl,orphansClear_of_protectedOrphans hn hp⟩
        · rename_i hp
          simp [hp] at h

theorem keepProtectedOrphans_listing {stack : ComposeStack} {ask : PreflightLookups} {check : ScopeCheck}
    {containers : List ProjectContainer}
    (h : (keepProtectedOrphans rules identity stack ask check).listing = some containers) :
    check.listing = some containers ∨ ask.psFormat.bind projectContainers = some containers := by
  unfold keepProtectedOrphans at h
  dsimp only at h
  split at h
  · exact Or.inl h
  · split at h
    · exact Or.inl h
    · cases hl : check.projectContainers ask with
      | none =>
        simp only [hl] at h
        exact Or.inl h
      | some read =>
        have hread : read = containers := by
          simp only [hl] at h
          split at h <;> simpa using h
        subst hread
        unfold ScopeCheck.projectContainers at hl
        split at hl
        · rename_i kept hk
          exact Or.inl (hk.trans hl)
        · exact Or.inr hl

theorem validateStackScope_listing {check : ScopeCheck} {asked : ComposeStack × PreflightLookups}
    {containers : List ProjectContainer}
    (h : (validateStackScope rules identity check asked).listing = some containers) :
    check.listing = some containers ∨ asked.2.psFormat.bind projectContainers = some containers := by
  unfold validateStackScope at h
  split at h
  · exact Or.inl h
  · dsimp only at h
    split at h
    · have hlisting := keepProtectedOrphans_listing h
      exact hlisting
    · exact Or.inl h

/-- The kept listing is one that `docker ps` gave during the check. -/
theorem foldl_listing {asked : List (ComposeStack × PreflightLookups)} {check : ScopeCheck}
    {containers : List ProjectContainer}
    (h : (asked.foldl (validateStackScope rules identity) check).listing = some containers) :
    check.listing = some containers ∨ ∃ a ∈ asked, a.2.psFormat.bind projectContainers = some containers := by
  induction asked generalizing check with
  | nil => exact Or.inl h
  | cons first rest ih =>
    rcases ih h with h | ⟨a,ha,h⟩
    · rcases validateStackScope_listing h with h | h
      · exact Or.inl h
      · exact Or.inr ⟨first,by simp,h⟩
    · exact Or.inr ⟨a,by simp [ha],h⟩

/-- The guard has a container or an endpoint to look for. -/
def SelfScopeIdentity.Guards (identity : SelfScopeIdentity) : Prop :=
  identity.protectedId ≠ [] ∨ identity.endpoint ≠ none

/-- A stack that was not blocked is clear, and so are its orphans unless they are kept. -/
theorem foldl_clear {asked : List (ComposeStack × PreflightLookups)} {check : ScopeCheck}
    {stack : ComposeStack} {ask : PreflightLookups} (ha : (stack,ask) ∈ asked)
    (hb : ∀ block, (stack,block) ∉ (asked.foldl (validateStackScope rules identity) check).blocks) :
    (∃ updateScope, ScopeClear rules identity stack ask.toScopeLookups updateScope) ∧
      (identity.Guards →
        stack.index ∉ (asked.foldl (validateStackScope rules identity) check).stacksKeepingOrphans →
        ∃ containers, (asked.foldl (validateStackScope rules identity) check).listing = some containers ∧
          OrphansClear rules identity stack ask.inspectOrphan containers) := by
  induction asked generalizing check with
  | nil => cases ha
  | cons first rest ih =>
    rcases List.mem_cons.mp ha with rfl | ha
    · rw [List.foldl_cons] at hb ⊢
      have hgrows : CheckGrows (validateStackScope rules identity check (stack,ask))
          (rest.foldl (validateStackScope rules identity) (validateStackScope rules identity check (stack,ask))) :=
        foldl_grows rest _
      cases hs : selfScopeBlock rules identity stack ask.toScopeLookups with
      | error block =>
        have hblock : (stack,block) ∈ (validateStackScope rules identity check (stack,ask)).blocks := by
          simp [validateStackScope,hs]
        exact absurd (hgrows.blocks _ hblock) (hb block)
      | ok updateScope =>
        constructor
        · exact ⟨updateScope,scopeClear_of_selfScopeBlock hs⟩
        intro hguards hk
        have hk := mt (hgrows.keeping stack.index) hk
        have hstep : validateStackScope rules identity check (stack,ask) =
            keepProtectedOrphans rules identity stack ask { check with
              verifiedUpdateScopes := check.verifiedUpdateScopes ++ [(stack.index,updateScope)] } := by
          simp only [validateStackScope,hs]
          rw [if_pos]
          simpa [SelfScopeIdentity.Guards,Option.isSome_iff_ne_none] using hguards
        rw [hstep] at hk hgrows ⊢
        obtain ⟨containers,hl,hc⟩ := orphansClear_of_keepProtectedOrphans hk
        exact ⟨containers,hgrows.listing containers hl,hc⟩
    · exact ih ha hb

theorem selfImageServices_congr {stack : ComposeStack} {services services' : List Str}
    (h : ∀ service, service ∈ services ↔ service ∈ services') :
    selfImageServices rules stack services = selfImageServices rules stack services' := by
  have hcontains : ∀ service, services.contains service = services'.contains service := by
    intro service
    rw [Bool.eq_iff_iff]
    simpa using h service
  simp only [selfImageServices,hcontains]

/-- A retag of a stack passes under the conditions of an update, for the services it recreates. -/
theorem validateRetagStack_ok {config : GuardConfig} {protectedId : Str} {stack : ComposeStack}
    {services : List Str} {ask : ScopeLookups} (hp : protectedId ≠ []) :
    validateRetagStack rules config protectedId (stack,services,ask) = .ok () ↔
      selfImageServices rules stack services = [] ∧
        ∃ ids, ask.psQuietChecked (sortedSet services) = some ids ∧ protectedId ∉ ids ∧
          ∀ endpoint, config.endpoint = some endpoint →
            dockerEndpointServices rules ask.inspect ids (config.resolveDockerEndpoint endpoint) = some [] := by
  unfold validateRetagStack rejectSelfImages scopedContainerIds
  dsimp only
  by_cases hself : selfImageServices rules stack services = []
  · cases hids : ask.psQuietChecked (sortedSet services) with
    | none => simp [hself,hp,bind,Except.bind]
    | some ids =>
      by_cases hmem : protectedId ∈ ids
      · simp [hself,hp,hmem,bind,Except.bind,throw,throwThe,MonadExceptOf.throw]
      · cases he : config.endpoint with
        | none => simp [hself,hp,hmem,bind,Except.bind,pure,Except.pure]
        | some endpoint =>
          simp only [hself,hp,bind,Except.bind,rejectDockerEndpoint,Option.some.injEq]
          cases hs : dockerEndpointServices rules ask.inspect ids (config.resolveDockerEndpoint endpoint) with
          | none => simp [hs,hmem]
          | some found => cases found <;> simp [hs,hp,hmem]
  · simp [hself,bind,Except.bind]

theorem identity_of_config {config : GuardConfig} (h : selfScopeIdentity config = some identity) :
    identity.protectSelf = config.protectedContainer.isSome ∧ identity.protectedId = config.protectedId ∧
      identity.endpoint = config.endpoint.map config.resolveDockerEndpoint ∧
      (identity.identityError = "" ↔
        (config.protectedContainer.getD [] = [] ∨ config.protectedId ≠ [])) := by
  unfold selfScopeIdentity at h
  split at h
  · cases h
  · cases h
    refine ⟨rfl,rfl,rfl,?_⟩
    dsimp only
    split
    · rename_i hfailed
      simp only [ne_eq,Bool.and_eq_true,decide_eq_true_eq] at hfailed
      have hmessage : identityErrorMessage ≠ "" := by decide
      simp [hmessage,hfailed]
    · rename_i hfound
      simp only [ne_eq,Bool.and_eq_true,decide_eq_true_eq,not_and] at hfound
      simpa [or_iff_not_imp_left] using hfound

theorem protectedId_eq {config : GuardConfig} (h : config.protectedId ≠ []) :
    ∃ container, config.protectedContainer = some container ∧ container ≠ [] ∧
      config.containerId container = some config.protectedId := by
  unfold GuardConfig.protectedId at h ⊢
  split
  · simp_all
  · rename_i container hc
    rw [hc] at h
    dsimp only at h
    refine ⟨container,hc,?_⟩
    split
    · rename_i hempty
      simp [hempty] at h
    · rename_i hempty
      rw [if_neg hempty] at h
      constructor
      · exact hempty
      · cases hid : config.containerId container with
        | none => simp [hid] at h
        | some id => simp

/-- For the same services, the check before a retag fails exactly if the guard blocks the stack. -/
theorem retag_blocked_iff {config : GuardConfig} (hi : selfScopeIdentity config = some identity)
    {stack : ComposeStack} {services : List Str} {ask : ScopeLookups} {updateScope : UpdateScope}
    (hp : config.protectedContainer.getD [] ≠ []) (hne : services ≠ [])
    (hs : ask.updateScope = some updateScope)
    (heq : ∀ service, service ∈ runtimeServicesForScope updateScope ↔ service ∈ services) :
    validateRetagRecreateScope rules config [(stack,services,ask)] = .ok () ↔
      selfScopeBlock rules identity stack ask = .ok updateScope := by
  obtain ⟨hself,hid,hend,herror⟩ := identity_of_config hi
  have hprotect : identity.protectSelf = true := by
    rw [hself]
    cases hc : config.protectedContainer <;> simp_all
  rw [selfScopeBlock_ok,herror]
  simp only [hp,hs,false_or,true_and]
  unfold validateRetagRecreateScope protectedContainerId
  rw [if_neg hp]
  by_cases hfound : config.protectedId = []
  · simp [hfound,bind,Except.bind]
  · have hscope : runtimeServicesForScope updateScope ≠ [] := by
      intro hempty
      obtain ⟨service,hservice⟩ := List.exists_mem_of_ne_nil services hne
      rw [← heq service,hempty] at hservice
      cases hservice
    have hforM : ∀ result : Except RetagScopeBlocked Unit,
        ((do result; pure ()) = (.ok () : Except RetagScopeBlocked Unit)) ↔ result = .ok () := by
      intro result
      cases result <;> simp [bind,Except.bind,pure,Except.pure]
    have hrun : ((if config.protectedId = [] then .error { message := retagIdentityMessage }
        else .ok config.protectedId : Except RetagScopeBlocked Str) >>= fun protectedId =>
          [(stack,services,ask)].forM (validateRetagStack rules config protectedId)) = .ok () ↔
        validateRetagStack rules config config.protectedId (stack,services,ask) = .ok () := by
      rw [if_neg hfound]
      exact hforM _
    rw [hrun,validateRetagStack_ok hfound,scopedBlock_eq_none]
    have hids : ∀ ids, scopeContainerIds identity ask (runtimeServicesForScope updateScope) = .ok ids ↔
        ask.psQuietChecked (sortedSet services) = some ids := by
      intro ids
      rw [scopeContainerIds,sortedSet_congr heq,if_neg (by simp [hid,hfound])]
      cases ask.psQuietChecked (sortedSet services) with
      | none => simp [hid,hfound]
      | some found => simp
    simp only [hids,protectedServices_eq_nil,hprotect,hid,endpointBlock_eq_none,hend,hscope,
      selfImageServices_congr heq]
    constructor
    · rintro ⟨himages,ids,hlisted,hmem,hendpoint⟩
      refine ⟨hfound,ids,hlisted,⟨fun _ => himages,fun _ h => absurd h hmem⟩,?_⟩
      intro endpoint he
      obtain ⟨unresolved,hu,rfl⟩ := Option.map_eq_some_iff.mp he
      exact hendpoint unresolved hu
    · rintro ⟨-,ids,hlisted,⟨himages,hmem⟩,hendpoint⟩
      refine ⟨himages trivial,ids,hlisted,fun h => hmem hfound h,?_⟩
      intro endpoint he
      exact hendpoint _ (Option.map_eq_some_iff.mpr ⟨endpoint,he,rfl⟩)

/-- With a container or a network endpoint configured, a stack that passes is clear, a stack whose check
passes loses no protected orphan, and a retag fails exactly where an update of its services would. -/
theorem self_scope_guard (rules : CaseRules) {config : GuardConfig}
    (hconfig : config.protectedContainer ≠ none ∨ config.endpoint ≠ none) :
    ∃ identity, selfScopeIdentity config = some identity ∧
      identity.protectSelf = config.protectedContainer.isSome ∧
      identity.endpoint = config.endpoint.map config.resolveDockerEndpoint ∧
      (∀ container, config.protectedContainer = some container → container ≠ [] →
        identity.identityError = "" →
          identity.protectedId ≠ [] ∧ config.containerId container = some identity.protectedId) ∧
      (∀ stack ask updateScope, selfScopeBlock rules identity stack ask = .ok updateScope →
        ScopeClear rules identity stack ask updateScope) ∧
      (∀ keeping asked stack ask, (stack,ask) ∈ asked →
        (∀ block, (stack,block) ∉ (validateSelfUpdateScope rules config keeping asked).blocks) →
          (∃ updateScope, ScopeClear rules identity stack ask.toScopeLookups updateScope) ∧
          (identity.Guards →
            stack.index ∉ (validateSelfUpdateScope rules config keeping asked).stacksKeepingOrphans →
              ∃ containers, (∃ a ∈ asked, a.2.psFormat.bind projectContainers = some containers) ∧
                (validateSelfUpdateScope rules config keeping asked).listing = some containers ∧
                OrphansClear rules identity stack ask.inspectOrphan containers)) ∧
      (∀ stack services ask updateScope, config.protectedContainer.getD [] ≠ [] → services ≠ [] →
        ask.updateScope = some updateScope →
        (∀ service, service ∈ runtimeServicesForScope updateScope ↔ service ∈ services) →
          (validateRetagRecreateScope rules config [(stack,services,ask)] = .ok () ↔
            selfScopeBlock rules identity stack ask = .ok updateScope)) := by
  obtain ⟨identity,hi⟩ : ∃ identity, selfScopeIdentity config = some identity := by
    unfold selfScopeIdentity
    rw [if_neg]
    · exact ⟨_,rfl⟩
    · rcases hconfig with h | h <;> simp [h]
  obtain ⟨hself,hid,hend,herror⟩ := identity_of_config hi
  refine ⟨identity,hi,hself,hend,?_,?_,?_,?_⟩
  · intro container hc hne hnone
    have hfound : config.protectedId ≠ [] := by
      have := herror.mp hnone
      simpa [hc,hne] using this
    obtain ⟨container',hc',-,hcontainer⟩ := protectedId_eq hfound
    rw [hc] at hc'
    cases hc'
    rw [hid]
    exact ⟨hfound,hcontainer⟩
  · intro stack ask updateScope h
    exact scopeClear_of_selfScopeBlock h
  · intro keeping asked stack ask ha
    simp only [validateSelfUpdateScope,hi]
    intro hb
    obtain ⟨hclear,horphans⟩ := foldl_clear ha hb
    constructor
    · exact hclear
    · intro hguards hk
      obtain ⟨containers,hl,hc⟩ := horphans hguards hk
      rcases foldl_listing hl with hnone | hread
      · cases hnone
      · exact ⟨containers,hread,hl,hc⟩
  · intro stack services ask updateScope hp hne hs heq
    exact retag_blocked_iff hi hp hne hs heq

end

section Example

def asciiCase : CaseRules := ⟨fun text => text.map Char.toLower,fun text => text.map Char.toLower⟩

/-- WUDup restarts its container `wudup`; Docker is reached through a socket. -/
def restartConfig : GuardConfig where
  protectedContainer := some "wudup".toList
  endpoint := none
  containerId := fun _ => some "f00d".toList
  resolveHost := fun _ => []

theorem self_scope_guard_restartConfig : ∃ identity, selfScopeIdentity restartConfig = some identity ∧
    identity.protectSelf = true :=
  have hconfig : restartConfig.protectedContainer ≠ none ∨ restartConfig.endpoint ≠ none := Or.inl (by decide)
  have ⟨identity,hi,hself,_⟩ := self_scope_guard asciiCase hconfig
  ⟨identity,hi,hself⟩

/-- WUDup reaches Docker through the host `proxy`, which resolves to the given addresses. -/
def proxyConfig (addresses : List IpAddress) : GuardConfig where
  protectedContainer := none
  endpoint := some ⟨"proxy".toList,none,[]⟩
  containerId := fun _ => none
  resolveHost := fun _ => addresses

def mediaStack : ComposeStack where
  index := 1
  directory := []
  file := []
  name := "media".toList
  images := []
  serviceImages := []
  projectName := "media".toList
  serviceNames := ["web".toList]

def answers (services : List Str) (details : Details) : ScopeLookups where
  updateScope := some { services := some services, pullServices := none }
  psQuietChecked := fun _ => some ["f00d".toList]
  inspect := fun _ => some details

/-- A container whose only name or address is the one on its network. -/
def addressDetails : Details :=
  [("Networks".toList,.object [("net".toList,.object [("IPAddress".toList,.string "172.18.0.2".toList)])])]

def passes (config : GuardConfig) (ask : ScopeLookups) : Bool :=
  (selfScopeIdentity config).any fun identity => (selfScopeBlock asciiCase identity mediaStack ask).toBool

/-- The scope of the only stack cannot be read, and WUDup is an orphan of its project. -/
def unreadable : ScopeCheck :=
  validateSelfUpdateScope asciiCase restartConfig []
    [(mediaStack,{ answers [] [] with
      updateScope := none, psFormat := some ["f00d\tmedia\told".toList], inspectOrphan := fun _ => none })]

/-- The guard lets a stack pass whose empty scope lists the protected container, whose container has an
answer of the wrong type, or whose endpoint cannot be resolved; a blocked stack keeps no orphans. -/
theorem guard_falls_open :
    (passes restartConfig (answers [] []) = true ∧
      (selfScopeIdentity restartConfig).map (·.protectedId) = some "f00d".toList) ∧
    passes (proxyConfig []) (answers ["web".toList] [("NetworkMode".toList,.number 1)]) = true ∧
    (passes (proxyConfig []) (answers ["web".toList] addressDetails) = true ∧
      passes (proxyConfig [.v4 0xAC120002]) (answers ["web".toList] addressDetails) = false) ∧
    (unreadable.stacksKeepingOrphans = [] ∧ unreadable.blocks.map (·.1) = [mediaStack] ∧
      (projectContainers ["f00d\tmedia\told".toList]).map (orphansOf mediaStack) =
        some [⟨"f00d".toList,"media".toList,"old".toList⟩]) := by
  decide +kernel

end Example

end Wudup
