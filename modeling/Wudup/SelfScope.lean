import Wudup.ContainerIdentity
import Wudup.Matching

/-! The guard that keeps an update from stopping WUDup itself or the Docker endpoint it uses. -/
namespace Wudup
open Library

def selfUpdateRepos : List Str :=
  ["magrhino/wudup".toList,"wudup".toList,"magrhino/wud-updater".toList,"wud-updater".toList]

def isSelfUpdateTarget (rules : CaseRules) (value : Str) : Bool :=
  selfUpdateRepos.contains (rules.casefold (repoKey value))

/-- The services an update stops and starts again. -/
structure UpdateScope where
  services : Option (List Str)
  pullServices : Option (List Str)
  stackReason : Str := []
  stopServices : Option (List Str) := none
  forceRecreate : Bool := false
  upNoDeps : Bool := true
  deriving DecidableEq, Repr

def runtimeServicesForScope (updateScope : UpdateScope) : List Str :=
  orderedUnique (match updateScope.services,updateScope.stopServices with
    | some services,_ => services
    | none,some stopServices => stopServices.reverse
    | none,none => [])

/-- What is configured, and how Docker and the name resolver answer; `none` is a failed lookup.
A host that cannot be resolved has no addresses. -/
structure GuardConfig where
  protectedContainer : Option Str
  endpoint : Option DockerEndpoint
  containerId : Str → Option Str
  resolveHost : Str → List IpAddress

/-- The answers one stack's check gets; `none` is a failed lookup or a malformed answer. -/
structure ScopeLookups where
  updateScope : Option UpdateScope
  psQuietChecked : List Str → Option (List Str)
  inspect : Str → Option Details

inductive BlockReason where
  | selfUpdate
  | dockerEndpoint
  deriving DecidableEq, Repr

def BlockReason.text : BlockReason → String
  | selfUpdate => "self-update-recreate-blocked"
  | dockerEndpoint => "docker-endpoint-recreate-blocked"

structure SelfScopeBlock where
  reason : BlockReason
  message : String
  services : List Str
  deriving DecidableEq, Repr

structure SelfScopeIdentity where
  protectSelf : Bool
  protectedId : Str
  identityError : String
  endpoint : Option DockerEndpoint

def selfUpdateMessage : String :=
  "This update would stop or recreate WUDup itself. " ++
  "Use the self-update action for WUDup, or update this stack from " ++
  "the host. Remove it from this selection to update other services."

def scopeLookupMessage : String :=
  "Could not verify the update's recreate scope; no update was applied. " ++
  "Check Docker access and the Compose configuration, then retry."

def containerLookupMessage : String :=
  "Could not verify whether this update includes the WUDup " ++
  "container; no update was applied. Check Docker access and " ++
  "the Compose configuration, then retry."

def dockerEndpointLookupMessage : String :=
  "Could not check whether this update would stop the Docker endpoint " ++
  "WUDup uses (DOCKER_HOST); no update was applied. Check Docker access " ++
  "and the Compose configuration, then retry."

def identityErrorMessage : String :=
  "Could not verify the WUDup container identity; no update was applied. " ++
  "Check Docker access and WUD_WEB_RESTART_CONTAINER, then retry."

def dockerEndpointMessage (endpointHost : Str) (services : List Str) : String :=
  "This update would stop or recreate " ++ String.ofList (", ".toList.intercalate services) ++
  ", which serves the Docker endpoint WUDup uses (DOCKER_HOST host " ++ String.ofList endpointHost ++
  "). WUDup would lose Docker access and could not finish or roll back the update. Update that " ++
  "service from the host instead, and remove it from this selection to update other services."

/-- The endpoint with the addresses its host resolves to. -/
def GuardConfig.resolveDockerEndpoint (config : GuardConfig) (endpoint : DockerEndpoint) : DockerEndpoint :=
  { endpoint with addresses := config.resolveHost endpoint.host }

/-- The id of the protected container; empty where none is named or it cannot be looked up. -/
def GuardConfig.protectedId (config : GuardConfig) : Str :=
  match config.protectedContainer with
  | none => []
  | some container => if container = [] then [] else (config.containerId container).getD []

/-- What the guard protects, or `none` when nothing needs protecting. -/
def selfScopeIdentity (config : GuardConfig) : Option SelfScopeIdentity :=
  if config.protectedContainer = none && config.endpoint = none then none
  else
    some
      { protectSelf := config.protectedContainer.isSome
        protectedId := config.protectedId
        identityError :=
          if config.protectedContainer.getD [] ≠ [] && config.protectedId = [] then identityErrorMessage
          else ""
        endpoint := config.endpoint.map config.resolveDockerEndpoint }

def networkModeHopLimit : ℕ := 5

/-- Follows `network_mode` links to the container that owns the network, within a number of hops. -/
def networkOwnerDetails (inspect : Str → Option Details) : ℕ → List Str → Details → Option Details
  | 0, _, details => if networkModeContainer details = [] then some details else none
  | hops + 1, seen, details =>
    if networkModeContainer details = [] then some details
    else if networkModeContainer details ∈ seen then none
    else (inspect (networkModeContainer details)).bind
      (networkOwnerDetails inspect hops (networkModeContainer details :: seen))

section
variable (rules : CaseRules)

/-- Whether one listed container may serve the endpoint, if that can be told. -/
def containerReachesEndpoint (inspect : Str → Option Details) (endpoint : DockerEndpoint)
    (containerId : Str) : Option (Details × Bool) :=
  (inspect containerId).bind fun details =>
    (networkOwnerDetails inspect networkModeHopLimit [] details).bind fun networkDetails =>
      (containerServesDockerEndpoint rules networkDetails endpoint).map fun serves => (details,serves)

def serviceOrId (details : Details) (containerId : Str) : Str :=
  let service := (Json.string? (details.lookup "Service".toList)).getD []
  if service = [] then containerId else service

/-- The services of the containers that may serve the endpoint. -/
def dockerEndpointServices (inspect : Str → Option Details) (containerIds : List Str)
    (endpoint : DockerEndpoint) : Option (List Str) :=
  (containerIds.mapM fun containerId =>
    (containerReachesEndpoint rules inspect endpoint containerId).map fun (details,serves) =>
      if serves then [serviceOrId details containerId] else []).map fun found => sortedSet found.flatten

/-- The ids of the containers in the scope, or a block when they cannot be read. -/
def scopeContainerIds (identity : SelfScopeIdentity) (ask : ScopeLookups) (services : List Str) :
    Except SelfScopeBlock (List Str) :=
  if identity.protectedId = [] && identity.endpoint = none then .ok []
  else match ask.psQuietChecked (sortedSet services) with
    | some containerIds => .ok containerIds
    | none =>
      if identity.protectedId ≠ [] then .error ⟨.selfUpdate,containerLookupMessage,[]⟩
      else .error ⟨.dockerEndpoint,dockerEndpointLookupMessage,[]⟩

def endpointBlock (identity : SelfScopeIdentity) (ask : ScopeLookups) (containerIds : List Str) :
    Option SelfScopeBlock :=
  match identity.endpoint with
  | none => none
  | some endpoint =>
    match dockerEndpointServices rules ask.inspect containerIds endpoint with
    | none => some ⟨.dockerEndpoint,dockerEndpointLookupMessage,[]⟩
    | some [] => none
    | some services => some ⟨.dockerEndpoint,dockerEndpointMessage endpoint.host services,services⟩

/-- The services in the scope whose image is WUDup's own. -/
def selfImageServices (stack : ComposeStack) (services : List Str) : List Str :=
  (stack.serviceImages.filter fun item =>
    services.contains item.service && isSelfUpdateTarget rules item.image).map (·.service)

/-- The services in the scope that are WUDup by their image, or all of them with its container. -/
def protectedServices (identity : SelfScopeIdentity) (stack : ComposeStack) (services containerIds : List Str) :
    List Str :=
  sortedSet ((if identity.protectSelf then selfImageServices rules stack services else []) ++
    if identity.protectedId ≠ [] && containerIds.contains identity.protectedId then services else [])

def scopedBlock (identity : SelfScopeIdentity) (stack : ComposeStack) (ask : ScopeLookups)
    (updateScope : UpdateScope) : Option SelfScopeBlock :=
  let services := runtimeServicesForScope updateScope
  match scopeContainerIds identity ask services with
  | .error block => some { block with services := protectedServices rules identity stack services [] }
  | .ok containerIds =>
    let found := protectedServices rules identity stack services containerIds
    if found ≠ [] then some ⟨.selfUpdate,selfUpdateMessage,found⟩
    else endpointBlock rules identity ask containerIds

/-- One stack's scope, or why it would stop WUDup or its Docker endpoint. -/
def selfScopeBlock (identity : SelfScopeIdentity) (stack : ComposeStack) (ask : ScopeLookups) :
    Except SelfScopeBlock UpdateScope :=
  if identity.identityError ≠ "" then .error ⟨.selfUpdate,identity.identityError,[]⟩
  else match ask.updateScope with
    | none => .error ⟨if identity.protectSelf then .selfUpdate else .dockerEndpoint,scopeLookupMessage,[]⟩
    | some updateScope =>
      match scopedBlock rules identity stack ask updateScope with
      | some block => .error block
      | none => .ok updateScope

/-- One running or stopped container of the host, with its Compose project and service. -/
structure ProjectContainer where
  containerId : Str
  project : Str
  service : Str
  deriving DecidableEq, Repr

/-- The containers listed by `docker ps`; a row of another form fails the listing. -/
def projectContainers (rows : List Str) : Option (List ProjectContainer) :=
  (rows.filter fun row => strip row ≠ []).mapM fun row =>
    match row.splitOn '\t' with
    | [containerId,project,service] => if containerId = [] then none else some ⟨containerId,project,service⟩
    | _ => none

/-- The containers of a stack's project that its Compose file no longer defines. -/
def orphansOf (stack : ComposeStack) (containers : List ProjectContainer) : List ProjectContainer :=
  containers.filter fun container =>
    container.project = stack.projectName && !stack.serviceNames.contains container.service

/-- `docker ps` prints short ids, and the protected id is the full one. -/
def isSelfId (identity : SelfScopeIdentity) (containerId : Str) : Bool :=
  identity.protectedId ≠ [] && containerId.isPrefixOf identity.protectedId

/-- The services of the orphans that are WUDup or its endpoint; `none` if that cannot be checked. -/
def protectedOrphans (identity : SelfScopeIdentity) (stack : ComposeStack)
    (inspect : Str → Option Details) (containers : List ProjectContainer) : Option (List Str) :=
  let orphans := orphansOf stack containers
  let ids := orderedUnique (orphans.map (·.containerId))
  let label := fun containerId =>
    let service := ((orphans.reverse.find? (·.containerId = containerId)).map (·.service)).getD []
    if service = [] then containerId else service
  let own := (ids.filter (isSelfId identity)).map label
  match identity.endpoint with
  | none => some own
  | some endpoint =>
    (dockerEndpointServices rules inspect (ids.filter fun id => !isSelfId identity id) endpoint).map (own ++ ·)

/-- The answers of the check of one stack before an update. -/
structure PreflightLookups extends ScopeLookups where
  psFormat : Option (List Str)
  inspectOrphan : Str → Option Details

/-- What the check of the stacks has found so far. The listing of the host's containers is kept. -/
structure ScopeCheck where
  listing : Option (List ProjectContainer) := none
  stacksKeepingOrphans : List ℕ := []
  verifiedUpdateScopes : List (ℕ × UpdateScope) := []
  blocks : List (ComposeStack × SelfScopeBlock) := []

/-- The kept listing, or a new one. -/
def ScopeCheck.projectContainers (check : ScopeCheck) (ask : PreflightLookups) :
    Option (List ProjectContainer) :=
  match check.listing with
  | some containers => some containers
  | none => ask.psFormat.bind Wudup.projectContainers

/-- A stack whose orphans may be protected, or cannot be checked, keeps them. -/
def keepProtectedOrphans (identity : SelfScopeIdentity) (stack : ComposeStack) (ask : PreflightLookups)
    (check : ScopeCheck) : ScopeCheck :=
  let keep := fun (check : ScopeCheck) =>
    { check with stacksKeepingOrphans := check.stacksKeepingOrphans ++ [stack.index] }
  if check.stacksKeepingOrphans.contains stack.index then check
  else if stack.projectName = [] then keep check
  else
    match check.projectContainers ask with
    | none => keep check
    | some containers =>
      let check := { check with listing := some containers }
      if protectedOrphans rules identity stack ask.inspectOrphan containers = some [] then check
      else keep check

def validateStackScope (identity : SelfScopeIdentity) (check : ScopeCheck)
    (asked : ComposeStack × PreflightLookups) : ScopeCheck :=
  match selfScopeBlock rules identity asked.1 asked.2.toScopeLookups with
  | .error block => { check with blocks := check.blocks ++ [(asked.1,block)] }
  | .ok updateScope =>
    let check := { check with
      verifiedUpdateScopes := check.verifiedUpdateScopes ++ [(asked.1.index,updateScope)] }
    if identity.protectedId ≠ [] || identity.endpoint.isSome then
      keepProtectedOrphans rules identity asked.1 asked.2 check
    else check

/-- The check of the stacks an update would touch; the update goes on if none is blocked. -/
def validateSelfUpdateScope (config : GuardConfig) (keeping : List ℕ)
    (asked : List (ComposeStack × PreflightLookups)) : ScopeCheck :=
  match selfScopeIdentity config with
  | none => { stacksKeepingOrphans := keeping }
  | some identity => asked.foldl (validateStackScope rules identity) { stacksKeepingOrphans := keeping }

structure RetagScopeBlocked where
  message : String
  stack : Str := []
  services : List Str := []
  deriving DecidableEq, Repr

def retagIdentityMessage : String :=
  "Could not verify the WUDup container identity; no retag was applied. " ++
  "Check Docker access and WUD_WEB_RESTART_CONTAINER, then retry."

def retagContainerLookupMessage : String :=
  "Could not verify whether this retag includes the " ++
  "WUDup container; no retag was applied. Check Docker access and " ++
  "the Compose configuration, then retry."

def stackMessage (stack : ComposeStack) (message : String) : String :=
  "[" ++ String.ofList stack.name ++ "] " ++ message

def protectedContainerId (config : GuardConfig) : Except RetagScopeBlocked Str :=
  if config.protectedContainer.getD [] = [] then .ok []
  else if config.protectedId = [] then .error { message := retagIdentityMessage }
  else .ok config.protectedId

def rejectSelfImages (stack : ComposeStack) (services : List Str) : Except RetagScopeBlocked Unit :=
  if selfImageServices rules stack services ≠ [] then
    .error ⟨stackMessage stack selfUpdateMessage,stack.name,sortedSet (selfImageServices rules stack services)⟩
  else .ok ()

def scopedContainerIds (stack : ComposeStack) (services : List Str) (protectedId : Str)
    (ask : ScopeLookups) : Except RetagScopeBlocked (List Str) :=
  match ask.psQuietChecked (sortedSet services) with
  | some containerIds => .ok containerIds
  | none =>
    .error
      { message := stackMessage stack
          (if protectedId ≠ [] then retagContainerLookupMessage else dockerEndpointLookupMessage)
        stack := stack.name }

def rejectDockerEndpoint (stack : ComposeStack) (inspect : Str → Option Details) (containerIds : List Str)
    (endpoint : DockerEndpoint) : Except RetagScopeBlocked Unit :=
  match dockerEndpointServices rules inspect containerIds endpoint with
  | none => .error { message := stackMessage stack dockerEndpointLookupMessage, stack := stack.name }
  | some [] => .ok ()
  | some services =>
    .error ⟨stackMessage stack (dockerEndpointMessage endpoint.host services),stack.name,services⟩

/-- One stack of a retag, with the services it recreates and the answers its check gets. -/
def validateRetagStack (config : GuardConfig) (protectedId : Str)
    (asked : ComposeStack × List Str × ScopeLookups) : Except RetagScopeBlocked Unit := do
  let (stack,services,ask) := asked
  rejectSelfImages rules stack services
  if protectedId = [] && config.endpoint = none then return ()
  let containerIds ← scopedContainerIds stack services protectedId ask
  if protectedId ≠ [] && containerIds.contains protectedId then
    throw ⟨stackMessage stack selfUpdateMessage,stack.name,sortedSet services⟩
  match config.endpoint with
  | none => return ()
  | some endpoint =>
    rejectDockerEndpoint rules stack ask.inspect containerIds (config.resolveDockerEndpoint endpoint)

/-- The check before a retag changes anything. -/
def validateRetagRecreateScope (config : GuardConfig)
    (asked : List (ComposeStack × List Str × ScopeLookups)) : Except RetagScopeBlocked Unit := do
  let protectedId ← protectedContainerId config
  asked.forM (validateRetagStack rules config protectedId)

end
end Wudup
