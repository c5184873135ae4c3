import Mathlib.Data.Finset.Lattice.Fold
import Wudup.Json
import Wudup.Library.Traverse
import Wudup.Library.Unicode
import Wudup.RunningImages
import Wudup.SelfScope

/-! Which services of an update's scope run before it, read from the host's containers. -/
namespace Wudup
open Library

/-- A path read from the right of another one. -/
def joinPath (directory file : Str) : Str :=
  if file.head? = some '/' then file
  else if directory = [] ∨ directory.getLast? = some '/' then directory ++ file
  else directory ++ '/' :: file

/-- One more component of a normal path; `..` drops the one before it, if there is one to drop. -/
def normComponent (rooted : Bool) (kept : List Str) (component : Str) : List Str :=
  if component = [] ∨ component = ['.'] then kept
  else if component ≠ ['.','.'] ∨ (rooted = false ∧ kept = []) ∨ kept.getLast? = some ['.','.'] then
    kept ++ [component]
  else kept.dropLast

/-- Two leading slashes are kept as they are, more of them count as one. -/
def rootSlashes (path : Str) : ℕ :=
  match path with
  | '/' :: '/' :: '/' :: _ => 1
  | '/' :: '/' :: _ => 2
  | '/' :: _ => 1
  | _ => 0

def normalizedComposeRuntimePath (path : Str) : Str :=
  let components := (path.splitOn '/').foldl (normComponent (rootSlashes path ≠ 0)) []
  let normal := List.replicate (rootSlashes path) '/' ++ ['/'].intercalate components
  if normal = [] then ['.'] else normal

/-- The Compose files, the project and the service of a container. -/
structure ComposeRuntimeServiceKey where
  paths : Finset Str
  project : Str
  service : Str
  deriving DecidableEq

abbrev ComposeRuntimeServiceState := ComposeRuntimeServiceKey × Str

def composeRuntimeServiceKey (projectDirectory composeFile projectName service : Str) : ComposeRuntimeServiceKey :=
  ⟨{normalizedComposeRuntimePath (joinPath projectDirectory composeFile)},projectName,service⟩

def composeRuntimeServiceKeyMatches (expected actual : ComposeRuntimeServiceKey) : Bool :=
  expected.paths ⊆ actual.paths && expected.project = actual.project && expected.service = actual.service

/-- The path of one Compose file of a container; a relative one needs the working directory. -/
def runtimeConfigPath (workingDir value : Str) : Option Str :=
  if value.head? = some '/' then some (normalizedComposeRuntimePath value)
  else if workingDir = [] then none
  else some (normalizedComposeRuntimePath (joinPath workingDir value))

def composeRuntimeConfigPaths (workingDir configFiles : Str) : Option (Finset Str) :=
  match (((configFiles.splitOn ',').map strip).filter (· ≠ [])).mapM (runtimeConfigPath workingDir) with
  | none | some [] => none
  | some paths => some paths.toFinset

def composeRuntimeServiceKeyFromFields (rules : CaseRules) (workingDir configFiles project service oneoff : Str) :
    Option ComposeRuntimeServiceKey :=
  if rules.casefold (strip oneoff) = "true".toList then none
  else if strip service = [] then none
  else (composeRuntimeConfigPaths workingDir configFiles).map fun paths => ⟨paths,strip project,strip service⟩

/-- The service and the state of a container; tabs after the fifth one belong to the state. -/
def composeRuntimeServiceState (rules : CaseRules) (row : Str) : Option ComposeRuntimeServiceState :=
  match row.splitOn '\t' with
  | workingDir :: configFiles :: project :: service :: oneoff :: state :: rest =>
    let state := rules.casefold (strip (['\t'].intercalate (state :: rest)))
    if state = [] then none
    else (composeRuntimeServiceKeyFromFields rules workingDir configFiles project service oneoff).map (·,state)
  | _ => none

def composeRuntimeServiceStates (rules : CaseRules) (rows : List Str) : List ComposeRuntimeServiceState :=
  rows.filterMap (composeRuntimeServiceState rules)

/-- How the Compose files of a project's containers compare with the file an update loads. -/
structure RuntimeFileSets where
  startedFromDiscoveredFile : Bool := false
  supersetExtra : Finset Str := ∅
  otherFileSets : Finset (Finset Str) := ∅

def RuntimeFileSets.add (expected : Finset Str) (sets : RuntimeFileSets) (paths : Finset Str) : RuntimeFileSets :=
  if paths = expected then { sets with startedFromDiscoveredFile := true }
  else if expected ⊂ paths then { sets with supersetExtra := sets.supersetExtra ∪ paths \ expected }
  else { sets with otherFileSets := insert paths sets.otherFileSets }

def ComposeStack.runtimeKey (stack : ComposeStack) (service : Str) : ComposeRuntimeServiceKey :=
  composeRuntimeServiceKey (stack.projectDirectory.getD stack.directory) stack.file stack.projectName service

def composeRuntimeFileSets (stack : ComposeStack) (runtimeStates : List ComposeRuntimeServiceState) :
    RuntimeFileSets :=
  let keys := (runtimeStates.map (·.1)).filter (·.project = stack.projectName)
  (keys.map (·.paths)).foldl (RuntimeFileSets.add (stack.runtimeKey []).paths) {}

def composeProjectFileSets (discovered : List ComposeStack) (projectName : Str) : List (Finset Str) :=
  (discovered.filter (·.projectName = projectName)).map fun stack => (stack.runtimeKey []).paths

/-- Containers of another discovered stack are tolerated while one runs from the file itself. -/
def composeRuntimeExtraConfigFiles (sets : RuntimeFileSets) (known : List (Finset Str)) : Finset Str :=
  let reported := sets.otherFileSets.filter fun paths =>
    !sets.startedFromDiscoveredFile || !known.any fun knownPaths => knownPaths ⊆ paths
  sets.supersetExtra ∪ reported.sup id

/-- Why an update is refused before it starts, and the services its report names. -/
structure RuntimeRefusal where
  reason : String
  services : List Str
  deriving DecidableEq, Repr

def RuntimeRefusal.status (refusal : RuntimeRefusal) : StackStatus := ⟨.failure,refusal.reason⟩

/-- A stack started with other Compose files is refused; the result says whether it keeps orphans. -/
def composeFileSetRefusal (discovered : List ComposeStack) (stack : ComposeStack) (services : List Str)
    (runtimeStates : List ComposeRuntimeServiceState) : Except RuntimeRefusal Bool :=
  let sets := composeRuntimeFileSets stack runtimeStates
  if composeRuntimeExtraConfigFiles sets (composeProjectFileSets discovered stack.projectName) ≠ ∅ then
    .error ⟨"compose-override-files",services⟩
  else .ok (sets.otherFileSets ≠ ∅)

def composeServiceRuntimeStates (stack : ComposeStack) (runtimeStates : List ComposeRuntimeServiceState)
    (service : Str) : List Str :=
  (runtimeStates.filter fun state => composeRuntimeServiceKeyMatches (stack.runtimeKey service) state.1).map (·.2)

def runningState : Str := "running".toList

def inactiveContainerStates : Finset Str := {"created".toList,"dead".toList,"exited".toList}

/-- A scaled service, or one in a state that cannot be preserved. -/
def serviceStateIsUnverifiable (states : List Str) : Bool :=
  states.length > 1 || (states ≠ [] && states.toFinset ≠ {runningState} && !(states.toFinset ⊆ inactiveContainerStates))

/-- The answers about the host's containers; `none` is a failed command. -/
structure RuntimeLookups where
  psFormat : Option (List Str)
  psQuietChecked : Str → Option (List Str)
  containerStateError : Str → Option Str

/-- A container that was created but never started, with an error from its first start. -/
def containerStartFailed (ask : RuntimeLookups) (service : Str) : Option Bool :=
  (ask.psQuietChecked service).bind fun containerIds =>
    containerIds.anyM fun containerId => (ask.containerStateError containerId).map (· ≠ [])

def startFailedTarget (ask : RuntimeLookups) (targets : Option (List Str)) (service : Str) (states : List Str) :
    Option Bool :=
  if states.toFinset ≠ {"created".toList} then some false
  else if targets.elim false (!·.contains service) then some false
  else containerStartFailed ask service

structure ServiceRuntime where
  running : List Str := []
  stopped : List Str := []
  /-- Those of the running services whose container was created but could not start. -/
  startFailed : List Str := []
  deriving DecidableEq, Repr

/-- History counts services whose start failed as not running before the update. -/
def ServiceRuntime.history (runtime : ServiceRuntime) : List Str × List Str :=
  (runtime.running.filter fun service => !runtime.startFailed.contains service,runtime.stopped ++ runtime.startFailed)

/-- One service is added to those that run or to those that do not. -/
def classifyService (ask : RuntimeLookups) (targets : Option (List Str)) (services : List Str)
    (states : Str → List Str) (runtime : ServiceRuntime) (service : Str) : Except RuntimeRefusal ServiceRuntime :=
  if serviceStateIsUnverifiable (states service) then .error ⟨"runtime-state-unavailable",[service]⟩
  else match startFailedTarget ask targets service (states service) with
    | none => .error ⟨"runtime-state-unavailable",services⟩
    | some true => .ok { runtime with
        startFailed := runtime.startFailed ++ [service], running := runtime.running ++ [service] }
    | some false =>
      if (states service).toFinset = {runningState} then .ok { runtime with running := runtime.running ++ [service] }
      else .ok { runtime with stopped := runtime.stopped ++ [service] }

/-- What an update that is not refused goes on with. -/
structure InitialRuntime extends ServiceRuntime where
  keepOrphans : Bool
  stackRuntimeState : List Str × List Str
  deriving DecidableEq, Repr

def initialServiceRuntime (rules : CaseRules) (discovered : List ComposeStack) (ask : RuntimeLookups)
    (stack : ComposeStack) (updateScope : UpdateScope) (matched : List Match) : Except RuntimeRefusal InitialRuntime :=
  let services := runtimeServicesForScope updateScope
  if services = [] ∨ stack.projectName = [] then .error ⟨"runtime-state-unavailable",services⟩
  else match ask.psFormat with
    | none => .error ⟨"runtime-state-unavailable",services⟩
    | some rows => do
      let runtimeStates := composeRuntimeServiceStates rules rows
      let keepOrphans ← composeFileSetRefusal discovered stack services runtimeStates
      let states := composeServiceRuntimeStates stack runtimeStates
      let runtime ← services.foldlM (classifyService ask (updateServices matched) services states) {}
      return ⟨runtime,keepOrphans,runtime.history⟩

theorem service_ne_nil_of_fields {rules : CaseRules} {workingDir configFiles project service oneoff : Str}
    {key : ComposeRuntimeServiceKey}
    (h : composeRuntimeServiceKeyFromFields rules workingDir configFiles project service oneoff = some key) :
    key.service ≠ [] := by
  rw [composeRuntimeServiceKeyFromFields] at h
  split at h
  · cases h
  · split at h
    · cases h
    · rename_i hservice
      obtain ⟨paths,-,rfl⟩ := Option.map_eq_some_iff.mp h
      exact hservice

theorem service_ne_nil_of_row {rules : CaseRules} {row : Str} {state : ComposeRuntimeServiceState}
    (h : composeRuntimeServiceState rules row = some state) : state.1.service ≠ [] := by
  rw [composeRuntimeServiceState] at h
  split at h
  · dsimp only at h
    split at h
    · cases h
    · obtain ⟨key,hkey,rfl⟩ := Option.map_eq_some_iff.mp h
      exact service_ne_nil_of_fields hkey
  · cases h

/-- No container belongs to a service without a name. -/
theorem composeServiceRuntimeStates_nil {rules : CaseRules} {stack : ComposeStack} {rows : List Str} :
    composeServiceRuntimeStates stack (composeRuntimeServiceStates rules rows) [] = [] := by
  rw [composeServiceRuntimeStates,List.map_eq_nil_iff,List.filter_eq_nil_iff]
  intro state hstate hmatches
  obtain ⟨row,-,hrow⟩ := List.mem_filterMap.mp hstate
  simp only [composeRuntimeServiceKeyMatches,Bool.and_eq_true,decide_eq_true_eq] at hmatches
  exact service_ne_nil_of_row hrow hmatches.2.symm

theorem eq_singleton_of_toFinset {states : List Str} {state : Str} (hlen : states.length ≤ 1)
    (h : states.toFinset = {state}) : states = [state] := by
  match states with
  | [] => simp at h
  | [other] => simpa using h

/-- A service whose state can be preserved has at most one container, which runs or does not. -/
theorem states_of_verifiable {states : List Str} (h : serviceStateIsUnverifiable states = false) :
    states.length ≤ 1 ∧
      (states = [] ∨ states = [runningState] ∨ ∃ state ∈ inactiveContainerStates, states = [state]) := by
  simp only [serviceStateIsUnverifiable,Bool.or_eq_false_iff,decide_eq_false_iff_not,not_lt] at h
  refine ⟨h.1,?_⟩
  match states with
  | [] => exact .inl rfl
  | [state] =>
    by_cases hrunning : state = runningState
    · exact .inr (.inl (by rw [hrunning]))
    · exact .inr (.inr ⟨state,by simpa [hrunning] using h.2,rfl⟩)

theorem created_of_startFailedTarget {ask : RuntimeLookups} {targets : Option (List Str)} {service : Str}
    {states : List Str} (h : startFailedTarget ask targets service states = some true) :
    states.toFinset = {"created".toList} := by
  rw [startFailedTarget] at h
  split at h
  · cases h
  · rename_i hcreated
    exact not_not.mp hcreated

/-- The services passed so far are divided by what the states of their containers say. -/
structure ServiceRuntime.Divides (states : Str → List Str) (passed : List Str) (runtime : ServiceRuntime) : Prop where
  perm : (runtime.running ++ runtime.stopped).Perm passed
  startFailed : ∀ service ∈ runtime.startFailed, service ∈ runtime.running
  running : ∀ service ∈ runtime.running,
    states service = [runningState] ∨ service ∈ runtime.startFailed ∧ states service = ["created".toList]
  stopped : ∀ service ∈ runtime.stopped,
    states service = [] ∨ ∃ state ∈ inactiveContainerStates, states service = [state]

namespace ServiceRuntime.Divides
variable {states : Str → List Str} {passed : List Str} {runtime : ServiceRuntime} {service : Str}

theorem start : ServiceRuntime.Divides states [] {} := by
  constructor <;> simp

/-- A service joins those that run, whether or not its start failed. -/
theorem addRunning (h : runtime.Divides states passed) {failed : List Str} (hsub : ∀ s ∈ failed, s = service)
    (hstates : states service = [runningState] ∨ service ∈ failed ∧ states service = ["created".toList]) :
    ServiceRuntime.Divides states (passed ++ [service])
      ⟨runtime.running ++ [service],runtime.stopped,runtime.startFailed ++ failed⟩ := by
  constructor
  · have hmove : (runtime.running ++ [service] ++ runtime.stopped).Perm
        (runtime.running ++ runtime.stopped ++ [service]) := by
      rw [List.append_assoc,List.append_assoc]
      exact List.perm_append_comm.append_left runtime.running
    exact hmove.trans (h.perm.append_right [service])
  · intro s hs
    rw [List.mem_append] at hs ⊢
    obtain hs | hs := hs
    · exact .inl (h.startFailed s hs)
    · exact .inr (by simp [hsub s hs])
  · intro s hs
    rw [List.mem_append,List.mem_singleton] at hs
    obtain hs | rfl := hs
    · refine (h.running s hs).imp_right fun hcreated => ?_
      exact ⟨List.mem_append_left failed hcreated.1,hcreated.2⟩
    · exact hstates.imp_right fun hcreated => ⟨List.mem_append_right _ hcreated.1,hcreated.2⟩
  · exact h.stopped

theorem addStopped (h : runtime.Divides states passed)
    (hstates : states service = [] ∨ ∃ state ∈ inactiveContainerStates, states service = [state]) :
    ServiceRuntime.Divides states (passed ++ [service]) { runtime with stopped := runtime.stopped ++ [service] } := by
  constructor
  · have hall := h.perm.append_right [service]
    rwa [List.append_assoc] at hall
  · exact h.startFailed
  · exact h.running
  · intro s hs
    rw [List.mem_append,List.mem_singleton] at hs
    obtain hs | rfl := hs
    · exact h.stopped s hs
    · exact hstates

theorem step {ask : RuntimeLookups} {targets : Option (List Str)} {services : List Str} {after : ServiceRuntime}
    (h : runtime.Divides states passed)
    (hstep : classifyService ask targets services states runtime service = .ok after) :
    after.Divides states (passed ++ [service]) := by
  rw [classifyService] at hstep
  split at hstep
  · cases hstep
  · rename_i hverifiable
    obtain ⟨hlen,hstates⟩ := states_of_verifiable (Bool.not_eq_true _ ▸ hverifiable)
    split at hstep
    · cases hstep
    · rename_i hfailed
      cases hstep
      have hcreated := eq_singleton_of_toFinset hlen (created_of_startFailedTarget hfailed)
      exact h.addRunning (by simp) (.inr ⟨by simp,hcreated⟩)
    · split at hstep
      · rename_i hrunning
        cases hstep
        have hnew := @addRunning _ _ _ _ h [] (by simp) (.inl (eq_singleton_of_toFinset hlen hrunning))
        rwa [List.append_nil] at hnew
      · rename_i hrunning
        cases hstep
        refine h.addStopped (hstates.imp_right fun hstates => hstates.resolve_left ?_)
        intro heq
        exact hrunning (by simp [heq])

end ServiceRuntime.Divides

/-- Each service is on one side once, and what runs has a name. -/
structure ServiceRuntime.Partitions (services : List Str) (runtime : ServiceRuntime) : Prop where
  nodup : (runtime.running ++ runtime.stopped).Nodup
  mem : ∀ service, service ∈ runtime.running ++ runtime.stopped ↔ service ∈ services
  startFailed : ∀ service ∈ runtime.startFailed, service ∈ runtime.running
  named : [] ∉ runtime.running

theorem initialServiceRuntime_ok {rules : CaseRules} {discovered : List ComposeStack} {ask : RuntimeLookups}
    {stack : ComposeStack} {updateScope : UpdateScope} {matched : List Match} {runtime : InitialRuntime}
    (h : initialServiceRuntime rules discovered ask stack updateScope matched = .ok runtime) :
    ∃ rows, ask.psFormat = some rows ∧ runtime.stackRuntimeState = runtime.history ∧
      runtime.Divides (composeServiceRuntimeStates stack (composeRuntimeServiceStates rules rows))
        (runtimeServicesForScope updateScope) := by
  rw [initialServiceRuntime] at h
  dsimp only at h
  split at h
  · cases h
  · split at h
    · cases h
    · rename_i rows hrows
      obtain ⟨keepOrphans,-,h⟩ := bind_eq_ok.mp h
      obtain ⟨divided,hdivided,h⟩ := bind_eq_ok.mp h
      cases h
      refine ⟨rows,hrows,rfl,?_⟩
      have hall := foldlM_along [] (fun passed service before after hbefore hstep => hbefore.step hstep)
        ServiceRuntime.Divides.start hdivided
      exact hall

theorem initialServiceRuntime_partitions {rules : CaseRules} {discovered : List ComposeStack} {ask : RuntimeLookups}
    {stack : ComposeStack} {updateScope : UpdateScope} {matched : List Match} {runtime : InitialRuntime}
    (h : initialServiceRuntime rules discovered ask stack updateScope matched = .ok runtime) :
    runtime.Partitions (runtimeServicesForScope updateScope) := by
  obtain ⟨rows,-,-,hdivides⟩ := initialServiceRuntime_ok h
  constructor
  · exact hdivides.perm.nodup_iff.mpr (nodup_orderedUnique _)
  · exact fun service => hdivides.perm.mem_iff
  · exact hdivides.startFailed
  · intro hnil
    have hstates := hdivides.running [] hnil
    rw [composeServiceRuntimeStates_nil] at hstates
    simp at hstates

end Wudup
