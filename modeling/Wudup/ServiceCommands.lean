import Wudup.Library.ProgramRefinement
import Wudup.ServiceRuntime

/-! The recreate of a stack and its rollback with the services each Compose command is given. -/
namespace Wudup
open Library Library.Program

/-- The parameters of `docker compose up` besides its services. -/
structure UpOptions where
  wait : Bool := false
  waitTimeout : Option Int := none
  forceRecreate : Bool := false
  noDeps : Bool := true
  noStart : Bool := false
  removeOrphans : Bool := true
  deriving DecidableEq, Repr

/-- A Compose command that acts on containers; the ones that only ask about them are left out. -/
inductive ComposeCommand where
  | up (services : List Str) (options : UpOptions)
  | stop (services : List Str)
  | start (services : List Str)
  | pause (services : List Str)
  | unpause (services : List Str)
  deriving DecidableEq, Repr

namespace ComposeCommand

def services : ComposeCommand → List Str
  | up services _ | stop services | start services | pause services | unpause services => services

/-- Services without a name are not written; a command that names none acts on the whole stack. -/
def serviceArgs (c : ComposeCommand) : List Str := c.services.filter (· ≠ [])

def waitArgs (options : UpOptions) : List String :=
  if options.wait then "--wait" :: options.waitTimeout.elim [] fun limit => ["--wait-timeout",toString limit] else []

/-- What is written between `docker compose` and the services. -/
def composeArgs : ComposeCommand → List String
  | up services options =>
    ["up","-d",if options.removeOrphans then "--remove-orphans" else "--remove-orphans=false"] ++
      ["--pull","never","--no-build"] ++ (if options.forceRecreate then ["--force-recreate"] else []) ++
      (if services ≠ [] ∧ options.noDeps then ["--no-deps"] else []) ++
      (if options.noStart then ["--no-start"] else []) ++ waitArgs options
  | stop _ => ["stop"]
  | start _ => ["start"]
  | pause _ => ["pause"]
  | unpause _ => ["unpause"]

/-- Whether a container may run after the command that did not run before it. -/
def mayStart : ComposeCommand → Bool
  | up _ options => !options.noStart
  | start _ | unpause _ => true
  | stop _ | pause _ => false

theorem noStart_arg {services : List Str} {options : UpOptions} (h : options.noStart = true) :
    "--no-start" ∈ (up services options).composeArgs := by
  rw [composeArgs,if_pos h]
  exact List.mem_append_left _ (List.mem_append_right _ (List.mem_singleton.mpr rfl))

theorem noDeps_arg {services : List Str} {options : UpOptions} (hs : services ≠ []) (h : options.noDeps = true) :
    "--no-deps" ∈ (up services options).composeArgs := by
  rw [composeArgs,if_pos (⟨hs,h⟩ : services ≠ [] ∧ options.noDeps = true)]
  exact List.mem_append_left _ (List.mem_append_left _ (List.mem_append_right _ (List.mem_singleton.mpr rfl)))

/-- What may start is asked of running services only, and of one of them at least; stopped services
are at most recreated, without a start and without their dependencies, or stopped again. -/
structure Preserves (running stopped : List Str) (c : ComposeCommand) : Prop where
  starts : c.mayStart = true → c.serviceArgs ≠ [] ∧ ∀ service ∈ c.serviceArgs, service ∈ running
  keeps : ∀ service ∈ c.serviceArgs, service ∈ stopped →
    c = stop c.services ∨
      (∃ options, c = up c.services options) ∧ "--no-start" ∈ c.composeArgs ∧ "--no-deps" ∈ c.composeArgs
  noDeps : ∀ services options, c = up services options → stopped ≠ [] → "--no-deps" ∈ c.composeArgs

end ComposeCommand

/-- An update of one stack with its scope, the services divided into running and stopped ones. -/
structure ServicePlan extends StackUpdatePlan where
  updateScope : UpdateScope
  keepOrphans : Bool
  maxWait : Int
  disjoint : ∀ service ∈ runningServices, service ∉ stoppedServices
  named : [] ∉ runningServices

namespace ServicePlan

def stopServices (plan : ServicePlan) : Option (List Str) := plan.updateScope.stopServices.or plan.updateScope.services

def runningStopServices (plan : ServicePlan) : List Str :=
  (plan.stopServices.getD []).filter fun service => plan.runningServices.contains service

/-- The services to stop, in the order of the scope when it names some. -/
def servicesToStop (plan : ServicePlan) : List Str :=
  if plan.runningStopServices = [] then plan.runningServices else plan.runningStopServices

def noStartOptions (plan : ServicePlan) : UpOptions where
  forceRecreate := plan.updateScope.forceRecreate
  noStart := true
  removeOrphans := !plan.keepOrphans

/-- While some services stay stopped, dependencies are never started along. -/
def upOptions (plan : ServicePlan) (wait : Bool) : UpOptions where
  wait := wait
  waitTimeout := if wait then some plan.maxWait else none
  forceRecreate := plan.updateScope.forceRecreate
  noDeps := plan.updateScope.upNoDeps || plan.stoppedServices ≠ []
  removeOrphans := !plan.keepOrphans

/-- A plan for the services that an update found running and stopped. -/
def ofRuntime (base : StackUpdatePlan) (updateScope : UpdateScope) (keepOrphans : Bool) (maxWait : Int)
    (runtime : ServiceRuntime) (h : runtime.Partitions (runtimeServicesForScope updateScope)) : ServicePlan where
  toStackUpdatePlan := { base with
    runningServices := runtime.running
    stoppedServices := runtime.stopped
    startFailedServices := runtime.startFailed }
  updateScope := updateScope
  keepOrphans := keepOrphans
  maxWait := maxWait
  disjoint := fun service hr hs => (List.nodup_append.mp h.nodup).2.2 service hr service hs rfl
  named := h.named

theorem mem_servicesToStop {plan : ServicePlan} {service : Str} (h : service ∈ plan.servicesToStop) :
    service ∈ plan.runningServices := by
  rw [servicesToStop] at h
  split at h
  · exact h
  · simpa using (List.mem_filter.mp h).2

theorem servicesToStop_eq_nil {plan : ServicePlan} : plan.servicesToStop = [] ↔ plan.runningServices = [] := by
  rw [servicesToStop]
  split
  · rfl
  · rename_i hsome
    constructor
    · intro hnone
      exact absurd hnone hsome
    · intro hnone
      simp [runningStopServices,hnone]

end ServicePlan

/-- The variables of an operation, with the Compose commands it issued. -/
structure WithCommands (S : Type) where
  state : S
  commands : List ComposeCommand := []
  deriving DecidableEq, Repr

variable {β Hash S α : Type}

/-- The world without the commands that were issued. -/
def World.forget (w : World β Hash (WithCommands S)) : World β Hash S :=
  ⟨w.compose,w.schedule,w.writtenHashes,w.locals.state⟩

def World.recall (w : World β Hash (WithCommands S)) (v : World β Hash S) : World β Hash (WithCommands S) :=
  ⟨v.compose,v.schedule,v.writtenHashes,{ w.locals with state := v.locals }⟩

/-- A part of an update that acts on no container. -/
def quietly (x : Operation β Hash S α) : Operation β Hash (WithCommands S) α := zoom World.forget World.recall x

/-- Runs a Compose command; the result says whether it raised `CommandError`. -/
def issue (c : ComposeCommand) : Operation β Hash (WithCommands S) Bool := do
  assign fun s => { s with commands := s.commands ++ [c] }
  quietly command

/-- The commands an operation issues when it is started in a world. -/
def issued (x : Operation β Hash (WithCommands S) α) (v : World β Hash S) : List ComposeCommand :=
  (exec x ⟨v.compose,v.schedule,v.writtenHashes,{ state := v.locals }⟩).2.locals.commands

/-- The same world, with commands that were all allowed. -/
def Issues (allowed : ComposeCommand → Prop) (w : World β Hash (WithCommands S)) (v : World β Hash S) : Prop :=
  w.forget = v ∧ ∀ c ∈ w.locals.commands, allowed c

section
variable {allowed : ComposeCommand → Prop}

theorem quietly_refines (x : Operation β Hash S α) : Refines (Issues allowed) (quietly x) x := by
  apply Refines.zoom
  · exact fun _ _ h => h.1
  · exact fun _ _ _ h => ⟨rfl,h.2⟩

theorem issue_refines {c : ComposeCommand} (hc : allowed c) :
    Refines (Issues allowed) (issue c : Operation β Hash (WithCommands S) Bool) command := by
  refine Refines.modify_bind (fun w v h => ⟨h.1,?_⟩) (quietly_refines command)
  intro d hd
  obtain hd | hd := List.mem_append.mp hd
  · exact h.2 d hd
  · exact List.mem_singleton.mp hd ▸ hc

/-- An operation that acts like one without commands only issues allowed ones. -/
theorem issued_of_refines {x : Operation β Hash (WithCommands S) α} {y : Operation β Hash S α}
    (h : Refines (Issues allowed) x y) (v : World β Hash S) : ∀ c ∈ issued x v, allowed c :=
  (h _ v ⟨rfl,by simp⟩).2.2

end

namespace ServiceCommands

def restoreServicesStopped (services : List Str) : Operation β Hash (WithCommands S) Unit := do
  let stopped ← issue (.stop services)
  whenever (!stopped) (quietly progress)

def verifyServicesStopped (services : List Str) : Operation β Hash (WithCommands S) UpResult := do
  let runningCids ← quietly (except (do return some (← step).listing) Exn.isCommandError fun _ => pure none)
  if runningCids = some [] then
    return ⟨true,false⟩
  else
    quietly progress
    restoreServicesStopped services
    return ⟨false,false⟩

def runComposeUpNoStart (plan : ServicePlan) (services : List Str) : Operation β Hash (WithCommands S) UpResult := do
  if ← issue (.up services plan.noStartOptions) then
    verifyServicesStopped services
  else
    quietly progress
    return ⟨false,false⟩

def runComposeUp (plan : ServicePlan) (services : List Str) : Operation β Hash (WithCommands S) UpResult := do
  let wait ← quietly (upWait plan.mode)
  if ← issue (.up services (plan.upOptions wait)) then
    return ⟨true,wait⟩
  else
    quietly progress
    return ⟨false,wait⟩

variable [DecidableEq Hash]

abbrev Op (β Hash : Type) := Operation β Hash (WithCommands StackUpdateState)

/-- A command over services, which is not run where there are none. -/
def forServices (services : List Str) (x : List Str → Op β Hash UpResult) : Op β Hash UpResult :=
  if services = [] then return ⟨true,false⟩ else x services

def verifyRestored (plan : ServicePlan) (stopped rollbackUp : UpResult) : Op β Hash UpResult :=
  if stopped.ok && rollbackUp.ok && plan.stoppedServices ≠ [] then verifyServicesStopped plan.stoppedServices
  else return stopped

def restoreTagUpdateServices (plan : ServicePlan) : Op β Hash Bool := do
  let stopped ← forServices plan.stoppedServices (runComposeUpNoStart plan)
  let rollbackUp ← forServices plan.runningServices (runComposeUp plan)
  let stopped ← verifyRestored plan stopped rollbackUp
  if stopped.ok && rollbackUp.ok && plan.runningServices ≠ [] && !rollbackUp.waitHandled then
    quietly waitForHealth
  else
    return stopped.ok && rollbackUp.ok

variable (sha256 : β → Hash)

def handleTagUpdateFailure (plan : ServicePlan) (reason phase : String) : Op β Hash StackStatus := do
  quietly progress
  except (do
    quietly (StackUpdate.restoreWritten sha256)
    let _ ← restoreTagUpdateServices plan
    quietly progress) Exn.isRewriteOrOsError fun _ => quietly progress
  quietly (StackUpdate.recordFailure phase reason)
  quietly StackUpdate.writeTagIncidentLog
  return ⟨.failure,reason⟩

def handleComposeRewriteFailure (plan : ServicePlan) (reason phase : String) : Op β Hash StackStatus := do
  if (← get).forget.locals.composeBackup then
    handleTagUpdateFailure sha256 plan reason phase
  else
    return ⟨.failure,reason⟩

/-- A failure after which the Compose file is rolled back if it was rewritten. -/
def failUpdate (plan : ServicePlan) (reason phase : String) : Op β Hash StackStatus := do
  let w ← get
  if StackUpdate.composeRewriteApplied w.forget && w.forget.locals.composeBackup then
    handleComposeRewriteFailure sha256 plan reason phase
  else
    quietly progress
    quietly (StackUpdate.recordFailure phase reason)
    return ⟨.failure,reason⟩

def prepareForRecreate (plan : ServicePlan) : Op β Hash StopResult := do
  if plan.servicesToStop = [] then
    return {}
  else match plan.mode with
    | .live => return {}
    | .pause => do
      let _ ← issue (.pause plan.servicesToStop)
      return {}
    | .stop => do
      let stopped ← issue (.stop plan.servicesToStop)
      return { failed := !stopped }

/-- Services that stop mode stopped are started again after a failed recreate. -/
def restartServicesStoppedForUpdate (plan : ServicePlan) : Op β Hash Unit :=
  whenever (plan.mode == .stop && plan.servicesToStop ≠ []) do
    let _ ← issue (.start plan.servicesToStop)
    quietly progress

def unpauseAfterRecreate (plan : ServicePlan) (up : UpResult) : Op β Hash (UpResult ⊕ StackStatus) := do
  if plan.mode ≠ .pause ∨ plan.runningServices = [] then
    return .inl up
  else
    quietly progress
    if ← issue (.unpause plan.runningServices) then
      return .inl ⟨up.ok,false⟩
    else
      return .inr (← failUpdate sha256 plan "unpause-failed" "unpause")

def failRecreate (plan : ServicePlan) (stop : StopResult) (restart : Bool) : Op β Hash StackStatus := do
  let w ← get
  if StackUpdate.composeRewriteApplied w.forget && w.forget.locals.composeBackup then
    if stop.failed then handleComposeRewriteFailure sha256 plan "down-failed" stop.phase
    else handleComposeRewriteFailure sha256 plan "up-or-health-failed" "up"
  else
    whenever restart (restartServicesStoppedForUpdate plan)
    whenever stop.failed do
      quietly progress
      quietly (StackUpdate.recordFailure stop.phase "down-failed")
    quietly (StackUpdate.recordFailure "up" "up-or-health-failed")
    quietly progress
    return ⟨.failure,"up-or-health-failed"⟩

def unpausePrepared (plan : ServicePlan) (up : UpResult) (prepared : Bool) : Op β Hash (UpResult ⊕ StackStatus) :=
  if prepared then unpauseAfterRecreate sha256 plan up else return .inl up

def handleComposeUpFailure (plan : ServicePlan) (stop : StopResult) (up : UpResult)
    (prepared restartStopped : Bool) : Op β Hash StackStatus := do
  match ← unpausePrepared sha256 plan up prepared with
  | .inr status => return status
  | .inl _ => failRecreate sha256 plan stop (prepared && restartStopped)

def finishHealthAfterRecreate (plan : ServicePlan) (stop : StopResult) (up : UpResult) : Op β Hash StackStatus := do
  if plan.runningServices = [] then
    quietly progress
    quietly (assign fun s => { s with healthVerified := true })
    quietly progress
    return ⟨.success,"updated"⟩
  else
    if ← quietly (StackUpdate.healthyAfterRecreate up) then
      if stop.failed then
        failUpdate sha256 plan "down-failed" stop.phase
      else
        quietly (assign fun s => { s with healthVerified := true })
        quietly progress
        return ⟨.success,"updated"⟩
    else
      quietly progress
      failUpdate sha256 plan "health-failed" "health"

def verifyAndFinish (plan : ServicePlan) (stop : StopResult) (up : UpResult) : Op β Hash StackStatus := do
  quietly progress
  match ← unpauseAfterRecreate sha256 plan up with
  | .inr status => return status
  | .inl up => finishHealthAfterRecreate sha256 plan stop up

def verifyPreserved (plan : ServicePlan) (stop : StopResult) (up : UpResult) : Op β Hash StackStatus := do
  if plan.stoppedServices = [] then
    verifyAndFinish sha256 plan stop up
  else
    let preserved ← verifyServicesStopped plan.stoppedServices
    if preserved.ok then verifyAndFinish sha256 plan stop up
    else handleComposeUpFailure sha256 plan stop preserved true false

def recreateRunning (plan : ServicePlan) : Op β Hash StackStatus := do
  let stop ← prepareForRecreate plan
  if plan.runningServices = [] then
    verifyPreserved sha256 plan stop ⟨true,false⟩
  else
    let up ← runComposeUp plan plan.runningServices
    if up.ok then verifyPreserved sha256 plan stop up
    else handleComposeUpFailure sha256 plan stop up true true

def recreateAndVerifyStack (plan : ServicePlan) : Op β Hash StackStatus := do
  quietly progress
  if plan.stoppedServices = [] then
    recreateRunning sha256 plan
  else
    let stopped ← runComposeUpNoStart plan plan.stoppedServices
    if stopped.ok then recreateRunning sha256 plan
    else handleComposeUpFailure sha256 plan {} stopped false true

end ServiceCommands

namespace ServicePlan
variable {plan : ServicePlan}

/-- What the plan lets an operation do besides what the one without commands does. -/
abbrev Keeping (plan : ServicePlan) : World β Hash (WithCommands S) → World β Hash S → Prop :=
  Issues (ComposeCommand.Preserves plan.runningServices plan.stoppedServices)

theorem preserves_running {c : ComposeCommand} (hne : c.services ≠ [])
    (hsub : ∀ service ∈ c.services, service ∈ plan.runningServices)
    (hdeps : ∀ services options, c = .up services options → plan.stoppedServices ≠ [] → "--no-deps" ∈ c.composeArgs) :
    c.Preserves plan.runningServices plan.stoppedServices := by
  have hargs : c.serviceArgs = c.services := by
    refine List.filter_eq_self.mpr fun service hservice => ?_
    rw [decide_eq_true_eq]
    exact fun hnil => plan.named (hnil ▸ hsub service hservice)
  refine ⟨fun _ => ?_,fun service hservice hstopped => ?_,hdeps⟩
  · rw [hargs]
    exact ⟨hne,hsub⟩
  · rw [hargs] at hservice
    exact absurd hstopped (plan.disjoint service (hsub service hservice))

theorem preserves_stop {services : List Str} :
    (ComposeCommand.stop services).Preserves plan.runningServices plan.stoppedServices := by
  refine ⟨fun h => ?_,fun _ _ _ => .inl rfl,fun _ _ h => ?_⟩
  · cases h
  · cases h

theorem preserves_up_stopped (hne : plan.stoppedServices ≠ []) :
    (ComposeCommand.up plan.stoppedServices plan.noStartOptions).Preserves plan.runningServices
      plan.stoppedServices := by
  refine ⟨fun h => ?_,fun _ _ _ => .inr ⟨⟨_,rfl⟩,?_,?_⟩,fun _ _ _ _ => ?_⟩
  · cases h
  · exact ComposeCommand.noStart_arg rfl
  · exact ComposeCommand.noDeps_arg hne rfl
  · exact ComposeCommand.noDeps_arg hne rfl

theorem preserves_up_running (hne : plan.runningServices ≠ []) {wait : Bool} :
    (ComposeCommand.up plan.runningServices (plan.upOptions wait)).Preserves plan.runningServices
      plan.stoppedServices := by
  refine preserves_running hne (fun _ h => h) fun _ _ _ hstopped => ComposeCommand.noDeps_arg hne ?_
  simp [upOptions,hstopped]

end ServicePlan

namespace ServiceCommands
variable {plan : ServicePlan}

theorem whenever_refines {c : Bool} {x : Operation β Hash (WithCommands S) Unit} {y : Operation β Hash S Unit}
    (h : c = true → Refines plan.Keeping x y) : Refines plan.Keeping (whenever c x) (whenever c y) :=
  Refines.ite h fun _ => Refines.pure

theorem restoreServicesStopped_refines {services : List Str} :
    Refines plan.Keeping (restoreServicesStopped services : Operation β Hash (WithCommands S) Unit)
      Wudup.restoreServicesStopped := by
  refine Refines.bind (issue_refines plan.preserves_stop) fun stopped => whenever_refines fun _ => ?_
  exact quietly_refines progress

theorem verifyServicesStopped_refines {services : List Str} :
    Refines plan.Keeping (verifyServicesStopped services : Operation β Hash (WithCommands S) UpResult)
      Wudup.verifyServicesStopped := by
  refine Refines.bind (quietly_refines _) fun runningCids => Refines.ite (fun _ => Refines.pure) fun _ => ?_
  refine Refines.bind (quietly_refines progress) fun _ => Refines.bind restoreServicesStopped_refines fun _ => ?_
  exact Refines.pure

theorem runComposeUpNoStart_refines (hne : plan.stoppedServices ≠ []) :
    Refines plan.Keeping (runComposeUpNoStart plan plan.stoppedServices : Operation β Hash (WithCommands S) UpResult)
      Wudup.runComposeUpNoStart := by
  refine Refines.bind (issue_refines (plan.preserves_up_stopped hne)) fun done => Refines.ite (fun _ => ?_) fun _ => ?_
  · exact verifyServicesStopped_refines
  · exact Refines.bind (quietly_refines progress) fun _ => Refines.pure

theorem runComposeUp_refines (hne : plan.runningServices ≠ []) :
    Refines plan.Keeping (runComposeUp plan plan.runningServices : Operation β Hash (WithCommands S) UpResult)
      (Wudup.runComposeUp plan.mode) := by
  refine Refines.bind (quietly_refines _) fun wait => ?_
  refine Refines.bind (issue_refines (plan.preserves_up_running hne)) fun done => Refines.ite (fun _ => Refines.pure) ?_
  exact fun _ => Refines.bind (quietly_refines progress) fun _ => Refines.pure

theorem forServices_refines {services : List Str} {x : List Str → Op β Hash UpResult}
    {y : StackUpdate.Op β Hash UpResult} (h : services ≠ [] → Refines plan.Keeping (x services) y) :
    Refines plan.Keeping (forServices services x) (StackUpdate.forServices services y) :=
  Refines.ite (fun _ => Refines.pure) h

theorem restoreTagUpdateServices_refines :
    Refines plan.Keeping (restoreTagUpdateServices plan : Op β Hash Bool)
      (StackUpdate.restoreTagUpdateServices plan.toStackUpdatePlan) := by
  refine Refines.bind (forServices_refines runComposeUpNoStart_refines) fun stopped => ?_
  refine Refines.bind (forServices_refines runComposeUp_refines) fun rollbackUp => ?_
  refine Refines.bind (Refines.ite (fun _ => verifyServicesStopped_refines) fun _ => Refines.pure) fun stopped => ?_
  exact Refines.ite (fun _ => quietly_refines waitForHealth) fun _ => Refines.pure

theorem preserves_servicesToStop {c : ComposeCommand} (hc : c.services = plan.servicesToStop)
    (hne : plan.servicesToStop ≠ []) (hup : ∀ services options, c ≠ .up services options) :
    c.Preserves plan.runningServices plan.stoppedServices := by
  refine plan.preserves_running (hc ▸ hne) (fun service hservice => ?_) fun services options heq => ?_
  · exact ServicePlan.mem_servicesToStop (hc ▸ hservice)
  · exact absurd heq (hup services options)

theorem prepareForRecreate_refines :
    Refines plan.Keeping (prepareForRecreate plan : Op β Hash StopResult)
      (StackUpdate.prepareForRecreate plan.toStackUpdatePlan) := by
  rw [prepareForRecreate,StackUpdate.prepareForRecreate]
  by_cases hrunning : plan.runningServices = []
  · rw [if_pos hrunning,if_pos (ServicePlan.servicesToStop_eq_nil.mpr hrunning)]
    exact Refines.pure
  · have hne : plan.servicesToStop ≠ [] := fun h => hrunning (ServicePlan.servicesToStop_eq_nil.mp h)
    rw [if_neg hrunning,if_neg hne]
    cases plan.mode with
    | live => exact Refines.pure
    | pause =>
      have hpause := preserves_servicesToStop (c := .pause plan.servicesToStop) rfl hne (by simp)
      exact Refines.bind (issue_refines hpause) fun _ => Refines.pure
    | stop => exact Refines.bind (issue_refines plan.preserves_stop) fun stopped => Refines.pure

theorem restartServicesStoppedForUpdate_refines :
    Refines plan.Keeping (restartServicesStoppedForUpdate plan : Op β Hash Unit)
      (StackUpdate.restartServicesStoppedForUpdate plan.toStackUpdatePlan) := by
  have hwhen : (plan.mode == .stop && decide (plan.servicesToStop ≠ [])) =
      (plan.mode == .stop && decide (plan.runningServices ≠ [])) := by
    simp [ServicePlan.servicesToStop_eq_nil]
  rw [restartServicesStoppedForUpdate,StackUpdate.restartServicesStoppedForUpdate,← hwhen]
  refine whenever_refines fun hstop => ?_
  have hne : plan.servicesToStop ≠ [] := by simpa using (Bool.and_eq_true_iff.mp hstop).2
  have hstart := preserves_servicesToStop (c := .start plan.servicesToStop) rfl hne (by simp)
  exact Refines.bind (issue_refines hstart) fun _ => quietly_refines progress

variable [DecidableEq Hash] (sha256 : β → Hash)

theorem handleTagUpdateFailure_refines {reason phase : String} :
    Refines plan.Keeping (handleTagUpdateFailure sha256 plan reason phase)
      (StackUpdate.handleTagUpdateFailure sha256 plan.toStackUpdatePlan reason phase) := by
  refine Refines.bind (quietly_refines progress) fun _ => Refines.bind (Refines.except ?_ fun _ => ?_) fun _ => ?_
  · refine Refines.bind (quietly_refines _) fun _ => Refines.bind restoreTagUpdateServices_refines fun _ => ?_
    exact quietly_refines progress
  · exact quietly_refines progress
  · refine Refines.bind (quietly_refines _) fun _ => Refines.bind (quietly_refines _) fun _ => ?_
    exact Refines.pure

theorem handleComposeRewriteFailure_refines {reason phase : String} :
    Refines plan.Keeping (handleComposeRewriteFailure sha256 plan reason phase)
      (StackUpdate.handleComposeRewriteFailure sha256 plan.toStackUpdatePlan reason phase) := by
  refine Refines.get_bind fun w v h => ?_
  rw [← h.1]
  exact Refines.ite (fun _ => handleTagUpdateFailure_refines sha256) fun _ => Refines.pure

theorem failUpdate_refines {reason phase : String} :
    Refines plan.Keeping (failUpdate sha256 plan reason phase)
      (StackUpdate.failUpdate sha256 plan.toStackUpdatePlan reason phase) := by
  refine Refines.get_bind fun w v h => ?_
  rw [← h.1]
  refine Refines.ite (fun _ => handleComposeRewriteFailure_refines sha256) fun _ => ?_
  refine Refines.bind (quietly_refines progress) fun _ => Refines.bind (quietly_refines _) fun _ => ?_
  exact Refines.pure

theorem unpauseAfterRecreate_refines {up : UpResult} :
    Refines plan.Keeping (unpauseAfterRecreate sha256 plan up)
      (StackUpdate.unpauseAfterRecreate sha256 plan.toStackUpdatePlan up) := by
  refine Refines.ite (fun _ => Refines.pure) fun hpaused => Refines.bind (quietly_refines progress) fun _ => ?_
  have hunpause := plan.preserves_running (c := .unpause plan.runningServices) (fun h => hpaused (.inr h))
    (fun _ h => h) (by simp)
  refine Refines.bind (issue_refines hunpause) fun unpaused => Refines.ite (fun _ => Refines.pure) fun _ => ?_
  exact Refines.bind (failUpdate_refines sha256) fun status => Refines.pure

theorem failRecreate_refines {stop : StopResult} {restart : Bool} :
    Refines plan.Keeping (failRecreate sha256 plan stop restart)
      (StackUpdate.failRecreate sha256 plan.toStackUpdatePlan stop restart) := by
  refine Refines.get_bind fun w v h => ?_
  rw [← h.1]
  refine Refines.ite (fun _ => ?_) fun _ => ?_
  · exact Refines.ite (fun _ => handleComposeRewriteFailure_refines sha256) fun _ =>
      handleComposeRewriteFailure_refines sha256
  · refine Refines.bind (whenever_refines fun _ => restartServicesStoppedForUpdate_refines) fun _ => ?_
    refine Refines.bind (whenever_refines fun _ => ?_) fun _ => ?_
    · exact Refines.bind (quietly_refines progress) fun _ => quietly_refines _
    refine Refines.bind (quietly_refines _) fun _ => Refines.bind (quietly_refines progress) fun _ => ?_
    exact Refines.pure

theorem handleComposeUpFailure_refines {stop : StopResult} {up : UpResult} {prepared restartStopped : Bool} :
    Refines plan.Keeping (handleComposeUpFailure sha256 plan stop up prepared restartStopped)
      (StackUpdate.handleComposeUpFailure sha256 plan.toStackUpdatePlan stop up prepared restartStopped) := by
  refine Refines.bind (Refines.ite (fun _ => unpauseAfterRecreate_refines sha256) fun _ => Refines.pure) ?_
  intro unpaused
  cases unpaused with
  | inl up => exact failRecreate_refines sha256
  | inr status => exact Refines.pure

theorem finishHealthAfterRecreate_refines {stop : StopResult} {up : UpResult} :
    Refines plan.Keeping (finishHealthAfterRecreate sha256 plan stop up)
      (StackUpdate.finishHealthAfterRecreate sha256 plan.toStackUpdatePlan stop up) := by
  refine Refines.ite (fun _ => ?_) fun _ => ?_
  · refine Refines.bind (quietly_refines progress) fun _ => Refines.bind (quietly_refines _) fun _ => ?_
    exact Refines.bind (quietly_refines progress) fun _ => Refines.pure
  · refine Refines.bind (quietly_refines _) fun healthy => Refines.ite (fun _ => ?_) fun _ => ?_
    · refine Refines.ite (fun _ => failUpdate_refines sha256) fun _ => Refines.bind (quietly_refines _) fun _ => ?_
      exact Refines.bind (quietly_refines progress) fun _ => Refines.pure
    · exact Refines.bind (quietly_refines progress) fun _ => failUpdate_refines sha256

theorem verifyAndFinish_refines {stop : StopResult} {up : UpResult} :
    Refines plan.Keeping (verifyAndFinish sha256 plan stop up)
      (StackUpdate.verifyAndFinish sha256 plan.toStackUpdatePlan stop up) := by
  refine Refines.bind (quietly_refines progress) fun _ => Refines.bind (unpauseAfterRecreate_refines sha256) ?_
  intro unpaused
  cases unpaused with
  | inl up => exact finishHealthAfterRecreate_refines sha256
  | inr status => exact Refines.pure

theorem verifyPreserved_refines {stop : StopResult} {up : UpResult} :
    Refines plan.Keeping (verifyPreserved sha256 plan stop up)
      (StackUpdate.verifyPreserved sha256 plan.toStackUpdatePlan stop up) := by
  refine Refines.ite (fun _ => verifyAndFinish_refines sha256) fun _ => ?_
  refine Refines.bind verifyServicesStopped_refines fun preserved => ?_
  exact Refines.ite (fun _ => verifyAndFinish_refines sha256) fun _ => handleComposeUpFailure_refines sha256

theorem recreateRunning_refines :
    Refines plan.Keeping (recreateRunning sha256 plan) (StackUpdate.recreateRunning sha256 plan.toStackUpdatePlan) := by
  refine Refines.bind prepareForRecreate_refines fun stop => Refines.ite (fun _ => ?_) fun hrunning => ?_
  · exact verifyPreserved_refines sha256
  · refine Refines.bind (runComposeUp_refines hrunning) fun up => ?_
    exact Refines.ite (fun _ => verifyPreserved_refines sha256) fun _ => handleComposeUpFailure_refines sha256

/-- Without its commands the recreate is the one of the stack update, and it issues only allowed ones. -/
theorem recreateAndVerifyStack_refines :
    Refines plan.Keeping (recreateAndVerifyStack sha256 plan)
      (StackUpdate.recreateAndVerifyStack sha256 plan.toStackUpdatePlan) := by
  refine Refines.bind (quietly_refines progress) fun _ => Refines.ite (fun _ => ?_) fun hstopped => ?_
  · exact recreateRunning_refines sha256
  · refine Refines.bind (runComposeUpNoStart_refines hstopped) fun stopped => ?_
    exact Refines.ite (fun _ => recreateRunning_refines sha256) fun _ => handleComposeUpFailure_refines sha256

/-- However the outside answers, the recreate and the rollback after any failed step only start what runs. -/
def KeepsServices (plan : ServicePlan) : Prop :=
  ∀ v : World β Hash StackUpdateState,
    (∀ c ∈ issued (recreateAndVerifyStack sha256 plan) v, c.Preserves plan.runningServices plan.stoppedServices) ∧
    ∀ reason phase, ∀ c ∈ issued (handleTagUpdateFailure sha256 plan reason phase) v,
      c.Preserves plan.runningServices plan.stoppedServices

theorem keepsServices : KeepsServices sha256 plan := fun v =>
  ⟨issued_of_refines (recreateAndVerifyStack_refines sha256) v,
    fun _ _ => issued_of_refines (handleTagUpdateFailure_refines sha256) v⟩

end ServiceCommands

/-- An update is refused, or its services are divided into running and stopped ones, and no command
of the recreate or of a rollback starts a stopped one. -/
theorem stopped_services_stay_stopped [DecidableEq Hash] (sha256 : β → Hash) (rules : CaseRules)
    (discovered : List ComposeStack) (ask : RuntimeLookups) (stack : ComposeStack) (updateScope : UpdateScope)
    (matched : List Match) :
    (∃ refusal, initialServiceRuntime rules discovered ask stack updateScope matched = .error refusal) ∨
    ∃ runtime, initialServiceRuntime rules discovered ask stack updateScope matched = .ok runtime ∧
      (∃ rows, ask.psFormat = some rows ∧
        runtime.Divides (composeServiceRuntimeStates stack (composeRuntimeServiceStates rules rows))
          (runtimeServicesForScope updateScope)) ∧
      ∃ h : runtime.Partitions (runtimeServicesForScope updateScope), ∀ base keepOrphans maxWait,
        ServiceCommands.KeepsServices sha256
          (ServicePlan.ofRuntime base updateScope keepOrphans maxWait runtime.toServiceRuntime h) := by
  cases h : initialServiceRuntime rules discovered ask stack updateScope matched with
  | error refusal => exact .inl ⟨refusal,rfl⟩
  | ok runtime =>
    obtain ⟨rows,hrows,-,hdivides⟩ := initialServiceRuntime_ok h
    have hpartitions := initialServiceRuntime_partitions h
    refine .inr ⟨runtime,rfl,⟨rows,hrows,hdivides⟩,hpartitions,fun base keepOrphans maxWait => ?_⟩
    exact ServiceCommands.keepsServices sha256

namespace ServiceCommands.Example

def stack : ComposeStack where
  index := 1
  directory := "/srv/acme".toList
  file := "compose.yaml".toList
  name := "acme".toList
  images := []
  serviceImages := []
  projectName := "acme".toList

def row (service state : String) : Str :=
  ("/srv/acme\t/srv/acme/compose.yaml\tacme\t" ++ service ++ "\tFalse\t" ++ state).toList

/-- The start of the worker failed before. -/
def ask : RuntimeLookups where
  psFormat := some [row "web" "running",row "db" "exited",row "worker" "created"]
  psQuietChecked := fun _ => some ["c0ffee".toList]
  containerStateError := fun _ => some "port is already allocated".toList

def updateScope : UpdateScope where
  services := none
  pullServices := none
  stopServices := some ["worker".toList,"web".toList,"db".toList]

def found : InitialRuntime where
  running := ["web".toList,"worker".toList]
  stopped := ["db".toList]
  startFailed := ["worker".toList]
  keepOrphans := false
  stackRuntimeState := (["web".toList],["db".toList,"worker".toList])

theorem found_eq : initialServiceRuntime plainCase [stack] ask stack updateScope [] = .ok found := by
  decide +kernel

theorem partitions : found.Partitions (runtimeServicesForScope updateScope) := initialServiceRuntime_partitions found_eq

def plan : ServicePlan := ServicePlan.ofRuntime {} updateScope false 60 found.toServiceRuntime partitions

/-- The database is recreated without a start, and then the other services are stopped and started. -/
example : issued (recreateAndVerifyStack id plan) ⟨⟨([] : Str),[]⟩,[],[],{}⟩ =
    [.up plan.stoppedServices plan.noStartOptions,.stop plan.servicesToStop,
      .up plan.runningServices (plan.upOptions true)] := by
  decide +kernel

theorem acme_keeps_services : initialServiceRuntime plainCase [stack] ask stack updateScope [] = .ok found ∧
    KeepsServices (id : Str → Str) plan := by
  obtain hrefused | ⟨runtime,hruntime,-,h,hkeeps⟩ :=
    stopped_services_stay_stopped (id : Str → Str) plainCase [stack] ask stack updateScope []
  · obtain ⟨refusal,hrefused⟩ := hrefused
    rw [found_eq] at hrefused
    cases hrefused
  · rw [found_eq] at hruntime
    cases hruntime
    exact ⟨found_eq,hkeeps {} false 60⟩

end ServiceCommands.Example
end Wudup
