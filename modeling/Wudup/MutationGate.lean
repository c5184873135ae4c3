import Wudup.JobRegistry
import Wudup.Library.Transition

/-! One mutation at a time: the requests that reserve one, the tasks that run them and the registries they
share. A check outside the lock only turns requests away, so a reservation may come at any time. -/
namespace Wudup
open Library

structure WebSecurityScanJob where
  id : Str
  status : ApplyJobStatus
  deriving DecidableEq, Repr

def WebSecurityScanJob.active (job : WebSecurityScanJob) : Bool := !job.status.terminal

def securityScanJobsKept : ℕ := 20

/-- Finished scans go, the oldest first, while there are more than are kept. -/
def pruneSecurityScanJobs (jobs : List WebSecurityScanJob) : List WebSecurityScanJob :=
  if jobs.length ≤ securityScanJobsKept then jobs
  else Keyed.evict WebSecurityScanJob.id (·.status.terminal) (jobs.length - securityScanJobsKept) jobs

def WebSecurityScanJob.change (job : WebSecurityScanJob) (status : Option ApplyJobStatus) : WebSecurityScanJob :=
  { job with status := status.getD job.status }

/-- Every update of a scan, with a new status or without one, prunes the others. -/
def updateSecurityScanJob (jobs : List WebSecurityScanJob) (id : Str) (status : Option ApplyJobStatus) :
    List WebSecurityScanJob :=
  if (Keyed.find WebSecurityScanJob.id id jobs).isNone then jobs
  else pruneSecurityScanJobs (Keyed.modify WebSecurityScanJob.id id (·.change status) jobs)

/-- A task of an executor that has not ended: whether it has begun. -/
structure JobTask where
  id : Str
  begun : Bool
  deriving DecidableEq, Repr

/-- The shared state, and who is between a reservation and its end: tasks of jobs, requests that update
or restart the container, and scan requests that have yet to submit their task. -/
structure GateState where
  applyJobs : JobRegistry := []
  selfUpdateRunning : Bool := false
  containerRestartRunning : Bool := false
  securityScanJobs : List WebSecurityScanJob := []
  applyTasks : List JobTask := []
  selfUpdates : ℕ := 0
  restarts : ℕ := 0
  scanRequests : List Str := []
  scanTasks : List JobTask := []
  deriving DecidableEq, Repr

inductive GateAction where
  | submitApply (id : Str) (lineNumbers : List ℕ) (submitted : Bool)
  | submitRetag (id : Str) (submitted : Bool)
  | submitTrackingRepair (id : Str) (submitted : Bool)
  | beginJob (id : Str) (startedAt : Str)
  | changeJob (id : Str) (changes : JobChanges)
  | reportProgress (id : Str) (event : UpdaterProgressEvent) (createdAt : Str)
  | endJob (id : Str) (succeeded : Bool) (changes : JobChanges)
  | reserveSelfUpdate
  | releaseSelfUpdate
  | reserveContainerRestart
  | releaseContainerRestart
  | reserveScan (id : Str)
  | submitScan (id : Str) (submitted : Bool)
  | beginScan (id : Str)
  | changeScan (id : Str)
  | endScan (id : Str) (succeeded : Bool)

namespace GateState
variable (s : GateState)

def activeSecurityScanError : Str :=
  if s.securityScanJobs.any (·.active) then "security scan refresh is already running".toList else []

def activeMutationError (includeSecurityScanJobs : Bool) : Str :=
  if s.applyJobs.any (·.active) then "an apply job is already running".toList
  else if s.selfUpdateRunning then "self-update is already running".toList
  else if s.containerRestartRunning then "container restart is already running".toList
  else if includeSecurityScanJobs then s.activeSecurityScanError
  else []

/-- What an endpoint does under the lock to start a job. -/
def submitJob (id : Str) (lineNumbers : List ℕ) (submitted : Bool) : GateState :=
  if s.activeMutationError true ≠ [] then s
  else
    let jobs := s.applyJobs.registerApplyJob { id, status := .queued, selectedLineNumbers := lineNumbers }
    if submitted then { s with applyJobs := jobs, applyTasks := s.applyTasks ++ [⟨id,false⟩] }
    else { s with applyJobs := jobs.remove id }

def submitApplyJobState (id : Str) (lineNumbers : List ℕ) (submitted : Bool) : GateState :=
  s.submitJob id lineNumbers submitted

def submitRetagApplyJob (id : Str) (submitted : Bool) : GateState := s.submitJob id [] submitted

def applyTrackingRepair (id : Str) (submitted : Bool) : GateState := s.submitJob id [] submitted

/-- A reservation is taken when nothing else is active. -/
def reserveMutationState (includeSecurityScanJobs : Bool) (reserve : GateState → GateState) : GateState :=
  if s.activeMutationError includeSecurityScanJobs ≠ [] then s else reserve s

def reserveSelfUpdate : GateState :=
  s.reserveMutationState true fun s => { s with selfUpdateRunning := true, selfUpdates := s.selfUpdates + 1 }

def reserveContainerRestart : GateState :=
  s.reserveMutationState true fun s => { s with containerRestartRunning := true, restarts := s.restarts + 1 }

/-- The scans are looked at once more under their own lock. -/
def reserveScanJob (id : Str) : GateState :=
  s.reserveMutationState false fun s =>
    if s.securityScanJobs.any (·.active) then s
    else { s with
      securityScanJobs := pruneSecurityScanJobs (Keyed.set WebSecurityScanJob.id ⟨id,.queued⟩ s.securityScanJobs)
      scanRequests := s.scanRequests ++ [id] }

/-- Requests, and the steps of tasks that have begun, in any order. -/
def step : System GateState GateAction
  | s, .submitApply id lineNumbers submitted => some (s.submitApplyJobState id lineNumbers submitted)
  | s, .submitRetag id submitted => some (s.submitRetagApplyJob id submitted)
  | s, .submitTrackingRepair id submitted => some (s.applyTrackingRepair id submitted)
  | s, .beginJob id startedAt =>
    if ⟨id,false⟩ ∈ s.applyTasks then
      some { s with
        applyJobs := s.applyJobs.updateApplyJob id { status := some .running, startedAt := some (some startedAt) }
        applyTasks := s.applyTasks.erase ⟨id,false⟩ ++ [⟨id,true⟩] }
    else none
  | s, .changeJob id changes =>
    if ⟨id,true⟩ ∈ s.applyTasks then
      some { s with applyJobs := s.applyJobs.updateApplyJob id { changes with status := none } }
    else none
  | s, .reportProgress id event createdAt =>
    if ⟨id,true⟩ ∈ s.applyTasks then
      some { s with applyJobs := s.applyJobs.appendApplyJobProgress id event createdAt }
    else none
  | s, .endJob id succeeded changes =>
    if ⟨id,true⟩ ∈ s.applyTasks then
      some { s with
        applyJobs := s.applyJobs.updateApplyJob id
          { changes with status := some (if succeeded then .success else .failure) }
        applyTasks := s.applyTasks.erase ⟨id,true⟩ }
    else none
  | s, .reserveSelfUpdate => some s.reserveSelfUpdate
  | s, .releaseSelfUpdate =>
    if 0 < s.selfUpdates then some { s with selfUpdateRunning := false, selfUpdates := s.selfUpdates - 1 } else none
  | s, .reserveContainerRestart => some s.reserveContainerRestart
  | s, .releaseContainerRestart =>
    if 0 < s.restarts then some { s with containerRestartRunning := false, restarts := s.restarts - 1 } else none
  | s, .reserveScan id => some (s.reserveScanJob id)
  | s, .submitScan id submitted =>
    if id ∈ s.scanRequests then
      if submitted then
        some { s with scanRequests := s.scanRequests.erase id, scanTasks := s.scanTasks ++ [⟨id,false⟩] }
      else
        some { s with
          scanRequests := s.scanRequests.erase id
          securityScanJobs := Keyed.remove WebSecurityScanJob.id id s.securityScanJobs }
    else none
  | s, .beginScan id =>
    if ⟨id,false⟩ ∈ s.scanTasks then
      some { s with
        securityScanJobs := updateSecurityScanJob s.securityScanJobs id (some .running)
        scanTasks := s.scanTasks.erase ⟨id,false⟩ ++ [⟨id,true⟩] }
    else none
  | s, .changeScan id =>
    if ⟨id,true⟩ ∈ s.scanTasks then
      some { s with securityScanJobs := updateSecurityScanJob s.securityScanJobs id none }
    else none
  | s, .endScan id succeeded =>
    if ⟨id,true⟩ ∈ s.scanTasks then
      some { s with
        securityScanJobs := updateSecurityScanJob s.securityScanJobs id
          (some (if succeeded then .success else .failure))
        scanTasks := s.scanTasks.erase ⟨id,true⟩ }
    else none

/-! What is active -/

def activeJobs : ℕ := s.applyJobs.countP (·.active)

def activeScans : ℕ := s.securityScanJobs.countP (·.active)

def activeMutations : ℕ := s.activeJobs + s.selfUpdates + s.restarts + s.activeScans

def scanOwners : List Str := s.scanRequests ++ s.scanTasks.map (·.id)

/-- At most one mutation is active, the flags tell of the requests that hold them, and every task or
request in flight owns an active record. -/
structure Gated (s : GateState) : Prop where
  one : s.activeMutations ≤ 1
  selfUpdate : s.selfUpdateRunning = true ↔ 0 < s.selfUpdates
  restart : s.containerRestartRunning = true ↔ 0 < s.restarts
  size : s.applyJobs.length ≤ webApplyJobLimit
  jobs : Keyed.Owned WebApplyJob.id (·.active) s.applyJobs (s.applyTasks.map (·.id))
  scans : Keyed.Owned WebSecurityScanJob.id (·.active) s.securityScanJobs s.scanOwners

variable {s}

theorem activeSecurityScanError_eq_nil : s.activeSecurityScanError = [] ↔ s.activeScans = 0 := by
  rw [activeSecurityScanError,activeScans,List.countP_eq_zero]
  by_cases h : s.securityScanJobs.any (·.active) = true
  · rw [if_pos h]
    obtain ⟨job,hj,ha⟩ := List.any_eq_true.mp h
    simpa using ⟨job,hj,ha⟩
  · rw [if_neg h]
    simpa using h

/-- No error means that nothing is active. -/
theorem activeMutationError_eq_nil {b : Bool} : s.activeMutationError b = [] ↔
    s.activeJobs = 0 ∧ s.selfUpdateRunning = false ∧ s.containerRestartRunning = false ∧
      (b = true → s.activeScans = 0) := by
  have hjobs : s.applyJobs.any (·.active) = false ↔ s.activeJobs = 0 := by
    rw [activeJobs,List.countP_eq_zero]
    simp
  rw [← hjobs,← activeSecurityScanError_eq_nil,activeMutationError]
  cases s.applyJobs.any (·.active) <;> cases s.selfUpdateRunning <;> cases s.containerRestartRunning <;>
    cases b <;> simp

/-- Without an error no request or task is in flight. -/
theorem Gated.nothing (h : s.Gated) {b : Bool} (he : s.activeMutationError b = []) :
    s.activeJobs = 0 ∧ s.applyTasks = [] ∧ s.selfUpdates = 0 ∧ s.restarts = 0 ∧ (b = true → s.activeScans = 0) := by
  obtain ⟨hjobs,hself,hrestart,hscans⟩ := activeMutationError_eq_nil.mp he
  have hself' : ¬0 < s.selfUpdates := fun hp => by simp [h.selfUpdate.mpr hp] at hself
  have hrestart' : ¬0 < s.restarts := fun hp => by simp [h.restart.mpr hp] at hrestart
  exact ⟨hjobs,List.map_eq_nil_iff.mp (h.jobs.idle hjobs),by omega,by omega,hscans⟩

/-! Steps of jobs -/

theorem Gated.withJobs (h : s.Gated) {jobs : JobRegistry} {tasks : List JobTask}
    (ho : Keyed.Owned WebApplyJob.id (·.active) jobs (tasks.map (·.id))) (hsize : jobs.length ≤ webApplyJobLimit)
    (hone : jobs.countP (·.active) + s.selfUpdates + s.restarts + s.activeScans ≤ 1) :
    ({ s with applyJobs := jobs, applyTasks := tasks } : GateState).Gated :=
  ⟨hone,h.selfUpdate,h.restart,hsize,ho,h.scans⟩

theorem Gated.submitJob (h : s.Gated) (id : Str) (lineNumbers : List ℕ) (submitted : Bool) :
    (s.submitJob id lineNumbers submitted).Gated := by
  unfold GateState.submitJob
  split
  · exact h
  · rename_i he
    obtain ⟨hzero,htasks,hself,hrestart,hscans⟩ := h.nothing (not_not.mp he)
    have hscans' := hscans rfl
    have hjobs : ∀ job ∈ s.applyJobs, job.active = false := by
      intro job hj
      simpa using List.countP_eq_zero.mp hzero job hj
    cases submitted with
    | true =>
      rw [htasks]
      apply h.withJobs
      · exact JobRegistry.owned_registerApplyJob hjobs h.jobs.nodup rfl
      · exact JobRegistry.length_registerApplyJob hjobs
      · rw [JobRegistry.countP_registerApplyJob hjobs rfl]
        omega
    | false =>
      have hnodup := @JobRegistry.nodup_registerApplyJob s.applyJobs
        { id, status := .queued, selectedLineNumbers := lineNumbers } h.jobs.nodup
      have hidle := @JobRegistry.remove_registerApplyJob s.applyJobs
        { id, status := .queued, selectedLineNumbers := lineNumbers } hjobs h.jobs.nodup
      apply h.withJobs
      · rw [htasks]
        exact Keyed.Owned.free ((Keyed.remove_sublist.map _).nodup hnodup)
      · exact Nat.le_trans Keyed.remove_sublist.length_le (JobRegistry.length_registerApplyJob hjobs)
      · rw [List.countP_eq_zero.mpr fun other ho => Bool.eq_false_iff.mp (hidle other ho)]
        omega

/-- The only task in flight. -/
theorem Gated.task (h : s.Gated) {task : JobTask} (ht : task ∈ s.applyTasks) : s.applyTasks = [task] := by
  have hone : s.activeJobs ≤ 1 := by
    have := h.one
    unfold activeMutations at this
    omega
  have honly := h.jobs.only hone (List.mem_map_of_mem ht)
  have hlength : s.applyTasks.length = 1 := by simpa using congrArg List.length honly
  obtain ⟨other,hother⟩ := List.length_eq_one_iff.mp hlength
  rw [hother] at ht ⊢
  rw [List.mem_singleton.mp ht]

/-- A task may change its job and keep it active. -/
theorem Gated.changeJob (h : s.Gated) {task : JobTask} (ht : task ∈ s.applyTasks) (task' : JobTask)
    (hid : task'.id = task.id)
    {f : WebApplyJob → WebApplyJob} (hf : ∀ job, (f job).id = job.id)
    (ha : ∀ job, job.active = true → (f job).active = true) :
    ({ s with applyJobs := Keyed.modify WebApplyJob.id task.id f s.applyJobs, applyTasks := [task'] } :
      GateState).Gated := by
  have hjobs := h.jobs
  rw [h.task ht] at hjobs
  obtain ⟨hmodified,hcount⟩ := hjobs.modify (k := task.id) (by simp) hf fun job _ => ha job
  apply h.withJobs
  · simpa [hid] using hmodified
  · simpa [Keyed.modify] using h.size
  · rw [hcount]
    exact h.one

theorem Gated.endJob (h : s.Gated) {task : JobTask} (ht : task ∈ s.applyTasks) {f : WebApplyJob → WebApplyJob}
    (hf : ∀ job, (f job).id = job.id) (ha : ∀ job, (f job).active = false) :
    ({ s with applyJobs := Keyed.modify WebApplyJob.id task.id f s.applyJobs,
              applyTasks := s.applyTasks.erase task } : GateState).Gated := by
  rw [h.task ht,List.erase_cons_head]
  apply h.withJobs
  · apply Keyed.Owned.free
    rw [Keyed.map_modify hf]
    exact h.jobs.nodup
  · simpa [Keyed.modify] using h.size
  · have hle : (Keyed.modify WebApplyJob.id task.id f s.applyJobs).countP (·.active) ≤ s.activeJobs :=
      Keyed.countP_modify_le fun job _ _ hactive => by simp [ha] at hactive
    have hone := h.one
    unfold activeMutations at hone
    omega

/-! Steps of scans -/

theorem Gated.withScans (h : s.Gated) {jobs : List WebSecurityScanJob} {requests : List Str} {tasks : List JobTask}
    (ho : Keyed.Owned WebSecurityScanJob.id (·.active) jobs (requests ++ tasks.map (·.id)))
    (hone : s.activeJobs + s.selfUpdates + s.restarts + jobs.countP (·.active) ≤ 1) :
    ({ s with securityScanJobs := jobs, scanRequests := requests, scanTasks := tasks } : GateState).Gated :=
  ⟨hone,h.selfUpdate,h.restart,h.size,h.jobs,ho⟩

theorem owned_prune {jobs : List WebSecurityScanJob} {owners : List Str}
    (h : Keyed.Owned WebSecurityScanJob.id (·.active) jobs owners) :
    Keyed.Owned WebSecurityScanJob.id (·.active) (pruneSecurityScanJobs jobs) owners ∧
      (pruneSecurityScanJobs jobs).countP (·.active) = jobs.countP (·.active) := by
  have hended : ∀ job : WebSecurityScanJob, job.active = true → job.status.terminal = false := fun job ha => by
    simpa [WebSecurityScanJob.active] using ha
  unfold pruneSecurityScanJobs
  split
  · exact ⟨h,rfl⟩
  · exact ⟨h.evict hended,Keyed.countP_evict h.nodup hended⟩

/-- The only scan in flight. -/
theorem Gated.scan (h : s.Gated) {id : Str} (hid : id ∈ s.scanOwners) : s.scanOwners = [id] := by
  apply h.scans.only _ hid
  have hone := h.one
  unfold activeMutations activeScans at hone
  omega

theorem Gated.scanRequest (h : s.Gated) {id : Str} (hid : id ∈ s.scanRequests) :
    s.scanRequests = [id] ∧ s.scanTasks = [] := by
  have honly := h.scan (List.mem_append_left _ hid)
  obtain ⟨other,rest,hrequests⟩ := List.exists_cons_of_ne_nil (List.ne_nil_of_mem hid)
  simp only [scanOwners,hrequests,List.cons_append,List.cons.injEq,List.append_eq_nil_iff,List.map_eq_nil_iff] at honly
  obtain ⟨rfl,rfl,htasks⟩ := honly
  exact ⟨hrequests,htasks⟩

theorem Gated.scanTask (h : s.Gated) {task : JobTask} (ht : task ∈ s.scanTasks) :
    s.scanRequests = [] ∧ s.scanTasks = [task] := by
  have honly := h.scan (List.mem_append_right _ (List.mem_map_of_mem ht))
  have hlength := congrArg List.length honly
  have hpos := List.length_pos_of_mem ht
  simp only [scanOwners,List.length_append,List.length_map,List.length_singleton] at hlength
  obtain ⟨other,hother⟩ := List.length_eq_one_iff.mp (show s.scanTasks.length = 1 by omega)
  refine ⟨List.eq_nil_of_length_eq_zero (by omega),?_⟩
  rw [hother] at ht ⊢
  rw [List.mem_singleton.mp ht]

theorem Gated.cancelScan (h : s.Gated) {id : Str} (hid : id ∈ s.scanRequests) :
    ({ s with scanRequests := s.scanRequests.erase id,
              securityScanJobs := Keyed.remove WebSecurityScanJob.id id s.securityScanJobs } : GateState).Gated := by
  obtain ⟨hrequests,htasks⟩ := h.scanRequest hid
  apply h.withScans
  · rw [hrequests,htasks]
    simpa using Keyed.Owned.free ((Keyed.remove_sublist.map _).nodup h.scans.nodup)
  · have hle : (Keyed.remove WebSecurityScanJob.id id s.securityScanJobs).countP (·.active) ≤ s.activeScans :=
      Keyed.remove_sublist.countP_le
    have hone := h.one
    unfold activeMutations at hone
    omega

/-- A task may change its scan and keep it active. -/
theorem Gated.changeScan (h : s.Gated) {task : JobTask} (ht : task ∈ s.scanTasks) (task' : JobTask)
    (hid : task'.id = task.id) (status : Option ApplyJobStatus) (hs : ∀ new, status = some new → new = .running) :
    ({ s with securityScanJobs := updateSecurityScanJob s.securityScanJobs task.id status, scanTasks := [task'] } :
      GateState).Gated := by
  obtain ⟨hrequests,htasks⟩ := h.scanTask ht
  have hscans := h.scans
  rw [scanOwners,hrequests,htasks] at hscans
  have hactive : ∀ job : WebSecurityScanJob, job.active = true → (job.change status).active = true := by
    intro job ha
    cases status with
    | none => exact ha
    | some new =>
      obtain rfl := hs new rfl
      rfl
  obtain ⟨hmodified,hcount⟩ := hscans.modify (k := task.id) (f := (·.change status)) (by simp) (fun _ => rfl)
    fun job _ => hactive job
  obtain ⟨hpruned,hcount'⟩ := owned_prune hmodified
  have hone := h.one
  unfold updateSecurityScanJob
  split
  · apply h.withScans
    · simpa [hrequests,hid] using hscans
    · exact hone
  · apply h.withScans
    · simpa [hrequests,hid] using hpruned
    · rw [hcount',hcount]
      exact hone

theorem Gated.endScan (h : s.Gated) {task : JobTask} (ht : task ∈ s.scanTasks) {status : ApplyJobStatus}
    (hs : status.terminal = true) :
    ({ s with securityScanJobs := updateSecurityScanJob s.securityScanJobs task.id (some status),
              scanTasks := s.scanTasks.erase task } : GateState).Gated := by
  obtain ⟨hrequests,htasks⟩ := h.scanTask ht
  let changed := Keyed.modify WebSecurityScanJob.id task.id (·.change (some status)) s.securityScanJobs
  have hkeys : changed.map WebSecurityScanJob.id = s.securityScanJobs.map WebSecurityScanJob.id :=
    Keyed.map_modify fun _ => rfl
  have hnodup : (changed.map WebSecurityScanJob.id).Nodup := hkeys ▸ h.scans.nodup
  have hle : changed.countP (·.active) ≤ s.activeScans := by
    apply Keyed.countP_modify_le
    intro job _ _ hactive
    simp [WebSecurityScanJob.active,WebSecurityScanJob.change,hs] at hactive
  obtain ⟨hpruned,hcount⟩ := owned_prune (Keyed.Owned.free hnodup)
  have hone := h.one
  unfold activeMutations at hone
  rw [htasks,List.erase_cons_head]
  unfold updateSecurityScanJob
  split
  · apply h.withScans
    · simpa [hrequests] using Keyed.Owned.free h.scans.nodup
    · exact hone
  · apply h.withScans
    · simpa [hrequests] using hpruned
    · change s.activeJobs + s.selfUpdates + s.restarts + (pruneSecurityScanJobs changed).countP (·.active) ≤ 1
      omega

/-! Reservations -/

/-- What is reserved is only looked at when nothing else is active. -/
theorem Gated.reserve (h : s.Gated) {b : Bool} {reserve : GateState → GateState}
    (hr : s.activeMutationError b = [] → (reserve s).Gated) : (s.reserveMutationState b reserve).Gated := by
  unfold reserveMutationState
  split
  · exact h
  · rename_i he
    exact hr (not_not.mp he)

theorem Gated.reserveSelfUpdate (h : s.Gated) : s.reserveSelfUpdate.Gated := by
  refine h.reserve fun he => ?_
  obtain ⟨hjobs,-,hself,hrestart,hscans⟩ := h.nothing he
  have hscans' := hscans rfl
  refine ⟨?_,by simp,h.restart,h.size,h.jobs,h.scans⟩
  change s.activeJobs + (s.selfUpdates + 1) + s.restarts + s.activeScans ≤ 1
  omega

theorem Gated.reserveContainerRestart (h : s.Gated) : s.reserveContainerRestart.Gated := by
  refine h.reserve fun he => ?_
  obtain ⟨hjobs,-,hself,hrestart,hscans⟩ := h.nothing he
  have hscans' := hscans rfl
  refine ⟨?_,h.selfUpdate,by simp,h.size,h.jobs,h.scans⟩
  change s.activeJobs + s.selfUpdates + (s.restarts + 1) + s.activeScans ≤ 1
  omega

theorem Gated.reserveScanJob (h : s.Gated) (id : Str) : (s.reserveScanJob id).Gated := by
  refine h.reserve fun he => ?_
  obtain ⟨hjobs,-,hself,hrestart,-⟩ := h.nothing he
  split
  · exact h
  · rename_i hscans
    have hidle : ∀ job ∈ s.securityScanJobs, job.active = false := by simpa using hscans
    have hzero : s.activeScans = 0 := List.countP_eq_zero.mpr fun job hj => Bool.eq_false_iff.mp (hidle job hj)
    obtain ⟨hrequests,htasks⟩ := List.append_eq_nil_iff.mp (h.scans.idle hzero)
    have hactive : WebSecurityScanJob.active ⟨id,.queued⟩ = true := rfl
    obtain ⟨howned,hcount⟩ := owned_prune (Keyed.Owned.start h.scans.nodup hactive hidle)
    apply h.withScans
    · simpa [hrequests,htasks] using howned
    · rw [hcount,Keyed.countP_set hactive hidle]
      omega

/-! Runs -/

theorem gated_step (s : GateState) (action : GateAction) (t : GateState) (h : s.Gated)
    (hs : step s action = some t) : t.Gated := by
  have hone := h.one
  unfold activeMutations at hone
  cases action with
  | submitApply id lineNumbers submitted =>
    cases hs
    exact h.submitJob id lineNumbers submitted
  | submitRetag id submitted =>
    cases hs
    exact h.submitJob id [] submitted
  | submitTrackingRepair id submitted =>
    cases hs
    exact h.submitJob id [] submitted
  | beginJob id startedAt =>
    simp only [step] at hs
    split at hs
    · rename_i ht
      cases hs
      rw [h.task ht,List.erase_cons_head,List.nil_append]
      exact h.changeJob ht ⟨id,true⟩ rfl
        (f := (·.change { status := some .running, startedAt := some (some startedAt) })) (fun _ => rfl)
        fun _ _ => rfl
    · cases hs
  | changeJob id changes =>
    simp only [step] at hs
    split at hs
    · rename_i ht
      cases hs
      have hchanged := h.changeJob ht _ rfl (f := (·.change { changes with status := none })) (fun _ => rfl)
        fun _ ha => ha
      rwa [← h.task ht] at hchanged
    · cases hs
  | reportProgress id event createdAt =>
    simp only [step] at hs
    split at hs
    · rename_i ht
      cases hs
      have hchanged := h.changeJob ht _ rfl (f := (·.append (event.recorded createdAt))) (fun _ => rfl)
        fun _ ha => ha
      rwa [← h.task ht] at hchanged
    · cases hs
  | endJob id succeeded changes =>
    simp only [step] at hs
    split at hs
    · rename_i ht
      cases hs
      exact h.endJob ht (fun _ => rfl) fun _ => by cases succeeded <;> rfl
    · cases hs
  | reserveSelfUpdate =>
    cases hs
    exact h.reserveSelfUpdate
  | releaseSelfUpdate =>
    simp only [step] at hs
    split at hs
    · cases hs
      refine ⟨?_,by simp; omega,h.restart,h.size,h.jobs,h.scans⟩
      change s.activeJobs + (s.selfUpdates - 1) + s.restarts + s.activeScans ≤ 1
      omega
    · cases hs
  | reserveContainerRestart =>
    cases hs
    exact h.reserveContainerRestart
  | releaseContainerRestart =>
    simp only [step] at hs
    split at hs
    · cases hs
      refine ⟨?_,h.selfUpdate,by simp; omega,h.size,h.jobs,h.scans⟩
      change s.activeJobs + s.selfUpdates + (s.restarts - 1) + s.activeScans ≤ 1
      omega
    · cases hs
  | reserveScan id =>
    cases hs
    exact h.reserveScanJob id
  | submitScan id submitted =>
    simp only [step] at hs
    split at hs
    · rename_i hid
      split at hs
      · cases hs
        obtain ⟨hrequests,htasks⟩ := h.scanRequest hid
        apply h.withScans
        · have hscans := h.scans
          rw [scanOwners,hrequests,htasks] at hscans
          simpa [hrequests,htasks] using hscans
        · exact hone
      · cases hs
        exact h.cancelScan hid
    · cases hs
  | beginScan id =>
    simp only [step] at hs
    split at hs
    · rename_i ht
      cases hs
      rw [(h.scanTask ht).2,List.erase_cons_head,List.nil_append]
      exact h.changeScan ht ⟨id,true⟩ rfl (some .running) fun _ he => (Option.some.inj he).symm
    · cases hs
  | changeScan id =>
    simp only [step] at hs
    split at hs
    · rename_i ht
      cases hs
      have hchanged := h.changeScan ht _ rfl none fun _ he => by cases he
      rwa [← (h.scanTask ht).2] at hchanged
    · cases hs
  | endScan id succeeded =>
    simp only [step] at hs
    split at hs
    · rename_i ht
      cases hs
      exact h.endScan ht (by cases succeeded <;> rfl)
    · cases hs

theorem gated_idle : ({} : GateState).Gated := by
  refine ⟨by decide,by decide,by decide,by decide,?_,?_⟩
  · exact Keyed.Owned.free List.nodup_nil
  · exact Keyed.Owned.free List.nodup_nil

theorem submitJob_kept (h : s.Gated) {id : Str} {lineNumbers : List ℕ} {submitted : Bool} {job : WebApplyJob}
    (hj : job ∈ s.applyJobs) (ha : job.active = true) : job ∈ (s.submitJob id lineNumbers submitted).applyJobs := by
  unfold GateState.submitJob
  split
  · exact hj
  · rename_i he
    obtain ⟨hzero,-⟩ := h.nothing (not_not.mp he)
    exact absurd ha (List.countP_eq_zero.mp hzero job hj)

theorem reserveMutationState_jobs {b : Bool} {reserve : GateState → GateState}
    (hr : ∀ s : GateState, (reserve s).applyJobs = s.applyJobs) :
    (s.reserveMutationState b reserve).applyJobs = s.applyJobs := by
  unfold reserveMutationState
  split
  · rfl
  · exact hr s

/-- An active job is in the registry after every step. -/
theorem active_job_kept (h : s.Gated) {action : GateAction} {t : GateState} (hs : step s action = some t)
    {job : WebApplyJob} (hj : job ∈ s.applyJobs) (ha : job.active = true) :
    ∃ job' ∈ t.applyJobs, job'.id = job.id := by
  cases action with
  | submitApply id lineNumbers submitted =>
    cases hs
    exact ⟨job,submitJob_kept h hj ha,rfl⟩
  | submitRetag id submitted =>
    cases hs
    exact ⟨job,submitJob_kept h hj ha,rfl⟩
  | submitTrackingRepair id submitted =>
    cases hs
    exact ⟨job,submitJob_kept h hj ha,rfl⟩
  | beginJob id startedAt =>
    simp only [step] at hs
    split at hs <;> cases hs
    exact JobRegistry.exists_mem_updateApplyJob id _ hj
  | changeJob id changes =>
    simp only [step] at hs
    split at hs <;> cases hs
    exact JobRegistry.exists_mem_updateApplyJob id _ hj
  | reportProgress id event createdAt =>
    simp only [step] at hs
    split at hs <;> cases hs
    exact JobRegistry.exists_mem_appendApplyJobProgress id event createdAt hj
  | endJob id succeeded changes =>
    simp only [step] at hs
    split at hs <;> cases hs
    exact JobRegistry.exists_mem_updateApplyJob id _ hj
  | reserveSelfUpdate =>
    cases hs
    refine ⟨job,?_,rfl⟩
    rw [GateState.reserveSelfUpdate,reserveMutationState_jobs]
    · exact hj
    · exact fun _ => rfl
  | reserveContainerRestart =>
    cases hs
    refine ⟨job,?_,rfl⟩
    rw [GateState.reserveContainerRestart,reserveMutationState_jobs]
    · exact hj
    · exact fun _ => rfl
  | reserveScan id =>
    cases hs
    refine ⟨job,?_,rfl⟩
    rw [GateState.reserveScanJob,reserveMutationState_jobs]
    · exact hj
    · intro s
      split <;> rfl
  | _ =>
    simp only [step] at hs
    repeat' split at hs
    all_goals cases hs
    all_goals exact ⟨job,hj,rfl⟩

/-- In every run at most one mutation is active, the registry of apply jobs keeps to its limit, and no step
evicts an active job from it. -/
theorem one_mutation {actions : List GateAction} {s : GateState} (hr : System.run step {} actions = some s) :
    s.activeMutations ≤ 1 ∧ s.applyJobs.length ≤ webApplyJobLimit + s.activeJobs ∧
      ∀ action t, step s action = some t → ∀ job ∈ s.applyJobs, job.active = true →
        ∃ job' ∈ t.applyJobs, job'.id = job.id := by
  have h := System.run_keeps gated_step gated_idle hr
  refine ⟨h.one,?_,?_⟩
  · have hsize := h.size
    omega
  · exact fun action t hs job hj ha => active_job_kept h hs hj ha

/-! Submissions that fail -/

theorem applyJobs_submitJob_eq_iff {id : Str} {lineNumbers : List ℕ} :
    (s.submitJob id lineNumbers false).applyJobs = s.applyJobs ↔
      s.activeMutationError true ≠ [] ∨ (s.applyJobs.length < webApplyJobLimit ∧ s.applyJobs.get id = none) := by
  unfold GateState.submitJob
  split
  · rename_i he
    exact iff_of_true rfl (.inl he)
  · rename_i he
    have hidle : ∀ job ∈ s.applyJobs, job.active = false := by
      intro job hj
      simpa using List.countP_eq_zero.mp (activeMutationError_eq_nil.mp (not_not.mp he)).1 job hj
    rw [or_iff_right he]
    exact @JobRegistry.remove_registerApplyJob_eq_iff _
      { id, status := .queued, selectedLineNumbers := lineNumbers } hidle

/-- A failed submission leaves the registry as it was exactly when another mutation turned it away, or the registry
had room for a job of its id. -/
theorem failed_submission_undone_iff (s : GateState) (id : Str) (lineNumbers : List ℕ) :
    ((s.submitApplyJobState id lineNumbers false).applyJobs = s.applyJobs ↔
      s.activeMutationError true ≠ [] ∨ (s.applyJobs.length < webApplyJobLimit ∧ s.applyJobs.get id = none)) ∧
    ((s.submitRetagApplyJob id false).applyJobs = s.applyJobs ↔
      s.activeMutationError true ≠ [] ∨ (s.applyJobs.length < webApplyJobLimit ∧ s.applyJobs.get id = none)) :=
  ⟨applyJobs_submitJob_eq_iff,applyJobs_submitJob_eq_iff⟩

/-- A registry at its limit, of finished jobs. -/
def fullRegistry : JobRegistry :=
  (List.range webApplyJobLimit).map fun n =>
    { id := List.replicate n 'j', status := .success, selectedLineNumbers := [] }

/-- The oldest finished job is gone after a submission that failed. -/
theorem failed_submission_evicts : ∃ s : GateState, s.applyJobs.length ≤ webApplyJobLimit ∧
    (s.applyJobs.map (·.id)).Nodup ∧ s.applyJobs.get "new".toList = none ∧
    (s.submitApplyJobState "new".toList [] false).applyJobs = s.applyJobs.tail ∧
    (s.submitRetagApplyJob "new".toList false).applyJobs = s.applyJobs.tail ∧ s.applyJobs.tail ≠ s.applyJobs :=
  ⟨{ applyJobs := fullRegistry },by decide,by decide,by decide,by decide,by decide,by decide⟩

/-- A retag job turns a scan away while it runs, and lets it start when it has ended. -/
def retagThenScan : List GateAction :=
  [.submitRetag "retag".toList true,.reserveScan "early".toList,.beginJob "retag".toList [],
    .endJob "retag".toList true {},.reserveScan "late".toList]

theorem one_mutation_scan :
    ∃ s, System.run step {} retagThenScan = some s ∧ s.activeScans = 1 ∧ s.activeMutations ≤ 1 := by
  have hr : ∃ s, System.run step {} retagThenScan = some s ∧ s.activeScans = 1 := ⟨_,rfl,by decide⟩
  obtain ⟨s,hr,hscans⟩ := hr
  exact ⟨s,hr,hscans,(one_mutation hr).1⟩

end GateState
end Wudup
