import Wudup.Library.Keyed
import Wudup.Models

/-! The registry of the jobs that apply updates, retags and tracking repairs. -/
namespace Wudup
open Library

inductive ApplyJobStatus where
  | queued
  | running
  | success
  | failure
  deriving DecidableEq, Repr

def ApplyJobStatus.terminal : ApplyJobStatus → Bool
  | .success => true
  | .failure => true
  | _ => false

inductive ApplyJobProgressStatus where
  | running
  | success
  | failure
  | skipped
  deriving DecidableEq, Repr

/-- What an updater reports; its status is any text. -/
structure UpdaterProgressEvent where
  phase : Str
  status : Str
  message : Str
  stack : Str := []
  services : List Str := []
  lineNumbers : List ℕ := []
  deriving DecidableEq, Repr

structure WebApplyJobProgressEvent where
  phase : Str
  status : ApplyJobProgressStatus
  message : Str
  createdAt : Str
  stack : Str
  services : List Str
  lineNumbers : List ℕ
  deriving DecidableEq, Repr

structure WebApplyJob where
  id : Str
  status : ApplyJobStatus
  selectedLineNumbers : List ℕ
  version : ℕ := 0
  runId : Option ℕ := none
  logFile : Str := []
  startedAt : Option Str := none
  finishedAt : Option Str := none
  error : Str := []
  progress : List WebApplyJobProgressEvent := []
  deriving DecidableEq, Repr

/-- The fields an update sets. -/
structure JobChanges where
  status : Option ApplyJobStatus := none
  runId : Option (Option ℕ) := none
  logFile : Option Str := none
  startedAt : Option (Option Str) := none
  finishedAt : Option (Option Str) := none
  error : Option Str := none

namespace WebApplyJob

def active (job : WebApplyJob) : Bool := !job.status.terminal

def change (job : WebApplyJob) (changes : JobChanges) : WebApplyJob :=
  { job with
    status := changes.status.getD job.status
    runId := changes.runId.getD job.runId
    logFile := changes.logFile.getD job.logFile
    startedAt := changes.startedAt.getD job.startedAt
    finishedAt := changes.finishedAt.getD job.finishedAt
    error := changes.error.getD job.error
    version := job.version + 1 }

@[simp] theorem change_id (job : WebApplyJob) (changes : JobChanges) : (job.change changes).id = job.id := rfl
@[simp] theorem change_version (job : WebApplyJob) (changes : JobChanges) :
    (job.change changes).version = job.version + 1 := rfl
@[simp] theorem change_progress (job : WebApplyJob) (changes : JobChanges) :
    (job.change changes).progress = job.progress := rfl
@[simp] theorem change_status (job : WebApplyJob) (changes : JobChanges) :
    (job.change changes).status = changes.status.getD job.status := rfl

end WebApplyJob

/-- A status the page does not know counts as running. -/
def progressStatus (status : Str) : ApplyJobProgressStatus :=
  if status = "success".toList then .success
  else if status = "failure".toList then .failure
  else if status = "skipped".toList then .skipped
  else .running

def UpdaterProgressEvent.recorded (event : UpdaterProgressEvent) (createdAt : Str) : WebApplyJobProgressEvent :=
  ⟨event.phase,progressStatus event.status,event.message,createdAt,event.stack,event.services,event.lineNumbers⟩

def WebApplyJob.append (job : WebApplyJob) (event : WebApplyJobProgressEvent) : WebApplyJob :=
  { job with progress := job.progress ++ [event] }

def webApplyJobLimit : ℕ := 20

abbrev JobRegistry := List WebApplyJob

namespace JobRegistry

def get (jobs : JobRegistry) (id : Str) : Option WebApplyJob := Keyed.find WebApplyJob.id id jobs

/-- The oldest finished jobs beyond the limit make room for a new one. -/
def registerApplyJob (jobs : JobRegistry) (job : WebApplyJob) : JobRegistry :=
  Keyed.set WebApplyJob.id job
    (Keyed.evict WebApplyJob.id (·.status.terminal) (jobs.length + 1 - webApplyJobLimit) jobs)

def updateApplyJob (jobs : JobRegistry) (id : Str) (changes : JobChanges) : JobRegistry :=
  Keyed.modify WebApplyJob.id id (·.change changes) jobs

def appendApplyJobProgress (jobs : JobRegistry) (id : Str) (event : UpdaterProgressEvent) (createdAt : Str) :
    JobRegistry :=
  Keyed.modify WebApplyJob.id id (·.append (event.recorded createdAt)) jobs

/-- The job of a submission that failed goes again. -/
def remove (jobs : JobRegistry) (id : Str) : JobRegistry := Keyed.remove WebApplyJob.id id jobs

variable {jobs : JobRegistry} {job other : WebApplyJob}

theorem nodup_registerApplyJob (hn : (jobs.map (·.id)).Nodup) : ((jobs.registerApplyJob job).map (·.id)).Nodup :=
  Keyed.nodup_set ((Keyed.evict_sublist.map _).nodup hn)

theorem exists_mem_updateApplyJob (id : Str) (changes : JobChanges) (hj : job ∈ jobs) :
    ∃ other ∈ jobs.updateApplyJob id changes, other.id = job.id :=
  Keyed.exists_mem_modify (fun _ => rfl) hj

theorem exists_mem_appendApplyJobProgress (id : Str) (event : UpdaterProgressEvent) (createdAt : Str)
    (hj : job ∈ jobs) : ∃ other ∈ jobs.appendApplyJobProgress id event createdAt, other.id = job.id :=
  Keyed.exists_mem_modify (fun _ => rfl) hj

/-! Lookups -/

section
variable {id : Str}

theorem get_registerApplyJob (hid : job.id ≠ id) (h : (jobs.registerApplyJob job).get id = some other) :
    jobs.get id = some other := by
  rw [get,registerApplyJob,Keyed.find_set,if_neg hid] at h
  exact Keyed.find_of_evict h

theorem get_updateApplyJob {target : Str} {changes : JobChanges} :
    (jobs.updateApplyJob target changes).get id =
      if target = id then (jobs.get id).map (·.change changes) else jobs.get id := by
  split
  · rename_i ht
    subst ht
    exact Keyed.find_modify fun _ => rfl
  · rename_i ht
    exact Keyed.find_modify_ne (fun _ => rfl) (Ne.symm ht)

theorem get_appendApplyJobProgress {target : Str} {event : UpdaterProgressEvent} {createdAt : Str} :
    (jobs.appendApplyJobProgress target event createdAt).get id =
      if target = id then (jobs.get id).map (·.append (event.recorded createdAt)) else jobs.get id := by
  split
  · rename_i ht
    subst ht
    exact Keyed.find_modify fun _ => rfl
  · rename_i ht
    exact Keyed.find_modify_ne (fun _ => rfl) (Ne.symm ht)

theorem get_remove {target : Str} (h : (jobs.remove target).get id = some other) : jobs.get id = some other := by
  rw [get,remove,Keyed.find_remove] at h
  split at h
  · cases h
  · exact h

end

section
variable (h : ∀ job ∈ jobs, job.active = false)
include h

theorem evict_idle {count : ℕ} :
    ∀ other ∈ Keyed.evict WebApplyJob.id (·.status.terminal) count jobs, other.active = false :=
  fun other ho => h other (Keyed.evict_sublist.subset ho)

/-- A job that is registered among finished ones is the only active one. -/
theorem countP_registerApplyJob (ha : job.active = true) :
    (jobs.registerApplyJob job).countP (·.active) = 1 :=
  Keyed.countP_set ha (evict_idle h)

theorem owned_registerApplyJob (hn : (jobs.map (·.id)).Nodup) (ha : job.active = true) :
    Keyed.Owned WebApplyJob.id (·.active) (jobs.registerApplyJob job) [job.id] :=
  Keyed.Owned.start ((Keyed.evict_sublist.map _).nodup hn) ha (evict_idle h)

/-- When it goes again, only finished jobs are left. -/
theorem remove_registerApplyJob (hn : (jobs.map (·.id)).Nodup) :
    ∀ other ∈ (jobs.registerApplyJob job).remove job.id, other.active = false := by
  intro other ho
  obtain ⟨hmem,hne⟩ := Keyed.mem_remove.mp ho
  have hset : other = job ∨ _ := (Keyed.mem_set ((Keyed.evict_sublist.map _).nodup hn)).mp hmem
  rcases hset with rfl | ⟨hmem,-⟩
  · exact absurd rfl hne
  · exact evict_idle h other hmem

/-- Among finished jobs, registering keeps to the limit. -/
theorem length_registerApplyJob : (jobs.registerApplyJob job).length ≤ webApplyJobLimit := by
  have hended : ∀ job ∈ jobs, job.status.terminal = true := fun job hj => by simpa [WebApplyJob.active] using h job hj
  have hevict := @Keyed.length_evict_le _ _ _ WebApplyJob.id _ _ (jobs.length + 1 - webApplyJobLimit) hended
  have hset := @Keyed.length_set_le _ _ _ WebApplyJob.id job
    (Keyed.evict WebApplyJob.id (·.status.terminal) (jobs.length + 1 - webApplyJobLimit) jobs)
  have hlimit : webApplyJobLimit = 20 := rfl
  unfold registerApplyJob
  omega

/-- Registering a job and taking it out again leaves the registry as it was only if nothing had to make room. -/
theorem remove_registerApplyJob_eq_iff : (jobs.registerApplyJob job).remove job.id = jobs ↔
    jobs.length < webApplyJobLimit ∧ jobs.get job.id = none := by
  have hlimit : webApplyJobLimit = 20 := rfl
  rw [registerApplyJob,remove,Keyed.remove_set]
  constructor
  · intro heq
    have hsize : jobs.length < webApplyJobLimit := by
      by_contra hfull
      obtain ⟨other,ho⟩ := List.exists_mem_of_length_pos (show 0 < jobs.length by omega)
      obtain ⟨gone,hgone,hevicted⟩ := @Keyed.exists_not_mem_evict _ _ _ WebApplyJob.id other jobs
        (·.status.terminal) (jobs.length + 1 - webApplyJobLimit) ho (by simpa [WebApplyJob.active] using h other ho)
        (by omega)
      rw [← heq] at hgone
      exact hevicted (Keyed.mem_remove.mp hgone).1
    rw [show jobs.length + 1 - webApplyJobLimit = 0 by omega,Keyed.evict_zero] at heq
    exact ⟨hsize,Keyed.remove_eq_self_iff.mp heq⟩
  · rintro ⟨hsize,hid⟩
    rw [show jobs.length + 1 - webApplyJobLimit = 0 by omega,Keyed.evict_zero]
    exact Keyed.remove_eq_self_iff.mpr hid

end

end JobRegistry
end Wudup
