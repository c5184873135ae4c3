import Mathlib.Data.Nat.Cast.Defs
import Wudup.JobRegistry
import Wudup.Library.Transition

/-! The event stream of a job: what it reads under the lock, and what it yields outside it. -/
namespace Wudup
open Library

structure ApplyJobProgressEvent where
  jobId : Str
  event : WebApplyJobProgressEvent
  deriving DecidableEq, Repr

structure ApplyJobResponse where
  jobId : Str
  status : ApplyJobStatus
  runId : Option ℕ
  logFile : Str
  startedAt : Option Str
  finishedAt : Option Str
  error : Str
  selectedLineNumbers : List ℕ
  progress : List ApplyJobProgressEvent
  deriving DecidableEq, Repr

def applyJobResponse (job : WebApplyJob) : ApplyJobResponse where
  jobId := job.id
  status := job.status
  runId := job.runId
  logFile := job.logFile
  startedAt := job.startedAt
  finishedAt := job.finishedAt
  error := job.error
  selectedLineNumbers := job.selectedLineNumbers
  progress := job.progress.map fun event => ⟨job.id,event⟩

structure LogTail where
  fileExists : Bool
  content : Str
  truncated : Bool
  deriving DecidableEq, Repr

structure ApplyJobLogResponse where
  jobId : Str
  logFile : Str
  fileExists : Bool := false
  content : Str := []
  truncated : Bool := false
  maxBytes : ℕ
  error : Str := []
  deriving DecidableEq, Repr

/-- The tail of the log, the detail of an error, or nothing where there is no path. -/
abbrev LogRead := Option (Except Str LogTail)

def applyJobLogResponse (job : ApplyJobResponse) (maxBytes : ℕ) (read : LogRead) : Option ApplyJobLogResponse :=
  if job.logFile = [] then none
  else
    match read with
    | none => none
    | some (.error detail) => some { jobId := job.jobId, logFile := job.logFile, maxBytes, error := detail }
    | some (.ok tail) => some
        { jobId := job.jobId
          logFile := job.logFile
          fileExists := tail.fileExists
          content := tail.content
          truncated := tail.truncated
          maxBytes }

/-- The fields of the log with a hash in the place of its content. -/
def applyJobLogSignature (sha256 : Str → Str) (log : ApplyJobLogResponse) : ApplyJobLogResponse :=
  { log with content := sha256 log.content }

inductive StreamEvent where
  | log (log : ApplyJobLogResponse)
  | progress (event : ApplyJobProgressEvent)
  | job (job : ApplyJobResponse)
  | heartbeat
  deriving DecidableEq, Repr

structure ApplyJobStreamSnapshot where
  job : ApplyJobResponse
  response : Option ApplyJobResponse
  progressEvents : List ApplyJobProgressEvent
  terminal : Bool
  lastVersion : ℤ
  lastProgressCount : ℕ
  deriving DecidableEq, Repr

/-- What is read of a job that is there, once there is no waiting. -/
def applyJobStreamSnapshot (job : WebApplyJob) (lastVersion : ℤ) (lastProgressCount : ℕ) : ApplyJobStreamSnapshot :=
  let jobSnapshot := applyJobResponse job
  let response := if job.version ≠ lastVersion then some jobSnapshot else none
  let progressCount := job.progress.length
  { job := jobSnapshot
    response
    progressEvents := if progressCount > lastProgressCount then jobSnapshot.progress.drop lastProgressCount else []
    terminal := job.status.terminal
    lastVersion := if response.isSome then job.version else lastVersion
    lastProgressCount := max lastProgressCount progressCount }

/-- Between two snapshots, within one, or over: by its own end or because the client has gone. -/
inductive StreamPhase where
  | reading
  | waiting
  | yielding (events : List StreamEvent) (terminal : Bool)
  | ended
  | closed
  deriving DecidableEq, Repr

structure JobStream where
  lastVersion : ℤ := -1
  lastLogSignature : Option ApplyJobLogResponse := none
  terminalLogEmitted : Bool := false
  lastProgressCount : ℕ := 0
  phase : StreamPhase := .reading
  output : List StreamEvent := []
  deriving DecidableEq, Repr

namespace JobStream
variable (sha256 : Str → Str) (maxBytes : ℕ) (stream : JobStream)

/-- The log goes out when it has changed, and once more at the end. -/
def logEvent (snapshot : ApplyJobStreamSnapshot) (read : LogRead) :
    Option ApplyJobLogResponse × Option ApplyJobLogResponse × Bool :=
  match applyJobLogResponse snapshot.job maxBytes read with
  | none => (none,stream.lastLogSignature,stream.terminalLogEmitted)
  | some log =>
    let signature := applyJobLogSignature sha256 log
    if (log.content ≠ [] ∨ log.error ≠ [] ∨ snapshot.terminal) ∧
        (some signature ≠ stream.lastLogSignature ∨ snapshot.terminal ∧ !stream.terminalLogEmitted) then
      (some log,some signature,stream.terminalLogEmitted || snapshot.terminal)
    else (none,stream.lastLogSignature,stream.terminalLogEmitted)

/-- What one round yields. Whether the time for a heartbeat has come is not looked into. -/
def events (snapshot : ApplyJobStreamSnapshot) (log : Option ApplyJobLogResponse) (late : Bool) : List StreamEvent :=
  (if snapshot.terminal then log.toList.map .log else []) ++ snapshot.progressEvents.map .progress ++
    snapshot.response.toList.map .job ++ (if snapshot.terminal then [] else log.toList.map .log) ++
    if snapshot.response.isNone && late then [.heartbeat] else []

def take (job : WebApplyJob) (read : LogRead) (late : Bool) : JobStream :=
  let snapshot := applyJobStreamSnapshot job stream.lastVersion stream.lastProgressCount
  let (log,lastLogSignature,terminalLogEmitted) := stream.logEvent sha256 maxBytes snapshot read
  { stream with
    lastVersion := snapshot.lastVersion
    lastProgressCount := snapshot.lastProgressCount
    lastLogSignature
    terminalLogEmitted
    phase := .yielding (events snapshot log late) snapshot.terminal }

end JobStream

structure StreamState where
  jobs : JobRegistry
  stream : JobStream := {}

inductive StreamAction where
  | register (job : WebApplyJob)
  | update (id : Str) (changes : JobChanges)
  | append (id : Str) (event : UpdaterProgressEvent) (createdAt : Str)
  | remove (id : Str)
  | read (log : LogRead) (late : Bool)
  | wake (log : LogRead) (late : Bool)
  | yield
  | close

/-- The steps that the stream takes by itself. -/
def StreamAction.ofStream : StreamAction → Bool
  | .read .. => true
  | .wake .. => true
  | .yield => true
  | _ => false

namespace StreamState
variable (sha256 : Str → Str) (maxBytes : ℕ) (jobId : Str)

/-- Jobs have fresh ids. A stream that has nothing new to read waits until it is woken or has waited enough. -/
def step : System StreamState StreamAction
  | s, .register job => if (s.jobs.get job.id).isNone then some { s with jobs := s.jobs.registerApplyJob job } else none
  | s, .update id changes => some { s with jobs := s.jobs.updateApplyJob id changes }
  | s, .append id event createdAt => some { s with jobs := s.jobs.appendApplyJobProgress id event createdAt }
  | s, .remove id => some { s with jobs := s.jobs.remove id }
  | s, .read log late =>
    match s.stream.phase with
    | .reading =>
      match s.jobs.get jobId with
      | none => some { s with stream := { s.stream with phase := .ended } }
      | some job =>
        if job.version = s.stream.lastVersion ∧ job.progress.length = s.stream.lastProgressCount then
          some { s with stream := { s.stream with phase := .waiting } }
        else some { s with stream := s.stream.take sha256 maxBytes job log late }
    | _ => none
  | s, .wake log late =>
    match s.stream.phase with
    | .waiting =>
      match s.jobs.get jobId with
      | none => some { s with stream := { s.stream with phase := .ended } }
      | some job => some { s with stream := s.stream.take sha256 maxBytes job log late }
    | _ => none
  | s, .yield =>
    match s.stream.phase with
    | .yielding (event :: rest) terminal => some { s with
        stream := { s.stream with phase := .yielding rest terminal, output := s.stream.output ++ [event] } }
    | .yielding [] terminal => some { s with
        stream := { s.stream with phase := if terminal then .ended else .reading } }
    | _ => none
  | s, .close => some { s with stream := { s.stream with phase := .closed } }

/-- The record of the job is not evicted. -/
def Keeps (s : StreamState) (action : StreamAction) : Prop :=
  ∀ t, step sha256 maxBytes jobId s action = some t → (t.jobs.get jobId).isSome

instance (s : StreamState) (action : StreamAction) : Decidable (Keeps sha256 maxBytes jobId s action) :=
  match h : step sha256 maxBytes jobId s action with
  | none => isTrue fun t ht => by simp [h] at ht
  | some u => decidable_of_iff ((u.jobs.get jobId).isSome = true) (by simp [Keeps,h])

end StreamState

/-- The events that a list of actions appends to the job. -/
def appendedTo (jobId : Str) (actions : List StreamAction) : List WebApplyJobProgressEvent :=
  actions.filterMap fun
    | .append id event createdAt => if id = jobId then some (event.recorded createdAt) else none
    | _ => none

def progressOf (events : List StreamEvent) : List ApplyJobProgressEvent :=
  events.filterMap fun
    | .progress event => some event
    | _ => none

def jobsOf (events : List StreamEvent) : List ApplyJobResponse :=
  events.filterMap fun
    | .job job => some job
    | _ => none

theorem appendedTo_append {jobId : Str} {xs ys : List StreamAction} :
    appendedTo jobId (xs ++ ys) = appendedTo jobId xs ++ appendedTo jobId ys :=
  List.filterMap_append

@[simp] theorem progressOf_append {xs ys : List StreamEvent} : progressOf (xs ++ ys) = progressOf xs ++ progressOf ys :=
  List.filterMap_append

@[simp] theorem jobsOf_append {xs ys : List StreamEvent} : jobsOf (xs ++ ys) = jobsOf xs ++ jobsOf ys :=
  List.filterMap_append

/-! One round -/

section
variable {snapshot : ApplyJobStreamSnapshot} {log : Option ApplyJobLogResponse} {late : Bool}

theorem progressOf_events : progressOf (JobStream.events snapshot log late) = snapshot.progressEvents := by
  have hlog : progressOf (log.toList.map .log) = [] := by cases log <;> rfl
  have hprogress : progressOf (snapshot.progressEvents.map .progress) = snapshot.progressEvents := by
    simp [progressOf,List.filterMap_map]
  have hresponse : progressOf (snapshot.response.toList.map .job) = [] := by cases snapshot.response <;> rfl
  have hlate : progressOf (if snapshot.response.isNone && late then [.heartbeat] else []) = [] := by split <;> rfl
  simp only [JobStream.events,progressOf_append,hprogress,hresponse,hlate]
  have hnil : progressOf [] = [] := rfl
  cases snapshot.terminal <;> simp [hlog,hnil]

theorem jobsOf_events : jobsOf (JobStream.events snapshot log late) = snapshot.response.toList := by
  have hlog : jobsOf (log.toList.map .log) = [] := by cases log <;> rfl
  have hprogress : jobsOf (snapshot.progressEvents.map .progress) = [] := by
    simp [jobsOf,List.filterMap_map]
  have hresponse : jobsOf (snapshot.response.toList.map .job) = snapshot.response.toList := by
    cases snapshot.response <;> rfl
  have hlate : jobsOf (if snapshot.response.isNone && late then [.heartbeat] else []) = [] := by split <;> rfl
  simp only [JobStream.events,jobsOf_append,hprogress,hresponse,hlate]
  have hnil : jobsOf [] = [] := rfl
  cases snapshot.terminal <;> simp [hlog,hnil]

end

end Wudup
