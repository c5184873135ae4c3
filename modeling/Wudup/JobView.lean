import Wudup.JobStream

/-! What the WebUI shows of the apply jobs: its event stream, the reads that stream errors and reconnects start, and the
store that both of them write. The server's jobs change meanwhile. -/
namespace Wudup
open Library

/-- Status moves from queued over running to an end, and stays there. -/
def ApplyJobStatus.moves : ApplyJobStatus → ApplyJobStatus → Bool
  | .queued,_ => true
  | .running,.queued => false
  | .running,_ => true
  | .success,after => after = .success
  | .failure,after => after = .failure

def ApplyJobProgressStatus.text : ApplyJobProgressStatus → Str
  | .running => "running".toList
  | .success => "success".toList
  | .failure => "failure".toList
  | .skipped => "skipped".toList

/-- Services and line numbers are not part of the key. -/
def progressEventKey (event : ApplyJobProgressEvent) : Str :=
  [Char.ofNat 0].intercalate
    [event.event.createdAt,event.event.phase,event.event.status.text,event.event.stack,event.event.message]

/-- An event source's connection: what the server has sent of the job, and the events on their way. -/
structure JobConnection where
  jobId : Str
  lastVersion : ℤ := -1
  lastProgressCount : ℕ := 0
  queue : List StreamEvent := []
  ends : Bool := false
  deriving DecidableEq

/-- Who reads a job: `recoverOrRefreshApplyJob`, `reconnectObservedApplyJob`, or the answer to an apply. -/
inductive JobReader where
  | recover
  | reconnect
  | apply
  deriving DecidableEq, Repr

/-- A read on its way to the server or, with the job or without one, on its way back. -/
inductive JobRead where
  | requested (reader : JobReader) (jobId : Str)
  | answered (reader : JobReader) (jobId : Str) (job : Option ApplyJobResponse)
  | finished
  deriving DecidableEq

structure ApplyJobRecovery where
  jobId : Str
  runId : Option ℕ
  acknowledged : Bool := false
  deriving DecidableEq, Repr

/-- The server's jobs in the order in which they were registered, those that it has forgotten, the connection of the
open event source, the reads, and the store; then the jobs that were shown as ended, those whose last job event has
come, and the numbers of the shown job and the next one at each change. -/
structure JobView where
  jobs : JobRegistry := []
  gone : List Str := []
  stream : Option JobConnection := none
  reads : List JobRead := []
  applyJob : Option ApplyJobResponse := none
  rememberedApplyJobId : Option Str := none
  rememberedApplyRunId : Option ℕ := none
  applyJobRecoveries : List ApplyJobRecovery := []
  error : Str := []
  ended : List Str := []
  delivered : List Str := []
  replaced : List (ℕ × ℕ) := []

inductive JobViewAction where
  | register (job : WebApplyJob)
  | update (id : Str) (changes : JobChanges)
  | append (id : Str) (event : UpdaterProgressEvent) (createdAt : Str)
  | forget (id : Str)
  | round
  | serve (r : ℕ)
  | event
  | streamError (reconnects : Bool)
  | reconnect
  | apply (id : Str)
  | deliver (r : ℕ)
  | fail (r : ℕ) (message : Str)
  | clear
  | unmount

namespace JobView
variable (s : JobView)

/-! The server -/

/-- What a read finds. -/
def find (id : Str) : Option WebApplyJob := if id ∈ s.gone then none else s.jobs.get id

/-- The number of a job: later ones were registered later. -/
def number (id : Str) : ℕ := (s.jobs.map (·.id)).idxOf id

def register (job : WebApplyJob) : Option JobView :=
  if job.id ∈ s.jobs.map (·.id) then none else some { s with jobs := s.jobs ++ [job] }

def update (id : Str) (changes : JobChanges) : Option JobView :=
  match s.jobs.get id with
  | none => none
  | some job =>
    if job.status.moves (changes.status.getD job.status) then
      some { s with jobs := s.jobs.updateApplyJob id changes }
    else none

/-- The status that ends a job is the last that is said of it. -/
def append (id : Str) (event : UpdaterProgressEvent) (createdAt : Str) : Option JobView :=
  match s.jobs.get id with
  | none => none
  | some job =>
    if job.active then some { s with jobs := s.jobs.appendApplyJobProgress id event createdAt } else none

/-- What the stream's next round sends, of the log and the heartbeats apart. -/
def round : Option JobView :=
  match s.stream with
  | none => none
  | some connection =>
    if connection.ends then none
    else match s.find connection.jobId with
      | none => some { s with stream := some { connection with ends := true } }
      | some job =>
        let snapshot := applyJobStreamSnapshot job connection.lastVersion connection.lastProgressCount
        let sent := snapshot.progressEvents.map .progress ++ snapshot.response.toList.map .job
        let next : JobConnection :=
          ⟨connection.jobId,snapshot.lastVersion,snapshot.lastProgressCount,connection.queue ++ sent,snapshot.terminal⟩
        some { s with stream := some next }

def serve (r : ℕ) : Option JobView :=
  match s.reads[r]? with
  | some (.requested reader id) =>
    some { s with reads := s.reads.set r (.answered reader id ((s.find id).map applyJobResponse)) }
  | _ => none

/-! The store -/

def clearRememberedApplyJobId : JobView := { s with rememberedApplyJobId := none, rememberedApplyRunId := none }

def rememberApplyJob (job : ApplyJobResponse) : JobView :=
  if job.status.terminal then s.clearRememberedApplyJobId
  else { s with rememberedApplyJobId := some job.jobId, rememberedApplyRunId := job.runId }

/-- With a note of what was replaced and of what has ended. -/
def setApplyJob (job : ApplyJobResponse) : JobView :=
  { s.rememberApplyJob job with
    applyJob := some job
    ended := if job.status.terminal then job.jobId :: s.ended else s.ended
    replaced := s.replaced ++ (s.applyJob.map fun shown => (s.number shown.jobId,s.number job.jobId)).toList }

def markApplyJobRecovery (jobId : Str) : JobView :=
  let runId :=
    if s.applyJob.map (·.jobId) = some jobId then s.applyJob.bind (·.runId)
    else if s.rememberedApplyJobId = some jobId then s.rememberedApplyRunId
    else none
  let recoveries :=
    if s.applyJobRecoveries.any (·.jobId = jobId) then s.applyJobRecoveries
    else s.applyJobRecoveries ++ [{ jobId := jobId, runId := runId }]
  let applyJob := if s.applyJob.map (·.jobId) = some jobId then none else s.applyJob
  let marked := { s with applyJobRecoveries := recoveries, applyJob := applyJob }
  if s.rememberedApplyJobId = some jobId then marked.clearRememberedApplyJobId else marked

/-! The view -/

def closeJobStream : JobView := { s with stream := none }

def subscribeApplyJob (jobId : Str) : JobView := { s with stream := some { jobId := jobId } }

def handleJobEvent (job : ApplyJobResponse) : JobView :=
  if job.status.terminal then
    { (s.setApplyJob job).closeJobStream with delivered := job.jobId :: s.delivered }
  else s.setApplyJob job

def handleJobProgressEvent (progress : ApplyJobProgressEvent) : JobView :=
  match s.applyJob with
  | none => s
  | some job =>
    if job.jobId ≠ progress.jobId then s
    else if job.progress.any fun item => progressEventKey item = progressEventKey progress then s
    else s.setApplyJob { job with progress := job.progress ++ [progress] }

/-- What the listeners of the event source do with an event. -/
def handleEvent : StreamEvent → JobView
  | .job job => s.handleJobEvent job
  | .progress progress => s.handleJobProgressEvent progress
  | _ => s

/-- The next event of the stream comes. -/
def event : Option JobView :=
  match s.stream with
  | some ⟨jobId,lastVersion,lastProgressCount,event :: rest,ends⟩ =>
    some (({ s with stream := some ⟨jobId,lastVersion,lastProgressCount,rest,ends⟩ } : JobView).handleEvent event)
  | _ => none

/-- The connection breaks; the event source opens another, or gives up. -/
def streamError (reconnects : Bool) : Option JobView :=
  match s.stream with
  | none => none
  | some connection =>
    if s.applyJob.any (·.status.terminal) then some s.closeJobStream
    else some { s with
      stream := some { jobId := connection.jobId, ends := !reconnects }
      reads := s.reads ++ [.requested .recover connection.jobId] }

def reconnectObservedApplyJob : JobView :=
  match s.rememberedApplyJobId with
  | none => s
  | some id => { s with reads := s.reads ++ [.requested .reconnect id] }

def applyPlan (id : Str) : Option JobView :=
  if id ∈ s.jobs.map (·.id) then some { s with reads := s.reads ++ [.requested .apply id] } else none

/-- The rest of `loadApplyJob` and of what has called it. -/
def receive (reader : JobReader) (jobId : Str) : Option ApplyJobResponse → JobView
  | none =>
    match reader with
    | .recover => (s.markApplyJobRecovery jobId).closeJobStream
    | .reconnect => s.markApplyJobRecovery jobId
    | .apply => s
  | some job =>
    match reader with
    | .recover => if job.status.terminal then (s.setApplyJob job).closeJobStream else s.setApplyJob job
    | .reconnect => if job.status.terminal then s.setApplyJob job else (s.setApplyJob job).subscribeApplyJob job.jobId
    | .apply => (s.setApplyJob job).subscribeApplyJob job.jobId

def deliver (r : ℕ) : Option JobView :=
  match s.reads[r]? with
  | some (.answered reader id job) => some ({ s with reads := s.reads.set r .finished }.receive reader id job)
  | _ => none

def fail (r : ℕ) (message : Str) : Option JobView :=
  match s.reads[r]? with
  | some .finished => none
  | none => none
  | _ => some { s with reads := s.reads.set r .finished, error := message }

def step : System JobView JobViewAction
  | s, .register job => s.register job
  | s, .update id changes => s.update id changes
  | s, .append id event createdAt => s.append id event createdAt
  | s, .forget id => some { s with gone := id :: s.gone }
  | s, .round => s.round
  | s, .serve r => s.serve r
  | s, .event => s.event
  | s, .streamError reconnects => s.streamError reconnects
  | s, .reconnect => some s.reconnectObservedApplyJob
  | s, .apply id => s.applyPlan id
  | s, .deliver r => s.deliver r
  | s, .fail r message => s.fail r message
  | s, .clear => some { s with applyJob := none }
  | s, .unmount => some s.closeJobStream

end JobView
end Wudup
