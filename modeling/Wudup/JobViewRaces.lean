import Wudup.JobView
import Wudup.Library.Slots

/-! When the view of an apply job goes back: an answer that another event has overtaken. -/
namespace Wudup
open Library

/-- The job that the store is set to. -/
def StreamEvent.carriedJob : StreamEvent → Option ApplyJobResponse
  | .job response => some response
  | _ => none

def JobRead.carriedJob : JobRead → Option ApplyJobResponse
  | .answered _ _ job => job
  | _ => none

namespace JobView
variable {s t : JobView} {action : JobViewAction}

/-- The job that an action sets the store to: that of a stream's event or of a read's answer. -/
def carried (s : JobView) : JobViewAction → Option ApplyJobResponse
  | .event => (s.stream.bind (·.queue.head?)).bind StreamEvent.carriedJob
  | .deliver r => s.reads[r]?.bind JobRead.carriedJob
  | _ => none

/-- The job has ended or was not shown as ended, and no later job is shown. -/
def Current (s : JobView) (job : ApplyJobResponse) : Prop :=
  (job.status.terminal = false → job.jobId ∉ s.ended) ∧
    ∀ shown, s.applyJob = some shown → s.number shown.jobId ≤ s.number job.jobId

/-- What the action sets the store to was not overtaken. -/
def Timely (s : JobView) (action : JobViewAction) : Prop := ∀ job, s.carried action = some job → s.Current job

/-- A job that was shown as ended is neither shown as active nor remembered, no job was replaced by an earlier one, and
once the last job event of a stream has come the shown progress is the server's. -/
structure Good (s : JobView) : Prop where
  ended : ∀ job, s.applyJob = some job → job.jobId ∈ s.ended → job.status.terminal = true
  remembered : ∀ id, s.rememberedApplyJobId = some id → id ∉ s.ended
  newer : ∀ pair ∈ s.replaced, pair.1 ≤ pair.2
  progress : ∀ job, s.applyJob = some job → job.jobId ∈ s.delivered →
    ∃ record, s.jobs.get job.jobId = some record ∧ (applyJobResponse record).progress = job.progress

/-! What is carried is of the server -/

/-- The server has the job; if it has ended, with this progress. -/
def Holds (s : JobView) (job : ApplyJobResponse) : Prop :=
  ∃ record, s.jobs.get job.jobId = some record ∧
    (job.status.terminal = true → record.status.terminal = true ∧ (applyJobResponse record).progress = job.progress)

def Sends (s : JobView) : StreamEvent → Prop
  | .job job => s.Holds job
  | .progress event => ∃ record, s.jobs.get event.jobId = some record ∧ event ∈ (applyJobResponse record).progress
  | _ => True

structure Tracked (s : JobView) : Prop where
  shown : ∀ job, s.applyJob = some job → s.Holds job
  answered : ∀ (r : ℕ) reader id job, s.reads[r]? = some (.answered reader id (some job)) → s.Holds job
  queued : ∀ connection, s.stream = some connection → ∀ event ∈ connection.queue, s.Sends event
  delivered : ∀ id ∈ s.delivered, id ∈ s.ended

/-- The server's jobs only get on. -/
def Grows (s t : JobView) : Prop :=
  ∀ id record, s.jobs.get id = some record → ∃ after, t.jobs.get id = some after ∧
    (record.status.terminal = true → after.status.terminal = true ∧ after.progress = record.progress) ∧
    ∀ event ∈ record.progress, event ∈ after.progress

theorem get_id {jobs : JobRegistry} {id : Str} {job : WebApplyJob} (h : jobs.get id = some job) : job.id = id :=
  (Keyed.mem_of_find h).2

theorem Grows.holds (h : s.Grows t) {job : ApplyJobResponse} (hs : s.Holds job) : t.Holds job := by
  obtain ⟨record,hget,hterminal⟩ := hs
  obtain ⟨after,hafter,hends,-⟩ := h _ record hget
  refine ⟨after,hafter,fun hjob => ?_⟩
  obtain ⟨hrecord,hprogress⟩ := hterminal hjob
  obtain ⟨hended,hsame⟩ := hends hrecord
  refine ⟨hended,?_⟩
  rw [← hprogress,applyJobResponse,applyJobResponse,hsame,get_id hget,get_id hafter]

theorem Grows.sends (h : s.Grows t) {event : StreamEvent} (hs : s.Sends event) : t.Sends event := by
  cases event with
  | job job => exact h.holds hs
  | progress event =>
    obtain ⟨record,hget,hmem⟩ := hs
    obtain ⟨after,hafter,-,hkept⟩ := h _ record hget
    refine ⟨after,hafter,?_⟩
    obtain ⟨said,hsaid,heq⟩ := List.mem_map.mp hmem
    refine List.mem_map.mpr ⟨said,hkept said hsaid,?_⟩
    rw [← heq,get_id hget,get_id hafter]
  | log log => trivial
  | heartbeat => trivial

theorem Grows.of_jobs (h : t.jobs = s.jobs) : s.Grows t := by
  intro id record hget
  exact ⟨record,h ▸ hget,fun hterminal => ⟨hterminal,rfl⟩,fun _ hevent => hevent⟩

theorem Tracked.kept (h : s.Tracked) (hgrows : s.Grows t)
    (hshown : ∀ job, t.applyJob = some job → s.applyJob = some job ∨ s.Holds job)
    (hanswered : ∀ (r : ℕ) reader id job, t.reads[r]? = some (.answered reader id (some job)) →
      s.reads[r]? = some (.answered reader id (some job)) ∨ s.Holds job)
    (hqueued : ∀ connection, t.stream = some connection → ∀ event ∈ connection.queue,
      (∃ before, s.stream = some before ∧ event ∈ before.queue) ∨ s.Sends event)
    (hdelivered : ∀ id ∈ t.delivered, id ∈ t.ended) : t.Tracked := by
  refine ⟨?_,?_,?_,hdelivered⟩
  · intro job ht
    obtain hs | hs := hshown job ht
    · exact hgrows.holds (h.shown job hs)
    · exact hgrows.holds hs
  · intro r reader id job ht
    obtain hs | hs := hanswered r reader id job ht
    · exact hgrows.holds (h.answered r reader id job hs)
    · exact hgrows.holds hs
  · intro connection ht event hevent
    obtain ⟨before,hs,hmem⟩ | hs := hqueued connection ht event hevent
    · exact hgrows.sends (h.queued before hs event hmem)
    · exact hgrows.sends hs

/-! What the store's setters leave -/

section
variable (s) (job : ApplyJobResponse)

theorem setApplyJob_jobs : (s.setApplyJob job).jobs = s.jobs := by
  unfold setApplyJob rememberApplyJob
  split <;> rfl

theorem setApplyJob_reads : (s.setApplyJob job).reads = s.reads := by
  unfold setApplyJob rememberApplyJob
  split <;> rfl

theorem setApplyJob_stream : (s.setApplyJob job).stream = s.stream := by
  unfold setApplyJob rememberApplyJob
  split <;> rfl

theorem setApplyJob_delivered : (s.setApplyJob job).delivered = s.delivered := by
  unfold setApplyJob rememberApplyJob
  split <;> rfl

theorem setApplyJob_remembered : (s.setApplyJob job).rememberedApplyJobId =
    if job.status.terminal then none else some job.jobId := by
  unfold setApplyJob rememberApplyJob
  split <;> rfl

end

/-! What a step does to the server's jobs -/

theorem moves_of_terminal {before after : ApplyJobStatus} (h : before.moves after = true)
    (hb : before.terminal = true) :
    after = before := by
  cases before <;> simp_all [ApplyJobStatus.moves,ApplyJobStatus.terminal]

theorem grows_register {job : WebApplyJob} (hs : s.register job = some t) : s.Grows t := by
  unfold register at hs
  split at hs
  · cases hs
  · cases hs
    intro id record hget
    have hafter : JobRegistry.get (s.jobs ++ [job]) id = some record := by
      rw [JobRegistry.get,Keyed.find,List.find?_append]
      rw [JobRegistry.get,Keyed.find] at hget
      rw [hget,Option.some_or]
    exact ⟨record,hafter,fun hterminal => ⟨hterminal,rfl⟩,fun _ hevent => hevent⟩

theorem grows_update {id : Str} {changes : JobChanges} (hs : s.update id changes = some t) : s.Grows t := by
  unfold update at hs
  split at hs
  · cases hs
  · rename_i job hjob
    split at hs
    · rename_i hmoves
      cases hs
      intro other record hget
      by_cases hid : id = other
      · subst hid
        rw [hjob] at hget
        cases hget
        refine ⟨job.change changes,?_,?_,fun _ hevent => hevent⟩
        · rw [JobRegistry.get_updateApplyJob,if_pos rfl,hjob,Option.map_some]
        · intro hterminal
          have hsame := moves_of_terminal hmoves hterminal
          rw [WebApplyJob.change_status,hsame]
          exact ⟨hterminal,rfl⟩
      · refine ⟨record,?_,fun hterminal => ⟨hterminal,rfl⟩,fun _ hevent => hevent⟩
        rw [JobRegistry.get_updateApplyJob,if_neg hid,hget]
    · cases hs

theorem grows_append {id createdAt : Str} {event : UpdaterProgressEvent} (hs : s.append id event createdAt = some t) :
    s.Grows t := by
  unfold append at hs
  split at hs
  · cases hs
  · rename_i job hjob
    split at hs
    · rename_i hactive
      cases hs
      intro other record hget
      by_cases hid : id = other
      · subst hid
        rw [hjob] at hget
        cases hget
        refine ⟨job.append (event.recorded createdAt),?_,?_,fun said hsaid => List.mem_append_left _ hsaid⟩
        · rw [JobRegistry.get_appendApplyJobProgress,if_pos rfl,hjob,Option.map_some]
        · intro hterminal
          rw [WebApplyJob.active,hterminal] at hactive
          cases hactive
      · refine ⟨record,?_,fun hterminal => ⟨hterminal,rfl⟩,fun _ hevent => hevent⟩
        rw [JobRegistry.get_appendApplyJobProgress,if_neg hid,hget]
    · cases hs

/-! What a step does to the store -/

/-- The store was set to the job. -/
structure Received (s t : JobView) (job : ApplyJobResponse) : Prop where
  shown : t.applyJob = some job
  remembered : t.rememberedApplyJobId = if job.status.terminal then none else some job.jobId
  ended : t.ended = if job.status.terminal then job.jobId :: s.ended else s.ended
  replaced : t.replaced =
    s.replaced ++ (s.applyJob.map fun shown => (s.number shown.jobId,s.number job.jobId)).toList
  delivered : t.delivered = s.delivered ∨ job.status.terminal = true ∧ t.delivered = job.jobId :: s.delivered

/-- Everything that a step can do to the store. -/
inductive Effect (s : JobView) (action : JobViewAction) (t : JobView) : Prop
  | quiet (hcarried : s.carried action = none) (hshown : t.applyJob = s.applyJob ∨ t.applyJob = none)
    (hremembered : t.rememberedApplyJobId = s.rememberedApplyJobId ∨ t.rememberedApplyJobId = none)
    (hended : t.ended = s.ended) (hreplaced : t.replaced = s.replaced) (hdelivered : t.delivered = s.delivered)
  | progressed {job : ApplyJobResponse} {progress : List ApplyJobProgressEvent} (hcarried : s.carried action = none)
    (hshown : s.applyJob = some job) (hactive : job.status.terminal = false)
    (hreceived : s.Received t { job with progress := progress })
  | received {job : ApplyJobResponse} (hcarried : s.carried action = some job) (hreceived : s.Received t job)

theorem received_setApplyJob (s : JobView) (job : ApplyJobResponse) : s.Received (s.setApplyJob job) job :=
  ⟨rfl,setApplyJob_remembered s job,rfl,rfl,.inl (setApplyJob_delivered s job)⟩

theorem received_handleJobEvent (s : JobView) (job : ApplyJobResponse) : s.Received (s.handleJobEvent job) job := by
  unfold handleJobEvent
  split
  · rename_i hterminal
    exact ⟨rfl,setApplyJob_remembered s job,rfl,rfl,.inr ⟨hterminal,rfl⟩⟩
  · exact received_setApplyJob s job

theorem received_receive (s : JobView) (reader : JobReader) (id : Str) (job : ApplyJobResponse) :
    s.Received (s.receive reader id (some job)) job := by
  have h := received_setApplyJob s job
  cases reader with
  | recover =>
    simp only [receive]
    split
    · exact ⟨h.shown,h.remembered,h.ended,h.replaced,h.delivered⟩
    · exact h
  | reconnect =>
    simp only [receive]
    split
    · exact h
    · exact ⟨h.shown,h.remembered,h.ended,h.replaced,h.delivered⟩
  | apply => exact ⟨h.shown,h.remembered,h.ended,h.replaced,h.delivered⟩

theorem quiet_markApplyJobRecovery (s : JobView) (id : Str) :
    ((s.markApplyJobRecovery id).applyJob = s.applyJob ∨ (s.markApplyJobRecovery id).applyJob = none) ∧
    ((s.markApplyJobRecovery id).rememberedApplyJobId = s.rememberedApplyJobId ∨
      (s.markApplyJobRecovery id).rememberedApplyJobId = none) := by
  have hshown : (if s.applyJob.map (·.jobId) = some id then none else s.applyJob) = s.applyJob ∨
      (if s.applyJob.map (·.jobId) = some id then none else s.applyJob) = none := by
    split
    · exact .inr rfl
    · exact .inl rfl
  unfold markApplyJobRecovery
  dsimp only
  split
  · exact ⟨hshown,.inr rfl⟩
  · exact ⟨hshown,.inl rfl⟩

theorem markApplyJobRecovery_rest (s : JobView) (id : Str) :
    (s.markApplyJobRecovery id).jobs = s.jobs ∧ (s.markApplyJobRecovery id).reads = s.reads ∧
    (s.markApplyJobRecovery id).stream = s.stream ∧ (s.markApplyJobRecovery id).ended = s.ended ∧
    (s.markApplyJobRecovery id).replaced = s.replaced ∧ (s.markApplyJobRecovery id).delivered = s.delivered := by
  unfold markApplyJobRecovery
  dsimp only
  split
  · exact ⟨rfl,rfl,rfl,rfl,rfl,rfl⟩
  · exact ⟨rfl,rfl,rfl,rfl,rfl,rfl⟩

/-- The events of the stream are those of the server: one about an ended job that is shown is known. -/
theorem handleJobProgressEvent_eq (h : s.Tracked) {progress : ApplyJobProgressEvent}
    (hsends : s.Sends (.progress progress)) :
    s.handleJobProgressEvent progress = s ∨ ∃ job, s.applyJob = some job ∧ job.status.terminal = false ∧
      s.handleJobProgressEvent progress = s.setApplyJob { job with progress := job.progress ++ [progress] } := by
  unfold handleJobProgressEvent
  cases hjob : s.applyJob with
  | none => exact .inl rfl
  | some job =>
    dsimp only
    split
    · exact .inl rfl
    · rename_i hid
      split
      · exact .inl rfl
      · rename_i hnew
        refine .inr ⟨job,rfl,?_,rfl⟩
        by_contra hterminal
        rw [Bool.not_eq_false] at hterminal
        obtain ⟨record,hget,hends⟩ := h.shown job hjob
        obtain ⟨other,hother,hmem⟩ := hsends
        rw [← not_not.mp hid,hget] at hother
        cases hother
        rw [(hends hterminal).2] at hmem
        exact hnew (List.any_eq_true.mpr ⟨progress,hmem,by simp⟩)

theorem step_event (hs : s.event = some t) : ∃ jobId lastVersion lastProgressCount event rest ends,
    s.stream = some ⟨jobId,lastVersion,lastProgressCount,event :: rest,ends⟩ ∧ t =
      ({ s with stream := some ⟨jobId,lastVersion,lastProgressCount,rest,ends⟩ } : JobView).handleEvent event := by
  unfold event at hs
  split at hs
  · rename_i jobId lastVersion lastProgressCount event rest ends hstream
    exact ⟨jobId,lastVersion,lastProgressCount,event,rest,ends,hstream,(Option.some.inj hs).symm⟩
  · cases hs

theorem Tracked.take (h : s.Tracked) {jobId : Str} {lastVersion : ℤ} {lastProgressCount : ℕ} {event : StreamEvent}
    {rest : List StreamEvent} {ends : Bool}
    (hstream : s.stream = some ⟨jobId,lastVersion,lastProgressCount,event :: rest,ends⟩) :
    ({ s with stream := some ⟨jobId,lastVersion,lastProgressCount,rest,ends⟩ } : JobView).Tracked := by
  refine h.kept (.of_jobs rfl) (fun _ hs => .inl hs) (fun _ _ _ _ hs => .inl hs) ?_ h.delivered
  intro connection hconnection other hother
  cases hconnection
  exact .inl ⟨_,hstream,List.mem_cons_of_mem _ hother⟩

theorem Tracked.setApplyJob (h : s.Tracked) {job : ApplyJobResponse} (hjob : s.Holds job) :
    (s.setApplyJob job).Tracked := by
  refine h.kept (.of_jobs (setApplyJob_jobs s job)) ?_ ?_ ?_ ?_
  · intro other hother
    cases hother
    exact .inr hjob
  · intro r reader id other hr
    exact .inl (setApplyJob_reads s job ▸ hr)
  · intro connection hconnection event hevent
    exact .inl ⟨connection,setApplyJob_stream s job ▸ hconnection,hevent⟩
  · intro id hid
    rw [setApplyJob_delivered] at hid
    change id ∈ if job.status.terminal then job.jobId :: s.ended else s.ended
    split
    · exact List.mem_cons_of_mem _ (h.delivered id hid)
    · exact h.delivered id hid

/-- Another stream, or none, has nothing on its way. -/
theorem Tracked.setStream (h : s.Tracked) (jobId : Str) (ends : Bool) :
    s.closeJobStream.Tracked ∧ ({ s with stream := some { jobId := jobId, ends := ends } } : JobView).Tracked := by
  constructor
  · exact h.kept (.of_jobs rfl) (fun _ hs => .inl hs) (fun _ _ _ _ hs => .inl hs) (fun _ hs => nomatch hs) h.delivered
  · refine h.kept (.of_jobs rfl) (fun _ hs => .inl hs) (fun _ _ _ _ hs => .inl hs) ?_ h.delivered
    intro connection hconnection event hevent
    cases hconnection
    cases hevent

theorem Tracked.setRead (h : s.Tracked) (r : ℕ) : ({ s with reads := s.reads.set r .finished } : JobView).Tracked := by
  refine h.kept (.of_jobs rfl) (fun _ hs => .inl hs) ?_ (fun c hs _ he => .inl ⟨c,hs,he⟩) h.delivered
  intro k reader id job hk
  obtain ⟨-,heq⟩ | ⟨-,hk⟩ := getElem?_set_cases hk
  · cases heq
  · exact .inl hk

theorem Tracked.request (h : s.Tracked) (reader : JobReader) (id : Str) :
    ({ s with reads := s.reads ++ [.requested reader id] } : JobView).Tracked := by
  refine h.kept (.of_jobs rfl) (fun _ hs => .inl hs) ?_ (fun c hs _ he => .inl ⟨c,hs,he⟩) h.delivered
  intro k other jobId job hk
  obtain ⟨-,heq⟩ | hk := getElem?_concat_cases hk
  · cases heq
  · exact .inl hk

theorem Tracked.markApplyJobRecovery (h : s.Tracked) (id : Str) : (s.markApplyJobRecovery id).Tracked := by
  obtain ⟨hjobs,hreads,hstream,hended,-,hdelivered⟩ := markApplyJobRecovery_rest s id
  obtain ⟨hshown,-⟩ := quiet_markApplyJobRecovery s id
  refine h.kept (.of_jobs hjobs) ?_ (fun _ _ _ _ hr => .inl (hreads ▸ hr)) ?_ ?_
  · intro job hjob
    obtain hsame | hnone := hshown
    · exact .inl (hsame ▸ hjob)
    · rw [hnone] at hjob
      cases hjob
  · exact fun connection hconnection event hevent => .inl ⟨connection,hstream ▸ hconnection,hevent⟩
  · rw [hended,hdelivered]
    exact h.delivered

theorem Tracked.handleJobEvent (h : s.Tracked) {job : ApplyJobResponse} (hjob : s.Holds job) :
    (s.handleJobEvent job).Tracked := by
  have hset := h.setApplyJob hjob
  unfold JobView.handleJobEvent
  split
  · rename_i hterminal
    refine ⟨hset.shown,hset.answered,(fun _ hs => nomatch hs),?_⟩
    intro id hid
    change id ∈ if job.status.terminal then job.jobId :: s.ended else s.ended
    rw [if_pos hterminal]
    obtain rfl | hid := List.mem_cons.mp hid
    · exact List.mem_cons_self
    · exact List.mem_cons_of_mem _ (h.delivered id hid)
  · exact hset

theorem Tracked.handleJobProgressEvent (h : s.Tracked) {progress : ApplyJobProgressEvent}
    (hsends : s.Sends (.progress progress)) : (s.handleJobProgressEvent progress).Tracked := by
  obtain hsame | ⟨job,hjob,hactive,hset⟩ := handleJobProgressEvent_eq h hsends
  · rwa [hsame]
  · rw [hset]
    obtain ⟨record,hget,-⟩ := h.shown job hjob
    refine h.setApplyJob ⟨record,hget,fun hterminal => ?_⟩
    rw [hactive] at hterminal
    cases hterminal

theorem Tracked.receive (h : s.Tracked) (reader : JobReader) (id : Str) {job : Option ApplyJobResponse}
    (hjob : ∀ found, job = some found → s.Holds found) : (s.receive reader id job).Tracked := by
  cases job with
  | none =>
    have hmarked := h.markApplyJobRecovery id
    cases reader with
    | recover => exact (hmarked.setStream id false).1
    | reconnect => exact hmarked
    | apply => exact h
  | some job =>
    have hset := h.setApplyJob (hjob job rfl)
    cases reader with
    | recover =>
      simp only [JobView.receive]
      split
      · exact (hset.setStream id false).1
      · exact hset
    | reconnect =>
      simp only [JobView.receive]
      split
      · exact hset
      · exact (hset.setStream job.jobId false).2
    | apply => exact (hset.setStream job.jobId false).2

theorem get_of_find {id : Str} {record : WebApplyJob} (h : s.find id = some record) : s.jobs.get id = some record := by
  unfold find at h
  split at h
  · cases h
  · exact h

theorem holds_of_get {id : Str} {record : WebApplyJob} (h : s.jobs.get id = some record) :
    s.Holds (applyJobResponse record) := by
  have hid : (applyJobResponse record).jobId = id := get_id h
  exact ⟨record,hid ▸ h,fun hterminal => ⟨hterminal,rfl⟩⟩

theorem tracked_round (h : s.Tracked) (hs : s.round = some t) : t.Tracked := by
  unfold round at hs
  split at hs
  · cases hs
  · rename_i connection hstream
    split at hs
    · cases hs
    · split at hs
      · cases hs
        refine h.kept (.of_jobs rfl) (fun _ hs => .inl hs) (fun _ _ _ _ hs => .inl hs) ?_ h.delivered
        intro next hnext event hevent
        cases hnext
        exact .inl ⟨connection,hstream,hevent⟩
      · rename_i record hfind
        have hget := get_of_find hfind
        cases hs
        refine h.kept (.of_jobs rfl) (fun _ hs => .inl hs) (fun _ _ _ _ hs => .inl hs) ?_ h.delivered
        intro next hnext event hevent
        cases hnext
        obtain hevent | hevent := List.mem_append.mp hevent
        · exact .inl ⟨connection,hstream,hevent⟩
        · right
          obtain hevent | hevent := List.mem_append.mp hevent
          · obtain ⟨progress,hprogress,rfl⟩ := List.mem_map.mp hevent
            have hmem : progress ∈ (applyJobResponse record).progress := by
              simp only [applyJobStreamSnapshot] at hprogress
              split at hprogress
              · exact List.mem_of_mem_drop hprogress
              · cases hprogress
            have hid : progress.jobId = connection.jobId := by
              obtain ⟨said,-,rfl⟩ := List.mem_map.mp hmem
              exact get_id hget
            exact ⟨record,hid ▸ hget,hmem⟩
          · obtain ⟨job,hjob,rfl⟩ := List.mem_map.mp hevent
            have heq : applyJobResponse record = job := by
              simp only [applyJobStreamSnapshot] at hjob
              split at hjob
              · simpa [eq_comm] using hjob
              · cases hjob
            exact heq ▸ holds_of_get hget

theorem tracked_step (h : s.Tracked) (hs : step s action = some t) : t.Tracked := by
  have hserver (hgrows : s.Grows t) (hrest : t = { s with jobs := t.jobs }) : t.Tracked := by
    rw [hrest] at hgrows ⊢
    exact h.kept hgrows (fun _ hs => .inl hs) (fun _ _ _ _ hs => .inl hs) (fun c hs _ he => .inl ⟨c,hs,he⟩) h.delivered
  cases action with
  | register job =>
    refine hserver (grows_register hs) ?_
    simp only [step,register] at hs
    split at hs <;> cases hs
    rfl
  | update id changes =>
    refine hserver (grows_update hs) ?_
    simp only [step,update] at hs
    split at hs
    · cases hs
    · split at hs <;> cases hs
      rfl
  | append id event createdAt =>
    refine hserver (grows_append hs) ?_
    simp only [step,append] at hs
    split at hs
    · cases hs
    · split at hs <;> cases hs
      rfl
  | forget id =>
    cases hs
    exact h.kept (.of_jobs rfl) (fun _ hs => .inl hs) (fun _ _ _ _ hs => .inl hs) (fun c hs _ he => .inl ⟨c,hs,he⟩)
      h.delivered
  | round => exact tracked_round h hs
  | serve r =>
    simp only [step,serve] at hs
    split at hs
    · rename_i reader id hr
      cases hs
      refine h.kept (.of_jobs rfl) (fun _ hs => .inl hs) ?_ (fun c hs _ he => .inl ⟨c,hs,he⟩) h.delivered
      intro k other jobId job hk
      obtain ⟨-,heq⟩ | ⟨-,hk⟩ := getElem?_set_cases hk
      · injection heq with hreader hid hjob
        obtain ⟨record,hfind,rfl⟩ := Option.map_eq_some_iff.mp hjob.symm
        exact .inr (holds_of_get (get_of_find hfind))
      · exact .inl hk
    · cases hs
  | event =>
    obtain ⟨jobId,lastVersion,lastProgressCount,event,rest,ends,hstream,rfl⟩ := step_event hs
    have htaken := h.take hstream
    have hsends : s.Sends event := h.queued _ hstream event List.mem_cons_self
    cases event with
    | job job => exact htaken.handleJobEvent hsends
    | progress progress => exact htaken.handleJobProgressEvent hsends
    | log log => exact htaken
    | heartbeat => exact htaken
  | streamError reconnects =>
    simp only [step,streamError] at hs
    split at hs
    · cases hs
    · rename_i connection _
      split at hs
      · cases hs
        exact (h.setStream [] false).1
      · cases hs
        exact ((h.request .recover connection.jobId).setStream connection.jobId (!reconnects)).2
  | reconnect =>
    cases hs
    unfold reconnectObservedApplyJob
    split
    · exact h
    · exact h.request .reconnect _
  | apply id =>
    simp only [step,applyPlan] at hs
    split at hs <;> cases hs
    exact h.request .apply id
  | deliver r =>
    simp only [step,deliver] at hs
    split at hs
    · rename_i reader id job hr
      cases hs
      exact (h.setRead r).receive reader id fun found hfound => h.answered r reader id found (hfound ▸ hr)
    · cases hs
  | fail r message =>
    simp only [step,fail] at hs
    split at hs
    · cases hs
    · cases hs
    · cases hs
      have hread := h.setRead r
      exact ⟨hread.shown,hread.answered,hread.queued,hread.delivered⟩
  | clear =>
    cases hs
    exact h.kept (.of_jobs rfl) (fun _ hs => nomatch hs) (fun _ _ _ _ hs => .inl hs) (fun c hs _ he => .inl ⟨c,hs,he⟩)
      h.delivered
  | unmount =>
    cases hs
    exact (h.setStream [] false).1

theorem effect_event (h : s.Tracked) (hs : s.event = some t) : Effect s .event t := by
  obtain ⟨jobId,lastVersion,lastProgressCount,event,rest,ends,hstream,rfl⟩ := step_event hs
  have hcarried : s.carried .event = event.carriedJob := by simp [carried,hstream]
  cases event with
  | job job =>
    have hreceived := received_handleJobEvent
      { s with stream := some ⟨jobId,lastVersion,lastProgressCount,rest,ends⟩ } job
    exact .received hcarried
      ⟨hreceived.shown,hreceived.remembered,hreceived.ended,hreceived.replaced,hreceived.delivered⟩
  | progress progress =>
    have htaken := h.take hstream
    have hsends : s.Sends (.progress progress) := h.queued _ hstream _ List.mem_cons_self
    obtain hsame | ⟨job,hjob,hactive,hset⟩ := handleJobProgressEvent_eq htaken hsends
    · rw [handleEvent,hsame]
      exact .quiet hcarried (.inl rfl) (.inl rfl) rfl rfl rfl
    · rw [handleEvent,hset]
      have hreceived := received_setApplyJob { s with stream := some ⟨jobId,lastVersion,lastProgressCount,rest,ends⟩ }
        { job with progress := job.progress ++ [progress] }
      exact .progressed hcarried hjob hactive
        ⟨hreceived.shown,hreceived.remembered,hreceived.ended,hreceived.replaced,hreceived.delivered⟩
  | log log => exact .quiet hcarried (.inl rfl) (.inl rfl) rfl rfl rfl
  | heartbeat => exact .quiet hcarried (.inl rfl) (.inl rfl) rfl rfl rfl

theorem effect_deliver {r : ℕ} (hs : s.deliver r = some t) : Effect s (.deliver r) t := by
  unfold deliver at hs
  split at hs
  · rename_i reader id job hr
    have hcarried : s.carried (.deliver r) = job := by simp [carried,hr,JobRead.carriedJob]
    cases hs
    cases job with
    | some job =>
      have hreceived := received_receive { s with reads := s.reads.set r .finished } reader id job
      exact .received hcarried
        ⟨hreceived.shown,hreceived.remembered,hreceived.ended,hreceived.replaced,hreceived.delivered⟩
    | none =>
      obtain ⟨hshown,hremembered⟩ := quiet_markApplyJobRecovery { s with reads := s.reads.set r .finished } id
      obtain ⟨-,-,-,hended,hreplaced,hdelivered⟩ :=
        markApplyJobRecovery_rest { s with reads := s.reads.set r .finished } id
      cases reader with
      | recover => exact .quiet hcarried hshown hremembered hended hreplaced hdelivered
      | reconnect => exact .quiet hcarried hshown hremembered hended hreplaced hdelivered
      | apply => exact .quiet hcarried (.inl rfl) (.inl rfl) rfl rfl rfl
  · cases hs

theorem effect_step (h : s.Tracked) (hs : step s action = some t) : Effect s action t := by
  have hserver (hcarried : s.carried action = none) (hrest : t = { s with jobs := t.jobs }) : Effect s action t := by
    rw [hrest]
    exact .quiet hcarried (.inl rfl) (.inl rfl) rfl rfl rfl
  cases action with
  | register job =>
    apply hserver rfl
    simp only [step,register] at hs
    split at hs <;> cases hs
    rfl
  | update id changes =>
    apply hserver rfl
    simp only [step,update] at hs
    split at hs
    · cases hs
    · split at hs <;> cases hs
      rfl
  | append id event createdAt =>
    apply hserver rfl
    simp only [step,append] at hs
    split at hs
    · cases hs
    · split at hs <;> cases hs
      rfl
  | forget id =>
    cases hs
    exact .quiet rfl (.inl rfl) (.inl rfl) rfl rfl rfl
  | round =>
    simp only [step,round] at hs
    split at hs
    · cases hs
    · split at hs
      · cases hs
      · split at hs <;>
        · cases hs
          exact .quiet rfl (.inl rfl) (.inl rfl) rfl rfl rfl
  | serve r =>
    simp only [step,serve] at hs
    split at hs <;> cases hs
    exact .quiet rfl (.inl rfl) (.inl rfl) rfl rfl rfl
  | event => exact effect_event h hs
  | streamError reconnects =>
    simp only [step,streamError] at hs
    split at hs
    · cases hs
    · split at hs <;>
      · cases hs
        exact .quiet rfl (.inl rfl) (.inl rfl) rfl rfl rfl
  | reconnect =>
    cases hs
    unfold reconnectObservedApplyJob
    split
    · exact .quiet rfl (.inl rfl) (.inl rfl) rfl rfl rfl
    · exact .quiet rfl (.inl rfl) (.inl rfl) rfl rfl rfl
  | apply id =>
    simp only [step,applyPlan] at hs
    split at hs <;> cases hs
    exact .quiet rfl (.inl rfl) (.inl rfl) rfl rfl rfl
  | deliver r => exact effect_deliver hs
  | fail r message =>
    simp only [step,fail] at hs
    split at hs <;> cases hs
    exact .quiet rfl (.inl rfl) (.inl rfl) rfl rfl rfl
  | clear =>
    cases hs
    exact .quiet rfl (.inr rfl) (.inl rfl) rfl rfl rfl
  | unmount =>
    cases hs
    exact .quiet rfl (.inl rfl) (.inl rfl) rfl rfl rfl

/-! What holds of every run -/

/-- The progress of a job that was shown as ended is the server's. -/
theorem Tracked.good (h : s.Tracked)
    (hended : ∀ job, s.applyJob = some job → job.jobId ∈ s.ended → job.status.terminal = true)
    (hremembered : ∀ id, s.rememberedApplyJobId = some id → id ∉ s.ended)
    (hnewer : ∀ pair ∈ s.replaced, pair.1 ≤ pair.2) : s.Good := by
  refine ⟨hended,hremembered,hnewer,?_⟩
  intro job hjob hdelivered
  obtain ⟨record,hget,hprogress⟩ := h.shown job hjob
  exact ⟨record,hget,(hprogress (hended job hjob (h.delivered _ hdelivered))).2⟩

theorem Effect.good_iff (htracked : t.Tracked) (h : s.Good) (he : Effect s action t) : t.Good ↔ s.Timely action := by
  cases he with
  | quiet hcarried hshown hremembered hended hreplaced hdelivered =>
    refine iff_of_true (htracked.good ?_ ?_ (hreplaced ▸ h.newer)) ?_
    · intro job hjob
      obtain hsame | hnone := hshown
      · exact hended ▸ h.ended job (hsame ▸ hjob)
      · rw [hnone] at hjob
        cases hjob
    · intro id hid
      obtain hsame | hnone := hremembered
      · exact hended ▸ h.remembered id (hsame ▸ hid)
      · rw [hnone] at hid
        cases hid
    · intro job hjob
      rw [hcarried] at hjob
      cases hjob
  | @progressed job progress hcarried hshown hactive hreceived =>
    have hnot : job.jobId ∉ s.ended := by
      intro hmem
      rw [h.ended job hshown hmem] at hactive
      cases hactive
    have hended : t.ended = s.ended := by
      rw [hreceived.ended,if_neg]
      simp [hactive]
    refine iff_of_true (htracked.good ?_ ?_ ?_) ?_
    · intro other hother hmem
      rw [hreceived.shown] at hother
      cases hother
      exact (hnot (hended ▸ hmem)).elim
    · intro id hid
      rw [hreceived.remembered,if_neg (by simp [hactive])] at hid
      cases hid
      rwa [hended]
    · rw [hreceived.replaced,hshown]
      intro pair hpair
      obtain hpair | hpair := List.mem_append.mp hpair
      · exact h.newer pair hpair
      · obtain rfl := List.mem_singleton.mp hpair
        exact Nat.le_refl _
    · intro other hother
      rw [hcarried] at hother
      cases hother
  | @received job hcarried hreceived =>
    have htimely : s.Timely action ↔ s.Current job := by
      constructor
      · exact fun hthis => hthis job hcarried
      · intro hcurrent other hother
        rw [hcarried] at hother
        cases hother
        exact hcurrent
    rw [htimely]
    constructor
    · intro hgood
      constructor
      · intro hactive hmem
        have hended : job.jobId ∈ t.ended := by
          rw [hreceived.ended,if_neg (by simp [hactive])]
          exact hmem
        rw [hgood.ended job hreceived.shown hended] at hactive
        cases hactive
      · intro shown hshown
        apply hgood.newer (s.number shown.jobId,s.number job.jobId)
        rw [hreceived.replaced,hshown]
        exact List.mem_append_right _ List.mem_cons_self
    · rintro ⟨hactive,hnewer⟩
      refine htracked.good ?_ ?_ ?_
      · intro other hother hmem
        rw [hreceived.shown] at hother
        cases hother
        by_contra hterminal
        rw [Bool.not_eq_true] at hterminal
        rw [hreceived.ended,if_neg (by simp [hterminal])] at hmem
        exact hactive hterminal hmem
      · intro id hid
        rw [hreceived.remembered] at hid
        split at hid
        · cases hid
        · rename_i hterminal
          cases hid
          rw [hreceived.ended,if_neg hterminal]
          exact hactive (by simpa using hterminal)
      · rw [hreceived.replaced]
        intro pair hpair
        obtain hpair | hpair := List.mem_append.mp hpair
        · exact h.newer pair hpair
        · obtain ⟨shown,hshown,rfl⟩ := Option.map_eq_some_iff.mp (Option.mem_toList.mp hpair)
          exact hnewer shown hshown

/-- No job was shown yet; one may be remembered from before. -/
structure Unobserved (s : JobView) : Prop where
  applyJob : s.applyJob = none
  stream : s.stream = none
  reads : s.reads = []
  ended : s.ended = []
  delivered : s.delivered = []
  replaced : s.replaced = []

theorem Unobserved.tracked (h : s.Unobserved) : s.Tracked := by
  refine ⟨?_,?_,?_,?_⟩
  · simp [h.applyJob]
  · simp [h.reads]
  · simp [h.stream]
  · simp [h.delivered]

theorem Unobserved.good (h : s.Unobserved) : s.Good := by
  refine ⟨?_,?_,?_,?_⟩
  · simp [h.applyJob]
  · simp [h.ended]
  · simp [h.replaced]
  · simp [h.applyJob]

/-- In every state of a run the view has not gone back, exactly if no answer or event that set the store was
overtaken. -/
theorem view_kept_iff {start : JobView} {actions : List JobViewAction} (hstart : start.Unobserved)
    (hr : System.run step start actions = some t) :
    System.Along step Timely start actions ↔
      ∀ before after s, actions = before ++ after → System.run step start before = some s → s.Good := by
  apply System.along_iff (I := Tracked) _ _ hstart.tracked hstart.good hr
  · exact fun s action t htracked hs => tracked_step htracked hs
  · exact fun s action t htracked hgood hs => (effect_step htracked hs).good_iff (tracked_step htracked hs) hgood

def queuedJob (id : Str) : WebApplyJob := { id := id, status := .queued, selectedLineNumbers := [1] }

/-- A job is applied, and the answer shown. -/
def appliedJob : List JobViewAction := [.register (queuedJob ['a']),.apply ['a'],.serve 0,.deliver 0]

theorem view_kept_iff_applied :
    ∃ s, System.run step ({} : JobView) appliedJob = some s ∧ s.rememberedApplyJobId = some ['a'] ∧ s.Good := by
  have hstart : ({} : JobView).Unobserved := ⟨rfl,rfl,rfl,rfl,rfl,rfl⟩
  obtain ⟨s,hs⟩ : ∃ s, System.run step ({} : JobView) appliedJob = some s := ⟨_,rfl⟩
  have htimely : System.Along step Timely ({} : JobView) appliedJob := by
    refine ⟨nofun,fun t ht => ?_⟩
    cases ht
    refine ⟨nofun,fun t ht => ?_⟩
    cases ht
    refine ⟨nofun,fun t ht => ?_⟩
    cases ht
    refine ⟨?_,fun _ _ => trivial⟩
    intro job hjob
    cases hjob
    exact ⟨fun _ => List.not_mem_nil,nofun⟩
  refine ⟨s,hs,?_,(view_kept_iff hstart hs).mp htimely appliedJob [] s (List.append_nil _).symm hs⟩
  cases hs
  rfl

/-- A stream error starts a read that finds the job running; the stream's next connection brings the end first. -/
def overtakenRead : List JobViewAction :=
  appliedJob ++ [.update ['a'] { status := some .running },.streamError true,.serve 1,
    .append ['a'] ⟨['p'],['s'],[],[],[],[]⟩ ['t'],.update ['a'] { status := some .success },.round,.event,.event,
    .deliver 1]

/-- A reconnect's read of a job is answered after a later job was applied. -/
def olderAnswer : List JobViewAction :=
  appliedJob ++ [.reconnect,.serve 1,.update ['a'] { status := some .success },.register (queuedJob ['b']),.apply ['b'],
    .serve 2,.deliver 2,.deliver 1]

/-- An ended job is shown as running and remembered, without its progress; and an earlier job replaces a later one. -/
theorem view_kept_counterexample :
    (∃ s job, System.run step {} overtakenRead = some s ∧ s.applyJob = some job ∧ job.status = .running ∧
      job.jobId ∈ s.ended ∧ s.rememberedApplyJobId = some job.jobId ∧ job.jobId ∈ s.delivered ∧ job.progress = [] ∧
      (s.jobs.map fun record => record.progress.length) = [1] ∧ ¬ s.Good) ∧
    ∃ s, System.run step {} olderAnswer = some s ∧ (1,0) ∈ s.replaced ∧ ¬ s.Good := by
  refine ⟨⟨_,_,rfl,rfl,rfl,List.mem_cons_self,rfl,List.mem_cons_self,rfl,rfl,?_⟩,_,rfl,?_,?_⟩
  · intro h
    cases h.ended _ rfl List.mem_cons_self
  · decide
  · intro h
    have hle := h.newer (1,0) (by decide)
    revert hle
    decide

end JobView
end Wudup
