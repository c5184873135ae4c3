import Wudup.JobStream

/-! What the event stream of a job has yielded when it ends, however its reads fall among the changes. -/
namespace Wudup
open Library

namespace StreamState

/-- What has been read and is not yet yielded. -/
def pending (s : StreamState) : List StreamEvent :=
  match s.stream.phase with
  | .yielding events _ => events
  | _ => []

/-- The stream is at the events that it has counted, and has not seen the job's end. -/
structure Following (jobId : Str) (job : WebApplyJob) (s : StreamState) : Prop where
  get : s.jobs.get jobId = some job
  version : s.stream.lastVersion ≤ job.version
  seen : s.stream.lastVersion = job.version → job.status.terminal = false
  count : s.stream.lastProgressCount ≤ job.progress.length
  output : progressOf (s.stream.output ++ s.pending) =
    (job.progress.take s.stream.lastProgressCount).map fun event => ⟨jobId,event⟩
  phase : s.stream.phase = .reading ∨ s.stream.phase = .waiting ∨ ∃ events, s.stream.phase = .yielding events false

/-- The stream yields its last round, and its output ends up as the given one. -/
def Finishing (output : List StreamEvent) (s : StreamState) : Prop :=
  (∃ events, s.stream.phase = .yielding events true ∧ s.stream.output ++ events = output) ∨
    s.stream.phase = .ended ∧ s.stream.output = output ∨ s.stream.phase = .closed

/-- An output with all progress of the job and, last of the job events, its end. -/
def Complete (jobId : Str) (job : WebApplyJob) (output : List StreamEvent) : Prop :=
  job.status.terminal = true ∧ progressOf output = (job.progress.map fun event => ⟨jobId,event⟩) ∧
    (jobsOf output).getLast? = some (applyJobResponse job)

variable {sha256 : Str → Str} {maxBytes : ℕ} {jobId : Str} {s t : StreamState} {job : WebApplyJob}

theorem finishing_step {output : List StreamEvent} (s : StreamState) (action : StreamAction) (t : StreamState)
    (h : s.Finishing output) (hs : step sha256 maxBytes jobId s action = some t) : t.Finishing output := by
  have hregistry : t.stream = s.stream → t.Finishing output := by
    intro heq
    simpa only [Finishing,heq] using h
  cases action with
  | register other =>
    simp only [step] at hs
    split at hs <;> cases hs
    exact hregistry rfl
  | read log late =>
    obtain ⟨events,hphase,-⟩ | ⟨hphase,-⟩ | hphase := h <;> simp [step,hphase] at hs
  | wake log late =>
    obtain ⟨events,hphase,-⟩ | ⟨hphase,-⟩ | hphase := h <;> simp [step,hphase] at hs
  | yield =>
    obtain ⟨events,hphase,hout⟩ | ⟨hphase,-⟩ | hphase := h
    · cases events with
      | nil =>
        simp only [step,hphase] at hs
        cases hs
        exact .inr (.inl ⟨rfl,by simpa using hout⟩)
      | cons event rest =>
        simp only [step,hphase] at hs
        cases hs
        exact .inl ⟨rest,rfl,by simpa using hout⟩
    · simp [step,hphase] at hs
    · simp [step,hphase] at hs
  | close =>
    cases hs
    exact .inr (.inr rfl)
  | _ =>
    cases hs
    exact hregistry rfl

/-- What a round reads of the job: its progress beyond what is counted, and the job unless its version is known. -/
theorem Following.snapshot (h : s.Following jobId job) {snapshot : ApplyJobStreamSnapshot}
    (hs : snapshot = applyJobStreamSnapshot job s.stream.lastVersion s.stream.lastProgressCount) :
    snapshot.progressEvents = ((job.progress.drop s.stream.lastProgressCount).map fun event => ⟨jobId,event⟩) ∧
      snapshot.lastVersion = job.version ∧ snapshot.lastProgressCount = job.progress.length ∧
      (job.status.terminal = true → snapshot.response = some (applyJobResponse job)) := by
  obtain ⟨hmem,hid⟩ := Keyed.mem_of_find h.get
  subst hs
  refine ⟨?_,?_,Nat.max_eq_right h.count,?_⟩
  · simp only [applyJobStreamSnapshot,applyJobResponse,hid]
    split
    · exact (List.map_drop ..).symm
    · rename_i hle
      simp [List.drop_of_length_le (Nat.le_of_not_lt hle)]
  · by_cases hv : (job.version : ℤ) = s.stream.lastVersion <;> simp [applyJobStreamSnapshot,hv]
  · intro hterminal
    have hv : ¬(job.version : ℤ) = s.stream.lastVersion := by
      intro heq
      simp [h.seen heq.symm] at hterminal
    simp [applyJobStreamSnapshot,hv]

/-- A round takes the stream to all the progress there is, and is its last if the job has ended. -/
theorem Following.take (h : s.Following jobId job) (hp : s.pending = []) (sha256 : Str → Str) (maxBytes : ℕ)
    (log : LogRead) (late : Bool) :
    (job.status.terminal = false ∧
      ({ s with stream := s.stream.take sha256 maxBytes job log late } : StreamState).Following jobId job) ∨
    ∃ output, Complete jobId job output ∧
      ({ s with stream := s.stream.take sha256 maxBytes job log late } : StreamState).Finishing output := by
  generalize hs : applyJobStreamSnapshot job s.stream.lastVersion s.stream.lastProgressCount = snapshot
  obtain ⟨hread,hversion,hcount,hresponse⟩ := h.snapshot hs.symm
  let events := JobStream.events snapshot (s.stream.logEvent sha256 maxBytes snapshot log).1 late
  have htaken : s.stream.take sha256 maxBytes job log late =
      { s.stream with
        lastVersion := snapshot.lastVersion
        lastProgressCount := snapshot.lastProgressCount
        lastLogSignature := (s.stream.logEvent sha256 maxBytes snapshot log).2.1
        terminalLogEmitted := (s.stream.logEvent sha256 maxBytes snapshot log).2.2
        phase := .yielding events job.status.terminal } := by
    subst hs
    rfl
  have houtput := h.output
  rw [hp,List.append_nil] at houtput
  have hall : progressOf (s.stream.output ++ events) = job.progress.map fun event => ⟨jobId,event⟩ := by
    rw [progressOf_append,progressOf_events,houtput,hread,← List.map_append,List.take_append_drop]
  rw [htaken]
  cases hterminal : job.status.terminal with
  | false =>
    left
    refine ⟨rfl,h.get,by simp [hversion],fun _ => hterminal,by simp [hcount],?_,?_⟩
    · simpa [pending,hcount] using hall
    · exact .inr (.inr ⟨events,rfl⟩)
  | true =>
    right
    refine ⟨s.stream.output ++ events,⟨hterminal,hall,?_⟩,.inl ⟨events,rfl,rfl⟩⟩
    rw [jobsOf_append,jobsOf_events,hresponse hterminal]
    simp

/-- The registry may change under the stream, if the job only gets on. -/
theorem Following.change (h : s.Following jobId job) {job' : WebApplyJob} (ht : t.stream = s.stream)
    (hget : t.jobs.get jobId = some job') (hprogress : ∃ events, job'.progress = job.progress ++ events)
    (hversion : job.version < job'.version ∨ job'.version = job.version ∧ job'.status = job.status) :
    t.Following jobId job' := by
  obtain ⟨events,hprogress⟩ := hprogress
  have hcount := h.count
  have hle := h.version
  refine ⟨hget,?_,?_,?_,?_,?_⟩
  · rw [ht]
    omega
  · rw [ht]
    intro heq
    obtain hless | ⟨hsame,hstatus⟩ := hversion
    · omega
    · rw [hstatus]
      exact h.seen (hsame ▸ heq)
  · rw [ht,hprogress,List.length_append]
    omega
  · rw [pending,ht,hprogress,List.take_append_of_le_length hcount]
    exact h.output
  · rw [ht]
    exact h.phase

/-- A step leaves the stream following the job with what it has appended, or closed, or with its last round. -/
theorem following_step (h : s.Following jobId job) {action : StreamAction}
    (hs : step sha256 maxBytes jobId s action = some t) (hk : (t.jobs.get jobId).isSome) :
    (∃ job', t.Following jobId job' ∧ job'.progress = job.progress ++ appendedTo jobId [action]) ∨
      t.stream.phase = .closed ∨ ∃ output, Complete jobId job output ∧ t.Finishing output := by
  cases action with
  | register other =>
    simp only [step] at hs
    split at hs
    · rename_i hfresh
      cases hs
      obtain ⟨job',hget⟩ := Option.isSome_iff_exists.mp hk
      have hid : other.id ≠ jobId := by
        rintro rfl
        simp [h.get] at hfresh
      obtain rfl := Option.some.inj ((JobRegistry.get_registerApplyJob hid hget).symm.trans h.get)
      exact .inl ⟨job',h.change rfl hget ⟨[],by simp⟩ (.inr ⟨rfl,rfl⟩),by simp [appendedTo]⟩
    · cases hs
  | update id changes =>
    cases hs
    left
    by_cases hid : id = jobId
    · refine ⟨job.change changes,h.change rfl ?_ ⟨[],by simp⟩ (.inl ?_),by simp [appendedTo]⟩
      · simp only [JobRegistry.get_updateApplyJob,if_pos hid,h.get,Option.map_some]
      · simp
    · refine ⟨job,h.change rfl ?_ ⟨[],by simp⟩ (.inr ⟨rfl,rfl⟩),by simp [appendedTo]⟩
      simp only [JobRegistry.get_updateApplyJob,if_neg hid,h.get]
  | append id event createdAt =>
    cases hs
    left
    by_cases hid : id = jobId
    · refine ⟨job.append (event.recorded createdAt),h.change rfl ?_ ⟨[event.recorded createdAt],rfl⟩ (.inr ⟨rfl,rfl⟩),?_⟩
      · simp only [JobRegistry.get_appendApplyJobProgress,if_pos hid,h.get,Option.map_some]
      · simp [appendedTo,hid,WebApplyJob.append]
    · refine ⟨job,h.change rfl ?_ ⟨[],by simp⟩ (.inr ⟨rfl,rfl⟩),by simp [appendedTo,hid]⟩
      simp only [JobRegistry.get_appendApplyJobProgress,if_neg hid,h.get]
  | remove id =>
    cases hs
    obtain ⟨job',hget⟩ := Option.isSome_iff_exists.mp hk
    obtain rfl := Option.some.inj ((JobRegistry.get_remove hget).symm.trans h.get)
    exact .inl ⟨job',h.change rfl hget ⟨[],by simp⟩ (.inr ⟨rfl,rfl⟩),by simp [appendedTo]⟩
  | read log late =>
    simp only [step] at hs
    split at hs
    · rename_i hphase
      have hp : s.pending = [] := by simp [pending,hphase]
      simp only [h.get] at hs
      split at hs
      · cases hs
        refine .inl ⟨job,⟨h.get,h.version,h.seen,h.count,?_,.inr (.inl rfl)⟩,by simp [appendedTo]⟩
        have houtput := h.output
        rw [hp] at houtput
        exact houtput
      · cases hs
        obtain ⟨-,htaken⟩ | hlast := h.take hp sha256 maxBytes log late
        · exact .inl ⟨job,htaken,by simp [appendedTo]⟩
        · exact .inr (.inr hlast)
    · cases hs
  | wake log late =>
    simp only [step] at hs
    split at hs
    · rename_i hphase
      have hp : s.pending = [] := by simp [pending,hphase]
      simp only [h.get] at hs
      cases hs
      obtain ⟨-,htaken⟩ | hlast := h.take hp sha256 maxBytes log late
      · exact .inl ⟨job,htaken,by simp [appendedTo]⟩
      · exact .inr (.inr hlast)
    · cases hs
  | yield =>
    simp only [step] at hs
    left
    split at hs
    · rename_i event rest terminal hphase
      cases hs
      have hterminal : terminal = false := by
        obtain hr | hw | ⟨events,hy⟩ := h.phase <;> simp_all
      refine ⟨job,⟨h.get,h.version,h.seen,h.count,?_,.inr (.inr ⟨rest,by rw [hterminal]⟩)⟩,by simp [appendedTo]⟩
      have houtput := h.output
      simp only [pending,hphase] at houtput
      simpa [pending] using houtput
    · rename_i terminal hphase
      cases hs
      have hterminal : terminal = false := by
        obtain hr | hw | ⟨events,hy⟩ := h.phase <;> simp_all
      refine ⟨job,⟨h.get,h.version,h.seen,h.count,?_,.inl (by simp [hterminal])⟩,by simp [appendedTo]⟩
      have houtput := h.output
      simp only [pending,hphase] at houtput
      simpa [pending,hterminal] using houtput
    · cases hs
  | close =>
    cases hs
    exact .inr (.inl rfl)

theorem closed_step (s : StreamState) (action : StreamAction) (t : StreamState) (h : s.stream.phase = .closed)
    (hs : step sha256 maxBytes jobId s action = some t) : t.stream.phase = .closed := by
  cases action with
  | register other =>
    simp only [step] at hs
    split at hs <;> cases hs
    exact h
  | read log late => simp [step,h] at hs
  | wake log late => simp [step,h] at hs
  | yield => simp [step,h] at hs
  | close =>
    cases hs
    rfl
  | _ =>
    cases hs
    exact h

/-- A run leaves the stream following the job, closed, or with all that was appended before its last round. -/
theorem following_run {actions : List StreamAction} (h : s.Following jobId job)
    (hkept : System.Along (step sha256 maxBytes jobId) (Keeps sha256 maxBytes jobId) s actions)
    (hr : System.run (step sha256 maxBytes jobId) s actions = some t) :
    (∃ job', t.Following jobId job') ∨ t.stream.phase = .closed ∨
      ∃ before rest u last output, actions = before ++ rest ∧
        System.run (step sha256 maxBytes jobId) s before = some u ∧ u.jobs.get jobId = some last ∧
        last.progress = job.progress ++ appendedTo jobId before ∧ Complete jobId last output ∧ t.Finishing output := by
  induction actions generalizing s job with
  | nil =>
    obtain rfl : s = t := by simpa [System.run] using hr
    exact .inl ⟨job,h⟩
  | cons action rest ih =>
    obtain ⟨u,hu,hrest⟩ := Option.bind_eq_some_iff.mp hr
    obtain ⟨job',hfollowing,hprogress⟩ | hclosed | ⟨output,hcomplete,hfinishing⟩ :=
      following_step h hu (hkept.1 u hu)
    · obtain hfollows | hclosed | ⟨before,after,v,last,output,rfl,hv,hlast,happended,hdone⟩ :=
        ih hfollowing (hkept.2 u hu) hrest
      · exact .inl hfollows
      · exact .inr (.inl hclosed)
      · refine .inr (.inr ⟨action :: before,after,v,last,output,rfl,?_,hlast,?_,hdone⟩)
        · rw [System.run,hu,Option.bind_some,hv]
        · rw [happended,hprogress,List.append_assoc,← appendedTo_append]
          rfl
    · exact .inr (.inl (System.run_keeps closed_step hclosed hrest))
    · have hdone := System.run_keeps finishing_step hfinishing hrest
      exact .inr (.inr ⟨[],action :: rest,s,job,output,rfl,rfl,h.get,by simp [appendedTo],hcomplete,hdone⟩)

/-! The end of the stream -/

/-- What is read is yielded. -/
theorem run_yield {events : List StreamEvent} {terminal : Bool} (hp : s.stream.phase = .yielding events terminal) :
    System.run (step sha256 maxBytes jobId) s (List.replicate (events.length + 1) .yield) = some { s with
      stream := { s.stream with
        phase := if terminal then .ended else .reading
        output := s.stream.output ++ events } } := by
  induction events generalizing s with
  | nil => simp [System.run,step,hp]
  | cons event rest ih =>
    rw [List.length_cons,List.replicate_succ,System.run]
    simp only [step,hp,Option.bind_some]
    rw [ih rfl]
    simp

theorem Finishing.ends {output : List StreamEvent} (h : s.Finishing output) (ho : s.stream.phase ≠ .closed) :
    ∃ steps v, (∀ action ∈ steps, action.ofStream) ∧ System.run (step sha256 maxBytes jobId) s steps = some v ∧
      v.stream.phase = .ended := by
  obtain ⟨events,hphase,-⟩ | ⟨hphase,-⟩ | hphase := h
  · refine ⟨_,_,?_,run_yield hphase,rfl⟩
    intro action ha
    rw [List.eq_of_mem_replicate ha]
    rfl
  · exact ⟨[],s,by simp,rfl,hphase⟩
  · exact absurd hphase ho

/-- The next round is the last one of a job that has ended. -/
theorem Following.ends_reading (h : s.Following jobId job) (hterminal : job.status.terminal = true)
    (hp : s.stream.phase = .reading ∨ s.stream.phase = .waiting) :
    ∃ steps v, (∀ action ∈ steps, action.ofStream) ∧ System.run (step sha256 maxBytes jobId) s steps = some v ∧
      v.stream.phase = .ended := by
  have hpending : s.pending = [] := by
    unfold pending
    obtain hr | hw := hp
    · rw [hr]
    · rw [hw]
  obtain ⟨hrunning,-⟩ | ⟨output,-,hfinishing⟩ := h.take hpending sha256 maxBytes none false
  · simp [hrunning] at hterminal
  · obtain ⟨steps,v,hsteps,hv,hend⟩ := hfinishing.ends (by simp [JobStream.take])
    obtain hr | hw := hp
    · have hnew : ¬(job.version : ℤ) = s.stream.lastVersion := by
        intro heq
        simp [h.seen heq.symm] at hterminal
      refine ⟨.read none false :: steps,v,?_,?_,hend⟩
      · intro action ha
        obtain rfl | ha := List.mem_cons.mp ha
        · rfl
        · exact hsteps action ha
      · simpa [System.run,step,hr,h.get,hnew] using hv
    · refine ⟨.wake none false :: steps,v,?_,?_,hend⟩
      · intro action ha
        obtain rfl | ha := List.mem_cons.mp ha
        · rfl
        · exact hsteps action ha
      · simpa [System.run,step,hw,h.get] using hv

theorem Following.ends (h : s.Following jobId job) (hterminal : job.status.terminal = true) :
    ∃ steps v, (∀ action ∈ steps, action.ofStream) ∧ System.run (step sha256 maxBytes jobId) s steps = some v ∧
      v.stream.phase = .ended := by
  obtain hr | hw | ⟨events,hy⟩ := h.phase
  · exact h.ends_reading hterminal (.inl hr)
  · exact h.ends_reading hterminal (.inr hw)
  · -- the round that was under way is yielded first
    have hyield : System.run (step sha256 maxBytes jobId) s (List.replicate (events.length + 1) .yield) = some _ :=
      run_yield hy
    have houtput := h.output
    simp only [pending,hy] at houtput
    have hfollowing : ({ s with
        stream := { s.stream with phase := .reading, output := s.stream.output ++ events } } :
          StreamState).Following jobId job :=
      ⟨h.get,h.version,h.seen,h.count,by simpa [pending] using houtput,.inl rfl⟩
    obtain ⟨steps,v,hsteps,hv,hend⟩ := hfollowing.ends_reading hterminal (.inl rfl)
    refine ⟨_,v,?_,System.run_append hyield hv,hend⟩
    intro action ha
    obtain hy | ha := List.mem_append.mp ha
    · rw [List.eq_of_mem_replicate hy]
      rfl
    · exact hsteps action ha

theorem following_start {jobs : JobRegistry} (h : jobs.get jobId = some job) :
    ({ jobs } : StreamState).Following jobId job := by
  refine ⟨h,?_,?_,Nat.zero_le _,rfl,.inl rfl⟩
  · change (-1 : ℤ) ≤ job.version
    omega
  · intro heq
    change (-1 : ℤ) = job.version at heq
    omega

/-- In every run that does not evict the job, the stream that ends has read the job after its end and yielded
all that was appended before, in order, and last of the job events the job as it ended; and once the job has
ended, the stream ends by its own steps unless the client has gone. -/
theorem stream_delivers {jobs : JobRegistry} {actions : List StreamAction} (hj : jobs.get jobId = some job)
    (hkept : System.Along (step sha256 maxBytes jobId) (Keeps sha256 maxBytes jobId) { jobs } actions)
    (hr : System.run (step sha256 maxBytes jobId) { jobs } actions = some s) :
    (s.stream.phase = .ended →
      ∃ before rest u last, actions = before ++ rest ∧
        System.run (step sha256 maxBytes jobId) { jobs } before = some u ∧ u.jobs.get jobId = some last ∧
        last.status.terminal = true ∧
        progressOf s.stream.output =
          ((job.progress ++ appendedTo jobId before).map fun event => ⟨jobId,event⟩) ∧
        (jobsOf s.stream.output).getLast? = some (applyJobResponse last)) ∧
    ∀ last, s.jobs.get jobId = some last → last.status.terminal = true → s.stream.phase ≠ .closed →
      ∃ steps v, (∀ action ∈ steps, action.ofStream) ∧
        System.run (step sha256 maxBytes jobId) s steps = some v ∧ v.stream.phase = .ended := by
  have hrun := following_run (following_start hj) hkept hr
  constructor
  · intro hend
    obtain ⟨job',hfollows⟩ | hclosed | ⟨before,rest,u,last,output,hactions,hu,hget,hprogress,hcomplete,hdone⟩ := hrun
    · obtain hphase | hphase | ⟨_,hphase⟩ := hfollows.phase <;> simp [hphase] at hend
    · simp [hclosed] at hend
    · have houtput : s.stream.output = output := by
        obtain ⟨_,hphase,-⟩ | ⟨-,hout⟩ | hphase := hdone
        · simp [hphase] at hend
        · exact hout
        · simp [hphase] at hend
      obtain ⟨hterminal,hall,hlast⟩ := hcomplete
      exact ⟨before,rest,u,last,hactions,hu,hget,hterminal,by rw [houtput,hall,hprogress],houtput ▸ hlast⟩
  · intro last hget hterminal hopen
    obtain ⟨job',hfollows⟩ | hclosed | ⟨_,_,_,_,_,-,-,-,-,-,hdone⟩ := hrun
    · obtain rfl := Option.some.inj (hfollows.get.symm.trans hget)
      exact hfollows.ends hterminal
    · exact absurd hclosed hopen
    · exact hdone.ends hopen

def pulled : UpdaterProgressEvent := { phase := "pull".toList, status := "running".toList, message := [] }

def restarted : UpdaterProgressEvent := { phase := "restart".toList, status := "success".toList, message := [] }

/-- One event is read while the job is queued, and the other one with its end. -/
def twoRounds : List StreamAction :=
  [.append "job".toList pulled [],.read none false,.yield,.yield,.yield,
    .update "job".toList { status := some .running },.append "job".toList restarted [],
    .update "job".toList { status := some .success },
    .register { id := "next".toList, status := .queued, selectedLineNumbers := [] },
    .read none false,.yield,.yield,.yield]

theorem stream_delivers_rounds :
    ∃ s, System.run (step id 100 "job".toList)
        { jobs := [{ id := "job".toList, status := .queued, selectedLineNumbers := [1] }] } twoRounds = some s ∧
      (progressOf s.stream.output).map (·.event.phase) = ["pull".toList,"restart".toList] ∧
      ∃ last : WebApplyJob, last.status.terminal = true ∧
        (jobsOf s.stream.output).getLast? = some (applyJobResponse last) := by
  have hs : ∃ s, System.run (step id 100 "job".toList)
      { jobs := [{ id := "job".toList, status := .queued, selectedLineNumbers := [1] }] } twoRounds = some s ∧
      s.stream.phase = .ended ∧
      (progressOf s.stream.output).map (·.event.phase) = ["pull".toList,"restart".toList] := ⟨_,rfl,rfl,rfl⟩
  obtain ⟨s,hs,hend,hprogress⟩ := hs
  have hkept : System.Along (step id 100 "job".toList) (Keeps id 100 "job".toList)
      { jobs := [{ id := "job".toList, status := .queued, selectedLineNumbers := [1] }] } twoRounds := by
    decide +kernel
  obtain ⟨_,_,_,last,-,-,-,hterminal,-,hlast⟩ := (stream_delivers rfl hkept hs).1 hend
  exact ⟨s,hs,hprogress,last,hterminal,hlast⟩

end StreamState
end Wudup
