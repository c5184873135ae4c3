import Wudup.ScheduleRows

/-! No slot is started twice, recorded as missed twice, or both, however the ticks of the processes
interleave. -/
namespace Wudup
open Library

/-- The slots a tick has reserved for a job that it has not submitted. -/
def TickPhase.claims : TickPhase → List Str
  | .submitting selection => selection.scheduleKeys
  | .releasing selection _ => selection.scheduleKeys
  | _ => []

/-- The slots of a submitted job that are still to be marked as queued. -/
def TickPhase.submitted : TickPhase → List Str
  | .queueing selection _ => selection.scheduleKeys
  | _ => []

namespace SchedulerState

/-- The slots of all jobs. -/
def startedKeys (s : SchedulerState) : List Str := s.jobs.flatMap (·.scheduleKeys)

def claims (s : SchedulerState) (p : ℕ) : List Str := (s.processes p).phase.claims

def submitted (s : SchedulerState) (p : ℕ) : List Str := (s.processes p).phase.submitted

/-- The row of a slot tells whether it was started or missed, and a claim has a row of its own. -/
structure Once (s : SchedulerState) : Prop where
  started_nodup : s.startedKeys.Nodup
  started_row : ∀ key ∈ s.startedKeys, ∃ row, s.db.rows key = some row ∧ row.status ≠ .missed
  missed_nodup : s.db.missedKeys.Nodup
  missed_row : ∀ key ∈ s.db.missedKeys, ∃ row, s.db.rows key = some row ∧ row.status = .missed
  claim_nodup : ∀ p, (s.claims p).Nodup
  claim_row : ∀ p, ∀ key ∈ s.claims p, s.db.rows key = some reservedRow
  claim_fresh : ∀ p, ∀ key ∈ s.claims p, key ∉ s.startedKeys
  claim_apart : ∀ p q, ∀ key ∈ s.claims p, key ∈ s.claims q → p = q
  submitted_started : ∀ p, ∀ key ∈ s.submitted p, key ∈ s.startedKeys

section
variable {s : SchedulerState} {p q : ℕ} {proc : SchedulerProcess} {key : Str}

@[simp] theorem put_db : (s.put p proc).db = s.db := rfl
@[simp] theorem put_jobs : (s.put p proc).jobs = s.jobs := rfl
@[simp] theorem put_startedKeys : (s.put p proc).startedKeys = s.startedKeys := rfl

@[simp] theorem claims_put : (s.put p proc).claims q = if q = p then proc.phase.claims else s.claims q := by
  by_cases h : q = p
  · subst h
    simp [claims,put]
  · simp [claims,put,h]

@[simp] theorem submitted_put :
    (s.put p proc).submitted q = if q = p then proc.phase.submitted else s.submitted q := by
  by_cases h : q = p
  · subst h
    simp [submitted,put]
  · simp [submitted,put,h]

/-- A claimed slot is neither started nor missed. -/
theorem Once.claim_not_missed (h : s.Once) (hk : key ∈ s.claims p) : key ∉ s.db.missedKeys := by
  intro hm
  obtain ⟨row,hrow,hstatus⟩ := h.missed_row key hm
  obtain rfl := Option.some.inj ((h.claim_row p key hk).symm.trans hrow)
  cases hstatus

theorem Once.disjoint (h : s.Once) : s.startedKeys.Disjoint s.db.missedKeys := by
  intro key hs hm
  obtain ⟨row,hrow,hstatus⟩ := h.started_row key hs
  obtain ⟨row',hrow',hstatus'⟩ := h.missed_row key hm
  rw [hrow] at hrow'
  obtain rfl := Option.some.inj hrow'
  exact hstatus hstatus'

/-- A process that moves on keeps its claims or drops them. -/
theorem Once.put (h : s.Once) (hc : proc.phase.claims = [] ∨ proc.phase.claims = s.claims p)
    (hs : proc.phase.submitted = []) : (s.put p proc).Once := by
  have hclaims : ∀ q, ∀ key ∈ (s.put p proc).claims q, key ∈ s.claims q := by
    intro q key hk
    rw [claims_put] at hk
    split at hk
    · rename_i hq
      subst hq
      rcases hc with hc | hc
      · simp [hc] at hk
      · exact hc ▸ hk
    · exact hk
  constructor
  · exact h.started_nodup
  · exact h.started_row
  · exact h.missed_nodup
  · exact h.missed_row
  · intro q
    rw [claims_put]
    split
    · rcases hc with hc | hc
      · simp [hc]
      · exact hc ▸ h.claim_nodup p
    · exact h.claim_nodup q
  · exact fun q key hk => h.claim_row q key (hclaims q key hk)
  · exact fun q key hk => h.claim_fresh q key (hclaims q key hk)
  · exact fun q r key hk hk' => h.claim_apart q r key (hclaims q key hk) (hclaims r key hk')
  · intro q key hk
    rw [submitted_put] at hk
    split at hk
    · simp [hs] at hk
    · exact h.submitted_started q key hk

/-- Rows of unclaimed slots may change as long as they tell the same. -/
theorem Once.rows (h : s.Once) {rows : Str → Option ScheduleRow}
    (hclaim : ∀ q, ∀ key ∈ s.claims q, rows key = s.db.rows key)
    (hstarted : ∀ key ∈ s.startedKeys, ∀ row, s.db.rows key = some row → row.status ≠ .missed →
      ∃ row', rows key = some row' ∧ row'.status ≠ .missed)
    (hmissed : ∀ key ∈ s.db.missedKeys, rows key = s.db.rows key) :
    ({ s with db := { s.db with rows } } : SchedulerState).Once := by
  constructor
  · exact h.started_nodup
  · intro key hk
    obtain ⟨row,hrow,hstatus⟩ := h.started_row key hk
    exact hstarted key hk row hrow hstatus
  · exact h.missed_nodup
  · intro key hk
    obtain ⟨row,hrow,hstatus⟩ := h.missed_row key hk
    exact ⟨row,(hmissed key hk).trans hrow,hstatus⟩
  · exact h.claim_nodup
  · exact fun q key hk => (hclaim q key hk).trans (h.claim_row q key hk)
  · exact h.claim_fresh
  · exact h.claim_apart
  · exact h.submitted_started

/-- Rows of started slots may change in any way but to missed. -/
theorem Once.update (h : s.Once) {keys : List Str} (hk : ∀ key ∈ keys, key ∈ s.startedKeys)
    {f : ScheduleRow → ScheduleRow} (hf : ∀ row, (f row).status ≠ .missed) :
    ({ s with db := { s.db with rows := fun key =>
      if key ∈ keys then (s.db.rows key).map f else s.db.rows key } } : SchedulerState).Once := by
  apply h.rows
  · intro q key hq
    have hno : key ∉ keys := fun hm => h.claim_fresh q key hq (hk key hm)
    simp [hno]
  · intro key hs row hrow hstatus
    by_cases hm : key ∈ keys
    · exact ⟨f row,by simp [hm,hrow],hf row⟩
    · exact ⟨row,by simp [hm,hrow],hstatus⟩
  · intro key hmissed
    have hno : key ∉ keys := fun hm => h.disjoint (hk key hm) hmissed
    simp [hno]

theorem Once.recordMissed (h : s.Once) (calendar : Calendar) (now : ℤ) (held : Str → Option Str)
    (missed : List DuePolicy) :
    ({ s with db := s.db.recordMissedSlots calendar now held missed } : SchedulerState).Once := by
  obtain ⟨keys,hnodup,hfree,hkeys,hrows⟩ := s.db.recordMissed_spec calendar now held missed
  constructor
  · exact h.started_nodup
  · intro key hk
    obtain ⟨row,hr,hstatus⟩ := h.started_row key hk
    exact ⟨row,s.db.recordMissed_row hr,hstatus⟩
  · rw [hkeys]
    apply h.missed_nodup.append hnodup
    intro key hm hk
    obtain ⟨row,hr,-⟩ := h.missed_row key hm
    simp [hfree key hk] at hr
  · intro key hk
    rw [hkeys,List.mem_append] at hk
    rcases hk with hk | hk
    · obtain ⟨row,hr,hstatus⟩ := h.missed_row key hk
      exact ⟨row,s.db.recordMissed_row hr,hstatus⟩
    · exact ⟨⟨.missed,some s.db.nextRunId,none⟩,by simp [hrows,hk],rfl⟩
  · exact h.claim_nodup
  · exact fun q key hk => s.db.recordMissed_row (h.claim_row q key hk)
  · exact h.claim_fresh
  · exact h.claim_apart
  · exact h.submitted_started

theorem Once.reserve (h : s.Once) {selection : AutoUpdateSelection} {db : ScheduleDb}
    (hr : s.db.reserveScheduleRuns selection.scheduleKeys = some db)
    (hp : proc.phase = .submitting selection) : ({ s.put p proc with db } : SchedulerState).Once := by
  obtain ⟨hnodup,hfree,rfl⟩ := ScheduleDb.reserve_spec hr
  have hnew : ∀ key row, s.db.rows key = some row → key ∉ selection.scheduleKeys := by
    intro key row hrow hm
    simp [hfree key hm] at hrow
  have hclaims : ∀ q, (s.put p proc).claims q = if q = p then selection.scheduleKeys else s.claims q := by
    intro q
    rw [claims_put,hp]
    rfl
  constructor
  · exact h.started_nodup
  · intro key hk
    obtain ⟨row,hrow,hstatus⟩ := h.started_row key hk
    exact ⟨row,by simp [hnew key row hrow,hrow],hstatus⟩
  · exact h.missed_nodup
  · intro key hk
    obtain ⟨row,hrow,hstatus⟩ := h.missed_row key hk
    exact ⟨row,by simp [hnew key row hrow,hrow],hstatus⟩
  · intro q
    change ((s.put p proc).claims q).Nodup
    rw [hclaims]
    split
    · exact hnodup
    · exact h.claim_nodup q
  · intro q key hk
    change key ∈ (s.put p proc).claims q at hk
    rw [hclaims] at hk
    split at hk
    · simp [hk]
    · have hrow := h.claim_row q key hk
      simp [hnew key _ hrow,hrow]
  · intro q key hk hs
    change key ∈ (s.put p proc).claims q at hk
    rw [hclaims] at hk
    split at hk
    · obtain ⟨row,hrow,-⟩ := h.started_row key hs
      exact hnew key row hrow hk
    · exact h.claim_fresh q key hk hs
  · intro q r key hq hr
    change key ∈ (s.put p proc).claims q at hq
    change key ∈ (s.put p proc).claims r at hr
    rw [hclaims] at hq hr
    split at hq <;> split at hr
    · rename_i hq' hr'
      exact hq'.trans hr'.symm
    · exact absurd hq (hnew key _ (h.claim_row r key hr))
    · exact absurd hr (hnew key _ (h.claim_row q key hq))
    · exact h.claim_apart q r key hq hr
  · intro q key hk
    change key ∈ (s.put p proc).submitted q at hk
    rw [submitted_put,hp] at hk
    split at hk
    · cases hk
    · exact h.submitted_started q key hk

theorem Once.submit (h : s.Once) {selection : AutoUpdateSelection} {jobId : Str}
    (hs : (s.processes p).phase = .submitting selection) (hp : proc.phase = .queueing selection jobId) :
    ({ s.put p proc with jobs := s.jobs ++ [⟨jobId,selection.scheduleKeys⟩] } : SchedulerState).Once := by
  have hclaims : s.claims p = selection.scheduleKeys := by
    rw [claims,hs]
    rfl
  have hstarted : ({ s.put p proc with jobs := s.jobs ++ [⟨jobId,selection.scheduleKeys⟩] } :
      SchedulerState).startedKeys = s.startedKeys ++ selection.scheduleKeys := by
    simp [startedKeys]
  have hother : ∀ q, ∀ key ∈ (s.put p proc).claims q, q ≠ p ∧ key ∈ s.claims q := by
    intro q key hk
    rw [claims_put,hp] at hk
    split at hk
    · cases hk
    · rename_i hq
      exact ⟨hq,hk⟩
  constructor
  · rw [hstarted]
    apply h.started_nodup.append (hclaims ▸ h.claim_nodup p)
    intro key hk hm
    exact h.claim_fresh p key (hclaims ▸ hm) hk
  · intro key hk
    rw [hstarted,List.mem_append] at hk
    rcases hk with hk | hk
    · exact h.started_row key hk
    · exact ⟨reservedRow,h.claim_row p key (hclaims ▸ hk),by decide⟩
  · exact h.missed_nodup
  · exact h.missed_row
  · intro q
    change ((s.put p proc).claims q).Nodup
    rw [claims_put,hp]
    split
    · exact List.nodup_nil
    · exact h.claim_nodup q
  · exact fun q key hk => h.claim_row q key (hother q key hk).2
  · intro q key hk hm
    obtain ⟨hq,hk⟩ := hother q key hk
    rw [hstarted,List.mem_append] at hm
    rcases hm with hm | hm
    · exact h.claim_fresh q key hk hm
    · exact hq (h.claim_apart q p key hk (hclaims ▸ hm))
  · exact fun q r key hq hr => h.claim_apart q r key (hother q key hq).2 (hother r key hr).2
  · intro q key hk
    rw [hstarted,List.mem_append]
    change key ∈ (s.put p proc).submitted q at hk
    rw [submitted_put,hp] at hk
    split at hk
    · exact .inr hk
    · exact .inl (h.submitted_started q key hk)

/-- A release deletes the claimed rows, which nobody else relies on. -/
theorem Once.release (h : s.Once) {selection : AutoUpdateSelection} {reason : Str}
    (hs : (s.processes p).phase = .releasing selection reason) (hp : proc.phase = .idle) :
    ({ s.put p proc with db := s.db.releaseScheduleRuns selection.scheduleKeys } : SchedulerState).Once := by
  have hclaims : s.claims p = selection.scheduleKeys := by
    rw [claims,hs]
    rfl
  have hput : (s.put p proc).Once := h.put (.inl (by rw [hp]; rfl)) (by rw [hp]; rfl)
  have hkept : ∀ key ∉ selection.scheduleKeys,
      (s.db.releaseScheduleRuns selection.scheduleKeys).rows key = s.db.rows key := by
    intro key hk
    simp [ScheduleDb.releaseScheduleRuns,hk]
  refine hput.rows ?_ ?_ ?_
  · intro q key hk
    apply hkept
    intro hm
    rw [claims_put,hp] at hk
    split at hk
    · cases hk
    · rename_i hq
      exact hq (h.claim_apart q p key hk (hclaims ▸ hm))
  · intro key hk row hrow hstatus
    have hno : key ∉ selection.scheduleKeys := fun hm => h.claim_fresh p key (hclaims ▸ hm) hk
    exact ⟨row,(hkept key hno).trans hrow,hstatus⟩
  · intro key hk
    exact hkept key fun hm => h.claim_not_missed (hclaims ▸ hm) hk

end

theorem once_fresh (settings : ℕ → SchedulerSettings) (startedAt : ℕ → ℤ) : (fresh settings startedAt).Once := by
  constructor <;> simp [fresh,startedKeys,ScheduleDb.missedKeys,claims,submitted,TickPhase.claims,TickPhase.submitted]

/-- A process that moves on without claims keeps what holds. -/
theorem Once.move {s : SchedulerState} (h : s.Once) {p : ℕ} {proc : SchedulerProcess}
    (hc : proc.phase.claims = []) (hs : proc.phase.submitted = []) : (s.put p proc).Once :=
  h.put (.inl hc) hs

theorem once_step (s : SchedulerState) (action : SchedulerAction) (t : SchedulerState) (h : s.Once)
    (hs : step s action = some t) : t.Once := by
  cases step_moved hs with
  | editPolicies policies snoozes =>
    exact ⟨h.started_nodup,h.started_row,h.missed_nodup,h.missed_row,h.claim_nodup,h.claim_row,h.claim_fresh,
      h.claim_apart,h.submitted_started⟩
  | @recordMissed p now policies missed =>
    have hput : (s.put p (((s.processes p).prune policies).move
        (if policies = [] then .idle else .gating policies))).Once := by
      apply h.move <;> simp only [SchedulerProcess.move] <;> split <;> rfl
    by_cases hm : missed = []
    · rw [if_pos hm]
      exact hput
    · rw [if_neg hm]
      exact hput.recordMissed _ _ _ _
  | @choose p policies outcome =>
    have hc : ∀ proc : SchedulerProcess, (proc.choose policies outcome).phase.claims = [] ∧
        (proc.choose policies outcome).phase.submitted = [] := by
      intro proc
      unfold SchedulerProcess.choose
      split
      · split <;> exact ⟨rfl,rfl⟩
      · exact ⟨rfl,rfl⟩
    exact h.move (hc _).1 (hc _).2
  | reserve _ hr => exact h.reserve hr rfl
  | submit jobId hphase => exact h.submit hphase rfl
  | @refused p selection _ _ hphase =>
    have hclaims : selection.scheduleKeys = s.claims p := by
      rw [claims,hphase]
      rfl
    exact h.put (.inr hclaims) rfl
  | release committed hphase =>
    cases committed
    · exact h.move rfl rfl
    · exact h.release hphase rfl
  | @queue p selection jobId committed hphase =>
    have hput : (s.put p ((s.processes p).move .idle)).Once := h.move rfl rfl
    have hkeys : ∀ key ∈ selection.scheduleKeys, key ∈ s.startedKeys := by
      intro key hk
      apply h.submitted_started p
      rw [submitted,hphase]
      exact hk
    cases committed
    · exact hput
    · exact hput.update hkeys (by simp)
  | @report job succeeded runId hjob =>
    apply h.update
    · exact fun key hk => List.mem_flatMap.mpr ⟨job,hjob,hk⟩
    · cases succeeded <;> simp
  | _ => exact h.move rfl rfl

theorem once_run {settings : ℕ → SchedulerSettings} {startedAt : ℕ → ℤ} {actions : List SchedulerAction}
    {s : SchedulerState} (hr : System.run step (fresh settings startedAt) actions = some s) : s.Once :=
  System.run_keeps once_step (once_fresh settings startedAt) hr

/-- In every run each slot is started at most once and recorded as missed at most once, and never both;
a row only goes by the release of a reservation that has no job and no run. -/
theorem schedule_keys_once {settings : ℕ → SchedulerSettings} {startedAt : ℕ → ℤ}
    {actions : List SchedulerAction} {s : SchedulerState}
    (hr : System.run step (fresh settings startedAt) actions = some s) :
    s.startedKeys.Nodup ∧ s.db.missedKeys.Nodup ∧ s.startedKeys.Disjoint s.db.missedKeys ∧
      ∀ action t, step s action = some t → ∀ key row, s.db.rows key = some row → t.db.rows key = none →
        (∃ p, action = .release p true) ∧ row.status = .reserved ∧ row.runId = none ∧ row.jobId = none ∧
          key ∉ t.startedKeys := by
  have h := once_run hr
  refine ⟨h.started_nodup,h.missed_nodup,h.disjoint,?_⟩
  intro action t hs key row hrow hgone
  rcases row_kept hs hrow with ⟨row',hrow'⟩ | ⟨p,selection,reason,rfl,hphase,hk⟩
  · simp [hgone] at hrow'
  · have hclaim : key ∈ s.claims p := by
      rw [claims,hphase]
      exact hk
    obtain rfl := Option.some.inj ((h.claim_row p key hclaim).symm.trans hrow)
    simp only [step,hphase] at hs
    cases hs
    exact ⟨⟨p,rfl⟩,rfl,rfl,rfl,h.claim_fresh p key hclaim⟩

/-- The slot is started when it is due. -/
def saturdayRun : List SchedulerAction :=
  [.editPolicies [saturdayPolicy] [],.readPolicies 0 (minutesLate 0),.readSlot 0,.recordMissed 0 true,.gate 0 [],
    .choose 0 (.ready pendingWeb),.reserve 0 true,.submit 0 (.accepted "job".toList),.queue 0 true]

theorem schedule_keys_once_saturday :
    ∃ s, System.run step (fresh (fun _ => utcSettings) fun _ => minutesLate (-30)) saturdayRun = some s ∧
      s.startedKeys = [saturdayKey] ∧ s.startedKeys.Nodup ∧ s.startedKeys.Disjoint s.db.missedKeys := by
  have hkeys : (System.run step (fresh (fun _ => utcSettings) fun _ => minutesLate (-30)) saturdayRun).map
      startedKeys = some [saturdayKey] := by
    decide +kernel
  obtain ⟨s,hr,hs⟩ := Option.map_eq_some_iff.mp hkeys
  obtain ⟨hn,-,hd,-⟩ := schedule_keys_once hr
  exact ⟨s,hr,hs,hn,hd⟩

end SchedulerState
end Wudup
