import Wudup.Library.Calendar
import Wudup.Library.Transition
import Wudup.Json
import Wudup.SchedulerSafety

/-! The schedulers of the web processes that share a database: which slots are due, held or missed, and
the transactions by which a slot is claimed, released and reported. -/
namespace Wudup
open Library

def autoUpdateGrace : ℤ := 300 * microsPerSecond
def autoUpdateMaxLate : ℤ := 3600 * microsPerSecond
def autoUpdateDays : List Str := ["mon","tue","wed","thu","fri","sat","sun"].map String.toList

def autoUpdateHoldBusy : Str := "Another WUDup job was still running.".toList
def autoUpdateHoldOtherMode : Str :=
  "Services scheduled at the same time with a different update mode ran first.".toList
def autoUpdateHoldSubmitFailed : Str := "The update job could not be started.".toList
def autoUpdateHoldPlanBlocked : Str :=
  "The update plan could not be applied automatically; open Pending updates to review it.".toList

/-- The configured time zone: the local date at an instant, and the instant of a date and time of day. -/
structure Calendar where
  timezoneName : Str
  localDate : ℤ → ℤ
  instant : ℤ → ℤ → ℤ
  /-- The time of day a text is read as. -/
  parseTime : Str → Option ℤ
  parseTime_plain : ∀ text time, parseTime text = some time → '|' ∉ text

structure SchedulerSettings where
  calendar : Calendar
  updateMode : Str
  rules : ReleaseRules

/-! Database -/

/-- A policy row; the days are what their text decodes to. -/
structure ServicePolicy where
  serviceKey : Str
  updateMode : Str
  autoUpdate : Bool
  autoUpdateTime : Option Str
  autoUpdateDays : Option Json

structure Snooze where
  serviceKey : Str
  snoozedUntil : Str

inductive ScheduleStatus where
  | reserved
  | queued
  | missed
  | success
  | failure
  deriving DecidableEq, Repr

/-- What is recorded of a slot: its state, its run in the history, and the job its metadata names. -/
structure ScheduleRow where
  status : ScheduleStatus
  runId : Option ℕ
  jobId : Option Str
  deriving DecidableEq, Repr

def reservedRow : ScheduleRow := ⟨.reserved,none,none⟩

/-- A due policy with the time and days it was read with. -/
structure DuePolicy extends AutoUpdatePolicy where
  autoUpdateTime : Str
  autoUpdateDays : List Str
  deriving DecidableEq, Repr

structure MissedSlot where
  serviceKey : Str
  scheduleKey : Str
  scheduledFor : ℤ
  updateMode : Str
  reason : Str
  deriving DecidableEq, Repr

/-- A history run for slots that were skipped. -/
structure MissedRun where
  id : ℕ
  slots : List MissedSlot
  deriving DecidableEq, Repr

/-- The schedule rows are a map: their key is the primary key of the table. -/
structure ScheduleDb where
  policies : List ServicePolicy
  snoozes : List Snooze
  rows : Str → Option ScheduleRow
  missedRuns : List MissedRun
  nextRunId : ℕ

/-! Due slots -/

def autoUpdateDaysFromRow (row : ServicePolicy) : List Str :=
  orderedUnique (((Json.elements row.autoUpdateDays).filterMap fun item => Json.string? (some item)).filter
    (· ∈ autoUpdateDays))

def weekday (date : ℤ) : Str := autoUpdateDays.getD ((date + 6) % 7).toNat []

def autoUpdateScheduleKey (serviceKey localDate updateTime timezoneName : Str) : Str :=
  serviceKey ++ '|' :: (localDate ++ '|' :: (updateTime ++ '|' :: timezoneName))

/-- Today's or yesterday's slot, the later one that has come. -/
def Calendar.latestOccurrence (calendar : Calendar) (time : ℤ) (days : List Str) (now : ℤ) : Option (ℤ × ℤ) :=
  [calendar.localDate now,calendar.localDate now - 1].findSome? fun date =>
    if weekday date ∈ days ∧ calendar.instant date time ≤ now then some (date,calendar.instant date time)
    else none

def Calendar.rowOccurrence (calendar : Calendar) (updateTime : Str) (days : List Str) (now : ℤ) :
    Option (ℤ × ℤ) := do
  let time ← calendar.parseTime updateTime
  calendar.latestOccurrence time days now

/-- The latest slot of a policy row. -/
def SchedulerSettings.slot (settings : SchedulerSettings) (now : ℤ) (row : ServicePolicy) : Option DuePolicy := do
  let updateTime ← row.autoUpdateTime
  let days := autoUpdateDaysFromRow row
  let (localDate,scheduledFor) ← settings.calendar.rowOccurrence updateTime days now
  return {
    serviceKey := row.serviceKey
    updateMode := if row.updateMode = [] then settings.updateMode else row.updateMode
    scheduleKey := autoUpdateScheduleKey row.serviceKey (isoDate localDate) updateTime
      settings.calendar.timezoneName
    scheduledFor
    autoUpdateTime := updateTime
    autoUpdateDays := days }

namespace ScheduleDb
variable (db : ScheduleDb)

/-- The rows of policies that update automatically at some time. -/
def autoUpdateRows : List ServicePolicy :=
  (db.policies.filter fun row => row.autoUpdate && row.autoUpdateTime.isSome).insertionSort
    (·.serviceKey ≤ ·.serviceKey)

def activeSnooze (serviceKey : Str) (now : ℤ) : Bool :=
  db.snoozes.any fun snooze => snooze.serviceKey = serviceKey ∧ isoSeconds now < snooze.snoozedUntil

def scheduleRecorded (scheduleKey : Str) : Bool := (db.rows scheduleKey).isSome

def slotClosed (slot : DuePolicy) (now : ℤ) : Bool :=
  db.activeSnooze slot.serviceKey now || db.scheduleRecorded slot.scheduleKey

/-! Transactions -/

def setRow (scheduleKey : Str) (row : Option ScheduleRow) : ScheduleDb :=
  { db with rows := Function.update db.rows scheduleKey row }

/-- The current policy still schedules a missed slot. -/
def missedSlotStillScheduled (calendar : Calendar) (slot : DuePolicy) (now : ℤ) : Bool :=
  match db.policies.find? (·.serviceKey = slot.serviceKey) with
  | none => false
  | some row =>
    row.autoUpdate && row.autoUpdateTime = some slot.autoUpdateTime &&
      decide (weekday (calendar.localDate slot.scheduledFor) ∈ autoUpdateDaysFromRow row) &&
      !db.activeSnooze slot.serviceKey now

/-- Each missed slot that is still scheduled and has no row yet gets one. -/
def claimMissed (calendar : Calendar) (now : ℤ) (db : ScheduleDb) : List DuePolicy → ScheduleDb × List DuePolicy
  | [] => (db,[])
  | slot :: rest =>
    if db.missedSlotStillScheduled calendar slot now ∧ db.scheduleRecorded slot.scheduleKey = false then
      let (db,claimed) := claimMissed calendar now (db.setRow slot.scheduleKey (some ⟨.missed,none,none⟩)) rest
      (db,slot :: claimed)
    else claimMissed calendar now db rest

/-- The claimed slots become one run of the history. -/
def recordRun (held : Str → Option Str) (claimed : List DuePolicy) : ScheduleDb :=
  if claimed = [] then db
  else
    { db with
      rows := fun key => if claimed.any (·.scheduleKey = key) then
          (db.rows key).map fun row => { row with runId := some db.nextRunId }
        else db.rows key
      missedRuns := db.missedRuns ++ [⟨db.nextRunId,claimed.map fun slot =>
        ⟨slot.serviceKey,slot.scheduleKey,slot.scheduledFor,slot.updateMode,
          (held slot.scheduleKey).getD autoUpdateHoldBusy⟩⟩]
      nextRunId := db.nextRunId + 1 }

def recordMissedSlots (calendar : Calendar) (now : ℤ) (held : Str → Option Str) (missed : List DuePolicy) :
    ScheduleDb :=
  let (db,claimed) := db.claimMissed calendar now missed
  db.recordRun held claimed

/-- All slots of a selection, unless one of them has a row. -/
def reserveScheduleRuns : ScheduleDb → List Str → Option ScheduleDb
  | db, [] => some db
  | db, key :: rest =>
    if db.scheduleRecorded key then none else (db.setRow key (some reservedRow)).reserveScheduleRuns rest

def releaseScheduleRuns (scheduleKeys : List Str) : ScheduleDb :=
  { db with rows := fun key =>
      if key ∈ scheduleKeys ∧ (db.rows key).any (fun row => row.runId = none ∧ row.status = .reserved) then none
      else db.rows key }

def queueScheduleRuns (scheduleKeys : List Str) (jobId : Str) : ScheduleDb :=
  { db with rows := fun key =>
      if key ∈ scheduleKeys then (db.rows key).map fun row => { row with status := .queued, jobId := some jobId }
      else db.rows key }

/-- A job reports how it went. -/
def updateScheduleRuns (scheduleKeys : List Str) (succeeded : Bool) (runId : Option ℕ) : ScheduleDb :=
  { db with rows := fun key =>
      if key ∈ scheduleKeys then
        (db.rows key).map fun row => { row with status := if succeeded then .success else .failure, runId }
      else db.rows key }

end ScheduleDb

/-! Choosing what to run -/

/-- A selection takes the slots of some due policy. -/
theorem ScheduleInput.selection_slot {input : ScheduleInput} {groups : List PendingStackGroup}
    {selection : AutoUpdateSelection} (h : input.autoUpdateSelection groups = some selection) :
    ∃ policy ∈ input.policies, policy.2.scheduleKey ∈ selection.scheduleKeys := by
  obtain ⟨mode,hmode,h⟩ := Option.bind_eq_some_iff.mp h
  obtain ⟨t,ht,h⟩ := Option.bind_eq_some_iff.mp h
  cases h
  obtain ⟨group,hg,item,hi,hready,service,hs,hnamed,policy,hl,-⟩ := (scheduledForMode_eq_some.mp ht).1
  have hp : policy ∈ (input.eligibleCandidates groups mode).flatMap (·.policies) :=
    mem_eligible_policies.mpr ⟨group,hg,item,hi,hready,service,hs,hnamed,hl⟩
  refine ⟨(serviceKey group.name service,policy),?_,?_⟩
  · obtain ⟨before,after,he,-⟩ := List.lookup_eq_some_iff.mp hl
    rw [he]
    simp
  · rw [mem_sortedSet]
    exact List.mem_map_of_mem hp

/-- The policies whose slots are not among the given ones. -/
def ScheduleInput.without (input : ScheduleInput) (scheduleKeys : List Str) : ScheduleInput :=
  { input with policies := input.policies.filter fun policy => policy.2.scheduleKey ∉ scheduleKeys }

theorem ScheduleInput.without_shorter {input : ScheduleInput} {groups : List PendingStackGroup}
    {selection : AutoUpdateSelection} (h : input.autoUpdateSelection groups = some selection) :
    (input.without selection.scheduleKeys).policies.length < input.policies.length := by
  obtain ⟨policy,hp,hk⟩ := input.selection_slot h
  apply List.length_filter_lt_length_iff_exists.mpr
  exact ⟨policy,hp,by simpa using hk⟩

/-- Modes are tried in turn until the plan of one can be applied. The slots of the others are held: with
a reason each, and the selection to run. Building a plan may fail. -/
def ScheduleInput.autoUpdateCandidate (input : ScheduleInput) (groups : List PendingStackGroup)
    (planCanApply : AutoUpdateSelection → Option Bool) : Option (List (Str × Str) × Option AutoUpdateSelection) :=
  match _h : input.autoUpdateSelection groups with
  | none => some ([],none)
  | some selection => match planCanApply selection with
    | none => none
    | some true => some (selection.deferredScheduleKeys.map (·,autoUpdateHoldOtherMode),some selection)
    | some false =>
      ((input.without selection.scheduleKeys).autoUpdateCandidate groups planCanApply).map fun (checked,result) =>
        (selection.scheduleKeys.map (·,autoUpdateHoldPlanBlocked) ++ checked,result)
termination_by input.policies.length
decreasing_by exact without_shorter _h

/-! Processes -/

/-- The pending updates of one check, and whether a plan for them can be built and applied. -/
structure PendingCheck where
  groups : List PendingStackGroup
  releaseSkips : SkipsByService
  dependencySnoozes : List DependencySnooze
  planCanApply : AutoUpdateSelection → Option Bool

inductive CheckOutcome where
  | raised
  | notReady
  | ready (check : PendingCheck)

inductive SubmitOutcome where
  | accepted (jobId : Str)
  | conflict (detail : Str)
  | failed

/-- How far a tick has come. -/
inductive TickPhase where
  | idle
  | reading (now : ℤ) (todo : List ServicePolicy) (policies missed : List DuePolicy)
  | gating (policies : List DuePolicy)
  | choosing (policies : List DuePolicy)
  | reserving (selection : AutoUpdateSelection)
  | submitting (selection : AutoUpdateSelection)
  | releasing (selection : AutoUpdateSelection) (reason : Str)
  | queueing (selection : AutoUpdateSelection) (jobId : Str)

/-- The memory of a process: the slots it holds with their reasons, and its tick. -/
structure SchedulerProcess where
  settings : SchedulerSettings
  startedAt : ℤ
  held : Str → Option Str := fun _ => none
  phase : TickPhase := .idle

namespace SchedulerProcess
variable (proc : SchedulerProcess)

def inWindow (now scheduledFor : ℤ) : Bool :=
  now < scheduledFor + autoUpdateGrace && proc.startedAt < scheduledFor + autoUpdateGrace

/-- One policy row: its slot is due, missed or left out. -/
def readSlot (db : ScheduleDb) (now : ℤ) (row : ServicePolicy) (policies missed : List DuePolicy) :
    List DuePolicy × List DuePolicy :=
  match proc.settings.slot now row with
  | none => (policies,missed)
  | some slot =>
    if (!proc.inWindow now slot.scheduledFor && (proc.held slot.scheduleKey).isNone) || db.slotClosed slot now then
      (policies,missed)
    else if proc.inWindow now slot.scheduledFor || now < slot.scheduledFor + autoUpdateMaxLate then
      (policies ++ [slot],missed)
    else (policies,missed ++ [slot])

/-- Slots that are not due are no longer held. -/
def prune (policies : List DuePolicy) : SchedulerProcess :=
  { proc with held := fun key => if policies.any (·.scheduleKey = key) then proc.held key else none }

/-- Slots not held yet are held for a reason. -/
def hold (scheduleKeys : List Str) (reason : Str) : SchedulerProcess :=
  { proc with held := fun key =>
      if key ∈ scheduleKeys then some ((proc.held key).getD reason) else proc.held key }

/-- Only the slots of a finished check are held. -/
def holdChecked (checked : List (Str × Str)) : SchedulerProcess :=
  { proc with held := fun key => checked.reverse.lookup key }

def move (phase : TickPhase) : SchedulerProcess := { proc with phase }

/-- The due policies by service. -/
def scheduleInput (policies : List DuePolicy) (check : PendingCheck) : ScheduleInput where
  updateMode := proc.settings.updateMode
  rules := proc.settings.rules
  policies := policies.map fun slot => (slot.serviceKey,slot.toAutoUpdatePolicy)
  releaseSkips := check.releaseSkips
  dependencySnoozes := check.dependencySnoozes

/-- Only a check that completes changes what is held. -/
def choose (policies : List DuePolicy) : CheckOutcome → SchedulerProcess
  | .ready check =>
    match (proc.scheduleInput policies check).autoUpdateCandidate check.groups check.planCanApply with
    | none => proc.move .idle
    | some (checked,none) => (proc.holdChecked checked).move .idle
    | some (checked,some selection) => (proc.holdChecked checked).move (.reserving selection)
  | _ => proc.move .idle

end SchedulerProcess

def busyHoldReason (activeError : Str) : Str :=
  let detail := ((strip activeError).reverse.dropWhile (· = '.')).reverse
  if detail = [] then autoUpdateHoldBusy else autoUpdateHoldBusy.dropLast ++ ": ".toList ++ detail ++ ".".toList

/-- A submitted job and the slots it runs. -/
structure ScheduledJob where
  jobId : Str
  scheduleKeys : List Str
  deriving DecidableEq, Repr

structure SchedulerState where
  db : ScheduleDb
  processes : ℕ → SchedulerProcess
  /-- All jobs that were ever submitted for slots. -/
  jobs : List ScheduledJob := []

inductive SchedulerAction where
  | editPolicies (policies : List ServicePolicy) (snoozes : List Snooze)
  | restart (p : ℕ) (settings : SchedulerSettings) (startedAt : ℤ)
  | readPolicies (p : ℕ) (now : ℤ)
  | readSlot (p : ℕ)
  | readFailed (p : ℕ)
  | recordMissed (p : ℕ) (committed : Bool)
  | gate (p : ℕ) (activeError : Str)
  | choose (p : ℕ) (outcome : CheckOutcome)
  | reserve (p : ℕ) (committed : Bool)
  | submit (p : ℕ) (outcome : SubmitOutcome)
  | release (p : ℕ) (committed : Bool)
  | queue (p : ℕ) (committed : Bool)
  | report (job : ScheduledJob) (succeeded : Bool) (runId : Option ℕ)

namespace SchedulerState

def put (s : SchedulerState) (p : ℕ) (proc : SchedulerProcess) : SchedulerState :=
  { s with processes := Function.update s.processes p proc }

/-- Ticks, edits from the web interface, restarts and reports of jobs, in any order. An exception ends
a tick. -/
def step : System SchedulerState SchedulerAction
  | s, .editPolicies policies snoozes => some { s with db := { s.db with policies, snoozes } }
  | s, .restart p settings startedAt => some (s.put p { settings, startedAt })
  | s, .readPolicies p now => match (s.processes p).phase with
    | .idle => some (s.put p ((s.processes p).move (.reading now s.db.autoUpdateRows [] [])))
    | _ => none
  | s, .readSlot p => match (s.processes p).phase with
    | .reading now (row :: todo) policies missed =>
      let (policies,missed) := (s.processes p).readSlot s.db now row policies missed
      some (s.put p ((s.processes p).move (.reading now todo policies missed)))
    | _ => none
  | s, .readFailed p => match (s.processes p).phase with
    | .reading _ _ _ _ => some (s.put p ((s.processes p).move .idle))
    | _ => none
  | s, .recordMissed p committed => match (s.processes p).phase with
    | .reading now [] policies missed =>
      let proc := s.processes p
      if missed ≠ [] ∧ committed = false then some (s.put p (proc.move .idle))
      else some { s.put p ((proc.prune policies).move (if policies = [] then .idle else .gating policies)) with
        db := if missed = [] then s.db else s.db.recordMissedSlots proc.settings.calendar now proc.held missed }
    | _ => none
  | s, .gate p activeError => match (s.processes p).phase with
    | .gating policies =>
      if activeError = [] then some (s.put p ((s.processes p).move (.choosing policies)))
      else some (s.put p
        (((s.processes p).hold (policies.map (·.scheduleKey)) (busyHoldReason activeError)).move .idle))
    | _ => none
  | s, .choose p outcome => match (s.processes p).phase with
    | .choosing policies => some (s.put p ((s.processes p).choose policies outcome))
    | _ => none
  | s, .reserve p committed => match (s.processes p).phase with
    | .reserving selection => match s.db.reserveScheduleRuns selection.scheduleKeys, committed with
      | some db, true => some { s.put p ((s.processes p).move (.submitting selection)) with db }
      | _, _ => some (s.put p ((s.processes p).move .idle))
    | _ => none
  | s, .submit p outcome => match (s.processes p).phase with
    | .submitting selection => match outcome with
      | .accepted jobId =>
        some { s.put p ((s.processes p).move (.queueing selection jobId)) with
          jobs := s.jobs ++ [⟨jobId,selection.scheduleKeys⟩] }
      | .conflict detail => some (s.put p ((s.processes p).move (.releasing selection (busyHoldReason detail))))
      | .failed => some (s.put p ((s.processes p).move (.releasing selection autoUpdateHoldSubmitFailed)))
    | _ => none
  | s, .release p committed => match (s.processes p).phase with
    | .releasing selection reason =>
      some { s.put p (((s.processes p).hold selection.scheduleKeys reason).move .idle) with
        db := if committed then s.db.releaseScheduleRuns selection.scheduleKeys else s.db }
    | _ => none
  | s, .queue p committed => match (s.processes p).phase with
    | .queueing selection jobId =>
      some { s.put p ((s.processes p).move .idle) with
        db := if committed then s.db.queueScheduleRuns selection.scheduleKeys jobId else s.db }
    | _ => none
  | s, .report job succeeded runId =>
    if job ∈ s.jobs then some { s with db := s.db.updateScheduleRuns job.scheduleKeys succeeded runId } else none

/-- Every step, by what the process that takes it was doing. -/
inductive Moved (s : SchedulerState) : SchedulerAction → SchedulerState → Prop
  | editPolicies (policies snoozes) :
    Moved s (.editPolicies policies snoozes) { s with db := { s.db with policies, snoozes } }
  | restart (p settings startedAt) : Moved s (.restart p settings startedAt) (s.put p { settings, startedAt })
  | readPolicies {p} (now) (hp : (s.processes p).phase = .idle) :
    Moved s (.readPolicies p now) (s.put p ((s.processes p).move (.reading now s.db.autoUpdateRows [] [])))
  | readSlot {p now row todo policies missed}
    (hp : (s.processes p).phase = .reading now (row :: todo) policies missed) :
    Moved s (.readSlot p) (s.put p ((s.processes p).move (.reading now todo
      ((s.processes p).readSlot s.db now row policies missed).1
      ((s.processes p).readSlot s.db now row policies missed).2)))
  | readFailed {p now todo policies missed} (hp : (s.processes p).phase = .reading now todo policies missed) :
    Moved s (.readFailed p) (s.put p ((s.processes p).move .idle))
  | recordFailed {p now policies missed} (hp : (s.processes p).phase = .reading now [] policies missed) :
    Moved s (.recordMissed p false) (s.put p ((s.processes p).move .idle))
  | recordMissed {p now policies missed} (committed) (hp : (s.processes p).phase = .reading now [] policies missed) :
    Moved s (.recordMissed p committed)
      { s.put p (((s.processes p).prune policies).move (if policies = [] then .idle else .gating policies)) with
        db := if missed = [] then s.db else
          s.db.recordMissedSlots (s.processes p).settings.calendar now (s.processes p).held missed }
  | gate {p policies} (hp : (s.processes p).phase = .gating policies) :
    Moved s (.gate p []) (s.put p ((s.processes p).move (.choosing policies)))
  | busy {p policies} (activeError) (hp : (s.processes p).phase = .gating policies) :
    Moved s (.gate p activeError) (s.put p
      (((s.processes p).hold (policies.map (·.scheduleKey)) (busyHoldReason activeError)).move .idle))
  | choose {p policies} (outcome) (hp : (s.processes p).phase = .choosing policies) :
    Moved s (.choose p outcome) (s.put p ((s.processes p).choose policies outcome))
  | reserve {p selection db} (hp : (s.processes p).phase = .reserving selection)
    (hr : s.db.reserveScheduleRuns selection.scheduleKeys = some db) :
    Moved s (.reserve p true) { s.put p ((s.processes p).move (.submitting selection)) with db }
  | notReserved {p selection committed} (hp : (s.processes p).phase = .reserving selection)
    (hr : committed = true → s.db.reserveScheduleRuns selection.scheduleKeys = none) :
    Moved s (.reserve p committed) (s.put p ((s.processes p).move .idle))
  | submit {p selection} (jobId) (hp : (s.processes p).phase = .submitting selection) :
    Moved s (.submit p (.accepted jobId)) { s.put p ((s.processes p).move (.queueing selection jobId)) with
      jobs := s.jobs ++ [⟨jobId,selection.scheduleKeys⟩] }
  | refused {p selection} (outcome reason) (hp : (s.processes p).phase = .submitting selection) :
    Moved s (.submit p outcome) (s.put p ((s.processes p).move (.releasing selection reason)))
  | release {p selection reason} (committed) (hp : (s.processes p).phase = .releasing selection reason) :
    Moved s (.release p committed)
      { s.put p (((s.processes p).hold selection.scheduleKeys reason).move .idle) with
        db := if committed then s.db.releaseScheduleRuns selection.scheduleKeys else s.db }
  | queue {p selection jobId} (committed) (hp : (s.processes p).phase = .queueing selection jobId) :
    Moved s (.queue p committed) { s.put p ((s.processes p).move .idle) with
      db := if committed then s.db.queueScheduleRuns selection.scheduleKeys jobId else s.db }
  | report {job} (succeeded runId) (hj : job ∈ s.jobs) : Moved s (.report job succeeded runId)
      { s with db := s.db.updateScheduleRuns job.scheduleKeys succeeded runId }

theorem step_moved {s t : SchedulerState} {a : SchedulerAction} (h : step s a = some t) : Moved s a t := by
  cases a with
  | editPolicies policies snoozes =>
    cases h
    exact .editPolicies policies snoozes
  | restart p settings startedAt =>
    cases h
    exact .restart p settings startedAt
  | readPolicies p now =>
    simp only [step] at h
    split at h
    · rename_i hp
      cases h
      exact .readPolicies now hp
    · cases h
  | readSlot p =>
    simp only [step] at h
    split at h
    · rename_i hp
      cases h
      exact .readSlot hp
    · cases h
  | readFailed p =>
    simp only [step] at h
    split at h
    · rename_i hp
      cases h
      exact .readFailed hp
    · cases h
  | recordMissed p committed =>
    simp only [step] at h
    split at h
    · rename_i hp
      split at h
      · rename_i hfailed
        obtain ⟨-,rfl⟩ := hfailed
        cases h
        exact .recordFailed hp
      · cases h
        exact .recordMissed committed hp
    · cases h
  | gate p activeError =>
    simp only [step] at h
    split at h
    · rename_i hp
      split at h
      · rename_i hfree
        subst hfree
        cases h
        exact .gate hp
      · cases h
        exact .busy activeError hp
    · cases h
  | choose p outcome =>
    simp only [step] at h
    split at h
    · rename_i hp
      cases h
      exact .choose outcome hp
    · cases h
  | reserve p committed =>
    simp only [step] at h
    split at h
    · rename_i selection hp
      split at h
      · rename_i hr
        cases h
        exact .reserve hp hr
      · rename_i hnot
        cases h
        refine .notReserved hp fun hc => Option.eq_none_iff_forall_ne_some.mpr fun db hr => ?_
        exact hnot db hr hc
    · cases h
  | submit p outcome =>
    simp only [step] at h
    split at h
    · rename_i hp
      cases outcome with
      | accepted jobId =>
        cases h
        exact .submit jobId hp
      | conflict detail =>
        cases h
        exact .refused _ _ hp
      | failed =>
        cases h
        exact .refused _ _ hp
    · cases h
  | release p committed =>
    simp only [step] at h
    split at h
    · rename_i hp
      cases h
      exact .release committed hp
    · cases h
  | queue p committed =>
    simp only [step] at h
    split at h
    · rename_i hp
      cases h
      exact .queue committed hp
    · cases h
  | report job succeeded runId =>
    simp only [step] at h
    split at h
    · rename_i hj
      cases h
      exact .report succeeded runId hj
    · cases h

/-- A new database, and processes that just started. -/
def fresh (settings : ℕ → SchedulerSettings) (startedAt : ℕ → ℤ) : SchedulerState where
  db := { policies := [], snoozes := [], rows := fun _ => none, missedRuns := [], nextRunId := 1 }
  processes := fun p => { settings := settings p, startedAt := startedAt p }

end SchedulerState
end Wudup
