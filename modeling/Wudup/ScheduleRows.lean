import Wudup.SchedulerTicks

/-! What the transactions of the schedulers do to the rows of their slots. -/
namespace Wudup
open Library

namespace ScheduleDb
variable {db after : ScheduleDb}

def missedKeys (db : ScheduleDb) : List Str :=
  db.missedRuns.flatMap fun run => run.slots.map (·.scheduleKey)

/-- A reservation takes distinct slots without rows, and changes nothing else. -/
theorem reserve_spec {keys : List Str} (h : db.reserveScheduleRuns keys = some after) :
    keys.Nodup ∧ (∀ key ∈ keys, db.rows key = none) ∧
      after = { db with rows := fun key => if key ∈ keys then some reservedRow else db.rows key } := by
  induction keys generalizing db with
  | nil =>
    obtain rfl := Option.some.inj h
    simp
  | cons key rest ih =>
    rw [reserveScheduleRuns] at h
    split at h
    · cases h
    · rename_i hnew
      have hnone : db.rows key = none := by simpa [scheduleRecorded] using hnew
      obtain ⟨hnodup,hfree,rfl⟩ := ih h
      have hkey : key ∉ rest := fun hm => by simpa [setRow] using hfree key hm
      constructor
      · exact List.nodup_cons.mpr ⟨hkey,hnodup⟩
      constructor
      · intro other ho
        rcases List.mem_cons.mp ho with rfl | ho
        · exact hnone
        · have hne : other ≠ key := fun he => hkey (he ▸ ho)
          simpa [setRow,hne] using hfree other ho
      · simp only [setRow,ScheduleDb.mk.injEq,true_and,and_true]
        funext other
        by_cases he : other = key
        · subst he
          simp [hkey]
        · simp [he]

/-- Missed slots are claimed like reservations, but those with a row are passed over. -/
theorem claimMissed_spec {calendar : Calendar} {now : ℤ} {missed claimed : List DuePolicy}
    (h : claimMissed calendar now db missed = (after,claimed)) :
    (claimed.map (·.scheduleKey)).Nodup ∧ (∀ slot ∈ claimed, db.rows slot.scheduleKey = none) ∧
      after = { db with rows := fun key =>
        if key ∈ claimed.map (·.scheduleKey) then some ⟨.missed,none,none⟩ else db.rows key } := by
  induction missed generalizing db claimed with
  | nil =>
    obtain ⟨rfl,rfl⟩ := Prod.mk.inj h
    simp
  | cons slot rest ih =>
    rw [claimMissed] at h
    split at h
    · rename_i hnew
      have hnone : db.rows slot.scheduleKey = none := by simpa [scheduleRecorded] using hnew.2
      obtain ⟨db',claimed',hrest⟩ : ∃ db' claimed', claimMissed calendar now
          (db.setRow slot.scheduleKey (some ⟨.missed,none,none⟩)) rest = (db',claimed') := ⟨_,_,rfl⟩
      rw [hrest] at h
      obtain ⟨rfl,rfl⟩ := Prod.mk.inj h
      obtain ⟨hnodup,hfree,rfl⟩ := ih hrest
      have hkey : ∀ other ∈ claimed', other.scheduleKey ≠ slot.scheduleKey := by
        intro other ho he
        simpa [setRow,he] using hfree other ho
      constructor
      · rw [List.map_cons,List.nodup_cons]
        refine ⟨?_,hnodup⟩
        intro hm
        obtain ⟨other,ho,he⟩ := List.mem_map.mp hm
        exact hkey other ho he
      constructor
      · intro other ho
        rcases List.mem_cons.mp ho with rfl | ho
        · exact hnone
        · simpa [setRow,hkey other ho] using hfree other ho
      · simp only [setRow,ScheduleDb.mk.injEq,true_and,and_true]
        funext other
        by_cases he : other = slot.scheduleKey
        · subst he
          simp
        · simp [he]
    · exact ih h

/-- What recording missed slots changes: some slots without rows get one, and are named in the history. -/
theorem recordMissed_spec (db : ScheduleDb) (calendar : Calendar) (now : ℤ) (held : Str → Option Str)
    (missed : List DuePolicy) :
    ∃ keys : List Str, keys.Nodup ∧ (∀ key ∈ keys, db.rows key = none) ∧
      (db.recordMissedSlots calendar now held missed).missedKeys = db.missedKeys ++ keys ∧
      (db.recordMissedSlots calendar now held missed).rows = fun key =>
        if key ∈ keys then some ⟨.missed,some db.nextRunId,none⟩ else db.rows key := by
  obtain ⟨db',claimed,h⟩ : ∃ db' claimed, claimMissed calendar now db missed = (db',claimed) := ⟨_,_,rfl⟩
  obtain ⟨hnodup,hfree,rfl⟩ := claimMissed_spec h
  refine ⟨claimed.map (·.scheduleKey),hnodup,?_,?_,?_⟩
  · intro key hk
    obtain ⟨slot,hs,rfl⟩ := List.mem_map.mp hk
    exact hfree slot hs
  · rw [recordMissedSlots,h]
    by_cases hc : claimed = []
    · simp [recordRun,hc,missedKeys]
    · simp [recordRun,hc,missedKeys,Function.comp_def]
  · rw [recordMissedSlots,h]
    by_cases hc : claimed = []
    · simp [recordRun,hc]
    · funext key
      by_cases hk : ∃ slot ∈ claimed, slot.scheduleKey = key
      · simp [recordRun,hc,hk]
      · simp [recordRun,hc,hk]

theorem recordMissed_row (db : ScheduleDb) {calendar : Calendar} {now : ℤ} {held : Str → Option Str}
    {missed : List DuePolicy} {key : Str} {row : ScheduleRow} (hrow : db.rows key = some row) :
    (db.recordMissedSlots calendar now held missed).rows key = some row := by
  obtain ⟨keys,-,hfree,-,hrows⟩ := db.recordMissed_spec calendar now held missed
  have hno : key ∉ keys := fun hm => by simp [hfree key hm] at hrow
  simp [hrows,hno,hrow]

theorem claimMissed_row {calendar : Calendar} {now : ℤ} {missed : List DuePolicy} {key : Str} {row : ScheduleRow}
    (hrow : db.rows key = some row) : (claimMissed calendar now db missed).1.rows key = some row := by
  obtain ⟨-,hfree,he⟩ := @claimMissed_spec db _ calendar now missed _ rfl
  have hno : key ∉ (claimMissed calendar now db missed).2.map (·.scheduleKey) := by
    intro hm
    obtain ⟨slot,hs,rfl⟩ := List.mem_map.mp hm
    simp [hfree slot hs] at hrow
  rw [he]
  simpa [hno] using hrow

/-- A missed slot that is still scheduled has a row afterwards. -/
theorem claimMissed_claims {calendar : Calendar} {now : ℤ} {missed : List DuePolicy} {slot : DuePolicy}
    (hm : slot ∈ missed) (hstill : db.missedSlotStillScheduled calendar slot now = true) :
    ∃ row, (claimMissed calendar now db missed).1.rows slot.scheduleKey = some row := by
  induction missed generalizing db with
  | nil => cases hm
  | cons first rest ih =>
    rw [claimMissed]
    rcases List.mem_cons.mp hm with rfl | hm
    · split
      · exact ⟨⟨.missed,none,none⟩,claimMissed_row (by simp [setRow])⟩
      · rename_i hrecorded
        have hsome : db.rows slot.scheduleKey ≠ none := by simpa [hstill,scheduleRecorded] using hrecorded
        obtain ⟨row,hrow⟩ := Option.ne_none_iff_exists'.mp hsome
        exact ⟨row,claimMissed_row hrow⟩
    · split
      · exact ih hm hstill
      · exact ih hm hstill

theorem recordRun_row {held : Str → Option Str} {claimed : List DuePolicy} {key : Str} {row : ScheduleRow}
    (hrow : db.rows key = some row) : ∃ row', (db.recordRun held claimed).rows key = some row' := by
  by_cases hc : claimed = []
  · simp [recordRun,hc,hrow]
  · by_cases hk : claimed.any (·.scheduleKey = key) = true
    · simp only [recordRun,hc,hk,hrow,if_true,if_false,Option.map_some]
      exact ⟨_,rfl⟩
    · simp only [recordRun,hc,hk,hrow,if_false]
      exact ⟨row,rfl⟩

theorem recordMissed_claims {calendar : Calendar} {now : ℤ} {held : Str → Option Str} {missed : List DuePolicy}
    {slot : DuePolicy} (hm : slot ∈ missed) (hstill : db.missedSlotStillScheduled calendar slot now = true) :
    ∃ row, (db.recordMissedSlots calendar now held missed).rows slot.scheduleKey = some row := by
  obtain ⟨row,hrow⟩ := claimMissed_claims hm hstill
  exact recordRun_row hrow

theorem reserve_row {keys : List Str} (h : db.reserveScheduleRuns keys = some after) {key : Str}
    {row : ScheduleRow} (hrow : db.rows key = some row) : after.rows key = some row := by
  obtain ⟨-,hfree,rfl⟩ := reserve_spec h
  have hno : key ∉ keys := fun hm => by simp [hfree key hm] at hrow
  simp [hno,hrow]

/-- Distinct slots without rows can be reserved. -/
theorem exists_reserve {keys : List Str} (hn : keys.Nodup) (hfree : ∀ key ∈ keys, db.rows key = none) :
    ∃ after, db.reserveScheduleRuns keys = some after := by
  induction keys generalizing db with
  | nil => exact ⟨db,rfl⟩
  | cons key rest ih =>
    obtain ⟨hkey,hn⟩ := List.nodup_cons.mp hn
    have hnew : db.scheduleRecorded key = false := by simp [scheduleRecorded,hfree key (by simp)]
    rw [reserveScheduleRuns,hnew]
    apply ih hn
    intro other ho
    have hne : other ≠ key := fun he => hkey (he ▸ ho)
    simpa [setRow,hne] using hfree other (by simp [ho])

end ScheduleDb

namespace SchedulerState

/-- Rows only go when a process releases its reservation. -/
theorem row_kept {s t : SchedulerState} {action : SchedulerAction} (hs : step s action = some t) {key : Str}
    {row : ScheduleRow} (hrow : s.db.rows key = some row) :
    (∃ row', t.db.rows key = some row') ∨ ∃ p selection reason, action = .release p true ∧
      (s.processes p).phase = .releasing selection reason ∧ key ∈ selection.scheduleKeys := by
  cases step_moved hs with
  | @recordMissed _ now policies missed =>
    left
    dsimp only
    split
    · exact ⟨row,hrow⟩
    · exact ⟨row,s.db.recordMissed_row hrow⟩
  | reserve _ hr => exact .inl ⟨row,ScheduleDb.reserve_row hr hrow⟩
  | @release p selection reason committed hphase =>
    cases committed
    · exact .inl ⟨row,hrow⟩
    · by_cases hk : key ∈ selection.scheduleKeys
      · exact .inr ⟨p,selection,reason,rfl,hphase,hk⟩
      · exact .inl ⟨row,by simp [ScheduleDb.releaseScheduleRuns,hk,hrow]⟩
  | @queue p selection jobId committed =>
    left
    cases committed
    · exact ⟨row,hrow⟩
    · by_cases hk : key ∈ selection.scheduleKeys <;> simp [ScheduleDb.queueScheduleRuns,hk,hrow]
  | @report job =>
    left
    by_cases hk : key ∈ job.scheduleKeys <;> simp [ScheduleDb.updateScheduleRuns,hk,hrow]
  | _ => exact .inl ⟨row,hrow⟩

end SchedulerState

/-! One policy -/

/-- A calendar in UTC. -/
def utcCalendar : Calendar where
  timezoneName := "UTC".toList
  localDate := fun now => now / microsPerDay
  instant := fun date time => date * microsPerDay + time
  parseTime := fun text => if text = "14:30".toList then some (52200 * microsPerSecond) else none
  parseTime_plain := by
    intro text time h
    split at h
    · rename_i he
      rw [he]
      decide
    · cases h

def utcSettings : SchedulerSettings := ⟨utcCalendar,"live".toList,⟨fun _ _ => []⟩⟩

/-- One service is updated on Saturdays. -/
def saturdayPolicy : ServicePolicy :=
  ⟨"a/web".toList,[],true,some "14:30".toList,some (.array [.string "sat".toList])⟩

def saturdayKey : Str := "a/web|2026-05-30|14:30|UTC".toList

/-- Some minutes after the slot. -/
def minutesLate (minutes : ℤ) : ℤ := 739766 * microsPerDay + (870 + minutes) * 60 * microsPerSecond

/-- A newer digest is pending for the service. -/
def pendingWeb : PendingCheck where
  groups := [⟨"a".toList,[⟨1,"nginx".toList,"sha256:2".toList,[],["web".toList]⟩]⟩]
  releaseSkips := []
  dependencySnoozes := []
  planCanApply := fun _ => some true

end Wudup
