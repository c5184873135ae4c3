import Wudup.ScheduleRows
import Wudup.Library.Dict
import Wudup.Library.Text

/-! When a slot that a process holds stays held or gets a row, from one tick to the next. -/
namespace Wudup
open Library

namespace ScheduleInput
variable {input : ScheduleInput} {groups : List PendingStackGroup} {mode key : Str}

/-- The slot is that of a service of an item that is ready in the mode. -/
def Applicable (input : ScheduleInput) (groups : List PendingStackGroup) (mode key : Str) : Prop :=
  ∃ group ∈ groups, ∃ item ∈ group.items, input.ItemReady mode group.name item ∧
    ∃ service ∈ item.services, service ≠ [] ∧
      ∃ policy, input.policies.lookup (serviceKey group.name service) = some policy ∧ policy.scheduleKey = key

/-- A slot belongs to one service. -/
def KeysOwn (input : ScheduleInput) : Prop :=
  ∀ a ∈ input.policies, ∀ b ∈ input.policies, a.2.scheduleKey = b.2.scheduleKey → a.1 = b.1

theorem mem_scheduleKeysOf : key ∈ input.scheduleKeysOf groups mode ↔ input.Applicable groups mode key := by
  rw [scheduleKeysOf,List.mem_map]
  constructor
  · intro ⟨policy,hp,hk⟩
    obtain ⟨group,hg,item,hi,hready,service,hs,hnamed,hl⟩ := mem_eligible_policies.mp hp
    exact ⟨group,hg,item,hi,hready,service,hs,hnamed,policy,hl,hk⟩
  · intro ⟨group,hg,item,hi,hready,service,hs,hnamed,policy,hl,hk⟩
    exact ⟨policy,mem_eligible_policies.mpr ⟨group,hg,item,hi,hready,service,hs,hnamed,hl⟩,hk⟩

theorem Applicable.mem_eligibleModes (h : input.Applicable groups mode key) : mode ∈ input.eligibleModes groups := by
  obtain ⟨group,hg,item,hi,hready,service,hs,hnamed,policy,hl,-⟩ := h
  exact ScheduleInput.mem_eligibleModes.mpr ⟨policy.scheduledFor,group,hg,item,hi,hready,service,hs,hnamed,policy,hl,rfl⟩

/-- A selection takes the slots of its mode, and defers those of the others. -/
theorem selection_keys {selection : AutoUpdateSelection} (h : input.autoUpdateSelection groups = some selection) :
    (∀ key, key ∈ selection.scheduleKeys ↔ input.Applicable groups selection.updateMode key) ∧
      ∀ mode key, input.Applicable groups mode key → mode ≠ selection.updateMode →
        key ∈ selection.deferredScheduleKeys := by
  obtain ⟨mode,hmode,h⟩ := Option.bind_eq_some_iff.mp h
  obtain ⟨t,ht,h⟩ := Option.bind_eq_some_iff.mp h
  cases h
  constructor
  · intro key
    rw [mem_sortedSet,mem_scheduleKeysOf]
  · intro other key ha hne
    rw [mem_sortedSet,List.mem_flatMap]
    exact ⟨other,List.mem_filter.mpr ⟨ha.mem_eligibleModes,by simpa using hne⟩,mem_scheduleKeysOf.mpr ha⟩

/-- Where a slot is applicable, something is selected. -/
theorem Applicable.selected (h : input.Applicable groups mode key) :
    ∃ selection, input.autoUpdateSelection groups = some selection := by
  have hmem := h.mem_eligibleModes
  cases hmin : (input.eligibleModes groups).argmin fun mode => (input.scheduledForMode groups mode).getD 0 with
  | none => simp [List.argmin_eq_none.mp hmin] at hmem
  | some first =>
    obtain ⟨t,hslot⟩ := ScheduleInput.mem_eligibleModes.mp (List.argmin_mem hmin)
    obtain ⟨t',ht'⟩ := exists_scheduledFor hslot
    simp only [autoUpdateSelection,hmin,ht',Option.bind_eq_bind,Option.bind_some]
    exact ⟨_,rfl⟩

theorem lookup_filter {α β : Type} [BEq α] [LawfulBEq α] {entries : List (α × β)} {keep : α × β → Bool} {k : α}
    {v : β} (h : entries.lookup k = some v) (hk : keep (k,v) = true) :
    (entries.filter keep).lookup k = some v := by
  induction entries with
  | nil => cases h
  | cons entry rest ih =>
    obtain ⟨k',v'⟩ := entry
    rw [List.lookup_cons] at h
    by_cases he : k = k'
    · subst he
      obtain rfl : v' = v := by simpa using h
      rw [List.filter_cons_of_pos hk]
      simp
    · have hne : (k == k') = false := by simpa using he
      rw [hne] at h
      rw [List.filter_cons]
      split
      · rw [List.lookup_cons,hne]
        exact ih h
      · exact ih h

theorem KeysOwn.without (h : input.KeysOwn) (keys : List Str) : (input.without keys).KeysOwn :=
  fun a ha b hb => h a (List.mem_filter.mp ha).1 b (List.mem_filter.mp hb).1

/-- Without the slots of one mode, those of the other modes stay applicable. -/
theorem Applicable.without (hown : input.KeysOwn) {selection : AutoUpdateSelection}
    (hsel : input.autoUpdateSelection groups = some selection) (hne : mode ≠ selection.updateMode)
    (h : input.Applicable groups mode key) :
    (input.without selection.scheduleKeys).Applicable groups mode key := by
  have hkept : ∀ service policy, input.policies.lookup service = some policy → input.policyMode policy = mode →
      (input.without selection.scheduleKeys).policies.lookup service = some policy := by
    intro service policy hl hmode
    apply lookup_filter hl
    rw [decide_eq_true_eq]
    intro hm
    obtain ⟨group,hg,item,hi,hready,other,ho,hnamed,policy',hl',hk⟩ := ((selection_keys hsel).1 _).mp hm
    obtain ⟨policy'',hl'',hmode'⟩ := (hready.allowed other ho hnamed).due
    rw [hl'] at hl''
    obtain rfl := Option.some.inj hl''
    have hsame := hown _ (mem_of_lookup hl') _ (mem_of_lookup hl) hk
    dsimp only at hsame
    rw [← hsame,hl'] at hl
    obtain rfl := Option.some.inj hl
    exact hne (hmode.symm.trans hmode')
  obtain ⟨group,hg,item,hi,hready,service,hs,hnamed,policy,hl,hk⟩ := h
  have hitem : (input.without selection.scheduleKeys).ItemReady mode group.name item := by
    constructor
    · exact hready.untagged
    · exact hready.served
    · intro other ho hnamed'
      obtain ⟨⟨policy',hl',hmode⟩,hwaits,hskips⟩ := hready.allowed other ho hnamed'
      exact ⟨⟨policy',hkept _ policy' hl' hmode,hmode⟩,hwaits,hskips⟩
  obtain ⟨policy',hl',hmode⟩ := (hready.allowed service hs hnamed).due
  rw [hl] at hl'
  obtain rfl := Option.some.inj hl'
  exact ⟨group,hg,item,hi,hitem,service,hs,hnamed,policy,hkept _ policy hl hmode,hk⟩

/-- A check that completes holds or selects every slot that is applicable. -/
theorem autoUpdateCandidate_keeps {planCanApply : AutoUpdateSelection → Option Bool}
    {checked : List (Str × Str)} {result : Option AutoUpdateSelection} (hown : input.KeysOwn)
    (h : input.autoUpdateCandidate groups planCanApply = some (checked,result))
    (ha : input.Applicable groups mode key) :
    key ∈ checked.map (·.1) ∨ ∃ selection, result = some selection ∧ key ∈ selection.scheduleKeys := by
  fun_induction input.autoUpdateCandidate groups planCanApply generalizing checked with
  | case1 input hsel =>
    obtain ⟨selection,hs⟩ := ha.selected
    simp [hs] at hsel
  | case2 input selection hsel hplan => cases h
  | case3 input selection hsel hplan =>
    cases h
    obtain ⟨htaken,hdeferred⟩ := selection_keys hsel
    by_cases hmode : mode = selection.updateMode
    · exact .inr ⟨selection,rfl,(htaken key).mpr (hmode ▸ ha)⟩
    · have hk := hdeferred mode key ha hmode
      simp [hk]
  | case4 input selection hsel hplan ih =>
    obtain ⟨⟨checked',result'⟩,hrest,he⟩ := Option.map_eq_some_iff.mp h
    cases he
    by_cases hmode : mode = selection.updateMode
    · have hk := ((selection_keys hsel).1 key).mpr (hmode ▸ ha)
      simp [hk]
    · rcases ih (hown.without _) hrest (ha.without hown hsel hmode) with hk | hk
      · left
        rw [List.map_append,List.mem_append]
        exact .inr hk
      · exact .inr hk

theorem selection_nodup {selection : AutoUpdateSelection} (h : input.autoUpdateSelection groups = some selection) :
    selection.scheduleKeys.Nodup := by
  obtain ⟨mode,-,h⟩ := Option.bind_eq_some_iff.mp h
  obtain ⟨t,-,h⟩ := Option.bind_eq_some_iff.mp h
  cases h
  exact nodup_sortedSet _

theorem autoUpdateCandidate_nodup {planCanApply : AutoUpdateSelection → Option Bool} {checked : List (Str × Str)}
    {selection : AutoUpdateSelection}
    (h : input.autoUpdateCandidate groups planCanApply = some (checked,some selection)) :
    selection.scheduleKeys.Nodup := by
  fun_induction input.autoUpdateCandidate groups planCanApply generalizing checked with
  | case1 => cases h
  | case2 => cases h
  | case3 input selection' hsel =>
    cases h
    exact selection_nodup hsel
  | case4 input selection' hsel hplan ih =>
    obtain ⟨⟨checked',result'⟩,hrest,he⟩ := Option.map_eq_some_iff.mp h
    cases he
    exact ih hrest

end ScheduleInput

/-! Slots of policies -/

/-- A slot is named after its service, date and time. -/
def DuePolicy.Formed (calendar : Calendar) (slot : DuePolicy) : Prop :=
  ∃ date updateTime, '|' ∉ updateTime ∧
    slot.scheduleKey = autoUpdateScheduleKey slot.serviceKey (isoDate date) updateTime calendar.timezoneName

theorem slot_formed {settings : SchedulerSettings} {now : ℤ} {row : ServicePolicy} {slot : DuePolicy}
    (h : settings.slot now row = some slot) : slot.Formed settings.calendar := by
  obtain ⟨updateTime,-,h⟩ := Option.bind_eq_some_iff.mp h
  obtain ⟨⟨date,scheduledFor⟩,hoccurrence,h⟩ := Option.bind_eq_some_iff.mp h
  cases h
  obtain ⟨time,htime,-⟩ := Option.bind_eq_some_iff.mp hoccurrence
  exact ⟨date,updateTime,settings.calendar.parseTime_plain updateTime time htime,rfl⟩

/-- The service can be read off the name of a slot. -/
theorem Formed.service {calendar : Calendar} {a b : DuePolicy} (ha : a.Formed calendar) (hb : b.Formed calendar)
    (h : a.scheduleKey = b.scheduleKey) : a.serviceKey = b.serviceKey := by
  obtain ⟨date,time,htime,hkey⟩ := ha
  obtain ⟨date',time',htime',hkey'⟩ := hb
  rw [hkey,hkey',autoUpdateScheduleKey,autoUpdateScheduleKey] at h
  have hdates : a.serviceKey ++ '|' :: (isoDate date ++ '|' :: time) =
      b.serviceKey ++ '|' :: (isoDate date' ++ '|' :: time') := by
    have hzone : (a.serviceKey ++ '|' :: (isoDate date ++ '|' :: time)) ++ '|' :: calendar.timezoneName =
        (b.serviceKey ++ '|' :: (isoDate date' ++ '|' :: time')) ++ '|' :: calendar.timezoneName := by
      simpa using h
    exact List.append_cancel_right hzone
  have hservices : a.serviceKey ++ '|' :: isoDate date = b.serviceKey ++ '|' :: isoDate date' := by
    have hcut := congrArg (cutLast '|') (show (a.serviceKey ++ '|' :: isoDate date) ++ '|' :: time =
      (b.serviceKey ++ '|' :: isoDate date') ++ '|' :: time' by simpa using hdates)
    rw [cutLast_append htime,cutLast_append htime'] at hcut
    exact congrArg Prod.fst (Option.some.inj hcut)
  have hplain := fun d => not_mem_isoDate (c := '|') rfl (by decide) d
  have hcut := congrArg (cutLast '|') hservices
  rw [cutLast_append (hplain date),cutLast_append (hplain date')] at hcut
  exact congrArg Prod.fst (Option.some.inj hcut)

theorem keysOwn_scheduleInput {proc : SchedulerProcess} {policies : List DuePolicy} {check : PendingCheck}
    (h : ∀ slot ∈ policies, slot.Formed proc.settings.calendar) : (proc.scheduleInput policies check).KeysOwn := by
  intro a ha b hb hk
  obtain ⟨slot,hs,rfl⟩ := List.mem_map.mp ha
  obtain ⟨slot',hs',rfl⟩ := List.mem_map.mp hb
  exact Formed.service (h slot hs) (h slot' hs') hk

/-! One process -/

/-- The process that takes a step. -/
def SchedulerAction.process : SchedulerAction → Option ℕ
  | .restart p _ _ => some p
  | .readPolicies p _ => some p
  | .readSlot p => some p
  | .readFailed p => some p
  | .recordMissed p _ => some p
  | .gate p _ => some p
  | .choose p _ => some p
  | .reserve p _ => some p
  | .submit p _ => some p
  | .release p _ => some p
  | .queue p _ => some p
  | _ => none

/-- The slots found due so far. -/
def TickPhase.due : TickPhase → List DuePolicy
  | .reading _ _ policies _ => policies
  | .gating policies => policies
  | .choosing policies => policies
  | _ => []

def TickPhase.isIdle : TickPhase → Bool
  | .idle => true
  | _ => false

theorem isIdle_iff {phase : TickPhase} : phase.isIdle = true ↔ phase = .idle := by
  cases phase <;> simp [TickPhase.isIdle]

namespace SchedulerProcess

def holds (proc : SchedulerProcess) (key : Str) : Prop := (proc.held key).isSome

/-- Where the tick has a slot that it will hold again or reserve. -/
def Tracks (proc : SchedulerProcess) (key : Str) : Prop := match proc.phase with
  | .reading now todo policies missed => proc.holds key ∧
      ((∃ row ∈ todo, ∃ slot, proc.settings.slot now row = some slot ∧ slot.scheduleKey = key) ∨
        ∃ slot ∈ policies ++ missed, slot.scheduleKey = key)
  | .gating policies => proc.holds key ∧ ∃ slot ∈ policies, slot.scheduleKey = key
  | .choosing policies => proc.holds key ∧ ∃ slot ∈ policies, slot.scheduleKey = key
  | .reserving selection => proc.holds key ∨ key ∈ selection.scheduleKeys
  | .releasing selection _ => proc.holds key ∨ key ∈ selection.scheduleKeys
  | _ => proc.holds key

end SchedulerProcess

namespace SchedulerState

/-- A row tells of the slot, whether reserved, queued, run or missed. -/
def recorded (s : SchedulerState) (key : Str) : Prop := ∃ row, s.db.rows key = some row

def SlotKept (s : SchedulerState) (p : ℕ) (key : Str) : Prop := (s.processes p).holds key ∨ s.recorded key

/-- The process lives on; the slot is still the latest of its policy, unsnoozed and, when it is missed, on
one of its days; a check that completes finds its update; its reservation succeeds; and no other process
releases a row of it that the tick has already met. -/
def Undisturbed (p : ℕ) (key : Str) (s : SchedulerState) : SchedulerAction → Prop
  | .restart q _ _ => q ≠ p
  | .readPolicies q now => q = p → s.recorded key ∨ ∃ row ∈ s.db.autoUpdateRows, ∃ slot,
      (s.processes p).settings.slot now row = some slot ∧ slot.scheduleKey = key
  | .readSlot q => q = p → ∀ now row todo policies missed slot,
      (s.processes p).phase = .reading now (row :: todo) policies missed →
      (s.processes p).settings.slot now row = some slot → slot.scheduleKey = key →
        s.recorded key ∨ s.db.activeSnooze slot.serviceKey now = false
  | .recordMissed q _ => q = p → ∀ now policies missed, (s.processes p).phase = .reading now [] policies missed →
      ∀ slot ∈ missed, slot.scheduleKey = key → s.recorded key ∨
        s.db.missedSlotStillScheduled (s.processes p).settings.calendar slot now = true
  | .choose q (.ready check) => q = p → ∀ policies, (s.processes p).phase = .choosing policies →
      s.recorded key ∨
        ∃ mode, ((s.processes p).scheduleInput policies check).Applicable check.groups mode key
  | .reserve q committed => q = p → ∀ selection, (s.processes p).phase = .reserving selection →
      key ∈ selection.scheduleKeys → s.recorded key ∨
        committed = true ∧ ∀ other ∈ selection.scheduleKeys, ¬s.recorded other
  | .release q true => q ≠ p → ∀ selection reason, (s.processes q).phase = .releasing selection reason →
      key ∈ selection.scheduleKeys → (s.processes p).Tracks key
  | _ => True

/-- What a tick keeps: the slot is tracked or recorded, and its data are well formed. -/
structure Follows (s : SchedulerState) (p : ℕ) (key : Str) : Prop where
  formed : ∀ slot ∈ (s.processes p).phase.due, slot.Formed (s.processes p).settings.calendar
  nodup : ∀ selection, (s.processes p).phase = .reserving selection → selection.scheduleKeys.Nodup
  kept : (s.processes p).Tracks key ∨ s.recorded key

variable {s t : SchedulerState} {action : SchedulerAction} {p : ℕ} {key : Str}

@[simp] theorem processes_put {q : ℕ} {proc : SchedulerProcess} :
    (s.put q proc).processes p = if p = q then proc else s.processes p := by
  by_cases h : p = q <;> simp [put,h]

/-- A step of one process leaves the others alone. -/
theorem process_kept (hs : step s action = some t) (hp : action.process ≠ some p) :
    t.processes p = s.processes p := by
  cases step_moved hs with
  | editPolicies => rfl
  | report => rfl
  | _ =>
    simp only [SchedulerAction.process,ne_eq,Option.some.injEq] at hp
    simp [Ne.symm hp]

theorem holds_hold {proc : SchedulerProcess} {keys : List Str} {reason : Str} :
    (proc.hold keys reason).holds key ↔ key ∈ keys ∨ proc.holds key := by
  by_cases hk : key ∈ keys <;> simp [SchedulerProcess.hold,SchedulerProcess.holds,hk]

theorem holds_prune {proc : SchedulerProcess} {policies : List DuePolicy} :
    (proc.prune policies).holds key ↔ (∃ slot ∈ policies, slot.scheduleKey = key) ∧ proc.holds key := by
  by_cases hk : ∃ slot ∈ policies, slot.scheduleKey = key <;>
    simp [SchedulerProcess.prune,SchedulerProcess.holds,hk]

theorem holds_holdChecked {proc : SchedulerProcess} {checked : List (Str × Str)} :
    (proc.holdChecked checked).holds key ↔ key ∈ checked.map (·.1) := by
  rw [SchedulerProcess.holds,SchedulerProcess.holdChecked,List.lookup_isSome_iff]
  simp

/-- Between ticks a slot is tracked when it is held. -/
theorem tracks_of_idle {proc : SchedulerProcess} (proc' : SchedulerProcess) (he : proc = proc'.move .idle)
    (h : proc'.holds key) : proc.Tracks key := by
  subst he
  exact h

/-- A recorded slot is recorded still, unless it is held again or tracked by another process's release. -/
theorem recorded_kept (hc : s.Undisturbed p key action) (hs : step s action = some t) (hr : s.recorded key) :
    (t.processes p).Tracks key ∨ t.recorded key := by
  obtain ⟨row,hrow⟩ := hr
  rcases row_kept hs hrow with hrow' | ⟨q,selection,reason,rfl,hphase,hk⟩
  · exact .inr hrow'
  · left
    by_cases hq : q = p
    · subst hq
      simp only [step,hphase] at hs
      cases hs
      exact tracks_of_idle ((s.processes q).hold selection.scheduleKeys reason) (by simp)
        (holds_hold.mpr (.inl hk))
    · have hp : (SchedulerAction.release q true).process ≠ some p := fun he => hq (Option.some.inj he)
      rw [process_kept hs hp]
      exact hc hq selection reason hphase hk

section
variable {proc : SchedulerProcess} {db : ScheduleDb}

/-- Reading a row keeps the slot among those to read or those found. -/
theorem readSlot_tracks {now : ℤ} {row : ServicePolicy} {todo : List ServicePolicy} {policies missed : List DuePolicy}
    (hheld : proc.holds key) (hfree : db.scheduleRecorded key = false)
    (hsnooze : ∀ slot, proc.settings.slot now row = some slot → slot.scheduleKey = key →
      db.activeSnooze slot.serviceKey now = false)
    (h : (∃ row' ∈ row :: todo, ∃ slot, proc.settings.slot now row' = some slot ∧ slot.scheduleKey = key) ∨
      ∃ slot ∈ policies ++ missed, slot.scheduleKey = key) :
    (∃ row' ∈ todo, ∃ slot, proc.settings.slot now row' = some slot ∧ slot.scheduleKey = key) ∨
      ∃ slot ∈ (proc.readSlot db now row policies missed).1 ++ (proc.readSlot db now row policies missed).2,
        slot.scheduleKey = key := by
  have hgrow : ∀ slot ∈ policies ++ missed,
      slot ∈ (proc.readSlot db now row policies missed).1 ++ (proc.readSlot db now row policies missed).2 := by
    intro slot hm
    unfold SchedulerProcess.readSlot
    split
    · exact hm
    · split
      · exact hm
      · split <;> simp only [List.mem_append] at hm ⊢ <;> tauto
  rcases h with ⟨row',hm,slot,hslot,hk⟩ | ⟨slot,hm,hk⟩
  · rcases List.mem_cons.mp hm with rfl | hm
    · right
      have hopen : db.slotClosed slot now = false := by
        simp [ScheduleDb.slotClosed,hsnooze slot hslot hk,hk,hfree]
      have hsome : (proc.held slot.scheduleKey).isNone = false := by
        rw [hk]
        simpa [SchedulerProcess.holds] using hheld
      refine ⟨slot,?_,hk⟩
      simp only [SchedulerProcess.readSlot,hslot,hsome,hopen,Bool.and_false,Bool.or_false,Bool.false_eq_true,
        if_false]
      split <;> simp
    · exact .inl ⟨row',hm,slot,hslot,hk⟩
  · exact .inr ⟨slot,hgrow slot hm,hk⟩

theorem readSlot_formed {now : ℤ} {row : ServicePolicy} {policies missed : List DuePolicy}
    (h : ∀ slot ∈ policies, slot.Formed proc.settings.calendar) :
    ∀ slot ∈ (proc.readSlot db now row policies missed).1, slot.Formed proc.settings.calendar := by
  intro slot hm
  unfold SchedulerProcess.readSlot at hm
  split at hm
  · exact h slot hm
  · rename_i found hfound
    split at hm
    · exact h slot hm
    · split at hm
      · rcases List.mem_append.mp hm with hm | hm
        · exact h slot hm
        · obtain rfl := List.mem_singleton.mp hm
          exact slot_formed hfound
      · exact h slot hm

/-- A completed check holds the slot or selects it. -/
theorem choose_tracks {policies : List DuePolicy} {outcome : CheckOutcome}
    (hf : ∀ slot ∈ policies, slot.Formed proc.settings.calendar) (hheld : proc.holds key)
    (ha : ∀ check, outcome = .ready check → ∃ mode,
      (proc.scheduleInput policies check).Applicable check.groups mode key) :
    (proc.choose policies outcome).Tracks key := by
  unfold SchedulerProcess.choose
  split
  · rename_i check
    obtain ⟨mode,happlicable⟩ := ha check rfl
    split
    · exact hheld
    · rename_i checked hcheck
      rcases ScheduleInput.autoUpdateCandidate_keeps (keysOwn_scheduleInput hf) hcheck happlicable with
        hk | ⟨selection,hresult,-⟩
      · exact tracks_of_idle _ rfl (holds_holdChecked.mpr hk)
      · cases hresult
    · rename_i checked selection hcheck
      rcases ScheduleInput.autoUpdateCandidate_keeps (keysOwn_scheduleInput hf) hcheck happlicable with
        hk | ⟨selection',hresult,hk⟩
      · have hheld' : (proc.holdChecked checked).holds key := holds_holdChecked.mpr hk
        exact .inl hheld'
      · cases hresult
        exact .inr hk
  · exact hheld

theorem choose_selection {policies : List DuePolicy} {outcome : CheckOutcome} :
    (proc.choose policies outcome).phase.due = [] ∧ ∀ selection,
      (proc.choose policies outcome).phase = .reserving selection → selection.scheduleKeys.Nodup := by
  unfold SchedulerProcess.choose
  split
  · split
    · exact ⟨rfl,fun _ h => by cases h⟩
    · exact ⟨rfl,fun _ h => by cases h⟩
    · rename_i checked selection hcheck
      refine ⟨rfl,fun _ h => ?_⟩
      cases h
      exact ScheduleInput.autoUpdateCandidate_nodup hcheck
  · exact ⟨rfl,fun _ h => by cases h⟩

end

/-- A slot that is tracked without a row is tracked after the step, or has a row by then. -/
theorem tracked_kept (h : s.Follows p key) (hc : s.Undisturbed p key action) (hs : step s action = some t)
    (hp : action.process = some p) (hn : ¬s.recorded key) (ht : (s.processes p).Tracks key) :
    (t.processes p).Tracks key ∨ t.recorded key := by
  cases step_moved hs with
  | editPolicies => cases hp
  | report => cases hp
  | restart => exact absurd (Option.some.inj hp) hc
  | @readPolicies q now hphase =>
    obtain rfl := Option.some.inj hp
    have hheld : (s.processes q).holds key := by simpa [SchedulerProcess.Tracks,hphase] using ht
    rcases hc rfl with hr | hrow
    · exact absurd hr hn
    · left
      simp only [processes_put,if_true]
      exact ⟨hheld,.inl hrow⟩
  | @readSlot _ now row todo policies missed hphase =>
    obtain rfl := Option.some.inj hp
    have hfree : s.db.scheduleRecorded key = false :=
      Bool.eq_false_iff.mpr fun hsome => hn (Option.isSome_iff_exists.mp hsome)
    simp only [SchedulerProcess.Tracks,hphase] at ht
    left
    simp only [processes_put,if_true]
    refine ⟨ht.1,readSlot_tracks ht.1 hfree ?_ ht.2⟩
    intro slot hslot hk
    exact (hc rfl now row todo policies missed slot hphase hslot hk).resolve_left hn
  | @readFailed q _ _ _ _ hphase =>
    obtain rfl := Option.some.inj hp
    simp only [SchedulerProcess.Tracks,hphase] at ht
    exact .inl (tracks_of_idle (s.processes q) (by simp) ht.1)
  | @recordFailed q _ _ _ hphase =>
    obtain rfl := Option.some.inj hp
    simp only [SchedulerProcess.Tracks,hphase] at ht
    exact .inl (tracks_of_idle (s.processes q) (by simp) ht.1)
  | @recordMissed _ now policies missed committed hphase =>
    obtain rfl := Option.some.inj hp
    simp only [SchedulerProcess.Tracks,hphase] at ht
    obtain ⟨hheld,hfound⟩ := ht
    rcases hfound with ⟨row,hrow,-⟩ | ⟨slot,hslot,hk⟩
    · cases hrow
    · rcases List.mem_append.mp hslot with hdue | hmissed
      · left
        have hne : policies ≠ [] := List.ne_nil_of_mem hdue
        simp only [processes_put,if_true,hne,if_false]
        exact ⟨holds_prune.mpr ⟨⟨slot,hdue,hk⟩,hheld⟩,slot,hdue,hk⟩
      · right
        have hne : missed ≠ [] := List.ne_nil_of_mem hmissed
        have hstill := (hc rfl now policies missed hphase slot hmissed hk).resolve_left hn
        obtain ⟨row,hrow⟩ := ScheduleDb.recordMissed_claims hmissed hstill
        simp only [recorded,hne,if_false]
        exact ⟨row,hk ▸ hrow⟩
  | gate hphase =>
    obtain rfl := Option.some.inj hp
    simp only [SchedulerProcess.Tracks,hphase] at ht
    left
    simp only [processes_put,if_true]
    exact ht
  | busy _ hphase =>
    obtain rfl := Option.some.inj hp
    simp only [SchedulerProcess.Tracks,hphase] at ht
    exact .inl (tracks_of_idle _ (by simp; rfl) (holds_hold.mpr (.inr ht.1)))
  | @choose _ policies outcome hphase =>
    obtain rfl := Option.some.inj hp
    simp only [SchedulerProcess.Tracks,hphase] at ht
    left
    simp only [processes_put,if_true]
    apply choose_tracks _ ht.1
    · intro check he
      subst he
      exact (hc rfl policies hphase).resolve_left hn
    · have hf := h.formed
      rw [hphase] at hf
      exact hf
  | @reserve _ selection db hphase hdb =>
    obtain rfl := Option.some.inj hp
    simp only [SchedulerProcess.Tracks,hphase] at ht
    obtain ⟨-,-,rfl⟩ := ScheduleDb.reserve_spec hdb
    by_cases hk : key ∈ selection.scheduleKeys
    · exact .inr ⟨reservedRow,if_pos hk⟩
    · left
      simp only [processes_put,if_true]
      exact ht.resolve_right hk
  | @notReserved q selection committed hphase hnone =>
    obtain rfl := Option.some.inj hp
    simp only [SchedulerProcess.Tracks,hphase] at ht
    have hk : key ∉ selection.scheduleKeys := by
      intro hk
      obtain ⟨hcommitted,hfree⟩ := (hc rfl selection hphase hk).resolve_left hn
      have hrows : ∀ other ∈ selection.scheduleKeys, s.db.rows other = none := fun other ho =>
        Option.eq_none_iff_forall_ne_some.mpr fun row hrow => hfree other ho ⟨row,hrow⟩
      obtain ⟨db,hdb⟩ := ScheduleDb.exists_reserve (h.nodup selection hphase) hrows
      rw [hnone hcommitted] at hdb
      cases hdb
    exact .inl (tracks_of_idle (s.processes q) (by simp) (ht.resolve_right hk))
  | submit _ hphase =>
    obtain rfl := Option.some.inj hp
    simp only [SchedulerProcess.Tracks,hphase] at ht
    left
    simp only [processes_put,if_true]
    exact ht
  | refused _ _ hphase =>
    obtain rfl := Option.some.inj hp
    simp only [SchedulerProcess.Tracks,hphase] at ht
    left
    simp only [processes_put,if_true]
    exact .inl ht
  | release _ hphase =>
    obtain rfl := Option.some.inj hp
    simp only [SchedulerProcess.Tracks,hphase] at ht
    exact .inl (tracks_of_idle _ (by simp; rfl) (holds_hold.mpr ht.symm))
  | @queue q _ _ _ hphase =>
    obtain rfl := Option.some.inj hp
    simp only [SchedulerProcess.Tracks,hphase] at ht
    exact .inl (tracks_of_idle (s.processes q) (by simp) ht)

theorem formed_kept (h : s.Follows p key) (hc : s.Undisturbed p key action) (hs : step s action = some t)
    (hp : action.process = some p) :
    (∀ slot ∈ (t.processes p).phase.due, slot.Formed (t.processes p).settings.calendar) ∧
      ∀ selection, (t.processes p).phase = .reserving selection → selection.scheduleKeys.Nodup := by
  cases step_moved hs with
  | editPolicies => cases hp
  | report => cases hp
  | restart => exact absurd (Option.some.inj hp) hc
  | readSlot hphase =>
    obtain rfl := Option.some.inj hp
    have hf := h.formed
    rw [hphase] at hf
    simp only [processes_put,if_true]
    exact ⟨readSlot_formed hf,fun _ h => by cases h⟩
  | @recordMissed _ now policies missed committed hphase =>
    obtain rfl := Option.some.inj hp
    have hf := h.formed
    rw [hphase] at hf
    simp only [processes_put,if_true]
    by_cases hne : policies = []
    · simp [SchedulerProcess.move,TickPhase.due,hne]
    · simp only [hne,if_false]
      exact ⟨hf,fun _ h => by cases h⟩
  | gate hphase =>
    obtain rfl := Option.some.inj hp
    have hf := h.formed
    rw [hphase] at hf
    simp only [processes_put,if_true]
    exact ⟨hf,fun _ h => by cases h⟩
  | @choose q _ outcome =>
    obtain rfl := Option.some.inj hp
    simp only [processes_put,if_true]
    obtain ⟨hdue,hnodup⟩ := @choose_selection (s.processes q) _ outcome
    rw [hdue]
    exact ⟨by simp,hnodup⟩
  | _ =>
    obtain rfl := Option.some.inj hp
    simp [SchedulerProcess.move,TickPhase.due]

theorem follows_step (s : SchedulerState) (action : SchedulerAction) (t : SchedulerState) (h : s.Follows p key)
    (hc : s.Undisturbed p key action) (hs : step s action = some t) : t.Follows p key := by
  by_cases hp : action.process = some p
  · obtain ⟨hformed,hnodup⟩ := formed_kept h hc hs hp
    refine ⟨hformed,hnodup,?_⟩
    by_cases hr : s.recorded key
    · exact recorded_kept hc hs hr
    · exact tracked_kept h hc hs hp hr (h.kept.resolve_right hr)
  · have hsame := process_kept hs hp
    refine ⟨hsame ▸ h.formed,hsame ▸ h.nodup,?_⟩
    rcases h.kept with ht | hr
    · exact .inl (hsame ▸ ht)
    · exact recorded_kept hc hs hr

/-- In every run that is not disturbed, a slot held between ticks stays held or has a row whenever no tick
is under way. -/
theorem held_slot_kept {actions : List SchedulerAction} (hidle : (s.processes p).phase = .idle)
    (hheld : (s.processes p).holds key) (hc : System.Along step (fun s action => s.Undisturbed p key action) s actions)
    (hr : System.run step s actions = some t) (hend : (t.processes p).phase = .idle) : t.SlotKept p key := by
  have hstart : s.Follows p key := by
    constructor
    · simp [hidle,TickPhase.due]
    · simp [hidle]
    · left
      simpa only [SchedulerProcess.Tracks,hidle] using hheld
  have hkept := (System.run_invariant follows_step hstart hc hr).kept
  simpa only [SlotKept,SchedulerProcess.Tracks,hend] using hkept

/-! A late slot -/

/-- A Saturday slot that is held, and due no longer. -/
def heldSaturday : SchedulerState where
  db := { policies := [saturdayPolicy], snoozes := [], rows := fun _ => none, missedRuns := [], nextRunId := 1 }
  processes := fun _ => { settings := utcSettings, startedAt := minutesLate (-30),
                          held := fun key => if key = saturdayKey then some autoUpdateHoldBusy else none }

/-- A late tick up to its reservation. -/
def lateTick : List SchedulerAction :=
  [.readPolicies 0 (minutesLate 10),.readSlot 0,.recordMissed 0 true,.gate 0 [],.choose 0 (.ready pendingWeb)]

def saturdaySlot : DuePolicy where
  serviceKey := "a/web".toList
  updateMode := "live".toList
  scheduleKey := saturdayKey
  scheduledFor := minutesLate 0
  autoUpdateTime := "14:30".toList
  autoUpdateDays := ["sat".toList]

theorem saturday_slot : utcSettings.slot (minutesLate 10) saturdayPolicy = some saturdaySlot := by decide +kernel

theorem saturday_applicable :
    ((heldSaturday.processes 0).scheduleInput [saturdaySlot] pendingWeb).Applicable pendingWeb.groups "live".toList
      saturdayKey := by
  rw [← ScheduleInput.mem_scheduleKeysOf]
  decide +kernel

/-- The reservation of a late slot fails: it was held, its policy stands unsnoozed, its update is applicable,
and it is neither held nor recorded when the tick is over. -/
theorem held_slot_lost :
    heldSaturday.db.policies = [saturdayPolicy] ∧ heldSaturday.db.snoozes = [] ∧
      utcSettings.slot (minutesLate 10) saturdayPolicy = some saturdaySlot ∧
      saturdaySlot.scheduleKey = saturdayKey ∧
      ((heldSaturday.processes 0).scheduleInput [saturdaySlot] pendingWeb).Applicable pendingWeb.groups
        "live".toList saturdayKey ∧
      (heldSaturday.processes 0).phase = .idle ∧ (heldSaturday.processes 0).holds saturdayKey ∧
      ∃ t, System.run step heldSaturday (lateTick ++ [.reserve 0 false]) = some t ∧
        (t.processes 0).phase = .idle ∧ ¬t.SlotKept 0 saturdayKey := by
  have hrun : (System.run step heldSaturday (lateTick ++ [.reserve 0 false])).map (fun t =>
      ((t.processes 0).phase.isIdle,((t.processes 0).held saturdayKey).isSome,(t.db.rows saturdayKey).isSome)) =
        some (true,false,false) := by
    decide +kernel
  obtain ⟨t,hr,ht⟩ := Option.map_eq_some_iff.mp hrun
  simp only [Prod.mk.injEq] at ht
  obtain ⟨hidle,hheld,hrow⟩ := ht
  refine ⟨rfl,rfl,saturday_slot,rfl,saturday_applicable,rfl,rfl,t,hr,isIdle_iff.mp hidle,?_⟩
  rintro (h | ⟨row,h⟩)
  · exact absurd (hheld.symm.trans h) (by decide)
  · simp [h] at hrow

theorem held_slot_kept_late :
    ∃ t, System.run step heldSaturday (lateTick ++ [.reserve 0 true,.submit 0 .failed,.release 0 true]) = some t ∧
      t.SlotKept 0 saturdayKey := by
  have hread : (heldSaturday.processes 0).readSlot heldSaturday.db (minutesLate 10) saturdayPolicy [] [] =
      ([saturdaySlot],[]) := by
    decide +kernel
  have hrow : saturdayPolicy ∈ heldSaturday.db.autoUpdateRows := by
    simp [ScheduleDb.autoUpdateRows,heldSaturday,saturdayPolicy]
  have hc : System.Along step (fun s action => s.Undisturbed 0 saturdayKey action) heldSaturday
      (lateTick ++ [.reserve 0 true,.submit 0 .failed,.release 0 true]) := by
    refine ⟨fun _ => .inr ⟨saturdayPolicy,hrow,saturdaySlot,saturday_slot,rfl⟩,?_⟩
    intro reading hreading
    cases hreading
    refine ⟨fun _ _ _ _ _ _ _ _ _ _ => .inr rfl,?_⟩
    intro found hfound
    cases hfound
    constructor
    · intro _ now policies missed hphase slot hm
      cases hphase
      exact absurd hm List.not_mem_nil
    intro due hdue
    cases hdue
    refine ⟨trivial,?_⟩
    intro free hfree
    cases hfree
    constructor
    · intro _ policies hphase
      cases hphase
      refine .inr ⟨"live".toList,ScheduleInput.mem_scheduleKeysOf.mp ?_⟩
      decide +kernel
    intro chosen hchosen
    cases hchosen
    constructor
    · exact fun _ selection _ _ => .inr ⟨rfl,fun other _ ⟨row,hrow⟩ => by cases hrow⟩
    · exact fun _ _ => ⟨trivial,fun _ _ => ⟨fun h => absurd rfl h,fun _ _ => trivial⟩⟩
  have hrun : (System.run step heldSaturday
      (lateTick ++ [.reserve 0 true,.submit 0 .failed,.release 0 true])).map (fun t =>
        (t.processes 0).phase.isIdle) = some true := by
    decide +kernel
  obtain ⟨t,hr,ht⟩ := Option.map_eq_some_iff.mp hrun
  exact ⟨t,hr,held_slot_kept (s := heldSaturday) rfl rfl hc hr (isIdle_iff.mp ht)⟩

end SchedulerState
end Wudup
