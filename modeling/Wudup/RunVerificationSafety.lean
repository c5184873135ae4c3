import Wudup.RunVerification

/-! A line that needs no follow-up succeeded wherever it matched. -/
namespace Wudup
open Library

namespace RunAudit

/-! The preflight refuses the stacks it finds something wrong with -/

/-- The requirements that are stale or failed. -/
def DigestOutcomes.wrong (outcomes : DigestOutcomes) : List DigestRequirementKey := outcomes.stale ++ outcomes.failed

section
variable (verifyTagDigest : Str → Str → TagDigestResult) {matched : List Match}

/-- What is found wrong in a stack is of the stack, and the stack is not ok then. -/
structure FindsWrong (stackIndex : ℕ) (found next : DigestOutcomes × Bool) : Prop where
  ok : next.2 = true → found.2 = true
  wrong : ∀ key ∈ next.1.wrong, key ∈ found.1.wrong ∨ key.1 = stackIndex ∧ next.2 = false

theorem FindsWrong.trans {stackIndex : ℕ} {found next last : DigestOutcomes × Bool}
    (h : FindsWrong stackIndex found next) (hlast : FindsWrong stackIndex next last) :
    FindsWrong stackIndex found last := by
  refine ⟨fun hok => h.ok (hlast.ok hok),?_⟩
  intro key hk
  rcases hlast.wrong key hk with hk | hk
  · rcases h.wrong key hk with hk | ⟨hindex,hnot⟩
    · exact .inl hk
    · refine .inr ⟨hindex,Bool.eq_false_iff.mpr ?_⟩
      intro hok
      rw [hlast.ok hok] at hnot
      cases hnot
  · exact .inr hk

theorem preflightRequirement_finds (stackIndex : ℕ) (found : DigestOutcomes × Bool) (requirement : ℕ × Str × Str) :
    FindsWrong stackIndex found (preflightRequirement verifyTagDigest stackIndex found requirement) := by
  obtain ⟨lineNo,expectedImage,expected⟩ := requirement
  unfold preflightRequirement
  dsimp only
  cases verifyTagDigest expectedImage expected with
  | ok => exact ⟨id,fun key hk => .inl hk⟩
  | inconclusive => exact ⟨id,fun key hk => .inl hk⟩
  | manifestIntegrityMismatch =>
    refine ⟨fun h => absurd h Bool.false_ne_true,?_⟩
    intro key hk
    simp only [DigestOutcomes.wrong,List.mem_append,List.mem_singleton] at hk ⊢
    rcases hk with hk | hk | rfl
    · exact .inl (.inl hk)
    · exact .inl (.inr hk)
    · simp
  | staleDigest =>
    refine ⟨fun h => absurd h Bool.false_ne_true,?_⟩
    intro key hk
    simp only [DigestOutcomes.wrong,List.mem_append,List.mem_singleton] at hk ⊢
    rcases hk with (hk | rfl) | hk
    · exact .inl (.inl hk)
    · simp
    · exact .inl (.inr hk)

theorem preflightRequirements_find (stackIndex : ℕ) (requirements : List (ℕ × Str × Str))
    (found : DigestOutcomes × Bool) :
    FindsWrong stackIndex found (requirements.foldl (preflightRequirement verifyTagDigest stackIndex) found) := by
  induction requirements generalizing found with
  | nil => exact ⟨id,fun key hk => .inl hk⟩
  | cons requirement rest ih =>
    rw [List.foldl_cons]
    exact (preflightRequirement_finds verifyTagDigest stackIndex found requirement).trans (ih _)

/-- Every stack with something wrong has a status, and every status is a failure. -/
structure Refuses (found : DigestOutcomes × List (ℕ × StackStatus)) : Prop where
  wrong : ∀ key ∈ found.1.wrong, key.1 ∈ found.2.map (·.1)
  failure : ∀ entry ∈ found.2, entry.2.status = .failure

theorem preflightStack_refuses {found : DigestOutcomes × List (ℕ × StackStatus)} (h : Refuses found)
    (stack : ComposeStack) : Refuses (preflightStack verifyTagDigest matched found stack) := by
  have hfinds : FindsWrong stack.index (found.1,true) (preflightExpectedDigests verifyTagDigest stack
      (matched.filter (·.stack.index = stack.index)) found.1) :=
    preflightRequirements_find verifyTagDigest stack.index _ _
  have hwrong := hfinds.wrong
  unfold preflightStack
  dsimp only
  split
  · rename_i hok
    refine ⟨?_,h.failure⟩
    intro key hk
    rcases hwrong key hk with hold | ⟨-,hnot⟩
    · exact h.wrong key hold
    · rw [hok] at hnot
      cases hnot
  · constructor
    · intro key hk
      rw [List.map_append,List.mem_append]
      rcases hwrong key hk with hold | ⟨hindex,-⟩
      · exact .inl (h.wrong key hold)
      · exact .inr (by simp [hindex])
    · intro entry he
      rcases List.mem_append.mp he with he | he
      · exact h.failure entry he
      · rw [List.mem_singleton.mp he]

theorem preflight_refuses (matched : List Match) :
    Refuses (preflightMatchingStackDigests verifyTagDigest matched) := by
  unfold preflightMatchingStackDigests
  generalize stacksToUpdate matched = found
  have hstart : Refuses (({},[]) : DigestOutcomes × List (ℕ × StackStatus)) :=
    ⟨by simp [DigestOutcomes.wrong],by simp⟩
  revert hstart
  generalize (({},[]) : DigestOutcomes × List (ℕ × StackStatus)) = start
  intro hstart
  induction found generalizing start with
  | nil => exact hstart
  | cons stack rest ih =>
    rw [List.foldl_cons]
    exact ih _ (preflightStack_refuses verifyTagDigest hstart stack)

end

/-! Rows -/

/-- A resolved row is of a line that failed nowhere. -/
def SoundRow (matched : List Match) (statuses : StackStatuses) (row : PendingUpdateRecord) : Prop :=
  row.status = .resolved → row.lineNo ∉ failedLineNumbers matched statuses

section
variable {matched : List Match} {statuses : StackStatuses} {rows : List PendingUpdateRecord}

theorem succeeded_of_not_failed {lineNo : ℕ} (h : lineNo ∉ failedLineNumbers matched statuses) {m : Match}
    (hm : m ∈ matched) (hline : m.target.lineNo = lineNo) : succeeded (statuses m.stack.index) = true := by
  by_contra hnot
  apply h
  apply List.mem_filter.mpr
  constructor
  · rw [List.mem_insertionSort,mem_orderedUnique]
    exact List.mem_map.mpr ⟨m,hm,hline⟩
  · exact List.any_eq_true.mpr ⟨m,hm,by simp [hline,hnot]⟩

theorem not_failed_of_unmatched {lineNo : ℕ} (h : firstMatchOfLine matched lineNo = none) :
    lineNo ∉ failedLineNumbers matched statuses := by
  intro hfailed
  have hline := (List.mem_filter.mp hfailed).1
  rw [List.mem_insertionSort,mem_orderedUnique] at hline
  obtain ⟨m,hm,hl⟩ := List.mem_map.mp hline
  exact List.find?_eq_none.mp h m hm (by simp [hl])

theorem updatePendingUpdate_sound (h : ∀ row ∈ rows, SoundRow matched statuses row) {lineNo : ℕ}
    {status : PendingStatus} (hstatus : status = .resolved → lineNo ∉ failedLineNumbers matched statuses)
    (statusReason : String) (found : Option (Str × Match)) :
    ∀ row ∈ updatePendingUpdate lineNo status statusReason found rows, SoundRow matched statuses row := by
  intro row hrow
  obtain ⟨old,hold,rfl⟩ := List.mem_map.mp hrow
  by_cases hline : old.lineNo = lineNo
  · cases found with
    | none =>
      simp only [hline,if_true]
      exact fun hr => hline ▸ hstatus hr
    | some found =>
      simp only [hline,if_true]
      exact fun hr => hline ▸ hstatus hr
  · rw [if_neg hline]
    exact h old hold

theorem markFailedPending_sound (digests : RunDigests) (attempted : List Match) (failedLines : List ℕ)
    (h : ∀ row ∈ rows, SoundRow matched statuses row) :
    ∀ row ∈ markFailedPending digests attempted statuses failedLines rows, SoundRow matched statuses row := by
  unfold markFailedPending
  refine List.foldlRecOn (motive := fun rows => ∀ row ∈ rows, SoundRow matched statuses row)
    (orderedUnique failedLines) _ h ?_
  intro rows hrows lineNo hl
  split
  · exact hrows
  · apply updatePendingUpdate_sound hrows
    intro hresolved
    cases hresolved

theorem markSuccessfulPending_sound (h : ∀ row ∈ rows, SoundRow matched statuses row) :
    ∀ row ∈ markSuccessfulPending matched statuses rows, SoundRow matched statuses row := by
  unfold markSuccessfulPending
  refine List.foldlRecOn (motive := fun rows => ∀ row ∈ rows, SoundRow matched statuses row)
    (matchedLines matched) _ h ?_
  intro rows hrows lineNo hl
  split
  · exact hrows
  · rename_i hfine
    split
    · exact hrows
    · exact updatePendingUpdate_sound hrows (fun _ => hfine) _ _

theorem startedRows_sound (targets : List WudTarget) (removeLines skippedTags : List ℕ) :
    ∀ row ∈ startedRows targets matched removeLines skippedTags, SoundRow matched statuses row := by
  intro row hrow
  obtain ⟨target,-,rfl⟩ := List.mem_map.mp hrow
  cases hfirst : firstMatchOfLine matched target.lineNo with
  | some m =>
    intro hresolved
    cases hresolved
  | none =>
    intro hresolved
    dsimp only at hresolved ⊢
    split
    · exact not_failed_of_unmatched hfirst
    · exact not_failed_of_unmatched hfirst

end

end RunAudit

namespace AuditedRun
open RunAudit
variable {run : AuditedRun}

/-- Nothing is wrong with the digests of a stack that succeeded. -/
theorem not_wrong_of_succeeded {key : DigestRequirementKey} (h : succeeded (run.statuses key.1) = true) :
    key ∉ run.digests.preflight.wrong := by
  intro hk
  have hrefuses := preflight_refuses run.verifyTagDigest run.matched
  obtain ⟨entry,hentry,hindex⟩ := List.mem_map.mp (hrefuses.wrong key hk)
  unfold statuses at h
  split at h
  · cases h
  · cases hl : run.preflight.2.lookup key.1 with
    | none =>
      have hnone := List.lookup_eq_none_iff.mp hl entry hentry
      simp [hindex] at hnone
    | some status =>
      have hmem : (key.1,status) ∈ run.preflight.2 := by
        obtain ⟨before,after,hsplit,-⟩ := List.lookup_eq_some_iff.mp hl
        rw [hsplit]
        exact List.mem_append_right _ List.mem_cons_self
      rw [hl] at h
      have hfailure : status.status = .failure := hrefuses.failure _ hmem
      have hsuccess : status.status = .success := of_decide_eq_true h
      rw [hfailure] at hsuccess
      cases hsuccess

/-- The event of a match whose stack succeeded is a success. -/
theorem eventStatus_of_succeeded {m : Match} (h : succeeded (run.statuses m.stack.index) = true) :
    (eventStatusForMatch run.digests run.statuses m).status = .success := by
  have hwrong : ∀ key : DigestRequirementKey, key.1 = m.stack.index → key ∉ run.digests.preflight.wrong :=
    fun key hkey => not_wrong_of_succeeded (by rw [hkey]; exact h)
  have hkey := hwrong (expectedDigestKey m) rfl
  rw [DigestOutcomes.wrong,List.mem_append,not_or] at hkey
  obtain ⟨status,hstatus,hsuccess⟩ := (Option.any_eq_true _ _).mp h
  have hsuccess : status.status = .success := of_decide_eq_true hsuccess
  have hstack : (run.digests.preflight.stale ++ run.digests.preflight.failed).any (·.1 = m.stack.index) = false := by
    apply List.any_eq_false.mpr
    intro key hk hindex
    exact hwrong key (of_decide_eq_true hindex) hk
  have houtcome : run.digests.preflight.outcome (expectedDigestKey m) = .viable ∨
      run.digests.preflight.outcome (expectedDigestKey m) = .unknown := by
    rw [DigestOutcomes.outcome,if_neg hkey.1,if_neg hkey.2]
    split
    · exact .inl rfl
    · exact .inr rfl
  unfold eventStatusForMatch
  rcases houtcome with ho | ho <;> simp [ho,hstack,hstatus,hsuccess]

/-- The rows that a run leaves are sound. -/
theorem pendingUpdates_sound : ∀ row ∈ run.pendingUpdates, SoundRow run.matched run.statuses row := by
  have hstart : ∀ row ∈ startedRows run.targets run.matched run.removeLines run.skippedTags,
      SoundRow run.matched run.statuses row :=
    startedRows_sound run.targets run.removeLines run.skippedTags
  unfold pendingUpdates
  dsimp only
  split
  · apply markSuccessfulPending_sound
    exact markFailedPending_sound _ _ _ hstart
  · apply markFailedPending_sound
    exact markSuccessfulPending_sound hstart

/-- The event of an attempted match whose stack succeeded is a success. -/
theorem event_success {i : ℕ} {m : Match} (hm : run.attempted[i]? = some m)
    (h : succeeded (run.statuses m.stack.index) = true) {event : RunEventRecord} (he : run.events[i]? = some event) :
    event.status = .success := by
  unfold events recordUpdateEvents at he
  rw [List.getElem?_map,List.getElem?_zipIdx,hm] at he
  cases he
  exact eventStatus_of_succeeded h

end AuditedRun

namespace RunVerification
open RunAudit

/-- A line that needs no follow-up is of a resolved row. -/
theorem resolved_of_verified {update : PendingUpdateRecord} {event : Option RunEventRecord}
    (h : (verificationItem update event).followUpNeeded = false) : update.status = .resolved := by
  have hwud : wudStatus update ≠ .unknown ∧ wudStatus update ≠ .restored ∧ wudStatus update ≠ .staleRemoved := by
    simp only [verificationItem,followUpNeeded,Bool.or_eq_false_iff,decide_eq_false_iff_not] at h
    exact ⟨h.2,h.1.1.2,h.1.2⟩
  obtain ⟨hunknown,hrestored,hstale⟩ := hwud
  unfold wudStatus at hunknown hrestored hstale
  cases hs : update.status with
  | resolved => rfl
  | failed =>
    rw [hs] at hrestored hstale
    dsimp only at hrestored hstale
    split at hrestored
    · rename_i hreason
      exact absurd (if_pos hreason) hstale
    · exact absurd rfl hrestored
  | pending =>
    rw [hs] at hunknown
    exact absurd rfl hunknown
  | inProgress =>
    rw [hs] at hunknown
    exact absurd rfl hunknown

/-! The order of the events -/

/-- The events of each service are in the same order in both lists. -/
def SameServiceOrder (events others : List RunEventRecord) : Prop :=
  ∀ stackName ≠ [], ∀ serviceName ≠ [],
    events.filter (fun event => event.stackName = stackName && event.serviceName = serviceName) =
      others.filter (fun event => event.stackName = stackName && event.serviceName = serviceName)

theorem sameServiceOrder_swap (before after : List RunEventRecord) {event other : RunEventRecord}
    (h : event.stackName ≠ other.stackName ∨ event.serviceName ≠ other.serviceName) :
    SameServiceOrder (before ++ event :: other :: after) (before ++ other :: event :: after) := by
  intro stackName _ serviceName _
  rw [List.filter_append,List.filter_append]
  congr 1
  by_cases he : event.stackName = stackName ∧ event.serviceName = serviceName
  · have ho : ¬ (other.stackName = stackName ∧ other.serviceName = serviceName) := by
      rintro ⟨hs,hv⟩
      rcases h with h | h
      · exact h (he.1.trans hs.symm)
      · exact h (he.2.trans hv.symm)
    simp [List.filter_cons,ho]
  · simp [List.filter_cons,he]

theorem only_perm {α : Type} {l l' : List α} (h : l.Perm l') : only l = only l' := by
  match l with
  | [] => rw [h.nil_eq]
  | [x] => rw [h.singleton_eq]
  | x :: y :: rest =>
    match l' with
    | [] => exact absurd h.length_eq (by simp)
    | [z] => exact absurd h.length_eq (by simp)
    | z :: w :: rest' => rfl

theorem compatible_of_sameService {update : PendingUpdateRecord} {event : RunEventRecord}
    (h : sameService update event = true) : compatible update event = true := by
  simp only [sameService,Bool.and_eq_true,decide_eq_true_eq] at h
  simp [compatible,h.1.2,h.2]

/-- The first event of a row's service only depends on the order of that service's events. -/
theorem find_sameService {events others : List RunEventRecord} (h : SameServiceOrder events others)
    (update : PendingUpdateRecord) : events.find? (sameService update) = others.find? (sameService update) := by
  by_cases hnone : update.stackName = [] ∨ update.serviceName = []
  · have hnever : ∀ event, sameService update event = false := by
      intro event
      rcases hnone with hs | hs
      · by_cases he : event.stackName = [] <;> simp [sameService,hs,he]
      · by_cases he : event.serviceName = [] <;> simp [sameService,hs,he]
    rw [List.find?_eq_none.mpr fun event _ => by simp [hnever],List.find?_eq_none.mpr fun event _ => by simp [hnever]]
  · obtain ⟨hstack,hservice⟩ := not_or.mp hnone
    have hsame : sameService update =
        fun event => event.stackName = update.stackName && event.serviceName = update.serviceName := by
      funext event
      by_cases he : event.stackName = update.stackName <;> by_cases hv : event.serviceName = update.serviceName <;>
        simp [sameService,he,hv,hstack,hservice]
    rw [← List.head?_filter,← List.head?_filter,hsame,h _ hstack _ hservice]

theorem matchingEvent_perm {events others : List RunEventRecord} (hperm : events.Perm others)
    (h : SameServiceOrder events others) (update : PendingUpdateRecord) :
    matchingEvent update events = matchingEvent update others := by
  have hfind : ∀ found : List RunEventRecord,
      (found.filter (compatible update)).find? (sameService update) = found.find? (sameService update) := by
    intro found
    rw [List.find?_filter]
    congr 1
    funext event
    by_cases hs : sameService update event = true
    · simp [hs,compatible_of_sameService hs]
    · simp [hs]
  have hcompatible := hperm.filter (compatible update)
  have hnamed := hcompatible.filter (sameServiceName update)
  unfold matchingEvent
  dsimp only
  rw [hfind,hfind,find_sameService h,only_perm hnamed,only_perm (hcompatible.filter (sameImage update))]
  have hempty : (events.filter (compatible update)).filter (sameServiceName update) ≠ [] ↔
      (others.filter (compatible update)).filter (sameServiceName update) ≠ [] := by
    rw [ne_eq,ne_eq,← List.length_eq_zero_iff,← List.length_eq_zero_iff,hnamed.length_eq]
  simp only [hempty]

theorem verification_perm {events others : List RunEventRecord} (hperm : events.Perm others)
    (h : SameServiceOrder events others) (updates : List PendingUpdateRecord) :
    verificationFromRunRecords updates events = verificationFromRunRecords updates others := by
  unfold verificationFromRunRecords
  simp only [matchingEvent_perm hperm h]

/-- A verified line succeeded in all its stacks and in every event of its services, in whatever order the events are
read. Reordering them changes no item as long as the events of each service keep their order. -/
theorem verification_sound (run : AuditedRun) :
    (∀ others, run.events.Perm others →
      ∀ item ∈ (verificationFromRunRecords run.pendingUpdates others).items, item.followUpNeeded = false →
        ∀ m ∈ run.matched, m.target.lineNo = item.lineNo →
          (run.statuses m.stack.index).map (·.status) = some .success ∧
          ∀ (i : ℕ) (other : Match), run.attempted[i]? = some other →
            other.stack.index = m.stack.index → other.service = m.service →
            ∀ event, run.events[i]? = some event → event.status = .success) ∧
    ∀ others, run.events.Perm others → SameServiceOrder run.events others →
      verificationFromRunRecords run.pendingUpdates others =
        verificationFromRunRecords run.pendingUpdates run.events := by
  constructor
  · intro others _ item hitem hverified m hm hline
    obtain ⟨pair,hpair,rfl⟩ := List.mem_map.mp hitem
    obtain ⟨row,hrow,rfl⟩ := List.mem_map.mp hpair
    have hresolved := resolved_of_verified hverified
    have hsucceeded : succeeded (run.statuses m.stack.index) = true :=
      succeeded_of_not_failed (run.pendingUpdates_sound row hrow hresolved) hm hline
    constructor
    · obtain ⟨status,hstatus,hsuccess⟩ := (Option.any_eq_true _ _).mp hsucceeded
      rw [hstatus,Option.map_some,of_decide_eq_true hsuccess]
    · intro i other hother hstack _ event hevent
      exact run.event_success hother (hstack ▸ hsucceeded) hevent
  · intro others hperm horder
    exact (verification_perm hperm horder run.pendingUpdates).symm

/-! Two lines of one service -/

def appStack : ComposeStack where
  index := 0
  directory := "/stacks/app".toList
  file := "/stacks/app/compose.yml".toList
  name := "app".toList
  images := ["app:1".toList]
  serviceImages := []

def appTarget (lineNo : ℕ) (raw desiredTag : Str) : WudTarget where
  lineNo
  raw
  first := "app:1".toList
  key := "app:1".toList
  repo := "app".toList
  hasTag := true
  allowRepo := true
  digest := []
  desiredTag

def appMatch (target : WudTarget) (service : Str) : Match where
  stack := appStack
  target
  resolved := "app:1".toList
  composeImage := "app:1".toList
  service

def appTargets : List WudTarget := [appTarget 1 "app:1".toList [],appTarget 2 "app:1 tag=2".toList "2".toList]

/-- The image of two services is in the file twice, the second time with a tag. -/
def twice : AuditedRun where
  targets := appTargets
  matched := appTargets.flatMap fun target => [appMatch target "web".toList,appMatch target "worker".toList]
  removeLines := [1,2]
  skippedTags := []
  verifyTagDigest := fun _ _ => .ok
  updated := fun _ => some ⟨.success,"updated"⟩
  expected := {}
  evidence := fun _ _ => ⟨"app:2".toList,"a".toList,"b".toList,[],[],[],[]⟩
  failedLines := []
  firstEventId := 1
  ended := .completed

/-- Both lines get the first event of the service, which another order of the events changes. -/
theorem reversed_events_change_items :
    twice.events.Perm twice.events.reverse ∧
    (verificationFromRunRecords twice.pendingUpdates twice.events.reverse).items ≠
      (verificationFromRunRecords twice.pendingUpdates twice.events).items :=
  ⟨(List.reverse_perm _).symm,by decide +kernel⟩

def twiceEvent (id : ℕ) (lineNo : ℕ) (raw desiredTag service : Str) : RunEventRecord :=
  eventForMatch twice.evidence twice.digests twice.statuses id (appMatch (appTarget lineNo raw desiredTag) service)

def web1 : RunEventRecord := twiceEvent 1 1 "app:1".toList [] "web".toList
def worker1 : RunEventRecord := twiceEvent 2 1 "app:1".toList [] "worker".toList
def web2 : RunEventRecord := twiceEvent 3 2 "app:1 tag=2".toList "2".toList "web".toList
def worker2 : RunEventRecord := twiceEvent 4 2 "app:1 tag=2".toList "2".toList "worker".toList

theorem twice_events : twice.events = [web1] ++ worker1 :: web2 :: [worker2] := by decide +kernel

theorem twice_verified : ∃ item ∈ (verificationFromRunRecords twice.pendingUpdates twice.events).items,
    item.followUpNeeded = false ∧ item.lineNo = 1 := by
  decide +kernel

theorem twice_succeeded :
    ((twice.statuses 0).map (·.status) = some .success ∧ web2.status = .success) ∧
    verificationFromRunRecords twice.pendingUpdates ([web1] ++ web2 :: worker1 :: [worker2]) =
      verificationFromRunRecords twice.pendingUpdates twice.events := by
  have h := verification_sound twice
  constructor
  · obtain ⟨item,hitem,hverified,hline⟩ := twice_verified
    have hm := h.1 twice.events (.refl _) item hitem hverified
      (appMatch (appTarget 1 "app:1".toList []) "web".toList) List.mem_cons_self hline.symm
    refine ⟨hm.1,hm.2 2 (appMatch (appTarget 2 "app:1 tag=2".toList "2".toList) "web".toList) rfl rfl rfl web2 ?_⟩
    rw [twice_events]
    rfl
  · apply h.2
    · rw [twice_events]
      exact (List.Perm.swap web2 worker1 [worker2]).append_left [web1]
    · rw [twice_events]
      exact sameServiceOrder_swap [web1] [worker2] (.inr (by decide))

end RunVerification

end Wudup
