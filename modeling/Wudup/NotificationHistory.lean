import Wudup.Models
import Mathlib.Data.List.Perm.Lattice
import Mathlib.Logic.Function.Basic

/-! The history of release notifications: what is decided from a row of it, and how rows are reserved and
written. Times are in whole seconds, as they are written. -/
namespace Wudup

inductive ReleaseNotificationMode where
  | digest
  | perContainer
  deriving DecidableEq, Repr

inductive ResendPolicy where
  | remoteChange
  | cooldown
  deriving DecidableEq, Repr

structure ReleaseNotificationConfig where
  mode : ReleaseNotificationMode := .digest
  resendPolicy : ResendPolicy := .remoteChange
  cooldownSeconds : ℕ := 86400
  deriving DecidableEq, Repr

/-- The status of a row. -/
inductive NotificationHistoryStatus where
  | sending
  | sent
  | failure
  deriving DecidableEq, Repr

/-- The status of an item of a response. -/
inductive NotificationStatus where
  | new
  | sending
  | sent
  | failure
  | manualResend
  | cooldownReady
  | skippedCooldown
  | skippedDuplicate
  deriving DecidableEq, Repr

structure NotificationHistory where
  mode : ReleaseNotificationMode
  status : NotificationHistoryStatus
  lastAttemptedAt : ℕ
  lastSentAt : Option ℕ
  sendCount : ℕ
  lastAuditRunId : ℕ
  deriving DecidableEq, Repr

/-- The table, by notification key. -/
abbrev NotificationRows := Str → Option NotificationHistory

def sendingReservationTtlSeconds : ℕ := 600

def alreadySentForUpdateReason : Str := "Already sent for this update.".toList

def sendingReservationStale (lastAttemptedAt now : ℕ) : Bool :=
  lastAttemptedAt + sendingReservationTtlSeconds ≤ now

/-- A row without a time of sending is as good as one from long ago. -/
def cooldownElapsed (lastSentAt : Option ℕ) (cooldownSeconds now : ℕ) : Bool :=
  lastSentAt.all fun sentAt => sentAt + cooldownSeconds ≤ now

def retryableNotificationDecision (history : NotificationHistory) (resend : Bool) (freshStatus : NotificationStatus) :
    NotificationStatus × Str :=
  if resend then (.manualResend,[])
  else if 0 < history.sendCount then (.skippedDuplicate,alreadySentForUpdateReason)
  else (freshStatus,[])

def notificationDecision (config : ReleaseNotificationConfig) (history : Option NotificationHistory) (resend : Bool)
    (now : ℕ) : NotificationStatus × Str :=
  match history with
  | none => (.new,[])
  | some history =>
    if history.status = .sending then
      if sendingReservationStale history.lastAttemptedAt now then
        retryableNotificationDecision history resend .new
      else (.sending,"Notification is already being sent.".toList)
    else if history.status ≠ .sent then
      if resend then (.manualResend,[]) else retryableNotificationDecision history false .failure
    else if resend then (.manualResend,[])
    else if config.resendPolicy = .cooldown then
      if cooldownElapsed history.lastSentAt config.cooldownSeconds now then (.cooldownReady,[])
      else (.skippedCooldown,"Notification cooldown has not elapsed.".toList)
    else (.skippedDuplicate,alreadySentForUpdateReason)

def upsertNotificationHistory (rows : NotificationRows) (key : Str) (config : ReleaseNotificationConfig)
    (status : NotificationHistoryStatus) (auditRunId now : ℕ) : NotificationRows :=
  let sentAt := if status = .sent then some now else none
  let sendCountIncrement := if status = .sent then 1 else 0
  let old := rows key
  Function.update rows key (some {
    mode := config.mode
    status
    lastAttemptedAt := now
    lastSentAt := sentAt.or (old.bind (·.lastSentAt))
    sendCount := (old.elim 0 (·.sendCount)) + sendCountIncrement
    lastAuditRunId := auditRunId })

/-- Whether the row may be reserved: nobody is sending, and it was never sent or may be sent again. -/
def reservable (old : Option NotificationHistory) (allowExisting : Bool) (now : ℕ) : Bool :=
  old.all fun row =>
    (row.status ≠ .sending || sendingReservationStale row.lastAttemptedAt now) &&
      (row.sendCount = 0 || allowExisting)

def sendingRow (old : Option NotificationHistory) (config : ReleaseNotificationConfig) (auditRunId now : ℕ) :
    NotificationHistory where
  mode := config.mode
  status := .sending
  lastAttemptedAt := now
  lastSentAt := old.bind (·.lastSentAt)
  sendCount := old.elim 0 (·.sendCount)
  lastAuditRunId := auditRunId

/-- A new row, or the one there is when it may be taken over. -/
def reserveNotificationHistory (rows : NotificationRows) (key : Str) (config : ReleaseNotificationConfig)
    (auditRunId : ℕ) (allowExisting : Bool) (now : ℕ) : NotificationRows × Bool :=
  if reservable (rows key) allowExisting now then
    (Function.update rows key (some (sendingRow (rows key) config auditRunId now)),true)
  else (rows,false)

/-! Items of a response -/

inductive NotificationCategory where
  | securityUrgent
  | needsReview
  | worthNoting
  | routine
  deriving DecidableEq, Repr

/-- An item with the row its digest would show. -/
structure ReleaseNotificationItem where
  notificationKey : Str
  category : NotificationCategory := .needsReview
  digestRow : Str := []
  notificationStatus : NotificationStatus := .new
  notificationLastSentAt : Option ℕ := none
  notificationSendCount : ℕ := 0
  skippedReason : Str := []
  deriving DecidableEq, Repr

namespace ReleaseNotificationItem
variable (item : ReleaseNotificationItem)

def sendable : Bool := item.skippedReason = []

def allowExisting : Bool := item.notificationStatus ∈ [NotificationStatus.manualResend,.cooldownReady]

/-- The item that someone else is sending. -/
def reserved : ReleaseNotificationItem :=
  { item with
    notificationStatus := .sending
    skippedReason := "Notification is already being sent.".toList }

def annotated (config : ReleaseNotificationConfig) (history : Option NotificationHistory) (resend : Bool) (now : ℕ) :
    ReleaseNotificationItem :=
  let decision := notificationDecision config history resend now
  { item with
    notificationStatus := decision.1
    notificationLastSentAt := history.bind (·.lastSentAt)
    notificationSendCount := history.elim 0 (·.sendCount)
    skippedReason := decision.2 }

end ReleaseNotificationItem

/-- Urgent items are decided as if the policy were to send each update once. -/
def annotateItems (config : ReleaseNotificationConfig) (resend urgent : Bool) (histories : NotificationRows) (now : ℕ)
    (items : List ReleaseNotificationItem) : List ReleaseNotificationItem :=
  items.map fun item =>
    if decide (item.category = .securityUrgent) = urgent then
      item.annotated (if urgent then { config with resendPolicy := .remoteChange } else config)
        (histories item.notificationKey) resend now
    else item

/-- The urgent items come first, each part in its order. -/
def sortItems (items : List ReleaseNotificationItem) : List ReleaseNotificationItem :=
  items.filter (·.category = .securityUrgent) ++ items.filter (·.category ≠ .securityUrgent)

def sendableCount (items : List ReleaseNotificationItem) : ℕ := items.countP (·.sendable)

/-- The items in one transaction. -/
def reserveReleaseNotificationHistory (config : ReleaseNotificationConfig) (auditRunId now : ℕ) :
    NotificationRows → List ReleaseNotificationItem → NotificationRows × List ReleaseNotificationItem
  | rows, [] => (rows,[])
  | rows, item :: rest =>
    if !item.sendable || item.notificationKey = [] then
      let after := reserveReleaseNotificationHistory config auditRunId now rows rest
      (after.1,item :: after.2)
    else
      let reservation :=
        reserveNotificationHistory rows item.notificationKey config auditRunId item.allowExisting now
      let after := reserveReleaseNotificationHistory config auditRunId now reservation.1 rest
      (after.1,(if reservation.2 then item else item.reserved) :: after.2)

def recordReleaseNotificationHistory (config : ReleaseNotificationConfig) (status : NotificationHistoryStatus)
    (auditRunId now : ℕ) : NotificationRows → List ReleaseNotificationItem → NotificationRows
  | rows, [] => rows
  | rows, item :: rest =>
    recordReleaseNotificationHistory config status auditRunId now
      (if item.notificationKey = [] then rows
        else upsertNotificationHistory rows item.notificationKey config status auditRunId now) rest

/-! Batches -/

def discordMessageContentLimit : ℕ := 2000

def discordDigestFooter : Str := "Open WUDup for full notes, digests, and apply plan.".toList

def discordDigestCategories : List (NotificationCategory × Str) :=
  [(.securityUrgent,"🛡️ Critical/High security".toList),(.needsReview,"⚠️ Needs review".toList),
    (.worthNoting,"🟡 Worth noting".toList),(.routine,"🟢 Routine".toList)]

def digestHeader (count : ℕ) : Str :=
  "🧾 WUDup batch — ".toList ++ (toString count).toList ++ " updates found".toList

def digestContent (count : ℕ) (lines : List Str) : Str :=
  "\n\n".toList.intercalate [digestHeader count,"\n".toList.intercalate lines,discordDigestFooter]

structure DigestDraft where
  batches : List (List ReleaseNotificationItem) := []
  lines : List Str := []
  batchItems : List ReleaseNotificationItem := []
  currentCategory : Option NotificationCategory := none
  deriving DecidableEq, Repr

def digestCategoryPrefix (lines : List Str) (currentCategory : Option NotificationCategory)
    (category : NotificationCategory) (categoryLabel : Str) : List Str :=
  if currentCategory = some category then [] else (if lines = [] then [] else [[]]) ++ [categoryLabel]

/-- The item joins the batch unless the message would get too long. -/
def DigestDraft.add (draft : DigestDraft) (total : ℕ) (category : NotificationCategory) (categoryLabel : Str)
    (item : ReleaseNotificationItem) : DigestDraft :=
  let candidateLines := draft.lines ++
    digestCategoryPrefix draft.lines draft.currentCategory category categoryLabel ++ [item.digestRow]
  if draft.batchItems ≠ [] ∧ discordMessageContentLimit < (digestContent total candidateLines).length then
    { batches := draft.batches ++ [draft.batchItems]
      lines := [categoryLabel,item.digestRow]
      batchItems := [item]
      currentCategory := some category }
  else
    { draft with
      lines := candidateLines
      batchItems := draft.batchItems ++ [item]
      currentCategory := some category }

/-- The items of one category, one after the other. -/
def DigestDraft.addCategory (items : List ReleaseNotificationItem) (draft : DigestDraft)
    (category : NotificationCategory × Str) : DigestDraft :=
  (items.filter (·.category = category.1)).foldl
    (fun draft item => draft.add items.length category.1 category.2 item) draft

def digestPayloadBatches (items : List ReleaseNotificationItem) : List (List ReleaseNotificationItem) :=
  if items = [] then []
  else
    let draft := discordDigestCategories.foldl (DigestDraft.addCategory items) {}
    draft.batches ++ [draft.batchItems]

/-- The items of each message. -/
def payloadBatches (items : List ReleaseNotificationItem) (mode : ReleaseNotificationMode) :
    List (List ReleaseNotificationItem) :=
  let sendable := items.filter (·.sendable)
  match mode with
  | .digest => digestPayloadBatches sendable
  | .perContainer => sendable.map ([·])

/-! What the functions do to one key -/

def keysOf (items : List ReleaseNotificationItem) : List Str := items.map (·.notificationKey)

def sendableKeys (items : List ReleaseNotificationItem) : List Str := keysOf (items.filter (·.sendable))

theorem sendableKeys_cons (item : ReleaseNotificationItem) (items : List ReleaseNotificationItem) :
    sendableKeys (item :: items) =
      if item.sendable then item.notificationKey :: sendableKeys items else sendableKeys items := by
  by_cases hs : item.sendable <;> simp [sendableKeys,keysOf,hs]

section
variable {config : ReleaseNotificationConfig} {items : List ReleaseNotificationItem} {rows : NotificationRows}
  {key : Str} {auditRunId now : ℕ}

/-- A row that was reserved just now is not reserved again. -/
theorem not_reservable_sendingRow {old : Option NotificationHistory} {allowExisting : Bool} :
    reservable (some (sendingRow old config auditRunId now)) allowExisting now = false := by
  have hfresh : sendingReservationStale now now = false := by
    rw [sendingReservationStale,sendingReservationTtlSeconds]
    exact decide_eq_false (by omega)
  simp [reservable,sendingRow,hfresh]

/-- What a transaction of reservations leaves of one key. -/
inductive Reservation (config : ReleaseNotificationConfig) (auditRunId now : ℕ) (key : Str) (rows : NotificationRows)
    (items : List ReleaseNotificationItem) : NotificationRows × List ReleaseNotificationItem → Prop
  | refused {after} (hrow : after.1 key = rows key) (hitems : key ∉ sendableKeys after.2) :
    Reservation config auditRunId now key rows items after
  | granted {after} {item} (hitem : item ∈ items) (hsend : item.sendable = true)
    (hkey : item.notificationKey = key) (hfree : reservable (rows key) item.allowExisting now = true)
    (hrow : after.1 key = some (sendingRow (rows key) config auditRunId now))
    (hitems : (sendableKeys after.2).count key = 1) :
    Reservation config auditRunId now key rows items after

/-- An item that is not sent under the key comes before the others. -/
theorem Reservation.cons {rest : List ReleaseNotificationItem} {item item' : ReleaseNotificationItem}
    {rows' : NotificationRows} {after : NotificationRows × List ReleaseNotificationItem}
    (h : Reservation config auditRunId now key rows' rest after) (hrow : rows' key = rows key)
    (hother : item'.sendable = true → item'.notificationKey ≠ key) :
    Reservation config auditRunId now key rows (item :: rest) (after.1,item' :: after.2) := by
  have hcount : (sendableKeys (item' :: after.2)).count key = (sendableKeys after.2).count key := by
    rw [sendableKeys_cons]
    split
    · rename_i hs
      exact List.count_cons_of_ne (hother hs)
    · rfl
  cases h with
  | refused hr hitems =>
    apply Reservation.refused
    · exact hr.trans hrow
    · rw [← List.count_eq_zero,hcount]
      exact List.count_eq_zero.mpr hitems
  | granted hitem hsend hkey hfree hr hitems =>
    rw [hrow] at hfree hr
    exact .granted (List.mem_cons_of_mem _ hitem) hsend hkey hfree hr (hcount.trans hitems)

theorem reserveReleaseNotificationHistory_spec (hk : key ≠ []) :
    Reservation config auditRunId now key rows items
      (reserveReleaseNotificationHistory config auditRunId now rows items) := by
  induction items generalizing rows with
  | nil => exact .refused rfl (by simp [reserveReleaseNotificationHistory,sendableKeys,keysOf])
  | cons item rest ih =>
    rw [reserveReleaseNotificationHistory]
    split
    · rename_i hskip
      apply ih.cons rfl
      intro hs hkey
      simp [hs,hkey,hk] at hskip
    · rename_i hskip
      obtain ⟨hs,hne⟩ : item.sendable = true ∧ item.notificationKey ≠ [] := by simpa using hskip
      rw [reserveNotificationHistory]
      split
      · rename_i hfree
        by_cases hkey : item.notificationKey = key
        · -- the first item of the key gets the row, and no later one does
          subst hkey
          have hrow : Function.update rows item.notificationKey
              (some (sendingRow (rows item.notificationKey) config auditRunId now)) item.notificationKey =
              some (sendingRow (rows item.notificationKey) config auditRunId now) := Function.update_self ..
          cases @ih (Function.update rows item.notificationKey
              (some (sendingRow (rows item.notificationKey) config auditRunId now))) with
          | refused hr hitems =>
            refine .granted List.mem_cons_self hs rfl hfree (hr.trans hrow) ?_
            simp only [if_true]
            rw [sendableKeys_cons,if_pos hs,List.count_cons_self,List.count_eq_zero.mpr hitems]
          | granted _ _ _ hfree' _ _ =>
            rw [hrow,not_reservable_sendingRow] at hfree'
            exact absurd hfree' (by decide)
        · exact ih.cons (Function.update_of_ne (Ne.symm hkey) _ _) fun _ => hkey
      · apply ih.cons rfl
        intro hres
        simp [ReleaseNotificationItem.reserved,ReleaseNotificationItem.sendable] at hres

/-- A row that was written with a status; what was sent is not forgotten. -/
structure Written (status : NotificationHistoryStatus) (now : ℕ) (old new : Option NotificationHistory) : Prop where
  status_eq : new.map (·.status) = some status
  sentAt_eq : new.bind (·.lastSentAt) = if status = .sent then some now else old.bind (·.lastSentAt)
  sendCount_le : old.elim 0 (·.sendCount) ≤ new.elim 0 (·.sendCount)
  sendCount_pos : status = .sent → 0 < new.elim 0 (·.sendCount)

variable {status : NotificationHistoryStatus}

theorem Written.trans {old mid new : Option NotificationHistory} (h : Written status now old mid)
    (h' : Written status now mid new) : Written status now old new where
  status_eq := h'.status_eq
  sentAt_eq := by
    rw [h'.sentAt_eq,h.sentAt_eq]
    split <;> rfl
  sendCount_le := Nat.le_trans h.sendCount_le h'.sendCount_le
  sendCount_pos := h'.sendCount_pos

theorem upsertNotificationHistory_written :
    Written status now (rows key) (upsertNotificationHistory rows key config status auditRunId now key) := by
  constructor
  · simp [upsertNotificationHistory]
  · by_cases hs : status = .sent <;> simp [upsertNotificationHistory,hs]
  · simp [upsertNotificationHistory]
  · intro hs
    simp [upsertNotificationHistory,hs]

theorem recordReleaseNotificationHistory_other (hitems : key ∉ keysOf items) :
    recordReleaseNotificationHistory config status auditRunId now rows items key = rows key := by
  induction items generalizing rows with
  | nil => rfl
  | cons item rest ih =>
    obtain ⟨hne,hrest⟩ : key ≠ item.notificationKey ∧ key ∉ keysOf rest := by simpa [keysOf] using hitems
    rw [recordReleaseNotificationHistory,ih hrest]
    split
    · rfl
    · exact Function.update_of_ne hne _ _

theorem recordReleaseNotificationHistory_written (hk : key ≠ []) (hitems : key ∈ keysOf items) :
    Written status now (rows key)
      (recordReleaseNotificationHistory config status auditRunId now rows items key) := by
  induction items generalizing rows with
  | nil => simp [keysOf] at hitems
  | cons item rest ih =>
    rw [recordReleaseNotificationHistory]
    by_cases hkey : item.notificationKey = key
    · subst hkey
      rw [if_neg hk]
      by_cases hrest : item.notificationKey ∈ keysOf rest
      · exact upsertNotificationHistory_written.trans (ih hrest)
      · rw [recordReleaseNotificationHistory_other hrest]
        exact upsertNotificationHistory_written
    · have hrest : key ∈ keysOf rest := by simpa [keysOf,Ne.symm hkey] using hitems
      split
      · exact ih hrest
      · have hrow := @ih (upsertNotificationHistory rows item.notificationKey config status auditRunId now) hrest
        rw [upsertNotificationHistory,Function.update_of_ne (Ne.symm hkey)] at hrow
        exact hrow

end

/-! The batches hold what is sendable. -/

section
variable {items : List ReleaseNotificationItem} {draft : DigestDraft}

/-- What a draft has taken so far. -/
def DigestDraft.taken (draft : DigestDraft) : List ReleaseNotificationItem := draft.batches.flatten ++ draft.batchItems

theorem DigestDraft.taken_add (total : ℕ) (category : NotificationCategory) (categoryLabel : Str)
    (item : ReleaseNotificationItem) : (draft.add total category categoryLabel item).taken = draft.taken ++ [item] := by
  unfold DigestDraft.add
  simp only
  split <;> simp [DigestDraft.taken]

theorem DigestDraft.taken_addCategory (category : NotificationCategory × Str) :
    (draft.addCategory items category).taken = draft.taken ++ items.filter (·.category = category.1) := by
  have hfold (xs : List ReleaseNotificationItem) (draft : DigestDraft) :
      (xs.foldl (fun draft item => draft.add items.length category.1 category.2 item) draft).taken =
        draft.taken ++ xs := by
    induction xs generalizing draft with
    | nil => simp
    | cons item rest ih => rw [List.foldl_cons,ih,DigestDraft.taken_add,List.append_assoc,List.singleton_append]
  exact hfold _ _

theorem perm_digestPayloadBatches : (digestPayloadBatches items).flatten.Perm items := by
  unfold digestPayloadBatches
  split
  · rename_i hitems
    simp [hitems]
  · have hflat (draft : DigestDraft) : (draft.batches ++ [draft.batchItems]).flatten = draft.taken := by
      simp [DigestDraft.taken]
    rw [hflat]
    simp only [discordDigestCategories,List.foldl_cons,List.foldl_nil,DigestDraft.taken_addCategory]
    rw [List.perm_iff_count]
    intro item
    simp only [DigestDraft.taken,List.flatten_nil,List.nil_append,List.count_append]
    have hcount (category : NotificationCategory) : (items.filter (·.category = category)).count item =
        if item.category = category then items.count item else 0 := by
      split
      · rename_i hc
        exact List.count_filter (by simpa using hc)
      · rename_i hc
        exact List.count_eq_zero.mpr fun hm => hc (by simpa using (List.mem_filter.mp hm).2)
    rw [hcount,hcount,hcount,hcount]
    cases item.category <;> simp

/-- Each sendable item is in one message. -/
theorem count_payloadBatches (mode : ReleaseNotificationMode) (key : Str) :
    (keysOf (payloadBatches items mode).flatten).count key = (sendableKeys items).count key := by
  cases mode with
  | digest => exact (perm_digestPayloadBatches.map _).count_eq key
  | perContainer =>
    have hflat (xs : List ReleaseNotificationItem) : (xs.map ([·])).flatten = xs := by
      induction xs with
      | nil => rfl
      | cons item rest ih => simp [ih]
    simp only [payloadBatches,hflat,sendableKeys]

end
end Wudup
