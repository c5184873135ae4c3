import Mathlib.Data.List.Induction
import Wudup.NotificationHistory

/-! What a failed or abandoned resend does to the cooldown of an update that was sent before. -/
namespace Wudup

/-- The calls that change the history. -/
inductive HistoryCall where
  | reserve (key : Str) (config : ReleaseNotificationConfig) (auditRunId : ℕ) (allowExisting : Bool) (now : ℕ)
  | upsert (key : Str) (config : ReleaseNotificationConfig) (status : NotificationHistoryStatus)
      (auditRunId now : ℕ)
  deriving DecidableEq, Repr

def HistoryCall.apply (rows : NotificationRows) : HistoryCall → NotificationRows
  | .reserve key config auditRunId allowExisting now =>
    (reserveNotificationHistory rows key config auditRunId allowExisting now).1
  | .upsert key config status auditRunId now => upsertNotificationHistory rows key config status auditRunId now

/-- The rows that calls leave in an empty table. -/
def rowsAfter (calls : List HistoryCall) : NotificationRows := calls.foldl HistoryCall.apply fun _ => none

/-- When a call recorded that the update was sent. -/
def HistoryCall.sentTime (key : Str) : HistoryCall → Option ℕ
  | .reserve .. => none
  | .upsert other _ status _ now => if other = key ∧ status = .sent then some now else none

/-- The times of the successful sends. -/
def sentTimes (calls : List HistoryCall) (key : Str) : List ℕ := calls.filterMap (HistoryCall.sentTime key)

/-- The row remembers how often and when the update was sent last. -/
structure Remembers (row : Option NotificationHistory) (times : List ℕ) : Prop where
  count : row.elim 0 (·.sendCount) = times.length
  last : row.bind (·.lastSentAt) = times.getLast?

theorem Remembers.apply {rows : NotificationRows} {key : Str} {times : List ℕ} (h : Remembers (rows key) times)
    (call : HistoryCall) : Remembers (call.apply rows key) (times ++ (call.sentTime key).toList) := by
  cases call with
  | reserve other config auditRunId allowExisting now =>
    rw [HistoryCall.apply,reserveNotificationHistory,HistoryCall.sentTime,Option.toList_none,List.append_nil]
    split
    · dsimp only
      by_cases hk : key = other
      · subst hk
        rw [Function.update_self]
        exact ⟨h.count,h.last⟩
      · rw [Function.update_of_ne hk]
        exact h
    · exact h
  | upsert other config status auditRunId now =>
    rw [HistoryCall.apply,upsertNotificationHistory,HistoryCall.sentTime]
    by_cases hk : key = other
    · subst hk
      rw [Function.update_self]
      by_cases hs : status = .sent
      · constructor
        · simp [hs,h.count]
        · simp [hs]
      · constructor
        · simpa [hs] using h.count
        · simpa [hs] using h.last
    · have hother : ¬ (other = key ∧ status = .sent) := fun hand => hk hand.1.symm
      rw [Function.update_of_ne hk,if_neg hother,Option.toList_none,List.append_nil]
      exact h

theorem remembers_rowsAfter (calls : List HistoryCall) (key : Str) :
    Remembers (rowsAfter calls key) (sentTimes calls key) := by
  induction calls using List.reverseRecOn with
  | nil => exact ⟨rfl,rfl⟩
  | append_singleton calls call ih =>
    have happ : rowsAfter (calls ++ [call]) = call.apply (rowsAfter calls) := by
      rw [rowsAfter,List.foldl_append]
      rfl
    have htimes : sentTimes (calls ++ [call]) key = sentTimes calls key ++ (call.sentTime key).toList := by
      rw [sentTimes,List.filterMap_append]
      cases h : call.sentTime key <;> simp [h,sentTimes]
    rw [happ,htimes]
    exact ih.apply call

/-- Once the cooldown is over and nobody is sending, the update may be sent again by hand, when it was never
sent, or when the last attempt to send it succeeded; a failed or abandoned resend keeps it from being sent. -/
theorem cooldown_sendable_iff (calls : List HistoryCall) (key : Str) (config : ReleaseNotificationConfig)
    (hpolicy : config.resendPolicy = .cooldown) (resend : Bool) (now : ℕ)
    (helapsed : ∀ sentAt ∈ (sentTimes calls key).getLast?, sentAt + config.cooldownSeconds ≤ now)
    (hfree : ∀ row ∈ rowsAfter calls key, row.status = .sending →
      sendingReservationStale row.lastAttemptedAt now = true) :
    (notificationDecision config (rowsAfter calls key) resend now).2 = [] ↔
      resend = true ∨ sentTimes calls key = [] ∨ ∃ row ∈ rowsAfter calls key, row.status = .sent := by
  obtain ⟨hcount,hlast⟩ := remembers_rowsAfter calls key
  cases hrow : rowsAfter calls key with
  | none =>
    rw [hrow] at hcount
    have hnever : sentTimes calls key = [] := List.eq_nil_of_length_eq_zero hcount.symm
    simp [notificationDecision,hnever]
  | some row =>
    rw [hrow] at hcount hlast hfree
    have hnever : sentTimes calls key = [] ↔ row.sendCount = 0 := by
      rw [← List.length_eq_zero_iff,← hcount]
      rfl
    have hretry : ∀ fresh, (retryableNotificationDecision row resend fresh).2 = [] ↔
        resend = true ∨ row.sendCount = 0 := by
      intro fresh
      have hreason : alreadySentForUpdateReason ≠ [] := by decide
      unfold retryableNotificationDecision
      by_cases hr : resend = true
      · simp [hr]
      · by_cases hc : row.sendCount = 0
        · simp [hr,hc]
        · simp [hr,hc,Nat.pos_of_ne_zero hc,hreason]
    rw [hnever,notificationDecision]
    cases hs : row.status with
    | sending =>
      simp only [hfree row rfl hs,if_true,hretry]
      simp [hs]
    | sent =>
      have hover : cooldownElapsed row.lastSentAt config.cooldownSeconds now = true := by
        have hsentAt : row.lastSentAt = (sentTimes calls key).getLast? := hlast
        rw [cooldownElapsed,hsentAt,Option.all_eq_true]
        intro sentAt h
        exact decide_eq_true (helapsed sentAt h)
      by_cases hr : resend = true
      · simp [hr]
      · simp [hr,hpolicy,hover,hs]
    | failure =>
      have hplain := hretry .failure
      by_cases hr : resend = true
      · simp [hr]
      · rw [Bool.not_eq_true] at hr
        subst hr
        simpa [hs] using hplain

namespace Example

def daily : ReleaseNotificationConfig where
  resendPolicy := .cooldown

def sentAtMidnight : List HistoryCall := [.upsert ['k'] daily .sent 1 0]

/-- The resend after the cooldown fails. -/
def failedResend : List HistoryCall :=
  sentAtMidnight ++ [.reserve ['k'] daily 2 true 86400,.upsert ['k'] daily .failure 2 86401]

/-- The resend after the cooldown is never recorded. -/
def abandonedResend : List HistoryCall := sentAtMidnight ++ [.reserve ['k'] daily 2 true 86400]

theorem sent_update_ready : (notificationDecision daily (rowsAfter sentAtMidnight ['k']) false 86400).2 = [] := by
  refine (cooldown_sendable_iff sentAtMidnight ['k'] daily rfl false 86400 ?_ ?_).mpr (.inr (.inr ⟨_,rfl,rfl⟩))
  · decide
  · decide

/-- Two days later the update counts as already sent. -/
theorem failed_resend_skipped :
    (sentTimes failedResend ['k']).getLast? = some 0 ∧ (rowsAfter failedResend ['k']).map (·.status) = some .failure ∧
    notificationDecision daily (rowsAfter failedResend ['k']) false 172800 =
      (.skippedDuplicate,alreadySentForUpdateReason) ∧
    notificationDecision daily (rowsAfter abandonedResend ['k']) false 172800 =
      (.skippedDuplicate,alreadySentForUpdateReason) ∧ alreadySentForUpdateReason ≠ [] := by
  decide +kernel

end Example

end Wudup
