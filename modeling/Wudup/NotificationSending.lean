import Wudup.NotificationHistory
import Wudup.Library.Transition

/-! Senders of release notifications in any number of processes. Each reads the history, decides, reserves what it
is going to send, posts one message after the other and records each. -/
namespace Wudup
open Library

/-- Where a sender is between its transactions and its posts. The urgent items are looked up after the others. -/
inductive NotificationPhase where
  | candidates (urgent : Bool) (items : List ReleaseNotificationItem)
  | histories (urgent : Bool) (items : List ReleaseNotificationItem) (found : NotificationRows)
  | decided (items : List ReleaseNotificationItem)
  | posting (reservedAt : ℕ) (items : List ReleaseNotificationItem) (batches : List (List ReleaseNotificationItem))
    (sentItems : List ReleaseNotificationItem)
  | posted (reservedAt : ℕ) (items : List ReleaseNotificationItem) (batches : List (List ReleaseNotificationItem))
    (sentItems batch : List ReleaseNotificationItem) (postedAt : ℕ)
  | failing (items sentItems : List ReleaseNotificationItem)
  | done

/-- A sender is named by its number, which its rows carry as the number of its audit run. -/
structure NotificationSender where
  config : ReleaseNotificationConfig
  resend : Bool
  phase : NotificationPhase

structure NotificationState where
  now : ℕ
  rows : NotificationRows
  senders : List NotificationSender := []
  posts : List (Str × ℕ) := []

/-- A transaction carries the time its sender took before it. A request that cannot read the table goes on as if
it was empty, and a request may end anywhere. -/
inductive NotificationAction where
  | tick (seconds : ℕ)
  | begin (config : ReleaseNotificationConfig) (resend : Bool) (items : List ReleaseNotificationItem)
  | read (sender : ℕ) (missing : Bool)
  | decide (sender : ℕ)
  | reserve (sender timestamp : ℕ)
  | post (sender : ℕ)
  | recordSent (sender timestamp : ℕ)
  | fail (sender : ℕ)
  | recordFailure (sender timestamp : ℕ)
  | leave (sender : ℕ)
  deriving DecidableEq, Repr

namespace NotificationPhase

def unposted : NotificationPhase → List ReleaseNotificationItem
  | .posting _ _ batches _ | .posted _ _ batches _ _ _ => batches.flatten
  | _ => []

/-- What was posted and is not in the history yet. -/
def unrecorded : NotificationPhase → List ReleaseNotificationItem
  | .posted _ _ _ _ batch _ => batch
  | _ => []

def reservedAt : NotificationPhase → ℕ
  | .posting reservedAt _ _ _ | .posted reservedAt _ _ _ _ _ => reservedAt
  | _ => 0

def postedAt : NotificationPhase → ℕ
  | .posted _ _ _ _ _ postedAt => postedAt
  | _ => 0

/-- What the handler of a failure writes: all that was to be sent and was not. -/
def remaining : NotificationPhase → List ReleaseNotificationItem
  | .failing items sentItems => items.filter fun item => item.sendable && item.notificationKey ∉ keysOf sentItems
  | _ => []

def toReserve : NotificationPhase → List ReleaseNotificationItem
  | .decided items => items
  | _ => []

end NotificationPhase

namespace NotificationState
variable (s : NotificationState)

def phaseOf (i : ℕ) : NotificationPhase := (s.senders[i]?).elim .done (·.phase)

def move (i : ℕ) (sender : NotificationSender) (phase : NotificationPhase) : NotificationState :=
  { s with senders := s.senders.set i { sender with phase } }

/-- The items with the urgent ones first, if there is anything to send. -/
def decidedPhase (items : List ReleaseNotificationItem) : NotificationPhase :=
  if sendableCount items = 0 then .done else .decided (sortItems items)

/-- The messages of what was reserved, if anything was. -/
def reservedPhase (mode : ReleaseNotificationMode) (timestamp : ℕ) (items : List ReleaseNotificationItem) :
    NotificationPhase :=
  if sendableCount items = 0 then .done else .posting timestamp items (payloadBatches items mode) []

def decideItems (i : ℕ) (sender : NotificationSender) (urgent : Bool) (items : List ReleaseNotificationItem)
    (found : NotificationRows) : NotificationState :=
  let items := annotateItems sender.config sender.resend urgent found s.now items
  s.move i sender (if urgent then decidedPhase items else .candidates true items)

def reserveItems (i : ℕ) (sender : NotificationSender) (items : List ReleaseNotificationItem) (timestamp : ℕ) :
    NotificationState :=
  let reservation := reserveReleaseNotificationHistory sender.config i timestamp s.rows items
  { s.move i sender (reservedPhase sender.config.mode timestamp reservation.2) with rows := reservation.1 }

def postBatch (i : ℕ) (sender : NotificationSender) (reservedAt : ℕ) (items batch : List ReleaseNotificationItem)
    (batches : List (List ReleaseNotificationItem)) (sentItems : List ReleaseNotificationItem) : NotificationState :=
  { s.move i sender (.posted reservedAt items batches sentItems batch s.now) with
    posts := s.posts ++ batch.map fun item => (item.notificationKey,s.now) }

def recordBatch (i : ℕ) (sender : NotificationSender) (reservedAt : ℕ) (items : List ReleaseNotificationItem)
    (batches : List (List ReleaseNotificationItem)) (sentItems batch : List ReleaseNotificationItem)
    (timestamp : ℕ) : NotificationState :=
  { s.move i sender (.posting reservedAt items batches (sentItems ++ batch)) with
    rows := recordReleaseNotificationHistory sender.config .sent i timestamp s.rows batch }

def recordRemaining (i : ℕ) (sender : NotificationSender) (timestamp : ℕ) : NotificationState :=
  { s.move i sender .done with
    rows := recordReleaseNotificationHistory sender.config .failure i timestamp s.rows sender.phase.remaining }

/-- What a sender does next, by its phase. A failure is one of the reservation, a post or a record. -/
def step : System NotificationState NotificationAction
  | s, .tick seconds => some { s with now := s.now + seconds }
  | s, .begin config resend items =>
    some { s with senders := s.senders ++ [⟨config,resend,.candidates false items⟩] }
  | s, .read i missing => (s.senders[i]?).bind fun sender =>
    match sender.phase with
    | .candidates urgent items =>
      some (s.move i sender (.histories urgent items (if missing then fun _ => none else s.rows)))
    | _ => none
  | s, .decide i => (s.senders[i]?).bind fun sender =>
    match sender.phase with
    | .histories urgent items found => some (s.decideItems i sender urgent items found)
    | _ => none
  | s, .reserve i timestamp => (s.senders[i]?).bind fun sender =>
    match sender.phase with
    | .decided items => if timestamp ≤ s.now then some (s.reserveItems i sender items timestamp) else none
    | _ => none
  | s, .post i => (s.senders[i]?).bind fun sender =>
    match sender.phase with
    | .posting reservedAt items (batch :: batches) sentItems =>
      some (s.postBatch i sender reservedAt items batch batches sentItems)
    | _ => none
  | s, .recordSent i timestamp => (s.senders[i]?).bind fun sender =>
    match sender.phase with
    | .posted reservedAt items batches sentItems batch postedAt =>
      if postedAt ≤ timestamp ∧ timestamp ≤ s.now then
        some (s.recordBatch i sender reservedAt items batches sentItems batch timestamp)
      else none
    | _ => none
  | s, .fail i => (s.senders[i]?).bind fun sender =>
    match sender.phase with
    | .decided items => some (s.move i sender (.failing items []))
    | .posting _ items _ sentItems => some (s.move i sender (.failing items sentItems))
    | .posted _ items _ sentItems batch _ => some (s.move i sender (.failing items (sentItems ++ batch)))
    | _ => none
  | s, .recordFailure i timestamp => (s.senders[i]?).bind fun sender =>
    match sender.phase with
    | .failing _ _ => if timestamp ≤ s.now then some (s.recordRemaining i sender timestamp) else none
    | _ => none
  | s, .leave i => (s.senders[i]?).bind fun sender => some (s.move i sender .done)

/-- Every step, by what the sender that takes it was doing. -/
inductive Moved (s : NotificationState) : NotificationAction → NotificationState → Prop
  | tick (seconds) : Moved s (.tick seconds) { s with now := s.now + seconds }
  | begin (config) (resend) (items) :
    Moved s (.begin config resend items)
      { s with senders := s.senders ++ [⟨config,resend,.candidates false items⟩] }
  | read {i missing sender urgent items} (hi : s.senders[i]? = some sender)
    (hp : sender.phase = .candidates urgent items) :
    Moved s (.read i missing) (s.move i sender (.histories urgent items (if missing then fun _ => none else s.rows)))
  | decide {i sender urgent items found} (hi : s.senders[i]? = some sender)
    (hp : sender.phase = .histories urgent items found) :
    Moved s (.decide i) (s.decideItems i sender urgent items found)
  | reserve {i sender items timestamp} (hi : s.senders[i]? = some sender) (hp : sender.phase = .decided items)
    (ht : timestamp ≤ s.now) : Moved s (.reserve i timestamp) (s.reserveItems i sender items timestamp)
  | post {i sender reservedAt items batch batches sentItems} (hi : s.senders[i]? = some sender)
    (hp : sender.phase = .posting reservedAt items (batch :: batches) sentItems) :
    Moved s (.post i) (s.postBatch i sender reservedAt items batch batches sentItems)
  | recordSent {i sender reservedAt items batches sentItems batch postedAt timestamp}
    (hi : s.senders[i]? = some sender)
    (hp : sender.phase = .posted reservedAt items batches sentItems batch postedAt)
    (hpost : postedAt ≤ timestamp) (ht : timestamp ≤ s.now) :
    Moved s (.recordSent i timestamp) (s.recordBatch i sender reservedAt items batches sentItems batch timestamp)
  | fail {i sender} (items sentItems) (hi : s.senders[i]? = some sender) :
    Moved s (.fail i) (s.move i sender (.failing items sentItems))
  | recordFailure {i sender timestamp} (hi : s.senders[i]? = some sender)
    (hp : ∃ items sentItems, sender.phase = .failing items sentItems) (ht : timestamp ≤ s.now) :
    Moved s (.recordFailure i timestamp) (s.recordRemaining i sender timestamp)
  | leave {i sender} (hi : s.senders[i]? = some sender) : Moved s (.leave i) (s.move i sender .done)

theorem step_moved {s t : NotificationState} {a : NotificationAction} (h : step s a = some t) : Moved s a t := by
  cases a with
  | tick seconds =>
    cases h
    exact .tick seconds
  | begin config resend items =>
    cases h
    exact .begin config resend items
  | read i missing =>
    obtain ⟨sender,hi,h⟩ := Option.bind_eq_some_iff.mp h
    split at h
    · rename_i hp
      cases h
      exact .read hi hp
    · cases h
  | decide i =>
    obtain ⟨sender,hi,h⟩ := Option.bind_eq_some_iff.mp h
    split at h
    · rename_i hp
      cases h
      exact .decide hi hp
    · cases h
  | reserve i timestamp =>
    obtain ⟨sender,hi,h⟩ := Option.bind_eq_some_iff.mp h
    split at h
    · rename_i hp
      split at h
      · rename_i ht
        cases h
        exact .reserve hi hp ht
      · cases h
    · cases h
  | post i =>
    obtain ⟨sender,hi,h⟩ := Option.bind_eq_some_iff.mp h
    split at h
    · rename_i hp
      cases h
      exact .post hi hp
    · cases h
  | recordSent i timestamp =>
    obtain ⟨sender,hi,h⟩ := Option.bind_eq_some_iff.mp h
    split at h
    · rename_i hp
      split at h
      · rename_i ht
        cases h
        exact .recordSent hi hp ht.1 ht.2
      · cases h
    · cases h
  | fail i =>
    obtain ⟨sender,hi,h⟩ := Option.bind_eq_some_iff.mp h
    split at h
    · cases h
      exact .fail _ _ hi
    · cases h
      exact .fail _ _ hi
    · cases h
      exact .fail _ _ hi
    · cases h
  | recordFailure i timestamp =>
    obtain ⟨sender,hi,h⟩ := Option.bind_eq_some_iff.mp h
    split at h
    · rename_i hp
      split at h
      · rename_i ht
        cases h
        exact .recordFailure hi ⟨_,_,hp⟩ ht
      · cases h
    · cases h
  | leave i =>
    obtain ⟨sender,hi,h⟩ := Option.bind_eq_some_iff.mp h
    cases h
    exact .leave hi

theorem phaseOf_eq {s : NotificationState} {i : ℕ} {sender : NotificationSender} (hi : s.senders[i]? = some sender) :
    s.phaseOf i = sender.phase := by
  rw [phaseOf,hi,Option.elim_some]

/-- When a key was posted. -/
def postTimes (key : Str) : List ℕ := (s.posts.filter (·.1 = key)).map (·.2)

/-- Senders have yet to come, and the history is what earlier ones left. -/
def before (now : ℕ) (rows : NotificationRows) : NotificationState where
  now
  rows

/-! What the senders keep to -/

/-- No request asks for a resend, and each update is sent once. -/
def UnderRemoteChange (_ : NotificationState) : NotificationAction → Prop
  | .begin config resend _ => resend = false ∧ config.resendPolicy = .remoteChange
  | _ => True

/-- No request asks for a resend, and an update is sent again after a time. -/
def UnderCooldown (cooldownSeconds : ℕ) (_ : NotificationState) : NotificationAction → Prop
  | .begin config resend _ =>
    resend = false ∧ config.resendPolicy = .cooldown ∧ config.cooldownSeconds = cooldownSeconds
  | _ => True

/-- Posts and their records come within the lifetime of the reservation, and no record is missed. -/
def WithinLifetime (s : NotificationState) : NotificationAction → Prop
  | .tick seconds => ∀ sender ∈ s.senders, sender.phase.unrecorded ≠ [] →
    s.now + seconds < sender.phase.reservedAt + sendingReservationTtlSeconds
  | .post i => s.now < (s.phaseOf i).reservedAt + sendingReservationTtlSeconds
  | .fail i | .leave i => (s.phaseOf i).unrecorded = []
  | _ => True

/-- No failure is written over what another sender has reserved. -/
def FailuresOwn (s : NotificationState) : NotificationAction → Prop
  | .recordFailure i _ => ∀ key ∈ keysOf (s.phaseOf i).remaining, ∀ row ∈ s.rows key, row.status = .sending →
    row.lastAuditRunId = i ∨ sendingReservationStale row.lastAttemptedAt s.now = true
  | _ => True

/-- What was decided on a cooldown that has elapsed is reserved only while it still has. -/
def CooldownStillElapsed (cooldownSeconds : ℕ) (s : NotificationState) : NotificationAction → Prop
  | .reserve i timestamp => ∀ item ∈ (s.phaseOf i).toReserve, item.notificationStatus = .cooldownReady →
    cooldownElapsed ((s.rows item.notificationKey).bind (·.lastSentAt)) cooldownSeconds timestamp = true
  | _ => True

instance (s : NotificationState) : (a : NotificationAction) → Decidable (UnderRemoteChange s a)
  | .begin _ _ _ => inferInstanceAs (Decidable (_ ∧ _))
  | .tick _ | .read _ _ | .decide _ | .reserve _ _ | .post _ | .recordSent _ _ | .fail _ | .recordFailure _ _
  | .leave _ =>
    inferInstanceAs (Decidable True)

instance (cooldownSeconds : ℕ) (s : NotificationState) : (a : NotificationAction) →
    Decidable (UnderCooldown cooldownSeconds s a)
  | .begin _ _ _ => inferInstanceAs (Decidable (_ ∧ _ ∧ _))
  | .tick _ | .read _ _ | .decide _ | .reserve _ _ | .post _ | .recordSent _ _ | .fail _ | .recordFailure _ _
  | .leave _ =>
    inferInstanceAs (Decidable True)

instance (s : NotificationState) : (a : NotificationAction) → Decidable (WithinLifetime s a)
  | .tick _ => inferInstanceAs (Decidable (∀ sender ∈ _, _ → _))
  | .post _ => inferInstanceAs (Decidable (_ < _))
  | .fail _ | .leave _ => inferInstanceAs (Decidable (_ = _))
  | .begin _ _ _ | .read _ _ | .decide _ | .reserve _ _ | .recordSent _ _ | .recordFailure _ _ =>
    inferInstanceAs (Decidable True)

instance (s : NotificationState) : (a : NotificationAction) → Decidable (FailuresOwn s a)
  | .recordFailure _ _ => inferInstanceAs (Decidable (∀ key ∈ _, ∀ row ∈ s.rows key, _ → _))
  | .tick _ | .begin _ _ _ | .read _ _ | .decide _ | .reserve _ _ | .post _ | .recordSent _ _ | .fail _ | .leave _ =>
    inferInstanceAs (Decidable True)

instance (cooldownSeconds : ℕ) (s : NotificationState) : (a : NotificationAction) →
    Decidable (CooldownStillElapsed cooldownSeconds s a)
  | .reserve _ _ => inferInstanceAs (Decidable (∀ item ∈ _, _ → _))
  | .tick _ | .begin _ _ _ | .read _ _ | .decide _ | .post _ | .recordSent _ _ | .fail _ | .recordFailure _ _
  | .leave _ =>
    inferInstanceAs (Decidable True)

end NotificationState
end Wudup
