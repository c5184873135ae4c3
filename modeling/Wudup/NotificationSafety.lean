import Wudup.NotificationSending

/-! Posts of one key keep their distance: under one policy there is only one of them, under the other they are a
cooldown apart. -/
namespace Wudup
open Library
namespace NotificationState

/-- The row is reserved by a sender since a time. -/
def ReservedBy (row : Option NotificationHistory) (i reservedAt : ℕ) : Prop :=
  ∃ r ∈ row, r.status = .sending ∧ r.lastAuditRunId = i ∧ r.lastAttemptedAt = reservedAt

/-- The row knows of a post. -/
def Recorded (row : Option NotificationHistory) (postedAt : ℕ) : Prop :=
  0 < row.elim 0 (·.sendCount) ∧ ∃ sentAt ∈ row.bind (·.lastSentAt), postedAt ≤ sentAt

theorem ReservedBy.unique {row : Option NotificationHistory} {i j t u : ℕ} (h : ReservedBy row i t)
    (h' : ReservedBy row j u) : i = j := by
  obtain ⟨r,hr,-,hi,-⟩ := h
  obtain ⟨q,hq,-,hj,-⟩ := h'
  obtain rfl := Option.mem_unique hr hq
  exact hi.symm.trans hj

/-- A reservation that can be taken over is no longer alive. -/
theorem ReservedBy.stale {row : Option NotificationHistory} {i t now : ℕ} {allowExisting : Bool}
    (h : ReservedBy row i t) (hr : reservable row allowExisting now = true) :
    t + sendingReservationTtlSeconds ≤ now := by
  obtain ⟨r,hm,hs,-,ht⟩ := h
  obtain rfl := Option.mem_def.mp hm
  subst ht
  simp [reservable,hs,sendingReservationStale] at hr
  exact hr.1

/-- A row that knows of a post is reserved only where an item may be sent again. -/
theorem Recorded.allowExisting {row : Option NotificationHistory} {p now : ℕ} {allowExisting : Bool}
    (h : Recorded row p) (hr : reservable row allowExisting now = true) : allowExisting = true := by
  obtain ⟨hcount,sentAt,hsent,-⟩ := h
  cases row with
  | none => simp at hsent
  | some row =>
    have hne : row.sendCount ≠ 0 := Nat.pos_iff_ne_zero.mp hcount
    simp [reservable,hne] at hr
    exact hr.2

theorem Recorded.sendingRow {row : Option NotificationHistory} {config : ReleaseNotificationConfig} {p i now : ℕ}
    (h : Recorded row p) : Recorded (some (Wudup.sendingRow row config i now)) p := h

theorem Recorded.failure {row row' : Option NotificationHistory} {p now : ℕ} (h : Recorded row p)
    (hw : Written .failure now row row') : Recorded row' p := by
  obtain ⟨hcount,hsent⟩ := h
  have hsentAt : row'.bind (·.lastSentAt) = row.bind (·.lastSentAt) := by simpa using hw.sentAt_eq
  refine ⟨Nat.lt_of_lt_of_le hcount hw.sendCount_le,?_⟩
  rw [hsentAt]
  exact hsent

theorem recorded_of_written {row row' : Option NotificationHistory} {p now : ℕ} (hw : Written .sent now row row')
    (hp : p ≤ now) : Recorded row' p := by
  have hsentAt : row'.bind (·.lastSentAt) = some now := by simpa using hw.sentAt_eq
  refine ⟨hw.sendCount_pos rfl,?_⟩
  rw [hsentAt]
  exact ⟨now,rfl,hp⟩

/-! The invariant for one key -/

variable (Apart : ℕ → ℕ → Prop) (key : Str)

/-- What a sender may count on: the key is in one of its messages at most. While the reservation lives, the row is
the sender's and earlier posts are far enough, and what was posted is still alive. -/
structure Holds (row : Option NotificationHistory) (now : ℕ) (times : List ℕ) (i : ℕ)
    (phase : NotificationPhase) : Prop where
  once : (keysOf phase.unrecorded).count key + (keysOf phase.unposted).count key ≤ 1
  past : phase.reservedAt ≤ now
  unposted : key ∈ keysOf phase.unposted → now < phase.reservedAt + sendingReservationTtlSeconds →
    ReservedBy row i phase.reservedAt ∧ ∀ p ∈ times, Apart p phase.reservedAt
  unrecorded : key ∈ keysOf phase.unrecorded → now < phase.reservedAt + sendingReservationTtlSeconds ∧
    ReservedBy row i phase.reservedAt ∧ ∀ p ∈ times, p ≤ phase.postedAt

structure Spaced (s : NotificationState) : Prop where
  holds : ∀ i : ℕ, ∀ sender : NotificationSender, s.senders[i]? = some sender →
    Holds Apart key (s.rows key) s.now (s.postTimes key) i sender.phase
  recorded : ∀ p ∈ s.postTimes key, Recorded (s.rows key) p ∨
    ∃ i : ℕ, ∃ sender : NotificationSender, s.senders[i]? = some sender ∧ key ∈ keysOf sender.phase.unrecorded
  past : ∀ p ∈ s.postTimes key, p ≤ s.now
  apart : (s.postTimes key).Pairwise Apart

variable {Apart key} {row row' : Option NotificationHistory} {now : ℕ} {times times' : List ℕ} {i : ℕ}
  {phase : NotificationPhase}

/-- A sender with nothing in hand counts on nothing. -/
theorem Holds.of_idle (hp : phase.unposted = []) (hr : phase.unrecorded = []) (hat : phase.reservedAt ≤ now) :
    Holds Apart key row now times i phase := by
  constructor
  · simp [hp,hr,keysOf]
  · exact hat
  · intro hm
    simp [hp,keysOf] at hm
  · intro hm
    simp [hr,keysOf] at hm

/-- A sender whose reservation is not alive does not depend on the row. -/
theorem Holds.of_dead (h : Holds Apart key row now times i phase)
    (hdead : ReservedBy row i phase.reservedAt → phase.reservedAt + sendingReservationTtlSeconds ≤ now) :
    Holds Apart key row' now times' i phase where
  once := h.once
  past := h.past
  unposted hm halive := by
    have := hdead (h.unposted hm halive).1
    omega
  unrecorded hm := by
    obtain ⟨halive,hrow,-⟩ := h.unrecorded hm
    have := hdead hrow
    omega

theorem Holds.tick (h : Holds Apart key row now times i phase) {seconds : ℕ}
    (hlife : phase.unrecorded ≠ [] → now + seconds < phase.reservedAt + sendingReservationTtlSeconds) :
    Holds Apart key row (now + seconds) times i phase where
  once := h.once
  past := Nat.le_add_right_of_le h.past
  unposted hm halive := h.unposted hm (by omega)
  unrecorded hm := by
    obtain ⟨-,hrest⟩ := h.unrecorded hm
    refine ⟨hlife ?_,hrest⟩
    intro hnil
    simp [hnil,keysOf] at hm

/-! What each step keeps -/

variable {s : NotificationState} {sender : NotificationSender}

theorem mem_senders_set {xs : List NotificationSender} {i j : ℕ} {x y z : NotificationSender} (hi : xs[i]? = some z) :
    (xs.set i x)[j]? = some y ↔ j = i ∧ y = x ∨ j ≠ i ∧ xs[j]? = some y := by
  obtain ⟨hlt,-⟩ := List.getElem?_eq_some_iff.mp hi
  by_cases hj : j = i
  · subst hj
    simp [List.getElem?_set_self hlt,eq_comm]
  · simp [List.getElem?_set_ne (Ne.symm hj),hj]

/-- One sender moves: what it counts on, what the others go on counting on, and what is recorded. -/
theorem Spaced.move (h : Spaced Apart key s) (hi : s.senders[i]? = some sender) {t : NotificationState}
    (hset : t.senders = (s.move i sender phase).senders) (hnow : t.now = s.now)
    (hown : Holds Apart key (t.rows key) s.now (t.postTimes key) i phase)
    (hothers : ∀ j : ℕ, ∀ other : NotificationSender, j ≠ i →
      Holds Apart key (s.rows key) s.now (s.postTimes key) j other.phase →
      Holds Apart key (t.rows key) s.now (t.postTimes key) j other.phase)
    (hrecorded : ∀ p ∈ t.postTimes key,
      p ∈ s.postTimes key ∧ (∀ q, Recorded (s.rows key) q → Recorded (t.rows key) q) ∧
          key ∉ keysOf sender.phase.unrecorded ∨
        Recorded (t.rows key) p ∨ key ∈ keysOf phase.unrecorded)
    (hpast : ∀ p ∈ t.postTimes key, p ≤ s.now) (hapart : (t.postTimes key).Pairwise Apart) :
    Spaced Apart key t where
  holds j other hj := by
    rw [hset,NotificationState.move] at hj
    rw [hnow]
    rcases (mem_senders_set hi).mp hj with ⟨rfl,rfl⟩ | ⟨hne,hj⟩
    · exact hown
    · exact hothers j other hne (h.holds j other hj)
  recorded p hp := by
    rw [hset,NotificationState.move]
    rcases hrecorded p hp with ⟨hold,hkeep,hquiet⟩ | hrow | hnew
    · rcases h.recorded p hold with hrow | ⟨j,other,hj,hm⟩
      · exact .inl (hkeep p hrow)
      · refine .inr ⟨j,other,(mem_senders_set hi).mpr (.inr ⟨?_,hj⟩),hm⟩
        rintro rfl
        rw [hi] at hj
        cases hj
        exact hquiet hm
    · exact .inl hrow
    · exact .inr ⟨i,_,(mem_senders_set hi).mpr (.inl ⟨rfl,rfl⟩),hnew⟩
  past := by
    rw [hnow]
    exact hpast
  apart := hapart

/-- A sender that has nothing in hand after the step, and nothing to record before it. -/
theorem Spaced.idle (h : Spaced Apart key s) (hi : s.senders[i]? = some sender)
    (hquiet : sender.phase.unrecorded = []) (hp : phase.unposted = []) (hr : phase.unrecorded = [])
    (hat : phase.reservedAt = 0) : Spaced Apart key (s.move i sender phase) := by
  apply h.move hi rfl rfl
  · apply Holds.of_idle hp hr
    rw [hat]
    exact Nat.zero_le _
  · intro j other _ hother
    exact hother
  · intro p hp
    exact .inl ⟨hp,fun q hq => hq,by simp [hquiet,keysOf]⟩
  · exact h.past
  · exact h.apart

theorem Spaced.tick (h : Spaced Apart key s) {seconds : ℕ} (hlife : WithinLifetime s (.tick seconds)) :
    Spaced Apart key { s with now := s.now + seconds } where
  holds i sender hi := (h.holds i sender hi).tick (hlife sender (List.mem_of_getElem? hi))
  recorded := h.recorded
  past p hp := Nat.le_add_right_of_le (h.past p hp)
  apart := h.apart

theorem Spaced.begin (h : Spaced Apart key s) (hp : sender.phase.unposted = []) (hr : sender.phase.unrecorded = [])
    (hat : sender.phase.reservedAt = 0) : Spaced Apart key { s with senders := s.senders ++ [sender] } where
  holds i other hi := by
    rw [List.getElem?_append] at hi
    split at hi
    · exact h.holds i other hi
    · obtain rfl : sender = other := by
        obtain ⟨hlt,hi⟩ := List.getElem?_eq_some_iff.mp hi
        rw [← hi,List.getElem_singleton]
      apply Holds.of_idle hp hr
      rw [hat]
      exact Nat.zero_le _
  recorded p hm := by
    rcases h.recorded p hm with hrow | ⟨i,other,hi,hother⟩
    · exact .inl hrow
    · obtain ⟨hlt,-⟩ := List.getElem?_eq_some_iff.mp hi
      exact .inr ⟨i,other,(List.getElem?_append_left hlt).trans hi,hother⟩
  past := h.past
  apart := h.apart

/-- What was reserved is held under its key from the time of the reservation on. -/
theorem Holds.of_reserved {mode : ReleaseNotificationMode} {timestamp : ℕ} {items : List ReleaseNotificationItem}
    (hcount : (sendableKeys items).count key ≤ 1) (ht : timestamp ≤ now)
    (hrow : key ∈ sendableKeys items → ReservedBy row i timestamp ∧ ∀ p ∈ times, Apart p timestamp) :
    Holds Apart key row now times i (reservedPhase mode timestamp items) := by
  unfold reservedPhase
  split
  · exact Holds.of_idle rfl rfl (Nat.zero_le _)
  · have hunposted := @count_payloadBatches items mode key
    constructor
    · simp only [NotificationPhase.unrecorded,NotificationPhase.unposted,hunposted]
      simpa [keysOf] using hcount
    · exact ht
    · intro hm _
      apply hrow
      rw [← List.count_pos_iff] at hm ⊢
      rw [← hunposted]
      exact hm
    · intro hm
      simp [NotificationPhase.unrecorded,keysOf] at hm

/-- A reservation is granted when no other is alive, and earlier posts of the key are far enough. -/
theorem Spaced.reserve (h : Spaced Apart key s) (hk : key ≠ []) (hi : s.senders[i]? = some sender)
    {items : List ReleaseNotificationItem} {timestamp : ℕ} (hp : sender.phase = .decided items)
    (ht : timestamp ≤ s.now)
    (hagain : ∀ item ∈ items, item.sendable = true → item.notificationKey = key → item.allowExisting = true →
      ∀ p, Recorded (s.rows key) p → Apart p timestamp) :
    Spaced Apart key (s.reserveItems i sender items timestamp) := by
  have hquiet : key ∉ keysOf sender.phase.unrecorded := by simp [hp,NotificationPhase.unrecorded,keysOf]
  have hspec := @reserveReleaseNotificationHistory_spec sender.config items s.rows key i timestamp hk
  cases hspec with
  | refused hrow hitems =>
    have hrow : (s.reserveItems i sender items timestamp).rows key = s.rows key := hrow
    apply h.move hi (t := s.reserveItems i sender items timestamp) rfl rfl
    · apply Holds.of_reserved
      · rw [List.count_eq_zero.mpr hitems]
        exact Nat.zero_le 1
      · exact ht
      · intro hm
        exact absurd hm hitems
    · intro j other _ hother
      rw [hrow]
      exact hother
    · intro p hm
      refine .inl ⟨hm,?_,hquiet⟩
      rw [hrow]
      exact fun q hq => hq
    · exact h.past
    · exact h.apart
  | granted hitem hsend hkey hfree hrow hitems =>
    have hrow : (s.reserveItems i sender items timestamp).rows key =
      some (sendingRow (s.rows key) sender.config i timestamp) := hrow
    have hdead (j t : ℕ) (hr : ReservedBy (s.rows key) j t) : t + sendingReservationTtlSeconds ≤ s.now :=
      Nat.le_trans (hr.stale hfree) ht
    apply h.move hi (t := s.reserveItems i sender items timestamp) rfl rfl
    · apply Holds.of_reserved (Nat.le_of_eq hitems) ht
      intro _
      rw [hrow]
      refine ⟨⟨_,rfl,rfl,rfl,rfl⟩,?_⟩
      intro p hm
      rcases h.recorded p hm with hrec | ⟨j,other,hj,hm⟩
      · exact hagain _ hitem hsend hkey (hrec.allowExisting hfree) p hrec
      · obtain ⟨halive,hother,-⟩ := (h.holds j other hj).unrecorded hm
        have := hdead j _ hother
        omega
    · intro j other _ hother
      exact hother.of_dead (hdead j _)
    · intro p hm
      refine .inl ⟨hm,?_,hquiet⟩
      intro q hq
      rw [hrow]
      exact hq.sendingRow
    · exact h.past
    · exact h.apart

theorem times_of_batch (batch : List ReleaseNotificationItem) (now : ℕ) :
    ((batch.map fun item => (item.notificationKey,now)).filter (·.1 = key)).map (·.2) =
      List.replicate ((keysOf batch).count key) now := by
  induction batch with
  | nil => rfl
  | cons item rest ih =>
    by_cases hkey : item.notificationKey = key
    · simpa [keysOf,hkey,List.replicate_succ] using ih
    · simpa [keysOf,hkey] using ih

section
variable {reservedAt postedAt timestamp : ℕ} {items batch sentItems : List ReleaseNotificationItem}
  {batches : List (List ReleaseNotificationItem)}

theorem postTimes_postBatch : (s.postBatch i sender reservedAt items batch batches sentItems).postTimes key =
    s.postTimes key ++ List.replicate ((keysOf batch).count key) s.now := by
  simp only [postTimes,postBatch,List.filter_append,List.map_append,times_of_batch]

/-- A post under a live reservation is the only one between the earlier ones and now. -/
theorem Spaced.post (h : Spaced Apart key s) (hmono : ∀ p t u, Apart p t → t ≤ u → Apart p u)
    (hi : s.senders[i]? = some sender) (hp : sender.phase = .posting reservedAt items (batch :: batches) sentItems)
    (hlife : s.now < reservedAt + sendingReservationTtlSeconds) :
    Spaced Apart key (s.postBatch i sender reservedAt items batch batches sentItems) := by
  have hquiet : key ∉ keysOf sender.phase.unrecorded := by simp [hp,NotificationPhase.unrecorded,keysOf]
  have hholds := h.holds i sender hi
  rw [hp] at hholds
  have honce : (keysOf batch).count key + (keysOf batches.flatten).count key ≤ 1 := by
    simpa [NotificationPhase.unrecorded,NotificationPhase.unposted,keysOf] using hholds.once
  have hrow : key ∈ keysOf batch ∨ key ∈ keysOf batches.flatten →
      ReservedBy (s.rows key) i reservedAt ∧ ∀ p ∈ s.postTimes key, Apart p reservedAt := by
    intro hm
    refine hholds.unposted ?_ hlife
    simpa [NotificationPhase.unposted,keysOf] using hm
  by_cases hm : key ∈ keysOf batch
  · obtain ⟨hrow,hfar⟩ := hrow (.inl hm)
    have hpos := List.count_pos_iff.mpr hm
    have htimes : (s.postBatch i sender reservedAt items batch batches sentItems).postTimes key =
        s.postTimes key ++ [s.now] := by
      rw [postTimes_postBatch,show (keysOf batch).count key = 1 by omega]
      rfl
    have hpast : ∀ p ∈ s.postTimes key ++ [s.now], p ≤ s.now := by
      intro p hp
      rcases List.mem_append.mp hp with hp | hp
      · exact h.past p hp
      · exact Nat.le_of_eq (List.mem_singleton.mp hp)
    apply h.move hi (t := s.postBatch i sender reservedAt items batch batches sentItems) rfl rfl
    · constructor
      · exact honce
      · exact hholds.past
      · intro hrest
        have := List.count_pos_iff.mpr hrest
        simp only [NotificationPhase.unposted] at this
        omega
      · intro _
        rw [htimes]
        exact ⟨hlife,hrow,hpast⟩
    · intro j other hne hother
      apply hother.of_dead
      intro hr
      exact absurd (hr.unique hrow) hne
    · intro p _
      exact .inr (.inr hm)
    · rw [htimes]
      exact hpast
    · rw [htimes,List.pairwise_append]
      refine ⟨h.apart,List.pairwise_singleton _ _,?_⟩
      intro p hp q hq
      obtain rfl := List.mem_singleton.mp hq
      exact hmono p reservedAt _ (hfar p hp) hholds.past
  · have htimes : (s.postBatch i sender reservedAt items batch batches sentItems).postTimes key = s.postTimes key := by
      rw [postTimes_postBatch,List.count_eq_zero.mpr hm]
      exact List.append_nil _
    apply h.move hi (t := s.postBatch i sender reservedAt items batch batches sentItems) rfl rfl
    · rw [htimes]
      constructor
      · exact honce
      · exact hholds.past
      · intro hrest _
        exact hrow (.inr hrest)
      · intro hbatch
        exact absurd hbatch hm
    · intro j other _ hother
      rw [htimes]
      exact hother
    · intro p hp
      rw [htimes] at hp
      exact .inl ⟨hp,fun q hq => hq,hquiet⟩
    · rw [htimes]
      exact h.past
    · rw [htimes]
      exact h.apart

theorem Spaced.recordSent (h : Spaced Apart key s) (hk : key ≠ []) (hi : s.senders[i]? = some sender)
    (hp : sender.phase = .posted reservedAt items batches sentItems batch postedAt) (hpost : postedAt ≤ timestamp) :
    Spaced Apart key (s.recordBatch i sender reservedAt items batches sentItems batch timestamp) := by
  have hholds := h.holds i sender hi
  rw [hp] at hholds
  have honce : (keysOf batch).count key + (keysOf batches.flatten).count key ≤ 1 := hholds.once
  by_cases hm : key ∈ keysOf batch
  · obtain ⟨-,hrow,hpast⟩ := hholds.unrecorded hm
    have hpos := List.count_pos_iff.mpr hm
    have hwritten : Written .sent timestamp (s.rows key)
        ((s.recordBatch i sender reservedAt items batches sentItems batch timestamp).rows key) :=
      recordReleaseNotificationHistory_written hk hm
    apply h.move hi (t := s.recordBatch i sender reservedAt items batches sentItems batch timestamp) rfl rfl
    · constructor
      · simp only [NotificationPhase.unrecorded,NotificationPhase.unposted,keysOf,List.map_nil,
          List.count_nil] at honce ⊢
        omega
      · exact hholds.past
      · intro hrest
        have := List.count_pos_iff.mpr hrest
        simp only [NotificationPhase.unposted] at this
        omega
      · intro hnil
        simp [NotificationPhase.unrecorded,keysOf] at hnil
    · intro j other hne hother
      apply hother.of_dead
      intro hr
      exact absurd (hr.unique hrow) hne
    · intro p hp
      exact .inr (.inl (recorded_of_written hwritten (Nat.le_trans (hpast p hp) hpost)))
    · exact h.past
    · exact h.apart
  · have hrow : (s.recordBatch i sender reservedAt items batches sentItems batch timestamp).rows key = s.rows key :=
      recordReleaseNotificationHistory_other hm
    apply h.move hi (t := s.recordBatch i sender reservedAt items batches sentItems batch timestamp) rfl rfl
    · rw [hrow]
      constructor
      · simp only [NotificationPhase.unrecorded,NotificationPhase.unposted,keysOf,List.map_nil,
          List.count_nil] at honce ⊢
        omega
      · exact hholds.past
      · exact hholds.unposted
      · intro hnil
        simp [NotificationPhase.unrecorded,keysOf] at hnil
    · intro j other _ hother
      rw [hrow]
      exact hother
    · intro p hm'
      refine .inl ⟨hm',?_,?_⟩
      · rw [hrow]
        exact fun q hq => hq
      · rw [hp]
        exact hm
    · exact h.past
    · exact h.apart

end

/-- A failure is written only over rows that nobody else has reserved. -/
theorem Spaced.recordFailure (h : Spaced Apart key s) (hk : key ≠ []) (hi : s.senders[i]? = some sender)
    {timestamp : ℕ} (hp : ∃ items sentItems, sender.phase = .failing items sentItems)
    (hown : FailuresOwn s (.recordFailure i timestamp)) : Spaced Apart key (s.recordRemaining i sender timestamp) := by
  obtain ⟨items,sentItems,hp⟩ := hp
  have hquiet : key ∉ keysOf sender.phase.unrecorded := by simp [hp,NotificationPhase.unrecorded,keysOf]
  by_cases hm : key ∈ keysOf sender.phase.remaining
  · have hwritten : Written .failure timestamp (s.rows key) ((s.recordRemaining i sender timestamp).rows key) :=
      recordReleaseNotificationHistory_written hk hm
    rw [← phaseOf_eq hi] at hm
    apply h.move hi (t := s.recordRemaining i sender timestamp) rfl rfl
    · exact Holds.of_idle rfl rfl (Nat.zero_le _)
    · intro j other hne hother
      apply hother.of_dead
      rintro ⟨row,hrow,hsending,hj,ht⟩
      rcases hown key hm row hrow hsending with hi' | hstale
      · exact absurd (hj.symm.trans hi') hne
      · rw [← ht]
        simpa [sendingReservationStale] using hstale
    · intro p hp
      exact .inl ⟨hp,fun q hq => hq.failure hwritten,hquiet⟩
    · exact h.past
    · exact h.apart
  · have hrow : (s.recordRemaining i sender timestamp).rows key = s.rows key :=
      recordReleaseNotificationHistory_other hm
    apply h.move hi (t := s.recordRemaining i sender timestamp) rfl rfl
    · exact Holds.of_idle rfl rfl (Nat.zero_le _)
    · intro j other _ hother
      rw [hrow]
      exact hother
    · intro p hp
      refine .inl ⟨hp,?_,hquiet⟩
      rw [hrow]
      exact fun q hq => hq
    · exact h.past
    · exact h.apart

/-! What automatic senders decide -/

/-- The decisions of a sender, under its own policy and as for urgent items. -/
def DecidesAs (ok : NotificationStatus → Prop) (config : ReleaseNotificationConfig) (resend : Bool) : Prop :=
  ∀ history now, ok (notificationDecision config history resend now).1 ∧
    ok (notificationDecision { config with resendPolicy := .remoteChange } history resend now).1

/-- The items that were decided so far have such a status. -/
def DecidedAs (ok : NotificationStatus → Prop) : NotificationPhase → Prop
  | .candidates urgent items | .histories urgent items _ =>
    urgent = true → ∀ item ∈ items, item.category ≠ .securityUrgent → ok item.notificationStatus
  | .decided items => ∀ item ∈ items, ok item.notificationStatus
  | _ => True

def AllDecide (ok : NotificationStatus → Prop) (s : NotificationState) : Prop :=
  ∀ sender ∈ s.senders, DecidesAs ok sender.config sender.resend ∧ DecidedAs ok sender.phase

theorem retryableNotificationDecision_ne {history : NotificationHistory} {fresh status : NotificationStatus}
    (hf : fresh ≠ status) (hs : .skippedDuplicate ≠ status) :
    (retryableNotificationDecision history false fresh).1 ≠ status := by
  unfold retryableNotificationDecision
  by_cases hc : 0 < history.sendCount
  · simpa [hc] using hs
  · simpa [hc] using hf

theorem notificationDecision_ne_manualResend {config : ReleaseNotificationConfig}
    {history : Option NotificationHistory} : (notificationDecision config history false now).1 ≠ .manualResend := by
  unfold notificationDecision
  cases history with
  | none => simp
  | some history =>
    simp only
    split
    · split
      · exact retryableNotificationDecision_ne (by simp) (by simp)
      · simp
    · split
      · exact retryableNotificationDecision_ne (by simp) (by simp)
      · simp only [Bool.false_eq_true,if_false]
        split
        · split <;> simp
        · simp

theorem notificationDecision_ne_cooldownReady {config : ReleaseNotificationConfig}
    {history : Option NotificationHistory} (hpolicy : config.resendPolicy = .remoteChange) :
    (notificationDecision config history false now).1 ≠ .cooldownReady := by
  unfold notificationDecision
  cases history with
  | none => simp
  | some history =>
    simp only [hpolicy]
    split
    · split
      · exact retryableNotificationDecision_ne (by simp) (by simp)
      · simp
    · split
      · exact retryableNotificationDecision_ne (by simp) (by simp)
      · simp

section
variable {ok : NotificationStatus → Prop}

theorem AllDecide.move (h : AllDecide ok s) (hi : s.senders[i]? = some sender) (hp : DecidedAs ok phase)
    {t : NotificationState} (hset : t.senders = (s.move i sender phase).senders) : AllDecide ok t := by
  intro other hm
  rw [hset,NotificationState.move] at hm
  rcases List.mem_or_eq_of_mem_set hm with hm | rfl
  · exact h other hm
  · exact ⟨(h sender (List.mem_of_getElem? hi)).1,hp⟩

/-- An item is decided in the pass of its kind and left alone in the other. -/
theorem ok_annotateItems {config : ReleaseNotificationConfig} {resend urgent : Bool} {found : NotificationRows}
    {items : List ReleaseNotificationItem} {item : ReleaseNotificationItem} (h : DecidesAs ok config resend)
    (hm : item ∈ annotateItems config resend urgent found now items) :
    decide (item.category = .securityUrgent) = urgent ∧ ok item.notificationStatus ∨
      decide (item.category = .securityUrgent) ≠ urgent ∧ item ∈ items := by
  obtain ⟨old,hold,rfl⟩ := List.mem_map.mp hm
  split
  · rename_i hc
    refine .inl ⟨hc,?_⟩
    cases urgent with
    | true => exact (h _ _).2
    | false => exact (h _ _).1
  · rename_i hc
    exact .inr ⟨hc,hold⟩

theorem mem_sortItems {items : List ReleaseNotificationItem} {item : ReleaseNotificationItem} :
    item ∈ sortItems items ↔ item ∈ items := by
  by_cases hc : item.category = .securityUrgent <;> simp [sortItems,hc]

theorem AllDecide.decide (h : AllDecide ok s) (hi : s.senders[i]? = some sender) {urgent : Bool}
    {items : List ReleaseNotificationItem} {found : NotificationRows}
    (hp : sender.phase = .histories urgent items found) : AllDecide ok (s.decideItems i sender urgent items found) := by
  obtain ⟨hdecides,hbefore⟩ := h sender (List.mem_of_getElem? hi)
  rw [hp] at hbefore
  refine h.move hi ?_ rfl
  cases urgent with
  | true =>
    simp only [if_true]
    unfold decidedPhase
    split
    · trivial
    · intro item hm
      rcases ok_annotateItems hdecides (mem_sortItems.mp hm) with ⟨-,hok⟩ | ⟨hc,hm⟩
      · exact hok
      · exact hbefore rfl item hm (by simpa using hc)
  | false =>
    simp only [Bool.false_eq_true,if_false]
    intro _ item hm hc
    rcases ok_annotateItems hdecides hm with ⟨-,hok⟩ | ⟨hc',-⟩
    · exact hok
    · exact absurd hc (by simpa using hc')

theorem decidedAs_reservedPhase {mode : ReleaseNotificationMode} {timestamp : ℕ}
    {items : List ReleaseNotificationItem} : DecidedAs ok (reservedPhase mode timestamp items) := by
  unfold reservedPhase
  split <;> trivial

theorem AllDecide.step {a : NotificationAction} {t : NotificationState} (h : AllDecide ok s)
    (hbegin : ∀ config resend items, a = .begin config resend items → DecidesAs ok config resend)
    (hm : Moved s a t) : AllDecide ok t := by
  cases hm with
  | tick seconds => exact h
  | begin config resend items =>
    intro sender hs
    rcases List.mem_append.mp hs with hs | hs
    · exact h sender hs
    · obtain rfl := List.mem_singleton.mp hs
      refine ⟨hbegin config resend items rfl,?_⟩
      intro hu
      cases hu
  | @read i missing sender urgent items hi hp =>
    refine h.move hi ?_ rfl
    have hbefore := (h sender (List.mem_of_getElem? hi)).2
    rw [hp] at hbefore
    exact hbefore
  | decide hi hp => exact h.decide hi hp
  | reserve hi hp ht => exact h.move hi decidedAs_reservedPhase rfl
  | post hi hp =>
    refine h.move hi ?_ rfl
    trivial
  | recordSent hi hp hpost ht =>
    refine h.move hi ?_ rfl
    trivial
  | fail items sentItems hi =>
    refine h.move hi ?_ rfl
    trivial
  | recordFailure hi hp ht =>
    refine h.move hi ?_ rfl
    trivial
  | leave hi =>
    refine h.move hi ?_ rfl
    trivial

/-- Every step keeps the distance, where items that may be sent again are far enough from earlier posts. -/
theorem Spaced.step (hmono : ∀ p t u, Apart p t → t ≤ u → Apart p u) (hk : key ≠ []) {a : NotificationAction}
    {t : NotificationState} (h : Spaced Apart key s) (hlife : WithinLifetime s a) (hown : FailuresOwn s a)
    (hagain : ∀ i timestamp, a = .reserve i timestamp → ∀ item ∈ (s.phaseOf i).toReserve,
      item.notificationKey = key → item.allowExisting = true → ∀ p, Recorded (s.rows key) p → Apart p timestamp)
    (hm : Moved s a t) : Spaced Apart key t := by
  cases hm with
  | tick seconds => exact h.tick hlife
  | begin config resend items => exact h.begin rfl rfl rfl
  | read hi hp => exact h.idle hi (by simp [hp,NotificationPhase.unrecorded]) rfl rfl rfl
  | @decide i sender urgent items found hi hp =>
    have hquiet : sender.phase.unrecorded = [] := by simp [hp,NotificationPhase.unrecorded]
    unfold decideItems decidedPhase
    cases urgent with
    | false => exact h.idle hi hquiet rfl rfl rfl
    | true =>
      simp only [if_true]
      split <;> exact h.idle hi hquiet rfl rfl rfl
  | @reserve i sender items timestamp hi hp ht =>
    apply h.reserve hk hi hp ht
    intro item hitem _
    apply hagain i timestamp rfl item
    rw [phaseOf_eq hi,hp]
    exact hitem
  | @post i sender reservedAt items batch batches sentItems hi hp =>
    apply h.post hmono hi hp
    have halive : s.now < (s.phaseOf i).reservedAt + sendingReservationTtlSeconds := hlife
    rw [phaseOf_eq hi,hp] at halive
    exact halive
  | recordSent hi hp hpost ht => exact h.recordSent hk hi hp hpost
  | fail items sentItems hi => exact h.idle hi (phaseOf_eq hi ▸ hlife) rfl rfl rfl
  | recordFailure hi hp ht => exact h.recordFailure hk hi hp hown
  | leave hi => exact h.idle hi (phaseOf_eq hi ▸ hlife) rfl rfl rfl

end

theorem spaced_before {now : ℕ} {rows : NotificationRows} : Spaced Apart key (before now rows) where
  holds i sender hi := by simp [before] at hi
  recorded p hp := by simp [before,postTimes] at hp
  past p hp := by simp [before,postTimes] at hp
  apart := List.Pairwise.nil

/-- Under the policy that sends an update once, no run posts a key twice, if no failure is written over what
another sender has reserved. -/
theorem posted_at_most_once {now : ℕ} {rows : NotificationRows} {actions : List NotificationAction}
    {t : NotificationState} {key : Str} (hk : key ≠ [])
    (hpolicy : System.Along step UnderRemoteChange (before now rows) actions)
    (hlife : System.Along step WithinLifetime (before now rows) actions)
    (hown : System.Along step FailuresOwn (before now rows) actions)
    (hr : System.run step (before now rows) actions = some t) : (t.postTimes key).length ≤ 1 := by
  let ok : NotificationStatus → Prop := fun status => status ∉ [NotificationStatus.manualResend,.cooldownReady]
  have hinv : Spaced (fun _ _ => False) key t ∧ AllDecide ok t := by
    refine System.run_invariant (I := fun s => Spaced (fun _ _ => False) key s ∧ AllDecide ok s) ?_
      ⟨spaced_before,by simp [AllDecide,before]⟩ (hpolicy.and (hlife.and hown)) hr
    rintro s a u ⟨hs,hd⟩ ⟨hp,hl,ho⟩ hstep
    have hm := step_moved hstep
    refine ⟨hs.step (fun _ _ _ h _ => h) hk hl ho ?_ hm,hd.step ?_ hm⟩
    · rintro i timestamp rfl item hitem - hallow
      cases hm with
      | reserve hi hphase ht =>
        have hitems := (hd _ (List.mem_of_getElem? hi)).2
        rw [phaseOf_eq hi,hphase] at hitem
        rw [hphase] at hitems
        exact absurd (decide_eq_true_iff.mp hallow) (hitems item hitem)
    · rintro config resend items rfl history now
      obtain ⟨rfl,hpolicy⟩ := hp
      simp only [ok,List.mem_cons,List.not_mem_nil,or_false,not_or]
      exact ⟨⟨notificationDecision_ne_manualResend,notificationDecision_ne_cooldownReady hpolicy⟩,
        ⟨notificationDecision_ne_manualResend,notificationDecision_ne_cooldownReady rfl⟩⟩
  match htimes : t.postTimes key with
  | [] => simp
  | [_] => simp
  | p :: q :: rest =>
    have := hinv.1.apart
    rw [htimes] at this
    exact absurd ((List.pairwise_cons.mp this).1 q List.mem_cons_self) id

section
/-! Three senders of one update, the second of which cannot open the database when it is to reserve. -/

def oneUpdate : List ReleaseNotificationItem := [{ notificationKey := ['k'] }]

/-- A sender that has read the history and decided. -/
def decisions (i : ℕ) (config : ReleaseNotificationConfig) : List NotificationAction :=
  [.begin config false oneUpdate,.read i false,.decide i,.read i false,.decide i]

def failureOverReservation : List NotificationAction :=
  decisions 0 {} ++ decisions 1 {} ++ [.reserve 0 0,.fail 1,.recordFailure 1 0] ++ decisions 2 {} ++
    [.reserve 2 0,.post 0,.post 2]

/-- A sender that posts and records, and one that finds the update sent. -/
def sentOnce : List NotificationAction :=
  decisions 0 {} ++ [.reserve 0 0,.post 0,.recordSent 0 0,.tick 700] ++ decisions 1 {}

end

/-- The failure frees a row that another sender has reserved and is about to use. -/
theorem failure_posts_twice :
    System.Along step UnderRemoteChange (before 0 fun _ => none) failureOverReservation ∧
      System.Along step WithinLifetime (before 0 fun _ => none) failureOverReservation ∧
      (System.run step (before 0 fun _ => none) failureOverReservation).map (·.postTimes ['k']) = some [0,0] := by
  decide +kernel

theorem sentOnce_posted : (((System.run step (before 0 fun _ => none) sentOnce).get
    (by decide +kernel)).postTimes ['k']).length ≤ 1 :=
  posted_at_most_once (by decide) (by decide +kernel) (by decide +kernel) (by decide +kernel)
    (Option.some_get _).symm

/-- Under the policy with a cooldown, two posts of a key are that far apart, if also no reservation is taken on a
decision that no longer holds. -/
theorem posts_cooldown_apart {cooldownSeconds now : ℕ} {rows : NotificationRows} {actions : List NotificationAction}
    {t : NotificationState} {key : Str} (hk : key ≠ [])
    (hpolicy : System.Along step (UnderCooldown cooldownSeconds) (before now rows) actions)
    (hlife : System.Along step WithinLifetime (before now rows) actions)
    (hown : System.Along step FailuresOwn (before now rows) actions)
    (helapsed : System.Along step (CooldownStillElapsed cooldownSeconds) (before now rows) actions)
    (hr : System.run step (before now rows) actions = some t) :
    (t.postTimes key).Pairwise fun earlier later => earlier + cooldownSeconds ≤ later := by
  let Apart : ℕ → ℕ → Prop := fun earlier later => earlier + cooldownSeconds ≤ later
  let ok : NotificationStatus → Prop := fun status => status ≠ .manualResend
  have hmono (p t u : ℕ) (h : Apart p t) (htu : t ≤ u) : Apart p u := Nat.le_trans h htu
  have hinv : Spaced Apart key t ∧ AllDecide ok t := by
    refine System.run_invariant (I := fun s => Spaced Apart key s ∧ AllDecide ok s) ?_
      ⟨spaced_before,by simp [AllDecide,before]⟩ (hpolicy.and (hlife.and (hown.and helapsed))) hr
    rintro s a u ⟨hs,hd⟩ ⟨hp,hl,ho,he⟩ hstep
    have hm := step_moved hstep
    refine ⟨hs.step hmono hk hl ho ?_ hm,hd.step ?_ hm⟩
    · rintro i timestamp rfl item hitem rfl hallow p ⟨-,sentAt,hsent,hpost⟩
      cases hm with
      | reserve hi hphase ht =>
        have hitems := (hd _ (List.mem_of_getElem? hi)).2
        rw [← phaseOf_eq hi] at hphase hitems
        rw [hphase] at hitems
        have hne : item.notificationStatus ≠ .manualResend := hitems item (by rwa [hphase] at hitem)
        have hready : item.notificationStatus = .cooldownReady := by
          simpa [ReleaseNotificationItem.allowExisting,hne] using hallow
        have helapsed := he item hitem hready
        rw [Option.mem_def.mp hsent] at helapsed
        have hle : sentAt + cooldownSeconds ≤ timestamp := by simpa [cooldownElapsed] using helapsed
        exact Nat.le_trans (Nat.add_le_add_right hpost _) hle
    · rintro config resend items rfl history now
      obtain ⟨rfl,-⟩ := hp
      exact ⟨notificationDecision_ne_manualResend,notificationDecision_ne_manualResend⟩
  exact hinv.1.apart

section
/-! Two senders that both find the cooldown of an hour elapsed -/

def hourly : ReleaseNotificationConfig where
  resendPolicy := .cooldown
  cooldownSeconds := 3600

/-- The update was sent at the beginning. -/
def sentAtStart : NotificationRows := fun key =>
  if key = ['k'] then
    some ⟨.digest,.sent,0,some 0,1,9⟩
  else none

/-- The second sender decides before the first one posts and reserves after it has recorded. -/
def decidedTogether : List NotificationAction :=
  decisions 0 hourly ++ decisions 1 hourly ++
    [.reserve 0 3600,.post 0,.recordSent 0 3600,.tick 1,.reserve 1 3601,.post 1]

/-- A sender after the other, each when the cooldown has elapsed. -/
def decidedInTurn : List NotificationAction :=
  decisions 0 hourly ++ [.reserve 0 3600,.post 0,.recordSent 0 3600,.tick 3600] ++ decisions 1 hourly ++
    [.reserve 1 7200,.post 1,.recordSent 1 7200]

end

theorem cooldown_posts_too_close :
    System.Along step (UnderCooldown 3600) (before 3600 sentAtStart) decidedTogether ∧
      System.Along step WithinLifetime (before 3600 sentAtStart) decidedTogether ∧
      System.Along step FailuresOwn (before 3600 sentAtStart) decidedTogether ∧
      (System.run step (before 3600 sentAtStart) decidedTogether).map (·.postTimes ['k']) = some [3600,3601] := by
  decide +kernel

theorem decidedInTurn_apart : (((System.run step (before 3600 sentAtStart) decidedInTurn).get
    (by decide +kernel)).postTimes ['k']).Pairwise fun earlier later => earlier + 3600 ≤ later :=
  posts_cooldown_apart (by decide) (by decide +kernel) (by decide +kernel) (by decide +kernel)
    (by decide +kernel) (Option.some_get _).symm

end NotificationState
end Wudup
