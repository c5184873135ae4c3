import Wudup.Library.Keyed
import Wudup.RequestContext
import Mathlib.Data.List.MinMax
import Mathlib.Data.Prod.Lex

/-! The tables behind the login throttle. -/
namespace Wudup
open Library

/-- An entry in its table, with the time that decides between two entries when one has to go. -/
structure ThrottleRow (κ : Type) extends LoginThrottleEntry where
  key : κ
  firstFailedAt : ℤ
  deriving DecidableEq, Repr

structure LoginTables where
  throttle : List (ThrottleRow ThrottleKey) := []
  clientThrottle : List (ThrottleRow Str) := []
  pending : ThrottleKey → ℕ := fun _ => 0
  clientPending : Str → ℕ := fun _ => 0

/-- The tables as lookups. -/
def LoginTables.view (tables : LoginTables) : LoginThrottle where
  throttle key := (Keyed.find ThrottleRow.key key tables.throttle).map (·.toLoginThrottleEntry)
  clientThrottle client := (Keyed.find ThrottleRow.key client tables.clientThrottle).map (·.toLoginThrottleEntry)
  pending := tables.pending
  clientPending := tables.clientPending

def loginThrottleMaxEntries : ℕ := 1024
def loginThrottleMaxClientEntries : ℕ := 1024

/-- Five failures and sixty seconds, for a clock of so many ticks a second. -/
def loginLimits (casefold : Str → Str) (ticks : ℕ) : LoginRules := ⟨casefold,5,60 * ticks⟩

section
variable {κ : Type} [DecidableEq κ]

def evictLoginThrottleEntry (rows : List (ThrottleRow κ)) (now : ℤ) (preserveLocked : Bool) :
    Option (List (ThrottleRow κ)) :=
  let evictable := rows.filter fun row => !preserveLocked || row.lockedUntil ≤ now
  (evictable.argmin fun row => toLex (row.lastFailedAt,row.firstFailedAt)).map fun row =>
    Keyed.remove ThrottleRow.key row.key rows

end

namespace LoginRules
variable (rules : LoginRules)

section
variable {κ : Type} [DecidableEq κ]

def pruneRows (rows : List (ThrottleRow κ)) (now : ℤ) : List (ThrottleRow κ) :=
  rows.filter fun row => now - row.lastFailedAt < rules.cooldown

/-- The entry is locked from its last failure on when it has as many as are allowed. -/
def lock (row : ThrottleRow κ) (now : ℤ) : ThrottleRow κ :=
  if row.failures ≥ rules.maxFailures then { row with lockedUntil := now + rules.cooldown } else row

def firstFailure (key : κ) (now : ℤ) : ThrottleRow κ :=
  rules.lock { failures := 1, lastFailedAt := now, lockedUntil := 0, key, firstFailedAt := now } now

def nextFailure (row : ThrottleRow κ) (now : ℤ) : ThrottleRow κ :=
  rules.lock { row with failures := row.failures + 1, lastFailedAt := now } now

def nextFailureOf (rows : List (ThrottleRow κ)) (key : κ) (now : ℤ) : List (ThrottleRow κ) :=
  Keyed.modify ThrottleRow.key key (rules.nextFailure · now) rows

end

/-- A full table loses an entry, locked or not, to a client that is new in it. -/
def recordLoginClientFailure (rows : List (ThrottleRow Str)) (clientAddress : Str) (now : ℤ) :
    List (ThrottleRow Str) :=
  if (Keyed.find ThrottleRow.key clientAddress rows).isSome then rules.nextFailureOf rows clientAddress now
  else
    let rows :=
      if rows.length ≥ loginThrottleMaxClientEntries then (evictLoginThrottleEntry rows now false).getD rows
      else rows
    rows ++ [rules.firstFailure clientAddress now]

/-- The client's failure is recorded even if the table of names has no room. -/
def recordLoginFailure (tables : LoginTables) (clientAddress : Str) (key : ThrottleKey) (now : ℤ) : LoginTables :=
  let throttle := rules.pruneRows tables.throttle now
  let clientThrottle :=
    rules.recordLoginClientFailure (rules.pruneRows tables.clientThrottle now) clientAddress now
  if (Keyed.find ThrottleRow.key key throttle).isSome then
    { tables with clientThrottle, throttle := rules.nextFailureOf throttle key now }
  else if throttle.length < loginThrottleMaxEntries then
    { tables with clientThrottle, throttle := throttle ++ [rules.firstFailure key now] }
  else
    match evictLoginThrottleEntry throttle now true with
    | some rest => { tables with clientThrottle, throttle := rest ++ [rules.firstFailure key now] }
    | none => { tables with clientThrottle, throttle }

end LoginRules

namespace LoginTables
variable (tables : LoginTables) (rules : LoginRules)

def reserve (clientAddress : Str) (key : ThrottleKey) (now : ℤ) : Bool × LoginTables :=
  let throttle := rules.pruneRows tables.throttle now
  let clientThrottle := rules.pruneRows tables.clientThrottle now
  let pruned := { tables with throttle, clientThrottle }
  let entry := (Keyed.find ThrottleRow.key key throttle).map (·.toLoginThrottleEntry)
  let clientEntry := (Keyed.find ThrottleRow.key clientAddress clientThrottle).map (·.toLoginThrottleEntry)
  if rules.loginAttemptsExhausted entry (tables.pending key) now ||
      rules.loginAttemptsExhausted clientEntry (tables.clientPending clientAddress) now then
    (false,pruned)
  else
    (true,{ pruned with
      pending := Function.update tables.pending key (tables.pending key + 1)
      clientPending := Function.update tables.clientPending clientAddress
        (tables.clientPending clientAddress + 1) })

def release (clientAddress : Str) (key : ThrottleKey) : LoginTables :=
  { tables with
    pending := Function.update tables.pending key (tables.pending key - 1)
    clientPending := Function.update tables.clientPending clientAddress (tables.clientPending clientAddress - 1) }

def clear (clientAddress : Str) (key : ThrottleKey) : LoginTables :=
  { tables with
    throttle := Keyed.remove ThrottleRow.key key tables.throttle
    clientThrottle := Keyed.remove ThrottleRow.key clientAddress tables.clientThrottle }

end LoginTables

/-! Rows -/

section
variable {κ : Type} {rules : LoginRules} {rows rest : List (ThrottleRow κ)} {row : ThrottleRow κ} {key : κ} {now : ℤ}

/-- A row is locked for the cooldown after its last failure, and only with as many failures as are allowed. -/
def ThrottleRow.Timed (rules : LoginRules) (row : ThrottleRow κ) : Prop :=
  if row.failures ≥ rules.maxFailures then row.lockedUntil = row.lastFailedAt + rules.cooldown
  else row.lockedUntil = 0

structure SoundRows (rules : LoginRules) (rows : List (ThrottleRow κ)) : Prop where
  nodup : (rows.map ThrottleRow.key).Nodup
  timed : ∀ row ∈ rows, row.Timed rules

theorem SoundRows.sublist (h : SoundRows rules rows) (hs : rest.Sublist rows) : SoundRows rules rest :=
  ⟨(hs.map _).nodup h.nodup,fun row hr => h.timed row (hs.mem hr)⟩

/-- A row that is locked is not old enough to be dropped. -/
theorem ThrottleRow.Timed.recent (h : row.Timed rules) (hnow : 0 ≤ now) (hl : now < row.lockedUntil) :
    now - row.lastFailedAt < rules.cooldown := by
  unfold ThrottleRow.Timed at h
  split at h <;> omega

theorem pruneRows_sublist : (rules.pruneRows rows now).Sublist rows := List.filter_sublist

@[simp] theorem key_lock : (rules.lock row now).key = row.key := by
  unfold LoginRules.lock
  split <;> rfl

@[simp] theorem failures_lock : (rules.lock row now).failures = row.failures := by
  unfold LoginRules.lock
  split <;> rfl

@[simp] theorem lastFailedAt_lock : (rules.lock row now).lastFailedAt = row.lastFailedAt := by
  unfold LoginRules.lock
  split <;> rfl

theorem timed_firstFailure : (rules.firstFailure key now).Timed rules := by
  unfold ThrottleRow.Timed
  simp only [LoginRules.firstFailure,LoginRules.lock]
  split <;> simp_all

theorem ThrottleRow.Timed.nextFailure (h : row.Timed rules) : (rules.nextFailure row now).Timed rules := by
  unfold ThrottleRow.Timed at h ⊢
  simp only [LoginRules.nextFailure,LoginRules.lock]
  by_cases hmax : row.failures + 1 ≥ rules.maxFailures
  · simp [hmax]
  · have hless : ¬row.failures ≥ rules.maxFailures := by omega
    simpa [hmax,hless] using h

variable [DecidableEq κ]

theorem find_pruneRows (h : SoundRows rules rows) :
    Keyed.find ThrottleRow.key key (rules.pruneRows rows now) =
      (Keyed.find ThrottleRow.key key rows).filter fun row => now - row.lastFailedAt < rules.cooldown :=
  Keyed.find_filter h.nodup

theorem evictLoginThrottleEntry_sublist {b : Bool} (h : evictLoginThrottleEntry rows now b = some rest) :
    rest.Sublist rows := by
  obtain ⟨row,-,rfl⟩ := Option.map_eq_some_iff.mp h
  exact Keyed.remove_sublist

theorem SoundRows.nextFailureOf (h : SoundRows rules rows) : SoundRows rules (rules.nextFailureOf rows key now) := by
  constructor
  · rw [LoginRules.nextFailureOf,Keyed.map_modify]
    · exact h.nodup
    · simp [LoginRules.nextFailure]
  · intro row hr
    obtain ⟨old,hold,rfl⟩ := Keyed.mem_modify.mp hr
    split
    · exact (h.timed old hold).nextFailure
    · exact h.timed old hold

theorem SoundRows.firstFailure (h : SoundRows rules rows) (hn : Keyed.find ThrottleRow.key key rows = none) :
    SoundRows rules (rows ++ [rules.firstFailure key now]) := by
  have hkey : (rules.firstFailure key now).key = key := by simp [LoginRules.firstFailure]
  have hnew : key ∉ rows.map ThrottleRow.key := by
    intro hmem
    obtain ⟨row,hr,hk⟩ := List.mem_map.mp hmem
    have hne := List.find?_eq_none.mp hn row hr
    simp [hk] at hne
  constructor
  · rw [List.map_append,List.map_singleton,hkey]
    exact List.nodup_append.mpr ⟨h.nodup,List.nodup_singleton _,by simpa using hnew⟩
  · intro row hr
    obtain hold | hnew := List.mem_append.mp hr
    · exact h.timed row hold
    · rw [List.mem_singleton.mp hnew]
      exact timed_firstFailure

theorem find_nextFailureOf : Keyed.find ThrottleRow.key key (rules.nextFailureOf rows key now) =
    (Keyed.find ThrottleRow.key key rows).map (rules.nextFailure · now) :=
  Keyed.find_modify fun _ => by simp [LoginRules.nextFailure]

theorem find_nextFailureOf_ne {other : κ} (ho : other ≠ key) :
    Keyed.find ThrottleRow.key other (rules.nextFailureOf rows key now) = Keyed.find ThrottleRow.key other rows :=
  Keyed.find_modify_ne (fun _ => by simp [LoginRules.nextFailure]) ho

end

/-! Tables -/

section
variable {rules : LoginRules} {rows : List (ThrottleRow Str)} {tables : LoginTables} {client : Str}
  {key : ThrottleKey} {now : ℤ}

def failuresOf (rows : List (ThrottleRow Str)) (client : Str) : ℕ :=
  ((Keyed.find ThrottleRow.key client rows).map (·.failures)).getD 0

/-- The table of clients has room for a failure of the client. -/
def roomFor (rows : List (ThrottleRow Str)) (client : Str) : Bool :=
  (Keyed.find ThrottleRow.key client rows).isSome || rows.length < loginThrottleMaxClientEntries

theorem failuresOf_sublist {rest : List (ThrottleRow Str)} (h : SoundRows rules rows) (hs : rest.Sublist rows) :
    failuresOf rest client ≤ failuresOf rows client := by
  unfold failuresOf
  cases hfind : Keyed.find ThrottleRow.key client rest with
  | none => exact Nat.zero_le _
  | some row => rw [Keyed.find_of_sublist h.nodup hs hfind]

/-- What a client's failure starts from when it is new in the table. -/
theorem recordLoginClientFailure_new (rules : LoginRules) (now : ℤ)
    (hn : Keyed.find ThrottleRow.key client rows = none) :
    ∃ rest, rest.Sublist rows ∧ (roomFor rows client = true → rest = rows) ∧
      Keyed.find ThrottleRow.key client rest = none ∧
      rules.recordLoginClientFailure rows client now = rest ++ [rules.firstFailure client now] := by
  simp only [LoginRules.recordLoginClientFailure,hn,Option.isSome_none,Bool.false_eq_true,if_false]
  by_cases hfull : rows.length ≥ loginThrottleMaxClientEntries
  · have hroom : roomFor rows client = false := by
      simp [roomFor,hn,hfull]
    cases hevict : evictLoginThrottleEntry rows now false with
    | none => exact ⟨rows,List.Sublist.refl _,by simp,hn,by simp [hfull]⟩
    | some rest =>
      have hs := evictLoginThrottleEntry_sublist hevict
      exact ⟨rest,hs,by simp [hroom],Keyed.find_none_of_sublist hs hn,by simp [hfull]⟩
  · exact ⟨rows,List.Sublist.refl _,by simp,hn,by simp [hfull]⟩

theorem sound_recordLoginClientFailure (h : SoundRows rules rows) :
    SoundRows rules (rules.recordLoginClientFailure rows client now) := by
  cases hfind : Keyed.find ThrottleRow.key client rows with
  | some row =>
    simp only [LoginRules.recordLoginClientFailure,hfind,Option.isSome_some,if_true]
    exact h.nextFailureOf
  | none =>
    obtain ⟨rest,hs,-,hnone,heq⟩ := recordLoginClientFailure_new rules now hfind
    rw [heq]
    exact (h.sublist hs).firstFailure hnone

/-- The client's row has one failure more than before. -/
theorem find_recordLoginClientFailure (rules : LoginRules) (rows : List (ThrottleRow Str)) (client : Str) (now : ℤ) :
    ∃ row, Keyed.find ThrottleRow.key client (rules.recordLoginClientFailure rows client now) = some row ∧
      row.lastFailedAt = now ∧ row.failures = failuresOf rows client + 1 := by
  cases hfind : Keyed.find ThrottleRow.key client rows with
  | some row =>
    refine ⟨rules.nextFailure row now,?_,?_,?_⟩
    · simp only [LoginRules.recordLoginClientFailure,hfind,Option.isSome_some,if_true]
      rw [find_nextFailureOf,hfind,Option.map_some]
    · simp [LoginRules.nextFailure]
    · simp [LoginRules.nextFailure,failuresOf,hfind]
  | none =>
    obtain ⟨rest,-,-,hnone,heq⟩ := recordLoginClientFailure_new rules now hfind
    refine ⟨rules.firstFailure client now,?_,?_,?_⟩
    · rw [heq,Keyed.find,List.find?_append,← Keyed.find,hnone]
      simp [LoginRules.firstFailure]
    · simp [LoginRules.firstFailure]
    · simp [LoginRules.firstFailure,failuresOf,hfind]

/-- The row of another client stays, unless it has to go. -/
theorem find_recordLoginClientFailure_ne (rules : LoginRules) (rows : List (ThrottleRow Str)) (now : ℤ) {other : Str}
    (ho : other ≠ client) :
    ∃ rest, rest.Sublist rows ∧ (roomFor rows client = true → rest = rows) ∧
      Keyed.find ThrottleRow.key other (rules.recordLoginClientFailure rows client now) =
        Keyed.find ThrottleRow.key other rest := by
  cases hfind : Keyed.find ThrottleRow.key client rows with
  | some row =>
    refine ⟨rows,List.Sublist.refl _,fun _ => rfl,?_⟩
    simp only [LoginRules.recordLoginClientFailure,hfind,Option.isSome_some,if_true]
    exact find_nextFailureOf_ne ho
  | none =>
    obtain ⟨rest,hs,hroom,-,heq⟩ := recordLoginClientFailure_new rules now hfind
    refine ⟨rest,hs,hroom,?_⟩
    have hkey : ¬(rules.firstFailure client now).key = other := by
      simpa [LoginRules.firstFailure] using ho.symm
    rw [heq,Keyed.find,List.find?_append]
    simp [Keyed.find,hkey]

theorem clientThrottle_recordLoginFailure : (rules.recordLoginFailure tables client key now).clientThrottle =
    rules.recordLoginClientFailure (rules.pruneRows tables.clientThrottle now) client now := by
  unfold LoginRules.recordLoginFailure
  dsimp only
  repeat' split
  all_goals rfl

theorem clientPending_recordLoginFailure :
    (rules.recordLoginFailure tables client key now).clientPending = tables.clientPending := by
  unfold LoginRules.recordLoginFailure
  dsimp only
  repeat' split
  all_goals rfl

theorem sound_recordLoginFailure (h : SoundRows rules tables.throttle) :
    SoundRows rules (rules.recordLoginFailure tables client key now).throttle := by
  have hpruned : SoundRows rules (rules.pruneRows tables.throttle now) := h.sublist pruneRows_sublist
  unfold LoginRules.recordLoginFailure
  dsimp only
  split
  · exact hpruned.nextFailureOf
  · rename_i hfind
    rw [Bool.not_eq_true,Option.isSome_eq_false_iff,Option.isNone_iff_eq_none] at hfind
    split
    · exact hpruned.firstFailure hfind
    · split
      · rename_i rest hevict
        have hs := evictLoginThrottleEntry_sublist hevict
        exact (hpruned.sublist hs).firstFailure (Keyed.find_none_of_sublist hs hfind)
      · exact hpruned

theorem reserve_pruned {b : Bool} {rest : LoginTables} (h : tables.reserve rules client key now = (b,rest)) :
    rest.throttle = rules.pruneRows tables.throttle now ∧
      rest.clientThrottle = rules.pruneRows tables.clientThrottle now := by
  simp only [LoginTables.reserve] at h
  split at h
  · cases h
    exact ⟨rfl,rfl⟩
  · cases h
    exact ⟨rfl,rfl⟩

/-- An admitted attempt leaves the client below its limit and finds it unlocked. -/
theorem reserve_admitted {rest : LoginTables} (h : tables.reserve rules client key now = (true,rest)) :
    failuresOf (rules.pruneRows tables.clientThrottle now) client + tables.clientPending client < rules.maxFailures ∧
      (∀ row, Keyed.find ThrottleRow.key client (rules.pruneRows tables.clientThrottle now) = some row →
        row.lockedUntil ≤ now) ∧
      rest.clientPending = Function.update tables.clientPending client (tables.clientPending client + 1) := by
  simp only [LoginTables.reserve] at h
  split at h
  · cases h
  · rename_i hfree
    cases h
    simp only [LoginRules.loginAttemptsExhausted,Bool.or_eq_true,decide_eq_true_eq,not_or,Option.map_map] at hfree
    obtain ⟨-,hunlocked,hcount⟩ := hfree
    refine ⟨Nat.lt_of_not_le hcount,?_,rfl⟩
    intro row hrow
    rw [hrow] at hunlocked
    simpa using hunlocked

theorem reserve_denied {rest : LoginTables} (h : tables.reserve rules client key now = (false,rest)) :
    rest.clientPending = tables.clientPending := by
  simp only [LoginTables.reserve] at h
  split at h
  · cases h
    rfl
  · cases h

theorem view_pruneRows {κ : Type} [DecidableEq κ] {rows : List (ThrottleRow κ)} (h : SoundRows rules rows) (key : κ) :
    (Keyed.find ThrottleRow.key key (rules.pruneRows rows now)).map (·.toLoginThrottleEntry) =
      rules.pruneLoginThrottle (fun key => (Keyed.find ThrottleRow.key key rows).map (·.toLoginThrottleEntry)) now
        key := by
  rw [find_pruneRows h,LoginRules.pruneLoginThrottle]
  cases Keyed.find ThrottleRow.key key rows with
  | none => rfl
  | some row =>
    by_cases hrecent : now - row.lastFailedAt < rules.cooldown <;> simp [Option.filter,hrecent]

/-- On the lookups of the tables a reservation does what it does on the tables. -/
theorem view_reserve (hnames : SoundRows rules tables.throttle) (hclients : SoundRows rules tables.clientThrottle)
    (request : Request) (settings : ProxySettings) (username : Str) :
    rules.reserveLoginAttempt request settings username now tables.view =
      ((tables.reserve rules (requestClientAddress request settings)
          (rules.loginThrottleKey username (requestClientAddress request settings)) now).1,
        (tables.reserve rules (requestClientAddress request settings)
          (rules.loginThrottleKey username (requestClientAddress request settings)) now).2.view) := by
  simp only [LoginRules.reserveLoginAttempt,LoginTables.reserve,LoginTables.view,← view_pruneRows hnames,
    ← view_pruneRows hclients]
  split <;> simp [view_pruneRows hnames,view_pruneRows hclients]

end

end Wudup
