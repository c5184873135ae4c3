import Wudup.Library.Transition
import Wudup.LoginThrottling

/-! The attempts that the login throttle counts while they run. -/
namespace Wudup
open Library

/-- An attempt between its reservation and its release: whether its outcome is settled. -/
structure LoginAttempt where
  clientAddress : Str
  key : ThrottleKey
  resolved : Bool
  deriving DecidableEq, Repr

/-- The tables, the attempts in flight, and how many were admitted for each client. -/
structure LoginState where
  tables : LoginTables := {}
  attempts : List LoginAttempt := []
  admitted : Str → ℕ := fun _ => 0

/-- Calls read the clock before they take the lock, so they may come in another order than their readings. -/
inductive LoginAction where
  | reserve (request : Request) (username : Str) (now : ℕ)
  | fail (clientAddress : Str) (key : ThrottleKey) (now : ℕ)
  | succeed (clientAddress : Str) (key : ThrottleKey)
  | release (attempt : LoginAttempt)

namespace LoginAction

/-- The reading of the clock that a call goes by. -/
def clock : LoginAction → Option ℕ
  | .reserve _ _ now => some now
  | .fail _ _ now => some now
  | _ => none

def failure (client : Str) : LoginAction → Option ℕ
  | .fail clientAddress _ now => if clientAddress = client then some now else none
  | _ => none

/-- No attempt of the client succeeds, and none ends without an outcome. -/
def Fails (client : Str) : LoginAction → Prop
  | .succeed clientAddress _ => clientAddress ≠ client
  | .release attempt => attempt.clientAddress = client → attempt.resolved = true
  | _ => True

instance (client : Str) : DecidablePred (Fails client)
  | .reserve .. => isTrue trivial
  | .fail .. => isTrue trivial
  | .succeed clientAddress _ => inferInstanceAs (Decidable (clientAddress ≠ client))
  | .release attempt => inferInstanceAs (Decidable (attempt.clientAddress = client → attempt.resolved = true))

/-- Every call comes within the cooldown of the last failure of the client among them. -/
def Gapless (client : Str) (cooldown : ℤ) : Option ℕ → List LoginAction → Prop
  | _,[] => True
  | last,action :: rest =>
    (∀ failed ∈ last, ∀ now ∈ action.clock, (now : ℤ) - failed < cooldown) ∧
      Gapless client cooldown ((action.failure client).or last) rest

instance decidableGapless (client : Str) (cooldown : ℤ) :
    (last : Option ℕ) → (actions : List LoginAction) → Decidable (Gapless client cooldown last actions)
  | _,[] => isTrue trivial
  | last,action :: rest =>
    have : Decidable (Gapless client cooldown ((action.failure client).or last) rest) := decidableGapless _ _ _ rest
    inferInstanceAs (Decidable (_ ∧ _))

end LoginAction

namespace LoginState
variable (rules : LoginRules) (settings : ProxySettings)

/-- An attempt that ends by an exception is released unresolved. -/
def step : System LoginState LoginAction
  | s, .reserve request username now =>
    let clientAddress := requestClientAddress request settings
    let key := rules.loginThrottleKey username clientAddress
    match s.tables.reserve rules clientAddress key now with
    | (true,tables) => some
        { tables
          attempts := s.attempts ++ [⟨clientAddress,key,false⟩]
          admitted := Function.update s.admitted clientAddress (s.admitted clientAddress + 1) }
    | (false,tables) => some { s with tables }
  | s, .fail clientAddress key now =>
    if ⟨clientAddress,key,false⟩ ∈ s.attempts then
      some { s with
        tables := rules.recordLoginFailure s.tables clientAddress key now
        attempts := s.attempts.erase ⟨clientAddress,key,false⟩ ++ [⟨clientAddress,key,true⟩] }
    else none
  | s, .succeed clientAddress key =>
    if ⟨clientAddress,key,false⟩ ∈ s.attempts then
      some { s with
        tables := s.tables.clear clientAddress key
        attempts := s.attempts.erase ⟨clientAddress,key,false⟩ ++ [⟨clientAddress,key,true⟩] }
    else none
  | s, .release attempt =>
    if attempt ∈ s.attempts then
      some { s with
        tables := s.tables.release attempt.clientAddress attempt.key
        attempts := s.attempts.erase attempt }
    else none

end LoginState

/-! Attempts -/

section
variable {attempts : List LoginAttempt} {clientAddress : Str} (client : Str) {key : ThrottleKey}

def inFlight (attempts : List LoginAttempt) (client : Str) : ℕ := attempts.countP (·.clientAddress = client)

def unresolvedOf (attempts : List LoginAttempt) (client : Str) : ℕ :=
  attempts.countP fun attempt => attempt.clientAddress = client && !attempt.resolved

theorem unresolvedOf_le : unresolvedOf attempts client ≤ inFlight attempts client := by
  apply List.countP_mono_left
  intro attempt _ ha
  simp only [Bool.and_eq_true] at ha
  exact ha.1

theorem inFlight_reserve :
    inFlight (attempts ++ [⟨clientAddress,key,false⟩]) client =
      inFlight attempts client + if clientAddress = client then 1 else 0 := by
  by_cases hc : clientAddress = client <;> simp [inFlight,hc]

theorem unresolvedOf_reserve :
    unresolvedOf (attempts ++ [⟨clientAddress,key,false⟩]) client =
      unresolvedOf attempts client + if clientAddress = client then 1 else 0 := by
  by_cases hc : clientAddress = client <;> simp [unresolvedOf,hc]

/-- An attempt that is settled stays in flight. -/
theorem inFlight_settle (h : ⟨clientAddress,key,false⟩ ∈ attempts) :
    inFlight (attempts.erase ⟨clientAddress,key,false⟩ ++ [⟨clientAddress,key,true⟩]) client =
      inFlight attempts client := by
  rw [inFlight,inFlight,(List.perm_cons_erase h).countP_eq,List.countP_append,List.countP_cons]
  by_cases hc : clientAddress = client <;> simp [hc]

theorem unresolvedOf_settle (h : ⟨clientAddress,key,false⟩ ∈ attempts) :
    unresolvedOf (attempts.erase ⟨clientAddress,key,false⟩ ++ [⟨clientAddress,key,true⟩]) client +
      (if clientAddress = client then 1 else 0) = unresolvedOf attempts client := by
  have hcount := (List.perm_cons_erase h).countP_eq fun attempt => attempt.clientAddress = client && !attempt.resolved
  rw [List.countP_cons] at hcount
  rw [unresolvedOf,unresolvedOf,hcount,List.countP_append]
  by_cases hc : clientAddress = client <;> simp [hc]

theorem inFlight_release {attempt : LoginAttempt} (h : attempt ∈ attempts) :
    inFlight (attempts.erase attempt) client + (if attempt.clientAddress = client then 1 else 0) =
      inFlight attempts client := by
  have hcount := (List.perm_cons_erase h).countP_eq (·.clientAddress = client)
  rw [List.countP_cons] at hcount
  rw [inFlight,inFlight,hcount]
  by_cases hc : attempt.clientAddress = client <;> simp [hc]

theorem unresolvedOf_release {attempt : LoginAttempt} (h : attempt ∈ attempts) :
    unresolvedOf (attempts.erase attempt) client +
      (if attempt.clientAddress = client && !attempt.resolved then 1 else 0) = unresolvedOf attempts client := by
  have hcount := (List.perm_cons_erase h).countP_eq fun attempt => attempt.clientAddress = client && !attempt.resolved
  rw [List.countP_cons] at hcount
  rw [unresolvedOf,unresolvedOf,hcount]

end

namespace LoginState
variable (s : LoginState)

def failures (client : Str) : ℕ := failuresOf s.tables.clientThrottle client

def unresolved (client : Str) : ℕ := unresolvedOf s.attempts client

/-- The pending attempts of a client are those in flight, and its failures and the attempts whose outcome
is open are within the limit. -/
structure Counted (rules : LoginRules) (s : LoginState) : Prop where
  names : SoundRows rules s.tables.throttle
  clients : SoundRows rules s.tables.clientThrottle
  pending : ∀ client, s.tables.clientPending client = inFlight s.attempts client
  bound : ∀ client, s.failures client + s.unresolved client ≤ rules.maxFailures

variable {s} {t : LoginState} {rules : LoginRules} {settings : ProxySettings}

/-- A table in which no client has more failures keeps the count. -/
theorem Counted.keep (h : s.Counted rules) (hnames : SoundRows rules t.tables.throttle)
    (hclients : t.tables.clientThrottle.Sublist s.tables.clientThrottle)
    (hpending : ∀ client, t.tables.clientPending client = inFlight t.attempts client)
    (hopen : ∀ client, t.unresolved client ≤ s.unresolved client) : t.Counted rules := by
  refine ⟨hnames,h.clients.sublist hclients,hpending,?_⟩
  intro client
  have hfewer : t.failures client ≤ s.failures client := failuresOf_sublist h.clients hclients
  exact Nat.le_trans (Nat.add_le_add hfewer (hopen client)) (h.bound client)

theorem Counted.reserve (h : s.Counted rules) {client : Str} {key : ThrottleKey} {now : ℤ} {tables : LoginTables}
    {admitted : Str → ℕ} (hr : s.tables.reserve rules client key now = (true,tables)) :
    ({ tables, attempts := s.attempts ++ [⟨client,key,false⟩], admitted } : LoginState).Counted rules := by
  obtain ⟨hthrottle,hclientThrottle⟩ := reserve_pruned hr
  obtain ⟨hlimit,-,hpending⟩ := reserve_admitted hr
  have hclients : SoundRows rules (rules.pruneRows s.tables.clientThrottle now) := h.clients.sublist pruneRows_sublist
  constructor
  · rw [hthrottle]
    exact h.names.sublist pruneRows_sublist
  · rw [hclientThrottle]
    exact hclients
  · intro other
    have hcount := h.pending other
    rw [inFlight_reserve,hpending]
    by_cases ho : client = other
    · subst ho
      simpa using hcount
    · simpa [ho,Ne.symm ho] using hcount
  · intro other
    simp only [failures,unresolved,hclientThrottle,unresolvedOf_reserve]
    by_cases ho : client = other
    · subst ho
      have hopen : unresolvedOf s.attempts client ≤ inFlight s.attempts client := unresolvedOf_le client
      have hcount := h.pending client
      rw [if_pos rfl]
      omega
    · have hfewer : failuresOf (rules.pruneRows s.tables.clientThrottle now) other ≤ s.failures other :=
        failuresOf_sublist h.clients pruneRows_sublist
      have hbound := h.bound other
      unfold unresolved at hbound
      rw [if_neg ho]
      omega

/-- A settled attempt makes room for one more failure of its client. -/
theorem Counted.settle (h : s.Counted rules) {client : Str} {key : ThrottleKey} {tables : LoginTables}
    (hm : ⟨client,key,false⟩ ∈ s.attempts) (hnames : SoundRows rules tables.throttle)
    (hclients : SoundRows rules tables.clientThrottle) (hpending : tables.clientPending = s.tables.clientPending)
    (hfailures : ∀ other, failuresOf tables.clientThrottle other ≤
      s.failures other + if client = other then 1 else 0) :
    ({ s with
      tables
      attempts := s.attempts.erase ⟨client,key,false⟩ ++ [⟨client,key,true⟩] } : LoginState).Counted rules := by
  constructor
  · exact hnames
  · exact hclients
  · intro other
    rw [hpending,inFlight_settle other hm]
    exact h.pending other
  · intro other
    have hopen := unresolvedOf_settle other hm
    have hbound := h.bound other
    have hmore := hfailures other
    unfold unresolved at hbound
    simp only [failures,unresolved]
    omega

theorem Counted.release (h : s.Counted rules) {attempt : LoginAttempt} (hm : attempt ∈ s.attempts) :
    ({ s with
      tables := s.tables.release attempt.clientAddress attempt.key
      attempts := s.attempts.erase attempt } : LoginState).Counted rules := by
  apply h.keep
  · exact h.names
  · exact List.Sublist.refl _
  · intro client
    have hflight := inFlight_release client hm
    have hcount := h.pending client
    by_cases hc : attempt.clientAddress = client
    · subst hc
      simp only [LoginTables.release,Function.update_self]
      rw [if_pos rfl] at hflight
      omega
    · rw [if_neg hc] at hflight
      simp only [LoginTables.release,Function.update_of_ne (Ne.symm hc)]
      omega
  · intro client
    have hopen := unresolvedOf_release client hm
    simp only [unresolved]
    omega

theorem failuresOf_recordLoginFailure (h : SoundRows rules s.tables.clientThrottle) {client : Str} {key : ThrottleKey}
    {now : ℤ} (other : Str) :
    failuresOf (rules.recordLoginFailure s.tables client key now).clientThrottle other ≤
      s.failures other + if client = other then 1 else 0 := by
  have hpruned : SoundRows rules (rules.pruneRows s.tables.clientThrottle now) := h.sublist pruneRows_sublist
  have hfewer : failuresOf (rules.pruneRows s.tables.clientThrottle now) other ≤ s.failures other :=
    failuresOf_sublist h pruneRows_sublist
  rw [clientThrottle_recordLoginFailure]
  by_cases ho : other = client
  · subst ho
    obtain ⟨row,hrow,-,hfailures⟩ :=
      find_recordLoginClientFailure rules (rules.pruneRows s.tables.clientThrottle now) other now
    rw [failuresOf,hrow,if_pos rfl]
    simpa [hfailures] using hfewer
  · obtain ⟨rest,hs,-,hfind⟩ :=
      find_recordLoginClientFailure_ne rules (rules.pruneRows s.tables.clientThrottle now) now ho
    have hrest : failuresOf rest other ≤ failuresOf (rules.pruneRows s.tables.clientThrottle now) other :=
      failuresOf_sublist hpruned hs
    rw [failuresOf,hfind]
    unfold failuresOf at hrest hfewer
    omega

theorem counted_step (s : LoginState) (action : LoginAction) (t : LoginState) (h : s.Counted rules)
    (hs : step rules settings s action = some t) : t.Counted rules := by
  cases action with
  | reserve request username now =>
    simp only [step] at hs
    split at hs
    · rename_i tables hr
      cases hs
      exact h.reserve hr
    · rename_i tables hr
      cases hs
      obtain ⟨hthrottle,hclients⟩ := reserve_pruned hr
      apply h.keep
      · simp only [hthrottle]
        exact h.names.sublist pruneRows_sublist
      · simp only [hclients]
        exact pruneRows_sublist
      · simp only [reserve_denied hr]
        exact h.pending
      · exact fun _ => Nat.le_refl _
  | fail client key now =>
    simp only [step] at hs
    split at hs
    · rename_i hm
      cases hs
      apply h.settle hm
      · exact sound_recordLoginFailure h.names
      · rw [clientThrottle_recordLoginFailure]
        exact sound_recordLoginClientFailure (h.clients.sublist pruneRows_sublist)
      · exact clientPending_recordLoginFailure
      · exact failuresOf_recordLoginFailure h.clients
    · cases hs
  | succeed client key =>
    simp only [step] at hs
    split at hs
    · rename_i hm
      cases hs
      apply h.settle hm
      · exact h.names.sublist Keyed.remove_sublist
      · exact h.clients.sublist Keyed.remove_sublist
      · rfl
      · intro other
        exact Nat.le_add_right_of_le (failuresOf_sublist h.clients Keyed.remove_sublist)
    · cases hs
  | release attempt =>
    simp only [step] at hs
    split at hs
    · rename_i hm
      cases hs
      exact h.release hm
    · cases hs

/-! Attempts that fail -/

/-- The table of clients has room for every failure that comes. -/
def NoEviction (rules : LoginRules) (s : LoginState) : LoginAction → Prop
  | .fail client _ now => roomFor (rules.pruneRows s.tables.clientThrottle now) client = true
  | _ => True

instance (rules : LoginRules) (s : LoginState) : DecidablePred (NoEviction rules s)
  | .reserve .. => isTrue trivial
  | .fail client _ now => inferInstanceAs (Decidable (roomFor (rules.pruneRows s.tables.clientThrottle now) client = true))
  | .succeed .. => isTrue trivial
  | .release _ => isTrue trivial

def Locked (s : LoginState) (client : Str) (now : ℤ) : Prop :=
  ∃ row, Keyed.find ThrottleRow.key client s.tables.clientThrottle = some row ∧ now < row.lockedUntil

/-- Since a failure of the client is counted, the attempts that were admitted have failed or are open. -/
def Ledger (client : Str) (base : ℕ) (s : LoginState) : Option ℕ → Prop
  | none => s.admitted client ≤ base + s.unresolved client
  | some failed => ∃ row, Keyed.find ThrottleRow.key client s.tables.clientThrottle = some row ∧
      row.lastFailedAt = failed ∧ s.admitted client ≤ base + row.failures + s.unresolved client

variable {client : Str} {base : ℕ} {last : Option ℕ}

/-- A recent row stays when the table is pruned. -/
theorem find_pruned (h : SoundRows rules s.tables.clientThrottle) {row : ThrottleRow Str} {now : ℤ}
    (hr : Keyed.find ThrottleRow.key client s.tables.clientThrottle = some row)
    (hnow : now - row.lastFailedAt < rules.cooldown) :
    Keyed.find ThrottleRow.key client (rules.pruneRows s.tables.clientThrottle now) = some row := by
  rw [find_pruneRows h,hr]
  simp [Option.filter,hnow]

theorem Ledger.keep (h : s.Ledger client base last)
    (hfind : ∀ failed ∈ last, ∀ row : ThrottleRow Str, row.lastFailedAt = failed →
      Keyed.find ThrottleRow.key client s.tables.clientThrottle = some row →
      Keyed.find ThrottleRow.key client t.tables.clientThrottle = some row)
    (hcount : t.admitted client + s.unresolved client ≤ s.admitted client + t.unresolved client) :
    t.Ledger client base last := by
  cases last with
  | none =>
    simp only [Ledger] at h ⊢
    omega
  | some failed =>
    obtain ⟨row,hrow,hfailed,hle⟩ := h
    refine ⟨row,hfind failed rfl row hfailed hrow,hfailed,?_⟩
    omega

/-- A failure of the client is one more in its row, and one open attempt less. -/
theorem Ledger.fail (h : s.Ledger client base last) (hc : SoundRows rules s.tables.clientThrottle)
    {key : ThrottleKey} {now : ℕ} (hm : ⟨client,key,false⟩ ∈ s.attempts)
    (hgap : ∀ failed ∈ last, (now : ℤ) - failed < rules.cooldown) :
    ({ s with
      tables := rules.recordLoginFailure s.tables client key now
      attempts := s.attempts.erase ⟨client,key,false⟩ ++ [⟨client,key,true⟩] } : LoginState).Ledger client base
        (some now) := by
  have hopen := unresolvedOf_settle client hm
  rw [if_pos rfl] at hopen
  obtain ⟨row,hrow,hnow,hfailures⟩ :=
    find_recordLoginClientFailure rules (rules.pruneRows s.tables.clientThrottle now) client now
  refine ⟨row,by rw [clientThrottle_recordLoginFailure,hrow],hnow,?_⟩
  cases last with
  | none =>
    simp only [Ledger,unresolved] at h ⊢
    omega
  | some failed =>
    obtain ⟨old,hold,hfailed,hle⟩ := h
    have hkept := find_pruned hc hold (hfailed ▸ hgap failed rfl)
    simp only [failuresOf,hkept,Option.map_some,Option.getD_some] at hfailures
    simp only [unresolved] at hle ⊢
    omega

theorem ledger_step (hc : s.Counted rules) (h : s.Ledger client base last) {action : LoginAction}
    (hs : step rules settings s action = some t) (hroom : NoEviction rules s action) (hfails : action.Fails client)
    (hgap : ∀ failed ∈ last, ∀ now ∈ action.clock, (now : ℤ) - failed < rules.cooldown) :
    t.Ledger client base ((action.failure client).or last) := by
  cases action with
  | reserve request username now =>
    have hrecent : ∀ failed ∈ last, ∀ row : ThrottleRow Str, row.lastFailedAt = failed →
        Keyed.find ThrottleRow.key client s.tables.clientThrottle = some row →
        Keyed.find ThrottleRow.key client (rules.pruneRows s.tables.clientThrottle now) = some row :=
      fun failed hl row hfailed hrow => find_pruned hc.clients hrow (hfailed ▸ hgap failed hl now rfl)
    simp only [step] at hs
    split at hs
    · rename_i tables hr
      cases hs
      apply h.keep
      · simpa only [(reserve_pruned hr).2] using hrecent
      · simp only [unresolved,unresolvedOf_reserve]
        by_cases ho : requestClientAddress request settings = client
        · subst ho
          simp only [Function.update_self,if_true]
          omega
        · simp only [Function.update_of_ne (Ne.symm ho),if_neg ho]
          omega
    · rename_i tables hr
      cases hs
      apply h.keep
      · simpa only [(reserve_pruned hr).2] using hrecent
      · exact Nat.le_refl _
  | fail other key now =>
    simp only [step] at hs
    split at hs
    · rename_i hm
      cases hs
      by_cases ho : other = client
      · subst ho
        have hlast : (LoginAction.failure other (.fail other key now)).or last = some now := by
          simp [LoginAction.failure]
        rw [hlast]
        exact h.fail hc.clients hm fun failed hl => hgap failed hl now rfl
      · have hlast : (LoginAction.failure client (.fail other key now)).or last = last := by
          simp [LoginAction.failure,ho]
        rw [hlast]
        apply h.keep
        · intro failed hl row hfailed hrow
          obtain ⟨rest,-,hrest,hfind⟩ :=
            find_recordLoginClientFailure_ne rules (rules.pruneRows s.tables.clientThrottle now) now (Ne.symm ho)
          simp only [clientThrottle_recordLoginFailure]
          rw [hfind,hrest hroom]
          exact find_pruned hc.clients hrow (hfailed ▸ hgap failed hl now rfl)
        · have hopen := unresolvedOf_settle client hm
          rw [if_neg ho] at hopen
          simp only [unresolved]
          omega
    · cases hs
  | succeed other key =>
    simp only [step] at hs
    split at hs
    · rename_i hm
      cases hs
      have ho : other ≠ client := hfails
      apply h.keep
      · intro failed hl row hfailed hrow
        simp only [LoginTables.clear,Keyed.find_remove]
        rw [if_neg (Ne.symm ho)]
        exact hrow
      · have hopen := unresolvedOf_settle client hm
        rw [if_neg ho] at hopen
        simp only [unresolved]
        omega
    · cases hs
  | release attempt =>
    simp only [step] at hs
    split at hs
    · rename_i hm
      cases hs
      apply h.keep
      · exact fun _ _ _ _ hrow => hrow
      · have hopen := unresolvedOf_release client hm
        have hkept : attempt.clientAddress = client → attempt.resolved = true := hfails
        rw [if_neg (by simpa using hkept)] at hopen
        simp only [unresolved]
        omega
    · cases hs

theorem ledger_run {actions : List LoginAction} (hc : s.Counted rules) (h : s.Ledger client base last)
    (hr : System.run (step rules settings) s actions = some t)
    (hroom : System.Along (step rules settings) (NoEviction rules) s actions)
    (hfails : ∀ action ∈ actions, action.Fails client)
    (hgap : LoginAction.Gapless client rules.cooldown last actions) : ∃ last', t.Ledger client base last' := by
  induction actions generalizing s last with
  | nil =>
    obtain rfl : s = t := by simpa [System.run] using hr
    exact ⟨last,h⟩
  | cons action rest ih =>
    obtain ⟨u,hu,hrest⟩ := Option.bind_eq_some_iff.mp hr
    have hfirst := hfails action List.mem_cons_self
    exact ih (counted_step s action u hc hu) (ledger_step hc h hu hroom.1 hfirst hgap.1) hrest (hroom.2 u hu)
      (fun other ho => hfails other (List.mem_cons_of_mem _ ho)) hgap.2

/-- What the client's ledger counts is within the limit. -/
theorem Counted.ledger_le (hc : s.Counted rules) (h : s.Ledger client base last) :
    s.admitted client ≤ base + rules.maxFailures := by
  have hbound := hc.bound client
  cases last with
  | none =>
    simp only [Ledger] at h
    omega
  | some failed =>
    obtain ⟨row,hrow,-,hle⟩ := h
    have hfailures : s.failures client = row.failures := by
      simp [failures,failuresOf,hrow]
    omega

theorem counted_idle : ({} : LoginState).Counted rules := by
  refine ⟨⟨List.nodup_nil,by simp⟩,⟨List.nodup_nil,by simp⟩,fun _ => rfl,?_⟩
  exact fun _ => Nat.zero_le _

/-- A locked client is turned away. -/
theorem Counted.locked (h : s.Counted rules) {request : Request} {username : Str} {now : ℕ} {clock : ℤ}
    (hl : s.Locked (requestClientAddress request settings) clock) (hclock : now ≤ clock)
    (hs : step rules settings s (.reserve request username now) = some t) :
    t.admitted = s.admitted ∧ t.attempts = s.attempts := by
  simp only [step] at hs
  split at hs
  · rename_i tables hr
    obtain ⟨-,hunlocked,-⟩ := reserve_admitted hr
    obtain ⟨row,hrow,hlocked⟩ := hl
    have hnow : (now : ℤ) < row.lockedUntil := by omega
    have htimed := h.clients.timed row (Keyed.mem_of_find hrow).1
    have hle := hunlocked row (find_pruned h.clients hrow (htimed.recent (Int.natCast_nonneg now) hnow))
    omega
  · cases hs
    exact ⟨rfl,rfl⟩

/-- In every run the failures of a client and its open attempts are five at most, a locked client is turned
away, and while its attempts fail less than sixty seconds after one another five of them are admitted. -/
theorem login_attempts_limited {casefold : Str → Str} {ticks : ℕ} {actions : List LoginAction}
    (hr : System.run (step (loginLimits casefold ticks) settings) {} actions = some s) :
    (∀ client, s.failures client + s.unresolved client ≤ 5) ∧
      (∀ request username (now : ℕ) (clock : ℤ) t, s.Locked (requestClientAddress request settings) clock →
        now ≤ clock → step (loginLimits casefold ticks) settings s (.reserve request username now) = some t →
          t.admitted = s.admitted ∧ t.attempts = s.attempts) ∧
      ∀ client later t, System.run (step (loginLimits casefold ticks) settings) s later = some t →
        System.Along (step (loginLimits casefold ticks) settings) (NoEviction (loginLimits casefold ticks)) s later →
        (∀ action ∈ later, action.Fails client) → LoginAction.Gapless client (60 * ticks) none later →
          t.admitted client ≤ s.admitted client + 5 := by
  have hc := System.run_keeps counted_step counted_idle hr
  refine ⟨hc.bound,?_,?_⟩
  · exact fun _ _ _ _ _ hl hclock hs => hc.locked hl hclock hs
  · intro client later t hlater hroom hfails hgap
    have hstart : s.Ledger client (s.admitted client) none := Nat.le_add_right _ _
    obtain ⟨last,hledger⟩ := ledger_run hc hstart hlater hroom hfails hgap
    exact (System.run_keeps counted_step hc hlater).ledger_le hledger

def guessingRequest : Request := ⟨[],some "10.0.0.9".toList⟩

def guessKey : ThrottleKey := ("admin".toList,"10.0.0.9".toList)

/-- Five wrong passwords every ten seconds, and a sixth that is not looked at. -/
def guesses : List LoginAction :=
  ([0,10,20,30,40].flatMap fun now =>
    [.reserve guessingRequest "admin".toList now,.fail "10.0.0.9".toList guessKey (now + 1),
      .release ⟨"10.0.0.9".toList,guessKey,true⟩]) ++ [.reserve guessingRequest "admin".toList 50]

theorem login_attempts_limited_guesses :
    ∃ t, System.run (step (loginLimits id 1) ⟨[]⟩) {} guesses = some t ∧ t.failures "10.0.0.9".toList = 5 ∧
      t.admitted "10.0.0.9".toList ≤ 5 := by
  have ht : ∃ t, System.run (step (loginLimits id 1) ⟨[]⟩) {} guesses = some t ∧
      t.failures "10.0.0.9".toList = 5 := by
    have hfailures : (System.run (step (loginLimits id 1) ⟨[]⟩) {} guesses).map (·.failures "10.0.0.9".toList) =
        some 5 := by decide +kernel
    simpa using Option.map_eq_some_iff.mp hfailures
  obtain ⟨t,ht,hfailures⟩ := ht
  have hroom : System.Along (step (loginLimits id 1) ⟨[]⟩) (NoEviction (loginLimits id 1)) {} guesses := by
    decide +kernel
  have hfails : ∀ action ∈ guesses, action.Fails "10.0.0.9".toList := by decide +kernel
  have hgap : LoginAction.Gapless "10.0.0.9".toList (60 * (1 : ℕ)) none guesses := by decide +kernel
  have hidle : System.run (step (loginLimits id 1) ⟨[]⟩) {} [] = some {} := rfl
  exact ⟨t,ht,hfailures,(login_attempts_limited hidle).2.2 _ _ _ ht hroom hfails hgap⟩

end LoginState
end Wudup
