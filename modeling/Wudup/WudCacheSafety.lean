import Mathlib.Data.List.Chain
import Mathlib.Algebra.Order.Field.Rat
import Wudup.WudCache

/-! The cached observations follow the fetched lists as long as no failed watch overtakes a refresh. -/
namespace Wudup
open Library

namespace WudStage

/-- The check of a refresh that holds the lock. -/
def check : WudStage → Option WudCheck
  | .health _ check _ | .containers check _ | .storing check _ _ _ => some check
  | _ => none

end WudStage

namespace WudCacheState

/-- Every step, by where the request that takes it was. -/
inductive Moved (s : WudCacheState) : WudAction → WudCacheState → Prop
  | tick (seconds) : Moved s (.tick seconds) { s with now := s.now + seconds }
  | begin (settings) (wanted) (checkedAt) :
    Moved s (.begin settings wanted checkedAt)
      { s with requests := s.requests ++ [⟨settings,s.firstStage settings wanted checkedAt⟩] }
  | lock {i checkedAt request includeContainers afterwards} (hi : s.requests[i]? = some request)
    (hp : request.stage = .waiting includeContainers afterwards) (hh : s.holder = none) :
    Moved s (.lock i checkedAt)
      { s.move i request (lockedStage request includeContainers
          ⟨checkedAt,s.now,s.pendingObservations request.settings.cacheKey⟩ afterwards) with holder := some i }
  | health {i reply request includeContainers check afterwards} (hi : s.requests[i]? = some request)
    (hp : request.stage = .health includeContainers check afterwards) :
    Moved s (.health i reply) (s.move i request (healthStage request includeContainers check afterwards reply))
  | containers {i reply request check afterwards stage} (hi : s.requests[i]? = some request)
    (hp : request.stage = .containers check afterwards)
    (hs : s.containersStage request check afterwards reply = some stage) :
    Moved s (.containers i reply) (s.move i request stage)
  | containersStopped {i reply request} (hi : s.requests[i]? = some request) :
    Moved s (.containers i reply) ((s.move i request .done).release i)
  | store {i request check snapshot fetch afterwards} (hi : s.requests[i]? = some request)
    (hp : request.stage = .storing check snapshot fetch afterwards) :
    Moved s (.store i) (s.storeRefresh i request check snapshot fetch afterwards)
  | post {i reply checkedAt request item items} (hi : s.requests[i]? = some request)
    (hp : request.stage = .posting (item :: items)) :
    Moved s (.post i reply checkedAt) (s.move i request (s.postStage request item items checkedAt reply))
  | endBatch {i request items} (hi : s.requests[i]? = some request) (hp : request.stage = .posting items) :
    Moved s (.endBatch i) (s.move i request (.waiting true none))
  | storeFailure {i request snapshot} (hi : s.requests[i]? = some request) (hp : request.stage = .failing snapshot) :
    Moved s (.storeFailure i) ((s.storeSnapshot request.settings.cacheKey snapshot none).move i request .done)
  | stop {i request} (hi : s.requests[i]? = some request) :
    Moved s (.stop i) ((s.move i request .done).release i)

theorem step_moved {s t : WudCacheState} {a : WudAction} (h : step s a = some t) : Moved s a t := by
  cases a with
  | tick seconds =>
    cases h
    exact .tick seconds
  | begin settings wanted checkedAt =>
    cases h
    exact .begin settings wanted checkedAt
  | lock i checkedAt =>
    obtain ⟨request,hi,h⟩ := Option.bind_eq_some_iff.mp h
    cases hp : request.stage <;> rw [hp] at h <;> try cases h
    dsimp only at h
    split at h
    · rename_i hh
      cases h
      exact .lock hi hp hh
    · cases h
  | health i reply =>
    obtain ⟨request,hi,h⟩ := Option.bind_eq_some_iff.mp h
    cases hp : request.stage <;> rw [hp] at h <;> cases h
    exact .health hi hp
  | containers i reply =>
    obtain ⟨request,hi,h⟩ := Option.bind_eq_some_iff.mp h
    cases hp : request.stage <;> rw [hp] at h <;> try cases h
    dsimp only at h
    split at h
    · rename_i stage hs
      cases h
      exact .containers hi hp hs
    · cases h
      exact .containersStopped hi
  | store i =>
    obtain ⟨request,hi,h⟩ := Option.bind_eq_some_iff.mp h
    cases hp : request.stage <;> rw [hp] at h <;> cases h
    exact .store hi hp
  | post i reply checkedAt =>
    obtain ⟨request,hi,h⟩ := Option.bind_eq_some_iff.mp h
    cases hp : request.stage with
    | posting items =>
      rw [hp] at h
      cases items with
      | nil => cases h
      | cons item items =>
        cases h
        exact .post hi hp
    | _ =>
      rw [hp] at h
      cases h
  | endBatch i =>
    obtain ⟨request,hi,h⟩ := Option.bind_eq_some_iff.mp h
    cases hp : request.stage <;> rw [hp] at h <;> cases h
    exact .endBatch hi hp
  | storeFailure i =>
    obtain ⟨request,hi,h⟩ := Option.bind_eq_some_iff.mp h
    cases hp : request.stage <;> rw [hp] at h <;> cases h
    exact .storeFailure hi hp
  | stop i =>
    obtain ⟨request,hi,h⟩ := Option.bind_eq_some_iff.mp h
    cases h
    exact .stop hi

/-! What a refresh counts on -/

/-- What was stored is what the list is reconciled to, from what was cached when the refresh began. -/
def Follows (settings : WudApiSettings) (check : WudCheck) (payload : List Json) (pending : PendingObservations) :
    Prop :=
  ∃ r, reconcileContainerObservations settings.rules payload check.cached check.checkedAt = some r ∧
    pending = r.pendingObservations

/-- A refresh holds the lock, and nothing of its source is stored that it does not know of. -/
structure Refreshing (s : WudCacheState) (i : ℕ) (key : WudApiCacheKey) (check : WudCheck) : Prop where
  holder : s.holder = some i
  le_now : check.checkedMonotonic ≤ s.now
  cached : s.pendingObservations key = check.cached
  newest : ∀ snapshot, s.snapshotOf key = some snapshot → snapshot.checkedMonotonic ≤ check.checkedMonotonic

/-- A request is where the state says. -/
structure Sound (s : WudCacheState) (i : ℕ) (request : WudRequest) : Prop where
  refreshing : ∀ check, request.stage.check = some check → Refreshing s i request.settings.cacheKey check
  storing : ∀ check snapshot fetch afterwards, request.stage = .storing check snapshot fetch afterwards →
    snapshot.checkedMonotonic = check.checkedMonotonic ∧
      ∀ found, fetch = some found → Follows request.settings check found.payload found.pendingObservations
  failing : ∀ snapshot, request.stage = .failing snapshot → snapshot.checkedMonotonic ≤ s.now

/-- The refreshes of a source follow one another. -/
def Continues (first next : WudRefreshed) : Prop := next.check.cached = first.pendingObservations

def ofKey (key : WudApiCacheKey) (refreshed : List WudRefreshed) : List WudRefreshed :=
  refreshed.filter fun r => r.settings.cacheKey = key

structure Serial (s : WudCacheState) : Prop where
  snapshots : ∀ key snapshot, s.snapshotOf key = some snapshot → snapshot.checkedMonotonic ≤ s.now
  requests : ∀ i request, s.requests[i]? = some request → Sound s i request
  follows : ∀ r ∈ s.refreshed, Follows r.settings r.check r.payload r.pendingObservations
  last : ∀ key, ∀ r ∈ (ofKey key s.refreshed).getLast?, s.pendingObservations key = r.pendingObservations
  continues : ∀ key, (ofKey key s.refreshed).IsChain Continues

variable {s t : WudCacheState} {i j : ℕ} {request other : WudRequest} {stage : WudStage}

/-- A request is sound in a state that differs for it only by the clock and by what is older than its check. -/
theorem Sound.frame (h : Sound s i request) (hholder : t.holder = s.holder) (hnow : s.now ≤ t.now)
    (hpending : t.pendingObservations request.settings.cacheKey = s.pendingObservations request.settings.cacheKey)
    (hsnapshot : ∀ check, request.stage.check = some check → ∀ snapshot,
      t.snapshotOf request.settings.cacheKey = some snapshot →
        s.snapshotOf request.settings.cacheKey = some snapshot ∨
          snapshot.checkedMonotonic ≤ check.checkedMonotonic) : Sound t i request := by
  refine ⟨?_,h.storing,fun snapshot hs => le_trans (h.failing snapshot hs) hnow⟩
  intro check hc
  have hr := h.refreshing check hc
  refine ⟨hholder.trans hr.holder,le_trans hr.le_now hnow,hpending.trans hr.cached,?_⟩
  intro snapshot hs
  rcases hsnapshot check hc snapshot hs with hs | hs
  · exact hr.newest snapshot hs
  · exact hs

/-- A request that does not refresh needs the clock only. -/
theorem Sound.idle (h : Sound s i request) (hc : request.stage.check = none) (hnow : s.now ≤ t.now) :
    Sound t i request := by
  refine ⟨?_,h.storing,fun snapshot hs => le_trans (h.failing snapshot hs) hnow⟩
  intro check hcheck
  rw [hc] at hcheck
  cases hcheck

/-- A stage that neither refreshes nor fails. -/
theorem Sound.of_quiet (hc : request.stage.check = none) (hf : ∀ snapshot, request.stage ≠ .failing snapshot) :
    Sound s i request := by
  constructor
  · intro check hcheck
    rw [hc] at hcheck
    cases hcheck
  · intro check snapshot fetch afterwards hstage
    rw [hstage] at hc
    cases hc
  · exact fun snapshot hs => absurd hs (hf snapshot)

/-- Only the holder of the lock refreshes. -/
theorem Sound.check_none (h : Sound s i request) (hi : s.holder ≠ some i) : request.stage.check = none := by
  cases hc : request.stage.check with
  | none => rfl
  | some check => exact absurd (h.refreshing check hc).holder hi

theorem getElem?_move (h : (s.move i request stage).requests[j]? = some other) :
    (j = i ∧ other = { request with stage }) ∨ (j ≠ i ∧ s.requests[j]? = some other) := by
  rw [move,List.getElem?_set] at h
  split at h
  · rename_i hij
    split at h
    · exact .inl ⟨hij.symm,(Option.some.inj h).symm⟩
    · cases h
  · rename_i hij
    exact .inr ⟨Ne.symm hij,h⟩

/-- One request moves, and the caches stay. -/
theorem Serial.move (h : Serial s) (hnew : Sound t i { request with stage })
    (hrequests : t.requests = (s.move i request stage).requests) (hnow : s.now ≤ t.now)
    (hsnapshots : t.snapshots = s.snapshots) (hpending : t.pending = s.pending) (hrefreshed : t.refreshed = s.refreshed)
    (hothers : ∀ j other, j ≠ i → s.requests[j]? = some other → Sound t j other) : Serial t := by
  have hs : ∀ key, t.snapshotOf key = s.snapshotOf key := fun key => by rw [snapshotOf,hsnapshots,snapshotOf]
  have hp : ∀ key, t.pendingObservations key = s.pendingObservations key :=
    fun key => by rw [pendingObservations,hpending,pendingObservations]
  constructor
  · intro key snapshot hkey
    exact le_trans (h.snapshots key snapshot (hs key ▸ hkey)) hnow
  · intro j other hj
    rw [hrequests] at hj
    rcases getElem?_move hj with ⟨rfl,rfl⟩ | ⟨hne,hj⟩
    · exact hnew
    · exact hothers j other hne hj
  · rw [hrefreshed]
    exact h.follows
  · intro key
    rw [hrefreshed,hp]
    exact h.last key
  · rw [hrefreshed]
    exact h.continues

/-- The lock stays with its holder. -/
theorem Serial.move_same (h : Serial s) (hnew : Sound (s.move i request stage) i { request with stage }) :
    Serial (s.move i request stage) := by
  apply h.move hnew rfl (le_refl _) rfl rfl rfl
  intro j other _ hj
  exact (h.requests j other hj).frame rfl (le_refl _) rfl fun _ _ _ hs => .inl hs

/-- A request that ends gives the lock back. -/
theorem Serial.release (h : Serial s) : Serial ((s.move i request .done).release i) := by
  have hquiet : ∀ u : WudCacheState, Sound u i { request with stage := .done } :=
    fun u => Sound.of_quiet rfl (by simp)
  unfold WudCacheState.release
  split
  · rename_i hh
    apply h.move (t := { s.move i request .done with holder := none }) (hquiet _) rfl (le_refl _) rfl rfl rfl
    intro j other hne hj
    have hj := h.requests j other hj
    have hidle : s.holder ≠ some j := by
      intro hij
      exact hne (Option.some.inj (hij.symm.trans hh))
    exact hj.idle (hj.check_none hidle) (le_refl s.now)
  · exact h.move_same (hquiet _)

/-! Stores -/

section
variable {key key' : WudApiCacheKey} {snapshot found : WudApiSnapshot} {pending : Option PendingObservations}

theorem storeSnapshot_now : (s.storeSnapshot key snapshot pending).now = s.now := by
  unfold storeSnapshot
  split <;> rfl

theorem storeSnapshot_requests : (s.storeSnapshot key snapshot pending).requests = s.requests := by
  unfold storeSnapshot
  split <;> rfl

theorem storeSnapshot_holder : (s.storeSnapshot key snapshot pending).holder = s.holder := by
  unfold storeSnapshot
  split <;> rfl

theorem storeSnapshot_refreshed : (s.storeSnapshot key snapshot pending).refreshed = s.refreshed := by
  unfold storeSnapshot
  split <;> rfl

/-- What is cached after a store is the snapshot or was there before. -/
theorem snapshotOf_store (h : (s.storeSnapshot key snapshot pending).snapshotOf key' = some found) :
    (key' = key ∧ found = snapshot) ∨ s.snapshotOf key' = some found := by
  unfold storeSnapshot at h
  split at h
  · exact .inr h
  · rw [snapshotOf,Keyed.find_set] at h
    split at h
    · rename_i hkey
      exact .inl ⟨hkey.symm,(Option.some.inj h).symm⟩
    · exact .inr h

theorem pendingObservations_store_none :
    (s.storeSnapshot key snapshot none).pendingObservations key' = s.pendingObservations key' := by
  unfold storeSnapshot
  split <;> rfl

theorem pendingObservations_store_ne (hkey : key' ≠ key) :
    (s.storeSnapshot key snapshot pending).pendingObservations key' = s.pendingObservations key' := by
  unfold storeSnapshot
  split
  · rfl
  · cases pending with
    | none => rfl
    | some observations =>
      rw [pendingObservations,Keyed.find_set,if_neg (Ne.symm hkey)]
      rfl

/-- A snapshot that is as new as what is cached is stored with its observations. -/
theorem pendingObservations_store {observations : PendingObservations}
    (hnew : ∀ current, s.snapshotOf key = some current → current.checkedMonotonic ≤ snapshot.checkedMonotonic) :
    (s.storeSnapshot key snapshot (some observations)).pendingObservations key = observations := by
  have hkept : ¬((s.snapshotOf key).any fun current => current.checkedMonotonic > snapshot.checkedMonotonic) = true := by
    intro hany
    obtain ⟨current,hcurrent,hlater⟩ := (Option.any_eq_true _ _).mp hany
    exact absurd (hnew current hcurrent) (not_le_of_gt (of_decide_eq_true hlater))
  rw [storeSnapshot,if_neg hkept,pendingObservations,Keyed.find_set,if_pos rfl]
  rfl

end

/-! Steps -/

/-- The failure of a watch is later than the check of a refresh of its source that is under way. -/
def overtakes (s : WudCacheState) (i : ℕ) : Bool :=
  match s.requests[i]? with
  | some ⟨settings,.failing snapshot⟩ =>
    s.requests.any fun other => other.settings.cacheKey = settings.cacheKey &&
      other.stage.check.any fun check => check.checkedMonotonic < snapshot.checkedMonotonic
  | _ => false

/-- A failed watch is not stored over a refresh of its source that began before it failed. -/
def InTurn (s : WudCacheState) : WudAction → Prop
  | .storeFailure i => s.overtakes i = false
  | _ => True

instance decidableInTurn (s : WudCacheState) : (a : WudAction) → Decidable (InTurn s a)
  | .storeFailure i => inferInstanceAs (Decidable (s.overtakes i = false))
  | .tick _ | .begin _ _ _ | .lock _ _ | .health _ _ | .containers _ _ | .store _ | .post _ _ _ | .endBatch _
  | .stop _ => inferInstanceAs (Decidable True)

theorem le_check_of_inTurn {snapshot : WudApiSnapshot} {check : WudCheck} (hturn : s.overtakes i = false)
    (hi : s.requests[i]? = some request) (hp : request.stage = .failing snapshot) (hj : s.requests[j]? = some other)
    (hkey : other.settings.cacheKey = request.settings.cacheKey) (hc : other.stage.check = some check) :
    snapshot.checkedMonotonic ≤ check.checkedMonotonic := by
  obtain ⟨settings,stage⟩ := request
  obtain rfl : stage = .failing snapshot := hp
  rw [overtakes,hi] at hturn
  by_contra hlater
  have hnone := List.any_eq_false.mp hturn other (List.mem_of_getElem? hj)
  apply hnone
  simp only [hkey,hc,decide_true,Bool.true_and,Option.any_some,decide_eq_true_eq]
  exact not_le.mp hlater

theorem Serial.tick (h : Serial s) (seconds : ℕ) : Serial { s with now := s.now + seconds } := by
  have hnow : s.now ≤ s.now + seconds := le_add_of_nonneg_right (Nat.cast_nonneg seconds)
  refine ⟨fun key snapshot hs => le_trans (h.snapshots key snapshot hs) hnow,?_,h.follows,h.last,h.continues⟩
  intro i request hi
  exact (h.requests i request hi).frame rfl hnow rfl fun _ _ _ hs => .inl hs

theorem sound_firstStage {settings : WudApiSettings} {wanted : WudWanted} {checkedAt : Str} :
    Sound s i ⟨settings,s.firstStage settings wanted checkedAt⟩ := by
  unfold firstStage
  cases wanted with
  | snapshot includeContainers => exact .of_quiet rfl (by simp)
  | watch items =>
    cases settings.baseUrlError with
    | some error =>
      refine ⟨by simp [WudStage.check],by simp,?_⟩
      intro snapshot hs
      cases hs
      exact le_refl _
    | none =>
      dsimp only
      split
      · exact .of_quiet rfl (by simp)
      · exact .of_quiet rfl (by simp)

theorem Serial.begin (h : Serial s) {request : WudRequest} (hnew : ∀ i, Sound s i request) :
    Serial { s with requests := s.requests ++ [request] } := by
  refine ⟨h.snapshots,?_,h.follows,h.last,h.continues⟩
  intro i other hi
  have hsound : Sound s i other := by
    rcases Nat.lt_or_ge i s.requests.length with hlt | hge
    · rw [List.getElem?_append_left hlt] at hi
      exact h.requests i other hi
    · rw [List.getElem?_append_right hge] at hi
      obtain rfl : request = other := by
        obtain ⟨hlt,heq⟩ := List.getElem?_eq_some_iff.mp hi
        simpa using heq
      exact hnew i
  exact hsound.frame rfl (le_refl _) rfl fun _ _ _ hs => .inl hs

/-- A stage of a refresh: what it is about to store is of its check. -/
structure GoesOn (settings : WudApiSettings) (check : WudCheck) (stage : WudStage) : Prop where
  begun : stage.check = some check
  storing : ∀ snapshot fetch afterwards, stage = .storing check snapshot fetch afterwards →
    snapshot.checkedMonotonic = check.checkedMonotonic ∧
      ∀ found, fetch = some found → Follows settings check found.payload found.pendingObservations

theorem GoesOn.of_storing {settings : WudApiSettings} {check : WudCheck} {snapshot : WudApiSnapshot}
    {fetch : Option WudFetch} {afterwards : Option (List WatchItem)}
    (htime : snapshot.checkedMonotonic = check.checkedMonotonic)
    (hf : ∀ found, fetch = some found → Follows settings check found.payload found.pendingObservations) :
    GoesOn settings check (.storing check snapshot fetch afterwards) := by
  refine ⟨rfl,?_⟩
  intro snapshot' fetch' afterwards' hstage
  cases hstage
  exact ⟨htime,hf⟩

theorem GoesOn.sound {check : WudCheck} (h : GoesOn request.settings check stage)
    (hr : Refreshing s i request.settings.cacheKey check) : Sound s i { request with stage } := by
  constructor
  · intro check' hc
    obtain rfl : check = check' := Option.some.inj (h.begun.symm.trans hc)
    exact hr
  · intro check' snapshot fetch afterwards hstage
    have hstage : stage = .storing check' snapshot fetch afterwards := hstage
    obtain rfl : check' = check := by
      have hc := h.begun
      rw [hstage] at hc
      exact Option.some.inj hc
    exact h.storing snapshot fetch afterwards hstage
  · intro snapshot hstage
    have hstage : stage = .failing snapshot := hstage
    have hc := h.begun
    rw [hstage] at hc
    cases hc

theorem Refreshing.of_eq {key : WudApiCacheKey} {check : WudCheck} (h : Refreshing s i key check)
    (hholder : t.holder = s.holder) (hnow : t.now = s.now) (hsnapshots : t.snapshots = s.snapshots)
    (hpending : t.pending = s.pending) : Refreshing t i key check := by
  refine ⟨hholder.trans h.holder,hnow ▸ h.le_now,?_,?_⟩
  · rw [pendingObservations,hpending]
    exact h.cached
  · rw [snapshotOf,hsnapshots]
    exact h.newest

theorem healthSnapshot_time (settings : WudApiSettings) (includeContainers : Bool) (check : WudCheck)
    (reply : WudReply Unit) :
    (healthSnapshot settings includeContainers check reply).checkedMonotonic = check.checkedMonotonic := by
  cases reply with
  | httpError code =>
    simp only [healthSnapshot]
    split <;> rfl
  | _ => rfl

theorem containersErrorSnapshot_time (settings : WudApiSettings) (check : WudCheck) (reply : WudReply Json) :
    (containersErrorSnapshot settings check reply).checkedMonotonic = check.checkedMonotonic := by
  cases reply with
  | httpError code =>
    simp only [containersErrorSnapshot]
    split <;> rfl
  | _ => rfl

theorem lockedStage_goesOn (request : WudRequest) (includeContainers : Bool) (check : WudCheck)
    (afterwards : Option (List WatchItem)) :
    GoesOn request.settings check (lockedStage request includeContainers check afterwards) := by
  unfold lockedStage
  cases request.settings.baseUrlError with
  | none => exact ⟨rfl,by simp⟩
  | some error => exact .of_storing rfl (by simp)

theorem healthStage_goesOn (request : WudRequest) (includeContainers : Bool) (check : WudCheck)
    (afterwards : Option (List WatchItem)) (reply : WudReply Unit) :
    GoesOn request.settings check (healthStage request includeContainers check afterwards reply) := by
  cases reply with
  | ok value =>
    unfold healthStage
    dsimp only
    split
    · exact ⟨rfl,by simp⟩
    · exact .of_storing rfl (by simp)
  | httpError code => exact .of_storing (healthSnapshot_time _ _ _ _) (by simp)
  | failed error => exact .of_storing rfl (by simp)

/-- A fetched list is about to be stored as what it is reconciled to. -/
theorem containersStage_goesOn {check : WudCheck} {afterwards : Option (List WatchItem)} {reply : WudReply Json}
    (hcached : s.pendingObservations request.settings.cacheKey = check.cached)
    (h : s.containersStage request check afterwards reply = some stage) : GoesOn request.settings check stage := by
  unfold containersStage at h
  split at h
  · rename_i payload
    obtain ⟨r,hr,rfl⟩ := Option.map_eq_some_iff.mp h
    apply GoesOn.of_storing rfl
    intro found hfound
    cases hfound
    rw [hcached] at hr
    exact ⟨r,hr,rfl⟩
  · cases h
    exact .of_storing (containersErrorSnapshot_time _ _ _) (by simp)

theorem postStage_spec (request : WudRequest) (item : WatchItem) (items : List WatchItem) (checkedAt : Str)
    (reply : WudReply Unit) :
    s.postStage request item items checkedAt reply = .posting items ∨
      ∃ snapshot, s.postStage request item items checkedAt reply = .failing snapshot ∧
        snapshot.checkedMonotonic = s.now := by
  cases reply with
  | ok value => exact .inl rfl
  | httpError code =>
    unfold postStage
    dsimp only
    split
    · exact .inl rfl
    · refine .inr ⟨_,rfl,?_⟩
      unfold watchHttpErrorSnapshot
      split <;> rfl
  | failed error => exact .inr ⟨_,rfl,rfl⟩

section
variable {check : WudCheck} {snapshot : WudApiSnapshot} {fetch : Option WudFetch} {afterwards : Option (List WatchItem)}
  {key : WudApiCacheKey}

theorem refreshed_storeRefresh :
    (s.storeRefresh i request check snapshot fetch afterwards).refreshed =
      s.refreshed ++ fetch.toList.map fun found => ⟨request.settings,check,found.payload,
        (s.storeSnapshot request.settings.cacheKey snapshot (fetch.map (·.pendingObservations))).pendingObservations
          request.settings.cacheKey⟩ := by
  rw [storeRefresh]
  dsimp only
  rw [storeSnapshot_refreshed]

/-- A store leaves what was refreshed of the other sources, and without a fetch of its own source too. -/
theorem ofKey_storeRefresh (h : fetch = none ∨ key ≠ request.settings.cacheKey) :
    ofKey key (s.storeRefresh i request check snapshot fetch afterwards).refreshed = ofKey key s.refreshed := by
  rw [refreshed_storeRefresh,ofKey,List.filter_append,← ofKey,List.append_right_eq_self,List.filter_eq_nil_iff]
  intro entry hentry
  obtain ⟨found,hfound,rfl⟩ := List.mem_map.mp hentry
  rcases h with rfl | hne
  · cases hfound
  · simpa using fun heq => hne heq.symm

/-- A fetch that is stored is the last of its source. -/
theorem ofKey_storeRefresh_self {found : WudFetch} :
    ofKey request.settings.cacheKey (s.storeRefresh i request check snapshot (some found) afterwards).refreshed =
      ofKey request.settings.cacheKey s.refreshed ++ [⟨request.settings,check,found.payload,
        (s.storeSnapshot request.settings.cacheKey snapshot (some found.pendingObservations)).pendingObservations
          request.settings.cacheKey⟩] := by
  rw [refreshed_storeRefresh,ofKey,List.filter_append]
  congr 1
  exact List.filter_eq_self.mpr (by simp)

theorem mem_storeRefresh {r : WudRefreshed}
    (h : r ∈ (s.storeRefresh i request check snapshot fetch afterwards).refreshed) :
    r ∈ s.refreshed ∨ ∃ found, fetch = some found ∧ r = ⟨request.settings,check,found.payload,
      (s.storeSnapshot request.settings.cacheKey snapshot (fetch.map (·.pendingObservations))).pendingObservations
        request.settings.cacheKey⟩ := by
  rw [refreshed_storeRefresh] at h
  refine (List.mem_append.mp h).imp_right fun h => ?_
  obtain ⟨found,hfound,rfl⟩ := List.mem_map.mp h
  exact ⟨found,Option.mem_toList.mp hfound,rfl⟩

theorem afterRefresh_cases : (∃ items, afterRefresh snapshot afterwards = .posting items) ∨
    afterRefresh snapshot afterwards = .done := by
  cases afterwards with
  | none => exact .inr rfl
  | some items =>
    rw [afterRefresh]
    split
    · exact .inl ⟨items,rfl⟩
    · exact .inr rfl

/-- A store ends a refresh: what was fetched follows what its source had, and the next refresh starts from it. -/
theorem Serial.store (h : Serial s) (hi : s.requests[i]? = some request)
    (hp : request.stage = .storing check snapshot fetch afterwards) :
    Serial (s.storeRefresh i request check snapshot fetch afterwards) := by
  have hsound := h.requests i request hi
  have hcheck : request.stage.check = some check := by rw [hp]; rfl
  have hr := hsound.refreshing check hcheck
  obtain ⟨htime,hfollows⟩ := hsound.storing check snapshot fetch afterwards hp
  let u := s.storeSnapshot request.settings.cacheKey snapshot (fetch.map (·.pendingObservations))
  have hstored : ∀ found, fetch = some found →
      u.pendingObservations request.settings.cacheKey = found.pendingObservations := by
    rintro found rfl
    apply pendingObservations_store
    intro current hcurrent
    rw [htime]
    exact hr.newest current hcurrent
  have hpending : ∀ key, (fetch = none ∨ key ≠ request.settings.cacheKey) →
      u.pendingObservations key = s.pendingObservations key := by
    rintro key (rfl | hne)
    · exact pendingObservations_store_none
    · exact pendingObservations_store_ne hne
  have hkept (key : WudApiCacheKey) : (fetch = none ∨ key ≠ request.settings.cacheKey) ∨
      ∃ found, fetch = some found ∧ key = request.settings.cacheKey := by
    cases fetch with
    | none => exact .inl (.inl rfl)
    | some found =>
      by_cases hkey : key = request.settings.cacheKey
      · exact .inr ⟨found,rfl,hkey⟩
      · exact .inl (.inr hkey)
  have hnow : u.now = s.now := storeSnapshot_now
  constructor
  · intro key current hcurrent
    rcases snapshotOf_store hcurrent with ⟨-,rfl⟩ | hcurrent
    · rw [htime]
      exact hnow ▸ hr.le_now
    · exact hnow ▸ h.snapshots key current hcurrent
  · intro j other hj
    have hj : (u.move i request (afterRefresh snapshot afterwards)).requests[j]? = some other := hj
    rcases getElem?_move hj with ⟨rfl,rfl⟩ | ⟨hne,hj⟩
    · obtain ⟨items,hafter⟩ | hafter := @afterRefresh_cases snapshot afterwards
      · rw [hafter]
        exact .of_quiet rfl (by simp)
      · rw [hafter]
        exact .of_quiet rfl (by simp)
    · have hj : s.requests[j]? = some other := by
        rw [← storeSnapshot_requests]
        exact hj
      have hj := h.requests j other hj
      have hidle : s.holder ≠ some j := by
        intro hij
        exact hne (Option.some.inj (hij.symm.trans hr.holder))
      exact hj.idle (hj.check_none hidle) hnow.ge
  · intro r hm
    obtain hm | ⟨found,hfound,rfl⟩ := mem_storeRefresh hm
    · exact h.follows r hm
    · have hf := hfollows found hfound
      rw [← hstored found hfound] at hf
      exact hf
  · intro key r hlast
    obtain hkey | ⟨found,rfl,rfl⟩ := hkept key
    · rw [ofKey_storeRefresh hkey] at hlast
      exact (hpending key hkey).trans (h.last key r hlast)
    · rw [ofKey_storeRefresh_self,List.getLast?_concat] at hlast
      cases hlast
      rfl
  · intro key
    obtain hkey | ⟨found,rfl,rfl⟩ := hkept key
    · rw [ofKey_storeRefresh hkey]
      exact h.continues key
    · rw [ofKey_storeRefresh_self]
      apply (h.continues _).append (List.isChain_singleton _)
      intro first hfirst next hnext
      cases hnext
      exact hr.cached.symm.trans (h.last _ first hfirst)

end

/-- A failure is stored when no refresh of its source began before it, so no refresh misses it. -/
theorem Serial.storeFailure (h : Serial s) {snapshot : WudApiSnapshot} (hturn : s.overtakes i = false)
    (hi : s.requests[i]? = some request) (hp : request.stage = .failing snapshot) :
    Serial ((s.storeSnapshot request.settings.cacheKey snapshot none).move i request .done) := by
  have hnow : (s.storeSnapshot request.settings.cacheKey snapshot none).now = s.now := storeSnapshot_now
  have hlog : (s.storeSnapshot request.settings.cacheKey snapshot none).refreshed = s.refreshed :=
    storeSnapshot_refreshed
  constructor
  · intro key current hcurrent
    rcases snapshotOf_store hcurrent with ⟨-,rfl⟩ | hcurrent
    · exact hnow ▸ (h.requests i request hi).failing current hp
    · exact hnow ▸ h.snapshots key current hcurrent
  · intro j other hj
    rcases getElem?_move hj with ⟨rfl,rfl⟩ | ⟨-,hold⟩
    · exact .of_quiet rfl (by simp)
    · rw [storeSnapshot_requests] at hold
      apply (h.requests j other hold).frame (t := (s.storeSnapshot request.settings.cacheKey snapshot none).move i
        request .done) storeSnapshot_holder hnow.ge pendingObservations_store_none
      intro check hc current hcurrent
      rcases snapshotOf_store hcurrent with ⟨hkey,rfl⟩ | hcurrent
      · exact .inr (le_check_of_inTurn hturn hi hp hold hkey hc)
      · exact .inl hcurrent
  · intro r hr
    exact h.follows r (hlog ▸ hr)
  · intro key r hr
    exact pendingObservations_store_none.trans (h.last key r (hlog ▸ hr))
  · intro key
    have hkey := h.continues key
    rw [← hlog] at hkey
    exact hkey

theorem Serial.step {a : WudAction} (h : Serial s) (hturn : InTurn s a) (hm : Moved s a t) : Serial t := by
  cases hm with
  | tick seconds => exact h.tick seconds
  | begin settings wanted checkedAt => exact h.begin fun i => sound_firstStage
  | @lock i checkedAt request includeContainers afterwards hi hp hh =>
    let check : WudCheck := ⟨checkedAt,s.now,s.pendingObservations request.settings.cacheKey⟩
    let stage := lockedStage request includeContainers check afterwards
    have hr : Refreshing { s.move i request stage with holder := some i } i request.settings.cacheKey check :=
      ⟨rfl,le_refl _,rfl,fun snapshot hs => h.snapshots _ snapshot hs⟩
    apply h.move ((lockedStage_goesOn request includeContainers check afterwards).sound hr) rfl (le_refl _) rfl rfl rfl
    intro j other hne hj
    have hj := h.requests j other hj
    exact hj.idle (hj.check_none (by simp [hh])) (le_refl s.now)
  | @health i reply request includeContainers check afterwards hi hp =>
    have hcheck : request.stage.check = some check := by rw [hp]; rfl
    have hr := (h.requests i request hi).refreshing check hcheck
    apply h.move_same
    exact (healthStage_goesOn request includeContainers check afterwards reply).sound (hr.of_eq rfl rfl rfl rfl)
  | @containers i reply request check afterwards stage hi hp hs =>
    have hcheck : request.stage.check = some check := by rw [hp]; rfl
    have hr := (h.requests i request hi).refreshing check hcheck
    apply h.move_same
    exact (containersStage_goesOn hr.cached hs).sound (hr.of_eq rfl rfl rfl rfl)
  | containersStopped hi => exact h.release
  | store hi hp => exact h.store hi hp
  | @post i reply checkedAt request item items hi hp =>
    apply h.move_same
    rcases s.postStage_spec request item items checkedAt reply with hs | ⟨snapshot,hs,htime⟩
    · rw [hs]
      exact .of_quiet rfl (by simp)
    · rw [hs]
      refine ⟨by simp [WudStage.check],by simp,?_⟩
      intro found heq
      cases heq
      exact htime.le
  | endBatch hi hp => exact h.move_same (.of_quiet rfl (by simp))
  | storeFailure hi hp => exact h.storeFailure hturn hi hp
  | stop hi => exact h.release

/-- A process with what it loaded of the observations it saw before. -/
def start (now : ℚ) (pending : List (WudApiCacheKey × PendingObservations)) : WudCacheState where
  now := now
  snapshots := []
  pending := pending

theorem serial_start (now : ℚ) (pending : List (WudApiCacheKey × PendingObservations)) :
    Serial (start now pending) := by
  refine ⟨?_,by simp [start],by simp [start],?_,?_⟩
  · intro key snapshot h
    cases h
  · intro key r hr
    cases hr
  · intro key
    exact List.isChain_nil

/-- When no failed watch overtakes a refresh, what is cached after each refresh that fetched a list is what the list
is reconciled to, and the next refresh of the source starts from it. -/
theorem pending_follows_payloads {now : ℚ} {pending : List (WudApiCacheKey × PendingObservations)}
    {actions : List WudAction} {t : WudCacheState} (hturn : System.Along step InTurn (start now pending) actions)
    (hr : System.run step (start now pending) actions = some t) :
    (∀ r ∈ t.refreshed, Follows r.settings r.check r.payload r.pendingObservations) ∧
      ∀ key, (ofKey key t.refreshed).IsChain Continues := by
  have hserial : Serial t :=
    System.run_invariant (fun s a u hs hc hstep => hs.step hc (step_moved hstep)) (serial_start now pending) hturn hr
  exact ⟨hserial.follows,hserial.continues⟩

section Example
/-! A list that is fetched while a watch of the same API fails -/

def wudSettings : WudApiSettings where
  baseUrl := "http://wud:3000".toList
  fingerprint := []
  configured := false
  rules := {
    case := plainCase
    urlsplit := fun _ => .ok ⟨"http".toList,"wud:3000".toList,[]⟩
    sanitizeDetail := id }

def appPayload (result : Details) (updateAvailable : Bool) : Json :=
  .object [("id".toList,.string "c1".toList),("name".toList,.string "app".toList),
    ("image".toList,.object [("name".toList,.string "app".toList),
      ("tag".toList,.object [("value".toList,.string "1".toList)])]),
    ("result".toList,.object result),("updateAvailable".toList,.bool updateAvailable)]

/-- One list with an update, and one of a check that failed. -/
def updatePayload : Json := .array [appPayload [("tag".toList,.string "2".toList)] true]

def degradedPayload : Json := .array [appPayload [] false]

def watchApp : WudWanted := .watch [⟨"/api/containers/c1/watch".toList,"c1".toList⟩]

/-- The watch is ready to post, and a refresh has begun. -/
def watchBesideRefresh : List WudAction :=
  [.begin wudSettings watchApp [],.lock 0 [],.health 0 (.ok ()),.store 0,.begin wudSettings (.snapshot true) [],
    .lock 1 [],.health 1 (.ok ()),.tick 1]

def refreshOf (i : ℕ) (payload : Json) : List WudAction :=
  [.begin wudSettings (.snapshot true) [],.lock i [],.health i (.ok ()),.containers i (.ok payload),.store i]

def followed (r : WudRefreshed) : Bool :=
  (reconcileContainerObservations r.settings.rules r.payload r.check.cached r.check.checkedAt).any fun found =>
    r.pendingObservations = found.pendingObservations

theorem followed_of_follows {r : WudRefreshed} (h : Follows r.settings r.check r.payload r.pendingObservations) :
    followed r = true := by
  obtain ⟨found,hfound,hpending⟩ := h
  rw [followed,hfound]
  exact decide_eq_true hpending

/-- The failure is stored only after the refresh, and the next check finds the container degraded. -/
def failureInTurn : List WudAction :=
  watchBesideRefresh ++ [.post 0 (.httpError 500) [],.containers 1 (.ok updatePayload),.store 1,.storeFailure 0] ++
    refreshOf 2 degradedPayload

theorem failureInTurn_runs : (System.run step (start 0 []) failureInTurn).isSome = true := by decide +kernel

theorem failureInTurn_follows :
    let t := (System.run step (start 0 []) failureInTurn).get failureInTurn_runs
    (∀ r ∈ t.refreshed, Follows r.settings r.check r.payload r.pendingObservations) ∧
      ∀ key, (ofKey key t.refreshed).IsChain Continues :=
  pending_follows_payloads (by decide +kernel) (Option.some_get _).symm

/-- The failure is stored first, and the list that was fetched is not cached. -/
def failureOvertakes : List WudAction :=
  watchBesideRefresh ++ [.post 0 (.httpError 500) [],.storeFailure 0,.containers 1 (.ok updatePayload),.store 1] ++
    refreshOf 2 degradedPayload

theorem failureOvertakes_runs : (System.run step (start 0 []) failureOvertakes).isSome = true := by decide +kernel

theorem failure_drops_payload :
    ∃ t, System.run step (start 0 []) failureOvertakes = some t ∧
      ∃ r ∈ t.refreshed, ¬Follows r.settings r.check r.payload r.pendingObservations := by
  have hdropped : (((System.run step (start 0 []) failureOvertakes).get failureOvertakes_runs).refreshed.any
      fun r => !followed r) = true := by decide +kernel
  obtain ⟨r,hr,hnot⟩ := List.any_eq_true.mp hdropped
  refine ⟨_,(Option.some_get failureOvertakes_runs).symm,r,hr,?_⟩
  intro hfollows
  rw [followed_of_follows hfollows] at hnot
  cases hnot

end Example

end WudCacheState

end Wudup
