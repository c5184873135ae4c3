import Wudup.Library.Transition
import Wudup.WudObservations

/-! The cached snapshots and pending observations of the WUD API, under requests that refresh them one at a time and
watch requests that fail at any time. -/
namespace Wudup
open Library

abbrev WudApiCacheKey := Str × Str

/-- Where the WUD API is, by which credentials, and how its answers are read. -/
structure WudApiSettings where
  baseUrl : Str
  fingerprint : Str
  configured : Bool
  rules : ObservationRules

def WudApiSettings.cacheKey (settings : WudApiSettings) : WudApiCacheKey := (settings.baseUrl,settings.fingerprint)

/-- What is wrong with a base URL, if anything is. -/
def WudApiSettings.baseUrlError (settings : WudApiSettings) : Option Str :=
  match settings.rules.urlsplit (strip settings.baseUrl) with
  | .error message => some message
  | .ok url =>
    if !(["http".toList,"https".toList].contains url.scheme) then some "scheme must be http or https".toList
    else if url.netloc = [] then some "host is required".toList
    else none

/-- An answer of the WUD API, or what came instead. -/
inductive WudReply (α : Type) where
  | ok (value : α)
  | httpError (code : ℕ)
  | failed (error : Str)

/-- A path to post to, for one container or for all. -/
structure WatchItem where
  path : Str
  containerId : Str
  deriving DecidableEq, Repr

/-- When a check began, and what was cached then; the latter is kept for the record only. -/
structure WudCheck where
  checkedAt : Str
  checkedMonotonic : ℚ
  cached : PendingObservations
  deriving DecidableEq, Repr

/-- A fetched list and what it was reconciled to. -/
structure WudFetch where
  payload : List Json
  pendingObservations : PendingObservations

/-- Where a request is. A refresh that a watch request makes first goes on to its posts. -/
inductive WudStage where
  | waiting (includeContainers : Bool) (afterwards : Option (List WatchItem))
  | health (includeContainers : Bool) (check : WudCheck) (afterwards : Option (List WatchItem))
  | containers (check : WudCheck) (afterwards : Option (List WatchItem))
  | storing (check : WudCheck) (snapshot : WudApiSnapshot) (fetch : Option WudFetch)
    (afterwards : Option (List WatchItem))
  | posting (items : List WatchItem)
  | failing (snapshot : WudApiSnapshot)
  | done

structure WudRequest where
  settings : WudApiSettings
  stage : WudStage

/-- A refresh that fetched a list, and the observations cached right after it. -/
structure WudRefreshed where
  settings : WudApiSettings
  check : WudCheck
  payload : List Json
  pendingObservations : PendingObservations

structure WudCacheState where
  now : ℚ
  snapshots : List (WudApiCacheKey × WudApiSnapshot)
  pending : List (WudApiCacheKey × PendingObservations)
  holder : Option ℕ := none
  requests : List WudRequest := []
  refreshed : List WudRefreshed := []

/-! Snapshots of checks -/

section
variable (settings : WudApiSettings)

def authRequiredDetail (fallback : String) : Str :=
  if settings.configured then "configured WUD API credentials were rejected".toList else fallback.toList

/-- A snapshot without containers. -/
def plainSnapshot (state : WudApiState) (available metadataChecked : Bool) (checkedAt detail : Str)
    (checkedMonotonic : ℚ) : WudApiSnapshot where
  status := ⟨state,available,false,checkedAt,detail⟩
  metadataChecked := metadataChecked
  checkedMonotonic := checkedMonotonic

def baseUrlSnapshot (error : Str) (metadataChecked : Bool) (checkedAt : Str) (checkedMonotonic : ℚ) :
    WudApiSnapshot :=
  plainSnapshot .error false metadataChecked checkedAt
    (settings.rules.sanitizeDetail ("invalid WUD API base URL: ".toList ++ error)) checkedMonotonic

def isAuthCode (code : ℕ) : Bool := code = 401 || code = 403

def codeText (code : ℕ) : Str := (toString code).toList

def healthSnapshot (includeContainers : Bool) (check : WudCheck) : WudReply Unit → WudApiSnapshot
  | .httpError code =>
    if isAuthCode code then
      plainSnapshot .authRequired true includeContainers check.checkedAt
        (authRequiredDetail settings "WUD API requires authentication") check.checkedMonotonic
    else
      plainSnapshot .unavailable false includeContainers check.checkedAt
        (settings.rules.sanitizeDetail ("WUD API health check returned HTTP ".toList ++ codeText code))
        check.checkedMonotonic
  | .failed error =>
    plainSnapshot .unavailable false includeContainers check.checkedAt
      (settings.rules.sanitizeDetail ("WUD API is unavailable: ".toList ++ error)) check.checkedMonotonic
  | .ok _ =>
    plainSnapshot .ready true false check.checkedAt "WUD API is reachable".toList check.checkedMonotonic

/-- The snapshot of a check whose containers were not fetched. -/
def containersErrorSnapshot (check : WudCheck) : WudReply Json → WudApiSnapshot
  | .httpError code =>
    if isAuthCode code then
      plainSnapshot .authRequired true true check.checkedAt
        (authRequiredDetail settings "WUD API container metadata requires authentication") check.checkedMonotonic
    else
      plainSnapshot .error true true check.checkedAt
        (settings.rules.sanitizeDetail ("WUD API container metadata returned HTTP ".toList ++ codeText code))
        check.checkedMonotonic
  | .failed error =>
    plainSnapshot .error true true check.checkedAt
      (settings.rules.sanitizeDetail ("WUD API container metadata is unavailable: ".toList ++ error))
      check.checkedMonotonic
  | .ok _ =>
    plainSnapshot .error true true check.checkedAt "WUD API container metadata payload was not a list".toList
      check.checkedMonotonic

def reconciledSnapshot (check : WudCheck) (r : Reconciled) : WudApiSnapshot where
  status := ⟨.ready,true,true,check.checkedAt,observationStatusDetail r.containers.length r.degradedContainerCount
    r.retainedUpdateCount r.unsupportedContainerCount⟩
  containers := r.containers
  inventoryContainers := r.inventoryContainers
  unresolvedContainers := r.unresolvedContainers
  hiddenUpdateCandidates := r.hiddenUpdateCandidates
  retryableDegradedContainerIds := r.retryableDegradedContainerIds
  degradedContainerCount := r.degradedContainerCount
  retainedUpdateCount := r.retainedUpdateCount
  unsupportedContainerCount := r.unsupportedContainerCount
  metadataChecked := true
  checkedMonotonic := check.checkedMonotonic

def watchHttpErrorSnapshot (code : ℕ) (checkedAt : Str) (checkedMonotonic : ℚ) : WudApiSnapshot :=
  if isAuthCode code then
    plainSnapshot .authRequired true true checkedAt
      (authRequiredDetail settings "WUD API watch request requires authentication") checkedMonotonic
  else
    plainSnapshot .error true true checkedAt
      (settings.rules.sanitizeDetail ("WUD API watch request returned HTTP ".toList ++ codeText code))
      checkedMonotonic

def watchFailedSnapshot (error checkedAt : Str) (checkedMonotonic : ℚ) : WudApiSnapshot :=
  plainSnapshot .error true true checkedAt
    (settings.rules.sanitizeDetail ("WUD API watch request failed: ".toList ++ error)) checkedMonotonic

end

/-! Steps -/

/-- A refresh of what is asked for, or a watch of the items that are not cooling down. -/
inductive WudWanted where
  | snapshot (includeContainers : Bool)
  | watch (items : List WatchItem)
  deriving DecidableEq, Repr

/-- A post that parses its answer fails like one that does not get it; a batch may run out of time, and a request
may end at any exception that nobody handles. -/
inductive WudAction where
  | tick (seconds : ℕ)
  | begin (settings : WudApiSettings) (wanted : WudWanted) (checkedAt : Str)
  | lock (request : ℕ) (checkedAt : Str)
  | health (request : ℕ) (reply : WudReply Unit)
  | containers (request : ℕ) (reply : WudReply Json)
  | store (request : ℕ)
  | post (request : ℕ) (reply : WudReply Unit) (checkedAt : Str)
  | endBatch (request : ℕ)
  | storeFailure (request : ℕ)
  | stop (request : ℕ)

namespace WudCacheState
variable (s : WudCacheState)

def snapshotOf (key : WudApiCacheKey) : Option WudApiSnapshot := (Keyed.find (·.1) key s.snapshots).map (·.2)

def pendingObservations (key : WudApiCacheKey) : PendingObservations :=
  ((Keyed.find (·.1) key s.pending).map (·.2)).getD []

/-- A snapshot is dropped for one of a later check, and its observations with it. -/
def storeSnapshot (key : WudApiCacheKey) (snapshot : WudApiSnapshot) (pending : Option PendingObservations) :
    WudCacheState :=
  if (s.snapshotOf key).any fun current => current.checkedMonotonic > snapshot.checkedMonotonic then s
  else { s with
    snapshots := Keyed.set (·.1) (key,snapshot) s.snapshots
    pending := match pending with
      | some observations => Keyed.set (·.1) (key,observations) s.pending
      | none => s.pending }

def move (i : ℕ) (request : WudRequest) (stage : WudStage) : WudCacheState :=
  { s with requests := s.requests.set i { request with stage } }

/-- Where a request starts; a watch of an unusable base URL fails with the time it began. -/
def firstStage (settings : WudApiSettings) (wanted : WudWanted) (checkedAt : Str) : WudStage :=
  match wanted with
  | .snapshot includeContainers => .waiting includeContainers none
  | .watch items =>
    match settings.baseUrlError with
    | some error => .failing (baseUrlSnapshot settings error true checkedAt s.now)
    | none => if items = [] then .waiting true none else .waiting false (some items)

def lockedStage (request : WudRequest) (includeContainers : Bool) (check : WudCheck)
    (afterwards : Option (List WatchItem)) : WudStage :=
  match request.settings.baseUrlError with
  | some error =>
    .storing check (baseUrlSnapshot request.settings error includeContainers check.checkedAt check.checkedMonotonic)
      none afterwards
  | none => .health includeContainers check afterwards

def healthStage (request : WudRequest) (includeContainers : Bool) (check : WudCheck)
    (afterwards : Option (List WatchItem)) : WudReply Unit → WudStage
  | .ok _ =>
    if includeContainers then .containers check afterwards
    else .storing check (healthSnapshot request.settings includeContainers check (.ok ())) none afterwards
  | reply => .storing check (healthSnapshot request.settings includeContainers check reply) none afterwards

/-- What a fetched list is reconciled with is read now; the request ends where the list stops the parser. -/
def containersStage (request : WudRequest) (check : WudCheck) (afterwards : Option (List WatchItem)) :
    WudReply Json → Option WudStage
  | .ok (.array payload) =>
    (reconcileContainerObservations request.settings.rules payload
        (s.pendingObservations request.settings.cacheKey) check.checkedAt).map fun r =>
      .storing check (reconciledSnapshot check r) (some ⟨payload,r.pendingObservations⟩) afterwards
  | reply => some (.storing check (containersErrorSnapshot request.settings check reply) none afterwards)

def afterRefresh (snapshot : WudApiSnapshot) : Option (List WatchItem) → WudStage
  | some items => if snapshot.status.state = .ready then .posting items else .done
  | none => .done

def storeRefresh (i : ℕ) (request : WudRequest) (check : WudCheck) (snapshot : WudApiSnapshot)
    (fetch : Option WudFetch) (afterwards : Option (List WatchItem)) : WudCacheState :=
  let key := request.settings.cacheKey
  let stored := s.storeSnapshot key snapshot (fetch.map (·.pendingObservations))
  { stored.move i request (afterRefresh snapshot afterwards) with
    holder := none
    refreshed := stored.refreshed ++ fetch.toList.map fun fetch =>
      ⟨request.settings,check,fetch.payload,stored.pendingObservations key⟩ }

def postStage (request : WudRequest) (item : WatchItem) (items : List WatchItem) (checkedAt : Str) :
    WudReply Unit → WudStage
  | .ok _ => .posting items
  | .httpError code =>
    if code = 404 && item.containerId ≠ [] then .posting items
    else .failing (watchHttpErrorSnapshot request.settings code checkedAt s.now)
  | .failed error => .failing (watchFailedSnapshot request.settings error checkedAt s.now)

def release (i : ℕ) : WudCacheState := if s.holder = some i then { s with holder := none } else s

def step : System WudCacheState WudAction
  | s, .tick seconds => some { s with now := s.now + seconds }
  | s, .begin settings wanted checkedAt =>
    some { s with requests := s.requests ++ [⟨settings,s.firstStage settings wanted checkedAt⟩] }
  | s, .lock i checkedAt => (s.requests[i]?).bind fun request =>
    match request.stage with
    | .waiting includeContainers afterwards =>
      if s.holder = none then
        let check := ⟨checkedAt,s.now,s.pendingObservations request.settings.cacheKey⟩
        some { s.move i request (lockedStage request includeContainers check afterwards) with holder := some i }
      else none
    | _ => none
  | s, .health i reply => (s.requests[i]?).bind fun request =>
    match request.stage with
    | .health includeContainers check afterwards =>
      some (s.move i request (healthStage request includeContainers check afterwards reply))
    | _ => none
  | s, .containers i reply => (s.requests[i]?).bind fun request =>
    match request.stage with
    | .containers check afterwards =>
      match s.containersStage request check afterwards reply with
      | some stage => some (s.move i request stage)
      | none => some ((s.move i request .done).release i)
    | _ => none
  | s, .store i => (s.requests[i]?).bind fun request =>
    match request.stage with
    | .storing check snapshot fetch afterwards => some (s.storeRefresh i request check snapshot fetch afterwards)
    | _ => none
  | s, .post i reply checkedAt => (s.requests[i]?).bind fun request =>
    match request.stage with
    | .posting (item :: items) => some (s.move i request (s.postStage request item items checkedAt reply))
    | _ => none
  | s, .endBatch i => (s.requests[i]?).bind fun request =>
    match request.stage with
    | .posting _ => some (s.move i request (.waiting true none))
    | _ => none
  | s, .storeFailure i => (s.requests[i]?).bind fun request =>
    match request.stage with
    | .failing snapshot =>
      some ((s.storeSnapshot request.settings.cacheKey snapshot none).move i request .done)
    | _ => none
  | s, .stop i => (s.requests[i]?).bind fun request => some ((s.move i request .done).release i)

end WudCacheState

end Wudup
