import Mathlib.Data.Rat.Defs
import Mathlib.Algebra.Order.Ring.Rat
import Mathlib.Logic.Function.Basic
import Wudup.Library.Keyed
import Wudup.Library.Recent
import Wudup.Library.Transition
import Wudup.Models

/-! What requests reuse: results of read-only commands within one request, and recent successes of registry checks. The
calls of all requests interleave. -/
namespace Wudup
open Library

/-! Which commands may be reused -/

def composeOptionsWithValue : List Str :=
  ["-f".toList,"--file".toList,"-p".toList,"--project-name".toList,"--project-directory".toList,"--env-file".toList]

def reusableDockerReads : List Str := ["inspect".toList,"ps".toList,"version".toList]

def reusableComposeReads : List Str := ["config".toList,"ps".toList,"version".toList]

/-- The last part of a path. -/
def pathName (path : Str) : Str := (((path.splitOn '/').filter fun part => part ≠ [] ∧ part ≠ ['.']).getLast?).getD []

def composeSubcommand : List Str → Str
  | [] => []
  | token :: rest =>
    if token ∈ composeOptionsWithValue then
      match rest with
      | [] => []
      | _ :: rest => composeSubcommand rest
    else if token.head? = some '-' then []
    else token

def isReusableRead : List Str → Bool
  | executable :: command :: rest =>
    if pathName executable ≠ "docker".toList then false
    else if command = "compose".toList then composeSubcommand rest ∈ reusableComposeReads
    else if command = "image".toList then rest.head? = some "inspect".toList
    else command ∈ reusableDockerReads
  | _ => false

/-- What makes two commands the same read. -/
structure CaptureKey where
  argv : List Str
  cwd : Option Str := none
  env : Option (List (Str × Str)) := none
  timeoutSeconds : Option ℚ := none
  deriving DecidableEq, Repr

/-- What makes two registry checks the same. -/
structure ManifestKey where
  executable : Str
  image : Str
  environmentKey : Option (List (Str × Str)) := none
  deriving DecidableEq, Repr

/-! Which requests reuse what -/

/-- The method of a request and the path of its URL. -/
structure RequestLine where
  method : Str
  path : Str
  deriving DecidableEq, Repr

def readOnlyPostPaths : List Str := ["/api/v1/plans".toList]

def registryCheckReusePaths : List Str := ["/api/v1/plans".toList,"/api/v1/plans/apply".toList,"/api/v1/jobs".toList]

def reusesReads (request : RequestLine) : Bool :=
  if request.method = "GET".toList ∨ request.method = "HEAD".toList then true
  else request.method = "POST".toList && request.path ∈ readOnlyPostPaths

def reusesRegistryChecks (request : RequestLine) : Bool :=
  request.method = "POST".toList && request.path ∈ registryCheckReusePaths

/-! Scopes and calls; every operation under a lock is a step. -/

def registryCheckTtlSeconds : ℚ := 300

def registryCheckLimit : ℕ := 256

structure RequestScope (υ : Type) where
  reuseReads : Bool
  reuseRegistryChecks : Bool
  active : Bool := true
  reused : ℕ := 0
  reads : List (CaptureKey × υ) := []

def requestScope {υ : Type} (request : RequestLine) : RequestScope υ where
  reuseReads := reusesReads request
  reuseRegistryChecks := reusesRegistryChecks request

inductive CallStage (υ : Type) where
  /-- A command before the scope is asked whether reads are reused. -/
  | capturing (key : CaptureKey)
  | lookingUp (key : CaptureKey)
  | executing (key : CaptureKey) (stores : Bool)
  | storing (key : CaptureKey) (value : υ)
  /-- A registry check before the scope is asked. -/
  | checking (key : ManifestKey)
  | lookingUpCheck (key : ManifestKey) (now : ℚ)
  | runningCheck (key : ManifestKey) (records : Bool)
  | recording (key : ManifestKey)
  | done

structure ScopedCall (υ : Type) where
  scope : Option ℕ
  stage : CallStage υ

inductive ScopeEvent (υ : Type) where
  | began (scope : ℕ) (request : RequestLine)
  | ended (scope : ℕ)
  | executed (call : ℕ) (scope : Option ℕ) (key : CaptureKey) (value : υ)
  | reused (call scope : ℕ) (key : CaptureKey) (value : υ)
  | passed (call : ℕ) (key : ManifestKey) (time : ℚ)
  | recorded (call : ℕ) (key : ManifestKey) (time : ℚ)
  | skipped (call scope : ℕ) (key : ManifestKey) (now : ℚ)
  /-- No recent success is found, and an older one is dropped. -/
  | missed (call : ℕ) (key : ManifestKey)
  | cleared
  deriving DecidableEq

/-- The requests of a server, what is recorded of registry checks, and what happened. -/
structure ScopeState (υ : Type) where
  now : ℚ := 0
  scopes : ℕ → Option (RequestScope υ) := fun _ => none
  registryChecks : List (ManifestKey × ℚ) := []
  calls : ℕ → Option (ScopedCall υ) := fun _ => none
  history : List (ScopeEvent υ) := []

inductive ScopeAction (υ : Type) where
  | wait (time : ℚ)
  | begin (scope : ℕ) (request : RequestLine)
  | finish (scope : ℕ)
  | capture (call : ℕ) (scope : Option ℕ) (key : CaptureKey)
  | check (call : ℕ) (scope : Option ℕ) (key : ManifestKey)
  /-- The next operation of a call; a command or a check that is run then gives a value, or fails with an error. -/
  | advance (call : ℕ) (outcome : Option υ)
  | clearRegistryChecks

namespace ScopeState
variable {υ : Type} (s : ScopeState υ)

def scopeOf (call : ScopedCall υ) : Option (RequestScope υ) := call.scope.bind s.scopes

def setScope (id : ℕ) (scope : RequestScope υ) : ScopeState υ :=
  { s with scopes := Function.update s.scopes id (some scope) }

def setStage (i : ℕ) (call : ScopedCall υ) (stage : CallStage υ) : ScopeState υ :=
  { s with calls := Function.update s.calls i (some { call with stage }) }

def start (i : ℕ) (call : ScopedCall υ) : ScopeState υ := { s with calls := Function.update s.calls i (some call) }

def log (event : ScopeEvent υ) : ScopeState υ := { s with history := s.history ++ [event] }

/-- The newest check comes last, and the oldest ones are dropped beyond the limit. -/
def recordCheck (key : ManifestKey) : List (ManifestKey × ℚ) :=
  Recent.lastOf registryCheckLimit (Keyed.remove (·.1) key s.registryChecks ++ [(key,s.now)])

/-- A read is reused from the scope, or a command is executed. -/
def lookUp (i : ℕ) (call : ScopedCall υ) (id : ℕ) (scope : RequestScope υ) (key : CaptureKey) : ScopeState υ :=
  match Keyed.find (·.1) key scope.reads with
  | some found => ((s.setScope id { scope with reused := scope.reused + 1 }).setStage i call .done).log
      (.reused i id key found.2)
  | none => s.setStage i call (.executing key true)

/-- A result is stored unless there is one, or the request has ended. -/
def store (i : ℕ) (call : ScopedCall υ) (id : ℕ) (scope : RequestScope υ) (key : CaptureKey) (value : υ) :
    ScopeState υ :=
  if scope.reuseReads && (Keyed.find (·.1) key scope.reads).isNone then
    (s.setScope id { scope with reads := scope.reads ++ [(key,value)] }).setStage i call .done
  else s.setStage i call .done

/-- A check is skipped after a recent success, or it is run. -/
def lookUpCheck (i : ℕ) (call : ScopedCall υ) (id : ℕ) (scope : RequestScope υ) (key : ManifestKey) (now : ℚ) :
    ScopeState υ :=
  if (Keyed.find (·.1) key s.registryChecks).any fun found => now - found.2 < registryCheckTtlSeconds then
    ((s.setScope id { scope with reused := scope.reused + 1 }).setStage i call .done).log (.skipped i id key now)
  else
    ({ s with registryChecks := Keyed.remove (·.1) key s.registryChecks }.setStage i call (.runningCheck key true)).log
      (.missed i key)

def advance (i : ℕ) (call : ScopedCall υ) (outcome : Option υ) : Option (ScopeState υ) :=
  match call.stage with
  | .capturing key =>
    if isReusableRead key.argv && (s.scopeOf call).any (·.reuseReads) then some (s.setStage i call (.lookingUp key))
    else some (s.setStage i call (.executing key false))
  | .lookingUp key => do
    let id ← call.scope
    let scope ← s.scopes id
    return s.lookUp i call id scope key
  | .executing key stores =>
    match outcome with
    | none => some (s.setStage i call .done)
    | some value =>
      some ((s.setStage i call (if stores then .storing key value else .done)).log (.executed i call.scope key value))
  | .storing key value => do
    let id ← call.scope
    let scope ← s.scopes id
    return s.store i call id scope key value
  | .checking key =>
    if (s.scopeOf call).any fun scope => scope.active && scope.reuseRegistryChecks then
      some (s.setStage i call (.lookingUpCheck key s.now))
    else some (s.setStage i call (.runningCheck key false))
  | .lookingUpCheck key now => do
    let id ← call.scope
    let scope ← s.scopes id
    return s.lookUpCheck i call id scope key now
  | .runningCheck key records =>
    if outcome.isNone then some (s.setStage i call .done)
    else some ((s.setStage i call (if records then .recording key else .done)).log (.passed i key s.now))
  | .recording key =>
    some (({ s with registryChecks := s.recordCheck key }.setStage i call .done).log (.recorded i key s.now))
  | .done => none

def step : System (ScopeState υ) (ScopeAction υ)
  | s, .wait time => if s.now ≤ time then some { s with now := time } else none
  | s, .begin id request =>
    match s.scopes id with
    | none => some ((s.setScope id (requestScope request)).log (.began id request))
    | some _ => none
  | s, .finish id =>
    match s.scopes id with
    | none => none
    | some scope =>
      some ((s.setScope id { scope with active := false, reuseReads := false, reads := [] }).log (.ended id))
  | s, .capture i scope key =>
    if (s.calls i).isNone then some (s.start i ⟨scope,.capturing key⟩) else none
  | s, .check i scope key =>
    if (s.calls i).isNone then some (s.start i ⟨scope,.checking key⟩) else none
  | s, .advance i outcome => (s.calls i).bind fun call => s.advance i call outcome
  | s, .clearRegistryChecks => some ({ s with registryChecks := [] }.log .cleared)

end ScopeState
end Wudup
