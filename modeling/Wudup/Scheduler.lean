import Mathlib.Data.List.MinMax
import Wudup.Library.Unicode
import Wudup.PlanMatching

/-! The automatic scheduler: pending lines grouped by stack, the policies, skips and waits that decide
which of them are due, and the lines it selects for one update mode. -/
namespace Wudup
open Library

/-! Release skips -/

inductive ReleaseSkipBasis where
  | version
  | tag
  | digest
  deriving DecidableEq, Repr

inductive ReleaseSkipScope where
  | release
  | line
  deriving DecidableEq, Repr

/-- The release an update offers. -/
structure ReleaseKey where
  basis : ReleaseSkipBasis
  value : Str
  line : Str := []
  deriving DecidableEq, Repr

structure ReleaseSkip where
  id : ℤ
  serviceKey : Str
  basis : ReleaseSkipBasis
  value : Str
  scope : ReleaseSkipScope
  createdAt : Str
  deriving DecidableEq, Repr

/-- The dotted number a version starts with, part by part. -/
def versionNumber : List Str → List Str
  | [] => []
  | part :: rest =>
    let number := part.takeWhile Char.isDigit
    if number = [] then []
    else if number = part then number :: versionNumber rest
    else [number]

/-- The major and minor number of a version. -/
def releaseLine (version : Str) : Str :=
  match versionNumber (version.splitOn '.') with
  | major :: minor :: _ => major ++ '.' :: minor
  | _ => []

/-- How the version of a tag is read depends on the image's publisher. -/
structure ReleaseRules where
  releaseVersion : Str → Str → Str

def ReleaseRules.releaseKey (rules : ReleaseRules) (imageRepo targetTag digest : Str) : Option ReleaseKey :=
  let tag := strip targetTag
  if tag ≠ [] then
    let version := rules.releaseVersion imageRepo tag
    if version ≠ [] then some ⟨.version,version,releaseLine version⟩ else some ⟨.tag,tag,[]⟩
  else
    let targetDigest := strip digest
    if targetDigest ≠ [] then some ⟨.digest,targetDigest,[]⟩ else none

def skipMatches (skip : ReleaseSkip) : Option ReleaseKey → Bool
  | none => false
  | some key =>
    if key.basis ≠ skip.basis then false
    else match skip.scope with
      | .line => key.line ≠ [] && key.line = releaseLine skip.value
      | .release => key.value = skip.value

/-- The stored skips of each service. -/
abbrev SkipsByService := List (Str × List ReleaseSkip)

def skipsOf (skips : SkipsByService) (serviceKey : Str) : List ReleaseSkip := (skips.lookup serviceKey).getD []

def skipNewness (skip : ReleaseSkip) : Str ×ₗ ℤ := toLex (skip.createdAt,skip.id)

/-- The skip that applies to an offered release, and whether it holds it back. -/
def skipForRelease (skips : SkipsByService) (serviceKeys : List Str) (key : Option ReleaseKey) :
    Option ReleaseSkip × Bool :=
  let candidates := serviceKeys.flatMap (skipsOf skips)
  match candidates.find? (skipMatches · key) with
  | some skip => (some skip,true)
  | none => match key with
    | none => (none,false)
    | some key => ((candidates.filter (·.basis = key.basis)).argmax skipNewness,false)

/-! Pending groups -/

def serviceKey (stackName service : Str) : Str := stackName ++ '/' :: service

structure PendingGroupingItem where
  lineNo : ℕ
  repo : Str
  digest : Str
  desiredTag : Str
  services : List Str
  deriving DecidableEq, Repr

structure PendingStackGroup where
  name : Str
  items : List PendingGroupingItem
  deriving DecidableEq, Repr

/-- One line of a stack, for the services it matched there. -/
def pendingGroupingItem (lineMatches : List Match) : Option PendingGroupingItem :=
  lineMatches.head?.map fun first =>
    { lineNo := first.target.lineNo, repo := first.target.repo, digest := first.target.digest
      desiredTag := first.target.desiredTag
      services := orderedUnique ((lineMatches.map (·.service)).filter (· ≠ [])) }

def pendingGroupingItems (stackMatches : List Match) : List PendingGroupingItem :=
  ((orderedUnique (stackMatches.map (·.target.lineNo))).insertionSort (· ≤ ·)).filterMap fun lineNo =>
    pendingGroupingItem (stackMatches.filter (·.target.lineNo = lineNo))

def pendingStackGroups (found : List Match) : List PendingStackGroup :=
  (stacksToUpdate found).map fun stack =>
    ⟨stack.name,pendingGroupingItems (found.filter (·.stack.index = stack.index))⟩

/-! Selection -/

/-- A due policy of one service; without a mode of its own it has the configured one. -/
structure AutoUpdatePolicy where
  serviceKey : Str
  updateMode : Str
  scheduleKey : Str
  scheduledFor : ℤ
  deriving DecidableEq, Repr

/-- A stored snooze that makes a service wait for another. -/
structure DependencySnooze where
  serviceKey : Str
  waitForServiceKey : Str
  deriving DecidableEq, Repr

/-- What a selection is made from: the configured mode, the due policies, the skips and the waits. -/
structure ScheduleInput where
  updateMode : Str
  rules : ReleaseRules
  policies : List (Str × AutoUpdatePolicy)
  releaseSkips : SkipsByService
  dependencySnoozes : List DependencySnooze

structure AutoUpdateCandidate where
  lineNo : ℕ
  serviceKeys : List Str
  policies : List AutoUpdatePolicy
  deriving DecidableEq, Repr

structure AutoUpdateSelection where
  lineNumbers : List ℕ
  serviceKeys : List Str
  scheduleKeys : List Str
  scheduledFor : ℤ
  updateMode : Str
  deferredScheduleKeys : List Str
  deriving DecidableEq, Repr

namespace ScheduleInput
variable (input : ScheduleInput)

def policyMode (policy : AutoUpdatePolicy) : Str :=
  if policy.updateMode = [] then input.updateMode else policy.updateMode

/-- The mode all policies share. -/
def commonMode : List AutoUpdatePolicy → Option Str
  | [] => none
  | first :: rest =>
    let mode := input.policyMode first
    if rest.any (input.policyMode · ≠ mode) then none else some mode

def held (serviceKeys : List Str) (release : Option ReleaseKey) : Bool :=
  input.releaseSkips ≠ [] && (skipForRelease input.releaseSkips serviceKeys release).2

/-- A line of one stack, when all its services there have due policies of one mode and none is skipped. -/
def autoUpdateCandidateForItem (groupName : Str) (item : PendingGroupingItem) :
    Option (Str × AutoUpdateCandidate) :=
  let serviceKeys := (item.services.filter (· ≠ [])).map (serviceKey groupName)
  if item.desiredTag ≠ [] then none
  else if input.held serviceKeys (input.rules.releaseKey item.repo item.desiredTag item.digest) then none
  else do
    let policies ← serviceKeys.mapM fun key => input.policies.lookup key
    let mode ← input.commonMode policies
    return (mode,⟨item.lineNo,serviceKeys,policies⟩)

/-- The candidates with their modes, stack by stack. -/
def autoUpdateCandidates (groups : List PendingStackGroup) : List (Str × AutoUpdateCandidate) :=
  groups.flatMap fun group => group.items.filterMap (input.autoUpdateCandidateForItem group.name)

/-- What each service waits for. -/
def dependencyWaits (key : Str) : List Str :=
  orderedUnique ((input.dependencySnoozes.filter fun row =>
    row.serviceKey = key && row.serviceKey ≠ [] && row.waitForServiceKey ≠ []).map (·.waitForServiceKey))

/-- The candidates of a mode none of whose services waits. -/
def eligibleCandidates (groups : List PendingStackGroup) (mode : Str) : List AutoUpdateCandidate :=
  (((input.autoUpdateCandidates groups).filter (·.1 = mode)).map (·.2)).filter fun candidate =>
    candidate.serviceKeys.all (input.dependencyWaits · = [])

/-- The earliest slot of the eligible candidates. -/
def scheduledForMode (groups : List PendingStackGroup) (mode : Str) : Option ℤ :=
  (((input.eligibleCandidates groups mode).flatMap (·.policies)).map (·.scheduledFor)).min?

def eligibleModes (groups : List PendingStackGroup) : List Str :=
  (sortedSet ((input.autoUpdateCandidates groups).map (·.1))).filter fun mode =>
    input.eligibleCandidates groups mode ≠ [] && (input.scheduledForMode groups mode).isSome

def scheduleKeysOf (groups : List PendingStackGroup) (mode : Str) : List Str :=
  ((input.eligibleCandidates groups mode).flatMap (·.policies)).map (·.scheduleKey)

/-- All lines that are due in the mode whose slot comes first. -/
def autoUpdateSelection (groups : List PendingStackGroup) : Option AutoUpdateSelection := do
  let modes := input.eligibleModes groups
  let mode ← modes.argmin fun mode => (input.scheduledForMode groups mode).getD 0
  let scheduledFor ← input.scheduledForMode groups mode
  let candidates := input.eligibleCandidates groups mode
  return {
    lineNumbers := (orderedUnique (candidates.map (·.lineNo))).insertionSort (· ≤ ·)
    serviceKeys := sortedSet (candidates.flatMap (·.serviceKeys))
    scheduleKeys := sortedSet (input.scheduleKeysOf groups mode)
    scheduledFor
    updateMode := mode
    deferredScheduleKeys := sortedSet ((modes.filter (· ≠ mode)).flatMap (input.scheduleKeysOf groups)) }

end ScheduleInput

def lineWide (lineNo : ℕ) : UpdateSelection := ⟨lineNo,[]⟩

/-- The plan of a selection takes its lines as a whole. -/
def autoUpdateMatches (host : SelectionHost) (found : List Match) (lineNumbers : List ℕ) :
    Except PlanInputError (List Match × List UpdateSelection) :=
  host.filterMatchesForSelections found (lineNumbers.map lineWide)

end Wudup
