import Wudup.RunnerMatching

/-! Digest pin and unpin updates: how the plan lists them stack by stack, how the apply job flattens
them, and how the updater finds those of one stack again. -/
namespace Wudup
open Library

def digestPinMarkerPrefix : Str := "wudup.resolved-tag=".toList

def digestPinUpdateFromValues (oldImage resolvedTag plannedDigest : Str) (services : List Str) :
    DigestPinUpdate :=
  { oldImage, resolvedTag
    resolvedImage := imageWithTag oldImage resolvedTag
    plannedDigest := normalizeDigest plannedDigest
    finalImage := imageWithDigest oldImage (normalizeDigest plannedDigest)
    watchTag := resolvedTag
    marker := digestPinMarkerPrefix ++ resolvedTag
    labelKey := wudTagIncludeLabel
    labelValue := composeEscapeDollars (exactTagRegex resolvedTag)
    services := services.insertionSort (· ≤ ·) }

structure DigestPinCandidate where
  oldImage : Str
  resolvedTag : Str
  resolvedImage : Str
  plannedDigest : Str
  services : List Str
  deriving DecidableEq, Repr

/-- The tag a match pins: the tag it is updated to, or the tag whose digest it asks for. -/
def digestPinMatchTag (m : Match) : Str :=
  if m.target.desiredTag ≠ [] then m.target.desiredTag
  else if !isDigestTargetLine m.target then []
  else imageTag m.target.first

/-- Why a digest-pin plan fails. -/
inductive DigestPinError where
  | conflictingDigests (resolvedImage : Str) (digests : List Str)
  | unresolved (resolvedImage : Str)
  deriving DecidableEq, Repr

/-- What pins are looked up by. -/
abbrev PinKey := Str × Str

def pinMatches (matched : List Match) : List Match := matched.filter (digestPinMatchTag · ≠ [])

def Match.pinKey (m : Match) : PinKey := (m.composeImage,digestPinMatchTag m)

def pinKeys (matched : List Match) : List PinKey :=
  (orderedUnique ((pinMatches matched).map Match.pinKey)).insertionSort fun a b => toLex a ≤ toLex b

/-- The candidate of one image and tag; lines that ask for different digests conflict. -/
def digestPinCandidate (matched : List Match) (key : PinKey) : Except DigestPinError DigestPinCandidate :=
  let group := (pinMatches matched).filter (·.pinKey = key)
  let digests := sortedSet ((group.filter (·.target.desiredTag = [])).map (normalizeDigest ·.target.digest))
  let resolvedImage := imageWithTag key.1 key.2
  if digests.length > 1 then .error (.conflictingDigests resolvedImage digests)
  else .ok
    { oldImage := key.1, resolvedTag := key.2, resolvedImage
      plannedDigest := digests.headD []
      services := sortedSet ((group.map (·.service)).filter (· ≠ [])) }

def digestPinCandidates (matched : List Match) : Except DigestPinError (List DigestPinCandidate) :=
  (pinKeys matched).mapM (digestPinCandidate matched)

/-- The label rule of an unpinned tag is computed elsewhere, from the tag alone. -/
structure TagRules where
  retagTagIncludeRegex : Str → Str

section
variable (rules : TagRules)

def digestUnpinUpdateFromValues (oldImage resolvedTag targetDigest : Str) (services : List Str) :
    DigestUnpinUpdate :=
  { oldImage, resolvedTag
    tagImage := imageWithTag oldImage resolvedTag
    currentDigest := digestFromImage oldImage
    targetDigest := normalizeDigest targetDigest
    watchTag := resolvedTag
    marker := digestPinMarkerPrefix ++ resolvedTag
    labelKey := wudTagIncludeLabel
    labelValue := composeEscapeDollars (rules.retagTagIncludeRegex resolvedTag)
    services := services.insertionSort (· ≤ ·) }

/-- Services of a digest-pinned image whose known tag is the one the target asks for; the tag is
recovered from the database, the Compose marker or the label. -/
def unpinServices (recovers : ComposeStack → ServiceImage → Str → Bool) (target : WudTarget)
    (stack : ComposeStack) (image : Str) : List Str :=
  sortedSet ((stack.serviceImages.filter fun item =>
    item.service ≠ [] && item.image = image && digestFromImage image ≠ [] && repoKey image = target.repo &&
      recovers stack item (imageTag target.first)).map (·.service))

/-- The unpin updates of one target in one stack, by image. -/
def digestUnpinUpdatesForTarget (recovers : ComposeStack → ServiceImage → Str → Bool) (target : WudTarget)
    (stack : ComposeStack) : List DigestUnpinUpdate :=
  (sortedSet (stack.serviceImages.map (·.image))).filterMap fun image =>
    let services := unpinServices recovers target stack image
    if services = [] then none
    else some (digestUnpinUpdateFromValues rules image (imageTag target.first) target.digest services)

abbrev UnpinKey := Str × Str × Str

def DigestUnpinUpdate.key (update : DigestUnpinUpdate) : UnpinKey :=
  (update.oldImage,update.resolvedTag,update.targetDigest)

def UnpinKey.order (key : UnpinKey) : Str ×ₗ Str ×ₗ Str := toLex (key.1,toLex key.2)

/-- Updates of one key become one, for the services of all of them. -/
def mergedUnpin (updates : List DigestUnpinUpdate) (key : UnpinKey) : Option DigestUnpinUpdate :=
  match updates.filter (·.key = key) with
  | [] => none
  | [update] => some update
  | group =>
    some (digestUnpinUpdateFromValues rules key.1 key.2.1 key.2.2 (sortedSet (group.flatMap (·.services))))

def uniqueDigestUnpinUpdates (updates : List DigestUnpinUpdate) : List DigestUnpinUpdate :=
  ((orderedUnique (updates.map (·.key))).insertionSort fun a b => UnpinKey.order a ≤ UnpinKey.order b).filterMap
    (mergedUnpin rules updates)

/-- The matches an update adds to the plan of its stack. -/
def unpinMatchesOf (stack : ComposeStack) (target : WudTarget) (update : DigestUnpinUpdate) : List Match :=
  update.services.map fun service => ⟨stack,target,update.tagImage,update.oldImage,service⟩

/-- One unmatched target is looked for in a stack. -/
def recoverTarget (recovers : ComposeStack → ServiceImage → Str → Bool) (stack : ComposeStack)
    (state : List Match × List DigestUnpinUpdate) (target : WudTarget) :
    List Match × List DigestUnpinUpdate :=
  let updates := digestUnpinUpdatesForTarget rules recovers target stack
  (((updates.flatMap (unpinMatchesOf stack target)).foldl (appendIfNew Match.key)
      (state.1,state.1.map Match.key)).1,
    if updates = [] then state.2 else uniqueDigestUnpinUpdates rules (state.2 ++ updates))

def recoverDigestUnpinMatches (recovers : ComposeStack → ServiceImage → Str → Bool) (stack : ComposeStack)
    (found : List Match) (unmatched : List WudTarget) : List Match × List DigestUnpinUpdate :=
  (unmatched.filter isDigestTargetLine).foldl (recoverTarget rules recovers stack) (found,[])

end

/-- One stack of an approved plan: its pins could all be resolved. -/
structure PlanStack (pinning : Bool) where
  stack : ComposeStack
  matched : List Match
  candidates : List DigestPinCandidate
  approved : pinning = true → digestPinCandidates matched = .ok candidates
  registryDigest : DigestPinCandidate → Str
  unpins : List DigestUnpinUpdate

namespace PlanStack
variable {pinning : Bool}

/-- Pins are planned only when digest pinning is on. -/
def digestPinUpdates (s : PlanStack pinning) : List DigestPinUpdate :=
  if pinning then s.candidates.map fun c =>
    digestPinUpdateFromValues c.oldImage c.resolvedTag (s.registryDigest c) c.services
  else []

/-- Unpins are planned only when digest pinning is off. -/
def digestUnpinUpdates (s : PlanStack pinning) : List DigestUnpinUpdate := if pinning then [] else s.unpins

end PlanStack

abbrev DigestPlan (pinning : Bool) := List (PlanStack pinning)

/-! The hand-over: the stacks are dropped. -/

def digestPinUpdatesFromPlan {pinning : Bool} (plan : DigestPlan pinning) : List DigestPinUpdate :=
  (plan.flatMap (·.digestPinUpdates)).map fun item =>
    digestPinUpdateFromValues item.oldImage item.resolvedTag item.plannedDigest item.services

def digestUnpinUpdatesFromPlan {pinning : Bool} (rules : TagRules) (plan : DigestPlan pinning) :
    List DigestUnpinUpdate :=
  (plan.flatMap (·.digestUnpinUpdates)).map fun item =>
    digestUnpinUpdateFromValues rules item.oldImage item.resolvedTag item.targetDigest item.services

namespace Updater

/-- Of the planned pins of one image and tag the last one counts. -/
def plannedPin (plan : List DigestPinUpdate) (key : PinKey) : Option DigestPinUpdate :=
  plan.reverse.find? fun update => (update.oldImage,update.resolvedTag) = key

/-- The planned pin for the candidate's services; a candidate that was not planned is resolved now. -/
def pinForCandidate (plan : List DigestPinUpdate) (resolve : DigestPinCandidate → Option Str)
    (candidate : DigestPinCandidate) : Except DigestPinError DigestPinUpdate :=
  match plannedPin plan (candidate.oldImage,candidate.resolvedTag) with
  | some update => .ok { update with services := candidate.services }
  | none => match resolve candidate with
    | none => .error (.unresolved candidate.resolvedImage)
    | some digest => .ok (digestPinUpdateFromValues candidate.oldImage candidate.resolvedTag digest
        candidate.services)

def pinsForCandidates (plan : List DigestPinUpdate) (resolve : DigestPinCandidate → Option Str)
    (candidates : List DigestPinCandidate) : Except DigestPinError (List DigestPinUpdate) :=
  candidates.mapM (pinForCandidate plan resolve)

/-- Results of earlier calls, by candidates; only what a call computed is stored. -/
structure PinCache (plan : List DigestPinUpdate) (resolve : DigestPinCandidate → Option Str) where
  entries : List (List DigestPinCandidate × List DigestPinUpdate)
  stored : ∀ entry ∈ entries, pinsForCandidates plan resolve entry.1 = .ok entry.2

variable {plan : List DigestPinUpdate} {resolve : DigestPinCandidate → Option Str}

/-- The pins of a stack's matches, with the cache the next call sees. -/
def digestPinUpdates (pinning : Bool) (cache : PinCache plan resolve) (matched : List Match) :
    Except DigestPinError (List DigestPinUpdate) × PinCache plan resolve :=
  if !pinning then (.ok [],cache)
  else match digestPinCandidates matched with
    | .error e => (.error e,cache)
    | .ok candidates => match cache.entries.lookup candidates with
      | some cached => (.ok cached,cache)
      | none => match h : pinsForCandidates plan resolve candidates with
        | .error e => (.error e,cache)
        | .ok updates => (.ok updates,
          { entries := (candidates,updates) :: cache.entries
            stored := fun entry he => by
              rcases List.mem_cons.mp he with rfl | he
              · exact h
              · exact cache.stored entry he })

/-- The services of the matches that an approved update names. -/
def unpinServicesOf (matched : List Match) (update : DigestUnpinUpdate) : List Str :=
  sortedSet ((matched.filter fun m => m.composeImage = update.oldImage && m.resolved = update.tagImage &&
    update.services.contains m.service).map (·.service))

/-- One approved update; of those of one key the first with services counts. -/
def takeUnpin (matched : List Match) (state : List DigestUnpinUpdate × List UnpinKey)
    (update : DigestUnpinUpdate) : List DigestUnpinUpdate × List UnpinKey :=
  let services := unpinServicesOf matched update
  if services = [] then state
  else if update.key ∈ state.2 then state
  else (state.1 ++ [{ update with services }],update.key :: state.2)

def digestUnpinUpdates (approved : List DigestUnpinUpdate) (matched : List Match) : List DigestUnpinUpdate :=
  (approved.foldl (takeUnpin matched) ([],[])).1

end Updater
end Wudup
