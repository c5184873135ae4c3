import Mathlib.Data.List.Sort
import Wudup.ComposeSource
import Wudup.Matching

/-! The renderers of Compose rewrites: which images and labels they replace, and when they refuse. -/
namespace Wudup
open Library

/-- The YAML library: the services of a document's text, and the text of an edited document. -/
structure YamlLibrary where
  load : Str → Except Str (Option (Option (List ServiceEntry)))
  dump : ComposeDocument → Str

/-- A Compose file in its directory, as far as it can be resolved. -/
structure ComposePath where
  directory : Str
  name : Str
  deriving DecidableEq, Repr

def loadComposeYaml (yaml : YamlLibrary) (source : Str) : Rewrite ComposeDocument :=
  match yaml.load source with
  | .error reason => refuse s!"Compose file YAML could not be parsed: {text reason}"
  | .ok none => refuse "Compose file is not a YAML mapping."
  | .ok (some none) => refuse "Compose file has no services mapping."
  | .ok (some (some services)) => .ok { source, services }

def requireUpdateServices (oldImage : Str) (services : List Str) : Rewrite Unit :=
  if services = [] then refuse s!"No compose service was mapped for {text oldImage}." else .ok ()

def ServiceConfig.imageValue (config : ServiceConfig) : YamlScalar := (config.image.map (·.value)).getD .null

def validateServiceImage (service : Str) (currentImage : YamlScalar) (expectedImage : Str) : Rewrite Unit :=
  if currentImage = .text expectedImage then .ok ()
  else refuse s!"Service {text service} image is {text currentImage.shown}, expected {text expectedImage}."

def digestPinExpectedImage (service : Str) (currentImage : YamlScalar) (update : DigestPinUpdate) : Rewrite Str :=
  if currentImage = .text update.resolvedImage then .ok update.resolvedImage
  else if currentImage = .text update.oldImage then .ok update.oldImage
  else refuse (s!"Service {text service} image is {text currentImage.shown}, expected " ++
    s!"{text update.oldImage} or {text update.resolvedImage}.")

def regexSpecial (c : Char) : Bool := "\\^$.*+?()[]\x7b\x7d|".toList.contains c

/-- The tag whose escaped expression a text is. -/
def decodeExactTag : Str → Option Str
  | [] => some []
  | c :: rest =>
    if c = '\\' then
      match rest with
      | [] => none
      | d :: rest => if regexSpecial d then (decodeExactTag rest).map (d :: ·) else none
    else if regexSpecial c then none
    else (decodeExactTag rest).map (c :: ·)

def isSimpleExactTagInclude (value : Str) : Bool :=
  value.length ≥ 3 && value.head? = some '^' && value.getLast? = some '$' &&
    ((decodeExactTag (value.tail.dropLast)).any tagValueValid)

def tagStreamApprovalMatches (approval : TagStreamLabelRewriteApproval) (lineNo : ℕ)
    (stackName stackDirectory composeFile service currentLabelValue selectedTag proposedLabelValue : Str) : Bool :=
  approval.lineNo = lineNo && approval.stack = stackName && approval.stackDirectory = stackDirectory &&
    approval.composeFile = composeFile && approval.service = service &&
    approval.labelKey = wudTagIncludeLabel && approval.currentLabelValue = currentLabelValue &&
    approval.selectedTag = selectedTag && approval.proposedLabelValue = proposedLabelValue

/-- What a tag stream change is planned for. -/
structure TagStreamRequest where
  lineNo : ℕ
  stackName : Str
  stackDirectory : Str
  service : Str
  currentImage : Str
  currentTag : Str
  reportedTag : Str
  selectedTag : Str
  decision : StreamDecision
  proposedLabelRegex : Str
  deriving DecidableEq, Repr

/-- Whether a label may be replaced for a stream, and why. -/
def tagStreamLabelReason (composeFile : Str) (request : TagStreamRequest)
    (approvals : List TagStreamLabelRewriteApproval) (currentLabelValue : Str) : Bool × StreamLabelReason :=
  if currentLabelValue = [] then (true,.labelAdded)
  else if currentLabelValue = request.proposedLabelRegex then (true,.labelMatches)
  else if currentLabelValue = exactTagRegex request.currentTag ||
      (tagValueValid currentLabelValue && currentLabelValue = request.currentTag) then (true,.exactTagNormalized)
  else if approvals.any fun approval => tagStreamApprovalMatches approval request.lineNo request.stackName
      request.stackDirectory composeFile request.service currentLabelValue request.selectedTag
      (composeEscapeDollars request.proposedLabelRegex) then (true,.approved)
  else (false,.approvalRequired)

/-- Inspects one service and plans the rewrite of its label. -/
def planComposeTagStreamUpdate (yaml : YamlLibrary) (path : ComposePath) (source : Str) (request : TagStreamRequest)
    (approvals : List TagStreamLabelRewriteApproval) : Rewrite TagStreamUpdate := do
  let document ← loadComposeYaml yaml source
  let config ← rewriteServiceConfig document request.service true
  validateServiceImage request.service config.imageValue request.currentImage
  let config ← prepareServiceLabels document request.service config
  let label ← getServiceLabelValue config wudTagIncludeLabel request.service
  let currentLabelValue := composeUnescapeDollars label
  let (approved,reason) := tagStreamLabelReason path.name request approvals currentLabelValue
  return {
    lineNo := request.lineNo
    stack := request.stackName
    stackDirectory := request.stackDirectory
    composeFile := path.name
    service := request.service
    currentTag := request.currentTag
    reportedTag := request.reportedTag
    selectedTag := request.selectedTag
    decision := request.decision
    labelKey := wudTagIncludeLabel
    currentLabelValue
    proposedLabelValue := composeEscapeDollars request.proposedLabelRegex
    proposedLabelRegex := request.proposedLabelRegex
    approved
    reason }

/-- One stream update of a Compose file; a service may have one only. -/
def addTagStreamUpdate (resolve : Str → Str) (path : ComposePath) (stackName : Str)
    (byService : List (Str × TagStreamUpdate)) (update : TagStreamUpdate) :
    Rewrite (List (Str × TagStreamUpdate)) := do
  if update.stack ≠ stackName then
    refuse s!"Tag stream update targets stack {text update.stack}, expected {text stackName}."
  if resolve update.stackDirectory ≠ path.directory then
    refuse (s!"Tag stream update for service {text update.service} targets " ++ "a different Compose directory.")
  if update.composeFile ≠ path.name then
    refuse (s!"Tag stream update for service {text update.service} targets " ++ "a different Compose file.")
  if !update.approved then
    refuse s!"Service {text update.service} tag stream label rewrite is not approved."
  match byService.lookup update.service with
  | some existing =>
    if { update with lineNo := existing.lineNo } = existing then return byService
    else refuse s!"Service {text update.service} has more than one tag stream update."
  | none => return byService ++ [(update.service,update)]

/-- The stream update of each service of a Compose file. -/
def tagStreamUpdatesByService (resolve : Str → Str) (path : ComposePath) (stackName : Str)
    (updates : List TagStreamUpdate) : Rewrite (List (Str × TagStreamUpdate)) :=
  updates.foldlM (addTagStreamUpdate resolve path stackName) []

def asciiDigits (digits : Str) : Bool := digits ≠ [] && digits.all Char.isDigit

/-- The digits before a release suffix and whether there is one. -/
def splitReleaseSuffix (part : Str) : Option Bool :=
  match cutText "-ls".toList part with
  | none => if asciiDigits part then some false else none
  | some (digits,release) => if asciiDigits digits && asciiDigits release then some true else none

/-- The prefix of a version of four parts, and whether a release follows it. -/
def fourPartVersionTag (tag : Str) : Option (Str × Bool) :=
  let (lead,version) := if tag.head? = some 'v' then (['v'],tag.tail) else ([],tag)
  match version.splitOn '.' with
  | [major,minor,patch,last] =>
    if asciiDigits major && asciiDigits minor && asciiDigits patch then
      (splitReleaseSuffix last).map fun release => (lead,release)
    else none
  | _ => none

/-- The transform that keeps the order of versions of four parts. -/
def managedWudTagTransform (tag : Str) : Str :=
  match fourPartVersionTag tag with
  | none => []
  | some (lead,true) =>
    '^' :: lead ++ "(\\d+)\\.(\\d+)\\.(\\d+)\\.(\\d+)-ls(\\d+)$ => $1.$2.$3-$4.$5".toList
  | some (lead,false) => '^' :: lead ++ "(\\d+)\\.(\\d+)\\.(\\d+)\\.(\\d+)$ => $1.$2.$3-$4".toList

def plannedWudTagTransform (tag includeRegex currentTransform : Str) : Str :=
  if currentTransform ≠ [] || includeRegex = [] || includeRegex = exactTagRegex tag then []
  else managedWudTagTransform tag

def wudTagTransformLabel : Str := "wud.tag.transform".toList

/-- Adds the planned transform next to an include pattern, with the transform that was added. -/
def addManagedWudTagTransform (config : ServiceConfig) (service tag includeRegex configTransform : Str) :
    Rewrite (ServiceConfig × Str) := do
  let transform := plannedWudTagTransform tag includeRegex configTransform
  if transform = [] then return (config,[])
  if ← serviceLabelPresent config wudTagTransformLabel then
    refuse (s!"Service {text service} has a wud.tag.transform label that resolves to an empty " ++
      "value (it may be blank or use an unset variable); set or remove it in Compose, " ++
      "then preview again.")
  let config ← setServiceLabelValue config wudTagTransformLabel (composeEscapeDollars transform) service
  return (config,transform)

/-- Where the caller resolved the transforms of the services, a missing one is added. -/
def managedTransformAddition (config : ServiceConfig) (service watchTag includeLabelValue : Str)
    (configTransforms : Option (List (Str × Str))) : Rewrite (ServiceConfig × List (Str × Str)) :=
  match configTransforms with
  | none => .ok (config,[])
  | some transforms => do
    let (config,transform) ← addManagedWudTagTransform config service watchTag
      (composeUnescapeDollars includeLabelValue) ((transforms.lookup service).getD [])
    return (config,if transform = [] then [] else [(service,transform)])

def commentMarkers (config : ServiceConfig) : List Str :=
  orderedUnique (config.comments.flatten.flatMap commentTokenResolvedTagMarkers)

/-- The tag the comments around a service mark. -/
def serviceResolvedTagMarker (config : ServiceConfig) (service : Str) : Rewrite Str :=
  match commentMarkers config with
  | [] => .ok []
  | [tag] =>
    if tagValueValid tag then .ok tag
    else refuse s!"Service {text service} resolved-tag marker has invalid tag {text tag}."
  | tags => .error (.resolvedTagMarkerConflict service (tags.insertionSort (· ≤ ·)))

def clearServiceResolvedTagMarkers (config : ServiceConfig) (service : Str) : Rewrite ServiceConfig := do
  let cleared := config.comments.map fun tokens =>
    (tokens.map clearCommentTokenResolvedTagMarkers).filter (· ≠ [])
  let config := { config with comments := cleared.filter (· ≠ []) }
  if (← serviceResolvedTagMarker config service) ≠ [] then
    refuse s!"Service {text service} resolved-tag marker is attached ambiguously."
  return config

/-- Replaces the marker comments; a new one stands before the image. -/
def updateServiceResolvedTagMarker (config : ServiceConfig) (service marker : Str) : Rewrite ServiceConfig := do
  let config ← clearServiceResolvedTagMarkers config service
  if marker = [] then return config
  return { config with comments := config.comments ++ [["# ".toList ++ marker ++ ['\n']]] }

def validateServiceResolvedTagMarker (config : ServiceConfig) (service expectedTag stackName : Str) :
    Rewrite Unit := do
  let markerTag ← serviceResolvedTagMarker config service
  if markerTag = [] || markerTag = expectedTag then return ()
  let label := if stackName = [] then [] else stackName ++ [' ']
  refuse (s!"{text label}Service {text service} resolved-tag marker is " ++
    s!"{text markerTag}, expected {text expectedTag}.")

def ServiceConfig.setImage (config : ServiceConfig) (image : Str) : ServiceConfig :=
  { config with image := config.image.map fun field => { field with value := .text image, node := {} } }

def digestPinApprovalMatches (approval : DigestPinLabelRewriteApproval)
    (stackName service labelKey currentLabelValue plannedTag proposedLabelValue : Str) : Bool :=
  approval.stack = stackName && approval.service = service && approval.labelKey = labelKey &&
    approval.currentLabelValue = currentLabelValue && approval.plannedTag = plannedTag &&
    approval.proposedLabelValue = proposedLabelValue

/-- What a digest pin does to a label that is not the proposed one already. -/
def digestPinLabelRewrite (stackName service currentImage currentLabelValue : Str) (update : DigestPinUpdate)
    (approvals : List DigestPinLabelRewriteApproval) : Option DigestPinLabelRewrite :=
  let proposedLabelRegex := composeUnescapeDollars update.labelValue
  let rewrite := fun approved reason => some
    { service, labelKey := update.labelKey, currentLabelValue, plannedTag := update.watchTag
      proposedLabelValue := update.labelValue, proposedLabelRegex, approved, reason }
  if currentLabelValue = [] then none
  else if currentLabelValue = proposedLabelRegex then none
  else if isSimpleExactTagInclude currentLabelValue then rewrite false .exactRegexNormalized
  else if tagValueValid currentLabelValue &&
      (currentLabelValue = update.watchTag || currentLabelValue = imageTag currentImage) then
    rewrite false .plainTagNormalized
  else if approvals.any fun approval => digestPinApprovalMatches approval stackName service update.labelKey
      currentLabelValue update.watchTag update.labelValue then
    rewrite true .approved
  else rewrite false .approvalRequired

def digestPinLabelRewriteOrRaise (stackName service currentImage currentLabelValue : Str)
    (update : DigestPinUpdate) (approvals : List DigestPinLabelRewriteApproval) :
    Rewrite (Option DigestPinLabelRewrite) :=
  match digestPinLabelRewrite stackName service currentImage currentLabelValue update approvals with
  | none => .ok none
  | some rewrite =>
    if rewrite.reason ≠ .approvalRequired then .ok (some rewrite)
    else .error (.labelRewriteApprovalRequired rewrite.service rewrite.labelKey rewrite.currentLabelValue
      rewrite.plannedTag rewrite.proposedLabelValue rewrite.proposedLabelRegex)

/-- The label to write, the rewrite to report, and whether a tag stream decided it. -/
def retagLabelRewrite (stackName service currentImage currentLabelValue : Str) (update : DigestPinUpdate)
    (streamUpdate : Option TagStreamUpdate) (approvals : List DigestPinLabelRewriteApproval) :
    Rewrite (Str × Option DigestPinLabelRewrite × Bool) :=
  match streamUpdate with
  | none => do
    let rewrite ← digestPinLabelRewriteOrRaise stackName service currentImage currentLabelValue update approvals
    return (update.labelValue,rewrite,false)
  | some stream =>
    if stream.currentTag ≠ imageTag update.oldImage || stream.selectedTag ≠ update.watchTag ||
        stream.labelKey ≠ update.labelKey then
      refuse (s!"Service {text service} tag stream update does not match " ++ "the digest-pin update.")
    else if currentLabelValue ≠ stream.currentLabelValue && currentLabelValue ≠ stream.proposedLabelRegex then
      refuse s!"Service {text service} {text stream.labelKey} changed since planning."
    else .ok (stream.proposedLabelValue,none,true)

/-- What rewriting images has done to the services so far. -/
structure ImageRewrites where
  document : ComposeDocument
  seenSpans : List Span := []
  rewrites : List SpanRewrite := []
  rewrittenStreams : List Str := []

/-- One service of a tag update, without its label. -/
def rewriteTagService (update : TagUpdate) (state : ImageRewrites) (service : Str) : Rewrite ImageRewrites := do
  let _ ← rewriteServiceConfig state.document service false
  let (image,seenSpans) ← uniqueImageRewrite state.document service update.oldImage state.seenSpans update.oldImage
  let rewrite := { image with replacement := image.replacement ++ update.newImage }
  return { state with seenSpans, rewrites := state.rewrites ++ [rewrite] }

def rewriteTagUpdate (state : ImageRewrites) (update : TagUpdate) : Rewrite ImageRewrites := do
  requireUpdateServices update.oldImage update.services
  update.services.foldlM (rewriteTagService update) state

/-- The source with the images of the updates; nothing if some update replaces none. -/
def renderComposeTagUpdates (yaml : YamlLibrary) (source : Str) (updates : List TagUpdate) :
    Rewrite (Option Str × List AppliedTagUpdate) := do
  let document ← loadComposeYaml yaml source
  let state ← updates.foldlM rewriteTagUpdate { document }
  let rendered := (state.rewrites.insertionSort fun a b => b.start ≤ a.start).foldl replaceSpan source
  let applied := updates.map fun update => { update with replacements := update.services.length }
  if applied.any fun item => item.replacements < 1 then return (none,[])
  return (some rendered,applied)

/-- Whether a stream sets the label of a service, which must not have changed since planning. -/
def rewriteTagStreamLabel (document : ComposeDocument) (service : Str) (config : ServiceConfig)
    (update : TagUpdate) (stream : TagStreamUpdate) : Rewrite ServiceConfig := do
  if stream.selectedTag ≠ update.desiredTag then
    refuse (s!"Service {text service} tag stream selected {text stream.selectedTag}, " ++
      s!"expected {text update.desiredTag}.")
  let config ← prepareServiceLabels document service config
  let label ← getServiceLabelValue config stream.labelKey service
  if composeUnescapeDollars label ≠ stream.currentLabelValue then
    refuse s!"Service {text service} {text stream.labelKey} changed since planning."
  return config

/-- One service of a tag update, with the label its stream asks for. -/
def rewriteTagStreamService (streamByService : List (Str × TagStreamUpdate)) (update : TagUpdate)
    (state : ImageRewrites) (service : Str) : Rewrite ImageRewrites := do
  let config ← rewriteServiceConfig state.document service true
  validateServiceImage service config.imageValue update.oldImage
  let (image,seenSpans) ← uniqueImageRewrite state.document service update.oldImage state.seenSpans update.oldImage
  let rewrites := state.rewrites ++ [{ image with replacement := image.replacement ++ update.newImage }]
  match streamByService.lookup service with
  | none => return { state with seenSpans, rewrites }
  | some stream =>
    let config ← rewriteTagStreamLabel state.document service config update stream
    let labelRewrites ← serviceLabelSourceRewrite config stream.labelKey stream.proposedLabelValue
      state.document.source service
    return {
      document := state.document.setConfig service config
      seenSpans
      rewrites := rewrites ++ labelRewrites
      rewrittenStreams := state.rewrittenStreams ++ [service] }

def rewriteTagStreamUpdate (streamByService : List (Str × TagStreamUpdate)) (state : ImageRewrites)
    (update : TagUpdate) : Rewrite ImageRewrites := do
  requireUpdateServices update.oldImage update.services
  update.services.foldlM (rewriteTagStreamService streamByService update) state

/-- The streams no update has rewritten. -/
def missingStreams (streamByService : List (Str × TagStreamUpdate)) (rewritten : List Str) : List Str :=
  sortedSet ((streamByService.map (·.1)).filter fun service => !rewritten.contains service)

def joinNames (names : List Str) : String := text (", ".toList.intercalate names)

/-- Tag images and stream labels of one document. -/
def renderComposeTagStreamUpdates (yaml : YamlLibrary) (resolve : Str → Str) (path : ComposePath) (source : Str)
    (updates : List TagUpdate) (tagStreamUpdates : List TagStreamUpdate) (stackName : Str) :
    Rewrite (Str × List AppliedTagUpdate) := do
  let document ← loadComposeYaml yaml source
  let streamByService ← tagStreamUpdatesByService resolve path stackName tagStreamUpdates
  let state ← updates.foldlM (rewriteTagStreamUpdate streamByService) { document }
  let missing := missingStreams streamByService state.rewrittenStreams
  if missing ≠ [] then
    refuse ("Tag stream update did not match selected service(s): " ++ joinNames missing)
  let applied := updates.map fun update => { update with replacements := update.services.length }
  if applied.any fun item => item.replacements < 1 then
    refuse "Compose tag stream rewrite produced no output."
  let ordered := state.rewrites.insertionSort fun a b => b.sortKey ≤ a.sortKey
  return (ordered.foldl replaceSpan source,applied)

/-- What retagging has done to the services so far, and what it reports of the current update. -/
structure RetagRewrites where
  document : ComposeDocument
  seenSpans : List Span := []
  rewrittenStreams : List Str := []
  labelRewrites : List DigestPinLabelRewrite := []
  addedTransforms : List (Str × Str) := []

/-- The approvals, stream updates and transforms a retag is rendered with. -/
structure RetagSettings where
  labelRewriteApprovals : List DigestPinLabelRewriteApproval := []
  streamByService : List (Str × TagStreamUpdate) := []
  stackName : Str := []
  configTransforms : Option (List (Str × Str)) := none

/-- One service of a digest pin or a retag. -/
def retagService (settings : RetagSettings) (update : DigestPinUpdate) (state : RetagRewrites) (service : Str) :
    Rewrite RetagRewrites := do
  let config ← rewriteServiceConfig state.document service true
  let currentImage := config.imageValue
  let expectedImage ← digestPinExpectedImage service currentImage update
  let (_,seenSpans) ← uniqueImageRewrite state.document service expectedImage state.seenSpans update.oldImage
  let config ← prepareServiceLabels state.document service config
  let label ← getServiceLabelValue config update.labelKey service
  let (nextLabelValue,labelRewrite,streamRewritten) ← retagLabelRewrite settings.stackName service
    currentImage.shown (composeUnescapeDollars label) update (settings.streamByService.lookup service)
    settings.labelRewriteApprovals
  let config ← setServiceLabelValue config update.labelKey nextLabelValue service
  let (config,added) ← managedTransformAddition config service update.watchTag nextLabelValue
    settings.configTransforms
  let config ← updateServiceResolvedTagMarker (config.setImage update.finalImage) service update.marker
  return {
    document := state.document.setConfig service config
    seenSpans
    rewrittenStreams := state.rewrittenStreams ++ if streamRewritten then [service] else []
    labelRewrites := state.labelRewrites ++ labelRewrite.toList
    addedTransforms := state.addedTransforms ++ added }

def retagUpdate (settings : RetagSettings) (state : RetagRewrites × List AppliedDigestPinUpdate)
    (update : DigestPinUpdate) : Rewrite (RetagRewrites × List AppliedDigestPinUpdate) := do
  requireUpdateServices update.oldImage update.services
  let next ← update.services.foldlM (retagService settings update)
    { state.1 with labelRewrites := [], addedTransforms := [] }
  return (next,state.2 ++ [{ update with
    replacements := update.services.length
    labelRewrites := next.labelRewrites
    addedTransforms := next.addedTransforms }])

/-- Images, labels and markers of digest pins and retags; the text is empty if some update replaces none. -/
def renderRetagUpdates (yaml : YamlLibrary) (resolve : Str → Str) (path : ComposePath) (source : Str)
    (updates : List DigestPinUpdate) (labelRewriteApprovals : List DigestPinLabelRewriteApproval)
    (tagStreamUpdates : List TagStreamUpdate) (stackName : Str)
    (configTransforms : Option (List (Str × Str))) : Rewrite (Str × List AppliedDigestPinUpdate) := do
  if updates = [] then return (source,[])
  let document ← loadComposeYaml yaml source
  let streamByService ← tagStreamUpdatesByService resolve path stackName tagStreamUpdates
  let settings := { labelRewriteApprovals, streamByService, stackName, configTransforms : RetagSettings }
  let (state,applied) ← updates.foldlM (retagUpdate settings) ({ document },[])
  let missing := missingStreams streamByService state.rewrittenStreams
  if missing ≠ [] then
    refuse ("Tag stream update did not match digest-pin service(s): " ++ joinNames missing)
  if applied.any fun item => item.replacements < 1 then return ([],[])
  return (yaml.dump state.document,applied)

def renderComposeDigestPins (yaml : YamlLibrary) (resolve : Str → Str) (path : ComposePath) (source : Str)
    (updates : List DigestPinUpdate) (labelRewriteApprovals : List DigestPinLabelRewriteApproval)
    (tagStreamUpdates : List TagStreamUpdate) (stackName : Str) : Rewrite (Str × List AppliedDigestPinUpdate) :=
  renderRetagUpdates yaml resolve path source updates labelRewriteApprovals tagStreamUpdates stackName none

def renderComposeRetagUpdates (yaml : YamlLibrary) (resolve : Str → Str) (path : ComposePath) (source : Str)
    (updates : List DigestPinUpdate) (stackName : Str) (configTransforms : Option (List (Str × Str))) :
    Rewrite (Str × List AppliedDigestPinUpdate) :=
  renderRetagUpdates yaml resolve path source updates [] [] stackName configTransforms

/-- The label of an unpinned image is empty or exact for its tag. -/
def validateDigestUnpinInclude (stackName service currentLabelValue : Str) (update : DigestUnpinUpdate) :
    Rewrite Unit :=
  let currentRegex := composeUnescapeDollars currentLabelValue
  let expectedRegex := exactTagRegex update.watchTag
  let label := if stackName = [] then [] else stackName ++ [' ']
  if currentLabelValue = [] then .ok ()
  else if currentRegex = expectedRegex then .ok ()
  else if tagValueValid currentRegex && currentRegex = update.watchTag then .ok ()
  else refuse (s!"{text label}Service {text service} {text update.labelKey} is \"{text currentRegex}\", " ++
    s!"expected \"{text expectedRegex}\" for digest unpin.")

structure UnpinRewrites where
  document : ComposeDocument
  seenSpans : List Span := []
  addedTransforms : List (Str × Str) := []

/-- One service of a digest unpin. -/
def unpinService (stackName : Str) (configTransforms : Option (List (Str × Str))) (update : DigestUnpinUpdate)
    (state : UnpinRewrites) (service : Str) : Rewrite UnpinRewrites := do
  let config ← rewriteServiceConfig state.document service true
  validateServiceImage service config.imageValue update.oldImage
  let (_,seenSpans) ← uniqueImageRewrite state.document service update.oldImage state.seenSpans update.oldImage
  validateServiceResolvedTagMarker config service update.watchTag stackName
  let config ← prepareServiceLabels state.document service config
  let label ← getServiceLabelValue config update.labelKey service
  validateDigestUnpinInclude stackName service label update
  let config ← setServiceLabelValue config update.labelKey update.labelValue service
  let (config,added) ← managedTransformAddition config service update.watchTag update.labelValue configTransforms
  let config ← clearServiceResolvedTagMarkers config service
  return {
    document := state.document.setConfig service (config.setImage update.tagImage)
    seenSpans
    addedTransforms := state.addedTransforms ++ added }

def unpinUpdate (stackName : Str) (configTransforms : Option (List (Str × Str)))
    (state : UnpinRewrites × List AppliedDigestUnpinUpdate) (update : DigestUnpinUpdate) :
    Rewrite (UnpinRewrites × List AppliedDigestUnpinUpdate) := do
  requireUpdateServices update.oldImage update.services
  let next ← update.services.foldlM (unpinService stackName configTransforms update)
    { state.1 with addedTransforms := [] }
  return (next,state.2 ++ [{ update with
    replacements := update.services.length, addedTransforms := next.addedTransforms }])

def renderComposeDigestUnpins (yaml : YamlLibrary) (source : Str) (updates : List DigestUnpinUpdate)
    (stackName : Str) (configTransforms : Option (List (Str × Str))) :
    Rewrite (Str × List AppliedDigestUnpinUpdate) := do
  if updates = [] then return (source,[])
  let document ← loadComposeYaml yaml source
  let (state,applied) ← updates.foldlM (unpinUpdate stackName configTransforms) ({ document },[])
  if applied.any fun item => item.replacements < 1 then return ([],[])
  return (yaml.dump state.document,applied)

end Wudup
