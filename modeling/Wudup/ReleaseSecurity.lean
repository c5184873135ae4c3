import Wudup.Matching
import Wudup.VersionRanges
import Wudup.WudObservations

/-! Security advisories of a release: how they are found, fetched and matched with the versions that run. -/
namespace Wudup.Advisory
open Library

/-- What is taken from outside: letter case, what a decoded value other than text is written as, and URLs split
into parts or refused with a reason. -/
structure AdvisoryRules where
  case : CaseRules
  upper : Str → Str
  written : Json → Str
  urlsplit : Str → Except Str UrlParts

structure ReleaseNoteContext where
  provider : Str
  imageRepo : Str
  upstreamRepo : Str
  currentTag : Str
  targetTag : Str
  deriving DecidableEq, Repr

structure ReleaseNoteLink where
  label : Str
  url : Str
  kind : Str
  deriving DecidableEq, Repr

structure ReleaseNoteInfo where
  releaseTag : Str := []
  title : Str := []
  links : List ReleaseNoteLink := []
  body : Str := []
  classification : LsioUpdateClassification := {}
  deriving DecidableEq, Repr

inductive ReleaseSecurityOutcome where
  | verifiedCriticalHigh
  | needsReview
  | ordinary
  deriving DecidableEq, Repr

inductive ReleaseSecuritySeverity where
  | critical
  | high
  | moderate
  | low
  | unknown
  | none
  deriving DecidableEq, Repr

namespace ReleaseSecuritySeverity

def title : ReleaseSecuritySeverity → Str
  | critical => "Critical".toList
  | high => "High".toList
  | moderate => "Moderate".toList
  | low => "Low".toList
  | unknown => "Unknown".toList
  | none => "None".toList

def order : ReleaseSecuritySeverity → ℕ
  | none => 0
  | unknown => 1
  | low => 2
  | moderate => 3
  | high => 4
  | critical => 5

end ReleaseSecuritySeverity

structure ReleaseSecurityAssessment where
  outcome : ReleaseSecurityOutcome := .ordinary
  severity : ReleaseSecuritySeverity := .none
  reasonCode : Str := "no_security_signal".toList
  reason : Str := "No security urgency signal was found in the release notes.".toList
  advisoryIds : List Str := []
  lookupTruncated : Bool := false
  deriving DecidableEq, Repr

/-! Signals in the text of a release. -/

def wordChar (c : Char) : Bool := c.isAlphanum || c = '_'

def startsWord (text : Str) : Bool := text.head?.any wordChar

/-- What follows a pattern, in any letter case. -/
def afterPattern (pattern text : Str) : Option Str :=
  if (text.take pattern.length).map Char.toLower = pattern then some (text.drop pattern.length) else none

/-- The pattern stands here as a word; the word starts here. -/
def wordHere (pattern text : Str) : Bool := (afterPattern pattern text).any fun rest => !startsWord rest

def updateAsapHere (text : Str) : Bool :=
  (afterPattern "update".toList text).any fun rest =>
    rest.head?.any asciiWhitespace.contains && wordHere "asap".toList (rest.dropWhile asciiWhitespace.contains)

def ghsaId (text : Str) : Bool :=
  match text.splitOn '-' with
  | [name,first,second,third] =>
    name.map Char.toLower = "ghsa".toList &&
      [first,second,third].all fun part => part.length = 4 && part.all Char.isAlphanum
  | _ => false

def cveId (text : Str) : Bool :=
  match text.splitOn '-' with
  | [name,year,number] =>
    name.map Char.toLower = "cve".toList && year.length = 4 && year.all Char.isDigit && 4 ≤ number.length &&
      number.all Char.isDigit
  | _ => false

/-- The identifier of an advisory that the text starts with. -/
def advisoryIdHere (text : Str) : Option Str :=
  let ghsa := text.take 19
  let cve := text.take (9 + ((text.drop 9).takeWhile Char.isDigit).length)
  if ghsaId ghsa && !startsWord (text.drop ghsa.length) then some ghsa
  else if cveId cve && !startsWord (text.drop cve.length) then some cve
  else none

/-- A name in a URL, up to the slash after it. -/
def afterSegment (text : Str) : Option Str :=
  let rest := text.dropWhile fun c => !asciiWhitespace.contains c && c ≠ '/'
  if rest.length < text.length then afterPattern ['/'] rest else none

def advisoryUrlHere (text : Str) : Bool :=
  (afterPattern "github.com/".toList text).any fun rest =>
    (afterPattern "advisories/".toList rest).isSome ||
      (((afterSegment rest).bind afterSegment).bind (afterPattern "security/advisories/".toList)).isSome

/-- A signal from some place of the text on; the first argument says whether a word goes on there. -/
def securitySignal : Bool → Str → Bool
  | _,[] => false
  | inWord,c :: rest =>
    (!inWord && (updateAsapHere (c :: rest) || wordHere "critical".toList (c :: rest) ||
      wordHere "security".toList (c :: rest) || (advisoryIdHere (c :: rest)).isSome)) ||
    advisoryUrlHere (c :: rest) || securitySignal (wordChar c) rest

/-- The identifiers in a text, one after the other; the second argument counts what of one is still to be passed. -/
def findAdvisoryIds : Bool → ℕ → Str → List Str
  | _,_,[] => []
  | _,passing+1,c :: rest => findAdvisoryIds (wordChar c) passing rest
  | inWord,0,c :: rest =>
    match (if inWord then none else advisoryIdHere (c :: rest)) with
    | some id => id :: findAdvisoryIds (wordChar c) (id.length - 1) rest
    | none => findAdvisoryIds (wordChar c) 0 rest

/-! Repositories in URLs. -/

def githubHost : Str := "github.com".toList

def githubRepoChar (c : Char) : Bool := c.isAlphanum || c = '_' || c = '.' || c = '-'

def githubRepoValid (value : Str) : Bool :=
  match value.splitOn '/' with
  | [owner,name] => owner ≠ [] && owner.all githubRepoChar && name ≠ [] && name.all githubRepoChar
  | _ => false

def removeSuffix (text value : Str) : Str :=
  if text.isSuffixOf value then value.take (value.length - text.length) else value

variable (rules : AdvisoryRules)

/-- The path of a repository that a source names, for sources at GitHub. -/
def githubSourcePath (value : Str) : Except Str (Option Str) :=
  let sshPrefix := "git@github.com:".toList
  if sshPrefix.isPrefixOf value then .ok (some (removePrefix sshPrefix value))
  else do
    let parsed ← rules.urlsplit (if (cutText "://".toList value).isSome then value else '/' :: '/' :: value)
    if rules.case.lower parsed.netloc ≠ githubHost then return none
    else return some (parsed.path.dropWhile (· = '/'))

def githubSourceRepo (source : Str) : Except Str Str :=
  let value := strip source
  if value = [] || (cutText githubHost (rules.case.lower value)).isNone then .ok []
  else do
    match ← githubSourcePath rules value with
    | none => return []
    | some path =>
      match ((stripChars ['/'] (removeSuffix ".git".toList path)).splitOn '/').filter (· ≠ []) with
      | owner :: name :: _ =>
        let repo := owner ++ '/' :: removeSuffix ".git".toList name
        return if githubRepoValid repo then repo else []
      | _ => return []

def githubRepoFromAdvisoryUrl (value : Str) : Except Str Str :=
  let apiPrefix := "https://api.github.com/repos/".toList
  if apiPrefix.isPrefixOf value then
    let candidate := ['/'].intercalate (((removePrefix apiPrefix value).splitOn '/').take 2)
    .ok (if githubRepoValid candidate then candidate else [])
  else githubSourceRepo rules value

/-! Advisories. -/

structure FetchedAdvisory where
  payload : Details
  repositoryMatched : Bool := false

/-- The text of a field, empty for a value that does not stand for itself. -/
def fieldText (payload : Details) (name : String) : Str :=
  match payload.lookup name.toList with
  | some (.string text) => text
  | some value => if Json.truthy (some value) then rules.written value else []
  | none => []

def advisoryPublished (payload : Details) : Bool :=
  if Json.truthy (payload.lookup "withdrawn_at".toList) then false
  else
    let state := rules.case.lower (fieldText rules payload "state")
    state = "published".toList || (state = [] && Json.truthy (payload.lookup "published_at".toList))

def advisorySeverity (payload : Details) : ReleaseSecuritySeverity :=
  let value := rules.case.lower (fieldText rules payload "severity")
  if value = "critical".toList then .critical
  else if value = "high".toList then .high
  else if value = "medium".toList || value = "moderate".toList then .moderate
  else if value = "low".toList then .low
  else .unknown

def highestAdvisorySeverity (advisories : List FetchedAdvisory) : ReleaseSecuritySeverity :=
  match advisories.map fun advisory => advisorySeverity rules advisory.payload with
  | [] => .unknown
  | severity :: severities =>
    severities.foldl (fun highest other => if highest.order < other.order then other else highest) severity

def advisoryStableId (payload : Details) : Str :=
  let ghsa := fieldText rules payload "ghsa_id"
  rules.upper (if ghsa ≠ [] then ghsa else fieldText rules payload "cve_id")

/-- The names that a repository or a package of the context can have. -/
def expectedNames (context : ReleaseNoteContext) : List Str :=
  [rules.case.lower context.upstreamRepo,rules.case.lower context.imageRepo]

def advisoryRepositoryMatches (payload : Details) (context : ReleaseNoteContext) : Except Str Bool :=
  ["repository_url","source_code_location","html_url"].anyM fun name => do
    let repo ← githubRepoFromAdvisoryUrl rules (fieldText rules payload name)
    return repo ≠ [] && (expectedNames rules context).contains (rules.case.lower repo)

def advisoryPackageMatches (vulnerability : Details) (context : ReleaseNoteContext) : Bool :=
  match vulnerability.lookup "package".toList with
  | some (.object package) =>
    let name := rules.case.lower (fieldText rules package "name")
    name ≠ [] && (expectedNames rules context).contains name
  | _ => false

def securityVersions (context : ReleaseNoteContext) (info : ReleaseNoteInfo) : Str × Str :=
  if context.provider = "lsio".toList then
    (info.classification.current.upstreamVersion,info.classification.target.upstreamVersion)
  else (context.currentTag,context.targetTag)

def patchedVersionsText (vulnerability : Details) : Str :=
  match vulnerability.lookup "first_patched_version".toList with
  | some (.object patched) => fieldText rules patched "identifier"
  | some (.string patched) => patched
  | _ => fieldText rules vulnerability "patched_versions"

def patchedVersions (vulnerability : Details) : List StrictVersion :=
  let versions := ((patchedVersionsText rules vulnerability).splitOn ',').filterMap fun value =>
    strictVersion (strip (removePrefix ['='] (strip value)))
  (orderedUnique versions).insertionSort (· ≤ ·)

def vulnerabilityVerifiesFix (vulnerability : Details) (current target : StrictVersion) : Bool :=
  let vulnerableRange := fieldText rules vulnerability "vulnerable_version_range"
  if !versionInRange current vulnerableRange then false
  else if versionInRange target vulnerableRange then false
  else
    let patched := patchedVersions rules vulnerability
    patched ≠ [] && patched.any fun version => version ≤ target

def advisoryVerifiesExposure (advisory : FetchedAdvisory) (context : ReleaseNoteContext) (info : ReleaseNoteInfo) :
    Except Str Bool :=
  if !advisoryPublished rules advisory.payload then .ok false
  else if !([.critical,.high].contains (advisorySeverity rules advisory.payload)) then .ok false
  else
    let versions := securityVersions context info
    match strictVersion versions.1,strictVersion versions.2,strictVersion info.releaseTag with
    | some current,some target,some release =>
      if target ≠ release then .ok false
      else do
        let repositoryMatched ←
          if advisory.repositoryMatched then pure true else advisoryRepositoryMatches rules advisory.payload context
        return (Json.elements (advisory.payload.lookup "vulnerabilities".toList)).any fun value =>
          value.object?.any fun vulnerability =>
            (repositoryMatched || advisoryPackageMatches rules vulnerability context) &&
              vulnerabilityVerifiesFix rules vulnerability current target
    | _,_,_ => .ok false

/-! The client, and what it fetches. -/

inductive GitHubError where
  | authentication
  | other
  deriving DecidableEq, Repr

structure GitHubClient where
  getJson : Str → Except GitHubError Json

def securityAdvisoryFetchMax : ℕ := 4
def securityAdvisoryIdMax : ℕ := 8
def securitySignalScanMaxChars : ℕ := 100000

def repositoryAdvisoryUrl (repo advisoryId : Str) : Str :=
  "https://api.github.com/repos/".toList ++ repo ++ "/security-advisories/".toList ++ rules.upper advisoryId

def globalAdvisoryUrl (advisoryId : Str) : Str :=
  "https://api.github.com/advisories/".toList ++ rules.upper advisoryId

def cveAdvisoriesUrl (cve : Str) : Str :=
  "https://api.github.com/advisories?cve_id=".toList ++ rules.upper cve ++ "&per_page=".toList ++
    Nat.toDigits 10 securityAdvisoryFetchMax

variable (client : GitHubClient) (context : ReleaseNoteContext)

def repositoryAdvisory (advisoryId : Str) : Except GitHubError Json :=
  if !githubRepoValid context.upstreamRepo || !ghsaId advisoryId then .error .other
  else client.getJson (repositoryAdvisoryUrl rules context.upstreamRepo advisoryId)

def globalAdvisory (advisoryId : Str) : Except GitHubError Json :=
  if !ghsaId advisoryId then .error .other else client.getJson (globalAdvisoryUrl rules advisoryId)

def globalAdvisoriesForCve (cve : Str) : Except GitHubError Json :=
  if !cveId cve then .error .other else client.getJson (cveAdvisoriesUrl rules cve)

def notFoundMessage : Str := "Not Found".toList

def objectOrNone (value : Json) : Option Details :=
  value.object?.filter fun fields => fieldText rules fields "message" ≠ notFoundMessage

/-- The advisory that an answer is; an answer with another message is a failure. -/
def advisoryObject (value : Json) : Except GitHubError (Option Details) :=
  match objectOrNone rules value with
  | none => .ok none
  | some advisory =>
    if fieldText rules advisory "ghsa_id" = [] then
      if fieldText rules advisory "message" ≠ [] then .error .other else .ok none
    else .ok (some advisory)

/-- The advisories of an identifier, and whether there may be more of them. -/
def fetchSecurityAdvisory (advisoryId : Str) : Except GitHubError (List FetchedAdvisory × Bool) :=
  if ghsaId advisoryId then do
    let repositoryValue ← repositoryAdvisory rules client context advisoryId
    match ← advisoryObject rules repositoryValue with
    | some advisory => return ([⟨advisory,true⟩],false)
    | none =>
      let globalValue ← globalAdvisory rules client advisoryId
      match ← advisoryObject rules globalValue with
      | some advisory => return ([⟨advisory,false⟩],false)
      | none => return ([],false)
  else do
    let values ← globalAdvisoriesForCve rules client advisoryId
    let message := (values.object?.map fun fields => fieldText rules fields "message").getD []
    if message ≠ [] then
      if message = notFoundMessage then return ([],false) else throw .other
    else
      let found := ((Json.elements (some values)).filterMap Json.object?).filter fun item =>
        rules.upper (fieldText rules item "cve_id") = rules.upper advisoryId
      return ((found.map fun item => ⟨item,false⟩).take securityAdvisoryFetchMax,
        securityAdvisoryFetchMax ≤ found.length)

structure FetchState where
  advisories : List FetchedAdvisory := []
  failed : Bool := false
  tokenRejected : Bool := false
  seen : List Str := []

/-- Advisories join those that were fetched before, until there are enough of them. -/
def addAdvisories (state : FetchState) : List FetchedAdvisory → FetchState × Bool
  | [] => (state,false)
  | advisory :: rest =>
    let key := advisoryStableId rules advisory.payload
    if key = [] || state.seen.contains key then addAdvisories state rest
    else
      let next := { state with advisories := state.advisories ++ [advisory], seen := state.seen ++ [key] }
      if securityAdvisoryFetchMax ≤ next.advisories.length then (next,true) else addAdvisories next rest

/-- What is fetched for identifiers, and whether more was left out. -/
def fetchSecurityAdvisories (state : FetchState) : List Str → FetchState × Bool
  | [] => (state,false)
  | advisoryId :: ids =>
    match fetchSecurityAdvisory rules client context advisoryId with
    | .error error =>
      fetchSecurityAdvisories
        { state with failed := true, tokenRejected := state.tokenRejected || error = .authentication } ids
    | .ok (fetched,itemTruncated) =>
      let (next,full) := addAdvisories rules state fetched
      if full then (next,itemTruncated || ids ≠ [])
      else if itemTruncated then (next,true)
      else fetchSecurityAdvisories next ids

/-! The verdict. -/

def githubTokenRejectedMessage : Str :=
  ("GitHub rejected the configured GITHUB_TOKEN (expired, revoked, or mistyped). " ++
    "Create a new token or remove GITHUB_TOKEN to use anonymous access, " ++
    "then restart WUDup. Cached release-note errors are retried after 15 minutes.").toList

def advisoryIdsOf (existing : List Str) (advisories : List FetchedAdvisory) : List Str :=
  let fetched := advisories.flatMap fun advisory =>
    (["ghsa_id","cve_id"].map fun name => rules.upper (fieldText rules advisory.payload name)).filter (· ≠ [])
  (sortedSet ((existing.filter (· ≠ [])).map rules.upper ++ fetched)).take securityAdvisoryIdMax

def advisoryUrl (advisoryId : Str) : Str := "https://github.com/advisories/".toList ++ advisoryId

def advisoryLink (label url : Str) : ReleaseNoteLink := ⟨label,url,"security_advisory".toList⟩

def advisoryLinks (advisories : List FetchedAdvisory) (advisoryIds : List Str) : List ReleaseNoteLink :=
  let fetchedIds := (advisories.map fun advisory => fieldText rules advisory.payload "ghsa_id").filter (· ≠ [])
  let ghsaIds := sortedSet (fetchedIds.map rules.upper ++ advisoryIds.filter ghsaId)
  let linkedCves := sortedSet (advisoryIds.filter fun value => cveId value && !advisories.any fun advisory =>
    rules.upper (fieldText rules advisory.payload "cve_id") = value && fieldText rules advisory.payload "ghsa_id" ≠ [])
  ghsaIds.map (fun id => advisoryLink id (advisoryUrl id)) ++
    linkedCves.map fun id => advisoryLink id ("https://github.com/advisories?query=".toList ++ id)

/-- The reason for a review of advisories that verify nothing. -/
def unverifiedSecurityReason (advisories : List FetchedAdvisory) (advisoryIds : List Str)
    (severity : ReleaseSecuritySeverity) : Str × Str :=
  if advisories.isEmpty then
    if advisoryIds ≠ [] then
      ("advisory_unresolved".toList,
        ("Security language or advisory identifiers were found, but no " ++
          "structured advisory could be resolved.").toList)
    else
      ("security_signal_only".toList,
        ("Security language was found, but no advisory identifier was " ++
          "available for structured exposure verification.").toList)
  else if severity.order ≤ ReleaseSecuritySeverity.moderate.order then
    ("severity_below_high".toList,
      "A ".toList ++ severity.title ++
        " advisory was found, but Critical/High exposure was not verified.".toList)
  else
    ("exposure_unverified".toList,
      severity.title ++ (" advisory found; the running and target versions " ++
        "could not be matched to structured affected-version evidence.").toList)

variable (info : ReleaseNoteInfo)

/-- The text of a release that is read for signals. -/
def signalText : Str := ['\n'].intercalate (info.title :: info.body :: info.links.map (·.url))

def scannedText : Str := (signalText info).take securitySignalScanMaxChars

def extractedIds : List Str := sortedSet ((findAdvisoryIds false 0 (scannedText info)).map rules.upper)

/-- What is fetched for the identifiers in the text of a release. -/
def releaseAdvisories : FetchState × Bool :=
  fetchSecurityAdvisories rules client context {}
    (((extractedIds rules info).take securityAdvisoryIdMax).take securityAdvisoryFetchMax)

def assessReleaseSecurity : Except Str (ReleaseSecurityAssessment × List ReleaseNoteLink) :=
  if !securitySignal false (scannedText info) then .ok ({},[])
  else do
    let extracted := extractedIds rules info
    let capped := securitySignalScanMaxChars < (signalText info).length ||
      securityAdvisoryIdMax < extracted.length || securityAdvisoryFetchMax < extracted.length
    let (state,fetchTruncated) := releaseAdvisories rules client context info
    let lookupTruncated := capped || fetchTruncated
    let tokenNote := if state.tokenRejected then ' ' :: githubTokenRejectedMessage else []
    let advisoryIds := advisoryIdsOf rules (extracted.take securityAdvisoryIdMax) state.advisories
    let links := advisoryLinks rules state.advisories advisoryIds
    let severity := highestAdvisorySeverity rules state.advisories
    let verified ← state.advisories.filterM fun advisory => advisoryVerifiesExposure rules advisory context info
    if !verified.isEmpty then
      let verifiedSeverity := highestAdvisorySeverity rules verified
      let (currentVersion,targetVersion) := securityVersions context info
      let identifier := (advisoryIdsOf rules [] verified).head?.getD "a GitHub advisory".toList
      let incomplete :=
        if state.failed || lookupTruncated then " Additional advisory lookup was incomplete.".toList else []
      return ({
        outcome := .verifiedCriticalHigh
        severity := verifiedSeverity
        reasonCode := "verified_exposure".toList
        reason := "Verified ".toList ++ verifiedSeverity.title ++ " advisory ".toList ++ identifier ++
          " affects ".toList ++ currentVersion ++ " and is patched by ".toList ++ targetVersion ++ ['.'] ++
          incomplete ++ tokenNote
        advisoryIds := advisoryIds
        lookupTruncated := lookupTruncated },links)
    else if lookupTruncated then
      return ({
        outcome := .needsReview
        severity := severity
        reasonCode := "advisory_lookup_truncated".toList
        reason := ("Security signals were found, but advisory lookup was capped; " ++
          "review the linked advisories.").toList ++ tokenNote
        advisoryIds := advisoryIds
        lookupTruncated := true },links)
    else if state.failed then
      return ({
        outcome := .needsReview
        severity := severity
        reasonCode := "advisory_lookup_failed".toList
        reason := ("Security signals were found, but GitHub advisory evidence " ++
          "could not be checked.").toList ++ tokenNote
        advisoryIds := advisoryIds },links)
    else
      let (reasonCode,reason) := unverifiedSecurityReason state.advisories advisoryIds severity
      return ({
        outcome := .needsReview
        severity := severity
        reasonCode := reasonCode
        reason := reason
        advisoryIds := advisoryIds },links)

/-! What is fetched, and what a verdict rests on. -/

/-- An advisory that the client served: at the repository, by its identifier, or among those of a CVE. -/
def Served (advisory : FetchedAdvisory) : Prop :=
  (∃ id, client.getJson (repositoryAdvisoryUrl rules context.upstreamRepo id) = .ok (.object advisory.payload)) ∨
  advisory.repositoryMatched = false ∧
    ((∃ id, client.getJson (globalAdvisoryUrl rules id) = .ok (.object advisory.payload)) ∨
      ∃ cve values, client.getJson (cveAdvisoriesUrl rules cve) = .ok (.array values) ∧
        Json.object advisory.payload ∈ values)

variable {rules client context info}

theorem object_of_advisory {value : Json} {advisory : Details} (h : advisoryObject rules value = .ok (some advisory)) :
    value = .object advisory := by
  unfold advisoryObject at h
  split at h
  · cases h
  · rename_i found hfound
    have hobject := (Option.filter_eq_some_iff.mp hfound).1
    cases value with
    | object fields =>
      obtain rfl := Option.some.inj hobject
      split at h
      · split at h <;> cases h
      · cases h
        rfl
    | null | bool | number | float | string | array => cases hobject

theorem getJson_of_repository {id : Str} {value : Json} (h : repositoryAdvisory rules client context id = .ok value) :
    client.getJson (repositoryAdvisoryUrl rules context.upstreamRepo id) = .ok value := by
  unfold repositoryAdvisory at h
  split at h
  · cases h
  · exact h

theorem getJson_of_global {id : Str} {value : Json} (h : globalAdvisory rules client id = .ok value) :
    client.getJson (globalAdvisoryUrl rules id) = .ok value := by
  unfold globalAdvisory at h
  split at h
  · cases h
  · exact h

theorem getJson_of_cve {cve : Str} {value : Json} (h : globalAdvisoriesForCve rules client cve = .ok value) :
    client.getJson (cveAdvisoriesUrl rules cve) = .ok value := by
  unfold globalAdvisoriesForCve at h
  split at h
  · cases h
  · exact h

/-- Only what the client served is fetched. -/
theorem served_of_fetch {advisoryId : Str} {fetched : List FetchedAdvisory} {more : Bool}
    (h : fetchSecurityAdvisory rules client context advisoryId = .ok (fetched,more)) :
    ∀ advisory ∈ fetched, Served rules client context advisory := by
  unfold fetchSecurityAdvisory at h
  split at h
  · obtain ⟨value,hvalue,h⟩ := bind_eq_ok.mp h
    obtain ⟨found,hfound,h⟩ := bind_eq_ok.mp h
    cases found with
    | some advisory =>
      cases h
      intro advisory hmem
      obtain rfl := List.mem_singleton.mp hmem
      rw [object_of_advisory hfound] at hvalue
      exact .inl ⟨advisoryId,getJson_of_repository hvalue⟩
    | none =>
      obtain ⟨value,hvalue,h⟩ := bind_eq_ok.mp h
      obtain ⟨found,hfound,h⟩ := bind_eq_ok.mp h
      cases found with
      | some advisory =>
        cases h
        intro advisory hmem
        obtain rfl := List.mem_singleton.mp hmem
        rw [object_of_advisory hfound] at hvalue
        exact .inr ⟨rfl,.inl ⟨advisoryId,getJson_of_global hvalue⟩⟩
      | none =>
        cases h
        simp
  · obtain ⟨values,hvalues,h⟩ := bind_eq_ok.mp h
    dsimp only at h
    split at h
    · split at h
      · cases h
        simp
      · cases h
    · cases h
      intro advisory hmem
      obtain ⟨item,hitem,rfl⟩ := List.mem_map.mp (List.mem_of_mem_take hmem)
      obtain ⟨value,hvalue,hobject⟩ := List.mem_filterMap.mp (List.mem_filter.mp hitem).1
      cases values with
      | array elements =>
        cases value with
        | object fields =>
          obtain rfl := Option.some.inj hobject
          exact .inr ⟨rfl,.inr ⟨advisoryId,elements,getJson_of_cve hvalues,hvalue⟩⟩
        | null | bool | number | float | string | array => cases hobject
      | null | bool | number | float | string | object => cases hvalue

theorem mem_addAdvisories {state : FetchState} {fetched : List FetchedAdvisory} {advisory : FetchedAdvisory}
    (h : advisory ∈ (addAdvisories rules state fetched).1.advisories) :
    advisory ∈ state.advisories ∨ advisory ∈ fetched := by
  induction fetched generalizing state with
  | nil => exact .inl h
  | cons first rest ih =>
    rw [addAdvisories] at h
    dsimp only at h
    split at h
    · exact (ih h).imp_right (List.mem_cons_of_mem first)
    · have hnext : ∀ {found : FetchedAdvisory}, found ∈ state.advisories ++ [first] →
          found ∈ state.advisories ∨ found ∈ first :: rest := by
        intro found hfound
        obtain hfound | hfound := List.mem_append.mp hfound
        · exact .inl hfound
        · exact .inr (by simp [List.mem_singleton.mp hfound])
      split at h
      · exact hnext h
      · obtain h | h := ih h
        · exact hnext h
        · exact .inr (List.mem_cons_of_mem first h)

/-- Whatever the identifiers, all advisories were served. -/
theorem served_of_fetchAll {state : FetchState} {ids : List Str}
    (hs : ∀ advisory ∈ state.advisories, Served rules client context advisory) :
    ∀ advisory ∈ (fetchSecurityAdvisories rules client context state ids).1.advisories,
      Served rules client context advisory := by
  induction ids generalizing state with
  | nil => exact hs
  | cons id ids ih =>
    rw [fetchSecurityAdvisories]
    cases hfetch : fetchSecurityAdvisory rules client context id with
    | error error => exact ih hs
    | ok result =>
      obtain ⟨fetched,more⟩ := result
      have hadded : ∀ advisory ∈ (addAdvisories rules state fetched).1.advisories,
          Served rules client context advisory := by
        intro advisory hmem
        obtain hmem | hmem := mem_addAdvisories hmem
        · exact hs advisory hmem
        · exact served_of_fetch hfetch advisory hmem
      dsimp only
      split
      · exact hadded
      · split
        · exact hadded
        · exact ih hadded

section
variable (rules context info)

/-- A URL of the advisory names a repository that is expected. -/
def NamesRepository (payload : Details) : Prop :=
  ∃ name ∈ ["repository_url","source_code_location","html_url"], ∃ repo,
    githubRepoFromAdvisoryUrl rules (fieldText rules payload name) = .ok repo ∧ repo ≠ [] ∧
      rules.case.lower repo ∈ expectedNames rules context

def NamesPackage (vulnerability : Details) : Prop :=
  ∃ package, vulnerability.lookup "package".toList = some (.object package) ∧
    rules.case.lower (fieldText rules package "name") ≠ [] ∧
    rules.case.lower (fieldText rules package "name") ∈ expectedNames rules context

/-- The current version is affected, and the target is not and is one of the patched versions at least. -/
def VerifiesFix (vulnerability : Details) (current target : StrictVersion) : Prop :=
  InRange current (rangeTerms (fieldText rules vulnerability "vulnerable_version_range")) ∧
  ¬ InRange target (rangeTerms (fieldText rules vulnerability "vulnerable_version_range")) ∧
  ∃ part ∈ (patchedVersionsText rules vulnerability).splitOn ',', ∃ patched,
    ExactTerm (strip part) patched ∧ patched ≤ target

/-- What an urgent verdict claims of an advisory. -/
structure VerifiedExposure (advisory : FetchedAdvisory) : Prop where
  kept : Json.truthy (advisory.payload.lookup "withdrawn_at".toList) = false
  published : rules.case.lower (fieldText rules advisory.payload "state") = "published".toList ∨
    rules.case.lower (fieldText rules advisory.payload "state") = [] ∧
      Json.truthy (advisory.payload.lookup "published_at".toList) = true
  severe : rules.case.lower (fieldText rules advisory.payload "severity") = "critical".toList ∨
    rules.case.lower (fieldText rules advisory.payload "severity") = "high".toList
  exposed : ∃ current target vulnerability, SpellsVersion (strip (securityVersions context info).1) current ∧
    SpellsVersion (strip (securityVersions context info).2) target ∧ SpellsVersion (strip info.releaseTag) target ∧
    Json.object vulnerability ∈ Json.elements (advisory.payload.lookup "vulnerabilities".toList) ∧
    (advisory.repositoryMatched = true ∨ NamesRepository rules context advisory.payload ∨
      NamesPackage rules context vulnerability) ∧ VerifiesFix rules vulnerability current target

end

theorem verifiesFix_of {vulnerability : Details} {current target : StrictVersion}
    (h : vulnerabilityVerifiesFix rules vulnerability current target = true) :
    VerifiesFix rules vulnerability current target := by
  rw [vulnerabilityVerifiesFix] at h
  dsimp only at h
  split at h
  · cases h
  · rename_i hcurrent
    rw [Bool.not_eq_true,Bool.not_eq_false'] at hcurrent
    split at h
    · cases h
    · rename_i htarget
      refine ⟨(versionInRange_iff _ _).mp hcurrent,fun h => htarget ((versionInRange_iff _ _).mpr h),?_⟩
      rw [Bool.and_eq_true,List.any_eq_true] at h
      obtain ⟨patched,hpatched,hle⟩ := h.2
      rw [patchedVersions,List.mem_insertionSort,mem_orderedUnique] at hpatched
      obtain ⟨part,hpart,hread⟩ := List.mem_filterMap.mp hpatched
      have hstrip : strip (strip part) = strip part := stripChars_stripChars whitespace part
      exact ⟨part,hpart,patched,(strictVersion_removePrefix_iff hstrip).mp hread,by simpa using hle⟩

theorem severe_of {payload : Details}
    (h : [ReleaseSecuritySeverity.critical,.high].contains (advisorySeverity rules payload) = true) :
    rules.case.lower (fieldText rules payload "severity") = "critical".toList ∨
      rules.case.lower (fieldText rules payload "severity") = "high".toList := by
  unfold advisorySeverity at h
  dsimp only at h
  split at h
  · exact .inl ‹_›
  · split at h
    · exact .inr ‹_›
    · split at h
      · cases h
      · split at h <;> cases h

theorem namesRepository_of {payload : Details} (h : advisoryRepositoryMatches rules payload context = .ok true) :
    NamesRepository rules context payload := by
  obtain ⟨name,hname,hread⟩ := exists_of_anyM h
  obtain ⟨repo,hrepo,hmatch⟩ := bind_eq_ok.mp hread
  have hmatch := Except.ok.inj hmatch
  rw [Bool.and_eq_true,decide_eq_true_eq,List.contains_iff_mem] at hmatch
  exact ⟨name,hname,repo,hrepo,hmatch⟩

theorem namesPackage_of {vulnerability : Details} (h : advisoryPackageMatches rules vulnerability context = true) :
    NamesPackage rules context vulnerability := by
  unfold advisoryPackageMatches at h
  split at h
  · rename_i package hpackage
    rw [Bool.and_eq_true,decide_eq_true_eq,List.contains_iff_mem] at h
    exact ⟨package,hpackage,h⟩
  · cases h

theorem published_of {payload : Details} (h : advisoryPublished rules payload = true) :
    Json.truthy (payload.lookup "withdrawn_at".toList) = false ∧
      (rules.case.lower (fieldText rules payload "state") = "published".toList ∨
        rules.case.lower (fieldText rules payload "state") = [] ∧
          Json.truthy (payload.lookup "published_at".toList) = true) := by
  unfold advisoryPublished at h
  split at h
  · cases h
  · rename_i hkept
    rw [Bool.not_eq_true] at hkept
    rw [Bool.or_eq_true,Bool.and_eq_true,decide_eq_true_eq,decide_eq_true_eq] at h
    exact ⟨hkept,h⟩

theorem verifiedExposure_of {advisory : FetchedAdvisory}
    (h : advisoryVerifiesExposure rules advisory context info = .ok true) :
    VerifiedExposure rules context info advisory := by
  unfold advisoryVerifiesExposure at h
  split at h
  · cases h
  · rename_i hpublished
    rw [Bool.not_eq_true,Bool.not_eq_false'] at hpublished
    split at h
    · cases h
    · rename_i hsevere
      rw [Bool.not_eq_true,Bool.not_eq_false'] at hsevere
      dsimp only at h
      split at h
      · rename_i current target release hcurrent htarget hrelease
        split at h
        · cases h
        · rename_i hsame
          obtain rfl := not_not.mp hsame
          obtain ⟨matched,hbelongs,hany⟩ : ∃ matched, (matched = true → advisory.repositoryMatched = true ∨
              NamesRepository rules context advisory.payload) ∧
              ((Json.elements (advisory.payload.lookup "vulnerabilities".toList)).any fun value =>
                value.object?.any fun vulnerability =>
                  (matched || advisoryPackageMatches rules vulnerability context) &&
                    vulnerabilityVerifiesFix rules vulnerability current target) = true := by
            split at h
            · obtain ⟨matched,-,h⟩ := bind_eq_ok.mp h
              exact ⟨matched,fun _ => .inl ‹_›,Except.ok.inj h⟩
            · obtain ⟨matched,hmatched,h⟩ := bind_eq_ok.mp h
              exact ⟨matched,fun htrue => .inr (namesRepository_of (htrue ▸ hmatched)),Except.ok.inj h⟩
          obtain ⟨value,hvalue,hentry⟩ := List.any_eq_true.mp hany
          obtain ⟨vulnerability,hobject,hboth⟩ := (Option.any_eq_true _ _).mp hentry
          rw [Bool.and_eq_true,Bool.or_eq_true] at hboth
          obtain rfl : value = .object vulnerability := by
            cases value with
            | object fields => exact congrArg Json.object (Option.some.inj hobject)
            | null | bool | number | float | string | array => cases hobject
          have hnamed : advisory.repositoryMatched = true ∨ NamesRepository rules context advisory.payload ∨
              NamesPackage rules context vulnerability := by
            obtain hm | hpackage := hboth.1
            · exact (hbelongs hm).imp_right .inl
            · exact .inr (.inr (namesPackage_of hpackage))
          exact {
            kept := (published_of hpublished).1
            published := (published_of hpublished).2
            severe := severe_of hsevere
            exposed := ⟨current,target,vulnerability,strictVersion_eq_some hcurrent,strictVersion_eq_some htarget,
              strictVersion_eq_some hrelease,hvalue,hnamed,verifiesFix_of hboth.2⟩ }
      · cases h

/-- An urgent verdict rests on an advisory that was kept for it. -/
theorem verified_of_outcome {assessment : ReleaseSecurityAssessment} {links : List ReleaseNoteLink}
    (h : assessReleaseSecurity rules client context info = .ok (assessment,links))
    (ho : assessment.outcome = .verifiedCriticalHigh) :
    ∃ advisory ∈ (releaseAdvisories rules client context info).1.advisories,
      advisoryVerifiesExposure rules advisory context info = .ok true := by
  unfold assessReleaseSecurity at h
  split at h
  · cases h
    cases ho
  · obtain ⟨verified,hverified,h⟩ := bind_eq_ok.mp h
    dsimp only at h
    split at h
    · rename_i hne
      cases verified with
      | nil => cases hne
      | cons advisory rest => exact ⟨advisory,mem_of_filterM hverified (by simp)⟩
    · split at h
      · cases h
        cases ho
      · split at h
        · cases h
          cases ho
        · cases h
          cases ho

/-- No verdict is urgent without an advisory that shows the exposure, and a range is what its terms mean. -/
theorem no_false_urgency (rules : AdvisoryRules) (client : GitHubClient) (context : ReleaseNoteContext)
    (info : ReleaseNoteInfo) :
    (∀ assessment links, assessReleaseSecurity rules client context info = .ok (assessment,links) →
      assessment.outcome = .verifiedCriticalHigh →
      ∃ advisory ∈ (releaseAdvisories rules client context info).1.advisories,
        Served rules client context advisory ∧ VerifiedExposure rules context info advisory) ∧
    ∀ version spec, versionInRange version spec = true ↔ InRange version (rangeTerms spec) := by
  refine ⟨?_,versionInRange_iff⟩
  intro assessment links h ho
  obtain ⟨advisory,hmem,hverifies⟩ := verified_of_outcome h ho
  exact ⟨advisory,hmem,served_of_fetchAll (by simp) advisory hmem,verifiedExposure_of hverifies⟩

namespace Example

def plainRules : AdvisoryRules where
  case := plainCase
  upper := fun text => text.map Char.toUpper
  written := fun _ => []
  urlsplit := fun _ => .error "not a URL".toList

def text (value : String) : Json := .string value.toList

def fixedInNext : Json := .object [("vulnerable_version_range".toList,text ">= 1.0.0, < 1.2.1"),
  ("first_patched_version".toList,.object [("identifier".toList,text "1.2.1")])]

def highAdvisory : Json := .object [("ghsa_id".toList,text "GHSA-aaaa-bbbb-0001"),("state".toList,text "published"),
  ("severity".toList,text "high"),("vulnerabilities".toList,.array [fixedInNext])]

def acmeClient : GitHubClient where
  getJson := fun url =>
    if url = "https://api.github.com/repos/acme/app/security-advisories/GHSA-AAAA-BBBB-0001".toList then
      .ok highAdvisory
    else .error .other

def acmeUpdate : ReleaseNoteContext where
  provider := "github".toList
  imageRepo := "acme/app".toList
  upstreamRepo := "acme/app".toList
  currentTag := "1.2.0".toList
  targetTag := "1.2.1".toList

def acmeRelease : ReleaseNoteInfo where
  releaseTag := "v1.2.1".toList
  body := "Fixes GHSA-aaaa-bbbb-0001.".toList

theorem acme_release_urgent :
    ∃ advisory ∈ (releaseAdvisories plainRules acmeClient acmeUpdate acmeRelease).1.advisories,
    Served plainRules acmeClient acmeUpdate advisory ∧
      VerifiedExposure plainRules acmeUpdate acmeRelease advisory := by
  have houtcome : (assessReleaseSecurity plainRules acmeClient acmeUpdate acmeRelease).toOption.map (·.1.outcome) =
      some .verifiedCriticalHigh := by decide +kernel
  obtain ⟨⟨assessment,links⟩,hresult,ho⟩ := Option.map_eq_some_iff.mp houtcome
  refine (no_false_urgency plainRules acmeClient acmeUpdate acmeRelease).1 assessment links ?_ ho
  cases hassess : assessReleaseSecurity plainRules acmeClient acmeUpdate acmeRelease with
  | error e =>
    rw [hassess] at hresult
    cases hresult
  | ok result =>
    rw [hassess] at hresult
    exact congrArg Except.ok (Option.some.inj hresult)

end Example

end Wudup.Advisory
