import Wudup.SecurityScanner
import Wudup.Library.Recent

/-! The stored results of security scans: how they are written, dropped and found again. -/
namespace Wudup
open Library

/-- What the store reads of a request. -/
structure PendingSecurityRequest where
  lineNo : ℕ
  raw : Str
  candidateImage : Str
  reportedDigest : Str
  platform : Option ImagePlatform
  deriving DecidableEq, Repr

def optionalPlatformValue (platform : Option ImagePlatform) : Str := (platform.map ImagePlatform.value).getD []

def ResolvedImageSubject.platform (subject : ResolvedImageSubject) : Str :=
  if subject.os = [] ∨ subject.architecture = [] then []
  else ImagePlatform.value ⟨subject.os,subject.architecture,subject.variant⟩

def IdentityStatus.text : IdentityStatus → Str
  | exact => "exact".toList
  | mismatch => "mismatch".toList
  | stale => "stale".toList
  | unsupported => "unsupported".toList
  | authRequired => "auth_required".toList
  | error => "error".toList

def nul : Char := Char.ofNat 0

/-- The hashed text: every part with an end. -/
def hashText (parts : List Str) : Str := parts.flatMap (· ++ [nul])

structure SecurityScanSeverityCounts where
  critical : ℤ := 0
  high : ℤ := 0
  medium : ℤ := 0
  low : ℤ := 0
  unknown : ℤ := 0
  deriving DecidableEq, Repr

def severityCountsOf (count : FindingSeverity → ℤ) : SecurityScanSeverityCounts :=
  ⟨count .critical,count .high,count .medium,count .low,count .unknown⟩

/-- A row of the table; the columns with JSON hold its value. -/
structure ScanRow where
  rowid : ℕ
  cacheKey : Str
  requestKey : Str
  subjectId : Str
  canonicalRegistry : Str
  canonicalRepository : Str
  requestedRef : Str
  reportedDigest : Str
  indexDigest : Str
  manifestDigest : Str
  platform : Str
  platformOs : Str
  platformArchitecture : Str
  platformVariant : Str
  platformSource : Str
  identityStatus : Str
  state : SecurityScanState
  verdict : SecurityScanVerdict
  scanner : Str
  scannerVersion : Str
  scannerSchema : Str
  dbRevision : Str
  dbUpdatedAt : Str
  severityCounts : Json
  fixableCounts : Json
  unfixedCount : ℤ
  warnings : Json
  errorCode : Str
  errorMessage : Str
  createdAt : Str
  updatedAt : Str
  findings : Json

/-- A scan as it is shown. -/
structure ShownScan extends SecurityScanInfo where
  lineNo : ℕ
  scannedAt : Str
  severityCounts : SecurityScanSeverityCounts
  advisoryCounts : SecurityScanSeverityCounts
  advisoryCountsKnown : Bool
  fixableCounts : SecurityScanSeverityCounts
  unfixedCount : ℤ
  warnings : List Str
  errorCode : Str
  errorMessage : Str

/-! JSON columns -/

def countsJson (counts : SeverityCounts) : Json :=
  .object (counts.map fun entry => (entry.1.text,.number entry.2))

def findingJson (finding : SecurityScanFinding) : Json := .object [
  ("target".toList,.string finding.target),
  ("target_class".toList,.string finding.targetClass),
  ("target_type".toList,.string finding.targetType),
  ("vulnerability_id".toList,.string finding.vulnerabilityId),
  ("package_name".toList,.string finding.packageName),
  ("installed_version".toList,.string finding.installedVersion),
  ("fixed_version".toList,.string finding.fixedVersion),
  ("severity".toList,.string finding.severity.text),
  ("title".toList,.string finding.title),
  ("primary_url".toList,.string finding.primaryUrl)]

def findingsJson (result : SecurityScanResult) : Json := .array (result.findings.map findingJson)

section
variable (rules : ScanRules)

def safeInt (value : Option Json) : ℤ :=
  match value with
  | some (.number value) => value.floor
  | some other => if Json.truthy (some other) then (rules.integer other).getD 0 else 0
  | none => 0

/-- The counts of a JSON object; anything else has none. -/
def countsFrom (value : Json) : SecurityScanSeverityCounts :=
  let parsed := Json.fields (some value)
  severityCountsOf fun severity => safeInt rules (parsed.lookup severity.text)

def findingFrom (item : Details) : SecurityScanFinding where
  target := scanField rules item "target"
  targetClass := scanField rules item "target_class"
  targetType := scanField rules item "target_type"
  vulnerabilityId := scanField rules item "vulnerability_id"
  packageName := scanField rules item "package_name"
  installedVersion := scanField rules item "installed_version"
  fixedVersion := scanField rules item "fixed_version"
  severity := normalizeSecuritySeverity rules (item.lookup "severity".toList)
  title := scanField rules item "title"
  primaryUrl := scanField rules item "primary_url"

def findingsFrom (value : Json) : List SecurityScanFinding :=
  (Json.elements (some value)).filterMap fun item => item.object?.map (findingFrom rules)

end

def advisoryCountsOf (findings : List SecurityScanFinding) : SecurityScanSeverityCounts :=
  let severities := findings.foldl recordFinding []
  let counts := severities.foldl (fun counts entry => counts.increment entry.2) emptyCounts
  severityCountsOf fun severity => (counts.lookup severity).getD 0

def jsonStringList (value : Json) : List Str :=
  (Json.elements (some value)).filterMap fun item => Json.string? (some item)

def scanSubject (row : ScanRow) : SecurityScanSubject where
  requestedRef := row.requestedRef
  reportedDigest := row.reportedDigest
  indexDigest := row.indexDigest
  manifestDigest := row.manifestDigest
  immutableRef :=
    if row.canonicalRegistry ≠ [] ∧ row.canonicalRepository ≠ [] ∧ row.manifestDigest ≠ [] then
      row.canonicalRegistry ++ '/' :: row.canonicalRepository ++ '@' :: row.manifestDigest
    else []
  platform := row.platform

def rowToScanInfo (rules : ScanRules) (row : ScanRow) (request : PendingSecurityRequest) : ShownScan :=
  let findings := findingsFrom rules row.findings
  let counts := countsFrom rules row.severityCounts
  { lineNo := request.lineNo
    state := row.state
    verdict := row.verdict
    scanner := row.scanner
    scannerVersion := row.scannerVersion
    scannerSchema := row.scannerSchema
    scannedAt := row.updatedAt
    dbRevision := row.dbRevision
    dbUpdatedAt := row.dbUpdatedAt
    severityCounts := counts
    advisoryCounts := advisoryCountsOf findings
    advisoryCountsKnown := findings ≠ [] || counts = {}
    fixableCounts := countsFrom rules row.fixableCounts
    unfixedCount := row.unfixedCount
    findings
    subject := scanSubject row
    warnings := jsonStringList row.warnings
    errorCode := row.errorCode
    errorMessage := row.errorMessage }

/-! The statements on the table, as its rows in the order of their ids. -/

section
variable (rules : ScanRules) (sha256 : Str → Str)

def PendingSecurityRequest.requestKey (request : PendingSecurityRequest) : Str :=
  sha256 (hashText ["security-request".toList,(toString request.lineNo).toList,request.raw,request.candidateImage,
    request.reportedDigest,optionalPlatformValue request.platform])

def subjectId (subject : ResolvedImageSubject) : Str :=
  if subject.identityStatus = .exact then
    sha256 (hashText ["security-subject".toList,subject.canonicalRegistry,subject.canonicalRepository,
      subject.manifestDigest,subject.platform])
  else []

/-- A result to be stored. -/
structure ScanUpsert where
  request : PendingSecurityRequest
  subject : ResolvedImageSubject
  result : SecurityScanResult
  timestamp : Str

namespace ScanUpsert
variable (upsert : ScanUpsert)

def requestKey : Str := upsert.request.requestKey sha256

def cacheText : Str := hashText [upsert.requestKey sha256,subjectId sha256 upsert.subject,upsert.result.scanner,
  upsert.result.scannerVersion,upsert.result.scannerSchema,upsert.result.dbRevision,upsert.result.dbUpdatedAt]

def cacheKey : Str := sha256 (upsert.cacheText sha256)

def row (rowid : ℕ) : ScanRow where
  rowid
  cacheKey := upsert.cacheKey sha256
  requestKey := upsert.requestKey sha256
  subjectId := subjectId sha256 upsert.subject
  canonicalRegistry := upsert.subject.canonicalRegistry
  canonicalRepository := upsert.subject.canonicalRepository
  requestedRef := upsert.subject.requestedRef
  reportedDigest := upsert.subject.reportedDigest
  indexDigest := upsert.subject.indexDigest
  manifestDigest := upsert.subject.manifestDigest
  platform := upsert.subject.platform
  platformOs := upsert.subject.os
  platformArchitecture := upsert.subject.architecture
  platformVariant := upsert.subject.variant
  platformSource := upsert.subject.platformSource
  identityStatus := upsert.subject.identityStatus.text
  state := upsert.result.state
  verdict := upsert.result.verdict
  scanner := upsert.result.scanner
  scannerVersion := upsert.result.scannerVersion
  scannerSchema := upsert.result.scannerSchema
  dbRevision := upsert.result.dbRevision
  dbUpdatedAt := upsert.result.dbUpdatedAt
  severityCounts := countsJson upsert.result.severityCounts
  fixableCounts := countsJson upsert.result.fixableCounts
  unfixedCount := upsert.result.unfixedCount
  warnings := .array ((upsert.subject.warnings ++ upsert.result.warnings).map .string)
  errorCode := upsert.result.errorCode
  errorMessage := upsert.result.errorMessage
  createdAt := upsert.timestamp
  updatedAt := upsert.timestamp
  findings := findingsJson upsert.result

end ScanUpsert

def keepRows : ℕ := 5

def pruneCacheRows (rows : List ScanRow) (requestKey : Str) : List ScanRow :=
  Recent.prune ScanRow.updatedAt ScanRow.rowid (·.requestKey = requestKey) keepRows rows

/-- The row of the same key is replaced by a new one, with an id past those in use. -/
def upsertScanResult (rows : List ScanRow) (upsert : ScanUpsert) : List ScanRow :=
  let others := rows.filter (·.cacheKey ≠ upsert.cacheKey sha256)
  pruneCacheRows (others ++ [upsert.row sha256 (Recent.nextId ScanRow.rowid others)]) (upsert.requestKey sha256)

/-- The table after some results. -/
def scanTable (history : List ScanUpsert) : List ScanRow := history.foldl (upsertScanResult sha256) []

def newestRow (rows : List ScanRow) : Option ScanRow := Recent.newest ScanRow.updatedAt ScanRow.rowid rows

variable (rows : List ScanRow) (request : PendingSecurityRequest)

def cachedScanByRequest : Option ShownScan :=
  (newestRow (rows.filter (·.requestKey = request.requestKey sha256))).map (rowToScanInfo rules · request)

/-- The newest row on the image, the digest and a platform. -/
def cachedScanOnPlatform (platform : Str) : Option ShownScan :=
  (newestRow (rows.filter fun row => row.requestedRef = request.candidateImage ∧
    row.reportedDigest = request.reportedDigest ∧ row.platform = platform)).map (rowToScanInfo rules · request)

def cachedScanByExactPlatform : Option ShownScan :=
  if request.candidateImage = [] ∨ request.reportedDigest = [] then none
  else cachedScanOnPlatform rules rows request (optionalPlatformValue request.platform)

def cachedScanByUnambiguousPlatform : Option ShownScan :=
  if request.platform ≠ none then none
  else if request.candidateImage = [] ∨ request.reportedDigest = [] then none
  else
    match orderedUnique ((rows.filter fun row => row.requestedRef = request.candidateImage ∧
      row.reportedDigest = request.reportedDigest ∧ row.platform ≠ []).map (·.platform)) with
    | [platform] => cachedScanOnPlatform rules rows request platform
    | _ => none

def cachedScanByRequestOrUnambiguousPlatform : Option ShownScan :=
  match cachedScanByRequest rules sha256 rows request with
  | some cached => some cached
  | none =>
    if request.platform ≠ none then cachedScanByExactPlatform rules rows request
    else cachedScanByUnambiguousPlatform rules rows request

end

/-! Reading a row gives back what was stored. -/

/-- What is shown of a stored result: its own counts and findings, and its advisories each at its worst. -/
def ScanUpsert.shown (upsert : ScanUpsert) (request : PendingSecurityRequest) : ShownScan where
  lineNo := request.lineNo
  state := upsert.result.state
  verdict := upsert.result.verdict
  scanner := upsert.result.scanner
  scannerVersion := upsert.result.scannerVersion
  scannerSchema := upsert.result.scannerSchema
  scannedAt := upsert.timestamp
  dbRevision := upsert.result.dbRevision
  dbUpdatedAt := upsert.result.dbUpdatedAt
  severityCounts := severityCountsOf fun severity => (upsert.result.severityCounts.lookup severity).getD 0
  advisoryCounts := severityCountsOf fun severity => ((advisoryIds upsert.result.findings).countP fun id =>
    worstSeverity upsert.result.findings id = some severity : ℕ)
  advisoryCountsKnown := upsert.result.findings ≠ [] ||
    securitySeverities.all fun severity => (upsert.result.severityCounts.lookup severity).getD 0 = 0
  fixableCounts := severityCountsOf fun severity => (upsert.result.fixableCounts.lookup severity).getD 0
  unfixedCount := upsert.result.unfixedCount
  findings := upsert.result.findings
  subject := {
    requestedRef := upsert.subject.requestedRef
    reportedDigest := upsert.subject.reportedDigest
    indexDigest := upsert.subject.indexDigest
    manifestDigest := upsert.subject.manifestDigest
    immutableRef :=
      if upsert.subject.canonicalRegistry ≠ [] ∧ upsert.subject.canonicalRepository ≠ [] ∧
          upsert.subject.manifestDigest ≠ [] then
        upsert.subject.canonicalRegistry ++ '/' :: upsert.subject.canonicalRepository ++
          '@' :: upsert.subject.manifestDigest
      else []
    platform := upsert.subject.platform }
  warnings := upsert.subject.warnings ++ upsert.result.warnings
  errorCode := upsert.result.errorCode
  errorMessage := upsert.result.errorMessage

theorem FindingSeverity.text_injective : Function.Injective FindingSeverity.text := by
  intro a b h
  cases a <;> cases b <;> first | rfl | (revert h; decide)

theorem lookup_countsJson (counts : SeverityCounts) (severity : FindingSeverity) :
    (counts.map fun entry => (entry.1.text,Json.number entry.2)).lookup severity.text =
      (counts.lookup severity).map fun n => Json.number n := by
  induction counts with
  | nil => rfl
  | cons entry counts ih =>
    obtain ⟨found,n⟩ := entry
    by_cases h : severity = found
    · subst h
      simp
    · have ht : severity.text ≠ found.text := fun he => h (FindingSeverity.text_injective he)
      rw [List.map_cons,List.lookup_cons,List.lookup_cons,beq_false_of_ne ht,beq_false_of_ne h]
      exact ih

theorem countsFrom_countsJson (rules : ScanRules) (counts : SeverityCounts) :
    countsFrom rules (countsJson counts) = severityCountsOf fun severity => (counts.lookup severity).getD 0 := by
  rw [countsFrom,countsJson]
  congr 1
  funext severity
  rw [Json.fields,lookup_countsJson]
  cases counts.lookup severity with
  | none => rfl
  | some n => exact Rat.floor_intCast n

section
variable {rules : ScanRules}

theorem strip_severity (severity : FindingSeverity) : strip severity.text = severity.text := by
  cases severity <;> decide

theorem findingFrom_findingJson (hlower : ∀ severity : FindingSeverity, rules.case.lower severity.text = severity.text)
    (finding : SecurityScanFinding) : (findingJson finding).object?.map (findingFrom rules) = some finding := by
  have hseverity : normalizeSecuritySeverity rules (some (.string finding.severity.text)) = finding.severity := by
    rw [normalizeSecuritySeverity,scanText,strip_severity,hlower]
    cases finding.severity <;> decide
  have hfinding : (findingJson finding).object?.map (findingFrom rules) =
      some { finding with severity := normalizeSecuritySeverity rules (some (.string finding.severity.text)) } := rfl
  rw [hfinding,hseverity]

theorem findingsFrom_findingsJson
    (hlower : ∀ severity : FindingSeverity, rules.case.lower severity.text = severity.text)
    (result : SecurityScanResult) : findingsFrom rules (findingsJson result) = result.findings := by
  rw [findingsFrom,findingsJson,Json.elements,List.filterMap_map]
  have hread : (fun item : Json => item.object?.map (findingFrom rules)) ∘ findingJson = some := by
    funext finding
    exact findingFrom_findingJson hlower finding
  rw [hread,List.filterMap_some]

theorem lookup_countsOf (count : FindingSeverity → ℕ) (severity : FindingSeverity) :
    (countsOf count).lookup severity = some (count severity) := by
  cases severity <;> rfl

theorem advisoryCountsOf_eq (findings : List SecurityScanFinding) : advisoryCountsOf findings =
    severityCountsOf fun severity =>
      ((advisoryIds findings).countP fun id => worstSeverity findings id = some severity : ℕ) := by
  rw [advisoryCountsOf]
  congr 1
  funext severity
  simp only [advisoryCounts_eq,advisoriesBySeverity,lookup_countsOf,Option.getD_some]

theorem severityCountsOf_eq_zero {count : FindingSeverity → ℕ} :
    severityCountsOf (fun severity => count severity) = {} ↔
    (securitySeverities.all fun severity => count severity = 0) = true := by
  simp [severityCountsOf,securitySeverities]

theorem jsonStringList_strings (texts : List Str) : jsonStringList (.array (texts.map .string)) = texts := by
  rw [jsonStringList,Json.elements,List.filterMap_map]
  exact List.filterMap_some

theorem rowToScanInfo_row (hlower : ∀ severity : FindingSeverity, rules.case.lower severity.text = severity.text)
    (sha256 : Str → Str) (upsert : ScanUpsert) (rowid : ℕ) (request : PendingSecurityRequest) :
    rowToScanInfo rules (upsert.row sha256 rowid) request = upsert.shown request := by
  rw [rowToScanInfo,ScanUpsert.row,ScanUpsert.shown]
  simp only [findingsFrom_findingsJson hlower,countsFrom_countsJson,advisoryCountsOf_eq,jsonStringList_strings]
  congr 1
  congr 1
  rw [Bool.eq_iff_iff,decide_eq_true_eq]
  exact severityCountsOf_eq_zero

end

end Wudup
