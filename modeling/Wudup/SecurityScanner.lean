import Wudup.DigestVerifier
import Wudup.SecurityComparison
import Wudup.WudObservations
import Wudup.Library.Keyed
import Mathlib.Algebra.GroupWithZero.Nat
import Mathlib.Data.List.MinMax

/-! What the vulnerability scanner reports on an image. -/
namespace Wudup
open Library

/-- What is taken from outside: letter case, what a decoded value other than text is written as, and the number that a
value other than a number stands for. -/
structure ScanRules where
  case : CaseRules
  written : Json → Str
  integer : Json → Option ℤ

def FindingSeverity.text : FindingSeverity → Str
  | critical => "critical".toList
  | high => "high".toList
  | medium => "medium".toList
  | low => "low".toList
  | unknown => "unknown".toList

def securitySeverities : List FindingSeverity := [.critical,.high,.medium,.low,.unknown]

/-- The place of a severity, the worst first. -/
def FindingSeverity.index (severity : FindingSeverity) : ℕ := securitySeverities.idxOf severity

abbrev SeverityCounts := List (FindingSeverity × ℕ)

def countsOf (count : FindingSeverity → ℕ) : SeverityCounts :=
  securitySeverities.map fun severity => (severity,count severity)

def emptyCounts : SeverityCounts := countsOf fun _ => 0

def SeverityCounts.increment (counts : SeverityCounts) (severity : FindingSeverity) : SeverityCounts :=
  Keyed.modify (·.1) severity (fun entry => (entry.1,entry.2 + 1)) counts

structure SecurityScanResult where
  state : SecurityScanState
  verdict : SecurityScanVerdict := .unknown
  scanner : Str := "trivy".toList
  scannerVersion : Str := []
  scannerSchema : Str := []
  dbRevision : Str := []
  dbUpdatedAt : Str := []
  severityCounts : SeverityCounts := []
  advisoryCounts : SeverityCounts := []
  fixableCounts : SeverityCounts := []
  unfixedCount : ℕ := 0
  findings : List SecurityScanFinding := []
  warnings : List Str := []
  errorCode : Str := []
  errorMessage : Str := []
  deriving DecidableEq, Repr

/-- The worst severity of each advisory, after one more finding of it. -/
def recordAdvisory (severities : List (Str × FindingSeverity)) (vulnerabilityId : Str) (severity : FindingSeverity) :
    List (Str × FindingSeverity) :=
  if vulnerabilityId = [] then severities
  else match Keyed.find (·.1) vulnerabilityId severities with
    | none => Keyed.set (·.1) (vulnerabilityId,severity) severities
    | some previous =>
      if severity.index < previous.2.index then Keyed.set (·.1) (vulnerabilityId,severity) severities else severities

section
variable (rules : ScanRules)

/-- The text of a value, empty for one that does not stand for itself. -/
def scanText (value : Option Json) : Str :=
  match value with
  | some (.string text) => text
  | some other => if Json.truthy (some other) then rules.written other else []
  | none => []

def scanField (payload : Details) (name : String) : Str := scanText rules (payload.lookup name.toList)

def normalizeSecuritySeverity (value : Option Json) : FindingSeverity :=
  let severity := rules.case.lower (strip (scanText rules value))
  (securitySeverities.find? (·.text = severity)).getD .unknown

/-- The vulnerabilities of a report, each with the result it belongs to. -/
def vulnerabilities (payload : Details) : List (Details × Details) :=
  (Json.elements (payload.lookup "Results".toList)).flatMap fun
    | .object result => (Json.elements (result.lookup "Vulnerabilities".toList)).filterMap fun item =>
      item.object?.map (result,·)
    | _ => []

def httpUrl (value : Option Json) : Str :=
  let url := strip (scanText rules value)
  if "https://".toList.isPrefixOf url then url
  else if "http://".toList.isPrefixOf url then "https://".toList ++ url.drop 7
  else []

def findingFromVulnerability (result vuln : Details) (severity : FindingSeverity) : SecurityScanFinding where
  target := strip (scanField rules result "Target")
  targetClass := strip (scanField rules result "Class")
  targetType := strip (scanField rules result "Type")
  vulnerabilityId := strip (scanField rules vuln "VulnerabilityID")
  packageName := strip (scanField rules vuln "PkgName")
  installedVersion := strip (scanField rules vuln "InstalledVersion")
  fixedVersion := strip (scanField rules vuln "FixedVersion")
  severity := severity
  title := strip (scanField rules vuln "Title")
  primaryUrl := httpUrl rules (vuln.lookup "PrimaryURL".toList)

/-- What is counted over the vulnerabilities of a report. -/
structure FindingSummary where
  severityCounts : SeverityCounts := emptyCounts
  advisorySeverities : List (Str × FindingSeverity) := []
  fixableCounts : SeverityCounts := emptyCounts
  unfixedCount : ℕ := 0
  findings : List SecurityScanFinding := []

def FindingSummary.add (summary : FindingSummary) (result vuln : Details) : FindingSummary :=
  let severity := normalizeSecuritySeverity rules (vuln.lookup "Severity".toList)
  let fixed := strip (scanField rules vuln "FixedVersion") ≠ []
  { severityCounts := summary.severityCounts.increment severity
    advisorySeverities :=
      recordAdvisory summary.advisorySeverities (strip (scanField rules vuln "VulnerabilityID")) severity
    fixableCounts := if fixed then summary.fixableCounts.increment severity else summary.fixableCounts
    unfixedCount := if fixed then summary.unfixedCount else summary.unfixedCount + 1
    findings := summary.findings ++ [findingFromVulnerability rules result vuln severity] }

def summarizeTrivyFindings (payload : Details) : FindingSummary :=
  (vulnerabilities payload).foldl (fun summary entry => summary.add rules entry.1 entry.2) {}

def FindingSummary.advisoryCounts (summary : FindingSummary) : SeverityCounts :=
  summary.advisorySeverities.foldl (fun counts entry => counts.increment entry.2) emptyCounts

def dbMetadata (payload : Details) : Details :=
  match payload.lookup "VulnerabilityDB".toList with
  | some (.object db) => db
  | _ => Json.fields ((Json.fields (payload.lookup "Metadata".toList)).lookup "VulnerabilityDB".toList)

def invalidJson : Str := "invalid_json".toList

def resultFromTrivyPayload (payload provenance : Details) : SecurityScanResult :=
  let scannerVersion := scanField rules provenance "Version"
  if Json.isArray (payload.lookup "Results".toList) then
    let summary := summarizeTrivyFindings rules payload
    let total := (summary.severityCounts.map (·.2)).sum
    let db := if dbMetadata provenance = [] then dbMetadata payload else dbMetadata provenance
    { state := .complete
      verdict := if total ≠ 0 then .findings else .noneReported
      scannerVersion
      scannerSchema := scanField rules payload "SchemaVersion"
      dbRevision := scanText rules (Json.firstField db ["Version","version"])
      dbUpdatedAt := scanText rules (Json.firstField db ["UpdatedAt","updated_at","DownloadedAt","downloaded_at"])
      severityCounts := summary.severityCounts
      advisoryCounts := summary.advisoryCounts
      fixableCounts := summary.fixableCounts
      unfixedCount := summary.unfixedCount
      findings := summary.findings }
  else
    { state := .error
      scannerVersion
      errorCode := invalidJson
      errorMessage := "scanner JSON did not include a Results array".toList }

end

/-! What the counts say of the findings. -/

theorem mem_securitySeverities (severity : FindingSeverity) : severity ∈ securitySeverities := by
  cases severity <;> decide

theorem increment_countsOf (count : FindingSeverity → ℕ) (severity : FindingSeverity) :
    (countsOf count).increment severity =
      countsOf fun other => if other = severity then count other + 1 else count other := by
  rw [SeverityCounts.increment,Keyed.modify,countsOf,countsOf,List.map_map]
  apply List.map_congr_left
  intro other _
  by_cases h : other = severity <;> simp [h]

theorem foldl_increment {α : Type} (severityOf : α → FindingSeverity) (xs : List α) (count : FindingSeverity → ℕ) :
    xs.foldl (fun counts x => counts.increment (severityOf x)) (countsOf count) =
      countsOf fun severity => count severity + xs.countP (severityOf · = severity) := by
  induction xs generalizing count with
  | nil => simp
  | cons x xs ih =>
    rw [List.foldl_cons,increment_countsOf,ih]
    congr 1
    funext severity
    rw [List.countP_cons]
    by_cases h : severity = severityOf x
    · simp [h]
      omega
    · simp [h,Ne.symm h]

/-- The worst severity among the findings of an advisory. -/
def worstSeverity (findings : List SecurityScanFinding) (vulnerabilityId : Str) : Option FindingSeverity :=
  ((findings.filter (·.vulnerabilityId = vulnerabilityId)).map (·.severity)).argmin FindingSeverity.index

/-- The advisories of findings, each once. -/
def advisoryIds (findings : List SecurityScanFinding) : List Str :=
  orderedUnique ((findings.map (·.vulnerabilityId)).filter (· ≠ []))

/-- How many advisories are of each severity at worst. -/
def advisoriesBySeverity (findings : List SecurityScanFinding) : SeverityCounts :=
  countsOf fun severity => (advisoryIds findings).countP fun id => worstSeverity findings id = some severity

def recordFinding (severities : List (Str × FindingSeverity)) (finding : SecurityScanFinding) :
    List (Str × FindingSeverity) :=
  recordAdvisory severities finding.vulnerabilityId finding.severity

/-- What the worst severities are known to be after some findings. -/
structure AdvisoriesOf (findings : List SecurityScanFinding) (severities : List (Str × FindingSeverity)) : Prop where
  nodup : (severities.map (·.1)).Nodup
  named : ∀ entry ∈ severities, entry.1 ≠ []
  worst : ∀ id, id ≠ [] → (Keyed.find (·.1) id severities).map (·.2) = worstSeverity findings id

theorem worstSeverity_concat (findings : List SecurityScanFinding) (finding : SecurityScanFinding) (id : Str) :
    worstSeverity (findings ++ [finding]) id =
      if finding.vulnerabilityId = id then
        match worstSeverity findings id with
        | none => some finding.severity
        | some previous => if finding.severity.index < previous.index then some finding.severity else some previous
      else worstSeverity findings id := by
  by_cases h : finding.vulnerabilityId = id
  · rw [worstSeverity,List.filter_append,List.map_append,if_pos h]
    simp only [List.filter_cons,h,decide_true,if_true,List.filter_nil,List.map_cons,List.map_nil]
    rw [List.argmin_concat,worstSeverity]
    cases ((findings.filter (·.vulnerabilityId = id)).map (·.severity)).argmin FindingSeverity.index <;> rfl
  · rw [worstSeverity,List.filter_append,if_neg h]
    simp [h,worstSeverity]

/-- A finding that is the first of its advisory or worse than the ones before it. -/
theorem AdvisoriesOf.set {findings : List SecurityScanFinding} {severities : List (Str × FindingSeverity)}
    (h : AdvisoriesOf findings severities) {finding : SecurityScanFinding} (hid : finding.vulnerabilityId ≠ [])
    (hworse : worstSeverity (findings ++ [finding]) finding.vulnerabilityId = some finding.severity) :
    AdvisoriesOf (findings ++ [finding]) (Keyed.set (·.1) (finding.vulnerabilityId,finding.severity) severities) where
  nodup := Keyed.nodup_set h.nodup
  named := by
    intro entry he
    rcases Keyed.eq_or_mem_of_mem_set he with rfl | he
    · exact hid
    · exact h.named entry he
  worst := by
    intro id hne
    rw [Keyed.find_set]
    by_cases hsame : finding.vulnerabilityId = id
    · subst hsame
      rw [if_pos rfl,hworse]
      rfl
    · rw [if_neg hsame,worstSeverity_concat,if_neg hsame]
      exact h.worst id hne

/-- A finding that changes nothing. -/
theorem AdvisoriesOf.keep {findings : List SecurityScanFinding} {severities : List (Str × FindingSeverity)}
    (h : AdvisoriesOf findings severities) {finding : SecurityScanFinding}
    (hsame : ∀ id, id ≠ [] → worstSeverity (findings ++ [finding]) id = worstSeverity findings id) :
    AdvisoriesOf (findings ++ [finding]) severities :=
  ⟨h.nodup,h.named,fun id hne => (h.worst id hne).trans (hsame id hne).symm⟩

theorem AdvisoriesOf.add {findings : List SecurityScanFinding} {severities : List (Str × FindingSeverity)}
    (h : AdvisoriesOf findings severities) (finding : SecurityScanFinding) :
    AdvisoriesOf (findings ++ [finding]) (recordFinding severities finding) := by
  rw [recordFinding,recordAdvisory]
  by_cases hid : finding.vulnerabilityId = []
  · rw [if_pos hid]
    apply h.keep
    intro id hne
    rw [worstSeverity_concat,if_neg]
    rintro rfl
    exact hne hid
  · rw [if_neg hid]
    have hfound := h.worst finding.vulnerabilityId hid
    cases hfind : Keyed.find (·.1) finding.vulnerabilityId severities with
    | none =>
      rw [hfind] at hfound
      apply h.set hid
      rw [worstSeverity_concat,if_pos rfl,← hfound]
      rfl
    | some previous =>
      rw [hfind] at hfound
      simp only
      split
      · rename_i hlt
        apply h.set hid
        rw [worstSeverity_concat,if_pos rfl,← hfound]
        exact if_pos hlt
      · rename_i hlt
        apply h.keep
        intro id hne
        rw [worstSeverity_concat]
        split
        · rename_i hsame
          subst hsame
          rw [← hfound]
          exact if_neg hlt
        · rfl

theorem advisoriesOf (findings : List SecurityScanFinding) :
    AdvisoriesOf findings (findings.foldl recordFinding []) := by
  induction findings using List.reverseRecOn with
  | nil => exact ⟨List.nodup_nil,by simp,fun id hne => rfl⟩
  | append_singleton findings finding ih =>
    rw [List.foldl_append]
    exact ih.add finding

theorem mem_advisoryIds {findings : List SecurityScanFinding} {id : Str} : id ∈ advisoryIds findings ↔
    id ≠ [] ∧ worstSeverity findings id ≠ none := by
  rw [advisoryIds,mem_orderedUnique,List.mem_filter,List.mem_map,worstSeverity]
  simp only [decide_eq_true_eq,ne_eq,List.argmin_eq_none,List.map_eq_nil_iff,List.filter_eq_nil_iff]
  constructor
  · rintro ⟨⟨finding,hf,rfl⟩,hne⟩
    exact ⟨hne,fun h => h finding hf rfl⟩
  · rintro ⟨hne,h⟩
    refine ⟨?_,hne⟩
    by_contra hnone
    exact h fun finding hf he => hnone ⟨finding,hf,he⟩

theorem nodup_advisoryIds (findings : List SecurityScanFinding) : (advisoryIds findings).Nodup := nodup_orderedUnique _

theorem AdvisoriesOf.perm {findings : List SecurityScanFinding} {severities : List (Str × FindingSeverity)}
    (h : AdvisoriesOf findings severities) : (severities.map (·.1)).Perm (advisoryIds findings) := by
  rw [List.perm_ext_iff_of_nodup h.nodup (nodup_advisoryIds findings)]
  intro id
  rw [mem_advisoryIds,List.mem_map]
  constructor
  · rintro ⟨entry,he,rfl⟩
    refine ⟨h.named entry he,?_⟩
    rw [← h.worst _ (h.named entry he),Keyed.find_of_mem h.nodup he]
    simp
  · rintro ⟨hne,hworst⟩
    rw [← h.worst id hne] at hworst
    cases hfind : Keyed.find (·.1) id severities with
    | none =>
      rw [hfind] at hworst
      exact absurd rfl hworst
    | some entry =>
      obtain ⟨hmem,rfl⟩ := Keyed.mem_of_find hfind
      exact ⟨entry,hmem,rfl⟩

/-- The recorded severities count every advisory once, at its worst. -/
theorem advisoryCounts_eq (findings : List SecurityScanFinding) :
    (findings.foldl recordFinding []).foldl (fun counts entry => counts.increment entry.2) emptyCounts =
      advisoriesBySeverity findings := by
  have h := advisoriesOf findings
  rw [emptyCounts,foldl_increment,advisoriesBySeverity]
  congr 1
  funext severity
  rw [Nat.zero_add,← h.perm.countP_eq,List.countP_map]
  apply List.countP_congr
  intro entry he
  simp only [Function.comp_apply,decide_eq_true_eq]
  rw [← h.worst _ (h.named entry he),Keyed.find_of_mem h.nodup he,Option.map_some,Option.some_inj]

/-! What is counted over a report. -/

/-- The counts of findings. -/
structure Counted (summary : FindingSummary) (all : List SecurityScanFinding) : Prop where
  findings : summary.findings = all
  severities : summary.severityCounts = countsOf fun severity => all.countP (·.severity = severity)
  fixable : summary.fixableCounts = countsOf fun severity =>
    all.countP fun finding => finding.severity = severity ∧ finding.fixedVersion ≠ []
  unfixed : summary.unfixedCount = all.countP (·.fixedVersion = [])
  advisories : summary.advisorySeverities = all.foldl recordFinding []

/-- The finding for a vulnerability of a report. -/
def reportedFinding (rules : ScanRules) (entry : Details × Details) : SecurityScanFinding :=
  findingFromVulnerability rules entry.1 entry.2 (normalizeSecuritySeverity rules (entry.2.lookup "Severity".toList))

theorem increment_countP {kind : FindingSeverity → SecurityScanFinding → Bool} (all : List SecurityScanFinding)
    {finding : SecurityScanFinding} (h : ∀ severity, kind severity finding = decide (severity = finding.severity)) :
    (countsOf fun severity => all.countP (kind severity)).increment finding.severity =
      countsOf fun severity => (all ++ [finding]).countP (kind severity) := by
  rw [increment_countsOf]
  congr 1
  funext severity
  rw [List.countP_append,List.countP_singleton,h]
  by_cases hs : severity = finding.severity <;> simp [hs]

theorem Counted.add {rules : ScanRules} {summary : FindingSummary} {all : List SecurityScanFinding}
    (h : Counted summary all) (entry : Details × Details) :
    Counted (summary.add rules entry.1 entry.2) (all ++ [reportedFinding rules entry]) := by
  have hfixed : (reportedFinding rules entry).fixedVersion = strip (scanField rules entry.2 "FixedVersion") := rfl
  constructor
  · rw [← h.findings]
    rfl
  · change summary.severityCounts.increment (reportedFinding rules entry).severity = _
    rw [h.severities,increment_countP]
    intro severity
    simp [eq_comm]
  · change (if _ then summary.fixableCounts.increment (reportedFinding rules entry).severity else _) = _
    rw [← hfixed,h.fixable]
    split
    · rename_i hne
      apply increment_countP
      intro severity
      simp [hne,eq_comm]
    · rename_i hnone
      simp [hnone]
  · change (if _ then summary.unfixedCount else summary.unfixedCount + 1) = _
    rw [← hfixed,h.unfixed,List.countP_append,List.countP_singleton]
    split
    · rename_i hne
      simp [hne]
    · rename_i hnone
      simp [not_not.mp hnone]
  · change recordAdvisory summary.advisorySeverities _ _ = _
    rw [h.advisories,List.foldl_append]
    rfl

/-- A report is summarised as its findings, one for each vulnerability. -/
theorem summarize_counted (rules : ScanRules) (payload : Details) :
    Counted (summarizeTrivyFindings rules payload) ((vulnerabilities payload).map (reportedFinding rules)) := by
  rw [summarizeTrivyFindings]
  generalize vulnerabilities payload = entries
  induction entries using List.reverseRecOn with
  | nil => exact ⟨rfl,rfl,rfl,rfl,rfl⟩
  | append_singleton entries entry ih =>
    rw [List.foldl_append,List.map_append]
    exact ih.add entry

theorem sum_countsOf_add (count : FindingSeverity → ℕ) (severity : FindingSeverity) :
    ((countsOf fun other => if other = severity then count other + 1 else count other).map (·.2)).sum =
      ((countsOf count).map (·.2)).sum + 1 := by
  cases severity <;> simp [countsOf,securitySeverities] <;> omega

/-- The findings of a kind, counted by severity, are as many as the kind has. -/
theorem sum_countsOf {kind : FindingSeverity → SecurityScanFinding → Bool} {p : SecurityScanFinding → Bool}
    (h : ∀ severity finding, kind severity finding = (p finding && decide (severity = finding.severity)))
    (all : List SecurityScanFinding) :
    ((countsOf fun severity => all.countP (kind severity)).map (·.2)).sum = all.countP p := by
  induction all with
  | nil => rfl
  | cons finding all ih =>
    rw [List.countP_cons,← ih]
    cases hp : p finding with
    | true =>
      rw [if_pos rfl,← sum_countsOf_add _ finding.severity]
      congr 3
      funext severity
      rw [List.countP_cons,h,hp]
      by_cases hs : severity = finding.severity <;> simp [hs]
    | false =>
      rw [if_neg (by simp)]
      congr 3
      funext severity
      rw [List.countP_cons,h,hp]
      simp

end Wudup
