import Wudup.Matching

/-! Scans of an installed image and of its candidate, compared finding by finding. -/
namespace Wudup
open Library

inductive SecurityScanState where
  | disabled
  | notScanned
  | queued
  | running
  | complete
  | stale
  | partialResult
  | unsupported
  | unavailableOffline
  | authRequired
  | error
  deriving DecidableEq, Repr

inductive SecurityScanVerdict where
  | findings
  | noneReported
  | unknown
  deriving DecidableEq, Repr

inductive FindingSeverity where
  | critical
  | high
  | medium
  | low
  | unknown
  deriving DecidableEq, Repr

structure SecurityScanFinding where
  target : Str := []
  targetClass : Str := []
  targetType : Str := []
  vulnerabilityId : Str := []
  packageName : Str := []
  installedVersion : Str := []
  fixedVersion : Str := []
  severity : FindingSeverity := .unknown
  title : Str := []
  primaryUrl : Str := []
  deriving DecidableEq, Repr

structure SecurityScanSubject where
  requestedRef : Str := []
  reportedDigest : Str := []
  indexDigest : Str := []
  manifestDigest : Str := []
  immutableRef : Str := []
  platform : Str := []
  deriving DecidableEq, Repr

/-- What a comparison reads of a scan. -/
structure SecurityScanInfo where
  state : SecurityScanState
  verdict : SecurityScanVerdict := .unknown
  scanner : Str := []
  scannerVersion : Str := []
  scannerSchema : Str := []
  dbRevision : Str := []
  dbUpdatedAt : Str := []
  findings : List SecurityScanFinding := []
  subject : SecurityScanSubject := {}
  deriving DecidableEq, Repr

inductive ComparisonStatus where
  | unknown
  | improved
  | unchanged
  | mixed
  | worse
  deriving DecidableEq, Repr

structure SecurityScanComparison where
  status : ComparisonStatus := .unknown
  currentSubject : SecurityScanSubject := {}
  fixedFindings : List SecurityScanFinding := []
  remainingFindings : List SecurityScanFinding := []
  introducedFindings : List SecurityScanFinding := []
  message : Str := []
  deriving DecidableEq, Repr

/-- What makes two rows the same finding. -/
structure FindingKey where
  target : Str
  targetClass : Str
  targetType : Str
  packageName : Str
  vulnerabilityId : Str
  deriving DecidableEq, Repr

def FindingKey.sortKey (key : FindingKey) : Str ×ₗ Str ×ₗ Str ×ₗ Str ×ₗ Str :=
  toLex (key.target,toLex (key.targetClass,toLex (key.targetType,toLex (key.packageName,key.vulnerabilityId))))

def findingKey (finding : SecurityScanFinding) : FindingKey :=
  ⟨finding.target,finding.targetClass,finding.targetType,finding.packageName,finding.vulnerabilityId⟩

def findingsByKey (findings : List SecurityScanFinding) : List (FindingKey × List SecurityScanFinding) :=
  groupsOf findingKey findings

def databaseIdentity (info : SecurityScanInfo) : Option (Str × Str) :=
  if info.dbRevision = [] ∨ info.dbUpdatedAt = [] then none else some (info.dbRevision,info.dbUpdatedAt)

def comparisonMismatchMessage (current candidate : SecurityScanInfo) : Str :=
  if current.scanner ≠ candidate.scanner then "Installed and candidate scans used different scanners.".toList
  else if current.scannerVersion = [] ∨ candidate.scannerVersion = [] then
    "Scanner version provenance is unavailable.".toList
  else if current.scannerVersion ≠ candidate.scannerVersion then
    "Installed and candidate scans used different scanner versions.".toList
  else if current.scannerSchema = [] ∨ candidate.scannerSchema = [] then
    "Scanner schema provenance is unavailable.".toList
  else if current.scannerSchema ≠ candidate.scannerSchema then
    "Installed and candidate scans used different scanner schemas.".toList
  else if databaseIdentity current = none ∨ databaseIdentity candidate = none then
    "Vulnerability database provenance is unavailable.".toList
  else if databaseIdentity current ≠ databaseIdentity candidate then
    "Installed and candidate scans used different vulnerability databases.".toList
  else if current.subject.platform ≠ candidate.subject.platform then
    "Installed and candidate scans used different platforms.".toList
  else []

/-- The rows of both scans, told apart. -/
structure FindingChanges where
  fixed : List SecurityScanFinding := []
  remaining : List SecurityScanFinding := []
  introduced : List SecurityScanFinding := []
  deriving DecidableEq, Repr

section
variable (currentByKey candidateByKey : List (FindingKey × List SecurityScanFinding))

/-- The rows of one key: as many remain as both scans have. -/
def FindingChanges.add (changes : FindingChanges) (key : FindingKey) : FindingChanges :=
  let currentRows := (currentByKey.lookup key).getD []
  let candidateRows := (candidateByKey.lookup key).getD []
  let sharedCount := min currentRows.length candidateRows.length
  { fixed := changes.fixed ++ currentRows.drop sharedCount
    remaining := changes.remaining ++ candidateRows.take sharedCount
    introduced := changes.introduced ++ candidateRows.drop sharedCount }

def findingChanges : FindingChanges :=
  let keys := orderedUnique (currentByKey.map (·.1) ++ candidateByKey.map (·.1))
  (Keyed.sortedBy FindingKey.sortKey keys).foldl (FindingChanges.add currentByKey candidateByKey) {}

end

def comparisonStatus (changes : FindingChanges) : ComparisonStatus :=
  if changes.introduced ≠ [] ∧ changes.fixed = [] then .worse
  else if changes.fixed ≠ [] ∧ (changes.remaining ≠ [] ∨ changes.introduced ≠ []) then .mixed
  else if changes.fixed ≠ [] then .improved
  else .unchanged

def comparisonMessage (status : ComparisonStatus) (changes : FindingChanges) : Str :=
  let fixed := (toString changes.fixed.length).toList
  let remaining := (toString changes.remaining.length).toList
  let introduced := (toString changes.introduced.length).toList
  if status = .improved then "Candidate removes ".toList ++ fixed ++ " reported finding(s).".toList
  else if status = .mixed then
    "Candidate removes ".toList ++ fixed ++ " finding(s), leaves ".toList ++ remaining ++ ", and introduces ".toList ++
      introduced ++ ['.']
  else if status = .worse then "Candidate introduces ".toList ++ introduced ++ " reported finding(s).".toList
  else if changes.remaining ≠ [] then "Candidate keeps ".toList ++ remaining ++ " reported finding(s).".toList
  else "No reported findings changed between installed and candidate images.".toList

def unknownComparison (message : Str) : SecurityScanComparison := { message }

/-- A verdict of findings whose rows were not kept. -/
def SecurityScanInfo.lacksRows (info : SecurityScanInfo) : Bool := info.verdict = .findings && info.findings.isEmpty

def comparison (current candidate : SecurityScanInfo) : SecurityScanComparison :=
  if current.state ≠ .complete ∨ candidate.state ≠ .complete then
    unknownComparison "Both installed and candidate scans must complete.".toList
  else if comparisonMismatchMessage current candidate ≠ [] then
    unknownComparison (comparisonMismatchMessage current candidate)
  else if current.lacksRows ∨ candidate.lacksRows then
    unknownComparison "Refresh scans to collect vulnerability rows.".toList
  else
    let changes := findingChanges (findingsByKey current.findings) (findingsByKey candidate.findings)
    let status := comparisonStatus changes
    { status
      currentSubject := current.subject
      fixedFindings := changes.fixed
      remainingFindings := changes.remaining
      introducedFindings := changes.introduced
      message := comparisonMessage status changes }

/-! The rows of a key -/

def rowsOf (key : FindingKey) (findings : List SecurityScanFinding) : List SecurityScanFinding :=
  findings.filter (findingKey · == key)

section
variable {current candidate : List SecurityScanFinding} {key : FindingKey}

@[simp] theorem lookup_findingsByKey {findings : List SecurityScanFinding} :
    ((findingsByKey findings).lookup key).getD [] = rowsOf key findings := lookup_groupsOf findings

theorem findingKey_of_mem_rowsOf {findings : List SecurityScanFinding} {finding : SecurityScanFinding}
    (h : finding ∈ rowsOf key findings) : findingKey finding = key := by
  simpa using (List.mem_filter.mp h).2

/-- The keys of both scans, in the order they are gone through. -/
def comparedKeys (current candidate : List SecurityScanFinding) : List FindingKey :=
  Keyed.sortedBy FindingKey.sortKey
    (orderedUnique ((findingsByKey current).map (·.1) ++ (findingsByKey candidate).map (·.1)))

theorem nodup_comparedKeys : (comparedKeys current candidate).Nodup :=
  (Keyed.sortedBy_perm _ _).nodup_iff.mpr (nodup_orderedUnique _)

theorem mem_comparedKeys :
    key ∈ comparedKeys current candidate ↔ rowsOf key current ≠ [] ∨ rowsOf key candidate ≠ [] := by
  have hrows (findings : List SecurityScanFinding) :
      key ∈ (findingsByKey findings).map (·.1) ↔ rowsOf key findings ≠ [] := by
    rw [findingsByKey,mem_keys_groupsOf,rowsOf,List.mem_map,ne_eq,List.filter_eq_nil_iff]
    simp
  rw [comparedKeys,(Keyed.sortedBy_perm _ _).mem_iff,mem_orderedUnique,List.mem_append,hrows,hrows]

theorem foldl_add {currentByKey candidateByKey : List (FindingKey × List SecurityScanFinding)} {keys : List FindingKey}
    {changes : FindingChanges} :
    keys.foldl (FindingChanges.add currentByKey candidateByKey) changes =
      { fixed := changes.fixed ++ keys.flatMap fun key =>
          (FindingChanges.add currentByKey candidateByKey {} key).fixed
        remaining := changes.remaining ++ keys.flatMap fun key =>
          (FindingChanges.add currentByKey candidateByKey {} key).remaining
        introduced := changes.introduced ++ keys.flatMap fun key =>
          (FindingChanges.add currentByKey candidateByKey {} key).introduced } := by
  induction keys generalizing changes with
  | nil => simp
  | cons key keys ih =>
    rw [List.foldl_cons,ih]
    simp [FindingChanges.add]

/-- How many rows of a key both scans have. -/
def sharedCount (current candidate : List SecurityScanFinding) (key : FindingKey) : ℕ :=
  min (rowsOf key current).length (rowsOf key candidate).length

theorem add_rows :
    FindingChanges.add (findingsByKey current) (findingsByKey candidate) {} key =
      { fixed := (rowsOf key current).drop (sharedCount current candidate key)
        remaining := (rowsOf key candidate).take (sharedCount current candidate key)
        introduced := (rowsOf key candidate).drop (sharedCount current candidate key) } := by
  simp [FindingChanges.add,sharedCount]

/-- Each key's part of the three lists. -/
theorem rowsOf_findingChanges (current candidate : List SecurityScanFinding) (key : FindingKey) :
    rowsOf key (findingChanges (findingsByKey current) (findingsByKey candidate)).fixed =
        (rowsOf key current).drop (sharedCount current candidate key) ∧
      rowsOf key (findingChanges (findingsByKey current) (findingsByKey candidate)).remaining =
        (rowsOf key candidate).take (sharedCount current candidate key) ∧
      rowsOf key (findingChanges (findingsByKey current) (findingsByKey candidate)).introduced =
        (rowsOf key candidate).drop (sharedCount current candidate key) := by
  have hnone : key ∉ comparedKeys current candidate → rowsOf key current = [] ∧ rowsOf key candidate = [] := by
    intro hk
    simpa using mem_comparedKeys.not.mp hk
  have hpart (block : FindingKey → List SecurityScanFinding) (hkey : ∀ k, ∀ x ∈ block k, findingKey x = k)
      (hnil : key ∉ comparedKeys current candidate → block key = []) :
      rowsOf key ((comparedKeys current candidate).flatMap block) = block key :=
    filter_flatMap_key nodup_comparedKeys (fun k _ => hkey k) hnil
  have hfold : findingChanges (findingsByKey current) (findingsByKey candidate) =
      (comparedKeys current candidate).foldl
        (FindingChanges.add (findingsByKey current) (findingsByKey candidate)) {} := rfl
  rw [hfold,foldl_add]
  simp only [add_rows,List.nil_append]
  refine ⟨?_,?_,?_⟩
  · apply hpart
    · exact fun k x hx => findingKey_of_mem_rowsOf (List.mem_of_mem_drop hx)
    · intro hk
      rw [(hnone hk).1,List.drop_nil]
  · apply hpart
    · exact fun k x hx => findingKey_of_mem_rowsOf (List.mem_of_mem_take hx)
    · intro hk
      rw [(hnone hk).2,List.take_nil]
  · apply hpart
    · exact fun k x hx => findingKey_of_mem_rowsOf (List.mem_of_mem_drop hx)
    · intro hk
      rw [(hnone hk).2,List.drop_nil]

theorem mem_rowsOf {findings : List SecurityScanFinding} {finding : SecurityScanFinding} :
    finding ∈ rowsOf (findingKey finding) findings ↔ finding ∈ findings := by
  rw [rowsOf,List.mem_filter,and_iff_left (by simp)]

/-- Rows that cover each other key by key are as many. -/
theorem length_eq_of_rowsOf {xs ys : List SecurityScanFinding}
    (h : ∀ key, (rowsOf key xs).length = (rowsOf key ys).length) : xs.length = ys.length := by
  have hperm : (xs.map findingKey).Perm (ys.map findingKey) := by
    rw [List.perm_iff_count]
    intro key
    have hcount (findings : List SecurityScanFinding) :
        (findings.map findingKey).count key = (rowsOf key findings).length := by
      rw [List.count_eq_countP,List.countP_map,List.countP_eq_length_filter]
      rfl
    rw [hcount,hcount]
    exact h key
  simpa using hperm.length_eq

end

/-! Scans that can be compared -/

/-- Scans that have ended, of one scanner, database and platform, with the rows they report. -/
structure Comparable (current candidate : SecurityScanInfo) : Prop where
  currentComplete : current.state = .complete
  candidateComplete : candidate.state = .complete
  matching : comparisonMismatchMessage current candidate = []
  currentRows : current.lacksRows = false
  candidateRows : candidate.lacksRows = false

theorem comparisonMismatchMessage_eq_nil {current candidate : SecurityScanInfo} :
    comparisonMismatchMessage current candidate = [] ↔
      current.scanner = candidate.scanner ∧ current.scannerVersion = candidate.scannerVersion ∧
        current.scannerVersion ≠ [] ∧ current.scannerSchema = candidate.scannerSchema ∧ current.scannerSchema ≠ [] ∧
        databaseIdentity current = databaseIdentity candidate ∧ databaseIdentity current ≠ none ∧
        current.subject.platform = candidate.subject.platform := by
  have hcheck {c : Prop} [Decidable c] {message rest : Str} (hm : message ≠ []) :
      (if c then message else rest) = [] ↔ ¬ c ∧ rest = [] := by
    by_cases hc : c <;> simp [hc,hm]
  unfold comparisonMismatchMessage
  rw [hcheck (by decide),hcheck (by decide),hcheck (by decide),hcheck (by decide),hcheck (by decide),hcheck (by decide),
    hcheck (by decide),hcheck (by decide)]
  simp only [not_not,not_or,and_true]
  constructor
  · rintro ⟨hscanner,⟨hv,-⟩,hversion,⟨hs,-⟩,hschema,⟨hd,-⟩,hdatabase,hplatform⟩
    exact ⟨hscanner,hversion,hv,hschema,hs,hdatabase,hd,hplatform⟩
  · rintro ⟨hscanner,hversion,hv,hschema,hs,hdatabase,hd,hplatform⟩
    exact ⟨hscanner,⟨hv,hversion ▸ hv⟩,hversion,⟨hs,hschema ▸ hs⟩,hschema,⟨hd,hdatabase ▸ hd⟩,hdatabase,hplatform⟩

theorem Comparable.symm {current candidate : SecurityScanInfo} (h : Comparable current candidate) :
    Comparable candidate current where
  currentComplete := h.candidateComplete
  candidateComplete := h.currentComplete
  matching := by
    obtain ⟨hscanner,hversion,hv,hschema,hs,hdatabase,hd,hplatform⟩ := comparisonMismatchMessage_eq_nil.mp h.matching
    exact comparisonMismatchMessage_eq_nil.mpr ⟨hscanner.symm,hversion.symm,hversion ▸ hv,hschema.symm,hschema ▸ hs,
      hdatabase.symm,hdatabase ▸ hd,hplatform.symm⟩
  currentRows := h.candidateRows
  candidateRows := h.currentRows

theorem Comparable.refl_left {current candidate : SecurityScanInfo} (h : Comparable current candidate) :
    Comparable current current where
  currentComplete := h.currentComplete
  candidateComplete := h.currentComplete
  matching := by
    obtain ⟨-,-,hv,-,hs,-,hd,-⟩ := comparisonMismatchMessage_eq_nil.mp h.matching
    exact comparisonMismatchMessage_eq_nil.mpr ⟨rfl,rfl,hv,rfl,hs,rfl,hd,rfl⟩
  currentRows := h.currentRows
  candidateRows := h.currentRows

section
variable {current candidate : SecurityScanInfo} (h : Comparable current candidate)
include h

theorem comparison_of_comparable :
    let changes := findingChanges (findingsByKey current.findings) (findingsByKey candidate.findings)
    (comparison current candidate).status = comparisonStatus changes ∧
      (comparison current candidate).fixedFindings = changes.fixed ∧
      (comparison current candidate).remainingFindings = changes.remaining ∧
      (comparison current candidate).introducedFindings = changes.introduced := by
  rw [comparison,if_neg (by simp [h.currentComplete,h.candidateComplete]),if_neg (by simp [h.matching]),
    if_neg (by simp [h.currentRows,h.candidateRows])]
  exact ⟨rfl,rfl,rfl,rfl⟩

theorem rowsOf_comparison (key : FindingKey) :
    rowsOf key (comparison current candidate).fixedFindings =
        (rowsOf key current.findings).drop (sharedCount current.findings candidate.findings key) ∧
      rowsOf key (comparison current candidate).remainingFindings =
        (rowsOf key candidate.findings).take (sharedCount current.findings candidate.findings key) ∧
      rowsOf key (comparison current candidate).introducedFindings =
        (rowsOf key candidate.findings).drop (sharedCount current.findings candidate.findings key) := by
  obtain ⟨-,hfixed,hremaining,hintroduced⟩ := comparison_of_comparable h
  rw [hfixed,hremaining,hintroduced]
  exact rowsOf_findingChanges current.findings candidate.findings key

/-- Every row of the installed scan is fixed or remains. -/
theorem length_fixed_remaining (key : FindingKey) :
    (rowsOf key (comparison current candidate).fixedFindings).length +
        (rowsOf key (comparison current candidate).remainingFindings).length =
      (rowsOf key current.findings).length := by
  obtain ⟨hfixed,hremaining,-⟩ := rowsOf_comparison h key
  rw [hfixed,hremaining,List.length_drop,List.length_take,sharedCount]
  omega

/-- The rows of the candidate scan are those that remain and those that are introduced, in order. -/
theorem remaining_append_introduced (key : FindingKey) :
    rowsOf key (comparison current candidate).remainingFindings ++
        rowsOf key (comparison current candidate).introducedFindings = rowsOf key candidate.findings := by
  obtain ⟨-,hremaining,hintroduced⟩ := rowsOf_comparison h key
  rw [hremaining,hintroduced,List.take_append_drop]

theorem not_fixed_and_introduced {a b : SecurityScanFinding} (ha : a ∈ (comparison current candidate).fixedFindings)
    (hb : b ∈ (comparison current candidate).introducedFindings) : findingKey a ≠ findingKey b := by
  intro hkey
  have hfixed := mem_rowsOf.mpr ha
  have hintroduced := mem_rowsOf.mpr hb
  rw [(rowsOf_comparison h _).1] at hfixed
  rw [← hkey,(rowsOf_comparison h _).2.2] at hintroduced
  have hlongFixed := List.length_pos_of_mem hfixed
  have hlongIntroduced := List.length_pos_of_mem hintroduced
  rw [List.length_drop,sharedCount] at hlongFixed hlongIntroduced
  omega

/-- What one order of the scans calls fixed the other one calls introduced. -/
theorem length_fixed_swap :
    (comparison candidate current).fixedFindings.length = (comparison current candidate).introducedFindings.length := by
  apply length_eq_of_rowsOf
  intro key
  rw [(rowsOf_comparison h.symm key).1,(rowsOf_comparison h key).2.2,List.length_drop,List.length_drop,sharedCount,
    sharedCount,Nat.min_comm]

end

theorem comparisonStatus_iff (changes : FindingChanges) :
    (comparisonStatus changes = .improved ↔
        changes.fixed ≠ [] ∧ changes.remaining = [] ∧ changes.introduced = []) ∧
      (comparisonStatus changes = .worse ↔ changes.fixed = [] ∧ changes.introduced ≠ []) ∧
      (comparisonStatus changes = .mixed ↔
        changes.fixed ≠ [] ∧ (changes.remaining ≠ [] ∨ changes.introduced ≠ [])) ∧
      (comparisonStatus changes = .unchanged ↔ changes.fixed = [] ∧ changes.introduced = []) := by
  unfold comparisonStatus
  by_cases hfixed : changes.fixed = []
  · by_cases hintroduced : changes.introduced = []
    · simp [hfixed,hintroduced]
    · simp [hfixed,hintroduced]
  · by_cases hrest : changes.remaining = [] ∧ changes.introduced = []
    · simp [hfixed,hrest.1,hrest.2]
    · have hsome : changes.remaining ≠ [] ∨ changes.introduced ≠ [] := not_and_or.mp hrest
      have hnot : changes.remaining = [] → changes.introduced ≠ [] := fun h h' => hrest ⟨h,h'⟩
      simp [hfixed,hsome]
      exact hnot

/-- A scan compared with itself is unchanged. -/
theorem comparison_self {scan : SecurityScanInfo} (h : Comparable scan scan) :
    (comparison scan scan).status = .unchanged := by
  obtain ⟨hstatus,hfixed,-,hintroduced⟩ := comparison_of_comparable h
  have hnone : ∀ findings : List SecurityScanFinding, (∀ key, rowsOf key findings = []) → findings = [] := by
    intro findings hrows
    rw [List.eq_nil_iff_forall_not_mem]
    intro finding hf
    exact List.ne_nil_of_mem (mem_rowsOf.mpr hf) (hrows _)
  have hall (key : FindingKey) :
      (rowsOf key scan.findings).drop (sharedCount scan.findings scan.findings key) = [] := by
    rw [sharedCount,Nat.min_self,List.drop_length]
  rw [hstatus,(comparisonStatus_iff _).2.2.2,← hfixed,← hintroduced]
  exact ⟨hnone _ fun key => (rowsOf_comparison h key).1.trans (hall key),
    hnone _ fun key => (rowsOf_comparison h key).2.2.trans (hall key)⟩

/-- A comparison accounts for every row of both scans: what is fixed or remains are the installed scan's rows of
each key by number, what remains or is introduced the candidate's, and its status says which lists are empty. -/
theorem comparison_accounts {current candidate : SecurityScanInfo} (h : Comparable current candidate) :
    (∀ key, (rowsOf key ((comparison current candidate).fixedFindings ++
          (comparison current candidate).remainingFindings)).length = (rowsOf key current.findings).length ∧
        (rowsOf key ((comparison current candidate).introducedFindings ++
          (comparison current candidate).remainingFindings)).length = (rowsOf key candidate.findings).length) ∧
      (∀ a ∈ (comparison current candidate).fixedFindings, ∀ b ∈ (comparison current candidate).introducedFindings,
        findingKey a ≠ findingKey b) ∧
      (comparison candidate current).fixedFindings.length = (comparison current candidate).introducedFindings.length ∧
      (comparison candidate current).introducedFindings.length = (comparison current candidate).fixedFindings.length ∧
      ((comparison current candidate).status = .improved ↔ (comparison current candidate).fixedFindings ≠ [] ∧
        (comparison current candidate).remainingFindings = [] ∧
        (comparison current candidate).introducedFindings = []) ∧
      ((comparison current candidate).status = .worse ↔ (comparison current candidate).fixedFindings = [] ∧
        (comparison current candidate).introducedFindings ≠ []) ∧
      ((comparison current candidate).status = .mixed ↔ (comparison current candidate).fixedFindings ≠ [] ∧
        ((comparison current candidate).remainingFindings ≠ [] ∨
          (comparison current candidate).introducedFindings ≠ [])) ∧
      ((comparison current candidate).status = .unchanged ↔ (comparison current candidate).fixedFindings = [] ∧
        (comparison current candidate).introducedFindings = []) ∧
      (comparison current current).status = .unchanged := by
  obtain ⟨hstatus,hfixed,hremaining,hintroduced⟩ := comparison_of_comparable h
  obtain ⟨himproved,hworse,hmixed,hunchanged⟩ :=
    comparisonStatus_iff (findingChanges (findingsByKey current.findings) (findingsByKey candidate.findings))
  rw [← hstatus,← hfixed,← hremaining,← hintroduced] at himproved
  rw [← hstatus,← hfixed,← hintroduced] at hworse hunchanged
  rw [← hstatus,← hfixed,← hremaining,← hintroduced] at hmixed
  refine ⟨?_,fun a ha b hb => not_fixed_and_introduced h ha hb,length_fixed_swap h,(length_fixed_swap h.symm).symm,
    himproved,hworse,hmixed,hunchanged,comparison_self h.refl_left⟩
  intro key
  have hrows (xs ys : List SecurityScanFinding) : rowsOf key (xs ++ ys) = rowsOf key xs ++ rowsOf key ys :=
    List.filter_append xs ys
  rw [hrows,hrows,List.length_append,List.length_append]
  refine ⟨length_fixed_remaining h key,?_⟩
  rw [← remaining_append_introduced h key,List.length_append,Nat.add_comm]

namespace Example

def finding (package vulnerability : String) : SecurityScanFinding :=
  { target := "debian".toList, packageName := package.toList, vulnerabilityId := vulnerability.toList }

def scanOf (findings : List SecurityScanFinding) : SecurityScanInfo :=
  { state := .complete
    verdict := .findings
    scanner := "trivy".toList
    scannerVersion := "0.57".toList
    scannerSchema := "2".toList
    dbRevision := "7".toList
    dbUpdatedAt := "2025-01-01".toList
    findings }

/-- The installed image has one vulnerability twice, in two versions of a package. -/
def installedScan : SecurityScanInfo :=
  scanOf [finding "openssl" "CVE-1",finding "openssl" "CVE-1",finding "zlib" "CVE-2"]

def candidateScan : SecurityScanInfo := scanOf [finding "openssl" "CVE-1",finding "curl" "CVE-3"]

theorem comparable_scans : Comparable installedScan candidateScan := ⟨rfl,rfl,by decide,rfl,rfl⟩

theorem update_accounted : (comparison installedScan candidateScan).status = .mixed ∧
    (rowsOf (findingKey (finding "openssl" "CVE-1")) ((comparison installedScan candidateScan).fixedFindings ++
      (comparison installedScan candidateScan).remainingFindings)).length = 2 := by
  refine ⟨by decide +kernel,?_⟩
  rw [((comparison_accounts comparable_scans).1 _).1]
  decide

end Example

end Wudup
