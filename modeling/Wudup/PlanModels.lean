import Wudup.Models
import Wudup.Library.JsonRecord

/-! Dry-run plans, and the fields they are written with. -/
namespace Wudup.PlanIdentity
open Library

structure DigestTagProvenance where
  sourceImage : Str := []
  resolvedTag : Str := []
  watchTag : Str := []
  targetDigest : Str := []
  finalImage : Str := []
  provenanceSource : Str := []
  provenanceConfidence : Str := []
  deriving DecidableEq, Repr

structure DryRunPlanIssue where
  severity : Str
  code : Str
  message : Str
  lineNo : Option ℤ := none
  stack : Str := []
  service : Str := []
  hint : Str := []
  details : JsonDetails := {}

structure UnmatchedDiagnostic where
  code : Str
  message : Str
  hint : Str := []
  stack : Str := []
  service : Str := []
  composeFile : Str := []
  foundFiles : List Str := []
  details : JsonDetails := {}

structure DryRunPlanTarget where
  lineNo : ℤ
  raw : Str
  image : Str
  resolvedImage : Str
  digest : Str
  desiredTag : Str
  matched : Bool
  action : Str
  deriving DecidableEq, Repr

structure DryRunPlanLine where
  lineNo : ℤ
  raw : Str
  image : Str
  resolvedImage : Str
  composeImage : Str
  targetImage : Str
  service : Str
  digest : Str
  desiredTag : Str
  action : Str
  digestProvenance : Option DigestTagProvenance := none
  deriving DecidableEq, Repr

structure DryRunPlanTagUpdate where
  oldImage : Str
  desiredTag : Str
  newImage : Str
  services : List Str
  deriving DecidableEq, Repr

structure DryRunPlanTagStreamUpdate where
  lineNo : ℤ
  service : Str
  currentTag : Str
  reportedTag : Str
  selectedTag : Str
  decision : Str
  labelKey : Str
  currentLabelValue : Str
  proposedLabelValue : Str
  proposedLabelRegex : Str
  approved : Bool
  reason : Str
  deriving DecidableEq, Repr

structure DryRunPlanDigestPinLabelRewrite where
  service : Str
  labelKey : Str
  currentLabelValue : Str
  plannedTag : Str
  proposedLabelValue : Str
  proposedLabelRegex : Str
  approved : Bool
  reason : Str
  deriving DecidableEq, Repr

structure DryRunPlanDigestPinUpdate where
  sourceImage : Str
  resolvedTag : Str
  plannedDigest : Str
  finalImage : Str
  watchTag : Str
  marker : Str
  labelKey : Str
  labelValue : Str
  services : List Str
  labelRewrites : List DryRunPlanDigestPinLabelRewrite := []
  digestProvenance : Option DigestTagProvenance := none
  deriving DecidableEq, Repr

structure DryRunPlanDigestUnpinUpdate where
  sourceImage : Str
  resolvedTag : Str
  tagImage : Str
  currentDigest : Str
  targetDigest : Str
  watchTag : Str
  marker : Str
  labelKey : Str
  labelValue : Str
  services : List Str
  digestProvenance : Option DigestTagProvenance := none
  transformLabelValue : Str := []
  transformServices : List Str := []
  deriving DecidableEq, Repr

structure DryRunPlanAction where
  kind : Str
  description : Str
  cwd : Str
  args : List Str := []
  deriving DecidableEq, Repr

structure DryRunPlanStack where
  name : Str
  directory : Str
  composeFile : Str
  projectDirectory : Str
  servicesLabel : Str
  services : List Str
  pullServices : List Str
  stopServices : List Str
  forceRecreate : Bool
  upNoDeps : Bool
  tagUpdates : List DryRunPlanTagUpdate := []
  tagStreamUpdates : List DryRunPlanTagStreamUpdate := []
  digestPinUpdates : List DryRunPlanDigestPinUpdate := []
  digestUnpinUpdates : List DryRunPlanDigestUnpinUpdate := []
  actions : List DryRunPlanAction := []
  lines : List DryRunPlanLine := []
  deriving DecidableEq, Repr

structure DryRunPlanSkipped where
  lineNo : ℤ
  raw : Str
  image : Str
  desiredTag : Str
  reason : Str
  deriving DecidableEq, Repr

structure DryRunPlanSummary where
  targetCount : ℤ
  matchedTargetCount : ℤ
  stackCount : ℤ
  serviceCount : ℤ
  skippedCount : ℤ
  issueCount : ℤ
  deriving DecidableEq, Repr

structure DryRunPlanCleanupItem where
  lineNo : ℤ
  raw : Str
  image : Str
  desiredTag : Str
  digest : Str
  reason : Str
  diagnostic : Option UnmatchedDiagnostic := none

structure DryRunPlanCleanup where
  items : List DryRunPlanCleanupItem := []

inductive PendingSourceKind where
  | file
  | api
  deriving DecidableEq, Repr

structure DryRunPlanSource where
  configured : PendingSourceKind := .file
  active : PendingSourceKind := .file
  label : Str := "Pending file".toList
  fresh : Bool := true
  degraded : Bool := false
  fallbackReason : Str := []
  detail : Str := []
  sourceHash : Str := []
  sourceIdsByLine : OrderedItems ℤ Str := {}
  metadataStatusByLine : OrderedItems ℤ PendingMetadataStatus := {}

structure DryRunPlan where
  planId : Str
  dryRun : Bool
  canApply : Bool
  status : Str
  sourceFile : Str
  mode : Str
  maxWait : ℤ
  digestPinUpdates : Bool
  selectedLineNumbers : List ℤ
  summary : DryRunPlanSummary
  selectedSelections : List UpdateSelection := []
  source : DryRunPlanSource := {}
  targets : List DryRunPlanTarget := []
  planStacks : List DryRunPlanStack := []
  skipped : List DryRunPlanSkipped := []
  issues : List DryRunPlanIssue := []
  cleanup : DryRunPlanCleanup := {}

/-! The plan as JSON -/

def DigestTagProvenance.asdict (x : DigestTagProvenance) : List (Str × JsonValue) :=
  [field "source_image" x.sourceImage,field "resolved_tag" x.resolvedTag,field "watch_tag" x.watchTag,
    field "target_digest" x.targetDigest,field "final_image" x.finalImage,
    field "provenance_source" x.provenanceSource,field "provenance_confidence" x.provenanceConfidence]

instance : JsonData DigestTagProvenance := .ofFields DigestTagProvenance.asdict (fun _ _ => rfl)
    (fun _ => of_decide_eq_true rfl) <| by
  intro a b h
  cases a
  cases b
  simpa [DigestTagProvenance.asdict,field_inj] using h

def DryRunPlanIssue.asdict (x : DryRunPlanIssue) : List (Str × JsonValue) :=
  [field "severity" x.severity,field "code" x.code,field "message" x.message,field "line_no" x.lineNo,
    field "stack" x.stack,field "service" x.service,field "hint" x.hint,field "details" x.details]

instance : JsonData DryRunPlanIssue := .ofFields DryRunPlanIssue.asdict (fun _ _ => rfl)
    (fun _ => of_decide_eq_true rfl) <| by
  intro a b h
  cases a
  cases b
  simpa [DryRunPlanIssue.asdict,field_inj] using h

def UnmatchedDiagnostic.asdict (x : UnmatchedDiagnostic) : List (Str × JsonValue) :=
  [field "code" x.code,field "message" x.message,field "hint" x.hint,field "stack" x.stack,
    field "service" x.service,field "compose_file" x.composeFile,field "found_files" x.foundFiles,
    field "details" x.details]

instance : JsonData UnmatchedDiagnostic := .ofFields UnmatchedDiagnostic.asdict (fun _ _ => rfl)
    (fun _ => of_decide_eq_true rfl) <| by
  intro a b h
  cases a
  cases b
  simpa [UnmatchedDiagnostic.asdict,field_inj] using h

def DryRunPlanTarget.asdict (x : DryRunPlanTarget) : List (Str × JsonValue) :=
  [field "line_no" x.lineNo,field "raw" x.raw,field "image" x.image,field "resolved_image" x.resolvedImage,
    field "digest" x.digest,field "desired_tag" x.desiredTag,field "matched" x.matched,field "action" x.action]

instance : JsonData DryRunPlanTarget := .ofFields DryRunPlanTarget.asdict (fun _ _ => rfl)
    (fun _ => of_decide_eq_true rfl) <| by
  intro a b h
  cases a
  cases b
  simpa [DryRunPlanTarget.asdict,field_inj] using h

def DryRunPlanLine.asdict (x : DryRunPlanLine) : List (Str × JsonValue) :=
  [field "line_no" x.lineNo,field "raw" x.raw,field "image" x.image,field "resolved_image" x.resolvedImage,
    field "compose_image" x.composeImage,field "target_image" x.targetImage,field "service" x.service,
    field "digest" x.digest,field "desired_tag" x.desiredTag,field "action" x.action,
    field "digest_provenance" x.digestProvenance]

instance : JsonData DryRunPlanLine := .ofFields DryRunPlanLine.asdict (fun _ _ => rfl)
    (fun _ => of_decide_eq_true rfl) <| by
  intro a b h
  cases a
  cases b
  simpa [DryRunPlanLine.asdict,field_inj] using h

def DryRunPlanTagUpdate.asdict (x : DryRunPlanTagUpdate) : List (Str × JsonValue) :=
  [field "old_image" x.oldImage,field "desired_tag" x.desiredTag,field "new_image" x.newImage,
    field "services" x.services]

instance : JsonData DryRunPlanTagUpdate := .ofFields DryRunPlanTagUpdate.asdict (fun _ _ => rfl)
    (fun _ => of_decide_eq_true rfl) <| by
  intro a b h
  cases a
  cases b
  simpa [DryRunPlanTagUpdate.asdict,field_inj] using h

def DryRunPlanTagStreamUpdate.asdict (x : DryRunPlanTagStreamUpdate) : List (Str × JsonValue) :=
  [field "line_no" x.lineNo,field "service" x.service,field "current_tag" x.currentTag,
    field "reported_tag" x.reportedTag,field "selected_tag" x.selectedTag,field "decision" x.decision,
    field "label_key" x.labelKey,field "current_label_value" x.currentLabelValue,
    field "proposed_label_value" x.proposedLabelValue,field "proposed_label_regex" x.proposedLabelRegex,
    field "approved" x.approved,field "reason" x.reason]

instance : JsonData DryRunPlanTagStreamUpdate := .ofFields DryRunPlanTagStreamUpdate.asdict (fun _ _ => rfl)
    (fun _ => of_decide_eq_true rfl) <| by
  intro a b h
  cases a
  cases b
  simpa [DryRunPlanTagStreamUpdate.asdict,field_inj] using h

def DryRunPlanDigestPinLabelRewrite.asdict (x : DryRunPlanDigestPinLabelRewrite) : List (Str × JsonValue) :=
  [field "service" x.service,field "label_key" x.labelKey,field "current_label_value" x.currentLabelValue,
    field "planned_tag" x.plannedTag,field "proposed_label_value" x.proposedLabelValue,
    field "proposed_label_regex" x.proposedLabelRegex,field "approved" x.approved,field "reason" x.reason]

instance : JsonData DryRunPlanDigestPinLabelRewrite := .ofFields DryRunPlanDigestPinLabelRewrite.asdict (fun _ _ => rfl)
    (fun _ => of_decide_eq_true rfl) <| by
  intro a b h
  cases a
  cases b
  simpa [DryRunPlanDigestPinLabelRewrite.asdict,field_inj] using h

def DryRunPlanDigestPinUpdate.asdict (x : DryRunPlanDigestPinUpdate) : List (Str × JsonValue) :=
  [field "source_image" x.sourceImage,field "resolved_tag" x.resolvedTag,field "planned_digest" x.plannedDigest,
    field "final_image" x.finalImage,field "watch_tag" x.watchTag,field "marker" x.marker,
    field "label_key" x.labelKey,field "label_value" x.labelValue,field "services" x.services,
    field "label_rewrites" x.labelRewrites,field "digest_provenance" x.digestProvenance]

instance : JsonData DryRunPlanDigestPinUpdate := .ofFields DryRunPlanDigestPinUpdate.asdict (fun _ _ => rfl)
    (fun _ => of_decide_eq_true rfl) <| by
  intro a b h
  cases a
  cases b
  simpa [DryRunPlanDigestPinUpdate.asdict,field_inj] using h

def DryRunPlanDigestUnpinUpdate.asdict (x : DryRunPlanDigestUnpinUpdate) : List (Str × JsonValue) :=
  [field "source_image" x.sourceImage,field "resolved_tag" x.resolvedTag,field "tag_image" x.tagImage,
    field "current_digest" x.currentDigest,field "target_digest" x.targetDigest,field "watch_tag" x.watchTag,
    field "marker" x.marker,field "label_key" x.labelKey,field "label_value" x.labelValue,
    field "services" x.services,field "digest_provenance" x.digestProvenance,
    field "transform_label_value" x.transformLabelValue,field "transform_services" x.transformServices]

instance : JsonData DryRunPlanDigestUnpinUpdate := .ofFields DryRunPlanDigestUnpinUpdate.asdict (fun _ _ => rfl)
    (fun _ => of_decide_eq_true rfl) <| by
  intro a b h
  cases a
  cases b
  simpa [DryRunPlanDigestUnpinUpdate.asdict,field_inj] using h

def DryRunPlanAction.asdict (x : DryRunPlanAction) : List (Str × JsonValue) :=
  [field "kind" x.kind,field "description" x.description,field "cwd" x.cwd,field "args" x.args]

instance : JsonData DryRunPlanAction := .ofFields DryRunPlanAction.asdict (fun _ _ => rfl)
    (fun _ => of_decide_eq_true rfl) <| by
  intro a b h
  cases a
  cases b
  simpa [DryRunPlanAction.asdict,field_inj] using h

def DryRunPlanStack.asdict (x : DryRunPlanStack) : List (Str × JsonValue) :=
  [field "name" x.name,field "directory" x.directory,field "compose_file" x.composeFile,
    field "project_directory" x.projectDirectory,field "services_label" x.servicesLabel,
    field "services" x.services,field "pull_services" x.pullServices,field "stop_services" x.stopServices,
    field "force_recreate" x.forceRecreate,field "up_no_deps" x.upNoDeps,field "tag_updates" x.tagUpdates,
    field "tag_stream_updates" x.tagStreamUpdates,field "digest_pin_updates" x.digestPinUpdates,
    field "digest_unpin_updates" x.digestUnpinUpdates,field "actions" x.actions,field "lines" x.lines]

instance : JsonData DryRunPlanStack := .ofFields DryRunPlanStack.asdict (fun _ _ => rfl)
    (fun _ => of_decide_eq_true rfl) <| by
  intro a b h
  cases a
  cases b
  simpa [DryRunPlanStack.asdict,field_inj] using h

def DryRunPlanSkipped.asdict (x : DryRunPlanSkipped) : List (Str × JsonValue) :=
  [field "line_no" x.lineNo,field "raw" x.raw,field "image" x.image,field "desired_tag" x.desiredTag,
    field "reason" x.reason]

instance : JsonData DryRunPlanSkipped := .ofFields DryRunPlanSkipped.asdict (fun _ _ => rfl)
    (fun _ => of_decide_eq_true rfl) <| by
  intro a b h
  cases a
  cases b
  simpa [DryRunPlanSkipped.asdict,field_inj] using h

def DryRunPlanSummary.asdict (x : DryRunPlanSummary) : List (Str × JsonValue) :=
  [field "target_count" x.targetCount,field "matched_target_count" x.matchedTargetCount,
    field "stack_count" x.stackCount,field "service_count" x.serviceCount,field "skipped_count" x.skippedCount,
    field "issue_count" x.issueCount]

instance : JsonData DryRunPlanSummary := .ofFields DryRunPlanSummary.asdict (fun _ _ => rfl)
    (fun _ => of_decide_eq_true rfl) <| by
  intro a b h
  cases a
  cases b
  simpa [DryRunPlanSummary.asdict,field_inj] using h

def DryRunPlanCleanupItem.asdict (x : DryRunPlanCleanupItem) : List (Str × JsonValue) :=
  [field "line_no" x.lineNo,field "raw" x.raw,field "image" x.image,field "desired_tag" x.desiredTag,
    field "digest" x.digest,field "reason" x.reason,field "diagnostic" x.diagnostic]

instance : JsonData DryRunPlanCleanupItem := .ofFields DryRunPlanCleanupItem.asdict (fun _ _ => rfl)
    (fun _ => of_decide_eq_true rfl) <| by
  intro a b h
  cases a
  cases b
  simpa [DryRunPlanCleanupItem.asdict,field_inj] using h

def DryRunPlanCleanup.asdict (x : DryRunPlanCleanup) : List (Str × JsonValue) :=
  [field "items" x.items]

instance : JsonData DryRunPlanCleanup := .ofFields DryRunPlanCleanup.asdict (fun _ _ => rfl)
    (fun _ => of_decide_eq_true rfl) <| by
  intro a b h
  cases a
  cases b
  simpa [DryRunPlanCleanup.asdict,field_inj] using h

instance : JsonData PendingSourceKind where
  toJson
    | .file => .string "file".toList
    | .api => .string "api".toList
  inj a b h := by
    cases a <;> cases b <;> simp_all
  ne_null a := by cases a <;> simp

instance : JsonData PendingMetadataStatus where
  toJson
    | .fresh => .string "fresh".toList
    | .retained => .string "retained".toList
    | .recovered => .string "recovered".toList
  inj a b h := by
    cases a <;> cases b <;> simp_all
  ne_null a := by cases a <;> simp

def DryRunPlanSource.asdict (x : DryRunPlanSource) : List (Str × JsonValue) :=
  [field "configured" x.configured,field "active" x.active,field "label" x.label,field "fresh" x.fresh,
    field "degraded" x.degraded,field "fallback_reason" x.fallbackReason,field "detail" x.detail,
    field "source_hash" x.sourceHash,field "source_ids_by_line" x.sourceIdsByLine,
    field "metadata_status_by_line" x.metadataStatusByLine]

instance : JsonData DryRunPlanSource := .ofFields DryRunPlanSource.asdict (fun _ _ => rfl)
    (fun _ => of_decide_eq_true rfl) <| by
  intro a b h
  cases a
  cases b
  simpa [DryRunPlanSource.asdict,field_inj] using h

def UpdateSelection.asdict (x : UpdateSelection) : List (Str × JsonValue) :=
  [field "line_no" x.lineNo,field "selection_id" x.selectionId]

instance : JsonData UpdateSelection := .ofFields UpdateSelection.asdict (fun _ _ => rfl)
    (fun _ => of_decide_eq_true rfl) <| by
  intro a b h
  cases a
  cases b
  simpa [UpdateSelection.asdict,field_inj] using h

def DryRunPlan.asdict (x : DryRunPlan) : List (Str × JsonValue) :=
  [field "plan_id" x.planId,field "dry_run" x.dryRun,field "can_apply" x.canApply,field "status" x.status,
    field "source_file" x.sourceFile,field "mode" x.mode,field "max_wait" x.maxWait,
    field "digest_pin_updates" x.digestPinUpdates,field "selected_line_numbers" x.selectedLineNumbers,
    field "summary" x.summary,field "selected_selections" x.selectedSelections,field "source" x.source,
    field "targets" x.targets,field "stacks" x.planStacks,field "skipped" x.skipped,field "issues" x.issues,
    field "cleanup" x.cleanup]

end Wudup.PlanIdentity
