import Wudup.PlanModels
import Wudup.Library.Keyed
import Mathlib.Data.Prod.Lex

/-! The id of a plan: what an approval agrees to, and the options the plan was built with. -/
namespace Wudup.PlanIdentity
open Library

/-- A path, whose text is never empty: the empty path is written as a dot. -/
structure Path where
  text : Str
  ne_nil : text ≠ []

structure UpdaterConfig where
  dockerBase : Path
  wudOutFile : Path
  updateMode : Str
  maxWait : ℤ

structure TagOverride where
  lineNo : ℤ
  tag : Str
  deriving DecidableEq, Repr

structure TagStreamDecision where
  lineNo : ℤ
  decision : Str
  deriving DecidableEq, Repr

def TagOverride.fields (x : TagOverride) : List (Str × JsonValue) := [field "line_no" x.lineNo,field "tag" x.tag]

instance : JsonData TagOverride := .ofFields TagOverride.fields (fun _ _ => rfl) (fun _ => of_decide_eq_true rfl) <| by
  intro a b h
  cases a
  cases b
  simpa [TagOverride.fields,field_inj] using h

def TagStreamDecision.fields (x : TagStreamDecision) : List (Str × JsonValue) :=
  [field "line_no" x.lineNo,field "decision" x.decision]

instance : JsonData TagStreamDecision := .ofFields TagStreamDecision.fields (fun _ _ => rfl)
    (fun _ => of_decide_eq_true rfl) <| by
  intro a b h
  cases a
  cases b
  simpa [TagStreamDecision.fields,field_inj] using h

def streamApprovalFields (x : TagStreamLabelRewriteApproval) : List (Str × JsonValue) :=
  [field "line_no" x.lineNo,field "stack" x.stack,field "stack_directory" x.stackDirectory,
    field "compose_file" x.composeFile,field "service" x.service,field "label_key" x.labelKey,
    field "current_label_value" x.currentLabelValue,field "selected_tag" x.selectedTag,
    field "proposed_label_value" x.proposedLabelValue]

instance : JsonData TagStreamLabelRewriteApproval := .ofFields streamApprovalFields (fun _ _ => rfl)
    (fun _ => of_decide_eq_true rfl) <| by
  intro a b h
  cases a
  cases b
  simpa [streamApprovalFields,field_inj] using h

def pinApprovalFields (x : DigestPinLabelRewriteApproval) : List (Str × JsonValue) :=
  [field "stack" x.stack,field "service" x.service,field "label_key" x.labelKey,
    field "current_label_value" x.currentLabelValue,field "planned_tag" x.plannedTag,
    field "proposed_label_value" x.proposedLabelValue]

instance : JsonData DigestPinLabelRewriteApproval := .ofFields pinApprovalFields (fun _ _ => rfl)
    (fun _ => of_decide_eq_true rfl) <| by
  intro a b h
  cases a
  cases b
  simpa [pinApprovalFields,field_inj] using h

/-! The keys the options are sorted by -/

def TagStreamDecision.sortKey (x : TagStreamDecision) : ℤ ×ₗ Str := toLex (x.lineNo,x.decision)

def streamApprovalKey (x : TagStreamLabelRewriteApproval) :
    ℕ ×ₗ Str ×ₗ Str ×ₗ Str ×ₗ Str ×ₗ Str ×ₗ Str ×ₗ Str ×ₗ Str :=
  toLex (x.lineNo,toLex (x.stack,toLex (x.stackDirectory,toLex (x.composeFile,toLex (x.service,toLex (x.labelKey,
    toLex (x.currentLabelValue,toLex (x.selectedTag,x.proposedLabelValue))))))))

def pinApprovalKey (x : DigestPinLabelRewriteApproval) : Str ×ₗ Str ×ₗ Str ×ₗ Str ×ₗ Str ×ₗ Str :=
  toLex (x.stack,toLex (x.service,toLex (x.labelKey,toLex (x.currentLabelValue,
    toLex (x.plannedTag,x.proposedLabelValue)))))

/-- What an id is made from. -/
structure PlanIdInput where
  plan : DryRunPlan
  config : UpdaterConfig
  allowTagUpdates : Bool
  tagOverrides : List TagOverride
  tagStreamDecisions : List TagStreamDecision
  tagStreamLabelRewriteApprovals : List TagStreamLabelRewriteApproval
  digestPinLabelRewriteApprovals : List DigestPinLabelRewriteApproval
  hostDockerBase : Option Path
  wudFileHash : Str
  sourceFile : Option Str := none

def popKeys (names : List Str) (fields : List (Str × JsonValue)) : List (Str × JsonValue) :=
  fields.filter fun f => f.1 ∉ names

/-- The metadata of the selected lines. -/
def DryRunPlanSource.selected (source : DryRunPlanSource) (lineNumbers : List ℤ) : DryRunPlanSource :=
  { source with
    sourceIdsByLine := source.sourceIdsByLine.filter (· ∈ lineNumbers)
    metadataStatusByLine := source.metadataStatusByLine.filter (· ∈ lineNumbers) }

def sourcePayload (source : DryRunPlanSource) (lineNumbers : List ℤ) : JsonValue :=
  .record (popKeys ["fresh".toList,"degraded".toList,"fallback_reason".toList,"detail".toList]
    (source.selected lineNumbers).asdict)

def planPayload (plan : DryRunPlan) : JsonValue :=
  .record ((popKeys ["plan_id".toList,"can_apply".toList] plan.asdict).map fun f =>
    if f.1 = "source".toList then ("source".toList,sourcePayload plan.source plan.selectedLineNumbers) else f)

namespace PlanIdInput
variable (x : PlanIdInput)

/-- The source file, or the WUD file where none is named. -/
def sourceFileName : Str :=
  match x.sourceFile with
  | none | some [] => x.config.wudOutFile.text
  | some name => name

def hostDockerBaseText : Str := (x.hostDockerBase.map (·.text)).getD []

def payload : JsonValue :=
  .record [field "version" (1 : ℤ),field "allow_tag_updates" x.allowTagUpdates,
    field "tag_overrides" (Keyed.sortedBy TagOverride.lineNo x.tagOverrides),
    field "tag_stream_decisions" (Keyed.sortedBy TagStreamDecision.sortKey x.tagStreamDecisions),
    field "tag_stream_label_rewrite_approvals"
      (Keyed.sortedBy streamApprovalKey x.tagStreamLabelRewriteApprovals),
    field "digest_pin_label_rewrite_approvals"
      (Keyed.sortedBy pinApprovalKey x.digestPinLabelRewriteApprovals),
    field "docker_base" x.config.dockerBase.text,field "host_docker_base" x.hostDockerBaseText,
    field "max_wait" x.config.maxWait,field "mode" x.config.updateMode,("plan".toList,planPayload x.plan),
    field "source_file" x.sourceFileName,field "wud_file_sha256" x.wudFileHash]

/-- The id, for a hash function of texts. -/
def planId (sha256 : Str → Str) : Str := sha256 x.payload.text

end PlanIdInput

/-! What an id stands for -/

/-- What of the source is reviewed. -/
def DryRunPlanSource.reviewed (source : DryRunPlanSource) (lineNumbers : List ℤ) : DryRunPlanSource :=
  { source.selected lineNumbers with
    fresh := true
    degraded := false
    fallbackReason := []
    detail := [] }

/-- A plan without its id, whether it can be applied, how its source was read and the metadata of lines that are
not selected. -/
def DryRunPlan.reviewed (plan : DryRunPlan) : DryRunPlan :=
  { plan with
    planId := []
    canApply := false
    source := plan.source.reviewed plan.selectedLineNumbers }

/-- The same reviewed plan, built with the same options. -/
structure SameWork (x y : PlanIdInput) : Prop where
  plan : x.plan.reviewed = y.plan.reviewed
  allowTagUpdates : x.allowTagUpdates = y.allowTagUpdates
  dockerBase : x.config.dockerBase = y.config.dockerBase
  hostDockerBase : x.hostDockerBase = y.hostDockerBase
  maxWait : x.config.maxWait = y.config.maxWait
  mode : x.config.updateMode = y.config.updateMode
  sourceFile : x.sourceFileName = y.sourceFileName
  wudFileHash : x.wudFileHash = y.wudFileHash
  tagOverrides : x.tagOverrides.Perm y.tagOverrides
  tagStreamDecisions : x.tagStreamDecisions.Perm y.tagStreamDecisions
  tagStreamLabelRewriteApprovals : x.tagStreamLabelRewriteApprovals.Perm y.tagStreamLabelRewriteApprovals
  digestPinLabelRewriteApprovals : x.digestPinLabelRewriteApprovals.Perm y.digestPinLabelRewriteApprovals

/-- The options in another order. -/
structure Reordered (x y : PlanIdInput) : Prop where
  rest : x = { y with
    tagOverrides := x.tagOverrides
    tagStreamDecisions := x.tagStreamDecisions
    tagStreamLabelRewriteApprovals := x.tagStreamLabelRewriteApprovals
    digestPinLabelRewriteApprovals := x.digestPinLabelRewriteApprovals }
  tagOverrides : x.tagOverrides.Perm y.tagOverrides
  lineNumbers : (x.tagOverrides.map (·.lineNo)).Nodup
  tagStreamDecisions : x.tagStreamDecisions.Perm y.tagStreamDecisions
  tagStreamLabelRewriteApprovals : x.tagStreamLabelRewriteApprovals.Perm y.tagStreamLabelRewriteApprovals
  digestPinLabelRewriteApprovals : x.digestPinLabelRewriteApprovals.Perm y.digestPinLabelRewriteApprovals

theorem TagStreamDecision.sortKey_inj {a b : TagStreamDecision} (h : a.sortKey = b.sortKey) : a = b := by
  cases a
  cases b
  simpa [TagStreamDecision.sortKey] using h

theorem streamApprovalKey_inj {a b : TagStreamLabelRewriteApproval} (h : streamApprovalKey a = streamApprovalKey b) :
    a = b := by
  cases a
  cases b
  simpa [streamApprovalKey] using h

theorem pinApprovalKey_inj {a b : DigestPinLabelRewriteApproval} (h : pinApprovalKey a = pinApprovalKey b) :
    a = b := by
  cases a
  cases b
  simpa [pinApprovalKey] using h

theorem sourcePayload_eq (s : DryRunPlanSource) (m : List ℤ) : sourcePayload s m = .record
    [field "configured" s.configured,field "active" s.active,field "label" s.label,
      field "source_hash" s.sourceHash,field "source_ids_by_line" (s.selected m).sourceIdsByLine,
      field "metadata_status_by_line" (s.selected m).metadataStatusByLine] := rfl

theorem sourcePayload_inj {s t : DryRunPlanSource} {m n : List ℤ} (h : sourcePayload s m = sourcePayload t n) :
    s.reviewed m = t.reviewed n := by
  rw [sourcePayload_eq,sourcePayload_eq] at h
  have hfields := JsonValue.record_inj h (by simp only [List.map_cons,List.map_nil,field]) (of_decide_eq_true rfl)
  simp only [List.cons.injEq,field_inj,and_true] at hfields
  obtain ⟨hc,ha,hl,hh,hi,hm⟩ := hfields
  unfold DryRunPlanSource.reviewed
  rw [DryRunPlanSource.selected,DryRunPlanSource.selected] at *
  simp only [hc,ha,hl,hh] at *
  rw [hi,hm]

theorem planPayload_eq (p : DryRunPlan) : planPayload p = .record
    [field "dry_run" p.dryRun,field "status" p.status,field "source_file" p.sourceFile,field "mode" p.mode,
      field "max_wait" p.maxWait,field "digest_pin_updates" p.digestPinUpdates,
      field "selected_line_numbers" p.selectedLineNumbers,field "summary" p.summary,
      field "selected_selections" p.selectedSelections,
      ("source".toList,sourcePayload p.source p.selectedLineNumbers),field "targets" p.targets,
      field "stacks" p.planStacks,field "skipped" p.skipped,field "issues" p.issues,field "cleanup" p.cleanup] := rfl

theorem planPayload_inj {p q : DryRunPlan} (h : planPayload p = planPayload q) : p.reviewed = q.reviewed := by
  rw [planPayload_eq,planPayload_eq] at h
  have hfields := JsonValue.record_inj h (by simp only [List.map_cons,List.map_nil,field]) (of_decide_eq_true rfl)
  simp only [List.cons.injEq,field_inj,Prod.mk.injEq,true_and,and_true] at hfields
  obtain ⟨hdry,hstatus,hfile,hmode,hwait,hpin,hlines,hsummary,hselections,hsource,htargets,hstacks,hskipped,hissues,
    hcleanup⟩ := hfields
  unfold DryRunPlan.reviewed
  rw [sourcePayload_inj hsource]
  simp only [hdry,hstatus,hfile,hmode,hwait,hpin,hlines,hsummary,hselections,htargets,hstacks,hskipped,hissues,
    hcleanup]

theorem hostDockerBase_inj {x y : PlanIdInput} (h : x.hostDockerBaseText = y.hostDockerBaseText) :
    x.hostDockerBase = y.hostDockerBase := by
  unfold PlanIdInput.hostDockerBaseText at h
  cases hx : x.hostDockerBase with
  | none =>
    cases hy : y.hostDockerBase with
    | none => rfl
    | some b =>
      rw [hx,hy] at h
      exact absurd h.symm b.ne_nil
  | some a =>
    cases hy : y.hostDockerBase with
    | none =>
      rw [hx,hy] at h
      exact absurd h a.ne_nil
    | some b =>
      rw [hx,hy] at h
      cases a
      cases b
      cases h
      rfl

theorem Path.ext_text {a b : Path} (h : a.text = b.text) : a = b := by
  cases a
  cases b
  cases h
  rfl

theorem payload_inj {x y : PlanIdInput} (h : x.payload = y.payload) : SameWork x y := by
  unfold PlanIdInput.payload at h
  have hfields := JsonValue.record_inj h (by simp only [List.map_cons,List.map_nil,field]) (of_decide_eq_true rfl)
  simp only [List.cons.injEq,field_inj,Prod.mk.injEq,true_and,and_true] at hfields
  obtain ⟨hallow,hoverrides,hdecisions,hstream,hpin,hbase,hhost,hwait,hmode,hplan,hfile,hhash⟩ := hfields
  exact {
    plan := planPayload_inj hplan
    allowTagUpdates := hallow
    dockerBase := Path.ext_text hbase
    hostDockerBase := hostDockerBase_inj hhost
    maxWait := hwait
    mode := hmode
    sourceFile := hfile
    wudFileHash := hhash
    tagOverrides := Keyed.perm_of_sortedBy_eq hoverrides
    tagStreamDecisions := Keyed.perm_of_sortedBy_eq hdecisions
    tagStreamLabelRewriteApprovals := Keyed.perm_of_sortedBy_eq hstream
    digestPinLabelRewriteApprovals := Keyed.perm_of_sortedBy_eq hpin }

theorem payload_eq_of_reordered {x y : PlanIdInput} (h : Reordered x y) : x.payload = y.payload := by
  have hoverrides : Keyed.sortedBy TagOverride.lineNo x.tagOverrides =
      Keyed.sortedBy TagOverride.lineNo y.tagOverrides :=
    Keyed.sortedBy_eq_of_perm h.tagOverrides fun _ ha _ hb => List.inj_on_of_nodup_map h.lineNumbers ha hb
  have hdecisions : Keyed.sortedBy TagStreamDecision.sortKey x.tagStreamDecisions =
      Keyed.sortedBy TagStreamDecision.sortKey y.tagStreamDecisions :=
    Keyed.sortedBy_eq_of_perm h.tagStreamDecisions fun _ _ _ _ => TagStreamDecision.sortKey_inj
  have hstream : Keyed.sortedBy streamApprovalKey x.tagStreamLabelRewriteApprovals =
      Keyed.sortedBy streamApprovalKey y.tagStreamLabelRewriteApprovals :=
    Keyed.sortedBy_eq_of_perm h.tagStreamLabelRewriteApprovals fun _ _ _ _ => streamApprovalKey_inj
  have hpin : Keyed.sortedBy pinApprovalKey x.digestPinLabelRewriteApprovals =
      Keyed.sortedBy pinApprovalKey y.digestPinLabelRewriteApprovals :=
    Keyed.sortedBy_eq_of_perm h.digestPinLabelRewriteApprovals fun _ _ _ _ => pinApprovalKey_inj
  unfold PlanIdInput.payload
  rw [hoverrides,hdecisions,hstream,hpin,h.rest]
  rfl

/-- Where no two texts have one hash, an id stands for one reviewed plan and its options; their order does not
count. -/
theorem plan_id_identifies {sha256 : Str → Str} (hash : Function.Injective sha256) :
    (∀ x y : PlanIdInput, x.planId sha256 = y.planId sha256 → SameWork x y) ∧
      ∀ x y : PlanIdInput, Reordered x y → x.planId sha256 = y.planId sha256 := by
  constructor
  · intro x y h
    exact payload_inj (JsonValue.text_injective (hash h))
  · intro x y h
    rw [PlanIdInput.planId,PlanIdInput.planId,payload_eq_of_reordered h]

/-- A plan of one line as it is built, and as it is read again later from another source. -/
def builtInput : PlanIdInput where
  plan := ⟨[],true,false,"ready".toList,"/out/wud".toList,"stop".toList,60,false,[1],⟨1,1,0,0,0,0⟩,[],{},[],[],[],[],
    {}⟩
  config := ⟨⟨"/docker".toList,by simp⟩,⟨"/out/wud".toList,by simp⟩,"stop".toList,60⟩
  allowTagUpdates := true
  tagOverrides := []
  tagStreamDecisions := []
  tagStreamLabelRewriteApprovals := []
  digestPinLabelRewriteApprovals := []
  hostDockerBase := none
  wudFileHash := "00".toList

def reloadedInput : PlanIdInput :=
  { builtInput with
    plan := { builtInput.plan with
      planId := "f0".toList
      canApply := true
      source := { degraded := true, sourceIdsByLine := ⟨[(2,['c'])],by simp⟩ } } }

theorem reloaded_same_work : SameWork builtInput reloadedInput :=
  (@plan_id_identifies id Function.injective_id).1 _ _ rfl

end Wudup.PlanIdentity
