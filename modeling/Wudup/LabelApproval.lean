import Wudup.Library.Traverse
import Wudup.ComposeRender

/-! No label of a user is overwritten without an approval that names it. -/
namespace Wudup
open Library

/-- The value of a service's label, without the escapes of Compose. -/
def previousLabel (document : ComposeDocument) (service key : Str) : Rewrite Str := do
  let config ← directServiceConfig document service
  let config ← materializeInheritedServiceLabels config service
  let label ← getServiceLabelValue config key service
  return composeUnescapeDollars label

/-- One label that a renderer replaces; the proposed value is the one it writes. -/
structure LabelOverwrite where
  stack : Str
  service : Str
  labelKey : Str
  current : Str
  currentTag : Str
  plannedTag : Str
  proposed : Str

/-- The label holds nothing to lose, is exact for one tag, or an approval names it with what replaces it. -/
inductive Overwritable (pinApprovals : List DigestPinLabelRewriteApproval)
    (streamApprovals : List TagStreamLabelRewriteApproval) (o : LabelOverwrite) : Prop
  | empty (h : o.current = [])
  | proposed (h : o.current = composeUnescapeDollars o.proposed)
  | exactRegex (tag : Str) (h : o.current = exactTagRegex tag)
  | plainTag (valid : tagValueValid o.current) (h : o.current = o.currentTag ∨ o.current = o.plannedTag)
  | pinApproval (a : DigestPinLabelRewriteApproval) (ha : a ∈ pinApprovals)
      (h : a = ⟨o.stack,o.service,o.labelKey,o.current,o.plannedTag,o.proposed⟩)
  | streamApproval (a : TagStreamLabelRewriteApproval) (ha : a ∈ streamApprovals)
      (h : a.stack = o.stack ∧ a.service = o.service ∧ a.labelKey = o.labelKey ∧
        a.currentLabelValue = o.current ∧ a.selectedTag = o.plannedTag ∧ a.proposedLabelValue = o.proposed)

theorem composeUnescape_escape (value : Str) : composeUnescapeDollars (composeEscapeDollars value) = value := by
  induction value with
  | nil => rfl
  | cons c rest ih =>
    have hcons : composeEscapeDollars (c :: rest) =
        (if c = '$' then ['$','$'] else [c]) ++ composeEscapeDollars rest := rfl
    rw [hcons]
    by_cases hc : c = '$'
    · subst hc
      simp [composeUnescapeDollars,ih]
    · rw [if_neg hc,List.singleton_append,composeUnescapeDollars.eq_2]
      · rw [ih]
      · intro rest' hd
        simp_all

theorem jsRegexEscape_cons (c : Char) (rest : Str) :
    jsRegexEscape (c :: rest) = (if regexSpecial c then ['\\',c] else [c]) ++ jsRegexEscape rest := rfl

/-- A text that decodes to a tag is the tag's escaped expression. -/
theorem jsRegexEscape_of_decode {value tag : Str} (h : decodeExactTag value = some tag) :
    jsRegexEscape tag = value := by
  induction value using decodeExactTag.induct generalizing tag with
  | case1 =>
    cases h
    rfl
  | case2 => cases h
  | case3 d rest hd ih =>
    simp only [decodeExactTag,if_pos hd,if_true] at h
    obtain ⟨decoded,hdecoded,rfl⟩ := Option.map_eq_some_iff.mp h
    rw [jsRegexEscape_cons,if_pos hd,ih hdecoded]
    rfl
  | case4 d rest hd =>
    simp only [decodeExactTag,if_true,if_neg hd] at h
    cases h
  | case5 c rest hc hs =>
    rw [decodeExactTag.eq_def] at h
    simp only [if_neg hc,if_pos hs] at h
    cases h
  | case6 c rest hc hs ih =>
    rw [decodeExactTag.eq_def] at h
    simp only [if_neg hc,if_neg hs] at h
    obtain ⟨decoded,hdecoded,rfl⟩ := Option.map_eq_some_iff.mp h
    rw [jsRegexEscape_cons,if_neg hs,ih hdecoded]
    rfl

theorem exactTagRegex_of_simple {value : Str} (h : isSimpleExactTagInclude value = true) :
    ∃ tag, value = exactTagRegex tag := by
  simp only [isSimpleExactTagInclude,Bool.and_eq_true,decide_eq_true_eq,Option.any_eq_true] at h
  obtain ⟨⟨⟨hlength,hhead⟩,hlast⟩,tag,hdecode,-⟩ := h
  refine ⟨tag,?_⟩
  rw [exactTagRegex,jsRegexEscape_of_decode hdecode]
  obtain ⟨rest,rfl⟩ : ∃ rest, value = '^' :: rest := by
    cases value with
    | nil => cases hhead
    | cons c rest => exact ⟨rest,by simpa using hhead⟩
  have hne : rest ≠ [] := by
    rintro rfl
    simp at hlength
  have hrest : rest.getLast? = some '$' := by
    rwa [List.getLast?_cons_of_ne_nil hne] at hlast
  rw [List.tail_cons,List.cons_append,List.dropLast_append_getLast? '$' hrest]

@[simp] theorem refuse_bind {α β : Type} (message : String) (f : α → Rewrite β) (y : β) :
    ((refuse message : Rewrite α) >>= f) ≠ .ok y := by
  simp [refuse,bind,Except.bind]

@[simp] theorem refuse_ne_ok {α : Type} (message : String) (y : α) : (refuse message : Rewrite α) ≠ .ok y := by
  simp [refuse]

theorem config_of_directServiceConfig {document : ComposeDocument} {service : Str} {config : ServiceConfig}
    (h : directServiceConfig document service = .ok config) : document.config service = some config := by
  unfold directServiceConfig at h
  split at h
  · cases h
    assumption
  · exact absurd h (refuse_ne_ok _ _)

theorem config_of_rewriteServiceConfig {document : ComposeDocument} {service : Str} {config : ServiceConfig}
    {required : Bool} (h : rewriteServiceConfig document service required = .ok config) :
    directServiceConfig document service = .ok config := by
  unfold rewriteServiceConfig at h
  obtain ⟨found,hfound,h⟩ := bind_eq_ok.mp h
  obtain ⟨-,-,h⟩ := bind_eq_ok.mp h
  dsimp only at h
  split at h
  · exact absurd h (refuse_bind _ _ _)
  · obtain ⟨-,-,h⟩ := bind_eq_ok.mp h
    cases h
    exact hfound

theorem materialize_of_prepare {document : ComposeDocument} {service : Str} {config prepared : ServiceConfig}
    (h : prepareServiceLabels document service config = .ok prepared) :
    materializeInheritedServiceLabels config service = .ok prepared := by
  unfold prepareServiceLabels at h
  obtain ⟨copied,hcopied,h⟩ := bind_eq_ok.mp h
  rw [hcopied]
  split at h
  · cases h
    rfl
  · dsimp only at h
    split at h
    · obtain ⟨-,-,h⟩ := bind_eq_ok.mp h
      cases h
      rfl
    · cases h
      rfl

/-- What a renderer reads of a label before it replaces it. -/
theorem previousLabel_of_read {document : ComposeDocument} {service key label : Str} {required : Bool}
    {config prepared : ServiceConfig} (hc : rewriteServiceConfig document service required = .ok config)
    (hp : prepareServiceLabels document service config = .ok prepared)
    (hl : getServiceLabelValue prepared key service = .ok label) :
    previousLabel document service key = .ok (composeUnescapeDollars label) := by
  unfold previousLabel
  rw [config_of_rewriteServiceConfig hc]
  change (materializeInheritedServiceLabels config service >>= _) = _
  rw [materialize_of_prepare hp]
  change (getServiceLabelValue prepared key service >>= _) = _
  rw [hl]
  rfl

/-- A service is found where it was, with its new configuration if it is the one that was set. -/
theorem find_setConfig (document : ComposeDocument) (service other : Str) (config : ServiceConfig) :
    (document.setConfig service config).services.find? (fun entry => decide (entry.name = some other)) =
      (document.services.find? fun entry => decide (entry.name = some other)).map fun entry =>
        if entry.name = some service then { entry with config := some config } else entry := by
  unfold ComposeDocument.setConfig
  rw [List.find?_map]
  congr 2
  funext entry
  by_cases hs : entry.name = some service
  · simp [hs]
  · simp [hs]

theorem config_setConfig_of_ne {document : ComposeDocument} {service other : Str} (config : ServiceConfig)
    (h : other ≠ service) : (document.setConfig service config).config other = document.config other := by
  rw [ComposeDocument.config,find_setConfig,ComposeDocument.config]
  cases hf : document.services.find? fun entry => decide (entry.name = some other) with
  | none => rfl
  | some entry =>
    have hentry : entry.name = some other := by simpa using List.find?_some hf
    have hne : entry.name ≠ some service := by simpa [hentry] using h
    simp [hne]

/-- Rewrites that touch some services each leave every other service alone. -/
theorem foldlM_frame {τ υ : Type} (documentOf : τ → ComposeDocument) (servicesOf : υ → List Str)
    {g : τ → υ → Rewrite τ} (hg : ∀ s u t, g s u = .ok t → ∀ service, service ∉ servicesOf u →
      (documentOf t).config service = (documentOf s).config service)
    {xs : List υ} {s t : τ} {service : Str} (hs : service ∉ xs.flatMap servicesOf) (h : xs.foldlM g s = .ok t) :
    (documentOf t).config service = (documentOf s).config service := by
  simp only [List.mem_flatMap,not_exists,not_and] at hs
  refine foldlM_invariant (I := fun u => (documentOf u).config service = (documentOf s).config service) ?_ rfl h
  intro x hx u v hu hv
  rw [hg u x v hv service (hs x hx),hu]

/-- A label depends on the service's own mapping only. -/
theorem previousLabel_congr {document document' : ComposeDocument} {service key : Str}
    (h : document'.config service = document.config service) :
    previousLabel document' service key = previousLabel document service key := by
  simp only [previousLabel,directServiceConfig,h]

theorem overwritable_of_pinRewrite {stackName service currentImage value : Str} {update : DigestPinUpdate}
    {approvals : List DigestPinLabelRewriteApproval} {streams : List TagStreamLabelRewriteApproval}
    {rewrite : Option DigestPinLabelRewrite}
    (h : digestPinLabelRewriteOrRaise stackName service currentImage value update approvals = .ok rewrite) :
    Overwritable approvals streams
      ⟨stackName,service,update.labelKey,value,imageTag currentImage,update.watchTag,update.labelValue⟩ := by
  unfold digestPinLabelRewriteOrRaise digestPinLabelRewrite at h
  dsimp only at h
  by_cases hempty : value = []
  · exact .empty hempty
  by_cases hproposed : value = composeUnescapeDollars update.labelValue
  · exact .proposed hproposed
  by_cases hexact : isSimpleExactTagInclude value = true
  · obtain ⟨tag,ht⟩ := exactTagRegex_of_simple hexact
    exact .exactRegex tag ht
  by_cases hplain : (tagValueValid value && (value = update.watchTag || value = imageTag currentImage)) = true
  · simp only [Bool.and_eq_true,Bool.or_eq_true,decide_eq_true_eq] at hplain
    exact .plainTag hplain.1 hplain.2.symm
  by_cases happroved : (approvals.any fun approval => digestPinApprovalMatches approval stackName service
      update.labelKey value update.watchTag update.labelValue) = true
  · obtain ⟨a,ha,hmatches⟩ := List.any_eq_true.mp happroved
    simp only [digestPinApprovalMatches,Bool.and_eq_true,decide_eq_true_eq] at hmatches
    obtain ⟨⟨⟨⟨⟨hstack,hservice⟩,hkey⟩,hcurrent⟩,htag⟩,hvalue⟩ := hmatches
    refine .pinApproval a ha ?_
    rw [← hstack,← hservice,← hkey,← hcurrent,← htag,← hvalue]
  · rw [if_neg hempty,if_neg hproposed,if_neg hexact,if_neg hplain,if_neg happroved] at h
    simp at h

section
variable {pinApprovals : List DigestPinLabelRewriteApproval} {approvals : List TagStreamLabelRewriteApproval}

/-- The replacement of a label that a stream update asks for. -/
def TagStreamUpdate.overwrite (update : TagStreamUpdate) (current : Str) : LabelOverwrite :=
  ⟨update.stack,update.service,update.labelKey,current,update.currentTag,update.selectedTag,
    update.proposedLabelValue⟩

theorem overwritable_of_reason {composeFile value : Str} {request : TagStreamRequest}
    (h : (tagStreamLabelReason composeFile request approvals value).1 = true) :
    Overwritable pinApprovals approvals ⟨request.stackName,request.service,wudTagIncludeLabel,value,
      request.currentTag,request.selectedTag,composeEscapeDollars request.proposedLabelRegex⟩ := by
  unfold tagStreamLabelReason at h
  by_cases hempty : value = []
  · exact .empty hempty
  by_cases hproposed : value = request.proposedLabelRegex
  · exact .proposed (by rw [composeUnescape_escape,hproposed])
  by_cases hexact : (decide (value = exactTagRegex request.currentTag) ||
      (tagValueValid value && decide (value = request.currentTag))) = true
  · simp only [Bool.or_eq_true,Bool.and_eq_true,decide_eq_true_eq] at hexact
    rcases hexact with hregex | ⟨hvalid,hplain⟩
    · exact .exactRegex _ hregex
    · exact .plainTag hvalid (Or.inl hplain)
  rw [if_neg hempty,if_neg hproposed,if_neg hexact] at h
  split at h
  · rename_i happroved
    obtain ⟨a,ha,hmatches⟩ := List.any_eq_true.mp happroved
    simp only [tagStreamApprovalMatches,Bool.and_eq_true,decide_eq_true_eq] at hmatches
    obtain ⟨⟨⟨⟨⟨⟨⟨⟨-,hstack⟩,-⟩,-⟩,hservice⟩,hkey⟩,hcurrent⟩,htag⟩,hvalue⟩ := hmatches
    exact .streamApproval a ha ⟨hstack,hservice,hkey,hcurrent,htag,hvalue⟩
  · cases h

/-- A planned update that is approved may replace the label it was planned for. -/
theorem overwritable_of_plan {yaml : YamlLibrary} {path : ComposePath} {source : Str}
    {request : TagStreamRequest} {update : TagStreamUpdate}
    (h : planComposeTagStreamUpdate yaml path source request approvals = .ok update)
    (ha : update.approved = true) :
    Overwritable pinApprovals approvals (update.overwrite update.currentLabelValue) ∧
      update.proposedLabelRegex = composeUnescapeDollars update.proposedLabelValue := by
  unfold planComposeTagStreamUpdate at h
  obtain ⟨document,-,h⟩ := bind_eq_ok.mp h
  obtain ⟨config,-,h⟩ := bind_eq_ok.mp h
  obtain ⟨-,-,h⟩ := bind_eq_ok.mp h
  obtain ⟨prepared,-,h⟩ := bind_eq_ok.mp h
  obtain ⟨label,-,h⟩ := bind_eq_ok.mp h
  cases h
  constructor
  · exact overwritable_of_reason ha
  · exact (composeUnescape_escape _).symm

/-- Updates that were planned with some approvals. -/
structure PlannedStreams (yaml : YamlLibrary) (approvals : List TagStreamLabelRewriteApproval) where
  updates : List TagStreamUpdate
  planned : ∀ update ∈ updates, ∃ path source request,
    planComposeTagStreamUpdate yaml path source request approvals = .ok update

theorem addTagStreamUpdate_ok {resolve : Str → Str} {path : ComposePath} {stackName : Str}
    {byService next : List (Str × TagStreamUpdate)} {update : TagStreamUpdate}
    (h : addTagStreamUpdate resolve path stackName byService update = .ok next) :
    update.stack = stackName ∧ update.approved = true ∧
      (next = byService ∨ next = byService ++ [(update.service,update)]) := by
  unfold addTagStreamUpdate at h
  dsimp only at h
  split at h
  · exact absurd h (refuse_bind _ _ _)
  rename_i hstack
  split at h
  · exact absurd h (refuse_bind _ _ _)
  split at h
  · exact absurd h (refuse_bind _ _ _)
  split at h
  · exact absurd h (refuse_bind _ _ _)
  rename_i happroved
  refine ⟨not_not.mp hstack,by simpa using happroved,?_⟩
  split at h
  · split at h
    · cases h
      exact Or.inl rfl
    · exact absurd h (refuse_ne_ok _ _)
  · cases h
    exact Or.inr rfl

/-- The stream update found for a service is one of the updates, for the stack, and approved. -/
theorem mem_tagStreamUpdatesByService {resolve : Str → Str} {path : ComposePath} {stackName : Str}
    {updates : List TagStreamUpdate} {byService : List (Str × TagStreamUpdate)}
    (h : tagStreamUpdatesByService resolve path stackName updates = .ok byService) :
    ∀ entry ∈ byService, entry.2 ∈ updates ∧ entry.2.service = entry.1 ∧ entry.2.stack = stackName ∧
      entry.2.approved = true := by
  refine foldlM_invariant (I := fun found => ∀ entry ∈ found, entry.2 ∈ updates ∧
    entry.2.service = entry.1 ∧ entry.2.stack = stackName ∧ entry.2.approved = true) ?_ (by simp) h
  intro update hu found next hfound hnext entry hentry
  obtain ⟨hstack,happroved,rfl | rfl⟩ := addTagStreamUpdate_ok hnext
  · exact hfound entry hentry
  · rcases List.mem_append.mp hentry with hentry | hentry
    · exact hfound entry hentry
    · obtain rfl := List.mem_singleton.mp hentry
      exact ⟨hu,rfl,hstack,happroved⟩

/-- The stream update of a service of the stack may replace the label it was planned for. -/
theorem overwritable_of_lookup {yaml : YamlLibrary} (streams : PlannedStreams yaml approvals)
    {resolve : Str → Str} {path : ComposePath} {stackName service : Str}
    {byService : List (Str × TagStreamUpdate)} {stream : TagStreamUpdate}
    (hs : tagStreamUpdatesByService resolve path stackName streams.updates = .ok byService)
    (hl : byService.lookup service = some stream) :
    stream ∈ streams.updates ∧ stream.service = service ∧ stream.stack = stackName ∧
      Overwritable pinApprovals approvals (stream.overwrite stream.currentLabelValue) ∧
      stream.proposedLabelRegex = composeUnescapeDollars stream.proposedLabelValue := by
  obtain ⟨before,after,hbyService,-⟩ := List.lookup_eq_some_iff.mp hl
  have hentry : (service,stream) ∈ byService := by simp [hbyService]
  obtain ⟨hmem,hservice,hstack,happroved⟩ := mem_tagStreamUpdatesByService hs _ hentry
  obtain ⟨path',source,request,hplan⟩ := streams.planned stream hmem
  exact ⟨hmem,hservice,hstack,overwritable_of_plan hplan happroved⟩

/-- The label a digest pin or a retag writes. -/
def writtenLabel (streamByService : List (Str × TagStreamUpdate)) (update : DigestPinUpdate) (service : Str) : Str :=
  match streamByService.lookup service with
  | none => update.labelValue
  | some stream => stream.proposedLabelValue

/-- A service of an update, with the updates and the services that are rewritten before it. -/
structure Turn {υ : Type} (servicesOf : υ → List Str) (updates earlier : List υ) (update : υ)
    (before : List Str) (service : Str) : Prop where
  inUpdates : ∃ later, updates = earlier ++ update :: later
  inServices : ∃ after, servicesOf update = before ++ service :: after

/-- What a renderer reads of a label when the service's turn comes, and whether it may replace it. -/
structure Replaced (pinApprovals : List DigestPinLabelRewriteApproval)
    (approvals : List TagStreamLabelRewriteApproval) (document current : ComposeDocument)
    (earlier : List Str) (o : LabelOverwrite) : Prop where
  read : previousLabel current o.service o.labelKey = .ok o.current
  original : o.service ∉ earlier → previousLabel document o.service o.labelKey = .ok o.current
  allowed : Overwritable pinApprovals approvals o

theorem Replaced.of_frame {document current : ComposeDocument} {earlier : List Str} {o : LabelOverwrite}
    (hr : previousLabel current o.service o.labelKey = .ok o.current)
    (hf : o.service ∉ earlier → current.config o.service = document.config o.service)
    (ha : Overwritable pinApprovals approvals o) :
    Replaced pinApprovals approvals document current earlier o :=
  ⟨hr,fun h => by rw [← hr,previousLabel_congr (hf h)],ha⟩

theorem image_of_expected {service image : Str} {value : YamlScalar} {update : DigestPinUpdate}
    (h : digestPinExpectedImage service value update = .ok image) :
    imageTag value.shown = imageTag update.oldImage ∨ imageTag value.shown = imageTag update.resolvedImage := by
  unfold digestPinExpectedImage at h
  split at h
  · rename_i hv
    simp [hv,YamlScalar.shown]
  · split at h
    · rename_i hv
      simp [hv,YamlScalar.shown]
    · exact absurd h (refuse_ne_ok _ _)

/-- A digest pin or a retag of a service replaces a label it may replace, in no other service. -/
theorem retagService_ok {settings : RetagSettings} {update : DigestPinUpdate} {state next : RetagRewrites}
    {service : Str} (h : retagService settings update state service = .ok next)
    (hstreams : ∀ stream, settings.streamByService.lookup service = some stream →
      Overwritable settings.labelRewriteApprovals approvals (stream.overwrite stream.currentLabelValue) ∧
        stream.service = service ∧ stream.stack = settings.stackName ∧
        stream.proposedLabelRegex = composeUnescapeDollars stream.proposedLabelValue) :
    (∃ value tag, previousLabel state.document service update.labelKey = .ok value ∧
      (tag = imageTag update.oldImage ∨ tag = imageTag update.resolvedImage) ∧
      Overwritable settings.labelRewriteApprovals approvals ⟨settings.stackName,service,update.labelKey,value,
        tag,update.watchTag,writtenLabel settings.streamByService update service⟩) ∧
    ∀ other, other ≠ service → next.document.config other = state.document.config other := by
  unfold retagService at h
  obtain ⟨config,hconfig,h⟩ := bind_eq_ok.mp h
  dsimp only at h
  obtain ⟨image,himage,h⟩ := bind_eq_ok.mp h
  obtain ⟨⟨_,seen⟩,-,h⟩ := bind_eq_ok.mp h
  obtain ⟨prepared,hprepared,h⟩ := bind_eq_ok.mp h
  obtain ⟨label,hlabel,h⟩ := bind_eq_ok.mp h
  obtain ⟨⟨written,rewrite,byStream⟩,hrewrite,h⟩ := bind_eq_ok.mp h
  obtain ⟨labelled,-,h⟩ := bind_eq_ok.mp h
  obtain ⟨⟨added,transforms⟩,-,h⟩ := bind_eq_ok.mp h
  obtain ⟨marked,-,h⟩ := bind_eq_ok.mp h
  cases h
  constructor
  · have hread := previousLabel_of_read hconfig hprepared hlabel
    unfold retagLabelRewrite at hrewrite
    unfold writtenLabel
    cases hs : settings.streamByService.lookup service with
    | none =>
      rw [hs] at hrewrite
      obtain ⟨found,hfound,-⟩ := bind_eq_ok.mp hrewrite
      exact ⟨_,_,hread,image_of_expected himage,overwritable_of_pinRewrite hfound⟩
    | some stream =>
      rw [hs] at hrewrite
      dsimp only at hrewrite
      obtain ⟨hallowed,hservice,hstack,hregex⟩ := hstreams stream hs
      split at hrewrite
      · exact absurd hrewrite (refuse_ne_ok _ _)
      rename_i hsame
      simp only [ne_eq,Bool.or_eq_true,decide_eq_true_eq,not_or,not_not] at hsame
      obtain ⟨⟨htag,hselected⟩,hkey⟩ := hsame
      split at hrewrite
      · exact absurd hrewrite (refuse_ne_ok _ _)
      rename_i hvalue
      refine ⟨_,_,hread,Or.inl rfl,?_⟩
      simp only [ne_eq,Bool.and_eq_true,decide_eq_true_eq,not_and,not_not] at hvalue
      by_cases hcurrent : composeUnescapeDollars label = stream.currentLabelValue
      · rw [hcurrent]
        simpa [TagStreamUpdate.overwrite,hservice,hstack,htag,hselected,hkey] using hallowed
      · exact .proposed (by rw [hvalue hcurrent,hregex])
  · intro other hne
    exact config_setConfig_of_ne _ hne

/-- The retag state when a service's turn comes, after the updates and the services before it. -/
def beforeRetag (settings : RetagSettings) (document : ComposeDocument) (earlier : List DigestPinUpdate)
    (update : DigestPinUpdate) (services : List Str) : Rewrite RetagRewrites := do
  let (state,_) ← earlier.foldlM (retagUpdate settings) ({ document },[])
  services.foldlM (retagService settings update) { state with labelRewrites := [], addedTransforms := [] }

theorem retagUpdate_ok {settings : RetagSettings} {update : DigestPinUpdate}
    {state next : RetagRewrites × List AppliedDigestPinUpdate} (h : retagUpdate settings state update = .ok next) :
    update.services.foldlM (retagService settings update)
      { state.1 with labelRewrites := [], addedTransforms := [] } = .ok next.1 := by
  unfold retagUpdate at h
  obtain ⟨-,-,h⟩ := bind_eq_ok.mp h
  obtain ⟨found,hfound,h⟩ := bind_eq_ok.mp h
  cases h
  exact hfound

section
variable {settings : RetagSettings}
  (hstreams : ∀ service stream, settings.streamByService.lookup service = some stream →
    Overwritable settings.labelRewriteApprovals approvals (stream.overwrite stream.currentLabelValue) ∧
      stream.service = service ∧ stream.stack = settings.stackName ∧
      stream.proposedLabelRegex = composeUnescapeDollars stream.proposedLabelValue)

include hstreams

theorem retagServices_frame {update : DigestPinUpdate} {services : List Str} {state next : RetagRewrites}
    (h : services.foldlM (retagService settings update) state = .ok next) {service : Str}
    (hs : service ∉ services) : next.document.config service = state.document.config service := by
  refine foldlM_frame RetagRewrites.document (fun s => [s]) ?_ (by simpa using hs) h
  intro u other v hv service hne
  exact (retagService_ok hv (hstreams other)).2 service (by simpa using hne)

theorem beforeRetag_frame {document : ComposeDocument} {earlier : List DigestPinUpdate} {update : DigestPinUpdate}
    {services : List Str} {state : RetagRewrites} {service : Str}
    (hs : service ∉ earlier.flatMap (·.services) ++ services)
    (h : beforeRetag settings document earlier update services = .ok state) :
    state.document.config service = document.config service := by
  rw [List.mem_append,not_or] at hs
  obtain ⟨found,hfound,h⟩ := bind_eq_ok.mp h
  rw [retagServices_frame hstreams h hs.2]
  refine foldlM_frame (fun u : RetagRewrites × List AppliedDigestPinUpdate => u.1.document)
    DigestPinUpdate.services ?_ hs.1 hfound
  intro st u st' hst other hne
  exact retagServices_frame hstreams (retagUpdate_ok hst) hne

/-- Every service of every update is rewritten in its turn, where its label may be replaced. -/
theorem retagUpdates_replaced {document : ComposeDocument} {updates earlier : List DigestPinUpdate}
    {update : DigestPinUpdate} {before : List Str} {service : Str}
    {result : RetagRewrites × List AppliedDigestPinUpdate}
    (h : updates.foldlM (retagUpdate settings) ({ document },[]) = .ok result)
    (ht : Turn DigestPinUpdate.services updates earlier update before service) :
    ∃ state value tag, beforeRetag settings document earlier update before = .ok state ∧
      (tag = imageTag update.oldImage ∨ tag = imageTag update.resolvedImage) ∧
      Replaced settings.labelRewriteApprovals approvals document state.document
        (earlier.flatMap (·.services) ++ before) ⟨settings.stackName,service,update.labelKey,value,tag,
          update.watchTag,writtenLabel settings.streamByService update service⟩ := by
  obtain ⟨⟨later,hu⟩,after,hs⟩ := ht
  rw [hu] at h
  obtain ⟨first,second,hfirst,hsecond,-⟩ := foldlM_split h
  have hservices := retagUpdate_ok hsecond
  rw [hs] at hservices
  obtain ⟨state,next,hstate,hnext,-⟩ := foldlM_split hservices
  have hbefore : beforeRetag settings document earlier update before = .ok state := by
    unfold beforeRetag
    exact bind_eq_ok.mpr ⟨first,hfirst,hstate⟩
  obtain ⟨⟨value,tag,hread,htag,hallowed⟩,-⟩ := retagService_ok hnext (hstreams service)
  refine ⟨state,value,tag,hbefore,htag,.of_frame hread ?_ hallowed⟩
  intro hnot
  exact beforeRetag_frame hstreams hnot hbefore

end

/-- A service of a tag update whose stream sets its label: the label is the one of the plan. -/
theorem rewriteTagStreamService_ok {streamByService : List (Str × TagStreamUpdate)} {update : TagUpdate}
    {state next : ImageRewrites} {service : Str}
    (h : rewriteTagStreamService streamByService update state service = .ok next) :
    (∀ stream, streamByService.lookup service = some stream →
      previousLabel state.document service stream.labelKey = .ok stream.currentLabelValue) ∧
    ∀ other, other ≠ service → next.document.config other = state.document.config other := by
  unfold rewriteTagStreamService at h
  obtain ⟨config,hconfig,h⟩ := bind_eq_ok.mp h
  obtain ⟨-,-,h⟩ := bind_eq_ok.mp h
  obtain ⟨⟨image,seen⟩,-,h⟩ := bind_eq_ok.mp h
  dsimp only at h
  cases hs : streamByService.lookup service with
  | none =>
    rw [hs] at h
    cases h
    exact ⟨by simp,fun _ _ => rfl⟩
  | some stream =>
    rw [hs] at h
    obtain ⟨labelled,hlabelled,h⟩ := bind_eq_ok.mp h
    obtain ⟨rewrites,-,h⟩ := bind_eq_ok.mp h
    cases h
    constructor
    · intro stream' he
      cases he
      unfold rewriteTagStreamLabel at hlabelled
      split at hlabelled
      · exact absurd hlabelled (refuse_bind _ _ _)
      obtain ⟨prepared,hprepared,hlabelled⟩ := bind_eq_ok.mp hlabelled
      obtain ⟨label,hlabel,hlabelled⟩ := bind_eq_ok.mp hlabelled
      split at hlabelled
      · exact absurd hlabelled (refuse_bind _ _ _)
      rename_i hsame
      rw [previousLabel_of_read hconfig hprepared hlabel,not_not.mp hsame]
    · intro other hne
      exact config_setConfig_of_ne _ hne

/-- The state of a tag stream rewrite when a service's turn comes. -/
def beforeTagStream (streamByService : List (Str × TagStreamUpdate)) (document : ComposeDocument)
    (earlier : List TagUpdate) (update : TagUpdate) (services : List Str) : Rewrite ImageRewrites := do
  let state ← earlier.foldlM (rewriteTagStreamUpdate streamByService) { document }
  services.foldlM (rewriteTagStreamService streamByService update) state

theorem rewriteTagStreamUpdate_ok {streamByService : List (Str × TagStreamUpdate)} {update : TagUpdate}
    {state next : ImageRewrites} (h : rewriteTagStreamUpdate streamByService state update = .ok next) :
    update.services.foldlM (rewriteTagStreamService streamByService update) state = .ok next := by
  obtain ⟨-,-,h⟩ := bind_eq_ok.mp h
  exact h

theorem tagStreamServices_frame {streamByService : List (Str × TagStreamUpdate)} {update : TagUpdate}
    {services : List Str} {state next : ImageRewrites}
    (h : services.foldlM (rewriteTagStreamService streamByService update) state = .ok next) {service : Str}
    (hs : service ∉ services) : next.document.config service = state.document.config service := by
  refine foldlM_frame ImageRewrites.document (fun s => [s]) ?_ (by simpa using hs) h
  intro u other v hv service hne
  exact (rewriteTagStreamService_ok hv).2 service (by simpa using hne)

theorem beforeTagStream_frame {streamByService : List (Str × TagStreamUpdate)} {document : ComposeDocument}
    {earlier : List TagUpdate} {update : TagUpdate} {services : List Str} {state : ImageRewrites} {service : Str}
    (hs : service ∉ earlier.flatMap (·.services) ++ services)
    (h : beforeTagStream streamByService document earlier update services = .ok state) :
    state.document.config service = document.config service := by
  rw [List.mem_append,not_or] at hs
  obtain ⟨found,hfound,h⟩ := bind_eq_ok.mp h
  rw [tagStreamServices_frame h hs.2]
  refine foldlM_frame ImageRewrites.document TagUpdate.services ?_ hs.1 hfound
  intro st u st' hst other hne
  exact tagStreamServices_frame (rewriteTagStreamUpdate_ok hst) hne

/-- Every service with a stream is rewritten in its turn, with the label the stream was planned for. -/
theorem tagStreamUpdates_replaced {streamByService : List (Str × TagStreamUpdate)} {document : ComposeDocument}
    {updates earlier : List TagUpdate} {update : TagUpdate} {before : List Str} {service : Str}
    {stream : TagStreamUpdate} {result : ImageRewrites}
    (h : updates.foldlM (rewriteTagStreamUpdate streamByService) { document } = .ok result)
    (ht : Turn TagUpdate.services updates earlier update before service)
    (hl : streamByService.lookup service = some stream) (hservice : stream.service = service)
    (ha : Overwritable pinApprovals approvals (stream.overwrite stream.currentLabelValue)) :
    ∃ state, beforeTagStream streamByService document earlier update before = .ok state ∧
      Replaced pinApprovals approvals document state.document (earlier.flatMap (·.services) ++ before)
        (stream.overwrite stream.currentLabelValue) := by
  obtain ⟨⟨later,hu⟩,after,hs⟩ := ht
  rw [hu] at h
  obtain ⟨first,second,hfirst,hsecond,-⟩ := foldlM_split h
  have hservices := rewriteTagStreamUpdate_ok hsecond
  rw [hs] at hservices
  obtain ⟨state,next,hstate,hnext,-⟩ := foldlM_split hservices
  have hbefore : beforeTagStream streamByService document earlier update before = .ok state := by
    unfold beforeTagStream
    exact bind_eq_ok.mpr ⟨first,hfirst,hstate⟩
  have hread := (rewriteTagStreamService_ok hnext).1 stream hl
  subst hservice
  refine ⟨state,hbefore,.of_frame hread ?_ ha⟩
  intro hnot
  exact beforeTagStream_frame hnot hbefore

/-- A digest unpin of a service finds an empty label or one that is exact for its tag. -/
theorem unpinService_ok {stackName : Str} {configTransforms : Option (List (Str × Str))}
    {update : DigestUnpinUpdate} {state next : UnpinRewrites} {service : Str}
    (h : unpinService stackName configTransforms update state service = .ok next) :
    (∃ value, previousLabel state.document service update.labelKey = .ok value ∧
      Overwritable pinApprovals approvals ⟨stackName,service,update.labelKey,value,imageTag update.oldImage,
        update.watchTag,update.labelValue⟩) ∧
    ∀ other, other ≠ service → next.document.config other = state.document.config other := by
  unfold unpinService at h
  obtain ⟨config,hconfig,h⟩ := bind_eq_ok.mp h
  obtain ⟨-,-,h⟩ := bind_eq_ok.mp h
  obtain ⟨⟨_,seen⟩,-,h⟩ := bind_eq_ok.mp h
  obtain ⟨-,-,h⟩ := bind_eq_ok.mp h
  obtain ⟨prepared,hprepared,h⟩ := bind_eq_ok.mp h
  obtain ⟨label,hlabel,h⟩ := bind_eq_ok.mp h
  obtain ⟨_,hvalid,h⟩ := bind_eq_ok.mp h
  obtain ⟨labelled,-,h⟩ := bind_eq_ok.mp h
  obtain ⟨⟨added,transforms⟩,-,h⟩ := bind_eq_ok.mp h
  obtain ⟨cleared,-,h⟩ := bind_eq_ok.mp h
  cases h
  constructor
  · refine ⟨_,previousLabel_of_read hconfig hprepared hlabel,?_⟩
    unfold validateDigestUnpinInclude at hvalid
    dsimp only at hvalid
    split at hvalid
    · rename_i hempty
      exact .empty (by rw [hempty]; rfl)
    split at hvalid
    · rename_i hregex
      exact .exactRegex _ hregex
    split at hvalid
    · rename_i hplain
      simp only [Bool.and_eq_true,decide_eq_true_eq] at hplain
      exact .plainTag hplain.1 (Or.inr hplain.2)
    · exact absurd hvalid (refuse_ne_ok _ _)
  · intro other hne
    exact config_setConfig_of_ne _ hne

/-- The state of an unpin when a service's turn comes. -/
def beforeUnpin (stackName : Str) (configTransforms : Option (List (Str × Str))) (document : ComposeDocument)
    (earlier : List DigestUnpinUpdate) (update : DigestUnpinUpdate) (services : List Str) :
    Rewrite UnpinRewrites := do
  let (state,_) ← earlier.foldlM (unpinUpdate stackName configTransforms) ({ document },[])
  services.foldlM (unpinService stackName configTransforms update) { state with addedTransforms := [] }

section
variable {stackName : Str} {configTransforms : Option (List (Str × Str))}

theorem unpinUpdate_ok {update : DigestUnpinUpdate} {state next : UnpinRewrites × List AppliedDigestUnpinUpdate}
    (h : unpinUpdate stackName configTransforms state update = .ok next) :
    update.services.foldlM (unpinService stackName configTransforms update)
      { state.1 with addedTransforms := [] } = .ok next.1 := by
  unfold unpinUpdate at h
  obtain ⟨-,-,h⟩ := bind_eq_ok.mp h
  obtain ⟨found,hfound,h⟩ := bind_eq_ok.mp h
  cases h
  exact hfound

theorem unpinServices_frame {update : DigestUnpinUpdate} {services : List Str} {state next : UnpinRewrites}
    (h : services.foldlM (unpinService stackName configTransforms update) state = .ok next) {service : Str}
    (hs : service ∉ services) : next.document.config service = state.document.config service := by
  refine foldlM_frame UnpinRewrites.document (fun s => [s]) ?_ (by simpa using hs) h
  intro u other v hv service hne
  exact (@unpinService_ok [] [] _ _ _ _ _ _ hv).2 service (by simpa using hne)

theorem beforeUnpin_frame {document : ComposeDocument} {earlier : List DigestUnpinUpdate}
    {update : DigestUnpinUpdate} {services : List Str} {state : UnpinRewrites} {service : Str}
    (hs : service ∉ earlier.flatMap (·.services) ++ services)
    (h : beforeUnpin stackName configTransforms document earlier update services = .ok state) :
    state.document.config service = document.config service := by
  rw [List.mem_append,not_or] at hs
  obtain ⟨found,hfound,h⟩ := bind_eq_ok.mp h
  rw [unpinServices_frame h hs.2]
  refine foldlM_frame (fun u : UnpinRewrites × List AppliedDigestUnpinUpdate => u.1.document)
    DigestUnpinUpdate.services ?_ hs.1 hfound
  intro st u st' hst other hne
  exact unpinServices_frame (unpinUpdate_ok hst) hne

theorem unpinUpdates_replaced {document : ComposeDocument} {updates earlier : List DigestUnpinUpdate}
    {update : DigestUnpinUpdate} {before : List Str} {service : Str}
    {result : UnpinRewrites × List AppliedDigestUnpinUpdate}
    (h : updates.foldlM (unpinUpdate stackName configTransforms) ({ document },[]) = .ok result)
    (ht : Turn DigestUnpinUpdate.services updates earlier update before service) :
    ∃ state value, beforeUnpin stackName configTransforms document earlier update before = .ok state ∧
      Replaced pinApprovals approvals document state.document (earlier.flatMap (·.services) ++ before)
        ⟨stackName,service,update.labelKey,value,imageTag update.oldImage,update.watchTag,update.labelValue⟩ := by
  obtain ⟨⟨later,hu⟩,after,hs⟩ := ht
  rw [hu] at h
  obtain ⟨first,second,hfirst,hsecond,-⟩ := foldlM_split h
  have hservices := unpinUpdate_ok hsecond
  rw [hs] at hservices
  obtain ⟨state,next,hstate,hnext,-⟩ := foldlM_split hservices
  have hbefore : beforeUnpin stackName configTransforms document earlier update before = .ok state := by
    unfold beforeUnpin
    exact bind_eq_ok.mpr ⟨first,hfirst,hstate⟩
  obtain ⟨⟨value,hread,hallowed⟩,-⟩ := unpinService_ok hnext
  refine ⟨state,value,hbefore,.of_frame hread ?_ hallowed⟩
  intro hnot
  exact beforeUnpin_frame hnot hbefore

end

theorem renderRetagUpdates_replaced {yaml : YamlLibrary} (streams : PlannedStreams yaml approvals)
    {resolve : Str → Str} {path : ComposePath} {source stackName : Str} {updates : List DigestPinUpdate}
    {configTransforms : Option (List (Str × Str))} {result : Str × List AppliedDigestPinUpdate}
    (h : renderRetagUpdates yaml resolve path source updates pinApprovals streams.updates stackName
      configTransforms = .ok result)
    {earlier : List DigestPinUpdate} {update : DigestPinUpdate} {before : List Str} {service : Str}
    (ht : Turn DigestPinUpdate.services updates earlier update before service) :
    ∃ document streamByService state value tag, loadComposeYaml yaml source = .ok document ∧
      tagStreamUpdatesByService resolve path stackName streams.updates = .ok streamByService ∧
      beforeRetag ⟨pinApprovals,streamByService,stackName,configTransforms⟩ document earlier update before =
        .ok state ∧
      (tag = imageTag update.oldImage ∨ tag = imageTag update.resolvedImage) ∧
      Replaced pinApprovals approvals document state.document (earlier.flatMap (·.services) ++ before)
        ⟨stackName,service,update.labelKey,value,tag,update.watchTag,
          writtenLabel streamByService update service⟩ := by
  unfold renderRetagUpdates at h
  split at h
  · rename_i hnone
    obtain ⟨later,hu⟩ := ht.inUpdates
    simp [hnone] at hu
  obtain ⟨document,hd,h⟩ := bind_eq_ok.mp h
  obtain ⟨streamByService,hs,h⟩ := bind_eq_ok.mp h
  obtain ⟨⟨last,applied⟩,hfold,-⟩ := bind_eq_ok.mp h
  have hstreams : ∀ service stream, streamByService.lookup service = some stream →
      Overwritable pinApprovals approvals (stream.overwrite stream.currentLabelValue) ∧
        stream.service = service ∧ stream.stack = stackName ∧
        stream.proposedLabelRegex = composeUnescapeDollars stream.proposedLabelValue := by
    intro service stream hl
    obtain ⟨-,hservice,hstack,hallowed,hregex⟩ := overwritable_of_lookup streams hs hl
    exact ⟨hallowed,hservice,hstack,hregex⟩
  obtain ⟨state,value,tag,hstate,htag,hreplaced⟩ := retagUpdates_replaced hstreams hfold ht
  exact ⟨document,streamByService,state,value,tag,hd,hs,hstate,htag,hreplaced⟩

end

section Example

def webService : ServiceEntry where
  name := some "web".toList
  config := some
    { image := some { direct := true, value := .text "nginx:1.0".toList, location := some ⟨2,11⟩, keyLocation := some ⟨2,4⟩ }
      labels := some { direct := true, value := .sequence [⟨some "wud.tag.include=^1\\.0$".toList,none⟩] } }

/-- A library that reads every document as the one of the service `web`. -/
def webYaml : YamlLibrary where
  load := fun _ => .ok (some (some [webService]))
  dump := fun document => document.source

def webSource : Str := "services:\n  web:\n    image: nginx:1.0\n".toList

def webRetag : DigestPinUpdate where
  oldImage := "nginx:1.0".toList
  resolvedTag := "1.1".toList
  resolvedImage := "nginx:1.1".toList
  plannedDigest := []
  finalImage := "nginx:1.1".toList
  watchTag := "1.1".toList
  marker := []
  labelKey := wudTagIncludeLabel
  labelValue := "^1\\.1$$".toList
  services := ["web".toList]

theorem ok_of_toBool {α : Type} {x : Rewrite α} (h : x.toBool = true) : ∃ y, x = .ok y := by
  cases x with
  | error e => cases h
  | ok y => exact ⟨y,rfl⟩

end Example

end Wudup
