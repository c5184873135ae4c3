import Wudup.ExactTags
import Wudup.ServiceLabels

/-! Exclusion labels: the tags that WUD must not report for a service. -/
namespace Wudup
open Library

structure AppliedTagExclusion where
  service : Str
  imageRepo : Str
  tags : List Str
  deriving DecidableEq, Repr

def wudTagExcludeLabel : Str := "wud.tag.exclude".toList

/-- The value without its escaped dollars. -/
def removeDollarPairs : Str → Str
  | '$' :: '$' :: rest => removeDollarPairs rest
  | c :: rest => c :: removeDollarPairs rest
  | [] => []

/-- Whether a dollar stands before a name or a brace. -/
def startsInterpolation : Str → Bool
  | '$' :: c :: rest => (c = '\x7b' || c.isAlpha || c = '_') || startsInterpolation (c :: rest)
  | _ :: rest => startsInterpolation rest
  | [] => false

def composeValueHasInterpolation (value : Str) : Bool := startsInterpolation (removeDollarPairs value)

def mergeWudExcludeRegex (currentRegex previousManaged nextManaged : Str) : Str :=
  if nextManaged = [] then currentRegex
  else if currentRegex = [] || currentRegex = previousManaged then nextManaged
  else if currentRegex = nextManaged then currentRegex
  else "(?:".toList ++ currentRegex ++ ")|(?:".toList ++ nextManaged ++ [')']

/-- The new tags of a service. -/
def serviceTags (updates : List TagExclusionUpdate) (service : Str) : List Str :=
  (updates.filter (·.service = service)).map (·.tag)

/-- The repository of a service's image, as the last update names it. -/
def serviceRepo (updates : List TagExclusionUpdate) (service : Str) : Str :=
  (((updates.filter (·.service = service)).getLast?).map (·.imageRepo)).getD []

def excludedServices (updates : List TagExclusionUpdate) : List Str := sortedSet (updates.map (·.service))

structure ExclusionRewrites where
  document : ComposeDocument
  applied : List AppliedTagExclusion := []
  deriving DecidableEq, Repr

/-- A service with its labels ready to be edited, and its exclusion label. -/
def exclusionLabel (document : ComposeDocument) (service : Str) : Rewrite (ServiceConfig × Str) :=
  match document.config service with
  | none => refuse s!"Service {text service} is not a mapping with direct labels."
  | some config => do
    rejectAnchorOrAliasServiceConfig document service config
    let config ← prepareServiceLabels document service config
    let currentValue ← getServiceLabelValue config wudTagExcludeLabel service
    return (config,currentValue)

/-- One service with its new tags excluded; a label that stays the same is not applied. -/
def excludeService (updates : List TagExclusionUpdate) (existing : Str → List Str) (state : ExclusionRewrites)
    (service : Str) : Rewrite ExclusionRewrites := do
  let (config,currentValue) ← exclusionLabel state.document service
  let newTags := existing service ++ serviceTags updates service
  if composeValueHasInterpolation currentValue then
    refuse (s!"Service {text service} wud.tag.exclude label uses a Compose variable, " ++
      "so WUDup cannot add to it without replacing the variable with " ++
      s!"literal text. Exclude tag {joinNames (sortedSet (serviceTags updates service))} by hand in that label or in " ++
      "the variable's value.")
  else
    let currentRegex := composeUnescapeDollars currentValue
    let nextRegex := mergeWudExcludeRegex currentRegex (exactTagsRegex (existing service)) (exactTagsRegex newTags)
    if currentRegex = nextRegex then
      return { state with document := state.document.setConfig service config }
    else
      let config ← setServiceLabelValue config wudTagExcludeLabel (composeEscapeDollars nextRegex) service
      return {
        document := state.document.setConfig service config
        applied := state.applied ++
          [{ service, imageRepo := serviceRepo updates service, tags := sortedSet newTags }] }

/-- The document with the new tags excluded beside the existing ones. -/
def excludeTags (yaml : YamlLibrary) (source : Str) (updates : List TagExclusionUpdate)
    (existing : Str → List Str) : Rewrite ExclusionRewrites := do
  let document ← loadComposeYaml yaml source
  updates.forM fun update => do
    let _ ← serviceImageScalarRewrite document update.service update.image
  (excludedServices updates).foldlM (excludeService updates existing) { document }

def renderComposeTagExclusions (yaml : YamlLibrary) (source : Str) (updates : List TagExclusionUpdate)
    (existing : Str → List Str) : Rewrite (Str × List AppliedTagExclusion) := do
  if updates = [] then return (source,[])
  else
    let state ← excludeTags yaml source updates existing
    return (yaml.dump state.document,state.applied)

/-- The text of the file after the exclusions were applied; nothing is written when none is. -/
def applyComposeTagExclusions (yaml : YamlLibrary) (source : Str) (updates : List TagExclusionUpdate)
    (existing : Str → List Str) : Rewrite (Str × List AppliedTagExclusion) := do
  let (rendered,applied) ← renderComposeTagExclusions yaml source updates existing
  return (if applied = [] then source else rendered,applied)

/-! What one service's label becomes. -/

/-- The expression that a label with an expression is replaced by. -/
def mergedExclusion (updates : List TagExclusionUpdate) (existing : Str → List Str) (service regex : Str) : Str :=
  mergeWudExcludeRegex regex (exactTagsRegex (existing service))
    (exactTagsRegex (existing service ++ serviceTags updates service))

/-- The value of a service's label as it is written, with the escapes of Compose. -/
def currentLabel (document : ComposeDocument) (service key : Str) : Rewrite Str := do
  let config ← directServiceConfig document service
  let config ← materializeInheritedServiceLabels config service
  getServiceLabelValue config key service

theorem currentLabel_eq {document : ComposeDocument} {service key value : Str} {config prepared : ServiceConfig}
    (hc : document.config service = some config) (hm : materializeInheritedServiceLabels config service = .ok prepared)
    (hv : getServiceLabelValue prepared key service = .ok value) : currentLabel document service key = .ok value := by
  rw [currentLabel,directServiceConfig,hc]
  change (materializeInheritedServiceLabels config service >>= _) = _
  rw [hm]
  exact hv

theorem currentLabel_congr {document document' : ComposeDocument} {service key : Str}
    (h : document'.config service = document.config service) :
    currentLabel document' service key = currentLabel document service key := by
  simp only [currentLabel,directServiceConfig,h]

theorem previousLabel_eq_current (document : ComposeDocument) (service key : Str) :
    previousLabel document service key = (currentLabel document service key).map composeUnescapeDollars := by
  rw [previousLabel,currentLabel]
  cases directServiceConfig document service with
  | error e => rfl
  | ok config =>
    change (materializeInheritedServiceLabels config service >>= _) =
      Except.map _ (materializeInheritedServiceLabels config service >>= _)
    cases materializeInheritedServiceLabels config service with
    | error e => rfl
    | ok prepared =>
      change (getServiceLabelValue prepared key service >>= _) = Except.map _ (getServiceLabelValue prepared key service)
      cases getServiceLabelValue prepared key service <;> rfl

theorem previousLabel_of_current {document : ComposeDocument} {service key value : Str}
    (h : currentLabel document service key = .ok value) :
    previousLabel document service key = .ok (composeUnescapeDollars value) := by
  rw [previousLabel_eq_current,h]
  rfl

theorem exclusionLabel_ok {document : ComposeDocument} {service value : Str} {prepared : ServiceConfig}
    (h : exclusionLabel document service = .ok (prepared,value)) :
    ∃ config, document.config service = some config ∧
      rejectAnchorOrAliasServiceConfig document service config = .ok () ∧
      prepareServiceLabels document service config = .ok prepared ∧
      getServiceLabelValue prepared wudTagExcludeLabel service = .ok value := by
  rw [exclusionLabel] at h
  cases hc : document.config service with
  | none =>
    rw [hc] at h
    exact absurd h (refuse_ne_ok _ _)
  | some config =>
    rw [hc] at h
    obtain ⟨_,hreject,h⟩ := bind_eq_ok.mp h
    obtain ⟨found,hprepare,h⟩ := bind_eq_ok.mp h
    obtain ⟨label,hlabel,h⟩ := bind_eq_ok.mp h
    cases h
    exact ⟨config,rfl,hreject,hprepare,hlabel⟩

/-- Either the label says what it said before, or it is set. -/
theorem excludeService_ok {updates : List TagExclusionUpdate} {existing : Str → List Str}
    {state next : ExclusionRewrites} {service : Str} (h : excludeService updates existing state service = .ok next) :
    ∃ prepared value, exclusionLabel state.document service = .ok (prepared,value) ∧
      composeValueHasInterpolation value = false ∧
      ((mergedExclusion updates existing service (composeUnescapeDollars value) = composeUnescapeDollars value ∧
          next = { state with document := state.document.setConfig service prepared }) ∨
        mergedExclusion updates existing service (composeUnescapeDollars value) ≠ composeUnescapeDollars value ∧
          ∃ config item, setServiceLabelValue prepared wudTagExcludeLabel (composeEscapeDollars
              (mergedExclusion updates existing service (composeUnescapeDollars value))) service = .ok config ∧
            next = { document := state.document.setConfig service config, applied := state.applied ++ [item] }) := by
  rw [excludeService] at h
  obtain ⟨⟨prepared,value⟩,hlabel,h⟩ := bind_eq_ok.mp h
  dsimp only at h
  refine ⟨prepared,value,hlabel,?_⟩
  cases hi : composeValueHasInterpolation value with
  | true =>
    rw [if_pos hi] at h
    exact absurd h (refuse_ne_ok _ _)
  | false =>
    rw [hi,if_neg Bool.false_ne_true] at h
    refine ⟨rfl,?_⟩
    split at h
    · rename_i hsame
      cases h
      exact .inl ⟨hsame.symm,rfl⟩
    · rename_i hdiffer
      obtain ⟨config,hset,h⟩ := bind_eq_ok.mp h
      cases h
      exact .inr ⟨Ne.symm hdiffer,config,_,hset,rfl⟩

theorem removeDollarPairs_escape (value : Str) : '$' ∉ removeDollarPairs (composeEscapeDollars value) := by
  induction value with
  | nil => simp [composeEscapeDollars,removeDollarPairs]
  | cons c rest ih =>
    by_cases hc : c = '$'
    · subst hc
      exact ih
    · have hcons : composeEscapeDollars (c :: rest) = c :: composeEscapeDollars rest := by
        simp [composeEscapeDollars,hc]
      rw [hcons,removeDollarPairs.eq_2]
      · simpa [Ne.symm hc] using ih
      · intro more he
        exact absurd he hc

theorem not_startsInterpolation {value : Str} (h : '$' ∉ value) : startsInterpolation value = false := by
  induction value with
  | nil => rfl
  | cons c rest ih =>
    simp only [List.mem_cons,not_or] at h
    rw [startsInterpolation.eq_2]
    · exact ih h.2
    · intro d more hc _
      exact absurd hc.symm h.1

/-- An escaped value has no variables. -/
theorem composeValueHasInterpolation_escape (value : Str) :
    composeValueHasInterpolation (composeEscapeDollars value) = false :=
  not_startsInterpolation (removeDollarPairs_escape value)

/-- What one step does to the label of its service. -/
theorem excludeService_current {updates : List TagExclusionUpdate} {existing : Str → List Str}
    {state next : ExclusionRewrites} {service : Str} (h : excludeService updates existing state service = .ok next) :
    ∃ value after, currentLabel state.document service wudTagExcludeLabel = .ok value ∧
      currentLabel next.document service wudTagExcludeLabel = .ok after ∧
      composeValueHasInterpolation after = false ∧
      composeUnescapeDollars after = mergedExclusion updates existing service (composeUnescapeDollars value) := by
  have hkey : '=' ∉ wudTagExcludeLabel := by decide
  obtain ⟨prepared,value,hlabel,hplain,h⟩ := excludeService_ok h
  obtain ⟨config,hconfig,-,hprepare,hvalue⟩ := exclusionLabel_ok hlabel
  have hmaterialize := materialize_of_prepare hprepare
  rcases h with ⟨hsame,rfl⟩ | ⟨-,final,item,hset,rfl⟩
  · exact ⟨value,value,currentLabel_eq hconfig hmaterialize hvalue,
      currentLabel_eq (config_setConfig_self hconfig prepared) (materialize_materialize hmaterialize) hvalue,hplain,
      hsame.symm⟩
  · exact ⟨value,_,currentLabel_eq hconfig hmaterialize hvalue,
      currentLabel_eq (config_setConfig_self hconfig final) (materialize_set hset) (getServiceLabelValue_set hkey hset),
      composeValueHasInterpolation_escape _,composeUnescape_escape _⟩

theorem excludeService_frame {updates : List TagExclusionUpdate} {existing : Str → List Str}
    {state next : ExclusionRewrites} {service other : Str}
    (h : excludeService updates existing state service = .ok next) (hne : other ∉ [service]) :
    next.document.config other = state.document.config other := by
  rw [List.mem_singleton] at hne
  obtain ⟨prepared,value,-,-,h⟩ := excludeService_ok h
  rcases h with ⟨-,rfl⟩ | ⟨-,config,item,-,rfl⟩
  · exact config_setConfig_of_ne _ hne
  · exact config_setConfig_of_ne _ hne

/-- Where a step for another service leads, this service is as it was. -/
theorem foldlM_excludeService_frame {updates : List TagExclusionUpdate} {existing : Str → List Str}
    {others : List Str} {state final : ExclusionRewrites} {service : Str} (hn : service ∉ others)
    (h : others.foldlM (excludeService updates existing) state = .ok final) :
    final.document.config service = state.document.config service := by
  refine foldlM_frame ExclusionRewrites.document (fun other => [other]) ?_ (by simpa using hn) h
  exact fun s u t h service hne => excludeService_frame h hne

/-- Every service's label is merged from what it said before the first service was touched. -/
theorem foldlM_excludeService_current {updates : List TagExclusionUpdate} {existing : Str → List Str}
    {services : List Str} (hd : services.Nodup) {state final : ExclusionRewrites}
    (h : services.foldlM (excludeService updates existing) state = .ok final) {service : Str} (hs : service ∈ services) :
    ∃ value after, currentLabel state.document service wudTagExcludeLabel = .ok value ∧
      currentLabel final.document service wudTagExcludeLabel = .ok after ∧
      composeValueHasInterpolation after = false ∧
      composeUnescapeDollars after = mergedExclusion updates existing service (composeUnescapeDollars value) := by
  obtain ⟨before,rest,rfl⟩ := List.append_of_mem hs
  obtain ⟨u,v,hbefore,hstep,hafter⟩ := foldlM_split h
  have hdisjoint := (List.nodup_append.mp hd).2.2
  have hrestNot := (List.nodup_cons.mp (List.nodup_append.mp hd).2.1).1
  have hbeforeNot : service ∉ before := fun hm => hdisjoint service hm service (by simp) rfl
  obtain ⟨value,after,hvalue,hwritten,hplain,hmerged⟩ := excludeService_current hstep
  refine ⟨value,after,?_,?_,hplain,hmerged⟩
  · rw [← hvalue]
    exact (currentLabel_congr (foldlM_excludeService_frame hbeforeNot hbefore)).symm
  · rw [← hwritten]
    exact currentLabel_congr (foldlM_excludeService_frame hrestNot hafter)

theorem excludeTags_ok {yaml : YamlLibrary} {source : Str} {updates : List TagExclusionUpdate}
    {existing : Str → List Str} {final : ExclusionRewrites}
    (h : excludeTags yaml source updates existing = .ok final) :
    ∃ document, loadComposeYaml yaml source = .ok document ∧
      (updates.forM fun update => do
        let _ ← serviceImageScalarRewrite document update.service update.image) = .ok () ∧
      (excludedServices updates).foldlM (excludeService updates existing) { document } = .ok final := by
  obtain ⟨document,hload,h⟩ := bind_eq_ok.mp h
  obtain ⟨_,himages,h⟩ := bind_eq_ok.mp h
  exact ⟨document,hload,himages,h⟩

theorem renderComposeTagExclusions_ok {yaml : YamlLibrary} {source rendered : Str} {updates : List TagExclusionUpdate}
    {existing : Str → List Str} {applied : List AppliedTagExclusion} (hu : updates ≠ [])
    (h : renderComposeTagExclusions yaml source updates existing = .ok (rendered,applied)) :
    ∃ final, excludeTags yaml source updates existing = .ok final ∧ rendered = yaml.dump final.document ∧
      applied = final.applied := by
  rw [renderComposeTagExclusions,if_neg hu] at h
  obtain ⟨final,hfinal,h⟩ := bind_eq_ok.mp h
  cases h
  exact ⟨final,hfinal,rfl,rfl⟩

theorem serviceTags_ne_nil {updates : List TagExclusionUpdate} {service : Str}
    (hs : service ∈ excludedServices updates) : serviceTags updates service ≠ [] := by
  obtain ⟨update,hu,rfl⟩ := List.mem_map.mp (mem_sortedSet.mp hs)
  have hm : update.tag ∈ serviceTags updates update.service :=
    List.mem_map_of_mem (List.mem_filter.mpr ⟨hu,by simp⟩)
  exact List.ne_nil_of_mem hm

end Wudup
