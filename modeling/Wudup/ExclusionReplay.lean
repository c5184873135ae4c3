import Wudup.ExclusionMerge

/-! Exclusions applied a second time, after their tags were recorded. -/
namespace Wudup
open Library

/-- One recorded exclusion. -/
structure TagExclusionRule where
  scope : ExclusionScope
  imageRepo : Str
  serviceKey : Str
  matchType : Str
  tag : Str
  regexFragment : Str
  status : Str
  deriving DecidableEq, Repr

def TagExclusionUpdate.serviceKey (update : TagExclusionUpdate) : Str := update.stack.name ++ '/' :: update.service

def exactMatch : Str := "exact".toList

def activeStatus : Str := "active".toList

/-- Whether two rules are stored in one row. -/
def TagExclusionRule.sameRow (rule other : TagExclusionRule) : Bool :=
  rule.scope = other.scope && rule.imageRepo = other.imageRepo && rule.serviceKey = other.serviceKey &&
    rule.matchType = other.matchType && rule.tag = other.tag

/-- Stores a rule, or refreshes the one in its row. -/
def upsertTagExclusionRule (rules : List TagExclusionRule) (rule : TagExclusionRule) : List TagExclusionRule :=
  if rules.any rule.sameRow then
    rules.map fun other =>
      if rule.sameRow other then { other with regexFragment := rule.regexFragment, status := rule.status } else other
  else rules ++ [rule]

/-- The active exact rules for an image repository and a service. -/
def activeTagExclusionRules (rules : List TagExclusionRule) (imageRepo serviceKey : Str) : List TagExclusionRule :=
  rules.filter fun rule => rule.status = activeStatus && rule.imageRepo = imageRepo && rule.matchType = exactMatch &&
    ((rule.scope = .imageRepo && rule.serviceKey = []) || (rule.scope = .service && rule.serviceKey = serviceKey))

/-- The tags recorded for each service that is updated. -/
def existingExactTagExclusions (rules : List TagExclusionRule) (updates : List TagExclusionUpdate) (service : Str) :
    List Str :=
  (updates.filter (·.service = service)).flatMap fun update =>
    (activeTagExclusionRules rules update.imageRepo update.serviceKey).map (·.tag)

/-- The rule that an update records. -/
def TagExclusionUpdate.rule (update : TagExclusionUpdate) : TagExclusionRule where
  scope := update.scope
  imageRepo := update.imageRepo
  serviceKey := if update.scope = .imageRepo then [] else update.serviceKey
  matchType := exactMatch
  tag := update.tag
  regexFragment := jsRegexEscape update.tag
  status := activeStatus

/-- Records the updates' rules, each row once. -/
def recordTagExclusionRules (rules : List TagExclusionRule) (updates : List TagExclusionUpdate) :
    List TagExclusionRule :=
  (orderedUnique (updates.map (·.rule))).foldl upsertTagExclusionRule rules

/-! What is recorded after the updates were. -/

/-- The rule excludes the tag for an update's service. -/
structure TagExclusionRule.AppliesTo (rule : TagExclusionRule) (update : TagExclusionUpdate) (tag : Str) : Prop where
  active : rule.status = activeStatus
  repo : rule.imageRepo = update.imageRepo
  exact : rule.matchType = exactMatch
  scope : (rule.scope = .imageRepo ∧ rule.serviceKey = []) ∨
    (rule.scope = .service ∧ rule.serviceKey = update.serviceKey)
  tag : rule.tag = tag

/-- What one update records holds for the service of another. -/
def TagExclusionUpdate.RecordedFor (update other : TagExclusionUpdate) : Prop :=
  update.imageRepo = other.imageRepo ∧
    (update.scope = .imageRepo ∨ (update.scope = .service ∧ update.serviceKey = other.serviceKey))

theorem recordedFor_self (update : TagExclusionUpdate) : update.RecordedFor update := by
  refine ⟨rfl,?_⟩
  cases update.scope with
  | imageRepo => exact .inl rfl
  | service => exact .inr ⟨rfl,rfl⟩

theorem rule_appliesTo {update other : TagExclusionUpdate} {tag : Str} :
    update.rule.AppliesTo other tag ↔ update.RecordedFor other ∧ update.tag = tag := by
  have hkey : update.scope = .service → update.rule.serviceKey = update.serviceKey := by
    intro hs
    exact if_neg (by simp [hs])
  constructor
  · intro h
    refine ⟨⟨h.repo,?_⟩,h.tag⟩
    rcases h.scope with ⟨hs,-⟩ | ⟨hs,hk⟩
    · exact .inl hs
    · exact .inr ⟨hs,(hkey hs).symm.trans hk⟩
  · rintro ⟨⟨hrepo,hscope⟩,htag⟩
    refine ⟨rfl,hrepo,rfl,?_,htag⟩
    rcases hscope with hs | ⟨hs,hk⟩
    · exact .inl ⟨hs,if_pos hs⟩
    · exact .inr ⟨hs,(hkey hs).trans hk⟩

theorem mem_existing {rules : List TagExclusionRule} {updates : List TagExclusionUpdate} {service tag : Str} :
    tag ∈ existingExactTagExclusions rules updates service ↔
      ∃ update ∈ updates, update.service = service ∧ ∃ rule ∈ rules, rule.AppliesTo update tag := by
  simp only [existingExactTagExclusions,activeTagExclusionRules,List.mem_flatMap,List.mem_filter,List.mem_map,
    Bool.and_eq_true,Bool.or_eq_true,decide_eq_true_eq]
  constructor
  · rintro ⟨update,⟨hu,hs⟩,rule,⟨hr,⟨⟨hstatus,hrepo⟩,hmatch⟩,hscope⟩,ht⟩
    exact ⟨update,hu,hs,rule,hr,hstatus,hrepo,hmatch,hscope,ht⟩
  · rintro ⟨update,hu,hs,rule,hr,h⟩
    exact ⟨update,⟨hu,hs⟩,rule,⟨hr,⟨⟨h.active,h.repo⟩,h.exact⟩,h.scope⟩,h.tag⟩

/-- An active rule in its row applies like the rule that was stored there. -/
theorem appliesTo_of_sameRow {rule other : TagExclusionRule} (h : rule.sameRow other = true)
    {update : TagExclusionUpdate} {tag : Str} :
    TagExclusionRule.AppliesTo { other with regexFragment := rule.regexFragment, status := rule.status } update tag ↔
      rule.AppliesTo update tag := by
  simp only [TagExclusionRule.sameRow,Bool.and_eq_true,decide_eq_true_eq] at h
  obtain ⟨⟨⟨⟨hscope,hrepo⟩,hkey⟩,hmatch⟩,htag⟩ := h
  constructor
  · intro h
    exact ⟨h.active,hrepo ▸ h.repo,hmatch ▸ h.exact,by rw [hscope,hkey]; exact h.scope,htag ▸ h.tag⟩
  · intro h
    exact ⟨h.active,hrepo ▸ h.repo,hmatch ▸ h.exact,by have hs := h.scope; rwa [hscope,hkey] at hs,htag ▸ h.tag⟩

theorem exists_upsert {rules : List TagExclusionRule} {rule : TagExclusionRule} (ha : rule.status = activeStatus)
    {update : TagExclusionUpdate} {tag : Str} :
    (∃ r ∈ upsertTagExclusionRule rules rule, r.AppliesTo update tag) ↔
      (∃ r ∈ rules, r.AppliesTo update tag) ∨ rule.AppliesTo update tag := by
  rw [upsertTagExclusionRule]
  by_cases hrow : (rules.any rule.sameRow) = true
  · rw [if_pos hrow]
    obtain ⟨found,hfound,hsame⟩ := List.any_eq_true.mp hrow
    constructor
    · rintro ⟨r,hr,h⟩
      obtain ⟨other,hother,rfl⟩ := List.mem_map.mp hr
      split at h
      · exact .inr ((appliesTo_of_sameRow ‹_›).mp h)
      · exact .inl ⟨other,hother,h⟩
    · rintro (⟨other,hother,h⟩ | h)
      · refine ⟨_,List.mem_map_of_mem hother,?_⟩
        split
        · exact ⟨ha,h.repo,h.exact,h.scope,h.tag⟩
        · exact h
      · refine ⟨_,List.mem_map_of_mem hfound,?_⟩
        rw [if_pos hsame]
        exact (appliesTo_of_sameRow hsame).mpr h
  · rw [if_neg hrow]
    simp only [List.mem_append,List.mem_singleton]
    constructor
    · rintro ⟨r,hr | rfl,h⟩
      · exact .inl ⟨r,hr,h⟩
      · exact .inr h
    · rintro (⟨r,hr,h⟩ | h)
      · exact ⟨r,.inl hr,h⟩
      · exact ⟨rule,.inr rfl,h⟩

theorem exists_foldl_upsert {news rules : List TagExclusionRule} (ha : ∀ rule ∈ news, rule.status = activeStatus)
    {update : TagExclusionUpdate} {tag : Str} :
    (∃ r ∈ news.foldl upsertTagExclusionRule rules, r.AppliesTo update tag) ↔
      (∃ r ∈ rules, r.AppliesTo update tag) ∨ ∃ r ∈ news, r.AppliesTo update tag := by
  induction news generalizing rules with
  | nil => simp
  | cons rule news ih =>
    obtain ⟨hrule,ha⟩ := List.forall_mem_cons.mp ha
    rw [List.foldl_cons,ih ha,exists_upsert hrule,List.exists_mem_cons_iff,or_assoc]

/-- The tags recorded for a service after the updates were recorded. -/
theorem mem_existing_record {rules : List TagExclusionRule} {updates : List TagExclusionUpdate} {service tag : Str} :
    tag ∈ existingExactTagExclusions (recordTagExclusionRules rules updates) updates service ↔
      tag ∈ existingExactTagExclusions rules updates service ∨
        ∃ update ∈ updates, update.service = service ∧ ∃ other ∈ updates, other.RecordedFor update ∧ other.tag = tag := by
  have hactive : ∀ rule ∈ orderedUnique (updates.map (·.rule)), rule.status = activeStatus := by
    intro rule hr
    obtain ⟨update,-,rfl⟩ := List.mem_map.mp (mem_orderedUnique.mp hr)
    rfl
  have hnew : ∀ update, (∃ r ∈ orderedUnique (updates.map (·.rule)), r.AppliesTo update tag) ↔
      ∃ other ∈ updates, other.RecordedFor update ∧ other.tag = tag := by
    intro update
    simp only [mem_orderedUnique,List.mem_map]
    constructor
    · rintro ⟨_,⟨other,ho,rfl⟩,h⟩
      exact ⟨other,ho,rule_appliesTo.mp h⟩
    · rintro ⟨other,ho,h⟩
      exact ⟨_,⟨other,ho,rfl⟩,rule_appliesTo.mpr h⟩
  rw [mem_existing,mem_existing]
  simp only [recordTagExclusionRules,exists_foldl_upsert hactive,hnew]
  constructor
  · rintro ⟨update,hu,hs,h | h⟩
    · exact .inl ⟨update,hu,hs,h⟩
    · exact .inr ⟨update,hu,hs,h⟩
  · rintro (⟨update,hu,hs,h⟩ | ⟨update,hu,hs,h⟩)
    · exact ⟨update,hu,hs,.inl h⟩
    · exact ⟨update,hu,hs,.inr h⟩

theorem mem_existing_of_serviceTags {rules : List TagExclusionRule} {updates : List TagExclusionUpdate}
    {service tag : Str} (h : tag ∈ serviceTags updates service) :
    tag ∈ existingExactTagExclusions (recordTagExclusionRules rules updates) updates service := by
  obtain ⟨update,hu,rfl⟩ := List.mem_map.mp h
  obtain ⟨hu,hs⟩ := List.mem_filter.mp hu
  exact mem_existing_record.mpr (.inr ⟨update,hu,by simpa using hs,update,hu,recordedFor_self update,rfl⟩)

/-! When the merged expression is merged again. -/

theorem exactTagsRegex_congr {tags tags' : List Str} (h : ∀ tag, tag ∈ tags ↔ tag ∈ tags') :
    exactTagsRegex tags = exactTagsRegex tags' := by
  rw [exactTagsRegex,exactTagsRegex,sortedSet_congr h]

theorem exactTagsRegex_inj {tags tags' : List Str} (h : tags ≠ []) (h' : tags' ≠ []) :
    exactTagsRegex tags = exactTagsRegex tags' ↔ ∀ tag, tag ∈ tags ↔ tag ∈ tags' := by
  constructor
  · intro he tag
    rw [← exactTagsRegex_matches h,he,exactTagsRegex_matches h']
  · exact exactTagsRegex_congr

/-- A label stays the same under a merge with its tags recorded exactly where it is their expression. -/
theorem merge_recorded_iff {regex managed : Str} (hr : regex ≠ []) (hm : managed ≠ []) :
    mergeWudExcludeRegex regex managed managed = regex ↔ regex = managed := by
  rw [mergeWudExcludeRegex,if_neg hm]
  by_cases he : regex = managed
  · rw [if_pos (by simp [he])]
    exact ⟨fun h => h.symm,fun h => h.symm⟩
  · rw [if_neg (by simp [hr,he]),if_neg he]
    refine ⟨fun h => ?_,fun h => absurd h he⟩
    have hlen := congrArg List.length h
    simp at hlen
    omega

/-- The expression after a merge is that of the tags recorded since exactly where the label was empty or an
expression of recorded tags, and no other tag was recorded. -/
theorem merge_eq_recorded_iff {regex : Str} {existing new recorded : List Str} (hn : new ≠ [])
    (hsub : ∀ tag, tag ∈ existing ∨ tag ∈ new → tag ∈ recorded) :
    mergeWudExcludeRegex regex (exactTagsRegex existing) (exactTagsRegex (existing ++ new)) = exactTagsRegex recorded ↔
      (regex = [] ∨ regex = exactTagsRegex existing ∨ regex = exactTagsRegex (existing ++ new)) ∧
        ∀ tag ∈ recorded, tag ∈ existing ∨ tag ∈ new := by
  have hall : existing ++ new ≠ [] := by simp [hn]
  have hrecorded : recorded ≠ [] := by
    obtain ⟨tag,ht⟩ := List.exists_mem_of_ne_nil new hn
    exact List.ne_nil_of_mem (hsub tag (.inr ht))
  have hsame : exactTagsRegex (existing ++ new) = exactTagsRegex recorded ↔
      ∀ tag ∈ recorded, tag ∈ existing ∨ tag ∈ new := by
    rw [exactTagsRegex_inj hall hrecorded]
    constructor
    · exact fun h tag ht => List.mem_append.mp ((h tag).mpr ht)
    · exact fun h tag => ⟨fun ht => hsub tag (List.mem_append.mp ht),fun ht => List.mem_append.mpr (h tag ht)⟩
  rw [mergeWudExcludeRegex,if_neg (exactTagsRegex_ne_nil hall)]
  by_cases hmanaged : (regex = [] || regex = exactTagsRegex existing) = true
  · rw [if_pos hmanaged,hsame]
    simp only [Bool.or_eq_true,decide_eq_true_eq] at hmanaged
    have hleft : regex = [] ∨ regex = exactTagsRegex existing ∨ regex = exactTagsRegex (existing ++ new) :=
      hmanaged.imp_right .inl
    exact ⟨fun h => ⟨hleft,h⟩,fun h => h.2⟩
  · rw [if_neg hmanaged]
    simp only [Bool.or_eq_true,decide_eq_true_eq,not_or] at hmanaged
    by_cases hnext : regex = exactTagsRegex (existing ++ new)
    · rw [if_pos hnext,hnext,hsame]
      exact ⟨fun h => ⟨.inr (.inr rfl),h⟩,fun h => h.2⟩
    · rw [if_neg hnext]
      constructor
      · intro he
        have hhead := congrArg List.head? he
        rw [head_exactTagsRegex hrecorded] at hhead
        cases hhead
      · rintro ⟨h | h | h,-⟩
        · exact absurd h hmanaged.1
        · exact absurd h hmanaged.2
        · exact absurd h hnext

/-! A run that applies nothing prepares the services and leaves their labels. -/

/-- A service with its labels ready to be edited. -/
def prepareExclusion (document : ComposeDocument) (service : Str) : Rewrite ComposeDocument := do
  let (config,_) ← exclusionLabel document service
  return document.setConfig service config

/-- The label of a service stays as it is. -/
def Unchanged (updates : List TagExclusionUpdate) (existing : Str → List Str) (document : ComposeDocument)
    (service : Str) : Prop :=
  ∃ value, currentLabel document service wudTagExcludeLabel = .ok value ∧
    composeValueHasInterpolation value = false ∧
    mergedExclusion updates existing service (composeUnescapeDollars value) = composeUnescapeDollars value

section Run

variable {updates : List TagExclusionUpdate} {existing : Str → List Str}

theorem exclusionLabel_current {document : ComposeDocument} {service value : Str} {prepared : ServiceConfig}
    (h : exclusionLabel document service = .ok (prepared,value)) :
    currentLabel document service wudTagExcludeLabel = .ok value := by
  obtain ⟨config,hconfig,-,hprepare,hvalue⟩ := exclusionLabel_ok h
  exact currentLabel_eq hconfig (materialize_of_prepare hprepare) hvalue

theorem unchanged_congr {document document' : ComposeDocument} {service : Str}
    (h : document'.config service = document.config service) :
    Unchanged updates existing document' service ↔ Unchanged updates existing document service := by
  rw [Unchanged,currentLabel_congr h]
  rfl

/-- A step leaves the label, and then only prepares the service, or it applies one exclusion. -/
theorem excludeService_cases {state next : ExclusionRewrites} {service : Str}
    (h : excludeService updates existing state service = .ok next) :
    (Unchanged updates existing state.document service ∧ next.applied = state.applied ∧
        prepareExclusion state.document service = .ok next.document) ∨
      next.applied.length = state.applied.length + 1 := by
  obtain ⟨prepared,value,hlabel,hplain,h⟩ := excludeService_ok h
  rcases h with ⟨hsame,rfl⟩ | ⟨-,config,item,-,rfl⟩
  · refine .inl ⟨⟨value,exclusionLabel_current hlabel,hplain,hsame⟩,rfl,?_⟩
    rw [prepareExclusion,hlabel]
    rfl
  · exact .inr (by simp)

theorem length_applied_le {services : List Str} {state final : ExclusionRewrites}
    (h : services.foldlM (excludeService updates existing) state = .ok final) :
    state.applied.length ≤ final.applied.length := by
  refine foldlM_invariant (I := fun s => state.applied.length ≤ s.applied.length) ?_ (Nat.le_refl _) h
  intro service _ u v hu hv
  rcases excludeService_cases hv with ⟨-,happlied,-⟩ | hlen
  · rwa [happlied]
  · omega

theorem run_of_applied {services : List Str} {state final : ExclusionRewrites} (hd : services.Nodup)
    (h : services.foldlM (excludeService updates existing) state = .ok final)
    (ha : final.applied.length = state.applied.length) :
    (∀ service ∈ services, Unchanged updates existing state.document service) ∧
      services.foldlM prepareExclusion state.document = .ok final.document := by
  induction services generalizing state with
  | nil =>
    cases h
    exact ⟨by simp,rfl⟩
  | cons service services ih =>
    obtain ⟨hnot,hd⟩ := List.nodup_cons.mp hd
    rw [List.foldlM_cons] at h
    obtain ⟨next,hstep,h⟩ := bind_eq_ok.mp h
    have hgrows := length_applied_le h
    rcases excludeService_cases hstep with ⟨hsame,happlied,hprepare⟩ | hlen
    · rw [← happlied] at ha
      obtain ⟨hrest,hrun⟩ := ih hd h ha
      refine ⟨List.forall_mem_cons.mpr ⟨hsame,fun other ho => ?_⟩,?_⟩
      · have hne : other ∉ [service] := by
          rw [List.mem_singleton]
          rintro rfl
          exact hnot ho
        exact (unchanged_congr (excludeService_frame hstep hne)).mp (hrest other ho)
      · rw [List.foldlM_cons,hprepare]
        exact hrun
    · omega

/-- A run over services that can be prepared, and whose labels stay, applies nothing. -/
theorem run_of_unchanged {services : List Str} {document prepared : ComposeDocument} (hd : services.Nodup)
    (hsame : ∀ service ∈ services, Unchanged updates existing document service)
    (h : services.foldlM prepareExclusion document = .ok prepared) (applied : List AppliedTagExclusion) :
    services.foldlM (excludeService updates existing) { document, applied } = .ok { document := prepared, applied } := by
  induction services generalizing document with
  | nil =>
    cases h
    rfl
  | cons service services ih =>
    obtain ⟨hnot,hd⟩ := List.nodup_cons.mp hd
    obtain ⟨⟨value,hvalue,hplain,hmerged⟩,hrest⟩ := List.forall_mem_cons.mp hsame
    rw [List.foldlM_cons] at h
    obtain ⟨next,hprepare,h⟩ := bind_eq_ok.mp h
    obtain ⟨⟨config,found⟩,hlabel,hnext⟩ := bind_eq_ok.mp hprepare
    cases hnext
    have hfound := exclusionLabel_current hlabel
    rw [hvalue] at hfound
    cases hfound
    have hstep : excludeService updates existing { document, applied } service =
        .ok { document := document.setConfig service config, applied } := by
      rw [excludeService,hlabel]
      change (if composeValueHasInterpolation value then _ else _) = _
      rw [hplain,if_neg Bool.false_ne_true]
      exact if_pos hmerged.symm
    rw [List.foldlM_cons,hstep]
    refine ih hd (fun other ho => ?_) h
    have hne : other ≠ service := by
      rintro rfl
      exact hnot ho
    exact (unchanged_congr (config_setConfig_of_ne _ hne)).mpr (hrest other ho)

end Run

/-- What was written is read again: the labels say the same, the images stand where they are expected, and
the services can be prepared as they were. -/
structure Reread (updates : List TagExclusionUpdate) (written again : ComposeDocument) : Prop where
  labels : ∀ service ∈ excludedServices updates,
    currentLabel again service wudTagExcludeLabel = currentLabel written service wudTagExcludeLabel
  images : (updates.forM fun update => do
    let _ ← serviceImageScalarRewrite again update.service update.image) = .ok ()
  prepared : ∃ document, (excludedServices updates).foldlM prepareExclusion again = .ok document

theorem apply_of_excludeTags {yaml : YamlLibrary} {source : Str} {updates : List TagExclusionUpdate}
    {existing : Str → List Str} {final : ExclusionRewrites} (hu : updates ≠ [])
    (h : excludeTags yaml source updates existing = .ok final) :
    applyComposeTagExclusions yaml source updates existing =
      .ok (if final.applied = [] then source else yaml.dump final.document,final.applied) := by
  have hrender : renderComposeTagExclusions yaml source updates existing =
      .ok (yaml.dump final.document,final.applied) := by
    rw [renderComposeTagExclusions,if_neg hu,h]
    rfl
  rw [applyComposeTagExclusions,hrender]
  rfl

theorem excludeTags_of_apply {yaml : YamlLibrary} {source file : Str} {updates : List TagExclusionUpdate}
    {existing : Str → List Str} {applied : List AppliedTagExclusion} (hu : updates ≠ [])
    (h : applyComposeTagExclusions yaml source updates existing = .ok (file,applied)) :
    ∃ final, excludeTags yaml source updates existing = .ok final ∧ final.applied = applied := by
  obtain ⟨⟨rendered,found⟩,hrender,h⟩ := bind_eq_ok.mp h
  cases h
  obtain ⟨final,hfinal,-,happlied⟩ := renderComposeTagExclusions_ok hu hrender
  exact ⟨final,hfinal,happlied.symm⟩

/-- The call that finds every label as it would write it is the one that applies nothing. -/
theorem apply_nothing_iff {yaml : YamlLibrary} {file : Str} {updates : List TagExclusionUpdate}
    {existing : Str → List Str} {again prepared : ComposeDocument} (hu : updates ≠ [])
    (hload : loadComposeYaml yaml file = .ok again)
    (himages : (updates.forM fun update => do
      let _ ← serviceImageScalarRewrite again update.service update.image) = .ok ())
    (hprepared : (excludedServices updates).foldlM prepareExclusion again = .ok prepared) :
    applyComposeTagExclusions yaml file updates existing = .ok (file,[]) ↔
      ∀ service ∈ excludedServices updates, Unchanged updates existing again service := by
  constructor
  · intro h
    obtain ⟨final,hfinal,happlied⟩ := excludeTags_of_apply hu h
    obtain ⟨document,hdocument,-,hrun⟩ := excludeTags_ok hfinal
    rw [hload] at hdocument
    cases hdocument
    exact (run_of_applied (nodup_sortedSet _) hrun (by rw [happlied])).1
  · intro hsame
    have hrun := run_of_unchanged (nodup_sortedSet _) hsame hprepared []
    have hfinal : excludeTags yaml file updates existing = .ok { document := prepared } := by
      rw [excludeTags]
      exact bind_eq_ok.mpr ⟨again,hload,bind_eq_ok.mpr ⟨(),himages,hrun⟩⟩
    exact apply_of_excludeTags hu hfinal

/-- What the next call reads: the labels as the first call merged them, in services that can be prepared. -/
theorem exists_again {yaml : YamlLibrary} {source : Str} {updates : List TagExclusionUpdate}
    {existing : Str → List Str} {written : ExclusionRewrites} {document : ComposeDocument}
    (h : excludeTags yaml source updates existing = .ok written) (hload : loadComposeYaml yaml source = .ok document)
    (reread : written.applied ≠ [] → ∃ again, loadComposeYaml yaml (yaml.dump written.document) = .ok again ∧
      Reread updates written.document again) :
    ∃ again prepared,
      loadComposeYaml yaml (if written.applied = [] then source else yaml.dump written.document) = .ok again ∧
      (updates.forM fun update => do
        let _ ← serviceImageScalarRewrite again update.service update.image) = .ok () ∧
      (excludedServices updates).foldlM prepareExclusion again = .ok prepared ∧
      ∀ service ∈ excludedServices updates, ∃ regex value,
        previousLabel document service wudTagExcludeLabel = .ok regex ∧
        currentLabel again service wudTagExcludeLabel = .ok value ∧ composeValueHasInterpolation value = false ∧
        composeUnescapeDollars value = mergedExclusion updates existing service regex := by
  obtain ⟨found,hfound,himages,hrun⟩ := excludeTags_ok h
  rw [hload] at hfound
  cases hfound
  by_cases ha : written.applied = []
  · rw [if_pos ha]
    obtain ⟨hsame,hprepared⟩ := run_of_applied (nodup_sortedSet _) hrun (by rw [ha])
    refine ⟨document,_,hload,himages,hprepared,fun service hs => ?_⟩
    obtain ⟨value,hvalue,hplain,hmerged⟩ := hsame service hs
    exact ⟨_,value,previousLabel_of_current hvalue,hvalue,hplain,hmerged.symm⟩
  · rw [if_neg ha]
    obtain ⟨again,hagain,hreread⟩ := reread ha
    obtain ⟨prepared,hprepared⟩ := hreread.prepared
    refine ⟨again,prepared,hagain,hreread.images,hprepared,fun service hs => ?_⟩
    obtain ⟨value,after,hvalue,hafter,hplain,hmerged⟩ := foldlM_excludeService_current (nodup_sortedSet _) hrun hs
    exact ⟨_,after,previousLabel_of_current hvalue,(hreread.labels service hs).trans hafter,hplain,hmerged⟩

theorem mergeWudExcludeRegex_ne_nil {regex previous next : Str} (h : next ≠ []) :
    mergeWudExcludeRegex regex previous next ≠ [] := by
  rw [mergeWudExcludeRegex,if_neg h]
  by_cases hmanaged : (regex = [] || regex = previous) = true
  · rwa [if_pos hmanaged]
  · rw [if_neg hmanaged]
    by_cases he : regex = next
    · rwa [if_pos he,he]
    · rw [if_neg he]
      simp

/-- A merged label stays under a second merge, with all tags recorded, exactly where it holds nothing but them. -/
theorem unchanged_record_iff {rules : List TagExclusionRule} {updates : List TagExclusionUpdate}
    {again : ComposeDocument} {service regex value : Str} (hs : service ∈ excludedServices updates)
    (hvalue : currentLabel again service wudTagExcludeLabel = .ok value)
    (hplain : composeValueHasInterpolation value = false)
    (hmerged : composeUnescapeDollars value =
      mergedExclusion updates (existingExactTagExclusions rules updates) service regex) :
    Unchanged updates (existingExactTagExclusions (recordTagExclusionRules rules updates) updates) again service ↔
      (regex = [] ∨ regex = exactTagsRegex (existingExactTagExclusions rules updates service) ∨
        regex = exactTagsRegex (existingExactTagExclusions rules updates service ++ serviceTags updates service)) ∧
      ∀ tag ∈ existingExactTagExclusions (recordTagExclusionRules rules updates) updates service,
        tag ∈ existingExactTagExclusions rules updates service ∨ tag ∈ serviceTags updates service := by
  have hnew := serviceTags_ne_nil hs
  have hsub : ∀ tag, tag ∈ existingExactTagExclusions rules updates service ∨ tag ∈ serviceTags updates service →
      tag ∈ existingExactTagExclusions (recordTagExclusionRules rules updates) updates service :=
    fun tag ht => ht.elim (fun ht => mem_existing_record.mpr (.inl ht)) mem_existing_of_serviceTags
  have hrecorded : existingExactTagExclusions (recordTagExclusionRules rules updates) updates service ≠ [] := by
    obtain ⟨tag,ht⟩ := List.exists_mem_of_ne_nil _ hnew
    exact List.ne_nil_of_mem (hsub tag (.inr ht))
  have hsame : exactTagsRegex (existingExactTagExclusions (recordTagExclusionRules rules updates) updates service ++
      serviceTags updates service) =
        exactTagsRegex (existingExactTagExclusions (recordTagExclusionRules rules updates) updates service) := by
    refine exactTagsRegex_congr fun tag => ?_
    rw [List.mem_append]
    exact or_iff_left_of_imp mem_existing_of_serviceTags
  have hlabel : composeUnescapeDollars value ≠ [] := by
    rw [hmerged]
    exact mergeWudExcludeRegex_ne_nil (exactTagsRegex_ne_nil (by simp [hnew]))
  have hstays : mergedExclusion updates (existingExactTagExclusions (recordTagExclusionRules rules updates) updates)
      service (composeUnescapeDollars value) = composeUnescapeDollars value ↔ composeUnescapeDollars value =
        exactTagsRegex (existingExactTagExclusions (recordTagExclusionRules rules updates) updates service) := by
    rw [mergedExclusion,hsame]
    exact merge_recorded_iff hlabel (exactTagsRegex_ne_nil hrecorded)
  rw [← merge_eq_recorded_iff hnew hsub]
  constructor
  · rintro ⟨found,hfound,-,h⟩
    rw [hvalue] at hfound
    cases hfound
    exact hmerged.symm.trans (hstays.mp h)
  · exact fun h => ⟨value,hvalue,hplain,hstays.mpr (hmerged.trans h)⟩

/-- Exclusions that were applied and recorded are found in place by the next call exactly where every label was
empty or an expression of recorded tags, and no other update records a tag for the service. -/
theorem reapplied_exclusions_iff {yaml : YamlLibrary} {source : Str} {updates : List TagExclusionUpdate}
    {rules : List TagExclusionRule} {written : ExclusionRewrites}
    (h : excludeTags yaml source updates (existingExactTagExclusions rules updates) = .ok written)
    (reread : written.applied ≠ [] → ∃ again, loadComposeYaml yaml (yaml.dump written.document) = .ok again ∧
      Reread updates written.document again) :
    ∃ document file, loadComposeYaml yaml source = .ok document ∧
      applyComposeTagExclusions yaml source updates (existingExactTagExclusions rules updates) =
        .ok (file,written.applied) ∧
      (applyComposeTagExclusions yaml file updates
          (existingExactTagExclusions (recordTagExclusionRules rules updates) updates) = .ok (file,[]) ↔
        ∀ service ∈ updates.map (·.service), ∃ regex,
          previousLabel document service wudTagExcludeLabel = .ok regex ∧
          (regex = [] ∨ regex = exactTagsRegex (existingExactTagExclusions rules updates service) ∨
            regex = exactTagsRegex (existingExactTagExclusions rules updates service ++ serviceTags updates service)) ∧
          ∀ update ∈ updates, update.service = service → ∀ other ∈ updates, other.RecordedFor update →
            other.tag ∈ existingExactTagExclusions rules updates service ∨ other.tag ∈ serviceTags updates service) := by
  obtain ⟨document,hload,-,hrun⟩ := excludeTags_ok h
  by_cases hu : updates = []
  · subst hu
    cases hrun
    exact ⟨document,source,hload,rfl,fun _ => by simp,fun _ => rfl⟩
  · refine ⟨document,_,hload,apply_of_excludeTags hu h,?_⟩
    obtain ⟨again,prepared,hagain,himages,hprepared,hlabels⟩ := exists_again h hload reread
    rw [apply_nothing_iff hu hagain himages hprepared]
    have hrecorded : ∀ service, (∀ tag ∈ existingExactTagExclusions (recordTagExclusionRules rules updates) updates service,
        tag ∈ existingExactTagExclusions rules updates service ∨ tag ∈ serviceTags updates service) ↔
        ∀ update ∈ updates, update.service = service → ∀ other ∈ updates, other.RecordedFor update →
          other.tag ∈ existingExactTagExclusions rules updates service ∨ other.tag ∈ serviceTags updates service := by
      intro service
      constructor
      · exact fun h update hu hs other ho hr => h _ (mem_existing_record.mpr (.inr ⟨update,hu,hs,other,ho,hr,rfl⟩))
      · intro h tag ht
        rcases mem_existing_record.mp ht with ht | ⟨update,hu,hs,other,ho,hr,rfl⟩
        · exact .inl ht
        · exact h update hu hs other ho hr
    constructor
    · intro hsame service hs
      have hs : service ∈ excludedServices updates := mem_sortedSet.mpr hs
      obtain ⟨regex,value,hregex,hvalue,hplain,hmerged⟩ := hlabels service hs
      obtain ⟨hmanaged,hothers⟩ := (unchanged_record_iff hs hvalue hplain hmerged).mp (hsame service hs)
      exact ⟨regex,hregex,hmanaged,(hrecorded service).mp hothers⟩
    · intro hcond service hs
      obtain ⟨regex,hregex,hmanaged,hothers⟩ := hcond service (mem_sortedSet.mp hs)
      obtain ⟨found,value,hfound,hvalue,hplain,hmerged⟩ := hlabels service hs
      rw [hregex] at hfound
      cases hfound
      exact (unchanged_record_iff hs hvalue hplain hmerged).mpr ⟨hmanaged,(hrecorded service).mpr hothers⟩

section Example

def appDocument (source label : Str) : ComposeDocument where
  source := appSource source
  services := [appService label]

def recordedLabel : Str := "wud.tag.exclude=^1\\.5$$".toList

def mergedLabel : Str := "wud.tag.exclude=^(?:1\\.5|2\\.0)$$".toList

/-- The rule of a tag that was excluded before. -/
def appRule : TagExclusionRule := ({ appExclusion with tag := "1.5".toList } : TagExclusionUpdate).rule

def appApplied : AppliedTagExclusion := ⟨"app".toList,"repo/app".toList,["1.5".toList,"2.0".toList]⟩

theorem recorded_label_stays : ∃ file,
    applyComposeTagExclusions appYaml (appSource recordedLabel) [appExclusion]
      (existingExactTagExclusions [appRule] [appExclusion]) = .ok (file,[appApplied]) ∧
    applyComposeTagExclusions appYaml file [appExclusion]
      (existingExactTagExclusions (recordTagExclusionRules [appRule] [appExclusion]) [appExclusion]) = .ok (file,[]) := by
  have hfirst : excludeTags appYaml (appSource recordedLabel) [appExclusion]
      (existingExactTagExclusions [appRule] [appExclusion]) =
        .ok { document := appDocument recordedLabel mergedLabel, applied := [appApplied] } := by decide +kernel
  have hload : loadComposeYaml appYaml (appYaml.dump (appDocument recordedLabel mergedLabel)) =
      .ok (appDocument mergedLabel mergedLabel) := by decide +kernel
  have hreread : Reread [appExclusion] (appDocument recordedLabel mergedLabel) (appDocument mergedLabel mergedLabel) :=
    ⟨by decide +kernel,by decide +kernel,appDocument mergedLabel mergedLabel,by decide +kernel⟩
  obtain ⟨document,file,hdocument,hfile,hiff⟩ := reapplied_exclusions_iff hfirst fun _ => ⟨_,hload,hreread⟩
  refine ⟨file,hfile,hiff.mpr ?_⟩
  have hdocument' : loadComposeYaml appYaml (appSource recordedLabel) = .ok (appDocument recordedLabel recordedLabel) := by
    decide +kernel
  rw [hdocument'] at hdocument
  cases hdocument
  intro service hs
  obtain rfl : service = "app".toList := by simpa [appExclusion] using hs
  refine ⟨"^1\\.5$".toList,by decide +kernel,.inr (.inl (by decide +kernel)),?_⟩
  intro update hu _ other ho _
  rw [List.mem_singleton.mp ho]
  exact .inr (by decide +kernel)

/-- A user's expression is wrapped again by every call. -/
theorem beta_label_grows :
    applyComposeTagExclusions appYaml (appSource "wud.tag.exclude=^beta".toList) [appExclusion]
        (existingExactTagExclusions [] [appExclusion]) =
      .ok (appSource "wud.tag.exclude=(?:^beta)|(?:^2\\.0$$)".toList,
        [⟨"app".toList,"repo/app".toList,["2.0".toList]⟩]) ∧
    applyComposeTagExclusions appYaml (appSource "wud.tag.exclude=(?:^beta)|(?:^2\\.0$$)".toList) [appExclusion]
        (existingExactTagExclusions (recordTagExclusionRules [] [appExclusion]) [appExclusion]) =
      .ok (appSource "wud.tag.exclude=(?:(?:^beta)|(?:^2\\.0$$))|(?:^2\\.0$$)".toList,
        [⟨"app".toList,"repo/app".toList,["2.0".toList]⟩]) := by
  decide +kernel

end Example

end Wudup
