import Wudup.RewriteSpans

/-! Tag updates of several services: what each one rewrites, and the text that all of them give at once. -/
namespace Wudup
open Library

/-- A new image for one service. -/
structure ImageChange where
  service : Str
  oldImage : Str
  newImage : Str
  deriving DecidableEq, Repr

def imageTurns (updates : List TagUpdate) : List (TagUpdate × Str) :=
  updates.flatMap fun update => update.services.map fun service => (update,service)

def imageChange (turn : TagUpdate × Str) : ImageChange := ⟨turn.2,turn.1.oldImage,turn.1.newImage⟩

/-- The images that updates change, service by service. -/
def imageChanges (updates : List TagUpdate) : List ImageChange := (imageTurns updates).map imageChange

/-- What one change rewrites in a document, by itself. -/
def tagRewrites (document : ComposeDocument) (streams : List (Str × TagStreamUpdate)) (change : ImageChange) :
    Rewrite (List SpanRewrite) := do
  let image ← serviceImageScalarRewrite document change.service change.oldImage
  let replaced := { image with replacement := image.replacement ++ change.newImage }
  match streams.lookup change.service with
  | none => return [replaced]
  | some stream =>
    let config ← directServiceConfig document change.service
    let config ← materializeInheritedServiceLabels config change.service
    let labels ← serviceLabelSourceRewrite config stream.labelKey stream.proposedLabelValue document.source
      change.service
    return replaced :: labels

section
variable {document document' : ComposeDocument} {streams streams' : List (Str × TagStreamUpdate)}
variable {change : ImageChange} {service oldImage : Str}

/-- An image's place depends on the source and on the service's own image. -/
theorem serviceImageScalarRewrite_congr (hsource : document'.source = document.source)
    (himage : (document'.config service).map (·.image) = (document.config service).map (·.image)) :
    serviceImageScalarRewrite document' service oldImage = serviceImageScalarRewrite document service oldImage := by
  unfold serviceImageScalarRewrite directServiceConfig
  cases hconfig : document.config service with
  | none =>
    rw [hconfig] at himage
    rw [Option.map_eq_none_iff.mp himage]
    rfl
  | some config =>
    rw [hconfig] at himage
    obtain ⟨config',hconfig',heq⟩ := Option.map_eq_some_iff.mp himage
    obtain ⟨node,image,labels,comments⟩ := config
    obtain ⟨node',image',labels',comments'⟩ := config'
    obtain rfl : image' = image := heq
    rw [hconfig',hsource]
    rfl

theorem directServiceConfig_congr (hconfig : document'.config service = document.config service) :
    directServiceConfig document' service = directServiceConfig document service := by
  unfold directServiceConfig
  rw [hconfig]

/-- What a change rewrites depends on the source, on the service's own mapping and on what its stream sets. -/
theorem tagRewrites_congr (hsource : document'.source = document.source)
    (hconfig : document'.config change.service = document.config change.service)
    (hstream : (streams'.lookup change.service).map (fun stream => (stream.labelKey,stream.proposedLabelValue)) =
      (streams.lookup change.service).map fun stream => (stream.labelKey,stream.proposedLabelValue)) :
    tagRewrites document' streams' change = tagRewrites document streams change := by
  unfold tagRewrites
  rw [serviceImageScalarRewrite_congr hsource (congrArg _ hconfig),directServiceConfig_congr hconfig,hsource]
  cases hlookup : streams.lookup change.service with
  | none =>
    rw [hlookup] at hstream
    rw [Option.map_eq_none_iff.mp hstream]
  | some stream =>
    rw [hlookup] at hstream
    obtain ⟨stream',hlookup',heq⟩ := Option.map_eq_some_iff.mp hstream
    obtain ⟨hkey,hvalue⟩ := Prod.mk.inj heq
    rw [hlookup']
    simp only [hkey,hvalue]

end

/-! One service of one update. -/

/-- What rewriting a service's image, and perhaps its label, does to a document and to the rewrites so far. -/
structure TagStep (streams : List (Str × TagStreamUpdate)) (change : ImageChange) (state next : ImageRewrites) :
    Prop where
  direct : ∀ config field, state.document.config change.service = some config → config.image = some field →
    field.value ≠ .null → field.direct = true
  fresh : ∃ image, serviceImageScalarRewrite state.document change.service change.oldImage = .ok image ∧
    image.span ∉ state.seenSpans ∧ next.seenSpans = state.seenSpans ++ [image.span]
  rewrites : ∃ made, tagRewrites state.document streams change = .ok made ∧ next.rewrites = state.rewrites ++ made
  document : next.document = state.document ∨ ∃ config prepared,
    state.document.config change.service = some config ∧
    materializeInheritedServiceLabels config change.service = .ok prepared ∧
    next.document = state.document.setConfig change.service prepared

theorem direct_of_rewriteServiceConfig {document : ComposeDocument} {service : Str} {config found : ServiceConfig}
    {field : ImageField} {required : Bool} (h : rewriteServiceConfig document service required = .ok config)
    (hfound : document.config service = some found) (hfield : found.image = some field)
    (hvalue : field.value ≠ .null) : field.direct = true := by
  have hconfig := config_of_directServiceConfig (config_of_rewriteServiceConfig h)
  obtain rfl := Option.some.inj (hconfig.symm.trans hfound)
  unfold rewriteServiceConfig at h
  obtain ⟨config',hconfig',h⟩ := bind_eq_ok.mp h
  obtain rfl := Option.some.inj (hconfig.symm.trans (config_of_directServiceConfig hconfig'))
  obtain ⟨_,_,h⟩ := bind_eq_ok.mp h
  dsimp only at h
  split at h
  · exact absurd h (refuse_bind _ _ _)
  · next hinherited =>
    by_contra hdirect
    simp [hfield,hdirect,hvalue] at hinherited

theorem uniqueImageRewrite_spec {document : ComposeDocument} {service oldImage selected : Str}
    {seen seen' : List Span} {image : SpanRewrite}
    (h : uniqueImageRewrite document service oldImage seen selected = .ok (image,seen')) :
    serviceImageScalarRewrite document service oldImage = .ok image ∧ image.span ∉ seen ∧
      seen' = seen ++ [image.span] := by
  unfold uniqueImageRewrite at h
  obtain ⟨rewrite,hrewrite,h⟩ := bind_eq_ok.mp h
  obtain ⟨spans,hspans,h⟩ := bind_eq_ok.mp h
  cases h
  unfold rejectDuplicateImageSpan at hspans
  split at hspans
  · exact absurd hspans (refuse_ne_ok _ _)
  · next hseen =>
    cases hspans
    exact ⟨hrewrite,by simpa using hseen,rfl⟩

section
variable {streams : List (Str × TagStreamUpdate)} {update : TagUpdate} {state next : ImageRewrites} {service : Str}

theorem tagStep_of_tagService (h : rewriteTagService update state service = .ok next) :
    TagStep [] ⟨service,update.oldImage,update.newImage⟩ state next := by
  unfold rewriteTagService at h
  obtain ⟨config,hconfig,h⟩ := bind_eq_ok.mp h
  obtain ⟨⟨image,seen⟩,himage,h⟩ := bind_eq_ok.mp h
  cases h
  obtain ⟨hplace,hfresh,rfl⟩ := uniqueImageRewrite_spec himage
  refine ⟨fun found field => direct_of_rewriteServiceConfig hconfig,⟨image,hplace,hfresh,rfl⟩,⟨_,?_,rfl⟩,.inl rfl⟩
  unfold tagRewrites
  rw [hplace]
  rfl

theorem tagStep_of_streamService (h : rewriteTagStreamService streams update state service = .ok next) :
    TagStep streams ⟨service,update.oldImage,update.newImage⟩ state next := by
  unfold rewriteTagStreamService at h
  obtain ⟨config,hconfig,h⟩ := bind_eq_ok.mp h
  obtain ⟨_,_,h⟩ := bind_eq_ok.mp h
  obtain ⟨⟨image,seen⟩,himage,h⟩ := bind_eq_ok.mp h
  obtain ⟨hplace,hfresh,rfl⟩ := uniqueImageRewrite_spec himage
  have hdirect := config_of_rewriteServiceConfig hconfig
  cases hlookup : streams.lookup service with
  | none =>
    rw [hlookup] at h
    cases h
    refine ⟨fun found field => direct_of_rewriteServiceConfig hconfig,⟨image,hplace,hfresh,rfl⟩,⟨_,?_,rfl⟩,.inl rfl⟩
    unfold tagRewrites
    rw [hplace]
    simp only [hlookup]
    rfl
  | some stream =>
    rw [hlookup] at h
    obtain ⟨prepared,hprepared,h⟩ := bind_eq_ok.mp h
    obtain ⟨labels,hlabels,h⟩ := bind_eq_ok.mp h
    cases h
    have hmaterialized : materializeInheritedServiceLabels config service = .ok prepared := by
      unfold rewriteTagStreamLabel at hprepared
      split at hprepared
      · exact absurd hprepared (refuse_bind _ _ _)
      obtain ⟨copied,hcopied,hprepared⟩ := bind_eq_ok.mp hprepared
      obtain ⟨label,_,hprepared⟩ := bind_eq_ok.mp hprepared
      split at hprepared
      · exact absurd hprepared (refuse_bind _ _ _)
      cases hprepared
      exact materialize_of_prepare hcopied
    refine ⟨fun found field => direct_of_rewriteServiceConfig hconfig,⟨image,hplace,hfresh,rfl⟩,
      ⟨{ image with replacement := image.replacement ++ update.newImage } :: labels,?_,?_⟩,
      .inr ⟨config,prepared,config_of_directServiceConfig hdirect,hmaterialized,rfl⟩⟩
    · simp only [tagRewrites,hplace,hdirect,hlookup,bind,Except.bind,hmaterialized,hlabels]
      rfl
    · simp

end

/-! A whole run. -/

/-- The rewrites of a change that is accepted. -/
def madeRewrites (document : ComposeDocument) (streams : List (Str × TagStreamUpdate)) (change : ImageChange) :
    List SpanRewrite := ((tagRewrites document streams change).toOption).getD []

/-- What a state has of the changes so far: each was made of the document as it was, on a service of its own. -/
structure Collected (document : ComposeDocument) (streams : List (Str × TagStreamUpdate))
    (changes : List ImageChange) (state : ImageRewrites) : Prop where
  source : state.document.source = document.source
  images : ∀ service, (state.document.config service).map (·.image) = (document.config service).map (·.image)
  rest : ∀ service, service ∉ changes.map (·.service) → state.document.config service = document.config service
  services : (changes.map (·.service)).Nodup
  seen : ∀ change ∈ changes, ∃ image,
    serviceImageScalarRewrite document change.service change.oldImage = .ok image ∧ image.span ∈ state.seenSpans
  direct : ∀ change ∈ changes, ∀ config field, document.config change.service = some config →
    config.image = some field → field.value ≠ .null → field.direct = true
  made : ∀ change ∈ changes, tagRewrites document streams change = .ok (madeRewrites document streams change)
  rewrites : state.rewrites = changes.flatMap (madeRewrites document streams)

theorem image_of_materialize {config prepared : ServiceConfig} {service : Str}
    (h : materializeInheritedServiceLabels config service = .ok prepared) : prepared.image = config.image := by
  unfold materializeInheritedServiceLabels at h
  split at h
  · cases h
    rfl
  · split_ifs at h
    · cases h
      rfl
    · split at h
      · cases h
        rfl
      · cases h
        rfl
      · cases h
        rfl
      · exact absurd h (refuse_ne_ok _ _)

section
variable {document : ComposeDocument} {streams : List (Str × TagStreamUpdate)} {changes : List ImageChange}
variable {change : ImageChange} {state next : ImageRewrites}

theorem collected_nil (document : ComposeDocument) (streams : List (Str × TagStreamUpdate)) :
    Collected document streams [] { document } :=
  ⟨rfl,fun _ => rfl,fun _ _ => rfl,List.nodup_nil,by simp,by simp,by simp,rfl⟩

/-- A service is not rewritten again: its image is where it was, and what was seen there is refused. -/
theorem Collected.not_mem (h : Collected document streams changes state) (hstep : TagStep streams change state next) :
    change.service ∉ changes.map (·.service) := by
  intro hmem
  obtain ⟨earlier,hearlier,hservice⟩ := List.mem_map.mp hmem
  obtain ⟨image,himage,hfresh,_⟩ := hstep.fresh
  obtain ⟨image',himage',hseen⟩ := h.seen earlier hearlier
  rw [serviceImageScalarRewrite_congr h.source (h.images change.service)] at himage
  rw [hservice] at himage'
  obtain ⟨config,field,hconfig,hfield,hvalue,_⟩ := serviceImageScalarRewrite_spec himage
  obtain ⟨config',field',hconfig',hfield',hvalue',_⟩ := serviceImageScalarRewrite_spec himage'
  obtain rfl := Option.some.inj (hconfig.symm.trans hconfig')
  obtain rfl := Option.some.inj (hfield.symm.trans hfield')
  have hold : change.oldImage = earlier.oldImage := YamlScalar.text.inj (hvalue.symm.trans hvalue')
  rw [hold] at himage
  obtain rfl := Except.ok.inj (himage.symm.trans himage')
  exact hfresh hseen

theorem Collected.step (h : Collected document streams changes state) (hstep : TagStep streams change state next) :
    Collected document streams (changes ++ [change]) next := by
  have hnew := h.not_mem hstep
  have hconfig := h.rest change.service hnew
  obtain ⟨image,himage,_,hseen⟩ := hstep.fresh
  rw [serviceImageScalarRewrite_congr h.source (h.images change.service)] at himage
  obtain ⟨made,hmade,hrewrites⟩ := hstep.rewrites
  rw [tagRewrites_congr h.source hconfig rfl] at hmade
  have hmade' : madeRewrites document streams change = made := by
    unfold madeRewrites
    rw [hmade]
    rfl
  refine ⟨?_,?_,?_,?_,?_,?_,?_,?_⟩
  · obtain hsame | ⟨config,prepared,_,_,hnext⟩ := hstep.document
    · rw [hsame]
      exact h.source
    · rw [hnext]
      exact h.source
  · intro service
    obtain hsame | ⟨config,prepared,hfound,hprepared,hnext⟩ := hstep.document
    · rw [hsame]
      exact h.images service
    · rw [hnext]
      by_cases hservice : service = change.service
      · rw [hservice,config_setConfig_self hfound,← hconfig,hfound]
        exact congrArg some (image_of_materialize hprepared)
      · rw [config_setConfig_of_ne prepared hservice]
        exact h.images service
  · intro service hservice
    rw [List.map_append,List.mem_append,not_or] at hservice
    obtain hsame | ⟨config,prepared,_,_,hnext⟩ := hstep.document
    · rw [hsame]
      exact h.rest service hservice.1
    · rw [hnext,config_setConfig_of_ne prepared (by simpa using hservice.2)]
      exact h.rest service hservice.1
  · rw [List.map_append,List.nodup_append]
    refine ⟨h.services,List.nodup_singleton _,?_⟩
    intro service hservice other hother
    obtain rfl := List.mem_singleton.mp hother
    intro heq
    rw [heq] at hservice
    exact hnew hservice
  · intro earlier hearlier
    rw [hseen]
    obtain hearlier | hlast := List.mem_append.mp hearlier
    · obtain ⟨image',himage',hmem⟩ := h.seen earlier hearlier
      exact ⟨image',himage',List.mem_append_left _ hmem⟩
    · obtain rfl := List.mem_singleton.mp hlast
      exact ⟨image,himage,List.mem_append_right _ List.mem_cons_self⟩
  · intro earlier hearlier
    obtain hearlier | hlast := List.mem_append.mp hearlier
    · exact h.direct earlier hearlier
    · obtain rfl := List.mem_singleton.mp hlast
      rw [← hconfig]
      exact hstep.direct
  · intro earlier hearlier
    obtain hearlier | hlast := List.mem_append.mp hearlier
    · exact h.made earlier hearlier
    · obtain rfl := List.mem_singleton.mp hlast
      rw [hmade,hmade']
  · rw [hrewrites,h.rewrites,List.flatMap_append,List.flatMap_singleton,hmade']

end

/-- A run over the services of updates has collected what each of its changes makes. -/
theorem collected_of_updates {document : ComposeDocument} {streams : List (Str × TagStreamUpdate)}
    {rewriteService : TagUpdate → ImageRewrites → Str → Rewrite ImageRewrites}
    {rewriteUpdate : ImageRewrites → TagUpdate → Rewrite ImageRewrites}
    (hservice : ∀ update service u v, rewriteService update u service = .ok v →
      TagStep streams ⟨service,update.oldImage,update.newImage⟩ u v)
    (hupdate : ∀ update u v, rewriteUpdate u update = .ok v → update.services.foldlM (rewriteService update) u = .ok v)
    {updates : List TagUpdate} {state : ImageRewrites} (h : updates.foldlM rewriteUpdate { document } = .ok state) :
    Collected document streams (imageChanges updates) state := by
  have hflat : (imageTurns updates).foldlM (fun state turn => rewriteService turn.1 state turn.2) { document } =
      .ok state := by
    refine foldlM_flatMap ?_ h
    intro update u v hu
    rw [List.foldlM_map]
    exact hupdate update u v hu
  refine foldlM_along (I := fun turns state => Collected document streams (turns.map imageChange) state)
    [] ?_ (collected_nil document streams) hflat
  intro turns turn u v hu hstep
  rw [List.map_append]
  exact hu.step (hservice _ _ _ _ hstep)

theorem collected_of_tagUpdates {document : ComposeDocument} {updates : List TagUpdate} {state : ImageRewrites}
    (h : updates.foldlM rewriteTagUpdate { document } = .ok state) :
    Collected document [] (imageChanges updates) state := by
  refine collected_of_updates (fun _ _ _ _ hstep => tagStep_of_tagService hstep) ?_ h
  intro update u v hu
  unfold rewriteTagUpdate at hu
  obtain ⟨_,_,hu⟩ := bind_eq_ok.mp hu
  exact hu

theorem collected_of_streamUpdates {document : ComposeDocument} {streams : List (Str × TagStreamUpdate)}
    {updates : List TagUpdate} {state : ImageRewrites}
    (h : updates.foldlM (rewriteTagStreamUpdate streams) { document } = .ok state) :
    Collected document streams (imageChanges updates) state := by
  refine collected_of_updates (fun _ _ _ _ hstep => tagStep_of_streamService hstep) ?_ h
  intro update u v hu
  unfold rewriteTagStreamUpdate at hu
  obtain ⟨_,_,hu⟩ := bind_eq_ok.mp hu
  exact hu

end Wudup
