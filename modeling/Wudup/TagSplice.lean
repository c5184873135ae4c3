import Wudup.Library.Keyed
import Wudup.TagRewrites

/-! The text that tag updates give: the rewrites of all services are apart, and made at once. -/
namespace Wudup
open Library

/-- What sets the label of a service, where its stream asks for one. -/
def LabelRewrites (document : ComposeDocument) (streams : List (Str × TagStreamUpdate)) (service : Str)
    (config : ServiceConfig) (labels : List SpanRewrite) : Prop :=
  match streams.lookup service with
  | none => labels = []
  | some stream => ∃ prepared, materializeInheritedServiceLabels config service = .ok prepared ∧
      SetsLabel document.source prepared stream.labelKey labels

/-- The rewrites of a change: its image, for which the new one stands, with the break of a line and the blanks
before it, and what sets the label. -/
inductive ChangeSpans (document : ComposeDocument) (streams : List (Str × TagStreamUpdate)) (change : ImageChange) :
    List SpanRewrite → Prop
  | made {config : ServiceConfig} {field : ImageField} {image : SpanRewrite} {labels : List SpanRewrite} {gap : Str} :
    document.config change.service = some config → config.image = some field →
      field.value = .text change.oldImage → ImageSpan document.source change.oldImage field image →
      (document.source.take image.stop).drop image.start = gap ++ change.oldImage → (∀ c ∈ gap, c ∈ yamlBlanks) →
      image.replacement ∈ [[],[' ']] → LabelRewrites document streams change.service config labels →
      ChangeSpans document streams change
        ({ image with replacement := image.replacement ++ change.newImage } :: labels)

theorem changeSpans_of_tagRewrites {document : ComposeDocument} {streams : List (Str × TagStreamUpdate)}
    {change : ImageChange} {made : List SpanRewrite} (h : tagRewrites document streams change = .ok made) :
    ChangeSpans document streams change made := by
  unfold tagRewrites at h
  obtain ⟨image,himage,h⟩ := bind_eq_ok.mp h
  obtain ⟨config,field,hconfig,hfield,hvalue,hspan⟩ := serviceImageScalarRewrite_spec himage
  obtain ⟨gap,hgap,hblank⟩ := hspan.replaced
  have hjoin : image.replacement ∈ [[],[' ']] := by
    cases hspan with
    | oneLine _ _ _ _ _ _ _ hjoin => simp [hjoin]
    | twoLines _ _ _ _ _ _ _ _ _ _ _ _ hjoin => exact hjoin
  have hmade : ∀ {labels : List SpanRewrite}, LabelRewrites document streams change.service config labels →
      ChangeSpans document streams change
        ({ image with replacement := image.replacement ++ change.newImage } :: labels) :=
    fun hlabels => .made hconfig hfield hvalue hspan hgap hblank hjoin hlabels
  dsimp only at h
  split at h
  · next hlookup =>
    cases h
    refine hmade ?_
    unfold LabelRewrites
    rw [hlookup]
  · next stream hlookup =>
    obtain ⟨config',hconfig',h⟩ := bind_eq_ok.mp h
    obtain rfl := Option.some.inj (hconfig.symm.trans (config_of_directServiceConfig hconfig'))
    obtain ⟨prepared,hprepared,h⟩ := bind_eq_ok.mp h
    obtain ⟨labels,hlabels,h⟩ := bind_eq_ok.mp h
    cases h
    refine hmade ?_
    unfold LabelRewrites
    rw [hlookup]
    exact ⟨prepared,hprepared,setsLabel_of_rewrite hlabels⟩

/-! Where the services' images and labels stand. -/

/-- Where the image and the labels of each service stand, with the content of labels in a flow collection. -/
structure Layout where
  image : Str → Extent
  labels : Str → Extent
  flow : Str → FlowContent

/-- The images and labels of some services stand where the library says, each in a place of its own. -/
structure Layout.Correct (layout : Layout) (document : ComposeDocument) (streams : List (Str × TagStreamUpdate))
    (services : List Str) : Prop where
  images : ∀ service ∈ services, ∀ config field, document.config service = some config →
    config.image = some field → field.direct = true → ImagePlaced document.source field (layout.image service)
  labels : ∀ service ∈ services, (streams.lookup service).isSome = true → ∀ config labels,
    document.config service = some config → config.labels = some labels → labels.direct = true →
    LabelsPlaced document.source labels (layout.labels service) (layout.flow service)
  imagesApart : ∀ service ∈ services, ∀ other ∈ services, service ≠ other →
    (layout.image service).Apart (layout.image other)
  labelsApart : ∀ service ∈ services, ∀ other ∈ services, service ≠ other →
    (streams.lookup service).isSome = true → (streams.lookup other).isSome = true →
    (layout.labels service).Apart (layout.labels other)
  imagesLabelsApart : ∀ service ∈ services, ∀ other ∈ services, (streams.lookup other).isSome = true →
    (layout.image service).Apart (layout.labels other)

/-- Every flow collection that a label is added to settles. -/
def Layout.Settled (layout : Layout) (document : ComposeDocument) (streams : List (Str × TagStreamUpdate))
    (services : List Str) : Prop :=
  ∀ service ∈ services, ∀ stream config labels start, streams.lookup service = some stream →
    document.config service = some config → config.labels = some labels → labels.direct = true →
    serviceLabelPresent config stream.labelKey = .ok false →
    serviceLabelsFlowStart labels document.source = .ok (some start) → (layout.flow service).Settled

/-- The rewrites of a service, where its image and its labels stand. -/
inductive PlacedSpans (source : Str) (layout : Layout) (streams : List (Str × TagStreamUpdate)) (service : Str) :
    List SpanRewrite → Prop
  | placed {oldImage : Str} {field : ImageField} {image replaced : SpanRewrite} {labels : List SpanRewrite} :
    ImageSpan source oldImage field image → field.value = .text oldImage →
      ImagePlaced source field (layout.image service) → replaced.start = image.start → replaced.stop = image.stop →
      (∀ label ∈ labels, (streams.lookup service).isSome = true ∧
        Placement source (layout.image service) (layout.labels service) image label ∧ label.Fits source) →
      labels.Pairwise SpanRewrite.Apart → PlacedSpans source layout streams service (replaced :: labels)

/-- Labels that are ready to be set are the service's own, or have no place. -/
theorem direct_of_materialize {config prepared : ServiceConfig} {service : Str} {labels : LabelsField}
    (h : materializeInheritedServiceLabels config service = .ok prepared) (hlabels : prepared.labels = some labels)
    (hplace : labels.value = .null ∧ labels.direct = true ∨ labels.Located) :
    prepared = config ∧ labels.direct = true := by
  unfold materializeInheritedServiceLabels at h
  split at h
  · next hnone =>
    cases h
    rw [hnone] at hlabels
    cases hlabels
  · next own hown =>
    split_ifs at h with hdirect
    · cases h
      obtain rfl := Option.some.inj (hown.symm.trans hlabels)
      exact ⟨rfl,hdirect⟩
    · split at h
      · next hnull =>
        cases h
        obtain rfl := Option.some.inj (hown.symm.trans hlabels)
        obtain ⟨_,hown⟩ | ⟨hsome,_⟩ := hplace
        · exact absurd hown hdirect
        · exact absurd hnull hsome
      · cases h
        obtain rfl := Option.some.inj hlabels
        obtain ⟨hnull,_⟩ | ⟨_,hlocation⟩ := hplace
        · cases hnull
        · cases hlocation
      · cases h
        obtain rfl := Option.some.inj hlabels
        obtain ⟨hnull,_⟩ | ⟨_,hlocation⟩ := hplace
        · cases hnull
        · cases hlocation
      · exact absurd h (refuse_ne_ok _ _)

section
variable {document : ComposeDocument} {streams : List (Str × TagStreamUpdate)} {services : List Str}
variable {layout : Layout} {change : ImageChange} {made made' : List SpanRewrite} {service other : Str}

theorem placedSpans_of_changeSpans (h : ChangeSpans document streams change made)
    (hlayout : layout.Correct document streams services) (hsettle : layout.Settled document streams services)
    (hmem : change.service ∈ services) (hdirect : ∀ config field, document.config change.service = some config →
      config.image = some field → field.value ≠ .null → field.direct = true) :
    PlacedSpans document.source layout streams change.service made := by
  cases h with
  | @made config field image labels gap hconfig hfield hvalue hspan _ _ _ hlabels =>
    have hsome : field.value ≠ .null := by
      rw [hvalue]
      exact YamlScalar.noConfusion
    have hown := hdirect config field hconfig hfield hsome
    have hplaced := hlayout.images change.service hmem config field hconfig hfield hown
    unfold LabelRewrites at hlabels
    split at hlabels
    · rw [hlabels]
      exact .placed hspan hvalue hplaced rfl rfl (by simp) .nil
    · next stream hlookup =>
      obtain ⟨prepared,hprepared,hsets⟩ := hlabels
      have hstreamed : (streams.lookup change.service).isSome = true := by rw [hlookup]; rfl
      have hfield' : prepared.image = some field := (image_of_materialize hprepared).trans hfield
      refine .placed hspan hvalue hplaced rfl rfl (fun label hlabel => ⟨hstreamed,?_⟩) hsets.2
      refine placement_of_labelSpan (layout.flow change.service) (hsets.1 label hlabel) hfield' hspan hvalue hplaced
        ?_ ?_
      · intro labels hlabels hplace
        obtain ⟨rfl,hdirect⟩ := direct_of_materialize hprepared hlabels hplace
        exact hlayout.labels change.service hmem hstreamed prepared labels hconfig hlabels hdirect
      · intro labels start hlabels hlocated habsent hflow
        obtain ⟨rfl,hdirect⟩ := direct_of_materialize hprepared hlabels (.inr hlocated)
        exact hsettle change.service hmem stream prepared labels start hlookup hconfig hlabels hdirect habsent hflow

theorem PlacedSpans.fits (h : PlacedSpans document.source layout streams service made) :
    ∀ rewrite ∈ made, rewrite.Fits document.source := by
  cases h with
  | @placed oldImage field image replaced labels hspan hvalue hplaced hstart hstop hlabels _ =>
    obtain ⟨location,line,hlocation,hline⟩ := hspan.exists_line
    obtain ⟨_,hle,hwithin,_⟩ := hspan.within hvalue hplaced hlocation hline
    obtain ⟨_,_,hisLine⟩ := isLine hline
    have hlength := hisLine.stop_le
    intro rewrite hmem
    obtain rfl | hmem := List.mem_cons.mp hmem
    · change rewrite.start ≤ rewrite.stop ∧ rewrite.stop ≤ document.source.length
      omega
    · exact (hlabels rewrite hmem).2.2

/-- The rewrites of one service do not overlap. -/
theorem PlacedSpans.pairwise (h : PlacedSpans document.source layout streams service made)
    (hlayout : layout.Correct document streams services) (hmem : service ∈ services) :
    made.Pairwise SpanRewrite.Apart := by
  cases h with
  | @placed oldImage field image replaced labels hspan hvalue hplaced hstart hstop hlabels hapart =>
    refine List.pairwise_cons.mpr ⟨?_,hapart⟩
    intro label hlabel
    obtain ⟨hstreamed,hplacement,_⟩ := hlabels label hlabel
    have himage := hplacement.apart_image hspan hvalue hplaced
      (hlayout.imagesLabelsApart service hmem service hmem hstreamed) (.inl rfl)
    change replaced.stop ≤ label.start ∨ label.stop ≤ replaced.start
    rw [hstart,hstop]
    exact himage

/-- The rewrites of two services do not overlap. -/
theorem PlacedSpans.apart (h : PlacedSpans document.source layout streams service made)
    (h' : PlacedSpans document.source layout streams other made') (hlayout : layout.Correct document streams services)
    (hmem : service ∈ services) (hmem' : other ∈ services) (hne : service ≠ other) :
    ∀ a ∈ made, ∀ b ∈ made', a.Apart b := by
  cases h with
  | @placed oldImage field image replaced labels hspan hvalue hplaced hstart hstop hlabels _ =>
    cases h' with
    | @placed oldImage' field' image' replaced' labels' hspan' hvalue' hplaced' hstart' hstop' hlabels' _ =>
      have himages := hlayout.imagesApart service hmem other hmem' hne
      -- An image is apart from what stands apart from the place of the rewritten one.
      have hreplaced : ∀ {b : SpanRewrite}, image.Apart b → replaced.Apart b := by
        intro b hb
        change replaced.stop ≤ b.start ∨ b.stop ≤ replaced.start
        rw [hstart,hstop]
        exact hb
      have hreplaced' : ∀ {a : SpanRewrite}, image'.Apart a → replaced'.Apart a := by
        intro a ha
        change replaced'.stop ≤ a.start ∨ a.stop ≤ replaced'.start
        rw [hstart',hstop']
        exact ha
      intro a ha b hb
      obtain rfl | ha := List.mem_cons.mp ha
      · obtain rfl | hb := List.mem_cons.mp hb
        · obtain ⟨location,line,hlocation,hline⟩ := hspan.exists_line
          obtain ⟨hfirst,_,hlast,hnext⟩ := hspan.within hvalue hplaced hlocation hline
          obtain ⟨location',line',hlocation',hline'⟩ := hspan'.exists_line
          obtain ⟨hfirst',_,hlast',hnext'⟩ := hspan'.within hvalue' hplaced' hlocation' hline'
          have hstops := (next_le_length hline).1
          have hstops' := (next_le_length hline').1
          exact apart_of_extents himages (by omega) (by omega)
        · obtain ⟨hstreamed,hplacement,_⟩ := hlabels' b hb
          exact hreplaced (hplacement.apart_image hspan hvalue hplaced
            (hlayout.imagesLabelsApart service hmem other hmem' hstreamed) (.inr himages.symm))
      · obtain ⟨hstreamed,hplacement,_⟩ := hlabels a ha
        obtain rfl | hb := List.mem_cons.mp hb
        · exact (hreplaced' (hplacement.apart_image hspan' hvalue' hplaced'
            (hlayout.imagesLabelsApart other hmem' service hmem hstreamed) (.inr himages))).symm
        · obtain ⟨hstreamed',hplacement',_⟩ := hlabels' b hb
          exact hplacement.apart hplacement' (hlayout.labelsApart service hmem other hmem' hne hstreamed hstreamed')
            (hlayout.imagesLabelsApart service hmem other hmem' hstreamed')
            (hlayout.imagesLabelsApart other hmem' service hmem hstreamed)

/-- The images of two services do not start at one place. -/
theorem PlacedSpans.start_ne {a b : SpanRewrite} (h : PlacedSpans document.source layout streams service (a :: made))
    (h' : PlacedSpans document.source layout streams other (b :: made'))
    (hlayout : layout.Correct document streams services) (hmem : service ∈ services) (hmem' : other ∈ services)
    (hne : service ≠ other) : a.start ≠ b.start := by
  cases h with
  | @placed _ _ image _ _ hspan hvalue hplaced hstart hstop _ _ =>
    cases h' with
    | @placed _ _ image' _ _ hspan' hvalue' hplaced' hstart' hstop' _ _ =>
      obtain ⟨location,line,hlocation,hline⟩ := hspan.exists_line
      obtain ⟨hfirst,hle,hlast,hnext⟩ := hspan.within hvalue hplaced hlocation hline
      obtain ⟨location',line',hlocation',hline'⟩ := hspan'.exists_line
      obtain ⟨hfirst',hle',hlast',hnext'⟩ := hspan'.within hvalue' hplaced' hlocation' hline'
      have hstops := (next_le_length hline).1
      have hstops' := (next_le_length hline').1
      obtain hbefore | hbehind := hlayout.imagesApart service hmem other hmem' hne <;> omega

end

/-! The rewrites of all services, made from the last to the first. -/

theorem SpanRewrite.sortKey_inj {a b : SpanRewrite} (h : a.sortKey = b.sortKey) : a = b := by
  obtain ⟨start,stop,replacement⟩ := a
  obtain ⟨start',stop',replacement'⟩ := b
  simpa [SpanRewrite.sortKey] using h

/-- Rewrites that are apart give at once what they give from the last to the first. -/
theorem edited_of_descending {source : Str} {rewrites ordered : List SpanRewrite}
    (hapart : rewrites.Pairwise SpanRewrite.Apart) (hfits : ∀ rewrite ∈ rewrites, rewrite.Fits source)
    (hperm : ordered.Perm rewrites) (hordered : ordered.Pairwise fun a b => b.sortKey ≤ a.sortKey) :
    Edited 0 ((Keyed.sortedBy SpanRewrite.sortKey rewrites).map SpanRewrite.edit) source
      (ordered.foldl replaceSpan source) := by
  obtain ⟨ascending,hascending⟩ : ∃ ascending, ascending = Keyed.sortedBy SpanRewrite.sortKey rewrites := ⟨_,rfl⟩
  have hsorted : ascending.Pairwise fun a b => a.sortKey ≤ b.sortKey := by
    rw [hascending]
    exact List.pairwise_insertionSort _ rewrites
  have hperm' : ascending.Perm rewrites := hascending ▸ Keyed.sortedBy_perm SpanRewrite.sortKey rewrites
  have hreverse : ordered.reverse = ascending := by
    refine ((List.reverse_perm ordered).trans (hperm.trans hperm'.symm)).eq_of_pairwise ?_
      (List.pairwise_reverse.mpr hordered) hsorted
    exact fun a b _ _ hab hba => SpanRewrite.sortKey_inj (le_antisymm hab hba)
  rw [← hascending]
  have hfold : ordered.foldl replaceSpan source = (ascending.map SpanRewrite.edit).foldr Edit.apply source := by
    rw [List.foldl_eq_foldr_reverse,hreverse,List.foldr_map]
    rfl
  have hapart' : (ascending.map SpanRewrite.edit).Pairwise Edit.Apart := by
    rw [List.pairwise_map]
    exact (hperm'.pairwise_iff fun hab => SpanRewrite.Apart.symm hab).mpr hapart
  have hfits' : ∀ e ∈ ascending.map SpanRewrite.edit, e.Fits source.length := by
    intro e he
    obtain ⟨rewrite,hmem,rfl⟩ := List.mem_map.mp he
    exact hfits rewrite (hperm'.subset hmem)
  have horder : (ascending.map SpanRewrite.edit).Pairwise fun a b =>
      a.start < b.start ∨ (a.start = b.start ∧ a.stop ≤ b.stop) := by
    rw [List.pairwise_map]
    refine hsorted.imp ?_
    intro a b hab
    obtain hlt | ⟨heq,hrest⟩ := Prod.Lex.toLex_le_toLex.mp hab
    · exact .inl hlt
    · right
      refine ⟨heq,?_⟩
      obtain hlt | ⟨heq',_⟩ := Prod.Lex.toLex_le_toLex.mp hrest
      · exact hlt.le
      · exact heq'.le
  rw [hfold]
  obtain ⟨result,hresult,hedited⟩ := edited_foldr (Nat.zero_le source.length)
    (ascending_of_sorted hfits' (fun _ _ => Nat.zero_le _) hapart' horder) fun e he => (hfits' e he).2
  rw [hresult]
  exact hedited

/-- What changes of images, with the labels that streams ask for, make of a document's source: every service is
changed once, and its rewrites and those of the others are apart and made at once. -/
structure TagSplice (document : ComposeDocument) (streams : List (Str × TagStreamUpdate))
    (changes : List ImageChange) (rendered : Str) : Prop where
  services : (changes.map (·.service)).Nodup
  changeSpans : ∀ change ∈ changes, ChangeSpans document streams change (madeRewrites document streams change)
  apart : (changes.flatMap (madeRewrites document streams)).Pairwise SpanRewrite.Apart
  fits : ∀ rewrite ∈ changes.flatMap (madeRewrites document streams), rewrite.Fits document.source
  edited : Edited 0 ((Keyed.sortedBy SpanRewrite.sortKey (changes.flatMap (madeRewrites document streams))).map
    SpanRewrite.edit) document.source rendered

section
variable {document : ComposeDocument} {streams streams' : List (Str × TagStreamUpdate)}
variable {changes changes' : List ImageChange} {state state' : ImageRewrites} {layout : Layout}

theorem Collected.changeSpans (h : Collected document streams changes state) :
    ∀ change ∈ changes, ChangeSpans document streams change (madeRewrites document streams change) :=
  fun change hmem => changeSpans_of_tagRewrites (h.made change hmem)

theorem Collected.placed (h : Collected document streams changes state)
    (hlayout : layout.Correct document streams (changes.map (·.service)))
    (hsettle : layout.Settled document streams (changes.map (·.service))) :
    ∀ change ∈ changes,
      PlacedSpans document.source layout streams change.service (madeRewrites document streams change) :=
  fun change hmem => placedSpans_of_changeSpans (h.changeSpans change hmem) hlayout hsettle
    (List.mem_map_of_mem hmem) (h.direct change hmem)

/-- Two changes of a run are of two services. -/
theorem Collected.services_ne (h : Collected document streams changes state) :
    changes.Pairwise fun a b => a.service ≠ b.service := List.pairwise_map.mp h.services

theorem Collected.apart (h : Collected document streams changes state)
    (hlayout : layout.Correct document streams (changes.map (·.service)))
    (hsettle : layout.Settled document streams (changes.map (·.service))) :
    state.rewrites.Pairwise SpanRewrite.Apart := by
  have hplaced := h.placed hlayout hsettle
  rw [h.rewrites,List.pairwise_flatMap]
  refine ⟨fun change hmem => (hplaced change hmem).pairwise hlayout (List.mem_map_of_mem hmem),?_⟩
  refine h.services_ne.imp_of_mem ?_
  intro a b ha hb hne
  exact (hplaced a ha).apart (hplaced b hb) hlayout (List.mem_map_of_mem ha) (List.mem_map_of_mem hb) hne

theorem Collected.fits (h : Collected document streams changes state)
    (hlayout : layout.Correct document streams (changes.map (·.service)))
    (hsettle : layout.Settled document streams (changes.map (·.service))) :
    ∀ rewrite ∈ state.rewrites, rewrite.Fits document.source := by
  rw [h.rewrites]
  intro rewrite hmem
  obtain ⟨change,hchange,hmade⟩ := List.mem_flatMap.mp hmem
  exact (h.placed hlayout hsettle change hchange).fits rewrite hmade

theorem Collected.tagSplice (h : Collected document streams changes state)
    (hlayout : layout.Correct document streams (changes.map (·.service)))
    (hsettle : layout.Settled document streams (changes.map (·.service))) {ordered : List SpanRewrite}
    (hperm : ordered.Perm state.rewrites) (hordered : ordered.Pairwise fun a b => b.sortKey ≤ a.sortKey) :
    TagSplice document streams changes (ordered.foldl replaceSpan document.source) := by
  have hapart := h.apart hlayout hsettle
  have hfits := h.fits hlayout hsettle
  have hedited := edited_of_descending hapart hfits hperm hordered
  rw [h.rewrites] at hapart hfits hedited
  exact ⟨h.services,h.changeSpans,hapart,hfits,hedited⟩

/-- Runs that change the same images in another order collect the same rewrites. -/
theorem Collected.perm (h : Collected document streams changes state) (h' : Collected document streams' changes' state')
    (hperm : changes'.Perm changes) (hstreams : ∀ service,
      (streams'.lookup service).map (fun stream => (stream.labelKey,stream.proposedLabelValue)) =
      (streams.lookup service).map fun stream => (stream.labelKey,stream.proposedLabelValue)) :
    state'.rewrites.Perm state.rewrites := by
  have hmade : madeRewrites document streams' = madeRewrites document streams := by
    funext change
    unfold madeRewrites
    rw [tagRewrites_congr rfl rfl (hstreams change.service)]
  rw [h.rewrites,h'.rewrites,hmade]
  exact hperm.flatMap_right _

end

/-! The stream updates of the services, in any order. -/

theorem addTagStreamUpdate_lookup {resolve : Str → Str} {path : ComposePath} {stackName : Str}
    {byService next : List (Str × TagStreamUpdate)} {update : TagStreamUpdate}
    (h : addTagStreamUpdate resolve path stackName byService update = .ok next) :
    (∃ found, next.lookup update.service = some found ∧ { update with lineNo := found.lineNo } = found) ∧
      ∀ service found, byService.lookup service = some found → next.lookup service = some found := by
  unfold addTagStreamUpdate at h
  dsimp only at h
  split at h
  · exact absurd h (refuse_bind _ _ _)
  split at h
  · exact absurd h (refuse_bind _ _ _)
  split at h
  · exact absurd h (refuse_bind _ _ _)
  split at h
  · exact absurd h (refuse_bind _ _ _)
  split at h
  · next existing hexisting =>
    split at h
    · next hsame =>
      cases h
      exact ⟨⟨existing,hexisting,hsame⟩,fun _ _ hfound => hfound⟩
    · exact absurd h (refuse_ne_ok _ _)
  · next hnone =>
    cases h
    refine ⟨⟨update,?_,rfl⟩,?_⟩
    · rw [List.lookup_append,hnone]
      simp
    · intro service found hfound
      rw [List.lookup_append,hfound]
      rfl

/-- The stream update found for a service differs from each that was given in its line only. -/
theorem lookup_tagStreamUpdates {resolve : Str → Str} {path : ComposePath} {stackName : Str}
    {updates : List TagStreamUpdate} {byService : List (Str × TagStreamUpdate)}
    (h : tagStreamUpdatesByService resolve path stackName updates = .ok byService) :
    ∀ update ∈ updates, ∃ found, byService.lookup update.service = some found ∧
      { update with lineNo := found.lineNo } = found := by
  refine foldlM_along (I := fun passed byService => ∀ update ∈ passed, ∃ found,
    byService.lookup update.service = some found ∧ { update with lineNo := found.lineNo } = found) [] ?_ (by simp) h
  intro passed update byService next hbefore hnext earlier hearlier
  obtain ⟨hadded,hkept⟩ := addTagStreamUpdate_lookup hnext
  obtain hearlier | hlast := List.mem_append.mp hearlier
  · obtain ⟨found,hfound,hsame⟩ := hbefore earlier hearlier
    exact ⟨found,hkept _ _ hfound,hsame⟩
  · obtain rfl := List.mem_singleton.mp hlast
    exact hadded

theorem settings_of_perm {resolve : Str → Str} {path : ComposePath} {stackName : Str}
    {updates updates' : List TagStreamUpdate} {streams streams' : List (Str × TagStreamUpdate)}
    (h : tagStreamUpdatesByService resolve path stackName updates = .ok streams)
    (h' : tagStreamUpdatesByService resolve path stackName updates' = .ok streams') (hperm : updates'.Perm updates)
    (service : Str) :
    (streams'.lookup service).map (fun stream => (stream.labelKey,stream.proposedLabelValue)) =
      (streams.lookup service).map fun stream => (stream.labelKey,stream.proposedLabelValue) := by
  have hfind : ∀ {xs ys : List TagStreamUpdate} {found other : List (Str × TagStreamUpdate)} {stream : TagStreamUpdate},
      tagStreamUpdatesByService resolve path stackName xs = .ok found →
      tagStreamUpdatesByService resolve path stackName ys = .ok other → xs ⊆ ys → found.lookup service = some stream →
      ∃ stream', other.lookup service = some stream' ∧ { stream with lineNo := stream'.lineNo } = stream' := by
    intro xs ys found other stream hxs hys hsubset hlookup
    obtain ⟨before,after,hfound,_⟩ := List.lookup_eq_some_iff.mp hlookup
    obtain ⟨hmem,hservice,_,_⟩ := mem_tagStreamUpdatesByService hxs (service,stream) (by simp [hfound])
    obtain ⟨stream',hstream',hsame⟩ := lookup_tagStreamUpdates hys stream (hsubset hmem)
    have hservice : stream.service = service := hservice
    rw [hservice] at hstream'
    exact ⟨stream',hstream',hsame⟩
  cases hlookup : streams.lookup service with
  | none =>
    cases hlookup' : streams'.lookup service with
    | none => rfl
    | some stream' =>
      obtain ⟨stream,hstream,_⟩ := hfind h' h hperm.subset hlookup'
      rw [hlookup] at hstream
      cases hstream
  | some stream =>
    obtain ⟨stream',hstream',hsame⟩ := hfind h h' hperm.symm.subset hlookup
    rw [hstream',← hsame]
    rfl

/-! The two renderers. -/

theorem Layout.Correct.withoutStreams {layout : Layout} {document : ComposeDocument}
    {streams : List (Str × TagStreamUpdate)} {services : List Str} (h : layout.Correct document streams services) :
    layout.Correct document [] services := by
  refine ⟨h.images,?_,h.imagesApart,?_,?_⟩
  · intro service _ hstreamed
    cases hstreamed
  · intro service _ other _ _ hstreamed
    cases hstreamed
  · intro service _ other _ hstreamed
    cases hstreamed

theorem Layout.settled_nil (layout : Layout) (document : ComposeDocument) (services : List Str) :
    layout.Settled document [] services := by
  intro service _ stream config labels start hlookup
  cases hlookup

section
variable {document : ComposeDocument} {changes : List ImageChange} {state : ImageRewrites} {layout : Layout}

/-- Without streams every change replaces an image and nothing else, at a place of its own. -/
theorem Collected.starts_ne (h : Collected document [] changes state)
    (hlayout : layout.Correct document [] (changes.map (·.service))) :
    state.rewrites.Pairwise fun a b => a.start ≠ b.start := by
  have hplaced := h.placed hlayout (layout.settled_nil _ _)
  have hsingle : ∀ change ∈ changes, ∃ rewrite, madeRewrites document [] change = [rewrite] := by
    intro change hmem
    have hspans := h.changeSpans change hmem
    generalize madeRewrites document [] change = made at hspans
    cases hspans with
    | made _ _ _ _ _ _ _ hlabels => exact ⟨_,congrArg _ hlabels⟩
  rw [h.rewrites,List.pairwise_flatMap]
  constructor
  · intro change hmem
    obtain ⟨rewrite,hrewrite⟩ := hsingle change hmem
    rw [hrewrite]
    exact List.pairwise_singleton _ _
  · refine h.services_ne.imp_of_mem ?_
    intro a b ha hb hne x hx y hy
    obtain ⟨rewrite,hrewrite⟩ := hsingle a ha
    obtain ⟨rewrite',hrewrite'⟩ := hsingle b hb
    have hplaced₁ := hplaced a ha
    have hplaced₂ := hplaced b hb
    rw [hrewrite] at hx hplaced₁
    rw [hrewrite'] at hy hplaced₂
    rw [List.mem_singleton.mp hx,List.mem_singleton.mp hy]
    exact hplaced₁.start_ne hplaced₂ hlayout (List.mem_map_of_mem ha) (List.mem_map_of_mem hb) hne

/-- Rewrites at places of their own that are in order of their starts are in order. -/
theorem sortKey_of_starts {rewrites ordered : List SpanRewrite} (hne : rewrites.Pairwise fun a b => a.start ≠ b.start)
    (hperm : ordered.Perm rewrites) (hordered : ordered.Pairwise fun a b => b.start ≤ a.start) :
    ordered.Pairwise fun a b => b.sortKey ≤ a.sortKey := by
  have hne' : ordered.Pairwise fun a b => a.start ≠ b.start := (hperm.pairwise_iff fun hab => Ne.symm hab).mpr hne
  refine (hordered.and hne').imp ?_
  intro a b hab
  exact Prod.Lex.toLex_le_toLex.mpr (.inl (lt_of_le_of_ne hab.1 (Ne.symm hab.2)))

end

theorem source_of_loadComposeYaml {yaml : YamlLibrary} {source : Str} {document : ComposeDocument}
    (h : loadComposeYaml yaml source = .ok document) : document.source = source := by
  unfold loadComposeYaml at h
  split at h
  · exact absurd h (refuse_ne_ok _ _)
  · exact absurd h (refuse_ne_ok _ _)
  · exact absurd h (refuse_ne_ok _ _)
  · cases h
    rfl

section
variable {yaml : YamlLibrary} {resolve : Str → Str} {path : ComposePath} {source stackName rendered : Str}
variable {updates : List TagUpdate} {streamUpdates : List TagStreamUpdate} {applied : List AppliedTagUpdate}
variable {document : ComposeDocument} {streams : List (Str × TagStreamUpdate)}

theorem renderComposeTagUpdates_spec (h : renderComposeTagUpdates yaml source updates = .ok (some rendered,applied))
    (hload : loadComposeYaml yaml source = .ok document) :
    ∃ (state : ImageRewrites) (ordered : List SpanRewrite), Collected document [] (imageChanges updates) state ∧
      ordered.Perm state.rewrites ∧ ordered.Pairwise (fun a b => b.start ≤ a.start) ∧
      rendered = ordered.foldl replaceSpan document.source := by
  unfold renderComposeTagUpdates at h
  obtain ⟨loaded,hloaded,h⟩ := bind_eq_ok.mp h
  obtain rfl := Except.ok.inj (hload.symm.trans hloaded)
  obtain ⟨state,hstate,h⟩ := bind_eq_ok.mp h
  dsimp only at h
  refine ⟨state,state.rewrites.insertionSort fun a b => b.start ≤ a.start,collected_of_tagUpdates hstate,
    List.perm_insertionSort _ _,?_,?_⟩
  · exact List.pairwise_insertionSort _ state.rewrites
  · rw [source_of_loadComposeYaml hload]
    split at h
    · cases h
    · cases h
      rfl

theorem renderComposeTagStreamUpdates_spec
    (h : renderComposeTagStreamUpdates yaml resolve path source updates streamUpdates stackName =
      .ok (rendered,applied))
    (hload : loadComposeYaml yaml source = .ok document) :
    ∃ (streams : List (Str × TagStreamUpdate)) (state : ImageRewrites) (ordered : List SpanRewrite),
      tagStreamUpdatesByService resolve path stackName streamUpdates = .ok streams ∧
      Collected document streams (imageChanges updates) state ∧ ordered.Perm state.rewrites ∧
      ordered.Pairwise (fun a b => b.sortKey ≤ a.sortKey) ∧ rendered = ordered.foldl replaceSpan document.source := by
  unfold renderComposeTagStreamUpdates at h
  obtain ⟨loaded,hloaded,h⟩ := bind_eq_ok.mp h
  obtain rfl := Except.ok.inj (hload.symm.trans hloaded)
  obtain ⟨streams,hstreams,h⟩ := bind_eq_ok.mp h
  obtain ⟨state,hstate,h⟩ := bind_eq_ok.mp h
  dsimp only at h
  refine ⟨streams,state,state.rewrites.insertionSort fun a b => b.sortKey ≤ a.sortKey,hstreams,
    collected_of_streamUpdates hstate,List.perm_insertionSort _ _,?_,?_⟩
  · exact List.pairwise_insertionSort _ state.rewrites
  · rw [source_of_loadComposeYaml hload]
    split at h
    · exact absurd h (refuse_bind _ _ _)
    · split at h
      · exact absurd h (refuse_bind _ _ _)
      · cases h
        rfl

end

/-- The text that tag updates give is the source with the images of the selected services, and with the labels
their streams ask for, replaced at once, whatever the order of the updates and of their services. Without streams
this needs no more than that the library places the images; with them, every flow collection that a label is
added to has to settle. -/
theorem tag_updates_spliced (yaml : YamlLibrary) (resolve : Str → Str) (path : ComposePath) (source stackName : Str)
    (updates : List TagUpdate) (streamUpdates : List TagStreamUpdate) (document : ComposeDocument)
    (streams : List (Str × TagStreamUpdate)) (layout : Layout) (hload : loadComposeYaml yaml source = .ok document)
    (hstreams : tagStreamUpdatesByService resolve path stackName streamUpdates = .ok streams)
    (hlayout : layout.Correct document streams ((imageChanges updates).map (·.service))) :
    (∀ rendered applied, renderComposeTagUpdates yaml source updates = .ok (some rendered,applied) →
      TagSplice document [] (imageChanges updates) rendered ∧
      ∀ updates' rendered' applied', (imageChanges updates').Perm (imageChanges updates) →
        renderComposeTagUpdates yaml source updates' = .ok (some rendered',applied') → rendered' = rendered) ∧
    (layout.Settled document streams ((imageChanges updates).map (·.service)) → ∀ rendered applied,
      renderComposeTagStreamUpdates yaml resolve path source updates streamUpdates stackName =
        .ok (rendered,applied) →
      TagSplice document streams (imageChanges updates) rendered ∧
      ∀ updates' streamUpdates' rendered' applied', (imageChanges updates').Perm (imageChanges updates) →
        streamUpdates'.Perm streamUpdates →
        renderComposeTagStreamUpdates yaml resolve path source updates' streamUpdates' stackName =
          .ok (rendered',applied') → rendered' = rendered) := by
  constructor
  · intro rendered applied h
    obtain ⟨state,ordered,hcollected,hperm,hordered,rfl⟩ := renderComposeTagUpdates_spec h hload
    have hlayout := hlayout.withoutStreams
    have hsettle := layout.settled_nil document ((imageChanges updates).map (·.service))
    have hne := hcollected.starts_ne hlayout
    have hedited := edited_of_descending (hcollected.apart hlayout hsettle) (hcollected.fits hlayout hsettle) hperm
      (sortKey_of_starts hne hperm hordered)
    refine ⟨hcollected.tagSplice hlayout hsettle hperm (sortKey_of_starts hne hperm hordered),?_⟩
    intro updates' rendered' applied' hchanges h'
    obtain ⟨state',ordered',hcollected',hperm',hordered',rfl⟩ := renderComposeTagUpdates_spec h' hload
    have hperm' := hperm'.trans (hcollected.perm hcollected' hchanges fun _ => rfl)
    have hedited' := edited_of_descending (hcollected.apart hlayout hsettle) (hcollected.fits hlayout hsettle) hperm'
      (sortKey_of_starts hne hperm' hordered')
    exact hedited'.unique hedited
  · intro hsettle rendered applied h
    obtain ⟨streams₁,state,ordered,hstreams₁,hcollected,hperm,hordered,rfl⟩ :=
      renderComposeTagStreamUpdates_spec h hload
    obtain rfl := Except.ok.inj (hstreams.symm.trans hstreams₁)
    have hedited := edited_of_descending (hcollected.apart hlayout hsettle) (hcollected.fits hlayout hsettle) hperm
      hordered
    refine ⟨hcollected.tagSplice hlayout hsettle hperm hordered,?_⟩
    intro updates' streamUpdates' rendered' applied' hchanges hstreamUpdates h'
    obtain ⟨streams',state',ordered',hstreams',hcollected',hperm',hordered',rfl⟩ :=
      renderComposeTagStreamUpdates_spec h' hload
    have hperm' := hperm'.trans (hcollected.perm hcollected' hchanges
      (settings_of_perm hstreams hstreams' hstreamUpdates))
    have hedited' := edited_of_descending (hcollected.apart hlayout hsettle) (hcollected.fits hlayout hsettle) hperm'
      hordered'
    exact hedited'.unique hedited

namespace Example

/-- A service with an image and a list of one label, with the place of the label. -/
def noteService (image : String) (imageLine : ℕ) (label : Str) (place : Location) (labelsLine : ℕ) :
    ServiceConfig where
  image := some {
    direct := true
    value := .text image.toList
    location := some ⟨imageLine,11⟩
    keyLocation := some ⟨imageLine,4⟩ }
  labels := some {
    direct := true
    value := .sequence [⟨some label,some place⟩]
    location := some ⟨labelsLine,12⟩
    keyLocation := some ⟨labelsLine,4⟩ }

/-- Two services: the first has a label, and that of the second looks like a comment. -/
def noteSource (note : Str) : Str :=
  "services:\n  app:\n    image: nginx:1.0\n    labels: [".toList ++ note ++ ("]\n  db:\n    image: redis:7.0\n" ++
    "    labels: [\n      'wud.tag.include=^7 #old',\n    ]\n").toList

def noteDocument (note : Str) : ComposeDocument where
  source := noteSource note
  services := [⟨some "app".toList,some (noteService "nginx:1.0" 2 note ⟨3,13⟩ 3)⟩,
    ⟨some "db".toList,some (noteService "redis:7.0" 5 "wud.tag.include=^7 #old".toList ⟨7,6⟩ 6)⟩]

def noteLibrary (note : Str) : YamlLibrary := ⟨fun _ => .ok (some (some (noteDocument note).services)),fun _ => []⟩

def notePath : ComposePath := ⟨"/stacks/web".toList,"compose.yaml".toList⟩

def noteUpdates : List TagUpdate :=
  [⟨"nginx:1.0".toList,"1.1".toList,"nginx:1.1".toList,["app".toList]⟩,
    ⟨"redis:7.0".toList,"7.2".toList,"redis:7.2".toList,["db".toList]⟩]

def noteStream (service selectedTag currentLabelValue proposedLabelValue : String) : TagStreamUpdate where
  lineNo := 1
  stack := "web".toList
  stackDirectory := "/stacks/web".toList
  composeFile := "compose.yaml".toList
  service := service.toList
  currentTag := []
  reportedTag := selectedTag.toList
  selectedTag := selectedTag.toList
  decision := .preserve
  labelKey := wudTagIncludeLabel
  currentLabelValue := currentLabelValue.toList
  proposedLabelValue := proposedLabelValue.toList
  proposedLabelRegex := proposedLabelValue.toList
  approved := true
  reason := .approved

/-- A label is added to the first service, and the one of the second is replaced. -/
def noteStreams : List TagStreamUpdate :=
  [noteStream "app" "1.1" "" "^1",noteStream "db" "7.2" "^7 #old" "^7"]

def noteByService : List (Str × TagStreamUpdate) := noteStreams.map fun stream => (stream.service,stream)

def spaces : ℕ → FlowContent → FlowContent
  | 0, rest => rest
  | n + 1, rest => .blank ' ' (by decide) (spaces n rest)

/-- The labels of the second service, which fill three lines. -/
def includeContent : FlowContent :=
  .blank '\n' (by decide) (spaces 6 (.single "wud.tag.include=^7 #old".toList
    (.comma (.blank '\n' (by decide) (spaces 4 .done)))))

def noteLayout (scalar : PlainScalar) : Layout where
  image service := if service = "app".toList then ⟨17,38⟩ else ⟨68,89⟩
  labels service := if service = "app".toList then ⟨42,61⟩ else ⟨93,141⟩
  flow service := if service = "app".toList then .plain scalar .done else includeContent

section
variable {source : Str} {image : String} {imageLine labelsLine : ℕ} {label : Str} {place : Location}
variable {line keyLine : SourceLine} {extent : Extent} {content : FlowContent}

theorem noteService_imagePlaced {field : ImageField}
    (hfield : (noteService image imageLine label place labelsLine).image = some field)
    (hline : sourceLine source imageLine = some line) (hstart : extent.start ≤ line.start)
    (hstop : line.next source ≤ extent.stop) : ImagePlaced source field extent := by
  obtain rfl := Option.some.inj hfield
  refine ⟨?_,?_⟩
  · intro location line' image' hlocation hline' _ _
    obtain rfl := Option.some.inj hlocation
    obtain rfl := Option.some.inj (hline.symm.trans hline')
    exact ⟨hstart,hstop⟩
  · intro location keyLocation keyLine line' image' hlocation hkey hnext
    obtain rfl := Option.some.inj hlocation
    obtain rfl := Option.some.inj hkey
    exact absurd hnext (Nat.ne_of_lt (Nat.lt_succ_self imageLine))

theorem noteService_labelsPlaced {labels : LabelsField}
    (hlabels : (noteService image imageLine label place labelsLine).labels = some labels)
    (hkeyLine : sourceLine source labelsLine = some keyLine) (hline : sourceLine source place.line = some line)
    (hflow : FlowAt source (keyLine.start + 12) .square content) (hkey : keyLine.start + 4 < keyLine.stop)
    (hfirst : extent.start ≤ keyLine.start + 4) (hcontent : keyLine.start + 12 + content.text.length + 2 ≤ extent.stop)
    (hplace : extent.start ≤ line.start + place.col) (hcol : place.col ≤ line.body.length)
    (hlast : line.start + line.body.length ≤ extent.stop) : LabelsPlaced source labels extent content := by
  obtain rfl := Option.some.inj hlabels
  refine ⟨?_,?_,?_,?_⟩
  · intro location hlocation
    obtain rfl := Option.some.inj hlocation
    exact ⟨keyLine,hkeyLine,hkey,hfirst,by change keyLine.start + 4 < extent.stop; omega⟩
  · intro location line' hnull
    cases hnull
  · intro location line' current token hmem hline' _ hspelled
    obtain ⟨rfl,rfl⟩ := Prod.mk.inj (List.mem_singleton.mp hmem)
    obtain rfl := Option.some.inj (hline.symm.trans hline')
    have hlength := hspelled.length_le
    rw [List.length_drop] at hlength
    omega
  · intro start _ hstart
    have hstart' : start = keyLine.start + 12 := by
      obtain ⟨_,_,hisLine⟩ := isLine hkeyLine
      unfold serviceLabelsFlowStart at hstart
      simp only [hisLine.start] at hstart
      split_ifs at hstart
      · exact (Option.some.inj (Except.ok.inj hstart)).symm
      · cases Except.ok.inj hstart
    rw [hstart']
    exact ⟨.square,hflow,by omega,by omega⟩

end

/-- The lines of the source that hold images and labels, and the brackets of the labels. -/
def NoteLines (scalar : PlainScalar) : Prop :=
  sourceLine (noteSource scalar.text) 2 = some ⟨17,37,"    image: nginx:1.0".toList⟩ ∧
  sourceLine (noteSource scalar.text) 3 = some ⟨38,61,"    labels: [".toList ++ scalar.text ++ [']']⟩ ∧
  sourceLine (noteSource scalar.text) 5 = some ⟨68,88,"    image: redis:7.0".toList⟩ ∧
  sourceLine (noteSource scalar.text) 6 = some ⟨89,102,"    labels: [".toList⟩ ∧
  sourceLine (noteSource scalar.text) 7 = some ⟨103,135,"      'wud.tag.include=^7 #old',".toList⟩ ∧
  noteSource scalar.text = (noteSource scalar.text).take 50 ++ '[' ::
    ((FlowContent.plain scalar .done).text ++ ']' :: (noteSource scalar.text).drop 61) ∧
  noteSource scalar.text = (noteSource scalar.text).take 101 ++ '[' ::
    (includeContent.text ++ ']' :: (noteSource scalar.text).drop 141) ∧
  scalar.text.length = 9 ∧ (noteSource scalar.text).length = 142

theorem note_config_app (note : Str) : (noteDocument note).config "app".toList =
    some (noteService "nginx:1.0" 2 note ⟨3,13⟩ 3) := rfl

theorem note_config_db (note : Str) : (noteDocument note).config "db".toList =
    some (noteService "redis:7.0" 5 "wud.tag.include=^7 #old".toList ⟨7,6⟩ 6) := rfl

theorem note_streams : tagStreamUpdatesByService id notePath "web".toList noteStreams = .ok noteByService := by
  decide +kernel

theorem noteLayout_correct {scalar : PlainScalar} (hlines : NoteLines scalar) :
    (noteLayout scalar).Correct (noteDocument scalar.text) noteByService
      ((imageChanges noteUpdates).map (·.service)) := by
  have hservices : (imageChanges noteUpdates).map (·.service) = ["app".toList,"db".toList] := rfl
  obtain ⟨happImage,happLabels,hdbImage,hdbLabels,hinclude,happFlow,hdbFlow,hscalar,hlength⟩ := hlines
  have hcases : ∀ service ∈ (imageChanges noteUpdates).map (·.service),
      service = "app".toList ∨ service = "db".toList := by
    intro service hmem
    rw [hservices] at hmem
    simpa only [List.mem_cons,List.not_mem_nil,or_false] using hmem
  have hnext : ∀ {line : SourceLine}, line.stop < 142 → line.next (noteSource scalar.text) ≤ line.stop + 1 := by
    intro line hstop
    unfold SourceLine.next
    rw [hlength,if_pos hstop]
  have htake : ∀ {n : ℕ}, n ≤ 142 → ((noteSource scalar.text).take n).length = n := fun hn =>
    List.length_take_of_le (hlength ▸ hn)
  have hopening : '[' ∈ yamlBlanks ++ ['[','\x7b',',',':'] := by decide
  have hblank : ' ' ∈ yamlBlanks ++ ['[','\x7b',',',':'] := by decide
  have happ : FlowAt (noteSource scalar.text) 50 .square (.plain scalar .done) :=
    ⟨⟨_,_,happFlow,htake (by decide)⟩,hopening,trivial⟩
  have hdb : FlowAt (noteSource scalar.text) 101 .square includeContent :=
    ⟨⟨_,_,hdbFlow,htake (by decide)⟩,hblank,trivial⟩
  have happText : ((noteLayout scalar).flow "app".toList).text.length = 9 := by
    change (scalar.text ++ []).length = 9
    rw [List.append_nil,hscalar]
  have happBody : ("    labels: [".toList ++ scalar.text ++ [']']).length = 23 := by
    rw [List.length_append,List.length_append,hscalar]
    rfl
  have himages : Extent.Apart ((noteLayout scalar).image "app".toList) ((noteLayout scalar).image "db".toList) :=
    .inl (show 38 ≤ 68 by decide)
  have hlabels : Extent.Apart ((noteLayout scalar).labels "app".toList) ((noteLayout scalar).labels "db".toList) :=
    .inl (show 61 ≤ 93 by decide)
  refine ⟨?_,?_,?_,?_,?_⟩
  · intro service hmem config field hconfig hfield _
    obtain rfl | rfl := hcases service hmem
    · obtain rfl := Option.some.inj ((note_config_app scalar.text).symm.trans hconfig)
      exact noteService_imagePlaced hfield happImage (Nat.le_refl 17) (hnext (show 37 < 142 by decide))
    · obtain rfl := Option.some.inj ((note_config_db scalar.text).symm.trans hconfig)
      exact noteService_imagePlaced hfield hdbImage (Nat.le_refl 68) (hnext (show 88 < 142 by decide))
  · intro service hmem _ config labels hconfig hlabels _
    obtain rfl | rfl := hcases service hmem
    · obtain rfl := Option.some.inj ((note_config_app scalar.text).symm.trans hconfig)
      refine noteService_labelsPlaced hlabels happLabels happLabels happ (show 42 < 61 by decide)
        (Nat.le_refl 42) ?_ (show 42 ≤ 51 by decide) ?_ ?_
      · rw [happText]
        exact Nat.le_refl 61
      · rw [happBody]
        exact show 13 ≤ 23 by decide
      · rw [happBody]
        exact Nat.le_refl 61
    · obtain rfl := Option.some.inj ((note_config_db scalar.text).symm.trans hconfig)
      exact noteService_labelsPlaced hlabels hdbLabels hinclude hdb (show 93 < 102 by decide)
        (Nat.le_refl 93) (Nat.le_refl 141) (show 93 ≤ 109 by decide) (show 6 ≤ 32 by decide)
        (show 135 ≤ 141 by decide)
  · intro service hmem other hmem' hne
    obtain rfl | rfl := hcases service hmem
    · obtain rfl | rfl := hcases other hmem'
      · exact absurd rfl hne
      · exact himages
    · obtain rfl | rfl := hcases other hmem'
      · exact himages.symm
      · exact absurd rfl hne
  · intro service hmem other hmem' hne _ _
    obtain rfl | rfl := hcases service hmem
    · obtain rfl | rfl := hcases other hmem'
      · exact absurd rfl hne
      · exact hlabels
    · obtain rfl | rfl := hcases other hmem'
      · exact hlabels.symm
      · exact absurd rfl hne
  · intro service hmem other hmem' _
    obtain rfl | rfl := hcases service hmem
    · obtain rfl | rfl := hcases other hmem'
      · exact .inl (show 38 ≤ 42 by decide)
      · exact .inl (show 38 ≤ 93 by decide)
    · obtain rfl | rfl := hcases other hmem'
      · exact .inr (show 61 ≤ 68 by decide)
      · exact .inl (show 89 ≤ 93 by decide)

theorem its_lines : NoteLines itsScalar := by
  have hsource : noteSource itsScalar.text = _ ++ itsScalar.text ++ _ :=
    congrArg₂ (· ++ itsScalar.text ++ ·) String.toList_ofList (toList_ofList_append _ _)
  unfold NoteLines
  rw [hsource]
  decide +kernel

def dashScalar : PlainScalar where
  text := "note=it-s".toList
  head := ⟨'n',rfl,by decide,by decide⟩
  inside := forall_mem_of_all (by decide)
  noComment := by decide
  last := by
    intro c hc
    obtain rfl : 's' = c := Option.some.inj hc
    decide

theorem dash_lines : NoteLines dashScalar := by
  have hsource : noteSource dashScalar.text = _ ++ dashScalar.text ++ _ :=
    congrArg₂ (· ++ dashScalar.text ++ ·) String.toList_ofList (toList_ofList_append _ _)
  unfold NoteLines
  rw [hsource]
  decide +kernel

def noteApplied : List AppliedTagUpdate := noteUpdates.map fun update => { update with replacements := 1 }

def dashRendered : Str := ("services:\n  app:\n    image: nginx:1.1\n    labels: [note=it-s, wud.tag.include=^1,]\n" ++
  "  db:\n    image: redis:7.2\n    labels: [\n      'wud.tag.include=^7',\n    ]\n").toList

/-- With the label `note=it-s` both services are rewritten. -/
theorem dash_spliced :
    renderComposeTagStreamUpdates (noteLibrary dashScalar.text) id notePath (noteSource dashScalar.text) noteUpdates
      noteStreams "web".toList = .ok (dashRendered,noteApplied) ∧
    TagSplice (noteDocument dashScalar.text) noteByService (imageChanges noteUpdates) dashRendered := by
  have hsource : noteSource dashScalar.text = _ ++ dashScalar.text ++ _ :=
    congrArg₂ (· ++ dashScalar.text ++ ·) String.toList_ofList (toList_ofList_append _ _)
  have hrendered : renderComposeTagStreamUpdates (noteLibrary dashScalar.text) id notePath (noteSource dashScalar.text)
      noteUpdates noteStreams "web".toList = .ok (dashRendered,noteApplied) := by
    rw [hsource,show dashRendered = _ from toList_ofList_append _ _]
    decide +kernel
  have hsettles : dashScalar.Settles := by
    unfold PlainScalar.Settles
    decide
  have hsettled : (noteLayout dashScalar).Settled (noteDocument dashScalar.text) noteByService
      ((imageChanges noteUpdates).map (·.service)) := by
    intro service _ stream config labels start _ _ _ _ _ _
    change FlowContent.Settled (if service = "app".toList then .plain dashScalar .done else includeContent)
    split_ifs
    · exact ⟨hsettles,trivial⟩
    · trivial
  have hspliced := tag_updates_spliced (noteLibrary dashScalar.text) id notePath (noteSource dashScalar.text)
    "web".toList noteUpdates noteStreams (noteDocument dashScalar.text) noteByService (noteLayout dashScalar) rfl
    note_streams (noteLayout_correct dash_lines)
  exact ⟨hrendered,(hspliced.2 hsettled dashRendered noteApplied hrendered).1⟩

def itsRendered : Str := ("services:\n  app:\n    image: nginx:1.1\n    labels: [note=it's]\n" ++
  "  db:\n    image: redis:7.2\n    labels: [\n      'wud.tag.include=^7'',\n      wud.tag.include=^1,\n    ]\n").toList

/-- With the label `note=it's` the entry for the first service goes to the labels of the second, and its comma
into the label that is replaced there. -/
theorem its_overlap :
    loadComposeYaml (noteLibrary itsScalar.text) (noteSource itsScalar.text) = .ok (noteDocument itsScalar.text) ∧
    tagStreamUpdatesByService id notePath "web".toList noteStreams = .ok noteByService ∧
    (noteLayout itsScalar).Correct (noteDocument itsScalar.text) noteByService
      ((imageChanges noteUpdates).map (·.service)) ∧
    renderComposeTagStreamUpdates (noteLibrary itsScalar.text) id notePath (noteSource itsScalar.text) noteUpdates
      noteStreams "web".toList = .ok (itsRendered,noteApplied) ∧
    ¬ TagSplice (noteDocument itsScalar.text) noteByService (imageChanges noteUpdates) itsRendered := by
  have hsource : noteSource itsScalar.text = _ ++ itsScalar.text ++ _ :=
    congrArg₂ (· ++ itsScalar.text ++ ·) String.toList_ofList (toList_ofList_append _ _)
  have hrendered : renderComposeTagStreamUpdates (noteLibrary itsScalar.text) id notePath (noteSource itsScalar.text)
      noteUpdates noteStreams "web".toList = .ok (itsRendered,noteApplied) := by
    rw [hsource,show itsRendered = _ from toList_ofList_append _ _]
    decide +kernel
  have hoverlap : ¬ ((imageChanges noteUpdates).flatMap
      (madeRewrites (noteDocument itsScalar.text) noteByService)).Pairwise SpanRewrite.Apart := by
    rw [noteDocument,hsource]
    decide +kernel
  exact ⟨rfl,note_streams,noteLayout_correct its_lines,hrendered,fun h => hoverlap h.apart⟩

end Example
end Wudup
