import Wudup.ComposeRender
import Wudup.DigestHandover

/-! The Compose tag updates an approved plan prepares for a stack: those the todo lines ask for, and those
that give a digest-pinned image its tag back. -/
namespace Wudup
open Library

def Match.tagKey (m : Match) : Str × Str := (m.composeImage,m.target.desiredTag)

def tagMatches (matched : List Match) : List Match := matched.filter (·.target.desiredTag ≠ [])

def tagKeys (matched : List Match) : List (Str × Str) :=
  (orderedUnique ((tagMatches matched).map Match.tagKey)).insertionSort fun a b => toLex a ≤ toLex b

/-- The services of the matches of one key. -/
def keyServices {κ : Type} [DecidableEq κ] (key : Match → κ) (found : List Match) (k : κ) : List Str :=
  sortedSet (((found.filter (key · = k)).map (·.service)).filter (· ≠ []))

/-- One update for each image and tag asked for. -/
def tagUpdates (matched : List Match) : List TagUpdate :=
  (tagKeys matched).map fun key =>
    { oldImage := key.1
      desiredTag := key.2
      newImage := imageWithTag key.1 key.2
      services := keyServices Match.tagKey (tagMatches matched) key }

def carriesDigest (image : Str) : Bool := (cutText ('@' :: sha256Prefix) image).isSome

/-- A pinned image whose digest is replaced by its tag before it is pinned again. -/
def digestPinTagMaterializationUpdates (updates : List DigestPinUpdate) : List TagUpdate :=
  (updates.filter fun update => update.oldImage ≠ update.resolvedImage && carriesDigest update.oldImage).map
    fun update =>
      { oldImage := update.oldImage
        desiredTag := update.resolvedTag
        newImage := update.resolvedImage
        services := update.services }

/-- Why a plan of tag updates is not valid. -/
inductive TagPlanIssue where
  | unmapped (m : Match)
  | conflicting (stackIndex : ℕ) (service image : Str) (desired : List Str)
  | stale (update : TagStreamUpdate)
  | unavailable (update : TagStreamUpdate)
  deriving DecidableEq, Repr

abbrev ServiceKey := ℕ × Str × Str

def Match.serviceKey (m : Match) : ServiceKey := (m.stack.index,m.service,m.composeImage)

def mappedTagMatches (matched : List Match) : List Match := (tagMatches matched).filter (·.service ≠ [])

/-- The tags asked for one image of a service. -/
def desiredTags (matched : List Match) (key : ServiceKey) : List Str :=
  sortedSet (((mappedTagMatches matched).filter (·.serviceKey = key)).map (·.target.desiredTag))

def ServiceKey.order (key : ServiceKey) : ℕ ×ₗ Str ×ₗ Str := toLex (key.1,toLex key.2)

def conflictingTags (matched : List Match) : List TagPlanIssue :=
  ((orderedUnique ((mappedTagMatches matched).map Match.serviceKey)).insertionSort fun a b =>
      ServiceKey.order a ≤ ServiceKey.order b).filterMap fun key =>
    let desired := desiredTags matched key
    if desired.length ≤ 1 then none else some (.conflicting key.1 key.2.1 key.2.2 desired)

/-- A stream change is for a match that is there, at the tag it was planned from. -/
def availableStreamTarget (resolve : Str → Str) (update : TagStreamUpdate) (m : Match) : Bool :=
  update.lineNo = m.target.lineNo && update.stack = m.stack.name &&
    update.stackDirectory = resolve m.stack.directory && update.composeFile = m.stack.file &&
    update.service = m.service && update.currentTag = imageTag m.composeImage &&
    update.selectedTag = m.target.desiredTag

def streamIssue (resolve : Str → Str) (matchedStreams : List TagStreamUpdate) (matched : List Match)
    (update : TagStreamUpdate) : Option TagPlanIssue :=
  if !matchedStreams.contains update then some (.stale update)
  else if matched.any (availableStreamTarget resolve update) then none
  else some (.unavailable update)

def tagPlanIssues (resolve : Str → Str) (tagStreamUpdates matchedStreams : List TagStreamUpdate)
    (matched : List Match) : List TagPlanIssue :=
  ((tagMatches matched).filter (·.service = [])).map .unmapped ++ conflictingTags matched ++
    tagStreamUpdates.filterMap (streamIssue resolve matchedStreams matched)

def validateTagUpdatePlan (resolve : Str → Str) (tagStreamUpdates matchedStreams : List TagStreamUpdate)
    (matched : List Match) : Bool :=
  tagPlanIssues resolve tagStreamUpdates matchedStreams matched = []

def ofStack (matched : List Match) (index : ℕ) : List Match := matched.filter (·.stack.index = index)

/-- The stream changes of one Compose file. -/
def stackStreamUpdates (resolve : Str → Str) (tagStreamUpdates : List TagStreamUpdate) (stack : ComposeStack) :
    List TagStreamUpdate :=
  tagStreamUpdates.filter fun update =>
    update.stackDirectory = resolve stack.directory && update.composeFile = stack.file

/-- What digest-pin validation takes from the run: the pins of some matches, and the Compose files. -/
structure PinValidation where
  yaml : YamlLibrary
  resolve : Str → Str
  source : ComposeStack → Str
  pins : List Match → Except DigestPinError (List DigestPinUpdate)
  approvals : List DigestPinLabelRewriteApproval := []
  tagStreamUpdates : List TagStreamUpdate := []

/-- The pins of a stack can be computed and rendered. -/
def PinValidation.stackValid (run : PinValidation) (matched : List Match) (stack : ComposeStack) : Bool :=
  let found := ofStack matched stack.index
  let streams := stackStreamUpdates run.resolve run.tagStreamUpdates stack
  match run.pins found with
  | .error _ => false
  | .ok updates =>
    streams.all (fun update => found.any (·.target.lineNo = update.lineNo)) &&
      (renderComposeDigestPins run.yaml run.resolve ⟨run.resolve stack.directory,stack.file⟩ (run.source stack)
        updates run.approvals streams stack.name).toBool

def validateDigestPinPlan (pinning : Bool) (run : PinValidation) (matched : List Match) : Bool :=
  !pinning || matched.all (digestPinMatchTag · ≠ []) && (stacksToUpdate matched).all (run.stackValid matched)

/-- The tag updates prepared for a stack. -/
def composeTagUpdates (matched : List Match) (pins : List DigestPinUpdate) : List TagUpdate :=
  tagUpdates matched ++ digestPinTagMaterializationUpdates pins

/-- A service of the stack with the image. -/
def HasImage (stack : ComposeStack) (image service : Str) : Prop :=
  ∃ item ∈ stack.serviceImages, item.service = service ∧ item.image = image

/-- The matches of a run: an index stands for one stack, and a service has one image in its stack. -/
structure Placed (matched : List Match) : Prop where
  index : ∀ m ∈ matched, ∀ m' ∈ matched, m.stack.index = m'.stack.index → m.stack = m'.stack
  distinct : ∀ m ∈ matched, (m.stack.serviceImages.map (·.service)).Nodup
  placed : ∀ m ∈ matched, m.service ≠ [] → HasImage m.stack m.composeImage m.service

/-- A match whose pinned image gets a tag back. -/
def Match.Materializes (m : Match) : Prop :=
  digestPinMatchTag m ≠ [] ∧ m.composeImage ≠ imageWithTag m.composeImage (digestPinMatchTag m) ∧
    carriesDigest m.composeImage = true

/-- With digest pins on, a service whose pinned image gets a tag back is asked for no other tag: no line asks
for a tag update of the service, and all lines that pin it pin the same tag. -/
def SelectsOnce (pinning : Bool) (matched : List Match) : Prop :=
  pinning = true → ∀ m ∈ matched, m.service ≠ [] → m.Materializes → ∀ m' ∈ matched, m'.service = m.service →
    m'.target.desiredTag = [] ∧ (m'.Materializes → digestPinMatchTag m' = digestPinMatchTag m)

section Selection
variable {matched : List Match}

theorem nodup_tagKeys (matched : List Match) : (tagKeys matched).Nodup :=
  (List.perm_insertionSort _ _).nodup_iff.mpr (nodup_orderedUnique _)

theorem mem_keyServices {κ : Type} [DecidableEq κ] {key : Match → κ} {found : List Match} {k : κ} {service : Str} :
    service ∈ keyServices key found k ↔ service ≠ [] ∧ ∃ m ∈ found, key m = k ∧ m.service = service := by
  simp only [keyServices,mem_sortedSet,List.mem_filter,List.mem_map,decide_eq_true_eq]
  constructor
  · rintro ⟨⟨m,⟨hm,hk⟩,hs⟩,hne⟩
    exact ⟨hne,m,hm,hk,hs⟩
  · rintro ⟨hne,m,hm,hk,hs⟩
    exact ⟨⟨m,⟨hm,hk⟩,hs⟩,hne⟩

theorem mem_tagMatches {m : Match} : m ∈ tagMatches matched ↔ m ∈ matched ∧ m.target.desiredTag ≠ [] := by
  simp [tagMatches]

theorem mem_pinMatches {m : Match} : m ∈ pinMatches matched ↔ m ∈ matched ∧ digestPinMatchTag m ≠ [] := by
  simp [pinMatches]

/-- Keyed matches share a service under two keys only if some service has matches of both. -/
theorem nodup_keyServices {κ : Type} [DecidableEq κ] {key : Match → κ} {found : List Match} {keys : List κ}
    (hk : keys.Nodup) (hmem : ∀ m ∈ found, key m ∈ keys) :
    (keys.flatMap (keyServices key found)).Nodup ↔
      ∀ m ∈ found, ∀ m' ∈ found, m.service ≠ [] → m.service = m'.service → key m = key m' := by
  have hn : ∀ k ∈ keys, (keyServices key found k).Nodup := fun k _ => nodup_sortedSet _
  rw [nodup_flatMap_iff hk hn]
  constructor
  · intro h m hm m' hm' hne hs
    exact h (key m) (hmem m hm) (key m') (hmem m' hm') m.service (mem_keyServices.mpr ⟨hne,m,hm,rfl,rfl⟩)
      (mem_keyServices.mpr ⟨hne,m',hm',rfl,hs.symm⟩)
  · intro h k _ k' _ service hs hs'
    obtain ⟨hne,m,hm,rfl,rfl⟩ := mem_keyServices.mp hs
    obtain ⟨_,m',hm',rfl,hservice⟩ := mem_keyServices.mp hs'
    exact h m hm m' hm' hne hservice.symm

/-- The tag updates of pins, before those that change nothing are left out. -/
def DigestPinUpdate.tagUpdate (update : DigestPinUpdate) : TagUpdate :=
  { oldImage := update.oldImage
    desiredTag := update.resolvedTag
    newImage := update.resolvedImage
    services := update.services }

def pinTagUpdate (matched : List Match) (key : PinKey) : TagUpdate :=
  { oldImage := key.1
    desiredTag := key.2
    newImage := imageWithTag key.1 key.2
    services := keyServices Match.pinKey (pinMatches matched) key }

/-- The tag updates pins with a tag differ from the image by. -/
def PinKey.materializes (key : PinKey) : Bool := key.1 ≠ imageWithTag key.1 key.2 && carriesDigest key.1

theorem digestPinCandidate_services {key : PinKey} {c : DigestPinCandidate}
    (h : digestPinCandidate matched key = .ok c) :
    c.key = key ∧ c.services = keyServices Match.pinKey (pinMatches matched) key := by
  unfold digestPinCandidate at h
  dsimp only at h
  split at h
  · cases h
  · cases h
    exact ⟨rfl,rfl⟩

section
variable {pinning : Bool} {plan : DigestPlan pinning} {resolve : DigestPinCandidate → Option Str}

theorem pinForCandidate_tagUpdate {c : DigestPinCandidate} {update : DigestPinUpdate}
    (hc : c.services.Pairwise (· ≤ ·))
    (h : Updater.pinForCandidate (digestPinUpdatesFromPlan plan) resolve c = .ok update) :
    update.tagUpdate = ⟨c.oldImage,c.resolvedTag,imageWithTag c.oldImage c.resolvedTag,c.services⟩ := by
  have hsorted := hc.insertionSort_eq
  unfold Updater.pinForCandidate at h
  split at h
  · rename_i planned hplanned
    cases h
    rw [plannedPin_fromPlan,Option.map_eq_some_iff] at hplanned
    obtain ⟨item,hitem,rfl⟩ := hplanned
    have hkey := List.find?_some hitem
    simp only [decide_eq_true_eq,Prod.mk.injEq] at hkey
    simp [DigestPinUpdate.tagUpdate,digestPinUpdateFromValues,hkey.1,hkey.2]
  · split at h
    · cases h
    · cases h
      simp [DigestPinUpdate.tagUpdate,digestPinUpdateFromValues,hsorted]

/-- The pins of a stack stand for the images and tags of its matches. -/
theorem pins_tagUpdates (cache : Updater.PinCache (digestPinUpdatesFromPlan plan) resolve)
    {pins : List DigestPinUpdate} (h : (Updater.digestPinUpdates true cache matched).1 = .ok pins) :
    pins.map DigestPinUpdate.tagUpdate = (pinKeys matched).map (pinTagUpdate matched) := by
  cases hc : digestPinCandidates matched with
  | error e => simp [Updater.digestPinUpdates,hc] at h
  | ok candidates =>
    rw [digestPinUpdates_eq cache matched hc] at h
    have hcandidates : candidates.map (fun c => (c.key,c.services)) = (pinKeys matched).map fun key =>
        (key,keyServices Match.pinKey (pinMatches matched) key) := by
      refine map_eq_of_mapM ?_ hc
      intro key _ c hcand
      rw [(digestPinCandidate_services hcand).1,(digestPinCandidate_services hcand).2]
    have hsorted : ∀ c ∈ candidates, c.services.Pairwise (· ≤ ·) := by
      intro c hmem
      have hm := List.mem_map_of_mem (f := fun c : DigestPinCandidate => (c.key,c.services)) hmem
      rw [hcandidates] at hm
      obtain ⟨key,_,hkey⟩ := List.mem_map.mp hm
      rw [← (Prod.mk.inj hkey).2]
      exact pairwise_sortedSet _
    have hpins := map_eq_of_mapM (fun c hmem update hu => pinForCandidate_tagUpdate (hsorted c hmem) hu) h
    rw [hpins]
    have hmap := congrArg (List.map fun item : PinKey × List Str =>
      TagUpdate.mk item.1.1 item.1.2 (imageWithTag item.1.1 item.1.2) item.2) hcandidates
    rw [List.map_map,List.map_map] at hmap
    exact hmap

/-- The tags given back, by image and tag. -/
theorem materialization_eq (cache : Updater.PinCache (digestPinUpdatesFromPlan plan) resolve)
    {pins : List DigestPinUpdate} (h : (Updater.digestPinUpdates true cache matched).1 = .ok pins) :
    digestPinTagMaterializationUpdates pins =
      ((pinKeys matched).filter PinKey.materializes).map (pinTagUpdate matched) := by
  have hfilter : digestPinTagMaterializationUpdates pins =
      (pins.map DigestPinUpdate.tagUpdate).filter fun update =>
        update.oldImage ≠ update.newImage && carriesDigest update.oldImage := by
    rw [List.filter_map]
    rfl
  rw [hfilter,pins_tagUpdates cache h,List.filter_map]
  rfl

end

theorem Placed.composeImage_eq (hp : Placed matched) {m m' : Match} (hm : m ∈ matched) (hm' : m' ∈ matched)
    (hi : m.stack.index = m'.stack.index) (hne : m.service ≠ []) (hs : m.service = m'.service) :
    m.composeImage = m'.composeImage := by
  obtain ⟨item,hitem,hservice,himage⟩ := hp.placed m hm hne
  obtain ⟨item',hitem',hservice',himage'⟩ := hp.placed m' hm' (hs ▸ hne)
  rw [← hp.index m hm m' hm' hi] at hitem'
  have heq := List.inj_on_of_nodup_map (hp.distinct m hm) hitem hitem' (by rw [hservice,hservice',hs])
  rw [← himage,← himage',heq]

theorem mem_ofStack {index : ℕ} {m : Match} : m ∈ ofStack matched index ↔ m ∈ matched ∧ m.stack.index = index := by
  simp [ofStack]

theorem eq_of_length_le_one {xs : List Str} (h : xs.length ≤ 1) {x y : Str} (hx : x ∈ xs) (hy : y ∈ xs) : x = y := by
  match xs with
  | [] => cases hx
  | [z] => rw [List.mem_singleton.mp hx,List.mem_singleton.mp hy]
  | _ :: _ :: _ => simp at h

/-- In a valid plan one tag is asked for each image of a service. -/
theorem desiredTag_eq {resolve : Str → Str} {tagStreamUpdates matchedStreams : List TagStreamUpdate}
    (hv : validateTagUpdatePlan resolve tagStreamUpdates matchedStreams matched = true) {m m' : Match}
    (hm : m ∈ tagMatches matched) (hm' : m' ∈ tagMatches matched) (hne : m.service ≠ [])
    (hk : m.serviceKey = m'.serviceKey) : m.target.desiredTag = m'.target.desiredTag := by
  simp only [validateTagUpdatePlan,tagPlanIssues,decide_eq_true_eq,List.append_eq_nil_iff] at hv
  have hnone := List.filterMap_eq_nil_iff.mp hv.1.2
  have hne' : m'.service ≠ [] := by
    simp only [Match.serviceKey,Prod.mk.injEq] at hk
    exact hk.2.1 ▸ hne
  have hmapped : m ∈ mappedTagMatches matched := List.mem_filter.mpr ⟨hm,by simpa using hne⟩
  have hmapped' : m' ∈ mappedTagMatches matched := List.mem_filter.mpr ⟨hm',by simpa using hne'⟩
  have hkey := hnone m.serviceKey (by
    rw [List.mem_insertionSort,mem_orderedUnique]
    exact List.mem_map_of_mem hmapped)
  dsimp only at hkey
  split at hkey
  · rename_i hlen
    apply eq_of_length_le_one hlen
    · exact mem_sortedSet.mpr (List.mem_map_of_mem (List.mem_filter.mpr ⟨hmapped,by simp⟩))
    · exact mem_sortedSet.mpr (List.mem_map_of_mem (List.mem_filter.mpr ⟨hmapped',by simp [hk]⟩))
  · cases hkey

theorem services_tagUpdates (matched : List Match) :
    (tagUpdates matched).flatMap (·.services) =
      (tagKeys matched).flatMap (keyServices Match.tagKey (tagMatches matched)) := by
  rw [tagUpdates,List.flatMap_map]

/-- The tag updates the lines ask for never select a service twice. -/
theorem nodup_tagUpdates {resolve : Str → Str} {tagStreamUpdates matchedStreams : List TagStreamUpdate}
    (hp : Placed matched)
    (hv : validateTagUpdatePlan resolve tagStreamUpdates matchedStreams matched = true) (index : ℕ) :
    ((tagUpdates (ofStack matched index)).flatMap (·.services)).Nodup := by
  rw [services_tagUpdates,nodup_keyServices (nodup_tagKeys _) (fun m hm => by
    rw [tagKeys,List.mem_insertionSort,mem_orderedUnique]
    exact List.mem_map_of_mem hm)]
  intro m hm m' hm' hne hs
  obtain ⟨hm,ht⟩ := mem_tagMatches.mp hm
  obtain ⟨hm',ht'⟩ := mem_tagMatches.mp hm'
  obtain ⟨hm,hi⟩ := mem_ofStack.mp hm
  obtain ⟨hm',hi'⟩ := mem_ofStack.mp hm'
  have himage := hp.composeImage_eq hm hm' (hi.trans hi'.symm) hne hs
  have hdesired := desiredTag_eq hv (mem_tagMatches.mpr ⟨hm,ht⟩) (mem_tagMatches.mpr ⟨hm',ht'⟩) hne
    (by rw [Match.serviceKey,Match.serviceKey,hi,hi',hs,himage])
  rw [Match.tagKey,Match.tagKey,himage,hdesired]

/-- The matches whose pinned images get a tag back. -/
def materialized (matched : List Match) : List Match := (pinMatches matched).filter (·.pinKey.materializes)

theorem mem_materialized {m : Match} : m ∈ materialized matched ↔ m ∈ matched ∧ m.Materializes := by
  rw [materialized,List.mem_filter,mem_pinMatches,Match.Materializes,and_assoc]
  apply and_congr_right
  intro _
  apply and_congr_right
  intro _
  rw [PinKey.materializes,Bool.and_eq_true,decide_eq_true_iff]
  rfl

theorem keyServices_materialized {key : PinKey} (h : key.materializes = true) :
    keyServices Match.pinKey (pinMatches matched) key = keyServices Match.pinKey (materialized matched) key := by
  rw [keyServices,keyServices,materialized,List.filter_filter]
  congr 3
  apply List.filter_congr
  intro m _
  by_cases hk : m.pinKey = key
  · simp [hk,h]
  · simp [hk]

theorem services_materialization {pinning : Bool} {plan : DigestPlan pinning}
    {resolve : DigestPinCandidate → Option Str} (cache : Updater.PinCache (digestPinUpdatesFromPlan plan) resolve)
    {pins : List DigestPinUpdate} (h : (Updater.digestPinUpdates true cache matched).1 = .ok pins) :
    (digestPinTagMaterializationUpdates pins).flatMap (·.services) =
      ((pinKeys matched).filter PinKey.materializes).flatMap (keyServices Match.pinKey (materialized matched)) := by
  rw [materialization_eq cache h,List.flatMap_map]
  apply List.flatMap_congr
  intro key hkey
  exact keyServices_materialized (List.mem_filter.mp hkey).2

theorem pinKey_mem {m : Match} (hm : m ∈ materialized matched) :
    m.pinKey ∈ (pinKeys matched).filter PinKey.materializes := by
  obtain ⟨hm,hk⟩ := List.mem_filter.mp hm
  rw [List.mem_filter,pinKeys,List.mem_insertionSort,mem_orderedUnique]
  exact ⟨List.mem_map_of_mem hm,hk⟩

/-- The services of all keys are those of all matches. -/
theorem mem_flatMap_keyServices {κ : Type} [DecidableEq κ] {key : Match → κ} {found : List Match} {keys : List κ}
    (hmem : ∀ m ∈ found, key m ∈ keys) {service : Str} :
    service ∈ keys.flatMap (keyServices key found) ↔ service ≠ [] ∧ ∃ m ∈ found, m.service = service := by
  rw [List.mem_flatMap]
  constructor
  · intro ⟨k,_,hs⟩
    obtain ⟨hne,m,hm,_,hs⟩ := mem_keyServices.mp hs
    exact ⟨hne,m,hm,hs⟩
  · intro ⟨hne,m,hm,hs⟩
    exact ⟨key m,hmem m hm,mem_keyServices.mpr ⟨hne,m,hm,rfl,hs⟩⟩

theorem tagKey_mem {m : Match} (hm : m ∈ tagMatches matched) : m.tagKey ∈ tagKeys matched := by
  rw [tagKeys,List.mem_insertionSort,mem_orderedUnique]
  exact List.mem_map_of_mem hm

end Selection

/-- The tag updates of a valid plan select a service twice exactly when digest pins are on and a service whose
pinned image gets a tag back is also asked for another update. -/
theorem services_selected_once (pinning : Bool) (plan : DigestPlan pinning)
    {resolveDigest : DigestPinCandidate → Option Str}
    (cache : Updater.PinCache (digestPinUpdatesFromPlan plan) resolveDigest) (resolve : Str → Str)
    (tagStreamUpdates matchedStreams : List TagStreamUpdate) (matched : List Match) (hp : Placed matched)
    (hv : validateTagUpdatePlan resolve tagStreamUpdates matchedStreams matched = true) (index : ℕ)
    (pins : List DigestPinUpdate)
    (hpins : (Updater.digestPinUpdates pinning cache (ofStack matched index)).1 = .ok pins) :
    ((composeTagUpdates (ofStack matched index) pins).flatMap (·.services)).Nodup ↔
      SelectsOnce pinning (ofStack matched index) := by
  have htags := nodup_tagUpdates hp hv index
  cases pinning with
  | false =>
    cases hpins
    simpa [composeTagUpdates,digestPinTagMaterializationUpdates,SelectsOnce] using htags
  | true =>
    rw [composeTagUpdates,List.flatMap_append,List.nodup_append,services_materialization cache hpins,
      nodup_keyServices ((nodup_pinKeys _).filter _) (fun m hm => pinKey_mem hm),services_tagUpdates]
    simp only [mem_flatMap_keyServices (fun m hm => tagKey_mem hm),
      mem_flatMap_keyServices (fun m hm => pinKey_mem hm)]
    constructor
    · intro ⟨_,hpin,hcross⟩ _ m hm hne hmat m' hm' hs
      have hmem := mem_materialized.mpr ⟨hm,hmat⟩
      constructor
      · by_contra hdesired
        exact hcross m.service ⟨hne,m',mem_tagMatches.mpr ⟨hm',hdesired⟩,hs⟩ m.service ⟨hne,m,hmem,rfl⟩ rfl
      · intro hmat'
        have hkey := hpin m hmem m' (mem_materialized.mpr ⟨hm',hmat'⟩) hne hs.symm
        exact (Prod.mk.inj hkey).2.symm
    · intro h
      refine ⟨by rw [← services_tagUpdates]; exact htags,?_,?_⟩
      · intro m hm m' hm' hne hs
        obtain ⟨hm,hmat⟩ := mem_materialized.mp hm
        obtain ⟨hm',hmat'⟩ := mem_materialized.mp hm'
        have htag := (h rfl m hm hne hmat m' hm' hs.symm).2 hmat'
        obtain ⟨hmem,hi⟩ := mem_ofStack.mp hm
        obtain ⟨hmem',hi'⟩ := mem_ofStack.mp hm'
        rw [Match.pinKey,Match.pinKey,htag,hp.composeImage_eq hmem hmem' (hi.trans hi'.symm) hne hs]
      · intro service ⟨hne,m',hm',hs'⟩ _ ⟨_,m,hm,hs⟩ heq
        obtain ⟨hm',hdesired⟩ := mem_tagMatches.mp hm'
        obtain ⟨hm,hmat⟩ := mem_materialized.mp hm
        subst hs' hs
        exact hdesired (h rfl m hm (heq ▸ hne) hmat m' hm' heq).1

/-! Every match of a run is placed. -/

section Matching
variable {target : WudTarget} {stack : ComposeStack} {containerImages : ContainerImages}

theorem servicesForTargetMatch_hasImage {image resolved : Str} {allowRepo rematch : Bool} {services : List Str}
    (h : servicesForTargetMatch stack.serviceImages image target resolved allowRepo rematch = some services)
    {service : Str} (hs : service ∈ services) : HasImage stack image service := by
  unfold servicesForTargetMatch at h
  split at h
  · cases h
    obtain ⟨item,hitem,hservice⟩ := List.mem_map.mp (mem_sortedSet.mp hs)
    obtain ⟨hitem,himage⟩ := List.mem_filter.mp hitem
    exact ⟨item,hitem,hservice,by simpa using himage⟩
  · split at h
    · cases h
    · dsimp only at h
      split at h
      · cases h
      · cases h
        unfold digestPinRematchServices at hs
        split at hs
        · cases hs
        · split at hs
          · cases hs
          · rw [List.mem_insertionSort] at hs
            obtain ⟨item,hitem,hservice⟩ := List.mem_map.mp hs
            obtain ⟨hitem,himage⟩ := List.mem_filter.mp hitem
            simp only [Bool.and_eq_true,decide_eq_true_eq] at himage
            exact ⟨item,hitem,hservice,himage.1⟩

theorem imageCandidates_hasImage {rematch : Bool} {image : Str} {candidate : Str × Str × Str}
    (h : candidate ∈ RunnerMatching.imageCandidates target containerImages rematch stack image)
    (hne : candidate.2.2 ≠ []) : HasImage stack candidate.2.1 candidate.2.2 := by
  unfold RunnerMatching.imageCandidates at h
  dsimp only at h
  split at h
  · cases h
  · rename_i services hservices
    split at h
    · rw [List.mem_singleton.mp h] at hne
      exact absurd rfl hne
    · obtain ⟨service,hs,rfl⟩ := List.mem_map.mp h
      exact servicesForTargetMatch_hasImage hservices hs

theorem digestUnpinPlanCandidates_hasImage {plan : List DigestUnpinUpdate} {candidate : Str × Str × Str}
    (h : candidate ∈ RunnerMatching.digestUnpinPlanCandidates plan target stack) :
    HasImage stack candidate.2.1 candidate.2.2 := by
  unfold RunnerMatching.digestUnpinPlanCandidates at h
  split at h
  · cases h
  · obtain ⟨update,_,h⟩ := List.mem_flatMap.mp h
    obtain ⟨service,hs,rfl⟩ := List.mem_map.mp h
    simpa [HasImage] using (List.mem_filter.mp hs).2

theorem runnerMatches_hasImage {options : MatchOptions} {m : Match}
    (h : m ∈ runnerMatches options containerImages target stack) (hne : m.service ≠ []) :
    HasImage m.stack m.composeImage m.service := by
  unfold runnerMatches RunnerMatching.matchTargetInStack at h
  obtain ⟨candidate,hcandidate,rfl⟩ := List.mem_map.mp h
  dsimp only at hcandidate
  split at hcandidate
  · exact digestUnpinPlanCandidates_hasImage hcandidate
  · obtain ⟨image,_,hcandidate⟩ := List.mem_flatMap.mp hcandidate
    exact imageCandidates_hasImage hcandidate hne

end Matching

theorem filterMatchesForSelections_subset {host : SelectionHost} {found selected : List Match}
    {selections normalized : List UpdateSelection}
    (h : host.filterMatchesForSelections found selections = .ok (selected,normalized)) : selected ⊆ found := by
  unfold SelectionHost.filterMatchesForSelections at h
  obtain ⟨items,_,h⟩ := bind_eq_ok.mp h
  split at h
  · cases h
    exact List.Subset.refl _
  · obtain ⟨groups,_,h⟩ := bind_eq_ok.mp h
    cases h
    exact List.filter_subset_self _

/-- The stack, image and service of a run's match are those of one of the matches found. -/
theorem buildMatches_found {host : SelectionHost} {options : MatchOptions} {composeStacks : List ComposeStack}
    {containerImages : ContainerImages} {targets : List WudTarget} {run : RunnerMatches}
    (h : RunnerMatching.buildMatches host options composeStacks containerImages targets = .ok run) {m : Match}
    (hm : m ∈ run.matched) :
    m.stack ∈ composeStacks ∧ (m.service ≠ [] → HasImage m.stack m.composeImage m.service) := by
  unfold RunnerMatching.buildMatches at h
  obtain ⟨⟨selected,normalized⟩,hselected,h⟩ := bind_eq_ok.mp h
  cases h
  obtain ⟨original,horiginal,rfl⟩ := List.mem_map.mp hm
  have hfound := filterMatchesForSelections_subset hselected horiginal
  have hcollected := (sortMatches_perm _).subset hfound
  rw [collectMatches_runner,foldl_appendIfNew,List.nil_append] at hcollected
  obtain ⟨target,_,hmem⟩ := List.mem_flatMap.mp ((freshBy_sublist _ _).subset hcollected)
  obtain ⟨stack,hstack,hmem⟩ := List.mem_flatMap.mp hmem
  have hof := (runnerFinder options containerImages).finds target stack original hmem
  have hplaced : original.stack ∈ composeStacks ∧
      (original.service ≠ [] → HasImage original.stack original.composeImage original.service) :=
    ⟨hof.2 ▸ hstack,runnerMatches_hasImage hmem⟩
  -- A stream changes the tag a match asks for and nothing else.
  dsimp only
  split
  · exact hplaced
  · exact hplaced

/-- A run's matches are placed: stacks are numbered, and the services of a stack have different names. -/
theorem buildMatches_placed {host : SelectionHost} {options : MatchOptions} {found : DiscoveredStacks}
    {containerImages : ContainerImages} {targets : List WudTarget} {run : RunnerMatches}
    (hservices : ∀ stack ∈ found.composeStacks, (stack.serviceImages.map (·.service)).Nodup)
    (h : RunnerMatching.buildMatches host options found.composeStacks containerImages targets = .ok run) :
    Placed run.matched where
  index := by
    intro m hm m' hm' hi
    exact List.inj_on_of_nodup_map found.distinct (buildMatches_found h hm).1 (buildMatches_found h hm').1 hi
  distinct := fun m hm => hservices m.stack (buildMatches_found h hm).1
  placed := fun m hm => (buildMatches_found h hm).2

section Example

/-- A service pinned to a digest next to its tag, and a line that asks for another tag. -/
def taggedPin : Match where
  stack := {
    index := 1
    directory := "/srv/web".toList
    file := "compose.yaml".toList
    name := "web".toList
    images := ["nginx:1.0@sha256:aa".toList]
    serviceImages := [⟨"web".toList,"nginx:1.0@sha256:aa".toList,[],[]⟩] }
  target := {
    lineNo := 1, raw := "nginx:1.0 1.1".toList, first := "nginx:1.0".toList, key := "nginx:1.0".toList
    repo := "nginx".toList, hasTag := true, allowRepo := false, digest := [], desiredTag := "1.1".toList }
  resolved := "nginx:1.0".toList
  composeImage := "nginx:1.0@sha256:aa".toList
  service := "web".toList

/-- The same service with a line that asks for a digest of its tag. -/
def digestPin : Match :=
  { taggedPin with
    target := {
      lineNo := 1, raw := "nginx:1.0 sha256=bb".toList, first := "nginx:1.0".toList, key := "nginx:1.0".toList
      repo := "nginx".toList, hasTag := true, allowRepo := false, digest := "sha256:bb".toList, desiredTag := [] } }

def pinnedYaml : YamlLibrary where
  load := fun _ => .ok (some (some [{
    name := some "web".toList
    config := some { image := some {
      direct := true, value := .text "nginx:1.0@sha256:aa".toList, location := some ⟨2,11⟩,
      keyLocation := some ⟨2,4⟩ } } }]))
  dump := fun document => document.source

def pinnedSource : Str := "services:\n  web:\n    image: nginx:1.0@sha256:aa\n".toList

/-- The registry knows one digest of every tag, and nothing is cached. -/
def oneDigest : DigestPinCandidate → Option Str := fun _ => some "sha256:bb".toList

def emptyCache : Updater.PinCache (digestPinUpdatesFromPlan ([] : DigestPlan true)) oneDigest := ⟨[],by simp⟩

def pinValidation : PinValidation where
  yaml := pinnedYaml
  resolve := id
  source := fun _ => pinnedSource
  pins := fun found => (Updater.digestPinUpdates true emptyCache found).1

/-- The line's match is found, its plan passes both validations, and the updates name the service twice;
applying them fails. -/
theorem tagged_pin_selected_twice :
    (RunnerMatching.buildMatches ⟨id,fun _ => []⟩ { allowTagUpdates := true, digestPinUpdates := true }
        [taggedPin.stack] [] [taggedPin.target]).toOption.map (·.matched) = some [taggedPin] ∧
      validateTagUpdatePlan id [] [] [taggedPin] = true ∧
      validateDigestPinPlan true pinValidation [taggedPin] = true ∧
      ∃ pins, (Updater.digestPinUpdates true emptyCache [taggedPin]).1 = .ok pins ∧
        ¬((composeTagUpdates [taggedPin] pins).flatMap (·.services)).Nodup ∧
        renderComposeTagUpdates pinnedYaml pinnedSource (composeTagUpdates [taggedPin] pins) =
          refuse "Service web image for nginx:1.0@sha256:aa was selected more than once." := by
  refine ⟨by decide +kernel,by decide +kernel,by decide +kernel,
    [digestPinUpdateFromValues "nginx:1.0@sha256:aa".toList "1.1".toList "sha256:bb".toList ["web".toList]],?_⟩
  refine ⟨by decide +kernel,by decide +kernel,by decide +kernel⟩

theorem services_selected_once_web :
    ∃ pins, (Updater.digestPinUpdates true emptyCache (ofStack [digestPin] 1)).1 = .ok pins ∧
      ((composeTagUpdates (ofStack [digestPin] 1) pins).flatMap (·.services)).Nodup := by
  have hpins : (Updater.digestPinUpdates true emptyCache (ofStack [digestPin] 1)).1 = .ok
      [digestPinUpdateFromValues "nginx:1.0@sha256:aa".toList "1.0".toList "sha256:bb".toList ["web".toList]] := by
    decide +kernel
  have hplaced : Placed [digestPin] := by
    constructor
    · simp
    · simp [digestPin,taggedPin]
    · simp [digestPin,taggedPin,HasImage]
  have honce : SelectsOnce true (ofStack [digestPin] 1) := by
    intro _ m hm _ _ m' hm' _
    have hstack : ofStack [digestPin] 1 = [digestPin] := rfl
    rw [hstack,List.mem_singleton] at hm hm'
    subst hm hm'
    exact ⟨rfl,fun _ => rfl⟩
  refine ⟨_,hpins,?_⟩
  exact (services_selected_once true [] emptyCache id [] [] [digestPin] hplaced (by decide +kernel) 1 _ hpins).mpr
    honce

end Example

end Wudup
