import Mathlib.Data.Set.Insert
import Wudup.CommentClearing
import Wudup.ReleaseSkips

/-! The marker of a resolved tag: read, cleared and written around a service. -/
namespace Wudup
open Library

namespace CommentStore
variable {store store' : CommentStore} {comments : ServiceComments} {service : Str}

/-! Markers are read. -/

theorem mem_markers {tag : Str} :
    tag ∈ orderedUnique ((store.serviceCommentTokens comments).flatMap store.commentMarkers) ↔
      ∃ token, store.TokenAround comments token ∧ tag ∈ commentTokenResolvedTagMarkers (store.value token) := by
  rw [mem_orderedUnique,List.mem_flatMap]
  constructor
  · rintro ⟨comment,hc,htag⟩
    cases comment with
    | other ref => cases htag
    | token token => exact ⟨token,token_mem_serviceCommentTokens.mp hc,htag⟩
  · exact fun ⟨token,haround,htag⟩ => ⟨.token token,token_mem_serviceCommentTokens.mpr haround,htag⟩

theorem serviceResolvedTagMarker_of_none
    (hnone : ∀ token, store.TokenAround comments token → commentTokenResolvedTagMarkers (store.value token) = []) :
    store.serviceResolvedTagMarker comments service = .ok [] := by
  have hempty : orderedUnique ((store.serviceCommentTokens comments).flatMap store.commentMarkers) = [] := by
    apply List.eq_nil_iff_forall_not_mem.mpr
    intro tag htag
    obtain ⟨token,haround,hmem⟩ := mem_markers.mp htag
    rw [hnone token haround] at hmem
    cases hmem
  rw [serviceResolvedTagMarker,hempty]

/-- A tag that alone is marked, around a service, is read. -/
theorem serviceResolvedTagMarker_of_only {tag : Str} (hvalid : tagValueValid tag = true)
    (hone : ∃ token, store.TokenAround comments token ∧ tag ∈ commentTokenResolvedTagMarkers (store.value token))
    (honly : ∀ token, store.TokenAround comments token →
      ∀ other ∈ commentTokenResolvedTagMarkers (store.value token), other = tag) :
    store.serviceResolvedTagMarker comments service = .ok tag := by
  have hread : orderedUnique ((store.serviceCommentTokens comments).flatMap store.commentMarkers) = [tag] := by
    apply orderedUnique_eq_singleton
    · exact mem_orderedUnique.mp (mem_markers.mpr hone)
    · intro other hother
      obtain ⟨token,haround,hmem⟩ := mem_markers.mp (mem_orderedUnique.mpr hother)
      exact honly token haround other hmem
  rw [serviceResolvedTagMarker,hread]
  simp only [hvalid,if_true]

/-- Clearing succeeds where no list with tokens holds anything else, and then no marker is left. -/
theorem clear_spec (h : store.Clearable comments) : ∃ store', store.clearServiceResolvedTagMarkers comments service =
    .ok store' ∧ store.MarkersCleared store' comments := by
  obtain ⟨last,hlast,hprocessed⟩ := (processed_nil store).foldlM
    (fun _ hmem => mem_serviceCommentTokenLists.mp hmem) (allTokens_iff_clearable.mpr h)
  rw [List.nil_append] at hprocessed
  have hcleared := markersCleared hprocessed
  refine ⟨_,?_,hcleared⟩
  have hnone : (last.emptyDetachedServiceCommentLists comments).serviceResolvedTagMarker comments service = .ok [] := by
    apply serviceResolvedTagMarker_of_none
    intro token haround
    exact markers_eq_nil (hcleared.noMarker token (.inr haround))
  rw [clearServiceResolvedTagMarkers,hlast]
  simp only [bind,Except.bind,hnone]
  rfl

theorem clearable_of_clear (h : store.clearServiceResolvedTagMarkers comments service = .ok store') :
    store.Clearable comments := by
  obtain ⟨last,hlast,-⟩ := bind_eq_ok.mp h
  exact allTokens_iff_clearable.mp ((processed_nil store).allTokens_of_foldlM
    (fun _ hmem => mem_serviceCommentTokenLists.mp hmem) hlast)

/-- The texts of the tokens around a service. -/
def commentTexts (store : CommentStore) (comments : ServiceComments) : Set Str :=
  { value | ∃ token, store.TokenAround comments token ∧ store.value token = value }

end CommentStore

/-- A comment of one line that is put before a key of a service is a new token around it. -/
def WritesComment (writer : CommentWriter) : Prop :=
  ∀ store comments key before store' comments', key ∈ comments.keys → before ≠ [] → '\n' ∉ before →
    writer store comments key before = .ok (store',comments') →
      store'.commentTexts comments' = insert ("# ".toList ++ before ++ ['\n']) (store.commentTexts comments)

section
variable {markerPrefix tag : Str} (hp : markerPrefix ∈ resolvedTagMarkerPrefixes) (hv : tagValueValid tag = true)
include hv

theorem not_blank_of_valid : ∀ c ∈ tag, c ∉ whitespace := by
  intro c hc hblank
  have hnone : ∀ w ∈ whitespace, (tagWordChar w || w = '.' || w = '-') = false := forall_mem_of_all (by decide)
  have hchar := tagChar_of_valid hv c hc
  rw [hnone c hblank] at hchar
  cases hchar

theorem exists_last_of_valid : ∃ c, tag.getLast? = some c ∧ c ∉ whitespace := by
  have hne : tag ≠ [] := by
    rintro rfl
    cases hv
  exact ⟨_,List.getLast?_eq_some_getLast hne,not_blank_of_valid hv _ (List.getLast_mem hne)⟩

include hp

/-- The line of a marker marks its tag. -/
theorem commentLineResolvedTagMarker_marker :
    commentLineResolvedTagMarker ("# ".toList ++ (markerPrefix ++ tag)) = some tag := by
  obtain ⟨last,hlast,hblank⟩ := exists_last_of_valid hv
  have hend : ∀ front : Str, (front ++ tag).getLast? = some last := by
    intro front
    rw [List.getLast?_append,hlast]
    rfl
  have hhead : (markerPrefix ++ tag).head? = some 'w' := by
    simp only [resolvedTagMarkerPrefixes,List.mem_cons,List.not_mem_nil,or_false] at hp
    obtain rfl | rfl := hp <;> rfl
  have hline : strip ("# ".toList ++ (markerPrefix ++ tag)) = "# ".toList ++ (markerPrefix ++ tag) := by
    rw [← List.append_assoc]
    exact @stripChars_of_ends whitespace _ '#' last rfl (by decide) (hend _) hblank
  have htext : strip (' ' :: (markerPrefix ++ tag)) = markerPrefix ++ tag := by
    have hskip := @stripChars_around whitespace (markerPrefix ++ tag) [' '] [] (forall_mem_of_all (by decide))
      (by simp)
    rw [List.append_nil] at hskip
    exact hskip.trans (stripChars_of_ends hhead (by decide) (hend _) hblank)
  have htail : ("# ".toList ++ (markerPrefix ++ tag)).tail = ' ' :: (markerPrefix ++ tag) := rfl
  have hhash : ("# ".toList ++ (markerPrefix ++ tag)).head? = some '#' := rfl
  unfold commentLineResolvedTagMarker
  rw [hline]
  simp only [hhash,htail,htext,if_true]
  have hfound : ∀ marker : Str, (marker.isPrefixOf (marker ++ tag)) = true := fun marker =>
    List.isPrefixOf_iff_prefix.mpr (List.prefix_append _ _)
  simp only [resolvedTagMarkerPrefixes,List.mem_cons,List.not_mem_nil,or_false] at hp
  obtain rfl | rfl := hp
  · rw [resolvedTagMarkerPrefixes,List.findSome?_cons,if_pos (hfound _),List.drop_left,strip_of_valid hv]
  · have hother : ("wudup.resolved-tag=".toList).isPrefixOf ("wud-updater.resolved-tag=".toList ++ tag) = false := rfl
    rw [resolvedTagMarkerPrefixes,List.findSome?_cons,hother,List.findSome?_cons,if_pos (hfound _),List.drop_left,
      strip_of_valid hv]
    rfl

theorem marker_plain : ∀ c ∈ "# ".toList ++ (markerPrefix ++ tag), c ∉ lineEnds := by
  have hblank : ∀ c ∈ lineEnds, c ∈ whitespace := forall_mem_of_all (by decide)
  have hprefix : ∀ c ∈ markerPrefix, c ∉ lineEnds := by
    simp only [resolvedTagMarkerPrefixes,List.mem_cons,List.not_mem_nil,or_false] at hp
    obtain rfl | rfl := hp
    · exact forall_mem_of_all (by decide)
    · exact forall_mem_of_all (by decide)
  have hhash : ∀ c ∈ "# ".toList, c ∉ lineEnds := forall_mem_of_all (by decide)
  intro c hc
  obtain hc | hc := List.mem_append.mp hc
  · exact hhash c hc
  · obtain hc | hc := List.mem_append.mp hc
    · exact hprefix c hc
    · exact fun hend => not_blank_of_valid hv c hc (hblank c hend)

theorem markers_marker : commentTokenResolvedTagMarkers ("# ".toList ++ (markerPrefix ++ tag) ++ ['\n']) = [tag] := by
  have hne : tag ≠ [] := by
    rintro rfl
    cases hv
  have hmarker : commentLineResolvedTagMarker ("# ".toList ++ (markerPrefix ++ tag) ++ ['\n']) = some tag := by
    rw [commentLineResolvedTagMarker_append (forall_mem_of_all (by decide)),
      commentLineResolvedTagMarker_marker hp hv]
  have hread : (commentLineResolvedTagMarker ("# ".toList ++ (markerPrefix ++ tag) ++ ['\n'])).filter (· ≠ []) =
      some tag := by
    rw [hmarker]
    simp [hne]
  rw [commentTokenResolvedTagMarkers,keepLines_line (marker_plain hp hv)]
  simp only [List.filterMap_cons,hread,List.filterMap_nil]

end

namespace CommentStore
variable {store store' : CommentStore} {comments comments' : ServiceComments} {service markerPrefix tag : Str}

/-- The marker that replaces those of a service is read back. -/
theorem serviceResolvedTagMarker_update {writer : CommentWriter} (hw : WritesComment writer)
    (hp : markerPrefix ∈ resolvedTagMarkerPrefixes) (hv : tagValueValid tag = true)
    (himage : "image".toList ∈ comments.keys)
    (h : store.updateServiceResolvedTagMarker writer comments service (markerPrefix ++ tag) = .ok (store',comments')) :
    store'.serviceResolvedTagMarker comments' service = .ok tag := by
  obtain ⟨last,hlast,h⟩ := bind_eq_ok.mp h
  obtain ⟨last',hlast',hcleared⟩ := clear_spec (clearable_of_clear hlast)
  obtain rfl := Except.ok.inj (hlast.symm.trans hlast')
  have hplain := marker_plain hp hv
  have hne : markerPrefix ++ tag ≠ [] := by
    intro hnil
    rw [(List.append_eq_nil_iff.mp hnil).2] at hv
    cases hv
  have hline : '\n' ∉ markerPrefix ++ tag := fun hmem =>
    hplain '\n' (List.mem_append_right _ hmem) (by decide)
  rw [if_neg hne] at h
  have htexts := hw _ _ _ _ _ _ himage hne hline h
  apply serviceResolvedTagMarker_of_only hv
  · have hnew : "# ".toList ++ (markerPrefix ++ tag) ++ ['\n'] ∈ store'.commentTexts comments' := by
      rw [htexts]
      exact Set.mem_insert _ _
    obtain ⟨token,haround,htext⟩ := hnew
    refine ⟨token,haround,?_⟩
    rw [htext,markers_marker hp hv]
    exact List.mem_singleton_self tag
  · intro token haround other hother
    have htext : store'.value token ∈ store'.commentTexts comments' := ⟨token,haround,rfl⟩
    rw [htexts] at htext
    obtain hnew | ⟨before,hbefore,heq⟩ := htext
    · rw [hnew,markers_marker hp hv] at hother
      exact List.mem_singleton.mp hother
    · rw [← heq,markers_eq_nil (hcleared.noMarker before (.inr hbefore))] at hother
      cases hother

/-- What is put at the end of the list of comments that a key has, as a new token. -/
def appendComment (fresh : ℕ) : CommentWriter := fun store comments key before =>
  match (comments.items key).bind fun slots => (store.slots slots)[(1 : ℕ)]? with
  | some (.list list) =>
    if .token fresh ∈ store.serviceCommentTokens comments then .error .attributeError
    else .ok ((store.setValue fresh ("# ".toList ++ before ++ ['\n'])).setElements list
      (store.elements list ++ [.token fresh]),comments)
  | _ => .error .attributeError

theorem tokenAround_append {fresh list token : ℕ} {value : Str} (hlist : store.ListAround comments list) :
    ((store.setValue fresh value).setElements list (store.elements list ++ [.token fresh])).TokenAround comments
      token ↔ token = fresh ∨ store.TokenAround comments token := by
  have hmem : ∀ other, Comment.token token ∈ ((store.setValue fresh value).setElements list
      (store.elements list ++ [.token fresh])).elements other ↔
        other = list ∧ token = fresh ∨ Comment.token token ∈ store.elements other := by
    intro other
    by_cases hother : other = list
    · subst hother
      simp [setElements,or_comm]
    · simp [setElements,setValue,hother]
  unfold TokenAround
  simp only [hmem]
  constructor
  · rintro (hslot | ⟨other,hother,⟨-,hfresh⟩ | htoken⟩)
    · exact .inr (.inl hslot)
    · exact .inl hfresh
    · exact .inr (.inr ⟨other,hother,htoken⟩)
  · rintro (hfresh | hslot | ⟨other,hother,htoken⟩)
    · exact .inr ⟨list,hlist,.inl ⟨rfl,hfresh⟩⟩
    · exact .inl hslot
    · exact .inr ⟨other,hother,.inr htoken⟩

theorem writesComment_appendComment (fresh : ℕ) : WritesComment (appendComment fresh) := by
  intro store comments key before store' comments' hkey hne hline h
  unfold appendComment at h
  split at h
  · next list hslot =>
    split at h
    · cases h
    · next hnew =>
      cases h
      obtain ⟨slots,hslots,hlist⟩ := Option.bind_eq_some_iff.mp hslot
      have haround : store.ListAround comments list :=
        .inr ⟨slots,mem_slotRefs.mpr (.inr (.inr ⟨key,hkey,hslots⟩)),List.mem_of_getElem? hlist⟩
      have hother : ∀ token, store.TokenAround comments token → token ≠ fresh := by
        rintro token htoken rfl
        exact hnew (token_mem_serviceCommentTokens.mpr htoken)
      ext value
      simp only [commentTexts,tokenAround_append haround,Set.mem_insert_iff]
      constructor
      · rintro ⟨token,rfl | htoken,rfl⟩
        · exact .inl (by simp [setElements,setValue])
        · exact .inr ⟨token,htoken,by simp [setElements,setValue,hother token htoken]⟩
      · rintro (rfl | ⟨token,htoken,rfl⟩)
        · exact ⟨fresh,.inl rfl,by simp [setElements,setValue]⟩
        · exact ⟨token,.inr htoken,by simp [setElements,setValue,hother token htoken]⟩
  · cases h

/-- Clearing succeeds exactly where no list with tokens holds anything else; it leaves no marker, every other line
in order, and nothing empty but the list at the end. A marker that is then put before the image is read back. -/
theorem resolvedTagMarkers_replaced {writer : CommentWriter} (hw : WritesComment writer) :
    (∀ (store : CommentStore) (comments : ServiceComments) (service : Str),
      (∃ store', store.clearServiceResolvedTagMarkers comments service = .ok store') ↔ store.Clearable comments) ∧
    (∀ (store store' : CommentStore) (comments : ServiceComments) (service : Str),
      store.clearServiceResolvedTagMarkers comments service = .ok store' → store.MarkersCleared store' comments) ∧
    ∀ (store store' : CommentStore) (comments comments' : ServiceComments) (service markerPrefix tag : Str),
      markerPrefix ∈ resolvedTagMarkerPrefixes → tagValueValid tag = true → "image".toList ∈ comments.keys →
      store.updateServiceResolvedTagMarker writer comments service (markerPrefix ++ tag) = .ok (store',comments') →
        store'.serviceResolvedTagMarker comments' service = .ok tag := by
  refine ⟨fun store comments service => ⟨?_,?_⟩,?_,?_⟩
  · rintro ⟨store',h⟩
    exact clearable_of_clear h
  · intro h
    obtain ⟨store',hclear,-⟩ := clear_spec h
    exact ⟨store',hclear⟩
  · intro store store' comments service h
    obtain ⟨last,hlast,hcleared⟩ := clear_spec (clearable_of_clear h)
    obtain rfl := Except.ok.inj (h.symm.trans hlast)
    exact hcleared
  · intro store store' comments comments' service markerPrefix tag hp hv himage h
    exact serviceResolvedTagMarker_update hw hp hv himage h

/-- Two keys of a service share a list: in it a token with a marker and a note, and one with an old marker. -/
def sharedComments : CommentStore where
  value token := if token = 0 then "# wudup.resolved-tag=1.0\n# pinned by hand\n".toList
    else "# wud-updater.resolved-tag=0.9\n".toList
  elements list := if list = 0 then [.token 0,.token 1] else []
  slots slots := if slots < 2 then [.none,.list 0,.none,.none] else []

def sharedService : ServiceComments where
  comment := none
  item := none
  items key := if key = "image".toList then some 0 else if key = "labels".toList then some 1 else none
  keys := ["image".toList,"labels".toList]
  tail := none

theorem resolvedTagMarkers_replaced_shared : ∃ store' comments', sharedComments.updateServiceResolvedTagMarker
    (appendComment 2) sharedService "web".toList "wudup.resolved-tag=2.0".toList = .ok (store',comments') ∧
      store'.serviceResolvedTagMarker comments' "web".toList = .ok "2.0".toList := by
  have hok : (sharedComments.updateServiceResolvedTagMarker (appendComment 2) sharedService "web".toList
      "wudup.resolved-tag=2.0".toList).isOk = true := by decide +kernel
  cases h : sharedComments.updateServiceResolvedTagMarker (appendComment 2) sharedService "web".toList
      "wudup.resolved-tag=2.0".toList with
  | error error =>
    rw [h] at hok
    cases hok
  | ok result =>
    exact ⟨result.1,result.2,rfl,(resolvedTagMarkers_replaced (writesComment_appendComment 2)).2.2 _ _ _ _ _
      "wudup.resolved-tag=".toList _ (by decide) (by decide) (by decide) h⟩

/-- A marker alone in the list at the end of a service. -/
def endComments : CommentStore where
  value _ := "# wudup.resolved-tag=1.0\n".toList
  elements _ := [.token 0]
  slots _ := []

def endService : ServiceComments where
  comment := none
  item := none
  items _ := none
  keys := []
  tail := some 0

/-- The list at the end of a service stays, although nothing is left in it. -/
theorem resolvedTagMarkers_replaced_counterexample :
    ¬ ∀ (store store' : CommentStore) (comments : ServiceComments) (service : Str),
      store.clearServiceResolvedTagMarkers comments service = .ok store' → ∀ list, store'.ListAround comments list →
        store.elements list ≠ [] → store'.elements list ≠ [] := by
  intro hall
  have hempty : ((endComments.clearServiceResolvedTagMarkers endService "web".toList).toOption.map
      fun store' => store'.elements 0) = some [] := by decide +kernel
  cases h : endComments.clearServiceResolvedTagMarkers endService "web".toList with
  | error error =>
    rw [h] at hempty
    cases hempty
  | ok store' =>
    rw [h] at hempty
    have hlist : store'.elements 0 = [] := by
      simpa only [Except.toOption,Option.map_some,Option.some.injEq] using hempty
    have haround : store'.ListAround endService 0 := Or.inl rfl
    have hsome : endComments.elements 0 ≠ [] := List.cons_ne_nil _ _
    exact hall endComments store' endService "web".toList h 0 haround hsome hlist

end CommentStore

end Wudup
