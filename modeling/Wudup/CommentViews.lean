import Wudup.ResolvedTagMarkers

/-! Comments as texts: what is read from the objects around a service, and what clearing them makes of it, is what
the rewrite of a parsed document says of the texts alone. -/
namespace Wudup
open Library

def Comment.text? (store : CommentStore) : Comment → Option Str
  | token ref => some (store.value ref)
  | other _ => none

namespace CommentStore
variable {store store' : CommentStore} {comments : ServiceComments} {service : Str}

/-- The texts of a collected list. -/
def texts (store : CommentStore) (tokenList : CommentTokenList) : List Str :=
  (store.tokens tokenList).filterMap (Comment.text? store)

/-- The texts around a service, list by list. -/
def commentView (store : CommentStore) (comments : ServiceComments) : List (List Str) :=
  (store.serviceCommentTokenLists comments).map store.texts

/-- A marker is read from the texts. -/
theorem serviceResolvedTagMarker_eq {config : ServiceConfig} (h : config.comments = store.commentView comments) :
    store.serviceResolvedTagMarker comments service = Wudup.serviceResolvedTagMarker config service := by
  have htexts : ∀ tokens : List Comment, tokens.flatMap store.commentMarkers =
      (tokens.filterMap (Comment.text? store)).flatMap commentTokenResolvedTagMarkers := by
    intro tokens
    induction tokens with
    | nil => rfl
    | cons comment rest ih =>
      rw [List.flatMap_cons,ih]
      cases comment with
      | other ref => rfl
      | token token =>
        rw [List.filterMap_cons_some (show Comment.text? store (.token token) = some (store.value token) from rfl),
          List.flatMap_cons]
        rfl
  have hview : config.comments.flatten = ((store.serviceCommentTokenLists comments).flatMap store.tokens).filterMap
      (Comment.text? store) := by
    rw [h,commentView,← List.flatMap_def,List.filterMap_flatMap]
    rfl
  have hmarkers : orderedUnique ((store.serviceCommentTokens comments).flatMap store.commentMarkers) =
      Wudup.commentMarkers config := by
    rw [serviceCommentTokens,orderedUnique_flatMap,htexts,← hview]
    rfl
  rw [serviceResolvedTagMarker,hmarkers]
  rfl

/-- The texts of a list without their markers. -/
def clearTexts (tokens : List Str) : List Str :=
  (tokens.map clearCommentTokenResolvedTagMarkers).filter (· ≠ [])

section
variable (hcleared : store.MarkersCleared store' comments)
include hcleared

theorem value_of_markersCleared {token : ℕ} (h : store.TokenAround comments token) :
    store'.value token = clearCommentTokenResolvedTagMarkers (store.value token) := hcleared.text token h

/-- A list around a service keeps the texts that clearing leaves. -/
theorem texts_elements {list : ℕ} (h : store.ListAround comments list) :
    (store'.elements list).filterMap (Comment.text? store') =
      clearTexts ((store.elements list).filterMap (Comment.text? store)) := by
  have haround : ∀ token, .token token ∈ store.elements list → store.TokenAround comments token :=
    fun token htoken => .inr ⟨list,h,htoken⟩
  rw [hcleared.elements list h]
  generalize store.elements list = elements at haround
  induction elements with
  | nil => rfl
  | cons comment rest ih =>
    have hrest := ih fun token htoken => haround token (List.mem_cons_of_mem _ htoken)
    cases comment with
    | other ref =>
      rw [List.filter_cons_of_pos rfl,List.filterMap_cons_none rfl,List.filterMap_cons_none rfl,hrest]
    | token token =>
      have hvalue := value_of_markersCleared hcleared (haround token List.mem_cons_self)
      have htext : Comment.text? store (.token token) = some (store.value token) := rfl
      rw [List.filterMap_cons_some htext,clearTexts,List.map_cons]
      by_cases hempty : store'.value token = []
      · have hdrop : ¬ store'.hasText (.token token) = true := by simp [hasText,hempty]
        have hnone : clearCommentTokenResolvedTagMarkers (store.value token) = [] := hvalue ▸ hempty
        rw [List.filter_cons_of_neg hdrop,List.filter_cons_of_neg (by simp [hnone])]
        exact hrest
      · have hkeep : store'.hasText (.token token) = true := by simp [hasText,hempty]
        have hsome : clearCommentTokenResolvedTagMarkers (store.value token) ≠ [] := hvalue ▸ hempty
        have htext' : Comment.text? store' (.token token) = some (store'.value token) := rfl
        rw [List.filter_cons_of_pos hkeep,List.filterMap_cons_some htext',
          List.filter_cons_of_pos (by simp [hsome]),hrest,hvalue]
        rfl

variable (hclearable : store.Clearable comments)
include hclearable

/-- A list around a service that holds something holds tokens, or held none before. -/
theorem any_of_cleared {list : ℕ} (h : store.ListAround comments list) :
    (store'.elements list).any Comment.isCommentToken =
      ((store.elements list).any Comment.isCommentToken && decide (store'.elements list ≠ [])) := by
  by_cases hany : (store.elements list).any Comment.isCommentToken = true
  · rw [hany,Bool.true_and]
    cases hkept : store'.elements list with
    | nil => simp
    | cons comment rest =>
      have hmem : comment ∈ (store.elements list).filter store'.hasText := by
        rw [← hcleared.elements list h,hkept]
        exact List.mem_cons_self
      have htoken := hclearable list h hany comment (List.mem_of_mem_filter hmem)
      simp [htoken]
  · have hnone : ¬ (store'.elements list).any Comment.isCommentToken = true := by
      intro hsome
      obtain ⟨comment,hmem,htoken⟩ := List.any_eq_true.mp hsome
      rw [hcleared.elements list h] at hmem
      exact hany (List.any_eq_true.mpr ⟨comment,List.mem_of_mem_filter hmem,htoken⟩)
    rw [Bool.not_eq_true] at hany hnone
    rw [hany,hnone,Bool.false_and]

/-- What is collected of a list after clearing. -/
theorem texts_appendCommentTokenList {list : ℕ} {tokenList : CommentTokenList} (h : store.ListAround comments list)
    (htokens : ∀ store : CommentStore, store.tokens tokenList = store.elements list) :
    (store'.appendCommentTokenList list tokenList).map store'.texts =
      (((store.appendCommentTokenList list tokenList).map store.texts).map clearTexts).filter (· ≠ []) := by
  have htexts : store'.texts tokenList = clearTexts (store.texts tokenList) := by
    rw [texts,texts,htokens,htokens]
    exact texts_elements hcleared h
  unfold appendCommentTokenList
  rw [any_of_cleared hcleared hclearable h]
  by_cases hany : (store.elements list).any Comment.isCommentToken = true
  · rw [if_pos hany,hany,Bool.true_and]
    have hempty : store'.elements list = [] ↔ clearTexts (store.texts tokenList) = [] := by
      rw [← htexts,texts,htokens,List.filterMap_eq_nil_iff]
      constructor
      · intro hnil
        simp [hnil]
      · intro hall
        apply List.eq_nil_iff_forall_not_mem.mpr
        intro comment hmem
        have htoken : comment.isCommentToken = true := by
          rw [hcleared.elements list h] at hmem
          exact hclearable list h hany comment (List.mem_of_mem_filter hmem)
        cases comment with
        | other ref => cases htoken
        | token token => cases hall _ hmem
    by_cases hkept : store'.elements list = []
    · simp [hkept,hempty.mp hkept]
    · have hsome : clearTexts (store.texts tokenList) ≠ [] := fun hnil => hkept (hempty.mpr hnil)
      simp [hkept,hsome,htexts]
  · rw [if_neg hany]
    rw [Bool.not_eq_true] at hany
    simp [hany]

omit hclearable in
/-- The slots of a row after clearing, with their places. -/
theorem zipIdx_slots {slots : ℕ} (hslots : slots ∈ comments.slotRefs) : (store'.slots slots).zipIdx =
    (store.slots slots).zipIdx.map fun place =>
      (if store.slotRemoved store' comments slots place.2 place.1 then .none else place.1,place.2) := by
  ext index : 1
  rw [List.getElem?_map,List.getElem?_zipIdx,List.getElem?_zipIdx,hcleared.slots slots hslots]
  cases (store.slots slots)[index]? with
  | none => rfl
  | some slot => simp only [Option.map_some,Nat.zero_add]

theorem texts_appendCommentSlots {slots : ℕ} (hslots : slots ∈ comments.slotRefs) :
    (store'.appendCommentSlots slots).map store'.texts =
      (((store.appendCommentSlots slots).map store.texts).map clearTexts).filter (· ≠ []) := by
  unfold appendCommentSlots
  rw [zipIdx_slots hcleared hslots,List.flatMap_map,List.map_flatMap,List.map_flatMap,List.map_flatMap,
    List.filter_flatMap]
  apply List.flatMap_congr
  intro place hplace
  obtain ⟨slot,index⟩ := place
  have hslot := List.mem_of_getElem? (List.mem_zipIdx_iff_getElem?.mp hplace)
  cases slot with
  | none => simp [slotRemoved]
  | other => simp [slotRemoved]
  | token token =>
    have hvalue := value_of_markersCleared hcleared (.inl ⟨slots,hslots,hslot⟩)
    have htext : store'.texts (.standalone slots index token) = [store'.value token] := rfl
    have hbefore : store.texts (.standalone slots index token) = [store.value token] := rfl
    by_cases hempty : store'.value token = []
    · have hnone : clearCommentTokenResolvedTagMarkers (store.value token) = [] := hvalue ▸ hempty
      simp [slotRemoved,hempty,hbefore,clearTexts,hnone]
    · have hsome : clearCommentTokenResolvedTagMarkers (store.value token) ≠ [] := hvalue ▸ hempty
      simp [slotRemoved,htext,hbefore,clearTexts,hsome,hvalue]
  | list list =>
    have haround : store.ListAround comments list := .inr ⟨slots,hslots,hslot⟩
    have hlist := @texts_appendCommentTokenList _ _ _ hcleared hclearable list (.slotList slots index list) haround
      fun _ => rfl
    by_cases hremoved : store.slotRemoved store' comments slots index (.list list) = true
    · have hempty : store'.elements list = [] := by
        simp only [slotRemoved,decide_eq_true_eq] at hremoved
        exact hremoved.1
      rw [appendCommentTokenList,hempty] at hlist
      simp only [hremoved,if_true]
      exact hlist
    · simp only [hremoved]
      exact hlist

theorem commentView_markersCleared :
    store'.commentView comments = ((store.commentView comments).map clearTexts).filter (· ≠ []) := by
  unfold commentView serviceCommentTokenLists
  rw [List.map_append,List.map_append,List.map_append,List.filter_append]
  congr 1
  · rw [List.map_flatMap,List.map_flatMap,List.map_flatMap,List.filter_flatMap]
    apply List.flatMap_congr
    intro slots hslots
    exact texts_appendCommentSlots hcleared hclearable hslots
  · cases htail : comments.tail with
    | none => rfl
    | some list =>
      simp only [Option.toList_some,List.flatMap_singleton]
      exact texts_appendCommentTokenList hcleared hclearable (.inl htail) fun _ => rfl

end

/-- Clearing the objects clears the texts. -/
theorem clearServiceResolvedTagMarkers_view {config : ServiceConfig}
    (h : store.clearServiceResolvedTagMarkers comments service = .ok store')
    (hview : config.comments = store.commentView comments) : Wudup.clearServiceResolvedTagMarkers config service =
      .ok { config with comments := store'.commentView comments } := by
  have hclearable := clearable_of_clear h
  obtain ⟨last,hlast,hcleared⟩ := clear_spec hclearable
  obtain rfl := Except.ok.inj (h.symm.trans hlast)
  have hcomments : (config.comments.map clearTexts).filter (· ≠ []) = store'.commentView comments := by
    rw [hview,commentView_markersCleared hcleared hclearable]
  have hread : Wudup.serviceResolvedTagMarker { config with comments := store'.commentView comments } service =
      .ok [] := by
    rw [← serviceResolvedTagMarker_eq rfl]
    exact serviceResolvedTagMarker_of_none fun token haround => markers_eq_nil (hcleared.noMarker token (.inr haround))
  change (Wudup.serviceResolvedTagMarker { config with comments := (config.comments.map clearTexts).filter (· ≠ []) }
    service >>= fun marker => _) = _
  rw [hcomments,hread]
  change (Except.ok { config with comments := (config.comments.map clearTexts).filter (· ≠ []) } :
    Rewrite ServiceConfig) = _
  rw [hcomments]

end CommentStore

end Wudup
