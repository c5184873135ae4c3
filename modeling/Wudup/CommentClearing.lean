import Wudup.CommentTokens
import Wudup.Library.Lines
import Wudup.Library.Traverse

/-! Markers of resolved tags are cleared from all comments around a service, whatever objects these share. -/
namespace Wudup
open Library

/-! What clearing does to one text. -/

theorem commentLineResolvedTagMarker_append {content ending : Str} (h : ∀ c ∈ ending, c ∈ lineEnds) :
    commentLineResolvedTagMarker (content ++ ending) = commentLineResolvedTagMarker content := by
  have hblank : ∀ c ∈ lineEnds, c ∈ whitespace := forall_mem_of_all (by decide)
  have hstrip : strip (content ++ ending) = strip content := by
    have := @stripChars_around whitespace content [] ending (by simp) fun c hc => hblank c (h c hc)
    rwa [List.nil_append] at this
  unfold commentLineResolvedTagMarker
  rw [hstrip]

/-- A line that is kept when markers are cleared. -/
def plainLine (line : Str) : Bool := (commentLineResolvedTagMarker line).isNone

theorem plainLine_append (content ending : Str) (h : ∀ c ∈ ending, c ∈ lineEnds) :
    plainLine (content ++ ending) = plainLine content := by
  unfold plainLine
  rw [commentLineResolvedTagMarker_append h]

theorem lineContents_clear (value : Str) :
    lineContents (clearCommentTokenResolvedTagMarkers value) = (lineContents value).filter plainLine :=
  lineContents_filter plainLine_append value

theorem plainLine_of_clear {value line : Str} (h : line ∈ keepLines (clearCommentTokenResolvedTagMarkers value)) :
    plainLine line = true :=
  all_keepLines_filter plainLine_append rfl h

@[simp] theorem clear_clear (value : Str) : clearCommentTokenResolvedTagMarkers
    (clearCommentTokenResolvedTagMarkers value) = clearCommentTokenResolvedTagMarkers value := by
  have hall : (keepLines (clearCommentTokenResolvedTagMarkers value)).filter plainLine =
      keepLines (clearCommentTokenResolvedTagMarkers value) :=
    List.filter_eq_self.mpr fun line hline => plainLine_of_clear hline
  change ((keepLines (clearCommentTokenResolvedTagMarkers value)).filter plainLine).flatten = _
  rw [hall,flatten_keepLines]

theorem markers_eq_nil {value : Str} (h : ∀ line ∈ keepLines value, commentLineResolvedTagMarker line = none) :
    commentTokenResolvedTagMarkers value = [] := by
  apply List.filterMap_eq_nil_iff.mpr
  intro line hline
  rw [h line hline]
  rfl

namespace CommentStore
variable {store store' : CommentStore} {comments : ServiceComments} {service : Str}

/-- A comment that is kept when markers are cleared. -/
def left (store : CommentStore) : Comment → Bool
  | .token token => clearCommentTokenResolvedTagMarkers (store.value token) ≠ []
  | .other _ => true

/-- The store with some tokens cleared. -/
def cleared (store : CommentStore) (tokens : List Comment) : CommentStore :=
  { store with
    value := fun token => if .token token ∈ tokens then clearCommentTokenResolvedTagMarkers (store.value token)
      else store.value token }

theorem left_of_value (h : ∀ token, clearCommentTokenResolvedTagMarkers (store'.value token) =
    clearCommentTokenResolvedTagMarkers (store.value token)) : store'.left = store.left := by
  funext comment
  cases comment with
  | token token => simp only [left,h]
  | other ref => rfl

/-- Clearing a list of tokens clears each of them, also where one is in it twice. -/
theorem clearTokens_spec {tokens : List Comment} (h : ∀ comment ∈ tokens, comment.isCommentToken = true) :
    store.clearTokens tokens = .ok (store.cleared tokens,tokens.filter store.left) := by
  induction tokens generalizing store with
  | nil => rfl
  | cons comment rest ih =>
    cases comment with
    | other ref => exact absurd (h _ List.mem_cons_self) (by simp [Comment.isCommentToken])
    | token token =>
      have hrest := @ih (store.setValue token (clearCommentTokenResolvedTagMarkers (store.value token)))
        fun comment hc => h comment (List.mem_cons_of_mem _ hc)
      have hvalue : ∀ other, clearCommentTokenResolvedTagMarkers ((store.setValue token
          (clearCommentTokenResolvedTagMarkers (store.value token))).value other) =
            clearCommentTokenResolvedTagMarkers (store.value other) := by
        intro other
        by_cases hother : other = token
        · subst hother
          simp [setValue]
        · simp [setValue,hother]
      have hcleared : (store.setValue token (clearCommentTokenResolvedTagMarkers (store.value token))).cleared rest =
          store.cleared (.token token :: rest) := by
        unfold cleared
        congr 1
        funext other
        by_cases hother : other = token
        · subst hother
          simp [setValue]
        · simp [setValue,hother]
      rw [clearTokens,hrest,left_of_value hvalue,hcleared,List.filter_cons]
      by_cases hempty : clearCommentTokenResolvedTagMarkers (store.value token) = []
      · simp [left,hempty,bind,Except.bind,pure,Except.pure]
      · simp [left,hempty,bind,Except.bind,pure,Except.pure]

/-- A list is cleared only when all in it are tokens. -/
theorem isCommentToken_of_clearTokens {tokens : List Comment} {result : CommentStore × List Comment}
    (h : store.clearTokens tokens = .ok result) : ∀ comment ∈ tokens, comment.isCommentToken = true := by
  induction tokens generalizing store result with
  | nil => simp
  | cons comment rest ih =>
    cases comment with
    | other ref => cases h
    | token token =>
      rw [clearTokens] at h
      obtain ⟨after,hafter,-⟩ := bind_eq_ok.mp h
      intro comment hc
      obtain rfl | hc := List.mem_cons.mp hc
      · rfl
      · exact ih hafter comment hc

/-! The comments that are collected. -/

/-- What is collected around a service. -/
inductive Collected (store : CommentStore) (comments : ServiceComments) : CommentTokenList → Prop
  | slotList {slots index list : ℕ} : slots ∈ comments.slotRefs → (store.slots slots)[index]? = some (.list list) →
    (store.elements list).any Comment.isCommentToken = true → Collected store comments (.slotList slots index list)
  | standalone {slots index token : ℕ} : slots ∈ comments.slotRefs →
    (store.slots slots)[index]? = some (.token token) → Collected store comments (.standalone slots index token)
  | whole {list : ℕ} : comments.tail = some list → (store.elements list).any Comment.isCommentToken = true →
    Collected store comments (.whole list)

theorem mem_appendCommentTokenList {list : ℕ} {made tokens : CommentTokenList} :
    tokens ∈ store.appendCommentTokenList list made ↔
      tokens = made ∧ (store.elements list).any Comment.isCommentToken = true := by
  unfold appendCommentTokenList
  split
  · next hany => simp [hany]
  · next hany => simp [hany]

theorem mem_appendCommentSlots {slots : ℕ} {tokens : CommentTokenList} : tokens ∈ store.appendCommentSlots slots ↔
    ∃ index, (∃ list, (store.slots slots)[index]? = some (.list list) ∧ tokens = .slotList slots index list ∧
        (store.elements list).any Comment.isCommentToken = true) ∨
      ∃ token, (store.slots slots)[index]? = some (.token token) ∧ tokens = .standalone slots index token := by
  unfold appendCommentSlots
  constructor
  · intro h
    obtain ⟨⟨slot,index⟩,hslot,h⟩ := List.mem_flatMap.mp h
    have hslot := List.mem_zipIdx_iff_getElem?.mp hslot
    refine ⟨index,?_⟩
    cases slot with
    | none => cases h
    | other => cases h
    | token token => exact .inr ⟨token,hslot,List.mem_singleton.mp h⟩
    | list list => exact .inl ⟨list,hslot,mem_appendCommentTokenList.mp h⟩
  · intro h
    obtain ⟨index,⟨list,hslot,htokens⟩ | ⟨token,hslot,rfl⟩⟩ := h
    · exact List.mem_flatMap.mpr ⟨(.list list,index),List.mem_zipIdx_iff_getElem?.mpr hslot,
        mem_appendCommentTokenList.mpr htokens⟩
    · exact List.mem_flatMap.mpr ⟨(.token token,index),List.mem_zipIdx_iff_getElem?.mpr hslot,
        List.mem_singleton_self _⟩

theorem mem_serviceCommentTokenLists {tokens : CommentTokenList} :
    tokens ∈ store.serviceCommentTokenLists comments ↔ store.Collected comments tokens := by
  unfold serviceCommentTokenLists
  rw [List.mem_append]
  constructor
  · intro h
    obtain h | h := h
    · obtain ⟨slots,hslots,h⟩ := List.mem_flatMap.mp h
      obtain ⟨index,⟨list,hslot,rfl,hany⟩ | ⟨token,hslot,rfl⟩⟩ := mem_appendCommentSlots.mp h
      · exact .slotList hslots hslot hany
      · exact .standalone hslots hslot
    · obtain ⟨list,hlist,h⟩ := List.mem_flatMap.mp h
      obtain ⟨rfl,hany⟩ := mem_appendCommentTokenList.mp h
      exact .whole (Option.mem_toList.mp hlist) hany
  · intro h
    cases h with
    | slotList hslots hslot hany =>
      exact .inl (List.mem_flatMap.mpr ⟨_,hslots,mem_appendCommentSlots.mpr ⟨_,.inl ⟨_,hslot,rfl,hany⟩⟩⟩)
    | standalone hslots hslot =>
      exact .inl (List.mem_flatMap.mpr ⟨_,hslots,mem_appendCommentSlots.mpr ⟨_,.inr ⟨_,hslot,rfl⟩⟩⟩)
    | whole htail hany =>
      exact .inr (List.mem_flatMap.mpr ⟨_,Option.mem_toList.mpr htail,mem_appendCommentTokenList.mpr ⟨rfl,hany⟩⟩)

/-! The collected lists are cleared one after the other. -/

/-- All in a collected list are tokens. -/
def AllTokens (store : CommentStore) (tokenList : CommentTokenList) : Prop :=
  ∀ comment ∈ store.tokens tokenList, comment.isCommentToken = true

/-- A slot whose token or list has nothing left. -/
def emptied (store : CommentStore) : CommentSlot → Bool
  | .token token => clearCommentTokenResolvedTagMarkers (store.value token) = []
  | .list list => (store.elements list).filter store.left = []
  | _ => false

end CommentStore

namespace CommentTokenList

def list? : CommentTokenList → Option ℕ
  | slotList _ _ list => some list
  | standalone _ _ _ => none
  | whole list => some list

/-- The slot of a collected list. -/
def place : CommentTokenList → Option (ℕ × ℕ)
  | slotList slots index _ => some (slots,index)
  | standalone slots index _ => some (slots,index)
  | whole _ => none

/-- What is in the slot of a collected list. -/
def slot : CommentTokenList → CommentSlot
  | slotList _ _ list => .list list
  | standalone _ _ token => .token token
  | whole _ => .none

end CommentTokenList

namespace CommentStore
variable {store store' : CommentStore} {comments : ServiceComments} {service : Str}
variable {done : List CommentTokenList} {tokenList : CommentTokenList}

/-- What a store has become when some of the collected lists were cleared. -/
structure Processed (store : CommentStore) (done : List CommentTokenList) (store' : CommentStore) : Prop where
  value : ∀ token, store'.value token = if .token token ∈ done.flatMap store.tokens then
    clearCommentTokenResolvedTagMarkers (store.value token) else store.value token
  elements : ∀ list, store'.elements list = if list ∈ done.filterMap CommentTokenList.list? then
    (store.elements list).filter store.left else store.elements list
  slots : ∀ slots index, (store'.slots slots)[index]? = (store.slots slots)[index]?.map fun slot =>
    if (slots,index) ∈ done.filterMap CommentTokenList.place ∧ store.emptied slot = true then .none else slot

theorem processed_nil (store : CommentStore) : store.Processed [] store where
  value _ := rfl
  elements _ := rfl
  slots slots index := by simp

/-- The list of a collected list is where its comments are. -/
theorem tokens_of_list? {list : ℕ} (h : tokenList.list? = some list) :
    store.tokens tokenList = store.elements list := by
  cases tokenList with
  | slotList slots index list' =>
    cases h
    rfl
  | standalone slots index token => cases h
  | whole list' =>
    cases h
    rfl

namespace Processed

theorem clear_value (h : Processed store done store') (token : ℕ) :
    clearCommentTokenResolvedTagMarkers (store'.value token) =
      clearCommentTokenResolvedTagMarkers (store.value token) := by
  rw [h.value]
  split
  · exact clear_clear _
  · rfl

theorem left_eq (h : Processed store done store') : store'.left = store.left := left_of_value h.clear_value

/-- A list that was cleared before has only what was left. -/
theorem tokens_cases (h : Processed store done store') (tokenList : CommentTokenList) :
    store'.tokens tokenList = store.tokens tokenList ∨
      store'.tokens tokenList = (store.tokens tokenList).filter store.left ∧
        ∀ comment ∈ store.tokens tokenList, comment ∈ done.flatMap store.tokens := by
  cases hlist : tokenList.list? with
  | none =>
    cases tokenList with
    | standalone slots index token => exact .inl rfl
    | slotList slots index list => cases hlist
    | whole list => cases hlist
  | some list =>
    rw [tokens_of_list? hlist,tokens_of_list? hlist,h.elements]
    split
    · next hmem =>
      obtain ⟨earlier,hearlier,hsame⟩ := List.mem_filterMap.mp hmem
      refine .inr ⟨rfl,fun comment hc => List.mem_flatMap.mpr ⟨earlier,hearlier,?_⟩⟩
      rwa [tokens_of_list? hsame]
    · exact .inl rfl

theorem kept (h : Processed store done store') (tokenList : CommentTokenList) :
    (store'.tokens tokenList).filter store'.left = (store.tokens tokenList).filter store.left := by
  rw [h.left_eq]
  obtain heq | ⟨heq,-⟩ := h.tokens_cases tokenList
  · rw [heq]
  · rw [heq,List.filter_filter]
    simp only [Bool.and_self]

theorem allTokens (h : Processed store done store') :
    store'.AllTokens tokenList ↔ store.AllTokens tokenList := by
  obtain heq | ⟨heq,-⟩ := h.tokens_cases tokenList
  · rw [AllTokens,heq]
    rfl
  · unfold AllTokens
    rw [heq]
    constructor
    · intro hall comment hc
      cases comment with
      | token token => rfl
      | other ref => exact hall _ (List.mem_filter.mpr ⟨hc,rfl⟩)
    · exact fun hall comment hc => hall comment (List.mem_of_mem_filter hc)

/-- Clearing one more list clears its tokens, those that were cleared before included. -/
theorem value_cleared (h : Processed store done store') (token : ℕ) :
    (store'.cleared (store'.tokens tokenList)).value token =
      if .token token ∈ (done ++ [tokenList]).flatMap store.tokens then
        clearCommentTokenResolvedTagMarkers (store.value token) else store.value token := by
  have hmore : Comment.token token ∈ (done ++ [tokenList]).flatMap store.tokens ↔
      Comment.token token ∈ done.flatMap store.tokens ∨ Comment.token token ∈ store.tokens tokenList := by
    rw [List.flatMap_append,List.mem_append,List.flatMap_singleton]
  have hcleared : (store'.cleared (store'.tokens tokenList)).value token =
      if .token token ∈ store'.tokens tokenList then clearCommentTokenResolvedTagMarkers (store.value token)
      else store'.value token := by
    rw [← h.clear_value]
    rfl
  rw [hcleared]
  by_cases hnew : Comment.token token ∈ store.tokens tokenList
  · rw [if_pos (hmore.mpr (.inr hnew))]
    obtain heq | ⟨heq,hdone⟩ := h.tokens_cases tokenList
    · rw [heq,if_pos hnew]
    · split
      · rfl
      · rw [h.value,if_pos (hdone _ hnew)]
  · have hnone : Comment.token token ∉ store'.tokens tokenList := by
      obtain heq | ⟨heq,-⟩ := h.tokens_cases tokenList
      · rwa [heq]
      · rw [heq]
        exact fun hc => hnew (List.mem_of_mem_filter hc)
    rw [if_neg hnone,h.value]
    simp only [hmore,hnew,or_false]

end Processed

theorem value_replace (store : CommentStore) (kept : List Comment) (tokenList : CommentTokenList) :
    (store.replace kept tokenList).value = store.value := by
  cases tokenList <;> rfl

theorem elements_replace (store : CommentStore) (kept : List Comment) (list : ℕ) :
    (store.replace kept tokenList).elements list =
      if tokenList.list? = some list then kept else store.elements list := by
  cases tokenList with
  | standalone slots index token => rfl
  | slotList slots index list' =>
    by_cases hlist : list' = list
    · subst hlist
      simp [replace,setSlot,setElements,CommentTokenList.list?]
    · simp [replace,setSlot,setElements,CommentTokenList.list?,hlist,Ne.symm hlist]
  | whole list' =>
    by_cases hlist : list' = list
    · subst hlist
      simp [replace,setElements,CommentTokenList.list?]
    · simp [replace,setElements,CommentTokenList.list?,hlist,Ne.symm hlist]

theorem slots_setSlot (store : CommentStore) (slots index : ℕ) (slot : CommentSlot) (slots' index' : ℕ) :
    ((store.setSlot slots index slot).slots slots')[index']? = if slots = slots' ∧ index = index' then
      (store.slots slots')[index']?.map fun _ => slot else (store.slots slots')[index']? := by
  unfold setSlot
  by_cases hslots : slots = slots'
  · subst hslots
    by_cases hindex : index = index'
    · subst hindex
      simp only [Function.update_self,List.getElem?_set_self',and_self,if_true]
      rfl
    · simp [hindex]
  · simp [hslots,Ne.symm hslots]

theorem slots_replace (store : CommentStore) (kept : List Comment) (slots index : ℕ) :
    ((store.replace kept tokenList).slots slots)[index]? = if tokenList.place = some (slots,index) then
      (store.slots slots)[index]?.map fun _ => if kept = [] then .none else tokenList.slot
      else (store.slots slots)[index]? := by
  cases tokenList with
  | whole list => rfl
  | standalone slots' index' token =>
    have hplace : (CommentTokenList.standalone slots' index' token).place = some (slots,index) ↔
        slots' = slots ∧ index' = index := by simp [CommentTokenList.place]
    simp only [hplace]
    exact slots_setSlot _ _ _ _ _ _
  | slotList slots' index' list =>
    have hplace : (CommentTokenList.slotList slots' index' list).place = some (slots,index) ↔
        slots' = slots ∧ index' = index := by simp [CommentTokenList.place]
    simp only [hplace]
    exact slots_setSlot _ _ _ _ _ _

theorem Collected.slot_eq (h : store.Collected comments tokenList) {slots index : ℕ}
    (hplace : tokenList.place = some (slots,index)) : (store.slots slots)[index]? = some tokenList.slot ∧
      (store.emptied tokenList.slot = true ↔ (store.tokens tokenList).filter store.left = []) := by
  cases h with
  | whole htail hany => cases hplace
  | slotList hslots hslot hany =>
    cases hplace
    exact ⟨hslot,by simp only [emptied,CommentTokenList.slot,tokens,decide_eq_true_eq]⟩
  | standalone hslots hslot =>
    cases hplace
    refine ⟨hslot,?_⟩
    simp [emptied,CommentTokenList.slot,tokens,left]

/-- One more list is cleared. -/
theorem Processed.replace (h : Processed store done store') (hc : store.Collected comments tokenList) :
    Processed store (done ++ [tokenList]) ((store'.cleared (store'.tokens tokenList)).replace
      ((store.tokens tokenList).filter store.left) tokenList) where
  value token := by
    rw [value_replace]
    exact h.value_cleared token
  elements list := by
    have hmore : list ∈ (done ++ [tokenList]).filterMap CommentTokenList.list? ↔
        list ∈ done.filterMap CommentTokenList.list? ∨ tokenList.list? = some list := by
      rw [List.filterMap_append,List.mem_append]
      simp
    rw [elements_replace]
    simp only [hmore]
    by_cases hlist : tokenList.list? = some list
    · rw [if_pos hlist,if_pos (.inr hlist),tokens_of_list? hlist]
    · rw [if_neg hlist]
      simp only [hlist,or_false]
      exact h.elements list
  slots slots index := by
    have hmore : (slots,index) ∈ (done ++ [tokenList]).filterMap CommentTokenList.place ↔
        (slots,index) ∈ done.filterMap CommentTokenList.place ∨ tokenList.place = some (slots,index) := by
      rw [List.filterMap_append,List.mem_append]
      simp
    rw [slots_replace]
    simp only [hmore]
    by_cases hplace : tokenList.place = some (slots,index)
    · obtain ⟨hslot,hempty⟩ := hc.slot_eq hplace
      rw [if_pos hplace]
      change ((store'.slots slots)[index]?.map _) = _
      rw [h.slots,hslot]
      simp only [Option.map_some,hplace,or_true,true_and,hempty]
    · rw [if_neg hplace]
      simp only [hplace,or_false]
      exact h.slots slots index

theorem Processed.clearTokenList (h : Processed store done store') (hc : store.Collected comments tokenList)
    (hall : store.AllTokens tokenList) : ∃ next, store'.clearTokenList tokenList = .ok next ∧
      Processed store (done ++ [tokenList]) next := by
  refine ⟨_,?_,h.replace hc⟩
  rw [CommentStore.clearTokenList,clearTokens_spec (h.allTokens.mpr hall),h.kept]
  rfl

/-- All the lists are cleared. -/
theorem Processed.foldlM {rest : List CommentTokenList} (h : Processed store done store')
    (hc : ∀ tokenList ∈ rest, store.Collected comments tokenList)
    (hall : ∀ tokenList ∈ rest, store.AllTokens tokenList) :
    ∃ next, rest.foldlM CommentStore.clearTokenList store' = .ok next ∧ Processed store (done ++ rest) next := by
  induction rest generalizing done store' with
  | nil => exact ⟨store',rfl,by rwa [List.append_nil]⟩
  | cons tokenList rest ih =>
    obtain ⟨next,hnext,hprocessed⟩ := h.clearTokenList (hc _ List.mem_cons_self) (hall _ List.mem_cons_self)
    obtain ⟨last,hlast,hdone⟩ := ih hprocessed (fun other ho => hc other (List.mem_cons_of_mem _ ho))
      fun other ho => hall other (List.mem_cons_of_mem _ ho)
    refine ⟨last,?_,by rwa [List.append_assoc] at hdone⟩
    rw [List.foldlM_cons,hnext]
    exact hlast

/-- The lists are cleared only when all in them are tokens. -/
theorem Processed.allTokens_of_foldlM {rest : List CommentTokenList} {last : CommentStore}
    (h : Processed store done store') (hc : ∀ tokenList ∈ rest, store.Collected comments tokenList)
    (hlast : rest.foldlM CommentStore.clearTokenList store' = .ok last) :
    ∀ tokenList ∈ rest, store.AllTokens tokenList := by
  induction rest generalizing done store' with
  | nil => simp
  | cons tokenList rest ih =>
    rw [List.foldlM_cons] at hlast
    obtain ⟨next,hnext,hlast⟩ := bind_eq_ok.mp hlast
    obtain ⟨result,hresult,-⟩ := bind_eq_ok.mp hnext
    have hall : store.AllTokens tokenList := h.allTokens.mp (isCommentToken_of_clearTokens hresult)
    obtain ⟨next',hnext',hprocessed⟩ := h.clearTokenList (hc _ List.mem_cons_self) hall
    obtain rfl := Except.ok.inj (hnext.symm.trans hnext')
    intro other ho
    obtain rfl | ho := List.mem_cons.mp ho
    · exact hall
    · exact ih hprocessed (fun other ho => hc other (List.mem_cons_of_mem _ ho)) hlast other ho

/-! What is around a service, and what clearing makes of it. -/

/-- A list of comments in a slot of the service, or at its end. -/
def ListAround (store : CommentStore) (comments : ServiceComments) (list : ℕ) : Prop :=
  comments.tail = some list ∨ ∃ slots ∈ comments.slotRefs, .list list ∈ store.slots slots

/-- A token in a slot of the service, or in a list around it. -/
def TokenAround (store : CommentStore) (comments : ServiceComments) (token : ℕ) : Prop :=
  (∃ slots ∈ comments.slotRefs, .token token ∈ store.slots slots) ∨
    ∃ list, store.ListAround comments list ∧ .token token ∈ store.elements list

/-- A list around a service that holds a token holds tokens only. -/
def Clearable (store : CommentStore) (comments : ServiceComments) : Prop :=
  ∀ list, store.ListAround comments list → (store.elements list).any Comment.isCommentToken = true →
    ∀ comment ∈ store.elements list, comment.isCommentToken = true

def hasText (store : CommentStore) : Comment → Bool
  | .token token => store.value token ≠ []
  | .other _ => true

/-- A slot that clearing empties: its token has no text left, or its list has no comment left. Of the lists that had
none before, only those that stand detached from a comment count. -/
def slotRemoved (store store' : CommentStore) (comments : ServiceComments) (slots index : ℕ) : CommentSlot → Bool
  | .token token => store'.value token = []
  | .list list => store'.elements list = [] ∧ (store.elements list ≠ [] ∨
      comments.comment = some slots ∧ index = 1 ∨ comments.item = some slots ∧ index = 3)
  | _ => false

/-- The comments around a service without their markers. -/
structure MarkersCleared (store store' : CommentStore) (comments : ServiceComments) : Prop where
  /-- No line marks a tag, in the tokens that were there and in those that are. -/
  noMarker : ∀ token, store.TokenAround comments token ∨ store'.TokenAround comments token →
    ∀ line ∈ keepLines (store'.value token), commentLineResolvedTagMarker line = none
  /-- A token has the text of its other lines, with their ends. -/
  text : ∀ token, store.TokenAround comments token → store'.value token = ((keepLines (store.value token)).filter
    fun line => (commentLineResolvedTagMarker line).isNone).flatten
  /-- Line by line it holds what its other lines held. -/
  lines : ∀ token, store.TokenAround comments token → lineContents (store'.value token) =
    (lineContents (store.value token)).filter fun line => (commentLineResolvedTagMarker line).isNone
  otherText : ∀ token, ¬ store.TokenAround comments token → store'.value token = store.value token
  /-- A list keeps, in order, what has text left. -/
  elements : ∀ list, store.ListAround comments list →
    store'.elements list = (store.elements list).filter store'.hasText
  otherElements : ∀ list, ¬ store.ListAround comments list → store'.elements list = store.elements list
  slots : ∀ slots ∈ comments.slotRefs, ∀ index : ℕ, (store'.slots slots)[index]? =
    (store.slots slots)[index]?.map fun slot =>
      if store.slotRemoved store' comments slots index slot then .none else slot
  otherSlots : ∀ slots, slots ∉ comments.slotRefs → store'.slots slots = store.slots slots
  noEmptyToken : ∀ token, store'.TokenAround comments token → store'.value token ≠ []
  noEmptyList : ∀ slots ∈ comments.slotRefs, ∀ list, .list list ∈ store'.slots slots → store.elements list ≠ [] →
    store'.elements list ≠ []

theorem any_isCommentToken {list token : ℕ} (h : .token token ∈ store.elements list) :
    (store.elements list).any Comment.isCommentToken = true := List.any_eq_true.mpr ⟨_,h,rfl⟩

/-- A list around a service that holds a token is collected. -/
theorem ListAround.collected {list : ℕ} (h : store.ListAround comments list)
    (hany : (store.elements list).any Comment.isCommentToken = true) :
    ∃ tokenList ∈ store.serviceCommentTokenLists comments, tokenList.list? = some list := by
  obtain htail | ⟨slots,hslots,hslot⟩ := h
  · exact ⟨_,mem_serviceCommentTokenLists.mpr (.whole htail hany),rfl⟩
  · obtain ⟨index,hindex⟩ := List.mem_iff_getElem?.mp hslot
    exact ⟨_,mem_serviceCommentTokenLists.mpr (.slotList hslots hindex hany),rfl⟩

theorem Collected.list (h : store.Collected comments tokenList) {list : ℕ} (hlist : tokenList.list? = some list) :
    store.ListAround comments list ∧ (store.elements list).any Comment.isCommentToken = true := by
  cases h with
  | standalone hslots hslot => cases hlist
  | slotList hslots hslot hany =>
    cases hlist
    exact ⟨.inr ⟨_,hslots,List.mem_of_getElem? hslot⟩,hany⟩
  | whole htail hany =>
    cases hlist
    exact ⟨.inl htail,hany⟩

theorem mem_list_iff {list : ℕ} :
    list ∈ (store.serviceCommentTokenLists comments).filterMap CommentTokenList.list? ↔
      store.ListAround comments list ∧ (store.elements list).any Comment.isCommentToken = true := by
  rw [List.mem_filterMap]
  constructor
  · rintro ⟨tokenList,hmem,hlist⟩
    exact (mem_serviceCommentTokenLists.mp hmem).list hlist
  · exact fun ⟨haround,hany⟩ => haround.collected hany

/-- The tokens that are collected are those around the service. -/
theorem token_mem_iff {token : ℕ} :
    .token token ∈ (store.serviceCommentTokenLists comments).flatMap store.tokens ↔
      store.TokenAround comments token := by
  rw [List.mem_flatMap]
  constructor
  · rintro ⟨tokenList,hmem,htoken⟩
    have hcollected := mem_serviceCommentTokenLists.mp hmem
    cases hlist : tokenList.list? with
    | some list =>
      rw [tokens_of_list? hlist] at htoken
      exact .inr ⟨list,(hcollected.list hlist).1,htoken⟩
    | none =>
      cases hcollected with
      | slotList hslots hslot hany => cases hlist
      | whole htail hany => cases hlist
      | standalone hslots hslot =>
        obtain rfl : token = _ := Comment.token.inj (List.mem_singleton.mp htoken)
        exact .inl ⟨_,hslots,List.mem_of_getElem? hslot⟩
  · rintro (⟨slots,hslots,hslot⟩ | ⟨list,haround,htoken⟩)
    · obtain ⟨index,hindex⟩ := List.mem_iff_getElem?.mp hslot
      exact ⟨_,mem_serviceCommentTokenLists.mpr (.standalone hslots hindex),List.mem_singleton_self _⟩
    · obtain ⟨tokenList,hmem,hlist⟩ := haround.collected (any_isCommentToken htoken)
      refine ⟨tokenList,hmem,?_⟩
      rwa [tokens_of_list? hlist]

theorem token_mem_serviceCommentTokens {token : ℕ} :
    .token token ∈ store.serviceCommentTokens comments ↔ store.TokenAround comments token := by
  rw [serviceCommentTokens,mem_orderedUnique,token_mem_iff]

theorem allTokens_iff_clearable :
    (∀ tokenList ∈ store.serviceCommentTokenLists comments, store.AllTokens tokenList) ↔
      store.Clearable comments := by
  constructor
  · intro h list haround hany
    obtain ⟨tokenList,hmem,hlist⟩ := haround.collected hany
    have hall := h tokenList hmem
    rwa [AllTokens,tokens_of_list? hlist] at hall
  · intro h tokenList hmem
    have hcollected := mem_serviceCommentTokenLists.mp hmem
    cases hlist : tokenList.list? with
    | some list =>
      rw [AllTokens,tokens_of_list? hlist]
      exact h list (hcollected.list hlist).1 (hcollected.list hlist).2
    | none =>
      cases hcollected with
      | slotList hslots hslot hany => cases hlist
      | whole htail hany => cases hlist
      | standalone hslots hslot =>
        intro comment hc
        rw [List.mem_singleton.mp hc]
        rfl

/-! Slots that hold an empty list are emptied at last. -/

def holdsEmptyList (store : CommentStore) : CommentSlot → Bool
  | .list list => store.elements list = []
  | _ => false

theorem value_emptyDetached (store : CommentStore) (slots : Option ℕ) (index : ℕ) :
    (store.emptyDetached slots index).value = store.value := by
  unfold emptyDetached
  split
  · rfl
  · split
    · split <;> rfl
    · rfl

theorem elements_emptyDetached (store : CommentStore) (slots : Option ℕ) (index : ℕ) :
    (store.emptyDetached slots index).elements = store.elements := by
  unfold emptyDetached
  split
  · rfl
  · split
    · split <;> rfl
    · rfl

theorem slots_emptyDetached (store : CommentStore) (detached : Option ℕ) (position slots index : ℕ) :
    ((store.emptyDetached detached position).slots slots)[index]? = (store.slots slots)[index]?.map fun slot =>
      if (detached = some slots ∧ index = position) ∧ store.holdsEmptyList slot = true then .none else slot := by
  by_cases hplace : detached = some slots ∧ index = position
  · obtain ⟨rfl,rfl⟩ := hplace
    simp only [true_and,emptyDetached]
    cases hslot : (store.slots slots)[index]? with
    | none => simp [hslot]
    | some slot =>
      cases slot with
      | none => simp [hslot,holdsEmptyList]
      | other => simp [hslot,holdsEmptyList]
      | token token => simp [hslot,holdsEmptyList]
      | list list =>
        by_cases hempty : store.elements list = []
        · simp [hempty,slots_setSlot,hslot,holdsEmptyList]
        · simp [hempty,hslot,holdsEmptyList]
  · simp only [hplace,false_and,if_false,Option.map_id_fun',id]
    unfold emptyDetached
    split
    · rfl
    · next row =>
      split
      · split
        · rw [slots_setSlot,if_neg]
          intro hsame
          exact hplace ⟨by rw [hsame.1],hsame.2.symm⟩
        · rfl
      · rfl

theorem mem_slotRefs {slots : ℕ} : slots ∈ comments.slotRefs ↔
    comments.comment = some slots ∨ comments.item = some slots ∨
      ∃ key ∈ comments.keys, comments.items key = some slots := by
  unfold ServiceComments.slotRefs
  rw [List.reduceOption_mem_iff,List.mem_append,List.mem_map]
  simp [eq_comm,or_assoc]

/-- A slot is collected when it holds a token, or a list that holds one. -/
theorem place_mem_iff {slots index : ℕ} :
    (slots,index) ∈ (store.serviceCommentTokenLists comments).filterMap CommentTokenList.place ↔
      slots ∈ comments.slotRefs ∧ ((∃ token, (store.slots slots)[index]? = some (.token token)) ∨
        ∃ list, (store.slots slots)[index]? = some (.list list) ∧
          (store.elements list).any Comment.isCommentToken = true) := by
  rw [List.mem_filterMap]
  constructor
  · rintro ⟨tokenList,hmem,hplace⟩
    cases mem_serviceCommentTokenLists.mp hmem with
    | whole htail hany => cases hplace
    | slotList hslots hslot hany =>
      cases hplace
      exact ⟨hslots,.inr ⟨_,hslot,hany⟩⟩
    | standalone hslots hslot =>
      cases hplace
      exact ⟨hslots,.inl ⟨_,hslot⟩⟩
  · rintro ⟨hslots,⟨token,hslot⟩ | ⟨list,hslot,hany⟩⟩
    · exact ⟨_,mem_serviceCommentTokenLists.mpr (.standalone hslots hslot),rfl⟩
    · exact ⟨_,mem_serviceCommentTokenLists.mpr (.slotList hslots hslot hany),rfl⟩

section
variable {last : CommentStore} (h : Processed store (store.serviceCommentTokenLists comments) last)
include h

theorem value_of_processed {token : ℕ} (haround : store.TokenAround comments token) :
    last.value token = clearCommentTokenResolvedTagMarkers (store.value token) := by
  rw [h.value,if_pos (token_mem_iff.mpr haround)]

theorem elements_of_processed {list : ℕ} (haround : store.ListAround comments list) :
    last.elements list = (store.elements list).filter last.hasText := by
  rw [h.elements]
  split
  · apply List.filter_congr
    intro comment hc
    cases comment with
    | other ref => rfl
    | token token => rw [left,hasText,value_of_processed h (.inr ⟨list,haround,hc⟩)]
  · next hnone =>
    refine (List.filter_eq_self.mpr ?_).symm
    intro comment hc
    cases comment with
    | other ref => rfl
    | token token => exact absurd (mem_list_iff.mpr ⟨haround,any_isCommentToken hc⟩) hnone

/-- What the slots of a service hold at last. -/
theorem slots_of_processed {slots : ℕ} (hslots : slots ∈ comments.slotRefs) (index : ℕ) :
    ((last.emptyDetachedServiceCommentLists comments).slots slots)[index]? =
      (store.slots slots)[index]?.map fun slot =>
        if store.slotRemoved last comments slots index slot then .none else slot := by
  rw [emptyDetachedServiceCommentLists,slots_emptyDetached,slots_emptyDetached,h.slots]
  cases hslot : (store.slots slots)[index]? with
  | none => rfl
  | some slot =>
    simp only [Option.map_some,Option.some.injEq]
    have hempty : ∀ slot, (last.emptyDetached comments.comment 1).holdsEmptyList slot = last.holdsEmptyList slot := by
      intro slot
      cases slot with
      | list list => simp only [holdsEmptyList,elements_emptyDetached]
      | _ => rfl
    rw [hempty]
    cases slot with
    | none => simp [emptied,slotRemoved,holdsEmptyList]
    | other => simp [emptied,slotRemoved,holdsEmptyList]
    | token token =>
      have hvalue := value_of_processed h (.inl ⟨slots,hslots,List.mem_of_getElem? hslot⟩)
      have hplace := place_mem_iff.mpr ⟨hslots,.inl ⟨token,hslot⟩⟩
      simp only [hplace,true_and,emptied,slotRemoved,hvalue]
      by_cases hleft : clearCommentTokenResolvedTagMarkers (store.value token) = []
      · simp [hleft,holdsEmptyList]
      · simp [hleft,holdsEmptyList]
    | list list =>
      have haround : store.ListAround comments list := .inr ⟨slots,hslots,List.mem_of_getElem? hslot⟩
      by_cases hany : (store.elements list).any Comment.isCommentToken = true
      · have hplace := place_mem_iff.mpr ⟨hslots,.inr ⟨list,hslot,hany⟩⟩
        have hlist : last.elements list = (store.elements list).filter store.left := by
          rw [h.elements,if_pos (mem_list_iff.mpr ⟨haround,hany⟩)]
        have hsome : store.elements list ≠ [] := by
          intro hnil
          rw [hnil] at hany
          cases hany
        simp only [hplace,true_and,emptied,slotRemoved,← hlist]
        by_cases hleft : last.elements list = []
        · simp [hleft,hsome,holdsEmptyList]
        · simp [hleft,holdsEmptyList]
      · have hplace : (slots,index) ∉ (store.serviceCommentTokenLists comments).filterMap CommentTokenList.place := by
          intro hmem
          obtain ⟨-,⟨token,htoken⟩ | ⟨other,hother,hsome⟩⟩ := place_mem_iff.mp hmem
          · cases hslot.symm.trans htoken
          · cases hslot.symm.trans hother
            exact hany hsome
        have hlist : last.elements list = store.elements list := by
          rw [h.elements,if_neg]
          exact fun hmem => hany (mem_list_iff.mp hmem).2
        simp only [hplace,false_and,if_false,slotRemoved,hlist]
        by_cases hleft : store.elements list = []
        · by_cases hcomment : comments.comment = some slots ∧ index = 1
          · simp [hleft,hcomment,holdsEmptyList,hlist]
          · by_cases hitem : comments.item = some slots ∧ index = 3
            · simp [hleft,hitem,holdsEmptyList,hlist]
            · simp [hleft,hcomment,hitem,holdsEmptyList,hlist]
        · simp [hleft,holdsEmptyList,hlist]

theorem slots_of_not_mem {slots : ℕ} (hslots : slots ∉ comments.slotRefs) :
    (last.emptyDetachedServiceCommentLists comments).slots slots = store.slots slots := by
  have hcomment : comments.comment ≠ some slots := fun heq => hslots (mem_slotRefs.mpr (.inl heq))
  have hitem : comments.item ≠ some slots := fun heq => hslots (mem_slotRefs.mpr (.inr (.inl heq)))
  ext index : 1
  have hplace : (slots,index) ∉ (store.serviceCommentTokenLists comments).filterMap CommentTokenList.place :=
    fun hmem => hslots (place_mem_iff.mp hmem).1
  rw [emptyDetachedServiceCommentLists,slots_emptyDetached,slots_emptyDetached,h.slots]
  simp only [hcomment,hitem,hplace,false_and,if_false,Option.map_id_fun',id]

end

theorem value_detached (last : CommentStore) :
    (last.emptyDetachedServiceCommentLists comments).value = last.value := by
  rw [emptyDetachedServiceCommentLists,value_emptyDetached,value_emptyDetached]

theorem elements_detached (last : CommentStore) :
    (last.emptyDetachedServiceCommentLists comments).elements = last.elements := by
  rw [emptyDetachedServiceCommentLists,elements_emptyDetached,elements_emptyDetached]

theorem hasText_detached (last : CommentStore) :
    (last.emptyDetachedServiceCommentLists comments).hasText = last.hasText := by
  funext comment
  cases comment with
  | token token => rw [hasText,hasText,value_detached]
  | other ref => rfl

theorem slotRemoved_detached (last : CommentStore) {slots index : ℕ} (slot : CommentSlot) :
    store.slotRemoved (last.emptyDetachedServiceCommentLists comments) comments slots index slot =
      store.slotRemoved last comments slots index slot := by
  cases slot with
  | token token => simp only [slotRemoved,value_detached]
  | list list => simp only [slotRemoved,elements_detached]
  | _ => rfl

section
variable {last : CommentStore} (h : Processed store (store.serviceCommentTokenLists comments) last)
include h

/-- What a slot of the service still holds it held before, and it was not removed. -/
theorem slot_of_cleared {slots : ℕ} {slot : CommentSlot} (hslots : slots ∈ comments.slotRefs)
    (hslot : slot ∈ (last.emptyDetachedServiceCommentLists comments).slots slots) (hsome : slot ≠ .none) :
    ∃ index : ℕ, (store.slots slots)[index]? = some slot ∧
      store.slotRemoved last comments slots index slot = false := by
  obtain ⟨index,hindex⟩ := List.mem_iff_getElem?.mp hslot
  rw [slots_of_processed h hslots] at hindex
  obtain ⟨held,hheld,heq⟩ := Option.map_eq_some_iff.mp hindex
  split at heq
  · exact absurd heq.symm hsome
  · next hkept =>
    subst heq
    exact ⟨index,hheld,by simpa using hkept⟩

theorem listAround_of_cleared {list : ℕ}
    (haround : (last.emptyDetachedServiceCommentLists comments).ListAround comments list) :
    store.ListAround comments list := by
  obtain htail | ⟨slots,hslots,hslot⟩ := haround
  · exact .inl htail
  · obtain ⟨index,hindex,-⟩ := slot_of_cleared h hslots hslot (by simp)
    exact .inr ⟨slots,hslots,List.mem_of_getElem? hindex⟩

/-- The tokens that are still around a service were around it, and have text. -/
theorem tokenAround_of_cleared {token : ℕ}
    (haround : (last.emptyDetachedServiceCommentLists comments).TokenAround comments token) :
    store.TokenAround comments token ∧ last.value token ≠ [] := by
  obtain ⟨slots,hslots,hslot⟩ | ⟨list,hlist,htoken⟩ := haround
  · obtain ⟨index,hindex,hkept⟩ := slot_of_cleared h hslots hslot (by simp)
    exact ⟨.inl ⟨slots,hslots,List.mem_of_getElem? hindex⟩,by simpa [slotRemoved] using hkept⟩
  · have hbefore := listAround_of_cleared h hlist
    rw [elements_detached,elements_of_processed h hbefore] at htoken
    obtain ⟨hmem,htext⟩ := List.mem_filter.mp htoken
    exact ⟨.inr ⟨list,hbefore,hmem⟩,by simpa [hasText] using htext⟩

theorem markersCleared : store.MarkersCleared (last.emptyDetachedServiceCommentLists comments) comments where
  noMarker token haround line hline := by
    have hbefore : store.TokenAround comments token := by
      obtain haround | haround := haround
      · exact haround
      · exact (tokenAround_of_cleared h haround).1
    rw [value_detached,value_of_processed h hbefore] at hline
    exact Option.isNone_iff_eq_none.mp (plainLine_of_clear hline)
  text token haround := by
    rw [value_detached,value_of_processed h haround]
    rfl
  lines token haround := by
    rw [value_detached,value_of_processed h haround]
    exact lineContents_clear _
  otherText token hother := by
    rw [value_detached,h.value,if_neg]
    exact fun hmem => hother (token_mem_iff.mp hmem)
  elements list haround := by
    rw [elements_detached,hasText_detached,elements_of_processed h haround]
  otherElements list hother := by
    rw [elements_detached,h.elements,if_neg]
    exact fun hmem => hother (mem_list_iff.mp hmem).1
  slots slots hslots index := by
    rw [slots_of_processed h hslots]
    simp only [slotRemoved_detached]
  otherSlots slots hslots := slots_of_not_mem h hslots
  noEmptyToken token haround := by
    rw [value_detached]
    exact (tokenAround_of_cleared h haround).2
  noEmptyList slots hslots list hslot hsome := by
    obtain ⟨index,-,hkept⟩ := slot_of_cleared h hslots hslot (by simp)
    rw [elements_detached]
    intro hempty
    simp [slotRemoved,hempty,hsome] at hkept

end

end CommentStore

end Wudup
