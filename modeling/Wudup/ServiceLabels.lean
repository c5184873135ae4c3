import Wudup.LabelApproval

/-! Labels of a service read back after they were set. -/
namespace Wudup
open Library

theorem labelKey_labelText {key : Str} (hk : '=' ∉ key) (value : Str) : labelKey (labelText key value) = key := by
  rw [labelKey,labelText,cut_append hk]
  rfl

theorem labelValue_labelText {key : Str} (hk : '=' ∉ key) (value : Str) :
    labelValue (labelText key value) = value := by
  rw [labelValue,labelText,cut_append hk]
  rfl

/-! A list of labels. -/

theorem sequenceLabelIndexFrom_cons {key service entry : Str} {index : ℕ} {valued : Bool} {declared : Option ℕ}
    {item : LabelItem} {rest : List LabelItem} (ht : item.text = some entry) (hk : labelKey entry ≠ key) :
    sequenceLabelIndexFrom key service index valued declared (item :: rest) =
      sequenceLabelIndexFrom key service (index + 1) valued declared rest := by
  rw [sequenceLabelIndexFrom,ht]
  exact if_pos hk

theorem sequenceLabelIndexFrom_key {key service entry : Str} {index : ℕ} {valued : Bool} {item : LabelItem}
    {rest : List LabelItem} (ht : item.text = some entry) (hk : labelKey entry = key) :
    sequenceLabelIndexFrom key service index valued none (item :: rest) =
      sequenceLabelIndexFrom key service (index + 1) (entry.contains '=') (some index) rest := by
  rw [sequenceLabelIndexFrom,ht]
  simp only [hk,ne_eq,not_true_eq_false,if_false,Option.isSome_none,Bool.false_eq_true]

/-- A key that was found is not found again. -/
theorem sequenceLabelIndexFrom_declared {key service : Str} {index found : ℕ} {valued : Bool} {result : Option ℕ}
    {items : List LabelItem} (h : sequenceLabelIndexFrom key service index valued (some found) items = .ok result) :
    result = some found ∧ sequenceLabelIndexFrom key service index true (some found) items = .ok (some found) := by
  induction items generalizing index with
  | nil =>
    cases h
    exact ⟨rfl,rfl⟩
  | cons item rest ih =>
    rw [sequenceLabelIndexFrom] at h ⊢
    cases ht : item.text with
    | none =>
      simp only [ht] at h ⊢
      cases valued with
      | true => exact ih h
      | false => exact absurd h (refuse_ne_ok _ _)
    | some entry =>
      simp only [ht] at h ⊢
      by_cases hk : labelKey entry = key
      · rw [if_neg (not_not.mpr hk)] at h
        exact absurd h (refuse_ne_ok _ _)
      · rw [if_pos hk] at h ⊢
        exact ih h

/-- The first entry of a list that reads as text: the list has it and its key is known. -/
theorem text_of_sequenceLabelIndexFrom {key service : Str} {index : ℕ} {result : Option ℕ} {item : LabelItem}
    {rest : List LabelItem}
    (h : sequenceLabelIndexFrom key service index false none (item :: rest) = .ok result) :
    ∃ entry, item.text = some entry := by
  cases ht : item.text with
  | some entry => exact ⟨entry,rfl⟩
  | none =>
    rw [sequenceLabelIndexFrom,ht] at h
    exact absurd h (refuse_ne_ok _ _)

theorem sequenceLabelIndexFrom_append {key service : Str} (hk : '=' ∉ key) (value : Str) {index : ℕ}
    {items : List LabelItem} (h : sequenceLabelIndexFrom key service index false none items = .ok none) :
    sequenceLabelIndexFrom key service index false none (items ++ [{ text := some (labelText key value) }]) =
      .ok (some (index + items.length)) := by
  induction items generalizing index with
  | nil => exact sequenceLabelIndexFrom_key rfl (labelKey_labelText hk value)
  | cons item rest ih =>
    obtain ⟨entry,ht⟩ := text_of_sequenceLabelIndexFrom h
    by_cases he : labelKey entry = key
    · rw [sequenceLabelIndexFrom_key ht he] at h
      cases (sequenceLabelIndexFrom_declared h).1
    · rw [sequenceLabelIndexFrom_cons ht he] at h
      rw [List.cons_append,sequenceLabelIndexFrom_cons ht he,ih h,List.length_cons,Nat.add_right_comm,Nat.add_assoc]

theorem sequenceLabelIndexFrom_modify {key service : Str} (hk : '=' ∉ key) (value : Str) {index found : ℕ}
    {items : List LabelItem} (h : sequenceLabelIndexFrom key service index false none items = .ok (some found)) :
    ∃ offset, found = index + offset ∧
      (items.modify offset fun item => { item with text := some (labelText key value) })[offset]?.bind (·.text) =
        some (labelText key value) ∧
      sequenceLabelIndexFrom key service index false none
        (items.modify offset fun item => { item with text := some (labelText key value) }) = .ok (some found) := by
  induction items generalizing index with
  | nil => cases h
  | cons item rest ih =>
    obtain ⟨entry,ht⟩ := text_of_sequenceLabelIndexFrom h
    by_cases he : labelKey entry = key
    · rw [sequenceLabelIndexFrom_key ht he] at h
      obtain ⟨hfound,hrest⟩ := sequenceLabelIndexFrom_declared h
      cases hfound
      refine ⟨0,rfl,rfl,?_⟩
      rw [List.modify_zero_cons,sequenceLabelIndexFrom_key rfl (labelKey_labelText hk value)]
      have hvalued : (labelText key value).contains '=' = true := by simp [labelText]
      rw [hvalued]
      exact hrest
    · rw [sequenceLabelIndexFrom_cons ht he] at h
      obtain ⟨offset,hoffset,htext,hmodify⟩ := ih h
      refine ⟨offset + 1,by omega,?_,?_⟩
      · rw [List.modify_succ_cons,List.getElem?_cons_succ]
        exact htext
      · rw [List.modify_succ_cons,sequenceLabelIndexFrom_cons ht he]
        exact hmodify

/-- The entry that declares a key is text. -/
theorem text_of_sequenceLabelIndex {key service : Str} {index found : ℕ} {items : List LabelItem}
    (h : sequenceLabelIndexFrom key service index false none items = .ok (some found)) :
    ∃ offset item entry, found = index + offset ∧ items[offset]? = some item ∧ item.text = some entry := by
  induction items generalizing index with
  | nil => cases h
  | cons item rest ih =>
    obtain ⟨entry,ht⟩ := text_of_sequenceLabelIndexFrom h
    by_cases he : labelKey entry = key
    · rw [sequenceLabelIndexFrom_key ht he] at h
      cases (sequenceLabelIndexFrom_declared h).1
      exact ⟨0,item,entry,rfl,rfl,ht⟩
    · rw [sequenceLabelIndexFrom_cons ht he] at h
      obtain ⟨offset,item',entry',hoffset,hitem,htext⟩ := ih h
      exact ⟨offset + 1,item',entry',by omega,hitem,htext⟩

/-- No entry of a list declares a key that is not found in it. -/
theorem absent_of_sequenceLabelIndex {key service : Str} {index : ℕ} {items : List LabelItem}
    (h : sequenceLabelIndexFrom key service index false none items = .ok none) :
    (items.any fun item => item.text.any fun entry => labelKey entry = key) = false := by
  induction items generalizing index with
  | nil => rfl
  | cons item rest ih =>
    obtain ⟨entry,ht⟩ := text_of_sequenceLabelIndexFrom h
    by_cases he : labelKey entry = key
    · rw [sequenceLabelIndexFrom_key ht he] at h
      cases (sequenceLabelIndexFrom_declared h).1
    · rw [sequenceLabelIndexFrom_cons ht he] at h
      simpa [ht,he] using ih h

theorem find_setMappingLabel (entries : List LabelEntry) (key value : Str) :
    ∃ entry, (setMappingLabel entries key value).find? (·.key = key) = some entry ∧ entry.value = .text value := by
  rw [setMappingLabel]
  split
  · rename_i hany
    induction entries with
    | nil => cases hany
    | cons entry entries ih =>
      rw [List.map_cons]
      by_cases he : entry.key = key
      · rw [if_pos he]
        exact ⟨_,List.find?_cons_of_pos (by simpa using he),rfl⟩
      · rw [if_neg he,List.find?_cons_of_neg (by simpa using he)]
        simp only [List.any_cons,he,decide_false,Bool.false_or] at hany
        exact ih hany
  · rename_i hany
    refine ⟨{ key, value := .text value },?_,rfl⟩
    rw [List.find?_append,List.find?_eq_none.mpr]
    · simp
    · intro entry hentry
      simp only [List.any_eq_true,not_exists,not_and] at hany
      exact hany entry hentry

/-- A label that was set reads as it was set. -/
theorem getServiceLabelValue_set {config next : ServiceConfig} {key value service : Str} (hk : '=' ∉ key)
    (h : setServiceLabelValue config key value service = .ok next) :
    getServiceLabelValue next key service = .ok value := by
  rw [setServiceLabelValue] at h
  dsimp only at h
  cases hl : LabelsField.collection config.labels with
  | null =>
    rw [hl] at h
    cases h
    change (sequenceLabelIndexFrom key service 0 false none [{ text := some (labelText key value) }] >>= _) = _
    rw [sequenceLabelIndexFrom_key rfl (labelKey_labelText hk value)]
    exact congrArg Except.ok (labelValue_labelText hk value)
  | mapping entries =>
    rw [hl] at h
    cases h
    obtain ⟨entry,hfind,hvalue⟩ := find_setMappingLabel entries key value
    rw [getServiceLabelValue]
    simp only [LabelsField.collection,Option.map_some,Option.getD_some,hfind]
    obtain ⟨entryKey,entryValue,direct,location,keyLocation⟩ := entry
    obtain rfl : entryValue = .text value := hvalue
    rfl
  | sequence items =>
    rw [hl] at h
    obtain ⟨found,hfound,h⟩ := bind_eq_ok.mp h
    cases found with
    | none =>
      cases h
      change (sequenceLabelIndexFrom key service 0 false none _ >>= _) = _
      rw [sequenceLabelIndexFrom_append hk value hfound]
      have htext : labelValue ((((items ++ [{ text := some (labelText key value) }])[0 + items.length]?).bind
          (·.text)).getD []) = value := by
        simp [labelValue_labelText hk]
      exact congrArg Except.ok htext
    | some index =>
      cases h
      obtain ⟨offset,hoffset,htext,hmodify⟩ := sequenceLabelIndexFrom_modify hk value hfound
      rw [Nat.zero_add] at hoffset
      subst hoffset
      change (sequenceLabelIndexFrom key service 0 false none _ >>= _) = _
      rw [hmodify]
      change Except.ok (labelValue ((((items.modify index _)[index]?).bind (·.text)).getD [])) = _
      rw [htext]
      exact congrArg Except.ok (labelValue_labelText hk value)
  | other =>
    rw [hl] at h
    exact absurd h (refuse_ne_ok _ _)

/-- Labels that are ready to be edited, or were edited, are not copied again. -/
theorem materialize_set {config next : ServiceConfig} {key value service : Str}
    (h : setServiceLabelValue config key value service = .ok next) :
    materializeInheritedServiceLabels next service = .ok next := by
  have hdirect : ∃ labels, next.labels = some labels ∧ labels.direct = true := by
    rw [setServiceLabelValue] at h
    dsimp only at h
    cases hl : LabelsField.collection config.labels with
    | null =>
      rw [hl] at h
      cases h
      exact ⟨_,rfl,rfl⟩
    | mapping entries =>
      rw [hl] at h
      cases h
      exact ⟨_,rfl,rfl⟩
    | sequence items =>
      rw [hl] at h
      obtain ⟨found,-,h⟩ := bind_eq_ok.mp h
      cases found with
      | none =>
        cases h
        exact ⟨_,rfl,rfl⟩
      | some index =>
        cases h
        exact ⟨_,rfl,rfl⟩
    | other =>
      rw [hl] at h
      exact absurd h (refuse_ne_ok _ _)
  obtain ⟨labels,hlabels,hdirect⟩ := hdirect
  simp [materializeInheritedServiceLabels,hlabels,hdirect]

theorem materialize_materialize {config next : ServiceConfig} {service : Str}
    (h : materializeInheritedServiceLabels config service = .ok next) :
    materializeInheritedServiceLabels next service = .ok next := by
  rw [materializeInheritedServiceLabels] at h
  cases hl : config.labels with
  | none =>
    simp only [hl] at h
    cases h
    simp [materializeInheritedServiceLabels,hl]
  | some labels =>
    simp only [hl] at h
    by_cases hd : labels.direct = true
    · rw [if_pos hd] at h
      cases h
      simp [materializeInheritedServiceLabels,hl,hd]
    · rw [if_neg hd] at h
      cases hv : labels.value with
      | null =>
        rw [hv] at h
        cases h
        simp [materializeInheritedServiceLabels,hl,hv]
      | mapping entries =>
        rw [hv] at h
        cases h
        rfl
      | sequence items =>
        rw [hv] at h
        cases h
        rfl
      | other =>
        rw [hv] at h
        exact absurd h (refuse_ne_ok _ _)

theorem config_setConfig_self {document : ComposeDocument} {service : Str} {config : ServiceConfig}
    (h : document.config service = some config) (next : ServiceConfig) :
    (document.setConfig service next).config service = some next := by
  rw [ComposeDocument.config,find_setConfig]
  cases hf : document.services.find? fun entry => decide (entry.name = some service) with
  | none =>
    rw [ComposeDocument.config,hf] at h
    cases h
  | some entry =>
    have hentry : entry.name = some service := by simpa using List.find?_some hf
    simp [hentry]

end Wudup
