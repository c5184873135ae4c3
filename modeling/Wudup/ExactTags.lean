import Wudup.LabelApproval
import Wudup.TagStreams

/-! Labels that stand for exact tags: how they are written, and how they are recognised. -/
namespace Wudup
open Library

/-- The expression that matches some tags and nothing else. -/
def exactTagsRegex (tags : List Str) : Str :=
  match (sortedSet tags).map jsRegexEscape with
  | [] => []
  | [fragment] => '^' :: fragment ++ ['$']
  | fragments => "^(?:".toList ++ ['|'].intercalate fragments ++ ")$".toList

/-- The tag that a label stands for, as it is or as its expression; nothing for other labels. -/
def singleExactTag (value : Str) : Str :=
  let normalized := composeUnescapeDollars value
  if tagValueValid normalized then normalized
  else if !(normalized.head? = some '^' && normalized.getLast? = some '$') then []
  else match decodeExactTag normalized.tail.dropLast with
    | none => []
    | some tag => if tagValueValid tag then tag else []

@[simp] theorem exactTagsRegex_singleton (tag : Str) : exactTagsRegex [tag] = exactTagRegex tag := rfl

/-! Escaped tags decode to themselves. -/

theorem decodeExactTag_jsRegexEscape (tag : Str) : decodeExactTag (jsRegexEscape tag) = some tag := by
  induction tag with
  | nil => rfl
  | cons c rest ih =>
    rw [jsRegexEscape_cons]
    by_cases hs : regexSpecial c = true
    · rw [if_pos hs]
      simp [decodeExactTag,hs,ih]
    · have hc : c ≠ '\\' := by
        rintro rfl
        exact hs rfl
      rw [if_neg hs,List.singleton_append,decodeExactTag.eq_def]
      simp [hc,hs,ih]

theorem decodeExactTag_eq_some {value tag : Str} : decodeExactTag value = some tag ↔ value = jsRegexEscape tag := by
  constructor
  · exact fun h => (jsRegexEscape_of_decode h).symm
  · rintro rfl
    exact decodeExactTag_jsRegexEscape tag

/-! The tags that the expression matches. -/

theorem intercalate_cons (c : Char) (text : Str) (texts : List Str) :
    [c].intercalate (text :: texts) = text ++ texts.flatMap (c :: ·) := by
  induction texts generalizing text with
  | nil => simp [List.intercalate]
  | cons next texts ih =>
    have ih := ih next
    simp only [List.intercalate] at ih ⊢
    rw [List.intersperse_cons_cons,List.flatten_cons,List.flatten_cons,ih,List.flatMap_cons]
    simp

/-- The tag an escaped fragment stands for. -/
def fragmentTags (fragment : Str) : Language Char := {tag | decodeExactTag fragment = some tag}

theorem spells_fragment (tag : Str) : Regex.Spells (jsRegexEscape tag) (fragmentTags (jsRegexEscape tag)) := by
  have he : fragmentTags (jsRegexEscape tag) = {tag} := by
    ext other
    constructor
    · intro h
      have h : decodeExactTag (jsRegexEscape tag) = some other := h
      rw [decodeExactTag_jsRegexEscape] at h
      exact (Option.some.inj h).symm
    · rintro rfl
      exact decodeExactTag_jsRegexEscape _
  rw [he]
  exact spells_jsRegexEscape tag

/-- The expression matches the tags it is made of. -/
theorem exactTagsRegex_matches {tags : List Str} (h : tags ≠ []) (other : Str) :
    TagMatches (exactTagsRegex tags) other ↔ other ∈ tags := by
  rw [← mem_sortedSet,exactTagsRegex]
  cases hs : sortedSet tags with
  | nil =>
    obtain ⟨tag,ht⟩ := List.exists_mem_of_ne_nil tags h
    rw [← mem_sortedSet,hs] at ht
    cases ht
  | cons tag more =>
    cases more with
    | nil =>
      rw [List.mem_singleton]
      exact (matches_anchored (spells_jsRegexEscape tag) rfl other).1
    | cons next more =>
      have hspells : ∀ fragment ∈ jsRegexEscape tag :: (next :: more).map jsRegexEscape,
          Regex.Spells fragment (fragmentTags fragment) := by
        intro fragment hf
        rw [← List.map_cons] at hf
        obtain ⟨t,-,rfl⟩ := List.mem_map.mp hf
        exact spells_fragment t
      have htext : "^(?:".toList ++ ['|'].intercalate ((tag :: next :: more).map jsRegexEscape) ++ ")$".toList =
          '^' :: ("(?:".toList ++ (jsRegexEscape tag ++ ((next :: more).map jsRegexEscape).flatMap ('|' :: ·)) ++
            [')']) ++ ['$'] := by
        rw [List.map_cons,intercalate_cons]
        simp
      have hmatch := (matches_anchored (Regex.Spells.alternatives hspells) htext other).1
      simp only [List.map_cons] at hmatch ⊢
      rw [hmatch]
      constructor
      · rintro ⟨fragment,hf,ht⟩
        rw [← List.map_cons,← List.map_cons] at hf
        obtain ⟨t,hm,rfl⟩ := List.mem_map.mp hf
        have ht : decodeExactTag (jsRegexEscape t) = some other := ht
        rw [decodeExactTag_jsRegexEscape] at ht
        cases ht
        exact hm
      · intro hm
        refine ⟨jsRegexEscape other,?_,decodeExactTag_jsRegexEscape other⟩
        rw [← List.map_cons,← List.map_cons]
        exact List.mem_map_of_mem hm

/-- A text between the two anchors. -/
theorem anchored_iff {value body : Str} : (value.head? = some '^' ∧ value.getLast? = some '$' ∧
    value.tail.dropLast = body) ↔ value = '^' :: body ++ ['$'] := by
  constructor
  · rintro ⟨hhead,hlast,rfl⟩
    cases value with
    | nil => cases hhead
    | cons c rest =>
      cases hhead
      cases rest with
      | nil => cases hlast
      | cons d rest =>
        rw [List.getLast?_cons_of_ne_nil (by simp)] at hlast
        rw [List.tail_cons,List.cons_append,List.dropLast_append_getLast? '$' hlast]
  · rintro rfl
    exact ⟨rfl,List.getLast?_concat,by simp⟩

theorem length_of_valid {tag : Str} (h : tagValueValid tag = true) : tag ≠ [] := by
  rintro rfl
  cases h

theorem isSimpleExactTagInclude_iff {value : Str} : isSimpleExactTagInclude value = true ↔
    ∃ tag, tagValueValid tag = true ∧ value = exactTagRegex tag := by
  simp only [isSimpleExactTagInclude,Bool.and_eq_true,decide_eq_true_eq,Option.any_eq_true,
    decodeExactTag_eq_some]
  constructor
  · rintro ⟨⟨⟨-,hhead⟩,hlast⟩,tag,hdecode,hvalid⟩
    exact ⟨tag,hvalid,anchored_iff.mp ⟨hhead,hlast,hdecode⟩⟩
  · rintro ⟨tag,hvalid,hv⟩
    obtain ⟨hhead,hlast,hbody⟩ := anchored_iff.mpr hv
    refine ⟨⟨⟨?_,hhead⟩,hlast⟩,tag,hbody,hvalid⟩
    rw [hv]
    cases tag with
    | nil => cases hvalid
    | cons c rest =>
      rw [exactTagRegex,jsRegexEscape_cons]
      split
      · simp
      · simp

/-! The escapes of Compose. -/

theorem eq_of_unescape {value text : Str} (h : composeUnescapeDollars value = text) (hd : '$' ∉ text) :
    value = text := by
  induction value using composeUnescapeDollars.induct generalizing text with
  | case1 rest =>
    subst h
    simp [composeUnescapeDollars] at hd
  | case2 c rest hne ih =>
    rw [composeUnescapeDollars.eq_2 _ _ hne] at h
    subst h
    simp only [List.mem_cons,not_or] at hd
    exact congrArg (c :: ·) (ih rfl hd.2)
  | case3 => exact h

/-- A text whose only dollar is at its end is written with one dollar there or with two. -/
theorem eq_or_eq_of_unescape {value text : Str} (h : composeUnescapeDollars value = text ++ ['$'])
    (hd : '$' ∉ text) : value = text ++ ['$'] ∨ value = text ++ ['$','$'] := by
  induction value using composeUnescapeDollars.induct generalizing text with
  | case1 rest =>
    rw [composeUnescapeDollars] at h
    cases text with
    | nil =>
      have hr := eq_of_unescape (List.cons.inj h).2 (by simp)
      simp [hr]
    | cons c text =>
      obtain ⟨rfl,-⟩ := List.cons.inj h
      simp at hd
  | case2 c rest hne ih =>
    rw [composeUnescapeDollars.eq_2 _ _ hne] at h
    cases text with
    | nil =>
      obtain ⟨rfl,hr⟩ := List.cons.inj h
      rw [eq_of_unescape hr (by simp)]
      exact .inl rfl
    | cons d text =>
      obtain ⟨rfl,hr⟩ := List.cons.inj h
      simp only [List.mem_cons,not_or] at hd
      exact (ih hr hd.2).imp (congrArg (c :: ·)) (congrArg (c :: ·))
  | case3 => simp [composeUnescapeDollars] at h

theorem composeEscapeDollars_append (left right : Str) :
    composeEscapeDollars (left ++ right) = composeEscapeDollars left ++ composeEscapeDollars right :=
  List.flatMap_append

theorem composeEscapeDollars_eq_self {text : Str} (h : '$' ∉ text) : composeEscapeDollars text = text := by
  induction text with
  | nil => rfl
  | cons c rest ih =>
    simp only [List.mem_cons,not_or] at h
    have hcons : composeEscapeDollars (c :: rest) = (if c = '$' then ['$','$'] else [c]) ++ composeEscapeDollars rest :=
      rfl
    rw [hcons,if_neg (Ne.symm h.1),ih h.2]
    rfl

theorem dollar_not_mem_of_valid {tag : Str} (h : tagValueValid tag = true) : '$' ∉ tag :=
  fun hd => absurd (tagChar_of_valid h '$' hd) (by decide)

theorem dollar_not_mem_escape {tag : Str} (h : '$' ∉ tag) : '$' ∉ jsRegexEscape tag := by
  intro hd
  obtain ⟨c,hc,hd⟩ := List.mem_flatMap.mp hd
  split at hd
  · simp only [List.mem_cons,List.not_mem_nil,or_false] at hd
    rcases hd with hd | rfl
    · cases hd
    · exact h hc
  · rw [List.mem_singleton] at hd
    exact h (hd ▸ hc)

theorem singleExactTag_of_exact {value tag : Str} (hvalid : tagValueValid tag = true)
    (h : composeUnescapeDollars value = exactTagRegex tag) : singleExactTag value = tag := by
  obtain ⟨hhead,hlast,hbody⟩ := anchored_iff.mpr (h.trans rfl)
  have hplain : tagValueValid (composeUnescapeDollars value) = false := by
    rw [h]
    rfl
  simp [singleExactTag,hplain,hhead,hlast,hbody,decodeExactTag_jsRegexEscape,hvalid]

/-- Values taken for a tag are valid tags, and expressions of valid tags with their dollar escaped or not. -/
theorem singleExactTag_cases {value : Str} (h : singleExactTag value ≠ []) :
    (tagValueValid value = true ∧ singleExactTag value = value) ∨
      ∃ tag, tagValueValid tag = true ∧ singleExactTag value = tag ∧
        (value = exactTagRegex tag ∨ value = composeEscapeDollars (exactTagRegex tag)) := by
  by_cases hplain : tagValueValid (composeUnescapeDollars value) = true
  · have hv := eq_of_unescape rfl (dollar_not_mem_of_valid hplain)
    rw [← hv] at hplain
    refine .inl ⟨hplain,?_⟩
    rw [singleExactTag,← hv]
    simp [hplain]
  · by_cases ha : ((composeUnescapeDollars value).head? = some '^' &&
        (composeUnescapeDollars value).getLast? = some '$') = true
    · cases hdecode : decodeExactTag (composeUnescapeDollars value).tail.dropLast with
      | none => simp [singleExactTag,hplain,ha,hdecode] at h
      | some tag =>
        by_cases hvalid : tagValueValid tag = true
        · simp only [Bool.and_eq_true,decide_eq_true_eq] at ha
          have he := anchored_iff.mp ⟨ha.1,ha.2,decodeExactTag_eq_some.mp hdecode⟩
          have hd : '$' ∉ '^' :: jsRegexEscape tag := by
            simpa using dollar_not_mem_escape (dollar_not_mem_of_valid hvalid)
          refine .inr ⟨tag,hvalid,singleExactTag_of_exact hvalid he,?_⟩
          rcases eq_or_eq_of_unescape he hd with hv | hv
          · exact .inl hv
          · refine .inr ?_
            rw [hv,exactTagRegex,composeEscapeDollars_append,composeEscapeDollars_eq_self hd]
            rfl
        · simp [singleExactTag,hplain,ha,hdecode,hvalid] at h
    · simp [singleExactTag,hplain,ha] at h

/-- Labels for exact tags: what the expression of a set of tags matches, and which values are recognised. -/
theorem exact_tag_codec :
    (∀ tags : List Str, tags ≠ [] → (∀ tag ∈ tags, tagValueValid tag = true) →
      ∀ other, TagMatches (exactTagsRegex tags) other ↔ other ∈ tags) ∧
    (∀ value, isSimpleExactTagInclude value = true ↔
      ∃ tag, tagValueValid tag = true ∧ value = exactTagsRegex [tag]) ∧
    (∀ tag, tagValueValid tag = true → singleExactTag (composeEscapeDollars (exactTagsRegex [tag])) = tag) ∧
    (∀ value, singleExactTag value ≠ [] →
      (tagValueValid value = true ∧ singleExactTag value = value) ∨
        ∃ tag, tagValueValid tag = true ∧ singleExactTag value = tag ∧
          (value = exactTagsRegex [tag] ∨ value = composeEscapeDollars (exactTagsRegex [tag]))) ∧
    ∀ value, composeUnescapeDollars (composeEscapeDollars value) = value := by
  refine ⟨fun tags ht _ other => exactTagsRegex_matches ht other,fun value => isSimpleExactTagInclude_iff,?_,
    fun value => singleExactTag_cases,composeUnescape_escape⟩
  intro tag hvalid
  exact singleExactTag_of_exact hvalid (composeUnescape_escape _)

end Wudup
