import Wudup.Library.RegexEngine
import Wudup.TagExclusions

/-! An exclusion label excludes the tags recorded before, the new tags, and what a user's own expression
excluded. -/
namespace Wudup
open Library

/-! The expressions of exact tags, as engines read them. -/

theorem plainSyntax_cons {c : Char} {rest : Str} (hb : c ≠ '\\') (hp : c ≠ '(') : Regex.plainSyntax (c :: rest) =
    ((c = ')' || c = '|' || c = '^' || c = '$' || !Regex.special c) && Regex.plainSyntax rest) := by
  rw [Regex.plainSyntax.eq_4]
  · intro d more hc _
    exact hb hc
  · intro more hc _
    exact hp hc

theorem plainSyntax_escape {c : Char} {rest : Str} (h : Regex.plainSyntax rest = true) :
    Regex.plainSyntax (Regex.escape c ++ rest) = true := by
  rw [Regex.escape]
  by_cases hs : Regex.special c = true
  · rw [if_pos hs]
    simpa [Regex.plainSyntax,hs] using h
  · rw [if_neg hs,List.singleton_append,plainSyntax_cons]
    · simpa [hs] using h
    · rintro rfl
      exact hs rfl
    · rintro rfl
      exact hs rfl

theorem plainSyntax_jsRegexEscape (tag : Str) {rest : Str} (h : Regex.plainSyntax rest = true) :
    Regex.plainSyntax (jsRegexEscape tag ++ rest) = true := by
  induction tag with
  | nil => exact h
  | cons c tag ih =>
    have hcons : jsRegexEscape (c :: tag) ++ rest = Regex.escape c ++ (jsRegexEscape tag ++ rest) := by
      simp [jsRegexEscape,Regex.escape,Regex.special]
    rw [hcons]
    exact plainSyntax_escape ih

theorem plainSyntax_anchored {body rest : Str} (h : Regex.plainSyntax (body ++ '$' :: rest) = true) :
    Regex.plainSyntax ('^' :: body ++ '$' :: rest) = true := by
  rw [List.cons_append,plainSyntax_cons (by decide) (by decide)]
  simpa using h

theorem plainSyntax_dollar {rest : Str} (h : Regex.plainSyntax rest = true) : Regex.plainSyntax ('$' :: rest) = true := by
  rw [plainSyntax_cons (by decide) (by decide)]
  simpa using h

theorem plainSyntax_alternatives (tags : List Str) {rest : Str} (h : Regex.plainSyntax rest = true) :
    Regex.plainSyntax ((tags.map jsRegexEscape).flatMap ('|' :: ·) ++ rest) = true := by
  induction tags with
  | nil => exact h
  | cons tag tags ih =>
    have hcons : ((tag :: tags).map jsRegexEscape).flatMap ('|' :: ·) ++ rest =
        '|' :: (jsRegexEscape tag ++ ((tags.map jsRegexEscape).flatMap ('|' :: ·) ++ rest)) := by simp
    rw [hcons,plainSyntax_cons (by decide) (by decide)]
    simpa using plainSyntax_jsRegexEscape tag ih

theorem plainSyntax_exactTagsRegex (tags : List Str) {rest : Str} (h : Regex.plainSyntax rest = true) :
    Regex.plainSyntax (exactTagsRegex tags ++ rest) = true := by
  rw [exactTagsRegex]
  cases sortedSet tags with
  | nil => exact h
  | cons tag more =>
    cases more with
    | nil =>
      have htext : '^' :: jsRegexEscape tag ++ ['$'] ++ rest = '^' :: jsRegexEscape tag ++ '$' :: rest := by simp
      change Regex.plainSyntax ('^' :: jsRegexEscape tag ++ ['$'] ++ rest) = true
      rw [htext]
      exact plainSyntax_anchored (plainSyntax_jsRegexEscape tag (plainSyntax_dollar h))
    | cons next more =>
      have hclose : Regex.plainSyntax (')' :: '$' :: rest) = true := by
        rw [plainSyntax_cons (by decide) (by decide)]
        simpa using plainSyntax_dollar h
      have htext : "^(?:".toList ++ ['|'].intercalate ((tag :: next :: more).map jsRegexEscape) ++ ")$".toList ++ rest =
          '^' :: '(' :: '?' :: ':' :: (jsRegexEscape tag ++
            (((next :: more).map jsRegexEscape).flatMap ('|' :: ·) ++ (')' :: '$' :: rest))) := by
        rw [List.map_cons,intercalate_cons]
        simp
      change Regex.plainSyntax ("^(?:".toList ++ ['|'].intercalate ((tag :: next :: more).map jsRegexEscape) ++
        ")$".toList ++ rest) = true
      rw [htext,plainSyntax_cons (by decide) (by decide)]
      simpa [Regex.plainSyntax] using plainSyntax_jsRegexEscape tag (plainSyntax_alternatives (next :: more) hclose)

theorem plainSyntax_grouped (tags : List Str) : Regex.plainSyntax (Regex.grouped (exactTagsRegex tags)) = true := by
  have hclose : Regex.plainSyntax [')'] = true := rfl
  exact plainSyntax_exactTagsRegex tags hclose

theorem head_exactTagsRegex {tags : List Str} (h : tags ≠ []) : (exactTagsRegex tags).head? = some '^' := by
  rw [exactTagsRegex]
  cases hs : sortedSet tags with
  | nil => exact absurd (sortedSet_eq_nil.mp hs) h
  | cons tag more =>
    cases more with
    | nil => rfl
    | cons next more => rfl

theorem exactTagsRegex_ne_nil {tags : List Str} (h : tags ≠ []) : exactTagsRegex tags ≠ [] := by
  intro he
  have hhead := head_exactTagsRegex h
  rw [he] at hhead
  cases hhead

theorem test_exactTagsRegex {engine : Regex.Engine} (lawful : engine.Lawful) {tags : List Str} (h : tags ≠ []) :
    engine.valid (exactTagsRegex tags) ∧ ∀ tag, engine.test (exactTagsRegex tags) tag ↔ tag ∈ tags := by
  obtain ⟨tag,ht⟩ := List.exists_mem_of_ne_nil tags h
  obtain ⟨r,hr,-⟩ := (exactTagsRegex_matches h tag).mpr ht
  have hplain : Regex.plainSyntax (exactTagsRegex tags) = true := by
    have hnil : Regex.plainSyntax [] = true := rfl
    have hp := plainSyntax_exactTagsRegex tags hnil
    rwa [List.append_nil] at hp
  obtain ⟨hvalid,htest⟩ := lawful.plain hplain hr
  refine ⟨hvalid,fun other => ?_⟩
  rw [htest,← Regex.engine_test hr]
  exact exactTagsRegex_matches h other

/-- The merged expression excludes the union. -/
theorem test_mergeWudExcludeRegex {engine : Regex.Engine} (lawful : engine.Lawful) {regex : Str} {existing new : List Str}
    (hnew : new ≠ [])
    (hvalid : regex = [] ∨ engine.valid regex) :
    engine.valid (mergeWudExcludeRegex regex (exactTagsRegex existing) (exactTagsRegex (existing ++ new))) ∧
      ∀ tag, engine.test (mergeWudExcludeRegex regex (exactTagsRegex existing) (exactTagsRegex (existing ++ new))) tag ↔
        tag ∈ existing ∨ tag ∈ new ∨ (regex ≠ [] ∧ regex ≠ exactTagsRegex existing ∧ engine.test regex tag) := by
  have hne : existing ++ new ≠ [] := by simp [hnew]
  obtain ⟨hvalidNext,htest⟩ := test_exactTagsRegex lawful hne
  rw [mergeWudExcludeRegex,if_neg (exactTagsRegex_ne_nil hne)]
  by_cases hmanaged : (regex = [] || regex = exactTagsRegex existing) = true
  · rw [if_pos hmanaged]
    refine ⟨hvalidNext,fun tag => ?_⟩
    rw [htest,List.mem_append]
    simp only [Bool.or_eq_true,decide_eq_true_eq] at hmanaged
    have hnone : ¬ (regex ≠ [] ∧ regex ≠ exactTagsRegex existing ∧ engine.test regex tag) := by
      rintro ⟨h1,h2,-⟩
      exact hmanaged.elim h1 h2
    simp [hnone]
  · rw [if_neg hmanaged]
    simp only [Bool.or_eq_true,decide_eq_true_eq,not_or] at hmanaged
    have hvalid := hvalid.resolve_left hmanaged.1
    by_cases hnext : regex = exactTagsRegex (existing ++ new)
    · rw [if_pos hnext]
      refine ⟨hvalid,fun tag => ?_⟩
      have hregex : engine.test regex tag ↔ tag ∈ existing ∨ tag ∈ new := by rw [hnext,htest,List.mem_append]
      rw [hregex]
      simp only [ne_eq,hmanaged,not_false_eq_true,true_and]
      rw [← or_assoc,or_self]
    · rw [if_neg hnext]
      obtain ⟨hleft,htestLeft⟩ := lawful.grouped hvalid
      obtain ⟨hright,htestRight⟩ := lawful.grouped hvalidNext
      obtain ⟨hboth,htestBoth⟩ := lawful.alternatives hleft hright (plainSyntax_grouped _)
      have htext : "(?:".toList ++ regex ++ ")|(?:".toList ++ exactTagsRegex (existing ++ new) ++ [')'] =
          Regex.grouped regex ++ '|' :: Regex.grouped (exactTagsRegex (existing ++ new)) := by
        simp [Regex.grouped]
      rw [htext]
      refine ⟨hboth,fun tag => ?_⟩
      rw [htestBoth,htestLeft,htestRight,htest,List.mem_append]
      simp only [ne_eq,hmanaged,not_false_eq_true,true_and]
      rw [or_comm,or_assoc]

/-- The label that the renderer writes for a service excludes the recorded tags, the new tags, and what the
label's own expression excluded. -/
theorem exclusion_label_is_union {engine : Regex.Engine} (lawful : engine.Lawful) {yaml : YamlLibrary}
    {source rendered : Str} {updates : List TagExclusionUpdate} {existing : Str → List Str}
    {applied : List AppliedTagExclusion} (hu : updates ≠ [])
    (h : renderComposeTagExclusions yaml source updates existing = .ok (rendered,applied)) :
    ∃ document final, loadComposeYaml yaml source = .ok document ∧ rendered = yaml.dump final ∧
      ∀ service ∈ updates.map (·.service), ∃ regex written,
        previousLabel document service wudTagExcludeLabel = .ok regex ∧
        previousLabel final service wudTagExcludeLabel = .ok written ∧
        (regex = [] ∨ engine.valid regex → engine.valid written ∧ ∀ tag, engine.test written tag ↔
          tag ∈ existing service ∨ tag ∈ serviceTags updates service ∨
            (regex ≠ [] ∧ regex ≠ exactTagsRegex (existing service) ∧ engine.test regex tag)) := by
  obtain ⟨final,hfinal,hrendered,-⟩ := renderComposeTagExclusions_ok hu h
  obtain ⟨document,hload,-,hfold⟩ := excludeTags_ok hfinal
  refine ⟨document,final.document,hload,hrendered,fun service hs => ?_⟩
  have hs : service ∈ excludedServices updates := mem_sortedSet.mpr hs
  obtain ⟨value,after,hvalue,hwritten,-,hmerged⟩ := foldlM_excludeService_current (nodup_sortedSet _) hfold hs
  refine ⟨_,_,previousLabel_of_current hvalue,previousLabel_of_current hwritten,?_⟩
  rw [hmerged]
  exact test_mergeWudExcludeRegex lawful (serviceTags_ne_nil hs)

section Example

def appHead : Str := "services:\n  app:\n    image: repo/app:1.0\n    labels:\n    - ".toList

def appSource (label : Str) : Str := appHead ++ label ++ ['\n']

def appService (label : Str) : ServiceEntry where
  name := some "app".toList
  config := some
    { image := some { direct := true, value := .text "repo/app:1.0".toList, location := some ⟨2,11⟩, keyLocation := some ⟨2,4⟩ }
      labels := some { direct := true, value := .sequence [⟨some label,some ⟨4,6⟩⟩] } }

/-- The library on documents of the service `app` with one label. -/
def appYaml : YamlLibrary where
  load source := .ok (some (some [appService (source.drop appHead.length).dropLast]))
  dump document := appSource
    (match (document.config "app".toList).bind (·.labels) with
    | some { value := .sequence [⟨some label,_⟩], .. } => label
    | _ => [])

def appExclusion : TagExclusionUpdate where
  stack := { index := 0, directory := "/srv/app".toList, file := "compose.yml".toList, name := "app".toList,
             images := [], serviceImages := [] }
  service := "app".toList
  image := "repo/app:1.0".toList
  imageRepo := "repo/app".toList
  tag := "2.0".toList
  sourceLine := 1
  scope := .imageRepo

theorem beta_label_is_union : ∃ rendered applied document final,
    renderComposeTagExclusions appYaml (appSource "wud.tag.exclude=^beta".toList) [appExclusion]
      (fun _ => ["1.5".toList]) = .ok (rendered,applied) ∧
    loadComposeYaml appYaml (appSource "wud.tag.exclude=^beta".toList) = .ok document ∧ rendered = appYaml.dump final ∧
    ∀ service ∈ [appExclusion].map (·.service), ∃ regex written,
      previousLabel document service wudTagExcludeLabel = .ok regex ∧
      previousLabel final service wudTagExcludeLabel = .ok written ∧
      (regex = [] ∨ Regex.engine.valid regex → Regex.engine.valid written ∧ ∀ tag, Regex.engine.test written tag ↔
        tag ∈ ["1.5".toList] ∨ tag ∈ serviceTags [appExclusion] service ∨
          (regex ≠ [] ∧ regex ≠ exactTagsRegex ["1.5".toList] ∧ Regex.engine.test regex tag)) := by
  have hok : (renderComposeTagExclusions appYaml (appSource "wud.tag.exclude=^beta".toList) [appExclusion]
      (fun _ => ["1.5".toList])).toBool = true := by decide +kernel
  obtain ⟨⟨rendered,applied⟩,h⟩ := ok_of_toBool hok
  obtain ⟨document,final,hload,hrendered,hlabels⟩ := exclusion_label_is_union Regex.engine_lawful (by simp) h
  exact ⟨rendered,applied,document,final,h,hload,hrendered,hlabels⟩

end Example

end Wudup
