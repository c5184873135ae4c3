import Wudup.Library.YamlScalar
import Wudup.RewriteSpans
import Wudup.TagExclusions
import Wudup.TrackingFilters

/-! Label values in the source of a Compose file: the scalars that they are written as, and the tokens that these
replace. -/
namespace Wudup
open Library

/-! The values that labels get for valid tags. -/

/-- The expressions for valid tags: of a stream, of tracking and of exact tags, and what exclusions are merged to. -/
inductive LabelRegex : Str → Prop
  | stream {tag regex : Str} : tagValueValid tag = true → tagStreamIncludeRegex tag = .ok regex → LabelRegex regex
  | retag {tag regex : Str} : tagValueValid tag = true → retagTagIncludeRegex tag = .ok regex → LabelRegex regex
  | exact {tags : List Str} : tags ≠ [] → (∀ tag ∈ tags, tagValueValid tag = true) → LabelRegex (exactTagsRegex tags)
  | merged {current previous next : Str} : LabelRegex current → LabelRegex next →
      LabelRegex (mergeWudExcludeRegex current previous next)

/-- A label's value for valid tags, on its own or behind the label's name. -/
inductive TagLabel : Str → Prop
  | value {regex : Str} : LabelRegex regex → TagLabel (composeEscapeDollars regex)
  | entry {key regex : Str} : TagText key → LabelRegex regex → TagLabel (labelText key (composeEscapeDollars regex))

def Visible (c : Char) : Prop := 0x21 ≤ c.toNat ∧ c.toNat ≤ 0x7E

instance : DecidablePred Visible := fun c => inferInstanceAs (Decidable (0x21 ≤ c.toNat ∧ c.toNat ≤ 0x7E))

/-- Text that is safe to write in one line: without white space, and not a number or a word. -/
structure Legible (text : Str) : Prop where
  visible : ∀ c ∈ text, Visible c
  anchored : '^' ∈ text
  last : ∀ c ∈ text.getLast?, c ∈ ['$',')']

theorem visible_of_isAlphanum {c : Char} (h : c.isAlphanum = true) : Visible c := by
  change ((decide ('A'.val ≤ c.val ∧ c.val ≤ 'Z'.val) || ('a'.val ≤ c.val && c.val ≤ 'z'.val)) ||
    ('0'.val ≤ c.val && c.val ≤ '9'.val)) = true at h
  simp only [Bool.or_eq_true,Bool.and_eq_true,decide_eq_true_eq,UInt32.le_iff_toNat_le] at h
  change ((65 ≤ c.toNat ∧ c.toNat ≤ 90) ∨ (97 ≤ c.toNat ∧ c.toNat ≤ 122)) ∨ (48 ≤ c.toNat ∧ c.toNat ≤ 57) at h
  unfold Visible
  omega

theorem visible_of_tokenChar {c : Char} (h : tokenChar c = true) : Visible c := by
  simp only [tokenChar,Bool.or_eq_true,decide_eq_true_eq] at h
  obtain (h | rfl) | rfl := h
  · exact visible_of_isAlphanum h
  · decide
  · decide

theorem visible_of_tagText {text : Str} (h : TagText text) : ∀ c ∈ text, Visible c := by
  intro c hc
  obtain h | rfl := h c hc
  · exact visible_of_tokenChar h
  · decide

theorem visible_jsRegexEscape {text : Str} (h : ∀ c ∈ text, Visible c) : ∀ c ∈ jsRegexEscape text, Visible c := by
  intro c hc
  obtain ⟨d,hd,hc⟩ := List.mem_flatMap.mp hc
  split at hc
  · obtain rfl | rfl : c = '\\' ∨ c = d := by simpa using hc
    · decide
    · exact h c hd
  · obtain rfl : c = d := by simpa using hc
    exact h c hd

theorem visible_tokensText {tokens : List RegexToken} (h : ∀ token ∈ tokens, token.Lawful) :
    ∀ c ∈ tokensText tokens, Visible c := by
  intro c hc
  obtain ⟨token,htoken,hc⟩ := List.mem_flatMap.mp hc
  cases token with
  | literal d =>
    obtain rfl : c = d := by simpa [RegexToken.text] using hc
    exact visible_of_tokenChar (h _ htoken)
  | dot => exact @forall_mem_of_all Visible _ _ (by decide) c hc
  | number => exact @forall_mem_of_all Visible _ _ (by decide) c hc
  | dotted => exact @forall_mem_of_all Visible _ _ (by decide) c hc

theorem legible_anchored {body : Str} (h : ∀ c ∈ body, Visible c) : Legible ('^' :: body ++ ['$']) where
  visible := by
    rw [List.forall_mem_append,List.forall_mem_cons]
    exact ⟨⟨by decide,h⟩,forall_mem_of_all (by decide)⟩
  anchored := by simp
  last := by
    intro c hc
    rw [List.getLast?_concat] at hc
    cases hc
    decide

theorem Legible.ne_nil {text : Str} (h : Legible text) : text ≠ [] := List.ne_nil_of_mem h.anchored

/-- Visible text around legible text is legible where its end allows. -/
theorem Legible.append {front text : Str} (h : Legible text) (hfront : ∀ c ∈ front, Visible c) :
    Legible (front ++ text) where
  visible := List.forall_mem_append.mpr ⟨hfront,h.visible⟩
  anchored := List.mem_append_right front h.anchored
  last := by
    rw [List.getLast?_append_of_ne_nil _ h.ne_nil]
    exact h.last

theorem legible_stream {tag regex : Str} (htag : tagValueValid tag = true) (h : tagStreamIncludeRegex tag = .ok regex) :
    Legible regex := by
  unfold tagStreamIncludeRegex at h
  split at h
  · cases h
  next parts hparts =>
    cases h
    obtain ⟨_,_,_,_,_,_,_,_,_,_,rfl⟩ := parseTagStream_eq_some.mp hparts
    have hsuffix : ∀ c ∈ jsRegexEscape parts.suffix, Visible c :=
      visible_jsRegexEscape fun c hc => visible_of_tagText (tagText_of_valid htag) c (List.mem_append_right _ hc)
    have hlead : ∀ c ∈ if parts.version.head? = some 'v' then ['v'] else [], Visible c := by
      split
      · exact forall_mem_of_all (by decide)
      · exact List.forall_mem_nil _
    exact legible_anchored (List.forall_mem_append.mpr
      ⟨List.forall_mem_append.mpr ⟨hlead,forall_mem_of_all (by decide)⟩,hsuffix⟩)

theorem legible_retag {tag regex : Str} (htag : tagValueValid tag = true) (h : retagTagIncludeRegex tag = .ok regex) :
    Legible regex := by
  obtain ⟨regex',language,hregex,hform⟩ := exists_retagForm htag
  cases hregex.symm.trans h
  obtain ⟨tokens,rfl,hlawful,-⟩ := hform.exists_tokens (tagText_of_valid htag)
  exact legible_anchored (visible_tokensText hlawful)

theorem legible_exact {tags : List Str} (hne : tags ≠ []) (htags : ∀ tag ∈ tags, tagValueValid tag = true) :
    Legible (exactTagsRegex tags) := by
  have hfragments : ∀ fragment ∈ (sortedSet tags).map jsRegexEscape, ∀ c ∈ fragment, Visible c := by
    intro fragment hfragment
    obtain ⟨tag,htag,rfl⟩ := List.mem_map.mp hfragment
    exact visible_jsRegexEscape (visible_of_tagText (tagText_of_valid (htags tag (mem_sortedSet.mp htag))))
  rw [exactTagsRegex]
  cases hsorted : sortedSet tags with
  | nil => exact absurd (sortedSet_eq_nil.mp hsorted) hne
  | cons tag more =>
    rw [hsorted,List.map_cons,List.forall_mem_cons] at hfragments
    cases more with
    | nil => exact legible_anchored hfragments.1
    | cons next more =>
      have hshape (fragments : Str) :
          "^(?:".toList ++ fragments ++ ")$".toList = '^' :: ("(?:".toList ++ fragments ++ [')']) ++ ['$'] := by
        rw [show ")$".toList = [')'] ++ ['$'] from rfl,← List.append_assoc]
        rfl
      have hrest : ∀ c ∈ ((next :: more).map jsRegexEscape).flatMap ('|' :: ·), Visible c := by
        intro c hc
        obtain ⟨fragment,hfragment,hc⟩ := List.mem_flatMap.mp hc
        obtain rfl | hc := List.mem_cons.mp hc
        · decide
        · exact hfragments.2 fragment hfragment c hc
      change Legible ("^(?:".toList ++ ['|'].intercalate ((tag :: next :: more).map jsRegexEscape) ++ ")$".toList)
      rw [hshape,List.map_cons,intercalate_cons]
      refine legible_anchored ?_
      simp only [List.forall_mem_append]
      exact ⟨⟨forall_mem_of_all (by decide),hfragments.1,hrest⟩,forall_mem_of_all (by decide)⟩

theorem legible_merged {current next : Str} (hcurrent : Legible current) (hnext : Legible next) :
    Legible ("(?:".toList ++ current ++ ")|(?:".toList ++ next ++ [')']) where
  visible := by
    simp only [List.forall_mem_append]
    exact ⟨⟨⟨⟨forall_mem_of_all (by decide),hcurrent.visible⟩,forall_mem_of_all (by decide)⟩,hnext.visible⟩,
      forall_mem_of_all (by decide)⟩
  anchored := by simp [hcurrent.anchored]
  last := by
    intro c hc
    rw [List.getLast?_concat] at hc
    cases hc
    decide

theorem legible_of_labelRegex {regex : Str} (h : LabelRegex regex) : Legible regex := by
  induction h with
  | stream htag h => exact legible_stream htag h
  | retag htag h => exact legible_retag htag h
  | exact hne htags => exact legible_exact hne htags
  | @merged current previous next _ _ hcurrent hnext =>
    unfold mergeWudExcludeRegex
    split
    · exact hcurrent
    split
    · exact hnext
    split
    · exact hcurrent
    · exact legible_merged hcurrent hnext

theorem legible_composeEscapeDollars {text : Str} (h : Legible text) : Legible (composeEscapeDollars text) where
  visible := by
    intro c hc
    obtain ⟨d,hd,hc⟩ := List.mem_flatMap.mp hc
    split at hc
    · obtain rfl : c = '$' := by simpa using hc
      decide
    · obtain rfl : c = d := by simpa using hc
      exact h.visible c hd
  anchored := List.mem_flatMap.mpr ⟨'^',h.anchored,by decide⟩
  last := by
    obtain ⟨front,c,rfl⟩ := List.eq_nil_or_concat' text |>.resolve_left h.ne_nil
    have hc := h.last c (by simp)
    rw [composeEscapeDollars_append]
    simp only [List.mem_cons,List.not_mem_nil,or_false] at hc
    obtain rfl | rfl := hc
    · simp [composeEscapeDollars]
    · simp [composeEscapeDollars]

theorem legible_of_tagLabel {value : Str} (h : TagLabel value) : Legible value := by
  cases h with
  | value hregex => exact legible_composeEscapeDollars (legible_of_labelRegex hregex)
  | @entry key regex hkey hregex =>
    have hvalue := legible_composeEscapeDollars (legible_of_labelRegex hregex)
    have hfront : ∀ c ∈ key ++ ['='], Visible c :=
      List.forall_mem_append.mpr ⟨visible_of_tagText hkey,forall_mem_of_all (by decide)⟩
    have happend := hvalue.append hfront
    rw [← List.append_cons] at happend
    exact happend

/-! Legible text is one scalar in every style. -/

/-- A text on one line that is a scalar of a value, read as text. -/
structure ReadsBack (flow : Bool) (text value : Str) : Prop where
  scalar : Yaml.Scalar flow text value
  oneLine : ∀ c ∈ text, Yaml.isBreak c = false
  asText : text.head? = some '\'' ∨ text.head? = some '"' ∨ ¬ Yaml.CoreValue text

/-- Behind a token in quotes comes text in the same quotes. -/
def SameQuotes (token text : Str) : Prop := ∀ c ∈ ['\'','"'], token.head? = some c → text.head? = some c

theorem chars_of_visible {c : Char} (h : Visible c) :
    Yaml.isBreak c = false ∧ Yaml.isBlank c = false ∧ Yaml.jsonChar c = true ∧ Yaml.nsChar c = true := by
  have hne (d : Char) (hd : ¬ Visible d) : decide (c = d) = false := by
    rw [decide_eq_false_iff_not]
    rintro rfl
    exact hd h
  refine ⟨?_,?_,?_,?_⟩
  · rw [Yaml.isBreak,hne '\n' (by decide),hne '\r' (by decide),Bool.or_self]
  · rw [Yaml.isBlank,hne ' ' (by decide),hne '\t' (by decide),Bool.or_self]
  · simp only [Yaml.jsonChar,Bool.or_eq_true,decide_eq_true_eq]
    exact .inr (Nat.le_of_succ_le h.1)
  · simp only [Yaml.nsChar,Bool.or_eq_true,Bool.and_eq_true,decide_eq_true_eq]
    exact .inl (.inl (.inl h))

section
variable {value : Str} (h : Legible value)
include h

theorem readsBack_single (flow : Bool) : ReadsBack flow ('\'' :: doubled '\'' value ++ ['\'']) value where
  scalar := .single (Yaml.singleBody_singleInner (fun c hc => (chars_of_visible (h.visible c hc)).1)
    fun c hc => (chars_of_visible (h.visible c hc)).2.2.1)
  oneLine := by
    rw [List.forall_mem_append,List.forall_mem_cons]
    refine ⟨⟨rfl,fun c hc => ?_⟩,forall_mem_of_all (by decide)⟩
    exact (chars_of_visible (h.visible c (Yaml.mem_singleInner.mp hc))).1
  asText := .inl rfl

theorem readsBack_double (flow : Bool) : ReadsBack flow
    ('"' :: (value.flatMap fun c => if c = '\\' || c = '"' then ['\\',c] else [c]) ++ ['"']) value where
  scalar := .double (Yaml.doubleBody_doubleInner (fun c hc => (chars_of_visible (h.visible c hc)).1)
    fun c hc => (chars_of_visible (h.visible c hc)).2.2.1)
  oneLine := by
    rw [List.forall_mem_append,List.forall_mem_cons]
    refine ⟨⟨rfl,fun c hc => ?_⟩,forall_mem_of_all (by decide)⟩
    obtain rfl | hc := Yaml.mem_doubleInner hc
    · rfl
    · exact (chars_of_visible (h.visible c hc)).1
  asText := .inr (.inl rfl)

/-- Legible text is a plain scalar unless it starts with an indicator or has an indicator of flow collections in one. -/
theorem readsBack_plain {flow : Bool} (hfirst : ∀ c ∈ value.head?, c ∉ Yaml.indicators)
    (hflow : flow = true → ∀ c ∈ value, c ∉ Yaml.flowIndicators) : ReadsBack flow value value where
  scalar := by
    obtain ⟨c,rest,rfl⟩ := List.exists_cons_of_ne_nil h.ne_nil
    have hsafe : ∀ d ∈ c :: rest, Yaml.plainSafe flow d = true := by
      intro d hd
      rw [Yaml.plainSafe,(chars_of_visible (h.visible d hd)).2.2.2,Bool.true_and]
      cases flow with
      | false => rfl
      | true => simpa using hflow rfl d hd
    rw [List.forall_mem_cons] at hsafe
    have hc : Yaml.nsChar c = true := (chars_of_visible (h.visible c List.mem_cons_self)).2.2.2
    have hlast : rest.getLast? ≠ some ':' := by
      intro hrest
      have := h.last ':' (by rw [List.getLast?_cons,hrest]; rfl)
      exact absurd this (by decide)
    have hfrom := Yaml.plainFrom_of_safe hc hsafe.2 hlast
    have hplain : Yaml.Scalar flow _ _ := .plain (.inl ⟨hc,hfirst c rfl⟩) hfrom .done
    rw [List.append_nil] at hplain
    exact hplain
  oneLine := fun c hc => (chars_of_visible (h.visible c hc)).1
  asText := by
    refine .inr (.inr fun hcore => ?_)
    exact absurd (hcore.chars '^' h.anchored) (by decide)

/-- Legible text is written as one scalar that reads as the text, whatever token it is written like. -/
theorem renderYamlScalarLike_legible (token : Str) (flow : Bool) :
    ∃ text, renderYamlScalarLike token value flow = .ok text ∧ ReadsBack flow text value ∧ SameQuotes token text := by
  have hbreak : ¬ (value.contains '\n' || value.contains '\r') = true := by
    simp only [Bool.or_eq_true,List.contains_iff_mem]
    rintro (hc | hc)
    · exact absurd (h.visible _ hc) (by decide)
    · exact absurd (h.visible _ hc) (by decide)
  unfold renderYamlScalarLike
  dsimp only
  rw [if_neg hbreak]
  split
  next hsingle =>
    refine ⟨_,rfl,readsBack_single h flow,?_⟩
    intro c _ hc
    rw [hsingle] at hc
    exact hc
  split
  next hdouble =>
    refine ⟨_,rfl,readsBack_double h flow,?_⟩
    intro c _ hc
    rw [hdouble] at hc
    exact hc
  next hsingle hdouble =>
    have hquotes (text : Str) : SameQuotes token text := by
      intro c hc hhead
      obtain rfl | rfl : c = '\'' ∨ c = '"' := by simpa using hc
      · exact absurd hhead hsingle
      · exact absurd hhead hdouble
    refine ⟨_,rfl,?_,hquotes _⟩
    split
    · exact readsBack_single h flow
    next hsafe =>
      rw [Bool.or_eq_true,Bool.or_eq_true,not_or,not_or] at hsafe
      refine readsBack_plain h ?_ ?_
      · intro c hc hmem
        refine hsafe.1.1 ?_
        rw [Option.mem_def.mp hc]
        exact List.contains_iff_mem.mpr hmem
      · rintro rfl c hc hmem
        refine hsafe.2 ?_
        rw [Bool.true_and,List.any_eq_true]
        have hall : ∀ d ∈ Yaml.flowIndicators, "[]\x7b\x7d,".toList.contains d = true :=
          forall_mem_of_all (by decide)
        exact ⟨c,hc,hall c hmem⟩

end

/-! The token of a label's value in the source. -/

/-- A scalar of the source that starts in a line, with its value and the text behind it. -/
structure TokenAt (source : Str) (location : Location) (line : SourceLine) (flow : Bool) (token value after : Str) :
    Prop where
  at_line : sourceLine source location.line = some line
  inside : location.col < line.body.length
  text : source.drop (line.start + location.col) = token ++ after
  scalar : Yaml.Scalar flow token value

/-- A scalar in double quotes whose value is spelled like the first line of its own text. -/
def Misread (line : SourceLine) (location : Location) (flow : Bool) (token value : Str) : Prop :=
  flow = false ∧ token.head? = some '"' ∧ value = line.body.drop location.col ∧ '\r' ∉ value

/-- A token is replaced by a scalar of the new value, and the text around it stays. -/
structure ReplacesToken (source : Str) (offset : ℕ) (flow : Bool) (token value after : Str) (rewrite : SpanRewrite) :
    Prop where
  start : rewrite.start = offset
  stop : rewrite.stop = offset + token.length
  written : ReadsBack flow rewrite.replacement value
  quotes : SameQuotes token rewrite.replacement
  around : replaceSpan source rewrite = source.take offset ++ (rewrite.replacement ++ after)

/-- What may come behind a token and blanks: a comment or nothing, and in a flow collection a comma or a bracket. -/
def EndsAt (flow : Bool) (rest : Str) : Prop :=
  (flow = false ∧ rest = []) ∨ ∃ c ∈ rest.head?, c = '#' ∨ (flow = true ∧ c ∈ [',','\x7d',']'])

def FollowedBy (flow : Bool) (tail : Str) : Prop := ∃ blanks rest, tail = blanks ++ rest ∧
  (∀ c ∈ blanks, isBlank c = true) ∧ EndsAt flow rest

theorem yamlScalarBoundaryMatches_eq {tail : Str} {flow : Bool} :
    yamlScalarBoundaryMatches tail flow = true ↔ EndsAt flow (tail.dropWhile isBlank) := by
  unfold yamlScalarBoundaryMatches blankOrComment EndsAt
  generalize tail.dropWhile isBlank = rest
  cases rest with
  | nil => cases flow <;> simp
  | cons c rest =>
    cases flow with
    | false => simp
    | true =>
      simp
      tauto

theorem yamlScalarBoundaryMatches_iff {tail : Str} {flow : Bool} :
    yamlScalarBoundaryMatches tail flow = true ↔ FollowedBy flow tail := by
  rw [yamlScalarBoundaryMatches_eq]
  constructor
  · intro h
    exact ⟨tail.takeWhile isBlank,tail.dropWhile isBlank,List.takeWhile_append_dropWhile.symm,
      fun c hc => List.mem_takeWhile_imp hc,h⟩
  · rintro ⟨blanks,rest,rfl,hblanks,hrest⟩
    rw [List.dropWhile_append_of_pos hblanks]
    suffices rest.dropWhile isBlank = rest by rwa [this]
    obtain ⟨-,rfl⟩ | ⟨c,hc,hend⟩ := hrest
    · rfl
    · have hnoblank : isBlank c = false := by
        obtain rfl | ⟨-,hmem⟩ := hend
        · rfl
        · have hall : ∀ c ∈ [',','\x7d',']'], isBlank c = false := forall_mem_of_all (by decide)
          exact hall c hmem
      cases rest with
      | nil => cases hc
      | cons d rest =>
        obtain rfl : d = c := by simpa using hc
        exact List.dropWhile_cons_of_neg (by simp [hnoblank])

def spelledAt (rest : Str) (flow : Bool) (candidate : Str) : Bool :=
  candidate.isPrefixOf rest && yamlScalarBoundaryMatches (rest.drop candidate.length) flow

theorem renderYamlScalarLike_breaks {token value text : Str} {flow : Bool}
    (h : renderYamlScalarLike token value flow = .ok text) : '\n' ∉ value ∧ '\r' ∉ value := by
  unfold renderYamlScalarLike at h
  dsimp only at h
  split at h
  · exact absurd h (refuse_ne_ok _ _)
  next hbreak =>
    simpa using hbreak

theorem renderYamlScalarLike_quoted {value : Str} (h : '\n' ∉ value ∧ '\r' ∉ value) (flow : Bool) :
    renderYamlScalarLike ['"'] value flow =
      .ok ('"' :: (value.flatMap fun c => if c = '\\' || c = '"' then ['\\',c] else [c]) ++ ['"']) := by
  unfold renderYamlScalarLike
  dsimp only
  rw [if_neg (by simpa using h)]
  rfl

theorem yamlScalarSourceRewrite_ok {source expected replacement : Str} {location : Location} {flow : Bool}
    {rewrite : SpanRewrite} {line : SourceLine} (hline : sourceLine source location.line = some line)
    (hcol : location.col < line.body.length) :
    yamlScalarSourceRewrite source location expected replacement flow = .ok rewrite ↔
      ('\n' ∉ expected ∧ '\r' ∉ expected) ∧ ∃ token text, token ≠ [] ∧
        (scalarSpellings expected).find? (spelledAt (line.body.drop location.col) flow) = some token ∧
        renderYamlScalarLike token replacement flow = .ok text ∧
        rewrite = ⟨line.start + location.col,line.start + location.col + token.length,text⟩ := by
  have hread : readSourceLine source location.line = .ok line := by rw [readSourceLine,hline]
  unfold yamlScalarSourceRewrite
  constructor
  · intro h
    obtain ⟨line',hline',h⟩ := bind_eq_ok.mp h
    cases hread.symm.trans hline'
    dsimp only at h
    rw [if_neg (Nat.not_le_of_lt hcol)] at h
    obtain ⟨doubleQuoted,hdouble,h⟩ := bind_eq_ok.mp h
    obtain rfl := renderYamlScalarLike_double hdouble
    generalize hfind : List.find? _ _ = found at h
    split at h
    · exact absurd h (refuse_bind _ _ _)
    next htoken =>
    obtain ⟨text,htext,h⟩ := bind_eq_ok.mp h
    cases h
    cases found with
    | none => exact absurd rfl htoken
    | some token => exact ⟨renderYamlScalarLike_breaks hdouble,token,text,htoken,hfind,htext,rfl⟩
  · rintro ⟨hbreak,token,text,hne,hfind,htext,rfl⟩
    refine bind_eq_ok.mpr ⟨line,hread,?_⟩
    dsimp only
    rw [if_neg (Nat.not_le_of_lt hcol)]
    refine bind_eq_ok.mpr ⟨_,renderYamlScalarLike_quoted hbreak false,?_⟩
    generalize hfound : List.find? _ _ = found
    obtain rfl : found = some token := hfound.symm.trans hfind
    rw [Option.getD_some,if_neg hne]
    exact bind_eq_ok.mpr ⟨text,htext,rfl⟩

/-! Which token a spelling of the value stands for. -/

section
variable {flow : Bool} {blanks ends rest : Str} (hblanks : ∀ c ∈ blanks, isBlank c = true) (hends : EndsAt flow ends)
  (hrest : ∀ c ∈ rest.head?, Yaml.isBreak c = true)
include hblanks hends hrest

/-- No quote follows where a scalar may end. -/
theorem head_ne_quote {quote : Char} (hquote : quote ∈ ['\'','"']) : (blanks ++ (ends ++ rest)).head? ≠ some quote := by
  have hall : ∀ c ∈ ['\'','"'], isBlank c = false ∧ Yaml.isBreak c = false ∧ c ∉ ['#',',','\x7d',']'] :=
    forall_mem_of_all (by decide)
  obtain ⟨hblank,hbreak,hend⟩ := hall quote hquote
  intro hhead
  cases blanks with
  | cons c blanks =>
    obtain rfl : c = quote := by simpa using hhead
    rw [hblanks _ List.mem_cons_self] at hblank
    cases hblank
  | nil =>
    obtain ⟨-,rfl⟩ | ⟨c,hc,hc'⟩ := hends
    · rw [hrest _ hhead] at hbreak
      cases hbreak
    · cases ends with
      | nil => cases hc
      | cons d ends =>
        obtain rfl : d = c := by simpa using hc
        obtain rfl : d = quote := by simpa using hhead
        obtain rfl | ⟨-,hmem⟩ := hc'
        · exact hend List.mem_cons_self
        · exact hend (List.mem_cons_of_mem _ hmem)

theorem found_single {body value after found : Str} (h : Yaml.SingleBody body value)
    (hfound : found ∈ scalarSpellings value)
    (htext : '\'' :: (body ++ '\'' :: after) = found ++ (blanks ++ (ends ++ rest))) :
    found = '\'' :: (body ++ ['\'']) := by
  have hquote := head_ne_quote hblanks hends hrest (List.mem_cons_self : '\'' ∈ ['\'','"'])
  simp only [scalarSpellings,List.mem_cons,List.not_mem_nil,or_false] at hfound
  obtain rfl | rfl | rfl := hfound
  · -- a quote is behind the value as it is, and no scalar ends before a quote
    have hlength : found.length ≤ ('\'' :: body).length := by
      have hbody := h.length_singleInner_le
      have hinner := Yaml.length_le_singleInner found
      rw [List.length_cons]
      omega
    have hstart : found <+: '\'' :: body := by
      refine List.prefix_of_prefix_length_le ⟨_,htext.symm⟩ ?_ hlength
      exact ⟨'\'' :: after,rfl⟩
    obtain ⟨behind,hbehind⟩ : ∃ behind, List.replicate 1 '\'' ++ body = found ++ '\'' :: behind := h.quote_behind hstart
    have hsplit : found ++ ('\'' :: behind ++ '\'' :: after) = found ++ (blanks ++ (ends ++ rest)) := by
      rw [← htext,← List.append_assoc,← hbehind]
      rfl
    rw [← List.append_cancel_left hsplit] at hquote
    exact absurd rfl hquote
  · have hbody : body ++ '\'' :: after = Yaml.singleInner value ++ '\'' :: (blanks ++ (ends ++ rest)) :=
      (List.cons.inj htext).2.trans (List.append_assoc _ _ _)
    rw [h.eq_written hquote hbody]
    rfl
  · exact absurd (List.cons.inj htext).1 (by decide)

theorem found_double {body value after found : Str} (h : Yaml.DoubleBody body value)
    (hvalue : ∀ c ∈ value, Yaml.isBreak c = false) (hfound : found ∈ scalarSpellings value) (hne : found ≠ [])
    (htext : '"' :: (body ++ '"' :: after) = found ++ (blanks ++ (ends ++ rest))) :
    found = '"' :: (body ++ ['"']) ∨ (flow = false ∧ found = value ∧ blanks = [] ∧ ends = []) := by
  simp only [scalarSpellings,List.mem_cons,List.not_mem_nil,or_false] at hfound
  obtain rfl | rfl | rfl := hfound
  · obtain ⟨hflow,rfl⟩ | ⟨c,hc,hend⟩ := hends
    · exact .inr ⟨hflow,rfl,h.no_blanks hne hvalue hblanks hrest htext,rfl⟩
    · obtain ⟨tail,rfl⟩ : ∃ tail, ends = c :: tail := by
        cases ends with
        | nil => cases hc
        | cons d tail =>
          obtain rfl : d = c := by simpa using hc
          exact ⟨tail,rfl⟩
      have hboundary : c ∈ ['#',',','\x7d',']'] :=
        hend.elim (fun h => h ▸ List.mem_cons_self) fun h => List.mem_cons_of_mem _ h.2
      exact (h.no_boundary hne hvalue hblanks hboundary htext).elim
  · exact absurd (List.cons.inj htext).1 (by decide)
  · have hbody : body ++ '"' :: after = Yaml.doubleInner value ++ '"' :: (blanks ++ (ends ++ rest)) :=
      (List.cons.inj htext).2.trans (List.append_assoc _ _ _)
    rw [h.eq_written hbody]
    exact .inl rfl

end

theorem found_plain {flow : Bool} {c : Char} {line lines value after found behind : Str}
    (hfirst : Yaml.PlainFirst flow c line) (h : Yaml.PlainLines flow lines value)
    (hvalue : ∀ d ∈ value, Yaml.isBreak d = false) (hfound : found ∈ scalarSpellings (c :: line ++ value))
    (htext : c :: line ++ (lines ++ after) = found ++ behind) : found = c :: line ++ lines := by
  obtain ⟨hsingle,hdouble⟩ := hfirst.ne_quote
  simp only [scalarSpellings,List.mem_cons,List.not_mem_nil,or_false] at hfound
  obtain rfl | rfl | rfl := hfound
  · rw [List.append_assoc] at htext
    obtain ⟨rfl,rfl⟩ := h.eq_nil hvalue ⟨behind,(List.append_cancel_left htext).symm⟩
    rfl
  · exact absurd (List.cons.inj htext).1 hsingle
  · exact absurd (List.cons.inj htext).1 hdouble

theorem line_of_breaks {value : Str} (h : '\n' ∉ value ∧ '\r' ∉ value) : ∀ c ∈ value, Yaml.isBreak c = false := by
  intro c hc
  simp only [Yaml.isBreak,Bool.or_eq_false_iff,decide_eq_false_iff_not]
  refine ⟨?_,?_⟩
  · rintro rfl
    exact h.1 hc
  · rintro rfl
    exact h.2 hc

section
variable {source token value after : Str} {location : Location} {line : SourceLine} {flow : Bool}
  (h : TokenAt source location line flow token value after)
include h

/-- The rest of the line stands in the source up to a line break. -/
theorem TokenAt.exists_behind : ∃ rest, token ++ after = line.body.drop location.col ++ rest ∧
    ∀ c ∈ rest.head?, Yaml.isBreak c = true := by
  obtain ⟨ending,behind,hline⟩ := isLine h.at_line
  refine ⟨ending ++ behind,?_,?_⟩
  · rw [← h.text,← List.drop_drop,hline.text,List.drop_append_of_le_length h.inside.le]
  · intro c hc
    cases ending with
    | nil =>
      rw [hline.rest c hc]
      rfl
    | cons d ending =>
      obtain rfl : d = c := by simpa using hc
      rw [hline.carriage d List.mem_cons_self]
      rfl

/-- A spelling of the value where a scalar starts is the scalar, or the scalar is misread. -/
theorem TokenAt.found_eq {found : Str} (hbreak : '\n' ∉ value ∧ '\r' ∉ value) (hfound : found ∈ scalarSpellings value)
    (hne : found ≠ []) (hspelled : spelledAt (line.body.drop location.col) flow found = true) :
    found = token ∨ (Misread line location flow token value ∧ found = value) := by
  obtain ⟨rest,hsource,hrest⟩ := h.exists_behind
  have hvalue := line_of_breaks hbreak
  rw [spelledAt,Bool.and_eq_true,List.isPrefixOf_iff_prefix,yamlScalarBoundaryMatches_iff] at hspelled
  obtain ⟨⟨tail,htail⟩,blanks,ends,htail',hblanks,hends⟩ := hspelled
  rw [← htail,List.drop_left] at htail'
  rw [← htail,htail',List.append_assoc,List.append_assoc] at hsource
  obtain ⟨-,-,-,hscalar⟩ := h
  cases hscalar with
  | @plain c text lines value hfirst hfrom hlines =>
    rw [List.append_assoc] at hsource
    exact .inl (found_plain hfirst hlines (List.forall_mem_append.mp hvalue).2 hfound hsource)
  | @single body value hbody =>
    rw [List.cons_append,List.append_assoc] at hsource
    exact .inl (found_single hblanks hends hrest hbody hfound hsource)
  | @double body value hbody =>
    rw [List.cons_append,List.append_assoc] at hsource
    obtain heq | ⟨hflow,rfl,rfl,rfl⟩ := found_double hblanks hends hrest hbody hvalue hfound hne hsource
    · exact .inl heq
    · refine .inr ⟨⟨hflow,rfl,?_,hbreak.2⟩,rfl⟩
      rw [← htail,htail']
      simp

end

/-! The rewrite of a label's value. -/

theorem replacesToken_of_start {source token value after text : Str} {offset : ℕ} {flow : Bool}
    (htext : source.drop offset = token ++ after) (hwritten : ReadsBack flow text value)
    (hquotes : SameQuotes token text) :
    ReplacesToken source offset flow token value after ⟨offset,offset + token.length,text⟩ where
  start := rfl
  stop := rfl
  written := hwritten
  quotes := hquotes
  around := by
    rw [replaceSpan,← List.drop_drop,htext,List.drop_left,List.append_assoc]

section
variable {source token value after replacement : Str} {location : Location} {line : SourceLine} {flow : Bool}
  (h : TokenAt source location line flow token value after)
include h

/-- What is replaced at a misread token is its first line, up to the length of the value. -/
theorem TokenAt.exists_misread (hmisread : Misread line location flow token value)
    (hrender : ∃ text, renderYamlScalarLike value replacement flow = .ok text ∧ ReadsBack flow text replacement ∧
      SameQuotes value text) :
    ∃ rewrite, yamlScalarSourceRewrite source location value replacement flow = .ok rewrite ∧
      rewrite.stop = line.start + location.col + value.length := by
  obtain ⟨rfl,-,hvalue,hreturn⟩ := hmisread
  obtain ⟨text,htext,-⟩ := hrender
  obtain ⟨_,_,hline⟩ := isLine h.at_line
  have hne : value ≠ [] := by
    rw [hvalue,Ne,List.drop_eq_nil_iff,Nat.not_le]
    exact h.inside
  have hbreak : '\n' ∉ value := fun hmem => hline.noBreak (List.mem_of_mem_drop (hvalue ▸ hmem))
  have hspelled : spelledAt (line.body.drop location.col) false value = true := by
    rw [← hvalue,spelledAt,List.drop_length]
    simp [yamlScalarBoundaryMatches,blankOrComment]
  have hfind : (scalarSpellings value).find? (spelledAt (line.body.drop location.col) false) = some value := by
    rw [scalarSpellings,List.find?_cons_of_pos hspelled]
  exact ⟨_,(yamlScalarSourceRewrite_ok h.at_line h.inside).mpr ⟨⟨hbreak,hreturn⟩,value,text,hne,hfind,htext,rfl⟩,rfl⟩

/-- A token that is a spelling of its value stands on its line. -/
theorem TokenAt.token_on_line (hspelled : token ∈ scalarSpellings value) (hbreak : '\n' ∉ value ∧ '\r' ∉ value) :
    token <+: line.body.drop location.col := by
  have hvalue := line_of_breaks hbreak
  have htoken : ∀ c ∈ token, Yaml.isBreak c = false := by
    intro c hc
    simp only [scalarSpellings,List.mem_cons,List.not_mem_nil,or_false] at hspelled
    obtain rfl | rfl | rfl := hspelled
    · exact hvalue c hc
    · simp only [List.cons_append,List.mem_cons,List.mem_append,List.not_mem_nil,or_false] at hc
      obtain rfl | hc | rfl := hc
      · rfl
      · exact hvalue c (Yaml.mem_singleInner.mp hc)
      · rfl
    · simp only [List.cons_append,List.mem_cons,List.mem_append,List.not_mem_nil,or_false] at hc
      obtain rfl | hc | rfl := hc
      · rfl
      · obtain rfl | hc := Yaml.mem_doubleInner hc
        · rfl
        · exact hvalue c hc
      · rfl
  obtain ⟨rest,hsource,hrest⟩ := h.exists_behind
  obtain ⟨more,hmore,-⟩ | ⟨more,rfl,hmore⟩ := List.append_eq_append_iff.mp hsource
  · exact ⟨more,hmore.symm⟩
  · cases more with
    | nil => exact ⟨[],by simp⟩
    | cons c more =>
      have hc := hrest c (by rw [hmore]; rfl)
      rw [htoken c (by simp)] at hc
      cases hc

/-- A token that is a spelling of its value is found. -/
theorem TokenAt.exists_found (hspelled : token ∈ scalarSpellings value) (hbreak : '\n' ∉ value ∧ '\r' ∉ value)
    (hfollowed : FollowedBy flow (line.body.drop (location.col + token.length))) :
    ∃ found, found ≠ [] ∧
      (scalarSpellings value).find? (spelledAt (line.body.drop location.col) flow) = some found := by
  have htoken : spelledAt (line.body.drop location.col) flow token = true := by
    rw [spelledAt,Bool.and_eq_true,List.isPrefixOf_iff_prefix,yamlScalarBoundaryMatches_iff,List.drop_drop]
    exact ⟨h.token_on_line hspelled hbreak,hfollowed⟩
  have hsome := List.find?_isSome.mpr ⟨token,hspelled,htoken⟩
  obtain ⟨found,hfound⟩ := Option.isSome_iff_exists.mp hsome
  refine ⟨found,?_,hfound⟩
  rintro rfl
  -- the empty value is not found where the token starts with a quote
  have hvalue : value = [] := by
    have hmem := List.mem_of_find?_eq_some hfound
    simp only [scalarSpellings,List.mem_cons,List.not_mem_nil,or_false] at hmem
    obtain h | h | h := hmem
    · exact h.symm
    · cases h
    · cases h
  obtain ⟨quote,hquote,hhead⟩ := h.scalar.quoted_of_nil hvalue
  obtain ⟨rest,hsource,hrest⟩ := h.exists_behind
  have hempty := List.find?_some hfound
  rw [spelledAt,Bool.and_eq_true,yamlScalarBoundaryMatches_iff] at hempty
  obtain ⟨-,blanks,ends,hline,hblanks,hends⟩ := hempty
  rw [List.length_nil,List.drop_zero] at hline
  rw [hline,List.append_assoc] at hsource
  refine head_ne_quote hblanks hends hrest hquote ?_
  rw [← hsource,List.head?_append,hhead]
  rfl

end

theorem renderYamlScalarLike_mem {token value text : Str} {flow : Bool}
    (h : renderYamlScalarLike token value flow = .ok text) : text ∈ scalarSpellings value := by
  unfold renderYamlScalarLike at h
  dsimp only at h
  split at h
  · exact absurd h (refuse_ne_ok _ _)
  split at h
  · cases h
    exact List.mem_cons_of_mem _ List.mem_cons_self
  split at h
  · cases h
    exact List.mem_cons_of_mem _ (List.mem_cons_of_mem _ List.mem_cons_self)
  cases h
  split
  · exact List.mem_cons_of_mem _ List.mem_cons_self
  · exact List.mem_cons_self

/-- A label's value for valid tags is written as one scalar on one line that reads as the value, whatever token it
is written like; and the rewrite of a value in the source, where it is not refused, replaces the token of the old
value by such a scalar and nothing else, unless the token is misread. A token that the value is spelled by is not
refused. -/
theorem label_scalar_exact_iff {source token old value after : Str} {location : Location} {line : SourceLine}
    {flow : Bool} (hvalue : TagLabel value) (hplace : TokenAt source location line flow token old after) :
    (((∀ style, ∃ text, renderYamlScalarLike style value flow = .ok text ∧ ReadsBack flow text value ∧
          SameQuotes style text) ∧
        ∀ rewrite, yamlScalarSourceRewrite source location old value flow = .ok rewrite →
          ReplacesToken source (line.start + location.col) flow token value after rewrite) ↔
      ¬ Misread line location flow token old) ∧
    ((∃ style, renderYamlScalarLike style old flow = .ok token) →
      FollowedBy flow (line.body.drop (location.col + token.length)) →
      ∃ rewrite, yamlScalarSourceRewrite source location old value flow = .ok rewrite) := by
  have hlegible := legible_of_tagLabel hvalue
  refine ⟨⟨?_,?_⟩,?_⟩
  · rintro ⟨-,hexact⟩ hmisread
    obtain ⟨rewrite,hrewrite,hstop⟩ := hplace.exists_misread hmisread (renderYamlScalarLike_legible hlegible old flow)
    have hlength := hplace.scalar.length_lt hmisread.2.1
    have := (hexact rewrite hrewrite).stop
    omega
  · intro hmisread
    refine ⟨fun style => renderYamlScalarLike_legible hlegible style flow,fun rewrite h => ?_⟩
    obtain ⟨hbreak,found,text,hne,hfind,htext,rfl⟩ := (yamlScalarSourceRewrite_ok hplace.at_line hplace.inside).mp h
    obtain rfl | ⟨h,-⟩ := hplace.found_eq hbreak (List.mem_of_find?_eq_some hfind) hne (List.find?_some hfind)
    · obtain ⟨written,hwritten,hreads,hquotes⟩ := renderYamlScalarLike_legible hlegible found flow
      cases htext.symm.trans hwritten
      exact replacesToken_of_start hplace.text hreads hquotes
    · exact absurd h hmisread
  · rintro ⟨style,hstyle⟩ hfollowed
    have hbreak := renderYamlScalarLike_breaks hstyle
    obtain ⟨found,hne,hfind⟩ := hplace.exists_found (renderYamlScalarLike_mem hstyle) hbreak hfollowed
    obtain ⟨text,htext,-⟩ := renderYamlScalarLike_legible hlegible found flow
    exact ⟨_,(yamlScalarSourceRewrite_ok hplace.at_line hplace.inside).mpr ⟨hbreak,found,text,hne,hfind,htext,rfl⟩⟩

namespace Example

def streamLabel : Str := composeEscapeDollars "^\\d+\\.\\d+\\.\\d+$".toList

theorem streamLabel_regex : LabelRegex "^\\d+\\.\\d+\\.\\d+$".toList :=
  @LabelRegex.stream "1.25.3".toList _ (by decide) (by decide +kernel)

def listSource : Str :=
  "services:\n  web:\n    image: nginx:1.25.3\n    labels: [wud.tag.include=^latest$$ , a=b]\n".toList

def listLine : SourceLine := ⟨41,86,"    labels: [wud.tag.include=^latest$$ , a=b]".toList⟩

def streamEntry : Str := labelText wudTagIncludeLabel streamLabel

def latestEntry : Str := "wud.tag.include=^latest$$".toList

theorem latestEntry_at : TokenAt listSource ⟨3,13⟩ listLine true latestEntry latestEntry " , a=b]\n".toList where
  at_line := by decide +kernel
  inside := by decide
  text := by decide +kernel
  scalar := by
    have hfrom : Yaml.PlainFrom true 'w' "ud.tag.include=^latest$$".toList :=
      Yaml.plainFrom_of_safe rfl (forall_mem_of_all (by decide)) (by decide)
    exact @Yaml.Scalar.plain true 'w' "ud.tag.include=^latest$$".toList [] [] (.inl ⟨rfl,by decide⟩) hfrom .done

theorem latest_entry_replaced :
    ∃ rewrite, yamlScalarSourceRewrite listSource ⟨3,13⟩ latestEntry streamEntry true = .ok rewrite ∧
      ReplacesToken listSource 54 true latestEntry streamEntry " , a=b]\n".toList rewrite := by
  have hlabel : TagLabel streamEntry := .entry (forall_mem_of_all (by decide)) streamLabel_regex
  obtain ⟨hexact,hfound⟩ := label_scalar_exact_iff hlabel latestEntry_at
  have hfollowed : FollowedBy true (listLine.body.drop 38) :=
    ⟨[' '],", a=b]".toList,by decide,forall_mem_of_all (by decide),.inr ⟨',',by decide,.inr ⟨rfl,by decide⟩⟩⟩
  obtain ⟨rewrite,hrewrite⟩ := hfound ⟨[],by decide +kernel⟩ hfollowed
  exact ⟨rewrite,hrewrite,(hexact.mpr fun h => absurd h.1 (by decide)).2 rewrite hrewrite⟩

/-- The label's value is written over two lines, and spelled like the first of them. -/
def joinedSource : Str :=
  "services:\n  web:\n    labels:\n      wud.tag.include: \"\\\"\\\n        \\\\\\\"\\\\\"\n".toList

def joinedToken : Str := "\"\\\"\\\n        \\\\\\\"\\\\\"".toList

def joinedValue : Str := "\"\\\"\\".toList

def joinedLine : SourceLine := ⟨29,56,"      wud.tag.include: \"\\\"\\".toList⟩

theorem joined_at : TokenAt joinedSource ⟨3,23⟩ joinedLine false joinedToken joinedValue ['\n'] where
  at_line := by decide +kernel
  inside := by decide
  text := by decide +kernel
  scalar := by
    have hempty : Yaml.EmptyLines "        \\\\\\\"\\\\".toList 0 "\\\\\\\"\\\\".toList := .done rfl
    have hbody : Yaml.DoubleBody "\\\"\\\n        \\\\\\\"\\\\".toList joinedValue :=
      .escape (by decide) (.joined rfl hempty (.escape (by decide) (.escape (by decide) (.escape (by decide) .done))))
    exact .double hbody

def joinedRewrite : SpanRewrite := ⟨52,56,"\"^\\\\d+\\\\.\\\\d+\\\\.\\\\d+$$\"".toList⟩

/-- Of a value over two lines that is spelled like the first, only the first line is replaced. -/
theorem joined_value_cut : TagLabel streamLabel ∧
    TokenAt joinedSource ⟨3,23⟩ joinedLine false joinedToken joinedValue ['\n'] ∧
    yamlScalarSourceRewrite joinedSource ⟨3,23⟩ joinedValue streamLabel false = .ok joinedRewrite ∧
    joinedRewrite.stop ≠ 52 + joinedToken.length ∧
    ¬ ReplacesToken joinedSource 52 false joinedToken streamLabel ['\n'] joinedRewrite := by
  have hstop : joinedRewrite.stop ≠ 52 + joinedToken.length := by decide +kernel
  exact ⟨.value streamLabel_regex,joined_at,by decide +kernel,hstop,fun h => hstop h.stop⟩

end Example

end Wudup
