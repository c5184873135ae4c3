import Wudup.DigestDocuments
import Wudup.WudFile

/-! The targets of the WUD file: each line is an image and tokens for its tag, digest and platform. -/
namespace Wudup
open Library

def ImagePlatform.value (p : ImagePlatform) : Str :=
  if p.variant ≠ [] then p.os ++ '/' :: p.architecture ++ '/' :: p.variant else p.os ++ '/' :: p.architecture

section
variable (rules : CaseRules)

def parsePlatform (value : Str) : Option ImagePlatform :=
  match ((strip value).splitOn '/').map strip with
  | [osValue,architecture] => platformFromParts rules osValue architecture []
  | [osValue,architecture,variant] =>
    if variant = [] then none else platformFromParts rules osValue architecture variant
  | _ => none

/-! Lines -/

def isShellSpace (c : Char) : Bool := shellSpace.contains c

def firstToken (value : Str) : Str := value.takeWhile fun c => !isShellSpace c

def restTokens (value : Str) : List Str :=
  if trim value = [] then [] else ((trim value).splitOnP isShellSpace).filter (· ≠ [])

/-- A target with the platform it is for. -/
structure PlatformTarget extends WudTarget where
  platform : Option ImagePlatform := none
  deriving DecidableEq, Repr

/-- What the tokens of a line have said so far. -/
structure TargetTokens where
  digest : Str
  desiredTag : Str := []
  tagToken : Str := []
  platform : Option ImagePlatform := none
  platformRaw : Str := []
  platformSeen : Bool := false
  deriving DecidableEq, Repr

def tagPrefix : Str := "tag=".toList
def digestPrefix : Str := "sha256=".toList
def platformPrefix : Str := "platform=".toList

def TargetTokens.read (t : TargetTokens) (token : Str) : TargetTokens :=
  if tagPrefix.isPrefixOf token then
    let desiredTag := token.drop tagPrefix.length
    { t with desiredTag, tagToken := if tagValueValid desiredTag then desiredTag else t.tagToken }
  else if digestPrefix.isPrefixOf token then
    let digestToken := token.drop digestPrefix.length
    if digestToken ≠ [] then { t with digest := normalizeDigest digestToken } else t
  else if platformPrefix.isPrefixOf token then
    let platformRaw := token.drop platformPrefix.length
    { t with platformSeen := true, platformRaw, platform := parsePlatform rules platformRaw }
  else t

def lineNumberText (lineNo : ℕ) : Str := (toString lineNo).toList

/-- The line as a target, with what is ignored of it. -/
def parseTarget (lineNo : ℕ) (raw trimmed : Str) : PlatformTarget × List Str :=
  let first := firstToken trimmed
  let tokens := (restTokens (trimmed.drop first.length)).foldl (TargetTokens.read rules)
    { digest := digestFromImage first }
  let hasTag := imageHasTag first
  let tagWarning := tokens.desiredTag ≠ [] && !tagValueValid tokens.desiredTag
  let imageWarning := tokens.desiredTag ≠ [] && !tagWarning && !hasTag
  let ignored := tagWarning || imageWarning
  let warnings :=
    (if tagWarning then
      ["Ignoring invalid tag value on WUD line ".toList ++ lineNumberText lineNo ++ ": ".toList ++ tokens.desiredTag]
    else []) ++
    (if imageWarning then
      ["Ignoring tag update without a tagged source image on WUD line ".toList ++ lineNumberText lineNo ++
        ": ".toList ++ first]
    else []) ++
    (if tokens.platformSeen && tokens.platform.isNone then
      ["Ignoring invalid platform on WUD line ".toList ++ lineNumberText lineNo ++ ": ".toList ++ tokens.platformRaw]
    else [])
  ({ lineNo
     raw
     first
     key := imageKey first
     repo := repoKey first
     hasTag
     allowRepo := !hasTag
     digest := tokens.digest
     desiredTag := if ignored then [] else tokens.desiredTag
     tagToken := if ignored then [] else tokens.tagToken
     platform := tokens.platform },warnings)

structure ParsedWudFile where
  lines : List WudLine
  targets : List PlatformTarget
  warnings : List Str
  deriving DecidableEq, Repr

/-- The lines, and the targets of those that are selected. -/
def parseWudText (text : Str) (selectedLines : Option (List ℕ)) : ParsedWudFile :=
  let lines := wudLines text
  let chosen := lines.filter fun line =>
    line.actionable && selectedLines.all fun selected => selected.contains line.lineNo
  let targets := chosen.map fun line => parseTarget rules line.lineNo line.raw (trim line.raw)
  { lines
    targets := targets.map (·.1)
    warnings := targets.flatMap (·.2) }

end

/-! What is written as words is read as these words. -/

/-- A word has characters, none of which is a space. -/
structure IsWord (word : Str) : Prop where
  ne_nil : word ≠ []
  no_space : ∀ c ∈ word, isShellSpace c = false

/-- A line of words, one space before each but the first. -/
def wordLine (first : Str) (words : List Str) : Str := first ++ words.flatMap (' ' :: ·)

theorem isShellSpace_eq_false {c : Char} : isShellSpace c = false ↔ c ∉ shellSpace := by
  simp [isShellSpace]

theorem wordLine_nil (first : Str) : wordLine first [] = first := List.append_nil _

theorem wordLine_cons (first word : Str) (words : List Str) :
    wordLine first (word :: words) = first ++ ' ' :: wordLine word words := by
  simp [wordLine]

/-- A line of words ends with the last of them. -/
theorem getLast_wordLine {first : Str} {words : List Str} (hf : IsWord first) (hw : ∀ w ∈ words, IsWord w) :
    ∃ d, (wordLine first words).getLast? = some d ∧ d ∉ shellSpace := by
  induction words generalizing first with
  | nil =>
    rw [wordLine_nil]
    refine ⟨first.getLast hf.ne_nil,List.getLast?_eq_some_getLast hf.ne_nil,?_⟩
    exact isShellSpace_eq_false.mp (hf.no_space _ (List.getLast_mem _))
  | cons word words ih =>
    obtain ⟨d,hd,hns⟩ := ih (hw word (by simp)) fun w hm => hw w (by simp [hm])
    refine ⟨d,?_,hns⟩
    rw [wordLine_cons,List.getLast?_append,List.getLast?_cons,hd]
    rfl

theorem trim_wordLine {first : Str} {words : List Str} (hf : IsWord first) (hw : ∀ w ∈ words, IsWord w) :
    trim (wordLine first words) = wordLine first words := by
  obtain ⟨c,rest,hc⟩ := List.exists_cons_of_ne_nil hf.ne_nil
  have hcs : c ∉ shellSpace := isShellSpace_eq_false.mp (hf.no_space c (by simp [hc]))
  have hhead : (wordLine first words).head? = some c := by simp [wordLine,hc]
  obtain ⟨d,hd,hds⟩ := getLast_wordLine hf hw
  exact stripChars_of_ends hhead hcs hd hds

theorem newline_not_mem_wordLine {first : Str} {words : List Str} (hf : IsWord first) (hw : ∀ w ∈ words, IsWord w) :
    '\n' ∉ wordLine first words := by
  intro hm
  rcases List.mem_append.mp hm with hm | hm
  · exact absurd (hf.no_space _ hm) (by decide)
  · obtain ⟨word,hword,hm⟩ := List.mem_flatMap.mp hm
    rcases List.mem_cons.mp hm with hm | hm
    · exact absurd hm (by decide)
    · exact absurd ((hw word hword).no_space _ hm) (by decide)

theorem firstToken_wordLine {first : Str} {words : List Str} (hf : IsWord first) :
    firstToken (wordLine first words) = first := by
  have hall : ∀ c ∈ first, (!isShellSpace c) = true := by
    intro c hc
    rw [hf.no_space c hc]
    rfl
  unfold firstToken
  cases words with
  | nil =>
    rw [wordLine_nil]
    exact List.takeWhile_eq_self_iff.mpr hall
  | cons word words =>
    rw [wordLine_cons,List.takeWhile_append_of_pos hall,List.takeWhile_cons_of_neg (by decide),List.append_nil]

theorem splitOnP_wordLine {first : Str} {words : List Str} (hf : IsWord first) (hw : ∀ w ∈ words, IsWord w) :
    (wordLine first words).splitOnP isShellSpace = first :: words := by
  induction words generalizing first with
  | nil =>
    rw [wordLine_nil]
    exact List.splitOnP_eq_singleton hf.no_space
  | cons word words ih =>
    rw [wordLine_cons,List.splitOnP_append_cons_of_forall_mem hf.no_space ' ' (by decide),
      ih (hw word (by simp)) fun w hm => hw w (by simp [hm])]

theorem restTokens_wordLine {first : Str} {words : List Str} (hw : ∀ w ∈ words, IsWord w) :
    restTokens ((wordLine first words).drop first.length) = words := by
  rw [wordLine,List.drop_left]
  cases words with
  | nil => rfl
  | cons word words =>
    have hword := hw word (by simp)
    have hwords : ∀ w ∈ words, IsWord w := fun w hm => hw w (by simp [hm])
    have htrim : trim ((word :: words).flatMap (' ' :: ·)) = wordLine word words := by
      have haround : stripChars shellSpace ([' '] ++ wordLine word words ++ []) =
          stripChars shellSpace (wordLine word words) := stripChars_around (forall_mem_of_all rfl) (by simp)
      rw [List.append_nil] at haround
      rw [← trim_wordLine hword hwords,trim,trim,← haround]
      simp [wordLine]
    have hne : wordLine word words ≠ [] := by simp [wordLine,hword.ne_nil]
    rw [restTokens,htrim,if_neg hne,splitOnP_wordLine hword hwords]
    apply List.filter_eq_self.mpr
    intro w hm
    exact decide_eq_true (hw w hm).ne_nil

/-! Tokens -/

section
variable (rules : CaseRules)

theorem read_tag (t : TargetTokens) {tag : Str} (h : tagValueValid tag = true) :
    t.read rules (tagPrefix ++ tag) = { t with desiredTag := tag, tagToken := tag } := by
  have hp : tagPrefix.isPrefixOf (tagPrefix ++ tag) = true := List.isPrefixOf_iff_prefix.mpr (List.prefix_append _ _)
  simp only [TargetTokens.read,hp,if_true,List.drop_left,h]

theorem read_digest (t : TargetTokens) {digest : Str} (h : digest ≠ []) :
    t.read rules (digestPrefix ++ digest) = { t with digest := normalizeDigest digest } := by
  have hp : digestPrefix.isPrefixOf (digestPrefix ++ digest) = true :=
    List.isPrefixOf_iff_prefix.mpr (List.prefix_append _ _)
  have htag : tagPrefix.isPrefixOf (digestPrefix ++ digest) = false := rfl
  simp only [TargetTokens.read,hp,htag,Bool.false_eq_true,if_true,if_false,List.drop_left]
  exact if_pos h

theorem read_platform (t : TargetTokens) (raw : Str) :
    t.read rules (platformPrefix ++ raw) =
      { t with platformSeen := true, platformRaw := raw, platform := parsePlatform rules raw } := by
  have hp : platformPrefix.isPrefixOf (platformPrefix ++ raw) = true :=
    List.isPrefixOf_iff_prefix.mpr (List.prefix_append _ _)
  have htag : tagPrefix.isPrefixOf (platformPrefix ++ raw) = false := rfl
  have hdigest : digestPrefix.isPrefixOf (platformPrefix ++ raw) = false := rfl
  simp only [TargetTokens.read,hp,htag,hdigest,Bool.false_eq_true,if_true,if_false,List.drop_left]

end

/-! Platforms -/

theorem platformComponentChar_plain {c : Char} (h : platformComponentChar c = true) :
    c ∉ whitespace ∧ c ≠ '/' := by
  constructor
  · intro hc
    exact absurd h (by simpa using forall_mem_of_all (p := fun c => platformComponentChar c = false) (by decide) c hc)
  · rintro rfl
    exact absurd h (by decide)

section
variable (rules : CaseRules)

/-- A platform as the parser makes them: valid parts in lower case, none of which is unknown. -/
structure PlainPlatform (p : ImagePlatform) : Prop where
  os : validPlatformComponent p.os = true
  architecture : validPlatformComponent p.architecture = true
  variant : p.variant = [] ∨ validPlatformComponent p.variant = true
  lower : rules.lower p.os = p.os ∧ rules.lower p.architecture = p.architecture ∧ rules.lower p.variant = p.variant
  known : p.os ≠ unknownPlatform ∧ p.architecture ≠ unknownPlatform ∧ p.variant ≠ unknownPlatform

variable {rules} {p : ImagePlatform}

theorem plainPlatform_of_parts (hl : ∀ text, rules.lower (rules.lower text) = rules.lower text)
    {os architecture variant : Str} (h : platformFromParts rules os architecture variant = some p) :
    PlainPlatform rules p := by
  unfold platformFromParts at h
  dsimp only at h
  split at h
  · cases h
  rename_i hos
  split at h
  · cases h
  rename_i harch
  split at h
  · cases h
  rename_i hvariant
  split at h
  · cases h
  rename_i hknown
  cases h
  simp only [Bool.or_eq_true,decide_eq_true_eq,not_or] at hknown
  refine ⟨by simpa using hos,by simpa using harch,?_,⟨hl _,hl _,hl _⟩,⟨hknown.1.1,hknown.1.2,hknown.2⟩⟩
  simp only [Bool.and_eq_true,decide_eq_true_eq,not_and] at hvariant
  by_cases hv : rules.lower (strip variant) = []
  · exact .inl hv
  · exact .inr (by simpa using hvariant hv)

theorem component_plain {value : Str} (h : value = [] ∨ validPlatformComponent value = true) :
    ∀ c ∈ value, c ∉ whitespace ∧ c ≠ '/' := by
  intro c hc
  rcases h with rfl | h
  · cases hc
  · rw [validPlatformComponent,Bool.and_eq_true,List.all_eq_true] at h
    exact platformComponentChar_plain (h.2 c hc)

theorem strip_component {value : Str} (h : value = [] ∨ validPlatformComponent value = true) : strip value = value :=
  stripChars_eq_self fun c hc => (component_plain h c hc).1

theorem platformFromParts_plain (h : PlainPlatform rules p) :
    platformFromParts rules p.os p.architecture p.variant = some p := by
  obtain ⟨hos,harch,hvariant⟩ := h.lower
  have hv : ¬((decide (p.variant ≠ []) && !validPlatformComponent p.variant) = true) := by
    rcases h.variant with hv | hv <;> simp [hv]
  have hknown := h.known
  simp only [platformFromParts,strip_component (.inr h.os),strip_component (.inr h.architecture),
    strip_component h.variant,hos,harch,hvariant,h.os,h.architecture,Bool.not_true,Bool.false_eq_true,if_false,
    if_neg hv,hknown.1,hknown.2.1,hknown.2.2,decide_false,Bool.or_false]

/-- The parts of a platform between the slashes. -/
def platformParts (p : ImagePlatform) : List Str :=
  if p.variant ≠ [] then [p.os,p.architecture,p.variant] else [p.os,p.architecture]

theorem platform_value_eq (p : ImagePlatform) : p.value = ['/'].intercalate (platformParts p) := by
  unfold ImagePlatform.value platformParts
  split <;> simp [List.intercalate]

theorem mem_platformParts (h : PlainPlatform rules p) {part : Str} (hp : part ∈ platformParts p) :
    part = [] ∨ validPlatformComponent part = true := by
  unfold platformParts at hp
  split at hp
  · simp only [List.mem_cons,List.not_mem_nil,or_false] at hp
    rcases hp with rfl | rfl | rfl
    · exact .inr h.os
    · exact .inr h.architecture
    · exact h.variant
  · simp only [List.mem_cons,List.not_mem_nil,or_false] at hp
    rcases hp with rfl | rfl
    · exact .inr h.os
    · exact .inr h.architecture

theorem platform_value_no_space (h : PlainPlatform rules p) : ∀ c ∈ p.value, c ∉ whitespace := by
  intro c hc
  have hparts : c ∈ p.os ∨ c = '/' ∨ c ∈ p.architecture ∨ c ∈ p.variant := by
    unfold ImagePlatform.value at hc
    split at hc <;> simp only [List.mem_append,List.mem_cons] at hc <;> tauto
  rcases hparts with hc | rfl | hc | hc
  · exact (component_plain (.inr h.os) c hc).1
  · decide
  · exact (component_plain (.inr h.architecture) c hc).1
  · exact (component_plain h.variant c hc).1

/-- A platform is read back from its value. -/
theorem parsePlatform_value (h : PlainPlatform rules p) : parsePlatform rules p.value = some p := by
  have hsplit : p.value.splitOn '/' = platformParts p := by
    rw [platform_value_eq]
    apply List.splitOn_intercalate
    · intro part hp hc
      exact (component_plain (mem_platformParts h hp) _ hc).2 rfl
    · unfold platformParts
      split <;> simp
  have hstrip : (platformParts p).map strip = platformParts p := by
    conv_rhs => rw [← List.map_id (platformParts p)]
    apply List.map_congr_left
    exact fun part hp => strip_component (mem_platformParts h hp)
  have hvalue : strip p.value = p.value := stripChars_eq_self (platform_value_no_space h)
  have hparts := platformFromParts_plain h
  unfold parsePlatform
  rw [hvalue,hsplit,hstrip,platformParts]
  by_cases hv : p.variant = []
  · rw [if_neg (by simpa using hv)]
    rw [hv] at hparts
    exact hparts
  · rw [if_pos hv]
    exact (if_neg hv).trans hparts

end

/-! Targets -/

section
variable (rules : CaseRules)

/-- What a line of words says. -/
def wordTokens (first : Str) (words : List Str) : TargetTokens :=
  words.foldl (TargetTokens.read rules) { digest := digestFromImage first }

variable {first : Str} {words : List Str}

/-- A line of words is a target of its first word; its tag counts when it is valid and the image has one. -/
theorem parseTarget_wordLine (lineNo : ℕ) (raw : Str) (hf : IsWord first) (hw : ∀ w ∈ words, IsWord w) :
    let tokens := wordTokens rules first words
    let target := (parseTarget rules lineNo raw (wordLine first words)).1
    target.lineNo = lineNo ∧ target.raw = raw ∧ target.first = first ∧ target.digest = tokens.digest ∧
      target.platform = tokens.platform ∧
      target.desiredTag = if tagValueValid tokens.desiredTag && imageHasTag first then tokens.desiredTag else [] := by
  have hread : (restTokens ((wordLine first words).drop first.length)).foldl (TargetTokens.read rules)
      { digest := digestFromImage first } = wordTokens rules first words := by
    rw [restTokens_wordLine hw]
    rfl
  simp only [parseTarget,firstToken_wordLine hf,hread,true_and]
  cases htag : (wordTokens rules first words).desiredTag with
  | nil => simp
  | cons c tag =>
    cases hvalid : tagValueValid (c :: tag) <;> cases imageHasTag first <;> simp

/-- A line of words is actionable unless it begins like a comment. -/
theorem actionable_wordLine (hf : IsWord first) (hw : ∀ w ∈ words, IsWord w) (hc : first.head? ≠ some '#') :
    actionable (wordLine first words) = true := by
  have hne : wordLine first words ≠ [] := by
    intro h
    exact hf.ne_nil (List.append_eq_nil_iff.mp h).1
  have hcomment : ['#'].isPrefixOf (wordLine first words) = false := by
    obtain ⟨c,rest,rfl⟩ := List.exists_cons_of_ne_nil hf.ne_nil
    have hne : ('#' == c) = false := by
      rw [beq_eq_false_iff_ne]
      rintro rfl
      exact hc rfl
    rw [wordLine,List.cons_append,List.isPrefixOf,hne,Bool.false_and]
  simp [actionable,trim_wordLine hf hw,hne,hcomment]

end

end Wudup
