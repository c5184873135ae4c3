import Wudup.PendingSources

/-! The pending lines are read back as the containers they were written from. -/
namespace Wudup
open Library

/-- The line asks for a tag. -/
def rendersTag (c : WudApiContainer) : Bool :=
  tagValueValid c.remoteTag && (c.updateKind = tagKind || c.remoteDigest = [])

/-- The line asks for a digest of the image. -/
def rendersDigest (c : WudApiContainer) : Bool :=
  !(c.updateKind = tagKind && tagValueValid c.remoteTag) && c.remoteDigest ≠ []

/-- The image as the line of the container has it. -/
def lineImage (c : WudApiContainer) : Str :=
  if rendersDigest c then pendingImageWithDigest c.image c.remoteDigest else c.image

def tagWords (c : WudApiContainer) : List Str := if rendersTag c then [tagPrefix ++ c.remoteTag] else []

def platformWords (c : WudApiContainer) : List Str := c.platform.toList.map fun p => platformPrefix ++ p.value

def digestWords (c : WudApiContainer) : List Str :=
  if rendersTag c && c.remoteDigest ≠ [] then [digestPrefix ++ normalizeDigest c.remoteDigest] else []

def lineWords (c : WudApiContainer) : List Str := tagWords c ++ platformWords c ++ digestWords c

/-- What is in lower case stays as it is. -/
def LowersOnce (rules : CaseRules) : Prop := ∀ text, rules.lower (rules.lower text) = rules.lower text

/-- A container as WUD reports them: no spaces and no second `@` where a line would hide it. -/
structure PlainContainer (rules : CaseRules) (c : WudApiContainer) : Prop where
  image : ∀ x ∈ c.image, x ∉ whitespace
  remoteDigest : ∀ x ∈ c.remoteDigest, x ∉ whitespace
  noComment : c.image.head? ≠ some '#'
  platform : ∀ p, c.platform = some p →
    ∃ os architecture variant, platformFromParts rules os architecture variant = some p
  digestPart : c.remoteDigest.count '@' ≤ 1
  basePart : rendersDigest c = true → (stripDigest c.image).count '@' ≤ 1

theorem PlainContainer.plainPlatform {rules : CaseRules} {c : WudApiContainer} {p : ImagePlatform}
    (h : PlainContainer rules c) (hl : LowersOnce rules) (hp : c.platform = some p) : PlainPlatform rules p := by
  obtain ⟨os,architecture,variant,hparts⟩ := h.platform p hp
  exact plainPlatform_of_parts hl hparts

/-! Words -/

theorem shellSpace_subset_whitespace : ∀ x ∈ shellSpace, x ∈ whitespace := forall_mem_of_all (by decide)

theorem isShellSpace_of_not_whitespace {x : Char} (h : x ∉ whitespace) : isShellSpace x = false :=
  isShellSpace_eq_false.mpr fun hs => h (shellSpace_subset_whitespace x hs)

theorem isWord_append {head rest : Str} (hh : IsWord head) (hr : ∀ x ∈ rest, isShellSpace x = false) :
    IsWord (head ++ rest) := by
  constructor
  · exact fun h => hh.ne_nil (List.append_eq_nil_iff.mp h).1
  · intro x hx
    rcases List.mem_append.mp hx with hx | hx
    · exact hh.no_space x hx
    · exact hr x hx

theorem isWord_of_decide {word : Str} (h : (word ≠ [] && word.all fun x => !isShellSpace x) = true) : IsWord word := by
  rw [Bool.and_eq_true,decide_eq_true_eq,List.all_eq_true] at h
  exact ⟨h.1,fun x hx => by simpa using h.2 x hx⟩

theorem tag_no_space {tag : Str} (h : tagValueValid tag = true) : ∀ x ∈ tag, isShellSpace x = false := by
  intro x hx
  apply isShellSpace_eq_false.mpr
  intro hs
  have hnone : ∀ y ∈ shellSpace, (tagWordChar y || y = '.' || y = '-') = false :=
    forall_mem_of_all (by decide)
  exact absurd ((tagChar_of_valid h x hx).symm.trans (hnone x hs)) (by decide)

theorem normalizeDigest_no_space {digest : Str} (h : ∀ x ∈ digest, x ∉ whitespace) :
    ∀ x ∈ normalizeDigest digest, isShellSpace x = false := by
  intro x hx
  rcases mem_normalizeDigest hx with hx | hx
  · have hprefix : ∀ y ∈ sha256Prefix, isShellSpace y = false := forall_mem_of_all (by decide)
    exact hprefix x hx
  · exact isShellSpace_of_not_whitespace (h x hx)

section
variable {rules : CaseRules} {c : WudApiContainer} (h : PlainContainer rules c)
include h

theorem isWord_image (hi : c.image ≠ []) : IsWord c.image :=
  ⟨hi,fun x hx => isShellSpace_of_not_whitespace (h.image x hx)⟩

theorem isWord_lineImage (hi : c.image ≠ []) : IsWord (lineImage c) := by
  unfold lineImage
  split
  · constructor
    · simp [pendingImageWithDigest]
    · intro x hx
      rcases List.mem_append.mp hx with hx | hx
      · exact isShellSpace_of_not_whitespace (h.image x ((stripDigest_isPrefix _).subset hx))
      · rcases List.mem_cons.mp hx with rfl | hx
        · decide
        · exact normalizeDigest_no_space h.remoteDigest x hx
  · exact isWord_image h hi

theorem isWord_lineWords (hl : LowersOnce rules) : ∀ w ∈ lineWords c, IsWord w := by
  intro w hw
  rcases List.mem_append.mp hw with hw | hw
  · rcases List.mem_append.mp hw with hw | hw
    · unfold tagWords at hw
      split at hw
      · rename_i ht
        obtain rfl := List.mem_singleton.mp hw
        rw [rendersTag,Bool.and_eq_true] at ht
        exact isWord_append (isWord_of_decide (by decide)) (tag_no_space ht.1)
      · cases hw
    · obtain ⟨p,hp,rfl⟩ := List.mem_map.mp hw
      apply isWord_append (isWord_of_decide (by decide))
      intro x hx
      exact isShellSpace_of_not_whitespace (platform_value_no_space (h.plainPlatform hl (by simpa using hp)) x hx)
  · unfold digestWords at hw
    split at hw
    · obtain rfl := List.mem_singleton.mp hw
      exact isWord_append (isWord_of_decide (by decide)) (normalizeDigest_no_space h.remoteDigest)
    · cases hw

/-- The image of a line begins as the container's does, or with the digest. -/
theorem head_lineImage : (lineImage c).head? ≠ some '#' := by
  unfold lineImage
  split
  · obtain ⟨rest,hrest⟩ := stripDigest_isPrefix c.image
    have hcomment := h.noComment
    unfold pendingImageWithDigest
    cases hs : stripDigest c.image with
    | nil =>
      rw [List.nil_append,List.head?_cons]
      decide
    | cons d base =>
      rw [← hrest,hs] at hcomment
      exact hcomment
  · exact h.noComment

/-- The line is its image and its words. -/
theorem containerPendingLine_eq (hi : c.image ≠ []) : containerPendingLine c = wordLine (lineImage c) (lineWords c) := by
  have hstrip : strip c.image = c.image := stripChars_eq_self h.image
  have htag : " tag=".toList = ' ' :: tagPrefix := rfl
  have hplatform : " platform=".toList = ' ' :: platformPrefix := rfl
  have hdigest : " sha256=".toList = ' ' :: digestPrefix := rfl
  unfold containerPendingLine lineWords tagWords platformWords digestWords lineImage rendersTag rendersDigest
  rw [hstrip]
  dsimp only
  rw [if_neg hi,htag,hplatform]
  unfold digestMetadataSuffix
  rw [hdigest]
  cases hp : c.platform <;> by_cases hk : c.updateKind = tagKind <;>
    cases hv : tagValueValid c.remoteTag <;> by_cases hd : c.remoteDigest = [] <;> simp [wordLine,hk,hd]

end

/-! Lines -/

section
variable {rules : CaseRules} {c : WudApiContainer}

/-- What the words of a line leave as its digest. -/
def lineDigest (c : WudApiContainer) : Str :=
  if c.remoteDigest ≠ [] then normalizeDigest c.remoteDigest else digestFromImage c.image

theorem digestFromImage_lineImage (h : PlainContainer rules c) (hd : rendersDigest c = true) :
    digestFromImage (lineImage c) = normalizeDigest c.remoteDigest := by
  have hne : c.remoteDigest ≠ [] := by
    rw [rendersDigest,Bool.and_eq_true,decide_eq_true_eq] at hd
    exact hd.2
  rw [lineImage,if_pos hd]
  exact digestFromImage_append (h.basePart hd) (normalDigest_normalizeDigest hne h.digestPart)

theorem read_tagWords (digest : Str) : (tagWords c).foldl (TargetTokens.read rules) { digest } =
    { digest
      desiredTag := if rendersTag c then c.remoteTag else []
      tagToken := if rendersTag c then c.remoteTag else [] } := by
  unfold tagWords
  cases ht : rendersTag c with
  | true =>
    rw [rendersTag,Bool.and_eq_true] at ht
    exact read_tag rules _ ht.1
  | false => rfl

theorem read_platformWords (hl : LowersOnce rules) (h : PlainContainer rules c) {t : TargetTokens}
    (ht : t.platform = none) : ∃ t', (platformWords c).foldl (TargetTokens.read rules) t = t' ∧
      t'.digest = t.digest ∧ t'.desiredTag = t.desiredTag ∧ t'.platform = c.platform := by
  unfold platformWords
  cases hp : c.platform with
  | none => exact ⟨t,rfl,rfl,rfl,ht⟩
  | some p => exact ⟨_,read_platform rules t p.value,rfl,rfl,parsePlatform_value (h.plainPlatform hl hp)⟩

/-- The digest is read from its word, or was already read from the image. -/
theorem read_digestWords (h : PlainContainer rules c) {t : TargetTokens}
    (hbase : t.digest = digestFromImage (lineImage c)) :
    (digestWords c).foldl (TargetTokens.read rules) t = { t with digest := lineDigest c } := by
  unfold digestWords
  by_cases hd : c.remoteDigest = []
  · have himage : lineImage c = c.image := by simp [lineImage,rendersDigest,hd]
    rw [himage] at hbase
    simp [lineDigest,hd,← hbase]
  · have hnormal := normalDigest_normalizeDigest hd h.digestPart
    have hne : normalizeDigest c.remoteDigest ≠ [] := by
      intro hnil
      rw [hnil] at hnormal
      exact absurd (List.prefix_nil.mp hnormal.1) (by decide)
    cases hr : rendersTag c with
    | true =>
      simp only [hd,ne_eq,not_false_eq_true,decide_true,Bool.and_true,if_true,List.foldl_cons,List.foldl_nil]
      rw [read_digest rules t hne,hnormal.normalize]
      simp [lineDigest,hd]
    | false =>
      have hrenders : rendersDigest c = true := by
        rw [rendersTag] at hr
        cases hv : tagValueValid c.remoteTag <;> by_cases hk : c.updateKind = tagKind <;>
          simp_all [rendersDigest]
      rw [digestFromImage_lineImage h hrenders] at hbase
      simp [lineDigest,hd,← hbase]

/-- The tokens of the line are what the container says. -/
theorem wordTokens_lineWords (hl : LowersOnce rules) (h : PlainContainer rules c) :
    let tokens := wordTokens rules (lineImage c) (lineWords c)
    tokens.digest = lineDigest c ∧ tokens.desiredTag = (if rendersTag c then c.remoteTag else []) ∧
      tokens.platform = c.platform := by
  have htag := @read_tagWords rules c (digestFromImage (lineImage c))
  obtain ⟨t,ht,htd,htt,htp⟩ := read_platformWords hl h (congrArg TargetTokens.platform htag)
  have hdigest := read_digestWords h (htd.trans (congrArg TargetTokens.digest htag))
  have hall : wordTokens rules (lineImage c) (lineWords c) = { t with digest := lineDigest c } := by
    rw [wordTokens,lineWords,List.foldl_append,List.foldl_append,ht,hdigest]
  rw [hall]
  exact ⟨rfl,htt.trans (congrArg TargetTokens.desiredTag htag),htp⟩

end

/-! Lines of containers -/

/-- A line of one of the containers, which may have got an older status. -/
structure LineOf (containers : List WudApiContainer) (line : ApiPendingLine) : Prop where
  raw : line.raw = containerPendingLine line.container
  ne_nil : line.raw ≠ []
  container : ∃ c ∈ containers, ∃ status, line.container = { c with metadataStatus := status }

section
variable {containers : List WudApiContainer} {line : ApiPendingLine} {rules : CaseRules}

/-- A line stays one of the containers when only its status and its ids change. -/
theorem LineOf.status (h : LineOf containers line) (status : PendingMetadataStatus) (ids sources : List Str) :
    LineOf containers { line with
      container := { line.container with metadataStatus := status }
      containerIds := ids
      sourceIds := sources } := by
  obtain ⟨c,hc,old,hold⟩ := h.container
  exact ⟨h.raw,h.ne_nil,c,hc,status,by rw [hold]⟩

theorem addPendingContainer_lines {byRaw : List ApiPendingLine} {container : WudApiContainer}
    (hc : container ∈ containers) (h : ∀ line ∈ byRaw, LineOf containers line) :
    ∀ line ∈ addPendingContainer byRaw container, LineOf containers line := by
  intro line hline
  unfold addPendingContainer at hline
  dsimp only at hline
  split at hline
  · exact h line hline
  rename_i hne
  split at hline
  · rcases Keyed.eq_or_mem_of_mem_set hline with rfl | hline
    · exact ⟨rfl,hne,container,hc,container.metadataStatus,rfl⟩
    · exact h line hline
  · rename_i existing hfound
    rcases Keyed.eq_or_mem_of_mem_set hline with rfl | hline
    · exact (h existing (Keyed.mem_of_find hfound).1).status _ _ _
    · exact h line hline

theorem mergeRelated_lineOf (related : List WudApiContainer) (h : LineOf containers line) :
    LineOf containers (mergeRelated related line) := by
  unfold mergeRelated
  induction related generalizing line with
  | nil => exact h
  | cons container related ih =>
    rw [List.foldl_cons]
    apply ih
    split
    · exact h.status _ _ _
    · exact h

theorem addPendingContainers_lines {xs : List WudApiContainer} (hx : ∀ c ∈ xs, c ∈ containers)
    {byRaw : List ApiPendingLine} (h : ∀ line ∈ byRaw, LineOf containers line) :
    ∀ line ∈ xs.foldl addPendingContainer byRaw, LineOf containers line := by
  induction xs generalizing byRaw with
  | nil => exact h
  | cons c xs ih =>
    rw [List.foldl_cons]
    exact ih (fun d hd => hx d (by simp [hd])) (addPendingContainer_lines (hx c (by simp)) h)

/-- Every pending line is one of the containers. -/
theorem apiPendingLines_lineOf (containers unresolved : List WudApiContainer) :
    ∀ line ∈ apiPendingLines containers unresolved, LineOf containers line := by
  intro line hline
  obtain ⟨base,hbase,rfl⟩ := List.mem_map.mp hline
  apply mergeRelated_lineOf
  apply addPendingContainers_lines (fun c hc => (Keyed.sortedBy_perm containerSortKey containers).subset hc)
    fun line hline => absurd hline List.not_mem_nil
  exact (Keyed.sortedBy_perm _ _).subset hbase

theorem PlainContainer.status {c : WudApiContainer} (h : PlainContainer rules c) (status : PendingMetadataStatus) :
    PlainContainer rules { c with metadataStatus := status } :=
  ⟨h.image,h.remoteDigest,h.noComment,h.platform,h.digestPart,h.basePart⟩

/-- A pending line is the image and the words of a plain container. -/
theorem LineOf.plain (h : LineOf containers line) (hp : ∀ c ∈ containers, PlainContainer rules c) :
    PlainContainer rules line.container ∧ line.container.image ≠ [] ∧
      line.raw = wordLine (lineImage line.container) (lineWords line.container) := by
  obtain ⟨c,hc,status,hcontainer⟩ := h.container
  have hplain : PlainContainer rules line.container := hcontainer ▸ (hp c hc).status status
  have himage : line.container.image ≠ [] := by
    intro hnil
    apply h.ne_nil
    rw [h.raw,containerPendingLine,hnil]
    rfl
  exact ⟨hplain,himage,h.raw.trans (containerPendingLine_eq hplain himage)⟩

end

/-! The round trip -/

/-- The target says what its container does. -/
structure TargetOf (c : WudApiContainer) (target : PlatformTarget) : Prop where
  first : target.first = lineImage c
  desiredTag : target.desiredTag = if rendersTag c && imageHasTag c.image then c.remoteTag else []
  digest : target.digest = lineDigest c
  platform : target.platform = c.platform

/-- A line of tags has the image as it is. -/
theorem lineImage_of_rendersTag {c : WudApiContainer} (h : rendersTag c = true) : lineImage c = c.image := by
  have hdigest : rendersDigest c = false := by
    rw [rendersTag,Bool.and_eq_true] at h
    cases hk : decide (c.updateKind = tagKind) <;> simp_all [rendersDigest]
  rw [lineImage,hdigest]
  rfl

theorem parseTarget_lineOf {rules : CaseRules} {containers : List WudApiContainer} {line : ApiPendingLine}
    (hl : LowersOnce rules) (h : LineOf containers line) (hp : ∀ c ∈ containers, PlainContainer rules c) (lineNo : ℕ) :
    let target := (parseTarget rules lineNo line.raw (trim line.raw)).1
    target.lineNo = lineNo ∧ target.raw = line.raw ∧ TargetOf line.container target := by
  obtain ⟨hplain,himage,hraw⟩ := h.plain hp
  have hfirst := isWord_lineImage hplain himage
  have hwords := isWord_lineWords hplain hl
  have htrim : trim line.raw = wordLine (lineImage line.container) (lineWords line.container) := by
    rw [hraw,trim_wordLine hfirst hwords]
  obtain ⟨hno,htext,hf,hd,hplatform,htag⟩ := parseTarget_wordLine rules lineNo line.raw hfirst hwords
  obtain ⟨hdigest,hdesired,htokens⟩ := wordTokens_lineWords hl hplain
  rw [htrim]
  refine ⟨hno,htext,hf,htag.trans ?_,hd.trans hdigest,hplatform.trans htokens⟩
  rw [hdesired]
  cases hr : rendersTag line.container with
  | false => simp
  | true =>
    rw [lineImage_of_rendersTag hr]
    rw [rendersTag,Bool.and_eq_true] at hr
    simp [hr.1]

theorem lookup_byLine {α : Type} (f : ApiPendingLine → α) {lines : List ApiPendingLine} {i : ℕ}
    {line : ApiPendingLine} (h : lines[i]? = some line) : (byLine f lines).lookup (i+1) = some (f line) := by
  apply (lookup_eq_some_iff_mem _).mpr
  · exact List.mem_map.mpr ⟨(line,i),List.mem_zipIdx_iff_getElem?.mpr h,rfl⟩
  · have hkeys : (byLine f lines).map (·.1) = (lines.zipIdx.map (·.2)).map (· + 1) := by
      rw [byLine,List.map_map,List.map_map]
      rfl
    rw [hkeys,List.zipIdx_map_snd]
    exact List.Nodup.map (fun a b hab => Nat.succ_injective hab) List.nodup_range'

/-- The text of the pending lines is read line by line: each line is actionable and its target says what its
container does, and its number stands for the line in what the source keeps by line. -/
theorem api_pending_round_trip {rules : CaseRules} (hl : LowersOnce rules) (sha256 : Str → Str)
    {snapshot : WudApiSnapshot} (hm : snapshot.status.metadataAvailable = true)
    (hp : ∀ c ∈ snapshot.containers, PlainContainer rules c) :
    let lines := apiPendingLines snapshot.containers snapshot.unresolvedContainers
    let source := apiSource rules sha256 snapshot
    source.text = joinLines (lines.map (·.raw)) ∧
      source.parsed.lines = lines.zipIdx.map (fun (line,i) => ⟨i+1,true,line.raw⟩) ∧
      List.Forall₂ (fun (line,i) target => target.lineNo = i+1 ∧ target.raw = line.raw ∧
        TargetOf line.container target ∧
        (∃ c ∈ snapshot.containers, ∃ status, line.container = { c with metadataStatus := status }) ∧
        source.metadataByLine.lookup target.lineNo = some line.container ∧
        source.containerIdsByLine.lookup target.lineNo = some line.containerIds ∧
        source.sourceIdsByLine.lookup target.lineNo = some ([','].intercalate line.sourceIds))
          lines.zipIdx source.parsed.targets := by
  intro lines source
  have hlineOf := apiPendingLines_lineOf snapshot.containers snapshot.unresolvedContainers
  have hraw : ∀ line ∈ lines, '\n' ∉ line.raw ∧ actionable line.raw = true := by
    intro line hline
    obtain ⟨hplain,himage,hraw⟩ := (hlineOf line hline).plain hp
    have hfirst := isWord_lineImage hplain himage
    have hwords := isWord_lineWords hplain hl
    rw [hraw]
    exact ⟨newline_not_mem_wordLine hfirst hwords,actionable_wordLine hfirst hwords (head_lineImage hplain)⟩
  have hlines : wudLines (joinLines (lines.map (·.raw))) = lines.zipIdx.map (fun (line,i) => ⟨i+1,true,line.raw⟩) := by
    have hsplit : splitLines (joinLines (lines.map (·.raw))) = lines.map (·.raw) := by
      apply splitLines_joinLines
      intro raw hm
      obtain ⟨line,hline,rfl⟩ := List.mem_map.mp hm
      exact (hraw line hline).1
    rw [wudLines,hsplit,List.zipIdx_map,List.map_map]
    apply List.map_congr_left
    rintro ⟨line,i⟩ hline
    simp [(hraw line (List.fst_mem_of_mem_zipIdx hline)).2]
  have hsource : source = { apiSource rules sha256 snapshot with
      text := joinLines (lines.map (·.raw))
      parsed := parseWudText rules (joinLines (lines.map (·.raw))) none
      metadataByLine := byLine (·.container) lines
      containerIdsByLine := byLine (·.containerIds) lines
      sourceIdsByLine := byLine (fun line => [','].intercalate line.sourceIds) lines } := by
    simp only [source,apiSource,hm,Bool.not_true,Bool.false_eq_true,if_false]
    rfl
  have htargets : source.parsed.targets = lines.zipIdx.map fun (line,i) =>
      (parseTarget rules (i+1) line.raw (trim line.raw)).1 := by
    have hchosen : (lines.zipIdx.map fun ((line : ApiPendingLine),(i : ℕ)) => (⟨i+1,true,line.raw⟩ : WudLine)).filter
        (fun line => line.actionable && (none : Option (List ℕ)).all fun selected => selected.contains line.lineNo) =
          lines.zipIdx.map fun (line,i) => ⟨i+1,true,line.raw⟩ := by
      apply List.filter_eq_self.mpr
      intro line hline
      obtain ⟨entry,-,rfl⟩ := List.mem_map.mp hline
      rfl
    rw [hsource]
    dsimp only [parseWudText]
    rw [hlines,hchosen,List.map_map,List.map_map]
    rfl
  refine ⟨by rw [hsource],by rw [hsource]; exact hlines,?_⟩
  rw [htargets,List.forall₂_map_right_iff,List.forall₂_same]
  rintro ⟨line,i⟩ hentry
  have hline := hlineOf line (List.fst_mem_of_mem_zipIdx hentry)
  have hget : lines[i]? = some line := List.mem_zipIdx_iff_getElem?.mp hentry
  obtain ⟨hno,htext,htarget⟩ := parseTarget_lineOf hl hline hp (i+1)
  dsimp only
  refine ⟨hno,htext,htarget,hline.container,?_,?_,?_⟩
  · rw [hno,hsource]
    exact lookup_byLine _ hget
  · rw [hno,hsource]
    exact lookup_byLine _ hget
  · rw [hno,hsource]
    exact lookup_byLine (fun line => [','].intercalate line.sourceIds) hget

/-! Examples -/

section Example

def reportedContainer (id image remoteTag remoteDigest updateKind : String) : WudApiContainer where
  id := id.toList
  name := id.toList
  displayName := []
  status := "running".toList
  watcher := "docker".toList
  image := image.toList
  localTag := []
  localDigest := []
  remoteTag := remoteTag.toList
  remoteDigest := remoteDigest.toList
  updateKind := updateKind.toList
  semverDiff := []
  link := []
  error := []

def readySnapshot (containers : List WudApiContainer) : WudApiSnapshot where
  status := ⟨.ready,true,true,[],[]⟩
  containers := containers
  metadataChecked := true

theorem toLower_toLower (c : Char) : c.toLower.toLower = c.toLower := by
  unfold Char.toLower
  split
  · rename_i hupper
    apply dif_neg
    rintro ⟨-,hlow⟩
    have hfrom : 65 ≤ c.val.toNat := hupper.1
    have hto : c.val.toNat ≤ 90 := hupper.2
    have hshift : ('a'.val - 'A'.val).toNat = 32 := rfl
    have hshifted : (c.val + ('a'.val - 'A'.val)).toNat ≤ 90 := hlow
    rw [UInt32.toNat_add] at hshifted
    omega
  · rfl

theorem lowersOnce_plainCase : LowersOnce plainCase := by
  intro text
  simp only [plainCase,List.map_map]
  apply List.map_congr_left
  exact fun c _ => toLower_toLower c

def arm64 : ImagePlatform := ⟨"linux".toList,"arm64".toList,"v8".toList⟩

/-- A container of each shape of line. -/
def shapedContainers : List WudApiContainer :=
  [{ reportedContainer "1" "web:1" "2" "sha256:bb" "tag" with platform := some arm64 },
    reportedContainer "2" "app:1@sha256:aa" "2" "sha256:cc" "digest",reportedContainer "3" "db:5" "6" "" "other",
    reportedContainer "4" "cache" "" "" ""]

theorem shaped_round_trip :
    List.Forall₂ (fun (line,i) target => target.lineNo = i+1 ∧ target.raw = line.raw ∧
        TargetOf line.container target ∧
        (∃ c ∈ shapedContainers, ∃ status, line.container = { c with metadataStatus := status }) ∧
        (apiSource plainCase id (readySnapshot shapedContainers)).metadataByLine.lookup target.lineNo =
          some line.container ∧
        (apiSource plainCase id (readySnapshot shapedContainers)).containerIdsByLine.lookup target.lineNo =
          some line.containerIds ∧
        (apiSource plainCase id (readySnapshot shapedContainers)).sourceIdsByLine.lookup target.lineNo =
          some ([','].intercalate line.sourceIds))
      (apiPendingLines shapedContainers []).zipIdx
      (apiSource plainCase id (readySnapshot shapedContainers)).parsed.targets := by
  have hp : ∀ c ∈ (readySnapshot shapedContainers).containers, PlainContainer plainCase c := by
    intro c hc
    have hplatform : ∀ p, c.platform = some p →
        ∃ os architecture variant, platformFromParts plainCase os architecture variant = some p := by
      intro p hp
      have hp : p = arm64 := by
        simp only [readySnapshot,shapedContainers,List.mem_cons,List.not_mem_nil,or_false] at hc
        rcases hc with rfl | rfl | rfl | rfl
        · exact (Option.some.inj hp).symm
        · cases hp
        · cases hp
        · cases hp
      subst hp
      exact ⟨"linux".toList,"arm64".toList,"v8".toList,by decide⟩
    have hall : ∀ c ∈ shapedContainers, c.image.all (· ∉ whitespace) = true ∧
        c.remoteDigest.all (· ∉ whitespace) = true ∧ c.image.head? ≠ some '#' ∧ c.remoteDigest.count '@' ≤ 1 ∧
        (rendersDigest c = true → (stripDigest c.image).count '@' ≤ 1) := by decide +kernel
    obtain ⟨himage,hdigest,hcomment,hpart,hbase⟩ := hall c hc
    exact ⟨forall_mem_of_all himage,forall_mem_of_all hdigest,hcomment,hplatform,hpart,hbase⟩
  exact (api_pending_round_trip lowersOnce_plainCase id rfl hp).2.2

/-- Containers whose digest is not read back: one pinned in its image, and two with a second `@`. -/
def hiddenDigests : List WudApiContainer :=
  [reportedContainer "1" "app:1@sha256:aa" "2" "" "tag",reportedContainer "2" "b:1" "" "x@y@z" "digest",
    reportedContainer "3" "a@b@c" "" "sha256:00" "digest"]

theorem hidden_digests_read_otherwise :
    (∀ c ∈ hiddenDigests, (∀ x ∈ c.image ++ c.remoteDigest, x ∉ whitespace) ∧ c.image.head? ≠ some '#' ∧
      c.remoteDigest.head? ≠ some '#') ∧
    ((apiPendingLines hiddenDigests []).zip
      (apiSource plainCase id (readySnapshot hiddenDigests)).parsed.targets).length = 3 ∧
    ∀ x ∈ (apiPendingLines hiddenDigests []).zip
        (apiSource plainCase id (readySnapshot hiddenDigests)).parsed.targets,
      x.2.digest ≠ normalizeDigest x.1.container.remoteDigest := by
  constructor
  · have hall : ∀ c ∈ hiddenDigests, (c.image ++ c.remoteDigest).all (· ∉ whitespace) = true ∧
        c.image.head? ≠ some '#' ∧ c.remoteDigest.head? ≠ some '#' := by decide +kernel
    intro c hc
    obtain ⟨hspace,hcomments⟩ := hall c hc
    exact ⟨forall_mem_of_all hspace,hcomments⟩
  · decide +kernel

end Example

end Wudup
