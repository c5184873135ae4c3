import Wudup.ExactTags
import Wudup.Library.Decimal
import Wudup.Library.Dict
import Wudup.Library.Traverse
import Wudup.LsioUpdates
import Wudup.RetagPatterns
import Wudup.SchedulerSafety

/-! What names a release, and which offered release a stored skip hides. -/
namespace Wudup
open Library

/-- The end of a pattern matches before a newline that ends the text too. -/
def splitFinalNewline (text : Str) : Str × Str :=
  if text.getLast? = some '\n' then (text.dropLast,['\n']) else (text,[])

/-- What may follow the number of a version tag. -/
def versionTagSuffix : Str → Bool
  | [] => true
  | [_] => false
  | separator :: c :: rest =>
    (separator = '-' || separator = '_' || separator = '+') && c.isAlphanum &&
      rest.all fun d => d.isAlphanum || d = '.' || d = '_' || d = '+' || d = '-'

/-- The number and the suffix of a version that is the whole tag. -/
def versionTag (source : Str) : Option (Str × Str) :=
  let body := if source.head? = some 'v' || source.head? = some 'V' then source.tail else source
  let (number,rest) := versionRun body
  let suffix := (splitFinalNewline rest).1
  if body.head?.any Char.isDigit && versionTagSuffix suffix then some (number,suffix) else none

/-- A version without the package revision at its end. -/
def dropPackageRevision (version : Str) : Str :=
  let (text,newline) := splitFinalNewline version
  match cutLast '-' text with
  | some (left,'r' :: revision) => if revision ≠ [] && revision.all Char.isDigit then left ++ newline else version
  | _ => version

def intDigitsError : Str := "Exceeds the limit (4300 digits) for integer string conversion".toList

/-- The usual text of a number. -/
def decimalText (part : Str) : Except Str Str :=
  match readDecimal part with
  | some n => .ok (Nat.toDigits 10 n)
  | none => .error intDigitsError

def joinDots (parts : List Str) : Str := ['.'].intercalate parts

def releaseVersion (rules : CaseRules) (imageRepo tag : Str) : Except Str Str :=
  let source := strip tag
  let parts := parseLsioTag rules source
  let source :=
    if isLsioRepo rules imageRepo && trustedKind parts.kind then dropPackageRevision parts.upstreamVersion else source
  match versionTag source with
  | none => .ok []
  | some (number,suffix) => do
    let parts ← (number.splitOn '.').mapM decimalText
    return joinDots parts ++ suffix

/-- The versions of tags whose numbers are not too long to be read. -/
def releaseRules (rules : CaseRules) : ReleaseRules :=
  ⟨fun imageRepo tag => (releaseVersion rules imageRepo tag).toOption.getD []⟩

/-- The skips of each service, the newest first. -/
def skipsByService (skips : List ReleaseSkip) : SkipsByService :=
  groupsOf (·.serviceKey) (skips.insertionSort fun a b => skipNewness b ≤ skipNewness a)

/-! Versions as numbers and a suffix. -/

theorem joinDots_cons (part : Str) (parts : List Str) :
    joinDots (part :: parts) = part ++ parts.flatMap ('.' :: ·) := by
  induction parts generalizing part with
  | nil => simp [joinDots]
  | cons next parts ih =>
    rw [joinDots,List.intercalate_cons_cons]
    change part ++ ['.'] ++ joinDots (next :: parts) = _
    rw [ih]
    simp

theorem runText_joinDots {parts : List Str} (hp : ∀ part ∈ parts, part ∈ Regex.numbers) : RunText (joinDots parts) := by
  cases parts with
  | nil => trivial
  | cons part parts =>
    rw [joinDots_cons]
    refine runText_append (runText_numbers (hp part (by simp))) ?_
    have hrest : ∀ number ∈ parts, number ∈ Regex.numbers := fun number h => hp number (List.mem_cons_of_mem _ h)
    clear hp
    induction parts with
    | nil => trivial
    | cons number parts ih =>
      refine runText_append ?_ (ih fun n h => hrest n (List.mem_cons_of_mem _ h))
      exact runText_dotNumber (Language.mem_mul.mpr ⟨['.'],rfl,number,hrest number (by simp),rfl⟩)

theorem head?_joinDots {parts : List Str} (hne : parts ≠ []) (hp : ∀ part ∈ parts, part ∈ Regex.numbers) :
    (joinDots parts).head?.any Char.isDigit = true := by
  obtain ⟨part,parts,rfl⟩ := List.exists_cons_of_ne_nil hne
  obtain ⟨hpart,hd⟩ := hp part (by simp)
  obtain ⟨c,digits,rfl⟩ := List.exists_cons_of_ne_nil hpart
  rw [joinDots_cons]
  exact hd c (by simp)

/-- The numbers of a run, between its dots. -/
theorem exists_parts {run : Str} (hr : RunText run) (hd : run.head?.any Char.isDigit = true) :
    ∃ parts : List Str, parts ≠ [] ∧ (∀ part ∈ parts, part ∈ Regex.numbers) ∧ run = joinDots parts := by
  obtain ⟨digits,hdigits,rest,hrest,rfl⟩ := Language.mem_mul.mp (mem_run (Nat.le_refl _) hr hd)
  obtain ⟨dotted,rfl,hdotted⟩ := Language.mem_kstar.mp hrest
  have hnumbers : ∃ numbers : List Str, (∀ number ∈ numbers, number ∈ Regex.numbers) ∧
      dotted.flatten = numbers.flatMap ('.' :: ·) := by
    clear hr hd hrest
    induction dotted with
    | nil => exact ⟨[],by simp,rfl⟩
    | cons text dotted ih =>
      obtain ⟨numbers,hn,hflat⟩ := ih fun t h => hdotted t (List.mem_cons_of_mem _ h)
      obtain ⟨_,rfl,number,hnumber,rfl⟩ := Language.mem_mul.mp (hdotted text (by simp))
      refine ⟨number :: numbers,by simpa [hnumber] using hn,?_⟩
      rw [List.flatten_cons,hflat,List.flatMap_cons]
      rfl
  obtain ⟨numbers,hn,hflat⟩ := hnumbers
  refine ⟨digits :: numbers,by simp,by simpa [hdigits] using hn,?_⟩
  rw [joinDots_cons,hflat]

theorem dot_not_mem_number {digits : Str} (h : digits ∈ Regex.numbers) : '.' ∉ digits := by
  intro hdot
  cases h.2 '.' hdot

theorem splitOn_joinDots {parts : List Str} (hne : parts ≠ []) (hp : ∀ part ∈ parts, part ∈ Regex.numbers) :
    (joinDots parts).splitOn '.' = parts :=
  List.splitOn_intercalate '.' (fun part h => dot_not_mem_number (hp part h)) hne

/-- A suffix starts with one of its separators. -/
theorem separator_of_suffix {c : Char} {rest : Str} (h : versionTagSuffix (c :: rest) = true) :
    c = '-' ∨ c = '_' ∨ c = '+' := by
  cases rest with
  | nil => cases h
  | cons d rest =>
    simp only [versionTagSuffix,Bool.and_eq_true,Bool.or_eq_true,decide_eq_true_eq] at h
    obtain ⟨⟨(h | h) | h,-⟩,-⟩ := h
    · exact .inl h
    · exact .inr (.inl h)
    · exact .inr (.inr h)

theorem stopsVersion_of_suffix {suffix : Str} (h : versionTagSuffix suffix = true) : StopsVersion suffix := by
  cases suffix with
  | nil => exact .nil
  | cons c rest =>
    have hc := separator_of_suffix h
    refine ⟨ends_cons.mpr ?_,?_⟩
    · obtain rfl | rfl | rfl := hc <;> rfl
    · intro after heq
      obtain ⟨rfl,-⟩ := List.cons.inj heq
      simp at hc

theorem splitFinalNewline_of_not_mem {text : Str} (h : '\n' ∉ text) : splitFinalNewline text = (text,[]) :=
  if_neg fun hlast => h (List.mem_of_getLast? hlast)

theorem newline_not_mem_suffix {suffix : Str} (h : versionTagSuffix suffix = true) : '\n' ∉ suffix := by
  cases suffix with
  | nil => simp
  | cons c rest =>
    cases rest with
    | nil => cases h
    | cons d rest =>
      simp only [versionTagSuffix,Bool.and_eq_true,List.all_eq_true] at h
      intro hn
      simp only [List.mem_cons] at hn
      obtain rfl | rfl | hn := hn
      · exact absurd h.1.1 (by decide)
      · exact absurd h.1.2 (by decide)
      · exact absurd (h.2 _ hn) (by decide)

/-- A version that is the whole tag: a lead, numbers with dots between them and a suffix. -/
structure WholeVersion (tag lead : Str) (parts : List Str) (suffix : Str) : Prop where
  leads : lead = [] ∨ lead = ['v'] ∨ lead = ['V']
  nonempty : parts ≠ []
  numbers : ∀ part ∈ parts, part ∈ Regex.numbers
  suffixed : versionTagSuffix suffix = true
  spelled : tag = lead ++ (joinDots parts ++ suffix)

theorem WholeVersion.versionTag {tag lead suffix : Str} {parts : List Str} (h : WholeVersion tag lead parts suffix) :
    versionTag tag = some (joinDots parts,suffix) := by
  obtain ⟨hlead,hne,hp,hs,rfl⟩ := h
  have hhead := head?_joinDots hne hp
  have hrun := versionRun_append (runText_joinDots hp) (stopsVersion_of_suffix hs)
  have hnewline := splitFinalNewline_of_not_mem (newline_not_mem_suffix hs)
  have hbody : (joinDots parts ++ suffix).head?.any Char.isDigit = true := by
    rw [head?_append_of_ends (stopsVersion_of_suffix hs).1]
    exact hhead
  rw [Wudup.versionTag,drop_version_lead hlead hbody]
  dsimp only
  rw [hrun,hnewline,if_pos (by rw [hbody,hs]; rfl)]

theorem splitFinalNewline_append (text : Str) :
    text = (splitFinalNewline text).1 ++ (splitFinalNewline text).2 ∧
      ((splitFinalNewline text).2 = [] ∨ (splitFinalNewline text).2 = ['\n']) := by
  unfold splitFinalNewline
  split
  · rename_i h
    exact ⟨(List.dropLast_append_getLast? '\n' h).symm,.inr rfl⟩
  · exact ⟨(List.append_nil text).symm,.inl rfl⟩

/-- What is read of a version is a whole version, before a newline or not. -/
theorem exists_wholeVersion {tag number suffix : Str} (h : versionTag tag = some (number,suffix)) :
    ∃ version lead parts newline, WholeVersion version lead parts suffix ∧ number = joinDots parts ∧
      tag = version ++ newline ∧ (newline = [] ∨ newline = ['\n']) := by
  obtain ⟨lead,body,hlead,rfl,hread⟩ := exists_version_lead tag
  rw [versionTag,hread] at h
  dsimp only at h
  split at h
  · rename_i hvalid
    obtain ⟨hdigit,hsuffix⟩ := (Bool.and_eq_true _ _).mp hvalid
    obtain ⟨rfl,rfl⟩ := Prod.mk.inj (Option.some.inj h)
    obtain ⟨htext,hrun,hstop⟩ := versionRun_spec body
    rw [htext,head?_append_of_ends hstop.1] at hdigit
    obtain ⟨parts,hne,hp,hparts⟩ := exists_parts hrun hdigit
    obtain ⟨hrest,hnewline⟩ := splitFinalNewline_append (versionRun body).2
    refine ⟨lead ++ (joinDots parts ++ (splitFinalNewline (versionRun body).2).1),lead,parts,
      (splitFinalNewline (versionRun body).2).2,⟨hlead,hne,hp,hsuffix,rfl⟩,hparts,?_,hnewline⟩
    rw [← hparts,List.append_assoc,List.append_assoc,← hrest,← htext]
  · cases h

/-- A text without newlines is read as a version when it is one. -/
theorem versionTag_eq_some {tag number suffix : Str} (hn : '\n' ∉ tag) : versionTag tag = some (number,suffix) ↔
    ∃ lead parts, WholeVersion tag lead parts suffix ∧ number = joinDots parts := by
  constructor
  · intro h
    obtain ⟨version,lead,parts,newline,hv,hparts,rfl,hnewline⟩ := exists_wholeVersion h
    obtain rfl | rfl := hnewline
    · exact ⟨lead,parts,by simpa using hv,hparts⟩
    · exact absurd (by simp) hn
  · intro h
    obtain ⟨lead,parts,hv,rfl⟩ := h
    exact hv.versionTag

/-! The text of a version in its usual form. -/

def versionText (numbers : List ℕ) (suffix : Str) : Str := joinDots (numbers.map (Nat.toDigits 10)) ++ suffix

theorem toDigits_mem_numbers (n : ℕ) : Nat.toDigits 10 n ∈ Regex.numbers :=
  ⟨Nat.toDigits_ne_nil,fun _ h => Nat.isDigit_of_mem_toDigits (by decide) (by decide) h⟩

theorem mem_toDigits (numbers : List ℕ) : ∀ part ∈ numbers.map (Nat.toDigits 10), part ∈ Regex.numbers := by
  intro part h
  obtain ⟨n,-,rfl⟩ := List.mem_map.mp h
  exact toDigits_mem_numbers n

/-- A version is told from another by its numbers and its suffix. -/
theorem versionText_injective {numbers numbers' : List ℕ} {suffix suffix' : Str} (hne : numbers ≠ [])
    (hne' : numbers' ≠ []) (hs : versionTagSuffix suffix = true) (hs' : versionTagSuffix suffix' = true)
    (h : versionText numbers suffix = versionText numbers' suffix') : numbers = numbers' ∧ suffix = suffix' := by
  have hrun := versionRun_append (runText_joinDots (mem_toDigits numbers)) (stopsVersion_of_suffix hs)
  have hrun' := versionRun_append (runText_joinDots (mem_toDigits numbers')) (stopsVersion_of_suffix hs')
  rw [← versionText] at hrun hrun'
  rw [h,hrun'] at hrun
  obtain ⟨hjoin,hsuffix⟩ := Prod.mk.inj hrun
  refine ⟨?_,hsuffix.symm⟩
  have hparts := congrArg (List.splitOn '.') hjoin
  rw [splitOn_joinDots (by simpa using hne') (mem_toDigits _),
    splitOn_joinDots (by simpa using hne) (mem_toDigits _)] at hparts
  exact (List.map_injective_iff.mpr toDigits_injective hparts).symm

theorem decimalText_of_number {part : Str} (hp : part ∈ Regex.numbers) :
    decimalText part =
      if part.length ≤ maxDigits then .ok (Nat.toDigits 10 (digitsValue part)) else .error intDigitsError := by
  rw [decimalText]
  by_cases hl : part.length ≤ maxDigits
  · rw [readDecimal_of_ascii hp.1 hp.2 hl,if_pos hl]
  · rw [readDecimal,if_pos (by simp [Nat.lt_of_not_le hl]),if_neg hl]

theorem mapM_decimalText {parts : List Str} (hp : ∀ part ∈ parts, part ∈ Regex.numbers)
    (hl : ∀ part ∈ parts, part.length ≤ maxDigits) :
    parts.mapM decimalText = .ok ((parts.map digitsValue).map (Nat.toDigits 10)) := by
  rw [mapM_eq_ok,List.map_map,List.map_map]
  apply List.map_congr_left
  intro part h
  rw [decimalText_of_number (hp part h),if_pos (hl part h)]
  rfl

/-- Numbers that can be read are written in their usual form. -/
theorem eq_of_mapM_decimalText {parts texts : List Str} (hp : ∀ part ∈ parts, part ∈ Regex.numbers)
    (h : parts.mapM decimalText = .ok texts) : texts = (parts.map digitsValue).map (Nat.toDigits 10) := by
  have hl : ∀ part ∈ parts, part.length ≤ maxDigits := by
    intro part hpart
    have hmem : decimalText part ∈ texts.map Except.ok := by
      rw [← mapM_eq_ok.mp h]
      exact List.mem_map_of_mem hpart
    obtain ⟨text,-,htext⟩ := List.mem_map.mp hmem
    rw [decimalText_of_number (hp part hpart)] at htext
    by_contra hlong
    rw [if_neg hlong] at htext
    cases htext
  rw [mapM_decimalText hp hl] at h
  exact (Except.ok.inj h).symm

/-- The version of a release: numbers in their usual form and a suffix. -/
def CanonicalVersion (version : Str) : Prop :=
  ∃ numbers suffix, numbers ≠ [] ∧ versionTagSuffix suffix = true ∧ version = versionText numbers suffix

theorem releaseVersion_eq_ok {rules : CaseRules} {repo tag version : Str}
    (h : releaseVersion rules repo tag = .ok version) : version = [] ∨ CanonicalVersion version := by
  unfold releaseVersion at h
  dsimp only at h
  split at h
  · exact .inl (Except.ok.inj h).symm
  · rename_i number suffix hread
    obtain ⟨texts,htexts,hresult⟩ := bind_eq_ok.mp h
    obtain ⟨_,_,parts,_,hwhole,rfl,-,-⟩ := exists_wholeVersion hread
    rw [splitOn_joinDots hwhole.nonempty hwhole.numbers] at htexts
    rw [eq_of_mapM_decimalText hwhole.numbers htexts] at hresult
    refine .inr ⟨parts.map digitsValue,suffix,by simpa using hwhole.nonempty,hwhole.suffixed,?_⟩
    exact (Except.ok.inj hresult).symm

/-! Tags of images that LinuxServer does not publish. -/

theorem strip_of_valid {tag : Str} (h : tagValueValid tag = true) : strip tag = tag := by
  apply stripChars_eq_self
  intro c hc hblank
  have hnone : ∀ w ∈ whitespace, (tagWordChar w || w = '.' || w = '-') = false := forall_mem_of_all (by decide)
  have := tagChar_of_valid h c hc
  rw [hnone c hblank] at this
  cases this

theorem newline_not_mem_of_valid {tag : Str} (h : tagValueValid tag = true) : '\n' ∉ tag :=
  fun hn => absurd (tagChar_of_valid h '\n' hn) (by decide)

theorem length_le_of_valid {tag : Str} (h : tagValueValid tag = true) : tag.length ≤ 128 := by
  cases tag with
  | nil => simp
  | cons c rest =>
    simp only [tagValueValid,Bool.and_eq_true,decide_eq_true_eq] at h
    have := h.1.2
    simp only [List.length_cons]
    omega

theorem length_part_le {tag lead suffix : Str} {parts : List Str} (h : WholeVersion tag lead parts suffix) :
    ∀ part ∈ parts, part.length ≤ tag.length := by
  intro part hpart
  have hlength : part.length ≤ (joinDots parts).length := by
    obtain ⟨before,after,rfl⟩ := List.append_of_mem hpart
    cases before with
    | nil =>
      rw [List.nil_append,joinDots_cons]
      simp
    | cons first before =>
      rw [List.cons_append,joinDots_cons]
      simp only [List.flatMap_append,List.flatMap_cons,List.length_append,List.length_cons]
      omega
  rw [h.spelled]
  simp only [List.length_append]
  omega

section
variable {rules : CaseRules} {repo tag : Str} (hrepo : isLsioRepo rules repo = false) (hv : tagValueValid tag = true)
include hrepo hv

theorem releaseVersion_of_whole {lead suffix : Str} {parts : List Str} (h : WholeVersion tag lead parts suffix) :
    releaseVersion rules repo tag = .ok (versionText (parts.map digitsValue) suffix) := by
  have hl : ∀ part ∈ parts, part.length ≤ maxDigits := by
    intro part hpart
    have hpart := length_part_le h part hpart
    have htag := length_le_of_valid hv
    have : 128 ≤ maxDigits := by decide
    omega
  simp only [releaseVersion,strip_of_valid hv,hrepo,Bool.false_and,Bool.false_eq_true,if_false,h.versionTag,
    splitOn_joinDots h.nonempty h.numbers,mapM_decimalText h.numbers hl]
  rfl

theorem releaseVersion_of_other (h : versionTag tag = none) : releaseVersion rules repo tag = .ok [] := by
  simp only [releaseVersion,strip_of_valid hv,hrepo,Bool.false_and,Bool.false_eq_true,if_false,h]

end

theorem versionText_ne_nil {numbers : List ℕ} (hne : numbers ≠ []) (suffix : Str) :
    versionText numbers suffix ≠ [] := by
  have hhead := head?_joinDots (by simpa using hne) (mem_toDigits numbers)
  intro h
  rw [(List.append_eq_nil_iff.mp h).1] at hhead
  cases hhead

theorem releaseKey_of_tag {rules : CaseRules} {repo tag version : Str} (hv : tagValueValid tag = true)
    (h : releaseVersion rules repo tag = .ok version) (digest : Str) :
    (releaseRules rules).releaseKey repo tag digest =
      some (if version ≠ [] then ⟨.version,version,releaseLine version⟩ else ⟨.tag,tag,[]⟩) := by
  have hread : (releaseRules rules).releaseVersion repo tag = version := by
    change (releaseVersion rules repo tag).toOption.getD [] = version
    rw [h]
    rfl
  simp only [ReleaseRules.releaseKey,strip_of_valid hv,if_pos (length_of_valid hv),hread]
  by_cases hversion : version = []
  · simp [hversion]
  · simp [hversion]

/-- Two tags are one version when they differ in the lead and in leading zeros of their numbers only. -/
def SameVersion (tag tag' : Str) : Prop := ∃ lead lead' parts parts' suffix,
  WholeVersion tag lead parts suffix ∧ WholeVersion tag' lead' parts' suffix ∧
    parts.map (List.dropWhile (· = '0')) = parts'.map (List.dropWhile (· = '0'))

theorem map_digitsValue_eq_iff {parts parts' : List Str} (hp : ∀ part ∈ parts, part ∈ Regex.numbers)
    (hp' : ∀ part ∈ parts', part ∈ Regex.numbers) : parts.map digitsValue = parts'.map digitsValue ↔
      parts.map (List.dropWhile (· = '0')) = parts'.map (List.dropWhile (· = '0')) := by
  induction parts generalizing parts' with
  | nil => cases parts' <;> simp
  | cons part parts ih =>
    cases parts' with
    | nil => simp
    | cons part' parts' =>
      have hhead := digitsValue_eq_iff (hp part (by simp)).2 (hp' part' (by simp)).2
      have htail := ih (fun p h => hp p (List.mem_cons_of_mem _ h)) fun p h => hp' p (List.mem_cons_of_mem _ h)
      simp only [List.map_cons,List.cons.injEq,hhead,htail]

theorem WholeVersion.unique {tag lead lead' suffix suffix' : Str} {parts parts' : List Str}
    (h : WholeVersion tag lead parts suffix) (h' : WholeVersion tag lead' parts' suffix') :
    parts = parts' ∧ suffix = suffix' := by
  have hread := h.versionTag.symm.trans h'.versionTag
  obtain ⟨hparts,hsuffix⟩ := Prod.mk.inj (Option.some.inj hread)
  refine ⟨?_,hsuffix⟩
  rw [← splitOn_joinDots h.nonempty h.numbers,hparts,splitOn_joinDots h'.nonempty h'.numbers]

/-- A tag names the version that it is, or itself. -/
theorem releaseKey_cases {rules : CaseRules} {repo tag : Str} (hr : isLsioRepo rules repo = false)
    (hv : tagValueValid tag = true) :
    (∃ lead parts suffix, WholeVersion tag lead parts suffix ∧
      ∀ digest, ∃ line, (releaseRules rules).releaseKey repo tag digest =
        some ⟨.version,versionText (parts.map digitsValue) suffix,line⟩ ∧
          line = releaseLine (versionText (parts.map digitsValue) suffix)) ∨
    (∀ lead parts suffix, ¬ WholeVersion tag lead parts suffix) ∧
      ∀ digest, (releaseRules rules).releaseKey repo tag digest = some ⟨.tag,tag,[]⟩ := by
  cases h : versionTag tag with
  | some read =>
    obtain ⟨lead,parts,hw,-⟩ := (versionTag_eq_some (newline_not_mem_of_valid hv)).mp h
    have hne : parts.map digitsValue ≠ [] := by simpa using hw.nonempty
    refine .inl ⟨lead,parts,read.2,hw,fun digest => ⟨_,?_,rfl⟩⟩
    rw [releaseKey_of_tag hv (releaseVersion_of_whole hr hv hw),if_pos (versionText_ne_nil hne _)]
  | none =>
    refine .inr ⟨?_,?_⟩
    · intro lead parts suffix hw
      rw [hw.versionTag] at h
      cases h
    · intro digest
      rw [releaseKey_of_tag hv (releaseVersion_of_other hr hv h),if_neg (by simp)]

/-- Two tags name one release when they are equal or one version. -/
theorem releaseKey_eq_iff {rules : CaseRules} {repo repo' tag tag' : Str} (hr : isLsioRepo rules repo = false)
    (hr' : isLsioRepo rules repo' = false) (hv : tagValueValid tag = true) (hv' : tagValueValid tag' = true)
    (digest digest' : Str) :
    (releaseRules rules).releaseKey repo tag digest = (releaseRules rules).releaseKey repo' tag' digest' ↔
      tag = tag' ∨ SameVersion tag tag' := by
  obtain ⟨lead,parts,suffix,hw,hkey⟩ | ⟨hnot,hkey⟩ := releaseKey_cases hr hv
  · obtain ⟨line,hkey,hline⟩ := hkey digest
    have hne : parts.map digitsValue ≠ [] := by simpa using hw.nonempty
    obtain ⟨lead',parts',suffix',hw',hkey'⟩ | ⟨hnot',hkey'⟩ := releaseKey_cases hr' hv'
    · obtain ⟨line',hkey',hline'⟩ := hkey' digest'
      have hne' : parts'.map digitsValue ≠ [] := by simpa using hw'.nonempty
      rw [hkey,hkey']
      constructor
      · intro h
        obtain ⟨-,hvalue,-⟩ := ReleaseKey.mk.inj (Option.some.inj h)
        obtain ⟨hnumbers,rfl⟩ := versionText_injective hne hne' hw.suffixed hw'.suffixed hvalue
        exact .inr ⟨lead,lead',parts,parts',suffix,hw,hw',(map_digitsValue_eq_iff hw.numbers hw'.numbers).mp hnumbers⟩
      · intro h
        have hsame : parts.map digitsValue = parts'.map digitsValue ∧ suffix = suffix' := by
          obtain rfl | ⟨_,_,_,_,_,hu,hu',hzeros⟩ := h
          · obtain ⟨rfl,rfl⟩ := hw.unique hw'
            exact ⟨rfl,rfl⟩
          · obtain ⟨rfl,rfl⟩ := hu.unique hw
            obtain ⟨rfl,rfl⟩ := hu'.unique hw'
            exact ⟨(map_digitsValue_eq_iff hw.numbers hw'.numbers).mpr hzeros,rfl⟩
        obtain ⟨hnumbers,rfl⟩ := hsame
        rw [hline,hline',hnumbers]
    · rw [hkey,hkey' digest']
      constructor
      · intro h
        cases h
      · intro h
        obtain rfl | ⟨_,_,_,_,_,-,hu,-⟩ := h
        · exact absurd hw (hnot' _ _ _)
        · exact absurd hu (hnot' _ _ _)
  · rw [hkey digest]
    obtain ⟨lead',parts',suffix',hw',hkey'⟩ | ⟨hnot',hkey'⟩ := releaseKey_cases hr' hv'
    · obtain ⟨line',hkey',-⟩ := hkey' digest'
      rw [hkey']
      constructor
      · intro h
        cases h
      · intro h
        obtain rfl | ⟨_,_,_,_,_,hu,-,-⟩ := h
        · exact absurd hw' (hnot _ _ _)
        · exact absurd hu (hnot _ _ _)
    · rw [hkey' digest']
      constructor
      · intro h
        cases h
        exact .inl rfl
      · intro h
        obtain rfl | ⟨_,_,_,_,_,hu,-,-⟩ := h
        · rfl
        · exact absurd hu (hnot _ _ _)

/-! The line of a version. -/

/-- The numbers that a version starts with. -/
def numericParts (version : Str) : List ℕ := (versionNumber (version.splitOn '.')).map digitsValue

theorem takeWhile_of_number {digits rest : Str} (hd : digits ∈ Regex.numbers) (hr : EndsNumber rest) :
    (digits ++ rest).takeWhile Char.isDigit = digits := (takeWhile_append hd.2 hr).1

theorem versionNumber_joinDots {parts : List Str} (hne : parts ≠ []) (hp : ∀ part ∈ parts, part ∈ Regex.numbers)
    {suffix : Str} (hs : versionTagSuffix suffix = true) :
    versionNumber ((joinDots parts ++ suffix).splitOn '.') = parts := by
  induction parts with
  | nil => exact absurd rfl hne
  | cons part parts ih =>
    have hpart := hp part (by simp)
    have hdot := dot_not_mem_number hpart
    cases parts with
    | nil =>
      have hjoin : joinDots [part] = part := List.intercalate_singleton
      rw [hjoin,splitOn_append_of_not_mem hdot]
      cases suffix with
      | nil =>
        have htake := takeWhile_of_number hpart ends_nil
        rw [List.append_nil] at htake
        simp [versionNumber,htake,hpart.1]
      | cons c rest =>
        have hstop := stopsVersion_of_suffix hs
        have hc : c ≠ '.' := by
          obtain rfl | rfl | rfl := separator_of_suffix hs <;> decide
        obtain ⟨first,more,hsplit⟩ := List.exists_cons_of_ne_nil (List.splitOn_ne_nil '.' rest)
        have htake : (part ++ c :: first).takeWhile Char.isDigit = part :=
          takeWhile_of_number hpart (ends_cons.mpr (ends_cons.mp hstop.1))
        rw [List.splitOn_cons_eq_if_modifyHead,if_neg (by simpa using hc),hsplit]
        simp [versionNumber,htake,hpart.1]
    | cons next parts =>
      have hjoin : joinDots (part :: next :: parts) = part ++ '.' :: joinDots (next :: parts) := by
        rw [joinDots,List.intercalate_cons_cons,List.append_assoc]
        rfl
      have htake := takeWhile_of_number hpart ends_nil
      rw [List.append_nil] at htake
      rw [hjoin,List.append_assoc,List.cons_append,List.splitOn_append_cons_self_of_not_mem hdot,versionNumber]
      simp only [htake,hpart.1,if_false,if_true]
      rw [ih (by simp) fun p h => hp p (List.mem_cons_of_mem _ h)]

@[simp] theorem numericParts_versionText {numbers : List ℕ} {suffix : Str} (hne : numbers ≠ [])
    (hs : versionTagSuffix suffix = true) : numericParts (versionText numbers suffix) = numbers := by
  rw [numericParts,versionText,versionNumber_joinDots (by simpa using hne) (mem_toDigits numbers) hs,List.map_map]
  have hid : digitsValue ∘ Nat.toDigits 10 = id := by
    funext n
    exact digitsValue_toDigits n
  rw [hid,List.map_id]

theorem releaseLine_versionText {numbers : List ℕ} {suffix : Str} (hne : numbers ≠ [])
    (hs : versionTagSuffix suffix = true) : releaseLine (versionText numbers suffix) =
      if 2 ≤ numbers.length then versionText (numbers.take 2) [] else [] := by
  rw [releaseLine,versionText,versionNumber_joinDots (by simpa using hne) (mem_toDigits numbers) hs]
  match numbers with
  | [] => rfl
  | [_] => rfl
  | major :: minor :: rest =>
    simp [versionText,joinDots_cons]

/-- Both versions have two numbers or more and start with the same two. -/
def SameLine (version version' : Str) : Prop :=
  2 ≤ (numericParts version).length ∧ 2 ≤ (numericParts version').length ∧
    (numericParts version).take 2 = (numericParts version').take 2

theorem releaseLine_eq_iff {version version' : Str} (hv : CanonicalVersion version) (hv' : CanonicalVersion version') :
    (releaseLine version' ≠ [] ∧ releaseLine version' = releaseLine version) ↔ SameLine version version' := by
  obtain ⟨numbers,suffix,hne,hs,rfl⟩ := hv
  obtain ⟨numbers',suffix',hne',hs',rfl⟩ := hv'
  rw [SameLine,numericParts_versionText hne hs,numericParts_versionText hne' hs',releaseLine_versionText hne hs,
    releaseLine_versionText hne' hs']
  have htake : numbers.take 2 ≠ [] := by simpa using hne
  have htake' : numbers'.take 2 ≠ [] := by simpa using hne'
  by_cases hl' : 2 ≤ numbers'.length
  · rw [if_pos hl']
    by_cases hl : 2 ≤ numbers.length
    · rw [if_pos hl]
      constructor
      · intro h
        exact ⟨hl,hl',(versionText_injective htake' htake rfl rfl h.2).1.symm⟩
      · intro h
        exact ⟨versionText_ne_nil htake' [],by rw [h.2.2]⟩
    · rw [if_neg hl]
      constructor
      · intro h
        exact absurd h.2 h.1
      · intro h
        exact absurd h.1 hl
  · rw [if_neg hl']
    constructor
    · intro h
      exact absurd rfl h.1
    · intro h
      exact absurd h.2.1 hl'

/-! Stored skips and offered releases. -/

/-- A release that an update can offer. -/
def Offered (rules : CaseRules) (key : ReleaseKey) : Prop :=
  ∃ repo tag digest, (releaseRules rules).releaseKey repo tag digest = some key

/-- A skip is stored with what names the release it holds back. -/
def SkipOf (skip : ReleaseSkip) (key : ReleaseKey) : Prop := skip.basis = key.basis ∧ skip.value = key.value

theorem Offered.cases {rules : CaseRules} {key : ReleaseKey} (h : Offered rules key) :
    key.basis = .version ∧ CanonicalVersion key.value ∧ key.line = releaseLine key.value ∨
      key.basis ≠ .version ∧ key.line = [] := by
  obtain ⟨repo,tag,digest,h⟩ := h
  simp only [ReleaseRules.releaseKey] at h
  split at h
  · split at h
    · rename_i hversion
      obtain rfl := Option.some.inj h
      refine .inl ⟨rfl,?_,rfl⟩
      change (releaseVersion rules repo (strip tag)).toOption.getD [] ≠ [] at hversion
      change CanonicalVersion ((releaseVersion rules repo (strip tag)).toOption.getD [])
      cases hread : releaseVersion rules repo (strip tag) with
      | error e =>
        rw [hread] at hversion
        exact absurd rfl hversion
      | ok version =>
        rw [hread] at hversion
        exact (releaseVersion_eq_ok hread).resolve_left hversion
    · obtain rfl := Option.some.inj h
      exact .inr ⟨by simp,rfl⟩
  · split at h
    · obtain rfl := Option.some.inj h
      exact .inr ⟨by simp,rfl⟩
    · cases h

theorem eq_of_value {rules : CaseRules} {key key' : ReleaseKey} (h : Offered rules key) (h' : Offered rules key')
    (hb : key.basis = key'.basis) (hv : key.value = key'.value) : key = key' := by
  obtain ⟨basis,value,line⟩ := key
  obtain ⟨basis',value',line'⟩ := key'
  simp only at hb hv
  subst hb hv
  obtain ⟨hbasis,-,hline⟩ | ⟨hbasis,hline⟩ := h.cases
  · obtain ⟨-,-,hline'⟩ | ⟨hbasis',-⟩ := h'.cases
    · exact congrArg _ (hline.trans hline'.symm)
    · exact absurd hbasis hbasis'
  · obtain ⟨hbasis',-,-⟩ | ⟨-,hline'⟩ := h'.cases
    · exact absurd hbasis' hbasis
    · exact congrArg _ (hline.trans hline'.symm)

theorem basis_of_match {skip : ReleaseSkip} {key : ReleaseKey} (h : skipMatches skip (some key) = true) :
    key.basis = skip.basis := by
  rw [skipMatches] at h
  split at h
  · cases h
  · rename_i hb
    exact not_not.mp hb

/-- A skip of one release hides that release and no other. -/
theorem skip_release_iff {rules : CaseRules} {skip : ReleaseSkip} {key offered : ReleaseKey} (hk : Offered rules key)
    (ho : Offered rules offered) (hs : SkipOf skip key) (hscope : skip.scope = .release) :
    skipMatches skip (some offered) = true ↔ offered = key := by
  constructor
  · intro h
    have hb := basis_of_match h
    rw [skipMatches,if_neg (not_not.mpr hb)] at h
    simp only [hscope,decide_eq_true_eq] at h
    exact eq_of_value ho hk (hb.trans hs.1) (h.trans hs.2)
  · rintro rfl
    rw [skipMatches,if_neg (not_not.mpr hs.1.symm)]
    simp [hscope,hs.2]

/-- A skip of a line hides the versions of that line. -/
theorem skip_line_iff {rules : CaseRules} {skip : ReleaseSkip} {key offered : ReleaseKey} (hk : Offered rules key)
    (ho : Offered rules offered) (hs : SkipOf skip key) (hscope : skip.scope = .line) :
    skipMatches skip (some offered) = true ↔
      key.basis = .version ∧ offered.basis = .version ∧ SameLine key.value offered.value := by
  have hmatch : skipMatches skip (some offered) = true ↔
      offered.basis = key.basis ∧ offered.line ≠ [] ∧ offered.line = releaseLine key.value := by
    rw [skipMatches,hs.1,hs.2]
    by_cases hb : offered.basis = key.basis
    · simp [hb,hscope]
    · simp [hb]
  rw [hmatch]
  obtain ⟨hbasis,hcanonical,hline⟩ | ⟨hbasis,hline⟩ := ho.cases
  · rw [hline,hbasis]
    obtain ⟨hkey,hkeyCanonical,-⟩ | ⟨hkey,-⟩ := hk.cases
    · rw [hkey,releaseLine_eq_iff hkeyCanonical hcanonical]
      simp
    · simp [hkey,Ne.symm hkey]
  · simp [hline,hbasis]

theorem mem_skipsOf {stored : List ReleaseSkip} {key : Str} {skip : ReleaseSkip} :
    skip ∈ skipsOf (skipsByService stored) key ↔ skip ∈ stored ∧ skip.serviceKey = key := by
  rw [skipsOf,skipsByService,lookup_groupsOf,List.mem_filter,List.mem_insertionSort,beq_iff_eq]

/-- A release is hidden when a stored skip of one of its services matches it. -/
theorem skipForRelease_iff {stored : List ReleaseSkip} {serviceKeys : List Str} {key : Option ReleaseKey} :
    (skipForRelease (skipsByService stored) serviceKeys key).2 = true ↔
      ∃ skip ∈ stored, skip.serviceKey ∈ serviceKeys ∧ skipMatches skip key = true := by
  rw [← Bool.not_eq_false,skipForRelease_eq_false]
  push Not
  constructor
  · intro h
    obtain ⟨service,hservice,skip,hskip,hmatch⟩ := h
    obtain ⟨hstored,rfl⟩ := mem_skipsOf.mp hskip
    exact ⟨skip,hstored,hservice,by simpa using hmatch⟩
  · intro h
    obtain ⟨skip,hstored,hservice,hmatch⟩ := h
    exact ⟨skip.serviceKey,hservice,skip,mem_skipsOf.mpr ⟨hstored,rfl⟩,by simpa using hmatch⟩

/-- A skip hides its release or its line, and nothing else. -/
theorem release_skips_exact (rules : CaseRules) :
    (∀ repo repo' tag tag' digest digest', isLsioRepo rules repo = false → isLsioRepo rules repo' = false →
      tagValueValid tag = true → tagValueValid tag' = true →
      (∃ version, releaseVersion rules repo tag = .ok version) ∧
      ((releaseRules rules).releaseKey repo tag digest = (releaseRules rules).releaseKey repo' tag' digest' ↔
        tag = tag' ∨ SameVersion tag tag')) ∧
    (∀ skip key offered, Offered rules key → Offered rules offered → SkipOf skip key →
      (offered.basis ≠ key.basis → skipMatches skip (some offered) = false) ∧
      (skip.scope = .release → (skipMatches skip (some offered) = true ↔ offered = key)) ∧
      (skip.scope = .line → (skipMatches skip (some offered) = true ↔
        key.basis = .version ∧ offered.basis = .version ∧ SameLine key.value offered.value))) ∧
    (∀ stored serviceKeys key, (skipForRelease (skipsByService stored) serviceKeys key).2 = true ↔
      ∃ skip ∈ stored, skip.serviceKey ∈ serviceKeys ∧ skipMatches skip key = true) := by
  refine ⟨?_,?_,fun stored serviceKeys key => skipForRelease_iff⟩
  · intro repo repo' tag tag' digest digest' hr hr' hv hv'
    refine ⟨?_,releaseKey_eq_iff hr hr' hv hv' digest digest'⟩
    cases h : versionTag tag with
    | none => exact ⟨[],releaseVersion_of_other hr hv h⟩
    | some read =>
      obtain ⟨lead,parts,hw,-⟩ := (versionTag_eq_some (newline_not_mem_of_valid hv)).mp h
      exact ⟨_,releaseVersion_of_whole hr hv hw⟩
  · intro skip key offered hk ho hs
    refine ⟨?_,skip_release_iff hk ho hs,skip_line_iff hk ho hs⟩
    intro hb
    by_contra hmatch
    rw [Bool.not_eq_false] at hmatch
    exact hb ((basis_of_match hmatch).trans hs.1)

namespace Example

theorem redis_not_lsio : isLsioRepo plainCase "library/redis".toList = false := by decide

theorem alpine_version {lead : Str} {parts : List Str} (hl : lead = [] ∨ lead = ['v'] ∨ lead = ['V'])
    (hp : parts = [['7'],['0','2']] ∨ parts = [['7'],['2']]) :
    WholeVersion (lead ++ (joinDots parts ++ "-alpine".toList)) lead parts "-alpine".toList where
  leads := hl
  nonempty := by obtain rfl | rfl := hp <;> simp
  numbers := by
    obtain rfl | rfl := hp <;> simp [Regex.mem_numbers]
  suffixed := by decide
  spelled := rfl

/-- `v7.02-alpine` and `7.2-alpine` are one release. -/
theorem leading_zero_skipped :
    (releaseRules plainCase).releaseKey "library/redis".toList "v7.02-alpine".toList [] =
      (releaseRules plainCase).releaseKey "library/redis".toList "7.2-alpine".toList [] :=
  ((release_skips_exact plainCase).1 _ _ _ _ [] [] redis_not_lsio redis_not_lsio (by decide) (by decide)).2.mpr
    (.inr ⟨['v'],[],_,_,_,alpine_version (.inr (.inl rfl)) (.inl rfl),alpine_version (.inl rfl) (.inr rfl),by decide⟩)

end Example

end Wudup
