import Wudup.Library.Regex
import Wudup.ComposeRender

/-! The expressions that keep WUD on the stream of a tag, and the tags they admit. -/
namespace Wudup
open Library

/-- What an expression in a label admits, wherever it matches. -/
def TagMatches (regex tag : Str) : Prop := ∃ r, Regex.parse regex = some r ∧ r.Search tag

def FullMatches (regex tag : Str) : Prop := ∃ r, Regex.parse regex = some r ∧ r.Fullmatch tag

instance (regex tag : Str) : Decidable (FullMatches regex tag) :=
  decidable_of_iff ((Regex.parse regex).any fun r => decide (r.Fullmatch tag)) (by
    simp [FullMatches,Option.any_eq_true])

instance (regex tag : Str) : Decidable (TagMatches regex tag) :=
  decidable_of_iff ((Regex.parse regex).any fun r => decide (r.Search tag)) (by
    simp [TagMatches,Option.any_eq_true])

/-- An anchored expression admits the texts its body spells. -/
theorem matches_anchored {body regex : Str} {language : Language Char} (h : Regex.Spells body language)
    (hr : regex = '^' :: body ++ ['$']) (tag : Str) :
    (TagMatches regex tag ↔ tag ∈ language) ∧ (FullMatches regex tag ↔ tag ∈ language) := by
  obtain ⟨r,hp,hm⟩ := h.anchored
  rw [← hr] at hp
  constructor
  · constructor
    · rintro ⟨s,hs,hsearch⟩
      rw [hp] at hs
      cases hs
      exact (hm tag).1.mp hsearch
    · exact fun ht => ⟨r,hp,(hm tag).1.mpr ht⟩
  · constructor
    · rintro ⟨s,hs,hfull⟩
      rw [hp] at hs
      cases hs
      exact (hm tag).2.mp hfull
    · exact fun ht => ⟨r,hp,(hm tag).2.mpr ht⟩

theorem spells_jsRegexEscape (text : Str) : Regex.Spells (jsRegexEscape text) {text} := Regex.Spells.literal text

/-! Numbers at the start of a text. -/

/-- The number a text starts with, and the rest. -/
def leadingNumber (text : Str) : Option (Str × Str) :=
  let digits := text.takeWhile Char.isDigit
  if digits = [] then none else some (digits,text.dropWhile Char.isDigit)

/-- The text does not go on with a digit. -/
def EndsNumber (text : Str) : Prop := ∀ c, text.head? = some c → c.isDigit = false

theorem ends_nil : EndsNumber [] := by simp [EndsNumber]

theorem ends_cons {c : Char} {rest : Str} : EndsNumber (c :: rest) ↔ c.isDigit = false := by simp [EndsNumber]

theorem takeWhile_append {digits rest : Str} (hd : ∀ c ∈ digits, c.isDigit = true) (hr : EndsNumber rest) :
    (digits ++ rest).takeWhile Char.isDigit = digits ∧ (digits ++ rest).dropWhile Char.isDigit = rest := by
  induction digits with
  | nil =>
    cases rest with
    | nil => exact ⟨rfl,rfl⟩
    | cons c rest => simp [ends_cons.mp hr]
  | cons c digits ih =>
    obtain ⟨htake,hdrop⟩ := ih fun d h => hd d (List.mem_cons_of_mem _ h)
    simp [hd c (by simp),htake,hdrop]

theorem leadingNumber_eq_some {text digits rest : Str} :
    leadingNumber text = some (digits,rest) ↔ text = digits ++ rest ∧ digits ∈ Regex.numbers ∧ EndsNumber rest := by
  rw [Regex.mem_numbers]
  constructor
  · intro h
    simp only [leadingNumber] at h
    split at h
    · cases h
    · rename_i hne
      cases h
      refine ⟨(List.takeWhile_append_dropWhile).symm,⟨hne,fun c hc => List.mem_takeWhile_imp hc⟩,?_⟩
      intro c hc
      have := List.head?_dropWhile_not Char.isDigit text
      simp [hc] at this
      simpa using this
  · rintro ⟨rfl,⟨hne,hd⟩,hr⟩
    obtain ⟨htake,hdrop⟩ := takeWhile_append hd hr
    simp [leadingNumber,htake,hdrop,hne]

/-! Strict version tags. -/

structure TagStreamParts where
  version : Str
  suffix : Str
  deriving DecidableEq, Repr

def readDot : Str → Option Str
  | '.' :: rest => some rest
  | _ => none

theorem readDot_eq_some {text rest : Str} : readDot text = some rest ↔ text = '.' :: rest := by
  constructor
  · intro h
    unfold readDot at h
    split at h
    · cases h
      rfl
    · cases h
  · rintro rfl
    rfl

/-- What may follow the three numbers of a version. -/
def streamSuffix (suffix : Str) : Bool :=
  match suffix with
  | [] => true
  | c :: rest => "-_.".toList.contains c && rest ≠ [] && rest.all (· ≠ '\n')

/-- The version's leading letter, and the rest of the tag. -/
def versionLead (tag : Str) : Str × Str := if tag.head? = some 'v' then (['v'],tag.tail) else ([],tag)

def parseTagStream (tag : Str) : Option TagStreamParts := do
  let (lead,rest) := versionLead tag
  let (major,rest) ← leadingNumber rest
  let rest ← readDot rest
  let (minor,rest) ← leadingNumber rest
  let rest ← readDot rest
  let (patch,suffix) ← leadingNumber rest
  if streamSuffix suffix then return ⟨lead ++ major ++ '.' :: minor ++ '.' :: patch,suffix⟩ else none

def tagStreamIncludeRegex (tag : Str) : Except Str Str :=
  match parseTagStream tag with
  | none => .error ("tag is not a strict version stream: ".toList ++ tag)
  | some parts =>
    let lead := if parts.version.head? = some 'v' then ['v'] else []
    .ok ('^' :: lead ++ "\\d+\\.\\d+\\.\\d+".toList ++ jsRegexEscape parts.suffix ++ ['$'])

/-- Versions of three numbers after a lead. -/
def strictVersion (lead major minor patch : Str) : Str := lead ++ (major ++ '.' :: (minor ++ '.' :: patch))

/-- The leads a version may have. -/
def IsLead (lead : Str) : Prop := lead = [] ∨ lead = ['v']

theorem versionLead_append {lead major rest : Str} (hl : IsLead lead) (hm : major ∈ Regex.numbers) :
    versionLead (lead ++ (major ++ rest)) = (lead,major ++ rest) := by
  rcases hl with rfl | rfl
  · cases major with
    | nil => exact absurd rfl hm.1
    | cons c major =>
      have hc : c ≠ 'v' := by
        rintro rfl
        exact absurd (hm.2 'v' (by simp)) (by decide)
      simp [versionLead,hc]
  · simp [versionLead]

theorem isLead_versionLead (tag : Str) :
    IsLead (versionLead tag).1 ∧ tag = (versionLead tag).1 ++ (versionLead tag).2 := by
  rw [versionLead]
  split
  · cases tag with
    | nil => simp_all
    | cons c rest => simp_all [IsLead]
  · simp [IsLead]

theorem ends_of_streamSuffix {suffix : Str} (h : streamSuffix suffix = true) : EndsNumber suffix := by
  cases suffix with
  | nil => exact ends_nil
  | cons c rest =>
    rw [ends_cons]
    simp only [streamSuffix,Bool.and_eq_true,List.contains_eq_mem,decide_eq_true_eq] at h
    have hc := h.1.1
    simp only [String.reduceToList,List.mem_cons,List.not_mem_nil,or_false] at hc
    rcases hc with rfl | rfl | rfl <;> rfl

theorem parseTagStream_eq_some {tag : Str} {parts : TagStreamParts} :
    parseTagStream tag = some parts ↔ ∃ lead major minor patch, IsLead lead ∧ major ∈ Regex.numbers ∧
      minor ∈ Regex.numbers ∧ patch ∈ Regex.numbers ∧ parts.version = strictVersion lead major minor patch ∧
      streamSuffix parts.suffix = true ∧ tag = parts.version ++ parts.suffix := by
  constructor
  · intro h
    obtain ⟨hlead,htag⟩ := isLead_versionLead tag
    simp only [parseTagStream,Option.bind_eq_bind,Option.bind_eq_some_iff] at h
    obtain ⟨⟨major,r1⟩,h1,r2,h2,⟨minor,r3⟩,h3,r4,h4,⟨patch,suffix⟩,h5,h⟩ := h
    obtain ⟨e1,hmajor,-⟩ := leadingNumber_eq_some.mp h1
    obtain ⟨e3,hminor,-⟩ := leadingNumber_eq_some.mp h3
    obtain ⟨e5,hpatch,-⟩ := leadingNumber_eq_some.mp h5
    have h2 : r1 = '.' :: r2 := readDot_eq_some.mp h2
    have h4 : r3 = '.' :: r4 := readDot_eq_some.mp h4
    have hparts : tag = (versionLead tag).1 ++ (major ++ '.' :: (minor ++ '.' :: (patch ++ suffix))) := by
      calc tag = (versionLead tag).1 ++ (versionLead tag).2 := htag
        _ = _ := by rw [e1,h2,e3,h4,e5]
    by_cases hs : streamSuffix suffix = true
    · rw [if_pos hs] at h
      cases h
      refine ⟨(versionLead tag).1,major,minor,patch,hlead,hmajor,hminor,hpatch,by simp [strictVersion],hs,?_⟩
      simpa using hparts
    · rw [if_neg hs] at h
      cases h
  · rintro ⟨lead,major,minor,patch,hlead,hmajor,hminor,hpatch,hv,hs,rfl⟩
    obtain ⟨version,suffix⟩ := parts
    subst hv
    have htag : strictVersion lead major minor patch ++ suffix =
        lead ++ (major ++ ('.' :: (minor ++ ('.' :: (patch ++ suffix))))) := by simp [strictVersion]
    have h1 : leadingNumber (major ++ ('.' :: (minor ++ ('.' :: (patch ++ suffix))))) = some (major,_) :=
      leadingNumber_eq_some.mpr ⟨rfl,hmajor,ends_cons.mpr rfl⟩
    have h2 : leadingNumber (minor ++ ('.' :: (patch ++ suffix))) = some (minor,_) :=
      leadingNumber_eq_some.mpr ⟨rfl,hminor,ends_cons.mpr rfl⟩
    have h3 : leadingNumber (patch ++ suffix) = some (patch,suffix) :=
      leadingNumber_eq_some.mpr ⟨rfl,hpatch,ends_of_streamSuffix hs⟩
    rw [htag,parseTagStream,versionLead_append hlead hmajor]
    simp only [h1,h2,h3,readDot,Option.bind_eq_bind,Option.bind_some,hs,if_true,strictVersion]
    simp

/-- The tags of a stream. -/
def streamTags (lead suffix : Str) : Language Char :=
  {lead} * (Regex.numbers * ({['.']} * (Regex.numbers * ({['.']} * (Regex.numbers * {suffix})))))

theorem mem_streamTags {lead suffix tag : Str} : tag ∈ streamTags lead suffix ↔ ∃ major minor patch,
    major ∈ Regex.numbers ∧ minor ∈ Regex.numbers ∧ patch ∈ Regex.numbers ∧
      tag = strictVersion lead major minor patch ++ suffix := by
  simp only [streamTags,Language.mem_mul]
  constructor
  · rintro ⟨_,rfl,_,⟨major,hmajor,_,⟨_,rfl,_,⟨minor,hminor,_,⟨_,rfl,_,⟨patch,hpatch,_,rfl,rfl⟩,rfl⟩,rfl⟩,rfl⟩,rfl⟩,rfl⟩
    exact ⟨major,minor,patch,hmajor,hminor,hpatch,by simp [strictVersion]⟩
  · rintro ⟨major,minor,patch,hmajor,hminor,hpatch,rfl⟩
    exact ⟨lead,rfl,_,⟨major,hmajor,_,⟨_,rfl,_,⟨minor,hminor,_,⟨_,rfl,_,⟨patch,hpatch,suffix,rfl,rfl⟩,rfl⟩,rfl⟩,rfl⟩,rfl⟩,
      by simp [strictVersion]⟩

/-- Whether the version starts with a letter. -/
def TagStreamParts.lead (parts : TagStreamParts) : Str := if parts.version.head? = some 'v' then ['v'] else []

theorem lead_strictVersion {lead major minor patch suffix : Str} (hl : IsLead lead) (hm : major ∈ Regex.numbers) :
    TagStreamParts.lead ⟨strictVersion lead major minor patch,suffix⟩ = lead := by
  rcases hl with rfl | rfl
  · cases major with
    | nil => exact absurd rfl hm.1
    | cons c major =>
      have hc : c ≠ 'v' := by
        rintro rfl
        exact absurd (hm.2 'v' (by simp)) (by decide)
      simp [TagStreamParts.lead,strictVersion,hc]
  · simp [TagStreamParts.lead,strictVersion]

theorem isLead_lead (parts : TagStreamParts) : IsLead parts.lead := by
  rw [TagStreamParts.lead]
  split
  · exact .inr rfl
  · exact .inl rfl

theorem spells_streamTags {lead : Str} (hl : IsLead lead) (suffix : Str) :
    Regex.Spells (lead ++ "\\d+\\.\\d+\\.\\d+".toList ++ jsRegexEscape suffix) (streamTags lead suffix) := by
  have hlead : Regex.Spells lead {lead} := by
    rcases hl with rfl | rfl
    · exact Regex.Spells.literal []
    · exact Regex.Spells.literal ['v']
  have hdot : Regex.Spells "\\.".toList {['.']} := Regex.Spells.char '.'
  have h := hlead.append (Regex.Spells.numbers.append (hdot.append (Regex.Spells.numbers.append
    (hdot.append (Regex.Spells.numbers.append (spells_jsRegexEscape suffix))))))
  have htext : lead ++ "\\d+\\.\\d+\\.\\d+".toList ++ jsRegexEscape suffix = lead ++ ("\\d+".toList ++
      ("\\.".toList ++ ("\\d+".toList ++ ("\\.".toList ++ ("\\d+".toList ++ jsRegexEscape suffix))))) := by simp
  rw [htext]
  exact h

/-- The tags of a stream are the strict version tags with its lead and its suffix. -/
theorem mem_streamTags_iff {parts : TagStreamParts} (hs : streamSuffix parts.suffix = true) {tag : Str} :
    tag ∈ streamTags parts.lead parts.suffix ↔
      ∃ other, parseTagStream tag = some other ∧ other.lead = parts.lead ∧ other.suffix = parts.suffix := by
  rw [mem_streamTags]
  constructor
  · rintro ⟨major,minor,patch,hmajor,hminor,hpatch,rfl⟩
    refine ⟨⟨strictVersion parts.lead major minor patch,parts.suffix⟩,?_,lead_strictVersion (isLead_lead _) hmajor,rfl⟩
    exact parseTagStream_eq_some.mpr ⟨parts.lead,major,minor,patch,isLead_lead _,hmajor,hminor,hpatch,rfl,hs,rfl⟩
  · rintro ⟨⟨version,suffix⟩,hparse,hlead,hsuffix⟩
    obtain ⟨lead,major,minor,patch,hl,hmajor,hminor,hpatch,rfl,-,rfl⟩ := parseTagStream_eq_some.mp hparse
    rw [lead_strictVersion hl hmajor] at hlead
    exact ⟨major,minor,patch,hmajor,hminor,hpatch,by rw [← hlead,← hsuffix]⟩

theorem tagStreamIncludeRegex_admits {tag : Str} {parts : TagStreamParts} (h : parseTagStream tag = some parts) :
    ∃ regex, tagStreamIncludeRegex tag = .ok regex ∧ ∀ other,
      (TagMatches regex other ↔ other ∈ streamTags parts.lead parts.suffix) ∧
        (FullMatches regex other ↔ other ∈ streamTags parts.lead parts.suffix) := by
  refine ⟨_,by rw [tagStreamIncludeRegex,h],?_⟩
  exact matches_anchored (spells_streamTags (isLead_lead parts) parts.suffix) (by simp [TagStreamParts.lead])

/-- A stream's expression admits exactly the strict version tags with its lead and suffix, so two tags are
admitted by each other's expression exactly when they agree in both. -/
theorem stream_regex_describes_stream {tag : Str} {parts : TagStreamParts} (h : parseTagStream tag = some parts) :
    ∃ regex, tagStreamIncludeRegex tag = .ok regex ∧
      (∀ other, TagMatches regex other ↔ ∃ otherParts, parseTagStream other = some otherParts ∧
        otherParts.lead = parts.lead ∧ otherParts.suffix = parts.suffix) ∧
      ∀ other otherParts, parseTagStream other = some otherParts →
        ∃ otherRegex, tagStreamIncludeRegex other = .ok otherRegex ∧
          (TagMatches regex other ∧ TagMatches otherRegex tag ↔
            otherParts.lead = parts.lead ∧ otherParts.suffix = parts.suffix) := by
  have hsuffix : ∀ {tag parts}, parseTagStream tag = some parts → streamSuffix parts.suffix = true := by
    intro tag parts h
    obtain ⟨_,_,_,_,_,_,_,_,_,hs,_⟩ := parseTagStream_eq_some.mp h
    exact hs
  obtain ⟨regex,hregex,hadmits⟩ := tagStreamIncludeRegex_admits h
  refine ⟨regex,hregex,fun other => (hadmits other).1.trans (mem_streamTags_iff (hsuffix h)),?_⟩
  intro other otherParts ho
  obtain ⟨otherRegex,horegex,hoadmits⟩ := tagStreamIncludeRegex_admits ho
  refine ⟨otherRegex,horegex,?_⟩
  rw [(hadmits other).1,(hoadmits tag).1,mem_streamTags_iff (hsuffix h),mem_streamTags_iff (hsuffix ho)]
  constructor
  · rintro ⟨⟨found,hfound,hl,hs⟩,-⟩
    rw [ho] at hfound
    cases hfound
    exact ⟨hl,hs⟩
  · rintro ⟨hl,hs⟩
    exact ⟨⟨otherParts,ho,hl,hs⟩,parts,h,hl.symm,hs.symm⟩

theorem stream_regex_alpine : ∃ regex, tagStreamIncludeRegex "v1.2.3-alpine.1".toList = .ok regex ∧
    (∀ other, TagMatches regex other ↔ ∃ otherParts, parseTagStream other = some otherParts ∧
      otherParts.lead = ['v'] ∧ otherParts.suffix = "-alpine.1".toList) ∧
    ∀ other otherParts, parseTagStream other = some otherParts →
      ∃ otherRegex, tagStreamIncludeRegex other = .ok otherRegex ∧
        (TagMatches regex other ∧ TagMatches otherRegex "v1.2.3-alpine.1".toList ↔
          otherParts.lead = ['v'] ∧ otherParts.suffix = "-alpine.1".toList) := by
  have h : parseTagStream "v1.2.3-alpine.1".toList = some ⟨"v1.2.3".toList,"-alpine.1".toList⟩ := by decide
  exact stream_regex_describes_stream h

/-! Dotted versions at the start of a tag. -/

/-- The numbers at the start of a text with the dots between them, and the rest. -/
def versionRun : Str → Str × Str
  | [] => ([],[])
  | c :: rest =>
    if c.isDigit || (c = '.' && rest.head?.any Char.isDigit) then (c :: (versionRun rest).1,(versionRun rest).2)
    else ([],c :: rest)

structure LeadingVersion where
  lead : Str
  run : Str
  rest : Str
  deriving DecidableEq, Repr

/-- The dotted version of two numbers or more that a tag starts with. -/
def leadingDottedVersion (tag : Str) : Option LeadingVersion :=
  let body := (versionLead tag).2
  let (run,rest) := versionRun body
  if body.head?.any Char.isDigit && run.contains '.' then some ⟨(versionLead tag).1,run,rest⟩ else none

def alpineSuffix : Str := "-alpine".toList

/-- The first number of a dotted version on an Alpine channel, with its lead. -/
def alpineVersion (tag : Str) : Option Str :=
  (leadingDottedVersion tag).bind fun version =>
    if version.rest = alpineSuffix then some (version.lead ++ version.run.takeWhile Char.isDigit) else none

/-- The lead of a tag that is a dotted version. -/
def dottedVersion (tag : Str) : Option Str :=
  (leadingDottedVersion tag).bind fun version => if version.rest = [] then some version.lead else none

/-- The text as an expression with a wildcard for each number. -/
def generalizeNumbers : Str → Str
  | [] => []
  | c :: rest =>
    if c.isDigit then
      (if rest.head?.any Char.isDigit then [] else "\\d+".toList) ++ generalizeNumbers rest
    else jsRegexEscape [c] ++ generalizeNumbers rest

def dottedNumbersRegex : Str := "(?:\\.\\d+)+".toList

def retagTagIncludeRegex (tag : Str) : Except Str Str :=
  if !tagValueValid tag then .error ("tag is not valid: ".toList ++ tag)
  else match alpineVersion tag with
    | some major => .ok ('^' :: major ++ dottedNumbersRegex ++ alpineSuffix ++ ['$'])
    | none =>
      match dottedVersion tag with
      | some lead => .ok ('^' :: lead ++ "\\d+".toList ++ dottedNumbersRegex ++ ['$'])
      | none =>
        match leadingDottedVersion tag with
        | some version =>
          if managedWudTagTransform tag = [] then
            .ok ('^' :: (version.lead ++ "\\d+".toList ++ dottedNumbersRegex ++ generalizeNumbers version.rest) ++ ['$'])
          else .ok ('^' :: generalizeNumbers tag ++ ['$'])
        | none => .ok ('^' :: generalizeNumbers tag ++ ['$'])

example : retagTagIncludeRegex "10.11.12ubu2404-ls44".toList = .ok "^\\d+(?:\\.\\d+)+ubu\\d+-ls\\d+$".toList := by
  decide
example : retagTagIncludeRegex "1.2.3.4-ls5".toList = .ok "^\\d+\\.\\d+\\.\\d+\\.\\d+-ls\\d+$".toList := by decide

end Wudup
