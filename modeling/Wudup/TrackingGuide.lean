import Wudup.FilterAmbiguity
import Wudup.Library.Decimal

/-! The explanation of a tracking expression in the web interface, beside the check that the server makes. -/
namespace Wudup
open Library

/-- What the explanation says about a candidate tag. -/
structure TagChange where
  tag : Str
  change : String
  deriving DecidableEq, Repr

structure GuideExample extends TagChange where
  admitted : Bool
  deriving DecidableEq, Repr

/-- An explanation; `admits` has no answer for what is no tag. -/
structure TrackingPatternGuide where
  description : Str
  summary : Str
  examples : List GuideExample
  admits : Str → Option Bool

structure PatternScan where
  parts : List Str := []
  literal : Str := []
  hasNumber : Bool := false
  unseparatedNumber : Bool := false
  deriving DecidableEq, Repr

def quotedPart (literal : Str) : Str := '“' :: literal ++ ['”']

def digitsPart : Str := "one or more digits".toList

def dottedPart : Str := "one or more dots, each followed by digits".toList

/-- The literal text before a number becomes a part. -/
def PatternScan.flushed (scan : PatternScan) : List Str :=
  if scan.literal ≠ [] then scan.parts ++ [quotedPart scan.literal] else scan.parts

def consumePatternToken (scan : PatternScan) (token : RegexToken) : Option PatternScan :=
  if token = .number ∨ token = .dotted then
    if token = .number ∧ scan.unseparatedNumber then none
    else some ⟨scan.flushed ++ [if token = .dotted then dottedPart else digitsPart],[],true,true⟩
  else some { scan with
    literal := scan.literal ++ if token = .dot then ['.'] else token.text
    unseparatedNumber := if token.separates then false else scan.unseparatedNumber }

/-- Reads the body token by token, past the characters of the last one. -/
def scanPattern (scan : PatternScan) : ℕ → Str → Option PatternScan
  | _,[] => some scan
  | skip + 1,_ :: rest => scanPattern scan skip rest
  | 0,c :: rest =>
    match readToken (c :: rest) with
    | none => none
    | some token =>
      match consumePatternToken scan token with
      | none => none
      | some scan => scanPattern scan (token.text.length - 1) rest

def patternParts (body : Str) : Option (List Str × Bool) := do
  let scan ← scanPattern {} 0 body
  if scan.hasNumber = false ∧ scan.literal = [] then none else some (scan.flushed,scan.hasNumber)

/-! The candidates made from the installed tag. -/

def increment (digits : Str) : Str := Nat.toDigits 10 (digitsValue digits + 1)

/-- The numbers of a text, each with what is before and after it. -/
def numberRuns (before : Str) (inNumber : Bool) : Str → List (Str × Str × Str)
  | [] => []
  | c :: rest =>
    let more := numberRuns (before ++ [c]) c.isDigit rest
    if c.isDigit && !inNumber then
      (before,(c :: rest).takeWhile Char.isDigit,(c :: rest).dropWhile Char.isDigit) :: more
    else more

def incrementRun (run : Str × Str × Str) : Str := run.1 ++ increment run.2.1 ++ run.2.2

def joinVersion (parts : List Str) : Str := ['.'].intercalate parts

def suffixChanges (suffix : Str) : List Str :=
  let runs := numberRuns [] false suffix
  (runs.head?.toList ++ if runs.length > 1 then runs.getLast?.toList else []).map incrementRun

def versionChanges (version : LeadingVersion) : List TagChange :=
  let parts := version.run.splitOn '.'
  let around := fun numbers => version.lead ++ numbers ++ version.rest
  [⟨around (joinVersion (parts.modifyLast increment)),"Version number change"⟩,
    ⟨around (joinVersion ((parts.head?.map increment).toList ++ parts.tail.map fun _ => ['0'])),
      "First version number change"⟩,
    if parts.length = 2 then ⟨around (version.run ++ ".1".toList),"With a patch number"⟩
    else ⟨around (joinVersion parts.dropLast),"Fewer version parts"⟩] ++
  if version.rest = [] then []
  else (suffixChanges version.rest).map (⟨version.lead ++ version.run ++ ·,"Suffix number change"⟩) ++
    [⟨version.lead ++ version.run,"Without the suffix"⟩]

def numberChanges (tag : Str) : List TagChange :=
  let runs := numberRuns [] false tag
  let first := (runs.head?.map incrementRun).toList
  let last := (runs.getLast?.map incrementRun).toList
  first.map (⟨·,"First number change"⟩) ++ if first = last then [] else last.map (⟨·,"Last number change"⟩)

def exampleTags (tag : Str) : List TagChange :=
  if tagValueValid tag then
    ((match leadingDottedVersion tag with
      | some version => versionChanges version
      | none => numberChanges tag) ++
      [⟨tag ++ "-rc1".toList,"Extra prerelease suffix"⟩,⟨"latest".toList,"Floating tag"⟩]).filter fun change =>
        change.tag ≠ tag ∧ tagValueValid change.tag
  else []

/-! What is said about the expression. -/

def startsDot (text : Str) : Bool := "\\.".toList.isPrefixOf text || "(?:\\.".toList.isPrefixOf text

/-- The number that stays the first of every matched version. -/
def pinnedMajor (pattern : Str) : Option Str :=
  let body := (versionLead pattern.tail).2
  let major := body.takeWhile Char.isDigit
  if major ≠ [] ∧ startsDot (body.dropWhile Char.isDigit) then some major else none

def changesMajor (pattern : Str) : Bool :=
  let versionBody := (versionLead pattern.tail).2
  RegexToken.number.text.isPrefixOf versionBody && startsDot (versionBody.drop RegexToken.number.text.length)

def majorNote : Str := " The first number can change too, including to a new major version.".toList

def allNumericNote : Str := " This also includes other all-numeric tags.".toList

def wholeDescription (parts : List Str) (notes : Str) : Str :=
  "Matches an entire tag with ".toList ++ ", followed by ".toList.intercalate parts ++
    ". Other prefixes or suffixes do not match.".toList ++ notes

def exactDescription (part : Str) : Str :=
  "Matches only the tag ".toList ++ part ++
    (". It will not follow differently named tags. Detecting changes under this same tag depends on " ++
      "WUD digest watching.").toList

def exactSummary : Str := "Tracks this exact tag; same-tag updates depend on WUD digest watching.".toList

def changingSummary : Str := "Version numbers can change, including to a new major version.".toList

def pinnedSummary (major : Str) : Str :=
  "Keeps the first version number at ".toList ++ major ++ "; fixed prefixes and suffixes must still match.".toList

def fixedSummary : Str := "Only tags matching the fixed parts and numeric pattern are included.".toList

def patternSummary (pattern : Str) (hasNumber : Bool) : Str :=
  if !hasNumber then exactSummary
  else if changesMajor pattern then changingSummary
  else match pinnedMajor pattern with
    | some major => pinnedSummary major
    | none => fixedSummary

def patternDescription (pattern : Str) (parts : List Str) (hasNumber : Bool) : Str :=
  if hasNumber then
    wholeDescription parts ((if changesMajor pattern then majorNote else []) ++
      if pattern = "^\\d+$".toList then allNumericNote else [])
  else exactDescription (parts.headD [])

def patternGuide (pattern installedTag : Str) (parts : List Str) (hasNumber : Bool) : TrackingPatternGuide :=
  let test := fun tag => decide (TagMatches pattern tag)
  { description := patternDescription pattern parts hasNumber
    summary := patternSummary pattern hasNumber
    examples := (exampleTags installedTag).map fun change => ⟨change,test change.tag⟩
    admits := fun tag => if tagValueValid tag then some (test tag) else none }

/-- The length is the browser's where it matters: an expression outside ASCII has no explanation. -/
def explainTrackingPattern (pattern installedTag : Str) : Option TrackingPatternGuide :=
  if pattern.length > 256 ∨ pattern.head? ≠ some '^' ∨ pattern.getLast? ≠ some '$' then none
  else (patternParts pattern.tail.dropLast).map fun (parts,hasNumber) =>
    patternGuide pattern installedTag parts hasNumber

/-! What a token does to the scan. -/

theorem consume_number (scan : PatternScan) : consumePatternToken scan .number =
    if scan.unseparatedNumber then none else some ⟨scan.flushed ++ [digitsPart],[],true,true⟩ := by
  simp [consumePatternToken]

theorem consume_dotted (scan : PatternScan) :
    consumePatternToken scan .dotted = some ⟨scan.flushed ++ [dottedPart],[],true,true⟩ := by
  simp [consumePatternToken]

theorem consume_dot (scan : PatternScan) : consumePatternToken scan .dot =
    some { scan with literal := scan.literal ++ ['.'], unseparatedNumber := false } := by
  simp [consumePatternToken,RegexToken.separates]

theorem consume_literal (scan : PatternScan) (c : Char) : consumePatternToken scan (.literal c) =
    some { scan with
      literal := scan.literal ++ [c]
      unseparatedNumber := if (RegexToken.literal c).separates then false else scan.unseparatedNumber } := by
  simp [consumePatternToken,RegexToken.text]

/-! The scan and the check of the server read the same tokens. -/

theorem scanPattern_check {scan : PatternScan} {found unseparated : Bool} (hfound : scan.hasNumber = found)
    (hunseparated : scan.unseparatedNumber = unseparated) (skip : ℕ) (text : Str) :
    (scanPattern scan skip text).map PatternScan.hasNumber =
      (hasNumericWildcard found unseparated skip text).toOption := by
  induction text generalizing scan found unseparated skip with
  | nil =>
    rw [scanPattern,hasNumericWildcard,← hfound]
    rfl
  | cons c rest ih =>
    cases skip with
    | succ skip => exact ih hfound hunseparated skip
    | zero =>
      rw [scanPattern,hasNumericWildcard]
      cases readToken (c :: rest) with
      | none => rfl
      | some token =>
        cases token with
        | number =>
          simp only [consume_number,hunseparated]
          cases unseparated with
          | true => rfl
          | false => exact ih rfl rfl _
        | dotted =>
          simp only [consume_dotted]
          exact ih rfl rfl _
        | dot =>
          simp only [consume_dot]
          apply ih
          · exact hfound
          · rfl
        | literal d =>
          simp only [consume_literal,hunseparated]
          apply ih
          · exact hfound
          · rfl

theorem scanPattern_skip (scan : PatternScan) (text rest : Str) :
    scanPattern scan text.length (text ++ rest) = scanPattern scan 0 rest := by
  induction text with
  | nil => rfl
  | cons c text ih => exact ih

theorem scanPattern_text {token : RegexToken} (h : token.Lawful) (scan : PatternScan) (rest : Str) :
    scanPattern scan 0 (token.text ++ rest) = (consumePatternToken scan token).bind (scanPattern · 0 rest) := by
  obtain ⟨c,more,htext⟩ := token.exists_text
  have hread := readToken_text h rest
  rw [htext,List.cons_append] at hread ⊢
  rw [scanPattern,hread]
  simp only [htext,List.length_cons,Nat.add_sub_cancel]
  cases consumePatternToken scan token with
  | none => rfl
  | some next => exact scanPattern_skip next more rest

/-! What the parts say is what the tokens match. -/

/-- The text that a part quotes. -/
def quotedTexts (part : Str) : Language Char := {text | part = quotedPart text}

/-- The texts that a part of the description speaks of. -/
def partLanguage (part : Str) : Language Char :=
  if part = digitsPart then Regex.numbers
  else if part = dottedPart then dotNumbers
  else quotedTexts part

theorem partLanguage_quoted (literal : Str) : partLanguage (quotedPart literal) = {literal} := by
  have hother : ∀ {part : Str}, part.head? = some 'o' → quotedPart literal ≠ part := by
    rintro part hp rfl
    cases hp
  rw [partLanguage,if_neg (hother rfl),if_neg (hother rfl)]
  ext text
  constructor
  · intro h
    exact (List.append_cancel_right (List.cons.inj h).2).symm
  · rintro rfl
    rfl

def partsLanguage (parts : List Str) : Language Char := (parts.map partLanguage).prod

theorem partsLanguage_append (parts more : List Str) :
    partsLanguage (parts ++ more) = partsLanguage parts * partsLanguage more := by
  rw [partsLanguage,List.map_append,List.prod_append]
  rfl

theorem partsLanguage_singleton (part : Str) : partsLanguage [part] = partLanguage part := by
  simp [partsLanguage]

theorem partsLanguage_flushed (scan : PatternScan) :
    partsLanguage scan.flushed = partsLanguage scan.parts * {scan.literal} := by
  rw [PatternScan.flushed]
  split
  · rw [partsLanguage_append,partsLanguage_singleton,partLanguage_quoted]
  · rename_i h
    rw [not_not.mp h]
    exact (mul_one _).symm

theorem consume_language {scan next : PatternScan} {token : RegexToken}
    (h : consumePatternToken scan token = some next) :
    partsLanguage next.flushed = partsLanguage scan.flushed * token.language := by
  have hliteral : ∀ {text : Str} {unseparated : Bool}, token.language = {text} →
      partsLanguage ({ scan with literal := scan.literal ++ text, unseparatedNumber := unseparated } :
        PatternScan).flushed = partsLanguage scan.flushed * token.language := by
    intro text unseparated ht
    rw [partsLanguage_flushed,partsLanguage_flushed,ht,mul_assoc,Regex.singleton_mul]
  have hnumber : ∀ {part : Str}, partLanguage part = token.language →
      partsLanguage (⟨scan.flushed ++ [part],[],true,true⟩ : PatternScan).flushed =
        partsLanguage scan.flushed * token.language := by
    intro part hp
    rw [PatternScan.flushed,if_neg (by simp),partsLanguage_append,partsLanguage_singleton,hp]
  cases token with
  | number =>
    rw [consume_number] at h
    split at h
    · cases h
    · cases h
      exact hnumber rfl
  | dotted =>
    rw [consume_dotted] at h
    cases h
    exact hnumber rfl
  | dot =>
    rw [consume_dot] at h
    cases h
    exact hliteral rfl
  | literal c =>
    rw [consume_literal] at h
    cases h
    exact hliteral rfl

theorem scan_language {tokens : List RegexToken} (h : ∀ token ∈ tokens, token.Lawful) {scan final : PatternScan}
    (hs : scanPattern scan 0 (tokensText tokens) = some final) :
    partsLanguage final.flushed = partsLanguage scan.flushed * (tokens.map RegexToken.language).prod := by
  induction tokens generalizing scan with
  | nil =>
    cases hs
    exact (mul_one _).symm
  | cons token tokens ih =>
    obtain ⟨ht,h⟩ := List.forall_mem_cons.mp h
    rw [tokensText,List.flatMap_cons,scanPattern_text ht] at hs
    obtain ⟨next,hnext,hs⟩ := Option.bind_eq_some_iff.mp hs
    rw [ih h hs,consume_language hnext,List.map_cons,List.prod_cons,mul_assoc]

/-- Without a number everything read is in the literal text. -/
theorem scan_plain {tokens : List RegexToken} (h : ∀ token ∈ tokens, token.Lawful) {scan final : PatternScan}
    (hs : scanPattern scan 0 (tokensText tokens) = some final) (hnumber : tokens.any RegexToken.wildcard = false) :
    final.parts = scan.parts ∧ ∃ text, final.literal = scan.literal ++ text ∧ text.length = tokens.length ∧
      tokensText tokens = jsRegexEscape text ∧ (tokens.map RegexToken.language).prod = {text} := by
  induction tokens generalizing scan with
  | nil =>
    cases hs
    exact ⟨rfl,[],(List.append_nil _).symm,rfl,rfl,rfl⟩
  | cons token tokens ih =>
    obtain ⟨ht,h⟩ := List.forall_mem_cons.mp h
    rw [List.any_cons,Bool.or_eq_false_iff] at hnumber
    rw [tokensText,List.flatMap_cons,scanPattern_text ht] at hs
    obtain ⟨next,hnext,hs⟩ := Option.bind_eq_some_iff.mp hs
    obtain ⟨hparts,text,hliteral,hlength,htext,hlanguage⟩ := ih h hs hnumber.2
    have hchar : ∃ c, next.parts = scan.parts ∧ next.literal = scan.literal ++ [c] ∧
        token.text = jsRegexEscape [c] ∧ token.language = {[c]} := by
      cases token with
      | number => cases hnumber.1
      | dotted => cases hnumber.1
      | dot =>
        rw [consume_dot] at hnext
        cases hnext
        exact ⟨'.',rfl,rfl,rfl,rfl⟩
      | literal c =>
        rw [consume_literal] at hnext
        cases hnext
        exact ⟨c,rfl,rfl,(escape_of_tokenChar ht).symm,rfl⟩
    obtain ⟨c,hp,hl,htoken,hc⟩ := hchar
    refine ⟨hparts.trans hp,c :: text,?_,by simp [hlength],?_,?_⟩
    · rw [hliteral,hl,List.append_assoc]
      rfl
    · rw [tokensText,List.flatMap_cons,htoken]
      have happend : jsRegexEscape ([c] ++ text) = jsRegexEscape [c] ++ jsRegexEscape text := List.flatMap_append
      exact (congrArg (jsRegexEscape [c] ++ ·) htext).trans happend.symm
    · rw [List.map_cons,List.prod_cons,hc,hlanguage,Regex.singleton_mul]
      rfl

/-! The start of the expression is the start of what it matches. -/

theorem tokensText_cons (token : RegexToken) (tokens : List RegexToken) :
    tokensText (token :: tokens) = token.text ++ tokensText tokens := List.flatMap_cons

/-- A token that its first character gives away. -/
theorem head_text {token : RegexToken} (h : token.Lawful) {c : Char} (hc : token.text.head? = some c)
    (hchar : tokenChar c = true) : token = .literal c := by
  cases token with
  | literal d =>
    cases hc
    rfl
  | dot =>
    cases hc
    cases hchar
  | number =>
    cases hc
    cases hchar
  | dotted =>
    cases hc
    cases hchar

theorem exists_lead {tokens : List RegexToken} (h : ∀ token ∈ tokens, token.Lawful) :
    ∃ lead more, IsLead lead ∧ tokens = literals lead ++ more ∧
      (versionLead (tokensText tokens ++ ['$'])).2 = tokensText more ++ ['$'] := by
  by_cases hv : (tokensText tokens ++ ['$']).head? = some 'v'
  · cases tokens with
    | nil => cases hv
    | cons token tokens =>
      obtain ⟨ht,-⟩ := List.forall_mem_cons.mp h
      have hhead : token.text.head? = some 'v' := by
        obtain ⟨c,rest,htext⟩ := token.exists_text
        rw [tokensText_cons,htext] at hv
        rw [htext]
        exact hv
      obtain rfl := head_text ht hhead (by decide)
      refine ⟨['v'],tokens,.inr rfl,rfl,?_⟩
      rw [versionLead,if_pos hv]
      rfl
  · exact ⟨[],tokens,.inl rfl,rfl,by rw [versionLead,if_neg hv]⟩

/-- The digits at the start of an expression are literal text. -/
theorem exists_digits {tokens : List RegexToken} (h : ∀ token ∈ tokens, token.Lawful) :
    ∃ more, tokens = literals ((tokensText tokens ++ ['$']).takeWhile Char.isDigit) ++ more ∧
      (tokensText tokens ++ ['$']).dropWhile Char.isDigit = tokensText more ++ ['$'] := by
  induction tokens with
  | nil => exact ⟨[],rfl,rfl⟩
  | cons token tokens ih =>
    obtain ⟨ht,h⟩ := List.forall_mem_cons.mp h
    obtain ⟨more,htokens,hdrop⟩ := ih h
    obtain ⟨c,rest,htext⟩ := token.exists_text
    rw [tokensText_cons,htext,List.cons_append,List.cons_append]
    by_cases hc : c.isDigit = true
    · obtain rfl := head_text ht (congrArg List.head? htext) (by simp [tokenChar,Char.isAlphanum,hc])
      cases htext
      rw [List.takeWhile_cons_of_pos hc,List.dropWhile_cons_of_pos hc]
      exact ⟨more,congrArg (_ :: ·) htokens,hdrop⟩
    · rw [List.takeWhile_cons_of_neg hc,List.dropWhile_cons_of_neg hc]
      refine ⟨token :: tokens,rfl,?_⟩
      rw [tokensText_cons,htext]
      rfl

/-- The tokens start with a dot, alone or before numbers. -/
def leadsDot : List RegexToken → Prop
  | .dot :: _ => True
  | .dotted :: _ => True
  | _ => False

theorem leadsDot_of_text {tokens : List RegexToken} (h : ∀ token ∈ tokens, token.Lawful)
    (hd : startsDot (tokensText tokens ++ ['$']) = true) : leadsDot tokens := by
  cases tokens with
  | nil => cases hd
  | cons token tokens =>
    cases token with
    | dot => trivial
    | dotted => trivial
    | number => cases hd
    | literal c =>
      obtain ⟨ht,-⟩ := List.forall_mem_cons.mp h
      have hchar : tokenChar c = true := ht
      have hslash : c ≠ '\\' := by
        rintro rfl
        cases hchar
      have hgroup : c ≠ '(' := by
        rintro rfl
        cases hchar
      rw [tokensText_cons,startsDot] at hd
      simp [RegexToken.text,List.isPrefixOf,hslash.symm,hgroup.symm] at hd

theorem head_of_leadsDot {tokens : List RegexToken} (h : leadsDot tokens) {text : Str}
    (ht : text ∈ (tokens.map RegexToken.language).prod) : text.head? = some '.' := by
  cases tokens with
  | nil => cases h
  | cons token tokens =>
    rw [List.map_cons,List.prod_cons] at ht
    obtain ⟨left,hl,rest,-,rfl⟩ := Language.mem_mul.mp ht
    cases token with
    | literal c => cases h
    | number => cases h
    | dot =>
      obtain rfl : left = ['.'] := hl
      rfl
    | dotted =>
      obtain ⟨hrun,hhead⟩ := mem_dotNumbers_iff.mp hl
      rw [List.head?_append,hhead]
      rfl

theorem language_literals (text : Str) : ((literals text).map RegexToken.language).prod = {text} := by
  induction text with
  | nil => rfl
  | cons c text ih =>
    change RegexToken.language (.literal c) * ((literals text).map RegexToken.language).prod = _
    rw [ih]
    exact Regex.singleton_mul [c] text

theorem mem_literals {text tag : Str} {tokens : List RegexToken} :
    tag ∈ ((literals text ++ tokens).map RegexToken.language).prod ↔
      ∃ rest ∈ (tokens.map RegexToken.language).prod, tag = text ++ rest := by
  rw [List.map_append,List.prod_append,language_literals,Language.mem_mul]
  constructor
  · rintro ⟨_,rfl,rest,hr,rfl⟩
    exact ⟨rest,hr,rfl⟩
  · rintro ⟨rest,hr,rfl⟩
    exact ⟨text,rfl,rest,hr,rfl⟩

theorem lawful_of_append {tokens more all : List RegexToken} (h : ∀ token ∈ all, token.Lawful)
    (he : all = tokens ++ more) : ∀ token ∈ more, token.Lawful := by
  intro token ht
  exact h token (he ▸ List.mem_append_right _ ht)

theorem pinned_kept {tokens : List RegexToken} (h : ∀ token ∈ tokens, token.Lawful) {major : Str}
    (hmajor : pinnedMajor ('^' :: tokensText tokens ++ ['$']) = some major) {tag : Str}
    (ht : tag ∈ (tokens.map RegexToken.language).prod) :
    ∃ lead rest, IsLead lead ∧ tag = lead ++ (major ++ '.' :: rest) := by
  obtain ⟨lead,afterLead,hlead,hfirst,hbody⟩ := exists_lead h
  have hlawful := lawful_of_append h hfirst
  obtain ⟨more,hsecond,hdrop⟩ := exists_digits hlawful
  rw [pinnedMajor,List.cons_append,List.tail_cons] at hmajor
  simp only [hbody,hdrop] at hmajor
  split at hmajor
  · rename_i hkept
    cases hmajor
    have hdot := leadsDot_of_text (lawful_of_append hlawful hsecond) hkept.2
    rw [hfirst] at ht
    obtain ⟨left,hl,rfl⟩ := mem_literals.mp ht
    rw [hsecond] at hl
    obtain ⟨rest,hr,rfl⟩ := mem_literals.mp hl
    obtain ⟨after,rfl⟩ := List.head?_eq_some_iff.mp (head_of_leadsDot hdot hr)
    exact ⟨lead,after,hlead,rfl⟩
  · cases hmajor

theorem changing_free {tokens : List RegexToken} (h : ∀ token ∈ tokens, token.Lawful)
    (hchanges : changesMajor ('^' :: tokensText tokens ++ ['$']) = true) :
    ∃ lead more, IsLead lead ∧ tokens = literals lead ++ .number :: more ∧ leadsDot more := by
  obtain ⟨lead,afterLead,hlead,hfirst,hbody⟩ := exists_lead h
  have hlawful := lawful_of_append h hfirst
  rw [changesMajor,List.cons_append,List.tail_cons] at hchanges
  simp only [hbody,Bool.and_eq_true] at hchanges
  obtain ⟨hnumber,hdot⟩ := hchanges
  cases afterLead with
  | nil => cases hnumber
  | cons token more =>
    obtain ⟨ht,hmore⟩ := List.forall_mem_cons.mp hlawful
    cases token with
    | number =>
      refine ⟨lead,more,hlead,hfirst,leadsDot_of_text hmore ?_⟩
      rw [tokensText_cons,List.append_assoc,List.drop_left] at hdot
      exact hdot
    | dot => cases hnumber
    | dotted => cases hnumber
    | literal c =>
      have hchar : tokenChar c = true := ht
      have hslash : c ≠ '\\' := by
        rintro rfl
        cases hchar
      simp [tokensText_cons,RegexToken.text,List.isPrefixOf,hslash.symm] at hnumber

/-! The explanation of a pattern. -/

/-- What an explanation rests on: the tokens between the anchors, as the server reads them. -/
structure Explained (pattern : Str) (parts : List Str) (hasNumber : Bool) (tokens : List RegexToken) : Prop where
  short : pattern.length ≤ 256
  text : pattern = '^' :: tokensText tokens ++ ['$']
  lawful : ∀ token ∈ tokens, token.Lawful
  check : hasNumericWildcard false false 0 (tokensText tokens) = .ok hasNumber
  number : hasNumber = tokens.any RegexToken.wildcard
  some_token : tokens ≠ []
  language : partsLanguage parts = (tokens.map RegexToken.language).prod
  plain : hasNumber = false → ∃ text, parts = [quotedPart text] ∧ tokensText tokens = jsRegexEscape text ∧
    (tokens.map RegexToken.language).prod = {text}

theorem scan_check (body : Str) : (scanPattern {} 0 body).map PatternScan.hasNumber =
    (hasNumericWildcard false false 0 body).toOption := scanPattern_check rfl rfl 0 body

theorem toOption_eq_some {α : Type} {result : Except String α} {value : α} (h : result.toOption = some value) :
    result = .ok value := by
  cases result with
  | error message => cases h
  | ok found =>
    cases h
    rfl

theorem explained_of_parts {pattern : Str} (hlength : pattern.length ≤ 256) (hhead : pattern.head? = some '^')
    (hlast : pattern.getLast? = some '$') {parts : List Str} {hasNumber : Bool}
    (h : patternParts pattern.tail.dropLast = some (parts,hasNumber)) :
    ∃ tokens, Explained pattern parts hasNumber tokens := by
  obtain ⟨scan,hscan,h⟩ := Option.bind_eq_some_iff.mp h
  split at h
  · cases h
  · rename_i hsome
    cases h
    have hcheck := scan_check pattern.tail.dropLast
    rw [hscan] at hcheck
    have hcheck := toOption_eq_some hcheck.symm
    obtain ⟨tokens,hbody,hlawful,-,hnumber⟩ := exists_tokens (Nat.le_refl _) hcheck
    rw [Bool.false_or] at hnumber
    rw [hbody] at hscan hcheck
    have hplain := scan_plain hlawful hscan
    refine ⟨tokens,hlength,anchored_iff.mp ⟨hhead,hlast,hbody⟩,hlawful,hcheck,hnumber,?_,?_,?_⟩
    · rintro rfl
      cases hscan
      exact hsome ⟨rfl,rfl⟩
    · rw [scan_language hlawful hscan]
      exact one_mul _
    · intro hfalse
      obtain ⟨hparts,text,hliteral,-,htext,hlanguage⟩ := hplain (hnumber ▸ hfalse)
      refine ⟨text,?_,htext,hlanguage⟩
      have hne : scan.literal ≠ [] := fun he => hsome ⟨hfalse,he⟩
      rw [PatternScan.flushed,if_pos hne,hparts,hliteral]
      rfl

theorem parts_of_check {body : Str} {wildcard : Bool} (h : hasNumericWildcard false false 0 body = .ok wildcard)
    (hne : body ≠ []) : ∃ parts, patternParts body = some (parts,wildcard) := by
  have hcheck := scan_check body
  rw [h] at hcheck
  obtain ⟨scan,hscan,rfl⟩ := Option.map_eq_some_iff.mp hcheck
  have hsome : ¬ (scan.hasNumber = false ∧ scan.literal = []) := by
    rintro ⟨hfalse,hnil⟩
    obtain ⟨tokens,rfl,hlawful,-,hnumber⟩ := exists_tokens (Nat.le_refl _) h
    rw [Bool.false_or,hfalse] at hnumber
    obtain ⟨-,text,hliteral,hlength,-⟩ := scan_plain hlawful hscan hnumber.symm
    rw [hnil] at hliteral
    cases hliteral
    rw [List.length_eq_zero_iff.mp hlength.symm] at hne
    exact hne rfl
  refine ⟨scan.flushed,?_⟩
  rw [patternParts,hscan,Option.bind_eq_bind,Option.bind_some,if_neg hsome]

theorem explained {pattern installedTag : Str} {guide : TrackingPatternGuide}
    (h : explainTrackingPattern pattern installedTag = some guide) :
    ∃ parts hasNumber tokens, guide = patternGuide pattern installedTag parts hasNumber ∧
      Explained pattern parts hasNumber tokens := by
  rw [explainTrackingPattern] at h
  split at h
  · cases h
  · rename_i hanchored
    simp only [not_or,not_lt,not_not] at hanchored
    obtain ⟨hlength,hhead,hlast⟩ := hanchored
    obtain ⟨⟨parts,hasNumber⟩,hparts,rfl⟩ := Option.map_eq_some_iff.mp h
    obtain ⟨tokens,he⟩ := explained_of_parts hlength hhead hlast hparts
    exact ⟨parts,hasNumber,tokens,rfl,he⟩

theorem Explained.matches_iff {pattern : Str} {parts : List Str} {hasNumber : Bool} {tokens : List RegexToken}
    (h : Explained pattern parts hasNumber tokens) (tag : Str) :
    (TagMatches pattern tag ↔ tag ∈ partsLanguage parts) ∧ (FullMatches pattern tag ↔ tag ∈ partsLanguage parts) := by
  rw [h.language]
  exact matches_anchored (spells_tokensText h.lawful) h.text tag

theorem Explained.head_last {pattern : Str} {parts : List Str} {hasNumber : Bool} {tokens : List RegexToken}
    (h : Explained pattern parts hasNumber tokens) : pattern.head? = some '^' ∧ pattern.getLast? = some '$' ∧
      pattern.tail.dropLast = tokensText tokens := anchored_iff.mpr h.text

/-- Without a number the expression is the exact one for the tag it matches. -/
theorem Explained.exact_of_matches {pattern : Str} {parts : List Str} {tokens : List RegexToken}
    (h : Explained pattern parts false tokens) {tag : Str} (ht : TagMatches pattern tag) :
    pattern = exactTagsRegex [tag] := by
  obtain ⟨text,-,htext,hlanguage⟩ := h.plain rfl
  have hmem := (h.matches_iff tag).1.mp ht
  rw [h.language,hlanguage] at hmem
  obtain rfl : tag = text := hmem
  rw [h.text,htext]
  rfl

theorem tokensText_ne_nil {tokens : List RegexToken} (h : tokens ≠ []) : tokensText tokens ≠ [] := by
  cases tokens with
  | nil => exact absurd rfl h
  | cons token tokens =>
    obtain ⟨c,rest,htext⟩ := token.exists_text
    rw [tokensText_cons,htext]
    simp

theorem Explained.length {pattern : Str} {parts : List Str} {hasNumber : Bool} {tokens : List RegexToken}
    (h : Explained pattern parts hasNumber tokens) : 3 ≤ pattern.length := by
  have hpos := List.length_pos_iff.mpr (tokensText_ne_nil h.some_token)
  rw [h.text]
  simp only [List.length_append,List.length_cons,List.length_nil]
  omega

/-- A request with an expression of an allowed length passes the server's check. -/
def repairAccepted (pattern tag : Str) : Prop :=
  (3 ≤ pattern.length ∧ pattern.length ≤ 256) ∧ validatedRegex pattern tag = .ok ()

theorem Explained.accepted_iff {pattern : Str} {parts : List Str} {hasNumber : Bool} {tokens : List RegexToken}
    (h : Explained pattern parts hasNumber tokens) (tag : Str) :
    repairAccepted pattern tag ↔ TagMatches pattern tag := by
  obtain ⟨hhead,hlast,hbody⟩ := h.head_last
  constructor
  · rintro ⟨-,hvalid⟩
    obtain ⟨-,-,wildcard,-,-,hfull⟩ := validatedRegex_ok.mp hvalid
    exact (h.matches_iff tag).1.mpr ((h.matches_iff tag).2.mp hfull)
  · intro ht
    have hfull := (h.matches_iff tag).2.mpr ((h.matches_iff tag).1.mp ht)
    refine ⟨⟨h.length,h.short⟩,validatedRegex_ok.mpr ⟨hhead,hlast,hasNumber,hbody ▸ h.check,?_,hfull⟩⟩
    cases hasNumber with
    | true => exact .inl rfl
    | false => exact .inr (h.exact_of_matches ht)

/-- An expression that the server accepts has an explanation. -/
theorem exists_guide {pattern tag : Str} (h : repairAccepted pattern tag) (installedTag : Str) :
    ∃ guide, explainTrackingPattern pattern installedTag = some guide := by
  obtain ⟨⟨hthree,hshort⟩,hvalid⟩ := h
  obtain ⟨hhead,hlast,wildcard,hcheck,-,-⟩ := validatedRegex_ok.mp hvalid
  have hne : pattern.tail.dropLast ≠ [] := by
    intro he
    have hlength := congrArg List.length he
    simp only [List.length_dropLast,List.length_tail,List.length_nil] at hlength
    omega
  obtain ⟨parts,hparts⟩ := parts_of_check hcheck hne
  refine ⟨patternGuide pattern installedTag parts wildcard,?_⟩
  rw [explainTrackingPattern,if_neg (by simp [hhead,hlast,hshort]),hparts]
  rfl

theorem admits_iff (pattern installedTag : Str) (parts : List Str) (hasNumber : Bool) {tag : Str}
    (h : tagValueValid tag = true) :
    (patternGuide pattern installedTag parts hasNumber).admits tag = some true ↔ TagMatches pattern tag := by
  simp [patternGuide,h]

/-- The explanation answers as the server will: a tag's expression is accepted exactly where there is an explanation
that says it matches, and the verdict on every listed example, a valid tag other than the installed one, is the one that
the server would reach with that tag installed. -/
theorem guide_mirrors_check (pattern installedTag : Str) :
    (∀ tag, tagValueValid tag = true → (repairAccepted pattern tag ↔
      ∃ guide, explainTrackingPattern pattern installedTag = some guide ∧ guide.admits tag = some true)) ∧
    ∀ guide, explainTrackingPattern pattern installedTag = some guide → ∀ shown ∈ guide.examples,
      tagValueValid shown.tag = true ∧ shown.tag ≠ installedTag ∧
        (shown.admitted = true ↔ repairAccepted pattern shown.tag) := by
  constructor
  · intro tag htag
    constructor
    · intro haccepted
      obtain ⟨guide,hguide⟩ := exists_guide haccepted installedTag
      obtain ⟨parts,hasNumber,tokens,rfl,he⟩ := explained hguide
      exact ⟨_,hguide,(admits_iff _ _ _ _ htag).mpr ((he.accepted_iff tag).mp haccepted)⟩
    · rintro ⟨guide,hguide,hadmits⟩
      obtain ⟨parts,hasNumber,tokens,rfl,he⟩ := explained hguide
      exact (he.accepted_iff tag).mpr ((admits_iff _ _ _ _ htag).mp hadmits)
  · intro guide hguide shown hshown
    obtain ⟨parts,hasNumber,tokens,rfl,he⟩ := explained hguide
    obtain ⟨change,hchange,rfl⟩ := List.mem_map.mp hshown
    rw [exampleTags] at hchange
    split at hchange
    · obtain ⟨-,hother⟩ := List.mem_filter.mp hchange
      simp only [ne_eq,decide_eq_true_eq] at hother
      refine ⟨hother.2,hother.1,?_⟩
      rw [he.accepted_iff]
      exact decide_eq_true_iff
    · cases hchange

/-! The summaries tell the four kinds of expressions apart. -/

theorem head_exactSummary : exactSummary.head? = some 'T' := rfl

theorem head_changingSummary : changingSummary.head? = some 'V' := rfl

theorem head_pinnedSummary (major : Str) : (pinnedSummary major).head? = some 'K' := rfl

theorem eq_of_around {before after text other : Str} (h : before ++ text ++ after = before ++ other ++ after) :
    text = other := List.append_cancel_left (List.append_cancel_right h)

theorem pinnedSummary_inj {major other : Str} (h : pinnedSummary major = pinnedSummary other) : major = other :=
  eq_of_around h

theorem head_fixedSummary : fixedSummary.head? = some 'O' := rfl

theorem summary_cases (pattern : Str) (hasNumber : Bool) :
    (hasNumber = false ∧ patternSummary pattern hasNumber = exactSummary) ∨
    (hasNumber = true ∧ changesMajor pattern = true ∧ patternSummary pattern hasNumber = changingSummary) ∨
    (∃ major, pinnedMajor pattern = some major ∧ patternSummary pattern hasNumber = pinnedSummary major) ∨
    patternSummary pattern hasNumber = fixedSummary := by
  rw [patternSummary]
  cases hasNumber with
  | false => exact .inl ⟨rfl,rfl⟩
  | true =>
    cases hchanges : changesMajor pattern with
    | true => exact .inr (.inl ⟨rfl,rfl,rfl⟩)
    | false =>
      cases hmajor : pinnedMajor pattern with
      | some major => exact .inr (.inr (.inl ⟨major,rfl,rfl⟩))
      | none => exact .inr (.inr (.inr rfl))

theorem pinned_of_summary {pattern major : Str} {hasNumber : Bool}
    (h : patternSummary pattern hasNumber = pinnedSummary major) : pinnedMajor pattern = some major := by
  have hhead := congrArg List.head? h
  rw [head_pinnedSummary] at hhead
  rcases summary_cases pattern hasNumber with ⟨-,he⟩ | ⟨-,-,he⟩ | ⟨found,hfound,he⟩ | he
  · rw [he,head_exactSummary] at hhead
    cases hhead
  · rw [he,head_changingSummary] at hhead
    cases hhead
  · rw [hfound,pinnedSummary_inj (he.symm.trans h)]
  · rw [he,head_fixedSummary] at hhead
    cases hhead

theorem changing_of_summary {pattern : Str} {hasNumber : Bool}
    (h : patternSummary pattern hasNumber = changingSummary) : changesMajor pattern = true := by
  have hhead := congrArg List.head? h
  rw [head_changingSummary] at hhead
  rcases summary_cases pattern hasNumber with ⟨-,he⟩ | ⟨-,hchanges,-⟩ | ⟨found,-,he⟩ | he
  · rw [he,head_exactSummary] at hhead
    cases hhead
  · exact hchanges
  · rw [he,head_pinnedSummary] at hhead
    cases hhead
  · rw [he,head_fixedSummary] at hhead
    cases hhead

theorem exact_of_summary {pattern : Str} {hasNumber : Bool} (h : patternSummary pattern hasNumber = exactSummary) :
    hasNumber = false := by
  have hhead := congrArg List.head? h
  rw [head_exactSummary] at hhead
  rcases summary_cases pattern hasNumber with ⟨hfalse,-⟩ | ⟨-,-,he⟩ | ⟨found,-,he⟩ | he
  · exact hfalse
  · rw [he,head_changingSummary] at hhead
    cases hhead
  · rw [he,head_pinnedSummary] at hhead
    cases hhead
  · rw [he,head_fixedSummary] at hhead
    cases hhead

/-- The description lists parts that together say what the expression matches. A summary that speaks of an exact tag
means that one tag alone matches; one that speaks of a kept first version number, that every matched tag starts with
it; one that says numbers can change, that any number may stand in place of the first. -/
theorem guide_truthful {pattern installedTag : Str} {guide : TrackingPatternGuide}
    (h : explainTrackingPattern pattern installedTag = some guide) :
    (∃ parts, ((∃ notes, guide.description = wholeDescription parts notes) ∨
        ∃ part, parts = [part] ∧ guide.description = exactDescription part) ∧
      ∀ tag, tagValueValid tag = true → (guide.admits tag = some true ↔ tag ∈ partsLanguage parts)) ∧
    (guide.summary = exactSummary → ∃ only, ∀ tag, tagValueValid tag = true →
      (guide.admits tag = some true ↔ tag = only)) ∧
    (∀ major, guide.summary = pinnedSummary major → ∀ tag, guide.admits tag = some true →
      ∃ lead rest, IsLead lead ∧ tag = lead ++ (major ++ '.' :: rest)) ∧
    (guide.summary = changingSummary → ∀ tag, guide.admits tag = some true →
      ∃ lead digits rest, IsLead lead ∧ digits ∈ Regex.numbers ∧ tag = lead ++ (digits ++ '.' :: rest) ∧
        ∀ other ∈ Regex.numbers, tagValueValid (lead ++ (other ++ '.' :: rest)) = true →
          guide.admits (lead ++ (other ++ '.' :: rest)) = some true) := by
  obtain ⟨parts,hasNumber,tokens,rfl,he⟩ := explained h
  have hmatches : ∀ {tag}, (patternGuide pattern installedTag parts hasNumber).admits tag = some true →
      TagMatches pattern tag := by
    intro tag htag
    by_cases hvalid : tagValueValid tag = true
    · exact (admits_iff _ _ _ _ hvalid).mp htag
    · simp [patternGuide,hvalid] at htag
  refine ⟨⟨parts,?_,?_⟩,?_,?_,?_⟩
  · cases hasNumber with
    | true => exact .inl ⟨_,rfl⟩
    | false =>
      obtain ⟨text,rfl,-⟩ := he.plain rfl
      exact .inr ⟨_,rfl,rfl⟩
  · intro tag hvalid
    rw [admits_iff _ _ _ _ hvalid]
    exact (he.matches_iff tag).1
  · intro hsummary
    obtain ⟨text,rfl,-⟩ := he.plain (exact_of_summary hsummary)
    refine ⟨text,fun tag hvalid => ?_⟩
    rw [admits_iff _ _ _ _ hvalid,(he.matches_iff tag).1,partsLanguage_singleton,partLanguage_quoted]
    rfl
  · intro major hsummary tag htag
    have hmajor := pinned_of_summary hsummary
    rw [he.text] at hmajor
    apply pinned_kept he.lawful hmajor
    rw [← he.language]
    exact (he.matches_iff tag).1.mp (hmatches htag)
  · intro hsummary tag htag
    have hchanges := changing_of_summary hsummary
    rw [he.text] at hchanges
    obtain ⟨lead,more,hlead,htokens,hdot⟩ := changing_free he.lawful hchanges
    have hmem := (he.matches_iff tag).1.mp (hmatches htag)
    rw [he.language,htokens] at hmem
    obtain ⟨after,hafter,rfl⟩ := mem_literals.mp hmem
    rw [List.map_cons,List.prod_cons] at hafter
    obtain ⟨digits,hdigits,after,hmore,rfl⟩ := Language.mem_mul.mp hafter
    obtain ⟨rest,rfl⟩ := List.head?_eq_some_iff.mp (head_of_leadsDot hdot hmore)
    refine ⟨lead,digits,rest,hlead,hdigits,rfl,?_⟩
    intro other hother hvalid
    rw [admits_iff _ _ _ _ hvalid,(he.matches_iff _).1,he.language,htokens]
    refine mem_literals.mpr ⟨_,?_,rfl⟩
    rw [List.map_cons,List.prod_cons]
    exact Language.mem_mul.mpr ⟨other,hother,_,hmore,rfl⟩

theorem guide_truthful_pinned : ∃ guide, explainTrackingPattern "^3\\.\\d+$".toList "3.19".toList = some guide ∧
    guide.summary = pinnedSummary ['3'] ∧ ∀ tag, guide.admits tag = some true →
      ∃ lead rest, IsLead lead ∧ tag = lead ++ (['3'] ++ '.' :: rest) := by
  have hpattern : "^3\\.\\d+$".toList = ['^','3','\\','.','\\','d','+','$'] := String.toList_ofList
  have hparts : patternParts ['3','\\','.','\\','d','+'] = some ([quotedPart ['3','.'],digitsPart],true) := by
    decide +kernel
  have hmajor : pinnedMajor ['^','3','\\','.','\\','d','+','$'] = some ['3'] := by decide +kernel
  have hchanges : changesMajor ['^','3','\\','.','\\','d','+','$'] = false := by decide +kernel
  have hguide : explainTrackingPattern ['^','3','\\','.','\\','d','+','$'] "3.19".toList =
      some (patternGuide ['^','3','\\','.','\\','d','+','$'] "3.19".toList [quotedPart ['3','.'],digitsPart] true) := by
    rw [explainTrackingPattern,if_neg (by decide)]
    exact congrArg (Option.map _) hparts
  have hsummary : patternSummary ['^','3','\\','.','\\','d','+','$'] true = pinnedSummary ['3'] := by
    simp only [patternSummary,hmajor,hchanges,Bool.not_true,Bool.false_eq_true,if_false]
  rw [hpattern]
  exact ⟨_,hguide,hsummary,(guide_truthful hguide).2.2.1 ['3'] hsummary⟩

end Wudup
