import Wudup.ExactTags
import Wudup.RetagPatterns

/-! The check of the tracking expressions that users submit. -/
namespace Wudup
open Library

/-- The syntax a tracking expression may use. -/
inductive RegexToken where
  | literal (c : Char)
  | dot
  | number
  | dotted
  deriving DecidableEq, Repr

def tokenChar (c : Char) : Bool := c.isAlphanum || c = '_' || c = '-'

def RegexToken.text : RegexToken → Str
  | literal c => [c]
  | dot => "\\.".toList
  | number => "\\d+".toList
  | dotted => dottedNumbersRegex

/-- The token at the start of a text. -/
def readToken : Str → Option RegexToken
  | [] => none
  | c :: rest =>
    if tokenChar c then some (.literal c)
    else if RegexToken.dot.text.isPrefixOf (c :: rest) then some .dot
    else if RegexToken.number.text.isPrefixOf (c :: rest) then some .number
    else if RegexToken.dotted.text.isPrefixOf (c :: rest) then some .dotted
    else none

def unsupportedSyntax : String :=
  "Tracking regex uses unsupported syntax. Use literals, escaped dots, and \\d+ version parts."

def unseparatedWildcards : String :=
  "Tracking regex must separate numeric wildcards with a literal non-digit character."

/-- Whether a token is followed by a wildcard that it does not separate from one before it. -/
def RegexToken.separates : RegexToken → Bool
  | literal c => !c.isDigit
  | dot => true
  | number => false
  | dotted => false

/-- Reads the body token by token, past the characters of the last one. -/
def hasNumericWildcard (found unseparated : Bool) : ℕ → Str → Except String Bool
  | _,[] => .ok found
  | skip + 1,_ :: rest => hasNumericWildcard found unseparated skip rest
  | 0,c :: rest =>
    match readToken (c :: rest) with
    | none => .error unsupportedSyntax
    | some .number =>
      if unseparated then .error unseparatedWildcards
      else hasNumericWildcard true true (RegexToken.number.text.length - 1) rest
    | some .dotted => hasNumericWildcard true true (RegexToken.dotted.text.length - 1) rest
    | some token =>
      hasNumericWildcard found (if token.separates then false else unseparated) (token.text.length - 1) rest

def unanchoredRegex : String := "Tracking regex must be anchored with ^ and $."

def mismatchedRegex : String :=
  "Tracking regex must match the installed tag and either include a numeric wildcard or match that tag exactly."

def validatedRegex (regex tag : Str) : Except String Unit :=
  if ¬ (regex.head? = some '^' ∧ regex.getLast? = some '$') then .error unanchoredRegex
  else match hasNumericWildcard false false 0 regex.tail.dropLast with
    | .error message => .error message
    | .ok wildcard =>
      if (wildcard = false ∧ regex ≠ exactTagsRegex [tag]) ∨ ¬ FullMatches regex tag then .error mismatchedRegex
      else .ok ()

example : validatedRegex "^\\d+(?:\\.\\d+)+-ls\\d+$".toList "1.2.3-ls4".toList = .ok () := by decide +kernel

/-! The tokens of an expression that passes. -/

/-- The tokens of a text, past the characters of the last one. -/
def tokensOf : ℕ → Str → List RegexToken
  | _,[] => []
  | skip + 1,_ :: rest => tokensOf skip rest
  | 0,c :: rest =>
    match readToken (c :: rest) with
    | none => []
    | some token => token :: tokensOf (token.text.length - 1) rest

def patternTokens (regex : Str) : List RegexToken := tokensOf 0 regex.tail.dropLast

def tokensText (tokens : List RegexToken) : Str := tokens.flatMap RegexToken.text

/-- A token as the check reads it. -/
def RegexToken.Lawful : RegexToken → Prop
  | literal c => tokenChar c = true
  | _ => True

def RegexToken.wildcard : RegexToken → Bool
  | number | dotted => true
  | _ => false

/-- No number follows a wildcard without something between them that separates. -/
def NumbersApart : Bool → List RegexToken → Prop
  | _,[] => True
  | unseparated,.number :: rest => unseparated = false ∧ NumbersApart true rest
  | _,.dotted :: rest => NumbersApart true rest
  | unseparated,token :: rest => NumbersApart (if token.separates then false else unseparated) rest

theorem RegexToken.exists_text (token : RegexToken) : ∃ c rest, token.text = c :: rest := by
  cases token <;> exact ⟨_,_,rfl⟩

theorem readToken_text {token : RegexToken} (h : token.Lawful) (rest : Str) :
    readToken (token.text ++ rest) = some token := by
  cases token with
  | literal c =>
    have hc : tokenChar c = true := h
    simp [RegexToken.text,readToken,hc]
  | dot => rfl
  | number => rfl
  | dotted => rfl

theorem readToken_eq_some {text : Str} {token : RegexToken} (h : readToken text = some token) :
    token.Lawful ∧ ∃ rest, text = token.text ++ rest := by
  cases text with
  | nil => cases h
  | cons c rest =>
    rw [readToken] at h
    split at h
    · cases h
      exact ⟨‹_›,rest,rfl⟩
    · split at h
      · cases h
        obtain ⟨rest,hr⟩ := List.isPrefixOf_iff_prefix.mp ‹_›
        exact ⟨trivial,rest,hr.symm⟩
      · split at h
        · cases h
          obtain ⟨rest,hr⟩ := List.isPrefixOf_iff_prefix.mp ‹_›
          exact ⟨trivial,rest,hr.symm⟩
        · split at h
          · cases h
            obtain ⟨rest,hr⟩ := List.isPrefixOf_iff_prefix.mp ‹_›
            exact ⟨trivial,rest,hr.symm⟩
          · cases h

theorem tokensOf_skip (text rest : Str) : tokensOf text.length (text ++ rest) = tokensOf 0 rest := by
  induction text with
  | nil => rfl
  | cons c text ih => exact ih

theorem hasNumericWildcard_skip (found unseparated : Bool) (text rest : Str) :
    hasNumericWildcard found unseparated text.length (text ++ rest) = hasNumericWildcard found unseparated 0 rest := by
  induction text with
  | nil => rfl
  | cons c text ih => exact ih

theorem tokensOf_text {token : RegexToken} (h : token.Lawful) (rest : Str) :
    tokensOf 0 (token.text ++ rest) = token :: tokensOf 0 rest := by
  obtain ⟨c,more,htext⟩ := token.exists_text
  have hread := readToken_text h rest
  rw [htext,List.cons_append] at hread ⊢
  rw [tokensOf,hread]
  simp only [htext,List.length_cons,Nat.add_sub_cancel]
  rw [tokensOf_skip]

theorem tokensOf_tokensText {tokens : List RegexToken} (h : ∀ token ∈ tokens, token.Lawful) :
    tokensOf 0 (tokensText tokens) = tokens := by
  induction tokens with
  | nil => rfl
  | cons token tokens ih =>
    rw [tokensText,List.flatMap_cons,tokensOf_text (h token (by simp))]
    exact congrArg (token :: ·) (ih fun t ht => h t (List.mem_cons_of_mem _ ht))

/-- What the check does with a token. -/
theorem hasNumericWildcard_text {token : RegexToken} (h : token.Lawful) (found unseparated : Bool) (rest : Str) :
    hasNumericWildcard found unseparated 0 (token.text ++ rest) =
      if token = .number && unseparated then .error unseparatedWildcards
      else hasNumericWildcard (found || token.wildcard)
        (if token.wildcard then true else if token.separates then false else unseparated) 0 rest := by
  obtain ⟨c,more,htext⟩ := token.exists_text
  have hread := readToken_text h rest
  rw [htext,List.cons_append] at hread ⊢
  have hlen : token.text.length - 1 = more.length := by
    rw [htext]
    rfl
  rw [hasNumericWildcard,hread]
  cases token with
  | literal d =>
    simp only [hlen,hasNumericWildcard_skip,RegexToken.wildcard,Bool.or_false]
    rfl
  | dot =>
    simp only [hlen,hasNumericWildcard_skip,RegexToken.wildcard,Bool.or_false]
    rfl
  | number =>
    simp only [hlen,hasNumericWildcard_skip,RegexToken.wildcard,Bool.or_true]
    rfl
  | dotted =>
    simp only [hlen,hasNumericWildcard_skip,RegexToken.wildcard,Bool.or_true]
    rfl

/-- A text passes with a verdict exactly where it is made of tokens with their numbers apart. -/
theorem hasNumericWildcard_tokensText {tokens : List RegexToken} (h : ∀ token ∈ tokens, token.Lawful)
    {found unseparated : Bool} (hn : NumbersApart unseparated tokens) :
    hasNumericWildcard found unseparated 0 (tokensText tokens) = .ok (found || tokens.any RegexToken.wildcard) := by
  induction tokens generalizing found unseparated with
  | nil => simp [tokensText,hasNumericWildcard]
  | cons token tokens ih =>
    have htext : tokensText (token :: tokens) = token.text ++ tokensText tokens := List.flatMap_cons
    have ih := fun {found unseparated} => @ih (fun t ht => h t (List.mem_cons_of_mem _ ht)) found unseparated
    rw [htext,hasNumericWildcard_text (h token (by simp)),List.any_cons,← Bool.or_assoc]
    cases token with
    | literal c => exact ih hn
    | dot => exact ih hn
    | number =>
      rw [hn.1]
      exact ih hn.2
    | dotted => exact ih hn

theorem exists_tokens {n : ℕ} {found unseparated wildcard : Bool} {body : Str} (hn : body.length ≤ n)
    (h : hasNumericWildcard found unseparated 0 body = .ok wildcard) :
    ∃ tokens, body = tokensText tokens ∧ (∀ token ∈ tokens, token.Lawful) ∧ NumbersApart unseparated tokens ∧
      wildcard = (found || tokens.any RegexToken.wildcard) := by
  induction n generalizing found unseparated body with
  | zero =>
    rw [List.length_eq_zero_iff.mp (Nat.le_zero.mp hn)] at h ⊢
    cases h
    exact ⟨[],rfl,by simp,trivial,by simp⟩
  | succ n ih =>
    cases hread : readToken body with
    | none =>
      cases body with
      | nil =>
        cases h
        exact ⟨[],rfl,by simp,trivial,by simp⟩
      | cons c rest =>
        rw [hasNumericWildcard,hread] at h
        cases h
    | some token =>
      obtain ⟨hlawful,rest,rfl⟩ := readToken_eq_some hread
      rw [hasNumericWildcard_text hlawful] at h
      have hlen : rest.length ≤ n := by
        obtain ⟨c,more,htext⟩ := token.exists_text
        rw [htext,List.length_append,List.length_cons] at hn
        omega
      split at h
      · cases h
      · rename_i hnumber
        obtain ⟨tokens,rfl,hlaw,hapart,hw⟩ := ih hlen h
        refine ⟨token :: tokens,rfl,?_,?_,?_⟩
        · intro t ht
          rcases List.mem_cons.mp ht with rfl | ht
          · exact hlawful
          · exact hlaw t ht
        · cases token with
          | literal c => exact hapart
          | dot => exact hapart
          | number => exact ⟨by simpa using hnumber,hapart⟩
          | dotted => exact hapart
        · rw [hw,List.any_cons,Bool.or_assoc]

/-- The check accepts an anchored expression that matches the tag and has a wildcard or is exact for it. -/
theorem validatedRegex_ok {regex tag : Str} : validatedRegex regex tag = .ok () ↔
    regex.head? = some '^' ∧ regex.getLast? = some '$' ∧
      ∃ wildcard, hasNumericWildcard false false 0 regex.tail.dropLast = .ok wildcard ∧
        (wildcard = true ∨ regex = exactTagsRegex [tag]) ∧ FullMatches regex tag := by
  by_cases ha : regex.head? = some '^' ∧ regex.getLast? = some '$'
  · rw [validatedRegex,if_neg (not_not.mpr ha)]
    cases hw : hasNumericWildcard false false 0 regex.tail.dropLast with
    | error message => simp
    | ok wildcard =>
      by_cases hm : (wildcard = false ∧ regex ≠ exactTagsRegex [tag]) ∨ ¬ FullMatches regex tag
      · simp only [if_pos hm]
        constructor
        · intro h
          cases h
        · rintro ⟨-,-,found,hfound,hx,hfull⟩
          cases hfound
          rcases hm with ⟨hwild,he⟩ | hm
          · rcases hx with hx | hx
            · rw [hwild] at hx
              cases hx
            · exact absurd hx he
          · exact absurd hfull hm
      · simp only [if_neg hm]
        obtain ⟨h1,h2⟩ := not_or.mp hm
        refine ⟨fun _ => ⟨ha.1,ha.2,wildcard,rfl,?_,not_not.mp h2⟩,fun _ => trivial⟩
        cases wildcard with
        | true => exact .inl rfl
        | false => exact .inr (by_contra fun he => h1 ⟨rfl,he⟩)
  · rw [validatedRegex,if_pos ha]
    constructor
    · intro h
      cases h
    · rintro ⟨hhead,hlast,-⟩
      exact absurd ⟨hhead,hlast⟩ ha

/-- An accepted expression is its tokens between the anchors. -/
theorem tokens_of_validated {regex tag : Str} (h : validatedRegex regex tag = .ok ()) :
    regex = '^' :: tokensText (patternTokens regex) ++ ['$'] ∧ (∀ token ∈ patternTokens regex, token.Lawful) ∧
      NumbersApart false (patternTokens regex) := by
  obtain ⟨hhead,hlast,wildcard,hw,-,-⟩ := validatedRegex_ok.mp h
  obtain ⟨tokens,hbody,hlawful,hapart,-⟩ := exists_tokens (Nat.le_refl _) hw
  have htokens : patternTokens regex = tokens := by
    rw [patternTokens,hbody,tokensOf_tokensText hlawful]
  rw [htokens]
  exact ⟨anchored_iff.mp ⟨hhead,hlast,hbody⟩,hlawful,hapart⟩

/-! The tokens of the expression made from a tag. -/

def literals (text : Str) : List RegexToken := text.map .literal

/-- The token for a character of a tag or for a number in it. -/
def markToken : Option Char → RegexToken
  | none => .number
  | some c => if c = '.' then .dot else .literal c

def shapeTokens (text : Str) : List RegexToken := (shape text).map markToken

/-- The characters of tags. -/
def TagText (text : Str) : Prop := ∀ c ∈ text, tokenChar c = true ∨ c = '.'

theorem tagText_of_valid {tag : Str} (h : tagValueValid tag = true) : TagText tag := by
  intro c hc
  have hchar := tagChar_of_valid h c hc
  simp only [tagWordChar,Bool.or_eq_true,decide_eq_true_eq] at hchar
  simp only [tokenChar,Bool.or_eq_true,decide_eq_true_eq]
  obtain (hword | hdot) | hdash := hchar
  · exact .inl (.inl hword)
  · exact .inr hdot
  · exact .inl (.inr hdash)

theorem tokensText_append (left right : List RegexToken) :
    tokensText (left ++ right) = tokensText left ++ tokensText right := List.flatMap_append

theorem tokensText_literals (text : Str) : tokensText (literals text) = text := by
  induction text with
  | nil => rfl
  | cons c text ih => exact congrArg (c :: ·) ih

theorem lawful_literals {text : Str} (h : ∀ c ∈ text, tokenChar c = true) :
    ∀ token ∈ literals text, token.Lawful := by
  intro token ht
  obtain ⟨c,hc,rfl⟩ := List.mem_map.mp ht
  exact h c hc

theorem numbersApart_literals (unseparated : Bool) (text : Str) : NumbersApart unseparated (literals text) := by
  induction text generalizing unseparated with
  | nil => trivial
  | cons c text ih => exact ih _

theorem numbersApart_append_literals {text : Str} {tokens : List RegexToken} (h : NumbersApart false tokens) :
    NumbersApart false (literals text ++ tokens) := by
  induction text with
  | nil => exact h
  | cons c text ih =>
    change NumbersApart (if _ then false else false) _
    rwa [ite_self]

theorem shapeTokens_literal {c : Char} {rest : Str} (hc : c.isDigit = false) :
    shapeTokens (c :: rest) = markToken (some c) :: shapeTokens rest := by
  rw [shapeTokens,shape_literal hc]
  rfl

theorem special_of_tokenChar {c : Char} (h : tokenChar c = true) : Regex.special c = false :=
  Regex.special_of_class (by decide) h

theorem escape_of_tokenChar {c : Char} (h : tokenChar c = true) : jsRegexEscape [c] = [c] := by
  have hs := special_of_tokenChar h
  simpa [jsRegexEscape,Regex.special] using hs

/-- What is not a number is escaped character by character, as its token is written. -/
theorem jsRegexEscape_eq_markToken {c : Char} (h : tokenChar c = true ∨ c = '.') :
    jsRegexEscape [c] = (markToken (some c)).text := by
  by_cases hdot : c = '.'
  · subst hdot
    rfl
  · rw [escape_of_tokenChar (h.resolve_right hdot),markToken,if_neg hdot]
    rfl

theorem generalizeNumbers_eq {text : Str} (h : TagText text) :
    generalizeNumbers text = tokensText (shapeTokens text) := by
  induction text with
  | nil => rfl
  | cons c rest ih =>
    have ih := ih fun d hd => h d (List.mem_cons_of_mem _ hd)
    by_cases hc : c.isDigit = true
    · by_cases hr : rest.head?.any Char.isDigit = true
      · simpa [generalizeNumbers,shapeTokens,shape,hc,hr] using ih
      · simpa [generalizeNumbers,shapeTokens,shape,hc,hr,tokensText,markToken,RegexToken.text] using ih
    · rw [generalizeNumbers,if_neg hc,jsRegexEscape_eq_markToken (h c (by simp)),ih,
        shapeTokens_literal (by simpa using hc)]
      rfl

theorem mem_of_mem_shape {c : Char} {text : Str} (h : some c ∈ shape text) : c ∈ text := by
  induction text with
  | nil => simp [shape] at h
  | cons d rest ih =>
    rw [shape] at h
    split at h
    · refine List.mem_cons_of_mem _ (ih ?_)
      split at h <;> simpa using h
    · rcases List.mem_cons.mp h with he | h
      · cases he
        simp
      · exact List.mem_cons_of_mem _ (ih h)

theorem lawful_shapeTokens {text : Str} (h : TagText text) : ∀ token ∈ shapeTokens text, token.Lawful := by
  intro token ht
  obtain ⟨mark,hm,rfl⟩ := List.mem_map.mp ht
  cases mark with
  | none => trivial
  | some c =>
    rw [markToken]
    split
    · trivial
    · exact (h c (mem_of_mem_shape hm)).resolve_right ‹_›

theorem numbersApart_shapeTokens {unseparated : Bool} {text : Str} (h : unseparated = true → EndsNumber text) :
    NumbersApart unseparated (shapeTokens text) := by
  induction text generalizing unseparated with
  | nil => trivial
  | cons c rest ih =>
    by_cases hc : c.isDigit = true
    · have hu : unseparated = false := by
        by_contra hu
        have := ends_cons.mp (h (by simpa using hu))
        rw [hc] at this
        cases this
      subst hu
      by_cases hr : rest.head?.any Char.isDigit = true
      · have he : shapeTokens (c :: rest) = shapeTokens rest := by simp [shapeTokens,shape,hc,hr]
        rw [he]
        exact ih (by simp)
      · have he : shapeTokens (c :: rest) = .number :: shapeTokens rest := by
          simp [shapeTokens,shape,hc,hr,markToken]
        rw [he]
        refine ⟨rfl,ih fun _ => ?_⟩
        rw [ends_iff_any]
        simpa using hr
    · rw [shapeTokens_literal (by simpa using hc),markToken]
      split
      · simp only [NumbersApart,RegexToken.separates,if_true]
        exact ih (by simp)
      · have hseparates : RegexToken.separates (.literal c) = true := by simpa [RegexToken.separates] using hc
        simp only [NumbersApart,hseparates,if_true]
        exact ih (by simp)

/-- Without a number the expression is the escaped text. -/
theorem generalizeNumbers_of_plain {text : Str} (h : (shapeTokens text).any RegexToken.wildcard = false) :
    generalizeNumbers text = jsRegexEscape text := by
  induction text with
  | nil => rfl
  | cons c rest ih =>
    by_cases hc : c.isDigit = true
    · have hm : none ∈ shape (c :: rest) := List.mem_of_mem_head? (head_shape.mpr (by simpa using hc))
      have hn := List.any_eq_false.mp h .number (List.mem_map_of_mem hm)
      exact absurd rfl hn
    · rw [shapeTokens_literal (by simpa using hc),List.any_cons,Bool.or_eq_false_iff] at h
      rw [generalizeNumbers,if_neg hc,ih h.2]
      have happend : jsRegexEscape ([c] ++ rest) = jsRegexEscape [c] ++ jsRegexEscape rest := List.flatMap_append
      exact happend.symm

theorem lawful_append {left right : List RegexToken} (hl : ∀ token ∈ left, token.Lawful)
    (hr : ∀ token ∈ right, token.Lawful) : ∀ token ∈ left ++ right, token.Lawful :=
  List.forall_mem_append.mpr ⟨hl,hr⟩

theorem tagText_outside {tag : Str} (h : TagText tag) {version : LeadingVersion}
    (hv : leadingDottedVersion tag = some version) : TagText version.rest := by
  obtain ⟨rfl,-⟩ := leadingDottedVersion_eq_some.mp hv
  exact fun c hc => h c (List.mem_append_right _ (List.mem_append_right _ hc))

theorem lead_tokenChar {lead : Str} (hl : IsLead lead) : ∀ c ∈ lead, tokenChar c = true := by
  rcases hl with rfl | rfl
  · simp
  · simp [tokenChar]

theorem major_tokenChar {version : LeadingVersion} (h : VersionText version) :
    ∀ c ∈ version.major, tokenChar c = true := by
  intro c hc
  rcases List.mem_append.mp hc with hc | hc
  · exact lead_tokenChar h.lead c hc
  · have hd := List.mem_takeWhile_imp hc
    simp [tokenChar,Char.isAlphanum,hd]

/-- The expression is written with tokens that pass, and is exact where it has no wildcard. -/
theorem RetagForm.exists_tokens {tag regex : Str} {language : Language Char} (h : RetagForm tag regex language)
    (ht : TagText tag) : ∃ tokens, regex = '^' :: tokensText tokens ++ ['$'] ∧ (∀ token ∈ tokens, token.Lawful) ∧
      NumbersApart false tokens ∧ (tokens.any RegexToken.wildcard = true ∨ regex = exactTagRegex tag) := by
  have hversion : ∀ token ∈ [RegexToken.number,.dotted], token.Lawful := by simp [RegexToken.Lawful]
  cases h with
  | @alpine version hv hr =>
    obtain ⟨-,hv⟩ := leadingDottedVersion_eq_some.mp hv
    have hsuffix : ∀ token ∈ literals alpineSuffix, token.Lawful :=
      lawful_literals (forall_mem_of_all (by decide))
    have hdotted : ∀ token ∈ RegexToken.dotted :: literals alpineSuffix, token.Lawful :=
      List.forall_mem_cons.mpr ⟨trivial,hsuffix⟩
    refine ⟨literals version.major ++ .dotted :: literals alpineSuffix,?_,
      lawful_append (lawful_literals (major_tokenChar hv)) hdotted,?_,?_⟩
    · rw [tokensText_append,tokensText_literals]
      change _ = '^' :: (version.major ++ (dottedNumbersRegex ++ tokensText (literals alpineSuffix))) ++ ['$']
      rw [tokensText_literals]
    · exact numbersApart_append_literals (numbersApart_literals true alpineSuffix)
    · exact .inl (by simp [RegexToken.wildcard])
  | @dotted version hv hr =>
    obtain ⟨-,hv⟩ := leadingDottedVersion_eq_some.mp hv
    refine ⟨literals version.lead ++ [.number,.dotted],?_,
      lawful_append (lawful_literals (lead_tokenChar hv.lead)) hversion,?_,?_⟩
    · rw [tokensText_append,tokensText_literals]
      rfl
    · exact numbersApart_append_literals ⟨rfl,trivial⟩
    · exact .inl (by simp [RegexToken.wildcard])
  | @leading version hv hr ha hm =>
    have hrest := tagText_outside ht hv
    obtain ⟨-,hv⟩ := leadingDottedVersion_eq_some.mp hv
    refine ⟨literals version.lead ++ ([.number,.dotted] ++ shapeTokens version.rest),?_,
      lawful_append (lawful_literals (lead_tokenChar hv.lead)) (lawful_append hversion (lawful_shapeTokens hrest)),?_,?_⟩
    · rw [tokensText_append,tokensText_literals,tokensText_append,generalizeNumbers_eq hrest,List.append_assoc]
      rfl
    · exact numbersApart_append_literals ⟨rfl,numbersApart_shapeTokens fun _ => hv.stops.1⟩
    · exact .inl (by simp [RegexToken.wildcard])
  | numbers hn =>
    refine ⟨shapeTokens tag,by rw [generalizeNumbers_eq ht],lawful_shapeTokens ht,numbersApart_shapeTokens (by simp),?_⟩
    cases hw : (shapeTokens tag).any RegexToken.wildcard with
    | true => exact .inl rfl
    | false =>
      rw [generalizeNumbers_of_plain hw]
      exact .inr rfl

theorem ends_of_dotNumbers {text : Str} (h : text ∈ dotNumbers) : EndsNumber text := by
  obtain ⟨-,hhead⟩ := mem_dotNumbers_iff.mp h
  intro c hc
  rw [hhead] at hc
  cases hc
  rfl

theorem major_eq {lead digits dots rest : Str} (hd : digits ∈ Regex.numbers) (hdots : dots ∈ dotNumbers) :
    LeadingVersion.major ⟨lead,digits ++ dots,rest⟩ = lead ++ digits :=
  congrArg (lead ++ ·) (takeWhile_append hd.2 (ends_of_dotNumbers hdots)).1

/-- A version's first number, and the numbers after its dots. -/
theorem VersionText.exists_dots {version : LeadingVersion} (h : VersionText version) :
    ∃ digits dots, digits ∈ Regex.numbers ∧ dots ∈ dotNumbers ∧ version.run = digits ++ dots ∧
      version.major = version.lead ++ digits := by
  obtain ⟨lead,run,rest⟩ := version
  obtain ⟨digits,hd,dots,hdots,rfl⟩ := Language.mem_mul.mp (mem_version_iff.mpr ⟨h.run,h.number,h.dotted⟩)
  exact ⟨digits,dots,hd,hdots,rfl,major_eq hd hdots⟩

/-- The expression admits the tag it is made from. -/
theorem RetagForm.mem {tag regex : Str} {language : Language Char} (h : RetagForm tag regex language) :
    tag ∈ language := by
  have hrun : ∀ {version}, VersionText version → version.run ∈ Regex.numbers * dotNumbers :=
    fun hv => mem_version_iff.mpr ⟨hv.run,hv.number,hv.dotted⟩
  cases h with
  | @alpine version hv hr =>
    obtain ⟨rfl,htext⟩ := leadingDottedVersion_eq_some.mp hv
    obtain ⟨digits,dots,-,hdots,he,hmajor⟩ := htext.exists_dots
    refine Language.mem_mul.mpr ⟨version.major,rfl,_,Language.mem_mul.mpr ⟨dots,hdots,_,rfl,rfl⟩,?_⟩
    rw [hmajor,LeadingVersion.text,he,hr]
    simp
  | @dotted version hv hr =>
    obtain ⟨rfl,htext⟩ := leadingDottedVersion_eq_some.mp hv
    refine Language.mem_mul.mpr ⟨version.lead,rfl,version.run,hrun htext,?_⟩
    rw [LeadingVersion.text,hr,List.append_nil]
  | @leading version hv hr ha hm =>
    obtain ⟨rfl,htext⟩ := leadingDottedVersion_eq_some.mp hv
    refine Language.mem_mul.mpr ⟨_,Language.mem_mul.mpr ⟨version.lead,rfl,version.run,hrun htext,rfl⟩,version.rest,rfl,?_⟩
    rw [LeadingVersion.text,List.append_assoc]
  | numbers hn => exact mem_sameShape.mpr rfl

/-- A version with the lead of another and its own numbers. -/
theorem versionText_of_run {version : LeadingVersion} (hv : VersionText version) {run rest : Str}
    (hrun : run ∈ Regex.numbers * dotNumbers) (hrest : shape rest = shape version.rest) :
    leadingDottedVersion (version.lead ++ (run ++ rest)) = some ⟨version.lead,run,rest⟩ := by
  obtain ⟨hrun,hhead,hdot⟩ := mem_version_iff.mp hrun
  exact leadingDottedVersion_eq_some.mpr ⟨rfl,hv.lead,hrun,hhead,hdot,stopsVersion_of_shape hrest hv.stops⟩

/-- What a tag that the expression admits has in common with the tag it was made from. -/
structure KeepsStream (tag other : Str) : Prop where
  lead : ∀ version, leadingDottedVersion tag = some version →
    ∃ found, leadingDottedVersion other = some found ∧ found.lead = version.lead
  major : ∀ major, alpineVersion tag = some major → alpineVersion other = some major
  outside : shape (outsideLeadingVersion other) = shape (outsideLeadingVersion tag)

theorem keepsStream_of_version {version found : LeadingVersion} {tag other : Str}
    (ht : leadingDottedVersion tag = some version) (ho : leadingDottedVersion other = some found)
    (hlead : found.lead = version.lead) (hrest : shape found.rest = shape version.rest)
    (hmajor : version.rest = alpineSuffix → found.rest = alpineSuffix ∧ found.major = version.major) :
    KeepsStream tag other := by
  constructor
  · intro v hv
    rw [ht] at hv
    cases hv
    exact ⟨found,ho,hlead⟩
  · intro major h
    rw [alpineVersion,ht,Option.bind_some] at h
    split at h
    · rename_i ha
      cases h
      obtain ⟨hr,hm⟩ := hmajor ha
      rw [alpineVersion,ho,Option.bind_some,if_pos hr]
      exact congrArg some hm
    · cases h
  · rw [outsideLeadingVersion,outsideLeadingVersion,ht,ho]
    exact hrest

theorem RetagForm.keeps {tag regex other : Str} {language : Language Char} (h : RetagForm tag regex language)
    (ho : other ∈ language) : KeepsStream tag other := by
  cases h with
  | @alpine version hv hr =>
    obtain ⟨-,htext⟩ := leadingDottedVersion_eq_some.mp hv
    obtain ⟨_,rfl,_,⟨dots,hdots,_,rfl,rfl⟩,rfl⟩ := ho
    obtain ⟨digits,_,hd,-,-,hmajor⟩ := htext.exists_dots
    have hfound := versionText_of_run htext (Language.mem_mul.mpr ⟨digits,hd,dots,hdots,rfl⟩)
      (congrArg shape hr.symm)
    have htag : version.major ++ (dots ++ alpineSuffix) = version.lead ++ ((digits ++ dots) ++ alpineSuffix) := by
      rw [hmajor]
      simp
    rw [← htag] at hfound
    exact keepsStream_of_version hv hfound rfl (by rw [hr]) fun _ => ⟨rfl,(major_eq hd hdots).trans hmajor.symm⟩
  | @dotted version hv hr =>
    obtain ⟨-,htext⟩ := leadingDottedVersion_eq_some.mp hv
    obtain ⟨_,rfl,run,hrun,rfl⟩ := ho
    have hfound := versionText_of_run htext hrun (congrArg shape hr.symm)
    rw [List.append_nil] at hfound
    refine keepsStream_of_version hv hfound rfl (by rw [hr]) ?_
    rw [hr]
    intro ha
    cases ha
  | @leading version hv hr ha hm =>
    obtain ⟨-,htext⟩ := leadingDottedVersion_eq_some.mp hv
    obtain ⟨_,⟨_,rfl,run,hrun,rfl⟩,rest,hrest,rfl⟩ := ho
    have hfound := versionText_of_run htext hrun hrest
    rw [← List.append_assoc] at hfound
    exact keepsStream_of_version hv hfound rfl hrest fun h => absurd h ha
  | numbers hn =>
    refine ⟨?_,?_,shape_outside_eq ho⟩
    · intro version hv
      obtain ⟨found,hfound,hlead,-⟩ := exists_version_of_shape ho hv
      exact ⟨found,hfound,hlead⟩
    · intro major h
      obtain ⟨version,hv,hrest⟩ := Option.bind_eq_some_iff.mp h
      rw [if_neg (hn version hv).1] at hrest
      cases hrest

/-- The expression made from an installed tag matches it and passes the check of tracking expressions. What it
admits has the tag's lead before a dotted version, its major on an Alpine channel, and its text between the
numbers outside the version. -/
theorem retag_regex_keeps_stream {tag : Str} (valid : tagValueValid tag = true) :
    ∃ regex, retagTagIncludeRegex tag = .ok regex ∧ FullMatches regex tag ∧ validatedRegex regex tag = .ok () ∧
      ∀ other, TagMatches regex other →
        (∀ version, leadingDottedVersion tag = some version →
          ∃ found, leadingDottedVersion other = some found ∧ found.lead = version.lead) ∧
        (∀ major, alpineVersion tag = some major → alpineVersion other = some major) ∧
        literalFragments (outsideLeadingVersion other) = literalFragments (outsideLeadingVersion tag) := by
  obtain ⟨regex,language,hregex,hform⟩ := exists_retagForm valid
  have hfull : FullMatches regex tag := (hform.admits tag).2.mpr hform.mem
  obtain ⟨tokens,htokens,hlawful,hapart,hexact⟩ := hform.exists_tokens (tagText_of_valid valid)
  obtain ⟨hhead,hlast,hbody⟩ := anchored_iff.mpr htokens
  refine ⟨regex,hregex,hfull,?_,?_⟩
  · refine validatedRegex_ok.mpr ⟨hhead,hlast,_,?_,hexact,hfull⟩
    rw [hbody,hasNumericWildcard_tokensText hlawful hapart,Bool.false_or]
  · intro other ho
    have hkeeps := hform.keeps ((hform.admits other).1.mp ho)
    exact ⟨hkeeps.lead,hkeeps.major,by rw [literalFragments,literalFragments,hkeeps.outside]⟩

theorem retag_regex_alpine : ∃ regex, retagTagIncludeRegex "v3.19.1-alpine".toList = .ok regex ∧
    FullMatches regex "v3.19.1-alpine".toList ∧ validatedRegex regex "v3.19.1-alpine".toList = .ok () ∧
    ∀ other, TagMatches regex other →
      (∀ version, leadingDottedVersion "v3.19.1-alpine".toList = some version →
        ∃ found, leadingDottedVersion other = some found ∧ found.lead = version.lead) ∧
      (∀ major, alpineVersion "v3.19.1-alpine".toList = some major → alpineVersion other = some major) ∧
      literalFragments (outsideLeadingVersion other) =
        literalFragments (outsideLeadingVersion "v3.19.1-alpine".toList) :=
  retag_regex_keeps_stream (by decide)

end Wudup
