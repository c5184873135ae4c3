import Wudup.TrackingFilters

/-! The ways in which a tracking expression matches a text. -/
namespace Wudup
open Library

/-- The texts of a token. -/
def RegexToken.language : RegexToken → Language Char
  | literal c => {[c]}
  | dot => {['.']}
  | number => Regex.numbers
  | dotted => dotNumbers

/-- What a token consumes, repetition by repetition. -/
def RegexToken.Consumes : RegexToken → List Str → Prop
  | literal c,parts => parts = [[c]]
  | dot,parts => parts = [['.']]
  | number,parts => parts ≠ [] ∧ ∀ part ∈ parts, part ∈ Regex.digits
  | dotted,parts => parts ≠ [] ∧ ∀ part ∈ parts, part ∈ dotNumber

/-- A way to match a text: the parts that each token consumes. -/
def IsWay : List RegexToken → List (List Str) → Str → Prop
  | [],[],text => text = []
  | token :: tokens,parts :: way,text =>
    token.Consumes parts ∧ ∃ rest, text = parts.flatten ++ rest ∧ IsWay tokens way rest
  | _,_,_ => False

/-- Whether every text of the tokens starts with a digit. -/
def startsDigit : List RegexToken → Bool
  | .literal c :: _ => c.isDigit
  | .number :: _ => true
  | _ => false

/-- Whether the tokens stop the numbers and dots of a group before them, ahead of another group. -/
def stopsGroup : List RegexToken → Bool
  | [] => true
  | .literal c :: rest => !c.isDigit || stopsGroup rest
  | .dot :: rest => !startsDigit rest || stopsGroup rest
  | .number :: rest => stopsGroup rest
  | .dotted :: _ => false

def GroupsApart : List RegexToken → Bool
  | [] => true
  | .dotted :: rest => stopsGroup rest && GroupsApart rest
  | _ :: rest => GroupsApart rest

/-! Matches are ways. -/

theorem mem_plus_iff {language : Language Char} {text : Str} : text ∈ language * KStar.kstar language ↔
    ∃ parts : List Str, (parts ≠ [] ∧ ∀ part ∈ parts, part ∈ language) ∧ text = parts.flatten := by
  rw [Language.mem_mul]
  constructor
  · rintro ⟨first,hf,_,hr,rfl⟩
    obtain ⟨parts,rfl,hp⟩ := Language.mem_kstar.mp hr
    exact ⟨first :: parts,⟨by simp,List.forall_mem_cons.mpr ⟨hf,hp⟩⟩,rfl⟩
  · rintro ⟨parts,⟨hne,hp⟩,rfl⟩
    cases parts with
    | nil => exact absurd rfl hne
    | cons first parts =>
      obtain ⟨hf,hp⟩ := List.forall_mem_cons.mp hp
      exact ⟨first,hf,parts.flatten,Language.mem_kstar.mpr ⟨parts,rfl,hp⟩,rfl⟩

theorem RegexToken.mem_language {token : RegexToken} {text : Str} :
    text ∈ token.language ↔ ∃ parts, token.Consumes parts ∧ text = parts.flatten := by
  cases token with
  | literal c =>
    constructor
    · rintro rfl
      exact ⟨_,rfl,rfl⟩
    · rintro ⟨_,rfl,rfl⟩
      rfl
  | dot =>
    constructor
    · rintro rfl
      exact ⟨_,rfl,rfl⟩
    · rintro ⟨_,rfl,rfl⟩
      rfl
  | number =>
    rw [RegexToken.language,← Regex.digits_plus]
    exact mem_plus_iff
  | dotted => exact mem_plus_iff

theorem isWay_cons {token : RegexToken} {tokens : List RegexToken} {way : List (List Str)} {text : Str} :
    IsWay (token :: tokens) way text ↔ ∃ parts more, way = parts :: more ∧ token.Consumes parts ∧
      ∃ rest, text = parts.flatten ++ rest ∧ IsWay tokens more rest := by
  constructor
  · intro h
    cases way with
    | nil => cases h
    | cons parts more => exact ⟨parts,more,rfl,h⟩
  · rintro ⟨parts,more,rfl,h⟩
    exact h

theorem exists_way_iff {tokens : List RegexToken} {text : Str} :
    (∃ way, IsWay tokens way text) ↔ text ∈ (tokens.map RegexToken.language).prod := by
  induction tokens generalizing text with
  | nil =>
    constructor
    · rintro ⟨way,h⟩
      cases way with
      | nil => exact h
      | cons parts way => cases h
    · intro h
      exact ⟨[],h⟩
  | cons token tokens ih =>
    rw [List.map_cons,List.prod_cons,Language.mem_mul]
    constructor
    · rintro ⟨way,h⟩
      obtain ⟨parts,more,-,hc,rest,rfl,hw⟩ := isWay_cons.mp h
      exact ⟨_,token.mem_language.mpr ⟨parts,hc,rfl⟩,rest,ih.mp ⟨more,hw⟩,rfl⟩
    · rintro ⟨left,hl,rest,hr,rfl⟩
      obtain ⟨parts,hc,rfl⟩ := token.mem_language.mp hl
      obtain ⟨more,hw⟩ := ih.mpr hr
      exact ⟨parts :: more,hc,rest,rfl,hw⟩

theorem RegexToken.spells {token : RegexToken} (h : token.Lawful) : Regex.Spells token.text token.language := by
  cases token with
  | literal c =>
    have hs := Regex.Spells.char c
    rw [Regex.escape,special_of_tokenChar h] at hs
    exact hs
  | dot => exact Regex.Spells.char '.'
  | number => exact Regex.Spells.numbers
  | dotted => exact spells_dotNumbers

theorem spells_tokensText {tokens : List RegexToken} (h : ∀ token ∈ tokens, token.Lawful) :
    Regex.Spells (tokensText tokens) (tokens.map RegexToken.language).prod := by
  induction tokens with
  | nil => exact .nil
  | cons token tokens ih =>
    obtain ⟨ht,h⟩ := List.forall_mem_cons.mp h
    exact (RegexToken.spells ht).append (ih h)

/-! The parts of a token are determined by the text they make up. -/

theorem eq_of_flatten_digits {parts parts' : List Str} (h : ∀ part ∈ parts, part ∈ Regex.digits)
    (h' : ∀ part ∈ parts', part ∈ Regex.digits) (he : parts.flatten = parts'.flatten) : parts = parts' := by
  have hmap : ∀ {parts : List Str}, (∀ part ∈ parts, part ∈ Regex.digits) →
      parts = parts.flatten.map fun c => [c] := by
    intro parts h
    induction parts with
    | nil => rfl
    | cons part parts ih =>
      obtain ⟨⟨c,-,rfl⟩,hall⟩ := List.forall_mem_cons.mp h
      exact congrArg ([c] :: ·) (ih hall)
  rw [hmap h,hmap h',he]

theorem ends_flatten_dotNumber {parts : List Str} (h : ∀ part ∈ parts, part ∈ dotNumber) : EndsNumber parts.flatten := by
  cases parts with
  | nil => exact ends_nil
  | cons part parts =>
    obtain ⟨_,rfl,digits,-,rfl⟩ := h part (by simp)
    exact ends_cons.mpr rfl

theorem eq_of_flatten_dotNumber {parts parts' : List Str} (h : ∀ part ∈ parts, part ∈ dotNumber)
    (h' : ∀ part ∈ parts', part ∈ dotNumber) (he : parts.flatten = parts'.flatten) : parts = parts' := by
  induction parts generalizing parts' with
  | nil =>
    cases parts' with
    | nil => rfl
    | cons part parts' =>
      obtain ⟨_,rfl,digits,-,rfl⟩ := h' part (by simp)
      cases he
  | cons part parts ih =>
    cases parts' with
    | nil =>
      obtain ⟨_,rfl,digits,-,rfl⟩ := h part (by simp)
      cases he
    | cons part' parts' =>
      obtain ⟨⟨_,rfl,digits,hd,rfl⟩,hall⟩ := List.forall_mem_cons.mp h
      obtain ⟨⟨_,rfl,digits',hd',rfl⟩,hall'⟩ := List.forall_mem_cons.mp h'
      have he : digits ++ parts.flatten = digits' ++ parts'.flatten := (List.cons.inj he).2
      obtain ⟨htake,hdrop⟩ := takeWhile_append hd.2 (ends_flatten_dotNumber hall)
      obtain ⟨htake',hdrop'⟩ := takeWhile_append hd'.2 (ends_flatten_dotNumber hall')
      have hdigits : digits = digits' := by rw [← htake,he,htake']
      have hrest : parts.flatten = parts'.flatten := by rw [← hdrop,he,hdrop']
      rw [hdigits,ih hall hall' hrest]

theorem eq_of_consumes {token : RegexToken} {parts parts' : List Str} (h : token.Consumes parts)
    (h' : token.Consumes parts') (he : parts.flatten = parts'.flatten) : parts = parts' := by
  cases token with
  | literal c => rw [show parts = [[c]] from h,show parts' = [[c]] from h']
  | dot => rw [show parts = [['.']] from h,show parts' = [['.']] from h']
  | number => exact eq_of_flatten_digits h.2 h'.2 he
  | dotted => exact eq_of_flatten_dotNumber h.2 h'.2 he

/-! How many digits and dots of a version the text after a wildcard starts with does not depend on the text. -/

def leadingDigits (text : Str) : ℕ := (text.takeWhile Char.isDigit).length

theorem leadingDigits_append {digits rest : Str} (h : ∀ c ∈ digits, c.isDigit = true) :
    leadingDigits (digits ++ rest) = digits.length + leadingDigits rest := by
  rw [leadingDigits,List.takeWhile_append_of_pos h,List.length_append]
  rfl

theorem leadingDigits_of_ends {text : Str} (h : EndsNumber text) : leadingDigits text = 0 := by
  cases text with
  | nil => rfl
  | cons c rest => simp [leadingDigits,ends_cons.mp h]

theorem number_digits {parts : List Str} (h : RegexToken.number.Consumes parts) : parts.flatten ∈ Regex.numbers :=
  RegexToken.mem_language.mpr ⟨parts,h,rfl⟩

theorem dotted_dotNumbers {parts : List Str} (h : RegexToken.dotted.Consumes parts) : parts.flatten ∈ dotNumbers :=
  RegexToken.mem_language.mpr ⟨parts,h,rfl⟩

theorem leadingDigits_eq {tokens : List RegexToken} (h : NumbersApart true tokens) {way way' : List (List Str)}
    {text text' : Str} (hw : IsWay tokens way text) (hw' : IsWay tokens way' text') :
    leadingDigits text = leadingDigits text' := by
  induction tokens generalizing way way' text text' with
  | nil =>
    cases way with
    | cons parts way => cases hw
    | nil =>
      cases way' with
      | cons parts way => cases hw'
      | nil => rw [show text = [] from hw,show text' = [] from hw']
  | cons token tokens ih =>
    obtain ⟨parts,more,-,hc,rest,rfl,hr⟩ := isWay_cons.mp hw
    obtain ⟨parts',more',-,hc',rest',rfl,hr'⟩ := isWay_cons.mp hw'
    cases token with
    | literal c =>
      obtain rfl : parts = [[c]] := hc
      obtain rfl : parts' = [[c]] := hc'
      by_cases hd : c.isDigit = true
      · have hc : ∀ e ∈ [c], e.isDigit = true := by simpa using hd
        have h : NumbersApart true tokens := by
          have hs : RegexToken.separates (.literal c) = false := by simp [RegexToken.separates,hd]
          change NumbersApart (if RegexToken.separates (.literal c) then false else true) tokens at h
          rwa [hs] at h
        simp only [List.flatten_cons,List.flatten_nil,List.append_nil]
        rw [leadingDigits_append hc,leadingDigits_append hc,ih h hr hr']
      · have hends : ∀ {rest : Str}, EndsNumber ([[c]].flatten ++ rest) := ends_cons.mpr (by simpa using hd)
        rw [leadingDigits_of_ends hends,leadingDigits_of_ends hends]
    | dot =>
      obtain rfl : parts = [['.']] := hc
      obtain rfl : parts' = [['.']] := hc'
      have hends : ∀ {rest : Str}, EndsNumber ([['.']].flatten ++ rest) := ends_cons.mpr rfl
      rw [leadingDigits_of_ends hends,leadingDigits_of_ends hends]
    | number => cases h.1
    | dotted =>
      have hends : ∀ {parts : List Str} {rest : Str}, RegexToken.dotted.Consumes parts →
          EndsNumber (parts.flatten ++ rest) := by
        intro parts rest hc
        cases parts with
        | nil => exact absurd rfl hc.1
        | cons part parts =>
          obtain ⟨_,rfl,digits,-,rfl⟩ := hc.2 part (by simp)
          exact ends_cons.mpr rfl
      rw [leadingDigits_of_ends (hends hc),leadingDigits_of_ends (hends hc')]

/-- How many dots of a version a text starts with. -/
def leadingDots (text : Str) : ℕ := (versionRun text).1.count '.'

theorem leadingDots_append {run rest : Str} (h : RunText run) :
    leadingDots (run ++ rest) = run.count '.' + leadingDots rest := by
  rw [leadingDots,versionRun_run_append h,List.count_append]
  rfl

theorem leadingDots_of_stops {text : Str} (h : StopsVersion text) : leadingDots text = 0 := by
  rw [leadingDots,versionRun_of_stops h]
  rfl

theorem head_isWay {tokens : List RegexToken} {way : List (List Str)} {text : Str} (h : IsWay tokens way text) :
    text.head?.any Char.isDigit = startsDigit tokens := by
  cases tokens with
  | nil =>
    cases way with
    | nil =>
      rw [show text = [] from h]
      rfl
    | cons parts way => cases h
  | cons token tokens =>
    obtain ⟨parts,more,-,hc,rest,rfl,-⟩ := isWay_cons.mp h
    cases token with
    | literal c =>
      obtain rfl : parts = [[c]] := hc
      rfl
    | dot =>
      obtain rfl : parts = [['.']] := hc
      rfl
    | number =>
      cases parts with
      | nil => exact absurd rfl hc.1
      | cons part parts =>
        obtain ⟨c,hd,rfl⟩ := hc.2 part (by simp)
        exact hd
    | dotted =>
      cases parts with
      | nil => exact absurd rfl hc.1
      | cons part parts =>
        obtain ⟨_,rfl,digits,-,rfl⟩ := hc.2 part (by simp)
        rfl

theorem leadingDots_eq {tokens : List RegexToken} (hl : ∀ token ∈ tokens, token.Lawful) (h : stopsGroup tokens = true)
    {way way' : List (List Str)} {text text' : Str} (hw : IsWay tokens way text) (hw' : IsWay tokens way' text') :
    leadingDots text = leadingDots text' := by
  induction tokens generalizing way way' text text' with
  | nil =>
    cases way with
    | cons parts way => cases hw
    | nil =>
      cases way' with
      | cons parts way => cases hw'
      | nil => rw [show text = [] from hw,show text' = [] from hw']
  | cons token tokens ih =>
    obtain ⟨htoken,hall⟩ := List.forall_mem_cons.mp hl
    obtain ⟨parts,more,-,hc,rest,rfl,hr⟩ := isWay_cons.mp hw
    obtain ⟨parts',more',-,hc',rest',rfl,hr'⟩ := isWay_cons.mp hw'
    cases token with
    | literal c =>
      obtain rfl : parts = [[c]] := hc
      obtain rfl : parts' = [[c]] := hc'
      simp only [List.flatten_cons,List.flatten_nil,List.append_nil]
      by_cases hd : c.isDigit = true
      · have hrun : RunText [c] := ⟨.inl hd,trivial⟩
        have h : stopsGroup tokens = true := by simpa [stopsGroup,hd] using h
        rw [leadingDots_append hrun,leadingDots_append hrun,ih hall h hr hr']
      · have hne : c ≠ '.' := by
          rintro rfl
          cases htoken
        have hstops : ∀ {rest : Str}, StopsVersion ([c] ++ rest) :=
          ⟨ends_cons.mpr (by simpa using hd),fun after he => absurd (List.cons.inj he).1 hne⟩
        rw [leadingDots_of_stops hstops,leadingDots_of_stops hstops]
    | dot =>
      obtain rfl : parts = [['.']] := hc
      obtain rfl : parts' = [['.']] := hc'
      simp only [List.flatten_cons,List.flatten_nil,List.append_nil]
      by_cases hd : startsDigit tokens = true
      · have h : stopsGroup tokens = true := by simpa [stopsGroup,hd] using h
        have hdots : ∀ {way : List (List Str)} {rest : Str}, IsWay tokens way rest →
            leadingDots (['.'] ++ rest) = leadingDots rest + 1 := by
          intro way rest hr
          have hhead := (head_isWay hr).trans hd
          have hcond : ('.'.isDigit || (decide ('.' = '.') && rest.head?.any Char.isDigit)) = true := by simp [hhead]
          rw [leadingDots,List.singleton_append,versionRun,if_pos hcond,List.count_cons_self]
          rfl
        rw [hdots hr,hdots hr',ih hall h hr hr']
      · have hstops : ∀ {way : List (List Str)} {rest : Str}, IsWay tokens way rest → StopsVersion (['.'] ++ rest) := by
          intro way rest hr
          refine ⟨ends_cons.mpr rfl,fun after he => ?_⟩
          have he : rest = after := (List.cons.inj he).2
          rw [← he,ends_iff_any,head_isWay hr]
          simpa using hd
        rw [leadingDots_of_stops (hstops hr),leadingDots_of_stops (hstops hr')]
    | number =>
      have hrun : ∀ {parts : List Str}, RegexToken.number.Consumes parts →
          RunText parts.flatten ∧ parts.flatten.count '.' = 0 := by
        intro parts hc
        have hdigits := number_digits hc
        refine ⟨runText_numbers hdigits,List.count_eq_zero.mpr fun hm => ?_⟩
        exact absurd (hdigits.2 '.' hm) (by decide)
      rw [leadingDots_append (hrun hc).1,leadingDots_append (hrun hc').1,(hrun hc).2,(hrun hc').2,ih hall h hr hr']
    | dotted => cases h

theorem digits_of_run {run : Str} (h : RunText run) (hdot : '.' ∉ run) : ∀ c ∈ run, c.isDigit = true := by
  induction run with
  | nil => simp
  | cons c run ih =>
    simp only [List.mem_cons,not_or] at hdot
    have hc := h.1.resolve_right fun h => hdot.1 h.1.symm
    exact List.forall_mem_cons.mpr ⟨hc,ih h.2 hdot.2⟩

/-- Two readings of a group agree if what follows it has as many digits and dots in both. -/
theorem eq_of_dotNumbers {left left' rest rest' : Str} (hl : left ∈ dotNumbers) (hl' : left' ∈ dotNumbers)
    (he : left ++ rest = left' ++ rest') (hdots : leadingDots rest = leadingDots rest')
    (hdigits : leadingDigits rest = leadingDigits rest') : left = left' := by
  have hcount : left.count '.' = left'.count '.' := by
    have h := congrArg leadingDots he
    rw [leadingDots_append (runText_dotNumbers hl),leadingDots_append (runText_dotNumbers hl')] at h
    omega
  have hextend : ∀ {left more rest : Str}, RunText (left ++ more) → (left ++ more).count '.' = left.count '.' →
      leadingDigits (more ++ rest) = leadingDigits rest → more = [] := by
    intro left more rest hrun hcount hdigits
    have hdot : '.' ∉ more := by
      rw [List.count_append] at hcount
      exact List.count_eq_zero.mp (by omega)
    have hall := digits_of_run hrun.right hdot
    rw [leadingDigits_append hall] at hdigits
    exact List.length_eq_zero_iff.mp (by omega)
  rcases List.append_eq_append_iff.mp he with ⟨more,rfl,rfl⟩ | ⟨more,rfl,rfl⟩
  · rw [hextend (runText_dotNumbers hl') hcount.symm hdigits,List.append_nil]
  · rw [hextend (runText_dotNumbers hl) hcount hdigits.symm,List.append_nil]

theorem eq_of_numbers {left left' rest rest' : Str} (hl : left ∈ Regex.numbers) (hl' : left' ∈ Regex.numbers)
    (he : left ++ rest = left' ++ rest') (hdigits : leadingDigits rest = leadingDigits rest') : left = left' := by
  have h := congrArg leadingDigits he
  rw [leadingDigits_append hl.2,leadingDigits_append hl'.2] at h
  exact List.append_inj_left he (by omega)

/-- With numbers and groups apart there is one way to match a text. -/
theorem way_unique {unseparated : Bool} {tokens : List RegexToken} (hl : ∀ token ∈ tokens, token.Lawful)
    (hn : NumbersApart unseparated tokens) (hg : GroupsApart tokens = true) {way way' : List (List Str)} {text : Str}
    (hw : IsWay tokens way text) (hw' : IsWay tokens way' text) : way = way' := by
  induction tokens generalizing unseparated way way' text with
  | nil =>
    cases way with
    | cons parts way => cases hw
    | nil =>
      cases way' with
      | cons parts way => cases hw'
      | nil => rfl
  | cons token tokens ih =>
    obtain ⟨htoken,hall⟩ := List.forall_mem_cons.mp hl
    obtain ⟨parts,more,rfl,hc,rest,rfl,hr⟩ := isWay_cons.mp hw
    obtain ⟨parts',more',rfl,hc',rest',he,hr'⟩ := isWay_cons.mp hw'
    have hapart : ∃ unseparated, NumbersApart unseparated tokens := by
      cases token with
      | literal c => exact ⟨_,hn⟩
      | dot => exact ⟨_,hn⟩
      | number => exact ⟨_,hn.2⟩
      | dotted => exact ⟨_,hn⟩
    have hgroups : GroupsApart tokens = true := by
      cases token with
      | literal c => exact hg
      | dot => exact hg
      | number => exact hg
      | dotted => exact (Bool.and_eq_true_iff.mp hg).2
    have hflatten : parts.flatten = parts'.flatten := by
      cases token with
      | literal c => rw [show parts = [[c]] from hc,show parts' = [[c]] from hc']
      | dot => rw [show parts = [['.']] from hc,show parts' = [['.']] from hc']
      | number => exact eq_of_numbers (number_digits hc) (number_digits hc') he (leadingDigits_eq hn.2 hr hr')
      | dotted =>
        have hstops : stopsGroup tokens = true := (Bool.and_eq_true_iff.mp hg).1
        exact eq_of_dotNumbers (dotted_dotNumbers hc) (dotted_dotNumbers hc') he (leadingDots_eq hall hstops hr hr')
          (leadingDigits_eq hn hr hr')
    obtain rfl := eq_of_consumes hc hc' hflatten
    obtain rfl := List.append_cancel_left he
    obtain ⟨unseparated,hn⟩ := hapart
    rw [ih hall hn hgroups hr hr']

/-! Two groups that are not apart share the numbers between them in more than one way. -/

def RegexToken.sample : RegexToken → List Str
  | literal c => [[c]]
  | dot => [['.']]
  | number => [['1']]
  | dotted => [['.','1']]

/-- A short text of the tokens. -/
def sampleText (tokens : List RegexToken) : Str := tokens.flatMap fun token => token.sample.flatten

theorem RegexToken.consumes_sample (token : RegexToken) : token.Consumes token.sample := by
  cases token with
  | literal c => rfl
  | dot => rfl
  | number => exact ⟨by simp [sample],List.forall_mem_singleton.mpr ⟨'1',rfl,rfl⟩⟩
  | dotted =>
    have hone : ['1'] ∈ Regex.numbers := ⟨by simp,by simp⟩
    exact ⟨by simp [sample],List.forall_mem_singleton.mpr ⟨['.'],rfl,['1'],hone,rfl⟩⟩

theorem isWay_append {tokens tokens' : List RegexToken} {way way' : List (List Str)} {text text' : Str}
    (h : IsWay tokens way text) (h' : IsWay tokens' way' text') :
    IsWay (tokens ++ tokens') (way ++ way') (text ++ text') := by
  induction tokens generalizing way text with
  | nil =>
    cases way with
    | nil =>
      rw [show text = [] from h]
      exact h'
    | cons parts way => cases h
  | cons token tokens ih =>
    obtain ⟨parts,more,rfl,hc,rest,rfl,hr⟩ := isWay_cons.mp h
    exact ⟨hc,rest ++ text',List.append_assoc _ _ _,ih hr⟩

theorem isWay_singleton {token : RegexToken} {parts : List Str} (h : token.Consumes parts) :
    IsWay [token] [parts] parts.flatten := ⟨h,[],(List.append_nil _).symm,rfl⟩

theorem isWay_sample (tokens : List RegexToken) : IsWay tokens (tokens.map RegexToken.sample) (sampleText tokens) := by
  induction tokens with
  | nil => rfl
  | cons token tokens ih => exact ⟨token.consumes_sample,sampleText tokens,rfl,ih⟩

theorem exists_group_of_stops {tokens : List RegexToken} (h : stopsGroup tokens = false) :
    ∃ between after, tokens = between ++ .dotted :: after ∧ RunText (sampleText between) := by
  induction tokens with
  | nil => cases h
  | cons token tokens ih =>
    cases token with
    | literal c =>
      simp only [stopsGroup,Bool.or_eq_false_iff,Bool.not_eq_false'] at h
      obtain ⟨between,after,rfl,hrun⟩ := ih h.2
      exact ⟨.literal c :: between,after,rfl,.inl h.1,hrun⟩
    | dot =>
      simp only [stopsGroup,Bool.or_eq_false_iff,Bool.not_eq_false'] at h
      obtain ⟨between,after,rfl,hrun⟩ := ih h.2
      refine ⟨.dot :: between,after,rfl,.inr ⟨rfl,?_⟩,hrun⟩
      cases between with
      | nil => cases h.1
      | cons token between =>
        change (sampleText (token :: between)).head?.any Char.isDigit = true
        rw [head_isWay (isWay_sample (token :: between))]
        cases token with
        | literal c => exact h.1
        | dot => cases h.1
        | number => rfl
        | dotted => cases h.1
    | number =>
      obtain ⟨between,after,rfl,hrun⟩ := ih h
      exact ⟨.number :: between,after,rfl,.inl rfl,hrun⟩
    | dotted => exact ⟨[],tokens,rfl,trivial⟩

theorem exists_groups {tokens : List RegexToken} (h : GroupsApart tokens = false) :
    ∃ before between after, tokens = before ++ .dotted :: (between ++ .dotted :: after) ∧
      RunText (sampleText between) := by
  induction tokens with
  | nil => cases h
  | cons token tokens ih =>
    have hcons : GroupsApart tokens = false → ∃ before between after,
        token :: tokens = before ++ .dotted :: (between ++ .dotted :: after) ∧ RunText (sampleText between) := by
      intro h
      obtain ⟨before,between,after,rfl,hrun⟩ := ih h
      exact ⟨token :: before,between,after,rfl,hrun⟩
    cases token with
    | literal c => exact hcons h
    | dot => exact hcons h
    | number => exact hcons h
    | dotted =>
      rcases Bool.and_eq_false_iff.mp h with hs | hg
      · obtain ⟨between,after,rfl,hrun⟩ := exists_group_of_stops hs
        exact ⟨[],between,after,rfl,hrun⟩
      · exact hcons hg

theorem exists_two_ways {tokens : List RegexToken} (h : GroupsApart tokens = false) :
    ∃ text way way', way ≠ way' ∧ IsWay tokens way text ∧ IsWay tokens way' text := by
  obtain ⟨before,between,after,rfl,hrun⟩ := exists_groups h
  have hshort : RegexToken.dotted.Consumes [['.','1']] := RegexToken.dotted.consumes_sample
  have hlong : ['.','1'] ++ (sampleText between ++ ['.','1']) ∈ RegexToken.dotted.language := by
    have hone : RunText ['.','1'] := ⟨.inr ⟨rfl,rfl⟩,.inl rfl,trivial⟩
    exact mem_dotNumbers_iff.mpr ⟨runText_append hone (runText_append hrun hone),rfl⟩
  obtain ⟨parts,hparts,hflatten⟩ := RegexToken.mem_language.mp hlong
  have hways : ∀ {left right : List Str}, RegexToken.dotted.Consumes left → RegexToken.dotted.Consumes right →
      IsWay (before ++ .dotted :: (between ++ .dotted :: after))
        (before.map RegexToken.sample ++ left :: (between.map RegexToken.sample ++ right :: after.map RegexToken.sample))
        (sampleText before ++ (left.flatten ++ (sampleText between ++ (right.flatten ++ sampleText after)))) :=
    fun hl hr => isWay_append (isWay_sample before) (isWay_append (isWay_singleton hl)
      (isWay_append (isWay_sample between) (isWay_append (isWay_singleton hr) (isWay_sample after))))
  have hsame : parts.flatten ++ (sampleText between ++ ([['.','1']].flatten ++ sampleText after)) =
      [['.','1']].flatten ++ (sampleText between ++ (parts.flatten ++ sampleText after)) := by
    rw [← hflatten]
    simp
  have hway' := hways hparts hshort
  rw [hsame] at hway'
  refine ⟨_,_,_,?_,hways hshort hparts,hway'⟩
  intro he
  have hp := (List.cons.inj (List.append_cancel_left he)).1
  rw [← hp] at hflatten
  have hlen := congrArg List.length hflatten
  simp at hlen

/-- The matches of an accepted expression are its ways to split a text over its tokens; there is one way at most
for every text exactly where something stops the numbers between two groups. -/
theorem one_way_iff {regex tag : Str} (h : validatedRegex regex tag = .ok ()) :
    (∀ text, FullMatches regex text ↔ ∃ way, IsWay (patternTokens regex) way text) ∧
    ((∀ text way way', IsWay (patternTokens regex) way text → IsWay (patternTokens regex) way' text → way = way') ↔
      GroupsApart (patternTokens regex) = true) := by
  obtain ⟨hregex,hlawful,hapart⟩ := tokens_of_validated h
  refine ⟨fun text => ?_,?_⟩
  · rw [exists_way_iff]
    exact (matches_anchored (spells_tokensText hlawful) hregex text).2
  · constructor
    · intro hone
      by_contra hg
      obtain ⟨text,way,way',hne,hw,hw'⟩ := exists_two_ways (Bool.not_eq_true _ ▸ hg)
      exact hne (hone text way way' hw hw')
    · exact fun hg text way way' => way_unique hlawful hapart hg

theorem one_way_release : (∀ text, FullMatches "^\\d+(?:\\.\\d+)+-ls\\d+$".toList text ↔
      ∃ way, IsWay (patternTokens "^\\d+(?:\\.\\d+)+-ls\\d+$".toList) way text) ∧
    ((∀ text way way', IsWay (patternTokens "^\\d+(?:\\.\\d+)+-ls\\d+$".toList) way text →
        IsWay (patternTokens "^\\d+(?:\\.\\d+)+-ls\\d+$".toList) way' text → way = way') ↔
      GroupsApart (patternTokens "^\\d+(?:\\.\\d+)+-ls\\d+$".toList) = true) := by
  have h : validatedRegex "^\\d+(?:\\.\\d+)+-ls\\d+$".toList "1.2.3-ls4".toList = .ok () := by decide +kernel
  exact one_way_iff h

/-- Two groups side by side are accepted, and share the numbers of a tag in two ways. -/
theorem two_groups_two_ways :
    validatedRegex "^\\d+(?:\\.\\d+)+(?:\\.\\d+)+$".toList "1.2.3".toList = .ok () ∧
      tagValueValid "1.2.3.4".toList = true ∧
      ∃ way way', way ≠ way' ∧
        IsWay (patternTokens "^\\d+(?:\\.\\d+)+(?:\\.\\d+)+$".toList) way "1.2.3.4".toList ∧
        IsWay (patternTokens "^\\d+(?:\\.\\d+)+(?:\\.\\d+)+$".toList) way' "1.2.3.4".toList := by
  have htokens : patternTokens "^\\d+(?:\\.\\d+)+(?:\\.\\d+)+$".toList = [.number,.dotted,.dotted] := by decide
  have hpart : ∀ c : Char, c.isDigit = true → ['.',c] ∈ dotNumber := by
    intro c hc
    exact ⟨['.'],rfl,[c],⟨by simp,by simpa using hc⟩,rfl⟩
  have hnumber : RegexToken.number.Consumes [['1']] := RegexToken.number.consumes_sample
  have hone : ∀ c : Char, c.isDigit = true → RegexToken.dotted.Consumes [['.',c]] :=
    fun c hc => ⟨by simp,List.forall_mem_singleton.mpr (hpart c hc)⟩
  have htwo : ∀ c d : Char, c.isDigit = true → d.isDigit = true → RegexToken.dotted.Consumes [['.',c],['.',d]] :=
    fun c d hc hd => ⟨by simp,List.forall_mem_cons.mpr ⟨hpart c hc,List.forall_mem_singleton.mpr (hpart d hd)⟩⟩
  rw [htokens]
  refine ⟨by decide +kernel,by decide,[[['1']],[['.','2']],[['.','3'],['.','4']]],
    [[['1']],[['.','2'],['.','3']],[['.','4']]],by decide,?_,?_⟩
  · exact isWay_append (isWay_singleton hnumber)
      (isWay_append (isWay_singleton (hone '2' rfl)) (isWay_singleton (htwo '3' '4' rfl rfl)))
  · exact isWay_append (isWay_singleton hnumber)
      (isWay_append (isWay_singleton (htwo '2' '3' rfl rfl)) (isWay_singleton (hone '4' rfl)))

end Wudup
