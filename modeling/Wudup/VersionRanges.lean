import Mathlib.Data.Prod.Lex
import Wudup.Library.Decimal
import Wudup.Library.Traverse
import Wudup.LsioUpdates

/-! Strict versions, and the ranges of versions that advisories name. -/
namespace Wudup.Advisory
open Library

/-- Versions are compared number by number. -/
abbrev StrictVersion := ℕ ×ₗ ℕ ×ₗ ℕ

def strictVersionOf (major minor patch : ℕ) : StrictVersion := toLex (major,toLex (minor,patch))

def versionDigits (part : Str) : Bool := part ≠ [] && part.length ≤ 10 && part.all Char.isDigit

/-- Two or three numbers with dots between them, after a `v` or not. -/
def readStrictVersion (text : Str) : Option StrictVersion :=
  let body := if text.head? = some 'v' || text.head? = some 'V' then text.tail else text
  match body.splitOn '.' with
  | [major,minor] =>
    if versionDigits major && versionDigits minor then
      some (strictVersionOf (digitsValue major) (digitsValue minor) 0)
    else none
  | [major,minor,patch] =>
    if versionDigits major && versionDigits minor && versionDigits patch then
      some (strictVersionOf (digitsValue major) (digitsValue minor) (digitsValue patch))
    else none
  | _ => none

def strictVersion (value : Str) : Option StrictVersion := readStrictVersion (strip value)

inductive VersionOperator where
  | lt
  | le
  | gt
  | ge
  | eq
  deriving DecidableEq, Repr

namespace VersionOperator

def text : VersionOperator → Str
  | lt => "<".toList
  | le => "<=".toList
  | gt => ">".toList
  | ge => ">=".toList
  | eq => "=".toList

def holds (version : StrictVersion) (operator : VersionOperator) (expected : StrictVersion) : Bool :=
  match operator with
  | lt => version < expected
  | le => version ≤ expected
  | gt => expected < version
  | ge => expected ≤ version
  | eq => version = expected

end VersionOperator

def asciiWhitespace : Str := ['\t','\n','\x0b','\x0c','\r',' ']

/-- The operator a comparison starts with, and what follows it. -/
def readOperator : Str → Option (VersionOperator × Str)
  | '<' :: '=' :: rest => some (.le,rest)
  | '>' :: '=' :: rest => some (.ge,rest)
  | '<' :: rest => some (.lt,rest)
  | '>' :: rest => some (.gt,rest)
  | '=' :: rest => some (.eq,rest)
  | _ => none

def readComparison (term : Str) : Option (VersionOperator × StrictVersion) :=
  (readOperator term).bind fun (operator,rest) =>
    (readStrictVersion (rest.dropWhile asciiWhitespace.contains)).map fun expected => (operator,expected)

def removePrefix (text value : Str) : Str := if text.isPrefixOf value then value.drop text.length else value

/-- The versions of a list of versions; anything else is none. -/
def exactVersions : List Str → Option (List StrictVersion)
  | [] => some []
  | term :: terms =>
    match strictVersion (strip (removePrefix ['='] term)) with
    | none => none
    | some exact =>
      if term.head? = some '<' || term.head? = some '>' then none
      else (exactVersions terms).map (exact :: ·)

def rangeTerms (spec : Str) : List Str := ((spec.splitOn ',').map strip).filter (· ≠ [])

def versionInRange (version : StrictVersion) (spec : Str) : Bool :=
  let terms := rangeTerms spec
  if terms = [] then false
  else
    let exact := (exactVersions terms).getD []
    if exact ≠ [] then exact.contains version
    else
      match terms.mapM readComparison with
      | none => false
      | some comparisons => comparisons.all fun (operator,expected) => operator.holds version expected

/-! The texts of versions. -/

/-- The text of a version: a lead, two numbers of at most ten digits and a third one or none. -/
def SpellsVersion (text : Str) (version : StrictVersion) : Prop := ∃ lead major minor rest patch,
  (lead = [] ∨ lead = ['v'] ∨ lead = ['V']) ∧ versionDigits major = true ∧ versionDigits minor = true ∧
  (rest = [] ∧ patch = 0 ∨
    ∃ digits, versionDigits digits = true ∧ rest = '.' :: digits ∧ patch = digitsValue digits) ∧
  text = lead ++ (major ++ '.' :: (minor ++ rest)) ∧
  version = strictVersionOf (digitsValue major) (digitsValue minor) patch

theorem digits_of_versionDigits {part : Str} (h : versionDigits part = true) :
    part ≠ [] ∧ ∀ c ∈ part, c.isDigit = true := by
  simp only [versionDigits,Bool.and_eq_true,decide_eq_true_eq,List.all_eq_true] at h
  exact ⟨h.1.1,h.2⟩

theorem dot_not_mem_digits {part : Str} (h : versionDigits part = true) : '.' ∉ part := by
  intro hdot
  cases (digits_of_versionDigits h).2 '.' hdot

/-- A body of numbers with dots between them, as its parts. -/
theorem splitOn_numbers {major minor rest : Str} (hm : versionDigits major = true) (hn : versionDigits minor = true) :
    (major ++ '.' :: minor).splitOn '.' = [major,minor] ∧ (versionDigits rest = true →
      (major ++ '.' :: (minor ++ '.' :: rest)).splitOn '.' = [major,minor,rest]) := by
  rw [List.splitOn_append_cons_self_of_not_mem (dot_not_mem_digits hm),
    List.splitOn_append_cons_self_of_not_mem (dot_not_mem_digits hm),
    List.splitOn_append_cons_self_of_not_mem (dot_not_mem_digits hn),
    List.splitOn_eq_singleton (dot_not_mem_digits hn)]
  refine ⟨rfl,fun h => ?_⟩
  rw [List.splitOn_eq_singleton (dot_not_mem_digits h)]

theorem readStrictVersion_eq_some {text : Str} {version : StrictVersion} :
    readStrictVersion text = some version ↔ SpellsVersion text version := by
  constructor
  · intro h
    obtain ⟨lead,body,hlead,rfl,hread⟩ := exists_version_lead text
    have hjoin : ['.'].intercalate (body.splitOn '.') = body := List.intercalate_splitOn '.'
    rw [readStrictVersion,hread] at h
    split at h
    · rename_i major minor hparts
      split at h
      · rename_i hdigits
        obtain ⟨hm,hn⟩ := (Bool.and_eq_true _ _).mp hdigits
        rw [hparts] at hjoin
        refine ⟨lead,major,minor,[],0,hlead,hm,hn,.inl ⟨rfl,rfl⟩,?_,(Option.some.inj h).symm⟩
        rw [← hjoin]
        simp
      · cases h
    · rename_i major minor patch hparts
      split at h
      · rename_i hdigits
        simp only [Bool.and_eq_true] at hdigits
        rw [hparts] at hjoin
        refine ⟨lead,major,minor,'.' :: patch,digitsValue patch,hlead,hdigits.1.1,hdigits.1.2,
          .inr ⟨patch,hdigits.2,rfl,rfl⟩,?_,(Option.some.inj h).symm⟩
        rw [← hjoin]
        simp [List.intercalate_cons_cons]
      · cases h
    · cases h
  · intro h
    obtain ⟨lead,major,minor,rest,patch,hlead,hm,hn,hrest,rfl,rfl⟩ := h
    have hdigit : (major ++ '.' :: (minor ++ rest)).head?.any Char.isDigit = true := by
      obtain ⟨hne,hdigits⟩ := digits_of_versionDigits hm
      obtain ⟨c,digits,rfl⟩ := List.exists_cons_of_ne_nil hne
      exact hdigits c (by simp)
    rw [readStrictVersion,drop_version_lead hlead hdigit]
    obtain ⟨rfl,rfl⟩ | ⟨digits',hp,rfl,rfl⟩ := hrest
    · rw [List.append_nil,(@splitOn_numbers _ _ [] hm hn).1]
      simp [hm,hn]
    · rw [(splitOn_numbers hm hn).2 hp]
      simp [hm,hn,hp]

/-- A version is spelled without blanks, from its lead or a digit on. -/
theorem SpellsVersion.chars {text : Str} {version : StrictVersion} (h : SpellsVersion text version) :
    text ≠ [] ∧ ∀ c ∈ text, c.isDigit = true ∨ c = '.' ∨ c = 'v' ∨ c = 'V' := by
  obtain ⟨lead,major,minor,rest,patch,hlead,hm,hn,hrest,rfl,-⟩ := h
  refine ⟨by simp,?_⟩
  intro c hc
  simp only [List.mem_append,List.mem_cons] at hc
  obtain hc | hc | rfl | hc | hc := hc
  · obtain rfl | rfl | rfl := hlead <;> simp_all
  · exact .inl ((digits_of_versionDigits hm).2 c hc)
  · exact .inr (.inl rfl)
  · exact .inl ((digits_of_versionDigits hn).2 c hc)
  · obtain ⟨rfl,-⟩ | ⟨digits,hp,rfl,-⟩ := hrest
    · cases hc
    · obtain rfl | hc := List.mem_cons.mp hc
      · exact .inr (.inl rfl)
      · exact .inl ((digits_of_versionDigits hp).2 c hc)

theorem SpellsVersion.not_whitespace {text : Str} {version : StrictVersion} (h : SpellsVersion text version) :
    ∀ c ∈ text, c ∉ whitespace := by
  have hblank : ∀ w ∈ whitespace, ¬ (w.isDigit = true ∨ w = '.' ∨ w = 'v' ∨ w = 'V') := forall_mem_of_all (by decide)
  intro c hc hw
  exact hblank c hw (h.chars.2 c hc)

theorem strictVersion_of_spells {text : Str} {version : StrictVersion} (h : SpellsVersion text version) :
    strictVersion text = some version := by
  rw [strictVersion,strip,stripChars_eq_self h.not_whitespace]
  exact readStrictVersion_eq_some.mpr h

/-! The grammar of ranges. -/

/-- A version by itself or after an equals sign. -/
def ExactTerm (term : Str) (version : StrictVersion) : Prop :=
  SpellsVersion term version ∨ ∃ blanks text, (∀ c ∈ blanks, c ∈ whitespace) ∧ SpellsVersion text version ∧
    term = '=' :: (blanks ++ text)

/-- An operator and a version, with blanks between them or not. -/
def ComparisonTerm (term : Str) (operator : VersionOperator) (version : StrictVersion) : Prop :=
  ∃ blanks text, (∀ c ∈ blanks, c ∈ asciiWhitespace) ∧ SpellsVersion text version ∧
    term = operator.text ++ (blanks ++ text)

/-- What a version is compared with: one of a list of versions, or every comparison of a list. -/
def InRange (version : StrictVersion) (terms : List Str) : Prop :=
  terms ≠ [] ∧ ((∀ term ∈ terms, ∃ exact, ExactTerm term exact) ∧ (∃ term ∈ terms, ExactTerm term version) ∨
    (∃ term ∈ terms, ∀ exact, ¬ ExactTerm term exact) ∧
      ∀ term ∈ terms, ∃ operator expected, ComparisonTerm term operator expected ∧
        operator.holds version expected = true)

theorem strip_of_mem_terms {spec term : Str} (h : term ∈ rangeTerms spec) : term ≠ [] ∧ strip term = term := by
  obtain ⟨hmem,hne⟩ := List.mem_filter.mp h
  obtain ⟨part,-,rfl⟩ := List.mem_map.mp hmem
  exact ⟨by simpa using hne,stripChars_stripChars whitespace part⟩

/-- The version of one term of a list of versions. -/
def readExact (term : Str) : Option StrictVersion :=
  (strictVersion (strip (removePrefix ['='] term))).filter fun _ => term.head? ≠ some '<' && term.head? ≠ some '>'

theorem exactVersions_eq_mapM (terms : List Str) : exactVersions terms = terms.mapM readExact := by
  induction terms with
  | nil => rfl
  | cons term terms ih =>
    rw [exactVersions,List.mapM_cons,readExact]
    cases strictVersion (strip (removePrefix ['='] term)) with
    | none => rfl
    | some exact =>
      by_cases hsign : (term.head? = some '<' || term.head? = some '>') = true
      · have hnone : (some exact).filter (fun _ => term.head? ≠ some '<' && term.head? ≠ some '>') = none := by
          rw [Option.filter_some,if_neg]
          simpa [or_iff_not_imp_left] using hsign
        rw [hnone]
        simp only [hsign,if_true]
        rfl
      · have hkept : (some exact).filter (fun _ => term.head? ≠ some '<' && term.head? ≠ some '>') = some exact := by
          simpa [Option.filter] using hsign
        rw [hkept,ih]
        simp only [hsign,Bool.false_eq_true,if_false]
        cases terms.mapM readExact <;> rfl

theorem removePrefix_equals (text : Str) : removePrefix ['='] ('=' :: text) = text := rfl

theorem removePrefix_of_head {text : Str} (h : text.head? ≠ some '=') : removePrefix ['='] text = text := by
  rw [removePrefix,if_neg]
  intro hp
  obtain ⟨rest,rfl⟩ := List.isPrefixOf_iff_prefix.mp hp
  exact h rfl

theorem strictVersion_eq_some {text : Str} {version : StrictVersion} (h : strictVersion text = some version) :
    SpellsVersion (strip text) version := readStrictVersion_eq_some.mp h

theorem head_of_spells {text : Str} {version : StrictVersion} (h : SpellsVersion text version) {c : Char}
    (hc : text.head? = some c) : c ≠ '=' ∧ c ≠ '<' ∧ c ≠ '>' := by
  have hchar := h.chars.2 c (List.mem_of_head? hc)
  refine ⟨?_,?_,?_⟩ <;> rintro rfl <;> revert hchar <;> decide

/-- What is read after an equals sign or by itself is an exact version. -/
theorem strictVersion_removePrefix_iff {term : Str} (hs : strip term = term) {version : StrictVersion} :
    strictVersion (strip (removePrefix ['='] term)) = some version ↔ ExactTerm term version := by
  constructor
  · intro h
    have hspell := strictVersion_eq_some h
    rw [strip,strip,stripChars_stripChars] at hspell
    by_cases heq : term.head? = some '='
    · obtain ⟨text,rfl⟩ := List.head?_eq_some_iff.mp heq
      rw [removePrefix_equals] at hspell
      obtain ⟨before,after,hbefore,hafter,htext⟩ := exists_around_stripChars whitespace text
      refine .inr ⟨before,_,hbefore,hspell,?_⟩
      have hnone : after = [] := by
        by_contra hne
        have hlast : ('=' :: text).getLast? = some (after.getLast hne) := by
          rw [htext]
          simp [List.getLast?_cons,List.getLast?_append,List.getLast?_eq_some_getLast hne]
        rw [← hs] at hlast
        exact getLast?_stripChars hlast (hafter _ (List.getLast_mem hne))
      rw [hnone,List.append_nil] at htext
      rw [← htext]
    · rw [removePrefix_of_head heq] at hspell
      rw [strip] at hs
      rw [hs] at hspell
      exact .inl hspell
  · intro h
    obtain h | ⟨blanks,text,hblanks,h,rfl⟩ := h
    · obtain ⟨c,rest,rfl⟩ := List.exists_cons_of_ne_nil h.chars.1
      obtain ⟨heq,-,-⟩ := head_of_spells h rfl
      rw [removePrefix_of_head (by simpa using heq),hs,strictVersion_of_spells h]
    · have htext : strip (blanks ++ text) = text := by
        have haround := @stripChars_around whitespace text blanks [] hblanks (by simp)
        rw [List.append_nil] at haround
        exact haround.trans (stripChars_eq_self h.not_whitespace)
      rw [removePrefix_equals,htext,strictVersion_of_spells h]

theorem ExactTerm.head {term : Str} {version : StrictVersion} (h : ExactTerm term version) :
    term.head? ≠ some '<' ∧ term.head? ≠ some '>' := by
  obtain h | ⟨blanks,text,-,-,rfl⟩ := h
  · obtain ⟨c,rest,rfl⟩ := List.exists_cons_of_ne_nil h.chars.1
    obtain ⟨-,hlt,hgt⟩ := head_of_spells h rfl
    simp [hlt,hgt]
  · simp

theorem readExact_iff {term : Str} (hs : strip term = term) {version : StrictVersion} :
    readExact term = some version ↔ ExactTerm term version := by
  rw [readExact,Option.filter_eq_some_iff,strictVersion_removePrefix_iff hs]
  constructor
  · exact fun h => h.1
  · intro h
    refine ⟨h,?_⟩
    simp [h.head.1,h.head.2]

theorem readOperator_eq_some {term rest : Str} {operator : VersionOperator}
    (h : readOperator term = some (operator,rest)) :
    term = operator.text ++ rest := by
  unfold readOperator at h
  split at h <;> cases h <;> rfl

theorem readOperator_text (operator : VersionOperator) {rest : Str} (h : rest.head? ≠ some '=') :
    readOperator (operator.text ++ rest) = some (operator,rest) := by
  cases operator with
  | le | ge | eq => rfl
  | lt | gt =>
    cases rest with
    | nil => rfl
    | cons c rest =>
      have hc : c ≠ '=' := by simpa using h
      simp [VersionOperator.text,readOperator,hc]

theorem readComparison_iff {term : Str} {operator : VersionOperator} {version : StrictVersion} :
    readComparison term = some (operator,version) ↔ ComparisonTerm term operator version := by
  constructor
  · intro h
    obtain ⟨⟨found,rest⟩,hoperator,hread⟩ := Option.bind_eq_some_iff.mp h
    obtain ⟨expected,hexpected,heq⟩ := Option.map_eq_some_iff.mp hread
    obtain ⟨rfl,rfl⟩ := Prod.mk.inj heq
    refine ⟨rest.takeWhile asciiWhitespace.contains,rest.dropWhile asciiWhitespace.contains,?_,
      readStrictVersion_eq_some.mp hexpected,?_⟩
    · intro c hc
      simpa using List.mem_takeWhile_imp hc
    · rw [List.takeWhile_append_dropWhile]
      exact readOperator_eq_some hoperator
  · intro h
    obtain ⟨blanks,text,hblanks,hspell,rfl⟩ := h
    obtain ⟨c,rest,rfl⟩ := List.exists_cons_of_ne_nil hspell.chars.1
    have hhead : (blanks ++ c :: rest).head? ≠ some '=' := by
      cases blanks with
      | nil => simpa using (head_of_spells hspell rfl).1
      | cons d blanks =>
        have hd : d ≠ '=' := by
          rintro rfl
          exact absurd (hblanks '=' (by simp)) (by decide)
        simpa using hd
    have hc : c ∉ asciiWhitespace := by
      have hblank : ∀ w ∈ asciiWhitespace, w ∈ whitespace := forall_mem_of_all (by decide)
      exact fun hw => hspell.not_whitespace c (by simp) (hblank c hw)
    have hdrop : (blanks ++ c :: rest).dropWhile asciiWhitespace.contains = c :: rest := by
      rw [List.dropWhile_append_of_pos (by simpa using hblanks)]
      exact dropWhile_of_head rfl hc
    rw [readComparison,readOperator_text operator hhead,Option.bind_some]
    dsimp only
    rw [hdrop,readStrictVersion_eq_some.mpr hspell]
    rfl

/-- The comparisons that were read hold when what the terms say does. -/
theorem comparisons_hold_iff {version : StrictVersion} {terms : List Str}
    {comparisons : List (VersionOperator × StrictVersion)} (hread : terms.mapM readComparison = some comparisons) :
    (∀ comparison ∈ comparisons, comparison.1.holds version comparison.2 = true) ↔
      ∀ term ∈ terms, ∃ operator expected,
        ComparisonTerm term operator expected ∧ operator.holds version expected = true := by
  constructor
  · intro h term hterm
    obtain ⟨comparison,hcomparison⟩ := exists_of_mapM_eq_some hread hterm
    have hholds := h comparison ((mem_of_mapM_eq_some hread).mpr ⟨term,hterm,hcomparison⟩)
    exact ⟨comparison.1,comparison.2,readComparison_iff.mp hcomparison,hholds⟩
  · intro h comparison hmem
    obtain ⟨term,hterm,hcomparison⟩ := (mem_of_mapM_eq_some hread).mp hmem
    obtain ⟨operator,expected,hspell,hholds⟩ := h term hterm
    rw [readComparison_iff.mpr hspell] at hcomparison
    obtain rfl := Option.some.inj hcomparison
    exact hholds

/-- The range test is the meaning of its terms, and fails for every other text. -/
theorem versionInRange_iff (version : StrictVersion) (spec : Str) :
    versionInRange version spec = true ↔ InRange version (rangeTerms spec) := by
  have hexact : ∀ term ∈ rangeTerms spec, ∀ exact, readExact term = some exact ↔ ExactTerm term exact :=
    fun term hterm exact => readExact_iff (strip_of_mem_terms hterm).2
  rw [versionInRange,InRange]
  dsimp only
  by_cases hne : rangeTerms spec = []
  · simp [hne]
  · rw [if_neg hne,exactVersions_eq_mapM]
    cases hread : (rangeTerms spec).mapM readExact with
    | some versions =>
      have hversions : versions ≠ [] := by
        rintro rfl
        have hmap := mapM_eq_some.mp hread
        exact hne (by simpa using hmap)
      have hall : ∀ term ∈ rangeTerms spec, ∃ exact, ExactTerm term exact := by
        intro term hterm
        obtain ⟨exact,h⟩ := exists_of_mapM_eq_some hread hterm
        exact ⟨exact,(hexact term hterm exact).mp h⟩
      rw [Option.getD_some,if_pos hversions,List.contains_iff_mem,mem_of_mapM_eq_some hread]
      constructor
      · intro h
        obtain ⟨term,hterm,h⟩ := h
        exact ⟨hne,.inl ⟨hall,term,hterm,(hexact term hterm version).mp h⟩⟩
      · intro h
        obtain ⟨-,⟨-,term,hterm,h⟩ | ⟨⟨term,hterm,hnot⟩,-⟩⟩ := h
        · exact ⟨term,hterm,(hexact term hterm version).mpr h⟩
        · obtain ⟨exact,h⟩ := hall term hterm
          exact absurd h (hnot exact)
    | none =>
      obtain ⟨other,hother,hnone⟩ := mapM_eq_none.mp hread
      have hnot : ∀ exact, ¬ ExactTerm other exact := by
        intro exact h
        rw [(hexact other hother exact).mpr h] at hnone
        cases hnone
      have hrange : InRange version (rangeTerms spec) ↔ ∀ term ∈ rangeTerms spec, ∃ operator expected,
          ComparisonTerm term operator expected ∧ operator.holds version expected = true := by
        constructor
        · intro h
          obtain ⟨-,⟨hall,-⟩ | ⟨-,h⟩⟩ := h
          · obtain ⟨exact,h⟩ := hall other hother
            exact absurd h (hnot exact)
          · exact h
        · exact fun h => ⟨hne,.inr ⟨⟨other,hother,hnot⟩,h⟩⟩
      rw [InRange] at hrange
      rw [hrange]
      simp only [Option.getD_none,ne_eq,not_true_eq_false,if_false]
      cases hcompare : (rangeTerms spec).mapM readComparison with
      | none =>
        obtain ⟨term,hterm,hnone⟩ := mapM_eq_none.mp hcompare
        constructor
        · intro h
          cases h
        · intro h
          obtain ⟨operator,expected,hterm,-⟩ := h term hterm
          rw [readComparison_iff.mpr hterm] at hnone
          cases hnone
      | some comparisons =>
        rw [List.all_eq_true]
        exact comparisons_hold_iff hcompare

end Wudup.Advisory
