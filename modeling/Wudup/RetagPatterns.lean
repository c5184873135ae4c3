import Wudup.TagStreams

/-! The tags that the expression made from an installed tag admits. -/
namespace Wudup
open Library

/-! The shape of a text: its characters with one mark for each number. -/

def shape : Str → List (Option Char)
  | [] => []
  | c :: rest =>
    if c.isDigit then (if rest.head?.any Char.isDigit then [] else [none]) ++ shape rest else some c :: shape rest

/-- The parts of a text between its numbers. -/
def literalFragments (text : Str) : List (List (Option Char)) := (shape text).splitOn none

theorem shape_literal {c : Char} {rest : Str} (h : c.isDigit = false) : shape (c :: rest) = some c :: shape rest := by
  simp [shape,h]

theorem shape_number {digits rest : Str} (hd : digits ∈ Regex.numbers) (hr : EndsNumber rest) :
    shape (digits ++ rest) = none :: shape rest := by
  obtain ⟨hne,hd⟩ := hd
  induction digits with
  | nil => exact absurd rfl hne
  | cons c digits ih =>
    have hc := hd c (by simp)
    cases digits with
    | nil =>
      cases rest with
      | nil => simp [shape,hc]
      | cons d rest => simp [shape,hc,ends_cons.mp hr]
    | cons d digits =>
      have hdd := hd d (by simp)
      have ih := ih (by simp) fun e he => hd e (List.mem_cons_of_mem _ he)
      rw [List.cons_append] at ih ⊢
      rw [shape,if_pos hc,← ih]
      simp [hdd]

theorem head_shape {text : Str} : (shape text).head? = some none ↔ text.head?.any Char.isDigit = true := by
  induction text with
  | nil => simp [shape]
  | cons c rest ih =>
    by_cases hc : c.isDigit = true
    · by_cases hr : rest.head?.any Char.isDigit = true
      · simp [shape,hc,hr,ih]
      · simp [shape,hc,hr]
    · simp [shape,hc]

theorem ends_iff {text : Str} : EndsNumber text ↔ (shape text).head? ≠ some none := by
  rw [Ne,head_shape]
  cases text <;> simp [EndsNumber]

theorem shape_append {text rest : Str} (hr : EndsNumber rest) : shape (text ++ rest) = shape text ++ shape rest := by
  induction text with
  | nil => rfl
  | cons c text ih =>
    have hhead : (text ++ rest).head?.any Char.isDigit = text.head?.any Char.isDigit := by
      cases text with
      | nil =>
        cases rest with
        | nil => rfl
        | cons d rest => simpa using ends_cons.mp hr
      | cons d text => rfl
    rw [List.cons_append,shape,shape,hhead,ih]
    split <;> simp

/-- Texts of a shape that starts with a mark start with a number. -/
theorem exists_number {text : Str} {rest : List (Option Char)} (h : shape text = none :: rest) :
    ∃ digits after, text = digits ++ after ∧ digits ∈ Regex.numbers ∧ EndsNumber after ∧ shape after = rest := by
  have hhead : text.head?.any Char.isDigit = true := head_shape.mp (by rw [h]; rfl)
  obtain ⟨digits,after,hn⟩ : ∃ digits after, leadingNumber text = some (digits,after) := by
    cases text with
    | nil => cases hhead
    | cons c text =>
      have hc : c.isDigit = true := by simpa using hhead
      exact ⟨_,_,by simp [leadingNumber,hc]; exact ⟨rfl,rfl⟩⟩
  obtain ⟨rfl,hd,hr⟩ := leadingNumber_eq_some.mp hn
  refine ⟨digits,after,rfl,hd,hr,?_⟩
  rw [shape_number hd hr] at h
  exact (List.cons.inj h).2

/-- Texts of a shape that starts with a character start with it. -/
theorem exists_literal {text : Str} {c : Char} {rest : List (Option Char)} (h : shape text = some c :: rest) :
    ∃ after, text = c :: after ∧ c.isDigit = false ∧ shape after = rest := by
  cases text with
  | nil => cases h
  | cons d after =>
    by_cases hd : d.isDigit = true
    · have hhead : (shape (d :: after)).head? = some none := head_shape.mpr (by simpa using hd)
      rw [h] at hhead
      cases hhead
    · rw [shape_literal (by simpa using hd)] at h
      obtain ⟨hc,hr⟩ := List.cons.inj h
      cases hc
      exact ⟨after,rfl,by simpa using hd,hr⟩

/-- A text splits where its shape does. -/
theorem exists_split {text : Str} {left right : List (Option Char)} (h : shape text = left ++ right) :
    ∃ before after, text = before ++ after ∧ shape before = left ∧ shape after = right := by
  induction left generalizing text with
  | nil => exact ⟨[],text,rfl,rfl,h⟩
  | cons mark left ih =>
    cases mark with
    | none =>
      obtain ⟨digits,rest,rfl,hd,hr,hs⟩ := exists_number h
      obtain ⟨before,after,rfl,rfl,rfl⟩ := ih hs
      refine ⟨digits ++ before,after,by simp,?_,rfl⟩
      refine shape_number hd ?_
      intro c hc
      apply hr c
      cases before with
      | nil => cases hc
      | cons d before => exact hc
    | some c =>
      obtain ⟨rest,rfl,hc,hs⟩ := exists_literal h
      obtain ⟨before,after,rfl,rfl,rfl⟩ := ih hs
      exact ⟨c :: before,after,rfl,shape_literal hc,rfl⟩

theorem shape_eq_nil {text : Str} : shape text = [] ↔ text = [] := by
  constructor
  · intro h
    cases text with
    | nil => rfl
    | cons c rest =>
      by_cases hc : c.isDigit = true
      · have hhead : (shape (c :: rest)).head? = some none := head_shape.mpr (by simpa using hc)
        rw [h] at hhead
        cases hhead
      · rw [shape_literal (by simpa using hc)] at h
        cases h
  · rintro rfl
    rfl

/-- The texts with the numbers of a text replaced by others. -/
def sameShape (text : Str) : Language Char := {other | shape other = shape text}

theorem mem_sameShape {text other : Str} : other ∈ sameShape text ↔ shape other = shape text := Iff.rfl

theorem sameShape_literal {c : Char} {rest : Str} (hc : c.isDigit = false) :
    sameShape (c :: rest) = {[c]} * sameShape rest := by
  ext other
  rw [mem_sameShape,shape_literal hc,Language.mem_mul]
  constructor
  · intro h
    obtain ⟨after,rfl,-,hs⟩ := exists_literal h
    exact ⟨[c],rfl,after,hs,rfl⟩
  · rintro ⟨_,rfl,after,hs,rfl⟩
    rw [List.singleton_append,shape_literal hc,mem_sameShape.mp hs]

theorem sameShape_number {digits rest : Str} (hd : digits ∈ Regex.numbers) (hr : EndsNumber rest) :
    sameShape (digits ++ rest) = Regex.numbers * sameShape rest := by
  ext other
  rw [mem_sameShape,shape_number hd hr,Language.mem_mul]
  constructor
  · intro h
    obtain ⟨found,after,rfl,hf,-,hs⟩ := exists_number h
    exact ⟨found,hf,after,hs,rfl⟩
  · rintro ⟨found,hf,after,hs,rfl⟩
    rw [mem_sameShape] at hs
    rw [shape_number hf (by rwa [ends_iff,hs,← ends_iff]),hs]

theorem sameShape_plain {text rest : Str} (h : ∀ c ∈ text, c.isDigit = false) :
    sameShape (text ++ rest) = {text} * sameShape rest := by
  induction text with
  | nil =>
    have hone : ({[]} : Language Char) = 1 := rfl
    rw [hone,one_mul,List.nil_append]
  | cons c text ih =>
    rw [List.cons_append,sameShape_literal (h c (by simp)),ih fun d hd => h d (List.mem_cons_of_mem _ hd),
      ← mul_assoc,Regex.singleton_mul,List.singleton_append]

theorem sameShape_nil : sameShape [] = 1 := by
  ext other
  exact shape_eq_nil

/-- The expression with wildcards admits the texts of the same shape. -/
theorem spells_generalizeNumbers (text : Str) : Regex.Spells (generalizeNumbers text) (sameShape text) := by
  induction text with
  | nil =>
    rw [sameShape_nil]
    exact .nil
  | cons c rest ih =>
    by_cases hc : c.isDigit = true
    · by_cases hr : rest.head?.any Char.isDigit = true
      · have hsame : sameShape (c :: rest) = sameShape rest := by
          ext other
          simp [mem_sameShape,shape,hc,hr]
        rw [hsame]
        simpa [generalizeNumbers,hc,hr] using ih
      · have hends : EndsNumber rest := by rwa [ends_iff,Ne,head_shape]
        have hdigit : [c] ∈ Regex.numbers := ⟨by simp,by simpa using hc⟩
        have hsame := sameShape_number hdigit hends
        rw [List.singleton_append] at hsame
        rw [hsame]
        simpa [generalizeNumbers,hc,hr] using Regex.Spells.numbers.append ih
    · rw [sameShape_literal (by simpa using hc)]
      simpa [generalizeNumbers,hc] using (spells_jsRegexEscape [c]).append ih

/-! The dotted version a tag starts with. -/

/-- Numbers with dots between them, from anywhere in such a version to its end. -/
def RunText : Str → Prop
  | [] => True
  | c :: rest => (c.isDigit = true ∨ c = '.' ∧ rest.head?.any Char.isDigit = true) ∧ RunText rest

/-- A version cannot go on with this text. -/
def StopsVersion (rest : Str) : Prop := EndsNumber rest ∧ ∀ after, rest = '.' :: after → EndsNumber after

theorem StopsVersion.nil : StopsVersion [] := ⟨ends_nil,by simp⟩

theorem ends_iff_any {text : Str} : EndsNumber text ↔ text.head?.any Char.isDigit = false := by
  rw [ends_iff,Ne,head_shape,Bool.not_eq_true]

theorem head?_append_of_ends {run rest : Str} (hr : EndsNumber rest) :
    (run ++ rest).head?.any Char.isDigit = run.head?.any Char.isDigit := by
  cases run with
  | nil => simpa using ends_iff_any.mp hr
  | cons c run => rfl

theorem versionRun_spec (text : Str) :
    text = (versionRun text).1 ++ (versionRun text).2 ∧ RunText (versionRun text).1 ∧
      StopsVersion (versionRun text).2 := by
  induction text with
  | nil => exact ⟨rfl,trivial,.nil⟩
  | cons c text ih =>
    obtain ⟨htext,hrun,hstop⟩ := ih
    rw [versionRun]
    by_cases hc : (c.isDigit || (c = '.' && text.head?.any Char.isDigit)) = true
    · rw [if_pos hc]
      simp only [Bool.or_eq_true,Bool.and_eq_true,decide_eq_true_eq] at hc
      refine ⟨by rw [List.cons_append,← htext],⟨hc.imp_right fun h => ⟨h.1,?_⟩,hrun⟩,hstop⟩
      rw [← head?_append_of_ends hstop.1,← htext]
      exact h.2
    · rw [if_neg hc]
      simp only [Bool.or_eq_true,Bool.and_eq_true,decide_eq_true_eq,not_or] at hc
      refine ⟨rfl,trivial,ends_cons.mpr (by simpa using hc.1),?_⟩
      intro after he
      obtain ⟨rfl,rfl⟩ := List.cons.inj he
      rw [ends_iff_any]
      simpa using hc.2

/-- A version runs on through the numbers and dots it starts with. -/
theorem versionRun_run_append {run rest : Str} (hrun : RunText run) :
    versionRun (run ++ rest) = (run ++ (versionRun rest).1,(versionRun rest).2) := by
  induction run with
  | nil => rfl
  | cons c run ih =>
    obtain ⟨hc,hrun⟩ := hrun
    have hhead : (c.isDigit || (c = '.' && (run ++ rest).head?.any Char.isDigit)) = true := by
      rw [Bool.or_eq_true,Bool.and_eq_true,decide_eq_true_eq]
      refine hc.imp_right fun h => ⟨h.1,?_⟩
      cases run with
      | nil => cases h.2
      | cons d run => exact h.2
    rw [List.cons_append,versionRun,if_pos hhead,ih hrun]
    rfl

theorem versionRun_of_stops {rest : Str} (hstop : StopsVersion rest) : versionRun rest = ([],rest) := by
  cases rest with
  | nil => rfl
  | cons c rest =>
    have hc : (c.isDigit || (c = '.' && rest.head?.any Char.isDigit)) ≠ true := by
      simp only [ne_eq,Bool.or_eq_true,Bool.and_eq_true,decide_eq_true_eq,not_or]
      refine ⟨by simpa using ends_cons.mp hstop.1,?_⟩
      rintro ⟨rfl,hd⟩
      have hends := ends_iff_any.mp (hstop.2 rest rfl)
      rw [hd] at hends
      cases hends
    rw [versionRun,if_neg hc]

theorem versionRun_append {run rest : Str} (hrun : RunText run) (hstop : StopsVersion rest) :
    versionRun (run ++ rest) = (run,rest) := by
  rw [versionRun_run_append hrun,versionRun_of_stops hstop,List.append_nil]

/-- The version a tag starts with, as its text. -/
structure VersionText (version : LeadingVersion) : Prop where
  lead : IsLead version.lead
  run : RunText version.run
  number : version.run.head?.any Char.isDigit = true
  dotted : '.' ∈ version.run
  stops : StopsVersion version.rest

def LeadingVersion.text (version : LeadingVersion) : Str := version.lead ++ (version.run ++ version.rest)

theorem versionLead_of_number {lead body : Str} (hl : IsLead lead) (hb : body.head?.any Char.isDigit = true) :
    versionLead (lead ++ body) = (lead,body) := by
  rcases hl with rfl | rfl
  · cases body with
    | nil => cases hb
    | cons c body =>
      have hc : c ≠ 'v' := by
        rintro rfl
        cases hb
      simp [versionLead,hc]
  · simp [versionLead]

theorem leadingDottedVersion_eq_some {tag : Str} {version : LeadingVersion} :
    leadingDottedVersion tag = some version ↔ tag = version.text ∧ VersionText version := by
  constructor
  · intro h
    obtain ⟨hlead,htag⟩ := isLead_versionLead tag
    obtain ⟨hbody,hrun,hstop⟩ := versionRun_spec (versionLead tag).2
    simp only [leadingDottedVersion] at h
    split at h
    · rename_i hc
      simp only [Bool.and_eq_true,List.contains_eq_mem,decide_eq_true_eq] at hc
      cases h
      refine ⟨?_,hlead,hrun,?_,hc.2,hstop⟩
      · rw [LeadingVersion.text,← hbody]
        exact htag
      · rw [← head?_append_of_ends hstop.1,← hbody]
        exact hc.1
    · cases h
  · rintro ⟨rfl,h⟩
    have hhead : (version.run ++ version.rest).head?.any Char.isDigit = true := by
      rw [head?_append_of_ends h.stops.1]
      exact h.number
    simp only [leadingDottedVersion,LeadingVersion.text,versionLead_of_number h.lead hhead,
      versionRun_append h.run h.stops,hhead,Bool.true_and]
    rw [if_pos (by simpa using h.dotted)]

/-! Texts of one shape start with versions of one shape. -/

/-- `RunText` read off a shape. -/
def RunShape : List (Option Char) → Prop
  | [] => True
  | none :: rest => RunShape rest
  | some c :: rest => (c = '.' ∧ rest.head? = some none) ∧ RunShape rest

theorem runText_iff {text : Str} : RunText text ↔ RunShape (shape text) := by
  induction text with
  | nil => exact Iff.rfl
  | cons c rest ih =>
    by_cases hc : c.isDigit = true
    · by_cases hr : rest.head?.any Char.isDigit = true
      · simp [RunText,shape,hc,hr,ih]
      · simp [RunText,shape,hc,hr,ih,RunShape]
    · rw [shape_literal (by simpa using hc),RunShape,RunText,ih,head_shape]
      simp [hc]

theorem mem_shape {c : Char} (hc : c.isDigit = false) {text : Str} : some c ∈ shape text ↔ c ∈ text := by
  induction text with
  | nil => simp [shape]
  | cons d rest ih =>
    by_cases hd : d.isDigit = true
    · have hne : c ≠ d := by
        rintro rfl
        rw [hc] at hd
        cases hd
      by_cases hr : rest.head?.any Char.isDigit = true
      · simp [shape,hd,hr,ih,hne]
      · simp [shape,hd,hr,ih,hne]
    · simp [shape,hd,ih]

theorem stopsVersion_of_shape {text other : Str} (h : shape other = shape text) (hs : StopsVersion text) :
    StopsVersion other := by
  refine ⟨by rw [ends_iff,h,← ends_iff]; exact hs.1,?_⟩
  rintro after rfl
  rw [shape_literal (by rfl)] at h
  obtain ⟨rest,rfl,-,hrest⟩ := exists_literal h.symm
  rw [ends_iff,← hrest,← ends_iff]
  exact hs.2 rest rfl

theorem eq_of_shape_lead {lead other : Str} (hl : IsLead lead) (h : shape other = shape lead) : other = lead := by
  rcases hl with rfl | rfl
  · exact shape_eq_nil.mp h
  · obtain ⟨rest,rfl,-,hr⟩ := exists_literal h
    rw [shape_eq_nil.mp hr]

theorem shape_text {version : LeadingVersion} (h : VersionText version) :
    shape version.text = shape version.lead ++ (shape version.run ++ shape version.rest) := by
  rw [LeadingVersion.text,← shape_append h.stops.1]
  rcases h.lead with hl | hl
  · rw [hl]
    rfl
  · rw [hl,List.singleton_append,shape_literal (by rfl)]
    rfl

theorem exists_version_of_shape {tag other : Str} {version : LeadingVersion} (h : shape other = shape tag)
    (hv : leadingDottedVersion tag = some version) :
    ∃ found, leadingDottedVersion other = some found ∧ found.lead = version.lead ∧
      shape found.run = shape version.run ∧ shape found.rest = shape version.rest := by
  obtain ⟨htag,hv⟩ := leadingDottedVersion_eq_some.mp hv
  rw [htag,shape_text hv] at h
  obtain ⟨lead,body,rfl,hlead,hbody⟩ := exists_split h
  obtain ⟨run,rest,rfl,hrun,hrest⟩ := exists_split hbody
  have hlead := eq_of_shape_lead hv.lead hlead
  subst hlead
  refine ⟨⟨version.lead,run,rest⟩,leadingDottedVersion_eq_some.mpr ⟨rfl,?_⟩,rfl,hrun,hrest⟩
  constructor
  · exact hv.lead
  · rw [runText_iff,hrun,← runText_iff]
    exact hv.run
  · rw [← head_shape,hrun,head_shape]
    exact hv.number
  · rw [← mem_shape (by rfl),hrun,mem_shape (by rfl)]
    exact hv.dotted
  · exact stopsVersion_of_shape hrest hv.stops

/-- What a tag has outside the dotted version it starts with. -/
def outsideLeadingVersion (tag : Str) : Str :=
  match leadingDottedVersion tag with
  | none => tag
  | some version => version.rest

theorem shape_outside_eq {tag other : Str} (h : shape other = shape tag) :
    shape (outsideLeadingVersion other) = shape (outsideLeadingVersion tag) := by
  cases hv : leadingDottedVersion tag with
  | some version =>
    obtain ⟨found,hfound,-,-,hrest⟩ := exists_version_of_shape h hv
    simp only [outsideLeadingVersion,hv,hfound,hrest]
  | none =>
    cases hw : leadingDottedVersion other with
    | none => simp only [outsideLeadingVersion,hv,hw,h]
    | some version =>
      obtain ⟨found,hfound,-⟩ := exists_version_of_shape h.symm hw
      rw [hv] at hfound
      cases hfound

/-! The languages of the four forms of the expression. -/

/-- A number after a dot. -/
def dotNumber : Language Char := {['.']} * Regex.numbers

/-- One number after a dot or more. -/
def dotNumbers : Language Char := dotNumber * KStar.kstar dotNumber

theorem spells_dotNumbers : Regex.Spells dottedNumbersRegex dotNumbers := by
  have hdot : Regex.Spells "\\.".toList {['.']} := Regex.Spells.char '.'
  exact (hdot.append Regex.Spells.numbers).repeated

theorem runText_append {left right : Str} (hl : RunText left) (hr : RunText right) : RunText (left ++ right) := by
  induction left with
  | nil => exact hr
  | cons c left ih =>
    refine ⟨hl.1.imp_right fun h => ⟨h.1,?_⟩,ih hl.2⟩
    cases left with
    | nil => cases h.2
    | cons d left => exact h.2

theorem runText_numbers {digits : Str} (hd : digits ∈ Regex.numbers) : RunText digits := by
  obtain ⟨-,hd⟩ := hd
  induction digits with
  | nil => trivial
  | cons c digits ih => exact ⟨.inl (hd c (by simp)),ih fun d h => hd d (List.mem_cons_of_mem _ h)⟩

theorem runText_dotNumber {text : Str} (h : text ∈ dotNumber) : RunText text := by
  obtain ⟨_,rfl,digits,hd,rfl⟩ := Language.mem_mul.mp h
  refine ⟨.inr ⟨rfl,?_⟩,runText_numbers hd⟩
  obtain ⟨hne,hd⟩ := hd
  cases digits with
  | nil => exact absurd rfl hne
  | cons c digits => simpa using hd c (by simp)

theorem runText_dotNumbers {text : Str} (h : text ∈ dotNumbers) : RunText text := by
  obtain ⟨first,hf,rest,hr,rfl⟩ := Language.mem_mul.mp h
  obtain ⟨parts,rfl,hp⟩ := Language.mem_kstar.mp hr
  refine runText_append (runText_dotNumber hf) ?_
  clear h hr
  induction parts with
  | nil => trivial
  | cons part parts ih =>
    exact runText_append (runText_dotNumber (hp part (by simp))) (ih fun p h => hp p (List.mem_cons_of_mem _ h))

theorem RunText.right {left right : Str} (h : RunText (left ++ right)) : RunText right := by
  induction left with
  | nil => exact h
  | cons c left ih => exact ih h.2

theorem mem_run {n : ℕ} {run : Str} (hn : run.length ≤ n) (hr : RunText run)
    (hd : run.head?.any Char.isDigit = true) : run ∈ Regex.numbers * KStar.kstar dotNumber := by
  induction n generalizing run with
  | zero =>
    rw [List.length_eq_zero_iff.mp (Nat.le_zero.mp hn)] at hd
    cases hd
  | succ n ih =>
    obtain ⟨rest,hshape⟩ : ∃ rest, shape run = none :: rest := by
      have hhead := head_shape.mpr hd
      cases hs : shape run with
      | nil => simp [hs] at hhead
      | cons mark rest =>
        rw [hs] at hhead
        cases hhead
        exact ⟨rest,rfl⟩
    obtain ⟨digits,after,rfl,hdigits,hends,-⟩ := exists_number hshape
    refine Language.mem_mul.mpr ⟨digits,hdigits,after,?_,rfl⟩
    have hafter := hr.right
    cases after with
    | nil => exact Language.nil_mem_kstar _
    | cons c after =>
      have hc := ends_cons.mp hends
      obtain ⟨rfl,hhead⟩ := hafter.1.resolve_left (by simp [hc])
      have hlen : after.length ≤ n := by
        simp only [List.length_append,List.length_cons] at hn
        omega
      obtain ⟨number,hnumber,numbers,hnumbers,rfl⟩ := Language.mem_mul.mp (ih hlen hafter.2 hhead)
      rw [← Language.one_add_self_mul_kstar_eq_kstar]
      exact .inr (Language.mem_mul.mpr ⟨'.' :: number,⟨_,rfl,number,hnumber,rfl⟩,numbers,hnumbers,rfl⟩)

/-- Dotted versions are a number and numbers after dots. -/
theorem mem_version_iff {run : Str} : run ∈ Regex.numbers * dotNumbers ↔
    RunText run ∧ run.head?.any Char.isDigit = true ∧ '.' ∈ run := by
  constructor
  · rintro ⟨digits,hd,rest,hr,rfl⟩
    refine ⟨runText_append (runText_numbers hd) (runText_dotNumbers hr),?_,?_⟩
    · obtain ⟨hne,hd⟩ := hd
      cases digits with
      | nil => exact absurd rfl hne
      | cons c digits => simpa using hd c (by simp)
    · obtain ⟨_,⟨_,rfl,number,-,rfl⟩,more,-,rfl⟩ := hr
      simp
  · rintro ⟨hr,hd,hdot⟩
    obtain ⟨digits,hdigits,rest,hrest,rfl⟩ := Language.mem_mul.mp (mem_run (Nat.le_refl _) hr hd)
    refine Language.mem_mul.mpr ⟨digits,hdigits,rest,?_,rfl⟩
    rw [← Language.one_add_self_mul_kstar_eq_kstar] at hrest
    rcases hrest with hrest | hrest
    · rw [hrest,List.append_nil] at hdot
      exact absurd (hdigits.2 '.' hdot) (by decide)
    · exact hrest

theorem spells_plain {text : Str} (h : ∀ c ∈ text, Regex.special c = false) : Regex.Spells text {text} := by
  have he : text.flatMap Regex.escape = text := by
    induction text with
    | nil => rfl
    | cons c text ih =>
      rw [List.flatMap_cons,ih fun d hd => h d (List.mem_cons_of_mem _ hd),Regex.escape,h c (by simp)]
      rfl
  have hs := Regex.Spells.literal text
  rwa [he] at hs

theorem spells_lead {lead : Str} (hl : IsLead lead) : Regex.Spells lead {lead} := by
  rcases hl with rfl | rfl
  · exact Regex.Spells.literal []
  · exact Regex.Spells.literal ['v']

/-- The first number of a version, with its lead. -/
def LeadingVersion.major (version : LeadingVersion) : Str := version.lead ++ version.run.takeWhile Char.isDigit

theorem spells_major {version : LeadingVersion} (h : VersionText version) :
    Regex.Spells version.major {version.major} := by
  refine spells_plain ?_
  intro c hc
  rcases List.mem_append.mp hc with hc | hc
  · rcases h.lead with hl | hl
    · rw [hl] at hc
      cases hc
    · rw [hl,List.mem_singleton] at hc
      rw [hc]
      rfl
  · exact @Regex.special_of_class Char.isDigit (by decide) c (List.mem_takeWhile_imp hc)

/-- Numbers after dots are the texts of a version from a dot on. -/
theorem mem_dotNumbers_iff {text : Str} : text ∈ dotNumbers ↔ RunText text ∧ text.head? = some '.' := by
  constructor
  · intro h
    refine ⟨runText_dotNumbers h,?_⟩
    obtain ⟨_,⟨_,rfl,number,-,rfl⟩,more,-,rfl⟩ := h
    rfl
  · rintro ⟨hrun,hhead⟩
    cases text with
    | nil => cases hhead
    | cons c rest =>
      cases hhead
      have hd := hrun.1.resolve_left (by decide)
      obtain ⟨number,hn,more,hm,rfl⟩ := Language.mem_mul.mp (mem_run (Nat.le_refl _) hrun.2 hd.2)
      exact Language.mem_mul.mpr ⟨'.' :: number,⟨_,rfl,number,hn,rfl⟩,more,hm,rfl⟩

/-- The expression for a tag in its four forms, with the tags it admits. -/
inductive RetagForm (tag : Str) : Str → Language Char → Prop
  | alpine {version : LeadingVersion} (hv : leadingDottedVersion tag = some version)
      (hr : version.rest = alpineSuffix) :
      RetagForm tag ('^' :: (version.major ++ (dottedNumbersRegex ++ alpineSuffix)) ++ ['$'])
        ({version.major} * (dotNumbers * {alpineSuffix}))
  | dotted {version : LeadingVersion} (hv : leadingDottedVersion tag = some version) (hr : version.rest = []) :
      RetagForm tag ('^' :: (version.lead ++ ("\\d+".toList ++ dottedNumbersRegex)) ++ ['$'])
        ({version.lead} * (Regex.numbers * dotNumbers))
  | leading {version : LeadingVersion} (hv : leadingDottedVersion tag = some version) (hr : version.rest ≠ [])
      (ha : version.rest ≠ alpineSuffix) (hm : managedWudTagTransform tag = []) :
      RetagForm tag
        ('^' :: (version.lead ++ ("\\d+".toList ++ dottedNumbersRegex) ++ generalizeNumbers version.rest) ++ ['$'])
        ({version.lead} * (Regex.numbers * dotNumbers) * sameShape version.rest)
  | numbers (h : ∀ version, leadingDottedVersion tag = some version → version.rest ≠ alpineSuffix ∧
        version.rest ≠ [] ∧ managedWudTagTransform tag ≠ []) :
      RetagForm tag ('^' :: generalizeNumbers tag ++ ['$']) (sameShape tag)

theorem exists_retagForm {tag : Str} (valid : tagValueValid tag = true) :
    ∃ regex language, retagTagIncludeRegex tag = .ok regex ∧ RetagForm tag regex language := by
  rw [retagTagIncludeRegex,valid,Bool.not_true,if_neg Bool.false_ne_true]
  cases hv : leadingDottedVersion tag with
  | none =>
    rw [alpineVersion,dottedVersion,hv]
    refine ⟨_,_,rfl,.numbers ?_⟩
    intro version h
    rw [hv] at h
    cases h
  | some version =>
    rw [alpineVersion,dottedVersion,hv,Option.bind_some,Option.bind_some]
    by_cases ha : version.rest = alpineSuffix
    · rw [if_pos ha]
      refine ⟨_,_,?_,.alpine hv ha⟩
      simp only [LeadingVersion.major,List.append_assoc,List.cons_append]
    · rw [if_neg ha]
      by_cases hd : version.rest = []
      · rw [if_pos hd]
        refine ⟨_,_,?_,.dotted hv hd⟩
        simp only [List.append_assoc,List.cons_append]
      · rw [if_neg hd]
        by_cases hm : managedWudTagTransform tag = []
        · refine ⟨_,_,?_,.leading hv hd ha hm⟩
          simp only [if_pos hm,List.append_assoc]
        · refine ⟨_,_,?_,.numbers ?_⟩
          · simp only [if_neg hm]
          · intro found h
            rw [hv] at h
            cases h
            exact ⟨ha,hd,hm⟩

theorem RetagForm.spells {tag regex : Str} {language : Language Char} (h : RetagForm tag regex language) :
    ∃ body, regex = '^' :: body ++ ['$'] ∧ Regex.Spells body language := by
  have hversion : Regex.Spells ("\\d+".toList ++ dottedNumbersRegex) (Regex.numbers * dotNumbers) :=
    Regex.Spells.numbers.append spells_dotNumbers
  cases h with
  | alpine hv hr =>
    obtain ⟨-,hv⟩ := leadingDottedVersion_eq_some.mp hv
    exact ⟨_,rfl,(spells_major hv).append (spells_dotNumbers.append (spells_plain (forall_mem_of_all (by decide))))⟩
  | dotted hv hr =>
    obtain ⟨-,hv⟩ := leadingDottedVersion_eq_some.mp hv
    exact ⟨_,rfl,(spells_lead hv.lead).append hversion⟩
  | leading hv hr ha hm =>
    obtain ⟨-,hv⟩ := leadingDottedVersion_eq_some.mp hv
    exact ⟨_,rfl,((spells_lead hv.lead).append hversion).append (spells_generalizeNumbers _)⟩
  | numbers h => exact ⟨_,rfl,spells_generalizeNumbers tag⟩

theorem RetagForm.admits {tag regex : Str} {language : Language Char} (h : RetagForm tag regex language)
    (other : Str) : (TagMatches regex other ↔ other ∈ language) ∧ (FullMatches regex other ↔ other ∈ language) := by
  obtain ⟨body,hr,hs⟩ := h.spells
  exact matches_anchored hs hr other

/-! Versions of four numbers and their transform. -/

/-- The text before the arrow of a transform. -/
def transformPattern (transform : Str) : Str := ((cutText " => ".toList transform).map (·.1)).getD transform

/-- What follows the four numbers. -/
def releaseSuffix : Bool → Language Char
  | true => {"-ls".toList} * Regex.numbers
  | false => {[]}

def fourPartVersions (lead : Str) (release : Bool) : Language Char :=
  {lead} * (Regex.numbers * ({['.']} * (Regex.numbers * ({['.']} * (Regex.numbers * ({['.']} * (Regex.numbers *
    releaseSuffix release)))))))

theorem mem_fourPartVersions {lead tag : Str} {release : Bool} : tag ∈ fourPartVersions lead release ↔
    ∃ major minor patch last rest, major ∈ Regex.numbers ∧ minor ∈ Regex.numbers ∧ patch ∈ Regex.numbers ∧
      last ∈ Regex.numbers ∧ rest ∈ releaseSuffix release ∧
      tag = lead ++ (major ++ '.' :: (minor ++ '.' :: (patch ++ '.' :: (last ++ rest)))) := by
  simp only [fourPartVersions,Language.mem_mul]
  constructor
  · rintro ⟨_,rfl,_,⟨major,h1,_,⟨_,rfl,_,⟨minor,h2,_,⟨_,rfl,_,⟨patch,h3,_,⟨_,rfl,_,⟨last,h4,rest,h5,rfl⟩,rfl⟩,rfl⟩,rfl⟩,
      rfl⟩,rfl⟩,rfl⟩,rfl⟩
    exact ⟨major,minor,patch,last,rest,h1,h2,h3,h4,h5,by simp⟩
  · rintro ⟨major,minor,patch,last,rest,h1,h2,h3,h4,h5,rfl⟩
    exact ⟨lead,rfl,_,⟨major,h1,_,⟨_,rfl,_,⟨minor,h2,_,⟨_,rfl,_,⟨patch,h3,_,⟨_,rfl,_,⟨last,h4,rest,h5,rfl⟩,rfl⟩,rfl⟩,
      rfl⟩,rfl⟩,rfl⟩,rfl⟩,by simp⟩

theorem asciiDigits_iff {digits : Str} : asciiDigits digits = true ↔ digits ∈ Regex.numbers := by
  simp [asciiDigits,Regex.mem_numbers]

theorem splitReleaseSuffix_eq_some {part : Str} {release : Bool} (h : splitReleaseSuffix part = some release) :
    ∃ number rest, part = number ++ rest ∧ number ∈ Regex.numbers ∧ rest ∈ releaseSuffix release := by
  unfold splitReleaseSuffix at h
  split at h
  · split at h
    · cases h
      exact ⟨part,[],by simp,asciiDigits_iff.mp ‹_›,rfl⟩
    · cases h
  · rename_i digits more hcut
    split at h
    · rename_i hd
      cases h
      rw [Bool.and_eq_true,asciiDigits_iff,asciiDigits_iff] at hd
      exact ⟨digits,"-ls".toList ++ more,by simpa using eq_of_cutText hcut,hd.1,Language.mem_mul.mpr ⟨_,rfl,more,hd.2,rfl⟩⟩
    · cases h

theorem fourPartVersionTag_eq_some {tag lead : Str} {release : Bool}
    (h : fourPartVersionTag tag = some (lead,release)) : IsLead lead ∧ tag ∈ fourPartVersions lead release := by
  obtain ⟨hlead,htag⟩ := isLead_versionLead tag
  simp only [fourPartVersionTag] at h
  split at h
  · rename_i major minor patch last hsplit
    split at h
    · rename_i hd
      simp only [Bool.and_eq_true,asciiDigits_iff] at hd
      obtain ⟨found,hfound,he⟩ := Option.map_eq_some_iff.mp h
      obtain ⟨rfl,rfl⟩ := Prod.mk.inj he
      refine ⟨hlead,?_⟩
      obtain ⟨number,rest,rfl,hn,hr⟩ := splitReleaseSuffix_eq_some hfound
      have hbody : ['.'].intercalate ((versionLead tag).2.splitOn '.') = (versionLead tag).2 :=
        List.intercalate_splitOn '.'
      have hsplit : (versionLead tag).2.splitOn '.' = [major,minor,patch,number ++ rest] := hsplit
      rw [hsplit] at hbody
      refine mem_fourPartVersions.mpr ⟨major,minor,patch,number,rest,hd.1.1,hd.1.2,hd.2,hn,hr,?_⟩
      calc tag = (versionLead tag).1 ++ (versionLead tag).2 := htag
        _ = (versionLead tag).1 ++ ['.'].intercalate [major,minor,patch,number ++ rest] := by rw [hbody]
        _ = _ := by simp [List.intercalate,versionLead]
    · cases h
  · cases h

/-- The transform of a version of four numbers applies to the versions of its form. -/
theorem transform_admits {tag lead : Str} {release : Bool} (h : fourPartVersionTag tag = some (lead,release))
    (other : Str) :
    TagMatches (transformPattern (managedWudTagTransform tag)) other ↔ other ∈ fourPartVersions lead release := by
  obtain ⟨hlead,-⟩ := fourPartVersionTag_eq_some h
  have hdot : Regex.Spells "\\.".toList {['.']} := Regex.Spells.char '.'
  have hcap := Regex.Spells.captured
  have hbody : ∀ {suffix}, Regex.Spells suffix (releaseSuffix release) → Regex.Spells (lead ++ ("(\\d+)".toList ++
      ("\\.".toList ++ ("(\\d+)".toList ++ ("\\.".toList ++ ("(\\d+)".toList ++ ("\\.".toList ++
        ("(\\d+)".toList ++ suffix)))))))) (fourPartVersions lead release) := fun hs =>
    (spells_lead hlead).append (hcap.append (hdot.append (hcap.append (hdot.append (hcap.append (hdot.append
      (hcap.append hs)))))))
  cases release with
  | true =>
    have hsuffix : Regex.Spells ("-ls".toList ++ "(\\d+)".toList) (releaseSuffix true) :=
      (spells_plain (forall_mem_of_all (by decide))).append hcap
    refine (matches_anchored (hbody hsuffix) ?_ other).1
    rw [managedWudTagTransform,h]
    rcases hlead with rfl | rfl <;> decide
  | false =>
    refine (matches_anchored (hbody (Regex.Spells.literal [])) ?_ other).1
    rw [managedWudTagTransform,h]
    rcases hlead with rfl | rfl <;> decide

theorem stopsVersion_releaseSuffix {release : Bool} {rest : Str} (h : rest ∈ releaseSuffix release) :
    StopsVersion rest := by
  cases release with
  | true =>
    obtain ⟨_,rfl,number,-,rfl⟩ := h
    refine ⟨ends_cons.mpr rfl,?_⟩
    intro after he
    simp at he
  | false =>
    rw [show rest = [] from h]
    exact .nil

theorem leadingDottedVersion_of_fourPart {lead tag : Str} {release : Bool} (hl : IsLead lead)
    (h : tag ∈ fourPartVersions lead release) :
    ∃ run rest, leadingDottedVersion tag = some ⟨lead,run,rest⟩ ∧ rest ∈ releaseSuffix release := by
  obtain ⟨major,minor,patch,last,rest,h1,h2,h3,h4,h5,rfl⟩ := mem_fourPartVersions.mp h
  refine ⟨major ++ '.' :: (minor ++ '.' :: (patch ++ '.' :: last)),rest,?_,h5⟩
  have hparts : minor ++ '.' :: (patch ++ '.' :: last) = minor ++ ('.' :: patch ++ '.' :: last) := by simp
  have hrun : major ++ '.' :: (minor ++ '.' :: (patch ++ '.' :: last)) ∈ Regex.numbers * dotNumbers := by
    refine Language.mem_mul.mpr ⟨major,h1,_,Language.mem_mul.mpr ⟨'.' :: minor,⟨_,rfl,minor,h2,rfl⟩,_,
      Language.mem_kstar.mpr ⟨['.' :: patch,'.' :: last],rfl,?_⟩,?_⟩,rfl⟩
    · intro part hp
      simp only [List.mem_cons,List.not_mem_nil,or_false] at hp
      rcases hp with rfl | rfl
      · exact ⟨_,rfl,patch,h3,rfl⟩
      · exact ⟨_,rfl,last,h4,rfl⟩
    · simp
  obtain ⟨hrun,hhead,hdot⟩ := mem_version_iff.mp hrun
  refine leadingDottedVersion_eq_some.mpr ⟨by simp [LeadingVersion.text],hl,hrun,hhead,hdot,?_⟩
  exact stopsVersion_releaseSuffix h5

theorem sameShape_fourPart {lead tag : Str} (hl : IsLead lead) (h : tag ∈ fourPartVersions lead true) :
    sameShape tag = fourPartVersions lead true := by
  obtain ⟨major,minor,patch,last,rest,h1,h2,h3,h4,hrest,rfl⟩ := mem_fourPartVersions.mp h
  obtain ⟨_,rfl,number,h5,rfl⟩ := Language.mem_mul.mp hrest
  have hends : EndsNumber ("-ls".toList ++ number) := ends_cons.mpr rfl
  have hlead : ∀ c ∈ lead, c.isDigit = false := by
    rcases hl with rfl | rfl
    · simp
    · simp
  have hdot : ∀ {rest : Str}, sameShape ('.' :: rest) = {['.']} * sameShape rest := sameShape_literal rfl
  have hls : ∀ {rest : Str}, sameShape ("-ls".toList ++ rest) = {"-ls".toList} * sameShape rest :=
    sameShape_plain (forall_mem_of_all (by decide))
  have hnumber : sameShape number = Regex.numbers * 1 := by
    rw [← sameShape_nil,← sameShape_number h5 ends_nil,List.append_nil]
  rw [sameShape_plain hlead,sameShape_number h1 (ends_cons.mpr rfl),hdot,sameShape_number h2 (ends_cons.mpr rfl),hdot,
    sameShape_number h3 (ends_cons.mpr rfl),hdot,sameShape_number h4 hends,hls,hnumber,mul_one]
  rfl

/-- The tags admitted for an installed version of four numbers are all matched by its transform exactly
where a release number follows the four numbers. -/
theorem transform_matches_admitted_iff {tag : Str} (valid : tagValueValid tag = true)
    (h : managedWudTagTransform tag ≠ []) :
    ∃ regex, retagTagIncludeRegex tag = .ok regex ∧
      ((∀ other, tagValueValid other = true → TagMatches regex other →
          TagMatches (transformPattern (managedWudTagTransform tag)) other) ↔
        ∃ lead, fourPartVersionTag tag = some (lead,true)) := by
  obtain ⟨regex,language,hregex,hform⟩ := exists_retagForm valid
  refine ⟨regex,hregex,?_⟩
  have hadmits := fun other => (hform.admits other).1
  cases hf : fourPartVersionTag tag with
  | none => simp [managedWudTagTransform,hf] at h
  | some found =>
    obtain ⟨lead,release⟩ := found
    obtain ⟨hlead,hmem⟩ := fourPartVersionTag_eq_some hf
    obtain ⟨run,rest,hversion,hrest⟩ := leadingDottedVersion_of_fourPart hlead hmem
    simp only [hadmits,transform_admits hf]
    cases release with
    | true =>
      refine ⟨fun _ => ⟨lead,rfl⟩,fun _ other _ ho => ?_⟩
      obtain ⟨_,rfl,number,hn,rfl⟩ := hrest
      cases hform with
      | alpine hv hr =>
        rw [hversion] at hv
        cases hv
        have hr : '-' :: 'l' :: 's' :: number = '-' :: 'a' :: "lpine".toList := hr
        cases (List.cons.inj (List.cons.inj hr).2).1
      | dotted hv hr =>
        rw [hversion] at hv
        cases hv
        exact absurd hr (by simp)
      | leading hv hr ha hm => exact absurd hm h
      | numbers => rwa [← sameShape_fourPart hlead hmem]
    | false =>
      have hrest : rest = [] := hrest
      subst hrest
      constructor
      · intro hall
        -- a version of two numbers is admitted and has too few dots for the transform
        have hvalid : tagValueValid (lead ++ "1.2".toList) = true := by
          rcases hlead with rfl | rfl <;> decide
        have hadmitted : lead ++ "1.2".toList ∈ language := by
          cases hform with
          | alpine hv hr =>
            rw [hversion] at hv
            cases hv
            cases hr
          | dotted hv hr =>
            rw [hversion] at hv
            cases hv
            have hrun : RunText "1.2".toList := ⟨.inl rfl,.inr ⟨rfl,rfl⟩,.inl rfl,trivial⟩
            exact Language.mem_mul.mpr ⟨lead,rfl,_,mem_version_iff.mpr ⟨hrun,rfl,by simp⟩,rfl⟩
          | leading hv hr ha hm => exact absurd hm h
          | numbers hn => exact absurd rfl (hn _ hversion).2.1
        obtain ⟨major,minor,patch,last,rest,-,-,-,-,-,he⟩ := mem_fourPartVersions.mp (hall _ hvalid hadmitted)
        have hcount := congrArg (List.count '.') (List.append_cancel_left he)
        simp [List.count_append] at hcount
        omega
      · rintro ⟨other,ho⟩
        simp at ho

/-- An installed version of four numbers without a release number: a version of three is admitted, and the
transform does not match it. -/
theorem three_numbers_admitted : ¬ ∃ regex, retagTagIncludeRegex "1.2.3.4".toList = .ok regex ∧
    ∀ other, tagValueValid other = true → TagMatches regex other →
      TagMatches (transformPattern (managedWudTagTransform "1.2.3.4".toList)) other := by
  rintro ⟨regex,hregex,hall⟩
  have hregex' : retagTagIncludeRegex "1.2.3.4".toList = .ok "^\\d+(?:\\.\\d+)+$".toList := by decide
  rw [hregex'] at hregex
  cases hregex
  have hform : RetagForm "1.2.3.4".toList "^\\d+(?:\\.\\d+)+$".toList ({[]} * (Regex.numbers * dotNumbers)) := by
    have hv : leadingDottedVersion "1.2.3.4".toList = some ⟨[],"1.2.3.4".toList,[]⟩ := by decide
    exact .dotted hv rfl
  have hrun : RunText "1.2.3".toList := ⟨.inl rfl,.inr ⟨rfl,rfl⟩,.inl rfl,.inr ⟨rfl,rfl⟩,.inl rfl,trivial⟩
  have hadmitted : TagMatches "^\\d+(?:\\.\\d+)+$".toList "1.2.3".toList :=
    (hform.admits _).1.mpr (Language.mem_mul.mpr ⟨[],rfl,_,mem_version_iff.mpr ⟨hrun,rfl,by simp⟩,rfl⟩)
  have hfour : fourPartVersionTag "1.2.3.4".toList = some ([],false) := by decide
  have htransform := (transform_admits hfour _).mp (hall _ (by decide) hadmitted)
  obtain ⟨major,minor,patch,last,rest,-,-,-,-,-,he⟩ := mem_fourPartVersions.mp htransform
  have hcount := congrArg (List.count '.') he
  simp [List.count_append] at hcount
  omega

theorem transform_matches_lsio : ∃ regex, retagTagIncludeRegex "4.0.19.2979-ls321".toList = .ok regex ∧
    ((∀ other, tagValueValid other = true → TagMatches regex other →
        TagMatches (transformPattern (managedWudTagTransform "4.0.19.2979-ls321".toList)) other) ↔
      ∃ lead, fourPartVersionTag "4.0.19.2979-ls321".toList = some (lead,true)) :=
  transform_matches_admitted_iff (by decide) (by decide)

end Wudup
