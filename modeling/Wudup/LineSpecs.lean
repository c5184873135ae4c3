import Mathlib.Data.List.Dedup
import Wudup.Library.Decimal
import Wudup.Library.Keyed
import Wudup.Library.Traverse
import Wudup.WudFile

/-! The line selections of the updater: the specs it accepts, the lines they name, and how they are written. -/
namespace Wudup
open Library

/-- A spec is refused, or a number has more digits than are converted between texts and numbers. -/
inductive LineSpecFailure
  | lineSpecError (message : Str)
  | valueError
  deriving DecidableEq, Repr

def strInt (n : ℤ) : Except LineSpecFailure Str :=
  let digits := Nat.toDigits 10 n.natAbs
  if digits.length > maxDigits then .error .valueError
  else .ok (if n < 0 then '-' :: digits else digits)

def intDigits (text : Str) : Except LineSpecFailure ℕ :=
  match readDecimal text with
  | some n => .ok n
  | none => .error .valueError

def numberRe (text : Str) : Bool := text ≠ [] && text.all Char.isDigit

/-- The numbers around the dash. -/
def rangeRe (text : Str) : Option (Str × Str) :=
  match cut '-' text with
  | some (left,right) => if numberRe left && numberRe right then some (left,right) else none
  | none => none

def withoutSpace (spec : Str) : Str := spec.filter fun c => !shellSpace.contains c

def cleanLineSpec (spec : Option Str) (label : Str) : Except LineSpecFailure (Option Str) :=
  if spec = none || spec = some [] then .ok none
  else
    let cleaned := withoutSpace (spec.getD [])
    if cleaned = [] then .error (.lineSpecError (label ++ " must not be empty".toList))
    else .ok (some cleaned)

/-- The texts between the commas; one comma may end the spec. -/
def lineSpecParts (cleaned : Str) : List Str :=
  let parts := cleaned.splitOn ','
  if parts.getLast? = some [] then parts.dropLast else parts

def checkLineNumberBounds (lineNo : ℕ) (maxLines : ℤ) (label : Str) : Except LineSpecFailure Unit :=
  if lineNo > maxLines then do
    let line ← strInt lineNo
    let count ← strInt maxLines
    .error (.lineSpecError
      (label ++ " references line ".toList ++ line ++ ", but WUD file has ".toList ++ count ++ " line(s)".toList))
  else .ok ()

def belowOne (spec label : Str) : LineSpecFailure :=
  .lineSpecError (label ++ " line numbers must be 1 or greater: ".toList ++ spec)

def parseLineRange (left right spec : Str) (maxLines : ℤ) (label : Str) : Except LineSpecFailure (List ℕ) := do
  let start ← intDigits left
  let stop ← intDigits right
  if start < 1 then .error (belowOne spec label)
  else if stop < start then .error (.lineSpecError (label ++ " ranges must ascend: ".toList ++ spec))
  else do
    checkLineNumberBounds stop maxLines label
    return List.range' start (stop + 1 - start)

def parseLineNumber (part spec : Str) (maxLines : ℤ) (label : Str) : Except LineSpecFailure ℕ := do
  let lineNo ← intDigits part
  if lineNo < 1 then .error (belowOne spec label)
  else do
    checkLineNumberBounds lineNo maxLines label
    return lineNo

def invalidValue (spec label : Str) : LineSpecFailure :=
  .lineSpecError ("Invalid ".toList ++ label ++ " value: ".toList ++ spec)

def parseLineSpecPart (part spec : Str) (maxLines : ℤ) (label : Str) : Except LineSpecFailure (List ℕ) :=
  if part = [] then .error (invalidValue spec label)
  else match rangeRe part with
    | some (left,right) => parseLineRange left right spec maxLines label
    | none =>
      if numberRe part then do
        let lineNo ← parseLineNumber part spec maxLines label
        return [lineNo]
      else .error (invalidValue spec label)

def parseLineSpec (spec : Option Str) (maxLines : ℤ) (label : Str) : Except LineSpecFailure (List ℕ) := do
  match ← cleanLineSpec spec label with
  | none => return []
  | some cleaned =>
    let selected ← (lineSpecParts cleaned).mapM fun part => parseLineSpecPart part (spec.getD []) maxLines label
    return selected.flatten.dedup.insertionSort (· ≤ ·)

/-- The spec of a selection, as the updater is given it. -/
def lineSpec (lineNumbers : List ℤ) : Except LineSpecFailure Str := do
  let texts ← (lineNumbers.dedup.insertionSort (· ≤ ·)).mapM strInt
  return [','].intercalate texts

/-! What the specs denote -/

/-- Digits that write a number, with leading zeros or without; a longer text is not converted. -/
def Writes (text : Str) (n : ℕ) : Prop :=
  text ≠ [] ∧ (∀ c ∈ text, c.isDigit = true) ∧ text.length ≤ maxDigits ∧ digitsValue text = n

/-- A part names the lines from a first to a last one. -/
inductive NamesLines (maxLines : ℤ) : Str → ℕ × ℕ → Prop
  | number {text : Str} {n : ℕ} : Writes text n → 1 ≤ n → n ≤ maxLines → NamesLines maxLines text (n,n)
  | range {left right : Str} {m n : ℕ} : Writes left m → Writes right n → 1 ≤ m → m ≤ n → n ≤ maxLines →
      NamesLines maxLines (left ++ '-' :: right) (m,n)

/-- A text of parts between commas, with one comma at the end or without. -/
def ListsRanges (maxLines : ℤ) (text : Str) (ranges : List (ℕ × ℕ)) : Prop :=
  ∃ parts : List Str, parts ≠ [] ∧ List.Forall₂ (NamesLines maxLines) parts ranges ∧
    (text = [','].intercalate parts ∨ text = [','].intercalate parts ++ [','])

/-- The lines of the ranges, in ascending order and each once. -/
def Selects (ranges : List (ℕ × ℕ)) (lines : List ℕ) : Prop :=
  lines.Pairwise (· < ·) ∧ ∀ n, n ∈ lines ↔ ∃ range ∈ ranges, range.1 ≤ n ∧ n ≤ range.2

theorem numberRe_iff {text : Str} : numberRe text = true ↔ text ≠ [] ∧ ∀ c ∈ text, c.isDigit = true := by
  simp [numberRe]

theorem intDigits_eq_ok_iff {text : Str} {n : ℕ} (h : numberRe text = true) :
    intDigits text = .ok n ↔ Writes text n := by
  obtain ⟨hne,hdigits⟩ := numberRe_iff.mp h
  by_cases hl : text.length ≤ maxDigits
  · rw [intDigits,readDecimal_of_ascii hne hdigits hl,Except.ok.injEq]
    exact ⟨fun h => ⟨hne,hdigits,hl,h⟩,fun h => h.2.2.2⟩
  · have hlong : text.length > maxDigits := by omega
    simp [intDigits,readDecimal,hlong,Writes,hl]

theorem Writes.numberRe {text : Str} {n : ℕ} (h : Writes text n) : numberRe text = true :=
  numberRe_iff.mpr ⟨h.1,h.2.1⟩

theorem rangeRe_eq_some_iff {part left right : Str} : rangeRe part = some (left,right) ↔
    part = left ++ '-' :: right ∧ numberRe left = true ∧ numberRe right = true := by
  rw [rangeRe]
  constructor
  · intro h
    split at h
    · rename_i left' right' hcut
      split at h
      · rename_i hnumbers
        cases h
        exact ⟨(eq_of_cut hcut).1,by simpa using hnumbers⟩
      · cases h
    · cases h
  · rintro ⟨rfl,hleft,hright⟩
    have hdash : '-' ∉ left := fun h => absurd ((numberRe_iff.mp hleft).2 '-' h) (by decide)
    simp [cut_append hdash,hleft,hright]

/-- A number holds no dash. -/
theorem rangeRe_of_number {part : Str} (h : numberRe part = true) : rangeRe part = none := by
  cases hr : rangeRe part with
  | none => rfl
  | some parts =>
    obtain ⟨rfl,-,-⟩ := rangeRe_eq_some_iff.mp hr
    exact absurd ((numberRe_iff.mp h).2 '-' (by simp)) (by decide)

section
variable {maxLines : ℤ} {label spec : Str}

theorem checkLineNumberBounds_eq_ok_iff {n : ℕ} : checkLineNumberBounds n maxLines label = .ok () ↔ n ≤ maxLines := by
  rw [checkLineNumberBounds]
  split
  · rename_i h
    simp [bind_eq_ok,h]
  · rename_i h
    simpa using h

theorem parseLineNumber_eq_ok_iff {part : Str} {n : ℕ} (h : numberRe part = true) :
    parseLineNumber part spec maxLines label = .ok n ↔ Writes part n ∧ 1 ≤ n ∧ n ≤ maxLines := by
  rw [parseLineNumber,bind_eq_ok]
  constructor
  · rintro ⟨m,hm,hrest⟩
    split at hrest
    · cases hrest
    · rename_i hlow
      obtain ⟨_,hbound,hn⟩ := bind_eq_ok.mp hrest
      cases hn
      exact ⟨(intDigits_eq_ok_iff h).mp hm,Nat.not_lt.mp hlow,checkLineNumberBounds_eq_ok_iff.mp hbound⟩
  · rintro ⟨hwrites,hlow,hbound⟩
    refine ⟨n,(intDigits_eq_ok_iff h).mpr hwrites,?_⟩
    rw [if_neg (by omega),checkLineNumberBounds_eq_ok_iff.mpr hbound]
    rfl

theorem parseLineRange_eq_ok_iff {left right : Str} {lines : List ℕ} (hl : numberRe left = true)
    (hr : numberRe right = true) : parseLineRange left right spec maxLines label = .ok lines ↔
      ∃ m n, Writes left m ∧ Writes right n ∧ 1 ≤ m ∧ m ≤ n ∧ n ≤ maxLines ∧ lines = List.range' m (n + 1 - m) := by
  rw [parseLineRange,bind_eq_ok]
  constructor
  · rintro ⟨m,hm,hrest⟩
    obtain ⟨n,hn,hrest⟩ := bind_eq_ok.mp hrest
    split at hrest
    · cases hrest
    · rename_i hlow
      split at hrest
      · cases hrest
      · rename_i hascend
        obtain ⟨_,hbound,hlines⟩ := bind_eq_ok.mp hrest
        cases hlines
        exact ⟨m,n,(intDigits_eq_ok_iff hl).mp hm,(intDigits_eq_ok_iff hr).mp hn,Nat.not_lt.mp hlow,
          Nat.not_lt.mp hascend,checkLineNumberBounds_eq_ok_iff.mp hbound,rfl⟩
  · rintro ⟨m,n,hm,hn,hlow,hascend,hbound,rfl⟩
    refine ⟨m,(intDigits_eq_ok_iff hl).mpr hm,bind_eq_ok.mpr ⟨n,(intDigits_eq_ok_iff hr).mpr hn,?_⟩⟩
    rw [if_neg (by omega),if_neg (by omega),checkLineNumberBounds_eq_ok_iff.mpr hbound]
    rfl

/-- A part is accepted when it names lines of the file, and then gives these. -/
theorem parseLineSpecPart_eq_ok_iff {part : Str} {lines : List ℕ} :
    parseLineSpecPart part spec maxLines label = .ok lines ↔
      ∃ range, NamesLines maxLines part range ∧ lines = List.range' range.1 (range.2 + 1 - range.1) := by
  rw [parseLineSpecPart]
  constructor
  · intro h
    split at h
    · cases h
    · split at h
      · rename_i left right hrange
        obtain ⟨rfl,hl,hr⟩ := rangeRe_eq_some_iff.mp hrange
        obtain ⟨m,n,hm,hn,hlow,hascend,hbound,hlines⟩ := (parseLineRange_eq_ok_iff hl hr).mp h
        exact ⟨(m,n),.range hm hn hlow hascend hbound,hlines⟩
      · split at h
        · rename_i hnumber
          obtain ⟨n,hn,hlines⟩ := bind_eq_ok.mp h
          cases hlines
          obtain ⟨hwrites,hlow,hbound⟩ := (parseLineNumber_eq_ok_iff hnumber).mp hn
          refine ⟨(n,n),.number hwrites hlow hbound,?_⟩
          simp
        · cases h
  · rintro ⟨range,hnames,rfl⟩
    cases hnames with
    | number hwrites hlow hbound =>
      rw [if_neg hwrites.1,rangeRe_of_number hwrites.numberRe]
      dsimp only
      rw [if_pos hwrites.numberRe,(parseLineNumber_eq_ok_iff hwrites.numberRe).mpr ⟨hwrites,hlow,hbound⟩]
      simp [bind,Except.bind,pure,Except.pure]
    | range hl hr hlow hascend hbound =>
      rw [if_neg (by simp),rangeRe_eq_some_iff.mpr ⟨rfl,hl.numberRe,hr.numberRe⟩]
      exact (parseLineRange_eq_ok_iff hl.numberRe hr.numberRe).mpr ⟨_,_,hl,hr,hlow,hascend,hbound,rfl⟩

end

/-! The parts between the commas -/

theorem comma_not_mem_of_number {text : Str} (h : numberRe text = true) : ',' ∉ text :=
  fun hc => absurd ((numberRe_iff.mp h).2 ',' hc) (by decide)

theorem NamesLines.part {maxLines : ℤ} {part : Str} {range : ℕ × ℕ} (h : NamesLines maxLines part range) :
    part ≠ [] ∧ ',' ∉ part := by
  cases h with
  | number hwrites => exact ⟨hwrites.1,comma_not_mem_of_number hwrites.numberRe⟩
  | range hl hr =>
    have hleft := comma_not_mem_of_number hl.numberRe
    have hright := comma_not_mem_of_number hr.numberRe
    simp [hleft,hright]

theorem NamesLines.ordered {maxLines : ℤ} {part : Str} {range : ℕ × ℕ} (h : NamesLines maxLines part range) :
    1 ≤ range.1 ∧ range.1 ≤ range.2 ∧ range.2 ≤ maxLines := by
  cases h with
  | number _ hlow hbound => exact ⟨hlow,le_refl _,hbound⟩
  | range _ _ hlow hascend hbound => exact ⟨hlow,hascend,hbound⟩

section
variable {parts : List Str} (hne : parts ≠ []) (hparts : ∀ part ∈ parts, part ≠ [] ∧ ',' ∉ part)
include hne hparts

theorem lineSpecParts_intercalate : lineSpecParts ([','].intercalate parts) = parts := by
  have hsplit : ([','].intercalate parts).splitOn ',' = parts :=
    List.splitOn_intercalate ',' (fun part h => (hparts part h).2) hne
  rw [lineSpecParts,hsplit]
  exact if_neg fun hlast => (hparts [] (List.mem_of_getLast? hlast)).1 rfl

theorem lineSpecParts_trailing : lineSpecParts ([','].intercalate parts ++ [',']) = parts := by
  have hsplit : ([','].intercalate parts ++ [',']).splitOn ',' = parts ++ [[]] := by
    rw [← intercalate_append_singleton hne]
    refine List.splitOn_intercalate ',' (fun part h => ?_) (by simp)
    obtain h | h := List.mem_append.mp h
    · exact (hparts part h).2
    · simp [List.mem_singleton.mp h]
  simp [lineSpecParts,hsplit]

end

/-- The parts and their commas are the text, but for a comma at its end. -/
theorem eq_intercalate_lineSpecParts {cleaned : Str} (h : lineSpecParts cleaned ≠ []) :
    cleaned = [','].intercalate (lineSpecParts cleaned) ∨
      cleaned = [','].intercalate (lineSpecParts cleaned) ++ [','] := by
  have htext : [','].intercalate (cleaned.splitOn ',') = cleaned := List.intercalate_splitOn ','
  unfold lineSpecParts at h ⊢
  dsimp only at h ⊢
  split
  · rename_i hlast
    rw [if_pos hlast] at h
    right
    rw [← intercalate_append_singleton h,List.dropLast_append_getLast? [] hlast,htext]
  · exact .inl htext.symm

theorem lineSpecParts_ne_nil {cleaned : Str} (h : cleaned ≠ []) : lineSpecParts cleaned ≠ [] := by
  have htext : [','].intercalate (cleaned.splitOn ',') = cleaned := List.intercalate_splitOn ','
  have hne : cleaned.splitOn ',' ≠ [] := List.splitOn_ne_nil ',' cleaned
  rw [lineSpecParts]
  split
  · rename_i hlast
    intro hnil
    rw [← List.dropLast_append_getLast? [] hlast,hnil] at htext
    exact h htext.symm
  · exact hne

theorem ListsRanges.ordered {maxLines : ℤ} {text : Str} {ranges : List (ℕ × ℕ)}
    (h : ListsRanges maxLines text ranges) {range : ℕ × ℕ} (hrange : range ∈ ranges) : range.1 ≤ range.2 := by
  obtain ⟨parts,-,hnames,-⟩ := h
  obtain ⟨part,-,hpart⟩ := exists_mem_of_forall₂ hnames hrange
  exact hpart.ordered.2.1

/-! Accepted specs -/

section
variable {maxLines : ℤ} {label spec : Str}

theorem parse_parts {parts : List Str} {selected : List (List ℕ)} :
    (parts.mapM fun part => parseLineSpecPart part spec maxLines label) = .ok selected ↔
      ∃ ranges, List.Forall₂ (NamesLines maxLines) parts ranges ∧
        selected = ranges.map fun range => List.range' range.1 (range.2 + 1 - range.1) :=
  mapM_eq_ok_iff fun _ _ => parseLineSpecPart_eq_ok_iff

theorem selects_sorted {ranges : List (ℕ × ℕ)} (h : ∀ range ∈ ranges, range.1 ≤ range.2) :
    Selects ranges ((ranges.map fun range =>
      List.range' range.1 (range.2 + 1 - range.1)).flatten.dedup.insertionSort (· ≤ ·)) := by
  refine ⟨Keyed.pairwise_insertionSort_of_nodup (List.nodup_dedup _),fun n => ?_⟩
  rw [List.mem_insertionSort,List.mem_dedup,List.mem_flatten]
  constructor
  · rintro ⟨lines,hlines,hn⟩
    obtain ⟨range,hrange,rfl⟩ := List.mem_map.mp hlines
    have := h range hrange
    rw [List.mem_range'_1] at hn
    exact ⟨range,hrange,hn.1,by omega⟩
  · rintro ⟨range,hrange,hlow,hhigh⟩
    exact ⟨_,List.mem_map_of_mem hrange,by rw [List.mem_range'_1]; omega⟩

theorem Selects.unique {ranges : List (ℕ × ℕ)} {lines lines' : List ℕ} (h : Selects ranges lines)
    (h' : Selects ranges lines') : lines = lines' :=
  h.1.eq_of_mem_iff h'.1 fun n => (h.2 n).trans (h'.2 n).symm

theorem parse_given (hspec : spec ≠ []) : parseLineSpec (some spec) maxLines label =
    if withoutSpace spec = [] then .error (.lineSpecError (label ++ " must not be empty".toList))
    else do
      let selected ← (lineSpecParts (withoutSpace spec)).mapM fun part => parseLineSpecPart part spec maxLines label
      return selected.flatten.dedup.insertionSort (· ≤ ·) := by
  rw [parseLineSpec,cleanLineSpec,if_neg (by simp [hspec])]
  dsimp only [Option.getD_some]
  split <;> rfl

/-- A given spec is parsed to the lines that its text without spaces lists. -/
theorem parse_given_eq_ok_iff {lines : List ℕ} (hspec : spec ≠ []) :
    parseLineSpec (some spec) maxLines label = .ok lines ↔
      ∃ ranges, ListsRanges maxLines (withoutSpace spec) ranges ∧ Selects ranges lines := by
  rw [parse_given hspec]
  constructor
  · intro h
    split at h
    · cases h
    · rename_i hcleaned
      obtain ⟨selected,hselected,hlines⟩ := bind_eq_ok.mp h
      cases hlines
      obtain ⟨ranges,hnames,rfl⟩ := parse_parts.mp hselected
      have hparts := lineSpecParts_ne_nil hcleaned
      have hlists : ListsRanges maxLines (withoutSpace spec) ranges :=
        ⟨_,hparts,hnames,eq_intercalate_lineSpecParts hparts⟩
      exact ⟨ranges,hlists,selects_sorted fun range hrange => hlists.ordered hrange⟩
  · rintro ⟨ranges,hlists,hselects⟩
    obtain ⟨parts,hne,hnames,htext⟩ := id hlists
    have hall : ∀ part ∈ parts, part ≠ [] ∧ ',' ∉ part := by
      intro part hpart
      obtain ⟨range,-,hnamed⟩ := exists_mem_of_forall₂ hnames.flip hpart
      exact hnamed.part
    have hsplit : lineSpecParts (withoutSpace spec) = parts := by
      obtain htext | htext := htext
      · rw [htext,lineSpecParts_intercalate hne hall]
      · rw [htext,lineSpecParts_trailing hne hall]
    have hcleaned : withoutSpace spec ≠ [] := by
      intro hnil
      rw [hnil] at hsplit
      exact hne hsplit.symm
    rw [if_neg hcleaned,hsplit,parse_parts.mpr ⟨ranges,hnames,rfl⟩]
    exact congrArg Except.ok ((selects_sorted fun range hrange => hlists.ordered hrange).unique hselects)

end

/-! What is written is read back -/

theorem writes_toDigits {n : ℕ} (h : (Nat.toDigits 10 n).length ≤ maxDigits) : Writes (Nat.toDigits 10 n) n :=
  ⟨Nat.toDigits_ne_nil,fun _ hc => Nat.isDigit_of_mem_toDigits (by decide) (by decide) hc,h,digitsValue_toDigits n⟩

theorem strInt_natCast {n : ℕ} (h : (Nat.toDigits 10 n).length ≤ maxDigits) :
    strInt (n : ℤ) = .ok (Nat.toDigits 10 n) := by
  rw [strInt,Int.natAbs_natCast,if_neg (Nat.not_lt.mpr h),if_neg (by omega)]

theorem withoutSpace_eq_self {text : Str} (h : ∀ c ∈ text, c.isDigit = true ∨ c = ',') : withoutSpace text = text := by
  rw [withoutSpace,List.filter_eq_self]
  intro c hc
  have hspace : ∀ d ∈ shellSpace, d.isDigit = false ∧ d ≠ ',' := forall_mem_of_all (by decide)
  rw [Bool.not_eq_true',List.contains_eq_mem,decide_eq_false_iff_not]
  intro hmem
  obtain hdigit | hcomma := h c hc
  · exact absurd hdigit (by simp [(hspace c hmem).1])
  · exact (hspace c hmem).2 hcomma

theorem listsRanges_sorted {maxLines : ℤ} {lines : List ℕ}
    (hdigits : ∀ n ∈ lines, (Nat.toDigits 10 n).length ≤ maxDigits)
    (hbounds : ∀ n ∈ lines, 1 ≤ n ∧ (n : ℤ) ≤ maxLines) (hne : lines ≠ []) :
    ListsRanges maxLines ([','].intercalate (lines.map (Nat.toDigits 10))) (lines.map fun n => (n,n)) := by
  refine ⟨lines.map (Nat.toDigits 10),by simpa using hne,?_,.inl rfl⟩
  rw [List.forall₂_map_left_iff,List.forall₂_map_right_iff,List.forall₂_same]
  intro n hn
  exact .number (writes_toDigits (hdigits n hn)) (hbounds n hn).1 (hbounds n hn).2

section
variable {lines : List ℕ} (hsorted : lines.Pairwise (· < ·))
  (hdigits : ∀ n ∈ lines, (Nat.toDigits 10 n).length ≤ maxDigits)
include hsorted hdigits

theorem lineSpec_sorted : lineSpec (lines.map (↑)) = .ok ([','].intercalate (lines.map (Nat.toDigits 10))) := by
  have hcast : (lines.map ((↑) : ℕ → ℤ)).Pairwise (· < ·) :=
    List.pairwise_map.mpr (hsorted.imp fun h => Int.ofNat_lt.mpr h)
  have hset : (lines.map ((↑) : ℕ → ℤ)).dedup.insertionSort (· ≤ ·) = lines.map (↑) := by
    rw [List.Nodup.dedup (hcast.imp ne_of_lt)]
    exact (hcast.imp le_of_lt).insertionSort_eq
  have htexts : (lines.map ((↑) : ℕ → ℤ)).mapM strInt = .ok (lines.map (Nat.toDigits 10)) := by
    rw [mapM_eq_ok,List.map_map,List.map_map]
    apply List.map_congr_left
    intro n hn
    exact strInt_natCast (hdigits n hn)
  rw [lineSpec,hset,htexts]
  rfl

/-- The lines of a written selection are the ones that are parsed from it. -/
theorem parse_lineSpec {maxLines : ℤ} {label : Str} (hbounds : ∀ n ∈ lines, 1 ≤ n ∧ (n : ℤ) ≤ maxLines) :
    parseLineSpec (some ([','].intercalate (lines.map (Nat.toDigits 10)))) maxLines label = .ok lines := by
  by_cases hne : lines = []
  · subst hne
    rfl
  · have hlists := listsRanges_sorted hdigits hbounds hne
    have htext : withoutSpace ([','].intercalate (lines.map (Nat.toDigits 10))) =
        [','].intercalate (lines.map (Nat.toDigits 10)) := by
      apply withoutSpace_eq_self
      intro c hc
      obtain hc | ⟨part,hpart,hc⟩ := mem_of_mem_intercalate hc
      · exact .inr (by simpa using hc)
      · obtain ⟨n,-,rfl⟩ := List.mem_map.mp hpart
        exact .inl (Nat.isDigit_of_mem_toDigits (by decide) (by decide) hc)
    have hspec : [','].intercalate (lines.map (Nat.toDigits 10)) ≠ [] := by
      intro hnil
      have hparts : lineSpecParts ([','].intercalate (lines.map (Nat.toDigits 10))) = lines.map (Nat.toDigits 10) := by
        apply lineSpecParts_intercalate (by simpa using hne)
        intro part hpart
        obtain ⟨n,hn,rfl⟩ := List.mem_map.mp hpart
        have hwrites := writes_toDigits (hdigits n hn)
        exact ⟨hwrites.1,comma_not_mem_of_number hwrites.numberRe⟩
      rw [hnil] at hparts
      exact hne (List.map_eq_nil_iff.mp hparts.symm)
    rw [parse_given_eq_ok_iff hspec,htext]
    refine ⟨_,hlists,hsorted,fun n => ⟨fun hn => ⟨(n,n),List.mem_map_of_mem hn,le_refl n,le_refl n⟩,?_⟩⟩
    rintro ⟨range,hrange,hlow,hhigh⟩
    obtain ⟨m,hm,rfl⟩ := List.mem_map.mp hrange
    rwa [Nat.le_antisymm hhigh hlow]

end

/-- A spec that is not empty is accepted exactly when, without its spaces, it is a list of numbers and ascending
ranges within the file, of numbers that are short enough to be converted; the result is their lines in ascending
order. No spec and the empty one select nothing. What is written for a selection is parsed to that selection. -/
theorem line_spec_grammar (maxLines : ℤ) (label : Str) :
    parseLineSpec none maxLines label = .ok [] ∧ parseLineSpec (some []) maxLines label = .ok [] ∧
    (∀ spec ≠ [], (∃ lines, parseLineSpec (some spec) maxLines label = .ok lines) ↔
      ∃ ranges, ListsRanges maxLines (withoutSpace spec) ranges) ∧
    (∀ spec ≠ [], ∀ ranges, ListsRanges maxLines (withoutSpace spec) ranges →
      ∃ lines, parseLineSpec (some spec) maxLines label = .ok lines ∧ Selects ranges lines) ∧
    ∀ lines : List ℕ, lines.Pairwise (· < ·) → (∀ n ∈ lines, 1 ≤ n ∧ (n : ℤ) ≤ maxLines) →
      (∀ n ∈ lines, (Nat.toDigits 10 n).length ≤ maxDigits) →
      ∃ text, lineSpec (lines.map (↑)) = .ok text ∧ parseLineSpec (some text) maxLines label = .ok lines := by
  have hlisted : ∀ spec ≠ [], ∀ ranges, ListsRanges maxLines (withoutSpace spec) ranges →
      ∃ lines, parseLineSpec (some spec) maxLines label = .ok lines ∧ Selects ranges lines := by
    intro spec hspec ranges hranges
    have hselects := selects_sorted fun range hrange => hranges.ordered hrange
    exact ⟨_,(parse_given_eq_ok_iff hspec).mpr ⟨ranges,hranges,hselects⟩,hselects⟩
  refine ⟨rfl,rfl,fun spec hspec => ⟨?_,?_⟩,hlisted,?_⟩
  · rintro ⟨lines,hlines⟩
    obtain ⟨ranges,hranges,-⟩ := (parse_given_eq_ok_iff hspec).mp hlines
    exact ⟨ranges,hranges⟩
  · rintro ⟨ranges,hranges⟩
    obtain ⟨lines,hlines,-⟩ := hlisted spec hspec ranges hranges
    exact ⟨lines,hlines⟩
  · intro lines hsorted hbounds hdigits
    exact ⟨_,lineSpec_sorted hsorted hdigits,parse_lineSpec hsorted hdigits hbounds⟩

/-- A one with zeros in front, of more digits than are converted. -/
def longOne : Str := List.replicate maxDigits '0' ++ ['1']

theorem numberRe_longOne : numberRe longOne = true := by
  rw [numberRe_iff]
  refine ⟨by simp [longOne],fun c hc => ?_⟩
  obtain hc | hc := List.mem_append.mp hc
  · rw [List.eq_of_mem_replicate hc]
    rfl
  · rw [List.mem_singleton.mp hc]
    rfl

theorem digitsValue_longOne : digitsValue longOne = 1 := by
  have hdrop : longOne.dropWhile (· = '0') = ['1'] := by
    rw [longOne,List.dropWhile_append_of_pos]
    · rfl
    · intro c hc
      simp [List.eq_of_mem_replicate hc]
  rw [← digitsValue_dropZeros,hdrop]
  rfl

theorem parse_longOne (maxLines : ℤ) (label : Str) :
    parseLineSpec (some longOne) maxLines label = .error .valueError := by
  have hdigits := (numberRe_iff.mp numberRe_longOne).2
  have hself : withoutSpace longOne = longOne := withoutSpace_eq_self fun c hc => .inl (hdigits c hc)
  have hne : longOne ≠ [] := (numberRe_iff.mp numberRe_longOne).1
  have hparts : lineSpecParts longOne = [longOne] := by
    have hall : ∀ part ∈ [longOne], part ≠ [] ∧ ',' ∉ part := by
      intro part hpart
      rw [List.mem_singleton.mp hpart]
      exact ⟨hne,comma_not_mem_of_number numberRe_longOne⟩
    simpa [List.intercalate] using lineSpecParts_intercalate (by simp) hall
  have hread : intDigits longOne = .error .valueError := by
    rw [intDigits,readDecimal,if_pos]
    simp [longOne]
  have hpart : parseLineSpecPart longOne longOne maxLines label = .error .valueError := by
    rw [parseLineSpecPart,if_neg hne,rangeRe_of_number numberRe_longOne]
    dsimp only
    rw [if_pos numberRe_longOne,parseLineNumber,hread]
    rfl
  rw [parse_given hne,hself,if_neg hne,hparts,List.mapM_cons,hpart]
  rfl

/-- The empty spec is accepted and a blank one is not; a number may be too long to be read. -/
theorem line_spec_beyond_grammar :
    withoutSpace [] = withoutSpace [' '] ∧ parseLineSpec (some []) 3 "--only-lines".toList = .ok [] ∧
    parseLineSpec (some [' ']) 3 "--only-lines".toList =
      .error (.lineSpecError "--only-lines must not be empty".toList) ∧
    numberRe longOne = true ∧ digitsValue longOne = 1 ∧
    parseLineSpec (some longOne) 3 "--only-lines".toList = .error .valueError :=
  ⟨rfl,rfl,by decide +kernel,numberRe_longOne,digitsValue_longOne,parse_longOne _ _⟩

end Wudup
