import Mathlib.Logic.Function.Basic
import Wudup.Library.Text
import Wudup.Models

/-! The WUD todo file: its lines, their removal before a run and the restore of failed ones. -/
namespace Wudup
open Library

structure WudLine where
  lineNo : ℕ
  actionable : Bool
  raw : Str
  deriving DecidableEq, Repr

def shellSpace : Str := [' ','\t','\n','\r','\x0b','\x0c']

def trim (value : Str) : Str := stripChars shellSpace value

/-- An entry is neither blank nor a comment. -/
def actionable (raw : Str) : Bool := trim raw ≠ [] && !(['#'].isPrefixOf (trim raw))

/-- The lines of the file, numbered from one. -/
def wudLines (text : Str) : List WudLine :=
  (splitLines text).zipIdx.map fun (raw,i) => ⟨i+1,actionable raw,raw⟩

/-- The copies beyond those already counted, in the order of the current lines. -/
def appendExtras (extraCount extraSeen : Str → ℕ) : List Str → List Str
  | [] => []
  | raw :: rest =>
    if extraSeen raw < extraCount raw then
      raw :: appendExtras extraCount (Function.update extraSeen raw (extraSeen raw + 1)) rest
    else appendExtras extraCount extraSeen rest

/-- The parsed lines that stay, then what the current file holds beyond the parsed lines. -/
def removeTransform (parsed : List WudLine) (remove : List ℕ) (currentLines : List Str) : List Str :=
  let originalCount raw := (parsed.map (·.raw)).count raw
  let preserved := (parsed.filter fun line => !remove.contains line.lineNo).map (·.raw)
  let extraCount raw := currentLines.count raw - originalCount raw
  preserved ++ appendExtras extraCount (fun _ => 0) currentLines

/-- The parsed lines the file should hold again. -/
def neededLines (parsed : List WudLine) (failed : List ℕ) : List Str :=
  (parsed.filter fun line => failed.contains line.lineNo).map (·.raw)

/-- The needed copies the file lacks, in the order of the parsed lines. -/
def missingCopies (currentCount neededCount restoredCount : Str → ℕ) : List Str → List Str
  | [] => []
  | raw :: rest =>
    if currentCount raw + restoredCount raw < neededCount raw then
      raw :: missingCopies currentCount neededCount
        (Function.update restoredCount raw (restoredCount raw + 1)) rest
    else missingCopies currentCount neededCount restoredCount rest

def restoreTransform (parsed : List WudLine) (failed : List ℕ) (currentLines : List Str) : List Str :=
  let needed := neededLines parsed failed
  currentLines ++ missingCopies (currentLines.count ·) (needed.count ·) (fun _ => 0) needed

def rewriteWudFile (transform : List Str → List Str) (text : Str) : Str :=
  joinLines (transform (splitLines text))

/-- Removes requested original lines; with none requested the file is left alone. -/
def removeLinesBeforeRun (parsed : List WudLine) (removeLines : List ℕ) (text : Str) : Str :=
  if removeLines = [] then text else rewriteWudFile (removeTransform parsed removeLines) text

/-- Appends failed original entries that the file lacks. -/
def restoreFailedLines (parsed : List WudLine) (failedLines : List ℕ) (text : Str) : Str :=
  if neededLines parsed failedLines = [] then text
  else rewriteWudFile (restoreTransform parsed failedLines) text

/-- The copies of a raw text among the lines of a file. -/
def copies (raw text : Str) : ℕ := (splitLines text).count raw

/-- The copies of a raw text among the selected parsed lines. -/
def selected (parsed : List WudLine) (lines : List ℕ) (raw : Str) : ℕ := (neededLines parsed lines).count raw

/-- The copies of a raw text among all parsed lines. -/
def original (parsed : List WudLine) (raw : Str) : ℕ := (parsed.map (·.raw)).count raw

theorem count_appendExtras (extraCount extraSeen : Str → ℕ) (lines : List Str) (raw : Str) :
    (appendExtras extraCount extraSeen lines).count raw =
      min (lines.count raw) (extraCount raw - extraSeen raw) := by
  induction lines generalizing extraSeen with
  | nil => simp [appendExtras]
  | cons x rest ih =>
    simp only [appendExtras]
    by_cases hx : x = raw
    · subst hx
      split
      · rw [List.count_cons_self,ih,List.count_cons_self,Function.update_self]
        omega
      · rw [ih,List.count_cons_self]
        omega
    · split
      · rw [List.count_cons_of_ne hx,ih,List.count_cons_of_ne hx,Function.update_of_ne (Ne.symm hx)]
      · rw [ih,List.count_cons_of_ne hx]

theorem count_missingCopies (currentCount neededCount restoredCount : Str → ℕ) (lines : List Str) (raw : Str) :
    (missingCopies currentCount neededCount restoredCount lines).count raw =
      min (lines.count raw) (neededCount raw - (currentCount raw + restoredCount raw)) := by
  induction lines generalizing restoredCount with
  | nil => simp [missingCopies]
  | cons x rest ih =>
    simp only [missingCopies]
    by_cases hx : x = raw
    · subst hx
      split
      · rw [List.count_cons_self,ih,List.count_cons_self,Function.update_self]
        omega
      · rw [ih,List.count_cons_self]
        omega
    · split
      · rw [List.count_cons_of_ne hx,ih,List.count_cons_of_ne hx,Function.update_of_ne (Ne.symm hx)]
      · rw [ih,List.count_cons_of_ne hx]

/-- Selected and remaining lines together are the parsed lines. -/
theorem count_preserved (parsed : List WudLine) (remove : List ℕ) (raw : Str) :
    ((parsed.filter fun line => !remove.contains line.lineNo).map (·.raw)).count raw +
      selected parsed remove raw = original parsed raw := by
  unfold selected original neededLines
  induction parsed with
  | nil => rfl
  | cons line rest ih =>
    cases hl : remove.contains line.lineNo <;>
      simp only [List.filter_cons,hl,Bool.not_true,Bool.not_false,if_true,Bool.false_eq_true,if_false,
        List.map_cons,List.count_cons] <;> omega

/-- What a removal leaves of each raw text: the parsed copies that were not selected, and the copies
the current file holds beyond the parsed ones. -/
theorem count_removeTransform (parsed : List WudLine) (remove : List ℕ) (current : List Str) (raw : Str) :
    (removeTransform parsed remove current).count raw + selected parsed remove raw =
      original parsed raw + (current.count raw - original parsed raw) := by
  have hp := count_preserved parsed remove raw
  simp only [removeTransform,List.count_append,count_appendExtras]
  unfold original at *
  omega

theorem count_restoreTransform (parsed : List WudLine) (failed : List ℕ) (current : List Str) (raw : Str) :
    (restoreTransform parsed failed current).count raw = max (current.count raw) (selected parsed failed raw) := by
  simp only [restoreTransform,List.count_append,count_missingCopies]
  unfold selected
  omega

theorem appendExtras_sublist (extraCount extraSeen : Str → ℕ) (lines : List Str) :
    (appendExtras extraCount extraSeen lines).Sublist lines := by
  induction lines generalizing extraSeen with
  | nil => exact List.Sublist.refl _
  | cons raw rest ih =>
    rw [appendExtras]
    split
    · exact (ih _).cons_cons raw
    · exact (ih _).cons raw

theorem missingCopies_sublist (currentCount neededCount restoredCount : Str → ℕ) (lines : List Str) :
    (missingCopies currentCount neededCount restoredCount lines).Sublist lines := by
  induction lines generalizing restoredCount with
  | nil => exact List.Sublist.refl _
  | cons raw rest ih =>
    rw [missingCopies]
    split
    · exact (ih _).cons_cons raw
    · exact (ih _).cons raw

/-- No line of the parsed file contains a newline. -/
def Parsed (parsed : List WudLine) : Prop := ∀ line ∈ parsed, '\n' ∉ line.raw

theorem wudLines_parsed (text : Str) : Parsed (wudLines text) := by
  intro line h
  obtain ⟨⟨raw,i⟩,hm,rfl⟩ := List.mem_map.mp h
  exact newline_not_mem_of_mem_splitLines (List.fst_mem_of_mem_zipIdx hm)

theorem original_wudLines (text raw : Str) : original (wudLines text) raw = copies raw text := by
  unfold original copies wudLines
  rw [List.map_map]
  congr 1
  exact List.zipIdx_map_fst 0 (splitLines text)

section
variable {parsed : List WudLine} (hp : Parsed parsed)
include hp

theorem splitLines_removeLinesBeforeRun {remove : List ℕ} (hr : remove ≠ []) (text : Str) :
    splitLines (removeLinesBeforeRun parsed remove text) = removeTransform parsed remove (splitLines text) := by
  rw [removeLinesBeforeRun,if_neg hr,rewriteWudFile,splitLines_joinLines]
  intro line hl
  rcases List.mem_append.mp hl with hl | hl
  · obtain ⟨l,hm,rfl⟩ := List.mem_map.mp hl
    exact hp l (List.mem_filter.mp hm).1
  · exact newline_not_mem_of_mem_splitLines ((appendExtras_sublist _ _ _).subset hl)

theorem newline_not_mem_restoreTransform {failed : List ℕ} {text line : Str}
    (h : line ∈ restoreTransform parsed failed (splitLines text)) : '\n' ∉ line := by
  rcases List.mem_append.mp h with h | h
  · exact newline_not_mem_of_mem_splitLines h
  · obtain ⟨l,hl,rfl⟩ := List.mem_map.mp ((missingCopies_sublist _ _ _ _).subset h)
    exact hp l (List.mem_filter.mp hl).1

theorem splitLines_restoreFailedLines (failed : List ℕ) (text : Str) :
    splitLines (restoreFailedLines parsed failed text) = restoreTransform parsed failed (splitLines text) := by
  rw [restoreFailedLines]
  split
  · rename_i hn
    rw [restoreTransform,hn,missingCopies,List.append_nil]
  · rw [rewriteWudFile,splitLines_joinLines]
    intro line hl
    exact newline_not_mem_restoreTransform hp hl

theorem copies_removeLinesBeforeRun {remove : List ℕ} (hr : remove ≠ []) (text raw : Str) :
    copies raw (removeLinesBeforeRun parsed remove text) + selected parsed remove raw =
      original parsed raw + (copies raw text - original parsed raw) := by
  rw [copies,splitLines_removeLinesBeforeRun hp hr]
  exact count_removeTransform parsed remove _ raw

theorem copies_restoreFailedLines (failed : List ℕ) (text raw : Str) :
    copies raw (restoreFailedLines parsed failed text) = max (copies raw text) (selected parsed failed raw) := by
  rw [copies,splitLines_restoreFailedLines hp]
  exact count_restoreTransform parsed failed _ raw

end

theorem selected_nil (parsed : List WudLine) (raw : Str) : selected parsed [] raw = 0 := by
  simp [selected,neededLines]

theorem selected_le_original (parsed : List WudLine) (lines : List ℕ) (raw : Str) :
    selected parsed lines raw ≤ original parsed raw := by
  have := count_preserved parsed lines raw
  omega

/-- Disjoint selections select different copies. -/
theorem selected_add_le (parsed : List WudLine) {first second : List ℕ} (h : ∀ n ∈ first, n ∉ second)
    (raw : Str) : selected parsed first raw + selected parsed second raw ≤ original parsed raw := by
  unfold selected original neededLines
  induction parsed with
  | nil => simp
  | cons line rest ih =>
    by_cases h1 : line.lineNo ∈ first
    · have h2 := h _ h1
      simp only [List.filter_cons,List.contains_iff_mem,h1,h2,if_true,if_false,List.map_cons,List.count_cons]
      omega
    · by_cases h2 : line.lineNo ∈ second <;>
        simp only [List.filter_cons,List.contains_iff_mem,h1,h2,if_true,if_false,List.map_cons,
          List.count_cons] <;> omega

/-- Someone else adds lines at the end of the file. -/
def Appends (before after : Str) (extra : List Str) : Prop := splitLines after = splitLines before ++ extra

instance (before after : Str) (extra : List Str) : Decidable (Appends before after extra) :=
  inferInstanceAs (Decidable (_ = _))

theorem Appends.copies {before after : Str} {extra : List Str} (h : Appends before after extra) (raw : Str) :
    copies raw after = Wudup.copies raw before + extra.count raw := by
  unfold Wudup.copies
  rw [h,List.count_append]

/-- Two runs that parsed the same file remove disjoint lines, one after the other, with lines added
before, between and after: nothing is resurrected or lost exactly when the second run removes nothing,
or every copy the first run removed was added again before the second one. -/
theorem two_removals_iff {text before between final : Str} {first second : List ℕ}
    {added₁ added₂ added₃ : List Str} (hd : ∀ n ∈ first, n ∉ second) (h₁ : Appends text before added₁)
    (h₂ : Appends (removeLinesBeforeRun (wudLines text) first before) between added₂)
    (h₃ : Appends (removeLinesBeforeRun (wudLines text) second between) final added₃) :
    (∀ raw, copies raw final = copies raw text - selected (wudLines text) first raw -
        selected (wudLines text) second raw + (added₁.count raw + added₂.count raw + added₃.count raw)) ↔
      second = [] ∨ ∀ raw, selected (wudLines text) first raw ≤ added₁.count raw + added₂.count raw := by
  have hp := wudLines_parsed text
  have hfirst : ∀ raw, copies raw between + selected (wudLines text) first raw =
      copies raw text + added₁.count raw + added₂.count raw := by
    intro raw
    rw [h₂.copies]
    have hb := h₁.copies raw
    by_cases hf : first = []
    · subst hf
      rw [selected_nil,removeLinesBeforeRun,if_pos rfl]
      omega
    · have hc := copies_removeLinesBeforeRun hp hf before raw
      rw [original_wudLines] at hc
      omega
  by_cases hs : second = []
  · subst hs
    refine iff_of_true (fun raw => ?_) (.inl rfl)
    have hle := selected_le_original (wudLines text) first raw
    rw [original_wudLines] at hle
    rw [h₃.copies,removeLinesBeforeRun,if_pos rfl,selected_nil]
    have := hfirst raw
    omega
  · rw [or_iff_right hs]
    refine forall_congr' fun raw => ?_
    have hle := selected_add_le (wudLines text) hd raw
    have hc := copies_removeLinesBeforeRun hp hs between raw
    rw [original_wudLines] at hle hc
    rw [h₃.copies]
    have := hfirst raw
    omega

/-- The second run resurrects what the first one removed. -/
theorem second_removal_resurrects :
    let text := "a\nb\n".toList
    let between := removeLinesBeforeRun (wudLines text) [1] text
    let final := removeLinesBeforeRun (wudLines text) [2] between
    copies ['a'] between = 0 ∧ copies ['a'] final = 1 ∧ copies ['a'] text = 1 ∧
      selected (wudLines text) [1] ['a'] = 1 := by decide

theorem two_removals_of_appended :
    let text := "a\nb\n".toList
    (∀ raw, copies raw "a\n".toList = copies raw text - selected (wudLines text) [1] raw -
        selected (wudLines text) [2] raw + ([['a']].count raw + [].count raw + [].count raw)) ↔
      [2] = [] ∨ ∀ raw, selected (wudLines text) [1] raw ≤ [['a']].count raw + [].count raw :=
  @two_removals_iff "a\nb\n".toList "a\nb\na\n".toList "b\na\n".toList "a\n".toList [1] [2] [['a']] [] []
    (by decide) (by decide) (by decide) (by decide)

/-- Lines of the same text are selected together or not at all. -/
def SelectsWhole (parsed : List WudLine) (lines : List ℕ) : Prop :=
  ∀ a ∈ parsed, ∀ b ∈ parsed, a.raw = b.raw → a.lineNo ∈ lines → b.lineNo ∈ lines

theorem selected_eq_zero_iff {parsed : List WudLine} {lines : List ℕ} {raw : Str} :
    selected parsed lines raw = 0 ↔ ∀ line ∈ parsed, line.lineNo ∈ lines → line.raw ≠ raw := by
  simp [selected,neededLines,List.count_eq_zero]

/-- All copies of a text are selected when no line that stays has it. -/
theorem selected_eq_original_iff {parsed : List WudLine} {lines : List ℕ} {raw : Str} :
    selected parsed lines raw = original parsed raw ↔
      ∀ line ∈ parsed, line.lineNo ∉ lines → line.raw ≠ raw := by
  have hp := count_preserved parsed lines raw
  have hstay : ((parsed.filter fun line => !lines.contains line.lineNo).map (·.raw)).count raw = 0 ↔
      ∀ line ∈ parsed, line.lineNo ∉ lines → line.raw ≠ raw := by
    simp [List.count_eq_zero]
  rw [← hstay]
  omega

theorem selectsWhole_iff {parsed : List WudLine} {lines : List ℕ} :
    SelectsWhole parsed lines ↔
      ∀ raw, selected parsed lines raw = 0 ∨ selected parsed lines raw = original parsed raw := by
  constructor
  · intro h raw
    rw [selected_eq_zero_iff,selected_eq_original_iff]
    by_contra hn
    push Not at hn
    obtain ⟨⟨a,ha,hsel,rfl⟩,b,hb,hstay,he⟩ := hn
    exact hstay (h a ha b hb he.symm hsel)
  · intro h a ha b hb he hsel
    rcases h a.raw with h | h
    · exact absurd rfl (selected_eq_zero_iff.mp h a ha hsel)
    · by_contra hstay
      exact selected_eq_original_iff.mp h b hb hstay he.symm

/-- The copies left when lines are removed and restored with no other writer between. -/
theorem copies_remove_restore (text : Str) (lines : List ℕ) (raw : Str) :
    copies raw (restoreFailedLines (wudLines text) lines (removeLinesBeforeRun (wudLines text) lines text)) =
      max (copies raw text - selected (wudLines text) lines raw) (selected (wudLines text) lines raw) := by
  rw [copies_restoreFailedLines (wudLines_parsed text)]
  by_cases hl : lines = []
  · subst hl
    rw [removeLinesBeforeRun,if_pos rfl,selected_nil]
    rfl
  · have hc := copies_removeLinesBeforeRun (wudLines_parsed text) hl text raw
    rw [original_wudLines] at hc
    have hr : copies raw (removeLinesBeforeRun (wudLines text) lines text) =
        copies raw text - selected (wudLines text) lines raw := by omega
    rw [hr]

/-- Removing lines and restoring the same lines gives back the file up to the order of its lines
exactly when, of lines with one text, all or none were removed. -/
theorem remove_restore_perm_iff (text : Str) (lines : List ℕ) :
    (splitLines (restoreFailedLines (wudLines text) lines
        (removeLinesBeforeRun (wudLines text) lines text))).Perm (splitLines text) ↔
      SelectsWhole (wudLines text) lines := by
  rw [List.perm_iff_count,selectsWhole_iff]
  apply forall_congr'
  intro raw
  have hc := copies_remove_restore text lines raw
  have hle := selected_le_original (wudLines text) lines raw
  rw [original_wudLines] at hle ⊢
  unfold copies at hc hle ⊢
  rw [hc]
  omega

/-- Of two equal lines one is removed; the restore takes the other one for it. -/
theorem duplicate_not_restored :
    let text := "a\na\n".toList
    let removed := removeLinesBeforeRun (wudLines text) [1] text
    let restored := restoreFailedLines (wudLines text) [1] removed
    copies ['a'] text = 2 ∧ copies ['a'] restored = 1 ∧
      ¬(splitLines restored).Perm (splitLines text) := by decide

end Wudup
