import Wudup.WudFile

/-! What the rewrites of the todo file leave of it, line by line: removed lines go, restored ones are
appended, and lines that someone else appended stay. -/
namespace Wudup
open Library

/-- The parsed lines that are not selected, in order. -/
def unselectedLines (parsed : List WudLine) (lines : List ℕ) : List Str :=
  (parsed.filter fun line => !lines.contains line.lineNo).map (·.raw)

/-- Nothing is missing of texts that have all their copies. -/
theorem missingCopies_eq_nil {currentCount neededCount restoredCount : Str → ℕ} {lines : List Str}
    (h : ∀ raw ∈ lines, neededCount raw ≤ currentCount raw) :
    missingCopies currentCount neededCount restoredCount lines = [] := by
  apply List.eq_nil_iff_forall_not_mem.mpr
  intro raw hraw
  have hcount := List.count_pos_iff.mpr hraw
  have hle := h raw ((missingCopies_sublist _ _ _ _).subset hraw)
  rw [count_missingCopies] at hcount
  omega

section
variable {parsed : List WudLine} (hp : Parsed parsed)
include hp

/-- A second restore finds nothing missing. -/
theorem restoreFailedLines_restoreFailedLines (failed : List ℕ) (text : Str) :
    restoreFailedLines parsed failed (restoreFailedLines parsed failed text) =
      restoreFailedLines parsed failed text := by
  by_cases hn : neededLines parsed failed = []
  · simp only [restoreFailedLines,if_pos hn]
  · have hrestored : restoreFailedLines parsed failed text =
        joinLines (restoreTransform parsed failed (splitLines text)) := if_neg hn
    have hnone : restoreTransform parsed failed (restoreTransform parsed failed (splitLines text)) =
        restoreTransform parsed failed (splitLines text) := by
      conv_lhs => rw [restoreTransform]
      rw [missingCopies_eq_nil,List.append_nil]
      intro raw _
      rw [count_restoreTransform]
      exact le_max_right _ _
    conv_lhs => rw [restoreFailedLines,if_neg hn,rewriteWudFile,splitLines_restoreFailedLines hp,hnone]
    exact hrestored.symm

end

/-- The text before a restore stays where it is. -/
theorem prefix_restoreFailedLines (parsed : List WudLine) (failed : List ℕ) (text : Str) :
    text <+: restoreFailedLines parsed failed text := by
  rw [restoreFailedLines]
  split
  · exact List.prefix_rfl
  · rw [rewriteWudFile,restoreTransform,joinLines_append]
    rcases joinLines_splitLines text with h | h
    · rw [h]
      exact List.prefix_append _ _
    · rw [h,List.append_assoc]
      exact List.prefix_append _ _

/-- What was appended to the parsed file stays behind the lines that are kept. -/
theorem appended_lines_kept {text current : Str} {added : List Str} (h : Appends text current added)
    {remove : List ℕ} (hr : remove ≠ []) :
    ∃ extras, splitLines (removeLinesBeforeRun (wudLines text) remove current) =
      unselectedLines (wudLines text) remove ++ extras ∧ extras.Perm added := by
  refine ⟨_,splitLines_removeLinesBeforeRun (wudLines_parsed text) hr current,?_⟩
  rw [List.perm_iff_count]
  intro raw
  have hcopies := h.copies raw
  have horiginal := original_wudLines text raw
  unfold copies at hcopies horiginal
  unfold original at horiginal
  simp only [count_appendExtras,horiginal,hcopies]
  omega

/-- A removal leaves the unselected lines of the parsed file and then, in their order, the lines that
the current file holds beyond the parsed copies; with nothing to remove the file is left alone.
A restore appends what is missing of the failed lines, and a second one nothing. -/
theorem todo_rewrites (text current : Str) (remove failed : List ℕ) :
    (remove = [] ∧ removeLinesBeforeRun (wudLines text) remove current = current ∨
      remove ≠ [] ∧ ∃ extras, splitLines (removeLinesBeforeRun (wudLines text) remove current) =
          unselectedLines (wudLines text) remove ++ extras ∧
        extras.Sublist (splitLines current) ∧
        ∀ raw, extras.count raw = copies raw current - copies raw text ∧
          copies raw (removeLinesBeforeRun (wudLines text) remove current) =
            (unselectedLines (wudLines text) remove).count raw + (copies raw current - copies raw text)) ∧
    (∃ restored, splitLines (restoreFailedLines (wudLines text) failed current) = splitLines current ++ restored ∧
      restored.Sublist (neededLines (wudLines text) failed)) ∧
    current <+: restoreFailedLines (wudLines text) failed current ∧
    (∀ raw, copies raw (restoreFailedLines (wudLines text) failed current) =
      max (copies raw current) ((neededLines (wudLines text) failed).count raw)) ∧
    restoreFailedLines (wudLines text) failed (restoreFailedLines (wudLines text) failed current) =
      restoreFailedLines (wudLines text) failed current := by
  have hp := wudLines_parsed text
  refine ⟨?_,?_,prefix_restoreFailedLines _ failed current,copies_restoreFailedLines hp failed current,
    restoreFailedLines_restoreFailedLines hp failed current⟩
  · by_cases hr : remove = []
    · exact .inl ⟨hr,if_pos hr⟩
    · right
      have hlines := splitLines_removeLinesBeforeRun hp hr current
      have hextras : ∀ raw, (appendExtras
          (fun raw => (splitLines current).count raw - ((wudLines text).map (·.raw)).count raw) (fun _ => 0)
          (splitLines current)).count raw = copies raw current - copies raw text := by
        intro raw
        have horiginal := original_wudLines text raw
        unfold original at horiginal
        simp only [count_appendExtras,horiginal]
        unfold copies
        omega
      refine ⟨hr,_,hlines,appendExtras_sublist _ _ _,?_⟩
      intro raw
      refine ⟨hextras raw,?_⟩
      rw [← hextras raw,← List.count_append]
      unfold copies
      rw [hlines]
      rfl
  · exact ⟨_,splitLines_restoreFailedLines hp failed current,missingCopies_sublist _ _ _ _⟩

/-- With nothing to remove, a parsed line that someone else took out stays out. -/
theorem nothing_removed_nothing_kept :
    let parsed := wudLines "a\n".toList
    copies ['a'] (removeLinesBeforeRun parsed [] []) = 0 ∧
      (unselectedLines parsed []).count ['a'] + (copies ['a'] [] - copies ['a'] "a\n".toList) = 1 := by decide

end Wudup
