import Mathlib.Data.List.Sort
import Mathlib.Data.Nat.Notation

/-! Edits of a text that are made at once, and one by one from right to left. -/
namespace Library

/-- What stands between two offsets of a text is replaced. -/
structure Edit (α : Type) where
  start : ℕ
  stop : ℕ
  replacement : List α
  deriving DecidableEq, Repr

variable {α : Type}

namespace Edit

def apply (edit : Edit α) (text : List α) : List α :=
  text.take edit.start ++ edit.replacement ++ text.drop edit.stop

/-- Two edits that meet in no character; one that replaces nothing may stand at the edge of another. -/
def Apart (a b : Edit α) : Prop := a.stop ≤ b.start ∨ b.stop ≤ a.start

/-- An edit of a text of some length. -/
def Fits (edit : Edit α) (length : ℕ) : Prop := edit.start ≤ edit.stop ∧ edit.stop ≤ length

end Edit

/-- From the offset on, the text and what edits in ascending order make of it: what they leave is kept. -/
inductive Edited : ℕ → List (Edit α) → List α → List α → Prop
  | done (offset : ℕ) (rest : List α) : Edited offset [] rest rest
  | edit {offset : ℕ} {e : Edit α} {edits : List (Edit α)} {kept cut rest result : List α} :
    offset + kept.length = e.start → e.start + cut.length = e.stop → Edited e.stop edits rest result →
      Edited offset (e :: edits) (kept ++ (cut ++ rest)) (kept ++ (e.replacement ++ result))

/-- Edits in ascending order, from an offset on. -/
def Ascending : ℕ → List (Edit α) → Prop
  | _, [] => True
  | offset, e :: edits => offset ≤ e.start ∧ e.start ≤ e.stop ∧ Ascending e.stop edits

/-- Made from the last to the first, ascending edits give what they give at once. -/
theorem edited_foldr {edits : List (Edit α)} {offset : ℕ} {text : List α} (hoffset : offset ≤ text.length)
    (h : Ascending offset edits) (hfits : ∀ e ∈ edits, e.stop ≤ text.length) :
    ∃ result, edits.foldr Edit.apply text = text.take offset ++ result ∧
      Edited offset edits (text.drop offset) result := by
  induction edits generalizing offset with
  | nil => exact ⟨text.drop offset,(List.take_append_drop offset text).symm,.done offset _⟩
  | cons e edits ih =>
    obtain ⟨hstart,hstop,hrest⟩ := h
    have hlength := hfits e List.mem_cons_self
    obtain ⟨result,hfold,hedited⟩ := ih hlength hrest fun d hd => hfits d (List.mem_cons_of_mem _ hd)
    have htake : (text.take e.stop).length = e.stop := List.length_take_of_le hlength
    have hkept : text.take e.start = text.take offset ++ (text.drop offset).take (e.start - offset) := by
      rw [← List.take_add,Nat.add_sub_cancel' hstart]
    have hcut : text.drop e.start = (text.drop e.start).take (e.stop - e.start) ++ text.drop e.stop := by
      rw [← List.drop_take,← List.drop_append_of_le_length (by omega),List.take_append_drop]
    refine ⟨(text.drop offset).take (e.start - offset) ++ (e.replacement ++ result),?_,?_⟩
    · rw [List.foldr_cons,hfold,Edit.apply,List.take_append_of_le_length (by omega),List.take_take,
        Nat.min_eq_left hstop,List.drop_append_of_le_length (by omega),List.drop_eq_nil_of_le (by omega),hkept]
      simp
    · have hdrop : text.drop offset = (text.drop offset).take (e.start - offset) ++
          ((text.drop e.start).take (e.stop - e.start) ++ text.drop e.stop) := by
        rw [← hcut]
        conv_lhs => rw [← List.take_append_drop (e.start - offset) (text.drop offset)]
        rw [List.drop_drop,Nat.add_sub_cancel' hstart]
      have hkeptLength : offset + ((text.drop offset).take (e.start - offset)).length = e.start := by
        rw [List.length_take_of_le (by rw [List.length_drop]; omega)]
        omega
      have hcutLength : e.start + ((text.drop e.start).take (e.stop - e.start)).length = e.stop := by
        rw [List.length_take_of_le (by rw [List.length_drop]; omega)]
        omega
      have hall := Edited.edit hkeptLength hcutLength hedited
      rwa [← hdrop] at hall

/-- What edits at once make of a text is determined. -/
theorem Edited.unique {offset : ℕ} {edits : List (Edit α)} {text result result' : List α}
    (h : Edited offset edits text result) (h' : Edited offset edits text result') : result = result' := by
  induction h generalizing result' with
  | done => cases h'; rfl
  | @edit offset e edits kept cut rest result hkept hcut _ ih =>
    generalize htext : kept ++ (cut ++ rest) = text at h'
    cases h' with
    | edit hkept' hcut' hrest' =>
      obtain ⟨rfl,htail⟩ := List.append_inj htext (by omega)
      obtain ⟨rfl,rfl⟩ := List.append_inj htail (by omega)
      rw [ih hrest']

/-- Sorted edits that are apart ascend. -/
theorem ascending_of_sorted {edits : List (Edit α)} {length offset : ℕ}
    (hfits : ∀ e ∈ edits, e.Fits length) (hoffset : ∀ e ∈ edits, offset ≤ e.start)
    (hapart : edits.Pairwise Edit.Apart)
    (hsorted : edits.Pairwise fun a b => a.start < b.start ∨ (a.start = b.start ∧ a.stop ≤ b.stop)) :
    Ascending offset edits := by
  induction edits generalizing offset with
  | nil => trivial
  | cons e edits ih =>
    obtain ⟨hapart₀,hapart⟩ := List.pairwise_cons.mp hapart
    obtain ⟨hsorted₀,hsorted⟩ := List.pairwise_cons.mp hsorted
    have hstop : ∀ d ∈ edits, e.stop ≤ d.start := by
      intro d hd
      have hfit := (hfits d (List.mem_cons_of_mem _ hd)).1
      obtain hbefore | hbehind := hapart₀ d hd
      · exact hbefore
      · -- Both replace nothing, at one place.
        obtain hlt | ⟨heq,hle⟩ := hsorted₀ d hd <;> omega
    exact ⟨hoffset e List.mem_cons_self,(hfits e List.mem_cons_self).1,
      ih (fun d hd => hfits d (List.mem_cons_of_mem _ hd)) hstop hapart hsorted⟩

end Library
