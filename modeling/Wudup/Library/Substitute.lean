import Mathlib.Data.List.Infix

/-! Replacing every match in a text, from left to right: what is left of the text, and what can and cannot occur in the
result. -/
namespace Library
variable {α : Type}

/-- How many elements match at a place, given the element before it and what follows; none for zero. -/
abbrev Finder (α : Type) := Option α → List α → ℕ

/-- The piece before the first match, and the pieces after each of the matches. -/
def piecesFrom (find : Finder α) : Option α → ℕ → List α → List α × List (List α)
  | _,_,[] => ([],[])
  | _,skip+1,c :: rest => piecesFrom find (some c) skip rest
  | previous,0,c :: rest =>
    if find previous (c :: rest) = 0 then
      let pieces := piecesFrom find (some c) 0 rest
      (c :: pieces.1,pieces.2)
    else
      let pieces := piecesFrom find (some c) (find previous (c :: rest) - 1) rest
      ([],pieces.1 :: pieces.2)

/-- The text with its matches replaced. -/
def substitute (find : Finder α) (new text : List α) : List α :=
  let pieces := piecesFrom find none 0 text
  new.intercalate (pieces.1 :: pieces.2)

/-! The pieces -/

section
variable {find : Finder α} {w : List α}

theorem infix_piecesFrom (previous : Option α) (skip : ℕ) (text : List α) :
    (piecesFrom find previous skip text).1 <+: text.drop skip ∧
      ∀ piece ∈ (piecesFrom find previous skip text).2, piece <:+: text := by
  induction text generalizing previous skip with
  | nil => simp [piecesFrom]
  | cons c rest ih =>
    cases skip with
    | succ skip =>
      obtain ⟨hfirst,hothers⟩ := ih (some c) skip
      exact ⟨hfirst,fun piece hpiece => List.infix_cons (hothers piece hpiece)⟩
    | zero =>
      rw [piecesFrom]
      split
      · obtain ⟨hfirst,hothers⟩ := ih (some c) 0
        exact ⟨(List.prefix_cons_inj c).mpr hfirst,fun piece hpiece => List.infix_cons (hothers piece hpiece)⟩
      · obtain ⟨hfirst,hothers⟩ := ih (some c) (find previous (c :: rest) - 1)
        refine ⟨List.nil_prefix,fun piece hpiece => List.infix_cons ?_⟩
        obtain rfl | hpiece := List.mem_cons.mp hpiece
        · exact hfirst.isInfix.trans (List.drop_suffix _ rest).isInfix
        · exact hothers piece hpiece

/-- No piece holds a word that is found wherever it begins. -/
theorem not_infix_piecesFrom (hw : w ≠ []) (hfind : ∀ previous rest, w <+: rest → find previous rest ≠ 0)
    (previous : Option α) (skip : ℕ) (text : List α) : ¬ w <:+: (piecesFrom find previous skip text).1 ∧
      ∀ piece ∈ (piecesFrom find previous skip text).2, ¬ w <:+: piece := by
  induction text generalizing previous skip with
  | nil => simpa [piecesFrom] using hw
  | cons c rest ih =>
    cases skip with
    | succ skip => exact ih (some c) skip
    | zero =>
      rw [piecesFrom]
      split
      · rename_i hnone
        obtain ⟨hfirst,hothers⟩ := ih (some c) 0
        refine ⟨fun hoccurs => ?_,hothers⟩
        obtain hbegins | hoccurs := List.infix_cons_iff.mp hoccurs
        · have hpiece : (piecesFrom find (some c) 0 rest).1 <+: rest := (infix_piecesFrom (some c) 0 rest).1
          exact hfind previous _ (hbegins.trans ((List.prefix_cons_inj c).mpr hpiece)) hnone
        · exact hfirst hoccurs
      · obtain ⟨hfirst,hothers⟩ := ih (some c) (find previous (c :: rest) - 1)
        refine ⟨fun hoccurs => hw (List.infix_nil.mp hoccurs),fun piece hpiece => ?_⟩
        obtain rfl | hpiece := List.mem_cons.mp hpiece
        · exact hfirst
        · exact hothers piece hpiece

/-- A text without a match stays as it is. -/
theorem piecesFrom_eq_self {text : List α} (h : ∀ previous rest, rest <:+ text → rest ≠ [] → find previous rest = 0)
    (previous : Option α) : piecesFrom find previous 0 text = (text,[]) := by
  induction text generalizing previous with
  | nil => rfl
  | cons c rest ih =>
    rw [piecesFrom,if_pos (h previous _ List.suffix_rfl (by simp)),
      ih fun previous tail htail => h previous tail (htail.trans (List.suffix_cons c rest))]

end

/-! Words and what is put in -/

/-- No copy of the word arises where `new` is put into a text without it: neither is part of the other, no end of the
word begins `new`, and no beginning of it ends `new`. -/
structure Apart (w new : List α) : Prop where
  inner : ¬ w <:+: new
  outer : ¬ new <:+: w
  left : ∀ part, part ≠ [] → part <:+ w → ¬ part <+: new
  right : ∀ part, part ≠ [] → part <+: w → ¬ part <:+ new

section
variable {find : Finder α} {w new : List α}

theorem Apart.ne_nil (h : Apart w new) : w ≠ [] := fun hw => h.inner (hw ▸ List.nil_infix)

/-- A word without the elements around `new` is apart from it, unless it is part of it. -/
theorem apart_of_ends {first last : α} {middle : List α} (hnew : new = first :: (middle ++ [last])) (hfirst : first ∉ w)
    (hlast : last ∉ w) (hinner : ¬ w <:+: new) : Apart w new := by
  refine ⟨hinner,fun houter => ?_,fun part hne hpart hbegins => ?_,fun part hne hpart hsuffix => ?_⟩
  · exact hfirst (houter.subset (hnew ▸ List.mem_cons_self))
  · obtain ⟨c,rest,rfl⟩ := List.exists_cons_of_ne_nil hne
    rw [hnew] at hbegins
    exact hfirst ((List.cons_prefix_cons.mp hbegins).1 ▸ hpart.subset List.mem_cons_self)
  · obtain hnil | ⟨rest,c,rfl⟩ := List.eq_nil_or_concat' part
    · exact hne hnil
    · have hend : c = last := by
        obtain ⟨before,hbefore⟩ := hsuffix
        have hlasts := congrArg List.getLast? hbefore
        rw [hnew,← List.append_assoc,List.getLast?_concat,← List.cons_append,List.getLast?_concat] at hlasts
        exact Option.some.inj hlasts
      exact hlast (hend ▸ hpart.subset (by simp))

theorem Apart.infix_append (h : Apart w new) {before after : List α} (hw : w <:+: before ++ (new ++ after)) :
    w <:+: before ∨ w <:+: after := by
  obtain ⟨x,y,hxy⟩ := hw
  obtain ⟨more,hbefore,-⟩ | ⟨more,hmore,hnew⟩ := List.append_eq_append_iff.mp hxy
  · exact .inl (hbefore ▸ ⟨x,more,rfl⟩)
  · obtain ⟨front,hfront,hwf⟩ | ⟨front,hfront,hmf⟩ := List.append_eq_append_iff.mp hmore
    · -- The word begins in what stands before.
      by_cases hempty : more = []
      · rw [hempty,List.append_nil] at hwf
        exact .inl (hwf ▸ hfront ▸ (List.suffix_append x front).isInfix)
      · exfalso
        have hend : more <:+ w := hwf ▸ List.suffix_append front more
        obtain ⟨tail,htail,-⟩ | ⟨tail,htail,-⟩ := List.append_eq_append_iff.mp hnew
        · exact h.outer ((htail ▸ List.prefix_append new tail).isInfix.trans hend.isInfix)
        · exact h.left more hempty hend (htail ▸ List.prefix_append more tail)
    · rw [hmf,List.append_assoc] at hnew
      obtain ⟨tail,-,hafter⟩ | ⟨tail,htail,hwy⟩ := List.append_eq_append_iff.mp hnew
      · exact .inr (hafter ▸ ⟨tail,y,by simp⟩)
      · obtain ⟨rest,hrest,-⟩ | ⟨rest,hrest,hafter⟩ := List.append_eq_append_iff.mp hwy
        · rw [hrest] at htail
          exact absurd ⟨front,rest,by rw [htail,List.append_assoc]⟩ h.inner
        · -- The word ends in what stands after.
          by_cases hempty : tail = []
          · rw [hempty,List.nil_append] at hrest
            exact .inr (hafter ▸ hrest ▸ (List.prefix_append rest y).isInfix)
          · exact absurd (htail ▸ List.suffix_append front tail)
              (h.right tail hempty (hrest ▸ List.prefix_append tail rest))

theorem Apart.infix_intercalate (h : Apart w new) {pieces : List (List α)} (hw : w <:+: new.intercalate pieces) :
    ∃ piece ∈ pieces, w <:+: piece := by
  induction pieces with
  | nil => exact absurd (List.infix_nil.mp hw) h.ne_nil
  | cons piece rest ih =>
    cases rest with
    | nil => exact ⟨piece,List.mem_singleton.mpr rfl,by simpa using hw⟩
    | cons second rest =>
      rw [List.intercalate_cons_cons,List.append_assoc] at hw
      obtain hw | hw := h.infix_append hw
      · exact ⟨piece,List.mem_cons_self,hw⟩
      · obtain ⟨other,hother,hw⟩ := ih hw
        exact ⟨other,List.mem_cons_of_mem piece hother,hw⟩

/-- What occurs in the result occurred before. -/
theorem Apart.infix_of_substitute (h : Apart w new) {text : List α} (hw : w <:+: substitute find new text) :
    w <:+: text := by
  obtain ⟨hfirst,hothers⟩ := @infix_piecesFrom _ find none 0 text
  obtain ⟨piece,hpiece,hw⟩ := h.infix_intercalate hw
  obtain rfl | hpiece := List.mem_cons.mp hpiece
  · exact hw.trans hfirst.isInfix
  · exact hw.trans (hothers piece hpiece)

/-- A word that is found wherever it begins is gone. -/
theorem Apart.not_infix_substitute (h : Apart w new)
    (hfind : ∀ previous rest, w <+: rest → find previous rest ≠ 0) (text : List α) :
    ¬ w <:+: substitute find new text := by
  obtain ⟨hfirst,hothers⟩ := not_infix_piecesFrom h.ne_nil hfind none 0 text
  intro hw
  obtain ⟨piece,hpiece,hw⟩ := h.infix_intercalate hw
  obtain rfl | hpiece := List.mem_cons.mp hpiece
  · exact hfirst hw
  · exact hothers piece hpiece hw

theorem substitute_eq_self {text : List α} (h : ∀ previous rest, rest <:+ text → rest ≠ [] → find previous rest = 0) :
    substitute find new text = text := by
  rw [substitute,piecesFrom_eq_self h]
  simp

end

/-! Words that are replaced one after the other -/

section
variable [DecidableEq α]

/-- A word is found where it begins. -/
def wordFinder (word : List α) : Finder α := fun _ rest => if word.isPrefixOf rest then word.length else 0

def substituteWords (new : List α) (words : List (List α)) (text : List α) : List α :=
  words.foldl (fun text word => substitute (wordFinder word) new text) text

variable {w new : List α} {words : List (List α)}

theorem wordFinder_ne_zero (hw : w ≠ []) (previous : Option α) {rest : List α} (h : w <+: rest) :
    wordFinder w previous rest ≠ 0 := by
  rw [wordFinder,if_pos (List.isPrefixOf_iff_prefix.mpr h)]
  exact fun hlength => hw (List.eq_nil_of_length_eq_zero hlength)

theorem wordFinder_eq_zero (previous : Option α) {rest : List α} (h : ¬ w <:+: rest) :
    wordFinder w previous rest = 0 := by
  rw [wordFinder,if_neg fun hbegins => h (List.isPrefixOf_iff_prefix.mp hbegins).isInfix]

theorem Apart.infix_of_substituteWords (h : Apart w new) {text : List α}
    (hw : w <:+: substituteWords new words text) : w <:+: text := by
  induction words generalizing text with
  | nil => exact hw
  | cons word words ih => exact h.infix_of_substitute (ih hw)

/-- Afterwards none of the words occurs, whatever their order and however they overlap. -/
theorem not_infix_substituteWords (h : ∀ word ∈ words, Apart word new) (text : List α) :
    ∀ word ∈ words, ¬ word <:+: substituteWords new words text := by
  induction words generalizing text with
  | nil => simp
  | cons first words ih =>
    intro word hword hoccurs
    obtain rfl | hword := List.mem_cons.mp hword
    · have hapart := h word List.mem_cons_self
      exact hapart.not_infix_substitute (fun previous _ hbegins => wordFinder_ne_zero hapart.ne_nil previous hbegins)
        text (hapart.infix_of_substituteWords hoccurs)
    · exact ih (fun word hword => h word (List.mem_cons_of_mem first hword)) _ word hword hoccurs

theorem substituteWords_eq_self {text : List α} (h : ∀ word ∈ words, ¬ word <:+: text) :
    substituteWords new words text = text := by
  induction words with
  | nil => rfl
  | cons first words ih =>
    have hfirst : substitute (wordFinder first) new text = text := by
      refine substitute_eq_self fun previous rest hrest _ => wordFinder_eq_zero previous fun hoccurs => ?_
      exact h first List.mem_cons_self (hoccurs.trans hrest.isInfix)
    rw [substituteWords,List.foldl_cons,hfirst]
    exact ih fun word hword => h word (List.mem_cons_of_mem first hword)

end
end Library
