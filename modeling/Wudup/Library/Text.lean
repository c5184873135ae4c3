import Mathlib.Data.List.TakeWhile

/-! Text as lists of characters: splitting at a separator, and lines. -/
namespace Library

/-- A test of each character of a text, run on the text and not on all characters there are. -/
theorem forall_mem_of_all {p : Char → Prop} [DecidablePred p] {text : List Char} (h : text.all p = true) :
    ∀ c ∈ text, p c := by
  simpa using h

/-- The characters of a text in two parts are those of the parts; none has to be decoded. -/
theorem toList_ofList_append (l l' : List Char) : (String.ofList l ++ String.ofList l').toList = l ++ l' := by
  rw [String.toList_append,String.toList_ofList,String.toList_ofList]

/-- Text without the given characters at both ends. -/
def stripChars (chars text : List Char) : List Char :=
  ((text.dropWhile chars.contains).reverse.dropWhile chars.contains).reverse

theorem dropWhile_of_head {chars text : List Char} {c : Char} (hh : text.head? = some c) (hc : c ∉ chars) :
    text.dropWhile chars.contains = text := by
  cases text with
  | nil => rfl
  | cons d rest =>
    obtain rfl : d = c := by simpa using hh
    simp [hc]

/-- A text that begins and ends with other characters keeps all of its own. -/
theorem stripChars_of_ends {chars text : List Char} {c d : Char} (hh : text.head? = some c) (hc : c ∉ chars)
    (hl : text.getLast? = some d) (hd : d ∉ chars) : stripChars chars text = text := by
  have hlast : text.reverse.head? = some d := by simpa using hl
  rw [stripChars,dropWhile_of_head hh hc,dropWhile_of_head hlast hd,List.reverse_reverse]

theorem stripChars_eq_self {chars text : List Char} (h : ∀ c ∈ text, c ∉ chars) :
    stripChars chars text = text := by
  by_cases hne : text = []
  · rw [hne]
    rfl
  · exact stripChars_of_ends (List.head?_eq_some_head hne) (h _ (List.head_mem hne))
      (List.getLast?_eq_some_getLast hne) (h _ (List.getLast_mem hne))

/-- Only the end of a text is stripped when it begins with another character. -/
theorem stripChars_append {chars left right : List Char} {c d : Char} (hl : left.head? = some c) (hc : c ∉ chars)
    (hr : right.head? = some d) (hd : d ∉ chars) :
    stripChars chars (left ++ right) = left ++ stripChars chars right := by
  have hleft : (left ++ right).head? = some c := by simp [List.head?_append,hl]
  have hkept : right.reverse.dropWhile chars.contains ≠ [] := by
    intro h
    exact hd (by simpa using List.dropWhile_eq_nil_iff.mp h d (List.mem_reverse.mpr (List.mem_of_head? hr)))
  rw [stripChars,stripChars,dropWhile_of_head hleft hc,dropWhile_of_head hr hd,List.reverse_append,
    List.dropWhile_append,if_neg (by simpa using hkept),List.reverse_append,List.reverse_reverse]

theorem head?_stripChars {chars text : List Char} {c : Char} (hh : text.head? = some c) (hc : c ∉ chars) :
    (stripChars chars text).head? = some c := by
  obtain ⟨rest,rfl⟩ := List.head?_eq_some_iff.mp hh
  rw [stripChars,dropWhile_of_head hh hc,List.reverse_cons,List.dropWhile_append]
  split
  · simp [hc]
  · simp

/-- What was stripped does not end with a character that is stripped. -/
theorem getLast?_stripChars {chars text : List Char} {c : Char} (h : (stripChars chars text).getLast? = some c) :
    c ∉ chars := by
  have hhead := List.head?_dropWhile_not chars.contains (text.dropWhile chars.contains).reverse
  rw [stripChars,List.getLast?_reverse] at h
  simpa [h] using hhead

theorem stripChars_sublist (chars text : List Char) : (stripChars chars text).Sublist text := by
  have hright : (text.dropWhile chars.contains).reverse.dropWhile chars.contains |>.Sublist
      (text.dropWhile chars.contains).reverse := List.dropWhile_sublist _
  have hkept := hright.reverse
  rw [List.reverse_reverse] at hkept
  exact hkept.trans (List.dropWhile_sublist _)

/-- What is stripped stood around what is kept. -/
theorem exists_around_stripChars (chars text : List Char) : ∃ before after : List Char,
    (∀ c ∈ before, c ∈ chars) ∧ (∀ c ∈ after, c ∈ chars) ∧ text = before ++ (stripChars chars text ++ after) := by
  have hstripped : ∀ xs : List Char, ∀ c ∈ xs.takeWhile chars.contains, c ∈ chars := by
    intro xs c hc
    simpa using List.mem_takeWhile_imp hc
  refine ⟨text.takeWhile chars.contains,
    ((text.dropWhile chars.contains).reverse.takeWhile chars.contains).reverse,hstripped text,?_,?_⟩
  · intro c hc
    exact hstripped _ c (List.mem_reverse.mp hc)
  · rw [stripChars,← List.reverse_append,List.takeWhile_append_dropWhile,List.reverse_reverse,
      List.takeWhile_append_dropWhile]

theorem not_mem_of_head?_stripChars {chars text : List Char} {c : Char}
    (h : (stripChars chars text).head? = some c) : c ∉ chars := by
  obtain ⟨after,hafter⟩ : ∃ after, text.dropWhile chars.contains = stripChars chars text ++ after := by
    refine ⟨((text.dropWhile chars.contains).reverse.takeWhile chars.contains).reverse,?_⟩
    rw [stripChars,← List.reverse_append,List.takeWhile_append_dropWhile,List.reverse_reverse]
  have hhead := List.head?_dropWhile_not chars.contains text
  rw [hafter,List.head?_append,h] at hhead
  simpa using hhead

@[simp] theorem stripChars_stripChars (chars text : List Char) :
    stripChars chars (stripChars chars text) = stripChars chars text := by
  by_cases hne : stripChars chars text = []
  · rw [hne]
    rfl
  · have hfirst := List.head?_eq_some_head hne
    have hlast := List.getLast?_eq_some_getLast hne
    exact stripChars_of_ends hfirst (not_mem_of_head?_stripChars hfirst) hlast (getLast?_stripChars hlast)

/-- Characters around a text are stripped with it. -/
theorem stripChars_around {chars text before after : List Char} (hb : ∀ c ∈ before, c ∈ chars)
    (ha : ∀ c ∈ after, c ∈ chars) : stripChars chars (before ++ text ++ after) = stripChars chars text := by
  have hdrop : ∀ xs ys : List Char, (∀ c ∈ xs, c ∈ chars) →
      (xs ++ ys).dropWhile chars.contains = ys.dropWhile chars.contains := by
    intro xs ys hxs
    exact List.dropWhile_append_of_pos (by simpa using hxs)
  unfold stripChars
  rw [List.append_assoc,hdrop before _ hb]
  by_cases hall : ∀ c ∈ text, c ∈ chars
  · have hafter := hdrop text after hall
    have htext := hdrop text [] hall
    have hnone := hdrop after [] ha
    rw [List.append_nil] at htext hnone
    simp only [hafter,htext,hnone,List.dropWhile_nil,List.reverse_nil]
  · have hsplit : (text ++ after).dropWhile chars.contains = text.dropWhile chars.contains ++ after := by
      rw [List.dropWhile_append,if_neg]
      rw [List.isEmpty_iff,List.dropWhile_eq_nil_iff]
      simpa using hall
    rw [hsplit,List.reverse_append,hdrop _ _ (by simpa using ha)]

theorem stripChars_ne_nil {chars text : List Char} {c : Char} (hc : c ∈ text) (hother : c ∉ chars) :
    stripChars chars text ≠ [] := by
  have hdrop : ∀ xs : List Char, c ∈ xs → c ∈ xs.dropWhile chars.contains := by
    intro xs hxs
    rw [← List.takeWhile_append_dropWhile (p := chars.contains) (l := xs)] at hxs
    obtain htake | hdrop := List.mem_append.mp hxs
    · exact absurd (by simpa using List.mem_takeWhile_imp htake) hother
    · exact hdrop
  have hmem : c ∈ stripChars chars text := List.mem_reverse.mpr (hdrop _ (List.mem_reverse.mpr (hdrop text hc)))
  exact List.ne_nil_of_mem hmem

/-- The text before and after the first occurrence of a character. -/
def cut (c : Char) : List Char → Option (List Char × List Char)
  | [] => none
  | d :: rest => if d = c then some ([],rest) else (cut c rest).map fun (left,right) => (d :: left,right)

/-- The text before and after the last occurrence of a character. -/
def cutLast (c : Char) (text : List Char) : Option (List Char × List Char) :=
  (cut c text.reverse).map fun (right,left) => (left.reverse,right.reverse)

theorem cut_eq_none {c : Char} {text : List Char} : cut c text = none ↔ c ∉ text := by
  induction text with
  | nil => simp [cut]
  | cons d rest ih =>
    by_cases hd : d = c
    · simp [cut,hd]
    · simp [cut,hd,ih,Ne.symm hd]

theorem cut_append {c : Char} {text rest : List Char} (h : c ∉ text) :
    cut c (text ++ c :: rest) = some (text,rest) := by
  induction text with
  | nil => simp [cut]
  | cons d text ih =>
    simp only [List.mem_cons,not_or] at h
    simp [cut,Ne.symm h.1,ih h.2]

theorem eq_of_cut {c : Char} {text left right : List Char} (h : cut c text = some (left,right)) :
    text = left ++ c :: right ∧ c ∉ left := by
  induction text generalizing left with
  | nil => cases h
  | cons d rest ih =>
    rw [cut] at h
    split at h
    · rename_i hd
      cases h
      simp [hd]
    · rename_i hd
      obtain ⟨⟨left',right'⟩,hcut,heq⟩ := Option.map_eq_some_iff.mp h
      cases heq
      obtain ⟨hrest,hleft⟩ := ih hcut
      refine ⟨by rw [hrest,List.cons_append],?_⟩
      rw [List.mem_cons,not_or]
      exact ⟨Ne.symm hd,hleft⟩

theorem cutLast_append {c : Char} {text rest : List Char} (h : c ∉ rest) :
    cutLast c (text ++ c :: rest) = some (text,rest) := by
  have hreverse : (text ++ c :: rest).reverse = rest.reverse ++ c :: text.reverse := by simp
  rw [cutLast,hreverse,cut_append (by simpa using h)]
  simp

/-- The text before and after the first occurrence of another text. -/
def cutText (sep : List Char) : List Char → Option (List Char × List Char)
  | [] => if sep = [] then some ([],[]) else none
  | d :: rest =>
    if sep.isPrefixOf (d :: rest) then some ([],(d :: rest).drop sep.length)
    else (cutText sep rest).map fun (left,right) => (d :: left,right)

theorem eq_of_cutText {sep text left right : List Char} (h : cutText sep text = some (left,right)) :
    text = left ++ sep ++ right := by
  induction text generalizing left with
  | nil =>
    rw [cutText] at h
    split at h
    · rename_i hs
      cases h
      rw [hs]
      rfl
    · cases h
  | cons d rest ih =>
    rw [cutText] at h
    split at h
    · rename_i hp
      obtain ⟨after,hafter⟩ := List.isPrefixOf_iff_prefix.mp hp
      cases h
      rw [← hafter,List.drop_left,List.nil_append]
    · obtain ⟨⟨left',right'⟩,hcut,heq⟩ := Option.map_eq_some_iff.mp h
      cases heq
      rw [ih hcut,List.cons_append,List.cons_append]

/-- A text is found where it stands. -/
theorem cutText_isSome {sep before after : List Char} : (cutText sep (before ++ (sep ++ after))).isSome = true := by
  induction before with
  | nil =>
    rw [List.nil_append]
    cases sep with
    | nil => cases after <;> simp [cutText]
    | cons c sep =>
      have hp : (c :: sep).isPrefixOf (c :: sep ++ after) = true :=
        List.isPrefixOf_iff_prefix.mpr (List.prefix_append _ _)
      rw [List.cons_append] at hp ⊢
      rw [cutText,if_pos hp]
      rfl
  | cons d before ih =>
    rw [List.cons_append,cutText]
    split
    · rfl
    · rw [Option.isSome_map]
      exact ih

theorem cutText_eq_none {sep text : List Char} : cutText sep text = none ↔ ¬ sep <:+: text := by
  constructor
  · rintro h ⟨before,after,rfl⟩
    have hsome : (cutText sep (before ++ (sep ++ after))).isSome = true := cutText_isSome
    rw [← List.append_assoc,h] at hsome
    cases hsome
  · intro h
    cases hcut : cutText sep text with
    | none => rfl
    | some parts => exact absurd ⟨parts.1,parts.2,(eq_of_cutText hcut).symm⟩ h

/-- What stands before the first occurrence of a text does not contain it. -/
theorem not_infix_of_cutText {sep text left right : List Char} (hsep : sep ≠ [])
    (h : cutText sep text = some (left,right)) : ¬ sep <:+: left := by
  induction text generalizing left with
  | nil =>
    rw [cutText,if_neg hsep] at h
    cases h
  | cons d rest ih =>
    rw [cutText] at h
    split at h
    · cases h
      rwa [List.infix_nil]
    · rename_i hp
      obtain ⟨⟨left',right'⟩,hcut,heq⟩ := Option.map_eq_some_iff.mp h
      cases heq
      intro hinfix
      obtain hprefix | hinfix := List.infix_cons_iff.mp hinfix
      · apply hp
        rw [List.isPrefixOf_iff_prefix,eq_of_cutText hcut,List.append_assoc,← List.cons_append]
        exact hprefix.trans (List.prefix_append _ _)
      · exact ih hcut hinfix

/-- A text whose first character it has once is found behind any text without it. -/
theorem cutText_append {c : Char} {sep left right : List Char} (hc : c ∉ sep) (h : ¬ (c :: sep) <:+: left) :
    cutText (c :: sep) (left ++ (c :: sep ++ right)) = some (left,right) := by
  induction left with
  | nil =>
    rw [List.nil_append,List.cons_append,cutText,if_pos]
    · simp
    · exact List.isPrefixOf_iff_prefix.mpr (List.prefix_append (c :: sep) right)
  | cons d left ih =>
    rw [List.cons_append,cutText,if_neg,ih fun hinfix => h (List.infix_cons hinfix)]
    · rfl
    · rw [List.isPrefixOf_iff_prefix]
      intro hmatch
      obtain ⟨rfl,hstart⟩ := List.cons_prefix_cons.mp hmatch
      obtain hshort | hlong := List.prefix_or_prefix_of_prefix hstart (List.prefix_append left (c :: sep ++ right))
      · exact h (List.prefix_cons_inj c |>.mpr hshort).isInfix
      · obtain ⟨more,hmore⟩ := hlong
        cases more with
        | nil =>
          rw [List.append_nil] at hmore
          exact h (hmore ▸ List.infix_rfl)
        | cons e more =>
          rw [← hmore,List.prefix_append_right_inj,List.cons_append,List.cons_prefix_cons] at hstart
          exact hc (hmore ▸ (by simp [hstart.1] : c ∈ left ++ e :: more))

theorem eq_of_cutLast {c : Char} {text left right : List Char} (h : cutLast c text = some (left,right)) :
    text = left ++ c :: right ∧ c ∉ right := by
  obtain ⟨⟨right',left'⟩,hcut,heq⟩ := Option.map_eq_some_iff.mp h
  cases heq
  obtain ⟨htext,hright⟩ := eq_of_cut hcut
  refine ⟨?_,by simpa using hright⟩
  rw [← List.reverse_reverse text,htext]
  simp

theorem cutLast_eq_none {c : Char} {text : List Char} : cutLast c text = none ↔ c ∉ text := by
  rw [cutLast,Option.map_eq_none_iff,cut_eq_none,List.mem_reverse]

theorem not_mem_of_mem_splitOn {c : Char} {text part : List Char} (h : part ∈ text.splitOn c) : c ∉ part := by
  induction text generalizing part with
  | nil =>
    obtain rfl : part = [] := by simpa using h
    simp
  | cons d rest ih =>
    rw [List.splitOn_cons_eq_if_modifyHead] at h
    split at h
    · rcases List.mem_cons.mp h with rfl | h
      · simp
      · exact ih h
    · rename_i hd
      cases hs : rest.splitOn c with
      | nil => exact absurd hs (List.splitOn_ne_nil c rest)
      | cons first others =>
        rw [hs,List.modifyHead_cons,List.mem_cons] at h
        rcases h with rfl | h
        · have hf := @ih first (by simp [hs])
          have hne : c ≠ d := fun hcd => hd (by simp [hcd])
          simp [hf,hne]
        · exact ih (by simp [hs,h])

/-- Lines ended by a newline; the last one may lack it. -/
def splitLines (text : List Char) : List (List Char) :=
  if text = [] then []
  else if text.getLast? = some '\n' then (text.splitOn '\n').dropLast
  else text.splitOn '\n'

def joinLines (lines : List (List Char)) : List Char :=
  if lines = [] then [] else ['\n'].intercalate lines ++ ['\n']

theorem newline_not_mem_of_mem_splitLines {text line : List Char} (h : line ∈ splitLines text) :
    '\n' ∉ line := by
  unfold splitLines at h
  split at h
  · simp at h
  · split at h
    · exact not_mem_of_mem_splitOn (List.dropLast_subset _ h)
    · exact not_mem_of_mem_splitOn h

theorem intercalate_append_singleton {α : Type} {c : α} {lines : List (List α)} (h : lines ≠ []) (last : List α) :
    [c].intercalate (lines ++ [last]) = [c].intercalate lines ++ c :: last := by
  induction lines with
  | nil => exact absurd rfl h
  | cons line rest ih =>
    cases rest with
    | nil => simp [List.intercalate]
    | cons second rest =>
      have := ih (by simp)
      simp only [List.cons_append,List.intercalate_cons_cons,List.append_assoc] at this ⊢
      rw [this]

theorem mem_of_mem_intercalate {sep : List Char} {parts : List (List Char)} {c : Char}
    (h : c ∈ sep.intercalate parts) : c ∈ sep ∨ ∃ part ∈ parts, c ∈ part := by
  induction parts with
  | nil => simp [List.intercalate] at h
  | cons part rest ih =>
    cases rest with
    | nil => exact .inr ⟨part,by simp,by simpa [List.intercalate] using h⟩
    | cons second rest =>
      rw [List.intercalate_cons_cons,List.mem_append,List.mem_append] at h
      obtain (h | h) | h := h
      · exact .inr ⟨part,by simp,h⟩
      · exact .inl h
      · obtain h | ⟨other,hother,h⟩ := ih h
        · exact .inl h
        · exact .inr ⟨other,List.mem_cons_of_mem _ hother,h⟩

theorem mem_intercalate_of_mem {sep part : List Char} {parts : List (List Char)} {c : Char} (hpart : part ∈ parts)
    (hc : c ∈ part) : c ∈ sep.intercalate parts := by
  induction parts with
  | nil => cases hpart
  | cons first rest ih =>
    cases rest with
    | nil =>
      rw [List.intercalate_singleton]
      exact List.mem_singleton.mp hpart ▸ hc
    | cons second rest =>
      rw [List.intercalate_cons_cons,List.mem_append,List.mem_append]
      obtain rfl | hpart := List.mem_cons.mp hpart
      · exact .inl (.inl hc)
      · exact .inr (ih hpart)

theorem mem_of_mem_splitOn {sep c : Char} {text part : List Char} (hpart : part ∈ text.splitOn sep) (hc : c ∈ part) :
    c ∈ text := by
  have htext : [sep].intercalate (text.splitOn sep) = text := List.intercalate_splitOn sep
  exact htext ▸ mem_intercalate_of_mem hpart hc

/-- Joining lines and splitting them again gives them back. -/
theorem splitLines_joinLines {lines : List (List Char)} (h : ∀ line ∈ lines, '\n' ∉ line) :
    splitLines (joinLines lines) = lines := by
  unfold joinLines
  split
  · rename_i hl
    rw [hl]
    rfl
  · rename_i hl
    have hsplit : (['\n'].intercalate lines ++ ['\n']).splitOn '\n' = lines ++ [[]] := by
      rw [← intercalate_append_singleton hl]
      refine List.splitOn_intercalate '\n' (fun l hm => ?_) (by simp)
      rcases List.mem_append.mp hm with hm | hm
      · exact h l hm
      · simp [List.mem_singleton.mp hm]
    simp [splitLines,hsplit]

theorem joinLines_eq_flatMap (lines : List (List Char)) : joinLines lines = lines.flatMap (· ++ ['\n']) := by
  induction lines with
  | nil => rfl
  | cons line rest ih =>
    rw [List.flatMap_cons,← ih]
    by_cases hr : rest = []
    · subst hr
      simp [joinLines,List.intercalate]
    · obtain ⟨second,rest,rfl⟩ := List.exists_cons_of_ne_nil hr
      simp [joinLines]

theorem joinLines_append (lines more : List (List Char)) :
    joinLines (lines ++ more) = joinLines lines ++ joinLines more := by
  simp only [joinLines_eq_flatMap,List.flatMap_append]

/-- Splitting a text and joining its lines ends the last one, if it was not. -/
theorem joinLines_splitLines (text : List Char) :
    joinLines (splitLines text) = text ∨ joinLines (splitLines text) = text ++ ['\n'] := by
  have htext : ['\n'].intercalate (text.splitOn '\n') = text := List.intercalate_splitOn '\n'
  have hne : text.splitOn '\n' ≠ [] := List.splitOn_ne_nil '\n' text
  unfold splitLines
  by_cases hempty : text = []
  · subst hempty
    exact .inl rfl
  · rw [if_neg hempty]
    by_cases hended : text.getLast? = some '\n'
    · left
      rw [if_pos hended]
      have hlast : '\n' ∉ (text.splitOn '\n').getLast hne := not_mem_of_mem_splitOn (List.getLast_mem hne)
      rw [← List.dropLast_concat_getLast hne] at htext
      generalize (text.splitOn '\n').getLast hne = last at *
      generalize (text.splitOn '\n').dropLast = lines at *
      have hends : last = [] := by
        by_contra hnil
        have hgot : text.getLast? = last.getLast? := by
          by_cases hl : lines = []
          · subst hl
            simp [← htext,List.intercalate]
          · rw [← htext,intercalate_append_singleton hl,List.getLast?_append,List.getLast?_cons_of_ne_nil hnil]
            simp [List.getLast?_eq_some_getLast hnil]
        rw [hended] at hgot
        exact hlast (List.mem_of_getLast? hgot.symm)
      subst hends
      by_cases hl : lines = []
      · subst hl
        simp [List.intercalate] at htext
        exact absurd htext hempty
      · rw [joinLines,if_neg hl,← intercalate_append_singleton hl,htext]
    · right
      rw [if_neg hended,joinLines,if_neg hne,htext]

end Library
