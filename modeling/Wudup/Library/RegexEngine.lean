import Wudup.Library.Regex

/-! Expressions put together as text: a text that can be read means the same in a group and as an
alternative. What an engine must do with such texts is stated as laws. -/
namespace Library
namespace Regex

/-! Reading above other groups. -/

/-- The groups of a reader with alternatives before the outermost one, and groups around it. -/
def onto (earlier : List Regex) (more : List Frame) : Frame → List Frame → Frame × List Frame
  | f,[] => (⟨f.alternatives ++ earlier,f.atoms⟩,more)
  | f,g :: rest => (f,(onto earlier more g rest).1 :: (onto earlier more g rest).2)

def Reader.onto (earlier : List Regex) (more : List Frame) (s : Reader) : Reader :=
  ⟨s.mode,(Regex.onto earlier more s.frame s.outer).1,(Regex.onto earlier more s.frame s.outer).2⟩

section Onto

variable {earlier : List Regex} {more : List Frame}

theorem onto_push (f : Frame) (outer : List Frame) (r : Regex) :
    onto earlier more (f.push r) outer = ((onto earlier more f outer).1.push r,(onto earlier more f outer).2) := by
  cases outer <;> rfl

theorem atoms_onto (f : Frame) (outer : List Frame) : (onto earlier more f outer).1.atoms = f.atoms := by
  cases outer <;> rfl

theorem current_onto (f : Frame) (outer : List Frame) : (onto earlier more f outer).1.current = f.current := by
  rw [Frame.current,atoms_onto,Frame.current]

theorem push_onto (s : Reader) (r : Regex) : (s.onto earlier more).push r = (s.push r).onto earlier more := by
  simp only [Reader.onto,Reader.push,onto_push]

theorem openGroup_onto (s : Reader) : (s.onto earlier more).openGroup = s.openGroup.onto earlier more := rfl

theorem nextAlternative_onto (s : Reader) :
    (s.onto earlier more).nextAlternative = s.nextAlternative.onto earlier more := by
  obtain ⟨mode,f,outer⟩ := s
  simp only [Reader.onto,Reader.nextAlternative,current_onto]
  cases outer <;> rfl

theorem quantify_onto {s t : Reader} {q : Regex → Regex} (h : s.quantify q = some t) :
    (s.onto earlier more).quantify q = some (t.onto earlier more) := by
  obtain ⟨mode,⟨alternatives,atoms⟩,outer⟩ := s
  cases atoms with
  | nil => cases h
  | cons r rest =>
    simp only [Reader.quantify] at h
    split at h
    · rename_i hr
      cases h
      cases outer <;> simp [Reader.quantify,Reader.onto,onto,hr]
    · cases h

theorem closeGroup_onto {s t : Reader} (h : s.closeGroup = some t) :
    (s.onto earlier more).closeGroup = some (t.onto earlier more) := by
  obtain ⟨mode,f,outer⟩ := s
  cases outer with
  | nil => cases h
  | cons g rest =>
    cases h
    simp only [Reader.onto,Reader.closeGroup,onto,onto_push]

theorem ite_some {p : Prop} [Decidable p] {a b a' b' : Option Reader} {t t' : Reader}
    (h : (if p then a else b) = some t) (ha : a = some t → a' = some t') (hb : b = some t → b' = some t') :
    (if p then a' else b') = some t' := by
  by_cases hp : p
  · rw [if_pos hp] at h ⊢
    exact ha h
  · rw [if_neg hp] at h ⊢
    exact hb h

theorem some_push_onto {s t : Reader} (r : Regex) (h : some (s.push r) = some t) :
    some ((s.onto earlier more).push r) = some (t.onto earlier more) := by
  cases h
  rw [push_onto]

theorem readPlain_onto {s t : Reader} {c : Char} (h : s.readPlain c = some t) :
    (s.onto earlier more).readPlain c = some (t.onto earlier more) := by
  rw [Reader.readPlain] at h ⊢
  have hmode : ∀ {mode : Mode}, some { s with mode } = some t →
      some { s.onto earlier more with mode } = some (t.onto earlier more) := by
    intro mode h
    cases h
    rfl
  have hnext : some s.nextAlternative = some t →
      some (s.onto earlier more).nextAlternative = some (t.onto earlier more) := by
    intro h
    cases h
    rw [nextAlternative_onto]
  refine ite_some h hmode fun h => ite_some h hmode fun h => ite_some h closeGroup_onto fun h =>
    ite_some h hnext fun h => ite_some h quantify_onto fun h => ite_some h quantify_onto fun h =>
    ite_some h quantify_onto fun h => ite_some h (some_push_onto any) fun h =>
    ite_some h (some_push_onto start) fun h => ite_some h (some_push_onto stop) fun h =>
    ite_some h ?_ (some_push_onto (char c))
  intro h
  cases h

/-- What is read does not depend on the groups around it. -/
theorem read_onto {s t : Reader} {c : Char} (h : s.read c = some t) :
    (s.onto earlier more).read c = some (t.onto earlier more) := by
  have hmode : (s.onto earlier more).mode = s.mode := rfl
  rw [Reader.read] at h ⊢
  rw [hmode]
  cases hm : s.mode with
  | plain =>
    rw [hm] at h
    exact readPlain_onto h
  | escaped =>
    rw [hm] at h
    refine ite_some h (some_push_onto digit) fun h => ite_some h (some_push_onto (char c)) ?_
    intro h
    cases h
  | opened =>
    rw [hm] at h
    refine ite_some h ?_ ?_
    · intro h
      cases h
      rfl
    · rw [openGroup_onto]
      exact readPlain_onto
  | asked =>
    rw [hm] at h
    refine ite_some h ?_ ?_
    · intro h
      cases h
      rw [openGroup_onto]
    · intro h
      cases h

theorem foldlM_onto {text : List Char} {s t : Reader} (h : text.foldlM Reader.read s = some t) :
    text.foldlM Reader.read (s.onto earlier more) = some (t.onto earlier more) := by
  induction text generalizing s with
  | nil =>
    cases h
    rfl
  | cons c text ih =>
    rw [List.foldlM_cons,Option.bind_eq_bind,Option.bind_eq_some_iff] at h
    obtain ⟨next,hnext,h⟩ := h
    rw [List.foldlM_cons,read_onto hnext]
    exact ih h

end Onto

theorem parse_eq_some {text : List Char} {r : Regex} :
    parse text = some r ↔ ∃ f, text.foldlM Reader.read {} = some ⟨.plain,f,[]⟩ ∧ r = f.regex := by
  rw [parse,Option.bind_eq_some_iff]
  constructor
  · rintro ⟨⟨mode,f,outer⟩,hread,h⟩
    simp only [Reader.finish] at h
    split at h
    · rename_i hd
      simp only [Bool.and_eq_true,decide_eq_true_eq] at hd
      cases h
      rw [hd.1,hd.2] at hread
      exact ⟨f,hread,rfl⟩
    · cases h
  · rintro ⟨f,hread,rfl⟩
    exact ⟨_,hread,rfl⟩

/-- A text in a group. -/
def grouped (text : List Char) : List Char := "(?:".toList ++ text ++ [')']

theorem parse_grouped {text : List Char} {r : Regex} (h : parse text = some r) :
    parse (grouped text) = some (sequence [group r]) := by
  obtain ⟨f,hread,rfl⟩ := parse_eq_some.mp h
  have hopen : "(?:".toList.foldlM Reader.read {} = some (Reader.onto [] [{}] {}) := rfl
  refine parse_eq_some.mpr ⟨⟨[],[group f.regex]⟩,?_,rfl⟩
  rw [grouped,List.foldlM_append,List.foldlM_append,hopen,Option.bind_eq_bind,Option.bind_some,foldlM_onto hread]
  simp [Reader.onto,onto,Reader.read,Reader.readPlain,Reader.closeGroup,Frame.push]

theorem parse_alternatives {text text' : List Char} {r r' : Regex} (h : parse text = some r)
    (h' : parse text' = some r') : ∃ s, parse (text ++ '|' :: text') = some s ∧
      ∀ before part after, s.Matches before part after ↔ r.Matches before part after ∨ r'.Matches before part after := by
  obtain ⟨f,hread,rfl⟩ := parse_eq_some.mp h
  obtain ⟨g,hread',rfl⟩ := parse_eq_some.mp h'
  have hbar : Reader.read ⟨.plain,f,[]⟩ '|' = some (Reader.onto (f.current :: f.alternatives) [] {}) := rfl
  refine ⟨_,parse_eq_some.mpr ⟨⟨g.alternatives ++ f.current :: f.alternatives,g.atoms⟩,?_,rfl⟩,?_⟩
  · rw [List.foldlM_append,hread,Option.bind_eq_bind,Option.bind_some,List.foldlM_cons,hbar]
    exact foldlM_onto hread'
  · intro before part after
    rw [Frame.regex,matches_frame,Frame.regex,matches_frame,Frame.regex,matches_frame]
    constructor
    · rintro (h | ⟨s,hs,h⟩)
      · exact .inr (.inl h)
      · rcases List.mem_append.mp hs with hs | hs
        · exact .inr (.inr ⟨s,hs,h⟩)
        · rcases List.mem_cons.mp hs with rfl | hs
          · exact .inl (.inl h)
          · exact .inl (.inr ⟨s,hs,h⟩)
    · rintro ((h | ⟨s,hs,h⟩) | (h | ⟨s,hs,h⟩))
      · exact .inr ⟨_,List.mem_append_right _ List.mem_cons_self,h⟩
      · exact .inr ⟨s,List.mem_append_right _ (List.mem_cons_of_mem _ hs),h⟩
      · exact .inl h
      · exact .inr ⟨s,List.mem_append_left _ hs,h⟩

/-! Engines. -/

/-- Texts whose meaning all engines share: literals, anchors, alternatives and groups that capture nothing. -/
def plainSyntax : List Char → Bool
  | [] => true
  | '\\' :: c :: rest => special c && plainSyntax rest
  | '(' :: '?' :: ':' :: rest => plainSyntax rest
  | c :: rest => (c = ')' || c = '|' || c = '^' || c = '$' || !special c) && plainSyntax rest

/-- What an engine takes for an expression, and the texts in which it finds a match. -/
structure Engine where
  valid : List Char → Prop
  test : List Char → List Char → Prop

/-- What is documented of groups and alternatives. An alternative after others may not have groups that are
numbered, nor refer to any. -/
structure Engine.Lawful (engine : Engine) : Prop where
  plain : ∀ {regex : List Char} {r : Regex}, plainSyntax regex = true → parse regex = some r →
    engine.valid regex ∧ ∀ text, engine.test regex text ↔ r.Search text
  grouped : ∀ {regex : List Char}, engine.valid regex →
    engine.valid (grouped regex) ∧ ∀ text, engine.test (Regex.grouped regex) text ↔ engine.test regex text
  alternatives : ∀ {left right : List Char}, engine.valid left → engine.valid right → plainSyntax right = true →
    engine.valid (left ++ '|' :: right) ∧
      ∀ text, engine.test (left ++ '|' :: right) text ↔ engine.test left text ∨ engine.test right text

/-- The engine that knows the syntax above and nothing else. -/
def engine : Engine where
  valid regex := ∃ r, parse regex = some r
  test regex text := ∃ r, parse regex = some r ∧ r.Search text

theorem engine_test {regex text : List Char} {r : Regex} (h : parse regex = some r) :
    engine.test regex text ↔ r.Search text := by
  constructor
  · rintro ⟨s,hs,hm⟩
    rw [h] at hs
    cases hs
    exact hm
  · exact fun hm => ⟨r,h,hm⟩

theorem search_group {r : Regex} {text : List Char} : (sequence [group r]).Search text ↔ r.Search text := by
  constructor
  · rintro ⟨before,_,after,rfl,left,right,rfl,hl,hr⟩
    have hr : right = [] := hr
    subst hr
    exact ⟨before,left,after,by simp,hl⟩
  · rintro ⟨before,part,after,rfl,h⟩
    exact ⟨before,part,after,rfl,part,[],by simp,h,rfl⟩

theorem engine_lawful : engine.Lawful := by
  constructor
  · intro regex r _ hr
    exact ⟨⟨r,hr⟩,fun text => engine_test hr⟩
  · rintro regex ⟨r,hr⟩
    refine ⟨⟨_,parse_grouped hr⟩,fun text => ?_⟩
    rw [engine_test hr,engine_test (parse_grouped hr),search_group]
  · rintro left right ⟨r,hr⟩ ⟨r',hr'⟩ _
    obtain ⟨s,hs,hm⟩ := parse_alternatives hr hr'
    refine ⟨⟨s,hs⟩,fun text => ?_⟩
    rw [engine_test hs,engine_test hr,engine_test hr']
    constructor
    · rintro ⟨before,part,after,rfl,h⟩
      exact ((hm _ _ _).mp h).imp (fun h => ⟨before,part,after,rfl,h⟩) fun h => ⟨before,part,after,rfl,h⟩
    · rintro (⟨before,part,after,rfl,h⟩ | ⟨before,part,after,rfl,h⟩)
      · exact ⟨before,part,after,rfl,(hm _ _ _).mpr (.inl h)⟩
      · exact ⟨before,part,after,rfl,(hm _ _ _).mpr (.inr h)⟩

end Regex
end Library
