import Mathlib.Data.List.Induction

/-! Histories in which every event is explained by what happened before it. -/
namespace Library
variable {ε : Type} {cause : List ε → ε → Prop} {stops : ε → Prop} {history before after : List ε} {event earlier later last : ε}

/-- Every event has its cause in the events before it. -/
def Caused (cause : List ε → ε → Prop) (history : List ε) : Prop :=
  ∀ before event after, history = before ++ event :: after → cause before event

theorem caused_nil : Caused cause [] := by
  intro before event after h
  cases before <;> cases h

theorem eq_append_cons_concat (h : history ++ [last] = before ++ event :: after) :
    (before = history ∧ event = last) ∨ ∃ rest, history = before ++ event :: rest := by
  cases after using List.reverseRecOn with
  | nil =>
    obtain ⟨hb,he⟩ := List.append_inj' h rfl
    exact .inl ⟨hb.symm,(List.singleton_inj.mp he).symm⟩
  | append_singleton rest x =>
    have h' : history ++ [last] = (before ++ event :: rest) ++ [x] := by rw [h,List.append_assoc,List.cons_append]
    exact .inr ⟨rest,(List.append_inj' h' rfl).1⟩

theorem Caused.concat (h : Caused cause history) (hlast : cause history last) :
    Caused cause (history ++ [last]) := by
  intro before event after he
  rcases eq_append_cons_concat he with ⟨rfl,rfl⟩ | ⟨rest,hrest⟩
  · exact hlast
  · exact h before event rest hrest

/-- The event happened, and none of those that stop it after it. -/
def Standing (stops : ε → Prop) (history : List ε) (event : ε) : Prop :=
  ∃ before after, history = before ++ event :: after ∧ ∀ later ∈ after, ¬ stops later

theorem standing_concat : Standing stops (history ++ [last]) last :=
  ⟨history,[],rfl,fun _ h => by cases h⟩

theorem Standing.concat (h : Standing stops history event) (hlast : ¬ stops last) :
    Standing stops (history ++ [last]) event := by
  obtain ⟨before,after,rfl,hafter⟩ := h
  refine ⟨before,after ++ [last],by rw [List.append_assoc,List.cons_append],fun later hlater => ?_⟩
  rcases List.mem_append.mp hlater with hlater | hlater
  · exact hafter later hlater
  · rw [List.mem_singleton.mp hlater]
    exact hlast

theorem Standing.mem (h : Standing stops history event) : event ∈ history := by
  obtain ⟨before,after,rfl,-⟩ := h
  exact List.mem_append_right _ List.mem_cons_self

/-- The one happened before the other. -/
def InOrder (history : List ε) (earlier later : ε) : Prop :=
  ∃ first second third, history = first ++ earlier :: (second ++ later :: third)

theorem InOrder.concat (h : InOrder history earlier later) : InOrder (history ++ [last]) earlier later := by
  obtain ⟨first,second,third,rfl⟩ := h
  exact ⟨first,second,third ++ [last],by simp⟩

theorem inOrder_concat (h : earlier ∈ history) : InOrder (history ++ [last]) earlier last := by
  obtain ⟨first,second,rfl⟩ := List.append_of_mem h
  exact ⟨first,second,[],by simp⟩

end Library
