import Mathlib.Algebra.BigOperators.Group.List.Basic
import Mathlib.Algebra.GroupWithZero.Nat

/-! Lists as tables of numbered slots: what is found in them after a slot was written or added. -/
namespace Library
variable {α : Type} {xs : List α}

theorem getElem?_set_cases {i j : ℕ} {x y : α} (h : (xs.set i x)[j]? = some y) :
    j = i ∧ y = x ∨ j ≠ i ∧ xs[j]? = some y := by
  by_cases hij : i = j
  · subst hij
    rw [List.getElem?_set_self'] at h
    obtain ⟨_,-,rfl⟩ := Option.map_eq_some_iff.mp h
    exact .inl ⟨rfl,rfl⟩
  · rw [List.getElem?_set_ne hij] at h
    exact .inr ⟨Ne.symm hij,h⟩

theorem getElem?_concat_cases {j : ℕ} {x y : α} (h : (xs ++ [x])[j]? = some y) :
    j = xs.length ∧ y = x ∨ xs[j]? = some y := by
  by_cases hlt : j < xs.length
  · rw [List.getElem?_append_left hlt] at h
    exact .inr h
  · rw [List.getElem?_append_right (Nat.not_lt.mp hlt),List.getElem?_singleton] at h
    split at h
    · cases h
      exact .inl ⟨by omega,rfl⟩
    · cases h

theorem sum_map_set {i : ℕ} {x : α} (hi : xs[i]? = some x) (y : α) (f : α → ℕ) :
    ((xs.set i y).map f).sum + f x = (xs.map f).sum + f y := by
  induction xs generalizing i with
  | nil => cases hi
  | cons z xs ih =>
    cases i with
    | zero =>
      cases hi
      simp only [List.set_cons_zero,List.map_cons,List.sum_cons]
      omega
    | succ i =>
      have hrest := ih hi
      simp only [List.set_cons_succ,List.map_cons,List.sum_cons]
      omega

end Library
