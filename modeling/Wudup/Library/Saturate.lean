import Mathlib.Data.List.Nodup
import Mathlib.Data.List.Perm.Subperm
import Mathlib.Order.Bounds.Basic

/-! Passes over a list that add the elements whose test succeeds on what was found, until a pass adds none: the result
is the least set that the test closes, in whatever order the elements stand. -/
namespace Library
variable {α : Type} [DecidableEq α]

/-- The element is added unless it was found or its test fails. -/
def tryAdd (test : List α → α → Bool) (found : List α) (x : α) : List α :=
  if x ∉ found ∧ test found x = true then found ++ [x] else found

/-- One pass over the elements. -/
def sweep (test : List α → α → Bool) (found xs : List α) : List α := xs.foldl (tryAdd test) found

/-- Passes until one adds nothing; `none` where there are too few. -/
def saturate (test : List α → α → Bool) (xs : List α) : ℕ → List α → Option (List α)
  | 0, _ => none
  | passes + 1, found => if sweep test found xs = found then some found else saturate test xs passes (sweep test found xs)

/-- A test that is not lost when more is found, and does not see the order. -/
def Widening (test : List α → α → Bool) : Prop :=
  ∀ found more x, found ⊆ more → test found x = true → test more x = true

/-- The set has every element whose test succeeds on a part of it. -/
def ClosedUnder (test : List α → α → Bool) (xs : List α) (set : Set α) : Prop :=
  ∀ x ∈ xs, ∀ found : List α, (∀ y ∈ found, y ∈ set) → test found x = true → x ∈ set

section
variable {test : List α → α → Bool} {found xs : List α}

theorem tryAdd_pos {x : α} (h : x ∉ found ∧ test found x = true) : tryAdd test found x = found ++ [x] := if_pos h

theorem tryAdd_neg {x : α} (h : ¬ (x ∉ found ∧ test found x = true)) : tryAdd test found x = found := if_neg h

theorem sweep_cons (x : α) (xs : List α) : sweep test found (x :: xs) = sweep test (tryAdd test found x) xs := rfl

theorem prefix_sweep (found xs : List α) : found <+: sweep test found xs := by
  induction xs generalizing found with
  | nil => exact List.prefix_rfl
  | cons x xs ih =>
    rw [sweep_cons,tryAdd]
    split
    · exact (List.prefix_append found [x]).trans (ih _)
    · exact ih found

theorem length_sweep (test : List α → α → Bool) (found xs : List α) : found.length ≤ (sweep test found xs).length :=
  (prefix_sweep found xs).length_le

theorem nodup_sweep (h : found.Nodup) : (sweep test found xs).Nodup := by
  induction xs generalizing found with
  | nil => exact h
  | cons x xs ih =>
    rw [sweep_cons,tryAdd]
    split
    · rename_i hx
      apply ih
      rw [List.nodup_append]
      refine ⟨h,List.nodup_singleton x,?_⟩
      rintro y hy z hz rfl
      exact hx.1 (List.mem_singleton.mp hz ▸ hy)
    · exact ih h

/-- What is found comes from the elements, and stays in a set that the test closes. -/
theorem sweep_subset {set : Set α} {ys : List α} (hset : ClosedUnder test ys set) (hys : xs ⊆ ys)
    (h : ∀ y ∈ found, y ∈ set) : ∀ y ∈ sweep test found xs, y ∈ set := by
  induction xs generalizing found with
  | nil => exact h
  | cons x xs ih =>
    obtain ⟨hx,hxs⟩ := List.cons_subset.mp hys
    rw [sweep_cons,tryAdd]
    split
    · rename_i htest
      apply ih hxs
      intro y hy
      obtain hy | hy := List.mem_append.mp hy
      · exact h y hy
      · exact List.mem_singleton.mp hy ▸ hset x hx found h htest.2
    · exact ih hxs h

/-- A pass that adds nothing tried every element. -/
theorem mem_of_sweep_eq (h : sweep test found xs = found) {x : α} (hx : x ∈ xs) (htest : test found x = true) :
    x ∈ found := by
  induction xs with
  | nil => cases hx
  | cons y xs ih =>
    rw [sweep_cons,tryAdd] at h
    split at h
    · have hlength := length_sweep test (found ++ [y]) xs
      rw [h,List.length_append,List.length_singleton] at hlength
      omega
    · rename_i hy
      obtain rfl | hx := List.mem_cons.mp hx
      · by_contra hnot
        exact hy ⟨hnot,htest⟩
      · exact ih h hx

theorem sweep_eq_of_length_le (h : (sweep test found xs).length ≤ found.length) : sweep test found xs = found :=
  ((prefix_sweep found xs).eq_of_length_le h).symm

/-- Enough passes: each one before the last adds an element. -/
theorem exists_saturate {ys : List α} (hnodup : found.Nodup) (hsub : found ⊆ ys) (hxs : xs ⊆ ys) {passes : ℕ}
    (hpasses : ys.length < found.length + passes) : ∃ result, saturate test xs passes found = some result := by
  induction passes generalizing found with
  | zero =>
    have hle := (List.subperm_of_subset hnodup hsub).length_le
    omega
  | succ passes ih =>
    rw [saturate]
    split
    · exact ⟨found,rfl⟩
    · rename_i hne
      have hgrows : found.length < (sweep test found xs).length := by
        by_contra hle
        exact hne (sweep_eq_of_length_le (Nat.not_lt.mp hle))
      have hall : ClosedUnder test ys {y | y ∈ ys} := fun x hx _ _ _ => hx
      exact ih (nodup_sweep hnodup) (fun y hy => sweep_subset hall hxs (fun z hz => hsub hz) y hy) (by omega)

theorem saturate_mono {passes more : ℕ} (hle : passes ≤ more) {result : List α}
    (h : saturate test xs passes found = some result) : saturate test xs more found = some result := by
  induction passes generalizing found more with
  | zero => cases h
  | succ passes ih =>
    obtain ⟨more,rfl⟩ : ∃ n, more = n + 1 := ⟨more - 1,by omega⟩
    rw [saturate] at h ⊢
    split
    · rename_i heq
      rwa [if_pos heq] at h
    · rename_i hne
      rw [if_neg hne] at h
      exact ih (by omega) h

theorem nodup_saturate {passes : ℕ} (hnodup : found.Nodup) {result : List α}
    (h : saturate test xs passes found = some result) : result.Nodup := by
  induction passes generalizing found with
  | zero => cases h
  | succ passes ih =>
    rw [saturate] at h
    split at h
    · cases h
      exact hnodup
    · exact ih (nodup_sweep hnodup) h

/-- The result is closed, and part of every closed set that holds the start. -/
theorem saturate_spec (hwide : Widening test) {passes : ℕ} {result : List α}
    (h : saturate test xs passes found = some result) :
    found ⊆ result ∧ ClosedUnder test xs {y | y ∈ result} ∧
      ∀ set : Set α, ClosedUnder test xs set → (∀ y ∈ found, y ∈ set) → ∀ y ∈ result, y ∈ set := by
  induction passes generalizing found with
  | zero => cases h
  | succ passes ih =>
    rw [saturate] at h
    split at h
    · rename_i heq
      cases h
      refine ⟨fun _ hy => hy,?_,fun _ _ hfound => hfound⟩
      intro x hx part hpart htest
      exact mem_of_sweep_eq heq hx (hwide part _ x hpart htest)
    · obtain ⟨hsub,hclosed,hleast⟩ := ih h
      refine ⟨fun y hy => hsub ((prefix_sweep found xs).subset hy),hclosed,?_⟩
      intro set hset hfound
      exact hleast set hset (sweep_subset hset (fun _ hx => hx) hfound)

/-- From nothing the result is the least closed set. -/
theorem isLeast_saturate (hwide : Widening test) {passes : ℕ} {result : List α}
    (h : saturate test xs passes [] = some result) : IsLeast {set | ClosedUnder test xs set} {y | y ∈ result} := by
  obtain ⟨-,hclosed,hleast⟩ := saturate_spec hwide h
  exact ⟨hclosed,fun set hset y hy => hleast set hset (by simp) y hy⟩

end
end Library
