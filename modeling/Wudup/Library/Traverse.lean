import Mathlib.Data.List.Basic

/-! Running a fallible function along a list. -/
namespace Library
variable {α β ε : Type}

theorem bind_eq_ok {x : Except ε α} {f : α → Except ε β} {y : β} :
    (x >>= f) = .ok y ↔ ∃ a, x = .ok a ∧ f a = .ok y := by
  cases x <;> simp [bind,Except.bind]

section
variable {σ : Type} {f : σ → α → Except ε σ}

/-- A fold that ends reached every element on the way. -/
theorem foldlM_split {before after : List α} {x : α} {s t : σ}
    (h : (before ++ x :: after).foldlM f s = .ok t) :
    ∃ u v, before.foldlM f s = .ok u ∧ f u x = .ok v ∧ after.foldlM f v = .ok t := by
  rw [List.foldlM_append] at h
  obtain ⟨u,hu,h⟩ := bind_eq_ok.mp h
  rw [List.foldlM_cons] at h
  obtain ⟨v,hv,h⟩ := bind_eq_ok.mp h
  exact ⟨u,v,hu,hv,h⟩

/-- What each step keeps, the fold keeps. -/
theorem foldlM_invariant {I : σ → Prop} {xs : List α} {s t : σ}
    (hstep : ∀ x ∈ xs, ∀ u v, I u → f u x = .ok v → I v) (hs : I s) (h : xs.foldlM f s = .ok t) : I t := by
  induction xs generalizing s with
  | nil =>
    cases h
    exact hs
  | cons x xs ih =>
    rw [List.foldlM_cons] at h
    obtain ⟨u,hu,h⟩ := bind_eq_ok.mp h
    exact ih (fun y hy => hstep y (by simp [hy])) (hstep x (by simp) s u hs hu) h

/-- What is true of the elements that were passed and of the state stays true of them. -/
theorem foldlM_along {I : List α → σ → Prop} (passed : List α) {xs : List α} {s t : σ}
    (hstep : ∀ passed x u v, I passed u → f u x = .ok v → I (passed ++ [x]) v) (hs : I passed s)
    (h : xs.foldlM f s = .ok t) : I (passed ++ xs) t := by
  induction xs generalizing passed s with
  | nil =>
    cases h
    rw [List.append_nil]
    exact hs
  | cons x xs ih =>
    rw [List.foldlM_cons] at h
    obtain ⟨u,hu,h⟩ := bind_eq_ok.mp h
    have hall := ih (passed ++ [x]) (hstep passed x s u hs hu) h
    rwa [List.append_assoc] at hall

/-- A fold of folds is one along all the elements. -/
theorem foldlM_flatMap {γ : Type} {g : σ → γ → Except ε σ} {elements : γ → List α} {ys : List γ} {s t : σ}
    (hg : ∀ y u v, g u y = .ok v → (elements y).foldlM f u = .ok v) (h : ys.foldlM g s = .ok t) :
    (ys.flatMap elements).foldlM f s = .ok t := by
  induction ys generalizing s with
  | nil => exact h
  | cons y ys ih =>
    rw [List.foldlM_cons] at h
    obtain ⟨u,hu,h⟩ := bind_eq_ok.mp h
    rw [List.flatMap_cons,List.foldlM_append,hg y s u hu]
    exact ih h

end

section
variable {f : α → Except ε β}

theorem mapM_ok {g : α → β} {xs : List α} (h : ∀ x ∈ xs, f x = .ok (g x)) : xs.mapM f = .ok (xs.map g) := by
  induction xs with
  | nil => rfl
  | cons x xs ih =>
    rw [List.mapM_cons,h x (by simp),ih fun y hy => h y (by simp [hy])]
    rfl

/-- What can be read off the results is what can be read off the arguments. -/
theorem map_eq_of_mapM {γ : Type} {g : β → γ} {k : α → γ} {xs : List α} {ys : List β}
    (hg : ∀ x ∈ xs, ∀ y, f x = .ok y → g y = k x) (h : xs.mapM f = .ok ys) : ys.map g = xs.map k := by
  induction xs generalizing ys with
  | nil =>
    cases h
    rfl
  | cons x xs ih =>
    rw [List.mapM_cons] at h
    obtain ⟨y,hx,h⟩ := bind_eq_ok.mp h
    obtain ⟨rest,hxs,h⟩ := bind_eq_ok.mp h
    cases h
    rw [List.map_cons,List.map_cons,hg x (by simp) y hx,ih (fun z hz => hg z (by simp [hz])) hxs]

/-- The arguments can be read off the results. -/
theorem map_of_mapM {g : β → α} (hg : ∀ x y, f x = .ok y → g y = x) {xs : List α} {ys : List β}
    (h : xs.mapM f = .ok ys) : ys.map g = xs := by
  have hmap := map_eq_of_mapM (fun x _ y hy => hg x y hy) h
  simpa using hmap

/-- A run that ends has every result, in order. -/
theorem mapM_eq_ok {xs : List α} {ys : List β} : xs.mapM f = .ok ys ↔ xs.map f = ys.map .ok := by
  induction xs generalizing ys with
  | nil => cases ys <;> simp [pure,Except.pure]
  | cons x xs ih =>
    rw [List.mapM_cons,bind_eq_ok]
    constructor
    · intro ⟨y,hx,h⟩
      obtain ⟨rest,hxs,h⟩ := bind_eq_ok.mp h
      cases h
      rw [List.map_cons,List.map_cons,hx,ih.mp hxs]
    · intro h
      cases ys with
      | nil => cases h
      | cons y ys =>
        rw [List.map_cons,List.map_cons,List.cons.injEq] at h
        exact ⟨y,h.1,bind_eq_ok.mpr ⟨ys,ih.mpr h.2,rfl⟩⟩

theorem exists_mem_of_forall₂ {R : α → β → Prop} {xs : List α} {ys : List β} (h : List.Forall₂ R xs ys) {y : β}
    (hy : y ∈ ys) : ∃ x ∈ xs, R x y := by
  induction h with
  | nil => cases hy
  | cons hr _ ih =>
    obtain rfl | hy := List.mem_cons.mp hy
    · exact ⟨_,by simp,hr⟩
    · obtain ⟨x,hx,hr⟩ := ih hy
      exact ⟨x,List.mem_cons_of_mem _ hx,hr⟩

/-- What the elements stand for, when each result is what its element stands for. -/
theorem mapM_eq_ok_iff {γ : Type} {R : α → γ → Prop} {g : γ → β} (hf : ∀ x y, f x = .ok y ↔ ∃ c, R x c ∧ y = g c)
    {xs : List α} {ys : List β} : xs.mapM f = .ok ys ↔ ∃ cs, List.Forall₂ R xs cs ∧ ys = cs.map g := by
  rw [mapM_eq_ok]
  induction xs generalizing ys with
  | nil =>
    constructor
    · intro h
      exact ⟨[],.nil,by simpa using h.symm⟩
    · rintro ⟨cs,hcs,rfl⟩
      cases hcs
      rfl
  | cons x xs ih =>
    constructor
    · intro h
      cases ys with
      | nil => cases h
      | cons y ys =>
        rw [List.map_cons,List.map_cons,List.cons.injEq] at h
        obtain ⟨c,hc,rfl⟩ := (hf x y).mp h.1
        obtain ⟨cs,hcs,rfl⟩ := ih.mp h.2
        exact ⟨c :: cs,.cons hc hcs,rfl⟩
    · rintro ⟨cs,hcs,rfl⟩
      cases hcs with
      | cons hc hcs => rw [List.map_cons,(hf x _).mpr ⟨_,hc,rfl⟩,ih.mpr ⟨_,hcs,rfl⟩,List.map_cons,List.map_cons]

/-- A run fails where one of its elements does. -/
theorem exists_mapM_error {xs : List α} :
    (∃ e, xs.mapM f = .error e) ↔ ∃ x ∈ xs, ∃ e, f x = .error e := by
  induction xs with
  | nil => simp [pure,Except.pure]
  | cons x xs ih =>
    simp only [List.mapM_cons,List.mem_cons,or_and_right,exists_or,exists_eq_left,← ih]
    cases hx : f x with
    | error e => simp [bind,Except.bind]
    | ok y => cases hxs : xs.mapM f <;> simp [bind,Except.bind,pure,Except.pure]

end

section
variable {f : α → Option β}

theorem mapM_eq_some {xs : List α} {ys : List β} : xs.mapM f = some ys ↔ xs.map f = ys.map some := by
  induction xs generalizing ys with
  | nil => cases ys <;> simp
  | cons x xs ih =>
    rw [List.mapM_cons]
    cases hx : f x with
    | none => cases ys <;> simp [hx]
    | some y =>
      cases ys with
      | nil => cases hxs : xs.mapM f <;> simp
      | cons z zs =>
        simp only [List.map_cons,hx,List.cons.injEq,Option.some.injEq,← ih]
        cases hxs : xs.mapM f <;> simp

theorem mem_of_mapM_eq_some {xs : List α} {ys : List β} (h : xs.mapM f = some ys) {y : β} :
    y ∈ ys ↔ ∃ x ∈ xs, f x = some y := by
  have hmap := mapM_eq_some.mp h
  rw [← List.mem_map,hmap]
  simp

theorem exists_of_mapM_eq_some {xs : List α} {ys : List β} (h : xs.mapM f = some ys) {x : α} (hx : x ∈ xs) :
    ∃ y, f x = some y := by
  have hmem : f x ∈ ys.map some := by
    rw [← mapM_eq_some.mp h]
    exact List.mem_map_of_mem hx
  obtain ⟨y,-,hy⟩ := List.mem_map.mp hmem
  exact ⟨y,hy.symm⟩

theorem exists_mapM {xs : List α} (h : ∀ x ∈ xs, ∃ y, f x = some y) : ∃ ys, xs.mapM f = some ys := by
  induction xs with
  | nil => exact ⟨[],rfl⟩
  | cons x xs ih =>
    obtain ⟨y,hy⟩ := h x (by simp)
    obtain ⟨ys,hys⟩ := ih fun x' hx' => h x' (by simp [hx'])
    exact ⟨y :: ys,by rw [mapM_eq_some,List.map_cons,hy,mapM_eq_some.mp hys,List.map_cons]⟩

theorem mapM_eq_none {xs : List α} : xs.mapM f = none ↔ ∃ x ∈ xs, f x = none := by
  constructor
  · intro h
    by_contra hall
    push Not at hall
    obtain ⟨ys,hys⟩ := exists_mapM fun x hx => Option.ne_none_iff_exists'.mp (hall x hx)
    rw [h] at hys
    cases hys
  · intro h
    obtain ⟨x,hx,hnone⟩ := h
    rw [Option.eq_none_iff_forall_ne_some]
    intro ys hys
    obtain ⟨y,hy⟩ := exists_of_mapM_eq_some hys hx
    rw [hnone] at hy
    cases hy

end

section
variable {f : α → Except ε Bool}

/-- What a run keeps passed its test. -/
theorem mem_of_filterM {xs ys : List α} (h : xs.filterM f = .ok ys) {y : α} (hy : y ∈ ys) :
    y ∈ xs ∧ f y = .ok true := by
  have hkept : ∀ (xs kept ys : List α), xs.filterAuxM f kept = .ok ys →
      ∀ y ∈ ys, y ∈ kept ∨ y ∈ xs ∧ f y = .ok true := by
    intro xs
    induction xs with
    | nil =>
      intro kept ys h y hy
      cases h
      exact .inl hy
    | cons x xs ih =>
      intro kept ys h y hy
      obtain ⟨passed,hx,hrest⟩ := bind_eq_ok.mp h
      obtain hy | ⟨hy,hpassed⟩ := ih _ ys hrest y hy
      · cases passed with
        | false => exact .inl hy
        | true =>
          obtain rfl | hy := List.mem_cons.mp hy
          · exact .inr ⟨by simp,hx⟩
          · exact .inl hy
      · exact .inr ⟨List.mem_cons_of_mem x hy,hpassed⟩
  obtain ⟨kept,hrun,hys⟩ := bind_eq_ok.mp h
  cases hys
  obtain hnone | hfound := hkept xs [] kept hrun y (List.mem_reverse.mp hy)
  · cases hnone
  · exact hfound

/-- A run that finds something found it in an element. -/
theorem exists_of_anyM {xs : List α} (h : xs.anyM f = .ok true) : ∃ x ∈ xs, f x = .ok true := by
  induction xs with
  | nil => cases h
  | cons x xs ih =>
    obtain ⟨found,hx,hrest⟩ := bind_eq_ok.mp h
    cases found with
    | true => exact ⟨x,by simp,hx⟩
    | false =>
      obtain ⟨y,hy,hfound⟩ := ih hrest
      exact ⟨y,List.mem_cons_of_mem x hy,hfound⟩

end

end Library
