import Mathlib.Data.List.Forall2
import Wudup.Library.Transition
import Wudup.Library.Traverse

/-! Two runs side by side: what related actions and related results keep. -/
namespace Library

/-! Results -/

section
variable {α β γ δ ε : Type}

/-- Both failed alike, or both gave related values. -/
inductive SameOutcome (R : α → β → Prop) : Except ε α → Except ε β → Prop where
  | ok {x : α} {y : β} (h : R x y) : SameOutcome R (.ok x) (.ok y)
  | error (failure : ε) : SameOutcome R (.error failure) (.error failure)

namespace SameOutcome
variable {R : α → β → Prop} {S : γ → δ → Prop} {x : Except ε α} {y : Except ε β}

theorem refl {R : α → α → Prop} (h : ∀ a, R a a) (x : Except ε α) : SameOutcome R x x := by
  cases x with
  | ok a => exact .ok (h a)
  | error failure => exact .error failure

theorem map {f : α → γ} {g : β → δ} (h : SameOutcome R x y) (hfg : ∀ a b, R a b → S (f a) (g b)) :
    SameOutcome S (x.map f) (y.map g) := by
  cases h with
  | ok h => exact .ok (hfg _ _ h)
  | error failure => exact .error failure

theorem bind {f : α → Except ε γ} {g : β → Except ε δ} (h : SameOutcome R x y)
    (hfg : ∀ a b, R a b → SameOutcome S (f a) (g b)) : SameOutcome S (x >>= f) (y >>= g) := by
  cases h with
  | ok h => exact hfg _ _ h
  | error failure => exact .error failure

theorem mapM {f : α → Except ε γ} {g : β → Except ε δ} {xs : List α} {ys : List β} (h : List.Forall₂ R xs ys)
    (hfg : ∀ a b, R a b → SameOutcome S (f a) (g b)) : SameOutcome (List.Forall₂ S) (xs.mapM f) (ys.mapM g) := by
  induction h with
  | nil => exact .ok .nil
  | cons hr _ ih =>
    rw [List.mapM_cons,List.mapM_cons]
    exact (hfg _ _ hr).bind fun _ _ hs => ih.bind fun _ _ hrest => .ok (.cons hs hrest)

end SameOutcome

/-! Lists -/

theorem forall₂_eraseIdx {R : α → β → Prop} {xs : List α} {ys : List β} (h : List.Forall₂ R xs ys) (index : ℕ) :
    List.Forall₂ R (xs.eraseIdx index) (ys.eraseIdx index) := by
  rw [List.eraseIdx_eq_take_drop_succ,List.eraseIdx_eq_take_drop_succ]
  exact List.rel_append (List.forall₂_take index h) (List.forall₂_drop (index + 1) h)

theorem getElem?_of_forall₂ {R : α → β → Prop} {xs : List α} {ys : List β} (h : List.Forall₂ R xs ys) {index : ℕ}
    {x : α} (hx : xs[index]? = some x) : ∃ y, ys[index]? = some y ∧ R x y := by
  induction h generalizing index with
  | nil => cases hx
  | cons hr _ ih =>
    cases index with
    | zero =>
      cases hx
      exact ⟨_,rfl,hr⟩
    | succ index => exact ih hx

end

/-! Runs -/

namespace System
variable {σ τ α β : Type} {step : System σ α} {other : System τ β}

/-- Where related actions lead from related states to related states, so do runs of them. -/
theorem run_simulates {R : σ → τ → Prop} {A : α → β → Prop}
    (h : ∀ s t a b u, R s t → A a b → step s a = some u → ∃ v, other t b = some v ∧ R u v) {s u : σ} {t : τ}
    {actions : List α} {others : List β} (hR : R s t) (hA : List.Forall₂ A actions others)
    (hr : run step s actions = some u) : ∃ v, run other t others = some v ∧ R u v := by
  induction hA generalizing s t with
  | nil =>
    obtain rfl : s = u := by simpa [run] using hr
    exact ⟨t,rfl,hR⟩
  | cons ha _ ih =>
    obtain ⟨mid,hmid,hr⟩ := Option.bind_eq_some_iff.mp hr
    obtain ⟨v,hv,hRv⟩ := h s t _ _ mid hR ha hmid
    obtain ⟨w,hw,hRw⟩ := ih hRv hr
    exact ⟨w,by rw [run,hv,Option.bind_some,hw],hRw⟩

end System

end Library
