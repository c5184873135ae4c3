import Wudup.Library.Program

/-! Programs that do the same on related states, and programs run on a part of the state. -/
namespace Library.Program
variable {σ τ ε α β : Type}

/-- From related states both programs end in the same way, in related states. -/
def Refines (R : σ → τ → Prop) (x : Program σ ε α) (y : Program τ ε α) : Prop :=
  ∀ s t, R s t → (exec x s).1 = (exec y t).1 ∧ R (exec x s).2 (exec y t).2

/-- A program run on the part of the state that `view` reads and `put` writes. -/
def zoom (view : σ → τ) (put : σ → τ → σ) (x : Program τ ε α) : Program σ ε α :=
  ExceptT.mk fun s => ((exec x (view s)).1,put s (exec x (view s)).2)

@[simp] theorem exec_zoom (view : σ → τ) (put : σ → τ → σ) (x : Program τ ε α) (s : σ) :
    exec (zoom view put x) s = ((exec x (view s)).1,put s (exec x (view s)).2) := rfl

namespace Refines
variable {R : σ → τ → Prop} {x : Program σ ε α} {y : Program τ ε α}

theorem pure {a : α} : Refines R (Pure.pure a : Program σ ε α) (Pure.pure a : Program τ ε α) :=
  fun _ _ hR => ⟨rfl,hR⟩

/-- The outcome the programs share, with the states they end in. -/
theorem outcome (hx : Refines R x y) {s : σ} {t : τ} (hR : R s t) :
    ∃ r u v, exec x s = (r,u) ∧ exec y t = (r,v) ∧ R u v := by
  obtain ⟨hresult,hstate⟩ := hx s t hR
  exact ⟨(exec x s).1,(exec x s).2,(exec y t).2,rfl,by rw [hresult],hstate⟩

theorem bind {f : α → Program σ ε β} {g : α → Program τ ε β} (hx : Refines R x y)
    (hf : ∀ a, Refines R (f a) (g a)) : Refines R (x >>= f) (y >>= g) := by
  intro s t hR
  obtain ⟨r,u,v,hex,hey,hstate⟩ := hx.outcome hR
  rw [exec_bind,exec_bind,hex,hey]
  cases r with
  | error e => exact ⟨rfl,hstate⟩
  | ok a => exact hf a u v hstate

/-- What two programs read off related states may differ. -/
theorem get_bind {f : σ → Program σ ε α} {g : τ → Program τ ε α}
    (hf : ∀ s t, R s t → Refines R (f s) (g t)) : Refines R (get >>= f) (get >>= g) := by
  intro s t hR
  rw [exec_bind,exec_bind]
  exact hf s t hR s t hR

theorem except {caught : ε → Bool} {h : ε → Program σ ε α} {k : ε → Program τ ε α} (hx : Refines R x y)
    (hh : ∀ e, Refines R (h e) (k e)) : Refines R (x.except caught h) (y.except caught k) := by
  intro s t hR
  obtain ⟨r,u,v,hex,hey,hstate⟩ := hx.outcome hR
  rw [Program.except,Program.except,exec_tryCatch,exec_tryCatch,hex,hey]
  cases r with
  | ok a => exact ⟨rfl,hstate⟩
  | error e =>
    cases hc : caught e with
    | true => simpa [hc] using hh e u v hstate
    | false => simpa [hc] using hstate

theorem ite {c : Prop} [Decidable c] {x' : Program σ ε α} {y' : Program τ ε α} (hx : c → Refines R x y)
    (hx' : ¬c → Refines R x' y') : Refines R (if c then x else x') (if c then y else y') := by
  split
  · exact hx ‹c›
  · exact hx' ‹¬c›

/-- A program run on the part of the state that the relation keeps. -/
theorem zoom {view : σ → τ} {put : σ → τ → σ} (hview : ∀ s t, R s t → view s = t)
    (hput : ∀ s t u, R s t → R (put s u) u) : Refines R (Program.zoom view put y) y := by
  intro s t hR
  rw [exec_zoom,hview s t hR]
  exact ⟨rfl,hput s t _ hR⟩

/-- A step that only the first program takes, and that stays in the relation. -/
theorem modify_bind {f : σ → σ} {g : PUnit → Program σ ε α} (hf : ∀ s t, R s t → R (f s) t)
    (hg : Refines R (g ⟨⟩) y) : Refines R (modify f >>= g) y := by
  intro s t hR
  rw [exec_bind]
  exact hg (f s) t (hf s t hR)

end Refines
end Library.Program
