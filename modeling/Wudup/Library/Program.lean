import Mathlib.Data.Set.Basic
import Mathlib.Control.Monad.Basic

/-! Programs over a state that survives exceptions, with rules for what holds at a normal
end and at an exceptional one. -/
namespace Library

/-- A program that changes a state and either returns or raises; a raised exception keeps the state. -/
abbrev Program (σ ε : Type) := ExceptT ε (StateM σ)

namespace Program
variable {σ ε α β : Type}

/-- The outcome of a program started in a state, with the state it stops in. -/
def exec (x : Program σ ε α) (s : σ) : Except ε α × σ := StateT.run (ExceptT.run x) s

/-- A result that needs no state. -/
def ofExcept (x : Except ε α) : Program σ ε α := ExceptT.mk (pure x)

/-- Runs a handler for the exceptions a predicate selects; the others pass. -/
def except (x : Program σ ε α) (caught : ε → Bool) (handler : ε → Program σ ε α) : Program σ ε α :=
  tryCatch x fun e => if caught e then handler e else throw e

/-- Drops the exceptions a predicate selects. -/
def suppress (caught : ε → Bool) (x : Program σ ε Unit) : Program σ ε Unit :=
  except x caught fun _ => pure ()

/-- Runs the second part however the first one ends; what the second raises replaces what the first did. -/
def finish (x : Program σ ε α) (y : Program σ ε Unit) : Program σ ε α := do
  let a ← tryCatch x fun e => do
    y
    throw e
  y
  return a

@[simp] theorem exec_pure (a : α) (s : σ) : exec (pure a : Program σ ε α) s = (.ok a,s) := rfl
@[simp] theorem exec_throw (e : ε) (s : σ) : exec (throw e : Program σ ε α) s = (.error e,s) := rfl
@[simp] theorem exec_get (s : σ) : exec (get : Program σ ε σ) s = (.ok s,s) := rfl
@[simp] theorem exec_ofExcept (x : Except ε α) (s : σ) : exec (ofExcept x) s = (x,s) := rfl
@[simp] theorem exec_modify (f : σ → σ) (s : σ) :
    exec (modify f : Program σ ε PUnit) s = (.ok ⟨⟩,f s) := rfl

theorem exec_bind (x : Program σ ε α) (f : α → Program σ ε β) (s : σ) :
    exec (x >>= f) s = match exec x s with
      | (.ok a, t) => exec (f a) t
      | (.error e, t) => (.error e,t) := by
  simp only [exec, bind, ExceptT.bind, ExceptT.run, ExceptT.mk, StateT.run, StateT.bind]
  rcases x s with ⟨e | a,t⟩ <;> rfl

theorem exec_tryCatch (x : Program σ ε α) (h : ε → Program σ ε α) (s : σ) :
    exec (tryCatch x h) s = match exec x s with
      | (.ok a, t) => (.ok a,t)
      | (.error e, t) => exec (h e) t := by
  simp only [exec, tryCatch, tryCatchThe, MonadExceptOf.tryCatch, ExceptT.tryCatch, ExceptT.run,
    ExceptT.mk, StateT.run, bind, StateT.bind]
  rcases x s with ⟨e | a,t⟩ <;> rfl

/-- Started in a state of `P`, the program returns in `Q` or raises in `E`. -/
def Ends (P : σ → Prop) (x : Program σ ε α) (Q : α → σ → Prop) (E : ε → σ → Prop) : Prop :=
  ∀ s, P s → match exec x s with
    | (.ok a, t) => Q a t
    | (.error e, t) => E e t

/-- The program keeps `I` however it ends. -/
def Keeps (I : σ → Prop) (x : Program σ ε α) : Prop := Ends I x (fun _ => I) (fun _ => I)

namespace Ends
variable {P O : σ → Prop} {E F : ε → σ → Prop} {Q Q' : α → σ → Prop}

theorem pure {a : α} (h : ∀ s, P s → Q a s) :
    Ends P (Pure.pure a : Program σ ε α) Q E := fun s hs => h s hs

theorem throw {e : ε} (h : ∀ s, P s → E e s) :
    Ends P (MonadExcept.throw e : Program σ ε α) Q E := fun s hs => h s hs

theorem ofExcept {x : Except ε α} (hok : ∀ a, x = .ok a → ∀ s, P s → Q a s)
    (herror : ∀ e, x = .error e → ∀ s, P s → E e s) : Ends P (Program.ofExcept x) Q E := by
  intro s hs
  rw [exec_ofExcept]
  cases x with
  | error e => exact herror e rfl s hs
  | ok a => exact hok a rfl s hs

theorem modify {Q : PUnit → σ → Prop} {f : σ → σ} (h : ∀ s, P s → Q ⟨⟩ (f s)) :
    Ends P (MonadState.modifyGet fun s => (PUnit.unit,f s) : Program σ ε PUnit) Q E :=
  fun s hs => h s hs

theorem mono {x : Program σ ε α} (h : Ends O x Q' F)
    (hp : ∀ s, P s → O s) (hq : ∀ a s, Q' a s → Q a s) (he : ∀ e s, F e s → E e s) :
    Ends P x Q E := by
  intro s hs
  have hr := h s (hp s hs)
  cases hx : exec x s with
  | mk r t =>
    cases r with
    | error e => rw [hx] at hr; exact he e t hr
    | ok a => rw [hx] at hr; exact hq a t hr

theorem pre {x : Program σ ε α} (h : Ends O x Q E) (hp : ∀ s, P s → O s) : Ends P x Q E :=
  h.mono hp (fun _ _ h => h) fun _ _ h => h

/-- A rule for every state of a condition, used at one of them. -/
theorem start {s : σ} {x : Program σ ε α} (h : Ends P x Q E) (hs : P s) : Ends (fun t => t = s) x Q E := by
  rintro _ rfl
  exact h _ hs

/-- What the start says of no state may be assumed. -/
theorem assume {φ : Prop} {x : Program σ ε α} (h : φ → Ends P x Q E) : Ends (fun s => P s ∧ φ) x Q E :=
  fun s hs => h hs.2 s hs.1

theorem exists_pre {ι : Type} {R : ι → σ → Prop} {x : Program σ ε α} (h : ∀ i, Ends (R i) x Q E) :
    Ends (fun s => ∃ i, R i s) x Q E := fun s ⟨i,hs⟩ => h i s hs

theorem bind {R : α → σ → Prop} {Q : β → σ → Prop} {x : Program σ ε α} {f : α → Program σ ε β}
    (hx : Ends P x R E) (hf : ∀ a, Ends (R a) (f a) Q E) : Ends P (x >>= f) Q E := by
  intro s hs
  have hr := hx s hs
  rw [exec_bind]
  cases hx : exec x s with
  | mk r t =>
    cases r with
    | error e => rw [hx] at hr; exact hr
    | ok a => rw [hx] at hr; exact hf a t hr

/-- Reading the state makes its value available, together with what is known of it. -/
theorem get_bind {Q : β → σ → Prop} {f : σ → Program σ ε β}
    (h : ∀ s, P s → Ends (fun t => t = s) (f s) Q E) : Ends P (get >>= f) Q E := by
  intro s hs
  rw [exec_bind]
  exact h s hs s rfl

theorem tryCatch {x : Program σ ε α} {h : ε → Program σ ε α}
    (hx : Ends P x Q F) (hh : ∀ e, Ends (F e) (h e) Q E) : Ends P (MonadExcept.tryCatch x h) Q E := by
  intro s hs
  have hr := hx s hs
  rw [exec_tryCatch]
  cases hx : exec x s with
  | mk r t =>
    cases r with
    | error e => rw [hx] at hr; exact hh e t hr
    | ok a => rw [hx] at hr; exact hr

theorem except {x : Program σ ε α} {caught : ε → Bool} {h : ε → Program σ ε α}
    (hx : Ends P x Q F) (hh : ∀ e, caught e = true → Ends (F e) (h e) Q E)
    (hp : ∀ e s, caught e = false → F e s → E e s) : Ends P (x.except caught h) Q E := by
  refine tryCatch hx fun e => ?_
  cases hc : caught e with
  | true => simpa [hc] using hh e hc
  | false => simpa [hc] using throw (hp e · hc)

theorem suppress {R : σ → Prop} {x : Program σ ε Unit} {caught : ε → Bool}
    (hx : Ends P x (fun _ => R) fun _ => R) :
    Ends P (Program.suppress caught x) (fun _ => R) fun _ => R :=
  except hx (fun _ _ => pure fun _ h => h) fun _ _ _ h => h

theorem finish {R : α → σ → Prop} {x : Program σ ε α} {y : Program σ ε Unit} (hx : Ends P x R F)
    (hy : ∀ a, Ends (R a) y (fun _ => Q a) E) (he : ∀ e, Ends (F e) y (fun _ => E e) E) :
    Ends P (Program.finish x y) Q E := by
  refine bind (tryCatch hx fun e => ?_) fun a => ?_
  · exact bind (he e) fun _ => throw fun _ h => h
  · exact bind (hy a) fun _ => pure fun _ h => h

theorem ite {c : Prop} [Decidable c] {x y : Program σ ε α} (hx : c → Ends P x Q E)
    (hy : ¬c → Ends P y Q E) : Ends P (if c then x else y) Q E := by
  split
  · exact hx ‹c›
  · exact hy ‹¬c›

end Ends

/-- What is kept may be weakened where the program raises. -/
theorem Keeps.ends {I : σ → Prop} {E : ε → σ → Prop} {x : Program σ ε α} (h : Keeps I x)
    (he : ∀ e s, I s → E e s) : Ends I x (fun _ => I) E := Ends.mono h (fun _ h => h) (fun _ _ h => h) he

theorem Keeps.bind {I : σ → Prop} {x : Program σ ε α} {f : α → Program σ ε β}
    (hx : Keeps I x) (hf : ∀ a, Keeps I (f a)) : Keeps I (x >>= f) := Ends.bind hx hf

theorem Keeps.pure {I : σ → Prop} {a : α} : Keeps I (Pure.pure a : Program σ ε α) :=
  Ends.pure fun _ h => h

theorem Keeps.throw {I : σ → Prop} {e : ε} : Keeps I (MonadExcept.throw e : Program σ ε α) :=
  Ends.throw fun _ h => h

theorem Keeps.except {I : σ → Prop} {x : Program σ ε α} {caught : ε → Bool}
    {h : ε → Program σ ε α} (hx : Keeps I x) (hh : ∀ e, Keeps I (h e)) :
    Keeps I (x.except caught h) := Ends.except hx (fun e _ => hh e) fun _ _ _ h => h

theorem Keeps.ite {I : σ → Prop} {c : Prop} [Decidable c] {x y : Program σ ε α}
    (hx : Keeps I x) (hy : Keeps I y) : Keeps I (if c then x else y) :=
  Ends.ite (fun _ => hx) fun _ => hy

end Program
end Library
