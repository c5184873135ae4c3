import Mathlib.Data.Nat.Notation
import Mathlib.Logic.Function.Basic
import Wudup.Library.Transition

/-! Clients of a store that one of them at a time writes in a transaction, statement by statement. What they commit is
what whole transactions, one after the other, make of the store. -/
namespace Library

/-- The statements of a transaction, where the client goes on after it, and the effect that it is known for. -/
structure Transaction (κ δ ℓ : Type) where
  body : List δ
  next : κ
  effect : Option ℓ := none

/-- What the clients do in each of their phases. -/
structure Clients (σ κ δ ι ε ℓ : Type) where
  exec : ι → δ → σ → Except ε σ
  /-- A step outside of a transaction. -/
  reads : κ → σ → Option κ
  begins : κ → σ → Option (Transaction κ δ ℓ)
  fails : ε → κ
  stops : κ

/-- A transaction in progress, with the store as only its client sees it. -/
structure Writer (σ κ δ ℓ : Type) where
  client : ℕ
  working : σ
  remaining : List δ
  next : κ
  effect : Option ℓ

/-- The committed store and its clients. -/
structure Store (σ κ δ ℓ : Type) where
  committed : σ
  phase : ℕ → κ
  writer : Option (Writer σ κ δ ℓ) := none
  effects : List ℓ := []

inductive StoreAction (ι : Type) where
  | read (client : ℕ)
  | start (client : ℕ)
  | execute (input : ι)
  | commit
  | stop (client : ℕ)
  deriving DecidableEq, Repr

/-- The store as others see it. -/
structure Committed (σ κ ℓ : Type) where
  committed : σ
  phase : ℕ → κ
  effects : List ℓ

inductive CommittedAction (ι ε : Type) where
  | read (client : ℕ)
  | transact (client : ℕ) (inputs : List ι)
  | fail (client : ℕ) (error : ε)
  | stop (client : ℕ)
  deriving DecidableEq, Repr

namespace Store
variable {σ κ δ ι ε ℓ : Type}

def busy (s : Store σ κ δ ℓ) (client : ℕ) : Bool := s.writer.any (·.client = client)

def view (s : Store σ κ δ ℓ) : Committed σ κ ℓ := ⟨s.committed,s.phase,s.effects⟩

end Store

namespace Clients
variable {σ κ δ ι ε ℓ : Type} (c : Clients σ κ δ ι ε ℓ)

/-- A failing statement rolls the transaction back, and so does stopping its client. -/
def step : System (Store σ κ δ ℓ) (StoreAction ι)
  | s, .read client =>
    if s.busy client then none
    else (c.reads (s.phase client) s.committed).map fun next =>
      { s with phase := Function.update s.phase client next }
  | s, .start client =>
    match s.writer with
    | some _ => none
    | none => (c.begins (s.phase client) s.committed).map fun t =>
      { s with writer := some ⟨client,s.committed,t.body,t.next,t.effect⟩ }
  | s, .execute input =>
    match s.writer with
    | some ⟨client,working,statement :: remaining,next,effect⟩ =>
      match c.exec input statement working with
      | .ok working => some { s with writer := some ⟨client,working,remaining,next,effect⟩ }
      | .error error => some { s with writer := none, phase := Function.update s.phase client (c.fails error) }
    | _ => none
  | s, .commit =>
    match s.writer with
    | some ⟨client,working,[],next,effect⟩ =>
      some { committed := working
             phase := Function.update s.phase client next
             writer := none
             effects := s.effects ++ effect.toList }
    | _ => none
  | s, .stop client =>
    some { s with
      phase := Function.update s.phase client c.stops
      writer := if s.busy client then none else s.writer }

/-- The statements of a body, each with its input. -/
def runBody : List ι → List δ → σ → Option σ
  | [], [], s => some s
  | input :: inputs, statement :: rest, s =>
    match c.exec input statement s with
    | .ok t => runBody inputs rest t
    | .error _ => none
  | _, _, _ => none

/-- Whole transactions. -/
def committedStep : System (Committed σ κ ℓ) (CommittedAction ι ε)
  | s, .read client =>
    (c.reads (s.phase client) s.committed).map fun next => { s with phase := Function.update s.phase client next }
  | s, .transact client inputs =>
    (c.begins (s.phase client) s.committed).bind fun t =>
      (c.runBody inputs t.body s.committed).map fun committed =>
        { committed
          phase := Function.update s.phase client t.next
          effects := s.effects ++ t.effect.toList }
  | s, .fail client error => some { s with phase := Function.update s.phase client (c.fails error) }
  | s, .stop client => some { s with phase := Function.update s.phase client c.stops }

variable {c}

theorem runBody_append {inputs more : List ι} {body rest : List δ} {s t : σ} (h : c.runBody inputs body s = some t) :
    c.runBody (inputs ++ more) (body ++ rest) s = c.runBody more rest t := by
  induction inputs generalizing body s with
  | nil =>
    cases body with
    | nil =>
      obtain rfl : s = t := Option.some.inj h
      rfl
    | cons statement body => cases h
  | cons input inputs ih =>
    cases body with
    | nil => cases h
    | cons statement body =>
      simp only [runBody] at h
      simp only [List.cons_append,runBody]
      cases he : c.exec input statement s with
      | ok u =>
        rw [he] at h
        exact ih h
      | error error =>
        rw [he] at h
        cases h

/-- What is known after each statement adds up to what is known after the body. -/
theorem runBody_foldl {α : Type} {R : α → σ → Prop} {f : α → δ → α}
    (h : ∀ input statement x s t, R x s → c.exec input statement s = .ok t → R (f x statement) t)
    {inputs : List ι} {body : List δ} {x : α} {s t : σ} (hs : R x s) (hrun : c.runBody inputs body s = some t) :
    R (body.foldl f x) t := by
  induction inputs generalizing body x s with
  | nil =>
    cases body with
    | nil =>
      obtain rfl : s = t := Option.some.inj hrun
      exact hs
    | cons statement body => cases hrun
  | cons input inputs ih =>
    cases body with
    | nil => cases hrun
    | cons statement body =>
      simp only [runBody] at hrun
      rw [List.foldl_cons]
      cases he : c.exec input statement s with
      | ok u =>
        rw [he] at hrun
        exact ih (h input statement x s u hs he) hrun
      | error error =>
        rw [he] at hrun
        cases hrun

/-- What every statement keeps, a body keeps. -/
theorem runBody_keeps {I : σ → Prop} (h : ∀ input statement s t, I s → c.exec input statement s = .ok t → I t)
    {inputs : List ι} {body : List δ} {s t : σ} (hs : I s) (hrun : c.runBody inputs body s = some t) : I t :=
  runBody_foldl (R := fun (_ : Unit) s => I s) (f := fun _ _ => ()) (x := ())
    (fun input statement _ s t hs he => h input statement s t hs he) hs hrun

variable (c) in
/-- The transaction in progress got where it is from the committed store. -/
def InProgress (s : Store σ κ δ ℓ) : Prop :=
  ∀ w, s.writer = some w → ∃ t inputs done, c.begins (s.phase w.client) s.committed = some t ∧
    t.body = done ++ w.remaining ∧ t.next = w.next ∧ t.effect = w.effect ∧
    c.runBody inputs done s.committed = some w.working

/-- A step commits nothing that others see, or it is a step of whole transactions. -/
theorem step_refines {s t : Store σ κ δ ℓ} {a : StoreAction ι} (hs : c.InProgress s) (h : c.step s a = some t) :
    c.InProgress t ∧ (t.view = s.view ∨ ∃ b, c.committedStep s.view b = some t.view) := by
  cases a with
  | read client =>
    simp only [step] at h
    split at h
    · cases h
    · rename_i hbusy
      obtain ⟨next,hnext,rfl⟩ := Option.map_eq_some_iff.mp h
      constructor
      · intro w hw
        have hne : w.client ≠ client := by
          intro he
          exact hbusy (by simp [Store.busy,show s.writer = some w from hw,he])
        simpa [Function.update_of_ne hne] using hs w hw
      · exact .inr ⟨.read client,by simp [committedStep,Store.view,hnext]⟩
  | start client =>
    simp only [step] at h
    split at h
    · cases h
    · obtain ⟨transaction,ht,rfl⟩ := Option.map_eq_some_iff.mp h
      refine ⟨?_,.inl rfl⟩
      intro w hw
      cases hw
      exact ⟨transaction,[],[],ht,rfl,rfl,rfl,rfl⟩
  | execute input =>
    simp only [step] at h
    split at h
    · rename_i client working statement remaining next effect hwriter
      obtain ⟨transaction,inputs,finished,ht,hbody,hnext,heffect,hrun⟩ := hs _ hwriter
      split at h
      · rename_i result hexec
        cases h
        refine ⟨?_,.inl rfl⟩
        intro w hw
        cases hw
        refine ⟨transaction,inputs ++ [input],finished ++ [statement],ht,?_,hnext,heffect,?_⟩
        · rw [List.append_assoc]
          exact hbody
        · rw [runBody_append hrun]
          simp [runBody,hexec]
      · rename_i error hexec
        cases h
        refine ⟨?_,.inr ⟨.fail client error,rfl⟩⟩
        intro w hw
        cases hw
    · cases h
  | commit =>
    simp only [step] at h
    split at h
    · rename_i client working next effect hwriter
      obtain ⟨transaction,inputs,finished,ht,hbody,hnext,heffect,hrun⟩ := hs _ hwriter
      cases h
      constructor
      · intro w hw
        cases hw
      · refine .inr ⟨.transact client inputs,?_⟩
        dsimp only at ht hbody hnext heffect hrun
        rw [List.append_nil] at hbody
        simp [committedStep,Store.view,ht,hbody,hrun,hnext,heffect]
    · cases h
  | stop client =>
    cases h
    refine ⟨?_,.inr ⟨.stop client,rfl⟩⟩
    intro w hw
    dsimp only at hw
    split at hw
    · cases hw
    · rename_i hbusy
      have hne : w.client ≠ client := by
        intro he
        exact hbusy (by simp [Store.busy,hw,he])
      simpa [Function.update_of_ne hne] using hs w hw

/-- A run of statements is seen from outside as a run of whole transactions. -/
theorem run_refines {s t : Store σ κ δ ℓ} {actions : List (StoreAction ι)} (hs : c.InProgress s)
    (h : c.step.run s actions = some t) :
    c.InProgress t ∧ ∃ committed, c.committedStep.run s.view committed = some t.view := by
  induction actions generalizing s with
  | nil =>
    obtain rfl : s = t := by simpa [System.run] using h
    exact ⟨hs,[],rfl⟩
  | cons a rest ih =>
    obtain ⟨u,hu,hrest⟩ := Option.bind_eq_some_iff.mp h
    obtain ⟨hprogress,hstep⟩ := step_refines hs hu
    obtain ⟨hlast,committed,hcommitted⟩ := ih hprogress hrest
    refine ⟨hlast,?_⟩
    rcases hstep with hsame | ⟨b,hb⟩
    · rw [hsame] at hcommitted
      exact ⟨committed,hcommitted⟩
    · refine ⟨b :: committed,?_⟩
      rw [System.run,hb]
      exact hcommitted

end Clients
end Library
