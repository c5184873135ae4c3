import Mathlib.Logic.Basic

/-! Runs of a system of actions, and what they keep when every action is taken in a good state. -/
namespace Library

/-- A system whose actions are partial functions on its states. -/
abbrev System (σ α : Type) := σ → α → Option σ

namespace System
variable {σ α : Type} (step : System σ α)

/-- The state a list of actions leads to, if each of them can be taken. -/
def run : σ → List α → Option σ
  | s, [] => some s
  | s, a :: rest => (step s a).bind fun t => run t rest

/-- Every action of the list is taken in a state where `C` allows it. -/
def Along (C : σ → α → Prop) : σ → List α → Prop
  | _, [] => True
  | s, a :: rest => C s a ∧ ∀ t, step s a = some t → Along C t rest

variable {step}

theorem along_cons {C : σ → α → Prop} {s t : σ} {a : α} {rest : List α} (hs : step s a = some t) :
    Along step C s (a :: rest) ↔ C s a ∧ Along step C t rest := by
  simp [Along,hs]

theorem along_stuck {C : σ → α → Prop} {s : σ} {a : α} {rest : List α} (hs : step s a = none) :
    Along step C s (a :: rest) ↔ C s a := by
  simp [Along,hs]

instance decidableAlong {C : σ → α → Prop} [∀ s a, Decidable (C s a)] :
    (s : σ) → (actions : List α) → Decidable (Along step C s actions)
  | _, [] => isTrue trivial
  | s, a :: rest =>
    match h : step s a with
    | none => decidable_of_iff _ (along_stuck h).symm
    | some t =>
      have : Decidable (Along step C t rest) := decidableAlong t rest
      decidable_of_iff _ (along_cons h).symm

theorem Along.and {C D : σ → α → Prop} {s : σ} {actions : List α} (hc : Along step C s actions)
    (hd : Along step D s actions) : Along step (fun s a => C s a ∧ D s a) s actions := by
  induction actions generalizing s with
  | nil => trivial
  | cons a rest ih => exact ⟨⟨hc.1,hd.1⟩,fun t ht => ih (hc.2 t ht) (hd.2 t ht)⟩

theorem run_append_of {s t : σ} {before : List α} (hb : run step s before = some t) (after : List α) :
    run step s (before ++ after) = run step t after := by
  induction before generalizing s with
  | nil =>
    obtain rfl : s = t := by simpa [run] using hb
    rfl
  | cons a rest ih =>
    obtain ⟨v,hv,hb⟩ := Option.bind_eq_some_iff.mp hb
    rw [List.cons_append,run,hv,Option.bind_some,ih hb]

theorem run_append {s t u : σ} {before after : List α} (hb : run step s before = some t)
    (ha : run step t after = some u) : run step s (before ++ after) = some u :=
  (run_append_of hb after).trans ha

/-- What each allowed action keeps, a run of allowed actions keeps. -/
theorem run_invariant {I : σ → Prop} {C : σ → α → Prop}
    (h : ∀ s a t, I s → C s a → step s a = some t → I t) {s t : σ} {actions : List α}
    (hs : I s) (hc : Along step C s actions) (hr : run step s actions = some t) : I t := by
  induction actions generalizing s with
  | nil =>
    obtain rfl : s = t := by simpa [run] using hr
    exact hs
  | cons a rest ih =>
    obtain ⟨u,hu,hr⟩ := Option.bind_eq_some_iff.mp hr
    exact ih (h s a u hs hc.1 hu) (hc.2 u hu) hr

/-- What every action keeps, every run keeps. -/
theorem run_keeps {I : σ → Prop} (h : ∀ s a t, I s → step s a = some t → I t) {s t : σ} {actions : List α}
    (hs : I s) (hr : run step s actions = some t) : I t := by
  induction actions generalizing s with
  | nil =>
    obtain rfl : s = t := by simpa [run] using hr
    exact hs
  | cons a rest ih =>
    obtain ⟨u,hu,hr⟩ := Option.bind_eq_some_iff.mp hr
    exact ih (h s a u hs hu) hr

/-- Where an allowed action is one that keeps a state good, a run is allowed as long as its states are good. -/
theorem along_iff {I G : σ → Prop} {C : σ → α → Prop} (hkept : ∀ s a t, I s → step s a = some t → I t)
    (hgood : ∀ s a t, I s → G s → step s a = some t → (G t ↔ C s a)) {s t : σ} {actions : List α}
    (hs : I s) (hg : G s) (hr : run step s actions = some t) :
    Along step C s actions ↔ ∀ before after u, actions = before ++ after → run step s before = some u → G u := by
  induction actions generalizing s with
  | nil =>
    refine ⟨fun _ before after u hsplit hu => ?_,fun _ => trivial⟩
    obtain ⟨rfl,-⟩ := List.append_eq_nil_iff.mp hsplit.symm
    cases hu
    exact hg
  | cons a rest ih =>
    obtain ⟨v,hv,hr⟩ := Option.bind_eq_some_iff.mp hr
    have hiff := hgood s a v hs hg hv
    rw [along_cons hv]
    constructor
    · rintro ⟨hc,hrest⟩ before after u hsplit hu
      cases before with
      | nil =>
        cases hu
        exact hg
      | cons b before =>
        rw [List.cons_append,List.cons_eq_cons] at hsplit
        obtain ⟨rfl,hsplit⟩ := hsplit
        rw [run,hv,Option.bind_some] at hu
        exact (ih (hkept s a v hs hv) (hiff.mpr hc) hr).mp hrest before after u hsplit hu
    · intro hall
      have hgv : G v := hall [a] rest v rfl (by rw [run,hv,Option.bind_some,run])
      refine ⟨hiff.mp hgv,(ih (hkept s a v hs hv) hgv hr).mpr ?_⟩
      intro before after u hsplit hu
      refine hall (a :: before) after u (by rw [hsplit,List.cons_append]) ?_
      rw [run,hv,Option.bind_some,hu]

end System
end Library
