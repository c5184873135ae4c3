import Wudup.ComposePersistence
import Wudup.Models

/-! The Compose rewrites of an update, over the renderers that compute their text. -/
namespace Wudup
open Library Library.Program Library.Versioned

/-- What the renderers make of the Compose text they read: the text to write, if any, and the
updates it applies. -/
structure Renderers (β : Type) where
  tags : List TagUpdate → β → Except Exn (Option β × List AppliedTagUpdate)
  digestPins : List DigestPinUpdate → β → Except Exn (β × List AppliedDigestPinUpdate)
  retags : List DigestPinUpdate → β → Except Exn (β × List AppliedDigestPinUpdate)
  digestUnpins : List DigestUnpinUpdate → β → Except Exn (β × List AppliedDigestUnpinUpdate)

variable {β Hash S α : Type} [DecidableEq Hash] (sha256 : β → Hash)

/-- Renders the text the Compose file holds and replaces the file, with the written hash tracked. -/
def applyRendered (render : β → Except Exn (Option β × List α)) (sourceHash : Hash) :
    Operation β Hash S (List α) := do
  let _ ← step
  let w ← get
  match render w.compose.content with
  | .error e => throw e
  | .ok (none, applied) => pure applied
  | .ok (some rendered, applied) => do
    let _ ← atomicReplaceCompose sha256 .rewrite rendered (some sourceHash) true
    pure applied

/-- A renderer that always produces text. -/
def always (render : β → Except Exn (β × List α)) (source : β) : Except Exn (Option β × List α) :=
  (render source).map fun (rendered,applied) => (some rendered,applied)

def applyComposeTagUpdates (render : Renderers β) (updates : List TagUpdate) (expectedSourceHash : Hash) :
    Operation β Hash S (List AppliedTagUpdate) :=
  if updates = [] then pure [] else applyRendered sha256 (render.tags updates) expectedSourceHash

def applyComposeDigestPins (render : Renderers β) (updates : List DigestPinUpdate)
    (expectedSourceHash : Hash) : Operation β Hash S (List AppliedDigestPinUpdate) :=
  applyRendered sha256 (always (render.digestPins updates)) expectedSourceHash

def applyComposeRetagUpdates (render : Renderers β) (updates : List DigestPinUpdate)
    (expectedSourceHash : Hash) : Operation β Hash S (List AppliedDigestPinUpdate) :=
  applyRendered sha256 (always (render.retags updates)) expectedSourceHash

def applyComposeDigestUnpins (render : Renderers β) (updates : List DigestUnpinUpdate)
    (expectedSourceHash : Hash) : Operation β Hash S (List AppliedDigestUnpinUpdate) :=
  applyRendered sha256 (always (render.digestUnpins updates)) expectedSourceHash

variable {sha256} {P Q : World β Hash S → Prop}

/-- A rewrite renders the text it loads; only edits from outside come between that and its check. -/
theorem applyRendered_loads {render : β → Except Exn (Option β × List α)} {sourceHash : Hash}
    (hP : Stable P) (hQ : Stable Q)
    (h : ∀ (w₀ w : World β Hash S) rendered applied, P w → EditedSince w₀.compose w.compose →
      render w₀.compose.content = .ok (some rendered,applied) → sha256 w.compose.content = sourceHash →
      Q (replaced sha256 .rewrite rendered true w)) :
    Ends P (applyRendered sha256 render sourceHash)
      (fun applied w => (P w ∧ ∃ source, render source = .ok (none,applied)) ∨ Q w)
      (fun _ w => P w ∨ Q w) := by
  refine Ends.bind (Keeps.ends (step_ends hP) fun _ _ => .inl) fun _ => ?_
  refine Ends.get_bind fun w₀ hw₀ => ?_
  have hsince : Stable fun w : World β Hash S => P w ∧ EditedSince w₀.compose w.compose :=
    hP.and (Stable.of_edit (fun _ _ h => h) fun _ c h => h.edited c)
  cases hr : render w₀.compose.content with
  | error e => exact Ends.throw (by rintro _ rfl; exact .inl hw₀)
  | ok r =>
    obtain ⟨_ | rendered,applied⟩ := r
    · exact Ends.pure (by rintro _ rfl; exact .inl ⟨hw₀,_,hr⟩)
    · refine Ends.bind (R := fun _ => Q) ?_ fun _ => Ends.pure fun _ => .inr
      refine Ends.start ((atomicReplaceCompose_ends hsince hQ ?_).mono (fun _ h => h) (fun _ _ h => h) ?_)
        ⟨hw₀,EditedSince.refl _⟩
      · exact fun w hw hc => h w₀ w rendered applied hw.1 hw.2 hr hc
      · exact fun _ _ hw => hw.imp_left (·.1)

theorem applyRendered_ends {render : β → Except Exn (Option β × List α)} {sourceHash : Hash}
    (hP : Stable P) (hQ : Stable Q)
    (h : ∀ w rendered, P w → sha256 w.compose.content = sourceHash →
      Q (replaced sha256 .rewrite rendered true w)) :
    Ends P (applyRendered sha256 render sourceHash) (fun _ w => P w ∨ Q w) (fun _ w => P w ∨ Q w) :=
  (applyRendered_loads hP hQ fun _ w rendered _ hw _ _ hc => h w rendered hw hc).mono (fun _ h => h)
    (fun _ _ h => h.imp_left (·.1)) fun _ _ h => h

/-- A renderer that always produces text returns only after the replacement. -/
theorem applyAlways_loads {render : β → Except Exn (β × List α)} {sourceHash : Hash}
    (hP : Stable P) (hQ : Stable Q)
    (h : ∀ (w₀ w : World β Hash S) rendered applied, P w → EditedSince w₀.compose w.compose →
      render w₀.compose.content = .ok (rendered,applied) → sha256 w.compose.content = sourceHash →
      Q (replaced sha256 .rewrite rendered true w)) :
    Ends P (applyRendered sha256 (always render) sourceHash) (fun _ => Q) (fun _ w => P w ∨ Q w) := by
  have halways : ∀ source text applied, always render source = .ok (text,applied) →
      ∃ rendered, text = some rendered ∧ render source = .ok (rendered,applied) := by
    intro source text applied ht
    unfold always at ht
    cases hr : render source with
    | error e => simp [hr,Except.map] at ht
    | ok r =>
      simp only [hr,Except.map,Except.ok.injEq,Prod.mk.injEq] at ht
      exact ⟨r.1,ht.1.symm,by rw [← ht.2]⟩
  refine (applyRendered_loads hP hQ ?_).mono (fun _ h => h) ?_ fun _ _ h => h
  · intro w₀ w rendered applied hw hs hr hc
    obtain ⟨rendered',he,hr⟩ := halways _ _ _ hr
    obtain rfl := Option.some.inj he
    exact h w₀ w rendered applied hw hs hr hc
  · rintro applied w (⟨-,source,hr⟩ | hq)
    · obtain ⟨rendered,he,-⟩ := halways _ _ _ hr
      exact absurd he (by simp)
    · exact hq

theorem applyAlways_ends {render : β → Except Exn (β × List α)} {sourceHash : Hash}
    (hP : Stable P) (hQ : Stable Q)
    (h : ∀ w rendered, P w → sha256 w.compose.content = sourceHash →
      Q (replaced sha256 .rewrite rendered true w)) :
    Ends P (applyRendered sha256 (always render) sourceHash) (fun _ => Q) (fun _ w => P w ∨ Q w) :=
  applyAlways_loads hP hQ fun _ w rendered _ hw _ _ hc => h w rendered hw hc

end Wudup
